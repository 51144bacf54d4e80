import C4os.Kernel.Shell
import C4os.Sched.Isolation

/-!
# From a file to a process (`make_listfs.c`, `kernel.c`, `multitasking.c`)

* `lastBlock`: the bytes of a file in its last block.
* `findFile_program`: `find_file` returns that block of a program of the image.
* **`program_loaded`**: what a new process executes first, for a program of an image of
  `make_listfs`.
-/

namespace C4os

open Machine

/-- The bytes of a file from the last multiple of 512 on. -/
def lastBlock (content : List UInt8) : List UInt8 :=
  content.drop (512 * ((content.length - 1) / 512))

section

variable {content l : List UInt8} {bs n : Nat}

theorem length_lastBlock (content : List UInt8) : (lastBlock content).length ≤ 512 := by
  unfold lastBlock
  rw [List.length_drop]
  omega

theorem lastBlock_of_le (h : content.length ≤ 512) : lastBlock content = content := by
  have hzero : (content.length - 1) / 512 = 0 := by omega
  unfold lastBlock
  rw [hzero, Nat.mul_zero, List.drop_zero]

theorem getLast?_chunks (hl : content ≠ []) (hn : content.length ≤ n * 512) :
    (chunks 512 n content).getLast? = some (fillBuffer 512 zeros (lastBlock content)) := by
  induction n generalizing content with
  | zero => exact absurd (List.length_eq_zero_iff.mp (by omega)) hl
  | succ n ih =>
    rw [chunks, if_neg hl, List.getLast?_cons]
    by_cases hle : content.length ≤ 512
    · have hdrop : content.drop 512 = [] := List.drop_eq_nil_of_le hle
      rw [hdrop, chunks_nil, List.getLast?_nil, Option.getD_none, List.take_of_length_le hle,
        lastBlock_of_le hle]
    · have hlen : (content.drop 512).length = content.length - 512 := List.length_drop
      have hne : content.drop 512 ≠ [] := by
        intro hnil
        rw [hnil] at hlen
        exact hle (by simp at hlen; omega)
      have hlast : lastBlock (content.drop 512) = lastBlock content := by
        unfold lastBlock
        rw [List.drop_drop, hlen]
        congr 1
        omega
      rw [ih hne (by omega), hlast, Option.getD_some]

theorem sector_eq {s : Sector} (hl : l.length ≤ 512) (h : s.bytes = fillBuffer 512 zeros l) :
    s = .ofBytes l := by
  obtain ⟨bytes, hlen⟩ := s
  have hbytes : bytes = (l ++ List.replicate 512 0).take 512 := by
    rw [List.take_append, List.take_of_length_le hl, List.take_replicate]
    have hmin : min (512 - l.length) 512 = 512 - l.length := by omega
    rw [hmin]
    exact h.trans (fillBuffer_zeros hl)
  subst hbytes
  rfl

end

section

variable {o : Options} {image : Builder} {dirName name content rest tail : List UInt8} {l : Listing}
  {disk : Disk} {fuel sector : Nat}

/-- **`find_file` returns the last block of a program.** -/
theorem findFile_program (hsource : o.source = some (dirName, l)) (hrun : makeListfs o = some image)
    (hbs : o.blockSize = 512) (hcount : o.blockCount.toNat ≤ COMMON_INDICATOR_32)
    (hl : l.NoneEmpty) (hn : ∀ h ∈ l.visible.heads, h.Named) (hname : ∀ b ∈ name, b ≠ 0)
    (hprog : l.program? name = some content) (hlen : content.length < 63 * 512)
    (hdisk : ∀ i < image.fsHeader.size, disk i = image.disk i)
    (hfind : findFile disk rest (name ++ 0 :: tail) fuel (uint32 image.fsHeader.firstFile) =
      some sector) : disk sector = .ofBytes (lastBlock content) := by
  obtain ⟨n, r, hr, hfinds⟩ := image_finds hsource hrun hbs hcount hl hn hname rest tail hdisk
  obtain ⟨-, hlt, hsize, -⟩ := image_dirData hsource hrun hbs hcount hl
  obtain ⟨r', hr', hpointer⟩ := Option.bind_eq_some_iff.mp hfind
  obtain rfl := findHeader_unique hr hr'
  unfold Listing.program? at hprog
  split at hprog
  · rename_i c he
    split_ifs at hprog with hc
    obtain rfl := Option.some.inj hprog
    rw [he] at hfinds
    obtain ⟨cur, data, v, rfl, hdata, hv, hfile⟩ := hfinds
    have hu : ∀ i ∈ v, i < COMMON_INDICATOR_32 :=
      fun i hi => Nat.lt_of_lt_of_le (hlt i (hv hi)) hsize
    have hmod : uint32 (data % 2 ^ 64) = data := by
      have hd := hu data (FileData.list_mem hfile)
      unfold COMMON_INDICATOR_32 at hd
      unfold uint32
      omega
    obtain ⟨blocks, more, hsub, hblocks, hchunks, hwords⟩ := words64_short rest hfile hu hlen
    have hlast := getLast?_chunks hc (Nat.le_of_lt hlen)
    rw [← hchunks, List.getLast?_map] at hlast
    obtain ⟨b, hb, hbytes⟩ := Option.map_eq_some_iff.mp hlast
    have hsector : some (blocks.getLastD COMMON_INDICATOR_32) = some sector := by
      rw [← hpointer]
      show _ = getFileDataPointer disk rest _
      unfold getFileDataPointer
      rw [hdata, hmod, hwords, scanList_append fun i hi => hu i (hsub hi)]
    rw [List.getLastD_eq_getLast?, hb, Option.getD_some] at hsector
    obtain rfl := Option.some.inj hsector
    exact sector_eq (length_lastBlock _) hbytes
  · cases hprog

/-- **What a new process executes first**: its thread starts at `USER_PROGRAM_BASE` in user mode, at a
page that user code may access and that holds the last block of the program. -/
theorem program_loaded {A : PhysAllocator} {k k' : Kernel} (hsource : o.source = some (dirName, l))
    (hrun : makeListfs o = some image) (hbs : o.blockSize = 512)
    (hcount : o.blockCount.toNat ≤ COMMON_INDICATOR_32) (hl : l.NoneEmpty)
    (hn : ∀ h ∈ l.visible.heads, h.Named) (hname : ∀ b ∈ name, b ≠ 0)
    (hprog : l.program? name = some content) (hlen : content.length < 63 * 512)
    (hdisk : ∀ i < image.fsHeader.size, disk i = image.disk i)
    (N : NewProcess A disk rest (name ++ 0 :: tail) fuel (uint32 image.fsHeader.firstFile) k)
    (hd : Directory A k.virt.machine (k.virt.spaces .kernel).pageDir)
    (hcall : runNewProcess A disk rest (name ++ 0 :: tail) fuel (uint32 image.fsHeader.firstFile) k =
      some k') :
    (k'.threads N.launch.thread.page).process = N.launch.process.page ∧
      (k'.threads N.launch.thread.page).state =
        entryState USER_PROGRAM_BASE (add32 N.launch.stack (pageShift 1)) false ∧
      UserPresent k'.virt.machine (k'.virt.spaces (.process N.launch.process.page)).pageDir
        USER_PROGRAM_BASE ∧
      (∀ j < 128, pageWord k'.virt.machine
          (k'.virt.spaces (.process N.launch.process.page)).pageDir USER_PROGRAM_BASE j =
        (Sector.ofBytes (lastBlock content)).word j) ∧
      (content.length ≤ 512 → ∀ j < 128, pageWord k'.virt.machine
          (k'.virt.spaces (.process N.launch.process.page)).pageDir USER_PROGRAM_BASE j =
        (Sector.ofBytes content).word j) := by
  obtain ⟨hb, himage, -, hdir⟩ := N.built hd hcall
  obtain ⟨huser, -⟩ := hb.user_page himage (Nat.le_refl 256) (by decide)
  have hthread : k'.threads = Function.update k.threads N.launch.thread.page
      ⟨N.launch.process.page, false, N.launch.stack, pageShift 1,
        entryState USER_PROGRAM_BASE (add32 N.launch.stack (pageShift 1)) false⟩ := by
    have hlaunch := hcall
    rw [N.eq, N.launch.runImage_eq] at hlaunch
    obtain ⟨h₁, -, hlaunch⟩ := Option.bind_eq_some_iff.mp hlaunch
    split_ifs at hlaunch
    obtain ⟨h₂, -, rfl⟩ := Option.map_eq_some_iff.mp hlaunch
    rfl
  have hpage : ∀ j < 128, pageWord k'.virt.machine
      (k'.virt.spaces (.process N.launch.process.page)).pageDir USER_PROGRAM_BASE j =
        (Sector.ofBytes (lastBlock content)).word j := by
    intro j hj
    rw [N.image_word hd hcall j, if_pos hj,
      findFile_program hsource hrun hbs hcount hl hn hname hprog hlen hdisk N.find]
  rw [hthread, Function.update_self]
  refine ⟨rfl, rfl, ?_, hpage, fun hle => ?_⟩
  · rw [hdir]
    exact huser
  · rwa [lastBlock_of_le hle] at hpage

/-- The program `a` of the small image. -/
theorem program_loaded_small : ∃ image, ∃ k' : Kernel, ∃ p t, makeListfs programOptions = some image ∧
    (k'.threads t).process = p ∧ (k'.threads t).state.eip = 0x100000 ∧
    ∀ j < 128, pageWord k'.virt.machine (k'.virt.spaces (.process p)).pageDir USER_PROGRAM_BASE j =
      (Sector.ofBytes [0xEB, 0xFE]).word j := by
  obtain ⟨image, hrun⟩ := makeListfs_program
  have hname : ∀ b ∈ [(97 : UInt8)], b ≠ 0 := by decide +kernel
  obtain ⟨fuel, -, hfind⟩ := onlyPrograms_of_launchable rfl hrun rfl (by decide) ⟨nofun, trivial⟩
    named_program hname (launchable_program _) image.disk [] [] fun _ _ => rfl
  obtain ⟨sector, -, -, hfile, -⟩ := hfind [0xEB, 0xFE] rfl
  have hsector : image.disk sector = .ofBytes [0xEB, 0xFE] :=
    findFile_program rfl hrun rfl (by decide) ⟨nofun, trivial⟩ named_program hname rfl (by decide)
      (fun _ _ => rfl) hfile
  have hkernel : imageKernel false = { smallKernel false with
      virt := (smallKernel false).virt.setMachine
        (((smallNewProcess false).m.tempMapPage 0x2F000).tempCopy (image.disk sector)) } := by
    rw [hsector]
    rfl
  obtain ⟨k', hk'⟩ := smallLaunch_returns false
  have hlaunch := smallLaunch false
  rw [hkernel] at hlaunch hk'
  obtain ⟨N, hN⟩ : ∃ N : NewProcess safeAllocator image.disk [] [97, 0] fuel
      (uint32 image.fsHeader.firstFile) (smallKernel false), N.sector = sector ∧
        N.image = 0x2F000 ∧ N.m = (smallNewProcess false).m :=
    ⟨⟨sector, 0x2F000, (smallNewProcess false).m, hfile, (smallNewProcess false).alloc_image,
      by decide, hlaunch⟩, rfl, rfl, rfl⟩
  have hcall : runNewProcess safeAllocator image.disk [] [97, 0] fuel
      (uint32 image.fsHeader.firstFile) (smallKernel false) = some k' := by
    rw [N.eq, hN.1, hN.2.1, hN.2.2]
    exact hk'
  obtain ⟨hprocess, hstate, -, -, hpage⟩ := program_loaded rfl hrun rfl (by decide)
    ⟨nofun, trivial⟩ named_program hname rfl (by decide) (fun _ _ => rfl) N
    (directory_smallMachine false) hcall
  exact ⟨image, k', _, _, hrun, hprocess, congrArg Registers.eip hstate, hpage (by decide)⟩

end

end C4os
