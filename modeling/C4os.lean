import C4os.Stdlib.Tags
import C4os.Stdlib.Strings
import C4os.Memory.VirtRun
import C4os.Memory.MemoryMap
import C4os.Memory.Isolated
import C4os.Memory.BlockTable
import C4os.Memory.Placement
import C4os.Memory.Remap
import C4os.Memory.Backed
import C4os.Memory.Capacity
import C4os.Sched.RoundRobin
import C4os.Sched.TssPage
import C4os.Sched.Translation
import C4os.Sched.Interrupt
import C4os.Sched.Stacks
import C4os.Sched.Preempt
import C4os.Drivers.Keyboard
import C4os.Drivers.Overrun
import C4os.Drivers.Tty
import C4os.Drivers.InString
import C4os.Drivers.TtyAccess
import C4os.Drivers.Numbers
import C4os.Drivers.SectorRead
import C4os.ListFs.Decode
import C4os.ListFs.Programs
import C4os.Stdlib.Fill
import C4os.Drivers.Timer
import C4os.Sched.Waiting
import C4os.Sched.ListCalls
import C4os.Boot.Kernel
import C4os.Kernel.Shell
import C4os.Kernel.Interrupts
import C4os.Kernel.Program
import C4os.Sched.UserThread
