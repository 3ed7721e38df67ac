import MxOS.Lib.WriteLog
import MxOS.Lib.Memory
import MxOS.Lib.Bus
import MxOS.Lib.BlockList
import MxOS.Lib.Cells
import MxOS.Lib.RunScan
import MxOS.Lib.Ring
import MxOS.Lib.EventRun
import MxOS.Lib.RoundRobin
import MxOS.Lib.Lines
import MxOS.Lib.RowLayout
import MxOS.Lib.PageWalk
import MxOS.Lib.Interleaving
import MxOS.Boot
import MxOS.Drivers.Ata
import MxOS.Drivers.AtaPorts
import MxOS.Drivers.AtaProtocol
import MxOS.Drivers.FsLayout
import MxOS.Drivers.Fs
import MxOS.Drivers.FsTransfer
import MxOS.Drivers.FsReading
import MxOS.Drivers.FsPlan
import MxOS.Drivers.FsInvariant
import MxOS.Drivers.FsConfinement
import MxOS.Drivers.FsRollback
import MxOS.Drivers.FsNames
import MxOS.Drivers.FsReboot
import MxOS.Drivers.FsRefinement
import MxOS.Drivers.FsDisplay
import MxOS.Drivers.FsCrash
import MxOS.Drivers.FsMount
import MxOS.Drivers.FsOutcome
import MxOS.Drivers.FsDurable
import MxOS.Drivers.FsReplies
import MxOS.Kernel.Mem
import MxOS.Kernel.MemChain
import MxOS.Kernel.HeapInvariant
import MxOS.Kernel.HeapRoom
import MxOS.Kernel.HeapOwners
import MxOS.Kernel.MallocSteps
import MxOS.Kernel.MallocSearch
import MxOS.Kernel.Paging
import MxOS.Kernel.Keyboard
import MxOS.Kernel.KeyboardQueue
import MxOS.Kernel.KeyboardShift
import MxOS.Kernel.Mailbox
import MxOS.Kernel.MailboxPreemption
import MxOS.Kernel.Sched
import MxOS.Kernel.SchedSteps
import MxOS.Kernel.SchedOwnership
import MxOS.Kernel.SchedMessages
import MxOS.Kernel.SchedContext
import MxOS.Kernel.HeapStacks
import MxOS.Kernel.SchedCreation
import MxOS.Kernel.SchedElection
import MxOS.Kernel.SchedSleep
import MxOS.Kernel.SchedTicks
import MxOS.Kernel.SchedFairness
import MxOS.Kernel.KillPreemption
import MxOS.Kernel.MallocPreemption
import MxOS.Kernel.StackFrames
import MxOS.Kernel.Syscall
import MxOS.Kernel.Elf
import MxOS.Kernel.ElfConfinement
import MxOS.Kernel.ElfPlacement
import MxOS.Kernel.ElfReads
import MxOS.Kernel.Exec
import MxOS.Kernel.ExecWindows
import MxOS.Kernel.ExecSlots
import MxOS.Kernel.ExecIsolation
import MxOS.Kernel.ExecFailure
import MxOS.Kernel.ExecArguments
import MxOS.Kernel.Translation
import MxOS.Kernel.Processor
import MxOS.Kernel.ContextSwitch
import MxOS.Kernel.ContextRuns
import MxOS.Kernel.Interrupts
import MxOS.Kernel.Gdt
import MxOS.Kernel.ScreenNumbers
import MxOS.Kernel.Exceptions
import MxOS.Kernel.Screen
import MxOS.Kernel.ScreenTail
import MxOS.Kernel.ScreenClock
import MxOS.Kernel.Shell
import MxOS.Kernel.ShellHistory
import MxOS.Kernel.ShellEditor
import MxOS.Kernel.ShellCommand
import MxOS.Kernel.ShellRefinement
import MxOS.Kernel.ShellScreen
import MxOS.Kernel.ShellArguments
import MxOS.Kernel.TaskNames
import MxOS.Kernel.ShellNumbers
import MxOS.Kernel.ShellInput
import MxOS.Kernel.Desk
import MxOS.Kernel.Main
