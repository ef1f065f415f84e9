import Elitra.HeapPages
import Elitra.CowFault
import Elitra.CloneCopy
import Elitra.CowRun
import Elitra.MmapZero
import Elitra.ElfBounds
import Elitra.ExecArgs
import Elitra.Creation
import Elitra.SchedWake
import Elitra.SchedRelease
import Elitra.SigFrame
import Elitra.Waitpid
import Elitra.SyscallsConfined
import Elitra.SwapFrames
import Elitra.Teardown
import Elitra.ForkView
import Elitra.PipeEnds
import Elitra.Ext2
import Elitra.Cwd
import Elitra.FileCalls
import Elitra.Environ
import Elitra.SleepTime
import Elitra.Clock
import Elitra.Poll
import Elitra.Permissions
import Elitra.Fat32Chains
import Elitra.Fat32Names
import Elitra.Virtio
import Elitra.E1000
import Elitra.NetLocks
import Elitra.TcpWindow
import Elitra.TcpStates
import Elitra.NetSockets
import Elitra.Arp
import Elitra.DmaRanges
import Elitra.ShellSpec
import Elitra.ShellHeap
import Elitra.Sort
import Elitra.Gui
import Elitra.UsbBulk
