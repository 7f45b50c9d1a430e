import Xv6.Bio.Supply
import Xv6.Boot.Bootmain
import Xv6.Boot.Mp
import Xv6.Console.LineDiscipline
import Xv6.Console.Screen
import Xv6.Fs.LogWrites
import Xv6.Kernel.Counters
import Xv6.Kernel.ExecCall
import Xv6.Kernel.FileTable
import Xv6.Kernel.ForkFailure
import Xv6.Kernel.Growproc
import Xv6.Kernel.Neutral
import Xv6.Kernel.PointerCheck
import Xv6.Kernel.Remap
import Xv6.Kernel.ShmFields
import Xv6.Kernel.ShmOpen
import Xv6.Log.Space
import Xv6.Mem.KernelMap
import Xv6.Mem.ShmTable
import Xv6.Mkfs.Readable
import Xv6.Pipe.Lossless
import Xv6.Pipe.Wakeup
import Xv6.Proc.Kill
import Xv6.Proc.Tree
import Xv6.Strings.Printint
import Xv6.Strings.Strcmp
import Xv6.User.BigMalloc
import Xv6.User.Grep
