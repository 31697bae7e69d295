import Fuzix.SchedWake
import Fuzix.SchedTurns
import Fuzix.FlockRuns
import Fuzix.Exec16
import Fuzix.Exec32
import Fuzix.FamilyWait
import Fuzix.TtyRuns
import Fuzix.NetRuns
import Fuzix.NetWrite
import Fuzix.Mkfs
import Fuzix.SetidRuns
import Fuzix.NetdRuns
import Fuzix.Accept
import Fuzix.MallocRuns
import Fuzix.Filename
import Fuzix.WalkRefs
import Fuzix.Rmdir
import Fuzix.Bank32k
import Fuzix.Bank8k
import Fuzix.SwapVictim
import Fuzix.Lru
import Fuzix.KmallocRuns
import Fuzix.VmmuContext
import Fuzix.Forking
import Fuzix.Kill
import Fuzix.TtyWrite
import Fuzix.Dup
import Fuzix.Mbr
import Fuzix.Wargs
import Fuzix.Single
import Fuzix.Pipe
import Fuzix.DirectReads
import Fuzix.Nice
import Fuzix.Alarm
import Fuzix.Waitpid
import Fuzix.SelectRuns
import Fuzix.PassesDup
import Fuzix.Load
import Fuzix.Clock
import Fuzix.Bootdevice
import Fuzix.Vt
import Fuzix.Session
import Fuzix.Rlimit
import Fuzix.Jobcontrol
import Fuzix.Brk
import Fuzix.Tinymalloc
import Fuzix.Inittab
import Fuzix.Timer
import Fuzix.CharQueue
