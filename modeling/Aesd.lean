import Aesd.Driver.Log
import Aesd.Driver.Module
import Aesd.Driver.Offsets
import Aesd.Driver.ReadRuns
import Aesd.Examples.SystemCalls
import Aesd.Examples.Threading
import Aesd.Server.Daemon
import Aesd.Server.FileLog
import Aesd.Server.Flush
import Aesd.Server.ListenSocket
import Aesd.Server.PacketBounds
import Aesd.Server.SharedStrtok
import Aesd.Server.Whole
import Aesd.Threads.Pass
