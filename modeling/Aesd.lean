import Aesd.DriverChecks
import Aesd.LogDeviceChecks
import Aesd.EmptyWriteChecks
import Aesd.ForgetChecks
import Aesd.FramingChecks
import Aesd.FreeChecks
import Aesd.HeapChecks
import Aesd.IndexChecks
import Aesd.LookupChecks
import Aesd.LoopChecks
import Aesd.OutageChecks
import Aesd.PositionChecks
import Aesd.ReadChecks
import Aesd.ReplyChecks
import Aesd.ResourceChecks
import Aesd.RingFieldChecks
import Aesd.SeekChecks
import Aesd.SeekCommandChecks
import Aesd.SocketChecks
import Aesd.SystemcallsChecks
import Aesd.ThreadingChecks
import Aesd.TraceChecks
import Aesd.TrimChecks
import Aesd.WrapChecks
import Aesd.WriteAllChecks
import Aesd.WriteChecks
import Aesd.WritersChecks
