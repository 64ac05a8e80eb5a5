import Kave.Std.Vec
import Kave.Std.Str
import Kave.Proto.Types
import Kave.Proto.Read
import Kave.Proto.Safety
import Kave.Proto.Feed
import Kave.Proto.Stream
import Kave.Proto.Termination
import Kave.Proto.Grammar
import Kave.Proto.Accept
import Kave.Proto.Reuse
import Kave.Proto.Calls
import Kave.Proto.Write
import Kave.Proto.Errors
import Kave.Proto.Reports
import Kave.Store.SortedMap
import Kave.Store.Lsm
import Kave.Store.Sessions
