import Giri.Cache.SourceTheorems
import Giri.Call.DeferTheorems
import Giri.Call.DispatchTheorems
import Giri.Call.RecoverTheorems
import Giri.Call.SliceExpr
import Giri.Call.StackAllocs
import Giri.Call.TypeAssert
import Giri.Interp.CliTheorems
import Giri.Interp.EscapeTheorems
import Giri.Interp.HappensBefore
import Giri.Interp.Independence
import Giri.Interp.Lifetimes
import Giri.Interp.Locals
import Giri.Interp.MapRange
import Giri.Interp.Phi
import Giri.Interp.RaceChecks
import Giri.Interp.Settings
import Giri.Interp.SuppressTheorems
import Giri.Interp.UintptrTheorems
import Giri.Lsp.Diagnostic
import Giri.Lsp.Server
import Giri.Memory.Encoding
import Giri.Memory.Grow
import Giri.Report.Format
import Giri.Sched.Policy
import Giri.Session.CacheTheorems
import Giri.Session.IsolationTheorems
import Giri.Session.OrderTheorems
import Giri.Session.Trace
import Giri.Value.Compare
import Giri.Value.MapKeyTheorems
