import RustApi.Lib.StepRuns
import RustApi.Lib.HashMap
import RustApi.Lib.Text
import RustApi.Lib.FormEncoding
import RustApi.Lib.Panic
import RustApi.Lib.Splitting
import RustApi.Engine.Http
import RustApi.Engine.PlainHttp
import RustApi.Engine.Matchit
import RustApi.Engine.Router
import RustApi.Engine.RouterIndexes
import RustApi.Engine.RouterHistory
import RustApi.Engine.RouterAnswers
import RustApi.Engine.RouterRuns
import RustApi.Engine.RouterErrors
import RustApi.Engine.PathParams
import RustApi.Engine.RouterTables
import RustApi.Engine.WholeSegments
import RustApi.Engine.Request
import RustApi.Engine.Body
import RustApi.Engine.Response
import RustApi.Engine.Server
import RustApi.Engine.Rendering
import RustApi.Engine.WireHeaders
import RustApi.Engine.Dispatch
import RustApi.Engine.Serving
import RustApi.Engine.ServingRuns
import RustApi.Engine.ServingSafety
import RustApi.Engine.Sending
import RustApi.Python.Values
import RustApi.Python.Requests
import RustApi.Python.Conversion
import RustApi.Python.HeaderOrder
import RustApi.Python.App
import RustApi.Python.Sessions
import RustApi.Python.Handler
import RustApi.Python.Answers
import RustApi.Python.Serving
import RustApi.Python.Arrivals
import RustApi.Python.Echo
import RustApi.Python.Package
