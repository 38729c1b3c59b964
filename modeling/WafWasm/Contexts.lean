import WafWasm.ConfigParser
import WafWasm.HttpParser

set_option autoImplicit false

/-!
# The filter's contexts and callbacks

What the host answers, the header pairs and single headers of a request, is the argument of a
callback; the status it returns and the local response it sends are the result. Log calls are
left out.
-/
namespace WafWasm.Contexts
open Common UnorderedContainers HttpParser Sqli JsonValue ConfigParser

structure ExampleRootContext where
  config : Config := {}
deriving DecidableEq

structure ExampleContext where
  contentType : Bytes := []
  config : Config := {}
deriving DecidableEq

structure LocalResponse where
  responseCode : ℕ
  responseCodeDetails : Bytes
  bodyText : Bytes
deriving DecidableEq

inductive FilterHeadersStatus where
  | continue | stopIteration
deriving DecidableEq

inductive FilterDataStatus where
  | continue | stopIterationAndBuffer
deriving DecidableEq

/-- `getRequestHeaderPairs`, and `getRequestHeader`, empty for a header the request lacks. -/
structure Request where
  pairs : List (Bytes × Bytes)
  header : Bytes → Bytes

structure Outcome (Status : Type) where
  status : Status
  response : Option LocalResponse
  context : ExampleContext

def onSQLi (part : Bytes) : LocalResponse :=
  ⟨403, bytes "SQLi at " ++ part, bytes "SQL injection detected"⟩

section Root
variable (parse : Bytes → Option Json) (order : IterationOrder)

def onConfigure (configuration : Bytes) : EStateM TypeError ExampleRootContext Bool := fun root =>
  if configuration.length = 0 then .ok true root
  else
    match parseConfig parse order.keys configuration ⟨root.config, []⟩ with
    | .ok accepted s => .ok accepted ⟨s.config⟩
    | .error e s => .error e ⟨s.config⟩

end Root

def onCreate (root : ExampleRootContext) (ctx : ExampleContext) : ExampleContext :=
  { ctx with config := root.config }

section Stream
variable (detectSQLi : Bytes → Bool) (order : IterationOrder)

def onRequestHeaders (ctx : ExampleContext) (req : Request) : Outcome FilterHeadersStatus :=
  let config := ctx.config
  let headers := collect req.pairs
  if (detectSQLiOnParams detectSQLi order headers config.headerInclude config.headers).found then
    ⟨.stopIteration, some (onSQLi (bytes "Header")), ctx⟩
  else
    let cookies := parseCookie (req.header (bytes "Cookie"))
    if (detectSQLiOnParams detectSQLi order cookies config.cookieInclude config.cookies).found then
      ⟨.stopIteration, some (onSQLi (bytes "cookie")), ctx⟩
    else
      -- the source parses the path here and traces the result, then scans the cookies again
      let _pathParams := parsePath (req.header (bytes ":path"))
      if (detectSQLiOnParams detectSQLi order cookies config.pathInclude config.path).found then
        ⟨.stopIteration, some (onSQLi (bytes "path")), ctx⟩
      else
        ⟨.continue, none, { ctx with contentType := req.header (bytes "content-type") }⟩

def onRequestBody (ctx : ExampleContext) (body : Bytes) : Outcome FilterDataStatus :=
  if ctx.contentType ≠ urlencoded then ⟨.continue, none, ctx⟩
  else
    let bodyParams := parseBody body
    if (detectSQLiOnParams detectSQLi order bodyParams ctx.config.bodyInclude ctx.config.body).found
    then ⟨.stopIterationAndBuffer, some (onSQLi (bytes "body")), ctx⟩
    else ⟨.continue, none, ctx⟩

end Stream
end WafWasm.Contexts
