import WafWasm.JsonValue
import WafWasm.Sqli

set_option autoImplicit false

/-!
# The configuration and its parser

`parseConfig` writes into the `Config` it is given while it validates, part by part; a type
error of the JSON library leaves what was written so far. `EStateM` keeps both.
-/
namespace WafWasm.ConfigParser
open Common UnorderedContainers JsonValue

structure Config where
  contentType : Bytes := urlencoded
  bodyInclude : Bool := false
  body : Keys := ∅
  pathInclude : Bool := false
  path : Keys := ∅
  headerInclude : Bool := true
  headers : Keys := {bytes "referer", bytes "user-agent"}
  cookieInclude : Bool := false
  cookies : Keys := ∅
deriving DecidableEq

def configFieldToString (order : Traversal Bytes) (isInclude : Bool) (keys : Keys) : Bytes :=
  (order.visit keys).foldl (fun str s => str ++ s ++ bytes ", ")
    (if isInclude then bytes "include: " else bytes "exclude: ")

/-- The path part is rendered by the source as well, and left out of the result. -/
def Config.toString (order : Traversal Bytes) (config : Config) : Bytes :=
  let bodyStr := bytes "\nbody " ++ configFieldToString order config.bodyInclude config.body
  let headerStr :=
    bytes "\nheaders " ++ configFieldToString order config.headerInclude config.headers
  let cookieStr :=
    bytes "\ncookies " ++ configFieldToString order config.cookieInclude config.cookies
  bytes "config: " ++ config.contentType ++ bodyStr ++ headerStr ++ cookieStr

/-- The two fields of `Config` that a call of the validator gets pointers to. -/
inductive Part where
  | body | path | cookie | header
deriving DecidableEq

def Config.setInclude (config : Config) (isInclude : Bool) : Part → Config
  | .body => { config with bodyInclude := isInclude }
  | .path => { config with pathInclude := isInclude }
  | .cookie => { config with cookieInclude := isInclude }
  | .header => { config with headerInclude := isInclude }

def Config.setKeys (config : Config) (keys : Keys) : Part → Config
  | .body => { config with body := keys }
  | .path => { config with path := keys }
  | .cookie => { config with cookies := keys }
  | .header => { config with headers := keys }

structure ParseState where
  config : Config
  log : Bytes

abbrev ConfigM := EStateM TypeError ParseState

def throwing {α : Type} : Except TypeError α → ConfigM α
  | .ok a => pure a
  | .error e => throw e

def setLog (log : Bytes) : ConfigM Unit := modify fun s => { s with log := log }

def setInclude (part : Part) (isInclude : Bool) : ConfigM Unit :=
  modify fun s => { s with config := s.config.setInclude isInclude part }

def setKeys (part : Part) (keys : Keys) : ConfigM Unit :=
  modify fun s => { s with config := s.config.setKeys keys part }

def validateConfigField (field : Json) (part : Part) : ConfigM Bool := do
  if field.isNull then
    return true
  let included ← throwing (field.at (bytes "include"))
  let excluded ← throwing (field.at (bytes "exclude"))
  if !included.isNull && !excluded.isNull then
    setLog (bytes "include and exclude cannot both be present")
    return false
  if !included.isNull then
    setInclude part true
    let _includeKeys ← throwing included.getKeys
    setKeys part (← throwing included.getKeys)
  if !excluded.isNull then
    setInclude part false
    setKeys part (← throwing excluded.getKeys)
  return true

/-- The block of `parseConfig` on the body part, which must name the supported content type. -/
def validateBody (queryParam : Json) : ConfigM Bool := do
  if queryParam.isNull then
    return true
  let contentType ← throwing (queryParam.at (bytes "content-type"))
  if contentType.isNull then
    setLog (bytes "missing content-type field under body")
    return false
  let contentType ← throwing contentType.getString
  if contentType ≠ urlencoded then
    setLog (bytes
      "invalid content type, only application/x-www-form-urlencoded is supported")
    return false
  validateConfigField queryParam .body

variable (parse : Bytes → Option Json) (order : Traversal Bytes)

def parseConfig (configuration : Bytes) : ConfigM Bool := do
  match parse configuration with
  | none =>
    setLog (bytes "JSON parse error in configuration")
    return false
  | some j =>
    if !(← validateBody (← throwing (j.at (bytes "body")))) then
      return false
    if !(← validateConfigField (← throwing (j.at (bytes "path"))) .path) then
      return false
    if !(← validateConfigField (← throwing (j.at (bytes "cookie"))) .cookie) then
      return false
    if !(← validateConfigField (← throwing (j.at (bytes "header"))) .header) then
      return false
    modify fun s =>
      { s with log := bytes "config parsed into context ->" ++ s.config.toString order }
    return true

end WafWasm.ConfigParser
