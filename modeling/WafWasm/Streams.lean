import WafWasm.BodyCallback
import WafWasm.RequestAgreement
import WafWasm.SharedSnapshots

set_option autoImplicit false

/-!
# Streams of one root context

The root context and its stream contexts as a system: `onConfigure` updates the shared part,
`onCreate` takes the snapshot, the callbacks of a stream are the calls. A rejected text and one
whose type error leaves `onConfigure` update the root as well, with what they wrote until then;
runs that go on after such an error are covered though the module may not survive it. Every
call comes with the iteration order it happens to use.
-/
namespace WafWasm.Streams
open Common Sqli JsonValue Contexts HeaderCallback BodyCallback RequestAgreement SharedSnapshots

inductive Callback where
  | onRequestHeaders (req : Request)
  | onRequestBody (body : Bytes)

inductive Answer where
  | headers (status : FilterHeadersStatus) (response : Option LocalResponse)
  | body (status : FilterDataStatus) (response : Option LocalResponse)
deriving DecidableEq

variable (parse : Bytes → Option Json) (detectSQLi : Bytes → Bool)

def serve (ctx : ExampleContext) (order : IterationOrder) : Callback → ExampleContext × Answer
  | .onRequestHeaders req =>
    let out := onRequestHeaders detectSQLi order ctx req
    (out.context, .headers out.status out.response)
  | .onRequestBody body =>
    let out := onRequestBody detectSQLi order ctx body
    (out.context, .body out.status out.response)

def waf : System (IterationOrder × Bytes) (IterationOrder × Callback) ExampleRootContext
    ExampleContext Answer where
  update root call :=
    match onConfigure parse call.1 call.2 root with
    | .ok _ root | .error _ root => root
  start root := onCreate root {}
  step ctx call := serve detectSQLi ctx call.1 call.2

abbrev WafEvent := Event ℕ (IterationOrder × Bytes) (IterationOrder × Callback)

theorem serve_order (ctx : ExampleContext) (order order' : IterationOrder) (callback : Callback) :
    serve detectSQLi ctx order callback = serve detectSQLi ctx order' callback := by
  cases callback with
  | onRequestHeaders req =>
    simp only [serve]
    rw [callback_order order ctx req order']
  | onRequestBody body =>
    simp only [serve]
    rw [body_order order order' ctx body]

theorem serve_config (ctx : ExampleContext) (order : IterationOrder) (callback : Callback) :
    (serve detectSQLi ctx order callback).1.config = ctx.config := by
  cases callback with
  | onRequestHeaders req => exact callback_config order ctx req
  | onRequestBody body => exact congrArg ExampleContext.config (body_context order ctx body)

theorem waf_step_order (ctx : ExampleContext) (call call' : IterationOrder × Callback)
    (h : call.2 = call'.2) :
    (waf parse detectSQLi).step ctx call = (waf parse detectSQLi).step ctx call' := by
  change serve detectSQLi ctx call.1 call.2 = serve detectSQLi ctx call'.1 call'.2
  rw [h]
  exact serve_order detectSQLi ctx _ _ _

def contextAfter (root : ExampleRootContext) (calls : List (IterationOrder × Callback)) :
    ExampleContext :=
  ((waf parse detectSQLi).runAlone (onCreate root {}) calls).1

theorem contextAfter_config (root : ExampleRootContext) (calls : List (IterationOrder × Callback)) :
    (contextAfter parse detectSQLi root calls).config = root.config :=
  @System.runAlone_invariant _ _ _ _ _ (waf parse detectSQLi)
    (fun ctx => ctx.config = root.config)
    (fun ctx call h => (serve_config detectSQLi ctx call.1 call.2).trans h) _ rfl calls

section Sample

def formRequest : Request := oneHeader (bytes "content-type") urlencoded

def excludeA : Bytes := bytes "\x7b\"body\": \x7b\"content-type\": \"" ++ urlencoded ++
  bytes "\", \"exclude\": [\"a\"]\x7d\x7d"

def readExcludeA : Bytes → Option Json :=
  readTable [(excludeA, .object [(bytes "body", .object [(bytes "content-type", .string urlencoded),
    (bytes "exclude", .array [.string (bytes "a")])])])]

def flagsX (input : Bytes) : Bool := input == bytes "x"

noncomputable def reconfigured : List WafEvent :=
  [.call 1 (.toList, .onRequestHeaders formRequest), .update (.toList, excludeA), .start 2,
    .call 2 (.toList, .onRequestHeaders formRequest),
    .call 2 (.toList, .onRequestBody (bytes "a=x")),
    .call 1 (.toList, .onRequestBody (bytes "a=x"))]

end Sample

variable {parse detectSQLi}

/-- A stream answers as it does alone, from a context without a content type and with the
configuration that the root held when it was created. -/
theorem stream_isolated {root : ExampleRootContext} {id : ℕ}
    {before after : List WafEvent} {last : State ℕ ExampleRootContext ExampleContext}
    {answers : List (ℕ × Answer)}
    (h : (waf parse detectSQLi).run (State.initial root) (before ++ .start id :: after) =
      some (last, answers)) :
    ∃ created earlier,
      (waf parse detectSQLi).run (State.initial root) before = some (created, earlier) ∧
      ∀ own : List (IterationOrder × Callback),
        own.map Prod.snd = (callsOf id (before ++ .start id :: after)).map Prod.snd →
        answersOf id answers =
          ((waf parse detectSQLi).runAlone ⟨[], created.shared.config⟩ own).2 := by
  obtain ⟨created, earlier, hbefore, hanswers⟩ := System.isolated h
  refine ⟨created, earlier, hbefore, ?_⟩
  intro own hown
  rw [hanswers, System.runAlone_congr (waf_step_order parse detectSQLi) hown]
  rfl

theorem stream_isolated_at : ∃ last answers,
    (waf readExcludeA flagsX).run (State.initial {})
      (([] : List WafEvent) ++ .start 1 :: reconfigured) = some (last, answers) ∧
    ∃ created earlier,
      (waf readExcludeA flagsX).run (State.initial {}) ([] : List WafEvent) =
        some (created, earlier) ∧
      ∀ own : List (IterationOrder × Callback),
        own.map Prod.snd =
          (callsOf 1 (([] : List WafEvent) ++ .start 1 :: reconfigured)).map Prod.snd →
        answersOf 1 answers =
          ((waf readExcludeA flagsX).runAlone ⟨[], created.shared.config⟩ own).2 :=
  ⟨_, _, rfl, stream_isolated rfl⟩

end WafWasm.Streams
