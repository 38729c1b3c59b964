import WafWasm.ConfigAcceptance
import WafWasm.FormEncoding
import WafWasm.Streams

set_option autoImplicit false

namespace WafWasm.BodyInspection
open Common UnorderedContainers JsonValue ConfigParser Detection Sqli Contexts BodyCallback
open HeaderCallback FormEncoding PercentEncoding ConfigAcceptance Segments Streams

/-- The keys a part asks for: the included ones, all but the excluded ones, or all. -/
def Asks (part : Option Selection) (key : Bytes) : Prop :=
  match part with
  | none => True
  | some ⟨true, keys⟩ => key ∈ keys
  | some ⟨false, keys⟩ => key ∉ keys

def RefusedBody (out : Outcome FilterDataStatus) : Prop :=
  out.status = .stopIterationAndBuffer ∧ out.response.map LocalResponse.responseCode = some 403

def PassedBody (out : Outcome FilterDataStatus) : Prop :=
  out.status = .continue ∧ out.response = none

theorem selects_iff_asks (part : Option Selection) (key : Bytes) :
    (part.getD (Config.part {} .body)).Selects key ↔ Asks part key := by
  cases part with
  | none => exact iff_of_true (Finset.notMem_empty key) trivial
  | some sel =>
    obtain ⟨isInclude, keys⟩ := sel
    cases isInclude <;> rfl

theorem hasHit_collect_nodup {detectSQLi : Bytes → Bool} {sel : Selection}
    {ps : List (Bytes × Bytes)} (hkeys : (ps.map Prod.fst).Nodup) :
    HasHit detectSQLi sel (collect ps) ↔ ∃ p ∈ ps, Hit detectSQLi sel p := by
  apply exists_congr
  intro p
  rw [lookup_collect, lookup_iff_mem hkeys]

theorem refused_or_passed {detectSQLi : Bytes → Bool} (order : IterationOrder)
    {ctx : ExampleContext} (htype : ctx.contentType = urlencoded) (body : Bytes) :
    (RefusedBody (onRequestBody detectSQLi order ctx body) ↔
        BodyStage detectSQLi ctx.config body) ∧
      (PassedBody (onRequestBody detectSQLi order ctx body) ↔
        ¬ BodyStage detectSQLi ctx.config body) := by
  by_cases hbody : BodyStage detectSQLi ctx.config body
  · rw [body_of_hit order htype hbody]
    exact ⟨iff_of_true ⟨rfl, rfl⟩ hbody, iff_of_false (fun h => nomatch h.1) (not_not_intro hbody)⟩
  · rw [body_of_clean order hbody]
    exact ⟨iff_of_false (fun h => nomatch h.1) hbody, iff_of_true ⟨rfl, rfl⟩ hbody⟩

section Sample

def withoutA : ExampleRootContext := { config := { body := {bytes "a"} } }

theorem accepted_excludeA (order : IterationOrder) :
    onConfigure readExcludeA order excludeA {} = .ok true withoutA := rfl

theorem encodesForm_sample : EncodesForm [(bytes "b", bytes "x")] (bytes "b=%78") := by
  have hkey : Encodes keyAlphabet (bytes "b") (bytes "b") :=
    .cons (.itself (by unfold keyAlphabet; decide)) .nil
  have hval : Encodes valueAlphabet (bytes "x") (bytes "%78") :=
    .cons (@EncodesByte.escape _ _ 0x37 0x38 7 8 (by decide) (by decide) (by decide)) .nil
  exact ⟨[bytes "b=%78"], .cons ⟨_, _, hkey, hval, rfl⟩ .nil, rfl⟩

theorem contentType_sample (order : IterationOrder) :
    (contextAfter readExcludeA flagsX withoutA
      [(order, .onRequestHeaders formRequest)]).contentType = urlencoded := by
  have hpass : ¬ Stops flagsX (onCreate withoutA {}).config formRequest := by decide
  change (onRequestHeaders flagsX order (onCreate withoutA {}) formRequest).context.contentType = _
  rw [callback_of_pass order _ _ hpass]
  rfl

end Sample

section EndToEnd
variable {parse : Bytes → Option Json} {detectSQLi : Bytes → Bool} {order : IterationOrder}

theorem bodyStage_form {text : Bytes} {root : ExampleRootContext}
    (haccepted : onConfigure parse order text {} = .ok true root)
    {ps : List (Bytes × Bytes)} {e : Bytes} (hkeys : (ps.map Prod.fst).Nodup)
    (he : EncodesForm ps e) :
    BodyStage detectSQLi root.config e ↔
      ∃ p ∈ ps, Asks (textGives parse text .body) p.1 ∧ Flagged detectSQLi p := by
  unfold BodyStage
  rw [onConfigure_ok haccepted, overlay_part, parseBody_eq, parameters_form he,
    hasHit_collect_nodup hkeys]
  apply exists_congr
  intro p
  unfold Hit
  rw [selects_iff_asks]

theorem body_inspected {text : Bytes} {root : ExampleRootContext}
    (haccepted : onConfigure parse order text {} = .ok true root)
    (calls : List (IterationOrder × Callback))
    (htype : (contextAfter parse detectSQLi root calls).contentType = urlencoded)
    {ps : List (Bytes × Bytes)} {e : Bytes} (hkeys : (ps.map Prod.fst).Nodup)
    (he : EncodesForm ps e) (order' : IterationOrder) :
    (RefusedBody (onRequestBody detectSQLi order' (contextAfter parse detectSQLi root calls) e) ↔
      ∃ p ∈ ps, Asks (textGives parse text .body) p.1 ∧ Flagged detectSQLi p) ∧
    (PassedBody (onRequestBody detectSQLi order' (contextAfter parse detectSQLi root calls) e) ↔
      ¬ ∃ p ∈ ps, Asks (textGives parse text .body) p.1 ∧ Flagged detectSQLi p) := by
  have hstage := @bodyStage_form parse detectSQLi order text root haccepted ps e hkeys he
  rw [← contextAfter_config parse detectSQLi root calls] at hstage
  rw [← hstage]
  exact refused_or_passed order' htype e

theorem body_inspected_at : RefusedBody (onRequestBody flagsX .toList
    (contextAfter readExcludeA flagsX withoutA [(.toList, .onRequestHeaders formRequest)])
    (bytes "b=%78")) := by
  have hasked : Asks (textGives readExcludeA excludeA .body) (bytes "b") := by
    change bytes "b" ∉ strings [.string (bytes "a")]
    decide
  exact (body_inspected (accepted_excludeA .toList) _ (contentType_sample .toList) (by decide)
    encodesForm_sample .toList).1.mpr ⟨_, List.mem_singleton_self _, hasked, .inr (by decide)⟩

end EndToEnd
end WafWasm.BodyInspection
