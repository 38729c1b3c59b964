import WafWasm.RequestAgreement

set_option autoImplicit false

namespace WafWasm.RequestInspection
open Common UnorderedContainers HttpParser Sqli Detection ConfigParser Contexts Segments
open HeaderCallback RequestAgreement

section Path

/-- A flagged query parameter stops the request only if a header or a cookie does. -/
theorem path_hit_refused_iff (detectSQLi : Bytes → Bool) (order : IterationOrder)
    (ctx : ExampleContext) (req : Request) :
    (HasHit detectSQLi (ctx.config.part .path) (parsePath (req.header (bytes ":path"))) →
        Refused (onRequestHeaders detectSQLi order ctx req)) ↔
      ¬ HasHit detectSQLi (ctx.config.part .path) (parsePath (req.header (bytes ":path"))) ∨
      FirstHit detectSQLi (ctx.config.part .header) req.pairs ∨
      FirstHit detectSQLi (ctx.config.part .cookie)
        (parameters true (req.header (bytes "Cookie"))) ∨
      FirstHit detectSQLi (ctx.config.part .path)
        (parameters true (req.header (bytes "Cookie"))) := by
  rw [refused_iff, Stops, headerStage_iff, cookieStage_iff, pathStage_iff, imp_iff_not_or]

def pathRequest : Request := oneHeader (bytes ":path") (bytes "/?id=1' or 1=1")

theorem path_hit_not_refused :
    HasHit (· == bytes "1' or 1=1") (({} : Config).part .path)
        (parsePath (pathRequest.header (bytes ":path"))) ∧
      ¬ Refused (onRequestHeaders (· == bytes "1' or 1=1") .toList {} pathRequest) := by
  rw [refused_iff, parsePath_eq, hasHit_collect]
  decide

end Path

section Headers

/-- The header stage answers 403 and stops. -/
def HeaderRefuses (out : Outcome FilterHeadersStatus) : Prop :=
  out.status = .stopIteration ∧ out.response = some (onSQLi (bytes "Header"))

theorem headerRefuses_iff (detectSQLi : Bytes → Bool) (order : IterationOrder)
    (ctx : ExampleContext) (req : Request) :
    HeaderRefuses (onRequestHeaders detectSQLi order ctx req) ↔
      HeaderStage detectSQLi ctx.config req := by
  unfold HeaderRefuses
  rcases @callback_cases detectSQLi order ctx req with
    ⟨h, he⟩ | ⟨h, _, he⟩ | ⟨h, _, _, he⟩ | ⟨h, he⟩
  · rw [he]
    exact iff_of_true ⟨rfl, rfl⟩ h
  · rw [he]
    exact iff_of_false (fun hr => absurd (onSQLi_injective (Option.some.inj hr.2)) (by decide)) h
  · rw [he]
    exact iff_of_false (fun hr => absurd (onSQLi_injective (Option.some.inj hr.2)) (by decide)) h
  · rw [he]
    exact iff_of_false (fun hr => nomatch hr.1) fun hs => h (.inl hs)

/-- The header stage answers to some flagged pair unless only shadowed pairs are flagged. -/
theorem header_stage_iff (detectSQLi : Bytes → Bool) (order : IterationOrder)
    (ctx : ExampleContext) (req : Request) :
    (HeaderRefuses (onRequestHeaders detectSQLi order ctx req) ↔
        ∃ p ∈ req.pairs, Hit detectSQLi (ctx.config.part .header) p) ↔
      (RepeatHit detectSQLi (ctx.config.part .header) req.pairs →
        FirstHit detectSQLi (ctx.config.part .header) req.pairs) := by
  rw [headerRefuses_iff, headerStage_iff, ← covers_iff]
  constructor
  · intro h
    exact h.mpr
  · intro h
    exact ⟨exists_hit_of_first detectSQLi, h⟩

def repeatedRequest : Request where
  pairs := [(bytes "referer", bytes "/"), (bytes "referer", bytes "1' or 1=1")]
  header _ := []

theorem repeated_header_not_refused :
    (∃ p ∈ repeatedRequest.pairs, Hit (· == bytes "1' or 1=1") (({} : Config).part .header) p) ∧
      ¬ HeaderRefuses
        (onRequestHeaders (· == bytes "1' or 1=1") .toList {} repeatedRequest) := by
  rw [headerRefuses_iff]
  decide

end Headers
end WafWasm.RequestInspection
