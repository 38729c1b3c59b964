import WafWasm.ConfigParts
import WafWasm.Contexts
import WafWasm.Segments

set_option autoImplicit false

namespace WafWasm.BodyCallback
open Common HttpParser Sqli Detection ConfigParser Contexts Segments

variable (detectSQLi : Bytes → Bool) (order : IterationOrder)

def BodyStage (config : Config) (body : Bytes) : Prop :=
  HasHit detectSQLi (config.part .body) (parseBody body)

theorem bodyStage_iff (config : Config) (body : Bytes) :
    BodyStage detectSQLi config body ↔
      FirstHit detectSQLi (config.part .body) (parameters false body) := by
  rw [BodyStage, parseBody_eq, hasHit_collect]

instance (config : Config) (body : Bytes) : Decidable (BodyStage detectSQLi config body) :=
  decidable_of_iff _ (bodyStage_iff detectSQLi config body).symm

variable {detectSQLi} {ctx : ExampleContext} {body : Bytes}

theorem body_of_other (h : ctx.contentType ≠ urlencoded) :
    onRequestBody detectSQLi order ctx body = ⟨.continue, none, ctx⟩ :=
  if_pos h

theorem body_of_hit (h : ctx.contentType = urlencoded)
    (hbody : BodyStage detectSQLi ctx.config body) :
    onRequestBody detectSQLi order ctx body =
      ⟨.stopIterationAndBuffer, some (onSQLi (bytes "body")), ctx⟩ := by
  have hfound := (found_iff_hasHit detectSQLi order _ (ctx.config.part .body)).mpr hbody
  exact (if_neg (not_not_intro h)).trans (if_pos hfound)

theorem body_of_clean (hbody : ¬ BodyStage detectSQLi ctx.config body) :
    onRequestBody detectSQLi order ctx body = ⟨.continue, none, ctx⟩ := by
  by_cases h : ctx.contentType = urlencoded
  · have hfound := mt (found_iff_hasHit detectSQLi order _ (ctx.config.part .body)).mp hbody
    exact (if_neg (not_not_intro h)).trans (if_neg hfound)
  · exact body_of_other order h

variable (detectSQLi) in
theorem body_cases (ctx : ExampleContext) (body : Bytes) :
    (ctx.contentType = urlencoded ∧ BodyStage detectSQLi ctx.config body ∧
      onRequestBody detectSQLi order ctx body =
        ⟨.stopIterationAndBuffer, some (onSQLi (bytes "body")), ctx⟩) ∨
    (¬ (ctx.contentType = urlencoded ∧ BodyStage detectSQLi ctx.config body) ∧
      onRequestBody detectSQLi order ctx body = ⟨.continue, none, ctx⟩) := by
  by_cases h : ctx.contentType = urlencoded
  · by_cases hbody : BodyStage detectSQLi ctx.config body
    · exact .inl ⟨h, hbody, body_of_hit order h hbody⟩
    · exact .inr ⟨fun hs => hbody hs.2, body_of_clean order hbody⟩
  · exact .inr ⟨fun hs => h hs.1, body_of_other order h⟩

@[simp] theorem body_context (ctx : ExampleContext) (body : Bytes) :
    (onRequestBody detectSQLi order ctx body).context = ctx := by
  rcases body_cases detectSQLi order ctx body with ⟨_, _, he⟩ | ⟨_, he⟩ <;> rw [he]

theorem body_order (order' : IterationOrder) (ctx : ExampleContext) (body : Bytes) :
    onRequestBody detectSQLi order ctx body = onRequestBody detectSQLi order' ctx body := by
  rcases body_cases detectSQLi order ctx body with ⟨h, hbody, he⟩ | ⟨h, he⟩
  · rw [he, body_of_hit order' h hbody]
  · rcases body_cases detectSQLi order' ctx body with ⟨h', hbody', _⟩ | ⟨_, he'⟩
    · exact absurd ⟨h', hbody'⟩ h
    · rw [he, he']

theorem body_stops_iff (h : ctx.contentType = urlencoded) :
    (onRequestBody detectSQLi order ctx body).status = .stopIterationAndBuffer ↔
      BodyStage detectSQLi ctx.config body := by
  by_cases hbody : BodyStage detectSQLi ctx.config body
  · rw [body_of_hit order h hbody]
    exact iff_of_true rfl hbody
  · rw [body_of_clean order hbody]
    exact iff_of_false (fun hs => nomatch hs) hbody

end WafWasm.BodyCallback
