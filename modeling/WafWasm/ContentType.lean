import WafWasm.BodyCallback
import WafWasm.RequestAgreement
import Mathlib.Data.List.DropRight

set_option autoImplicit false

namespace WafWasm.ContentType
open Common UnorderedContainers Sqli ConfigParser Contexts HeaderCallback RequestAgreement
open BodyCallback

/-- The text before the first semicolon, without outer spaces and in lower case. -/
def mediaType (val : Bytes) : Bytes :=
  lower (((val.takeWhile (· != semicolon)).dropWhile (· == space)).rdropWhile (· == space))

variable (detectSQLi : Bytes → Bool)

def bodyVerdict (order : IterationOrder) (ctx : ExampleContext) (req : Request) (body : Bytes) :
    FilterDataStatus × Option LocalResponse :=
  let out := onRequestBody detectSQLi order (onRequestHeaders detectSQLi order ctx req).context body
  (out.status, out.response)

section Verdicts
variable {detectSQLi} (order : IterationOrder) (ctx : ExampleContext) (req : Request)
  (body : Bytes)

theorem verdict_of_stop (h : Stops detectSQLi ctx.config req) :
    bodyVerdict detectSQLi order ctx req body =
      ((onRequestBody detectSQLi order ctx body).status,
        (onRequestBody detectSQLi order ctx body).response) := by
  simp only [bodyVerdict, context_of_stop order ctx req h]

theorem verdict_of_clean (h : ¬ BodyStage detectSQLi ctx.config body) :
    bodyVerdict detectSQLi order ctx req body = (.continue, none) := by
  rw [← @callback_config detectSQLi order ctx req] at h
  simp only [bodyVerdict, body_of_clean order h]

theorem verdict_of_bare (hpass : ¬ Stops detectSQLi ctx.config req)
    (hbody : BodyStage detectSQLi ctx.config body)
    (h : req.header (bytes "content-type") = urlencoded) :
    bodyVerdict detectSQLi order ctx req body =
      (.stopIterationAndBuffer, some (onSQLi (bytes "body"))) := by
  simp only [bodyVerdict, callback_of_pass order ctx req hpass]
  rw [@body_of_hit detectSQLi order ⟨_, ctx.config⟩ body h hbody]

theorem verdict_of_other (hpass : ¬ Stops detectSQLi ctx.config req)
    (h : req.header (bytes "content-type") ≠ urlencoded) :
    bodyVerdict detectSQLi order ctx req body = (.continue, none) := by
  simp only [bodyVerdict, callback_of_pass order ctx req hpass]
  rw [@body_of_other detectSQLi order ⟨_, ctx.config⟩ body h]

end Verdicts

theorem stops_congr (config : Config) {req req' : Request}
    (hsame : SameExcept (bytes "content-type") req req')
    (hraw : Unselected (config.part .header) (bytes "content-type") req)
    (hraw' : Unselected (config.part .header) (bytes "content-type") req') :
    Stops detectSQLi config req ↔ Stops detectSQLi config req' := by
  have hheader := headerStage_congr detectSQLi config hsame hraw hraw'
  have hcookie : req.header (bytes "Cookie") = req'.header (bytes "Cookie") :=
    hsame.header _ (by decide)
  unfold Stops CookieStage PathStage
  rw [hheader, hcookie]

/-- A spelling of the content type gives the verdict of the bare media type only where it is
the bare media type, or no body is inspected, or the body has nothing to find. -/
theorem content_type_iff (order order' : IterationOrder) (ctx : ExampleContext)
    (req req' : Request) (body : Bytes) (hsame : SameExcept (bytes "content-type") req req')
    (hraw : Unselected (ctx.config.part .header) (bytes "content-type") req)
    (hraw' : Unselected (ctx.config.part .header) (bytes "content-type") req')
    (hbare : req'.header (bytes "content-type") = urlencoded) :
    bodyVerdict detectSQLi order ctx req body = bodyVerdict detectSQLi order' ctx req' body ↔
      req.header (bytes "content-type") = urlencoded ∨ Stops detectSQLi ctx.config req ∨
        ¬ BodyStage detectSQLi ctx.config body := by
  have hstops := stops_congr detectSQLi ctx.config hsame hraw hraw'
  by_cases hs : Stops detectSQLi ctx.config req
  · refine iff_of_true ?_ (.inr (.inl hs))
    rw [verdict_of_stop order ctx req body hs, verdict_of_stop order' ctx req' body (hstops.mp hs),
      body_order order order' ctx body]
  have hs' := mt hstops.mpr hs
  by_cases hbody : BodyStage detectSQLi ctx.config body
  · rw [verdict_of_bare order' ctx req' body hs' hbody hbare]
    by_cases htype : req.header (bytes "content-type") = urlencoded
    · exact iff_of_true (verdict_of_bare order ctx req body hs hbody htype) (.inl htype)
    · rw [verdict_of_other order ctx req body hs htype]
      refine iff_of_false (fun h => nomatch h) ?_
      rintro (h | h | h)
      · exact htype h
      · exact hs h
      · exact h hbody
  · refine iff_of_true ?_ (.inr (.inr hbody))
    rw [verdict_of_clean order ctx req body hbody, verdict_of_clean order' ctx req' body hbody]

section Charset

def typedRequest (contentType : Bytes) : Request :=
  oneHeader (bytes "content-type") contentType

theorem sameExcept_typedRequest (contentType contentType' : Bytes) :
    SameExcept (bytes "content-type") (typedRequest contentType) (typedRequest contentType') :=
  sameExcept_oneHeader (by decide) contentType contentType'

theorem unselected_typedRequest (contentType : Bytes) :
    Unselected (({} : Config).part .header) (bytes "content-type") (typedRequest contentType) :=
  unselected_oneHeader (by decide) contentType

def withCharset : Bytes := bytes "application/x-www-form-urlencoded; charset=UTF-8"

theorem content_type_iff_at :
    bodyVerdict (· == bytes "1' or 1=1") .toList {} (typedRequest withCharset)
        (bytes "id=1' or 1=1") =
      bodyVerdict (· == bytes "1' or 1=1") .toList {} (typedRequest urlencoded)
        (bytes "id=1' or 1=1") ↔
      (typedRequest withCharset).header (bytes "content-type") = urlencoded ∨
        Stops (· == bytes "1' or 1=1") {} (typedRequest withCharset) ∨
        ¬ BodyStage (· == bytes "1' or 1=1") {} (bytes "id=1' or 1=1") :=
  content_type_iff _ _ _ {} _ _ _ (sameExcept_typedRequest _ _) (unselected_typedRequest _)
    (unselected_typedRequest _) (by decide)

theorem charset_skips_body :
    mediaType withCharset = urlencoded ∧
      (typedRequest withCharset).header (bytes "content-type") = withCharset ∧
      SameExcept (bytes "content-type") (typedRequest withCharset) (typedRequest urlencoded) ∧
      Unselected (({} : Config).part .header) (bytes "content-type") (typedRequest withCharset) ∧
      bodyVerdict (· == bytes "1' or 1=1") .toList {} (typedRequest withCharset)
          (bytes "id=1' or 1=1") ≠
        bodyVerdict (· == bytes "1' or 1=1") .toList {} (typedRequest urlencoded)
          (bytes "id=1' or 1=1") := by
  refine ⟨by decide, by decide, sameExcept_typedRequest _ _, unselected_typedRequest _, ?_⟩
  rw [verdict_of_other .toList {} _ _ (by decide) (by decide),
    verdict_of_bare .toList {} _ _ (by decide) (by decide) (by decide)]
  exact fun h => nomatch h

end Charset
end WafWasm.ContentType
