import WafWasm.ConfigParts
import WafWasm.Contexts
import WafWasm.Segments

set_option autoImplicit false

namespace WafWasm.HeaderCallback
open Common UnorderedContainers HttpParser Sqli Detection ConfigParser Contexts Segments

variable (detectSQLi : Bytes → Bool) (order : IterationOrder)

def HeaderStage (config : Config) (req : Request) : Prop :=
  HasHit detectSQLi (config.part .header) (collect req.pairs)

def CookieStage (config : Config) (req : Request) : Prop :=
  HasHit detectSQLi (config.part .cookie) (parseCookie (req.header (bytes "Cookie")))

/-- The path part of the configuration, applied to the cookies. -/
def PathStage (config : Config) (req : Request) : Prop :=
  HasHit detectSQLi (config.part .path) (parseCookie (req.header (bytes "Cookie")))

def Stops (config : Config) (req : Request) : Prop :=
  HeaderStage detectSQLi config req ∨ CookieStage detectSQLi config req ∨
    PathStage detectSQLi config req

theorem headerStage_iff (config : Config) (req : Request) :
    HeaderStage detectSQLi config req ↔ FirstHit detectSQLi (config.part .header) req.pairs :=
  hasHit_collect detectSQLi _ _

theorem cookieStage_iff (config : Config) (req : Request) :
    CookieStage detectSQLi config req ↔
      FirstHit detectSQLi (config.part .cookie)
        (parameters true (req.header (bytes "Cookie"))) := by
  rw [CookieStage, parseCookie_eq, hasHit_collect]

theorem pathStage_iff (config : Config) (req : Request) :
    PathStage detectSQLi config req ↔
      FirstHit detectSQLi (config.part .path) (parameters true (req.header (bytes "Cookie"))) := by
  rw [PathStage, parseCookie_eq, hasHit_collect]

instance (config : Config) (req : Request) : Decidable (HeaderStage detectSQLi config req) :=
  decidable_of_iff _ (headerStage_iff detectSQLi config req).symm

instance (config : Config) (req : Request) : Decidable (CookieStage detectSQLi config req) :=
  decidable_of_iff _ (cookieStage_iff detectSQLi config req).symm

instance (config : Config) (req : Request) : Decidable (PathStage detectSQLi config req) :=
  decidable_of_iff _ (pathStage_iff detectSQLi config req).symm

instance (config : Config) (req : Request) : Decidable (Stops detectSQLi config req) :=
  inferInstanceAs (Decidable (_ ∨ _ ∨ _))

theorem onSQLi_injective : Function.Injective onSQLi := by
  intro part part' h
  have hdetails := congrArg LocalResponse.responseCodeDetails h
  exact List.append_cancel_left hdetails

section Stages
variable {detectSQLi} (ctx : ExampleContext) (req : Request)

theorem callback_of_header (h : HeaderStage detectSQLi ctx.config req) :
    onRequestHeaders detectSQLi order ctx req =
      ⟨.stopIteration, some (onSQLi (bytes "Header")), ctx⟩ := by
  have hfound := (found_iff_hasHit detectSQLi order _ (ctx.config.part .header)).mpr h
  exact if_pos hfound

theorem callback_of_cookie (h : ¬ HeaderStage detectSQLi ctx.config req)
    (hcookie : CookieStage detectSQLi ctx.config req) :
    onRequestHeaders detectSQLi order ctx req =
      ⟨.stopIteration, some (onSQLi (bytes "cookie")), ctx⟩ := by
  have hfound := mt (found_iff_hasHit detectSQLi order _ (ctx.config.part .header)).mp h
  have hfound' := (found_iff_hasHit detectSQLi order _ (ctx.config.part .cookie)).mpr hcookie
  exact (if_neg hfound).trans (if_pos hfound')

theorem callback_of_path (h : ¬ HeaderStage detectSQLi ctx.config req)
    (hcookie : ¬ CookieStage detectSQLi ctx.config req)
    (hpath : PathStage detectSQLi ctx.config req) :
    onRequestHeaders detectSQLi order ctx req =
      ⟨.stopIteration, some (onSQLi (bytes "path")), ctx⟩ := by
  have hfound := mt (found_iff_hasHit detectSQLi order _ (ctx.config.part .header)).mp h
  have hfound' := mt (found_iff_hasHit detectSQLi order _ (ctx.config.part .cookie)).mp hcookie
  have hfound'' := (found_iff_hasHit detectSQLi order _ (ctx.config.part .path)).mpr hpath
  exact (if_neg hfound).trans ((if_neg hfound').trans (if_pos hfound''))

theorem callback_of_pass (h : ¬ Stops detectSQLi ctx.config req) :
    onRequestHeaders detectSQLi order ctx req =
      ⟨.continue, none, { ctx with contentType := req.header (bytes "content-type") }⟩ := by
  obtain ⟨hheader, hcookie, hpath⟩ := not_or.mp h |>.imp_right not_or.mp
  have hfound := mt (found_iff_hasHit detectSQLi order _ (ctx.config.part .header)).mp hheader
  have hfound' := mt (found_iff_hasHit detectSQLi order _ (ctx.config.part .cookie)).mp hcookie
  have hfound'' := mt (found_iff_hasHit detectSQLi order _ (ctx.config.part .path)).mp hpath
  exact (if_neg hfound).trans ((if_neg hfound').trans (if_neg hfound''))

theorem callback_cases :
    (HeaderStage detectSQLi ctx.config req ∧ onRequestHeaders detectSQLi order ctx req =
        ⟨.stopIteration, some (onSQLi (bytes "Header")), ctx⟩) ∨
    (¬ HeaderStage detectSQLi ctx.config req ∧ CookieStage detectSQLi ctx.config req ∧
      onRequestHeaders detectSQLi order ctx req =
        ⟨.stopIteration, some (onSQLi (bytes "cookie")), ctx⟩) ∨
    (¬ HeaderStage detectSQLi ctx.config req ∧ ¬ CookieStage detectSQLi ctx.config req ∧
      PathStage detectSQLi ctx.config req ∧ onRequestHeaders detectSQLi order ctx req =
        ⟨.stopIteration, some (onSQLi (bytes "path")), ctx⟩) ∨
    (¬ Stops detectSQLi ctx.config req ∧ onRequestHeaders detectSQLi order ctx req =
        ⟨.continue, none, { ctx with contentType := req.header (bytes "content-type") }⟩) := by
  by_cases h : HeaderStage detectSQLi ctx.config req
  · exact .inl ⟨h, callback_of_header order ctx req h⟩
  by_cases hcookie : CookieStage detectSQLi ctx.config req
  · exact .inr (.inl ⟨h, hcookie, callback_of_cookie order ctx req h hcookie⟩)
  by_cases hpath : PathStage detectSQLi ctx.config req
  · exact .inr (.inr (.inl ⟨h, hcookie, hpath, callback_of_path order ctx req h hcookie hpath⟩))
  · have hpass : ¬ Stops detectSQLi ctx.config req := by
      rintro (hs | hs | hs)
      · exact h hs
      · exact hcookie hs
      · exact hpath hs
    exact .inr (.inr (.inr ⟨hpass, callback_of_pass order ctx req hpass⟩))

/-- The order in which containers are visited does not show. -/
theorem callback_order (order' : IterationOrder) :
    onRequestHeaders detectSQLi order ctx req = onRequestHeaders detectSQLi order' ctx req := by
  rcases @callback_cases detectSQLi order ctx req with
    ⟨h, he⟩ | ⟨h, hcookie, he⟩ | ⟨h, hcookie, hpath, he⟩ | ⟨h, he⟩
  · rw [he, callback_of_header order' ctx req h]
  · rw [he, callback_of_cookie order' ctx req h hcookie]
  · rw [he, callback_of_path order' ctx req h hcookie hpath]
  · rw [he, callback_of_pass order' ctx req h]

theorem callback_config :
    (onRequestHeaders detectSQLi order ctx req).context.config = ctx.config := by
  rcases @callback_cases detectSQLi order ctx req with
    ⟨_, he⟩ | ⟨_, _, he⟩ | ⟨_, _, _, he⟩ | ⟨_, he⟩ <;> rw [he]

theorem context_of_stop (h : Stops detectSQLi ctx.config req) :
    (onRequestHeaders detectSQLi order ctx req).context = ctx := by
  rcases @callback_cases detectSQLi order ctx req with
    ⟨_, he⟩ | ⟨_, _, he⟩ | ⟨_, _, _, he⟩ | ⟨hpass, _⟩
  · rw [he]
  · rw [he]
  · rw [he]
  · exact absurd h hpass

end Stages

/-- The request is stopped and the client is answered 403. -/
def Refused (out : Outcome FilterHeadersStatus) : Prop :=
  out.status = .stopIteration ∧ out.response.map LocalResponse.responseCode = some 403

theorem refused_iff (ctx : ExampleContext) (req : Request) :
    Refused (onRequestHeaders detectSQLi order ctx req) ↔ Stops detectSQLi ctx.config req := by
  unfold Refused Stops
  rcases @callback_cases detectSQLi order ctx req with
    ⟨h, he⟩ | ⟨_, h, he⟩ | ⟨_, _, h, he⟩ | ⟨h, he⟩
  · rw [he]
    exact iff_of_true ⟨rfl, rfl⟩ (.inl h)
  · rw [he]
    exact iff_of_true ⟨rfl, rfl⟩ (.inr (.inl h))
  · rw [he]
    exact iff_of_true ⟨rfl, rfl⟩ (.inr (.inr h))
  · rw [he]
    exact iff_of_false (fun hr => nomatch hr.1) h

end WafWasm.HeaderCallback
