import WafWasm.RequestAgreement

set_option autoImplicit false

namespace WafWasm.ExcludedCookies
open Common UnorderedContainers HttpParser Sqli Detection ConfigParser Contexts Segments
open HeaderCallback RequestAgreement

variable (detectSQLi : Bytes → Bool)

/-- A cookie that the cookie part leaves out and the path part picks up. -/
def LeakedHit (config : Config) (req : Request) : Prop :=
  ∃ p : Bytes × Bytes, (parseCookie (req.header (bytes "Cookie"))).lookup p.1 = some p.2 ∧
    ¬ (config.part .cookie).Selects p.1 ∧ Hit detectSQLi (config.part .path) p

theorem pathStage_iff_leakedHit (config : Config) (req : Request)
    (h : ¬ CookieStage detectSQLi config req) :
    PathStage detectSQLi config req ↔ LeakedHit detectSQLi config req := by
  constructor
  · rintro ⟨p, hl, hp⟩
    have hunselected : ¬ (config.part .cookie).Selects p.1 := fun hs => h ⟨p, hl, hs, hp.2⟩
    exact ⟨p, hl, hunselected, hp⟩
  · rintro ⟨p, hl, _, hp⟩
    exact ⟨p, hl, hp⟩

def shown (out : Outcome FilterHeadersStatus) : FilterHeadersStatus × Option LocalResponse :=
  (out.status, out.response)

section Quiet
variable {detectSQLi} (order : IterationOrder) (ctx : ExampleContext) (req : Request)
  (hheader : ¬ HeaderStage detectSQLi ctx.config req)
  (hcookie : ¬ CookieStage detectSQLi ctx.config req)
include hheader hcookie

theorem shown_of_leak (h : LeakedHit detectSQLi ctx.config req) :
    shown (onRequestHeaders detectSQLi order ctx req) =
      (.stopIteration, some (onSQLi (bytes "path"))) := by
  have hpath := (pathStage_iff_leakedHit detectSQLi ctx.config req hcookie).mpr h
  rw [callback_of_path order ctx req hheader hcookie hpath]
  rfl

theorem shown_of_no_leak (h : ¬ LeakedHit detectSQLi ctx.config req) :
    shown (onRequestHeaders detectSQLi order ctx req) = (.continue, none) := by
  have hpath := mt (pathStage_iff_leakedHit detectSQLi ctx.config req hcookie).mp h
  have hpass : ¬ Stops detectSQLi ctx.config req := by
    intro hs
    rcases hs with hs | hs | hs
    · exact hheader hs
    · exact hcookie hs
    · exact hpath hs
  rw [callback_of_pass order ctx req hpass]
  rfl

end Quiet

/-- The two runs show the same unless exactly one of them leaks a flagged excluded cookie into
the last stage. -/
theorem excluded_cookies_iff (order order' : IterationOrder) (ctx : ExampleContext)
    (req req' : Request) (hsame : SameExcept (bytes "cookie") req req')
    (hraw : Unselected (ctx.config.part .header) (bytes "cookie") req)
    (hraw' : Unselected (ctx.config.part .header) (bytes "cookie") req')
    (hcookies : ∀ key, (ctx.config.part .cookie).Selects key →
      (parseCookie (req.header (bytes "Cookie"))).lookup key =
        (parseCookie (req'.header (bytes "Cookie"))).lookup key) :
    shown (onRequestHeaders detectSQLi order ctx req) =
        shown (onRequestHeaders detectSQLi order' ctx req') ↔
      HeaderStage detectSQLi ctx.config req ∨ CookieStage detectSQLi ctx.config req ∨
        (LeakedHit detectSQLi ctx.config req ↔ LeakedHit detectSQLi ctx.config req') := by
  have hheader := headerStage_congr detectSQLi ctx.config hsame hraw hraw'
  have hcookie : CookieStage detectSQLi ctx.config req ↔ CookieStage detectSQLi ctx.config req' :=
    hasHit_congr detectSQLi hcookies
  by_cases hh : HeaderStage detectSQLi ctx.config req
  · refine iff_of_true ?_ (.inl hh)
    rw [callback_of_header order ctx req hh, callback_of_header order' ctx req' (hheader.mp hh)]
  have hh' := mt hheader.mpr hh
  by_cases hc : CookieStage detectSQLi ctx.config req
  · refine iff_of_true ?_ (.inr (.inl hc))
    rw [callback_of_cookie order ctx req hh hc,
      callback_of_cookie order' ctx req' hh' (hcookie.mp hc)]
  have hc' := mt hcookie.mpr hc
  rw [or_iff_right hh, or_iff_right hc]
  by_cases hl : LeakedHit detectSQLi ctx.config req <;>
    by_cases hl' : LeakedHit detectSQLi ctx.config req'
  · rw [shown_of_leak order ctx req hh hc hl, shown_of_leak order' ctx req' hh' hc' hl']
    exact iff_of_true rfl (iff_of_true hl hl')
  · rw [shown_of_leak order ctx req hh hc hl, shown_of_no_leak order' ctx req' hh' hc' hl']
    exact iff_of_false (by decide) fun h => hl' (h.mp hl)
  · rw [shown_of_no_leak order ctx req hh hc hl, shown_of_leak order' ctx req' hh' hc' hl']
    exact iff_of_false (by decide) fun h => hl (h.mpr hl')
  · rw [shown_of_no_leak order ctx req hh hc hl, shown_of_no_leak order' ctx req' hh' hc' hl']
    exact iff_of_true rfl (iff_of_false hl hl')

section Leak

def cookieRequest (cookie : Bytes) : Request := oneHeader (bytes "cookie") cookie

def skipContext : ExampleContext := { config := { cookies := {bytes "skip"} } }

theorem sameExcept_cookieRequest (cookie cookie' : Bytes) :
    SameExcept (bytes "cookie") (cookieRequest cookie) (cookieRequest cookie') :=
  sameExcept_oneHeader (by decide) cookie cookie'

theorem unselected_cookieRequest (cookie : Bytes) :
    Unselected (skipContext.config.part .header) (bytes "cookie") (cookieRequest cookie) :=
  unselected_oneHeader (by decide) cookie

theorem lookup_skip_ne {key : Bytes} (h : (skipContext.config.part .cookie).Selects key)
    (cookie val : Bytes) (hparams : parameters true cookie = [(bytes "skip", val)]) :
    (parseCookie ((cookieRequest cookie).header (bytes "Cookie"))).lookup key = none := by
  have hname : lower (bytes "Cookie") = bytes "cookie" := by decide
  have hheader : (cookieRequest cookie).header (bytes "Cookie") = cookie := by
    change (if lower (bytes "Cookie") = bytes "cookie" then cookie else []) = cookie
    exact if_pos hname
  have hne : key ≠ bytes "skip" := by
    rintro rfl
    exact absurd h (by decide)
  rw [hheader, parseCookie_eq, lookup_collect, hparams, List.lookup_eq_none_iff]
  intro p hp
  rw [List.mem_singleton.mp hp]
  exact bne_iff_ne.mpr hne

theorem skip_cookies_agree (key : Bytes) (h : (skipContext.config.part .cookie).Selects key) :
    (parseCookie ((cookieRequest (bytes "skip=1' or 1=1")).header (bytes "Cookie"))).lookup key =
      (parseCookie ((cookieRequest (bytes "skip=1")).header (bytes "Cookie"))).lookup key := by
  rw [lookup_skip_ne h _ (bytes "1' or 1=1") (by decide),
    lookup_skip_ne h _ (bytes "1") (by decide)]

theorem excluded_cookies_iff_at :
    shown (onRequestHeaders (· == bytes "1' or 1=1") .toList skipContext
          (cookieRequest (bytes "skip=1' or 1=1"))) =
        shown (onRequestHeaders (· == bytes "1' or 1=1") .toList skipContext
          (cookieRequest (bytes "skip=1"))) ↔
      HeaderStage (· == bytes "1' or 1=1") skipContext.config
          (cookieRequest (bytes "skip=1' or 1=1")) ∨
        CookieStage (· == bytes "1' or 1=1") skipContext.config
          (cookieRequest (bytes "skip=1' or 1=1")) ∨
        (LeakedHit (· == bytes "1' or 1=1") skipContext.config
            (cookieRequest (bytes "skip=1' or 1=1")) ↔
          LeakedHit (· == bytes "1' or 1=1") skipContext.config
            (cookieRequest (bytes "skip=1"))) :=
  excluded_cookies_iff _ _ _ skipContext _ _ (sameExcept_cookieRequest _ _)
    (unselected_cookieRequest _) (unselected_cookieRequest _) skip_cookies_agree

theorem excluded_cookie_refused :
    SameExcept (bytes "cookie") (cookieRequest (bytes "skip=1' or 1=1"))
        (cookieRequest (bytes "skip=1")) ∧
      Unselected (skipContext.config.part .header) (bytes "cookie")
        (cookieRequest (bytes "skip=1' or 1=1")) ∧
      Unselected (skipContext.config.part .header) (bytes "cookie")
        (cookieRequest (bytes "skip=1")) ∧
      (∀ key, (skipContext.config.part .cookie).Selects key →
        (parseCookie ((cookieRequest (bytes "skip=1' or 1=1")).header (bytes "Cookie"))).lookup
            key =
          (parseCookie ((cookieRequest (bytes "skip=1")).header (bytes "Cookie"))).lookup key) ∧
      shown (onRequestHeaders (· == bytes "1' or 1=1") .toList skipContext
          (cookieRequest (bytes "skip=1' or 1=1"))) ≠
        shown (onRequestHeaders (· == bytes "1' or 1=1") .toList skipContext
          (cookieRequest (bytes "skip=1"))) := by
  refine ⟨sameExcept_cookieRequest _ _, unselected_cookieRequest _, unselected_cookieRequest _,
    skip_cookies_agree, ?_⟩
  have hpasses : ¬ Stops (· == bytes "1' or 1=1") skipContext.config
      (cookieRequest (bytes "skip=1")) := by
    decide
  rw [callback_of_path .toList skipContext (cookieRequest (bytes "skip=1' or 1=1"))
      (by decide) (by decide) (by decide), callback_of_pass .toList skipContext _ hpasses]
  decide

end Leak
end WafWasm.ExcludedCookies
