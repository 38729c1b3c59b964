import WafWasm.ConfigShapes
import WafWasm.ExcludedCookies

set_option autoImplicit false

namespace WafWasm.HeaderSpelling
open Common UnorderedContainers JsonValue ConfigParser ConfigAcceptance Detection Sqli Contexts
  ConfigVerdicts ConfigShapes HeaderCallback RequestAgreement ExcludedCookies

section Texts

def CaseVariant (name name' : Bytes) : Prop := lower name = lower name'

/-- The same list, or one of the same names in other letter case. -/
def RespelledList (list list' : Json) : Prop :=
  list = list' ∨ ∃ ss ss' : List Bytes, list = .array (ss.map .string) ∧
    list' = .array (ss'.map .string) ∧ List.Forall₂ CaseVariant ss ss'

/-- Two JSON values that differ at most in the letter case of the listed header names. -/
structure Respelled (j j' : Json) : Prop where
  object : ObjectOrNull j ↔ ObjectOrNull j'
  rest : ∀ key, key ≠ bytes "header" → member j key = member j' key
  header : ObjectOrNull (member j (bytes "header")) ↔ ObjectOrNull (member j' (bytes "header"))
  included : RespelledList (included (member j (bytes "header")))
    (included (member j' (bytes "header")))
  excluded : RespelledList (excluded (member j (bytes "header")))
    (excluded (member j' (bytes "header")))

def RespelledText (parse : Bytes → Option Json) (text text' : Bytes) : Prop :=
  text = text' ∨ text.length ≠ 0 ∧ text'.length ≠ 0 ∧
    ∃ j j', parse text = some j ∧ parse text' = some j' ∧ Respelled j j'

theorem RespelledList.strings_iff {list list' : Json} (h : RespelledList list list') :
    StringsOrNull list ↔ StringsOrNull list' := by
  rcases h with rfl | ⟨ss, ss', rfl, rfl, _⟩
  · rfl
  · exact iff_of_true (.inr ⟨ss, rfl⟩) (.inr ⟨ss', rfl⟩)

theorem RespelledList.null_iff {list list' : Json} (h : RespelledList list list') :
    list = .null ↔ list' = .null := by
  rcases h with rfl | ⟨ss, ss', rfl, rfl, _⟩
  · rfl
  · exact iff_of_false Json.noConfusion Json.noConfusion

theorem wellShapedField_iff {field field' : Json}
    (hobject : ObjectOrNull field ↔ ObjectOrNull field')
    (hi : RespelledList (ConfigShapes.included field) (ConfigShapes.included field'))
    (he : RespelledList (ConfigShapes.excluded field) (ConfigShapes.excluded field')) :
    WellShapedField field ↔ WellShapedField field' := by
  constructor
  · intro h
    exact ⟨hobject.mp h.object, hi.strings_iff.mp h.included, he.strings_iff.mp h.excluded⟩
  · intro h
    exact ⟨hobject.mpr h.object, hi.strings_iff.mpr h.included, he.strings_iff.mpr h.excluded⟩

theorem Respelled.part {j j' : Json} (h : Respelled j j') {part : Part} (hpart : part ≠ .header) :
    member j (partKey part) = member j' (partKey part) := by
  apply h.rest
  cases part with
  | header => exact absurd rfl hpart
  | body | path | cookie => decide

theorem Respelled.accepted_iff {j j' : Json} (h : Respelled j j') (part : Part) :
    (partVerdict j part).isAccepted = true ↔ (partVerdict j' part).isAccepted = true := by
  by_cases hj : ObjectOrNull j
  · have hj' := h.object.mp hj
    by_cases hpart : part = .header
    · subst hpart
      have hheader : Part.header ≠ .body := by decide
      rw [partVerdict_eq hj, partVerdict_eq hj', if_neg hheader, if_neg hheader,
        fieldVerdict_accepted_iff, fieldVerdict_accepted_iff]
      exact and_congr (wellShapedField_iff h.header h.included h.excluded)
        (or_congr h.included.null_iff h.excluded.null_iff)
    · rw [partVerdict_eq hj, partVerdict_eq hj', h.part hpart]
  · obtain ⟨e, hv⟩ := partVerdict_mismatch hj part
    obtain ⟨e', hv'⟩ := partVerdict_mismatch (mt h.object.mpr hj) part
    rw [hv, hv']
    rfl

theorem RespelledText.textGives {parse : Bytes → Option Json} {text text' : Bytes}
    (h : RespelledText parse text text') {part : Part} (hpart : part ≠ .header) :
    textGives parse text part = textGives parse text' part := by
  rcases h with rfl | ⟨hlength, hlength', j, j', hj, hj', hrespelled⟩
  · rfl
  · unfold ConfigAcceptance.textGives
    rw [if_neg hlength, if_neg hlength', hj, hj']
    exact congrArg givenBy (hrespelled.part hpart)

end Texts

section Requests
variable (detectSQLi : Bytes → Bool)

/-- A header of the request, the first of its name, with a flagged name or value. -/
def FlaggedHeader (req : Request) (p : Bytes × Bytes) : Prop :=
  req.pairs.lookup p.1 = some p.2 ∧ Flagged detectSQLi p

def OnlyFirst (req : Request) (sel sel' : Selection) : Prop :=
  ∃ p, FlaggedHeader detectSQLi req p ∧ sel.Selects p.1 ∧ ¬ sel'.Selects p.1

/-- A flagged header is selected under both spellings, or one is under the first alone exactly
when one is under the second alone. -/
def SpellingHarmless (req : Request) (sel sel' : Selection) : Prop :=
  (∃ p, FlaggedHeader detectSQLi req p ∧ sel.Selects p.1 ∧ sel'.Selects p.1) ∨
    (OnlyFirst detectSQLi req sel sel' ↔ OnlyFirst detectSQLi req sel' sel)

theorem hasHit_split (req : Request) (sel sel' : Selection) :
    HasHit detectSQLi sel (collect req.pairs) ↔
      (∃ p, FlaggedHeader detectSQLi req p ∧ sel.Selects p.1 ∧ sel'.Selects p.1) ∨
        OnlyFirst detectSQLi req sel sel' := by
  unfold OnlyFirst
  rw [← exists_or]
  apply exists_congr
  intro p
  rw [lookup_collect, ← and_or_left, ← and_or_left, and_iff_left (em (sel'.Selects p.1)), Hit,
    and_comm (a := sel.Selects p.1), ← and_assoc]
  rfl

theorem hasHit_iff_harmless (req : Request) (sel sel' : Selection) :
    (HasHit detectSQLi sel (collect req.pairs) ↔ HasHit detectSQLi sel' (collect req.pairs)) ↔
      SpellingHarmless detectSQLi req sel sel' := by
  rw [hasHit_split detectSQLi req sel sel', hasHit_split detectSQLi req sel' sel]
  have hboth : (∃ p, FlaggedHeader detectSQLi req p ∧ sel'.Selects p.1 ∧ sel.Selects p.1) ↔
      ∃ p, FlaggedHeader detectSQLi req p ∧ sel.Selects p.1 ∧ sel'.Selects p.1 :=
    exists_congr fun p => and_congr_right fun _ => and_comm
  rw [hboth]
  exact agree_iff

variable {detectSQLi} (order order' : IterationOrder) (ctx ctx' : ExampleContext) (req : Request)

theorem shown_header_iff :
    shown (onRequestHeaders detectSQLi order ctx req) =
        (.stopIteration, some (onSQLi (bytes "Header"))) ↔
      HeaderStage detectSQLi ctx.config req := by
  have hcookie : onSQLi (bytes "cookie") ≠ onSQLi (bytes "Header") := by decide
  have hpath : onSQLi (bytes "path") ≠ onSQLi (bytes "Header") := by decide
  rcases @callback_cases detectSQLi order ctx req with
    ⟨h, he⟩ | ⟨h, _, he⟩ | ⟨h, _, _, he⟩ | ⟨h, he⟩
  · rw [he]
    exact iff_of_true rfl h
  · rw [he]
    exact iff_of_false (fun hs => hcookie (Option.some.inj (Prod.mk.inj hs).2)) h
  · rw [he]
    exact iff_of_false (fun hs => hpath (Option.some.inj (Prod.mk.inj hs).2)) h
  · rw [he]
    exact iff_of_false (fun hs => nomatch (Prod.mk.inj hs).2) fun hs => h (.inl hs)

theorem shown_eq_iff
    (hparts : ∀ part, part ≠ .header → ctx.config.part part = ctx'.config.part part) :
    shown (onRequestHeaders detectSQLi order ctx req) =
        shown (onRequestHeaders detectSQLi order' ctx' req) ↔
      (HeaderStage detectSQLi ctx.config req ↔ HeaderStage detectSQLi ctx'.config req) := by
  constructor
  · intro h
    rw [← shown_header_iff order ctx req, ← shown_header_iff order' ctx' req, h]
  · intro h
    by_cases hh : HeaderStage detectSQLi ctx.config req
    · rw [(shown_header_iff order ctx req).mpr hh, (shown_header_iff order' ctx' req).mpr (h.mp hh)]
    have hh' := mt h.mpr hh
    have hcookie : CookieStage detectSQLi ctx.config req ↔
        CookieStage detectSQLi ctx'.config req := by
      unfold CookieStage
      rw [hparts .cookie (by decide)]
    have hpath : PathStage detectSQLi ctx.config req ↔ PathStage detectSQLi ctx'.config req := by
      unfold PathStage
      rw [hparts .path (by decide)]
    by_cases hc : CookieStage detectSQLi ctx.config req
    · rw [callback_of_cookie order ctx req hh hc,
        callback_of_cookie order' ctx' req hh' (hcookie.mp hc)]
      rfl
    have hc' := mt hcookie.mpr hc
    by_cases hp : PathStage detectSQLi ctx.config req
    · rw [callback_of_path order ctx req hh hc hp,
        callback_of_path order' ctx' req hh' hc' (hpath.mp hp)]
      rfl
    have hp' := mt hpath.mpr hp
    rw [callback_of_pass order ctx req (not_or.mpr ⟨hh, not_or.mpr ⟨hc, hp⟩⟩),
      callback_of_pass order' ctx' req (not_or.mpr ⟨hh', not_or.mpr ⟨hc', hp'⟩⟩)]
    rfl

end Requests

section Configured
variable {parse : Bytes → Option Json}

theorem onConfigure_accepted_iff {order : IterationOrder} {text : Bytes} {j : Json}
    (hlength : text.length ≠ 0) (hj : parse text = some j) (root : ExampleRootContext) :
    (∃ root', onConfigure parse order text root = .ok true root') ↔
      ∀ part, (partVerdict j part).isAccepted = true := by
  have hstops := (stops_onConfigure hlength root).trans (@stops_iff parse order.keys text j hj _)
  exact not_iff_not.mp (not_exists.trans hstops)

theorem accepted_respelled {order : IterationOrder} (order' : IterationOrder) {text text' : Bytes}
    {root root' : ExampleRootContext} (h : onConfigure parse order text root = .ok true root')
    (hrespelled : RespelledText parse text text') :
    ∃ root'', onConfigure parse order' text' root = .ok true root'' := by
  rcases hrespelled with rfl | ⟨hlength, hlength', j, j', hj, hj', hrespelled⟩
  · by_cases hlength : text.length = 0
    · exact ⟨root, if_pos hlength⟩
    · cases hj : parse text with
      | none =>
        unfold onConfigure at h
        rw [if_neg hlength, parseConfig_unreadable hj] at h
        cases h
      | some j =>
        have hall := (onConfigure_accepted_iff hlength hj root).mp ⟨root', h⟩
        exact (onConfigure_accepted_iff hlength hj root).mpr hall
  · have hall := (onConfigure_accepted_iff hlength hj root).mp ⟨root', h⟩
    refine (onConfigure_accepted_iff hlength' hj' root).mpr ?_
    intro part
    exact (hrespelled.accepted_iff part).mp (hall part)

end Configured

/-- The letter case of the listed header names shows exactly in requests whose flagged headers
are selected under one spelling and not under the other. -/
theorem respelled_headers_iff (parse : Bytes → Option Json) (detectSQLi : Bytes → Bool)
    (order order' : IterationOrder) {text text' : Bytes} {root root₁ : ExampleRootContext}
    (haccepted : onConfigure parse order text root = .ok true root₁)
    (hrespelled : RespelledText parse text text') (ctx : ExampleContext) (req : Request) :
    ∃ root₂, onConfigure parse order' text' root = .ok true root₂ ∧
      (shown (onRequestHeaders detectSQLi order (onCreate root₁ ctx) req) =
          shown (onRequestHeaders detectSQLi order' (onCreate root₂ ctx) req) ↔
        SpellingHarmless detectSQLi req
          ((textGives parse text .header).getD (root.config.part .header))
          ((textGives parse text' .header).getD (root.config.part .header))) := by
  obtain ⟨root₂, haccepted'⟩ := accepted_respelled order' haccepted hrespelled
  refine ⟨root₂, haccepted', ?_⟩
  have hconfig := onConfigure_ok haccepted
  have hconfig' := onConfigure_ok haccepted'
  have hpart : ∀ part, root₁.config.part part =
      (textGives parse text part).getD (root.config.part part) := by
    intro part
    rw [hconfig, overlay_part]
  have hpart' : ∀ part, root₂.config.part part =
      (textGives parse text' part).getD (root.config.part part) := by
    intro part
    rw [hconfig', overlay_part]
  rw [← hpart, ← hpart', ← hasHit_iff_harmless]
  refine shown_eq_iff order order' (onCreate root₁ ctx) (onCreate root₂ ctx) req ?_
  intro part hother
  change root₁.config.part part = root₂.config.part part
  rw [hpart, hpart', hrespelled.textGives hother]

section Sample

def includeHeader (name : Bytes) : Json :=
  .object [(bytes "header", .object [(bytes "include", .array [.string name])])]

def readmeSpelling : Bytes := bytes "\x7b\"header\": \x7b\"include\": [\"User-Agent\"]\x7d\x7d"

def lowerSpelling : Bytes := bytes "\x7b\"header\": \x7b\"include\": [\"user-agent\"]\x7d\x7d"

def readSpellings : Bytes → Option Json :=
  readTable [(readmeSpelling, includeHeader (bytes "User-Agent")),
    (lowerSpelling, includeHeader (bytes "user-agent"))]

def includeRoot (name : Bytes) : ExampleRootContext := { config := { headers := {name} } }

theorem respelled_includeHeader {name name' : Bytes} (h : CaseVariant name name') :
    Respelled (includeHeader name) (includeHeader name') where
  object := iff_of_true (.inr ⟨_, rfl⟩) (.inr ⟨_, rfl⟩)
  rest key hkey := by
    have hb : (key == bytes "header") = false := beq_eq_false_iff_ne.mpr hkey
    simp only [member, includeHeader, List.lookup_cons, hb]
  header := iff_of_true (.inr ⟨_, rfl⟩) (.inr ⟨_, rfl⟩)
  included := .inr ⟨[name], [name'], rfl, rfl, .cons h .nil⟩
  excluded := .inl rfl

theorem respelled_readme : RespelledText readSpellings lowerSpelling readmeSpelling :=
  .inr ⟨by decide, by decide, _, _, rfl, rfl,
    respelled_includeHeader (by unfold CaseVariant; decide)⟩

theorem onConfigure_lower :
    onConfigure readSpellings .toList lowerSpelling {} =
      .ok true (includeRoot (bytes "user-agent")) := rfl

theorem onConfigure_readme :
    onConfigure readSpellings .toList readmeSpelling {} =
      .ok true (includeRoot (bytes "User-Agent")) := rfl

end Sample

theorem respelled_headers_iff_at :
    ∃ root₂, onConfigure readSpellings .toList readmeSpelling {} = .ok true root₂ ∧
      (shown (onRequestHeaders (· == bytes "1' or 1=1") .toList
            (onCreate (includeRoot (bytes "user-agent")) {}) (oneHeader (bytes "accept") [])) =
          shown (onRequestHeaders (· == bytes "1' or 1=1") .toList (onCreate root₂ {})
            (oneHeader (bytes "accept") [])) ↔
        SpellingHarmless (· == bytes "1' or 1=1") (oneHeader (bytes "accept") [])
          ⟨true, {bytes "user-agent"}⟩ ⟨true, {bytes "User-Agent"}⟩) :=
  respelled_headers_iff readSpellings _ _ _ onConfigure_lower respelled_readme {}
    (oneHeader (bytes "accept") [])

theorem readme_spelling_not_inspected :
    RespelledText readSpellings lowerSpelling readmeSpelling ∧
      onConfigure readSpellings .toList lowerSpelling {} =
        .ok true (includeRoot (bytes "user-agent")) ∧
      onConfigure readSpellings .toList readmeSpelling {} =
        .ok true (includeRoot (bytes "User-Agent")) ∧
      shown (onRequestHeaders (· == bytes "1' or 1=1") .toList
          (onCreate (includeRoot (bytes "user-agent")) {})
          (oneHeader (bytes "user-agent") (bytes "1' or 1=1"))) ≠
        shown (onRequestHeaders (· == bytes "1' or 1=1") .toList
          (onCreate (includeRoot (bytes "User-Agent")) {})
          (oneHeader (bytes "user-agent") (bytes "1' or 1=1"))) := by
  refine ⟨respelled_readme, onConfigure_lower, onConfigure_readme, ?_⟩
  have hpasses : ¬ Stops (· == bytes "1' or 1=1")
      (onCreate (includeRoot (bytes "User-Agent")) {}).config
      (oneHeader (bytes "user-agent") (bytes "1' or 1=1")) := by
    decide
  rw [callback_of_header .toList (onCreate (includeRoot (bytes "user-agent")) {})
      (oneHeader (bytes "user-agent") (bytes "1' or 1=1")) (by decide),
    callback_of_pass .toList (onCreate (includeRoot (bytes "User-Agent")) {}) _ hpasses]
  decide

end WafWasm.HeaderSpelling
