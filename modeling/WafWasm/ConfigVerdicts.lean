import WafWasm.ConfigAcceptance
import WafWasm.StagedChecks

set_option autoImplicit false

namespace WafWasm.ConfigVerdicts
open Common UnorderedContainers JsonValue ConfigParser ConfigAcceptance Detection Sqli StagedChecks
  Contexts

/-- A part is stored, refused with a message, or ends in a type error, which may come after
its include flag has been written. -/
inductive Verdict where
  | accepted (given : Option Selection)
  | rejected (message : Bytes)
  | illTyped (written : Option Bool) (e : TypeError)

section Verdicts

def rejections : List Bytes :=
  [bytes "JSON parse error in configuration", bytes "missing content-type field under body",
    bytes "invalid content type, only application/x-www-form-urlencoded is supported",
    bytes "include and exclude cannot both be present"]

def listVerdict (isInclude : Bool) (list : Json) : Verdict :=
  match list.getKeys with
  | .ok keys => .accepted (some ⟨isInclude, keys⟩)
  | .error e => .illTyped (some isInclude) e

def fieldVerdict (field : Json) : Verdict :=
  if field.isNull then .accepted none
  else
    match field.at (bytes "include"), field.at (bytes "exclude") with
    | .ok included, .ok excluded =>
      if included.isNull then
        if excluded.isNull then .accepted none else listVerdict false excluded
      else if excluded.isNull then listVerdict true included
      else .rejected (bytes "include and exclude cannot both be present")
    | .error e, _ => .illTyped none e
    | _, .error e => .illTyped none e

def bodyVerdict (field : Json) : Verdict :=
  if field.isNull then .accepted none
  else
    match field.at (bytes "content-type") with
    | .error e => .illTyped none e
    | .ok .null => .rejected (bytes "missing content-type field under body")
    | .ok contentType =>
      match contentType.getString with
      | .error e => .illTyped none e
      | .ok text =>
        if text = urlencoded then fieldVerdict field
        else .rejected (bytes
          "invalid content type, only application/x-www-form-urlencoded is supported")

def partVerdict (j : Json) (part : Part) : Verdict :=
  match j.at (partKey part) with
  | .error e => .illTyped none e
  | .ok field => if part = .body then bodyVerdict field else fieldVerdict field

def Verdict.isAccepted : Verdict → Bool
  | .accepted _ => true
  | _ => false

def Verdict.isIllTyped : Verdict → Bool
  | .illTyped _ _ => true
  | _ => false

def Verdict.after (verdict : Verdict) (sel : Selection) : Selection :=
  match verdict with
  | .accepted given => given.getD sel
  | .rejected _ => sel
  | .illTyped none _ => sel
  | .illTyped (some isInclude) _ => ⟨isInclude, sel.keys⟩

def Verdict.leave (verdict : Verdict) (config : Config) (part : Part) : Config :=
  match verdict with
  | .accepted given => config.give part given
  | .rejected _ => config
  | .illTyped none _ => config
  | .illTyped (some isInclude) _ => config.setInclude isInclude part

def Verdict.result (verdict : Verdict) (part : Part) (s : ParseState) :
    EStateM.Result TypeError ParseState Bool :=
  match verdict with
  | .accepted _ => .ok true { s with config := verdict.leave s.config part }
  | .rejected message => .ok false { s with log := message }
  | .illTyped _ e => .error e { s with config := verdict.leave s.config part }

theorem Verdict.after_after (verdict : Verdict) (sel : Selection) :
    verdict.after (verdict.after sel) = verdict.after sel := by
  rcases verdict with (_ | _) | _ | ⟨_ | _, _⟩ <;> rfl

theorem Verdict.leave_contentType (verdict : Verdict) (config : Config) (part : Part) :
    (verdict.leave config part).contentType = config.contentType := by
  cases verdict with
  | accepted given => exact Config.give_contentType config part given
  | rejected message => rfl
  | illTyped written e =>
    cases written with
    | none => rfl
    | some isInclude => cases part <;> rfl

theorem Verdict.leave_part_self (verdict : Verdict) (config : Config) (part : Part) :
    (verdict.leave config part).part part = verdict.after (config.part part) := by
  cases verdict with
  | accepted given => exact Config.give_part_self config part given
  | rejected message => rfl
  | illTyped written e =>
    cases written with
    | none => rfl
    | some isInclude => cases part <;> rfl

theorem Verdict.leave_part_ne (verdict : Verdict) (config : Config) {part other : Part}
    (h : other ≠ part) : (verdict.leave config part).part other = config.part other := by
  cases verdict with
  | accepted given => exact Config.give_part_ne config given h
  | rejected message => rfl
  | illTyped written e =>
    cases written with
    | none => rfl
    | some isInclude => cases part <;> cases other <;> first | rfl | exact absurd rfl h

end Verdicts

section Checks

/-- The block of `parseConfig` on one part. -/
def check (j : Json) (part : Part) : ConfigM Bool := do
  let field ← throwing (j.at (partKey part))
  if part = .body then validateBody field else validateConfigField field part

theorem store_eq (list : Json) (isInclude : Bool) (part : Part) (s : ParseState) :
    store list isInclude part s = (listVerdict isInclude list).result part s := by
  unfold store listVerdict
  cases list.getKeys <;> rfl

theorem fieldVerdict_object (members : List (Bytes × Json)) :
    fieldVerdict (.object members) =
      if (member (.object members) (bytes "include")).isNull then
        if (member (.object members) (bytes "exclude")).isNull then .accepted none
        else listVerdict false (member (.object members) (bytes "exclude"))
      else if (member (.object members) (bytes "exclude")).isNull then
        listVerdict true (member (.object members) (bytes "include"))
      else .rejected (bytes "include and exclude cannot both be present") := by
  have hnull : (Json.object members).isNull = false := rfl
  unfold fieldVerdict
  rw [at_object, at_object, hnull, if_neg Bool.false_ne_true]

theorem validate_eq (field : Json) (part : Part) (s : ParseState) :
    validateConfigField field part s = (fieldVerdict field).result part s := by
  cases field with
  | object members =>
    rw [validate_object, fieldVerdict_object]
    cases (member (.object members) (bytes "include")).isNull with
    | false =>
      cases (member (.object members) (bytes "exclude")).isNull with
      | false => rfl
      | true => exact store_eq _ true part s
    | true =>
      cases (member (.object members) (bytes "exclude")).isNull with
      | false => exact store_eq _ false part s
      | true => rfl
  | null | boolean _ | number | string _ | array _ => rfl

theorem validateBody_eq (field : Json) (s : ParseState) :
    validateBody field s = (bodyVerdict field).result .body s := by
  cases field with
  | object members =>
    have hnull : (Json.object members).isNull = false := rfl
    unfold validateBody bodyVerdict
    rw [at_object, hnull]
    cases member (.object members) (bytes "content-type") with
    | string text =>
      by_cases htext : text = urlencoded
      · subst htext
        exact validate_eq (.object members) .body s
      · change (if text ≠ urlencoded then _ else _ : ConfigM Bool) s =
          Verdict.result (if text = urlencoded then _ else _) .body s
        rw [if_pos htext, if_neg htext]
        rfl
    | null | boolean _ | number | array _ | object _ => rfl
  | null | boolean _ | number | string _ | array _ => rfl

theorem check_eq (j : Json) (part : Part) (s : ParseState) :
    check j part s = (partVerdict j part).result part s := by
  unfold check partVerdict
  cases j.at (partKey part) with
  | error e => rfl
  | ok field =>
    by_cases hpart : part = .body
    · subst hpart
      exact validateBody_eq field s
    · simp only [if_neg hpart]
      exact validate_eq field part s

end Checks

section Parser
variable {parse : Bytes → Option Json} {order : Traversal Bytes}

/-- The parts in the order of the source. -/
def checked : List Part := [.body, .path, .cookie, .header]

theorem mem_checked (part : Part) : part ∈ checked := by
  cases part <;> decide

theorem parseConfig_unreadable {text : Bytes} (h : parse text = none) (s : ParseState) :
    parseConfig parse order text s =
      .ok false { s with log := bytes "JSON parse error in configuration" } := by
  rw [parseConfig, h]
  rfl

def report (order : Traversal Bytes) : ConfigM Bool := do
  modify fun s => { s with log := bytes "config parsed into context ->" ++ s.config.toString order }
  return true

theorem parseConfig_eq {text : Bytes} {j : Json} (h : parse text = some j) :
    parseConfig parse order text = allOf (checked.map (check j) ++ [report order]) := by
  have hflip : ∀ (accepted : Bool) (stop go : ConfigM Bool),
      (if accepted = false then stop else go) = if accepted = true then go else stop := by
    intro accepted stop go
    cases accepted <;> rfl
  unfold parseConfig
  rw [h]
  simp [checked, allOf, check, report, partKey, hflip]

def leaveAll (j : Json) (config : Config) (parts : List Part) : Config :=
  parts.foldl (fun config part => (partVerdict j part).leave config part) config

theorem leaveAll_contentType (j : Json) (config : Config) (parts : List Part) :
    (leaveAll j config parts).contentType = config.contentType := by
  induction parts generalizing config with
  | nil => rfl
  | cons part parts ih => exact (ih _).trans (Verdict.leave_contentType _ config part)

theorem leaveAll_part (j : Json) (config : Config) (parts : List Part) (part : Part) :
    (leaveAll j config parts).part part =
      if part ∈ parts then (partVerdict j part).after (config.part part)
      else config.part part := by
  induction parts generalizing config with
  | nil => rfl
  | cons first parts ih =>
    have hstep := ih ((partVerdict j first).leave config first)
    change (leaveAll j _ parts).part part = _
    rw [hstep]
    by_cases hpart : part = first
    · subst hpart
      rw [Verdict.leave_part_self, Verdict.after_after, ite_self, if_pos List.mem_cons_self]
    · rw [Verdict.leave_part_ne _ _ hpart]
      simp only [List.mem_cons, hpart, false_or]

theorem passes_accepted {j : Json} {parts : List Part}
    (h : ∀ part ∈ parts, (partVerdict j part).isAccepted = true) (s : ParseState) :
    Passes (parts.map (check j)) s { s with config := leaveAll j s.config parts } := by
  induction parts generalizing s with
  | nil => exact .nil s
  | cons part parts ih =>
    have hrest := ih (fun other hm => h other (List.mem_cons_of_mem _ hm))
      { s with config := (partVerdict j part).leave s.config part }
    refine .cons ?_ hrest
    rw [check_eq]
    have hpart := h part List.mem_cons_self
    cases hv : partVerdict j part with
    | accepted given => rfl
    | rejected _ | illTyped _ _ =>
      rw [hv] at hpart
      cases hpart

theorem check_stops {j : Json} {part : Part} (h : (partVerdict j part).isAccepted = false)
    (s : ParseState) : Stops (check j part) s := by
  intro t ht
  rw [check_eq] at ht
  cases hv : partVerdict j part with
  | accepted given =>
    rw [hv] at h
    cases h
  | rejected _ | illTyped _ _ =>
    rw [hv] at ht
    cases ht

/-- The checks end at `part`, behind the accepted parts `front`. -/
structure EndsAt (j : Json) (front : List Part) (part : Part) : Prop where
  order : ∃ back, checked = front ++ part :: back
  front_accepted : ∀ p ∈ front, (partVerdict j p).isAccepted = true
  not_accepted : (partVerdict j part).isAccepted = false

theorem accepted_or_endsAt (j : Json) :
    (∀ part, (partVerdict j part).isAccepted = true) ∨ ∃ front part, EndsAt j front part := by
  cases hf : checked.find? (fun part => !(partVerdict j part).isAccepted) with
  | none =>
    left
    intro part
    simpa using List.find?_eq_none.mp hf part (mem_checked part)
  | some part =>
    right
    obtain ⟨hpart, front, back, horder, hfront⟩ := List.find?_eq_some_iff_append.mp hf
    refine ⟨front, part, ⟨back, horder⟩, ?_, ?_⟩
    · intro p hp
      simpa using hfront p hp
    · simpa using hpart

theorem parseConfig_accepted {text : Bytes} {j : Json} (hj : parse text = some j)
    (h : ∀ part, (partVerdict j part).isAccepted = true) (s : ParseState) :
    parseConfig parse order text s = .ok true
      ⟨leaveAll j s.config checked, bytes "config parsed into context ->" ++
        (leaveAll j s.config checked).toString order⟩ := by
  rw [parseConfig_eq hj, (passes_accepted (fun part _ => h part) s).run_append]
  rfl

theorem parseConfig_endsAt {text : Bytes} {j : Json} {front : List Part} {part : Part}
    (hj : parse text = some j) (h : EndsAt j front part) (s : ParseState) :
    parseConfig parse order text s =
      (partVerdict j part).result part { s with config := leaveAll j s.config front } := by
  obtain ⟨back, horder⟩ := h.order
  rw [parseConfig_eq hj, horder, List.map_append, List.map_cons, List.append_assoc,
    List.cons_append, (passes_accepted h.front_accepted s).run_stop (check_stops h.not_accepted _),
    check_eq]

theorem stops_endsAt {text : Bytes} {j : Json} {front : List Part} {part : Part}
    (hj : parse text = some j) (h : EndsAt j front part) (s : ParseState) :
    Stops (parseConfig parse order text) s := by
  intro t ht
  rw [parseConfig_endsAt hj h, ← check_eq] at ht
  exact check_stops h.not_accepted _ t ht

theorem stops_iff {text : Bytes} {j : Json} (hj : parse text = some j) (s : ParseState) :
    Stops (parseConfig parse order text) s ↔
      ¬ ∀ part, (partVerdict j part).isAccepted = true := by
  rcases accepted_or_endsAt j with hall | ⟨front, part, hends⟩
  · exact iff_of_false (fun hstops => hstops _ (parseConfig_accepted hj hall s)) (not_not.mpr hall)
  · refine iff_of_true (stops_endsAt hj hends s) fun hall => ?_
    have hnot := hends.not_accepted
    rw [hall part] at hnot
    cases hnot

end Parser

section Callback
variable {parse : Bytes → Option Json} {order : IterationOrder}

theorem onConfigure_text {text : Bytes} (h : text.length ≠ 0) (root : ExampleRootContext) :
    onConfigure parse order text root =
      match parseConfig parse order.keys text ⟨root.config, []⟩ with
      | .ok accepted s => .ok accepted ⟨s.config⟩
      | .error e s => .error e ⟨s.config⟩ := if_neg h

theorem stops_onConfigure {text : Bytes} (h : text.length ≠ 0) (root : ExampleRootContext) :
    Stops (onConfigure parse order text) root ↔
      Stops (parseConfig parse order.keys text) ⟨root.config, []⟩ := by
  unfold Stops
  rw [onConfigure_text h]
  cases parseConfig parse order.keys text ⟨root.config, []⟩ with
  | error e s => exact iff_of_true (fun t ht => by cases ht) (fun t ht => by cases ht)
  | ok accepted s =>
    cases accepted with
    | false => exact iff_of_true (fun t ht => by cases ht) (fun t ht => by cases ht)
    | true => exact iff_of_false (fun hs => hs ⟨s.config⟩ rfl) (fun hs => hs s rfl)

end Callback
end WafWasm.ConfigVerdicts
