import WafWasm.ConfigParts
import WafWasm.Contexts

set_option autoImplicit false

namespace WafWasm.ConfigAcceptance
open Common UnorderedContainers JsonValue ConfigParser Detection Sqli Contexts

section Given

def member (j : Json) (key : Bytes) : Json :=
  match j with
  | .object members => (members.lookup key).getD .null
  | _ => .null

def string? : Json → Option Bytes
  | .string s => some s
  | _ => none

def strings (elements : List Json) : Keys := (elements.filterMap string?).toFinset

/-- The keys a field gives: those to include if there are any, else those to exclude. -/
def givenBy (field : Json) : Option Selection :=
  match member field (bytes "include"), member field (bytes "exclude") with
  | .array included, _ => some ⟨true, strings included⟩
  | _, .array excluded => some ⟨false, strings excluded⟩
  | _, _ => none

def partKey : Part → Bytes
  | .body => bytes "body"
  | .path => bytes "path"
  | .cookie => bytes "cookie"
  | .header => bytes "header"

def given (j : Json) (part : Part) : Option Selection := givenBy (member j (partKey part))

def overlay (config : Config) (given : Part → Option Selection) : Config :=
  (((config.give .body (given .body)).give .path (given .path)).give .cookie
    (given .cookie)).give .header (given .header)

theorem overlay_contentType (config : Config) (given : Part → Option Selection) :
    (overlay config given).contentType = config.contentType := by
  simp only [overlay, Config.give_contentType]

theorem overlay_part (config : Config) (given : Part → Option Selection) (part : Part) :
    (overlay config given).part part = (given part).getD (config.part part) := by
  unfold overlay
  cases part with
  | header => rw [Config.give_part_self, Config.give_part_ne _ _ (by decide),
      Config.give_part_ne _ _ (by decide), Config.give_part_ne _ _ (by decide)]
  | cookie => rw [Config.give_part_ne _ _ (by decide), Config.give_part_self,
      Config.give_part_ne _ _ (by decide), Config.give_part_ne _ _ (by decide)]
  | path => rw [Config.give_part_ne _ _ (by decide), Config.give_part_ne _ _ (by decide),
      Config.give_part_self, Config.give_part_ne _ _ (by decide)]
  | body => rw [Config.give_part_ne _ _ (by decide), Config.give_part_ne _ _ (by decide),
      Config.give_part_ne _ _ (by decide), Config.give_part_self]

end Given

section Monad
variable {α β : Type}

theorem bind_ok {x : ConfigM α} {k : α → ConfigM β} {s s'' : ParseState} {b : β}
    (h : (x >>= k) s = .ok b s'') : ∃ a s', x s = .ok a s' ∧ k a s' = .ok b s'' := by
  change EStateM.bind x k s = _ at h
  unfold EStateM.bind at h
  cases hx : x s with
  | ok a s' =>
    rw [hx] at h
    exact ⟨a, s', rfl, h⟩
  | error e s' =>
    rw [hx] at h
    cases h

theorem throwing_bind_ok {r : Except TypeError α} {k : α → ConfigM β} {s s' : ParseState} {b : β}
    (h : (throwing r >>= k) s = .ok b s') : ∃ a, r = .ok a ∧ k a s = .ok b s' := by
  cases r with
  | ok a => exact ⟨a, rfl, h⟩
  | error e => cases h

end Monad

section Library

theorem member_of_at {j v : Json} {key : Bytes} (h : j.at key = .ok v) : member j key = v := by
  cases j with
  | null => exact Except.ok.inj h
  | object members => exact Except.ok.inj h
  | boolean _ | number | string _ | array _ => cases h

theorem at_object (members : List (Bytes × Json)) (key : Bytes) :
    (Json.object members).at key = .ok (member (.object members) key) := rfl

theorem eq_map_string {elements : List Json} {ss : List Bytes}
    (h : elements.mapM Json.getString = .ok ss) : elements = ss.map Json.string := by
  induction elements generalizing ss with
  | nil =>
    cases h
    rfl
  | cons element elements ih =>
    rw [List.mapM_cons] at h
    cases element with
    | string s =>
      cases hm : elements.mapM Json.getString with
      | ok rest =>
        rw [hm] at h
        cases h
        rw [ih hm]
        rfl
      | error e =>
        rw [hm] at h
        cases h
    | null | boolean _ | number | array _ | object _ => cases h

theorem filterMap_string (ss : List Bytes) : (ss.map Json.string).filterMap string? = ss := by
  induction ss with
  | nil => rfl
  | cons s ss ih =>
    rw [List.map_cons, List.filterMap_cons, ih]
    rfl

theorem getKeys_ok {j : Json} {keys : Keys} (h : j.getKeys = .ok keys) :
    ∃ elements, j = .array elements ∧ keys = strings elements := by
  cases j with
  | array elements =>
    refine ⟨elements, rfl, ?_⟩
    change (elements.mapM Json.getString).map List.toFinset = .ok keys at h
    cases hm : elements.mapM Json.getString with
    | ok ss =>
      rw [hm] at h
      cases h
      rw [strings, eq_map_string hm, filterMap_string]
    | error e =>
      rw [hm] at h
      cases h
  | null | boolean _ | number | string _ | object _ => cases h

end Library

section Validator

/-- Storing the keys of a list: a type error in it comes after the flag is written. -/
def store (list : Json) (isInclude : Bool) (part : Part) (s : ParseState) :
    EStateM.Result TypeError ParseState Bool :=
  match list.getKeys with
  | .ok keys => .ok true { s with config := s.config.give part (some ⟨isInclude, keys⟩) }
  | .error e => .error e { s with config := s.config.setInclude isInclude part }

theorem validate_null (part : Part) (s : ParseState) :
    validateConfigField .null part s = .ok true s := rfl

theorem validate_object (members : List (Bytes × Json)) (part : Part) (s : ParseState) :
    validateConfigField (.object members) part s =
      match (member (.object members) (bytes "include")).isNull,
        (member (.object members) (bytes "exclude")).isNull with
      | false, false =>
        .ok false { s with log := bytes "include and exclude cannot both be present" }
      | false, true => store (member (.object members) (bytes "include")) true part s
      | true, false => store (member (.object members) (bytes "exclude")) false part s
      | true, true => .ok true s := by
  have hnull : (Json.object members).isNull = false := rfl
  have hstep : ∀ {α : Type} (a : α) (k : α → ConfigM Bool), (throwing (.ok a) >>= k) = k a :=
    fun _ _ => rfl
  unfold validateConfigField
  rw [at_object, at_object, hnull]
  generalize member (.object members) (bytes "include") = included
  generalize member (.object members) (bytes "exclude") = excluded
  simp only [hstep, Bool.false_eq_true, if_false]
  cases hi : included.isNull <;> cases he : excluded.isNull
  · rfl
  · unfold store
    cases included.getKeys <;> rfl
  · unfold store
    cases excluded.getKeys <;> rfl
  · rfl

theorem store_ok {list : Json} {isInclude : Bool} {part : Part} {s s' : ParseState}
    (h : store list isInclude part s = .ok true s') :
    ∃ elements, list = .array elements ∧
      s' = { s with config := s.config.give part (some ⟨isInclude, strings elements⟩) } := by
  unfold store at h
  cases hk : list.getKeys with
  | ok keys =>
    rw [hk] at h
    obtain ⟨elements, harray, rfl⟩ := getKeys_ok hk
    exact ⟨elements, harray, ((EStateM.Result.ok.inj h).2).symm⟩
  | error e =>
    rw [hk] at h
    cases h

theorem isNull_iff {j : Json} : j.isNull = true ↔ j = .null := by
  cases j <;> simp [Json.isNull]

theorem validate_ok {field : Json} {part : Part} {s s' : ParseState}
    (h : validateConfigField field part s = .ok true s') :
    s' = { s with config := s.config.give part (givenBy field) } := by
  cases field with
  | null =>
    rw [validate_null] at h
    exact ((EStateM.Result.ok.inj h).2).symm
  | object members =>
    rw [validate_object] at h
    unfold givenBy
    generalize member (.object members) (bytes "include") = included at h ⊢
    generalize member (.object members) (bytes "exclude") = excluded at h ⊢
    cases hi : included.isNull with
    | false =>
      cases he : excluded.isNull with
      | false =>
        simp only [hi, he] at h
        cases (EStateM.Result.ok.inj h).1
      | true =>
        simp only [hi, he] at h
        obtain ⟨elements, rfl, hs⟩ := store_ok h
        exact hs
    | true =>
      cases he : excluded.isNull with
      | false =>
        simp only [hi, he] at h
        obtain ⟨elements, rfl, hs⟩ := store_ok h
        rw [isNull_iff.mp hi]
        exact hs
      | true =>
        simp only [hi, he] at h
        rw [isNull_iff.mp hi, isNull_iff.mp he]
        exact ((EStateM.Result.ok.inj h).2).symm
  | boolean _ | number | string _ | array _ => cases h

theorem validateBody_ok {queryParam : Json} {s s' : ParseState}
    (h : validateBody queryParam s = .ok true s') :
    s' = { s with config := s.config.give .body (givenBy queryParam) } := by
  cases hn : queryParam.isNull with
  | true =>
    rw [isNull_iff.mp hn] at h ⊢
    exact ((EStateM.Result.ok.inj h).2).symm
  | false =>
    unfold validateBody at h
    simp only [hn, Bool.false_eq_true, if_false] at h
    obtain ⟨contentType, _, h⟩ := throwing_bind_ok h
    cases hc : contentType.isNull with
    | true =>
      simp only [hc, if_true] at h
      cases (EStateM.Result.ok.inj h).1
    | false =>
      simp only [hc, Bool.false_eq_true, if_false] at h
      obtain ⟨text, _, h⟩ := throwing_bind_ok h
      by_cases ht : text = urlencoded
      · simp only [ht, ne_eq, not_true_eq_false, if_false] at h
        exact validate_ok h
      · simp only [ne_eq, ht, not_false_eq_true, if_true] at h
        cases (EStateM.Result.ok.inj h).1

end Validator

section Parser
variable {parse : Bytes → Option Json} {order : Traversal Bytes}

theorem check_ok {check : ConfigM Bool} {k : ConfigM Bool} {s s' : ParseState}
    (h : (check >>= fun accepted => if !accepted then return false else k) s = .ok true s') :
    ∃ t, check s = .ok true t ∧ k t = .ok true s' := by
  obtain ⟨accepted, t, hcheck, h⟩ := bind_ok h
  cases accepted with
  | false => cases (EStateM.Result.ok.inj h).1
  | true => exact ⟨t, hcheck, h⟩

theorem parseConfig_ok {text : Bytes} {s s' : ParseState}
    (h : parseConfig parse order text s = .ok true s') :
    ∃ j, parse text = some j ∧ s'.config = overlay s.config (given j) := by
  unfold parseConfig at h
  cases hj : parse text with
  | none =>
    rw [hj] at h
    cases (EStateM.Result.ok.inj h).1
  | some j =>
    simp only [hj] at h
    refine ⟨j, rfl, ?_⟩
    obtain ⟨body, hbody, h⟩ := throwing_bind_ok h
    obtain ⟨s₁, hcheck₁, h⟩ := check_ok h
    obtain ⟨path, hpath, h⟩ := throwing_bind_ok h
    obtain ⟨s₂, hcheck₂, h⟩ := check_ok h
    obtain ⟨cookie, hcookie, h⟩ := throwing_bind_ok h
    obtain ⟨s₃, hcheck₃, h⟩ := check_ok h
    obtain ⟨header, hheader, h⟩ := throwing_bind_ok h
    obtain ⟨s₄, hcheck₄, h⟩ := check_ok h
    have hs' : s'.config = s₄.config := by
      cases h
      rfl
    rw [hs', validate_ok hcheck₄, validate_ok hcheck₃, validate_ok hcheck₂,
      validateBody_ok hcheck₁]
    unfold overlay given partKey
    rw [member_of_at hbody, member_of_at hpath, member_of_at hcookie, member_of_at hheader]

end Parser

section Callback
variable (parse : Bytes → Option Json)

/-- The parts a text gives. The empty text is not read, and gives none. -/
def textGives (text : Bytes) : Part → Option Selection :=
  if text.length = 0 then fun _ => none
  else
    match parse text with
    | some j => given j
    | none => fun _ => none

variable {parse} {order : IterationOrder}

theorem overlay_none (config : Config) : overlay config (fun _ => none) = config := rfl

theorem onConfigure_ok {text : Bytes} {root root' : ExampleRootContext}
    (h : onConfigure parse order text root = .ok true root') :
    root'.config = overlay root.config (textGives parse text) := by
  unfold onConfigure at h
  unfold textGives
  by_cases hlength : text.length = 0
  · rw [if_pos hlength] at h
    rw [if_pos hlength, overlay_none]
    cases h
    rfl
  · rw [if_neg hlength] at h
    rw [if_neg hlength]
    cases hparse : parseConfig parse order.keys text ⟨root.config, []⟩ with
    | ok accepted s =>
      rw [hparse] at h
      cases h
      obtain ⟨j, hj, hconfig⟩ := parseConfig_ok hparse
      rw [hj]
      exact hconfig
    | error e s =>
      rw [hparse] at h
      cases h

end Callback
end WafWasm.ConfigAcceptance
