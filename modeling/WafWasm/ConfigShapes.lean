import WafWasm.ConfigVerdicts

set_option autoImplicit false

namespace WafWasm.ConfigShapes
open Common UnorderedContainers JsonValue ConfigParser ConfigAcceptance Sqli StagedChecks
open ConfigVerdicts

section Shapes

def ObjectOrNull (j : Json) : Prop := j = .null ∨ ∃ members, j = .object members

def StringOrNull (j : Json) : Prop := j = .null ∨ ∃ s, j = .string s

def StringsOrNull (j : Json) : Prop := j = .null ∨ ∃ ss : List Bytes, j = .array (ss.map .string)

abbrev included (field : Json) : Json := member field (bytes "include")

abbrev excluded (field : Json) : Json := member field (bytes "exclude")

abbrev contentTypeOf (field : Json) : Json := member field (bytes "content-type")

structure WellShapedField (field : Json) : Prop where
  object : ObjectOrNull field
  included : StringsOrNull (included field)
  excluded : StringsOrNull (excluded field)

/-- A configuration of the documented shape. A null stands for a member that is absent. -/
structure WellShaped (j : Json) : Prop where
  object : ObjectOrNull j
  field : ∀ part, WellShapedField (member j (partKey part))
  contentType : StringOrNull (contentTypeOf (member j (bytes "body")))

end Shapes

section Lists

theorem mapM_getString_map (ss : List Bytes) :
    (ss.map Json.string).mapM Json.getString = .ok ss := by
  induction ss with
  | nil => rfl
  | cons s ss ih =>
    rw [List.map_cons, List.mapM_cons, ih]
    rfl

theorem getKeys_map (ss : List Bytes) :
    (Json.array (ss.map .string)).getKeys = .ok ss.toFinset := by
  change ((ss.map Json.string).mapM Json.getString).map List.toFinset = _
  rw [mapM_getString_map]
  rfl

theorem listVerdict_cases (isInclude : Bool) (list : Json) :
    (∃ ss : List Bytes, list = .array (ss.map .string) ∧
        listVerdict isInclude list = .accepted (some ⟨isInclude, ss.toFinset⟩)) ∨
      (¬ ∃ ss : List Bytes, list = .array (ss.map .string)) ∧
        ∃ e, listVerdict isInclude list = .illTyped (some isInclude) e := by
  by_cases h : ∃ ss : List Bytes, list = .array (ss.map .string)
  · obtain ⟨ss, rfl⟩ := h
    refine .inl ⟨ss, rfl, ?_⟩
    rw [listVerdict, getKeys_map]
  · refine .inr ⟨h, ?_⟩
    unfold listVerdict
    cases hk : list.getKeys with
    | error e => exact ⟨e, rfl⟩
    | ok keys =>
      cases list with
      | array elements =>
        change (elements.mapM Json.getString).map List.toFinset = .ok keys at hk
        cases hm : elements.mapM Json.getString with
        | error e =>
          rw [hm] at hk
          cases hk
        | ok ss => exact absurd ⟨ss, congrArg Json.array (eq_map_string hm)⟩ h
      | null | boolean _ | number | string _ | object _ => cases hk

end Lists

theorem listVerdict_accepted_iff (isInclude : Bool) {list : Json} (h : list ≠ .null) :
    (listVerdict isInclude list).isAccepted = true ↔ StringsOrNull list := by
  unfold StringsOrNull
  rw [or_iff_right h]
  rcases listVerdict_cases isInclude list with ⟨ss, hlist, hv⟩ | ⟨hlist, e, hv⟩
  · rw [hv]
    exact iff_of_true rfl ⟨ss, hlist⟩
  · rw [hv]
    exact iff_of_false Bool.false_ne_true hlist

theorem listVerdict_illTyped_iff (isInclude : Bool) {list : Json} (h : list ≠ .null) :
    (listVerdict isInclude list).isIllTyped = true ↔ ¬ StringsOrNull list := by
  unfold StringsOrNull
  rw [or_iff_right h]
  rcases listVerdict_cases isInclude list with ⟨ss, hlist, hv⟩ | ⟨hlist, e, hv⟩
  · rw [hv]
    exact iff_of_false Bool.false_ne_true (not_not.mpr ⟨ss, hlist⟩)
  · rw [hv]
    exact iff_of_true rfl hlist

section Fields

theorem wellShaped_object (members : List (Bytes × Json)) :
    WellShapedField (.object members) ↔
      StringsOrNull (included (.object members)) ∧ StringsOrNull (excluded (.object members)) := by
  constructor
  · intro h
    exact ⟨h.included, h.excluded⟩
  · intro h
    exact ⟨.inr ⟨members, rfl⟩, h.1, h.2⟩

theorem wellShaped_null : WellShapedField .null := ⟨.inl rfl, .inl rfl, .inl rfl⟩

theorem objectOrNull_cases (j : Json) :
    j = .null ∨ (∃ members, j = .object members) ∨ ¬ ObjectOrNull j := by
  rw [← or_assoc]
  exact em (ObjectOrNull j)

theorem fieldVerdict_mismatch {field : Json} (h : ¬ ObjectOrNull field) :
    included field = .null ∧ ∃ e, fieldVerdict field = .illTyped none e := by
  cases field with
  | null => exact absurd (.inl rfl) h
  | object members => exact absurd (.inr ⟨members, rfl⟩) h
  | boolean _ | number | string _ | array _ => exact ⟨rfl, _, rfl⟩

theorem fieldVerdict_cases (members : List (Bytes × Json)) :
    (included (.object members) = .null ∧ excluded (.object members) = .null ∧
        fieldVerdict (.object members) = .accepted none) ∨
      (included (.object members) ≠ .null ∧ excluded (.object members) = .null ∧
        fieldVerdict (.object members) = listVerdict true (included (.object members))) ∨
      (included (.object members) = .null ∧ excluded (.object members) ≠ .null ∧
        fieldVerdict (.object members) = listVerdict false (excluded (.object members))) ∨
      (included (.object members) ≠ .null ∧ excluded (.object members) ≠ .null ∧
        fieldVerdict (.object members) =
          .rejected (bytes "include and exclude cannot both be present")) := by
  rw [fieldVerdict_object]
  by_cases hi : included (.object members) = .null
  · rw [if_pos (isNull_iff.mpr hi)]
    by_cases he : excluded (.object members) = .null
    · exact .inl ⟨hi, he, if_pos (isNull_iff.mpr he)⟩
    · exact .inr (.inr (.inl ⟨hi, he, if_neg (isNull_iff.not.mpr he)⟩))
  · rw [if_neg (isNull_iff.not.mpr hi)]
    by_cases he : excluded (.object members) = .null
    · exact .inr (.inl ⟨hi, he, if_pos (isNull_iff.mpr he)⟩)
    · exact .inr (.inr (.inr ⟨hi, he, if_neg (isNull_iff.not.mpr he)⟩))

theorem stringsOrNull_null : StringsOrNull .null := .inl rfl

theorem bodyVerdict_mismatch {field : Json} (h : ¬ ObjectOrNull field) :
    ∃ e, bodyVerdict field = .illTyped none e := by
  cases field with
  | null => exact absurd (.inl rfl) h
  | object members => exact absurd (.inr ⟨members, rfl⟩) h
  | boolean _ | number | string _ | array _ => exact ⟨_, rfl⟩

theorem fieldVerdict_accepted_iff (field : Json) :
    (fieldVerdict field).isAccepted = true ↔
      WellShapedField field ∧ (included field = .null ∨ excluded field = .null) := by
  rcases objectOrNull_cases field with rfl | ⟨members, rfl⟩ | hfield
  · exact iff_of_true rfl ⟨wellShaped_null, .inl rfl⟩
  · rw [wellShaped_object]
    rcases fieldVerdict_cases members with
      ⟨hi, he, hv⟩ | ⟨hi, he, hv⟩ | ⟨hi, he, hv⟩ | ⟨hi, he, hv⟩
    · rw [hv, hi, he]
      exact iff_of_true rfl ⟨⟨stringsOrNull_null, stringsOrNull_null⟩, .inl rfl⟩
    · rw [hv, listVerdict_accepted_iff true hi, he]
      simp [stringsOrNull_null]
    · rw [hv, listVerdict_accepted_iff false he, hi]
      simp [stringsOrNull_null]
    · rw [hv]
      exact iff_of_false Bool.false_ne_true fun h => h.2.elim hi he
  · obtain ⟨_, e, hv⟩ := fieldVerdict_mismatch hfield
    rw [hv]
    exact iff_of_false Bool.false_ne_true fun h => hfield h.1.object

theorem fieldVerdict_illTyped_iff (field : Json) :
    (fieldVerdict field).isIllTyped = true ↔
      ¬ WellShapedField field ∧ (included field = .null ∨ excluded field = .null) := by
  rcases objectOrNull_cases field with rfl | ⟨members, rfl⟩ | hfield
  · exact iff_of_false Bool.false_ne_true fun h => h.1 wellShaped_null
  · rw [wellShaped_object]
    rcases fieldVerdict_cases members with
      ⟨hi, he, hv⟩ | ⟨hi, he, hv⟩ | ⟨hi, he, hv⟩ | ⟨hi, he, hv⟩
    · rw [hv, hi, he]
      exact iff_of_false Bool.false_ne_true fun h => h.1 ⟨stringsOrNull_null, stringsOrNull_null⟩
    · rw [hv, listVerdict_illTyped_iff true hi, he]
      simp [stringsOrNull_null]
    · rw [hv, listVerdict_illTyped_iff false he, hi]
      simp [stringsOrNull_null]
    · rw [hv]
      exact iff_of_false Bool.false_ne_true fun h => h.2.elim hi he
  · obtain ⟨hincluded, e, hv⟩ := fieldVerdict_mismatch hfield
    rw [hv]
    exact iff_of_true rfl ⟨fun h => hfield h.object, .inl hincluded⟩

/-- The content type decides before the lists are looked at. -/
theorem bodyVerdict_cases (members : List (Bytes × Json)) :
    (contentTypeOf (.object members) = .string urlencoded ∧
        bodyVerdict (.object members) = fieldVerdict (.object members)) ∨
      (contentTypeOf (.object members) ≠ .string urlencoded ∧
        StringOrNull (contentTypeOf (.object members)) ∧
        ∃ message ∈ rejections, bodyVerdict (.object members) = .rejected message) ∨
      (¬ StringOrNull (contentTypeOf (.object members)) ∧
        ∃ e, bodyVerdict (.object members) = .illTyped none e) := by
  have hat : (Json.object members).at (bytes "content-type") =
      .ok (contentTypeOf (.object members)) := at_object members _
  have hnull : (Json.object members).isNull = false := rfl
  unfold bodyVerdict
  rw [hat, hnull]
  cases hc : contentTypeOf (.object members) with
  | null =>
    refine .inr (.inl ⟨Json.noConfusion, .inl rfl, ?_⟩)
    exact ⟨bytes "missing content-type field under body", .tail _ (.head _), rfl⟩
  | string text =>
    by_cases htext : text = urlencoded
    · exact .inl ⟨congrArg Json.string htext, if_pos htext⟩
    · refine .inr (.inl ⟨fun h => htext (Json.string.inj h), .inr ⟨text, rfl⟩, ?_⟩)
      exact ⟨bytes "invalid content type, only application/x-www-form-urlencoded is supported",
        .tail _ (.tail _ (.head _)), if_neg htext⟩
  | boolean _ | number | array _ | object _ =>
    refine .inr (.inr ⟨?_, _, rfl⟩)
    rintro (h | ⟨_, h⟩) <;> cases h

theorem bodyVerdict_accepted_iff (field : Json) :
    (bodyVerdict field).isAccepted = true ↔
      (fieldVerdict field).isAccepted = true ∧
        (field = .null ∨ contentTypeOf field = .string urlencoded) := by
  rcases objectOrNull_cases field with rfl | ⟨members, rfl⟩ | hfield
  · exact iff_of_true rfl ⟨rfl, .inl rfl⟩
  · rcases bodyVerdict_cases members with ⟨hc, hv⟩ | ⟨hc, _, _, _, hv⟩ | ⟨hc, _, hv⟩
    · rw [hv]
      exact (and_iff_left (.inr hc)).symm
    · rw [hv]
      exact iff_of_false Bool.false_ne_true fun h => h.2.elim Json.noConfusion hc
    · rw [hv]
      refine iff_of_false Bool.false_ne_true fun h => ?_
      rcases h.2 with hn | hs
      · cases hn
      · exact hc (.inr ⟨_, hs⟩)
  · obtain ⟨e, hv⟩ := bodyVerdict_mismatch hfield
    rw [hv]
    exact iff_of_false Bool.false_ne_true fun h =>
      hfield ((fieldVerdict_accepted_iff field).mp h.1).1.object

/-- A value of a wrong type that the checks of a part come to: the part, the content type of the
body, or, where the content type is right, a list that is given alone. -/
inductive Mistyped (part : Part) (field : Json) : Prop where
  | field (h : ¬ ObjectOrNull field)
  | contentType (hbody : part = .body) (h : ¬ StringOrNull (contentTypeOf field))
  | list (htype : part = .body → contentTypeOf field = .string urlencoded)
      (hone : included field = .null ∨ excluded field = .null)
      (h : ¬ (StringsOrNull (included field) ∧ StringsOrNull (excluded field)))

theorem Mistyped.shape {part : Part} {field : Json} (h : Mistyped part field) :
    ¬ WellShapedField field ∨ part = .body ∧ ¬ StringOrNull (contentTypeOf field) := by
  cases h with
  | field h => exact .inl fun hs => h hs.object
  | contentType hbody h => exact .inr ⟨hbody, h⟩
  | list htype hone h => exact .inl fun hs => h ⟨hs.included, hs.excluded⟩

theorem fieldVerdict_mistyped_iff {part : Part} (hpart : part ≠ .body) (field : Json) :
    (fieldVerdict field).isIllTyped = true ↔ Mistyped part field := by
  rw [fieldVerdict_illTyped_iff]
  constructor
  · rintro ⟨hshape, hone⟩
    by_cases hfield : ObjectOrNull field
    · exact .list (fun hbody => absurd hbody hpart) hone fun h => hshape ⟨hfield, h.1, h.2⟩
    · exact .field hfield
  · intro h
    refine ⟨h.shape.resolve_right fun hbody => hpart hbody.1, ?_⟩
    cases h with
    | field h => exact .inl (fieldVerdict_mismatch h).1
    | contentType hbody h => exact absurd hbody hpart
    | list htype hone h => exact hone

theorem bodyVerdict_mistyped_iff (field : Json) :
    (bodyVerdict field).isIllTyped = true ↔ Mistyped .body field := by
  rcases objectOrNull_cases field with rfl | ⟨members, rfl⟩ | hfield
  · refine iff_of_false Bool.false_ne_true fun h => ?_
    rcases h.shape with hshape | ⟨-, hc⟩
    · exact hshape wellShaped_null
    · exact hc (.inl rfl)
  · have hobject : ObjectOrNull (.object members) := .inr ⟨members, rfl⟩
    rcases bodyVerdict_cases members with ⟨hc, hv⟩ | ⟨hc, hstring, _, _, hv⟩ | ⟨hc, e, hv⟩
    · rw [hv, fieldVerdict_illTyped_iff]
      constructor
      · rintro ⟨hshape, hone⟩
        exact .list (fun _ => hc) hone fun h => hshape ⟨hobject, h.1, h.2⟩
      · intro h
        cases h with
        | field h => exact absurd hobject h
        | contentType hbody h => exact absurd (.inr ⟨_, hc⟩) h
        | list htype hone h => exact ⟨fun hs => h ⟨hs.included, hs.excluded⟩, hone⟩
    · rw [hv]
      refine iff_of_false Bool.false_ne_true fun h => ?_
      cases h with
      | field h => exact h hobject
      | contentType hbody h => exact h hstring
      | list htype hone h => exact hc (htype rfl)
    · rw [hv]
      exact iff_of_true rfl (.contentType rfl hc)
  · obtain ⟨e, hv⟩ := bodyVerdict_mismatch hfield
    rw [hv]
    exact iff_of_true rfl (.field hfield)

end Fields

section Parts

theorem partVerdict_mismatch {j : Json} (h : ¬ ObjectOrNull j) (part : Part) :
    ∃ e, partVerdict j part = .illTyped none e := by
  cases j with
  | null => exact absurd (.inl rfl) h
  | object members => exact absurd (.inr ⟨members, rfl⟩) h
  | boolean _ | number | string _ | array _ => exact ⟨_, rfl⟩

theorem partVerdict_eq {j : Json} (h : ObjectOrNull j) (part : Part) :
    partVerdict j part =
      if part = .body then bodyVerdict (member j (partKey part))
      else fieldVerdict (member j (partKey part)) := by
  rcases h with rfl | ⟨members, rfl⟩ <;> rfl

structure Acceptable (j : Json) : Prop where
  oneList : ∀ part, included (member j (partKey part)) = .null ∨
    excluded (member j (partKey part)) = .null
  contentType : member j (bytes "body") ≠ .null →
    contentTypeOf (member j (bytes "body")) = .string urlencoded

/-- A part that is accepted: of the documented shape, with one list at most, and for the body with
its content type. -/
structure Sound (part : Part) (field : Json) : Prop where
  shape : WellShapedField field
  oneList : included field = .null ∨ excluded field = .null
  contentType : part = .body → field = .null ∨ contentTypeOf field = .string urlencoded

theorem partVerdict_accepted_iff {j : Json} (h : ObjectOrNull j) (part : Part) :
    (partVerdict j part).isAccepted = true ↔ Sound part (member j (partKey part)) := by
  rw [partVerdict_eq h]
  by_cases hpart : part = .body
  · rw [if_pos hpart, bodyVerdict_accepted_iff, fieldVerdict_accepted_iff]
    exact ⟨fun h => ⟨h.1.1, h.1.2, fun _ => h.2⟩,
      fun h => ⟨⟨h.shape, h.oneList⟩, h.contentType hpart⟩⟩
  · rw [if_neg hpart, fieldVerdict_accepted_iff]
    exact ⟨fun h => ⟨h.1, h.2, fun hbody => absurd hbody hpart⟩, fun h => ⟨h.shape, h.oneList⟩⟩

theorem partVerdict_mistyped_iff {j : Json} (h : ObjectOrNull j) (part : Part) :
    (partVerdict j part).isIllTyped = true ↔ Mistyped part (member j (partKey part)) := by
  rw [partVerdict_eq h]
  by_cases hpart : part = .body
  · rw [if_pos hpart, bodyVerdict_mistyped_iff, hpart]
  · rw [if_neg hpart, fieldVerdict_mistyped_iff hpart]

theorem all_accepted_iff (j : Json) :
    (∀ part, (partVerdict j part).isAccepted = true) ↔ WellShaped j ∧ Acceptable j := by
  by_cases hj : ObjectOrNull j
  · constructor
    · intro h
      have hpart := fun part => (partVerdict_accepted_iff hj part).mp (h part)
      have hbody := (hpart .body).contentType rfl
      refine ⟨⟨hj, fun part => (hpart part).shape, ?_⟩, fun part => (hpart part).oneList, ?_⟩
      · rcases hbody with hnull | hc
        · change member j (bytes "body") = .null at hnull
          rw [hnull]
          exact .inl rfl
        · exact .inr ⟨_, hc⟩
      · intro hbodyNull
        exact hbody.resolve_left hbodyNull
    · intro h part
      obtain ⟨hshape, hacceptable⟩ := h
      refine (partVerdict_accepted_iff hj part).mpr
        ⟨hshape.field part, hacceptable.oneList part, ?_⟩
      intro hpart
      rw [hpart]
      exact or_iff_not_imp_left.mpr hacceptable.contentType
  · refine iff_of_false ?_ fun h => hj h.1.object
    intro h
    obtain ⟨e, hv⟩ := partVerdict_mismatch hj .body
    have hbody := h .body
    rw [hv] at hbody
    cases hbody

theorem not_illTyped {j : Json} (h : WellShaped j) (part : Part) :
    (partVerdict j part).isIllTyped = false := by
  rw [← Bool.not_eq_true, partVerdict_mistyped_iff h.object]
  intro hmistyped
  rcases hmistyped.shape with hfield | ⟨rfl, hc⟩
  · exact hfield (h.field part)
  · exact hc h.contentType

theorem listVerdict_ne_rejected (isInclude : Bool) (list : Json) (message : Bytes) :
    listVerdict isInclude list ≠ .rejected message := by
  unfold listVerdict
  cases list.getKeys <;> exact Verdict.noConfusion

theorem field_message_mem {field : Json} {message : Bytes}
    (h : fieldVerdict field = .rejected message) : message ∈ rejections := by
  rcases objectOrNull_cases field with rfl | ⟨members, rfl⟩ | hfield
  · cases h
  · rcases fieldVerdict_cases members with ⟨_, _, hv⟩ | ⟨_, _, hv⟩ | ⟨_, _, hv⟩ | ⟨_, _, hv⟩
    · rw [hv] at h
      cases h
    · exact absurd (hv.symm.trans h) (listVerdict_ne_rejected _ _ _)
    · exact absurd (hv.symm.trans h) (listVerdict_ne_rejected _ _ _)
    · rw [← Verdict.rejected.inj (hv.symm.trans h)]
      exact .tail _ (.tail _ (.tail _ (.head _)))
  · obtain ⟨_, e, hv⟩ := fieldVerdict_mismatch hfield
    rw [hv] at h
    cases h

theorem body_message_mem {field : Json} {message : Bytes}
    (h : bodyVerdict field = .rejected message) : message ∈ rejections := by
  rcases objectOrNull_cases field with rfl | ⟨members, rfl⟩ | hfield
  · cases h
  · rcases bodyVerdict_cases members with ⟨_, hv⟩ | ⟨_, _, text, htext, hv⟩ | ⟨_, e, hv⟩
    · exact field_message_mem (hv.symm.trans h)
    · rw [← Verdict.rejected.inj (hv.symm.trans h)]
      exact htext
    · rw [hv] at h
      cases h
  · obtain ⟨e, hv⟩ := bodyVerdict_mismatch hfield
    rw [hv] at h
    cases h

theorem message_mem {j : Json} {part : Part} {message : Bytes}
    (h : partVerdict j part = .rejected message) : message ∈ rejections := by
  by_cases hj : ObjectOrNull j
  · rw [partVerdict_eq hj] at h
    split_ifs at h
    · exact body_message_mem h
    · exact field_message_mem h
  · obtain ⟨e, hv⟩ := partVerdict_mismatch hj part
    rw [hv] at h
    cases h

end Parts

section Given

theorem strings_map (ss : List Bytes) : strings (ss.map .string) = ss.toFinset := by
  rw [strings, filterMap_string]

theorem givenBy_included {field : Json} {ss : List Bytes}
    (h : included field = .array (ss.map .string)) :
    givenBy field = some ⟨true, ss.toFinset⟩ := by
  rw [← strings_map]
  unfold included at h
  rw [givenBy, h]

theorem givenBy_excluded {field : Json} {ss : List Bytes} (hnull : included field = .null)
    (h : excluded field = .array (ss.map .string)) :
    givenBy field = some ⟨false, ss.toFinset⟩ := by
  rw [← strings_map]
  unfold included at hnull
  unfold excluded at h
  rw [givenBy, hnull, h]

theorem givenBy_none {field : Json} (hi : included field = .null) (he : excluded field = .null) :
    givenBy field = none := by
  unfold included at hi
  unfold excluded at he
  rw [givenBy, hi, he]

end Given

section Parser
variable {parse : Bytes → Option Json} {order : Traversal Bytes}

theorem parseConfig_stored {text : Bytes} {j : Json} {s s' : ParseState}
    (hj : parse text = some j) (h : parseConfig parse order text s = .ok true s') :
    s'.config = overlay s.config (given j) := by
  obtain ⟨j', hj', hconfig⟩ := parseConfig_ok h
  rw [hj] at hj'
  rw [hconfig, Option.some.inj hj']

theorem rejected_of_endsAt {j : Json} {front : List Part} {part : Part}
    (h : EndsAt j front part) (htyped : (partVerdict j part).isIllTyped = false) :
    ∃ message ∈ rejections, partVerdict j part = .rejected message := by
  have hnot := h.not_accepted
  cases hv : partVerdict j part with
  | accepted given =>
    rw [hv] at hnot
    cases hnot
  | rejected message => exact ⟨message, message_mem hv, rfl⟩
  | illTyped written e =>
    rw [hv] at htyped
    cases htyped

/-- On a configuration of the documented shape the parser returns, and accepts exactly what is
acceptable; each part is then what its own lists say. -/
theorem parseConfig_decides {text : Bytes} {j : Json} (hj : parse text = some j)
    (h : WellShaped j) (s : ParseState) :
    ∃ accepted s', parseConfig parse order text s = .ok accepted s' ∧
      (accepted = true ↔
        (∀ part, included (member j (partKey part)) = .null ∨
          excluded (member j (partKey part)) = .null) ∧
        (member j (bytes "body") ≠ .null →
          contentTypeOf (member j (bytes "body")) = .string urlencoded)) ∧
      (accepted = true → s'.config.contentType = s.config.contentType ∧
        ∀ part,
          (∀ ss : List Bytes, included (member j (partKey part)) = .array (ss.map .string) →
            s'.config.part part = ⟨true, ss.toFinset⟩) ∧
          (∀ ss : List Bytes, excluded (member j (partKey part)) = .array (ss.map .string) →
            s'.config.part part = ⟨false, ss.toFinset⟩) ∧
          (included (member j (partKey part)) = .null →
            excluded (member j (partKey part)) = .null →
            s'.config.part part = s.config.part part)) := by
  rcases accepted_or_endsAt j with hall | ⟨front, part, hends⟩
  · have hacceptable := ((all_accepted_iff j).mp hall).2
    have hrun := @parseConfig_accepted parse order text j hj hall s
    refine ⟨true, _, hrun, iff_of_true rfl ⟨hacceptable.oneList, hacceptable.contentType⟩, ?_⟩
    intro _
    rw [parseConfig_stored hj hrun]
    refine ⟨overlay_contentType _ _, ?_⟩
    intro part
    rw [overlay_part, given]
    refine ⟨?_, ?_, ?_⟩
    · intro ss hi
      rw [givenBy_included hi]
      rfl
    · intro ss he
      have hi : included (member j (partKey part)) = .null := by
        refine (hacceptable.oneList part).resolve_right ?_
        rw [he]
        exact Json.noConfusion
      rw [givenBy_excluded hi he]
      rfl
    · intro hi he
      rw [givenBy_none hi he]
      rfl
  · obtain ⟨message, _, hv⟩ := rejected_of_endsAt hends (not_illTyped h part)
    have hrun := @parseConfig_endsAt parse order text j front part hj hends s
    rw [hv] at hrun
    refine ⟨false, _, hrun, ?_, fun hfalse => absurd hfalse Bool.false_ne_true⟩
    refine iff_of_false Bool.false_ne_true fun hacceptable => ?_
    have hall := (all_accepted_iff j).mpr ⟨h, hacceptable.1, hacceptable.2⟩
    have hnot := hends.not_accepted
    rw [hall part] at hnot
    cases hnot

def includeA : Bytes :=
  bytes "\x7b\"body\": \x7b\"content-type\": \"" ++ urlencoded ++
    bytes "\", \"include\": [\"a\"]\x7d, \"cookie\": null\x7d"

def includeAReader : Bytes → Option Json :=
  readTable [(includeA, .object
    [(bytes "body", .object [(bytes "content-type", .string urlencoded),
      (bytes "include", .array [.string (bytes "a")])]), (bytes "cookie", .null)])]

theorem parseConfig_decides_includeA :
    ∃ s', parseConfig includeAReader (.toList Bytes) includeA ⟨{}, []⟩ = .ok true s' ∧
      s'.config.part .body = ⟨true, {bytes "a"}⟩ ∧ s'.config.part .cookie = ⟨false, ∅⟩ := by
  have hshape : WellShaped (.object
      [(bytes "body", .object [(bytes "content-type", .string urlencoded),
        (bytes "include", .array [.string (bytes "a")])]), (bytes "cookie", .null)]) := by
    refine ⟨.inr ⟨_, rfl⟩, ?_, .inr ⟨_, rfl⟩⟩
    intro part
    cases part with
    | body => exact ⟨.inr ⟨_, rfl⟩, .inr ⟨[bytes "a"], rfl⟩, .inl rfl⟩
    | path | cookie | header => exact wellShaped_null
  obtain ⟨accepted, s', hrun, hiff, hstored⟩ :=
    @parseConfig_decides includeAReader (.toList Bytes) includeA _ rfl hshape ⟨{}, []⟩
  have htrue : accepted = true := by
    refine hiff.mpr ⟨?_, fun _ => rfl⟩
    intro part
    cases part with
    | body => exact .inr rfl
    | path | cookie | header => exact .inl rfl
  obtain ⟨_, hparts⟩ := hstored htrue
  rw [htrue] at hrun
  exact ⟨s', hrun, (hparts .body).1 [bytes "a"] rfl, (hparts .cookie).2.2 rfl rfl⟩

/-- The checks come to no value of a wrong type: at the top level, or in a part behind parts that
are accepted. A null is nowhere of a wrong type, it stands for a value that is absent. -/
def WellTyped (j : Json) : Prop :=
  ObjectOrNull j ∧ ∀ front part back, checked = front ++ part :: back →
    (∀ p ∈ front, Sound p (member j (partKey p))) → ¬ Mistyped part (member j (partKey part))

theorem wellTyped_iff (j : Json) : WellTyped j ↔
    ∀ front part, EndsAt j front part → (partVerdict j part).isIllTyped = false := by
  by_cases hj : ObjectOrNull j
  · rw [WellTyped, and_iff_right hj]
    constructor
    · intro h front part hends
      obtain ⟨back, horder⟩ := hends.order
      rw [← Bool.not_eq_true, partVerdict_mistyped_iff hj]
      exact h front part back horder fun p hp =>
        (partVerdict_accepted_iff hj p).mp (hends.front_accepted p hp)
    · intro h front part back horder hfront hmistyped
      have htyped := (partVerdict_mistyped_iff hj part).mpr hmistyped
      have hnot : (partVerdict j part).isAccepted = false := by
        cases hv : partVerdict j part with
        | accepted _ =>
          rw [hv] at htyped
          cases htyped
        | rejected _ | illTyped _ _ => rfl
      have hends := h front part ⟨⟨back, horder⟩,
        fun p hp => (partVerdict_accepted_iff hj p).mpr (hfront p hp), hnot⟩
      exact Bool.false_ne_true (hends.symm.trans htyped)
  · refine iff_of_false (fun h => hj h.1) fun h => ?_
    obtain ⟨e, hv⟩ := partVerdict_mismatch hj .body
    have hends := h [] .body ⟨⟨_, rfl⟩, fun p hp => absurd hp List.not_mem_nil, by rw [hv]; rfl⟩
    rw [hv] at hends
    cases hends

/-- A text ends in true or in false with a message, the latter whenever a value is of a wrong
type, unless the checks come to such a value; nulls are read as absent values. -/
theorem reports_iff (text : Bytes) (s : ParseState) :
    (∃ accepted s', parseConfig parse order text s = .ok accepted s' ∧
      (accepted = false → s'.log ∈ rejections) ∧
      ∀ j, parse text = some j → ¬ WellShaped j → accepted = false) ↔
    ∀ j, parse text = some j → WellTyped j := by
  constructor
  · intro h j hj
    refine (wellTyped_iff j).mpr fun front part hends => ?_
    obtain ⟨accepted, s', hrun, _⟩ := h
    rw [parseConfig_endsAt hj hends] at hrun
    cases hv : partVerdict j part with
    | accepted _ | rejected _ => rfl
    | illTyped written e =>
      rw [hv] at hrun
      cases hrun
  · intro h
    cases hj : parse text with
    | none =>
      refine ⟨false, _, parseConfig_unreadable hj s, fun _ => ?_, fun _ _ _ => rfl⟩
      exact List.mem_cons_self
    | some j =>
      rcases accepted_or_endsAt j with hall | ⟨front, part, hends⟩
      · refine ⟨true, _, parseConfig_accepted hj hall s, fun hfalse => absurd hfalse.symm
          Bool.false_ne_true, ?_⟩
        intro j' hj' hshape
        rw [← Option.some.inj hj'] at hshape
        exact absurd ((all_accepted_iff j).mp hall).1 hshape
      · have htyped := (wellTyped_iff j).mp (h j hj) front part hends
        obtain ⟨message, hmem, hv⟩ := rejected_of_endsAt hends htyped
        have hrun := @parseConfig_endsAt parse order text j front part hj hends s
        rw [hv] at hrun
        exact ⟨false, _, hrun, fun _ => hmem, fun _ _ _ => rfl⟩

def pathString : Bytes := bytes "\x7b\"path\": \"x\"\x7d"

def pathStringReader : Bytes → Option Json :=
  readTable [(pathString, .object [(bytes "path", .string (bytes "x"))])]

theorem parseConfig_throws :
    parseConfig pathStringReader (.toList Bytes) pathString ⟨{}, []⟩ =
      .error (.create 305 (bytes "cannot use operator[] with a string argument with string"))
        ⟨{}, []⟩ := by
  rfl

end Parser
end WafWasm.ConfigShapes
