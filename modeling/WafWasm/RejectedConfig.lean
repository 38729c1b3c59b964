import WafWasm.ConfigVerdicts

set_option autoImplicit false

namespace WafWasm.RejectedConfig
open Common UnorderedContainers JsonValue ConfigParser Detection Sqli StagedChecks ConfigVerdicts
  Contexts

section Parts

/-- What the text gives for the part, as far as it is stored, is what the part holds already. -/
def KeepsPart (j : Json) (config : Config) (part : Part) : Prop :=
  match partVerdict j part with
  | .accepted given => ∀ sel, given = some sel → sel = config.part part
  | .rejected _ => True
  | .illTyped written _ =>
    ∀ isInclude, written = some isInclude → isInclude = (config.part part).isInclude

theorem after_eq_self_iff (j : Json) (config : Config) (part : Part) :
    (partVerdict j part).after (config.part part) = config.part part ↔
      KeepsPart j config part := by
  unfold KeepsPart
  cases partVerdict j part with
  | accepted given =>
    cases given with
    | none => exact iff_of_true rfl fun sel h => nomatch h
    | some sel =>
      constructor
      · intro h other hother
        rw [← Option.some.inj hother]
        exact h
      · intro h
        exact h sel rfl
  | rejected message => exact iff_of_true rfl trivial
  | illTyped written e =>
    cases written with
    | none => exact iff_of_true rfl fun isInclude h => nomatch h
    | some isInclude =>
      constructor
      · intro h other hother
        rw [← Option.some.inj hother]
        exact congrArg Selection.isInclude h
      · intro h
        exact congrArg (Selection.mk · (config.part part).keys) (h isInclude rfl)

theorem leaveAll_eq_self_iff (j : Json) (config : Config) (parts : List Part) :
    leaveAll j config parts = config ↔ ∀ part ∈ parts, KeepsPart j config part := by
  constructor
  · intro h part hpart
    have hleft := leaveAll_part j config parts part
    rw [h, if_pos hpart] at hleft
    exact (after_eq_self_iff j config part).mp hleft.symm
  · intro h
    refine Config.ext_parts (leaveAll_contentType j config parts) ?_
    intro part
    rw [leaveAll_part]
    split_ifs with hpart
    · exact (after_eq_self_iff j config part).mpr (h part hpart)
    · rfl

theorem leaveAll_concat (j : Json) (config : Config) (front : List Part) (part : Part) :
    leaveAll j config (front ++ [part]) =
      (partVerdict j part).leave (leaveAll j config front) part := by
  unfold leaveAll
  rw [List.foldl_append]
  rfl

end Parts

section Texts
variable (parse : Bytes → Option Json) (order : Traversal Bytes)

/-- The parts that are looked at before a text is turned down store nothing new. -/
def StoresNothing (text : Bytes) (config : Config) : Prop :=
  ∀ j front part, parse text = some j → EndsAt j front part →
    ∀ p ∈ front ++ [part], KeepsPart j config p

variable {parse}

theorem finalState_endsAt {text : Bytes} {j : Json} {front : List Part} {part : Part}
    (hj : parse text = some j) (h : EndsAt j front part) (s : ParseState) :
    (finalState (parseConfig parse order text s)).config =
      leaveAll j s.config (front ++ [part]) := by
  rw [parseConfig_endsAt hj h, leaveAll_concat]
  cases partVerdict j part <;> rfl

theorem keeps_iff_storesNothing (text : Bytes) (s : ParseState) :
    (Stops (parseConfig parse order text) s →
        (finalState (parseConfig parse order text s)).config = s.config) ↔
      StoresNothing parse text s.config := by
  cases hj : parse text with
  | none =>
    refine iff_of_true ?_ ?_
    · intro _
      rw [parseConfig_unreadable hj]
      rfl
    · intro j front part hsome
      rw [hj] at hsome
      cases hsome
  | some j =>
    constructor
    · intro h j' front part hsome hends
      have hkept := h (stops_endsAt hsome hends s)
      rw [finalState_endsAt order hsome hends] at hkept
      exact (leaveAll_eq_self_iff j' s.config _).mp hkept
    · intro h hstops
      rcases accepted_or_endsAt j with hall | ⟨front, part, hends⟩
      · exact absurd (parseConfig_accepted hj hall s) (hstops _)
      · rw [finalState_endsAt order hj hends]
        exact (leaveAll_eq_self_iff j s.config _).mpr (h j front part hj hends)

end Texts

section Streams
variable {parse : Bytes → Option Json} {order : IterationOrder}

theorem finalState_onConfigure {text : Bytes} (h : text.length ≠ 0) (root : ExampleRootContext) :
    (finalState (onConfigure parse order text root)).config =
      (finalState (parseConfig parse order.keys text ⟨root.config, []⟩)).config := by
  rw [onConfigure_text h]
  cases parseConfig parse order.keys text ⟨root.config, []⟩ <;> rfl

end Streams

/-- A text that is turned down leaves the configuration alone, for the parser and for the
streams created after it, exactly when the parts looked at store nothing new. -/
theorem rejected_keeps_config_iff (parse : Bytes → Option Json) (order : IterationOrder)
    (text : Bytes) :
    (∀ s, (Stops (parseConfig parse order.keys text) s →
        (finalState (parseConfig parse order.keys text s)).config = s.config) ↔
      StoresNothing parse text s.config) ∧
    ∀ root, (Stops (onConfigure parse order text) root →
        ∀ ctx, (onCreate (finalState (onConfigure parse order text root)) ctx).config =
          (onCreate root ctx).config) ↔
      (text.length = 0 ∨ StoresNothing parse text root.config) := by
  refine ⟨keeps_iff_storesNothing order.keys text, ?_⟩
  intro root
  by_cases hlength : text.length = 0
  · refine iff_of_true ?_ (.inl hlength)
    intro hstops
    exact absurd (if_pos hlength) (hstops root)
  · have hparser := @keeps_iff_storesNothing parse order.keys text ⟨root.config, []⟩
    rw [stops_onConfigure hlength, or_iff_right hlength, ← hparser]
    apply imp_congr_right
    intro _
    rw [← finalState_onConfigure hlength]
    constructor
    · intro h
      exact h {}
    · intro h ctx
      exact h

def bothLists : Bytes :=
  bytes "\x7b\"path\": \x7b\"include\": [\"a\"]\x7d, " ++
    bytes "\"cookie\": \x7b\"include\": [], \"exclude\": []\x7d\x7d"

def bothListsReader : Bytes → Option Json :=
  readTable [(bothLists, .object
    [(bytes "path", .object [(bytes "include", .array [.string (bytes "a")])]),
      (bytes "cookie", .object [(bytes "include", .array []), (bytes "exclude", .array [])])])]

theorem rejected_text_stores_path :
    Stops (parseConfig bothListsReader (.toList Bytes) bothLists) ⟨{}, []⟩ ∧
      (finalState (parseConfig bothListsReader (.toList Bytes) bothLists ⟨{}, []⟩)).config =
        { pathInclude := true, path := {bytes "a"} } := by
  have hrun : parseConfig bothListsReader (.toList Bytes) bothLists ⟨{}, []⟩ =
      .ok false ⟨{ pathInclude := true, path := {bytes "a"} },
        bytes "include and exclude cannot both be present"⟩ := by
    rfl
  rw [Stops, hrun]
  refine ⟨?_, rfl⟩
  intro t ht
  cases ht

end WafWasm.RejectedConfig
