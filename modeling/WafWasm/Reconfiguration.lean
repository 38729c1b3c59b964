import WafWasm.ConfigAcceptance

set_option autoImplicit false

namespace WafWasm.Reconfiguration
open Common JsonValue ConfigParser Detection Sqli Contexts ConfigAcceptance

section Texts
variable (parse : Bytes → Option Json)

/-- What the most recent of the texts that give the part says of it. -/
def latest (texts : List Bytes) (part : Part) : Option Selection :=
  texts.findSome? fun text => textGives parse text part

/-- Accepted calls of `onConfigure` on one root context, the most recent first. -/
inductive Configured : ExampleRootContext → List Bytes → ExampleRootContext → Prop where
  | none (root : ExampleRootContext) : Configured root [] root
  | call {root root' root'' : ExampleRootContext} {texts : List Bytes} (order : IterationOrder)
      (text : Bytes) (before : Configured root texts root')
      (accepted : onConfigure parse order text root' = .ok true root'') :
      Configured root (text :: texts) root''

end Texts

section Sample

def headerText : Bytes := bytes "\x7b\"header\": \x7b\"include\": [\"foo\"]\x7d\x7d"

def emptyObject : Bytes := bytes "\x7b\x7d"

def readSample : Bytes → Option Json :=
  readTable [(headerText, .object [(bytes "header",
      .object [(bytes "include", .array [.string (bytes "foo")])])]),
    (emptyObject, .object [])]

def fooRoot : ExampleRootContext :=
  { config := { headerInclude := true, headers := {bytes "foo"} } }

theorem configured_header_empty : Configured readSample {} [emptyObject, headerText] fooRoot :=
  .call .toList emptyObject (.call .toList headerText (.none {}) rfl) rfl

theorem configured_empty_header : Configured readSample {} [headerText, emptyObject] fooRoot :=
  .call .toList headerText (.call .toList emptyObject (.none {}) rfl) rfl

end Sample

section Runs
variable {parse : Bytes → Option Json}

theorem Configured.contentType {root root' : ExampleRootContext} {texts : List Bytes}
    (h : Configured parse root texts root') :
    root'.config.contentType = root.config.contentType := by
  induction h with
  | none => rfl
  | call order text before accepted ih => rw [onConfigure_ok accepted, overlay_contentType, ih]

theorem Configured.part {root root' : ExampleRootContext} {texts : List Bytes}
    (h : Configured parse root texts root') (part : Part) :
    root'.config.part part = (latest parse texts part).getD (root.config.part part) := by
  induction h with
  | none => rfl
  | call order text before accepted ih =>
    rw [onConfigure_ok accepted, overlay_part, ih]
    unfold latest
    rw [List.findSome?_cons]
    cases textGives parse text part <;> rfl

theorem reconfiguration_iff {last : Bytes} {earlier : List Bytes} {root : ExampleRootContext}
    (h : Configured parse {} (last :: earlier) root) (ctx : ExampleContext) :
    (onCreate root ctx).config = overlay {} (textGives parse last) ↔
      ∀ part, textGives parse last part = none →
        ∀ sel, latest parse earlier part = some sel → sel = Config.part {} part := by
  change root.config = _ ↔ _
  have hpart : ∀ part, root.config.part part = (textGives parse last part).getD
      ((latest parse earlier part).getD (Config.part {} part)) := by
    intro part
    rw [h.part, latest, List.findSome?_cons]
    cases textGives parse last part <;> rfl
  constructor
  · intro heq part hlast sel hsel
    have hboth := hpart part
    rw [heq, overlay_part, hlast, hsel] at hboth
    exact hboth.symm
  · intro hdefault
    apply Config.ext_parts
    · rw [h.contentType, overlay_contentType]
    · intro part
      rw [hpart, overlay_part]
      cases hlast : textGives parse last part with
      | some sel => rfl
      | none =>
        cases hsel : latest parse earlier part with
        | none => rfl
        | some sel => exact hdefault part hlast sel hsel

end Runs

theorem reconfiguration_iff_at : Configured readSample {} [headerText, emptyObject] fooRoot ∧
    (onCreate fooRoot {}).config = overlay {} (textGives readSample headerText) := by
  refine ⟨configured_empty_header, (reconfiguration_iff configured_empty_header {}).mpr ?_⟩
  intro part _ sel hsel
  have hnone : latest readSample [emptyObject] part = none := by
    cases part <;> rfl
  rw [hnone] at hsel
  cases hsel

theorem header_part_kept : Configured readSample {} [emptyObject, headerText] fooRoot ∧
    (onCreate fooRoot {}).config ≠ overlay {} (textGives readSample emptyObject) := by
  refine ⟨configured_header_empty, ?_⟩
  intro heq
  have hheaders : fooRoot.config.headers = Config.headers {} := congrArg Config.headers heq
  revert hheaders
  decide

end WafWasm.Reconfiguration
