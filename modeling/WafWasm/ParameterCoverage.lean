import WafWasm.Detection
import WafWasm.Segments

set_option autoImplicit false

namespace WafWasm.ParameterCoverage
open Common UnorderedContainers HttpParser Sqli Detection Segments

inductive Carrier where
  | body | path | cookie

def Carrier.parse : Carrier → Bytes → QueryParams
  | .body => parseBody
  | .path => parsePath
  | .cookie => parseCookie

def Carrier.parameters : Carrier → Bytes → List (Bytes × Bytes)
  | .body, text => Segments.parameters false text
  | .path, text => Segments.parameters false (query text)
  | .cookie, text => Segments.parameters true text

theorem Carrier.parse_eq (carrier : Carrier) (text : Bytes) :
    carrier.parse text = collect (carrier.parameters text) := by
  cases carrier with
  | body => exact parseBody_eq text
  | path => exact parsePath_eq text
  | cookie => exact parseCookie_eq text

/-- A scan covers all parameters of a text unless only shadowed ones are flagged. -/
theorem scan_covers_iff (detectSQLi : Bytes → Bool) (order : IterationOrder) (carrier : Carrier)
    (text : Bytes) (sel : Selection) :
    ((∃ p ∈ carrier.parameters text, Hit detectSQLi sel p) →
        (detectSQLiOnParams detectSQLi order (carrier.parse text) sel.isInclude sel.keys).found
          = true) ↔
      (RepeatHit detectSQLi sel (carrier.parameters text) →
        FirstHit detectSQLi sel (carrier.parameters text)) := by
  rw [found_iff_hasHit, carrier.parse_eq, hasHit_collect]
  exact covers_iff detectSQLi sel (carrier.parameters text)

theorem scan_misses_repeated_key :
    (∃ p ∈ Carrier.body.parameters (bytes "a=1&a=1' or 1=1"),
        Hit (· == bytes "1' or 1=1") ⟨false, ∅⟩ p) ∧
      (detectSQLiOnParams (· == bytes "1' or 1=1") .toList
        (parseBody (bytes "a=1&a=1' or 1=1")) false ∅).found = false := by
  refine ⟨by decide, ?_⟩
  refine (found_eq_false_iff (· == bytes "1' or 1=1") .toList _ ⟨false, ∅⟩).mpr ?_
  rw [parseBody_eq, hasHit_collect]
  decide

end WafWasm.ParameterCoverage
