import WafWasm.HeaderCallback

set_option autoImplicit false

namespace WafWasm.RequestAgreement
open Common UnorderedContainers Detection ConfigParser Contexts HeaderCallback

def lowerByte (b : UInt8) : UInt8 := if 65 ≤ b.toNat ∧ b.toNat ≤ 90 then b + 32 else b

def lower (s : Bytes) : Bytes := s.map lowerByte

structure SameExcept (name : Bytes) (req req' : Request) : Prop where
  pairs : req.pairs.filter (fun p => lower p.1 != name) =
    req'.pairs.filter (fun p => lower p.1 != name)
  header : ∀ other, lower other ≠ name → req.header other = req'.header other

/-- No spelling of the header's name that the request uses is selected. -/
def Unselected (sel : Selection) (name : Bytes) (req : Request) : Prop :=
  ∀ p ∈ req.pairs, lower p.1 = name → ¬ sel.Selects p.1

theorem Unselected.lookup {sel : Selection} {name key : Bytes} {req : Request}
    (h : Unselected sel name req) (hkey : sel.Selects key) (hname : lower key = name) :
    req.pairs.lookup key = none := by
  rw [List.lookup_eq_none_iff]
  intro p hp
  apply bne_iff_ne.mpr
  rintro rfl
  exact h p hp hname hkey

theorem lookup_congr {sel : Selection} {name key : Bytes} {req req' : Request}
    (hsame : SameExcept name req req') (h : Unselected sel name req)
    (h' : Unselected sel name req') (hkey : sel.Selects key) :
    req.pairs.lookup key = req'.pairs.lookup key := by
  by_cases hname : lower key = name
  · rw [h.lookup hkey hname, h'.lookup hkey hname]
  · have hkeep : (lower key != name) = true := bne_iff_ne.mpr hname
    rw [← lookup_filter (fun k => lower k != name) req.pairs hkeep, hsame.pairs,
      lookup_filter (fun k => lower k != name) req'.pairs hkeep]

theorem headerStage_congr (detectSQLi : Bytes → Bool) (config : Config) {name : Bytes}
    {req req' : Request} (hsame : SameExcept name req req')
    (h : Unselected (config.part .header) name req)
    (h' : Unselected (config.part .header) name req') :
    HeaderStage detectSQLi config req ↔ HeaderStage detectSQLi config req' := by
  apply hasHit_congr
  intro key hkey
  rw [lookup_collect, lookup_collect]
  exact lookup_congr hsame h h' hkey

section OneHeader

def oneHeader (name val : Bytes) : Request where
  pairs := [(name, val)]
  header other := if lower other = name then val else []

theorem sameExcept_oneHeader {name : Bytes} (hname : lower name = name) (val val' : Bytes) :
    SameExcept name (oneHeader name val) (oneHeader name val') := by
  have hdrop : ∀ v, (oneHeader name v).pairs.filter (fun p => lower p.1 != name) = [] := by
    intro v
    simp [oneHeader, hname]
  refine ⟨(hdrop val).trans (hdrop val').symm, ?_⟩
  intro other hother
  exact (if_neg hother).trans (if_neg hother).symm

theorem unselected_oneHeader {sel : Selection} {name : Bytes} (h : ¬ sel.Selects name)
    (val : Bytes) : Unselected sel name (oneHeader name val) := by
  intro p hp _
  rw [List.mem_singleton.mp hp]
  exact h

end OneHeader
end WafWasm.RequestAgreement
