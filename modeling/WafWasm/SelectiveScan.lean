import WafWasm.Detection
import WafWasm.Segments

set_option autoImplicit false

namespace WafWasm.SelectiveScan
open Common UnorderedContainers HttpParser DelimitedText Sqli Detection Segments PercentEncoding

section Maps
variable (detectSQLi : Bytes → Bool)

theorem found_congr (order order' : IterationOrder) {params params' : QueryParams}
    {sel sel' : Selection} (h : HasHit detectSQLi sel params ↔ HasHit detectSQLi sel' params') :
    (detectSQLiOnParams detectSQLi order params sel.isInclude sel.keys).found =
      (detectSQLiOnParams detectSQLi order' params' sel'.isInclude sel'.keys).found := by
  rw [Bool.eq_iff_iff, found_iff_hasHit, found_iff_hasHit]
  exact h

theorem hasHit_union {params : QueryParams} {missing : Keys}
    (h : ∀ key ∈ missing, params.lookup key = none) (isInclude : Bool) (keys : Keys) :
    HasHit detectSQLi ⟨isInclude, keys ∪ missing⟩ params ↔
      HasHit detectSQLi ⟨isInclude, keys⟩ params := by
  apply exists_congr
  intro p
  apply and_congr_right
  intro hl
  have hpresent : p.1 ∉ missing := by
    intro hm
    rw [h p.1 hm] at hl
    cases hl
  have hmem : p.1 ∈ keys ∪ missing ↔ p.1 ∈ keys := by
    rw [Finset.mem_union, or_iff_left hpresent]
  unfold Hit Selection.Selects
  simp only [hmem]

/-- A scan finds an injection exactly when a selected entry is flagged, in every order. -/
theorem scan_decides (params : QueryParams) (isInclude : Bool) (keys : Keys) :
    (∀ order, (detectSQLiOnParams detectSQLi order params isInclude keys).found = true ↔
      ∃ key val, params.lookup key = some val ∧ (if isInclude then key ∈ keys else key ∉ keys) ∧
        (detectSQLi key = true ∨ detectSQLi val = true)) ∧
    (∀ order order', (detectSQLiOnParams detectSQLi order params isInclude keys).found =
      (detectSQLiOnParams detectSQLi order' params isInclude keys).found) ∧
    ∀ order missing, (∀ key ∈ missing, params.lookup key = none) →
      (detectSQLiOnParams detectSQLi order params isInclude (keys ∪ missing)).found =
        (detectSQLiOnParams detectSQLi order params isInclude keys).found := by
  refine ⟨?_, ?_, ?_⟩
  · intro order
    exact (found_iff_hasHit detectSQLi order params ⟨isInclude, keys⟩).trans Prod.exists
  · intro order order'
    exact @found_congr detectSQLi order order' params params ⟨isInclude, keys⟩ ⟨isInclude, keys⟩
      Iff.rfl
  · intro order missing hmissing
    exact @found_congr detectSQLi order order params params ⟨isInclude, keys ∪ missing⟩
      ⟨isInclude, keys⟩ (hasHit_union detectSQLi hmissing isInclude keys)

end Maps

section Values

def textParser : Bool → Bytes → QueryParams
  | false => parseBody
  | true => parseCookie

theorem textParser_eq (cookie : Bool) (text : Bytes) :
    textParser cookie text = collect (parameters cookie text) := by
  cases cookie with
  | false => exact parseBody_eq text
  | true => exact parseCookie_eq text

theorem dropWhile_padding (cookie : Bool) (name val : Bytes) :
    (name ++ equals :: val).dropWhile (padding cookie) =
      name.dropWhile (padding cookie) ++ equals :: val := by
  have hequals : padding cookie equals = false := by
    cases cookie <;> decide
  rw [List.dropWhile_append]
  split_ifs with h
  · rw [List.isEmpty_iff.mp h, List.dropWhile_cons_of_neg (by simp [hequals]), List.nil_append]
  · rfl

theorem parameters_between (cookie : Bool) (front back : Bytes) {name : Bytes}
    (hequals : equals ∉ name) (hname : separator cookie ∉ name) :
    ∃ before after, ∀ val, separator cookie ∉ val →
      parameters cookie
          (front ++ separator cookie :: ((name ++ equals :: val) ++ separator cookie :: back)) =
        before ++ (decodeBytes (name.dropWhile (padding cookie)),
          unquote cookie (decodeBytes val)) :: after := by
  refine ⟨(mapTail (List.dropWhile (padding cookie)) (front.splitOn (separator cookie))).map
      (readSegment cookie),
    (dropEmptyLast ((back.splitOn (separator cookie)).map (List.dropWhile (padding cookie)))).map
      (readSegment cookie), ?_⟩
  intro val hval
  have hmiddle : separator cookie ∉ name ++ equals :: val := by
    intro hm
    rcases List.mem_append.mp hm with hm | hm
    · exact hname hm
    · rcases List.mem_cons.mp hm with hm | hm
      · cases cookie <;> exact absurd hm (by decide)
      · exact hval hm
  have hrest : equals ∉ name.dropWhile (padding cookie) :=
    fun hm => hequals ((List.dropWhile_sublist _).subset hm)
  rw [parameters, segments, fields_between _ front back hmiddle, List.map_append, List.map_cons,
    dropWhile_padding, readSegment_pair cookie hrest]

theorem lookup_skip {ps qs : List (Bytes × Bytes)} {key name : Bytes} (h : key ≠ name)
    (val : Bytes) : (ps ++ (name, val) :: qs).lookup key = (ps ++ qs).lookup key := by
  have hb : (key == name) = false := beq_eq_false_iff_ne.mpr h
  rw [List.lookup_append, List.lookup_append, List.lookup_cons, hb]

/-- The value of an unselected parameter can neither cause nor hide a detection. -/
theorem unselected_value (detectSQLi : Bytes → Bool) (order order' : IterationOrder)
    (isInclude : Bool) (keys : Keys) (cookie : Bool) (front back name val val' : Bytes)
    (hequals : equals ∉ name) (hname : separator cookie ∉ name) (hval : separator cookie ∉ val)
    (hval' : separator cookie ∉ val')
    (hunselected : ¬ (⟨isInclude, keys⟩ : Selection).Selects
      (percentDecode (name.dropWhile (padding cookie)))) :
    (detectSQLiOnParams detectSQLi order (textParser cookie
        (front ++ separator cookie :: ((name ++ equals :: val) ++ separator cookie :: back)))
        isInclude keys).found =
      (detectSQLiOnParams detectSQLi order' (textParser cookie
        (front ++ separator cookie :: ((name ++ equals :: val') ++ separator cookie :: back)))
        isInclude keys).found := by
  obtain ⟨before, after, hparameters⟩ := parameters_between cookie front back hequals hname
  rw [percentDecode_eq] at hunselected
  refine @found_congr detectSQLi order order' _ _ ⟨isInclude, keys⟩ ⟨isInclude, keys⟩ ?_
  apply hasHit_congr
  intro key hkey
  have hne : key ≠ decodeBytes (name.dropWhile (padding cookie)) := by
    intro he
    exact hunselected (he ▸ hkey)
  rw [textParser_eq, textParser_eq, lookup_collect, lookup_collect, hparameters val hval,
    hparameters val' hval', lookup_skip hne, lookup_skip hne]

theorem unselected_value_at :
    (detectSQLiOnParams (· == bytes "x") .toList
        (parseCookie (bytes "a=1; skip=\"%2;b=x")) false {bytes "skip"}).found =
      (detectSQLiOnParams (· == bytes "x") .toList
        (parseCookie (bytes "a=1; skip=x;b=x")) false {bytes "skip"}).found :=
  unselected_value _ _ _ false {bytes "skip"} true (bytes "a=1") (bytes "b=x") (bytes " skip")
    (bytes "\"%2") (bytes "x") (by decide) (by decide) (by decide) (by decide)
    (by rw [percentDecode_eq]; decide)

end Values
end WafWasm.SelectiveScan
