import WafWasm.DelimitedText
import WafWasm.PercentEncoding

set_option autoImplicit false

namespace WafWasm.Segments
open Common UnorderedContainers HttpParser DelimitedText PercentEncoding

section Reading

/-- Blanks in front of a cookie's name belong to the separator. -/
def padding (cookie : Bool) (b : UInt8) : Bool := cookie && b == space

/-- `;` between cookies, `&` between the parameters of a body or a path. -/
def separator (cookie : Bool) : UInt8 := if cookie then 0x3B else 0x26

def segments (cookie : Bool) (text : Bytes) : List Bytes :=
  fields (padding cookie) (separator cookie) text

def unquote (cookie : Bool) (val : Bytes) : Bytes :=
  if cookie ∧ 2 ≤ val.length ∧ val.getLast? = some quote ∧ val[0]? = some quote then
    val.tail.dropLast
  else val

def readSegment (cookie : Bool) (segment : Bytes) : Bytes × Bytes :=
  match segment.dropWhile (fun b => !(b == equals)) with
  | [] => (decodeBytes segment, [])
  | _ :: val =>
    (decodeBytes (segment.takeWhile (fun b => !(b == equals))), unquote cookie (decodeBytes val))

def parameters (cookie : Bool) (text : Bytes) : List (Bytes × Bytes) :=
  (segments cookie text).map (readSegment cookie)

theorem readSegment_pair (cookie : Bool) {name : Bytes} (h : equals ∉ name) (val : Bytes) :
    readSegment cookie (name ++ equals :: val) =
      (decodeBytes name, unquote cookie (decodeBytes val)) := by
  have hname : ∀ b ∈ name, (!(b == equals)) = true := by
    intro b hb
    have hne : b ≠ equals := fun he => h (he ▸ hb)
    simp [hne]
  unfold readSegment
  rw [List.dropWhile_append_of_pos hname, List.takeWhile_append_of_pos hname,
    List.dropWhile_cons_of_neg (by simp), List.takeWhile_cons_of_neg (by simp), List.append_nil]

end Reading

section Slices

theorem slice_eq (data : Bytes) (start stop : ℕ) :
    slice data start stop = (data.drop start).take (stop - start) := rfl

theorem length_slice_le (data : Bytes) (start stop : ℕ) :
    (slice data start stop).length ≤ stop - start := by
  rw [slice_eq, List.length_take]
  exact Nat.min_le_left _ _

theorem slice_front (data : Bytes) (start stop n : ℕ) (h : start + n ≤ stop) :
    slice data start (start + n) = (slice data start stop).take n := by
  rw [slice_eq, slice_eq, List.take_take]
  congr 1
  omega

theorem slice_back (data : Bytes) (start stop n : ℕ) :
    slice data (start + n) stop = (slice data start stop).drop n := by
  rw [slice_eq, slice_eq, List.drop_take, List.drop_drop]
  congr 1
  omega

theorem removeQuotes_eq (cookie : Bool) (val : Bytes) :
    removeQuotes cookie val = unquote cookie val := by
  unfold removeQuotes unquote
  split_ifs with h
  · rw [slice_eq, List.drop_one, List.dropLast_eq_take, List.length_tail]
  · rfl

end Slices

section Loop

theorem find_eq_findIdx (data : Bytes) (c : UInt8) (start : ℕ) :
    find data c start = ((data.drop start).findIdx? (· == c)).map (start + ·) := rfl

theorem emplaceParameter_eq (data : Bytes) (cookie : Bool) (params : QueryParams)
    (start stop : ℕ) :
    emplaceParameter data cookie params start stop =
      emplaceAll params [readSegment cookie (slice data start stop)] := by
  unfold emplaceParameter readSegment
  change _ = emplace params _ _
  simp only [percentDecode_eq]
  rw [find_eq_findIdx, List.drop_zero]
  generalize hseg : slice data start stop = segment
  cases hf : segment.findIdx? (· == equals) with
  | none =>
    have hall : ∀ b ∈ segment, (!(b == equals)) = true := by
      intro b hb
      rw [List.findIdx?_eq_none_iff.mp hf b hb]
      rfl
    rw [List.dropWhile_eq_nil_iff.mpr hall]
    rfl
  | some equal =>
    obtain ⟨hlt, hidx⟩ := List.findIdx?_eq_some_iff_findIdx_eq.mp hf
    have hle : segment.length ≤ stop - start := by
      rw [← hseg]
      exact length_slice_le data start stop
    have hkey : slice data start (start + equal) = segment.takeWhile (fun b => !(b == equals)) := by
      rw [slice_front data start stop equal (by omega), hseg, ← take_findIdx, hidx]
    have hval : segment.dropWhile (fun b => !(b == equals)) =
        segment[equal] :: slice data (start + equal + 1) stop := by
      rw [Nat.add_assoc, slice_back data start stop (equal + 1), hseg, ← drop_findIdx, hidx]
      exact List.drop_eq_getElem_cons hlt
    rw [hval]
    simp only [Option.map_some, Nat.zero_add, removeQuotes_eq, hkey]

theorem delim_eq (cookie : Bool) : delim cookie = separator cookie := rfl

theorem stopOf_eq (data : Bytes) (cookie : Bool) (start : ℕ) (h : start ≤ data.length) :
    stopOf data cookie start = start + (data.drop start).findIdx (· == separator cookie) := by
  rw [stopOf, find_eq_findIdx, delim_eq, List.findIdx_eq_getD_findIdx?]
  cases (data.drop start).findIdx? (· == separator cookie) with
  | none =>
    rw [Option.map_none, Option.getD_none, Option.getD_none, List.length_drop]
    omega
  | some n => rfl

/-- The text the next turn reads, with the end of the loop as the empty text. -/
theorem drop_nextStart (data : Bytes) (cookie : Bool) (stop : ℕ) :
    (match nextStart data cookie stop with
      | some next => data.drop next
      | none => []) = (data.drop (stop + 1)).dropWhile (padding cookie) := by
  cases cookie with
  | false =>
    change data.drop (stop + 1) = _
    cases data.drop (stop + 1) <;> rfl
  | true =>
    rw [show nextStart data true stop = findFirstNotOf data space (stop + 1) from rfl,
      findFirstNotOf]
    generalize hrest : data.drop (stop + 1) = rest
    have hpad : padding true = fun b => b == space := rfl
    cases hf : rest.findIdx? (fun b => !(b == space)) with
    | none =>
      have hall : ∀ b ∈ rest, (b == space) = true := by
        intro b hb
        simpa using List.findIdx?_eq_none_iff.mp hf b hb
      rw [hpad, List.dropWhile_eq_nil_iff.mpr hall]
      rfl
    | some n =>
      obtain ⟨_, hidx⟩ := List.findIdx?_eq_some_iff_findIdx_eq.mp hf
      have hdrop := drop_findIdx (fun b => !(b == space)) rest
      simp only [Bool.not_not] at hdrop
      rw [hpad, ← hdrop, hidx, ← hrest]
      exact (List.drop_drop).symm

theorem parameters_nil (cookie : Bool) : parameters cookie [] = [] := rfl

theorem padding_separator (cookie : Bool) : padding cookie (separator cookie) = false := by
  cases cookie <;> decide

theorem parameters_scan (cookie : Bool) {text : Bytes} (h : text ≠ []) :
    parameters cookie text =
      readSegment cookie (text.take (text.findIdx (· == separator cookie))) ::
        parameters cookie
          ((text.drop (text.findIdx (· == separator cookie) + 1)).dropWhile (padding cookie)) := by
  rw [parameters, segments, fields_scan (padding_separator cookie) h]
  rfl

theorem parameters_turn (data : Bytes) (cookie : Bool) {start : ℕ} (h : start < data.length) :
    parameters cookie (data.drop start) =
      readSegment cookie (slice data start (stopOf data cookie start)) ::
        parameters cookie
          ((data.drop (stopOf data cookie start + 1)).dropWhile (padding cookie)) := by
  have hne : data.drop start ≠ [] := by
    rw [Ne, List.drop_eq_nil_iff]
    omega
  rw [parameters_scan cookie hne, stopOf_eq data cookie start h.le, slice_eq, List.drop_drop,
    Nat.add_sub_cancel_left, Nat.add_assoc]

theorem parseFrom_eq (data : Bytes) (cookie : Bool) (params : QueryParams) (start : ℕ) :
    parseFrom data cookie params start =
      emplaceAll params (parameters cookie (data.drop start)) := by
  fun_induction parseFrom data cookie params start with
  | case1 params start h stop params' next hn ih =>
    have hrest := drop_nextStart data cookie stop
    rw [hn] at hrest
    rw [ih, parameters_turn data cookie h, ← hrest, ← List.singleton_append, emplaceAll_append,
      ← emplaceParameter_eq]
  | case2 params start h stop params' hn =>
    have hrest := drop_nextStart data cookie stop
    rw [hn] at hrest
    rw [parameters_turn data cookie h, ← hrest, parameters_nil]
    exact emplaceParameter_eq data cookie params start stop
  | case3 params start h =>
    rw [List.drop_eq_nil_of_le (by omega)]
    rfl

theorem parseParameters_eq (data : Bytes) (start : ℕ) (cookie : Bool) :
    parseParameters data start cookie = collect (parameters cookie (data.drop start)) :=
  parseFrom_eq data cookie ∅ start

end Loop

section Parsers

theorem parseBody_eq (body : Bytes) : parseBody body = collect (parameters false body) := by
  rw [parseBody, parseParameters_eq, List.drop_zero]

theorem parseCookie_eq (cookie : Bytes) :
    parseCookie cookie = collect (parameters true cookie) := by
  rw [parseCookie, parseParameters_eq, List.drop_zero]

def query (path : Bytes) : Bytes := (path.dropWhile (fun b => !(b == questionMark))).tail

theorem parsePath_eq (path : Bytes) : parsePath path = collect (parameters false (query path)) := by
  unfold parsePath query
  rw [find_eq_findIdx, List.drop_zero, ← drop_findIdx]
  cases hf : path.findIdx? (· == questionMark) with
  | none =>
    rw [List.findIdx?_eq_none_iff_findIdx_eq.mp hf, List.drop_length]
    rfl
  | some n =>
    obtain ⟨_, hidx⟩ := List.findIdx?_eq_some_iff_findIdx_eq.mp hf
    simp only [Option.map_some, Nat.zero_add]
    rw [parseParameters_eq, hidx, List.tail_drop]

end Parsers
end WafWasm.Segments
