import WafWasm.Detection
import WafWasm.Segments

set_option autoImplicit false

namespace WafWasm.ParserReference
open Common UnorderedContainers HttpParser DelimitedText Segments PercentEncoding Detection

section Reference

/-- The text cut at every `;` or `&`, in cookie mode without the blanks behind a cut. -/
def cutSegments (cookie : Bool) (text : Bytes) : List Bytes :=
  match text.splitOn (if cookie then 0x3B else 0x26) with
  | [] => []
  | first :: rest => first :: if cookie then rest.map (List.dropWhile (· == space)) else rest

def withoutEmptyLast (segments : List Bytes) : List Bytes :=
  if segments.getLast? = some [] then segments.dropLast else segments

def stripQuotes (val : Bytes) : Bytes :=
  if 2 ≤ val.length ∧ val.head? = some quote ∧ val.getLast? = some quote then val.tail.dropLast
  else val

/-- The first `=` ends the name; a segment without one has an empty value. -/
def readPair (cookie : Bool) (segment : Bytes) : Bytes × Bytes :=
  let name := segment.takeWhile (· != equals)
  let val := percentDecode (segment.drop (name.length + 1))
  (percentDecode name, if cookie then stripQuotes val else val)

def referencePairs (cookie : Bool) (text : Bytes) : List (Bytes × Bytes) :=
  (withoutEmptyLast (cutSegments cookie text)).map (readPair cookie)

end Reference

section Agreement

theorem cutSegments_eq (cookie : Bool) (text : Bytes) :
    cutSegments cookie text =
      mapTail (List.dropWhile (padding cookie)) (text.splitOn (separator cookie)) := by
  have hid : List.dropWhile (padding false) = id := by
    funext bs
    cases bs <;> rfl
  change (match text.splitOn (separator cookie) with
    | [] => []
    | first :: rest => first :: if cookie then rest.map (List.dropWhile (· == space)) else rest) = _
  cases text.splitOn (separator cookie) with
  | nil => rfl
  | cons first rest =>
    cases cookie with
    | false =>
      rw [mapTail, hid, List.map_id]
      rfl
    | true => rfl

theorem withoutEmptyLast_eq (segments : List Bytes) :
    withoutEmptyLast segments = dropEmptyLast segments := by
  induction segments with
  | nil => rfl
  | cons segment segments ih =>
    cases segments with
    | nil =>
      cases segment with
      | nil => rfl
      | cons b bs => exact if_neg (by simp)
    | cons next segments =>
      rw [dropEmptyLast_cons segment (List.cons_ne_nil _ _), ← ih]
      unfold withoutEmptyLast
      rw [List.getLast?_cons_cons, List.dropLast_cons_cons]
      split_ifs <;> rfl

theorem stripQuotes_eq (val : Bytes) : stripQuotes val = unquote true val := by
  unfold stripQuotes unquote
  rw [List.head?_eq_getElem?]
  simp only [true_and, and_comm (a := val[0]? = some quote)]

theorem readPair_eq (cookie : Bool) (segment : Bytes) :
    readPair cookie segment = readSegment cookie segment := by
  have hquote : ∀ val, (if cookie then stripQuotes val else val) = unquote cookie val := by
    intro val
    cases cookie with
    | false => exact (if_neg (by simp)).symm
    | true => exact stripQuotes_eq val
  unfold readPair
  simp only [hquote, percentDecode_eq]
  by_cases h : equals ∈ segment
  · obtain ⟨name, val, rfl, hname⟩ := List.eq_append_cons_of_mem h
    have hall : ∀ b ∈ name, (b != equals) = true :=
      fun b hb => bne_iff_ne.mpr fun he => hname (he ▸ hb)
    have htake : (name ++ equals :: val).takeWhile (· != equals) = name := by
      rw [List.takeWhile_append_of_pos hall, List.takeWhile_cons_of_neg (by simp),
        List.append_nil]
    have hdrop : (name ++ equals :: val).drop (name.length + 1) = val := by
      rw [← List.drop_drop, List.drop_left' rfl, List.drop_one, List.tail_cons]
    rw [readSegment_pair cookie hname, htake, hdrop]
  · have hall : ∀ b ∈ segment, (b != equals) = true :=
      fun b hb => bne_iff_ne.mpr fun he => h (he ▸ hb)
    have htake : segment.takeWhile (· != equals) = segment := List.takeWhile_eq_self_iff.mpr hall
    have hnone : segment.dropWhile (fun b => !(b == equals)) = [] :=
      List.dropWhile_eq_nil_iff.mpr hall
    have hempty : unquote cookie (decodeBytes []) = [] := if_neg (by simp [decodeBytes])
    rw [htake, List.drop_eq_nil_of_le (Nat.le_succ _), hempty, readSegment, hnone]

theorem referencePairs_eq (cookie : Bool) (text : Bytes) :
    referencePairs cookie text = parameters cookie text := by
  unfold referencePairs parameters segments fields
  rw [withoutEmptyLast_eq, cutSegments_eq]
  exact List.map_congr_left fun segment _ => readPair_eq cookie segment

/-- Every key of the parsed map holds the value of the first segment of that name. -/
theorem parse_agrees_with_reference (data : Bytes) (start : ℕ) (cookie : Bool)
    (key val : Bytes) :
    (parseParameters data start cookie).lookup key = some val ↔
      ∃ before after, referencePairs cookie (data.drop start) = before ++ (key, val) :: after ∧
        key ∉ before.map Prod.fst := by
  rw [parseParameters_eq, lookup_collect, ← referencePairs_eq]
  exact lookup_iff_first _ (key, val)

end Agreement
end WafWasm.ParserReference
