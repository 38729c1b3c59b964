import WafWasm.KeywordLookup
import WafWasm.LibinjectionParsers

set_option autoImplicit false

namespace WafWasm.InputSearches
open CheckedMemory Common LibinjectionTokens LibinjectionParsers

section Windows
variable {s : Bytes} {start n : ℕ}

theorem findIdx_bound {p : UInt8 → Bool} {text : Bytes} {i : ℕ} (h : text.findIdx? p = some i) :
    ∃ hi : i < text.length, p text[i] = true := by
  rw [List.findIdx?_eq_some_iff_getElem] at h
  exact ⟨h.1, h.2.1⟩

theorem memchr_holds (h : start + n ≤ s.length) (ch : UInt8) :
    Holds (memchr s start n ch)
      (fun r => ∀ q, r = some q → start ≤ q ∧ q < start + n ∧ s[q]? = some ch) := by
  rw [memchr, slice_ok h, bind_ok]
  refine holds_pure ?_
  intro q hq
  obtain ⟨i, hi, rfl⟩ := Option.map_eq_some_iff.mp hq
  obtain ⟨hlt, hch⟩ := findIdx_bound hi
  rw [List.length_take, List.length_drop] at hlt
  rw [List.getElem_take, List.getElem_drop, beq_iff_eq] at hch
  refine ⟨by omega, by omega, ?_⟩
  rw [List.getElem?_eq_getElem (by omega), hch]

theorem findPair_bound {c0 c1 : UInt8} {text : Bytes} {i : ℕ} (h : findPair c0 c1 text = some i) :
    i + 2 ≤ text.length := by
  induction text generalizing i with
  | nil => cases h
  | cons a rest ih =>
    cases rest with
    | nil => cases h
    | cons b rest =>
      rw [findPair] at h
      split_ifs at h with hab
      · cases h
        simp
      · obtain ⟨j, hj, rfl⟩ := Option.map_eq_some_iff.mp h
        have := ih hj
        simp only [List.length_cons] at this ⊢
        omega

theorem memchr2_holds (h : start + n ≤ s.length) (c0 c1 : UInt8) :
    Holds (memchr2 s start n c0 c1)
      (fun r => ∀ p, r = some p → start ≤ p ∧ p + 2 ≤ start + n) := by
  rw [memchr2, slice_ok h, bind_ok]
  refine holds_pure ?_
  intro p hp
  obtain ⟨i, hi, rfl⟩ := Option.map_eq_some_iff.mp hp
  have hle := findPair_bound hi
  rw [List.length_take, List.length_drop] at hle
  omega

theorem findInfix_bound {needle text : Bytes} {i : ℕ} (h : findInfix needle text = some i) :
    i + needle.length ≤ text.length := by
  induction text generalizing i with
  | nil => cases h
  | cons a rest ih =>
    rw [findInfix] at h
    split_ifs at h with hprefix
    · cases h
      rw [Nat.zero_add]
      exact hprefix.length_le
    · obtain ⟨j, hj, rfl⟩ := Option.map_eq_some_iff.mp h
      have := ih hj
      rw [List.length_cons]
      omega

theorem myMemmem_holds (h : start + n ≤ s.length) {needle : Bytes} (hneedle : 1 < needle.length) :
    Holds (myMemmem s start n needle)
      (fun r => ∀ p, r = some p → start ≤ p ∧ p + needle.length ≤ start + n) := by
  rw [myMemmem, require_ok hneedle, bind_ok, slice_ok h, bind_ok]
  refine holds_pure ?_
  intro p hp
  obtain ⟨i, hi, rfl⟩ := Option.map_eq_some_iff.mp hp
  have hle := findInfix_bound hi
  rw [List.length_take, List.length_drop] at hle
  omega

theorem length_takeWhile_window (p : UInt8 → Bool) :
    (((s.drop start).take n).takeWhile p).length ≤ n := by
  have htake := (List.takeWhile_sublist p (l := (s.drop start).take n)).length_le
  rw [List.length_take, List.length_drop] at htake
  omega

theorem strlenspn_holds (h : start + n ≤ s.length) (accept : Bytes) :
    Holds (strlenspn s start n accept) (fun len => len ≤ n) := by
  rw [strlenspn, slice_ok h, bind_ok]
  exact holds_pure (length_takeWhile_window _)

theorem strlencspn_holds (h : start + n ≤ s.length) (accept : Bytes) :
    Holds (strlencspn s start n accept) (fun len => len ≤ n ∧
      (0 < n → ∀ ch, s[start]? = some ch → strchr accept ch = false → 0 < len)) := by
  rw [strlencspn, slice_ok h, bind_ok]
  refine holds_pure ⟨length_takeWhile_window _, ?_⟩
  intro hn ch hch hstop
  obtain ⟨hlt, hget⟩ := List.getElem?_eq_some_iff.mp hch
  obtain ⟨m, rfl⟩ : ∃ m, n = m + 1 := ⟨n - 1, by omega⟩
  rw [List.drop_eq_getElem_cons hlt, List.take_succ_cons, hget,
    List.takeWhile_cons_of_pos (by simp [hstop])]
  exact Nat.succ_pos _

end Windows

section Lookahead
variable {inp : Input}

theorem passes_holds {i : ℕ} {tests : List (UInt8 → Bool)} (h : i + tests.length ≤ inp.s.length) :
    Holds (passes inp i tests) (fun b => b = true → ∀ k test, tests[k]? = some test →
      ∃ ch, inp.s[i + k]? = some ch ∧ test ch = true) := by
  induction tests generalizing i with
  | nil => exact holds_pure fun _ k test hk => by simp at hk
  | cons test tests ih =>
    rw [List.length_cons] at h
    rw [passes]
    refine (@holds_readAt _ inp.s i (by omega)).bind fun ch hch => holds_ite ?_ ?_
    · intro htest
      refine (ih (by omega)).imp fun b hb htrue k other hk => ?_
      cases k with
      | zero =>
        rw [List.getElem?_cons_zero, Option.some.injEq] at hk
        exact ⟨ch, hch, hk ▸ htest⟩
      | succ k =>
        rw [Nat.add_succ, ← Nat.succ_add]
        exact hb htrue k other hk
    · intro _
      exact holds_pure fun hfalse => absurd hfalse Bool.false_ne_true

theorem andThen_holds {c : Prop} [Decidable c] {x : Checked Bool} {P : Bool → Prop}
    (h : c → Holds x P) : Holds (andThen c x) (fun b => b = true → c ∧ P b) := by
  rw [andThen]
  refine holds_ite ?_ ?_
  · intro hc
    exact (h hc).imp fun b hb _ => ⟨hc, hb⟩
  · intro _
    exact holds_pure fun hfalse => absurd hfalse Bool.false_ne_true

theorem lookahead_holds {c : Prop} [Decidable c] {i : ℕ} {test : UInt8 → Bool}
    {tests : List (UInt8 → Bool)} (h : c → i + tests.length < inp.s.length) :
    Holds (andThen c (passes inp i (test :: tests)))
      (fun b => b = true → c ∧ ∃ ch, inp.s[i]? = some ch ∧ test ch = true) := by
  refine (andThen_holds fun hc => passes_holds ?_).imp fun b hb htrue => ?_
  · rw [List.length_cons]
    exact h hc
  · exact ⟨(hb htrue).1, (hb htrue).2 htrue 0 test rfl⟩

theorem skipDigits_bounds {pos : ℕ} (h : pos ≤ inp.s.length) :
    pos ≤ skipDigits inp pos ∧ skipDigits inp pos ≤ inp.s.length := by
  have hlen := (List.takeWhile_sublist isDigit (l := inp.s.drop pos)).length_le
  rw [List.length_drop] at hlen
  unfold skipDigits
  omega

theorem skipDigits_pos {pos : ℕ} {ch : UInt8} (hch : inp.s[pos]? = some ch)
    (hdigit : isDigit ch = true) : pos < skipDigits inp pos := by
  obtain ⟨hlt, hget⟩ := List.getElem?_eq_some_iff.mp hch
  unfold skipDigits
  rw [List.drop_eq_getElem_cons hlt, hget, List.takeWhile_cons_of_pos hdigit, List.length_cons]
  omega

end Lookahead

section Values

def padded (text : Bytes) : Bytes := text ++ List.replicate (tokenSize - text.length) 0

theorem padded_length {text : Bytes} (h : text.length ≤ tokenSize) :
    (padded text).length = tokenSize := by
  rw [padded, List.length_append, List.length_replicate]
  omega

theorem padded_take (text : Bytes) : (padded text).take text.length = text := by
  rw [padded, List.take_left]

theorem padded_drop {text : Bytes} {n : ℕ} (h : text.length ≤ n) :
    (padded text).drop n = List.replicate (tokenSize - n) 0 := by
  rw [padded, List.drop_append, List.drop_eq_nil_of_le h, List.nil_append, List.drop_replicate]
  congr 1
  omega

theorem padded_set {text : Bytes} (h : text.length < tokenSize) :
    (padded text).set text.length 0 = padded text := by
  obtain ⟨k, hk⟩ : ∃ k, tokenSize - text.length = k + 1 := ⟨tokenSize - text.length - 1, by omega⟩
  rw [padded, List.set_append_right _ _ (Nat.le_refl _), Nat.sub_self, hk, List.replicate_succ,
    List.set_cons_zero]

def stored (len : ℕ) : ℕ := if len < tokenSize then len else tokenSize - 1

theorem stored_bounds (len : ℕ) : stored len ≤ len ∧ stored len < tokenSize := by
  unfold stored tokenSize
  split_ifs <;> omega

theorem stored_eq {len : ℕ} (h : len < tokenSize) : stored len = len := if_pos h

theorem stAssign_eq {st : Token} {old buffer : Bytes} {len start : ℕ} (hval : st.val = padded old)
    (hold : old.length ≤ stored len) (h : start + stored len ≤ buffer.length) (stype : UInt8)
    (pos : ℕ) :
    stAssign st stype pos len buffer start =
      .ok { st with type := stype, pos := pos, len := stored len,
                    val := padded ((buffer.drop start).take (stored len)) } := by
  have hlast : stored len < tokenSize := (stored_bounds len).2
  have hlength : ((buffer.drop start).take (stored len)).length = stored len := by
    rw [List.length_take, List.length_drop]
    omega
  have hcopy : copyTo st.val 0 ((buffer.drop start).take (stored len)) =
      .ok (padded ((buffer.drop start).take (stored len))) := by
    rw [hval, copyTo_ok (by rw [hlength, padded_length (by omega)]; omega), List.take_zero,
      List.nil_append, Nat.zero_add, padded_drop (by omega), padded]
  have hwrite : writeAt (padded ((buffer.drop start).take (stored len))) (stored len) charNull =
      .ok (padded ((buffer.drop start).take (stored len))) := by
    rw [writeAt_ok (by rw [padded_length (by omega)]; exact hlast)]
    have hset := @padded_set ((buffer.drop start).take (stored len)) (by omega)
    rw [hlength] at hset
    rw [hset]
  rw [stAssign]
  change (slice buffer start (stored len) >>= _) = _
  rw [slice_ok h, bind_ok, hcopy, bind_ok]
  change (writeAt _ (stored len) charNull >>= _) = _
  rw [hwrite]
  rfl

theorem stAssignChar_eq {st : Token} (hval : st.val = padded []) (stype : UInt8) (pos : ℕ)
    (value : UInt8) :
    stAssignChar st stype pos value =
      .ok { st with type := stype, pos := pos, len := 1, val := padded [value] } := by
  rw [stAssignChar, hval]
  rfl

end Values
end WafWasm.InputSearches
