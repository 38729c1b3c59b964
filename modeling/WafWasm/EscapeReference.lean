import WafWasm.PercentEncoding

set_option autoImplicit false

namespace WafWasm.EscapeReference
open Common HttpParser PercentEncoding

section Reference

def IsHex (c : UInt8) : Prop := (hexDigit? c).isSome = true

instance (c : UInt8) : Decidable (IsHex c) := inferInstanceAs (Decidable (_ = true))

def hexByte (hi lo : UInt8) : UInt8 :=
  UInt8.ofNat (16 * (hexDigit? hi).getD 0 + (hexDigit? lo).getD 0)

def referenceDecode : Bytes → Bytes
  | [] => []
  | [ch] => [unplus ch]
  | [ch, last] => [unplus ch, unplus last]
  | ch :: hi :: lo :: rest =>
    if ch = percent ∧ IsHex hi ∧ IsHex lo then hexByte hi lo :: referenceDecode rest
    else unplus ch :: referenceDecode (hi :: lo :: rest)

/-- No `%` is followed by two bytes that are not both hexadecimal digits. -/
def WellEscaped (text : Bytes) : Prop :=
  ∀ front hi lo back, text = front ++ percent :: hi :: lo :: back → IsHex hi ∧ IsHex lo

theorem referenceDecode_plain {ch : UInt8} (h : ch ≠ percent) (rest : Bytes) :
    referenceDecode (ch :: rest) = unplus ch :: referenceDecode rest := by
  match rest with
  | [] => rfl
  | [_] => rfl
  | _ :: _ :: _ => rw [referenceDecode, if_neg fun hp => h hp.1]

theorem referenceDecode_escape {hi lo : UInt8} (hhi : IsHex hi) (hlo : IsHex lo) (rest : Bytes) :
    referenceDecode (percent :: hi :: lo :: rest) = hexByte hi lo :: referenceDecode rest := by
  rw [referenceDecode, if_pos ⟨rfl, hhi, hlo⟩]

theorem referenceDecode_literal {hi lo : UInt8} (h : ¬ (IsHex hi ∧ IsHex lo)) (rest : Bytes) :
    referenceDecode (percent :: hi :: lo :: rest) =
      percent :: referenceDecode (hi :: lo :: rest) := by
  rw [referenceDecode, if_neg fun hp => h hp.2]
  rfl

end Reference

section Digits

theorem hexDigit?_lt {c : UInt8} {n : ℕ} (h : hexDigit? c = some n) : n < 16 := by
  unfold hexDigit? at h
  split_ifs at h <;> simp only [Option.some.injEq] at h <;> omega

theorem IsHex.ne_percent {c : UInt8} (h : IsHex c) : c ≠ percent := by
  intro hc
  subst hc
  revert h
  decide

theorem escapedChar_eq_hexByte {hi lo : UInt8} (hhi : IsHex hi) (hlo : IsHex lo) :
    escapedChar hi lo = hexByte hi lo := by
  obtain ⟨h, hh⟩ := Option.isSome_iff_exists.mp hhi
  obtain ⟨l, hl⟩ := Option.isSome_iff_exists.mp hlo
  have hhlt := hexDigit?_lt hh
  have hllt := hexDigit?_lt hl
  refine escapedChar_hex hh hl ?_
  rw [hexByte, hh, hl, UInt8.toNat_ofNat']
  simp only [Option.getD_some]
  omega

theorem digitValue_percent : digitValue percent = -18 := by decide

theorem escapedChar_percent {hi lo : UInt8} (h : escapedChar hi lo = percent) :
    lo ≠ percent ∧ (hi = percent → ¬ IsHex lo) := by
  have hval := escapedChar_toNat hi lo
  rw [h, show percent.toNat = 37 from rfl] at hval
  refine ⟨?_, ?_⟩
  · intro hlo
    rw [hlo, digitValue_percent] at hval
    omega
  · intro hhi hlo
    obtain ⟨n, hn⟩ := Option.isSome_iff_exists.mp hlo
    have hlt := hexDigit?_lt hn
    rw [hhi, digitValue_percent, digitValue_hex hn] at hval
    omega

end Digits

section Lengths

theorem referenceDecode_cons (ch : UInt8) (rest : Bytes) :
    referenceDecode (ch :: rest) = unplus ch :: referenceDecode rest ∨
      ∃ hi lo back, ch = percent ∧ rest = hi :: lo :: back ∧ IsHex hi ∧ IsHex lo ∧
        referenceDecode (ch :: rest) = hexByte hi lo :: referenceDecode back := by
  match rest with
  | [] => exact .inl rfl
  | [_] => exact .inl rfl
  | hi :: lo :: back =>
    rw [referenceDecode]
    split_ifs with h
    · exact .inr ⟨hi, lo, back, h.1, rfl, h.2.1, h.2.2, rfl⟩
    · exact .inl rfl

theorem length_referenceDecode_kept {hi lo : UInt8} (hlo : lo ≠ percent)
    (hhi : hi = percent → ¬ IsHex lo) (rest : Bytes) :
    (referenceDecode (hi :: lo :: rest)).length = (referenceDecode rest).length + 2 := by
  rcases referenceDecode_cons hi (lo :: rest) with h | ⟨digit, _, _, hp, he, hdigit, _, _⟩
  · rw [h, referenceDecode_plain hlo, List.length_cons, List.length_cons]
  · rw [← (List.cons.inj he).1] at hdigit
    exact absurd hdigit (hhi hp)

theorem length_referenceDecode_digits {hi lo : UInt8} (hhi : IsHex hi) (hlo : IsHex lo)
    (rest : Bytes) :
    (referenceDecode (hi :: lo :: rest)).length = (referenceDecode rest).length + 2 :=
  length_referenceDecode_kept hlo.ne_percent (fun hp => absurd hp hhi.ne_percent) rest

theorem length_referenceDecode_cons_le (ch : UInt8) (rest : Bytes) :
    (referenceDecode (ch :: rest)).length ≤ (referenceDecode rest).length + 1 := by
  rcases referenceDecode_cons ch rest with h | ⟨hi, lo, back, _, rfl, hhi, hlo, h⟩
  · rw [h, List.length_cons]
  · rw [h, List.length_cons, length_referenceDecode_digits hhi hlo]
    omega

theorem length_referenceDecode_le (hi lo : UInt8) (rest : Bytes) :
    (referenceDecode rest).length ≤ (referenceDecode (hi :: lo :: rest)).length := by
  rcases referenceDecode_cons hi (lo :: rest) with h | ⟨_, last, back, _, he, _, _, h⟩
  · rw [h, List.length_cons]
    rcases referenceDecode_cons lo rest with h' | ⟨_, _, _, _, rfl, hhi, hlo, h'⟩
    · rw [h', List.length_cons]
      omega
    · rw [h', List.length_cons, length_referenceDecode_digits hhi hlo]
  · rw [h, (List.cons.inj he).2, List.length_cons]
    exact length_referenceDecode_cons_le last back

theorem length_decodeBytes_le_reference (text : Bytes) :
    (decodeBytes text).length ≤ (referenceDecode text).length := by
  fun_induction decodeBytes text with
  | case1 => exact Nat.le_refl _
  | case2 => exact Nat.le_refl _
  | case3 => exact Nat.le_refl _
  | case4 hi lo rest ih =>
    by_cases h : IsHex hi ∧ IsHex lo
    · rw [referenceDecode_escape h.1 h.2, List.length_cons, List.length_cons]
      omega
    · have hle := length_referenceDecode_le hi lo rest
      rw [referenceDecode_literal h, List.length_cons, List.length_cons]
      omega
  | case5 ch hi lo rest h ih =>
    rw [referenceDecode_plain h, List.length_cons, List.length_cons]
    omega

end Lengths

section Agreement

theorem wellEscaped_short {text : Bytes} (h : text.length ≤ 2) : WellEscaped text := by
  intro front hi lo back he
  rw [he] at h
  simp at h
  omega

theorem wellEscaped_plain {ch : UInt8} (h : ch ≠ percent) (rest : Bytes) :
    WellEscaped (ch :: rest) ↔ WellEscaped rest := by
  constructor
  · intro hw front hi lo back he
    exact hw (ch :: front) hi lo back (congrArg (ch :: ·) he)
  · intro hw front hi lo back he
    cases front with
    | nil => exact absurd (List.cons.inj he).1 h
    | cons first front => exact hw front hi lo back (List.cons.inj he).2

theorem wellEscaped_escape (hi lo : UInt8) (rest : Bytes) :
    WellEscaped (percent :: hi :: lo :: rest) ↔ (IsHex hi ∧ IsHex lo) ∧ WellEscaped rest := by
  constructor
  · intro hw
    refine ⟨hw [] hi lo rest rfl, ?_⟩
    intro front hi' lo' back he
    exact hw (percent :: hi :: lo :: front) hi' lo' back
      (congrArg (fun text => percent :: hi :: lo :: text) he)
  · intro h
    obtain ⟨⟨hhi, hlo⟩, hw⟩ := h
    intro front hi' lo' back he
    match front with
    | [] =>
      simp only [List.nil_append, List.cons.injEq] at he
      exact ⟨he.2.1 ▸ hhi, he.2.2.1 ▸ hlo⟩
    | [_] =>
      simp only [List.cons_append, List.nil_append, List.cons.injEq] at he
      exact absurd he.2.1 hhi.ne_percent
    | [_, _] =>
      simp only [List.cons_append, List.nil_append, List.cons.injEq] at he
      exact absurd he.2.2.1 hlo.ne_percent
    | _ :: _ :: _ :: front =>
      simp only [List.cons_append, List.cons.injEq] at he
      exact hw front hi' lo' back he.2.2.2

theorem decodeBytes_eq_reference_iff (text : Bytes) :
    decodeBytes text = referenceDecode text ↔ WellEscaped text := by
  fun_induction decodeBytes text with
  | case1 => exact iff_of_true rfl (wellEscaped_short (by simp))
  | case2 => exact iff_of_true rfl (wellEscaped_short (by simp))
  | case3 => exact iff_of_true rfl (wellEscaped_short (by simp))
  | case4 hi lo rest ih =>
    rw [wellEscaped_escape, ← ih]
    by_cases h : IsHex hi ∧ IsHex lo
    · rw [referenceDecode_escape h.1 h.2, escapedChar_eq_hexByte h.1 h.2, List.cons.injEq]
      simp [h]
    · rw [referenceDecode_literal h]
      refine iff_of_false ?_ fun hw => h hw.1
      intro he
      have hrest := (List.cons.inj he).2
      obtain ⟨hlo, hhi⟩ := escapedChar_percent (List.cons.inj he).1
      -- The reference keeps `hi` and `lo`, and the decoder has nothing to make up for them.
      have hlong := length_referenceDecode_kept hlo hhi rest
      have hshort := length_decodeBytes_le_reference rest
      rw [hrest] at hshort
      omega
  | case5 ch hi lo rest h ih =>
    rw [referenceDecode_plain h, wellEscaped_plain h, ← ih, List.cons.injEq]
    simp

/-- The decoder is the reference on exactly the texts without a malformed escape that has two
bytes behind its `%`. -/
theorem percentDecode_eq_reference_iff (encoded : Bytes) :
    percentDecode encoded = referenceDecode encoded ↔
      ∀ front hi lo back, encoded = front ++ percent :: hi :: lo :: back → IsHex hi ∧ IsHex lo := by
  rw [percentDecode_eq]
  exact decodeBytes_eq_reference_iff encoded

theorem percentDecode_swallows :
    percentDecode (bytes "50%zz off") ≠ referenceDecode (bytes "50%zz off") := by
  rw [percentDecode_eq]
  decide

end Agreement
end WafWasm.EscapeReference
