import WafWasm.HttpParser
import Mathlib.Tactic.SplitIfs

set_option autoImplicit false

namespace WafWasm.PercentEncoding
open Common HttpParser

section Digits

theorem narrow_toNat (n : ℤ) : ((narrow n).toNat : ℤ) = n % 256 := by
  change (((BitVec.ofInt 8 n).toNat : ℕ) : ℤ) = _
  rw [BitVec.toNat_ofInt]
  omega

theorem promote_eq (c : UInt8) :
    promote c = if c.toNat < 128 then (c.toNat : ℤ) else c.toNat - 256 := by
  change (c.toBitVec).toInt = _
  rw [BitVec.toInt_eq_toNat_cond]
  change (if 2 * c.toNat < 2 ^ 8 then (c.toNat : ℤ) else c.toNat - (2 ^ 8 : ℕ)) = _
  split_ifs <;> omega

theorem promote_emod (c : UInt8) : promote c % 256 = c.toNat := by
  have hc := c.toNat_lt
  rw [promote_eq]
  split_ifs <;> omega

/-- The value the source gives to a digit of an escape, in `int` arithmetic. -/
def digitValue (c : UInt8) : ℤ :=
  if isdigit (promote c) then promote c - 48 else toupper (promote c) - 65 + 10

theorem escapedChar_eq (hi lo : UInt8) :
    escapedChar hi lo =
      narrow (promote (narrow (promote (narrow (digitValue hi)) * 16)) + digitValue lo) := by
  unfold escapedChar digitValue
  dsimp only
  split_ifs <;> rfl

/-- Whatever wraps on the way, the byte is the value of the two digits modulo 256. -/
theorem escapedChar_toNat (hi lo : UInt8) :
    ((escapedChar hi lo).toNat : ℤ) = (16 * digitValue hi + digitValue lo) % 256 := by
  rw [escapedChar_eq, narrow_toNat]
  have h := promote_emod (narrow (digitValue hi))
  have h' := promote_emod (narrow (promote (narrow (digitValue hi)) * 16))
  rw [narrow_toNat] at h h'
  omega

def hexDigit? (c : UInt8) : Option ℕ :=
  if 48 ≤ c.toNat ∧ c.toNat ≤ 57 then some (c.toNat - 48)
  else if 65 ≤ c.toNat ∧ c.toNat ≤ 70 then some (c.toNat - 55)
  else if 97 ≤ c.toNat ∧ c.toNat ≤ 102 then some (c.toNat - 87)
  else none

theorem digitValue_hex {c : UInt8} {n : ℕ} (h : hexDigit? c = some n) : digitValue c = n := by
  unfold hexDigit? at h
  unfold digitValue isdigit toupper
  rw [promote_eq]
  split_ifs at h with hdigit hupper hlower
  · have hn := Option.some.inj h
    have hlt : c.toNat < 128 := by omega
    simp only [hlt, if_true]
    rw [if_pos (by simp only [Bool.and_eq_true, decide_eq_true_eq]; omega)]
    omega
  · have hn := Option.some.inj h
    have hlt : c.toNat < 128 := by omega
    simp only [hlt, if_true]
    rw [if_neg (by simp only [Bool.and_eq_true, decide_eq_true_eq]; omega), if_neg (by omega)]
    omega
  · have hn := Option.some.inj h
    have hlt : c.toNat < 128 := by omega
    simp only [hlt, if_true]
    rw [if_neg (by simp only [Bool.and_eq_true, decide_eq_true_eq]; omega), if_pos (by omega)]
    omega

theorem escapedChar_hex {b hi lo : UInt8} {h l : ℕ} (hhi : hexDigit? hi = some h)
    (hlo : hexDigit? lo = some l) (hb : b.toNat = 16 * h + l) : escapedChar hi lo = b := by
  have hval := escapedChar_toNat hi lo
  have hlt := b.toNat_lt
  rw [digitValue_hex hhi, digitValue_hex hlo] at hval
  apply UInt8.toNat_inj.mp
  omega

end Digits

section Decoding

def unplus (ch : UInt8) : UInt8 := if ch = plus then space else ch

def decodeBytes : Bytes → Bytes
  | [] => []
  | [ch] => [unplus ch]
  | [ch, last] => [unplus ch, unplus last]
  | ch :: hi :: lo :: rest =>
    if ch = percent then escapedChar hi lo :: decodeBytes rest
    else unplus ch :: decodeBytes (hi :: lo :: rest)

theorem decodeBytes_plain {ch : UInt8} (h : ch ≠ percent) (rest : Bytes) :
    decodeBytes (ch :: rest) = unplus ch :: decodeBytes rest := by
  match rest with
  | [] => rfl
  | [_] => rfl
  | _ :: _ :: _ => rw [decodeBytes, if_neg h]

theorem decodeBytes_short (ch : UInt8) {rest : Bytes} (h : rest.length < 2) :
    decodeBytes (ch :: rest) = unplus ch :: decodeBytes rest := by
  match rest with
  | [] => rfl
  | [_] => rfl
  | _ :: _ :: _ => exact absurd h (by simp)

theorem unplus_eq_percent (ch : UInt8) : unplus ch = percent ↔ ch = percent := by
  unfold unplus
  split_ifs with h
  · subst h
    decide
  · rfl

theorem percentDecodeFrom_eq (encoded decoded : Bytes) (i : ℕ) :
    percentDecodeFrom encoded decoded i = decoded ++ decodeBytes (encoded.drop i) := by
  fun_induction percentDecodeFrom encoded decoded i with
  | case1 decoded i h ch hp ch' ih =>
    have hpercent : encoded[i] = percent := (unplus_eq_percent _).mp hp.1
    have hsplit : encoded.drop i = encoded[i] :: encoded[i + 1] :: encoded[i + 2] ::
        encoded.drop (i + 3) := by
      rw [List.drop_eq_getElem_cons h, List.drop_eq_getElem_cons (by omega),
        List.drop_eq_getElem_cons (by omega)]
    rw [ih, hsplit, decodeBytes, if_pos hpercent, List.append_assoc]
    rfl
  | case2 decoded i h ch hp ih =>
    have hstep : decodeBytes (encoded.drop i) = unplus encoded[i] ::
        decodeBytes (encoded.drop (i + 1)) := by
      rw [List.drop_eq_getElem_cons h]
      by_cases hpercent : encoded[i] = percent
      · have hshort : ¬ i + 2 < encoded.length :=
          fun hlen => hp ⟨(unplus_eq_percent _).mpr hpercent, hlen⟩
        exact decodeBytes_short _ (by rw [List.length_drop]; omega)
      · exact decodeBytes_plain hpercent _
    rw [ih, hstep, List.append_assoc]
    rfl
  | case3 decoded i h =>
    rw [List.drop_eq_nil_of_le (by omega)]
    exact (List.append_nil _).symm

theorem percentDecode_eq (encoded : Bytes) : percentDecode encoded = decodeBytes encoded :=
  percentDecodeFrom_eq encoded [] 0

theorem length_decodeBytes_le (text : Bytes) : (decodeBytes text).length ≤ text.length := by
  fun_induction decodeBytes text with
  | case1 => exact Nat.le_refl _
  | case2 => exact Nat.le_refl _
  | case3 => exact Nat.le_refl _
  | case4 hi lo rest ih =>
    simp only [List.length_cons]
    omega
  | case5 ch hi lo rest h ih =>
    simp only [List.length_cons] at ih ⊢
    omega

theorem length_percentDecode_le (encoded : Bytes) :
    (percentDecode encoded).length ≤ encoded.length := by
  rw [percentDecode_eq]
  exact length_decodeBytes_le encoded

end Decoding

section Encoding

/-- Which bytes may stand for themselves, and whether a space may be written as a plus. -/
structure Alphabet where
  literal : UInt8 → Prop
  plusForSpace : Prop

/-- One admissible spelling of one byte. -/
inductive EncodesByte (A : Alphabet) (b : UInt8) : Bytes → Prop where
  | itself (h : A.literal b) : EncodesByte A b [b]
  | spacePlus (h : A.plusForSpace) (hb : b = space) : EncodesByte A b [plus]
  | escape {hi lo : UInt8} {h l : ℕ} (hhi : hexDigit? hi = some h) (hlo : hexDigit? lo = some l)
      (hb : b.toNat = 16 * h + l) : EncodesByte A b [percent, hi, lo]

inductive Encodes (A : Alphabet) : Bytes → Bytes → Prop where
  | nil : Encodes A [] []
  | cons {b : UInt8} {bs e es : Bytes} (head : EncodesByte A b e) (tail : Encodes A bs es) :
      Encodes A (b :: bs) (e ++ es)

theorem EncodesByte.decode {A : Alphabet} {b : UInt8} {e : Bytes} (h : EncodesByte A b e)
    (hA : ∀ b, A.literal b → b ≠ percent ∧ b ≠ plus) (rest : Bytes) :
    decodeBytes (e ++ rest) = b :: decodeBytes rest := by
  cases h with
  | itself h =>
    obtain ⟨hpercent, hplus⟩ := hA b h
    rw [List.singleton_append, decodeBytes_plain hpercent, unplus, if_neg hplus]
  | spacePlus _ hb =>
    rw [List.singleton_append, decodeBytes_plain (by decide), unplus, if_pos rfl, hb]
  | escape hhi hlo hb =>
    simp only [List.cons_append, List.nil_append]
    rw [decodeBytes, if_pos rfl, escapedChar_hex hhi hlo hb]

theorem Encodes.decode_append {A : Alphabet} {bs e : Bytes} (h : Encodes A bs e)
    (hA : ∀ b, A.literal b → b ≠ percent ∧ b ≠ plus) (rest : Bytes) :
    decodeBytes (e ++ rest) = bs ++ decodeBytes rest := by
  induction h with
  | nil => rfl
  | cons head tail ih => rw [List.append_assoc, head.decode hA, ih, List.cons_append]

theorem Encodes.decode {A : Alphabet} {bs e : Bytes} (h : Encodes A bs e)
    (hA : ∀ b, A.literal b → b ≠ percent ∧ b ≠ plus) : decodeBytes e = bs := by
  have hrest := h.decode_append hA []
  rwa [List.append_nil, decodeBytes, List.append_nil] at hrest

theorem EncodesByte.avoids {A : Alphabet} {b d : UInt8} {e : Bytes} (h : EncodesByte A b e)
    (hd : ¬ A.literal d) (hplus : d ≠ plus) (hpercent : d ≠ percent) (hhex : hexDigit? d = none) :
    d ∉ e := by
  cases h with
  | itself h =>
    intro hm
    rw [List.mem_singleton] at hm
    exact hd (hm ▸ h)
  | spacePlus _ _ =>
    intro hm
    exact hplus (List.mem_singleton.mp hm)
  | escape hhi hlo _ =>
    intro hm
    rcases List.mem_cons.mp hm with rfl | hm
    · exact hpercent rfl
    rcases List.mem_cons.mp hm with rfl | hm
    · rw [hhex] at hhi
      cases hhi
    · rw [List.mem_singleton.mp hm, hlo] at hhex
      cases hhex

theorem Encodes.avoids {A : Alphabet} {d : UInt8} {bs e : Bytes} (h : Encodes A bs e)
    (hd : ¬ A.literal d) (hplus : d ≠ plus) (hpercent : d ≠ percent) (hhex : hexDigit? d = none) :
    d ∉ e := by
  induction h with
  | nil => exact List.not_mem_nil
  | cons head tail ih =>
    rw [List.mem_append, not_or]
    exact ⟨head.avoids hd hplus hpercent hhex, ih⟩

end Encoding
end WafWasm.PercentEncoding
