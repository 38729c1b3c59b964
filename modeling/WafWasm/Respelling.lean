import WafWasm.LibinjectionVerdict
import WafWasm.RelatedRuns

set_option autoImplicit false

/-!
# Texts that differ in the case of letters

A text is respelled when letters of it change their case, and when something else stands before
it. The places where the tokenizer does tell the case of letters apart are left as they are: the
letter behind a backslash, a string in `q` quotes and a string between dollars. The searches of
the tokenizer end at the same places of both texts.
-/
namespace WafWasm.Respelling
open CheckedMemory RelatedRuns Common LibinjectionTokens LibinjectionKeywords LibinjectionParsers

section Characters

/-- Neither case of a letter. -/
def isSymbol (ch : UInt8) : Bool := !(0x41 ≤ ch && ch ≤ 0x5A) && !(0x61 ≤ ch && ch ≤ 0x7A)

theorem upper_all : (List.range 256).all (fun n =>
    upper (UInt8.ofNat n) == UInt8.ofNat n || !isSymbol (upper (UInt8.ofNat n))) = true := by
  decide +kernel

theorem upper_cases (ch : UInt8) : upper ch = ch ∨ isSymbol (upper ch) = false := by
  have hall := List.all_eq_true.mp upper_all ch.toNat (List.mem_range.mpr ch.toNat_lt)
  rw [UInt8.ofNat_toNat, Bool.or_eq_true, beq_iff_eq, Bool.not_eq_true'] at hall
  exact hall

variable {a b c : UInt8}

theorem upper_symbol (hc : isSymbol c = true) : upper c = c := by
  unfold isSymbol at hc
  rw [Bool.and_eq_true, Bool.not_eq_true', Bool.not_eq_true'] at hc
  exact if_neg (by rw [hc.2]; exact Bool.false_ne_true)

theorem eq_symbol (hc : isSymbol c = true) (h : upper a = upper c) : a = c := by
  rw [upper_symbol hc] at h
  rcases upper_cases a with hupper | hletter
  · exact hupper.symm.trans h
  · rw [h, hc] at hletter
    cases hletter

theorem symbol_iff (hc : isSymbol c = true) (h : upper a = upper b) : a = c ↔ b = c := by
  constructor
  · rintro rfl
    exact eq_symbol hc h.symm
  · rintro rfl
    exact eq_symbol hc h

theorem respects_symbol (hc : isSymbol c = true) : Respects upper (· == c) := by
  intro a b hab
  exact Bool.eq_iff_iff.mpr (by rw [beq_iff_eq, beq_iff_eq]; exact symbol_iff hc hab)

theorem respects_strchr {accept : Bytes} (h : accept.all isSymbol = true) :
    Respects upper (strchr accept) := by
  have hmem := List.all_eq_true.mp h
  intro a b hab
  apply Bool.eq_iff_iff.mpr
  simp only [strchr, Bool.or_eq_true, beq_iff_eq, List.contains_iff_mem]
  have hzero := symbol_iff (show isSymbol 0 = true by decide) hab
  constructor
  · rintro (ha | ha)
    · exact .inl (hzero.mp ha)
    · rw [(symbol_iff (hmem a ha) hab).mp rfl]
      exact .inr ha
  · rintro (hb | hb)
    · exact .inl (hzero.mpr hb)
    · rw [(symbol_iff (hmem b hb) hab).mpr rfl]
      exact .inr hb

theorem respects_of_all {γ : Type} [DecidableEq γ] {g : UInt8 → γ} (h : (List.range 256).all
    (fun n => g (upper (UInt8.ofNat n)) = g (UInt8.ofNat n)) = true) : Respects upper g := by
  have hupper : ∀ ch, g (upper ch) = g ch := by
    intro ch
    have hall := List.all_eq_true.mp h ch.toNat (List.mem_range.mpr ch.toNat_lt)
    rw [UInt8.ofNat_toNat, decide_eq_true_eq] at hall
    exact hall
  intro a b hab
  rw [← hupper a, hab, hupper b]

theorem respects_not {p : UInt8 → Bool} (h : Respects upper p) :
    Respects upper (fun ch => !p ch) :=
  fun a b hab => congrArg not (h a b hab)

theorem respects_or {p q : UInt8 → Bool} (hp : Respects upper p) (hq : Respects upper q) :
    Respects upper (fun ch => p ch || q ch) :=
  fun a b hab => congrArg₂ or (hp a b hab) (hq a b hab)

theorem respects_white : Respects upper charIsWhite := respects_strchr (by decide)

theorem respects_digit : Respects upper isDigit := respects_of_all (by decide +kernel)

end Characters

section Words
variable {v w : Bytes}

theorem cstrcasecmp_alike (h : Alike upper v w) (word : Bytes) (n : ℕ) :
    cstrcasecmp word v n = cstrcasecmp word w n := by
  induction n generalizing word v w with
  | zero => rw [cstrcasecmp, cstrcasecmp]
  | succ n ih =>
    cases v with
    | nil =>
      rw [List.map_eq_nil_iff.mp h.symm]
    | cons a v =>
      cases w with
      | nil => cases h
      | cons b w =>
        obtain ⟨hab, htail⟩ := List.cons.inj h
        cases word with
        | nil =>
          change Except.ok (if upper a = 0 then (-1 : ℤ) else -signed (upper a)) = _
          rw [hab]
          rfl
        | cons ca word =>
          rw [cstrcasecmp, cstrcasecmp, hab, ih htail word]

theorem isKeyword_alike (h : Alike upper v w) (table : KeywordTable) (n : ℕ) :
    isKeyword table v n = isKeyword table w n := by
  have horder : ∀ keywords : List Keyword,
      comesBefore keywords v n = comesBefore keywords w n := by
    intro keywords
    funext pos
    unfold comesBefore
    simp only [fun keyword : Keyword => cstrcasecmp_alike h keyword.word n]
  unfold isKeyword bsearchKeywordType
  rw [horder]
  simp only [fun keyword : Keyword => cstrcasecmp_alike h keyword.word n]

theorem findPair_alike {c0 c1 : UInt8} (h0 : isSymbol c0 = true) (h1 : isSymbol c1 = true)
    (h : Alike upper v w) : findPair c0 c1 v = findPair c0 c1 w := by
  induction v generalizing w with
  | nil => rw [List.map_eq_nil_iff.mp h.symm]
  | cons a v ih =>
    cases w with
    | nil => cases h
    | cons b w =>
      obtain ⟨hab, htail⟩ := List.cons.inj h
      cases v with
      | nil =>
        rw [List.map_eq_nil_iff.mp htail.symm]
        rfl
      | cons a' v =>
        cases w with
        | nil => cases htail
        | cons b' w =>
          obtain ⟨hab', -⟩ := List.cons.inj htail
          rw [findPair, findPair, ih htail]
          simp only [symbol_iff h0 hab, symbol_iff h1 hab']

end Words

/-- The text `s'` is `s` behind `d` other characters, up to the case of letters. -/
structure Respelled (d : ℕ) (s s' : Bytes) : Prop where
  length : s'.length = d + s.length
  letters : Alike upper s (s'.drop d)
  escaped : ∀ i : ℕ, s[i]? = some typeBackslash → s'[d + (i + 1)]? = s[i + 1]?
  quoted : ∀ (i : ℕ) (ch : UInt8), s[i]? = some ch → upper ch = 0x51 →
    s[i + 1]? = some charSingle → s'.drop (d + i) = s.drop i
  undollared : dollar ∉ s

section Texts
variable {d : ℕ} {s s' : Bytes} {i j n : ℕ}

theorem Respelled.window (h : Respelled d s s') (hj : j = d + i) :
    Alike upper (s.drop i) (s'.drop j) := by
  rw [hj, ← List.drop_drop]
  exact h.letters.drop i

theorem respelled_of_plain (h : s.map upper = s'.map upper) (hslash : typeBackslash ∉ s)
    (hquote : charSingle ∉ s) (hdollar : dollar ∉ s) : Respelled 0 s s' where
  length := by
    rw [Nat.zero_add]
    exact (Alike.length h).symm
  letters := h
  escaped := fun _ hch => absurd (List.mem_of_getElem? hch) hslash
  quoted := fun _ _ _ _ hch => absurd (List.mem_of_getElem? hch) hquote
  undollared := hdollar

theorem respelled_behind {lead : Bytes} (hdollar : dollar ∉ s) :
    Respelled lead.length s (lead ++ s) where
  length := List.length_append
  letters := by
    rw [List.drop_left]
    rfl
  escaped := fun i _ => by
    rw [List.getElem?_append_right (Nat.le_add_right _ _), Nat.add_sub_cancel_left]
  quoted := fun i _ _ _ _ => by
    rw [← List.drop_drop, List.drop_left]
  undollared := hdollar

theorem Respelled.readAt (h : Respelled d s s') (hj : j = d + i) :
    Related (fun a b => upper a = upper b) (readAt s i) (readAt s' j) := by
  intro a b ha hb
  have hb' := eq_of_readAt hb
  rw [hj, ← List.getElem?_drop] at hb'
  exact h.letters.getElem (eq_of_readAt ha) hb'

theorem Respelled.readSymbol (h : Respelled d s s') (hj : j = d + i) {ch : UInt8}
    (hch : s[i]? = some ch) (hsymbol : isSymbol ch = true) :
    Related (fun a b => a = ch ∧ b = ch) (CheckedMemory.readAt s i)
      (CheckedMemory.readAt s' j) := by
  intro a b ha hb
  have hread := eq_of_readAt ha
  rw [hch] at hread
  cases hread
  exact ⟨rfl, eq_symbol hsymbol (h.readAt hj ch b ha hb).symm⟩

theorem Respelled.memchr (h : Respelled d s s') (hj : j = d + i) {ch : UInt8}
    (hch : isSymbol ch = true) :
    Related (fun r r' => r' = r.map (d + ·)) (memchr s i n ch) (memchr s' j n ch) := by
  refine (related_slice (h.window hj)).bind fun v w hvw => related_pure ?_
  rw [← hvw.findIdx (respects_symbol hch), Option.map_map]
  congr 1
  funext k
  change j + k = d + (i + k)
  omega

theorem memchr2_related {f : UInt8 → UInt8} (hj : j = d + i) {c0 c1 : UInt8}
    (h : Alike f (s.drop i) (s'.drop j))
    (hsame : ∀ v w, Alike f v w → findPair c0 c1 v = findPair c0 c1 w) :
    Related (fun r r' => r' = r.map (d + ·)) (memchr2 s i n c0 c1) (memchr2 s' j n c0 c1) := by
  refine (related_slice h).bind fun v w hvw => related_pure ?_
  rw [← hsame v w hvw, Option.map_map]
  congr 1
  funext k
  change j + k = d + (i + k)
  omega

theorem Respelled.memchr2 (h : Respelled d s s') (hj : j = d + i) {c0 c1 : UInt8}
    (h0 : isSymbol c0 = true) (h1 : isSymbol c1 = true) :
    Related (fun r r' => r' = r.map (d + ·)) (memchr2 s i n c0 c1) (memchr2 s' j n c0 c1) :=
  memchr2_related hj (h.window hj) fun _ _ hvw => findPair_alike h0 h1 hvw

theorem Respelled.strlenspn (h : Respelled d s s') (hj : j = d + i) {accept : Bytes}
    (haccept : Respects upper (strchr accept)) :
    Related Eq (strlenspn s i n accept) (strlenspn s' j n accept) :=
  (related_slice (h.window hj)).bind fun _ _ hvw => related_pure (hvw.takeWhile haccept).length

theorem Respelled.strlencspn (h : Respelled d s s') (hj : j = d + i) {accept : Bytes}
    (haccept : Respects upper (strchr accept)) :
    Related Eq (strlencspn s i n accept) (strlencspn s' j n accept) :=
  (related_slice (h.window hj)).bind fun _ _ hvw =>
    related_pure (hvw.takeWhile (respects_not haccept)).length

end Texts

/-- Two inputs of the tokenizer that differ in their spelling, and perhaps in the quote that they
are read behind. -/
structure AlikeInputs (d : ℕ) (inp inp' : Input) : Prop extends Respelled d inp.s inp'.s where
  keywords : inp'.keywords = inp.keywords
  ansi : inp'.has flagSqlAnsi = inp.has flagSqlAnsi
  mysql : inp'.has flagSqlMysql = inp.has flagSqlMysql

section Lookahead
variable {d : ℕ} {inp inp' : Input} {i j : ℕ}

theorem related_andThen {c c' : Prop} [Decidable c] [Decidable c'] (hc : c ↔ c')
    {x y : Checked Bool} (h : Related Eq x y) : Related Eq (andThen c x) (andThen c' y) :=
  related_ite hc (fun _ _ => h) fun _ _ => related_pure rfl

theorem AlikeInputs.passes (h : AlikeInputs d inp inp') (hj : j = d + i)
    {tests : List (UInt8 → Bool)} (htests : ∀ test ∈ tests, Respects upper test) :
    Related Eq (passes inp i tests) (passes inp' j tests) := by
  induction tests generalizing i j with
  | nil => exact related_pure rfl
  | cons test tests ih =>
    rw [LibinjectionParsers.passes, LibinjectionParsers.passes]
    refine (h.readAt hj).bind fun a b hab => ?_
    have htest := htests test (.head _) a b hab
    refine related_ite (by rw [htest]) (fun _ _ => ?_) fun _ _ => related_pure rfl
    exact ih (by omega) fun test hmem => htests test (.tail _ hmem)

theorem AlikeInputs.skipDigits (h : AlikeInputs d inp inp') (hj : j = d + i) :
    skipDigits inp' j = d + skipDigits inp i := by
  have hlength := ((h.window hj).takeWhile respects_digit).length
  unfold LibinjectionParsers.skipDigits
  omega

end Lookahead
end WafWasm.Respelling
