import WafWasm.LibinjectionKeywords

set_option autoImplicit false

namespace WafWasm.KeywordLookup
open CheckedMemory Bisection Common LibinjectionTokens LibinjectionKeywords

section Characters

theorem keywordChar_signed {ch : UInt8} (h : keywordChar ch = true) :
    signed ch = ch.toNat ∧ 0 < signed ch := by
  simp only [keywordChar, Bool.and_eq_true, decide_eq_true_eq, UInt8.le_iff_toNat_le] at h
  have hlow : 32 ≤ ch.toNat := h.1.1
  have hhigh : ch.toNat ≤ 126 := h.1.2
  unfold signed
  rw [if_pos (by omega)]
  omega

theorem signed_injective {a b : UInt8} (h : signed a = signed b) : a = b := by
  have ha := a.toNat_lt
  have hb := b.toNat_lt
  unfold signed at h
  apply UInt8.toNat_inj.mp
  split_ifs at h <;> omega

theorem signed_eq_zero {ch : UInt8} : signed ch = 0 ↔ ch = 0 := by
  constructor
  · intro h
    exact signed_injective h
  · intro h
    rw [h]
    rfl

end Characters

section Order

/-- `cstrcasecmp` finds the word before the key, which is in upper case. -/
def Below : Bytes → Bytes → Prop
  | _, [] => False
  | [], cb :: _ => cb = 0 ∨ 0 < signed cb
  | ca :: a, cb :: b => if ca = cb then Below a b else signed ca < signed cb

abbrev Spelled (word : Bytes) : Prop := ∀ ch ∈ word, keywordChar ch = true

theorem cstrcasecmp_holds (word key : Bytes) (n : ℕ) (hword : Spelled word)
    (hn : n ≤ key.length) :
    Holds (cstrcasecmp word key n) (fun order =>
      (order < 0 ↔ Below word ((key.take n).map upper)) ∧
        (order = 0 ↔ word = (key.take n).map upper)) := by
  induction n generalizing word key with
  | zero =>
    rw [cstrcasecmp]
    refine holds_ok ?_
    cases word <;> simp [Below]
  | succ n ih =>
    cases key with
    | nil => exact absurd hn (Nat.not_succ_le_zero n)
    | cons cb b =>
      rw [List.take_succ_cons, List.map_cons]
      cases word with
      | nil =>
        rw [cstrcasecmp]
        refine holds_ok ?_
        have hzero := @signed_eq_zero (upper cb)
        rw [Below]
        split_ifs with hcb
        · simp [hcb]
        · refine ⟨?_, ?_⟩
          · simp [hcb]
          · have hne : signed (upper cb) ≠ 0 := fun h => hcb (hzero.mp h)
            simp [hne]
      | cons ca a =>
        rw [cstrcasecmp, Below]
        by_cases hc : ca = upper cb
        · rw [if_neg (not_not_intro hc), if_pos hc]
          have ha : Spelled a := fun ch hch => hword ch (.tail _ hch)
          refine (ih a b ha (Nat.le_of_succ_le_succ hn)).imp fun order horder => ⟨horder.1, ?_⟩
          rw [horder.2, hc, List.cons.injEq]
          simp
        · rw [if_pos hc, if_neg hc]
          refine holds_ok ⟨by omega, ?_⟩
          have hsigned : signed ca ≠ signed (upper cb) := fun h => hc (signed_injective h)
          simp only [List.cons.injEq, hc, false_and, iff_false]
          omega

theorem not_below_self (word : Bytes) : ¬Below word word := by
  induction word with
  | nil => exact id
  | cons ca a ih =>
    rw [Below, if_pos rfl]
    exact ih

theorem below_of_lt {w₁ w₂ key : Bytes} (h₁ : Spelled w₁) (h₂ : Spelled w₂) (hlt : w₁ < w₂)
    (h : Below w₂ key) : Below w₁ key := by
  induction key generalizing w₁ w₂ with
  | nil =>
    rw [Below] at h
    exact h.elim
  | cons cb b ih =>
    cases w₂ with
    | nil => exact absurd hlt (List.not_lt_nil w₁)
    | cons c₂ t₂ =>
      have hc₂ := keywordChar_signed (h₂ c₂ (.head _))
      rw [Below] at h
      cases w₁ with
      | nil =>
        refine .inr ?_
        split_ifs at h with hcb
        · rw [← hcb]
          exact hc₂.2
        · omega
      | cons c₁ t₁ =>
        have hc₁ := keywordChar_signed (h₁ c₁ (.head _))
        rw [Below]
        rcases List.cons_lt_cons_iff.mp hlt with hchar | ⟨heq, htail⟩
        · rw [UInt8.lt_iff_toNat_lt] at hchar
          have hsigned : signed c₁ < signed cb := by
            split_ifs at h with hcb
            · rw [← hcb]
              omega
            · omega
          have hne : c₁ ≠ cb := fun heq => by
            rw [heq] at hsigned
            omega
          rw [if_neg hne]
          exact hsigned
        · rw [heq]
          split_ifs at h ⊢ with hcb
          · exact ih (fun ch hch => h₁ ch (.tail _ hch)) (fun ch hch => h₂ ch (.tail _ hch)) htail h
          · exact h

theorem below_of_lt_self {word key : Bytes} (hword : Spelled word) (hkey : Spelled key)
    (hlt : word < key) : Below word key := by
  induction key generalizing word with
  | nil => exact absurd hlt (List.not_lt_nil word)
  | cons cb b ih =>
    have hcb := keywordChar_signed (hkey cb (.head _))
    cases word with
    | nil => exact .inr hcb.2
    | cons ca a =>
      have hca := keywordChar_signed (hword ca (.head _))
      rw [Below]
      rcases List.cons_lt_cons_iff.mp hlt with hchar | ⟨heq, htail⟩
      · rw [UInt8.lt_iff_toNat_lt] at hchar
        rw [if_neg (fun heq => by rw [heq] at hchar; omega)]
        omega
      · rw [if_pos heq]
        exact ih (fun ch hch => hword ch (.tail _ hch)) (fun ch hch => hkey ch (.tail _ hch)) htail

end Order

section Search
variable (table : KeywordTable)

/-- The type that the table gives to a word in upper case, or `charNull`. -/
def typeOf (word : Bytes) : UInt8 :=
  match table.entries.find? (·.word == word) with
  | some entry => entry.type
  | none => charNull

theorem entry_spelled {entry : Keyword} (h : entry ∈ table.entries) : Spelled entry.word :=
  (table.spelled entry h).2

theorem entries_ascend {i j : ℕ} (hij : i < j) (hi : i < table.entries.length)
    (hj : j < table.entries.length) : table.entries[i].word < table.entries[j].word :=
  List.pairwise_iff_getElem.mp table.ascending i j hi hj hij

def RowBelow (key : Bytes) (i : ℕ) : Prop :=
  ∃ h : i < table.entries.length, Below table.entries[i].word key

theorem rowBelow_closed (key : Bytes) (i j : ℕ) (hij : i ≤ j)
    (h : RowBelow table key j) : RowBelow table key i := by
  obtain ⟨hj, hbelow⟩ := h
  rcases Nat.lt_or_eq_of_le hij with hlt | rfl
  · exact ⟨by omega, below_of_lt (entry_spelled table (List.getElem_mem _))
      (entry_spelled table (List.getElem_mem _)) (entries_ascend table hlt (by omega) hj) hbelow⟩
  · exact ⟨hj, hbelow⟩

theorem comesBefore_holds {key : Bytes} {len i : ℕ} (hlen : len ≤ key.length)
    (hi : i < table.entries.length) :
    Holds (comesBefore table.entries key len i)
      (fun b => b = true ↔ RowBelow table ((key.take len).map upper) i) := by
  rw [comesBefore, readAt_ok hi, bind_ok]
  refine (cstrcasecmp_holds _ key len (entry_spelled table (List.getElem_mem hi)) hlen).bind ?_
  intro order horder
  refine holds_pure ?_
  rw [decide_eq_true_eq, horder.1]
  exact ⟨fun h => ⟨hi, h⟩, fun h => h.2⟩

theorem typeOf_entry {i : ℕ} (hi : i < table.entries.length) :
    typeOf table table.entries[i].word = table.entries[i].type := by
  have hfind : table.entries.find? (·.word == table.entries[i].word) = some table.entries[i] := by
    rw [List.find?_eq_some_iff_getElem]
    refine ⟨beq_self_eq_true _, i, hi, rfl, ?_⟩
    intro j hj
    have hne := entries_ascend table hj (by omega) hi
    simp only [Bool.not_eq_true', beq_eq_false_iff_ne]
    intro heq
    rw [heq] at hne
    exact absurd hne (List.lt_irrefl _)
  rw [typeOf, hfind]

theorem typeOf_absent {word : Bytes} (h : ∀ entry ∈ table.entries, entry.word ≠ word) :
    typeOf table word = charNull := by
  have hfind : table.entries.find? (·.word == word) = none := by
    rw [List.find?_eq_none]
    intro entry hentry
    simpa using h entry hentry
  rw [typeOf, hfind]

/-- Where the search ends, the row is the key or no row is. -/
theorem boundary_absent {key : Bytes} {l : ℕ} {r : ℕ × ℕ}
    (hb : Boundary (RowBelow table key) (table.entries.length - 1) r) (hl : r.1 = l)
    (hlt : l < table.entries.length) (hne : table.entries[l].word ≠ key) :
    ∀ entry ∈ table.entries, entry.word ≠ key := by
  subst hl
  intro entry hentry heq
  obtain ⟨i, hi, rfl⟩ := List.getElem_of_mem hentry
  rcases Nat.lt_trichotomy i r.1 with hlow | hsame | hhigh
  · obtain ⟨_, hbelow⟩ := hb.before i hlow
    rw [heq] at hbelow
    exact not_below_self key hbelow
  · subst hsame
    exact hne heq
  · rcases hb.after with hlast | hnot
    · omega
    · refine hnot ⟨hlt, ?_⟩
      rw [← heq]
      exact below_of_lt_self (entry_spelled table (List.getElem_mem _))
        (entry_spelled table (List.getElem_mem _)) (entries_ascend table hhigh hlt hi)

theorem isKeyword_eq {key : Bytes} {len : ℕ} (hlen : len ≤ key.length) :
    isKeyword table key len = .ok (typeOf table ((key.take len).map upper)) := by
  have hsize := table.nonempty
  have hsearch := @holds_bisect (RowBelow table ((key.take len).map upper))
    (table.entries.length - 1) (comesBefore table.entries key len)
    (fun i j hij _ => rowBelow_closed table _ i j hij)
    (fun i hi => comesBefore_holds table hlen (by omega)) table.entries.length (by omega)
  obtain ⟨⟨l, r⟩, hrun, hb⟩ := hsearch
  have hmeet : l = r := hb.meet
  have hl : l < table.entries.length := by
    have := hb.within
    change l ≤ _ at this
    omega
  rw [isKeyword, bsearchKeywordType, minus_ok (by omega), bind_ok, hrun, bind_ok]
  change (if l = r then _ else _) = _
  rw [if_pos hmeet, readAt_ok hl, bind_ok]
  obtain ⟨order, horder, -, heq⟩ :=
    cstrcasecmp_holds table.entries[l].word key len (entry_spelled table (List.getElem_mem hl)) hlen
  rw [horder, bind_ok]
  by_cases hword : table.entries[l].word = (key.take len).map upper
  · rw [if_pos (heq.mpr hword), ← hword, typeOf_entry table hl]
    rfl
  · rw [if_neg (fun h => hword (heq.mp h)),
      typeOf_absent table (boundary_absent table hb rfl hl hword)]
    rfl

/-- The search finds what a look at every row would find, whatever the case of the letters. -/
theorem isKeyword_ok_iff {key : Bytes} {len : ℕ} (hlen : len ≤ key.length) (type : UInt8) :
    isKeyword table key len = .ok type ↔
      (∃ entry ∈ table.entries, entry.word = (key.take len).map upper ∧ entry.type = type) ∨
      (∀ entry ∈ table.entries, entry.word ≠ (key.take len).map upper) ∧ type = charNull := by
  rw [isKeyword_eq table hlen, Except.ok.injEq]
  by_cases hrow : ∃ entry ∈ table.entries, entry.word = (key.take len).map upper
  · obtain ⟨entry, hentry, hword⟩ := hrow
    obtain ⟨i, hi, rfl⟩ := List.getElem_of_mem hentry
    rw [← hword, typeOf_entry table hi]
    constructor
    · intro htype
      exact .inl ⟨_, hentry, rfl, htype⟩
    · rintro (⟨other, hother, hsame, htype⟩ | ⟨hnone, -⟩)
      · obtain ⟨j, hj, rfl⟩ := List.getElem_of_mem hother
        rw [← htype, ← typeOf_entry table hi, ← typeOf_entry table hj, hsame]
      · exact absurd rfl (hnone _ hentry)
  · have hnone : ∀ entry ∈ table.entries, entry.word ≠ (key.take len).map upper :=
      fun entry hentry hword => hrow ⟨entry, hentry, hword⟩
    rw [typeOf_absent table hnone]
    constructor
    · intro htype
      exact .inr ⟨hnone, htype.symm⟩
    · rintro (⟨entry, hentry, hword, -⟩ | ⟨-, htype⟩)
      · exact absurd hword (hnone entry hentry)
      · exact htype.symm

theorem isKeyword_or : isKeyword sampleTable (bytes "Or 1=1") 2 = .ok typeLogicOperator :=
  (isKeyword_ok_iff sampleTable (by decide) typeLogicOperator).mpr
    (.inl ⟨⟨bytes "OR", typeLogicOperator⟩, by decide, by decide, rfl⟩)

end Search
end WafWasm.KeywordLookup
