import WafWasm.LibinjectionVerdict
import WafWasm.TokenRuns

set_option autoImplicit false

namespace WafWasm.FoldSteps
open CheckedMemory Common LibinjectionTokens LibinjectionKeywords LibinjectionParsers
open LibinjectionFold KeywordLookup InputSearches TokenSpans TokenRuns

section Held

/-- The array of the token holds its text, and ends. -/
def Held (t : Token) : Prop :=
  t.len < tokenSize ∧ ∃ text, text.length = t.len ∧ t.val = padded text

variable {t : Token}

theorem held_clear : Held Token.clear := ⟨by decide, [], rfl, rfl⟩

theorem Held.retype (h : Held t) (stype : UInt8) : Held { t with type := stype } := h

theorem Held.val_length (h : Held t) : t.val.length = tokenSize := by
  obtain ⟨hlt, text, hlen, hval⟩ := h
  rw [hval, padded_length (by omega)]

theorem Held.len_le (h : Held t) : t.len ≤ t.val.length := by
  rw [h.val_length]
  exact Nat.le_of_lt h.1

theorem Held.ends (h : Held t) : (0 : UInt8) ∈ t.val := by
  obtain ⟨hlt, text, hlen, hval⟩ := h
  rw [hval, padded, List.mem_append, List.mem_replicate]
  exact .inr ⟨by omega, rfl⟩

theorem held_of_isToken {inp : Input} {lo hi : ℕ} (h : IsToken inp lo hi t) : Held t := by
  refine ⟨h.len_lt, (inp.s.drop t.pos).take t.len, ?_, h.val⟩
  have hstop := h.stop
  have hwithin := h.within
  rw [List.length_take, List.length_drop]
  omega

end Held

section Conditions
variable {t : Token}

theorem is_holds (h : Held t) {word : Bytes} (hword : Spelled word) :
    Holds (t.is word) (fun b => b = true ↔ word = (t.val.take t.len).map upper) := by
  rw [Token.is]
  refine (cstrcasecmp_holds word t.val t.len hword h.len_le).bind fun order horder => ?_
  refine holds_pure ?_
  rw [beq_iff_eq]
  exact horder.2

theorem isAny_holds (h : Held t) {words : List Bytes} (hwords : ∀ word ∈ words, Spelled word) :
    Holds (Token.isAny t words)
      (fun b => b = true → ∃ word ∈ words, word = (t.val.take t.len).map upper) := by
  induction words with
  | nil => exact holds_pure fun hfalse => absurd hfalse Bool.false_ne_true
  | cons word words ih =>
    rw [Token.isAny]
    refine (is_holds h (hwords word (.head _))).bind fun b hb => holds_ite ?_ ?_
    · intro htrue
      exact holds_pure fun _ => ⟨word, .head _, hb.mp htrue⟩
    · intro _
      refine (ih fun other hother => hwords other (.tail _ hother)).imp fun b hb htrue => ?_
      obtain ⟨other, hmem, heq⟩ := hb htrue
      exact ⟨other, .tail _ hmem, heq⟩

theorem stIsUnaryOp_holds (h : Held t) :
    Holds (stIsUnaryOp t) (fun b => b = true → t.type = typeOperator) := by
  have hlen := h.val_length
  rw [stIsUnaryOp]
  refine holds_ite (fun _ => holds_pure fun hfalse => absurd hfalse Bool.false_ne_true) ?_
  intro hnot
  have htype : t.type = typeOperator := not_not.mp hnot
  have hspelled : Spelled (bytes "NOT") := List.all_eq_true.mp (by decide)
  split
  · exact (holds_readAt (by rw [hlen]; decide)).bind fun _ _ => holds_pure fun _ => htype
  · refine (holds_readAt (by rw [hlen]; decide)).bind fun _ _ => ?_
    exact (holds_readAt (by rw [hlen]; decide)).bind fun _ _ => holds_pure fun _ => htype
  · exact (is_holds h hspelled).imp fun _ _ _ => htype
  · exact holds_pure fun _ => htype

theorem stIsArithmeticOp_holds (h : Held t) : Holds (stIsArithmeticOp t) (fun _ => True) := by
  rw [stIsArithmeticOp]
  exact (holds_readAt (by rw [h.val_length]; decide)).bind fun _ _ => holds_pure trivial

theorem cString_holds {val : Bytes} (h : (0 : UInt8) ∈ val) :
    Holds (cString val) (fun text => text = val.takeWhile (· != 0)) := by
  rw [cString, if_pos h]
  exact holds_ok rfl

def HasUnderscore (t : Token) : Prop := underscore ∈ t.val.takeWhile (· != 0)

instance (t : Token) : Decidable (HasUnderscore t) :=
  inferInstanceAs (Decidable (underscore ∈ t.val.takeWhile (· != 0)))

theorem not_hasUnderscore (h : Held t) (hword : underscore ∉ (t.val.take t.len).map upper) :
    ¬HasUnderscore t := by
  intro hmem
  obtain ⟨-, text, hlen, hval⟩ := h
  have hin : underscore ∈ t.val := (List.takeWhile_prefix _).mem hmem
  apply hword
  rw [hval, ← hlen, padded_take]
  rw [hval, padded, List.mem_append] at hin
  rcases hin with htext | hzeros
  · exact List.mem_map.mpr ⟨underscore, htext, by decide⟩
  · exact absurd (List.eq_of_mem_replicate hzeros) (by decide)

end Conditions

section Merging
variable {inp : Input}

theorem copyTo_padded {n : ℕ} {text : Bytes} (zeros : ℕ) (h : n + text.length ≤ n + zeros)
    (front : Bytes) (hn : front.length = n) :
    copyTo (front ++ List.replicate zeros 0) n text =
      .ok (front ++ text ++ List.replicate (zeros - text.length) 0) := by
  subst hn
  rw [copyTo_ok (by rw [List.length_append, List.length_replicate]; exact h), List.take_left,
    List.drop_append, List.drop_eq_nil_of_le (by omega), List.nil_append, List.drop_replicate,
    Nat.add_sub_cancel_left]

theorem syntaxMergeWords_holds {a b : Token} (ha : Held a) (hb : Held b) :
    Holds (syntaxMergeWords inp a b) (fun r => ∀ merged, r = some merged →
      Held merged ∧ merged.type ∈ keywordTypes) := by
  obtain ⟨halt, atext, halen, haval⟩ := id ha
  obtain ⟨hblt, btext, hblen, hbval⟩ := id hb
  rw [syntaxMergeWords]
  refine holds_ite (fun _ => holds_pure fun _ hnone => absurd hnone (by simp)) fun _ => ?_
  refine holds_ite (fun _ => holds_pure fun _ hnone => absurd hnone (by simp)) fun hroom => ?_
  have hsize : a.len + b.len + 1 < tokenSize := Nat.lt_of_not_le hroom
  rw [slice_ok (by rw [ha.val_length]; omega), bind_ok, List.drop_zero, haval, ← halen, padded_take]
  have hfirst := @copyTo_padded 0 atext tokenSize (by omega) [] rfl
  rw [List.nil_append, List.nil_append] at hfirst
  rw [hfirst, bind_ok]
  obtain ⟨zeros, hzeros⟩ : ∃ zeros, tokenSize - atext.length = zeros + 1 :=
    ⟨tokenSize - atext.length - 1, by omega⟩
  have hspace : writeAt (atext ++ List.replicate (tokenSize - atext.length) 0) atext.length space =
      .ok (atext ++ [space] ++ List.replicate zeros 0) := by
    rw [writeAt_ok (by rw [List.length_append, List.length_replicate]; omega),
      List.set_append_right _ _ (Nat.le_refl _), Nat.sub_self, hzeros, List.replicate_succ,
      List.set_cons_zero, List.append_assoc, List.singleton_append]
  rw [hspace, bind_ok, slice_ok (by rw [hb.val_length]; omega), bind_ok, List.drop_zero, hbval,
    ← hblen, padded_take]
  rw [copyTo_padded zeros (by omega) (atext ++ [space])
    (by rw [List.length_append, List.length_singleton]), bind_ok]
  have htext : (atext ++ [space] ++ btext).length = atext.length + btext.length + 1 := by
    simp only [List.length_append, List.length_singleton]
    omega
  have hpad : atext ++ [space] ++ btext ++ List.replicate (zeros - btext.length) 0 =
      padded (atext ++ [space] ++ btext) := by
    rw [padded, htext]
    congr 2
    omega
  have hend : writeAt (padded (atext ++ [space] ++ btext)) (atext.length + btext.length + 1)
      charNull = .ok (padded (atext ++ [space] ++ btext)) := by
    rw [writeAt_ok (by rw [padded_length (by omega)]; omega), ← htext, padded_set (by omega)]
  rw [hpad, hend, bind_ok, isKeyword_eq _ (by rw [padded_length (by omega)]; omega), bind_ok]
  refine holds_ite ?_ fun _ => holds_pure fun _ hnone => absurd hnone (by simp)
  intro hch
  have hstored : stored (atext.length + btext.length + 1) = atext.length + btext.length + 1 :=
    stored_eq (by omega)
  rw [stAssign_eq haval (by omega) (by rw [padded_length (by omega)]; omega), bind_ok]
  refine holds_pure fun merged hmerged => ?_
  cases hmerged
  refine ⟨⟨(stored_bounds _).2, _, ?_, rfl⟩, (typeOf_cases inp.keywords _).resolve_left hch⟩
  rw [List.drop_zero, List.length_take, padded_length (by omega)]
  exact Nat.min_eq_left (Nat.le_of_lt (stored_bounds _).2)

end Merging

section States

def placed (f : Folding) (i : ℕ) (t : Token) : Folding :=
  { f with sf := { f.sf with tokenvec := f.sf.tokenvec.set i t } }

def dropped (f : Folding) (n folds left : ℕ) : Folding :=
  { f with sf := { f.sf with statsFolds := f.sf.statsFolds + folds },
           pos := f.pos - n, left := left }

theorem put_eq {f : Folding} {i : ℕ} (h : i < f.sf.tokenvec.length) (t : Token) :
    f.put i t = .ok (placed f i t) := by
  rw [Folding.put, writeAt_ok h]
  rfl

theorem drop_eq {f : Folding} {n : ℕ} (h : n ≤ f.pos) (folds left : ℕ) :
    f.drop n folds left = .ok (dropped f n folds left) := by
  rw [Folding.drop, minus_ok h]
  rfl

structure Folds (inp : Input) (f : Folding) : Prop where
  slots : f.sf.tokenvec.length = 8
  held : ∀ t ∈ f.sf.tokenvec, Held t
  comment : Held f.lastComment
  scanned : f.sf.scan.pos ≤ inp.s.length
  left_le : f.left ≤ f.pos
  pos_le : f.pos ≤ 6

variable {inp : Input} {f : Folding}

theorem held_set {tokenvec : List Token} (h : ∀ t ∈ tokenvec, Held t) (i : ℕ) {t : Token}
    (ht : Held t) : ∀ u ∈ tokenvec.set i t, Held u := by
  intro u hu
  rcases List.mem_or_eq_of_mem_set hu with hmem | rfl
  · exact h u hmem
  · exact ht

theorem Folds.placed (h : Folds inp f) (i : ℕ) {t : Token} (ht : Held t) :
    Folds inp (placed f i t) :=
  ⟨by rw [← h.slots]; exact List.length_set, held_set h.held i ht, h.comment, h.scanned,
    h.left_le, h.pos_le⟩

theorem Folds.dropped (h : Folds inp f) {n left : ℕ} (folds : ℕ) (hleft : left ≤ f.pos - n) :
    Folds inp (dropped f n folds left) :=
  ⟨h.slots, h.held, h.comment, h.scanned, hleft, (Nat.sub_le _ _).trans h.pos_le⟩

theorem Folds.moved (h : Folds inp f) {left : ℕ} (hleft : left ≤ f.pos) :
    Folds inp { f with left := left } :=
  ⟨h.slots, h.held, h.comment, h.scanned, hleft, h.pos_le⟩

theorem Folds.slot (h : Folds inp f) {i : ℕ} (hi : i < 8) :
    ∃ t, readAt f.sf.tokenvec i = .ok t ∧ f.sf.tokenvec[i]? = some t ∧ Held t := by
  have hlt : i < f.sf.tokenvec.length := by
    rw [h.slots]
    exact hi
  exact ⟨f.sf.tokenvec[i], readAt_ok hlt, List.getElem?_eq_getElem hlt,
    h.held _ (List.getElem_mem hlt)⟩

end States

section Pairs
variable {inp : Input}

/-- What the conditions on two tokens tell beyond their values. -/
structure FactsOk (a b : Token) (facts : PairFacts) : Prop where
  unary : facts.unary = true → b.type = typeOperator
  merged : ∀ m, facts.merged = some m → Held m ∧ m.type ∈ keywordTypes
  isIn : facts.isIn = true → ¬HasUnderscore a
  hasUnderscore : facts.underscore = true → HasUnderscore b

theorem functionNames_spelled : ∀ word ∈ functionNames, Spelled word := by decide +kernel

theorem inWords_spelled : ∀ word ∈ [bytes "IN", bytes "NOT IN"], Spelled word := by decide +kernel

theorem likeWords_spelled : ∀ word ∈ [bytes "LIKE", bytes "NOT LIKE"], Spelled word := by
  decide +kernel

theorem inWords_plain : ∀ word ∈ [bytes "IN", bytes "NOT IN"], underscore ∉ word := by
  decide +kernel

theorem pairFacts_holds {a b : Token} (ha : Held a) (hb : Held b) :
    Holds (pairFacts inp a b) (FactsOk a b) := by
  have hblen := hb.val_length
  rw [pairFacts]
  refine (stIsUnaryOp_holds hb).bind fun unary hunary => ?_
  refine (syntaxMergeWords_holds ha hb).bind fun merged hmerged => ?_
  refine (holds_readAt (by rw [hblen]; decide)).bind fun c0 _ => ?_
  refine (holds_readAt (by rw [hblen]; decide)).bind fun c1 _ => ?_
  refine (isAny_holds ha functionNames_spelled).bind fun functionName _ => ?_
  refine (isAny_holds ha inWords_spelled).bind fun isIn hisIn => ?_
  refine (isAny_holds ha likeWords_spelled).bind fun isLike _ => ?_
  refine (cString_holds hb.ends).bind fun text htext => ?_
  refine (stIsArithmeticOp_holds hb).bind fun arithmetic _ => ?_
  refine holds_pure ⟨hunary, hmerged, fun htrue => ?_, fun htrue => ?_⟩
  · obtain ⟨word, hmem, hword⟩ := hisIn htrue
    apply not_hasUnderscore ha
    rw [← hword]
    exact inWords_plain word hmem
  · subst htext
    exact List.contains_iff_mem.mp htrue

/-- No two strings, semicolons or parentheses of one kind side by side, and no closing brace behind
anything but an operator. Other pairs may stay that a fold takes apart elsewhere. -/
structure GoodPair (a b : UInt8) : Prop where
  strings : ¬(a = typeString ∧ b = typeString)
  semicolons : ¬(a = typeSemicolon ∧ b = typeSemicolon)
  opened : ¬(a = typeLeftparens ∧ b = typeLeftparens)
  closed : ¬(a = typeRightparens ∧ b = typeRightparens)
  brace : b = typeRightbrace → a = typeOperator

/-- Why a fold of two tokens is taken. -/
def PairReason (left : ℕ) (a b : Token) : PairFold → Prop
  | .dropSecond l => l ≤ left
  | .merge m l => l = left - 1 ∧ Held m ∧ m.type ∈ keywordTypes
  | .retypeSecond stype => stype = typeTsql ∧ b.type = typeFunction
  | .retypeFirst stype l =>
    (l = left ∧ stype = typeFunction ∧ (a.type = typeBareword ∨ a.type = typeVariable)) ∨
    (l = left ∧ (stype = typeOperator ∨ stype = typeBareword) ∧ a.type = typeKeyword ∧
      ¬HasUnderscore a) ∨
    (l = 0 ∧ stype = typeNumber ∧ a.type = typeBackslash)
  | .likeFunction => a.type = typeOperator ∧ b.type = typeLeftparens
  | .collation => a.type = typeCollate ∧ b.type = typeBareword ∧ HasUnderscore b
  | .keep => GoodPair a.type b.type
  | .replaceFirst | .evil | .dropBoth => True

theorem goodPair_of_first {a b : UInt8}
    (h : a ∉ [typeString, typeSemicolon, typeLeftparens, typeRightparens])
    (hbrace : b = typeRightbrace → a = typeOperator) : GoodPair a b := by
  simp only [List.mem_cons, List.not_mem_nil, not_or] at h
  exact ⟨fun hp => h.1 hp.1, fun hp => h.2.1 hp.1, fun hp => h.2.2.1 hp.1,
    fun hp => h.2.2.2.1 hp.1, hbrace⟩

theorem goodPair_of_second {a b : UInt8}
    (h : b ∉ [typeString, typeSemicolon, typeLeftparens, typeRightparens, typeRightbrace]) :
    GoodPair a b := by
  simp only [List.mem_cons, List.not_mem_nil, not_or] at h
  exact ⟨fun hp => h.1 hp.2, fun hp => h.2.1 hp.2, fun hp => h.2.2.1 hp.2,
    fun hp => h.2.2.2.1 hp.2, fun hb => absurd hb h.2.2.2.2.1⟩

theorem pairFold_reason (left : ℕ) {a b : Token} {facts : PairFacts} (h : FactsOk a b facts) :
    PairReason left a b (pairFold left a b facts) := by
  unfold pairFold
  refine iteInduction (fun _ => Nat.le_refl left) fun h1 => ?_
  refine iteInduction (fun _ => Nat.le_refl left) fun h2 => ?_
  refine iteInduction (fun _ => Nat.zero_le left) fun _ => ?_
  refine iteInduction (fun _ => Nat.sub_le left 1) fun _ => ?_
  cases hm : facts.merged with
  | some m => exact ⟨rfl, h.merged m hm⟩
  | none =>
    refine iteInduction (fun hc => ⟨rfl, hc.2.1⟩) fun _ => ?_
    refine iteInduction (fun hc => .inl ⟨rfl, rfl, hc.1⟩) fun _ => ?_
    refine iteInduction (fun hc => .inr (.inl ⟨rfl, ?_, hc.1, h.isIn hc.2⟩)) fun _ => ?_
    · split_ifs
      · exact .inl rfl
      · exact .inr rfl
    refine iteInduction (fun hc => iteInduction (fun hb => ⟨hc.1, hb⟩) fun _ => ?_) fun _ => ?_
    · exact goodPair_of_first (by rw [hc.1]; decide) fun _ => hc.1
    refine iteInduction (fun _ => trivial) fun _ => ?_
    refine iteInduction (fun hc => iteInduction (fun hu => ⟨hc.1, hc.2, h.hasUnderscore hu⟩)
      fun _ => ?_) fun _ => ?_
    · exact goodPair_of_second (by rw [hc.2]; decide)
    refine iteInduction (fun hc => iteInduction (fun _ => .inr (.inr ⟨rfl, rfl, hc⟩))
      fun _ => trivial) fun _ => ?_
    refine iteInduction (fun _ => Nat.zero_le left) fun h12 => ?_
    refine iteInduction (fun _ => Nat.zero_le left) fun h13 => ?_
    refine iteInduction (fun _ => iteInduction (fun _ => trivial) fun _ => trivial) fun _ => ?_
    refine iteInduction (fun _ => Nat.zero_le left) fun h15 => ?_
    exact ⟨h1, h2, h12, h13, fun hb => absurd hb h15⟩

def pairStep (f : Folding) (a b : Token) : PairFold → Step
  | .dropSecond left => .next (dropped f 1 1 left)
  | .merge merged left => .next (dropped (placed f f.left merged) 1 1 left)
  | .replaceFirst => .next (dropped (placed f f.left b) 1 1 0)
  | .retypeSecond stype => .next (placed f (f.left + 1) { b with type := stype })
  | .retypeFirst stype left =>
    .next { placed f f.left { a with type := stype } with left := left }
  | .evil => .stop (placed f (f.left + 1) { b with type := typeEvil }).sf (f.left + 2)
  | .dropBoth => .next (dropped f 2 2 0)
  | .likeFunction => .fall (placed f f.left { a with type := typeFunction })
  | .collation => .fall { placed f (f.left + 1) { b with type := typeSqltype } with left := 0 }
  | .keep => .fall f

variable {f : Folding}

theorem foldTwo_eq (h : Folds inp f) (hgap : f.left + 2 ≤ f.pos) :
    ∃ a b fold, f.sf.tokenvec[f.left]? = some a ∧ f.sf.tokenvec[f.left + 1]? = some b ∧
      Held a ∧ Held b ∧ PairReason f.left a b fold ∧
        foldTwo inp f = .ok (pairStep f a b fold) := by
  have hpos := h.pos_le
  obtain ⟨a, hreada, ha, haheld⟩ := h.slot (show f.left < 8 by omega)
  obtain ⟨b, hreadb, hb, hbheld⟩ := h.slot (show f.left + 1 < 8 by omega)
  obtain ⟨facts, hfacts, hok⟩ := @pairFacts_holds inp a b haheld hbheld
  refine ⟨a, b, pairFold f.left a b facts, ha, hb, haheld, hbheld, pairFold_reason f.left hok, ?_⟩
  have hput : ∀ i t, i < 8 → f.put i t = .ok (placed f i t) := fun i t hi =>
    put_eq (by rw [h.slots]; exact hi) t
  rw [foldTwo, hreada, bind_ok, hreadb, bind_ok, hfacts, bind_ok]
  cases pairFold f.left a b facts with
  | dropSecond left =>
    change (f.drop 1 1 left >>= _) = _
    rw [drop_eq (by omega)]
    rfl
  | merge merged left =>
    change (f.put f.left merged >>= _) = _
    rw [hput _ _ (by omega), bind_ok, drop_eq (by change 1 ≤ f.pos; omega)]
    rfl
  | replaceFirst =>
    change (f.put f.left b >>= _) = _
    rw [hput _ _ (by omega), bind_ok, drop_eq (by change 1 ≤ f.pos; omega)]
    rfl
  | retypeSecond stype =>
    change (f.put (f.left + 1) _ >>= _) = _
    rw [hput _ _ (by omega)]
    rfl
  | retypeFirst stype left =>
    change (f.put f.left _ >>= _) = _
    rw [hput _ _ (by omega)]
    rfl
  | evil =>
    change (f.put (f.left + 1) _ >>= _) = _
    rw [hput _ _ (by omega)]
    rfl
  | dropBoth =>
    change (f.drop 2 2 0 >>= _) = _
    rw [drop_eq (by omega)]
    rfl
  | likeFunction =>
    change (f.put f.left _ >>= _) = _
    rw [hput _ _ (by omega)]
    rfl
  | collation =>
    change (f.put (f.left + 1) _ >>= _) = _
    rw [hput _ _ (by omega)]
    rfl
  | keep => rfl

end Pairs

section Triples
variable {inp : Input} {f : Folding}

def TripleReason (a b : Token) : TripleFold → Prop
  | .userWord => a.type = typeFunction ∧ b.type = typeLeftparens ∧ ¬HasUnderscore a
  | _ => True

theorem tripleFold_reason {a b c : Token} {unary cast user : Bool}
    (huser : user = true → ¬HasUnderscore a) :
    TripleReason a b (tripleFold a.type b.type c.type unary cast user) := by
  unfold tripleFold
  iterate 13 refine iteInduction (fun _ => trivial) fun _ => ?_
  refine iteInduction (fun hc => ?_) fun _ => trivial
  exact iteInduction (fun hu => ⟨hc.1, hc.2.1, huser hu⟩) fun _ => trivial

def tripleStep (f : Folding) (a c : Token) : TripleFold → Step
  | .dropTwo folds => .next (dropped f 2 folds 0)
  | .dropDot => .next (dropped f 2 0 0)
  | .dropSecond => .next (dropped (placed f (f.left + 1) c) 1 0 0)
  | .dropSign => .next (dropped (placed f (f.left + 1) c) 3 0 0)
  | .userWord => .fall (placed f f.left { a with type := typeBareword })
  | .keep => .fall f

theorem foldThree_eq (h : Folds inp f) (hgap : f.left + 3 ≤ f.pos) :
    ∃ a b c fold, f.sf.tokenvec[f.left]? = some a ∧ f.sf.tokenvec[f.left + 1]? = some b ∧
      f.sf.tokenvec[f.left + 2]? = some c ∧ Held a ∧ Held c ∧ TripleReason a b fold ∧
        foldThree f = .ok (tripleStep f a c fold) := by
  have hpos := h.pos_le
  obtain ⟨a, hreada, ha, haheld⟩ := h.slot (show f.left < 8 by omega)
  obtain ⟨b, hreadb, hb, hbheld⟩ := h.slot (show f.left + 1 < 8 by omega)
  obtain ⟨c, hreadc, hc, hcheld⟩ := h.slot (show f.left + 2 < 8 by omega)
  obtain ⟨unary, hunary, -⟩ := stIsUnaryOp_holds hbheld
  obtain ⟨text, htext, -⟩ := cString_holds hbheld.ends
  have hspelled : Spelled (bytes "USER") := List.all_eq_true.mp (by decide)
  obtain ⟨user, huser, hword⟩ := is_holds haheld hspelled
  have hplain : user = true → ¬HasUnderscore a := by
    intro htrue
    apply not_hasUnderscore haheld
    rw [← hword.mp htrue]
    decide
  refine ⟨a, b, c, tripleFold a.type b.type c.type unary (text == bytes "::") user, ha, hb, hc,
    haheld, hcheld, tripleFold_reason hplain, ?_⟩
  have hput : ∀ i t, i < 8 → f.put i t = .ok (placed f i t) := fun i t hi =>
    put_eq (by rw [h.slots]; exact hi) t
  rw [foldThree, hreada, bind_ok, hreadb, bind_ok, hreadc, bind_ok, hunary, bind_ok, htext,
    bind_ok, huser, bind_ok]
  cases tripleFold a.type b.type c.type unary (text == bytes "::") user with
  | dropTwo folds =>
    change (f.drop 2 folds 0 >>= _) = _
    rw [drop_eq (by omega)]
    rfl
  | dropDot =>
    change (require (3 ≤ f.pos) >>= _) = _
    rw [require_ok (by omega), bind_ok, drop_eq (by omega)]
    rfl
  | dropSecond =>
    change (f.put (f.left + 1) c >>= _) = _
    rw [hput _ _ (by omega), bind_ok, drop_eq (by change 1 ≤ f.pos; omega)]
    rfl
  | dropSign =>
    change (f.put (f.left + 1) c >>= _) = _
    rw [hput _ _ (by omega), bind_ok, require_ok (show 3 ≤ (placed f (f.left + 1) c).pos by
      change 3 ≤ f.pos; omega), bind_ok,
      drop_eq (by change 3 ≤ f.pos; omega)]
    rfl
  | userWord =>
    change (f.put f.left _ >>= _) = _
    rw [hput _ _ (by omega)]
    rfl
  | keep => rfl

end Triples
end WafWasm.FoldSteps
