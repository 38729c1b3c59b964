import WafWasm.FoldCounts
import WafWasm.FoldShapes

set_option autoImplicit false

namespace WafWasm.Fingerprints
open CheckedMemory Common LibinjectionTokens LibinjectionKeywords LibinjectionParsers
open LibinjectionFold LibinjectionVerdict TokenSpans FoldSteps FoldRuns FoldCounts FoldShapes

section Patterns

/-- The patterns of inputs that can be parsed. -/
structure NormalForm (pattern : Bytes) : Prop where
  length_le : pattern.length ≤ 5
  typed : charNull ∉ pattern
  comment : typeComment ∉ pattern.dropLast
  neighbours : pattern.IsChain GoodPair

def spelt (pattern : Bytes) : Bytes := pattern ++ List.replicate (8 - pattern.length) 0

variable {pattern : Bytes}

theorem spelt_length (h : pattern.length ≤ 8) : (spelt pattern).length = 8 := by
  rw [spelt, List.length_append, List.length_replicate]
  omega

theorem cString_spelt (h : pattern.length < 8) (hnull : charNull ∉ pattern) :
    cString (spelt pattern) = .ok pattern := by
  have hzero : (0 : UInt8) ∈ spelt pattern := by
    rw [spelt, List.mem_append, List.mem_replicate]
    exact .inr ⟨by omega, rfl⟩
  have htext : (spelt pattern).takeWhile (· != 0) = pattern := by
    rw [spelt, List.takeWhile_append_of_pos, List.takeWhile_replicate]
    · exact List.append_nil _
    · intro ch hch
      refine bne_iff_ne.mpr fun hzero => hnull ?_
      rw [hzero] at hch
      exact hch
  rw [cString, if_pos hzero, htext]

end Patterns

section Types
variable {tokenvec : List Token} {n : ℕ}

def types (tokenvec : List Token) (n : ℕ) : Bytes := (tokenvec.take n).map Token.type

theorem types_length (h : n ≤ tokenvec.length) : (types tokenvec n).length = n := by
  rw [types, List.length_map, List.length_take]
  omega

theorem types_getElem {i : ℕ} (hi : i < (types tokenvec n).length) :
    (types tokenvec n)[i] = typeAt tokenvec i := by
  have hlt : i < n ∧ i < tokenvec.length := by
    rw [types, List.length_map, List.length_take] at hi
    omega
  have hget : (types tokenvec n)[i]? = some (typeAt tokenvec i) := by
    rw [types, List.getElem?_map, List.getElem?_take_of_lt hlt.1, typeAt,
      List.getElem?_eq_getElem hlt.2]
    rfl
  rw [List.getElem?_eq_getElem hi] at hget
  exact Option.some.inj hget

theorem mem_types {ch : UInt8} (h : n ≤ tokenvec.length) :
    ch ∈ types tokenvec n ↔ ∃ i < n, typeAt tokenvec i = ch := by
  rw [List.mem_iff_getElem]
  constructor
  · rintro ⟨i, hi, hch⟩
    rw [types_getElem hi] at hch
    rw [types_length h] at hi
    exact ⟨i, hi, hch⟩
  · rintro ⟨i, hi, hch⟩
    have hlt : i < (types tokenvec n).length := by
      rw [types_length h]
      exact hi
    exact ⟨i, hlt, (types_getElem hlt).trans hch⟩

/-- What the fold returns is in normal form, unless it has the mark. -/
theorem normalForm_types {sf : Sfilter} (h : Folded (sf, n))
    (hevil : typeEvil ∉ types sf.tokenvec n) : NormalForm (types sf.tokenvec n) := by
  have hslots : sf.tokenvec.length = 8 := h.slots
  have hle : n ≤ 6 := by
    rcases h.shape with hgood | hmarked
    · exact hgood.1.trans (by decide)
    · exact hmarked.1
  have hgood : n ≤ 5 ∧ ∀ i, i + 1 < n → typeAt sf.tokenvec i ≠ typeComment ∧
      GoodPair (typeAt sf.tokenvec i) (typeAt sf.tokenvec (i + 1)) :=
    h.shape.resolve_right fun ⟨_, i, hi, htype⟩ =>
      hevil ((mem_types (by omega)).mpr ⟨i, hi, htype⟩)
  have hlength : (types sf.tokenvec n).length = n := types_length (by omega)
  refine ⟨by rw [hlength]; exact hgood.1, ?_, ?_, ?_⟩
  · intro hnull
    obtain ⟨i, hi, htype⟩ := (mem_types (by omega)).mp hnull
    exact h.typed i hi htype
  · intro hcomment
    rw [List.dropLast_eq_take, hlength, types, ← List.map_take, List.take_take] at hcomment
    obtain ⟨i, hi, htype⟩ := (mem_types (by omega)).mp hcomment
    exact (hgood.2 i (by omega)).1 htype
  · refine List.isChain_iff_getElem.mpr fun i hi => ?_
    rw [types_getElem, types_getElem]
    exact (hgood.2 i (by omega)).2

end Types

section Backquotes
variable {sf : Sfilter} {n : ℕ}

/-- A backquote comment that PHP code leaves open. -/
inductive PhpCommented (tokenvec : List Token) (tlen : ℕ) : List Token → Prop where
  | same : PhpCommented tokenvec tlen tokenvec
  | comment (t : Token) (hlen : 2 < tlen) (ht : tokenvec[tlen - 1]? = some t)
      (hword : t.type = typeBareword) :
      PhpCommented tokenvec tlen (tokenvec.set (tlen - 1) { t with type := typeComment })

theorem phpComment_holds {tokenvec : List Token} (hn : n ≤ tokenvec.length) :
    Holds (phpComment tokenvec n) (PhpCommented tokenvec n) := by
  rw [phpComment]
  refine holds_ite (fun hlen => ?_) fun _ => holds_pure .same
  have hi : n - 1 < tokenvec.length := by omega
  refine (holds_readAt hi).bind fun t ht => ?_
  refine holds_ite (fun hquote => ?_) fun _ => holds_pure .same
  have hword : t.type = typeBareword := by
    rw [isBackquoteComment] at hquote
    simp only [Bool.and_eq_true, beq_iff_eq] at hquote
    exact hquote.1.1.1
  exact holds_of_eq (writeAt_ok hi _) (.comment t hlen ht hword)

theorem typeAt_set {tokenvec : List Token} {i k : ℕ} (hk : k < tokenvec.length) (t : Token) :
    typeAt (tokenvec.set k t) i = if k = i then t.type else typeAt tokenvec i := by
  unfold typeAt
  rw [List.getElem?_set]
  split_ifs
  · rfl
  · rfl

theorem folded_phpComment {tokenvec : List Token} (h : Folded (sf, n))
    (hphp : PhpCommented sf.tokenvec n tokenvec) :
    Folded ({ sf with tokenvec := tokenvec }, n) := by
  have hslots : sf.tokenvec.length = 8 := h.slots
  cases hphp with
  | same => exact h
  | comment t hlen ht hword =>
    have hi : n - 1 < sf.tokenvec.length := (List.getElem?_eq_some_iff.mp ht).1
    have hlast : typeAt sf.tokenvec (n - 1) = typeBareword := by
      rw [typeAt, ht]
      exact hword
    have hset := fun i => @typeAt_set sf.tokenvec i (n - 1) hi { t with type := typeComment }
    have hkept : ∀ i, i + 1 < n →
        typeAt (sf.tokenvec.set (n - 1) { t with type := typeComment }) i =
          typeAt sf.tokenvec i := by
      intro i hin
      rw [hset, if_neg (by omega)]
    refine ⟨by rw [← hslots]; exact List.length_set, held_set h.held _
      ((h.held t (List.mem_of_getElem? ht)).retype _), fun i hin => ?_, ?_⟩
    · change typeAt (sf.tokenvec.set (n - 1) _) i ≠ charNull
      rw [hset]
      split_ifs
      · change typeComment ≠ charNull
        decide
      · exact h.typed i hin
    · rcases h.shape with ⟨hle, hgood⟩ | ⟨hle, i, hin, htype⟩
      · refine .inl ⟨hle, fun i hin => ?_⟩
        change typeAt (sf.tokenvec.set (n - 1) _) i ≠ typeComment ∧
          GoodPair (typeAt (sf.tokenvec.set (n - 1) _) i)
            (typeAt (sf.tokenvec.set (n - 1) _) (i + 1))
        rw [hkept i hin, hset (i + 1)]
        refine ⟨(hgood i hin).1, ?_⟩
        split_ifs
        · exact goodPair_of_second (by change typeComment ∉ _; decide)
        · exact (hgood i hin).2
      · refine .inr ⟨hle, i, hin, ?_⟩
        change typeAt (sf.tokenvec.set (n - 1) _) i = typeEvil
        change typeAt sf.tokenvec i = typeEvil at htype
        rw [hset, if_neg, htype]
        intro heq
        rw [← heq, hlast] at htype
        exact absurd htype (by decide)

end Backquotes

section Copies
variable {tokenvec : List Token} {tlen : ℕ}

theorem copyTypes_eq (htokens : tokenvec.length = 8) (htlen : tlen ≤ 8) {n : ℕ} (hn : n ≤ tlen)
    {fingerprint : Bytes} (hlength : fingerprint.length = 8) :
    copyTypes tokenvec tlen n fingerprint =
      .ok (fingerprint.take (tlen - n) ++ ((tokenvec.take tlen).drop (tlen - n)).map Token.type ++
        fingerprint.drop tlen) := by
  induction n generalizing fingerprint with
  | zero =>
    rw [Nat.sub_zero, List.drop_eq_nil_of_le (by rw [List.length_take]; omega), List.map_nil,
      List.append_nil, List.take_append_drop]
    rfl
  | succ n ih =>
    have hi : tlen - (n + 1) < tokenvec.length := by omega
    have hnext : tlen - (n + 1) + 1 = tlen - n := by omega
    have hget : (tokenvec.take tlen)[tlen - (n + 1)]? = some tokenvec[tlen - (n + 1)] := by
      rw [List.getElem?_take_of_lt (by omega), List.getElem?_eq_getElem hi]
    obtain ⟨hin, hgetElem⟩ := List.getElem?_eq_some_iff.mp hget
    rw [copyTypes, readAt_ok hi, bind_ok, writeAt_ok (by omega), bind_ok,
      ih (by omega) (by rw [List.length_set]; exact hlength), List.drop_set_of_lt (by omega),
      ← hnext, List.take_add_one, List.take_set_of_le (Nat.le_refl _),
      List.getElem?_set_self (by omega), List.drop_eq_getElem_cons hin, hgetElem, List.map_cons]
    simp only [Option.toList_some, List.append_assoc, List.singleton_append]

theorem copied_eq (htokens : tokenvec.length = 8) (htlen : tlen < 8) :
    copyTypes tokenvec tlen tlen (List.replicate 8 0) = .ok (spelt (types tokenvec tlen)) := by
  rw [copyTypes_eq htokens (by omega) (Nat.le_refl _) List.length_replicate, Nat.sub_self,
    List.take_zero, List.nil_append, List.drop_zero, List.drop_replicate, spelt,
    types_length (by omega)]
  rfl

theorem terminated_eq {pattern : Bytes} (h : pattern.length < 8) :
    writeAt (spelt pattern) pattern.length charNull = .ok (spelt pattern) := by
  rw [writeAt_ok (by rw [spelt_length (by omega)]; exact h), spelt,
    List.set_append_right _ _ (Nat.le_refl _)]
  change Except.ok (pattern ++ (List.replicate _ 0).set _ 0) = _
  rw [List.set_replicate_self]

end Copies

section Runs
variable {s : Bytes} {table : KeywordTable} {flags : ℕ}

/-- What the fingerprint tells about the tokens. -/
structure Fingerprinted (inp : Input) (st : SqliState) (pattern : Bytes) : Prop where
  fingerprint : st.fingerprint = spelt pattern
  shape : NormalForm pattern ∨ pattern = [typeEvil]
  types : types st.sf.tokenvec pattern.length = pattern
  slots : 1 < pattern.length → st.sf.tokenvec.length = 8 ∧ ∀ t ∈ st.sf.tokenvec, Held t
  raw : pattern.length = 2 → st.sf.scan.statsTokens ≤ 2 →
    Trail inp inp.s.length (st.sf.tokenvec.take 2)

theorem skips_reset (inp : Input) : Skips inp 0 resetState := by
  refine ⟨rfl, fun t ht => ?_, Nat.zero_le _, Nat.zero_le _, [], .start Token.clear⟩
  rw [List.eq_of_mem_replicate ht]
  exact held_clear

theorem foldReset_holds (inp : Input) : Holds (libinjectionSqliFold inp resetState)
    (fun r => Folded r ∧ AsRead inp r) :=
  (fold_holds shaped_rule (skips_reset inp) (fun _ h => atHead_started h)
    fun _ h => folded_empty h).and
  (fold_holds counted_rule (skips_reset inp) (fun _ h => counted_started h)
    fun _ h => asRead_empty h)

theorem evilState_holds {inp : Input} {sf : Sfilter} (hslots : sf.tokenvec.length = 8)
    (hheld : ∀ t ∈ sf.tokenvec, Held t) {pattern : Bytes} (h : pattern.length ≤ 6) :
    Holds (evilState sf (spelt pattern))
      (fun st => Fingerprinted inp st [typeEvil] ∧ st.sf.scan = sf.scan) := by
  have hlength := @spelt_length pattern (by omega)
  have hdrop : (spelt pattern).drop 6 = [0, 0] := by
    rw [spelt, List.drop_append, List.drop_eq_nil_of_le h, List.nil_append, List.drop_replicate,
      show 8 - pattern.length - (6 - pattern.length) = 2 by omega]
    rfl
  have hcleared : copyTo (spelt pattern) 0 (List.replicate (maxTokens + 1) 0) =
      .ok (List.replicate 8 0) := by
    rw [copyTo_ok (by rw [hlength]; decide)]
    change Except.ok ([] ++ List.replicate 6 0 ++ (spelt pattern).drop 6) = _
    rw [hdrop]
    rfl
  obtain ⟨scan, tokenvec, folds⟩ := sf
  obtain ⟨first, rest, rfl⟩ := List.exists_cons_of_length_pos
    (show 0 < tokenvec.length by change tokenvec.length = 8 at hslots; omega)
  obtain ⟨second, others, rfl⟩ := List.exists_cons_of_length_pos
    (show 0 < rest.length by change rest.length + 1 = 8 at hslots; omega)
  have hval := (hheld first (.head _)).val_length
  have hcopied := @copyTo_ok _ first.val (List.replicate tokenSize 0) 0
    (by rw [hval, List.length_replicate, Nat.zero_add])
  have hmark := @writeAt_ok _ (first.val.take 0 ++ List.replicate tokenSize 0 ++
      first.val.drop (0 + (List.replicate tokenSize (0 : UInt8)).length)) 0
    (by
      rw [List.length_append, List.length_append, List.length_replicate]
      exact Nat.lt_add_right _ (Nat.lt_add_left _ (show 0 < tokenSize by decide))) typeEvil
  rw [evilState, hcleared, bind_ok, writeAt_ok (by decide), bind_ok]
  change Holds (copyTo first.val 0 (List.replicate tokenSize 0) >>= _) _
  rw [hcopied, bind_ok, hmark, bind_ok]
  refine holds_pure ⟨⟨rfl, .inr rfl, rfl, fun hlt => absurd hlt (by decide),
    fun htwo => absurd htwo (by decide)⟩, rfl⟩

/-- What `libinjection_sqli_fingerprint` does after the fold. -/
def spell (r : Sfilter × ℕ) : Checked SqliState := do
  let tokenvec ← phpComment r.1.tokenvec r.2
  let sf := { r.1 with tokenvec := tokenvec }
  let fingerprint ← copyTypes tokenvec r.2 r.2 (List.replicate 8 0)
  let fingerprint ← writeAt fingerprint r.2 charNull
  let pattern ← cString fingerprint
  if typeEvil ∈ pattern then evilState sf fingerprint else return ⟨sf, fingerprint⟩

theorem fingerprint_eq : libinjectionSqliFingerprint s table flags =
    libinjectionSqliFold (resetInput s table flags) resetState >>= spell := rfl

theorem spell_holds {inp : Input} {r : Sfilter × ℕ} (hfolded : Folded r) (hasRead : AsRead inp r) :
    Holds (spell r) (fun st => st.sf.scan = r.1.scan ∧ ∃ pattern, Fingerprinted inp st pattern ∧
      (r.2 ≤ 2 → typeEvil ∉ types r.1.tokenvec r.2 → pattern = types r.1.tokenvec r.2)) := by
  obtain ⟨sf, tlen⟩ := r
  have hslots : sf.tokenvec.length = 8 := hfolded.slots
  have htlen : tlen ≤ 6 := by
    rcases hfolded.shape with hgood | hmarked
    · exact hgood.1.trans (by decide)
    · exact hmarked.1
  rw [spell]
  refine (phpComment_holds (show tlen ≤ sf.tokenvec.length by omega)).bind fun tokenvec hphp => ?_
  have hmarked := folded_phpComment hfolded hphp
  have htokens : tokenvec.length = 8 := hmarked.slots
  have hlength : (types tokenvec tlen).length = tlen := types_length (by omega)
  have hend := @terminated_eq (types tokenvec tlen) (by omega)
  rw [hlength] at hend
  change Holds (copyTypes tokenvec tlen tlen _ >>= _) _
  rw [copied_eq htokens (by omega), bind_ok]
  change Holds (writeAt _ tlen charNull >>= _) _
  rw [hend, bind_ok]
  have hnull : charNull ∉ types tokenvec tlen := by
    intro hmem
    obtain ⟨i, hi, htype⟩ := (mem_types (by omega)).mp hmem
    exact hmarked.typed i hi htype
  rw [cString_spelt (by omega) hnull, bind_ok]
  have hshort : tlen ≤ 2 → tokenvec = sf.tokenvec := by
    intro hle
    cases hphp with
    | same => rfl
    | comment t hlen ht hword => omega
  refine holds_ite (fun hevil => ?_) fun hevil => ?_
  · refine (@evilState_holds inp { sf with tokenvec := tokenvec } htokens hmarked.held _
      (by omega)).imp fun st hst => ⟨hst.2, [typeEvil], hst.1, fun hle hnone => ?_⟩
    rw [hshort hle] at hevil
    exact absurd hevil hnone
  · refine holds_pure ⟨rfl, types tokenvec tlen, ⟨rfl, .inl (normalForm_types hmarked hevil), ?_,
      fun _ => ⟨htokens, hmarked.held⟩, fun htwo hle => ?_⟩, fun hle _ => ?_⟩
    · rw [hlength]
    · rw [hlength] at htwo
      subst htwo
      change Trail inp _ (tokenvec.take 2)
      rw [hshort (Nat.le_refl 2)]
      exact hasRead.pieces hle
    · rw [hshort hle]

theorem fingerprint_holds : Holds (libinjectionSqliFingerprint s table flags)
    (fun st => ∃ pattern, Fingerprinted (resetInput s table flags) st pattern) := by
  rw [fingerprint_eq]
  refine (foldReset_holds (resetInput s table flags)).bind fun r hr => ?_
  exact (spell_holds hr.1 hr.2).imp fun _ ⟨_, pattern, hpattern, _⟩ => ⟨pattern, hpattern⟩

/-- Every input has a fingerprint: the mark of what cannot be parsed, or at most five types of
tokens in normal form, which are those of the first slots. -/
theorem fingerprint_normal (s : Bytes) (table : KeywordTable) (flags : ℕ) :
    ∃ st pattern, libinjectionSqliFingerprint s table flags = .ok st ∧
      st.fingerprint = spelt pattern ∧ types st.sf.tokenvec pattern.length = pattern ∧
      (NormalForm pattern ∨ pattern = [typeEvil]) := by
  obtain ⟨st, hst, pattern, hpattern⟩ := @fingerprint_holds s table flags
  exact ⟨st, pattern, hst, hpattern.fingerprint, hpattern.types, hpattern.shape⟩

end Runs
end WafWasm.Fingerprints
