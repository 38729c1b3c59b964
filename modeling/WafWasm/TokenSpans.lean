import WafWasm.InputSearches

set_option autoImplicit false

namespace WafWasm.TokenSpans
open CheckedMemory Common LibinjectionTokens LibinjectionKeywords LibinjectionParsers KeywordLookup
open InputSearches

section Tokens

/-- The text begins like one of the comments of the tokenizer. -/
def OpensComment (text : Bytes) : Prop :=
  [hash] <+: text ∨ [dash, dash] <+: text ∨ [slash, star] <+: text

structure IsToken (inp : Input) (lo hi : ℕ) (t : Token) : Prop where
  typed : t.type ≠ charNull
  start : lo ≤ t.pos
  stop : t.pos + t.len ≤ hi
  within : hi ≤ inp.s.length
  len_lt : t.len < tokenSize
  val : t.val = padded ((inp.s.drop t.pos).take t.len)
  comment : t.type = typeComment → OpensComment (inp.s.drop t.pos)

/-- How often the text has been seen that MySQL reads in another way. -/
def marks (sf : Scan) : ℕ := sf.statsCommentDdx + sf.statsCommentHash

/-- What a parser does to the counters. -/
def Kept (sf sf' : Scan) : Prop := sf'.statsTokens = sf.statsTokens ∧ marks sf ≤ marks sf'

/-- The token that a parser leaves, with the position it returns. -/
structure Scanned (inp : Input) (sf : Scan) (r : ℕ × Scan) : Prop where
  advances : sf.pos < r.1
  token : IsToken inp sf.pos r.1 r.2.current
  kept : Kept sf r.2

theorem Kept.tokens {sf sf' : Scan} (h : Kept sf sf') : sf'.statsTokens = sf.statsTokens := h.1

theorem Kept.marks_le {sf sf' : Scan} (h : Kept sf sf') : marks sf ≤ marks sf' := h.2

theorem Kept.refl (sf : Scan) : Kept sf sf := ⟨rfl, Nat.le_refl _⟩

theorem Kept.trans {sf sf' sf'' : Scan} (h : Kept sf sf') (h' : Kept sf' sf'') : Kept sf sf'' :=
  ⟨h'.tokens.trans h.tokens, h.marks_le.trans h'.marks_le⟩

theorem Kept.hash (sf : Scan) (n : ℕ) :
    Kept sf { sf with statsCommentHash := sf.statsCommentHash + n } :=
  ⟨rfl, Nat.add_le_add_left (Nat.le_add_right _ n) _⟩

theorem Kept.dash (sf : Scan) (n : ℕ) :
    Kept sf { sf with statsCommentDdx := sf.statsCommentDdx + n } :=
  ⟨rfl, Nat.add_le_add_right (Nat.le_add_right _ n) _⟩

variable {inp : Input} {lo hi : ℕ} {t : Token}

theorem IsToken.mono (h : IsToken inp lo hi t) {lo' hi' : ℕ} (hlo : lo' ≤ lo) (hhi : hi ≤ hi')
    (hin : hi' ≤ inp.s.length) : IsToken inp lo' hi' t :=
  ⟨h.typed, hlo.trans h.start, h.stop.trans hhi, hin, h.len_lt, h.val, h.comment⟩

theorem IsToken.retype (h : IsToken inp lo hi t) {stype : UInt8} (htype : stype ≠ charNull)
    (hcomment : stype ≠ typeComment) : IsToken inp lo hi { t with type := stype } :=
  ⟨htype, h.start, h.stop, h.within, h.len_lt, h.val, fun heq => absurd heq hcomment⟩

theorem IsToken.withQuotes (h : IsToken inp lo hi t) (o c : UInt8) :
    IsToken inp lo hi { t with strOpen := o, strClose := c } :=
  ⟨h.typed, h.start, h.stop, h.within, h.len_lt, h.val, h.comment⟩

end Tokens

section Assignments
variable {inp : Input} {sf : Scan} {lo hi pos len : ℕ} {stype : UInt8}

theorem assign_holds (hval : sf.current.val = padded []) (htype : stype ≠ charNull)
    (hlo : lo ≤ pos) (hhi : pos + len ≤ hi) (hin : hi ≤ inp.s.length)
    (hcomment : stype = typeComment → OpensComment (inp.s.drop pos)) :
    Holds (sf.assign inp stype pos len)
      (fun sf' => IsToken inp lo hi sf'.current ∧ Kept sf sf') := by
  have hbounds := stored_bounds len
  rw [Scan.assign, stAssign_eq hval (Nat.zero_le _) (by omega), bind_ok]
  refine holds_pure ⟨⟨htype, hlo, ?_, hin, hbounds.2, rfl, hcomment⟩, ⟨rfl, Nat.le_refl _⟩⟩
  change pos + stored len ≤ hi
  omega

theorem assignChar_holds {value : UInt8} (hval : sf.current.val = padded [])
    (htype : stype ≠ charNull) (hlo : lo ≤ pos) (hhi : pos + 1 ≤ hi) (hin : hi ≤ inp.s.length)
    (hcomment : stype ≠ typeComment) (hch : inp.s[pos]? = some value) :
    Holds (sf.assignChar stype pos value)
      (fun sf' => IsToken inp lo hi sf'.current ∧ Kept sf sf') := by
  obtain ⟨hlt, hget⟩ := List.getElem?_eq_some_iff.mp hch
  have htext : (inp.s.drop pos).take 1 = [value] := by
    rw [List.drop_eq_getElem_cons hlt, hget, List.take_succ_cons, List.take_zero]
  rw [Scan.assignChar, stAssignChar_eq hval, bind_ok]
  refine holds_pure ⟨⟨htype, hlo, hhi, hin, Nat.one_lt_two.trans (by decide), ?_,
    fun h => absurd h hcomment⟩, ⟨rfl, Nat.le_refl _⟩⟩
  change padded [value] = padded ((inp.s.drop pos).take 1)
  rw [htext]

end Assignments

section Lookups
variable (table : KeywordTable)

theorem typeOf_cases (word : Bytes) :
    typeOf table word = charNull ∨ typeOf table word ∈ keywordTypes := by
  unfold typeOf
  cases hfind : table.entries.find? (·.word == word) with
  | none => exact .inl rfl
  | some entry => exact .inr (table.typed entry (List.mem_of_find?_eq_some hfind))

theorem typeOf_nil : typeOf table [] = charNull :=
  typeOf_absent table fun entry hentry => (table.spelled entry hentry).1

theorem keywordType_plain {ch : UInt8} (h : ch ∈ keywordTypes) :
    ch ≠ charNull ∧ ch ≠ typeComment := by
  revert ch
  decide +kernel

end Lookups

section Symbols
variable {inp : Input} {sf : Scan}

theorem parseOperator1_scanned (hval : sf.current.val = padded []) (hpos : sf.pos < inp.s.length) :
    Holds (parseOperator1 inp sf) (Scanned inp sf) := by
  rw [parseOperator1]
  refine (holds_readAt hpos).bind fun ch hch => ?_
  refine (assignChar_holds hval (by decide) (Nat.le_refl _) (Nat.le_refl _) hpos (by decide)
    hch).bind fun sf' h => ?_
  exact holds_pure ⟨Nat.lt_succ_self _, h.1, h.2⟩

theorem parseOther_scanned (hval : sf.current.val = padded []) (hpos : sf.pos < inp.s.length) :
    Holds (parseOther inp sf) (Scanned inp sf) := by
  rw [parseOther]
  refine (holds_readAt hpos).bind fun ch hch => ?_
  refine (assignChar_holds hval (by decide) (Nat.le_refl _) (Nat.le_refl _) hpos (by decide)
    hch).bind fun sf' h => ?_
  exact holds_pure ⟨Nat.lt_succ_self _, h.1, h.2⟩

theorem parseChar_scanned (hval : sf.current.val = padded []) {ch : UInt8}
    (hch : inp.s[sf.pos]? = some ch) (hnull : ch ≠ charNull) (hcomment : ch ≠ typeComment) :
    Holds (parseChar inp sf) (Scanned inp sf) := by
  obtain ⟨hpos, hget⟩ := List.getElem?_eq_some_iff.mp hch
  rw [parseChar, readAt_ok hpos, hget, bind_ok]
  refine (assignChar_holds hval hnull (Nat.le_refl _) (Nat.le_refl _) hpos hcomment
    hch).bind fun sf' h => ?_
  exact holds_pure ⟨Nat.lt_succ_self _, h.1, h.2⟩

theorem parseEolComment_scanned (hval : sf.current.val = padded [])
    (hpos : sf.pos < inp.s.length) (hopen : OpensComment (inp.s.drop sf.pos)) :
    Holds (parseEolComment inp sf) (Scanned inp sf) := by
  rw [parseEolComment, minus_ok (by omega), bind_ok]
  refine (memchr_holds (by omega) newline).bind fun r hr => ?_
  cases r with
  | none =>
    refine (assign_holds hval (by decide) (Nat.le_refl _) (by omega) (Nat.le_refl _)
      fun _ => hopen).bind fun sf' h => ?_
    exact holds_pure ⟨hpos, h.1, h.2⟩
  | some endpos =>
    obtain ⟨hlo, hhi, -⟩ := hr endpos rfl
    change Holds (minus endpos sf.pos >>= _) _
    rw [minus_ok hlo, bind_ok]
    have hstop : sf.pos + (endpos - sf.pos) ≤ endpos + 1 := by omega
    refine (assign_holds hval (by decide) (Nat.le_refl _) hstop (by omega)
      fun _ => hopen).bind fun sf' h => ?_
    exact holds_pure ⟨Nat.lt_succ_of_le hlo, h.1, h.2⟩

theorem prefix_of_getElem {s : Bytes} {i : ℕ} {a : UInt8} (h : s[i]? = some a) :
    [a] <+: s.drop i := by
  obtain ⟨hlt, hget⟩ := List.getElem?_eq_some_iff.mp h
  rw [List.drop_eq_getElem_cons hlt, hget]
  exact ⟨_, rfl⟩

theorem prefix_of_getElem_pair {s : Bytes} {i : ℕ} {a b : UInt8} (ha : s[i]? = some a)
    (hb : s[i + 1]? = some b) : [a, b] <+: s.drop i := by
  obtain ⟨hlt, hget⟩ := List.getElem?_eq_some_iff.mp ha
  rw [List.drop_eq_getElem_cons hlt, hget]
  obtain ⟨rest, hrest⟩ := prefix_of_getElem hb
  exact ⟨rest, by rw [← hrest]; rfl⟩

theorem parseHash_scanned (hval : sf.current.val = padded [])
    (hch : inp.s[sf.pos]? = some hash) : Holds (parseHash inp sf) (Scanned inp sf) := by
  obtain ⟨hpos, -⟩ := List.getElem?_eq_some_iff.mp hch
  rw [parseHash]
  refine holds_ite ?_ ?_
  · intro _
    have h := @parseEolComment_scanned inp
      { sf with statsCommentHash := sf.statsCommentHash + 1 + 1 } hval hpos
      (.inl (prefix_of_getElem hch))
    exact h.imp fun r hr => ⟨hr.advances, hr.token, (Kept.hash sf 2).trans hr.kept⟩
  · intro _
    refine (@assignChar_holds inp { sf with statsCommentHash := sf.statsCommentHash + 1 } sf.pos
      (sf.pos + 1) sf.pos typeOperator hash hval (by decide) (Nat.le_refl _) (Nat.le_refl _) hpos
      (by decide) hch).bind fun sf' h => ?_
    exact holds_pure ⟨Nat.lt_succ_self _, h.1, (Kept.hash sf 1).trans h.2⟩

theorem opensComment_of_dash {c : Prop} (hch : inp.s[sf.pos]? = some dash)
    (h : c ∧ ∃ ch, inp.s[sf.pos + 1]? = some ch ∧ (ch == dash) = true) :
    OpensComment (inp.s.drop sf.pos) := by
  obtain ⟨-, ch, hnext, htest⟩ := h
  rw [beq_iff_eq.mp htest] at hnext
  exact .inr (.inl (prefix_of_getElem_pair hch hnext))

theorem parseDash_scanned (hval : sf.current.val = padded [])
    (hch : inp.s[sf.pos]? = some dash) : Holds (parseDash inp sf) (Scanned inp sf) := by
  obtain ⟨hpos, -⟩ := List.getElem?_eq_some_iff.mp hch
  rw [parseDash]
  refine (lookahead_holds fun hc => by simpa using hc).bind fun white hwhite => holds_ite ?_ ?_
  · intro htrue
    exact parseEolComment_scanned hval hpos (opensComment_of_dash hch (hwhite htrue))
  intro _
  refine (lookahead_holds fun hc => by simp only [List.length_nil]; omega).bind
    fun atEnd hatEnd => holds_ite ?_ ?_
  · intro htrue
    exact parseEolComment_scanned hval hpos (opensComment_of_dash hch (hatEnd htrue))
  intro _
  refine (lookahead_holds fun hc => by simpa using hc).bind fun other hother => holds_ite ?_ ?_
  · intro htrue
    have hopen := opensComment_of_dash hch (hother (Bool.and_eq_true_iff.mp htrue).1)
    have h := @parseEolComment_scanned inp
      { sf with statsCommentDdx := sf.statsCommentDdx + 1 } hval hpos hopen
    exact h.imp fun r hr => ⟨hr.advances, hr.token, (Kept.dash sf 1).trans hr.kept⟩
  · intro _
    refine (assignChar_holds hval (by decide) (Nat.le_refl _) (Nat.le_refl _) hpos (by decide)
      hch).bind fun sf' h => ?_
    exact holds_pure ⟨Nat.lt_succ_self _, h.1, h.2⟩

theorem isMysqlComment_holds (pos : ℕ) : Holds (isMysqlComment inp pos) (fun _ => True) :=
  (lookahead_holds fun hc => by simpa using hc).imp fun _ _ => trivial

theorem parseSlash_scanned (hval : sf.current.val = padded [])
    (hch : inp.s[sf.pos]? = some slash) : Holds (parseSlash inp sf) (Scanned inp sf) := by
  obtain ⟨hpos, -⟩ := List.getElem?_eq_some_iff.mp hch
  rw [parseSlash]
  refine (lookahead_holds fun hc => by simp only [List.length_nil]; omega).bind
    fun starred hstarred => holds_ite ?_ ?_
  · intro _
    exact parseOperator1_scanned hval hpos
  intro hnot
  have htrue : starred = true := by simpa using hnot
  obtain ⟨hend, ch, hnext, htest⟩ := hstarred htrue
  rw [beq_iff_eq.mp htest] at hnext
  have hopen : OpensComment (inp.s.drop sf.pos) := .inr (.inr (prefix_of_getElem_pair hch hnext))
  rw [minus_ok (by omega), bind_ok]
  refine (memchr2_holds (by omega) star slash).bind fun r hr => ?_
  cases r with
  | none =>
    change Holds (minus inp.s.length sf.pos >>= _) _
    rw [minus_ok (by omega), bind_ok]
    refine (isMysqlComment_holds sf.pos).bind fun conditional _ => ?_
    have htype : (if conditional = true then typeEvil else typeComment) ≠ charNull := by
      split_ifs <;> decide
    refine (assign_holds hval htype (Nat.le_refl _) (Nat.le_refl _) (by omega)
      fun _ => hopen).bind fun sf' h => ?_
    exact holds_pure ⟨by omega, h.1, h.2⟩
  | some ptr =>
    obtain ⟨hlo, hhi⟩ := hr ptr rfl
    change Holds (minus (ptr + 2) sf.pos >>= _) _
    rw [minus_ok (by omega), bind_ok, minus_ok (by omega), bind_ok]
    refine (memchr2_holds (by omega) slash star).bind fun nested _ => ?_
    refine (isMysqlComment_holds sf.pos).bind fun conditional _ => ?_
    have htype : (if (nested.isSome || conditional) = true then typeEvil else typeComment) ≠
        charNull := by
      split_ifs <;> decide
    refine (assign_holds hval htype (Nat.le_refl _) (Nat.le_refl _) (by omega)
      fun _ => hopen).bind fun sf' h => ?_
    exact holds_pure ⟨by omega, h.1, h.2⟩

theorem parseBackslash_scanned (hval : sf.current.val = padded []) (hpos : sf.pos < inp.s.length) :
    Holds (parseBackslash inp sf) (Scanned inp sf) := by
  rw [parseBackslash]
  refine (lookahead_holds fun hc => by simpa using hc).bind fun null hnull => holds_ite ?_ ?_
  · intro htrue
    have hlt := (hnull htrue).1
    refine (assign_holds hval (by decide) (Nat.le_refl _) (Nat.le_refl _) hlt
      fun h => absurd h (by decide)).bind fun sf' h => ?_
    exact holds_pure ⟨by omega, h.1, h.2⟩
  · intro _
    refine (holds_readAt hpos).bind fun ch hch => ?_
    refine (assignChar_holds hval (by decide) (Nat.le_refl _) (Nat.le_refl _) hpos (by decide)
      hch).bind fun sf' h => ?_
    exact holds_pure ⟨Nat.lt_succ_self _, h.1, h.2⟩

theorem parseOperator2_scanned (hval : sf.current.val = padded []) (hpos : sf.pos < inp.s.length) :
    Holds (parseOperator2 inp sf) (Scanned inp sf) := by
  rw [parseOperator2]
  refine holds_ite ?_ ?_
  · intro _
    exact parseOperator1_scanned hval hpos
  intro hnext
  refine (lookahead_holds fun hc => by simp only [List.length_cons, List.length_nil]; omega).bind
    fun spaceship hspaceship => holds_ite ?_ ?_
  · intro htrue
    have hlt := (hspaceship htrue).1
    refine (assign_holds hval (by decide) (Nat.le_refl _) (Nat.le_refl _) hlt
      fun h => absurd h (by decide)).bind fun sf' h => ?_
    exact holds_pure ⟨by omega, h.1, h.2⟩
  intro _
  rw [isKeyword_eq _ (by rw [List.length_drop]; omega), bind_ok]
  refine holds_ite ?_ ?_
  · intro hch
    have htype := keywordType_plain ((typeOf_cases inp.keywords _).resolve_left hch)
    refine (assign_holds hval hch (Nat.le_refl _) (Nat.le_refl _) (by omega)
      fun h => absurd h htype.2).bind fun sf' h => ?_
    exact holds_pure ⟨by omega, h.1, h.2⟩
  intro _
  refine (holds_readAt hpos).bind fun first _ => holds_ite ?_ ?_
  · intro _
    refine (assign_holds hval (by decide) (Nat.le_refl _) (Nat.le_refl _) hpos
      fun h => absurd h (by decide)).bind fun sf' h => ?_
    exact holds_pure ⟨Nat.lt_succ_self _, h.1, h.2⟩
  · intro _
    exact parseOperator1_scanned hval hpos

end Symbols

section Strings
variable {inp : Input} {sf : Scan}

theorem isBackslashEscaped_holds {start qpos : ℕ} (hlo : start ≤ qpos)
    (hhi : qpos ≤ inp.s.length) : Holds (isBackslashEscaped inp start qpos) (fun _ => True) := by
  rw [isBackslashEscaped, minus_ok hlo, bind_ok, slice_ok (by omega), bind_ok]
  exact holds_pure trivial

def Candidate (inp : Input) (start : ℕ) (delim : UInt8) (r : Option ℕ) : Prop :=
  ∀ q, r = some q → start ≤ q ∧ q < inp.s.length ∧ inp.s[q]? = some delim

def candidateMeasure (inp : Input) : Option ℕ → ℕ
  | none => 0
  | some q => inp.s.length - q

theorem stringTurn_holds (start : ℕ) (delim : UInt8) (r : Option ℕ)
    (hr : Candidate inp start delim r) :
    Holds (stringTurn inp start delim r)
      (Continues (Candidate inp start delim) (candidateMeasure inp) (Candidate inp start delim)
        r) := by
  cases r with
  | none => exact holds_pure hr
  | some q =>
    obtain ⟨hlo, hhi, -⟩ := hr q rfl
    rw [stringTurn]
    have hsmaller : ∀ (n : ℕ) (next : Option ℕ),
        (∀ p, next = some p → q + 1 + n ≤ p ∧ p < q + 1 + n + (inp.s.length - (q + 1 + n)) ∧
          inp.s[p]? = some delim) →
        Continues (Candidate inp start delim) (candidateMeasure inp) (Candidate inp start delim)
          (some q) (.inl next) := by
      intro n next hnext
      refine ⟨fun p hp => ?_, ?_⟩
      · obtain ⟨hp1, hp2, hp3⟩ := hnext p hp
        have hlt := (List.getElem?_eq_some_iff.mp hp3).1
        exact ⟨by omega, hlt, hp3⟩
      · cases next with
        | none =>
          change 0 < inp.s.length - q
          omega
        | some p =>
          obtain ⟨hp1, -, -⟩ := hnext p rfl
          change inp.s.length - p < inp.s.length - q
          omega
    refine (isBackslashEscaped_holds hlo (by omega)).bind fun escaped _ => holds_ite ?_ ?_
    · intro _
      rw [minus_ok (by omega), bind_ok]
      exact (memchr_holds (by omega) delim).bind fun next hnext =>
        holds_pure (hsmaller 0 next hnext)
    intro _
    refine (lookahead_holds fun hc => by simpa using hc).bind fun doubled hdoubled =>
      holds_ite ?_ ?_
    · intro htrue
      have hlt := (hdoubled htrue).1
      rw [minus_ok (by omega), bind_ok]
      exact (memchr_holds (by omega) delim).bind fun next hnext =>
        holds_pure (hsmaller 1 next hnext)
    · intro _
      exact holds_pure hr

theorem stringCore_scanned (hval : sf.current.val = padded []) (hpos : sf.pos < inp.s.length)
    {offset : ℕ} (hoffset : sf.pos + offset ≤ inp.s.length) (delim : UInt8) :
    Holds (sf.stringCore inp delim offset) (Scanned inp sf) := by
  rw [Scan.stringCore, parseStringCore, minus_ok hoffset, bind_ok]
  obtain ⟨qpos, hqpos, hcand⟩ := @memchr_holds inp.s (sf.pos + offset)
    (inp.s.length - (sf.pos + offset)) (by omega) delim
  rw [hqpos, bind_ok]
  have hstart : Candidate inp (sf.pos + offset) delim qpos := by
    intro q hq
    obtain ⟨h1, -, h3⟩ := hcand q hq
    exact ⟨h1, (List.getElem?_eq_some_iff.mp h3).1, h3⟩
  have hfuel : candidateMeasure inp qpos < inp.s.length + 2 := by
    cases qpos with
    | none => exact Nat.succ_pos _
    | some q =>
      change inp.s.length - q < inp.s.length + 2
      omega
  have htyped : typeString ≠ charNull := by decide
  have hplain : typeString ≠ typeComment := by decide
  have hopened : ({ sf.current with strOpen := if 0 < offset then delim else charNull } :
      Token).val = padded [] := hval
  obtain ⟨close, hclose, hclosed⟩ :=
    holds_loop (stringTurn_holds (sf.pos + offset) delim) hstart hfuel
  change Holds (_ >>= _) _
  rw [hclose]
  cases close with
  | none =>
    have hbounds := stored_bounds (inp.s.length - (sf.pos + offset))
    change Holds ((stAssign _ _ _ _ _ _ >>= _) >>= _) _
    rw [stAssign_eq hopened (Nat.zero_le _) (by omega)]
    refine holds_ok ⟨hpos, ⟨htyped, Nat.le_add_right _ _, ?_, Nat.le_refl _, hbounds.2, rfl,
      fun h => absurd h hplain⟩, rfl, Nat.le_refl _⟩
    change sf.pos + offset + stored _ ≤ inp.s.length
    omega
  | some q =>
    obtain ⟨hlo, hhi, -⟩ := hclosed q rfl
    have hbounds := stored_bounds (q - (sf.pos + offset))
    change Holds ((minus _ _ >>= _) >>= _) _
    rw [minus_ok hlo, bind_ok, stAssign_eq hopened (Nat.zero_le _) (by omega)]
    refine holds_ok ⟨?_, ⟨htyped, Nat.le_add_right _ _, ?_, hhi, hbounds.2, rfl,
      fun h => absurd h hplain⟩, rfl, Nat.le_refl _⟩
    · change sf.pos < q + 1
      omega
    · change sf.pos + offset + stored _ ≤ q + 1
      omega

theorem parseString_scanned (hval : sf.current.val = padded []) (hpos : sf.pos < inp.s.length) :
    Holds (parseString inp sf) (Scanned inp sf) := by
  rw [parseString]
  exact (holds_readAt hpos).bind fun delim _ => stringCore_scanned hval hpos hpos delim

end Strings
end WafWasm.TokenSpans
