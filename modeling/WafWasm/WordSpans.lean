import WafWasm.TokenSpans

set_option autoImplicit false

namespace WafWasm.WordSpans
open CheckedMemory Common LibinjectionTokens LibinjectionKeywords LibinjectionParsers KeywordLookup
open InputSearches TokenSpans

/-- The scan is at a character that does not end a word. -/
def AtWord (inp : Input) (sf : Scan) : Prop :=
  ∃ ch, inp.s[sf.pos]? = some ch ∧ strchr wordDelimiters ch = false

section Words
variable {inp : Input} {sf : Scan}

theorem AtWord.pos_lt (h : AtWord inp sf) : sf.pos < inp.s.length := by
  obtain ⟨ch, hch, -⟩ := h
  exact (List.getElem?_eq_some_iff.mp hch).1

def Split (len : ℕ) : Option (ℕ × UInt8) → Prop
  | none => True
  | some (i, ch) => 0 < i ∧ i < len ∧ ch ∈ keywordTypes

theorem splitTurn_holds {current : Token} (hlen : current.len ≤ current.val.length) (i : ℕ)
    (_ : True) :
    Holds (splitTurn inp current i)
      (Continues (fun _ => True) (fun i => current.len - i) (Split current.len) i) := by
  rw [splitTurn]
  refine holds_ite ?_ ?_
  · intro hi
    have hnext : Continues (fun _ => True) (fun i => current.len - i) (Split current.len) i
        (.inl (i + 1)) := ⟨trivial, by change current.len - (i + 1) < current.len - i; omega⟩
    refine (holds_readAt (by omega)).bind fun delim _ => holds_ite ?_ ?_
    · intro _
      rw [isKeyword_eq _ (by omega), bind_ok]
      refine holds_ite ?_ ?_
      · intro hch
        refine holds_pure ⟨?_, hi, (typeOf_cases inp.keywords _).resolve_left hch.1⟩
        rcases Nat.eq_zero_or_pos i with hzero | hpos
        · subst hzero
          exact absurd (typeOf_nil inp.keywords) hch.1
        · exact hpos
      · intro _
        exact holds_pure hnext
    · intro _
      exact holds_pure hnext
  · intro _
    exact holds_pure trivial

theorem parseWord_scanned (hval : sf.current.val = padded []) (hword : AtWord inp sf) :
    Holds (parseWord inp sf) (Scanned inp sf) := by
  have hpos := hword.pos_lt
  obtain ⟨ch, hch, hstop⟩ := hword
  rw [parseWord, minus_ok (by omega), bind_ok]
  refine (strlencspn_holds (by omega) wordDelimiters).bind fun wlen hwlen => ?_
  have hpositive : 0 < wlen := hwlen.2 (by omega) ch hch hstop
  obtain ⟨sf', hassign, htoken, hkept⟩ := @assign_holds inp sf sf.pos (sf.pos + wlen) sf.pos wlen
    typeBareword hval (by decide) (Nat.le_refl _) (Nat.le_refl _) (by omega)
    fun h => absurd h (by decide)
  rw [hassign, bind_ok]
  have hlen : sf'.current.len ≤ sf'.current.val.length := by
    have hlt := htoken.len_lt
    have hstop := htoken.stop
    rw [htoken.val, padded_length (by rw [List.length_take]; omega)]
    omega
  have hfuel : sf'.current.len - 0 < tokenSize + 1 := by
    have := htoken.len_lt
    omega
  obtain ⟨found, hfound, hsplit⟩ := @holds_loop _ _ (splitTurn inp sf'.current) (fun _ => True)
    (fun i => sf'.current.len - i) (Split sf'.current.len) (splitTurn_holds hlen) _ 0 trivial hfuel
  rw [hfound, bind_ok]
  have hle : sf'.current.len ≤ wlen := by
    have hstart := htoken.start
    have hstop := htoken.stop
    omega
  cases found with
  | some split =>
    obtain ⟨i, stype⟩ := split
    obtain ⟨hi, hilen, htype⟩ := hsplit
    have hplain := keywordType_plain htype
    refine (@assign_holds inp { sf' with current := Token.clear } sf.pos (sf.pos + i) sf.pos i stype
      rfl hplain.1 (Nat.le_refl _) (Nat.le_refl _) (by omega)
      fun h => absurd h hplain.2).bind fun last h => ?_
    exact holds_pure ⟨by omega, h.1, hkept.trans h.2⟩
  | none =>
    refine holds_ite ?_ ?_
    · intro hshort
      have hread : wlen ≤ sf'.current.val.length := by
        rw [htoken.val, padded_length (by rw [List.length_take]; omega)]
        omega
      rw [isKeyword_eq _ hread, bind_ok]
      refine holds_pure ⟨by omega, htoken.retype ?_ ?_, hkept⟩
      · split_ifs with hnull
        · decide
        · exact hnull
      · split_ifs with hnull
        · decide
        · exact (keywordType_plain ((typeOf_cases inp.keywords _).resolve_left hnull)).2
    · intro _
      exact holds_pure ⟨by omega, htoken, hkept⟩

theorem parseEstring_scanned (hval : sf.current.val = padded []) (hword : AtWord inp sf) :
    Holds (parseEstring inp sf) (Scanned inp sf) := by
  rw [parseEstring]
  refine (lookahead_holds fun hc => by simp only [List.length_nil]; omega).bind
    fun quoted hquoted => holds_ite ?_ ?_
  · intro htrue
    have hlt := (hquoted htrue).1
    exact stringCore_scanned hval hword.pos_lt (by omega) charSingle
  · intro _
    exact parseWord_scanned hval hword

theorem parseUstring_scanned (hval : sf.current.val = padded []) (hword : AtWord inp sf) :
    Holds (parseUstring inp sf) (Scanned inp sf) := by
  rw [parseUstring]
  refine (lookahead_holds fun hc => by simp only [List.length_cons, List.length_nil]; omega).bind
    fun quoted hquoted => holds_ite ?_ ?_
  · intro htrue
    have hlt := (hquoted htrue).1
    refine (@parseString_scanned inp { sf with pos := sf.pos + 2 } hval hlt).bind fun r hr => ?_
    obtain ⟨pos, sf'⟩ := r
    have hadvances : sf.pos + 2 < pos := hr.advances
    exact holds_pure ⟨by omega, (hr.token.mono (Nat.le_add_right _ _) (Nat.le_refl _)
      hr.token.within).withQuotes _ _, hr.kept⟩
  · intro _
    exact parseWord_scanned hval hword

theorem parseQstringCore_scanned (hval : sf.current.val = padded []) (hword : AtWord inp sf)
    (offset : ℕ) : Holds (parseQstringCore inp sf offset) (Scanned inp sf) := by
  rw [parseQstringCore]
  refine (lookahead_holds fun hc => by simpa using hc).bind fun named _ => ?_
  refine (lookahead_holds fun hc => by simp only [List.length_nil]; omega).bind
    fun quoted hquoted => holds_ite ?_ ?_
  · intro _
    exact parseWord_scanned hval hword
  intro hnot
  have hlt := (hquoted (by simpa using hnot)).1.2
  refine (holds_readAt hlt).bind fun ch _ => holds_ite ?_ ?_
  · intro _
    exact parseWord_scanned hval hword
  intro _
  rw [minus_ok (by omega), bind_ok]
  refine (memchr2_holds (by omega) _ _).bind fun r hr => ?_
  cases r with
  | none =>
    refine (@assign_holds inp sf sf.pos inp.s.length _ _ _ hval (by decide) (by omega) (by omega)
      (Nat.le_refl _) fun h => absurd h (by decide)).bind fun sf' h => ?_
    exact holds_pure ⟨hword.pos_lt, h.1.withQuotes _ _, h.2⟩
  | some strend =>
    obtain ⟨hlo, hhi⟩ := hr strend rfl
    change Holds (minus strend _ >>= _) _
    rw [minus_ok (by omega), bind_ok]
    refine (@assign_holds inp sf sf.pos (strend + 2) _ _ _ hval (by decide) (by omega) (by omega)
      (by omega) fun h => absurd h (by decide)).bind fun sf' h => ?_
    exact holds_pure ⟨by omega, h.1.withQuotes _ _, h.2⟩

theorem parseNqstring_scanned (hval : sf.current.val = padded []) (hword : AtWord inp sf) :
    Holds (parseNqstring inp sf) (Scanned inp sf) := by
  rw [parseNqstring]
  refine (lookahead_holds fun hc => by simp only [List.length_nil]; omega).bind
    fun quoted _ => holds_ite ?_ ?_
  · intro _
    exact parseEstring_scanned hval hword
  · intro _
    exact parseQstringCore_scanned hval hword 1

theorem parseDigitString_scanned (hval : sf.current.val = padded []) (hword : AtWord inp sf)
    (digits : Bytes) : Holds (parseDigitString inp sf digits) (Scanned inp sf) := by
  rw [parseDigitString]
  refine (lookahead_holds fun hc => by simp only [List.length_nil]; omega).bind
    fun quoted hquoted => holds_ite ?_ ?_
  · intro _
    exact parseWord_scanned hval hword
  intro hnot
  have hlt := (hquoted (by simpa using hnot)).1
  rw [minus_ok (by omega), bind_ok]
  refine (strlenspn_holds (by omega) digits).bind fun wlen _ => ?_
  refine (lookahead_holds fun hc => by simpa using hc).bind fun closed hclosed => holds_ite ?_ ?_
  · intro _
    exact parseWord_scanned hval hword
  intro hopen
  have hend := (hclosed (by simpa using hopen)).1
  refine (@assign_holds inp sf sf.pos (sf.pos + 2 + wlen + 1) _ _ _ hval (by decide)
    (Nat.le_refl _) (by omega) (by omega) fun h => absurd h (by decide)).bind fun sf' h => ?_
  exact holds_pure ⟨by omega, h.1, h.2⟩

theorem parseBword_scanned (hval : sf.current.val = padded []) (hpos : sf.pos < inp.s.length) :
    Holds (parseBword inp sf) (Scanned inp sf) := by
  rw [parseBword, minus_ok (by omega), bind_ok]
  refine (memchr_holds (by omega) 0x5D).bind fun r hr => ?_
  cases r with
  | none =>
    refine (@assign_holds inp sf sf.pos inp.s.length _ _ _ hval (by decide) (Nat.le_refl _)
      (by omega) (Nat.le_refl _) fun h => absurd h (by decide)).bind fun sf' h => ?_
    exact holds_pure ⟨hpos, h.1, h.2⟩
  | some endptr =>
    obtain ⟨hlo, hhi, -⟩ := hr endptr rfl
    change Holds (minus endptr _ >>= _) _
    rw [minus_ok hlo, bind_ok]
    refine (@assign_holds inp sf sf.pos (endptr + 1) _ _ _ hval (by decide) (Nat.le_refl _)
      (by omega) (by omega) fun h => absurd h (by decide)).bind fun sf' h => ?_
    exact holds_pure ⟨Nat.lt_succ_of_le hlo, h.1, h.2⟩

theorem parseTick_scanned (hval : sf.current.val = padded []) (hpos : sf.pos < inp.s.length) :
    Holds (parseTick inp sf) (Scanned inp sf) := by
  rw [parseTick]
  refine (stringCore_scanned hval hpos hpos charTick).bind fun r hr => ?_
  obtain ⟨pos, sf'⟩ := r
  have htoken : IsToken inp sf.pos pos sf'.current := hr.token
  have hlen : sf'.current.len ≤ sf'.current.val.length := by
    have hlt := htoken.len_lt
    rw [htoken.val, padded_length (by rw [List.length_take]; omega)]
    omega
  change Holds (isKeyword _ _ _ >>= _) _
  rw [isKeyword_eq _ hlen, bind_ok]
  refine holds_pure ⟨hr.advances, htoken.retype ?_ ?_, hr.kept⟩
  · split_ifs <;> decide
  · split_ifs <;> decide

theorem Scanned.asVariable {pos : ℕ} {start : Token} {r : ℕ × Scan}
    (h : Scanned inp { sf with pos := pos, current := start } r) (hpos : sf.pos < pos) :
    Scanned inp sf (r.1, r.2.asVariable) :=
  ⟨hpos.trans h.advances, (h.token.mono (Nat.le_of_lt hpos) (Nat.le_refl _) h.token.within).retype
    (by decide) (by decide), h.kept⟩

theorem parseVar_scanned (hval : sf.current.val = padded []) (hpos : sf.pos < inp.s.length) :
    Holds (parseVar inp sf) (Scanned inp sf) := by
  rw [parseVar]
  refine (lookahead_holds fun hc => by simpa using hc).bind fun doubled hdoubled => ?_
  have hnext : sf.pos < (if doubled then sf.pos + 2 else sf.pos + 1) ∧
      (if doubled then sf.pos + 2 else sf.pos + 1) ≤ inp.s.length := by
    split_ifs with htrue
    · have := (hdoubled htrue).1
      omega
    · omega
  generalize (if doubled = true then sf.pos + 2 else sf.pos + 1) = pos at hnext ⊢
  obtain ⟨hlo, hhi⟩ := hnext
  refine (lookahead_holds fun hc => by simpa using hc).bind fun ticked hticked => ?_
  refine (lookahead_holds fun hc => by simpa using hc).bind fun quoted hquoted => ?_
  refine holds_ite ?_ fun _ => holds_ite ?_ ?_
  · intro htrue
    refine (@parseTick_scanned inp { sf with
      pos := pos, current := { sf.current with count := if doubled then 2 else 1 } } hval
      (hticked htrue).1).bind fun r hr => ?_
    exact holds_pure (Scanned.asVariable hr hlo)
  · intro htrue
    refine (@parseString_scanned inp { sf with
      pos := pos, current := { sf.current with count := if doubled then 2 else 1 } } hval
      (hquoted htrue).1).bind fun r hr => ?_
    exact holds_pure (Scanned.asVariable hr hlo)
  · intro _
    rw [minus_ok hhi, bind_ok]
    refine (strlencspn_holds (by omega) varDelimiters).bind fun xlen hxlen => ?_
    refine (@assign_holds inp
      { sf with current := { sf.current with count := if doubled then 2 else 1 } } sf.pos
      (pos + xlen) _ _ _ hval (by decide) (Nat.le_of_lt hlo) (Nat.le_refl _) (by omega)
      fun h => absurd h (by decide)).bind fun sf' h => ?_
    exact holds_pure ⟨by omega, h.1, h.2⟩

end Words

section Money
variable {inp : Input} {sf : Scan}

theorem dollarString_scanned (hval : sf.current.val = padded []) {start closer : ℕ}
    {strend : Option ℕ} (hlo : sf.pos < start) (hhi : start ≤ inp.s.length)
    (hend : ∀ p, strend = some p → start ≤ p ∧ p + closer ≤ inp.s.length) :
    Holds (dollarString inp sf start strend closer) (Scanned inp sf) := by
  cases strend with
  | none =>
    rw [dollarString, minus_ok hhi, bind_ok]
    refine (@assign_holds inp sf sf.pos inp.s.length _ _ _ hval (by decide) (Nat.le_of_lt hlo)
      (by omega) (Nat.le_refl _) fun h => absurd h (by decide)).bind fun sf' h => ?_
    exact holds_pure ⟨by omega, h.1.withQuotes _ _, h.2⟩
  | some p =>
    obtain ⟨hstart, hstop⟩ := hend p rfl
    rw [dollarString, minus_ok hstart, bind_ok]
    refine (@assign_holds inp sf sf.pos (p + closer) _ _ _ hval (by decide) (Nat.le_of_lt hlo)
      (by omega) hstop fun h => absurd h (by decide)).bind fun sf' h => ?_
    exact holds_pure ⟨by omega, h.1.withQuotes _ _, h.2⟩

theorem loneDollar_scanned (hval : sf.current.val = padded [])
    (hch : inp.s[sf.pos]? = some dollar) : Holds (loneDollar sf) (Scanned inp sf) := by
  obtain ⟨hpos, -⟩ := List.getElem?_eq_some_iff.mp hch
  rw [loneDollar]
  refine (assignChar_holds hval (by decide) (Nat.le_refl _) (Nat.le_refl _) hpos (by decide)
    hch).bind fun sf' h => ?_
  exact holds_pure ⟨Nat.lt_succ_self _, h.1, h.2⟩

theorem parseTagged_scanned (hval : sf.current.val = padded [])
    (hch : inp.s[sf.pos]? = some dollar) {xlen : ℕ} (hxlen : sf.pos + xlen + 1 ≤ inp.s.length)
    (hletters : 0 < xlen) : Holds (parseTagged inp sf xlen) (Scanned inp sf) := by
  rw [parseTagged]
  refine (lookahead_holds fun hc => by simp only [List.length_nil]; omega).bind
    fun closed hclosed => holds_ite ?_ ?_
  · intro _
    exact loneDollar_scanned hval hch
  intro hnot
  have hne := (hclosed (by simpa using hnot)).1
  rw [minus_ok (by omega), bind_ok, slice_ok (by omega), bind_ok]
  have htag : ((inp.s.drop sf.pos).take (xlen + 2)).length = xlen + 2 := by
    rw [List.length_take, List.length_drop]
    omega
  refine (myMemmem_holds (by omega) (by omega)).bind fun strend hstrend => ?_
  refine dollarString_scanned hval (by omega) (by omega) fun p hp => ?_
  obtain ⟨hsome, hafter⟩ := Option.filter_eq_some_iff.mp hp
  obtain ⟨-, hwithin⟩ := hstrend p hsome
  rw [htag] at hwithin
  have hge : sf.pos + xlen + 2 ≤ p := by simpa using hafter
  omega

theorem parseMoney_scanned (hval : sf.current.val = padded [])
    (hch : inp.s[sf.pos]? = some dollar) : Holds (parseMoney inp sf) (Scanned inp sf) := by
  obtain ⟨hpos, -⟩ := List.getElem?_eq_some_iff.mp hch
  rw [parseMoney]
  refine holds_ite ?_ ?_
  · intro hlast
    refine (@assignChar_holds inp sf sf.pos inp.s.length _ _ _ hval (by decide) (Nat.le_refl _)
      hpos (Nat.le_refl _) (by decide) hch).bind fun sf' h => ?_
    exact holds_pure ⟨hpos, h.1, h.2⟩
  intro hlast
  rw [minus_ok (by omega), bind_ok]
  refine (strlenspn_holds (by omega) amountChars).bind fun xlen hxlen => ?_
  refine (holds_readAt (by omega)).bind fun next _ => holds_ite ?_ ?_
  · intro _
    refine holds_ite ?_ ?_
    · intro _
      rw [minus_ok (by omega), bind_ok]
      refine (memchr2_holds (by omega) dollar dollar).bind fun strend hstrend => ?_
      refine dollarString_scanned hval (by omega) (by omega) fun p hp => ?_
      have := hstrend p hp
      omega
    · intro _
      refine (strlenspn_holds (by omega) letters).bind fun xlen hxlen => holds_ite ?_ ?_
      · intro _
        exact loneDollar_scanned hval hch
      · intro hletters
        exact parseTagged_scanned hval hch (by omega) (by omega)
  intro _
  refine holds_ite ?_ ?_
  · intro _
    exact parseWord_scanned hval ⟨dollar, hch, by decide⟩
  · intro _
    refine (@assign_holds inp sf sf.pos (sf.pos + 1 + xlen) _ _ _ hval (by decide) (Nat.le_refl _)
      (by omega) (by omega) fun h => absurd h (by decide)).bind fun sf' h => ?_
    exact holds_pure ⟨by omega, h.1, h.2⟩

end Money

section Numbers
variable {inp : Input} {sf : Scan}

theorem numberExponent_holds {pos : ℕ} (hpos : pos ≤ inp.s.length) :
    Holds (numberExponent inp pos) (fun r => pos ≤ r.1 ∧ r.1 ≤ inp.s.length) := by
  rw [numberExponent]
  refine (lookahead_holds fun hc => by simpa using hc).bind fun haveE hE => holds_ite ?_ ?_
  · intro htrue
    have hlt := (hE htrue).1
    refine (lookahead_holds fun hc => by simpa using hc).bind fun sign hsign => ?_
    have hnext : pos ≤ (if sign then pos + 2 else pos + 1) ∧
        (if sign then pos + 2 else pos + 1) ≤ inp.s.length := by
      split_ifs with hs
      · have := (hsign hs).1
        omega
      · omega
    have hbounds := skipDigits_bounds hnext.2
    refine holds_pure ⟨?_, hbounds.2⟩
    exact hnext.1.trans hbounds.1
  · intro _
    exact holds_pure ⟨Nat.le_refl _, hpos⟩

theorem numberSuffix_holds {pos : ℕ} (hpos : pos ≤ inp.s.length) :
    Holds (numberSuffix inp pos) (fun r => pos ≤ r ∧ r ≤ inp.s.length) := by
  rw [numberSuffix]
  refine (lookahead_holds fun hc => by simpa using hc).bind fun suffix hsuffix => holds_ite ?_ ?_
  · intro htrue
    have hlt := (hsuffix htrue).1
    have hone : pos ≤ pos + 1 ∧ pos + 1 ≤ inp.s.length := ⟨Nat.le_succ _, hlt⟩
    refine holds_ite (fun _ => holds_pure hone) fun hend => ?_
    refine (holds_readAt (by omega)).bind fun next _ => ?_
    refine holds_ite (fun _ => holds_pure hone) fun _ => ?_
    exact holds_ite (fun _ => holds_pure hone) fun _ => holds_pure ⟨Nat.le_refl _, hpos⟩
  · intro _
    exact holds_pure ⟨Nat.le_refl _, hpos⟩

def AtNumber (inp : Input) (sf : Scan) : Prop :=
  ∃ ch, inp.s[sf.pos]? = some ch ∧ (isDigit ch = true ∨ ch = typeDot)

/-- The position after the digits and the fraction: one character at least has been read, and
when it is the only one after a dot, it is the dot itself. -/
theorem fraction_holds (hnumber : AtNumber inp sf) :
    Holds (andThen (skipDigits inp sf.pos < inp.s.length)
        (passes inp (skipDigits inp sf.pos) [(· == typeDot)]))
      (fun dotted => ∀ pos, pos = (if dotted then skipDigits inp (skipDigits inp sf.pos + 1)
          else skipDigits inp sf.pos) →
        sf.pos < pos ∧ pos ≤ inp.s.length ∧
          (dotted = true → pos - sf.pos = 1 → inp.s[sf.pos]? = some typeDot)) := by
  obtain ⟨ch, hch, hkind⟩ := hnumber
  obtain ⟨hpos, hget⟩ := List.getElem?_eq_some_iff.mp hch
  have hbounds := skipDigits_bounds (Nat.le_of_lt hpos)
  by_cases hdigit : isDigit ch = true
  · have hstep := skipDigits_pos hch hdigit
    refine (lookahead_holds fun hc => by simpa using hc).imp fun dotted hdotted pos heq => ?_
    split_ifs at heq with htrue
    · have hlt := (hdotted htrue).1
      have hmore := @skipDigits_bounds inp (skipDigits inp sf.pos + 1) hlt
      subst heq
      exact ⟨by omega, hmore.2, fun _ hone => by omega⟩
    · subst heq
      exact ⟨hstep, hbounds.2, fun hfalse => absurd hfalse htrue⟩
  · have hdot : ch = typeDot := hkind.resolve_left hdigit
    subst hdot
    have hsame : skipDigits inp sf.pos = sf.pos := by
      rw [skipDigits, List.drop_eq_getElem_cons hpos, hget, List.takeWhile_cons_of_neg hdigit]
      rfl
    have hpass : andThen (sf.pos < inp.s.length)
        (passes inp sf.pos [(· == typeDot)]) = .ok true := by
      rw [andThen, if_pos hpos, passes, readAt_ok hpos, hget]
      rfl
    rw [hsame, hpass]
    refine holds_ok fun pos heq => ?_
    have hmore := @skipDigits_bounds inp (sf.pos + 1) hpos
    rw [if_pos rfl] at heq
    subst heq
    exact ⟨by omega, hmore.2, fun _ _ => hch⟩

theorem parseDecimal_scanned (hval : sf.current.val = padded []) (hnumber : AtNumber inp sf) :
    Holds (parseDecimal inp sf) (Scanned inp sf) := by
  rw [parseDecimal]
  refine (fraction_holds hnumber).bind fun dotted hdotted => ?_
  have hfraction := hdotted _ rfl
  generalize (if dotted = true then skipDigits inp (skipDigits inp sf.pos + 1)
    else skipDigits inp sf.pos) = pos at hfraction ⊢
  obtain ⟨hlo, hhi, hdot⟩ := hfraction
  refine holds_ite ?_ ?_
  · intro hone
    refine (assignChar_holds hval (by decide) (Nat.le_refl _) hlo hhi (by decide)
      (hdot hone.1 hone.2)).bind fun sf' h => ?_
    exact holds_pure ⟨hlo, h.1, h.2⟩
  · intro _
    refine (numberExponent_holds hhi).bind fun r hr => ?_
    obtain ⟨pos1, haveE, haveExp⟩ := r
    refine (numberSuffix_holds hr.2).bind fun pos2 hpos2 => ?_
    have hchain : pos ≤ pos1 := hr.1
    rw [minus_ok (by omega), bind_ok]
    have htype : (if (haveE && !haveExp) = true then typeBareword else typeNumber) ≠ charNull := by
      split_ifs <;> decide
    have hplain : (if (haveE && !haveExp) = true then typeBareword else typeNumber) ≠
        typeComment := by
      split_ifs <;> decide
    refine (assign_holds hval htype (Nat.le_refl _) (by omega) hpos2.2
      fun h => absurd h hplain).bind fun sf' h => ?_
    exact holds_pure ⟨by omega, h.1, h.2⟩

theorem radixPrefix_holds {pos : ℕ} (hpos : pos < inp.s.length) :
    Holds (radixPrefix inp pos) (fun digits => digits ≠ none → pos + 1 < inp.s.length) := by
  rw [radixPrefix]
  refine (holds_readAt hpos).bind fun first _ => holds_ite ?_ ?_
  · intro hc
    exact (holds_readAt hc.2).bind fun second _ => holds_pure fun _ => hc.2
  · intro _
    exact holds_pure fun hne => absurd rfl hne

theorem parseNumber_scanned (hval : sf.current.val = padded []) (hnumber : AtNumber inp sf) :
    Holds (parseNumber inp sf) (Scanned inp sf) := by
  obtain ⟨ch, hch, -⟩ := id hnumber
  obtain ⟨hpos, -⟩ := List.getElem?_eq_some_iff.mp hch
  rw [parseNumber]
  refine (radixPrefix_holds hpos).bind fun digits hdigits => ?_
  cases digits with
  | none => exact parseDecimal_scanned hval hnumber
  | some digits =>
    have hlt := hdigits (Option.some_ne_none digits)
    change Holds (minus _ _ >>= _) _
    rw [minus_ok (by omega), bind_ok]
    refine (strlenspn_holds (by omega) digits).bind fun xlen hxlen => ?_
    have htype : (if xlen = 0 then typeBareword else typeNumber) ≠ charNull := by
      split_ifs <;> decide
    have hplain : (if xlen = 0 then typeBareword else typeNumber) ≠ typeComment := by
      split_ifs <;> decide
    refine (@assign_holds inp sf sf.pos (sf.pos + 2 + xlen) _ _ _ hval htype (Nat.le_refl _)
      (by omega) (by omega) fun h => absurd h hplain).bind fun sf' h => ?_
    exact holds_pure ⟨by omega, h.1, h.2⟩

end Numbers
end WafWasm.WordSpans
