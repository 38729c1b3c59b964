import WafWasm.WordSpans

set_option autoImplicit false

namespace WafWasm.TokenRuns
open CheckedMemory LibinjectionTokens LibinjectionParsers InputSearches TokenSpans WordSpans

section CharParseMap

/-- What a parser relies on about the character it is called at. -/
def suits : CharParser → UInt8 → Bool
  | .char, ch => ch != charNull && ch != typeComment
  | .hash, ch => ch == hash
  | .dash, ch => ch == dash
  | .slash, ch => ch == slash
  | .money, ch => ch == dollar
  | .number, ch => isDigit ch || ch == typeDot
  | .word, ch | .estring, ch | .ustring, ch | .qstring, ch | .nqstring, ch | .bstring, ch
  | .xstring, ch => !strchr wordDelimiters ch
  | _, _ => true

theorem charParseMap_length : charParseMap.length = 256 := by decide +kernel

theorem charParseMap_all :
    (List.range 256).all (fun n =>
      charParseMap[n]?.all fun parser => suits parser (UInt8.ofNat n)) = true := by
  decide +kernel

theorem charParseMap_suits {ch : UInt8} {parser : CharParser}
    (h : charParseMap[ch.toNat]? = some parser) : suits parser ch = true := by
  have hall := List.all_eq_true.mp charParseMap_all ch.toNat (List.mem_range.mpr ch.toNat_lt)
  rw [h, Option.all_some, UInt8.ofNat_toNat] at hall
  exact hall

variable {inp : Input} {sf : Scan}

/-- A parser leaves a token, or moves one character ahead and leaves the scan as it is. -/
def Parsed (inp : Input) (sf : Scan) (r : ℕ × Scan) : Prop :=
  Scanned inp sf r ∨ r = (sf.pos + 1, sf)

theorem atWord_of_suits {ch : UInt8} (hch : inp.s[sf.pos]? = some ch)
    (hsuits : (!strchr wordDelimiters ch) = true) : AtWord inp sf :=
  ⟨ch, hch, by simpa using hsuits⟩

theorem run_parsed (parser : CharParser) (hval : sf.current.val = padded []) {ch : UInt8}
    (hch : inp.s[sf.pos]? = some ch) (hsuits : suits parser ch = true) :
    Holds (parser.run inp sf) (Parsed inp sf) := by
  have hpos := (List.getElem?_eq_some_iff.mp hch).1
  cases parser with
  | white => exact holds_pure (.inr rfl)
  | operator1 => exact (parseOperator1_scanned hval hpos).imp fun _ => .inl
  | other => exact (parseOther_scanned hval hpos).imp fun _ => .inl
  | char =>
    have hplain := Bool.and_eq_true_iff.mp hsuits
    exact (parseChar_scanned hval hch (bne_iff_ne.mp hplain.1) (bne_iff_ne.mp hplain.2)).imp
      fun _ => .inl
  | hash =>
    rw [beq_iff_eq.mp hsuits] at hch
    exact (parseHash_scanned hval hch).imp fun _ => .inl
  | dash =>
    rw [beq_iff_eq.mp hsuits] at hch
    exact (parseDash_scanned hval hch).imp fun _ => .inl
  | slash =>
    rw [beq_iff_eq.mp hsuits] at hch
    exact (parseSlash_scanned hval hch).imp fun _ => .inl
  | backslash => exact (parseBackslash_scanned hval hpos).imp fun _ => .inl
  | operator2 => exact (parseOperator2_scanned hval hpos).imp fun _ => .inl
  | string => exact (parseString_scanned hval hpos).imp fun _ => .inl
  | word => exact (parseWord_scanned hval (atWord_of_suits hch hsuits)).imp fun _ => .inl
  | estring => exact (parseEstring_scanned hval (atWord_of_suits hch hsuits)).imp fun _ => .inl
  | ustring => exact (parseUstring_scanned hval (atWord_of_suits hch hsuits)).imp fun _ => .inl
  | qstring =>
    exact (parseQstringCore_scanned hval (atWord_of_suits hch hsuits) 0).imp fun _ => .inl
  | nqstring => exact (parseNqstring_scanned hval (atWord_of_suits hch hsuits)).imp fun _ => .inl
  | bstring =>
    exact (parseDigitString_scanned hval (atWord_of_suits hch hsuits) _).imp fun _ => .inl
  | xstring =>
    exact (parseDigitString_scanned hval (atWord_of_suits hch hsuits) _).imp fun _ => .inl
  | bword => exact (parseBword_scanned hval hpos).imp fun _ => .inl
  | tick => exact (parseTick_scanned hval hpos).imp fun _ => .inl
  | var => exact (parseVar_scanned hval hpos).imp fun _ => .inl
  | money =>
    rw [beq_iff_eq.mp hsuits] at hch
    exact (parseMoney_scanned hval hch).imp fun _ => .inl
  | number =>
    refine (parseNumber_scanned hval ⟨ch, hch, ?_⟩).imp fun _ => .inl
    rcases Bool.or_eq_true_iff.mp hsuits with hdigit | hdot
    · exact .inl hdigit
    · exact .inr (beq_iff_eq.mp hdot)

end CharParseMap

section Calls
variable {inp : Input}

/-- What a call of the tokenizer leaves: a token further on, or the end of the input. -/
def Tokenized (inp : Input) (sf : Scan) : Bool × Scan → Prop
  | (true, sf') => sf.pos < sf'.pos ∧ IsToken inp sf.pos sf'.pos sf'.current ∧
      sf'.statsTokens = sf.statsTokens + 1 ∧ marks sf ≤ marks sf'
  | (false, sf') => sf'.pos = inp.s.length ∧ Kept sf sf' ∧
      (sf'.current = Token.clear ∨ sf'.current = sf.current)

/-- Between the parsers of one call nothing but the position has changed. -/
structure Skipping (inp : Input) (start sf : Scan) : Prop where
  current : sf.current = Token.clear
  before : start.pos ≤ sf.pos
  within : sf.pos ≤ inp.s.length
  kept : Kept start sf

theorem tokenizeTurn_holds (start sf : Scan) (h : Skipping inp start sf) :
    Holds (tokenizeTurn inp sf)
      (Continues (Skipping inp start) (fun sf => inp.s.length - sf.pos) (Tokenized inp start)
        sf) := by
  have hval : sf.current.val = padded [] := by
    rw [h.current]
    rfl
  have hbefore := h.before
  rw [tokenizeTurn]
  refine holds_ite ?_ ?_
  · intro hpos
    refine (holds_readAt hpos).bind fun ch hch => ?_
    have hindex : ch.toNat < charParseMap.length := by
      rw [charParseMap_length]
      exact ch.toNat_lt
    refine (holds_readAt hindex).bind fun parser hparser => ?_
    refine (run_parsed parser hval hch (charParseMap_suits hparser)).bind fun r hr => ?_
    rcases hr with hscanned | rfl
    · refine holds_ite ?_ ?_
      · intro _
        have hadvances := hscanned.advances
        exact holds_pure ⟨by change start.pos < r.1; omega,
          hscanned.token.mono hbefore (Nat.le_refl _) hscanned.token.within,
          congrArg (· + 1) (h.kept.trans hscanned.kept).tokens,
          (h.kept.trans hscanned.kept).marks_le⟩
      · intro hnull
        exact absurd hscanned.token.typed hnull
    · refine holds_ite ?_ ?_
      · intro htyped
        refine absurd ?_ htyped
        change sf.current.type = charNull
        rw [h.current]
        rfl
      · intro _
        refine holds_pure ⟨⟨h.current, ?_, hpos, h.kept⟩, ?_⟩
        · change start.pos ≤ sf.pos + 1
          omega
        · change inp.s.length - (sf.pos + 1) < inp.s.length - sf.pos
          omega
  · intro hend
    have hwithin := h.within
    exact holds_pure ⟨by omega, h.kept, .inl h.current⟩

theorem tokenize_holds {sf : Scan} (hpos : sf.pos ≤ inp.s.length) :
    Holds (libinjectionSqliTokenize inp sf) (Tokenized inp sf) := by
  rw [libinjectionSqliTokenize]
  refine holds_ite ?_ ?_
  · intro hempty
    exact holds_pure ⟨by omega, .refl sf, .inr rfl⟩
  intro hnonempty
  refine holds_ite ?_ ?_
  · intro hquote
    have hstart : sf.pos = 0 := hquote.1
    refine (@stringCore_scanned inp { sf with current := Token.clear } rfl
      (by change sf.pos < _; omega) 0 hpos (flag2delim inp)).bind fun r hr => ?_
    exact holds_pure ⟨hr.advances, hr.token, congrArg (· + 1) hr.kept.tokens, hr.kept.marks_le⟩
  · intro _
    have hskip : Skipping inp sf { sf with current := Token.clear } :=
      ⟨rfl, Nat.le_refl _, hpos, .refl sf⟩
    exact holds_loop (tokenizeTurn_holds sf) hskip
      (show inp.s.length - sf.pos < inp.s.length + 1 by omega)

end Calls

section Streams
variable (inp : Input)

/-- The tokens of successive calls, up to the one that returns none. -/
def tokenStream : ℕ → Scan → Checked (List Token)
  | 0, _ => .error .outOfFuel
  | fuel + 1, sf => do
    let (more, sf) ← libinjectionSqliTokenize inp sf
    if more then
      let tokens ← tokenStream fuel sf
      return sf.current :: tokens
    else return []

/-- The text of the token, cut to what the array holds. -/
def Verbatim (t : Token) : Prop :=
  t.pos + t.len ≤ inp.s.length ∧ t.len < tokenSize ∧
    t.val = padded ((inp.s.drop t.pos).take t.len)

/-- Pieces of the input from `lo` on, one after the other. -/
structure InOrder (lo : ℕ) (tokens : List Token) : Prop where
  after : ∀ t ∈ tokens, lo ≤ t.pos
  apart : tokens.Pairwise fun a b => a.pos + a.len ≤ b.pos
  verbatim : ∀ t ∈ tokens, Verbatim inp t

variable {inp}

/-- Calls from the start of the text, whatever the slots hold: the tokens that they have returned,
and the state they leave. -/
inductive Calls (inp : Input) : List Token → Scan → Prop where
  | start (slot : Token) : Calls inp [] ⟨0, slot, 0, 0, 0⟩
  | call {tokens : List Token} {sf sf' : Scan} (slot : Token) (more : Bool)
      (h : Calls inp tokens sf)
      (hcall : libinjectionSqliTokenize inp { sf with current := slot } = .ok (more, sf')) :
      Calls inp (if more then tokens ++ [sf'.current] else tokens) sf'

theorem Calls.counted {tokens : List Token} {sf : Scan} (h : Calls inp tokens sf) :
    sf.pos ≤ inp.s.length ∧ tokens.length = sf.statsTokens := by
  induction h with
  | start slot => exact ⟨Nat.zero_le _, rfl⟩
  | @call tokens sf sf' slot more h hcall ih =>
    obtain ⟨hpos, hcount⟩ := ih
    have htokenized := ok_of_holds (@tokenize_holds inp { sf with current := slot } hpos) hcall
    cases more with
    | true =>
      obtain ⟨-, htoken, htokens, -⟩ := htokenized
      refine ⟨htoken.within, ?_⟩
      change (tokens ++ [sf'.current]).length = sf'.statsTokens
      rw [List.length_append, hcount, htokens]
      rfl
    | false =>
      obtain ⟨hend, hkept, -⟩ := htokenized
      exact ⟨Nat.le_of_eq hend, hcount.trans hkept.tokens.symm⟩

theorem InOrder.cons {lo hi : ℕ} {t : Token} {tokens : List Token} (ht : IsToken inp lo hi t)
    (hle : lo ≤ hi) (h : InOrder inp hi tokens) : InOrder inp lo (t :: tokens) := by
  have hstart := ht.start
  have hstop := ht.stop
  have hwithin := ht.within
  refine ⟨?_, ?_, ?_⟩
  · intro other hother
    rcases List.mem_cons.mp hother with rfl | hmem
    · exact hstart
    · exact hle.trans (h.after other hmem)
  · refine List.pairwise_cons.mpr ⟨fun other hother => ?_, h.apart⟩
    exact hstop.trans (h.after other hother)
  · intro other hother
    rcases List.mem_cons.mp hother with rfl | hmem
    · exact ⟨by omega, ht.len_lt, ht.val⟩
    · exact h.verbatim other hmem

theorem tokenStream_holds {fuel : ℕ} {sf : Scan} (hpos : sf.pos ≤ inp.s.length)
    (hfuel : inp.s.length - sf.pos < fuel) :
    Holds (tokenStream inp fuel sf) (fun tokens =>
      InOrder inp sf.pos tokens ∧ tokens.length ≤ inp.s.length - sf.pos) := by
  induction fuel generalizing sf with
  | zero => exact absurd hfuel (Nat.not_lt_zero _)
  | succ fuel ih =>
    rw [tokenStream]
    refine (tokenize_holds hpos).bind fun r hr => ?_
    obtain ⟨more, sf'⟩ := r
    cases more with
    | true =>
      obtain ⟨hlt, htoken, -⟩ := hr
      have hwithin := htoken.within
      refine (ih hwithin (by omega)).bind fun tokens htokens => ?_
      refine holds_pure ⟨htokens.1.cons htoken (Nat.le_of_lt hlt), ?_⟩
      rw [List.length_cons]
      omega
    | false =>
      refine holds_pure ⟨⟨?_, List.Pairwise.nil, ?_⟩, Nat.zero_le _⟩
      · exact fun t ht => absurd ht List.not_mem_nil
      · exact fun t ht => absurd ht List.not_mem_nil

/-- The tokens of a text, and no more of them than it has characters. -/
theorem tokens_in_order (inp : Input) (token : Token) :
    ∃ tokens, tokenStream inp (inp.s.length + 1) ⟨0, token, 0, 0, 0⟩ = .ok tokens ∧
      InOrder inp 0 tokens ∧ tokens.length ≤ inp.s.length :=
  tokenStream_holds (Nat.zero_le _) (Nat.lt_succ_self _)

end Streams
end WafWasm.TokenRuns
