import WafWasm.LockstepVerdicts
import WafWasm.QuoteContexts

set_option autoImplicit false

namespace WafWasm.TokenStreams
open CheckedMemory RelatedRuns Common LibinjectionTokens LibinjectionKeywords LibinjectionParsers
open LibinjectionFold LibinjectionVerdict TokenSpans TokenRuns FoldRuns FoldCounts Fingerprints
open Verdicts QuoteContexts RespelledTokens LockstepFolds LockstepVerdicts

section Calls
variable {inp : Input} {sf : Scan} {fuel : ℕ} {tokens : List Token}

/-- A call starts from a clear token, whatever its slot holds. -/
theorem tokenize_slot (hnonempty : 0 < inp.s.length) (sf : Scan) (slot : Token) :
    libinjectionSqliTokenize inp { sf with current := slot } =
      libinjectionSqliTokenize inp { sf with current := Token.clear } := by
  have hlength : ¬inp.s.length = 0 := Nat.ne_of_gt hnonempty
  unfold libinjectionSqliTokenize
  rw [if_neg hlength, if_neg hlength]

theorem tokenStream_slot (hnonempty : 0 < inp.s.length) (sf : Scan) (slot : Token) :
    tokenStream inp fuel { sf with current := slot } = tokenStream inp fuel sf := by
  cases fuel with
  | zero => rfl
  | succ fuel =>
    rw [tokenStream, tokenStream, tokenize_slot hnonempty sf slot]
    exact congrArg (· >>= _) (tokenize_slot hnonempty sf sf.current).symm

structure Returned (inp : Input) (sf : Scan) (r : Bool × Scan) : Prop where
  within : r.2.pos ≤ inp.s.length
  counted : r.2.statsTokens = sf.statsTokens + if r.1 then 1 else 0
  ended : r.1 = false → r.2.pos = inp.s.length ∧ r.2.current = Token.clear

theorem call_returned (hnonempty : 0 < inp.s.length) (hwithin : sf.pos ≤ inp.s.length)
    {slot : Token} {r : Bool × Scan}
    (hcall : libinjectionSqliTokenize inp { sf with current := slot } = .ok r) :
    Returned inp sf r := by
  rw [tokenize_slot hnonempty] at hcall
  have htokenized := ok_of_holds
    (@tokenize_holds inp { sf with current := Token.clear } hwithin) hcall
  obtain ⟨more, scan⟩ := r
  cases more with
  | true => exact ⟨htokenized.2.1.within, htokenized.2.2.1, fun hfalse => nomatch hfalse⟩
  | false =>
    obtain ⟨hend, hkept, hclear | hclear⟩ := htokenized
    · exact ⟨Nat.le_of_eq hend, hkept.tokens, fun _ => ⟨hend, hclear⟩⟩
    · exact ⟨Nat.le_of_eq hend, hkept.tokens, fun _ => ⟨hend, hclear⟩⟩

theorem tokenStream_ended (hend : sf.pos = inp.s.length) : tokenStream inp 1 sf = .ok [] := by
  obtain ⟨⟨more, scan⟩, hcall, htokenized⟩ := @tokenize_holds inp sf (Nat.le_of_eq hend)
  cases more with
  | true =>
    obtain ⟨hlt, htoken, -⟩ := htokenized
    have hwithin := htoken.within
    omega
  | false =>
    rw [tokenStream, hcall]
    rfl

theorem stream_next (hnonempty : 0 < inp.s.length) {slot : Token} {r : Bool × Scan}
    (hcall : libinjectionSqliTokenize inp { sf with current := slot } = .ok r)
    (hstream : tokenStream inp fuel sf = .ok tokens) :
    (r.1 = true ∧ ∃ fuel rest, tokenStream inp fuel r.2 = .ok rest ∧
      tokens = r.2.current :: rest) ∨ r.1 = false ∧ tokens = [] := by
  rw [← tokenStream_slot hnonempty sf slot] at hstream
  cases fuel with
  | zero => cases hstream
  | succ fuel =>
    rw [tokenStream, hcall, bind_ok] at hstream
    obtain ⟨more, scan⟩ := r
    cases more with
    | true =>
      cases hrest : tokenStream inp fuel scan with
      | error fault =>
        change (tokenStream inp fuel scan >>= _) = _ at hstream
        rw [hrest] at hstream
        cases hstream
      | ok rest =>
        change (tokenStream inp fuel scan >>= _) = _ at hstream
        rw [hrest, bind_ok] at hstream
        exact .inl ⟨rfl, fuel, rest, hrest, (Except.ok.inj hstream).symm⟩
    | false => exact .inr ⟨rfl, (Except.ok.inj hstream).symm⟩

end Calls

section White
variable {inp : Input}

def isPassed (ch : UInt8) : Bool := charParseMap[ch.toNat]? == some .white

theorem tokenizeTurn_white {sf : Scan} {ch : UInt8} (hch : inp.s[sf.pos]? = some ch)
    (hwhite : isPassed ch = true) (hclear : sf.current = Token.clear) :
    tokenizeTurn inp sf = .ok (.inl { sf with pos := sf.pos + 1 }) := by
  have hmap : charParseMap[ch.toNat]? = some .white := beq_iff_eq.mp hwhite
  have hread : readAt inp.s sf.pos = .ok ch := by
    rw [readAt, hch]
  have hparser : readAt charParseMap ch.toNat = .ok .white := by
    rw [readAt, hmap]
  have htype : ¬sf.current.type ≠ charNull := by
    rw [hclear]
    exact fun hne => hne rfl
  rw [tokenizeTurn, if_pos (List.getElem?_eq_some_iff.mp hch).1, hread, bind_ok, hparser, bind_ok]
  exact if_neg htype

theorem loop_white {n pos : ℕ} (hwhite : ∀ i, i < n → ∃ ch, inp.s[pos + i]? = some ch ∧
    isPassed ch = true) {sf : Scan} (hpos : sf.pos = pos) (hclear : sf.current = Token.clear)
    {fuel : ℕ} {r : Bool × Scan} (hrun : loop (tokenizeTurn inp) fuel sf = .ok r) :
    ∃ fuel, loop (tokenizeTurn inp) fuel { sf with pos := pos + n } = .ok r := by
  induction n generalizing pos sf fuel with
  | zero =>
    refine ⟨fuel, ?_⟩
    rw [Nat.add_zero, ← hpos]
    exact hrun
  | succ n ih =>
    obtain ⟨ch, hch, hpassed⟩ := hwhite 0 (Nat.succ_pos n)
    rw [Nat.add_zero, ← hpos] at hch
    cases fuel with
    | zero => cases hrun
    | succ fuel =>
      rw [loop, tokenizeTurn_white hch hpassed hclear, bind_ok] at hrun
      have hrest : ∀ i, i < n → ∃ ch, inp.s[pos + 1 + i]? = some ch ∧ isPassed ch = true := by
        intro i hi
        rw [Nat.add_assoc, Nat.add_comm 1 i]
        exact hwhite (i + 1) (Nat.succ_lt_succ hi)
      obtain ⟨fuel', hrun'⟩ := @ih (pos + 1) hrest { sf with pos := sf.pos + 1 } (by rw [hpos])
        hclear fuel hrun
      refine ⟨fuel', ?_⟩
      rw [Nat.add_comm n 1, ← Nat.add_assoc]
      exact hrun'

/-- What a call returns it returns from behind the white space that it starts at. -/
theorem call_white (hnonempty : 0 < inp.s.length)
    (hplain : inp.has (flagQuoteSingle ||| flagQuoteDouble) = false) {sf : Scan} {n : ℕ}
    (hwhite : ∀ i, i < n → ∃ ch, inp.s[sf.pos + i]? = some ch ∧ isPassed ch = true)
    {r : Bool × Scan} (hcall : libinjectionSqliTokenize inp sf = .ok r) :
    ∃ fuel, loop (tokenizeTurn inp) fuel { sf with pos := sf.pos + n, current := Token.clear } =
      .ok r := by
  have hnone : ¬(sf.pos = 0 ∧ inp.has (flagQuoteSingle ||| flagQuoteDouble) = true) := by
    rw [hplain]
    exact fun h => Bool.false_ne_true h.2
  rw [libinjectionSqliTokenize, if_neg (Nat.ne_of_gt hnonempty)] at hcall
  change (if sf.pos = 0 ∧ inp.has (flagQuoteSingle ||| flagQuoteDouble) = true then _ else _) = _
    at hcall
  rw [if_neg hnone] at hcall
  exact @loop_white inp n sf.pos hwhite { sf with current := Token.clear } rfl rfl _ r hcall

end White

section Streams
variable {o : UInt8 → UInt8} {inp inp' : Input}

/-- Scans of which tokens are left that look the same, after as many tokens. -/
structure SameRest (o : UInt8 → UInt8) (inp inp' : Input) (sf sf' : Scan) : Prop where
  within : sf.pos ≤ inp.s.length
  within' : sf'.pos ≤ inp'.s.length
  counted : sf.statsTokens = sf'.statsTokens
  rest : ∃ fuel fuel' tokens tokens', tokenStream inp fuel sf = .ok tokens ∧
    tokenStream inp' fuel' sf' = .ok tokens' ∧ Alike (seen o) tokens tokens'

theorem lockstep_of_streams (hkeywords : inp'.keywords = inp.keywords)
    (hnonempty : 0 < inp.s.length) (hnonempty' : 0 < inp'.s.length) :
    Lockstep (SameRest o inp inp') o inp inp' where
  keywords := hkeywords
  counted := fun _ _ hs => hs.counted
  call := by
    intro sf sf' hs slot slot' hslot r r' hr hr'
    have hreturned := call_returned hnonempty hs.within hr
    have hreturned' := call_returned hnonempty' hs.within' hr'
    have hcounted : r.1 = r'.1 → r.2.statsTokens = r'.2.statsTokens := by
      intro hmore
      rw [hreturned.counted, hreturned'.counted, hs.counted, hmore]
    obtain ⟨fuel, fuel', tokens, tokens', hstream, hstream', hsame⟩ := hs.rest
    rcases stream_next hnonempty hr hstream with ⟨hmore, n, rest, hrest, rfl⟩ | ⟨hmore, rfl⟩
    · rcases stream_next hnonempty' hr' hstream' with
        ⟨hmore', n', rest', hrest', rfl⟩ | ⟨-, rfl⟩
      · obtain ⟨hhead, htail⟩ := List.cons.inj hsame
        have hboth := hmore.trans hmore'.symm
        exact ⟨hboth, ⟨hreturned.within, hreturned'.within, hcounted hboth, n, n', rest, rest',
          hrest, hrest', htail⟩, hhead⟩
      · cases hsame
    · rcases stream_next hnonempty' hr' hstream' with ⟨-, n', rest', -, rfl⟩ | ⟨hmore', -⟩
      · cases hsame
      · obtain ⟨hpos, hclear⟩ := hreturned.ended hmore
        obtain ⟨hpos', hclear'⟩ := hreturned'.ended hmore'
        have hboth := hmore.trans hmore'.symm
        refine ⟨hboth, ⟨hreturned.within, hreturned'.within, hcounted hboth, 1, 1, [], [],
          tokenStream_ended hpos, tokenStream_ended hpos', rfl⟩, ?_⟩
        rw [hclear, hclear']
        rfl

/-- The tokens of an input. -/
def tokensOf (inp : Input) : List Token :=
  match tokenStream inp (inp.s.length + 1) resetState.scan with
  | .ok tokens => tokens
  | .error _ => []

theorem tokensOf_ok (inp : Input) :
    tokenStream inp (inp.s.length + 1) resetState.scan = .ok (tokensOf inp) := by
  obtain ⟨tokens, htokens, -⟩ := tokens_in_order inp Token.clear
  have hstream : tokenStream inp (inp.s.length + 1) resetState.scan = .ok tokens := htokens
  rw [tokensOf, hstream]

end Streams

section Unfolded
variable {inp : Input} {tokens : List Token} {sf : Scan}

/-- What calls have returned, whatever their slots held, is the first part of the stream, and the
rest of it is what the next calls return. -/
theorem calls_leading (hnonempty : 0 < inp.s.length) (h : Calls inp tokens sf) :
    ∃ fuel rest, tokenStream inp fuel sf = .ok rest ∧ tokensOf inp = tokens ++ rest := by
  induction h with
  | start slot =>
    refine ⟨inp.s.length + 1, tokensOf inp, ?_, rfl⟩
    exact (tokenStream_slot hnonempty resetState.scan slot).trans (tokensOf_ok inp)
  | @call tokens sf sf' slot more h hcall ih =>
    obtain ⟨fuel, rest, hstream, hsplit⟩ := ih
    rcases stream_next hnonempty hcall hstream with ⟨hmore, n, later, hlater, rfl⟩ | ⟨hmore, rfl⟩
    · obtain rfl : more = true := hmore
      exact ⟨n, later, hlater, hsplit.trans (List.append_cons tokens sf'.current later)⟩
    · obtain rfl : more = false := hmore
      -- the fold may call again at the end of the text, where the stream is over
      have hend := ((call_returned hnonempty h.counted.1 hcall).ended rfl).1
      exact ⟨1, [], tokenStream_ended hend, hsplit⟩

theorem calls_empty (hempty : inp.s.length = 0) (h : Calls inp tokens sf) : tokens = [] := by
  induction h with
  | start slot => rfl
  | call slot more h hcall ih =>
    rw [libinjectionSqliTokenize, if_pos hempty] at hcall
    cases hcall
    exact ih

theorem calls_take (h : Calls inp tokens sf) :
    tokens = (tokensOf inp).take sf.statsTokens := by
  rw [← h.counted.2]
  rcases Nat.eq_zero_or_pos inp.s.length with hempty | hnonempty
  · rw [calls_empty hempty h]
    rfl
  · obtain ⟨fuel, rest, -, hsplit⟩ := calls_leading hnonempty h
    rw [hsplit, List.take_left]

/-- Where the fold has as many tokens as were read, its slots hold the tokens that were read, with
only their types changed: they are the text in order, without overlap and letter by letter. -/
theorem unfolded_verbatim (inp : Input) :
    ∃ sf n, libinjectionSqliFold inp resetState = .ok (sf, n) ∧
      (sf.scan.statsTokens ≤ n →
        (sf.tokenvec.take n).map untyped =
          ((tokensOf inp).take sf.scan.statsTokens).map untyped ∧
        InOrder inp 0 (sf.tokenvec.take n)) := by
  obtain ⟨⟨sf, n⟩, hfold, -, hasRead⟩ := foldReset_holds inp
  refine ⟨sf, n, hfold, fun hle => ⟨?_, ?_⟩⟩
  · obtain ⟨read, hread, hsame⟩ := (hasRead.raw hle).calls
    exact hsame.trans (congrArg _ (calls_take hread))
  · have hpieces := hasRead.pieces hle
    refine ⟨fun t _ => Nat.zero_le t.pos, hpieces.apart, fun t ht => ?_⟩
    have htoken := hpieces.each t ht
    exact ⟨htoken.stop.trans htoken.within, htoken.len_lt, htoken.val⟩

end Unfolded

section Fingerprint
variable {s s' : Bytes} {table : KeywordTable} {flags flags' : ℕ}

/-- A quote that opens a token is seen as far as it is a backquote. -/
def tickOnly (ch : UInt8) : UInt8 := if ch = charTick then charTick else charNull

theorem respects_tickOnly : Respects tickOnly (· == charTick) := by
  have hshown : ∀ ch, (ch == charTick) = (tickOnly ch == charTick) := by
    intro ch
    unfold tickOnly
    split_ifs with htick
    · rw [htick]
    · exact beq_eq_false_iff_ne.mpr htick
  intro a b hab
  change (a == charTick) = (b == charTick)
  rw [hshown a, hshown b, hab]

/-- The tokens of two texts look the same. -/
def SameTokens (o : UInt8 → UInt8) (inp inp' : Input) : Prop :=
  (tokensOf inp).map (seen o) = (tokensOf inp').map (seen o)

theorem states_of_tokens {o : UInt8 → UInt8} (ho : Respects o (· == charTick)) (hs : s ≠ [])
    (hs' : s' ≠ []) (h : SameTokens o (resetInput s table flags) (resetInput s' table flags')) :
    Related (SameState (SameRest o (resetInput s table flags) (resetInput s' table flags')) o)
      (libinjectionSqliFingerprint s table flags)
      (libinjectionSqliFingerprint s' table flags') := by
  have hlockstep : Lockstep (SameRest o (resetInput s table flags) (resetInput s' table flags')) o
      (resetInput s table flags) (resetInput s' table flags') :=
    lockstep_of_streams rfl (List.length_pos_iff.mpr hs) (List.length_pos_iff.mpr hs')
  have hstart : SameRest o (resetInput s table flags) (resetInput s' table flags')
      resetState.scan resetState.scan :=
    ⟨Nat.zero_le _, Nat.zero_le _, rfl, _, _, _, _, tokensOf_ok _, tokensOf_ok _, h⟩
  exact fingerprint_related ho hlockstep (@tokenizeAt_of_call _ _ _ _ resetState resetState rfl 0
    (hlockstep.call _ _ hstart))

/-- The fingerprint is one of the tokens: not of their positions, nor of the case of letters, nor
of what stands between them. -/
theorem fingerprint_of_tokens (table : KeywordTable) (hs : s ≠ []) (hs' : s' ≠ [])
    (h : SameTokens tickOnly (resetInput s table flags) (resetInput s' table flags')) :
    ∃ st st', libinjectionSqliFingerprint s table flags = .ok st ∧
      libinjectionSqliFingerprint s' table flags' = .ok st' ∧ st.fingerprint = st'.fingerprint := by
  obtain ⟨st, hst, -⟩ := @fingerprint_holds s table flags
  obtain ⟨st', hst', -⟩ := @fingerprint_holds s' table flags'
  exact ⟨st, st', hst, hst',
    (states_of_tokens respects_tickOnly hs hs' h st st' hst hst').fingerprint⟩

theorem fingerprint_of_tokens_union : ∃ st st',
    libinjectionSqliFingerprint (bytes "1 union select a") sampleTable
        (flagQuoteNone ||| flagSqlAnsi) = .ok st ∧
      libinjectionSqliFingerprint (bytes "1\n UNION\tselect a ") sampleTable
        (flagQuoteNone ||| flagSqlAnsi) = .ok st' ∧ st.fingerprint = st'.fingerprint :=
  fingerprint_of_tokens sampleTable (by decide) (by decide) (by unfold SameTokens; decide +kernel)

end Fingerprint

section Verdict
variable {s s' : Bytes} {table : KeywordTable} {flags flags' : ℕ}

theorem respects_id_tick : Respects (id : UInt8 → UInt8) (· == charTick) := by
  intro a b hab
  rw [show a = b from hab]

/-- No comment starts anywhere in the text. -/
def Uncommented (s : Bytes) : Prop := ∀ i, ¬OpensComment (s.drop i)

theorem sameNumber_uncommented (huncommented : Uncommented s) {st : SqliState} {pattern : Bytes}
    (hpattern : Fingerprinted (resetInput s table flags) st pattern)
    (hlength : pattern.length = 2) : SameNumber s s' st := by
  intro hfew t0 t0' t1 _ hslot htype
  have htrail := hpattern.raw hlength hfew
  have hmem : t1 ∈ st.sf.tokenvec.take 2 := by
    refine List.mem_of_getElem? (i := 1) ?_
    rw [List.getElem?_take_of_lt (by decide), hslot]
  exact absurd ((htrail.each t1 hmem).comment htype) (huncommented t1.pos)

/-- Without comments the verdict of a context is one of the tokens. -/
theorem flaggedIn_of_tokens (hs : s ≠ []) (hs' : s' ≠ []) (huncommented : Uncommented s)
    (hpassword : auditsPassword s' = auditsPassword s)
    (h : SameTokens id (resetInput s table flags) (resetInput s' table flags')) :
    flaggedIn s' table flags' = flaggedIn s table flags := by
  obtain ⟨st, hst, pattern, hpattern⟩ := @fingerprint_holds s table flags
  obtain ⟨st', hst', pattern', hpattern'⟩ := @fingerprint_holds s' table flags'
  have hsame := states_of_tokens respects_id_tick hs hs' h st st' hst hst'
  obtain ⟨found, hfound, -⟩ := checkFingerprint_holds s table hpattern
  obtain ⟨found', hfound', -⟩ := checkFingerprint_holds s' table hpattern'
  have heq : found = found' := checkFingerprint_related hpattern hsame hsame.scan.counted hpassword
    (sameNumber_uncommented huncommented hpattern) found found' hfound hfound'
  rw [flaggedIn, flaggedIn, testContext, testContext, hst, hst', bind_ok, bind_ok, hfound, hfound',
    heq]
  rfl

end Verdict
end WafWasm.TokenStreams
