import WafWasm.QuoteContexts
import WafWasm.TokenStreams

set_option autoImplicit false

namespace WafWasm.RespelledVerdicts
open CheckedMemory RelatedRuns Common LibinjectionTokens LibinjectionKeywords LibinjectionParsers
open LibinjectionFold LibinjectionVerdict TokenSpans TokenRuns FoldSteps FoldRuns Fingerprints
open Verdicts MysqlReparse QuoteContexts Respelling RespelledTokens LockstepFolds LockstepVerdicts
open TokenStreams

section Scans
variable {d : ℕ} {o : UInt8 → UInt8} {inp inp' : Input} {sf sf' : Scan}

structure Behind (d : ℕ) (o : UInt8 → UInt8) (inp : Input) (sf sf' : Scan) : Prop where
  same : SameScan d o sf sf'
  started : 0 < sf.pos
  within : sf.pos ≤ inp.s.length

theorem behind_of_call (hwithin : sf.pos ≤ inp.s.length) (hnonempty : 0 < inp.s.length)
    (hcall : Related (SameCall d o) (libinjectionSqliTokenize inp sf)
      (libinjectionSqliTokenize inp' sf')) :
    Related (SameReturn (Behind d o inp) o) (libinjectionSqliTokenize inp sf)
      (libinjectionSqliTokenize inp' sf') := by
  refine (hcall.and (tokenize_holds hwithin)).imp fun r r' hr => ?_
  obtain ⟨more, scan⟩ := r
  obtain ⟨⟨hmore, hsame⟩, htokenized⟩ := hr
  have hbounds : 0 < scan.pos ∧ scan.pos ≤ inp.s.length := by
    cases more with
    | true =>
      have hlt : sf.pos < scan.pos := htokenized.1
      exact ⟨by omega, htokenized.2.1.within⟩
    | false =>
      have hend : scan.pos = inp.s.length := htokenized.1
      omega
  exact ⟨hmore, ⟨hsame, hbounds.1, hbounds.2⟩, hsame.current⟩

theorem lockstep_of_alike (h : AlikeInputs d inp inp') :
    Lockstep (Behind d o inp) o inp inp' where
  keywords := h.keywords
  counted := fun _ _ hs => hs.same.tokens
  call := by
    intro sf sf' hs slot slot' hslot
    have hstarted := hs.started
    have hwithin := hs.within
    exact behind_of_call hwithin (by omega)
      (tokenize_related h (hs.same.holding hslot) hstarted (by omega))

end Scans

section Verdict
variable {s s' : Bytes} {table : KeywordTable} {inp : Input} {st st' : SqliState}

theorem numberComment_related (h : Respelled 0 s s') {t t' : Token} (ht : SameToken id t t') :
    Related Eq (numberComment s t) (numberComment s' t') := by
  have hspace : Respects upper (fun ch => decide (signed ch ≤ 32)) :=
    respects_of_all (by decide +kernel)
  have hlen := ht.len
  refine (h.readAt (by omega)).bind fun ch ch' hch => ?_
  have hsame : decide (signed ch ≤ 32) = decide (signed ch' ≤ 32) := hspace ch ch' hch
  refine related_ite (decide_eq_decide.mp hsame) (fun _ _ => related_pure rfl) fun _ _ => ?_
  refine related_ite (symbol_iff (by decide) hch) (fun _ _ => ?_) fun _ _ => ?_
  · exact (h.readAt (by omega)).bind fun next next' hnext =>
      related_pure (respects_symbol (by decide) next next' hnext)
  refine related_ite (symbol_iff (by decide) hch) (fun _ _ => ?_) fun _ _ => related_pure rfl
  exact (h.readAt (by omega)).bind fun next next' hnext =>
    related_pure (respects_symbol (by decide) next next' hnext)

theorem reparseAsMysql_related (hst : SameState (Behind 0 id inp) id st st') :
    reparseAsMysql st = reparseAsMysql st' := by
  rw [reparseAsMysql, reparseAsMysql, hst.scan.same.ddx, hst.scan.same.hash]

end Verdict

section FirstCalls
variable {d : ℕ} {o : UInt8 → UInt8} {inp inp' : Input}

theorem symbol_delim (inp : Input) : isSymbol (flag2delim inp) = true := by
  unfold flag2delim
  split_ifs
  · rfl
  · rfl
  · rfl

theorem tokenize_same (h : AlikeInputs 0 inp inp') (hflags : inp'.flags = inp.flags) {sf sf' : Scan}
    (hs : SameScan 0 o sf sf') : Related (SameCall 0 o) (libinjectionSqliTokenize inp sf)
      (libinjectionSqliTokenize inp' sf') := by
  have hpos := hs.pos
  have hlength := h.length
  have hcleared := hs.holding (@rfl _ (seen o Token.clear))
  have hhas : ∀ flag, inp'.has flag = inp.has flag := by
    intro flag
    rw [Input.has, Input.has, hflags]
  have hdelim : flag2delim inp' = flag2delim inp := by
    rw [flag2delim, flag2delim, hhas, hhas]
  refine related_ite (by omega) (fun _ _ => related_pure ⟨rfl, hs⟩) fun _ _ => ?_
  have hstart : sf.pos = 0 ↔ sf'.pos = 0 := by omega
  refine related_ite (and_congr hstart (by rw [hhas])) (fun _ _ => ?_) fun _ _ => ?_
  · rw [hdelim]
    refine (hcleared.stringCore h (symbol_delim inp) 0).bind fun r r' hr => ?_
    exact related_pure ⟨rfl, hr.1, hr.2.current, hr.2.ddx, hr.2.hash, congrArg (· + 1) hr.2.tokens⟩
  · exact related_loop (tokenizeTurn_related h) hcleared

def opening (slot : Token) : Scan := ⟨0, slot, 0, 0, 0⟩

/-- The two first literals: the quote of the first one stands in front of the text. -/
theorem opening_related (h : AlikeInputs 1 inp inp') {delim : UInt8}
    (hdelim : isSymbol delim = true) (ho : o charNull = o delim) :
    Related (fun r r' => r'.1 = 1 + r.1 ∧ SameToken o r.2.current r'.2.current ∧
        r.2 = opening r.2.current ∧ r'.2 = opening r'.2.current)
      ((opening Token.clear).stringCore inp delim 0)
      ((opening Token.clear).stringCore inp' delim 1) :=
  (parseStringCore_related h (@rfl _ (seen o Token.clear)) hdelim
    (show 0 + 1 = 1 + (0 + 0) from rfl) ho).bind fun _ _ hr => related_pure ⟨hr.1, hr.2, rfl, rfl⟩

theorem map_quote {delim : UInt8} (hquote : delim = charSingle ∨ delim = charDouble) :
    readAt charParseMap delim.toNat = .ok .string := by
  rcases hquote with rfl | rfl
  · rfl
  · rfl

/-- A text behind a quote that it is told of, and the same text with the quote in front. -/
theorem tokenize_quoted {delim : UInt8} (h : AlikeInputs 1 inp inp')
    (hopen : inp'.s = delim :: inp.s) (hquote : delim = charSingle ∨ delim = charDouble)
    (hquoted : inp.has (flagQuoteSingle ||| flagQuoteDouble) = true)
    (hdelim : flag2delim inp = delim)
    (hplain : inp'.has (flagQuoteSingle ||| flagQuoteDouble) = false)
    (hnonempty : 0 < inp.s.length) (ho : o charNull = o delim) (slot slot' : Token) :
    Related (SameCall 1 o) (libinjectionSqliTokenize inp (opening slot))
      (libinjectionSqliTokenize inp' (opening slot')) := by
  have hsymbol : isSymbol delim = true := by
    rw [← hdelim]
    exact symbol_delim inp
  have hlength := h.length
  have hfirst : libinjectionSqliTokenize inp (opening slot) =
      ((opening Token.clear).stringCore inp delim 0 >>= fun r =>
        pure (true, { r.2 with pos := r.1, statsTokens := r.2.statsTokens + 1 })) := by
    rw [libinjectionSqliTokenize, if_neg (by omega), ← hdelim]
    exact if_pos ⟨rfl, hquoted⟩
  have hloop : libinjectionSqliTokenize inp' (opening slot') =
      loop (tokenizeTurn inp') (inp'.s.length + 1) (opening Token.clear) := by
    rw [libinjectionSqliTokenize, if_neg (by omega)]
    refine if_neg fun hcond => ?_
    rw [hplain] at hcond
    exact Bool.false_ne_true hcond.2
  have hread : readAt inp'.s 0 = .ok delim := by
    rw [hopen]
    rfl
  have hturn : tokenizeTurn inp' (opening Token.clear) =
      ((opening Token.clear).stringCore inp' delim 1 >>= fun r =>
        if r.2.current.type ≠ charNull then
          pure (.inr (true, { r.2 with pos := r.1, statsTokens := r.2.statsTokens + 1 }))
        else pure (.inl { r.2 with pos := r.1 })) := by
    rw [tokenizeTurn]
    change (if 0 < inp'.s.length then _ else _) = _
    rw [if_pos (by omega)]
    change (readAt inp'.s 0 >>= _) = _
    rw [hread, bind_ok, map_quote hquote, bind_ok]
    change ((readAt inp'.s 0 >>= _) >>= _) = _
    rw [hread, bind_ok]
  rw [hfirst, hloop, loop, hturn, bind_assoc]
  refine ((opening_related h hsymbol ho).and (@stringCore_scanned inp (opening Token.clear) rfl
    hnonempty 0 (Nat.zero_le _) delim)).bind fun r r' hr => ?_
  obtain ⟨⟨hstop, htoken, hr, hr'⟩, hscanned⟩ := hr
  have htyped : r'.2.current.type ≠ charNull := by
    rw [← SameToken.type htoken]
    exact hscanned.token.typed
  rw [if_pos htyped, hr, hr']
  exact related_pure ⟨rfl, hstop, htoken, rfl, rfl, rfl⟩

theorem tokenize_white (h : AlikeInputs d inp inp')
    (hplain : inp.has (flagQuoteSingle ||| flagQuoteDouble) = false)
    (hplain' : inp'.has (flagQuoteSingle ||| flagQuoteDouble) = false)
    (hwhite : ∀ i, i < d → ∃ ch, inp'.s[0 + i]? = some ch ∧ isPassed ch = true)
    (hnonempty : 0 < inp.s.length) (slot slot' : Token) :
    Related (SameCall d o) (libinjectionSqliTokenize inp (opening slot))
      (libinjectionSqliTokenize inp' (opening slot')) := by
  have hlength := h.length
  have hloop : ∀ (i : Input) (t : Token), 0 < i.s.length →
      i.has (flagQuoteSingle ||| flagQuoteDouble) = false →
        libinjectionSqliTokenize i (opening t) =
          loop (tokenizeTurn i) (i.s.length + 1) (opening Token.clear) := by
    intro i t hlong hnone
    rw [libinjectionSqliTokenize, if_neg (by omega)]
    refine if_neg fun hcond => ?_
    rw [hnone] at hcond
    exact Bool.false_ne_true hcond.2
  rw [hloop inp slot hnonempty hplain, hloop inp' slot' (by omega) hplain']
  intro r r' hr hr'
  obtain ⟨fuel, hbehind⟩ := loop_white hwhite (show (opening Token.clear).pos = 0 from rfl) rfl hr'
  rw [Nat.zero_add] at hbehind
  refine related_loop (tokenizeTurn_related h) ?_ r r' hr hbehind
  exact ⟨rfl, rfl, rfl, rfl, rfl⟩

end FirstCalls

section Results
variable {s s' : Bytes} {table : KeywordTable}

theorem alikeInputs_of {d : ℕ} (h : Respelled d s s') {flags flags' : ℕ}
    (hansi : resetFlags flags' &&& flagSqlAnsi = resetFlags flags &&& flagSqlAnsi)
    (hmysql : resetFlags flags' &&& flagSqlMysql = resetFlags flags &&& flagSqlMysql) :
    AlikeInputs d (resetInput s table flags) (resetInput s' table flags') := by
  refine ⟨h, rfl, ?_, ?_⟩
  · change (resetFlags flags' &&& flagSqlAnsi != 0) = (resetFlags flags &&& flagSqlAnsi != 0)
    rw [hansi]
  · change (resetFlags flags' &&& flagSqlMysql != 0) = (resetFlags flags &&& flagSqlMysql != 0)
    rw [hmysql]

theorem firstSlots {d : ℕ} {o : UInt8 → UInt8} {inp inp' : Input} (hnonempty : 0 < inp.s.length)
    (hcall : ∀ slot slot', SameToken o slot slot' → Related (SameCall d o)
      (libinjectionSqliTokenize inp (opening slot))
      (libinjectionSqliTokenize inp' (opening slot'))) :
    Related (SameSlots (Behind d o inp) o) (tokenizeAt inp resetState 0)
      (tokenizeAt inp' resetState 0) :=
  @tokenizeAt_of_call _ o inp inp' resetState resetState rfl 0 fun slot slot' hslot =>
    behind_of_call (Nat.zero_le _) hnonempty (hcall slot slot' hslot)

theorem testContext_related (h : Respelled 0 s s')
    (hpassword : auditsPassword s' = auditsPassword s) (hnonempty : 0 < s.length) (flags : ℕ) :
    Related Eq (testContext s table flags) (testContext s' table flags) := by
  have hinputs := @alikeInputs_of s s' table 0 h flags flags rfl rfl
  have hfirst := firstSlots (o := id) hnonempty fun slot slot' hslot =>
    @tokenize_same id _ _ hinputs rfl (opening slot) (opening slot') ⟨rfl, hslot, rfl, rfl, rfl⟩
  have hspelt := (fingerprint_related respects_id_tick (lockstep_of_alike hinputs) hfirst).and
    (@fingerprint_holds s table flags)
  refine hspelt.bind fun st st' h' => ?_
  obtain ⟨hst, pattern, hpattern⟩ := h'
  refine (checkFingerprint_related hpattern hst hst.scan.same.tokens hpassword
    fun _ _ _ _ _ ht _ _ => numberComment_related h ht).bind fun found found' heq =>
      related_pure ?_
  rw [heq, reparseAsMysql_related hst]

theorem testQuote_related (h : Respelled 0 s s')
    (hpassword : auditsPassword s' = auditsPassword s) (hnonempty : 0 < s.length) (quote : ℕ) :
    Related Eq (testQuote s table quote) (testQuote s' table quote) := by
  refine (testContext_related h hpassword hnonempty _).bind fun r r' heq => ?_
  subst heq
  obtain ⟨found, reparse⟩ := r
  refine related_ite Iff.rfl (fun _ _ => related_pure rfl) fun _ _ => ?_
  refine related_ite Iff.rfl (fun _ _ => ?_) fun _ _ => related_pure rfl
  refine (testContext_related h hpassword hnonempty _).bind fun r r' heq => ?_
  subst heq
  exact related_pure rfl

theorem isSqli_related (h : Respelled 0 s s')
    (hpassword : auditsPassword s' = auditsPassword s) :
    Related Eq (libinjectionIsSqli s table) (libinjectionIsSqli s' table) := by
  have hlength : s'.length = s.length := by
    rw [h.length, Nat.zero_add]
  have hsearch : ∀ {ch : UInt8}, isSymbol ch = true →
      Related (fun r r' => r' = r.map (0 + ·)) (memchr s 0 s.length ch)
        (memchr s' 0 s'.length ch) := by
    intro ch hch
    rw [hlength]
    exact h.memchr rfl hch
  refine related_ite (by omega) (fun _ _ => related_pure rfl) fun hlong _ => ?_
  have hnonempty : 0 < s.length := by omega
  refine (testQuote_related h hpassword hnonempty flagQuoteNone).bind fun none none' heq => ?_
  subst heq
  refine related_ite Iff.rfl (fun _ _ => related_pure rfl) fun _ _ => ?_
  have hsingle : Related Eq (testSingle s table) (testSingle s' table) := by
    refine (hsearch (show isSymbol charSingle = true by decide)).bind fun r r' hr => ?_
    refine related_ite (by rw [hr, Option.isSome_map]) (fun _ _ => ?_) fun _ _ => related_pure rfl
    exact testQuote_related h hpassword hnonempty flagQuoteSingle
  refine hsingle.bind fun single single' heq => ?_
  subst heq
  refine related_ite Iff.rfl (fun _ _ => related_pure rfl) fun _ _ => ?_
  refine (hsearch (show isSymbol charDouble = true by decide)).bind fun r r' hr => ?_
  refine related_ite (by rw [hr, Option.isSome_map]) (fun _ _ => ?_) fun _ _ => related_pure rfl
  refine (testContext_related h hpassword hnonempty _).bind fun r r' heq => ?_
  subst heq
  exact related_pure rfl

/-- To write letters in the other case does not hide an injection, nor does it raise an alarm. -/
theorem isSqli_ignores_case (table : KeywordTable) (h : Respelled 0 s s')
    (hpassword : auditsPassword s' = auditsPassword s) :
    libinjectionIsSqli s' table = libinjectionIsSqli s table := by
  obtain ⟨found, hfound, -⟩ := isSqli_holds s table
  obtain ⟨found', hfound', -⟩ := isSqli_holds s' table
  have hsame := @isSqli_related s s' table h hpassword found found' hfound hfound'
  rw [hfound, hfound', hsame]

theorem isSqli_ignores_case_union :
    libinjectionIsSqli (bytes "1 uNiOn SeLeCt a") sampleTable =
      libinjectionIsSqli (bytes "1 union select a") sampleTable :=
  isSqli_ignores_case sampleTable
    (respelled_of_plain (by decide) (by decide) (by decide) (by decide)) (by decide)

theorem plain_reset {dialect : ℕ} (h : dialect = flagSqlAnsi ∨ dialect = flagSqlMysql) :
    (resetInput s table (flagQuoteNone ||| dialect)).has (flagQuoteSingle ||| flagQuoteDouble) =
      false := by
  rcases h with rfl | rfl
  · exact unquoted_reset (by decide)
  · exact unquoted_reset (by decide)

def StandsFor (quote : ℕ) (delim : UInt8) : Prop :=
  quote = flagQuoteSingle ∧ delim = charSingle ∨ quote = flagQuoteDouble ∧ delim = charDouble

theorem quote_flags {quote dialect : ℕ} {delim : UInt8} (hquote : StandsFor quote delim)
    (hdialect : dialect = flagSqlAnsi ∨ dialect = flagSqlMysql) :
    resetFlags (flagQuoteNone ||| dialect) &&& flagSqlAnsi =
        resetFlags (quote ||| dialect) &&& flagSqlAnsi ∧
      resetFlags (flagQuoteNone ||| dialect) &&& flagSqlMysql =
        resetFlags (quote ||| dialect) &&& flagSqlMysql ∧
      (resetFlags (quote ||| dialect) &&& (flagQuoteSingle ||| flagQuoteDouble) != 0) = true := by
  rcases hquote with ⟨rfl, -⟩ | ⟨rfl, -⟩
  · rcases hdialect with rfl | rfl
    · exact ⟨rfl, rfl, rfl⟩
    · exact ⟨rfl, rfl, rfl⟩
  · rcases hdialect with rfl | rfl
    · exact ⟨rfl, rfl, rfl⟩
    · exact ⟨rfl, rfl, rfl⟩

theorem delim_stands {quote dialect : ℕ} {delim : UInt8} (hquote : StandsFor quote delim)
    (hdialect : dialect = flagSqlAnsi ∨ dialect = flagSqlMysql) :
    flag2delim (resetInput s table (quote ||| dialect)) = delim := by
  rcases hquote with ⟨rfl, rfl⟩ | ⟨rfl, rfl⟩
  · rcases hdialect with rfl | rfl
    · exact delim_single (by decide)
    · exact delim_single (by decide)
  · rcases hdialect with rfl | rfl
    · exact delim_double (by decide) (by decide)
    · exact delim_double (by decide) (by decide)

/-- The context of a quote reads an input as the plain context reads it behind the quote. -/
theorem fingerprint_behind_quote (table : KeywordTable) {quote dialect : ℕ} {delim : UInt8}
    (hquote : StandsFor quote delim)
    (hdialect : dialect = flagSqlAnsi ∨ dialect = flagSqlMysql) (hnonempty : s ≠ [])
    (hdollar : dollar ∉ s) :
    ∃ st st', libinjectionSqliFingerprint s table (quote ||| dialect) = .ok st ∧
      libinjectionSqliFingerprint (delim :: s) table (flagQuoteNone ||| dialect) = .ok st' ∧
      st.fingerprint = st'.fingerprint := by
  obtain ⟨hansi, hmysql, hquoted⟩ := quote_flags hquote hdialect
  have hinputs : AlikeInputs 1 (resetInput s table (quote ||| dialect))
      (resetInput (delim :: s) table (flagQuoteNone ||| dialect)) :=
    alikeInputs_of (@respelled_behind s [delim] hdollar) hansi hmysql
  have hdelim : delim = charSingle ∨ delim = charDouble := by
    rcases hquote with ⟨-, rfl⟩ | ⟨-, rfl⟩
    · exact .inl rfl
    · exact .inr rfl
  have hopener : tickOnly charNull = tickOnly delim := by
    rcases hdelim with rfl | rfl
    · rfl
    · rfl
  have hfirst := firstSlots (o := tickOnly) (List.length_pos_iff.mpr hnonempty) fun slot slot' _ =>
    tokenize_quoted hinputs rfl hdelim (quoted_reset hquoted) (delim_stands hquote hdialect)
      (plain_reset hdialect) (List.length_pos_iff.mpr hnonempty) hopener slot slot'
  obtain ⟨st, hst, -⟩ := @fingerprint_holds s table (quote ||| dialect)
  obtain ⟨st', hst', -⟩ := @fingerprint_holds (delim :: s) table (flagQuoteNone ||| dialect)
  have hsame := fingerprint_related respects_tickOnly (lockstep_of_alike hinputs) hfirst
  exact ⟨st, st', hst, hst', (hsame st st' hst hst').fingerprint⟩

theorem fingerprint_behind_quote_or : ∃ st st',
    libinjectionSqliFingerprint (bytes "x' or 'a") sampleTable (flagQuoteSingle ||| flagSqlAnsi) =
        .ok st ∧
      libinjectionSqliFingerprint (charSingle :: bytes "x' or 'a") sampleTable
        (flagQuoteNone ||| flagSqlAnsi) = .ok st' ∧ st.fingerprint = st'.fingerprint :=
  fingerprint_behind_quote sampleTable (.inl ⟨rfl, rfl⟩) (.inl rfl) (by decide) (by decide)

/-- White space in front of an input does not change what the plain context reads. -/
theorem fingerprint_behind_white (table : KeywordTable) {dialect : ℕ} {white : Bytes}
    (hwhite : ∀ ch ∈ white, isPassed ch = true)
    (hdialect : dialect = flagSqlAnsi ∨ dialect = flagSqlMysql) (hnonempty : s ≠ [])
    (hdollar : dollar ∉ s) :
    ∃ st st', libinjectionSqliFingerprint s table (flagQuoteNone ||| dialect) = .ok st ∧
      libinjectionSqliFingerprint (white ++ s) table (flagQuoteNone ||| dialect) = .ok st' ∧
      st.fingerprint = st'.fingerprint := by
  have hinputs : AlikeInputs white.length (resetInput s table (flagQuoteNone ||| dialect))
      (resetInput (white ++ s) table (flagQuoteNone ||| dialect)) :=
    alikeInputs_of (respelled_behind hdollar) rfl rfl
  have hlead : ∀ i, i < white.length → ∃ ch, (white ++ s)[0 + i]? = some ch ∧
      isPassed ch = true := by
    intro i hi
    refine ⟨white[i], ?_, hwhite _ (List.getElem_mem hi)⟩
    rw [Nat.zero_add, List.getElem?_append_left hi, List.getElem?_eq_getElem hi]
  have hfirst := firstSlots (o := id) (List.length_pos_iff.mpr hnonempty) fun slot slot' _ =>
    tokenize_white hinputs (plain_reset hdialect) (plain_reset hdialect) hlead
      (List.length_pos_iff.mpr hnonempty) slot slot'
  obtain ⟨st, hst, -⟩ := @fingerprint_holds s table (flagQuoteNone ||| dialect)
  obtain ⟨st', hst', -⟩ := @fingerprint_holds (white ++ s) table (flagQuoteNone ||| dialect)
  have hsame := fingerprint_related respects_id_tick (lockstep_of_alike hinputs) hfirst
  exact ⟨st, st', hst, hst', (hsame st st' hst hst').fingerprint⟩

theorem fingerprint_behind_white_union : ∃ st st',
    libinjectionSqliFingerprint (bytes "1 union select a") sampleTable
        (flagQuoteNone ||| flagSqlMysql) = .ok st ∧
      libinjectionSqliFingerprint (bytes " \t" ++ bytes "1 union select a") sampleTable
        (flagQuoteNone ||| flagSqlMysql) = .ok st' ∧ st.fingerprint = st'.fingerprint :=
  fingerprint_behind_white sampleTable (by decide +kernel) (.inr rfl) (by decide) (by decide)

end Results
end WafWasm.RespelledVerdicts
