import WafWasm.MysqlReparse

set_option autoImplicit false

namespace WafWasm.QuoteContexts
open CheckedMemory Common LibinjectionTokens LibinjectionKeywords LibinjectionParsers
open LibinjectionFold LibinjectionVerdict KeywordLookup InputSearches TokenSpans FoldSteps
open FoldRuns FoldCounts FoldShapes Fingerprints Verdicts MysqlReparse

variable {inp : Input}

section OneToken

/-- The whole text is one token, with `P` of its type. -/
structure OneToken (inp : Input) (P : UInt8 → Prop) (f : Folding) : Prop where
  pos : f.pos = 1
  ended : f.sf.scan.pos = inp.s.length
  kind : P (slotType f 0)
  comment : f.lastComment.type ≠ typeComment

def TokenOnly (P : UInt8 → Prop) (r : Sfilter × ℕ) : Prop := r.2 = 1 ∧ P (typeAt r.1.tokenvec 0)

variable {P : UInt8 → Prop}

theorem OneToken.fetched {f g : Folding} (h : OneToken inp P f) (hfetched : Fetched inp f g) :
    OneToken inp P g := by
  have hended := h.ended
  cases hfetched with
  | ended scan hend hheld hkept =>
    refine ⟨h.pos, hend, ?_, h.comment⟩
    change P (slotType (placed f f.pos scan.current) 0)
    rw [slotType_placed_ne f (by rw [h.pos]; decide)]
    exact h.kind
  | comment scan hlt htoken htokens hmarks htype =>
    have hwithin := htoken.within
    omega
  | token scan hlt htoken htokens hmarks htype =>
    have hwithin := htoken.within
    omega

theorem oneToken_rule : FoldRule inp (OneToken inp P) (OneToken inp P) (TokenOnly P) where
  five := fun _ _ _ h hstep => by
    have hpos := h.pos
    cases hstep with
    | same => exact h
    | restart hfive => omega
    | sixth t hsix ht => omega
  fetchTop := fun _ _ _ h _ hfetched => h.fetched hfetched
  fetchMid := fun _ _ _ h _ hfetched => h.fetched hfetched
  pair := fun _ _ _ _ _ h hpair => by
    have hpos := h.pos
    have hroom := hpair.room
    omega
  triple := fun _ _ _ _ _ _ h htriple => by
    have hpos := h.pos
    have hroom := htriple.room
    omega
  closeTop := fun _ _ h _ _ => ⟨h.pos, h.ended, h.kind, h.comment⟩
  closeMid := fun _ _ h _ _ => ⟨h.pos, h.ended, h.kind, h.comment⟩
  exit := fun f _ h _ => by
    rw [finished, if_neg fun hc => h.comment hc.2]
    refine ⟨?_, h.kind⟩
    change min f.pos 5 = 1
    rw [h.pos]
    rfl

theorem reset_slots : 0 < resetState.tokenvec.length := by decide

theorem skipTurn_ended {sf : Sfilter} (h : Skips inp 0 sf) (hend : sf.scan.pos = inp.s.length) :
    Holds (skipTurn inp sf) (fun r => ∃ sf', r = .inr (false, sf')) := by
  have hi : 0 < sf.tokenvec.length := by
    rw [h.slots]
    decide
  rw [skipTurn]
  refine (tokenizeAt_holds hi h.scanned).bind fun r hr => ?_
  obtain ⟨more, sf'⟩ := r
  obtain ⟨scan, slot, hslot, hsf, -, htok⟩ := hr
  obtain rfl : sf' = fetchedAt sf 0 scan := hsf
  have hheld : Held scan.current := held_of_tokenized (h.held slot hslot) htok
  cases more with
  | true =>
    obtain ⟨hlt, htoken, -⟩ := htok
    have hwithin := htoken.within
    change sf.scan.pos < scan.pos at hlt
    omega
  | false =>
    change Holds (readAt (fetchedAt sf 0 scan).tokenvec 0 >>= _) _
    rw [fetchedAt_slot hi, bind_ok]
    refine (stIsUnaryOp_holds hheld).bind fun unary _ => holds_ite (fun _ => ?_) fun _ => ?_
    · exact holds_pure ⟨_, rfl⟩
    · exact holds_pure ⟨_, rfl⟩

/-- Where the first call takes the whole text, the fold is left with its token, or skips it. -/
theorem fold_oneToken (hfirst : Holds (tokenizeAt inp resetState 0) (fun r =>
      r.1 = true ∧ r.2.scan.pos = inp.s.length ∧ P (typeAt r.2.tokenvec 0))) :
    Holds (libinjectionSqliFold inp resetState) (fun r => r.2 = 0 ∨ TokenOnly P r) := by
  have hskip : Holds (loop (skipTurn inp) (inp.s.length + 2) resetState) (fun r =>
      r.1 = false ∨ r.1 = true ∧ OneToken inp P (started r.2)) := by
    have hturn : Holds (skipTurn inp resetState) (fun r =>
        (∃ sf, r = .inl sf ∧ Skips inp 0 sf ∧ sf.scan.pos = inp.s.length) ∨
          ∃ sf, r = .inr (true, sf) ∧ OneToken inp P (started sf)) := by
      rw [skipTurn]
      refine ((tokenizeAt_holds reset_slots (Nat.zero_le _)).and hfirst).bind fun r hr => ?_
      obtain ⟨⟨scan, slot, hslot, hsf, hcall, htoken⟩, hmore, hended, hkind⟩ := hr
      obtain ⟨more, sf⟩ := r
      obtain rfl : sf = fetchedAt resetState 0 scan := hsf
      obtain rfl : more = true := hmore
      have hheld := held_of_isToken htoken.2.1
      change Holds (readAt (fetchedAt resetState 0 scan).tokenvec 0 >>= _) _
      rw [fetchedAt_slot reset_slots, bind_ok]
      refine (stIsUnaryOp_holds hheld).bind fun unary _ => holds_ite (fun _ => ?_) fun _ => ?_
      · refine holds_pure (.inl ⟨_, rfl, ⟨?_, ?_, Nat.le_of_eq hended, Nat.zero_le _, ?_⟩,
          hended⟩)
        · exact List.length_set
        · exact held_set (skips_reset inp).held 0 hheld
        · exact ⟨_, .call slot true (.start Token.clear) hcall⟩
      · exact holds_pure (.inr ⟨_, rfl, rfl, hended, hkind, by
          change charNull ≠ typeComment
          decide⟩)
    rw [loop]
    refine hturn.bind fun r hr => ?_
    rcases hr with ⟨sf, rfl, hskips, hend⟩ | ⟨sf, rfl, hone⟩
    · change Holds (loop (skipTurn inp) (inp.s.length + 1) sf) _
      rw [loop]
      refine (skipTurn_ended hskips hend).bind fun r hr => ?_
      obtain ⟨sf', rfl⟩ := hr
      exact holds_pure (.inl rfl)
    · exact holds_pure (.inr ⟨rfl, hone⟩)
  obtain ⟨⟨more, sf⟩, hloop, hleft⟩ := hskip
  have hskipped : Skipped inp 0 (more, sf) := skipped_of_ok (skips_reset inp) hloop
  rw [libinjectionSqliFold, hloop]
  rcases hleft with hnone | ⟨hmore, hone⟩
  · obtain rfl : more = false := hnone
    exact holds_pure (.inl rfl)
  · obtain rfl : more = true := hmore
    have hstarts : Starts inp 0 sf := hskipped
    change Holds (loop (foldTurn inp) (foldFuel inp.s.length) (started sf)) _
    exact (foldLoop_holds oneToken_rule (hstarts.atTop hone)).imp fun _ => .inr

end OneToken

section OneString

theorem stringCore_absent {sf : Scan} {delim : UInt8} (hval : sf.current.val = padded [])
    (hdelim : delim ∉ inp.s) (hpos : sf.pos = 0) :
    Holds (sf.stringCore inp delim 0) (fun r => r.1 = inp.s.length ∧
      r.2.current.type = typeString) := by
  have habsent : memchr inp.s 0 inp.s.length delim = .ok none := by
    obtain ⟨r, hr, hfound⟩ := @memchr_holds inp.s 0 inp.s.length (by omega) delim
    cases r with
    | none => exact hr
    | some q => exact absurd (List.mem_of_getElem? (hfound q rfl).2.2) hdelim
  rw [Scan.stringCore, parseStringCore, hpos, minus_ok (Nat.zero_le _), bind_ok]
  change Holds ((memchr inp.s 0 inp.s.length delim >>= _) >>= _) _
  rw [habsent, bind_ok]
  have hbounds := stored_bounds inp.s.length
  have hopened : ({ sf.current with strOpen := if 0 < 0 then delim else charNull } : Token).val =
      padded [] := hval
  change Holds ((stAssign _ typeString 0 inp.s.length inp.s 0 >>= _) >>= _) _
  rw [stAssign_eq hopened (Nat.zero_le _) (by omega)]
  exact holds_ok ⟨rfl, rfl⟩

theorem tokenize_absent {sf : Scan} (hdelim : flag2delim inp ∉ inp.s) (hpos : sf.pos = 0)
    (hquoted : inp.has (flagQuoteSingle ||| flagQuoteDouble) = true) (hnonempty : inp.s ≠ []) :
    Holds (libinjectionSqliTokenize inp sf) (fun r => r.1 = true ∧
      r.2.pos = inp.s.length ∧ r.2.current.type = typeString) := by
  have hlength : inp.s.length ≠ 0 := fun hzero => hnonempty (List.length_eq_zero_iff.mp hzero)
  have hcond : sf.pos = 0 ∧ inp.has (flagQuoteSingle ||| flagQuoteDouble) = true := ⟨hpos, hquoted⟩
  rw [libinjectionSqliTokenize, if_neg hlength]
  change Holds (if sf.pos = 0 ∧ inp.has (flagQuoteSingle ||| flagQuoteDouble) = true
    then _ else _) _
  rw [if_pos hcond]
  have hcore := @stringCore_absent inp { sf with current := Token.clear } _ rfl hdelim hpos
  refine hcore.bind fun r hr => ?_
  exact holds_pure ⟨rfl, hr.1, hr.2⟩

theorem tokenizeAt_absent (hdelim : flag2delim inp ∉ inp.s)
    (hquoted : inp.has (flagQuoteSingle ||| flagQuoteDouble) = true) (hnonempty : inp.s ≠ []) :
    Holds (tokenizeAt inp resetState 0) (fun r => r.1 = true ∧ r.2.scan.pos = inp.s.length ∧
      typeAt r.2.tokenvec 0 = typeString) := by
  rw [tokenizeAt, readAt_ok reset_slots, bind_ok]
  refine (tokenize_absent hdelim rfl hquoted hnonempty).bind fun r hr => ?_
  obtain ⟨more, scan⟩ := r
  change Holds (writeAt resetState.tokenvec 0 scan.current >>= _) _
  rw [writeAt_ok reset_slots, bind_ok]
  refine holds_pure ⟨hr.1, hr.2.1, ?_⟩
  rw [typeAt_set reset_slots, if_pos rfl]
  exact hr.2.2

end OneString

section Contexts
variable {s : Bytes} {table : KeywordTable} {flags : ℕ}

/-- The verdict of one context. -/
def flaggedIn (s : Bytes) (table : KeywordTable) (flags : ℕ) : Bool :=
  match testContext s table flags with
  | .ok (found, _) => found
  | .error _ => false

theorem testContext_ok (s : Bytes) (table : KeywordTable) (flags : ℕ) :
    ∃ reparse, testContext s table flags = .ok (flaggedIn s table flags, reparse) := by
  obtain ⟨⟨found, reparse⟩, hr, -⟩ := testContext_holds s table flags
  refine ⟨reparse, ?_⟩
  rw [flaggedIn, hr]

/-- The contexts in which `libinjection_is_sqli` may test an input. -/
def contexts : List ℕ :=
  [flagQuoteNone ||| flagSqlAnsi, flagQuoteNone ||| flagSqlMysql, flagQuoteSingle ||| flagSqlAnsi,
    flagQuoteSingle ||| flagSqlMysql, flagQuoteDouble ||| flagSqlMysql]

theorem flaggedIn_of_fold (hfold : Holds
      (libinjectionSqliFold (resetInput s table flags) resetState)
      (fun r => r.2 ≤ 2 ∧ typeEvil ∉ types r.1.tokenvec r.2 ∧
        blacklisted table (types r.1.tokenvec r.2) = false)) :
    flaggedIn s table flags = false := by
  have hcontext : Holds (testContext s table flags) (fun r => r.1 = false) := by
    rw [testContext, fingerprint_eq, bind_assoc]
    refine ((foldReset_holds (resetInput s table flags)).and hfold).bind fun r hr => ?_
    obtain ⟨⟨hfolded, hasRead⟩, hle, hevil, hblack⟩ := hr
    refine (spell_holds hfolded hasRead).bind fun st hst => ?_
    obtain ⟨-, pattern, hpattern, hsame⟩ := hst
    refine (checkFingerprint_holds s table hpattern).bind fun found hfound => holds_pure ?_
    rw [← Bool.not_eq_true]
    intro htrue
    have hrow := hfound htrue
    rw [hsame hle hevil, hblack] at hrow
    exact absurd hrow (by decide)
  obtain ⟨⟨found, reparse⟩, hr, hfound⟩ := hcontext
  rw [flaggedIn, hr]
  exact hfound

theorem types_one {tokenvec : List Token} (hlength : 0 < tokenvec.length) :
    types tokenvec 1 = [typeAt tokenvec 0] := by
  obtain ⟨first, rest, rfl⟩ := List.exists_cons_of_length_pos hlength
  rfl

theorem flaggedIn_oneToken {P : UInt8 → Prop}
    (hP : ∀ stype, P stype → stype ≠ typeEvil ∧ blacklisted table [stype] = false)
    (hfirst : Holds (tokenizeAt (resetInput s table flags) resetState 0) (fun r =>
      r.1 = true ∧ r.2.scan.pos = s.length ∧ P (typeAt r.2.tokenvec 0))) :
    flaggedIn s table flags = false := by
  refine flaggedIn_of_fold (((foldReset_holds _).and (fold_oneToken hfirst)).imp fun r hr => ?_)
  obtain ⟨⟨hfolded, -⟩, hnone | ⟨hone, hkind⟩⟩ := hr
  · rw [hnone]
    exact ⟨Nat.zero_le 2, List.not_mem_nil, rfl⟩
  · have hslots := hfolded.slots
    rw [hone, types_one (by omega)]
    refine ⟨by decide, fun hmem => ?_, (hP _ hkind).2⟩
    exact (hP _ hkind).1 (List.mem_singleton.mp hmem).symm

theorem flaggedIn_empty (table : KeywordTable) (flags : ℕ) : flaggedIn [] table flags = false := by
  refine @flaggedIn_of_fold [] table flags ?_
  have hfold : libinjectionSqliFold (resetInput [] table flags) resetState =
      .ok (resetState, 0) := rfl
  exact holds_of_eq hfold ⟨Nat.zero_le 2, List.not_mem_nil, rfl⟩

/-- Without the quote of a context the input is not flagged in it. -/
theorem flaggedIn_absent (hrow : typeOf table (bytes "0S") ≠ typeFingerprint)
    (hquoted : (resetInput s table flags).has (flagQuoteSingle ||| flagQuoteDouble) = true)
    (hdelim : flag2delim (resetInput s table flags) ∉ s) : flaggedIn s table flags = false := by
  by_cases hnonempty : s = []
  · rw [hnonempty]
    exact flaggedIn_empty table flags
  have hblack : blacklisted table [typeString] = false := by
    rw [blacklisted, Bool.and_eq_false_iff]
    exact .inr (beq_eq_false_iff_ne.mpr hrow)
  refine @flaggedIn_oneToken s table flags (· = typeString) (fun stype hstype => ?_)
    (tokenizeAt_absent hdelim hquoted hnonempty)
  rw [hstype]
  exact ⟨by decide, hblack⟩

theorem testQuote_eq {quote : ℕ} (h : Quoted quote) : testQuote s table quote =
    .ok (flaggedIn s table (quote ||| flagSqlAnsi) ||
      flaggedIn s table (quote ||| flagSqlMysql)) := by
  obtain ⟨reparse, hansi⟩ := testContext_ok s table (quote ||| flagSqlAnsi)
  obtain ⟨reparse', hmysql⟩ := testContext_ok s table (quote ||| flagSqlMysql)
  rw [testQuote, hansi, bind_ok]
  cases hfound : flaggedIn s table (quote ||| flagSqlAnsi) with
  | true => rfl
  | false =>
    cases reparse with
    | true =>
      change (testContext s table (quote ||| flagSqlMysql) >>= _) = _
      rw [hmysql]
      rfl
    | false =>
      rw [hfound] at hansi
      have hsame := testContext_eq s table h hansi
      rw [flaggedIn, hsame]
      rfl

theorem memchr_present (ch : UInt8) :
    ∃ r, memchr s 0 s.length ch = .ok r ∧ (r.isSome = true ↔ ch ∈ s) := by
  refine ⟨(s.findIdx? (· == ch)).map (0 + ·), ?_, ?_⟩
  · rw [memchr, slice_ok (by omega), bind_ok, List.drop_zero, List.take_length]
    rfl
  · rw [Option.isSome_map, List.findIdx?_isSome, List.any_eq_true]
    constructor
    · rintro ⟨other, hmem, heq⟩
      rw [← beq_iff_eq.mp heq]
      exact hmem
    · intro hmem
      exact ⟨ch, hmem, beq_self_eq_true ch⟩

theorem isSqli_unquoted (hnonempty : s ≠ []) (hsingle : charSingle ∉ s) (hdouble : charDouble ∉ s) :
    libinjectionIsSqli s table = .ok (flaggedIn s table (flagQuoteNone ||| flagSqlAnsi) ||
      flaggedIn s table (flagQuoteNone ||| flagSqlMysql)) := by
  have hlength : s.length ≠ 0 := fun hzero => hnonempty (List.length_eq_zero_iff.mp hzero)
  have habsent : ∀ ch, ch ∉ s → memchr s 0 s.length ch = .ok none := by
    intro ch hch
    obtain ⟨r, hr, hpresent⟩ := @memchr_present s ch
    cases r with
    | none => exact hr
    | some q => exact absurd (hpresent.mp rfl) hch
  rw [libinjectionIsSqli, if_neg hlength, testQuote_eq (.inl rfl), bind_ok, testSingle,
    habsent charSingle hsingle, testDouble, habsent charDouble hdouble]
  cases flaggedIn s table (flagQuoteNone ||| flagSqlAnsi) with
  | true => rfl
  | false =>
    cases flaggedIn s table (flagQuoteNone ||| flagSqlMysql) with
    | true => rfl
    | false => rfl

theorem quoted_reset {flags : ℕ}
    (h : (resetFlags flags &&& (flagQuoteSingle ||| flagQuoteDouble) != 0) = true) :
    (resetInput s table flags).has (flagQuoteSingle ||| flagQuoteDouble) = true := h

theorem unquoted_reset {flags : ℕ}
    (h : (resetFlags flags &&& (flagQuoteSingle ||| flagQuoteDouble) != 0) = false) :
    (resetInput s table flags).has (flagQuoteSingle ||| flagQuoteDouble) = false := h

theorem delim_single {flags : ℕ} (h : (resetFlags flags &&& flagQuoteSingle != 0) = true) :
    flag2delim (resetInput s table flags) = charSingle := if_pos h

theorem delim_double {flags : ℕ} (hsingle : ¬(resetFlags flags &&& flagQuoteSingle != 0) = true)
    (hdouble : (resetFlags flags &&& flagQuoteDouble != 0) = true) :
    flag2delim (resetInput s table flags) = charDouble :=
  (if_neg hsingle).trans (if_pos hdouble)

theorem testSingle_eq (hrow : typeOf table (bytes "0S") ≠ typeFingerprint) : testSingle s table =
    .ok (flaggedIn s table (flagQuoteSingle ||| flagSqlAnsi) ||
      flaggedIn s table (flagQuoteSingle ||| flagSqlMysql)) := by
  obtain ⟨r, hr, hpresent⟩ := @memchr_present s charSingle
  rw [testSingle, hr, bind_ok]
  by_cases hquote : r.isSome = true
  · rw [if_pos hquote, testQuote_eq (.inr rfl)]
  · have habsent : charSingle ∉ s := fun hmem => hquote (hpresent.mpr hmem)
    have hansi : flag2delim (resetInput s table (flagQuoteSingle ||| flagSqlAnsi)) ∉ s := by
      rw [delim_single (by decide)]
      exact habsent
    have hmysql : flag2delim (resetInput s table (flagQuoteSingle ||| flagSqlMysql)) ∉ s := by
      rw [delim_single (by decide)]
      exact habsent
    rw [if_neg hquote, flaggedIn_absent hrow (quoted_reset (by decide)) hansi,
      flaggedIn_absent hrow (quoted_reset (by decide)) hmysql]
    rfl

theorem testDouble_eq (hrow : typeOf table (bytes "0S") ≠ typeFingerprint) : testDouble s table =
    .ok (flaggedIn s table (flagQuoteDouble ||| flagSqlMysql)) := by
  obtain ⟨r, hr, hpresent⟩ := @memchr_present s charDouble
  rw [testDouble, hr, bind_ok]
  by_cases hquote : r.isSome = true
  · obtain ⟨reparse, hcontext⟩ := testContext_ok s table (flagQuoteDouble ||| flagSqlMysql)
    rw [if_pos hquote, hcontext]
    rfl
  · have habsent : charDouble ∉ s := fun hmem => hquote (hpresent.mpr hmem)
    have hdelim : flag2delim (resetInput s table (flagQuoteDouble ||| flagSqlMysql)) ∉ s := by
      rw [delim_double (by decide) (by decide)]
      exact habsent
    rw [if_neg hquote, flaggedIn_absent hrow (quoted_reset (by decide)) hdelim]
    rfl

/-- None of the shortcuts changes the verdict: it is the one of all five contexts. -/
theorem isSqli_eq_any (hrow : typeOf table (bytes "0S") ≠ typeFingerprint) :
    libinjectionIsSqli s table = .ok (contexts.any (flaggedIn s table)) := by
  by_cases hempty : s = []
  · subst hempty
    have hnone : contexts.any (flaggedIn [] table) = false := by
      simp [flaggedIn_empty]
    rw [hnone]
    rfl
  have hlength : s.length ≠ 0 := fun hzero => hempty (List.length_eq_zero_iff.mp hzero)
  rw [libinjectionIsSqli, if_neg hlength, testQuote_eq (.inl rfl), bind_ok,
    testSingle_eq hrow, testDouble_eq hrow]
  simp only [contexts, List.any_cons, List.any_nil, Bool.or_false]
  cases flaggedIn s table (flagQuoteNone ||| flagSqlAnsi) with
  | true => rfl
  | false =>
    cases flaggedIn s table (flagQuoteNone ||| flagSqlMysql) with
    | true => rfl
    | false =>
      rw [bind_ok]
      cases flaggedIn s table (flagQuoteSingle ||| flagSqlAnsi) with
      | true => rfl
      | false =>
        cases flaggedIn s table (flagQuoteSingle ||| flagSqlMysql) with
        | true => rfl
        | false => rfl

theorem isSqli_eq_any_like : libinjectionIsSqli (bytes "' or '' like ''") sampleTable =
    .ok (contexts.any (flaggedIn (bytes "' or '' like ''") sampleTable)) :=
  isSqli_eq_any (by decide)

end Contexts

section Evidence
variable {s : Bytes} {table : KeywordTable} {flags : ℕ}

/-- The MySQL test that an ANSI test leaves out would not have found anything. -/
theorem reparse_lossless (s : Bytes) (table : KeywordTable) {quote : ℕ} (h : Quoted quote) :
    testQuote s table quote = .ok (flaggedIn s table (quote ||| flagSqlAnsi) ||
      flaggedIn s table (quote ||| flagSqlMysql)) := testQuote_eq h

theorem reparse_lossless_single : testQuote (bytes "' or '' like ''") sampleTable flagQuoteSingle =
    .ok (flaggedIn (bytes "' or '' like ''") sampleTable (flagQuoteSingle ||| flagSqlAnsi) ||
      flaggedIn (bytes "' or '' like ''") sampleTable (flagQuoteSingle ||| flagSqlMysql)) :=
  reparse_lossless _ sampleTable (.inr rfl)

theorem entry_of_blacklisted {pattern : Bytes} (h : blacklisted table pattern = true) :
    ∃ entry ∈ table.entries, entry.word = 0x30 :: pattern.map upper ∧
      entry.type = typeFingerprint := by
  rw [blacklisted, Bool.and_eq_true, beq_iff_eq] at h
  by_cases hrow : ∃ entry ∈ table.entries, entry.word = 0x30 :: pattern.map upper
  · obtain ⟨entry, hentry, hword⟩ := hrow
    obtain ⟨i, hi, rfl⟩ := List.getElem_of_mem hentry
    refine ⟨_, hentry, hword, ?_⟩
    rw [← typeOf_entry table hi, hword, h.2]
  · have habsent := @typeOf_absent table (0x30 :: pattern.map upper)
      fun entry hentry hword => hrow ⟨entry, hentry, hword⟩
    rw [habsent] at h
    exact absurd h.2 (by decide)

theorem fingerprint_of_flaggedIn (h : flaggedIn s table flags = true) :
    ∃ st pattern, libinjectionSqliFingerprint s table flags = .ok st ∧
      Fingerprinted (resetInput s table flags) st pattern ∧ blacklisted table pattern = true := by
  obtain ⟨st, hst, pattern, hpattern⟩ := @fingerprint_holds s table flags
  obtain ⟨found, hfound, hrow⟩ := checkFingerprint_holds s table hpattern
  refine ⟨st, pattern, hst, hpattern, hrow ?_⟩
  rw [flaggedIn, testContext, hst, bind_ok, hfound] at h
  exact h

theorem flaggedIn_of_quote {quote : ℕ} (h : Quoted quote)
    (htrue : testQuote s table quote = .ok true) :
    ∃ flags ∈ [quote ||| flagSqlAnsi, quote ||| flagSqlMysql], flaggedIn s table flags = true := by
  rw [testQuote_eq h, Except.ok.injEq, Bool.or_eq_true] at htrue
  rcases htrue with hansi | hmysql
  · exact ⟨_, .head _, hansi⟩
  · exact ⟨_, .tail _ (.head _), hmysql⟩

theorem flaggedIn_of_single (htrue : testSingle s table = .ok true) :
    ∃ flags ∈ [flagQuoteSingle ||| flagSqlAnsi, flagQuoteSingle ||| flagSqlMysql],
      flaggedIn s table flags = true := by
  obtain ⟨r, hr, -⟩ := @memchr_present s charSingle
  rw [testSingle, hr, bind_ok] at htrue
  by_cases hquote : r.isSome = true
  · rw [if_pos hquote] at htrue
    exact flaggedIn_of_quote (.inr rfl) htrue
  · rw [if_neg hquote] at htrue
    cases htrue

theorem flaggedIn_of_double (htrue : testDouble s table = .ok true) :
    flaggedIn s table (flagQuoteDouble ||| flagSqlMysql) = true := by
  obtain ⟨r, hr, -⟩ := @memchr_present s charDouble
  obtain ⟨reparse, hcontext⟩ := testContext_ok s table (flagQuoteDouble ||| flagSqlMysql)
  rw [testDouble, hr, bind_ok] at htrue
  by_cases hquote : r.isSome = true
  · rw [if_pos hquote, hcontext] at htrue
    exact Except.ok.inj htrue
  · rw [if_neg hquote] at htrue
    cases htrue

theorem flaggedIn_of_isSqli (htrue : libinjectionIsSqli s table = .ok true) :
    ∃ flags ∈ contexts, flaggedIn s table flags = true := by
  by_cases hempty : s.length = 0
  · rw [libinjectionIsSqli, if_pos hempty] at htrue
    cases htrue
  obtain ⟨none, hnone, -⟩ := testQuote_holds s table flagQuoteNone
  obtain ⟨single, hsingle, -⟩ := testSingle_holds s table
  rw [libinjectionIsSqli, if_neg hempty, hnone, bind_ok] at htrue
  cases none with
  | true =>
    obtain ⟨flags, hmem, hflags⟩ := flaggedIn_of_quote (.inl rfl) hnone
    exact ⟨flags, List.mem_append_left _ hmem, hflags⟩
  | false =>
    rw [if_neg Bool.false_ne_true, hsingle, bind_ok] at htrue
    cases single with
    | true =>
      obtain ⟨flags, hmem, hflags⟩ := flaggedIn_of_single hsingle
      exact ⟨flags, .tail _ (.tail _ (List.mem_append_left _ hmem)), hflags⟩
    | false =>
      rw [if_neg Bool.false_ne_true] at htrue
      exact ⟨_, List.mem_of_getLast? rfl, flaggedIn_of_double htrue⟩

/-- A detection has its evidence: a context and a row of the table for the fingerprint in it. -/
theorem flagged_has_row (h : libinjectionIsSqli s table = .ok true) :
    ∃ flags ∈ contexts, ∃ st pattern, libinjectionSqliFingerprint s table flags = .ok st ∧
      st.fingerprint = spelt pattern ∧ (NormalForm pattern ∨ pattern = [typeEvil]) ∧
      ∃ entry ∈ table.entries, entry.word = 0x30 :: pattern.map upper ∧
        entry.type = typeFingerprint := by
  obtain ⟨flags, hflags, hfound⟩ := flaggedIn_of_isSqli h
  obtain ⟨st, pattern, hst, hpattern, hrow⟩ := fingerprint_of_flaggedIn hfound
  exact ⟨flags, hflags, st, pattern, hst, hpattern.fingerprint, hpattern.shape,
    entry_of_blacklisted hrow⟩

theorem flagged_has_row_union : ∃ flags ∈ contexts, ∃ st pattern,
    libinjectionSqliFingerprint (bytes "1 union select a") sampleTable flags = .ok st ∧
      st.fingerprint = spelt pattern ∧ (NormalForm pattern ∨ pattern = [typeEvil]) ∧
      ∃ entry ∈ sampleTable.entries, entry.word = 0x30 :: pattern.map upper ∧
        entry.type = typeFingerprint :=
  flagged_has_row (by decide +kernel)

end Evidence
end WafWasm.QuoteContexts
