import WafWasm.InputSearches
import WafWasm.Respelling

set_option autoImplicit false

namespace WafWasm.RespelledTokens
open CheckedMemory RelatedRuns Common LibinjectionTokens LibinjectionKeywords LibinjectionParsers
open InputSearches Respelling

section Tokens
variable (o : UInt8 → UInt8)

/-- A token without its position, its count and the case of its letters, and with what `o` shows
of the quote that opens it. -/
def seen (t : Token) : Token :=
  { t with pos := 0, count := 0, strOpen := o t.strOpen, val := t.val.map upper }

def SameToken (t t' : Token) : Prop := seen o t = seen o t'

variable {o} {t t' : Token}

theorem SameToken.len (h : SameToken o t t') : t.len = t'.len :=
  @congrArg _ _ (seen o t) (seen o t') Token.len h

theorem SameToken.type (h : SameToken o t t') : t.type = t'.type :=
  @congrArg _ _ (seen o t) (seen o t') Token.type h

theorem SameToken.strOpen (h : SameToken o t t') : o t.strOpen = o t'.strOpen :=
  @congrArg _ _ (seen o t) (seen o t') Token.strOpen h

theorem SameToken.strClose (h : SameToken o t t') : t.strClose = t'.strClose :=
  @congrArg _ _ (seen o t) (seen o t') Token.strClose h

theorem SameToken.val (h : SameToken o t t') : Alike upper t.val t'.val :=
  @congrArg _ _ (seen o t) (seen o t') Token.val h

theorem SameToken.retype (h : SameToken o t t') {stype stype' : UInt8} (htype : stype = stype') :
    SameToken o { t with type := stype } { t' with type := stype' } := by
  rw [htype]
  exact congrArg (fun t : Token => { t with type := stype' }) h

theorem SameToken.recount (h : SameToken o t t') (n n' : ℕ) :
    SameToken o { t with count := n } { t' with count := n' } := h

theorem SameToken.close (h : SameToken o t t') {c c' : UInt8} (hc : c = c') :
    SameToken o { t with strClose := c } { t' with strClose := c' } := by
  rw [hc]
  exact congrArg (fun t : Token => { t with strClose := c' }) h

theorem SameToken.reopen (h : SameToken o t t') {c c' : UInt8} (hc : o c = o c') :
    SameToken o { t with strOpen := c } { t' with strOpen := c' } := by
  change { seen o t with strOpen := o c } = { seen o t' with strOpen := o c' }
  rw [hc]
  exact congrArg (fun t : Token => { t with strOpen := o c' }) h

theorem SameToken.requote (h : SameToken o t t') (opener : UInt8) {c c' : UInt8} (hc : c = c') :
    SameToken o { t with strOpen := opener, strClose := c }
      { t' with strOpen := opener, strClose := c' } := by
  rw [hc]
  exact congrArg (fun t : Token => { t with strOpen := o opener, strClose := c' }) h

theorem SameToken.retext (h : SameToken o t t') {val val' : Bytes} (hval : Alike upper val val')
    (stype : UInt8) :
    SameToken o { t with type := stype, val := val } { t' with type := stype, val := val' } := by
  change { seen o t with type := stype, val := val.map upper } =
    { seen o t' with type := stype, val := val'.map upper }
  rw [hval]
  exact congrArg (fun t : Token => { t with type := stype, val := val'.map upper }) h

theorem SameToken.refill (h : SameToken o t t') {val val' : Bytes} (hval : Alike upper val val')
    (stype : UInt8) (pos pos' len : ℕ) :
    SameToken o { t with type := stype, pos := pos, len := len, val := val }
      { t' with type := stype, pos := pos', len := len, val := val' } := by
  have hsame : seen o { t with type := stype, val := val } =
      seen o { t' with type := stype, val := val' } := h.retext hval stype
  exact congrArg (fun t : Token => { t with len := len }) hsame

theorem stAssignChar_related (h : SameToken o t t') {ch ch' : UInt8} (hch : upper ch = upper ch')
    (stype : UInt8) (pos pos' : ℕ) :
    Related (SameToken o) (stAssignChar t stype pos ch) (stAssignChar t' stype pos' ch') := by
  refine (related_writeAt h.val hch).bind fun val val' hval => ?_
  refine (related_writeAt hval rfl).bind fun val val' hval => related_pure ?_
  exact h.refill hval stype pos pos' 1

theorem stAssign_related (h : SameToken o t t') {buffer buffer' : Bytes} {start start' : ℕ}
    (htext : Alike upper (buffer.drop start) (buffer'.drop start')) (stype : UInt8)
    (pos pos' len : ℕ) :
    Related (SameToken o) (stAssign t stype pos len buffer start)
      (stAssign t' stype pos' len buffer' start') := by
  refine (related_slice htext).bind fun value value' hvalue => ?_
  refine (related_copyTo h.val hvalue).bind fun val val' hval => ?_
  refine (related_writeAt hval rfl).bind fun val val' hval => related_pure ?_
  exact h.refill hval stype pos pos' _

end Tokens

structure SameScan (d : ℕ) (o : UInt8 → UInt8) (sf sf' : Scan) : Prop where
  pos : sf'.pos = d + sf.pos
  current : SameToken o sf.current sf'.current
  ddx : sf.statsCommentDdx = sf'.statsCommentDdx
  hash : sf.statsCommentHash = sf'.statsCommentHash
  tokens : sf.statsTokens = sf'.statsTokens

def SameResult (d : ℕ) (o : UInt8 → UInt8) (r r' : ℕ × Scan) : Prop :=
  r'.1 = d + r.1 ∧ SameScan d o r.2 r'.2

variable {d : ℕ} {o : UInt8 → UInt8} {inp inp' : Input} {sf sf' : Scan}

section Scans

theorem SameScan.holding (hs : SameScan d o sf sf') {t t' : Token} (ht : SameToken o t t') :
    SameScan d o { sf with current := t } { sf' with current := t' } :=
  ⟨hs.pos, ht, hs.ddx, hs.hash, hs.tokens⟩

theorem SameScan.moved (hs : SameScan d o sf sf') {p p' : ℕ} (hp : p' = d + p) :
    SameScan d o { sf with pos := p } { sf' with pos := p' } :=
  ⟨hp, hs.current, hs.ddx, hs.hash, hs.tokens⟩

theorem SameScan.assignChar (hs : SameScan d o sf sf') {ch ch' : UInt8}
    (hch : upper ch = upper ch') (stype : UInt8) (pos pos' : ℕ) :
    Related (SameScan d o) (sf.assignChar stype pos ch) (sf'.assignChar stype pos' ch') :=
  (stAssignChar_related hs.current hch stype pos pos').bind fun _ _ ht =>
    related_pure (hs.holding ht)

theorem SameScan.assign (hs : SameScan d o sf sf') (h : AlikeInputs d inp inp') {pos pos' : ℕ}
    (hpos : pos' = d + pos) (stype : UInt8) (len : ℕ) :
    Related (SameScan d o) (sf.assign inp stype pos len) (sf'.assign inp' stype pos' len) :=
  (stAssign_related hs.current (h.window hpos) stype pos pos' len).bind fun _ _ ht =>
    related_pure (hs.holding ht)

theorem SameScan.leaves (hs : SameScan d o sf sf') (h : AlikeInputs d inp inp') (stype : UInt8)
    (len n : ℕ) :
    Related (SameResult d o) (sf.assign inp stype sf.pos len >>= fun r => pure (sf.pos + n, r))
      (sf'.assign inp' stype sf'.pos len >>= fun r => pure (sf'.pos + n, r)) := by
  have hpos := hs.pos
  refine (hs.assign h hpos stype len).bind fun _ _ hs' => related_pure ⟨?_, hs'⟩
  change sf'.pos + n = d + (sf.pos + n)
  omega

theorem SameScan.leavesChar (hs : SameScan d o sf sf') {ch ch' : UInt8}
    (hch : upper ch = upper ch') (stype : UInt8) :
    Related (SameResult d o) (sf.assignChar stype sf.pos ch >>= fun r => pure (sf.pos + 1, r))
      (sf'.assignChar stype sf'.pos ch' >>= fun r => pure (sf'.pos + 1, r)) := by
  have hpos := hs.pos
  refine (hs.assignChar hch stype _ _).bind fun _ _ hs' => related_pure ⟨?_, hs'⟩
  change sf'.pos + 1 = d + (sf.pos + 1)
  omega

end Scans

section Symbols

theorem parseOperator1_related (h : AlikeInputs d inp inp') (hs : SameScan d o sf sf') :
    Related (SameResult d o) (parseOperator1 inp sf) (parseOperator1 inp' sf') := by
  have hpos := hs.pos
  refine (h.readAt hpos).bind fun ch ch' hch => ?_
  exact hs.leavesChar hch typeOperator

theorem parseOther_related (h : AlikeInputs d inp inp') (hs : SameScan d o sf sf') :
    Related (SameResult d o) (parseOther inp sf) (parseOther inp' sf') := by
  have hpos := hs.pos
  refine (h.readAt hpos).bind fun ch ch' hch => ?_
  exact hs.leavesChar hch typeUnknown

theorem parseChar_related (h : AlikeInputs d inp inp') (hs : SameScan d o sf sf') {ch : UInt8}
    (hch : inp.s[sf.pos]? = some ch) (hsymbol : isSymbol ch = true) :
    Related (SameResult d o) (parseChar inp sf) (parseChar inp' sf') := by
  have hpos := hs.pos
  refine (h.readSymbol hpos hch hsymbol).bind fun a b hab => ?_
  rw [hab.1, hab.2]
  exact hs.leavesChar rfl ch

theorem parseEolComment_related (h : AlikeInputs d inp inp') (hs : SameScan d o sf sf') :
    Related (SameResult d o) (parseEolComment inp sf) (parseEolComment inp' sf') := by
  have hpos := hs.pos
  have hlength := h.length
  refine (related_minus (by omega)).bind fun rest rest' hrest => ?_
  subst hrest
  refine (h.memchr hpos (by decide)).bind fun r r' hr => ?_
  subst hr
  cases r with
  | none =>
    exact (hs.assign h hpos typeComment _).bind fun _ _ hs' => related_pure ⟨hlength, hs'⟩
  | some endpos =>
    refine (related_minus (by change endpos + sf'.pos = d + endpos + sf.pos; omega)).bind
      fun len len' hlen => ?_
    subst hlen
    refine (hs.assign h hpos typeComment _).bind fun _ _ hs' => related_pure ⟨?_, hs'⟩
    change d + endpos + 1 = d + (endpos + 1)
    omega

theorem parseHash_related (h : AlikeInputs d inp inp') (hs : SameScan d o sf sf') :
    Related (SameResult d o) (parseHash inp sf) (parseHash inp' sf') := by
  have hpos := hs.pos
  refine related_ite (by rw [h.mysql]) (fun _ _ => ?_) fun _ _ => ?_
  · exact parseEolComment_related h
      ⟨hpos, hs.current, hs.ddx, congrArg (· + 2) hs.hash, hs.tokens⟩
  · have hs' : SameScan d o { sf with statsCommentHash := sf.statsCommentHash + 1 }
        { sf' with statsCommentHash := sf'.statsCommentHash + 1 } :=
      ⟨hpos, hs.current, hs.ddx, congrArg (· + 1) hs.hash, hs.tokens⟩
    exact hs'.leavesChar rfl typeOperator

theorem respects_equals {c : UInt8} (hc : isSymbol c = true) :
    ∀ test ∈ [fun ch : UInt8 => ch == c], Respects upper test := by
  intro test htest
  rw [List.mem_singleton.mp htest]
  exact respects_symbol hc

theorem parseDash_related (h : AlikeInputs d inp inp') (hs : SameScan d o sf sf') :
    Related (SameResult d o) (parseDash inp sf) (parseDash inp' sf') := by
  have hpos := hs.pos
  have hlength := h.length
  have hwhite : ∀ test ∈ [fun ch : UInt8 => ch == dash, charIsWhite], Respects upper test := by
    intro test htest
    rcases List.mem_cons.mp htest with rfl | hmem
    · exact respects_symbol (by decide)
    · rw [List.mem_singleton.mp hmem]
      exact respects_white
  have hdash := @respects_equals dash (by decide)
  refine (related_andThen (by omega) (h.passes (by omega) hwhite)).bind fun white white' heq => ?_
  subst heq
  refine related_ite Iff.rfl (fun _ _ => parseEolComment_related h hs) fun _ _ => ?_
  refine (related_andThen (by omega) (h.passes (by omega) hdash)).bind fun atEnd atEnd' heq => ?_
  subst heq
  refine related_ite Iff.rfl (fun _ _ => parseEolComment_related h hs) fun _ _ => ?_
  refine (related_andThen (by omega) (h.passes (by omega) hdash)).bind fun other other' heq => ?_
  subst heq
  refine related_ite (by rw [h.ansi]) (fun _ _ => ?_) fun _ _ => ?_
  · exact parseEolComment_related h
      ⟨hpos, hs.current, congrArg (· + 1) hs.ddx, hs.hash, hs.tokens⟩
  · exact hs.leavesChar rfl typeOperator

theorem isMysqlComment_related (h : AlikeInputs d inp inp') {pos pos' : ℕ}
    (hpos : pos' = d + pos) :
    Related Eq (isMysqlComment inp pos) (isMysqlComment inp' pos') := by
  have hlength := h.length
  exact related_andThen (by omega) (h.passes (by omega) (respects_equals (by decide)))

theorem parseSlash_related (h : AlikeInputs d inp inp') (hs : SameScan d o sf sf') :
    Related (SameResult d o) (parseSlash inp sf) (parseSlash inp' sf') := by
  have hpos := hs.pos
  have hlength := h.length
  have hconditional := isMysqlComment_related h hpos
  refine (related_andThen (by omega) (h.passes (by omega) (respects_equals (by decide)))).bind
    fun starred starred' heq => ?_
  subst heq
  refine related_ite Iff.rfl (fun _ _ => parseOperator1_related h hs) fun _ _ => ?_
  refine (related_minus (by omega)).bind fun rest rest' heq => ?_
  subst heq
  refine (h.memchr2 (by omega) (by decide) (by decide)).bind fun r r' hr => ?_
  subst hr
  cases r with
  | none =>
    refine (related_minus (by omega)).bind fun clen clen' heq => ?_
    subst heq
    refine hconditional.bind fun conditional conditional' heq => ?_
    subst heq
    exact hs.leaves h _ clen clen
  | some ptr =>
    refine (related_minus (by change ptr + 2 + sf'.pos = d + ptr + 2 + sf.pos; omega)).bind
      fun clen clen' heq => ?_
    subst heq
    refine (related_minus
      (by change ptr + (sf'.pos + 1) = d + ptr + (sf.pos + 1); omega)).bind
      fun inner inner' heq => ?_
    subst heq
    refine (h.memchr2 (by omega) (by decide) (by decide)).bind fun nested nested' heq => ?_
    subst heq
    refine hconditional.bind fun conditional conditional' heq => ?_
    subst heq
    rw [Option.isSome_map]
    exact hs.leaves h _ clen clen

/-- The letter behind a backslash keeps its case. -/
theorem parseBackslash_related (h : AlikeInputs d inp inp') (hs : SameScan d o sf sf')
    (hch : inp.s[sf.pos]? = some typeBackslash) :
    Related (SameResult d o) (parseBackslash inp sf) (parseBackslash inp' sf') := by
  have hpos := hs.pos
  have hlength := h.length
  have hnull : Related Eq (passes inp (sf.pos + 1) [(· == 0x4E)])
      (passes inp' (sf'.pos + 1) [(· == 0x4E)]) := by
    refine Related.bind (R := Eq) ?_ fun a b hab => by rw [hab]; exact related_self _
    intro a b ha hb
    have hsame := h.escaped sf.pos hch
    rw [← Nat.add_assoc, ← hpos, eq_of_readAt ha, eq_of_readAt hb] at hsame
    exact (Option.some.inj hsame).symm
  refine (related_andThen (by omega) hnull).bind fun null null' heq => ?_
  subst heq
  refine related_ite Iff.rfl (fun _ _ => ?_) fun _ _ => ?_
  · exact hs.leaves h typeNumber 2 2
  · refine (h.readAt hpos).bind fun ch ch' hch => ?_
    exact hs.leavesChar hch typeBackslash

theorem parseOperator2_related (h : AlikeInputs d inp inp') (hs : SameScan d o sf sf') :
    Related (SameResult d o) (parseOperator2 inp sf) (parseOperator2 inp' sf') := by
  have hpos := hs.pos
  have hlength := h.length
  have htests : ∀ test ∈ [fun ch : UInt8 => ch == 0x3C, fun ch => ch == 0x3D,
      fun ch => ch == 0x3E], Respects upper test := by
    intro test htest
    simp only [List.mem_cons, List.not_mem_nil, or_false] at htest
    rcases htest with rfl | rfl | rfl
    · exact respects_symbol (by decide)
    · exact respects_symbol (by decide)
    · exact respects_symbol (by decide)
  refine related_ite (by omega) (fun _ _ => parseOperator1_related h hs) fun _ _ => ?_
  refine (related_andThen (by omega) (h.passes hpos htests)).bind fun ship ship' heq => ?_
  subst heq
  refine related_ite Iff.rfl (fun _ _ => ?_) fun _ _ => ?_
  · exact hs.leaves h typeOperator 3 3
  rw [h.keywords, ← isKeyword_alike (h.window hpos)]
  refine (related_self _).bind fun ch ch' heq => ?_
  subst heq
  refine related_ite Iff.rfl (fun _ _ => ?_) fun _ _ => ?_
  · exact hs.leaves h ch 2 2
  refine (h.readAt hpos).bind fun first first' hfirst => ?_
  refine related_ite (symbol_iff (by decide) hfirst) (fun _ _ => ?_) fun _ _ =>
    parseOperator1_related h hs
  exact hs.leaves h typeColon 1 1

end Symbols
section Strings
variable {delim : UInt8} {start start' : ℕ}

theorem isBackslashEscaped_related (h : AlikeInputs d inp inp') (hstart : start' = d + start)
    {q q' : ℕ} (hq : q' = d + q) :
    Related Eq (isBackslashEscaped inp start q) (isBackslashEscaped inp' start' q') := by
  refine (related_minus (by omega)).bind fun n n' heq => ?_
  subst heq
  refine (related_slice (h.window hstart)).bind fun text text' htext => related_pure ?_
  have hslash := respects_symbol (show isSymbol typeBackslash = true by decide)
  rw [(htext.reverse.takeWhile hslash).length]

theorem isDoubleDelimEscaped_related (h : AlikeInputs d inp inp') (hdelim : isSymbol delim = true)
    {q q' : ℕ} (hq : q' = d + q) :
    Related Eq (isDoubleDelimEscaped inp delim q) (isDoubleDelimEscaped inp' delim q') := by
  have hlength := h.length
  exact related_andThen (by omega) (h.passes (by omega) (respects_equals hdelim))

def SameCandidate (d : ℕ) (r r' : Option ℕ) : Prop := r' = r.map (d + ·)

theorem stringTurn_related (h : AlikeInputs d inp inp') (hdelim : isSymbol delim = true)
    (hstart : start' = d + start) (r r' : Option ℕ) (hr : SameCandidate d r r') :
    Related (Sum.LiftRel (SameCandidate d) (SameCandidate d)) (stringTurn inp start delim r)
      (stringTurn inp' start' delim r') := by
  have hlength := h.length
  rw [hr]
  cases r with
  | none => exact related_pure (.inr rfl)
  | some q =>
    change Related _ _ (stringTurn inp' start' delim (some (d + q)))
    refine (isBackslashEscaped_related h hstart rfl).bind fun escaped escaped' heq => ?_
    subst heq
    refine related_ite Iff.rfl (fun _ _ => ?_) fun _ _ => ?_
    · refine (related_minus (by omega)).bind fun rest rest' heq => ?_
      subst heq
      exact (h.memchr (Nat.add_assoc d q 1) hdelim).bind fun _ _ hnext => related_pure (.inl hnext)
    refine (isDoubleDelimEscaped_related h hdelim rfl).bind fun doubled doubled' heq => ?_
    subst heq
    refine related_ite Iff.rfl (fun _ _ => ?_) fun _ _ => related_pure (.inr rfl)
    refine (related_minus (by omega)).bind fun rest rest' heq => ?_
    subst heq
    exact (h.memchr (Nat.add_assoc d q 2) hdelim).bind fun _ _ hnext => related_pure (.inl hnext)

/-- The two literals start at the same place of the text; one of them may have no quote. -/
theorem parseStringCore_related (h : AlikeInputs d inp inp') {t t' : Token}
    (ht : SameToken o t t') (hdelim : isSymbol delim = true) {pos pos' offset offset' : ℕ}
    (hpos : pos' + offset' = d + (pos + offset))
    (hopen : o (if 0 < offset then delim else charNull) =
      o (if 0 < offset' then delim else charNull)) :
    Related (fun r r' => r'.1 = d + r.1 ∧ SameToken o r.2 r'.2)
      (parseStringCore inp pos t delim offset) (parseStringCore inp' pos' t' delim offset') := by
  have hlength := h.length
  have hopened := ht.reopen hopen
  refine (related_minus (by omega)).bind fun rest rest' heq => ?_
  subst heq
  refine (h.memchr hpos hdelim).bind fun q q' hq => ?_
  refine (related_loop (stringTurn_related h hdelim hpos) hq).bind fun r r' hr => ?_
  rw [hr]
  cases r with
  | none =>
    refine (stAssign_related hopened (h.window hpos) typeString _ _ rest).bind
      fun u u' hu => related_pure ⟨hlength, hu.close rfl⟩
  | some qpos =>
    refine (related_minus (by
      change qpos + (pos' + offset') = d + qpos + (pos + offset)
      omega)).bind fun len len' heq => ?_
    subst heq
    refine (stAssign_related hopened (h.window hpos) typeString _ _ len).bind
      fun u u' hu => related_pure ⟨Nat.add_assoc d qpos 1, hu.close rfl⟩

theorem SameScan.stringCore (hs : SameScan d o sf sf') (h : AlikeInputs d inp inp')
    (hdelim : isSymbol delim = true) (offset : ℕ) :
    Related (SameResult d o) (sf.stringCore inp delim offset)
      (sf'.stringCore inp' delim offset) := by
  have hpos := hs.pos
  refine (parseStringCore_related h hs.current hdelim
    (show sf'.pos + offset = d + (sf.pos + offset) by omega) rfl).bind fun r r' hr => ?_
  exact related_pure ⟨hr.1, hs.holding hr.2⟩

theorem parseString_related (h : AlikeInputs d inp inp') (hs : SameScan d o sf sf') {ch : UInt8}
    (hch : inp.s[sf.pos]? = some ch) (hsymbol : isSymbol ch = true) :
    Related (SameResult d o) (parseString inp sf) (parseString inp' sf') := by
  refine (h.readSymbol hs.pos hch hsymbol).bind fun a b hab => ?_
  rw [hab.1, hab.2]
  exact hs.stringCore h hsymbol 1

end Strings

section Words

theorem splitTurn_related (h : AlikeInputs d inp inp') {t t' : Token} (ht : SameToken o t t')
    (i i' : ℕ) (hi : i = i') :
    Related (Sum.LiftRel Eq Eq) (splitTurn inp t i) (splitTurn inp' t' i') := by
  subst hi
  refine related_ite (by rw [ht.len]) (fun _ _ => ?_) fun _ _ => related_pure (.inr rfl)
  refine (related_readAt ht.val).bind fun a b hab => ?_
  refine related_ite (or_congr (symbol_iff (by decide) hab) (symbol_iff (by decide) hab))
    (fun _ _ => ?_) fun _ _ => related_pure (.inl rfl)
  rw [h.keywords, ← isKeyword_alike ht.val]
  refine (related_self _).bind fun ch ch' heq => ?_
  subst heq
  exact related_ite Iff.rfl (fun _ _ => related_pure (.inr rfl)) fun _ _ => related_pure (.inl rfl)

theorem parseWord_related (h : AlikeInputs d inp inp') (hs : SameScan d o sf sf') :
    Related (SameResult d o) (parseWord inp sf) (parseWord inp' sf') := by
  have hpos := hs.pos
  have hlength := h.length
  refine (related_minus (by omega)).bind fun rest rest' heq => ?_
  subst heq
  refine (h.strlencspn hpos (respects_strchr (by decide))).bind fun wlen wlen' heq => ?_
  subst heq
  refine (hs.assign h hpos typeBareword wlen).bind fun g g' hg => ?_
  refine (related_loop (splitTurn_related h hg.current) rfl).bind fun r r' heq => ?_
  subst heq
  cases r with
  | some word =>
    refine ((hg.holding rfl).assign h hpos word.2 word.1).bind
      fun _ _ hs' => related_pure ⟨?_, hs'⟩
    change sf'.pos + word.1 = d + (sf.pos + word.1)
    omega
  | none =>
    have hend : sf'.pos + wlen = d + (sf.pos + wlen) := by omega
    refine related_ite Iff.rfl (fun _ _ => ?_) fun _ _ => related_pure ⟨hend, hg⟩
    rw [h.keywords, ← isKeyword_alike hg.current.val]
    refine (related_self _).bind fun ch ch' heq => ?_
    subst heq
    exact related_pure ⟨hend, hg.holding (hg.current.retype rfl)⟩

theorem parseEstring_related (h : AlikeInputs d inp inp') (hs : SameScan d o sf sf') :
    Related (SameResult d o) (parseEstring inp sf) (parseEstring inp' sf') := by
  have hpos := hs.pos
  have hlength := h.length
  refine (related_andThen (by omega) (h.passes (by omega) (respects_equals (by decide)))).bind
    fun quoted quoted' heq => ?_
  subst heq
  exact related_ite Iff.rfl (fun _ _ => hs.stringCore h (by decide) 2)
    fun _ _ => parseWord_related h hs

theorem lookahead_related (h : AlikeInputs d inp inp') {c c' : Prop} [Decidable c] [Decidable c']
    (hc : c ↔ c') {i j : ℕ} (hj : j = d + i) {tests : List (UInt8 → Bool)}
    (htests : ∀ test ∈ tests, Respects upper test) (hroom : c → i + tests.length ≤ inp.s.length) :
    Related (fun b b' => b = b' ∧ (b = true → c ∧ ∀ (k : ℕ) (test : UInt8 → Bool),
        tests[k]? = some test → ∃ ch, inp.s[i + k]? = some ch ∧ test ch = true))
      (andThen c (passes inp i tests)) (andThen c' (passes inp' j tests)) :=
  ((related_andThen hc (h.passes hj htests)).and
    (andThen_holds fun hcond => passes_holds (hroom hcond))).imp
    fun _ _ hb => ⟨hb.1, fun htrue => ⟨(hb.2 htrue).1, (hb.2 htrue).2 htrue⟩⟩

theorem parseUstring_related (h : AlikeInputs d inp inp') (hs : SameScan d o sf sf') :
    Related (SameResult d o) (parseUstring inp sf) (parseUstring inp' sf') := by
  have hpos := hs.pos
  have hlength := h.length
  have htests : ∀ test ∈ [fun ch : UInt8 => ch == 0x26, fun ch => ch == charSingle],
      Respects upper test := by
    intro test htest
    rcases List.mem_cons.mp htest with rfl | hmem
    · exact respects_symbol (by decide)
    · rw [List.mem_singleton.mp hmem]
      exact respects_symbol (by decide)
  refine (lookahead_related h (by omega) (by omega) htests fun hc => by
    simp only [List.length_cons, List.length_nil]
    omega).bind fun quoted quoted' hquoted => ?_
  obtain ⟨rfl, hseen⟩ := hquoted
  refine related_ite Iff.rfl (fun htrue _ => ?_) fun _ _ => parseWord_related h hs
  obtain ⟨ch, hch, hquote⟩ := (hseen htrue).2 1 _ rfl
  rw [beq_iff_eq.mp hquote] at hch
  refine (parseString_related h (hs.moved (show sf'.pos + 2 = d + (sf.pos + 2) by omega)) hch
    (by decide)).bind fun r r' hr => ?_
  obtain ⟨stop, g⟩ := r
  obtain ⟨stop', g'⟩ := r'
  have hclose := hr.2.current.strClose
  refine related_pure ⟨hr.1, hr.2.holding (hr.2.current.requote 0x75 ?_)⟩
  rw [hclose]

theorem parseQstringCore_related (h : AlikeInputs d inp inp') (hs : SameScan d o sf sf')
    (offset : ℕ) :
    Related (SameResult d o) (parseQstringCore inp sf offset)
      (parseQstringCore inp' sf' offset) := by
  have hpos := hs.pos
  have hlength := h.length
  have hnamed : ∀ test ∈ [fun ch : UInt8 => ch == 0x71 || ch == 0x51], Respects upper test := by
    intro test htest
    rw [List.mem_singleton.mp htest]
    exact respects_of_all (by decide +kernel)
  refine (lookahead_related h (by omega) (show sf'.pos + offset = d + (sf.pos + offset) by omega)
    hnamed fun hc => by exact hc).bind fun named named' hq => ?_
  obtain ⟨rfl, hq⟩ := hq
  refine (lookahead_related h (and_congr Iff.rfl (by omega)) (by omega)
    (respects_equals (by decide)) fun hc => by
      simp only [List.length_cons, List.length_nil]
      omega).bind fun quoted quoted' hquoted => ?_
  obtain ⟨rfl, hquoted⟩ := hquoted
  refine related_ite Iff.rfl (fun _ _ => parseWord_related h hs) fun htrue _ => ?_
  have hseen := hquoted (by simpa using htrue)
  obtain ⟨q, hqchar, hqtest⟩ := (hq hseen.1.1).2 0 _ rfl
  obtain ⟨quote, hquote, hsingle⟩ := hseen.2 0 _ rfl
  rw [beq_iff_eq.mp hsingle] at hquote
  have hupper : upper q = 0x51 := by
    rcases Bool.or_eq_true_iff.mp hqtest with hlow | hhigh
    · rw [beq_iff_eq.mp hlow]
      rfl
    · rw [beq_iff_eq.mp hhigh]
      rfl
  have hsame := h.quoted (sf.pos + offset) q hqchar hupper hquote
  rw [← Nat.add_assoc, ← hpos] at hsame
  have hrest : Alike id (inp.s.drop (sf.pos + offset)) (inp'.s.drop (sf'.pos + offset)) := by
    rw [hsame, Alike]
  have hread : Related Eq (readAt inp.s (sf.pos + offset + 2))
      (readAt inp'.s (sf'.pos + offset + 2)) := by
    intro a b ha hb
    have ha' := eq_of_readAt ha
    have hb' := eq_of_readAt hb
    rw [← List.getElem?_drop] at ha' hb'
    exact hrest.getElem ha' hb'
  refine hread.bind fun ch ch' heq => ?_
  subst heq
  refine related_ite Iff.rfl (fun _ _ => parseWord_related h hs) fun _ _ => ?_
  refine (related_minus (by omega)).bind fun rest rest' heq => ?_
  subst heq
  have hopen : sf'.pos + offset + 3 = d + (sf.pos + offset + 3) := by omega
  have hwindow : Alike id (inp.s.drop (sf.pos + offset + 3))
      (inp'.s.drop (sf'.pos + offset + 3)) := by
    have hdrop := hrest.drop 3
    rwa [List.drop_drop, List.drop_drop] at hdrop
  refine (memchr2_related hopen hwindow fun v w hvw => by
    rw [Alike, List.map_id, List.map_id] at hvw
    rw [hvw]).bind fun r r' hr => ?_
  subst hr
  cases r with
  | none =>
    refine (hs.assign h hopen typeString rest).bind fun _ _ hs' => related_pure ⟨hlength, ?_⟩
    exact hs'.holding (hs'.current.requote 0x71 rfl)
  | some strend =>
    refine (related_minus (by
      change strend + (sf'.pos + offset + 3) = d + strend + (sf.pos + offset + 3)
      omega)).bind fun len len' heq => ?_
    subst heq
    refine (hs.assign h hopen typeString len).bind fun _ _ hs' =>
      related_pure ⟨Nat.add_assoc d strend 2, ?_⟩
    exact hs'.holding (hs'.current.requote 0x71 rfl)

theorem parseNqstring_related (h : AlikeInputs d inp inp') (hs : SameScan d o sf sf') :
    Related (SameResult d o) (parseNqstring inp sf) (parseNqstring inp' sf') := by
  have hpos := hs.pos
  have hlength := h.length
  refine (related_andThen (by omega) (h.passes (by omega) (respects_equals (by decide)))).bind
    fun quoted quoted' heq => ?_
  subst heq
  exact related_ite Iff.rfl (fun _ _ => parseEstring_related h hs)
    fun _ _ => parseQstringCore_related h hs 1

theorem parseDigitString_related (h : AlikeInputs d inp inp') (hs : SameScan d o sf sf')
    {digits : Bytes} (hdigits : Respects upper (strchr digits)) :
    Related (SameResult d o) (parseDigitString inp sf digits)
      (parseDigitString inp' sf' digits) := by
  have hpos := hs.pos
  have hlength := h.length
  refine (related_andThen (by omega) (h.passes (by omega) (respects_equals (by decide)))).bind
    fun quoted quoted' heq => ?_
  subst heq
  refine related_ite Iff.rfl (fun _ _ => parseWord_related h hs) fun _ _ => ?_
  refine (related_minus (by omega)).bind fun rest rest' heq => ?_
  subst heq
  refine (h.strlenspn (by omega) hdigits).bind fun wlen wlen' heq => ?_
  subst heq
  refine (related_andThen (by omega) (h.passes (by omega) (respects_equals (by decide)))).bind
    fun closed closed' heq => ?_
  subst heq
  refine related_ite Iff.rfl (fun _ _ => parseWord_related h hs) fun _ _ => ?_
  refine (hs.assign h hpos typeNumber (wlen + 3)).bind fun _ _ hs' => related_pure ⟨?_, hs'⟩
  change sf'.pos + 2 + wlen + 1 = d + (sf.pos + 2 + wlen + 1)
  omega

theorem parseBword_related (h : AlikeInputs d inp inp') (hs : SameScan d o sf sf') :
    Related (SameResult d o) (parseBword inp sf) (parseBword inp' sf') := by
  have hpos := hs.pos
  have hlength := h.length
  refine (related_minus (by omega)).bind fun rest rest' heq => ?_
  subst heq
  refine (h.memchr hpos (by decide)).bind fun r r' hr => ?_
  subst hr
  cases r with
  | none =>
    exact (hs.assign h hpos typeBareword _).bind fun _ _ hs' => related_pure ⟨hlength, hs'⟩
  | some endptr =>
    refine (related_minus (by change endptr + sf'.pos = d + endptr + sf.pos; omega)).bind
      fun len len' heq => ?_
    subst heq
    exact (hs.assign h hpos typeBareword _).bind fun _ _ hs' =>
      related_pure ⟨Nat.add_assoc d endptr 1, hs'⟩

theorem parseTick_related (h : AlikeInputs d inp inp') (hs : SameScan d o sf sf') :
    Related (SameResult d o) (parseTick inp sf) (parseTick inp' sf') := by
  refine (hs.stringCore h (by decide) 1).bind fun r r' hr => ?_
  obtain ⟨pos, g⟩ := r
  obtain ⟨pos', g'⟩ := r'
  have hg : SameToken o g.current g'.current := hr.2.current
  change Related _ (isKeyword inp.keywords g.current.val g.current.len >>= _)
    (isKeyword inp'.keywords g'.current.val g'.current.len >>= _)
  rw [h.keywords, ← isKeyword_alike hg.val, ← hg.len]
  refine (related_self _).bind fun ch ch' heq => ?_
  subst heq
  exact related_pure ⟨hr.1, hr.2.holding (hg.retype rfl)⟩

theorem SameScan.asVariable (hs : SameScan d o sf sf') :
    SameScan d o sf.asVariable sf'.asVariable := hs.holding (hs.current.retype rfl)

theorem parseVar_related (h : AlikeInputs d inp inp') (hs : SameScan d o sf sf') :
    Related (SameResult d o) (parseVar inp sf) (parseVar inp' sf') := by
  have hpos := hs.pos
  have hlength := h.length
  have hquotes : ∀ test ∈ [fun ch : UInt8 => ch == charSingle || ch == charDouble],
      Respects upper test := by
    intro test htest
    rw [List.mem_singleton.mp htest]
    exact respects_or (respects_symbol (by decide)) (respects_symbol (by decide))
  refine (related_andThen (by omega) (h.passes (by omega) (respects_equals (by decide)))).bind
    fun doubled doubled' heq => ?_
  subst heq
  have hmoved : (if doubled = true then sf'.pos + 2 else sf'.pos + 1) =
      d + (if doubled = true then sf.pos + 2 else sf.pos + 1) := by
    split_ifs
    · omega
    · omega
  have hcounted := (hs.holding (hs.current.recount (if doubled = true then 2 else 1)
    (if doubled = true then 2 else 1))).moved hmoved
  refine (related_andThen (by omega) (h.passes hmoved (respects_equals (by decide)))).bind
    fun ticked ticked' heq => ?_
  subst heq
  refine (lookahead_related h (by omega) hmoved hquotes fun hc => by exact hc).bind
    fun quoted quoted' hquoted => ?_
  obtain ⟨rfl, hquoted⟩ := hquoted
  refine related_ite Iff.rfl (fun _ _ => ?_) fun _ _ => ?_
  · exact (parseTick_related h hcounted).bind fun r r' hr =>
      related_pure ⟨hr.1, hr.2.asVariable⟩
  refine related_ite Iff.rfl (fun htrue _ => ?_) fun _ _ => ?_
  · obtain ⟨ch, hch, hquote⟩ := (hquoted htrue).2 0 _ rfl
    have hsymbol : isSymbol ch = true := by
      rcases Bool.or_eq_true_iff.mp hquote with hsingle | hdouble
      · rw [beq_iff_eq.mp hsingle]
        rfl
      · rw [beq_iff_eq.mp hdouble]
        rfl
    exact (parseString_related h hcounted hch hsymbol).bind fun r r' hr =>
      related_pure ⟨hr.1, hr.2.asVariable⟩
  · refine (related_minus (by omega)).bind fun rest rest' heq => ?_
    subst heq
    refine (h.strlencspn hmoved (respects_strchr (by decide))).bind fun xlen xlen' heq => ?_
    subst heq
    refine (SameScan.assign (hs.holding (hs.current.recount _ _)) h hmoved typeVariable xlen).bind
      fun _ _ hs' => related_pure ⟨?_, hs'⟩
    change _ + xlen = d + (_ + xlen)
    omega

end Words

section Numbers

theorem respects_letter {c c' : UInt8} (h : (List.range 256).all (fun n =>
    (fun ch : UInt8 => ch == c || ch == c') (upper (UInt8.ofNat n)) =
      (fun ch : UInt8 => ch == c || ch == c') (UInt8.ofNat n)) = true) :
    ∀ test ∈ [fun ch : UInt8 => ch == c || ch == c'], Respects upper test := by
  intro test htest
  rw [List.mem_singleton.mp htest]
  exact respects_of_all h

theorem respects_radixDigits {ch : UInt8} {digits : Bytes} (h : radixDigits ch = some digits) :
    Respects upper (strchr digits) := by
  unfold radixDigits at h
  split_ifs at h
  · cases h
    exact respects_of_all (by decide +kernel)
  · cases h
    exact respects_strchr (by decide)

theorem radixPrefix_related (h : AlikeInputs d inp inp') {pos pos' : ℕ} (hpos : pos' = d + pos) :
    Related (fun r r' => r = r' ∧ ∀ digits, r = some digits → Respects upper (strchr digits))
      (radixPrefix inp pos) (radixPrefix inp' pos') := by
  have hlength := h.length
  have hdigits : Respects upper radixDigits := respects_of_all (by decide +kernel)
  refine (h.readAt hpos).bind fun first first' hfirst => ?_
  refine related_ite (and_congr (symbol_iff (by decide) hfirst) (by omega)) (fun _ _ => ?_)
    fun _ _ => related_pure ⟨rfl, fun _ hnone => nomatch hnone⟩
  exact (h.readAt (by omega)).bind fun second second' hsecond =>
    related_pure ⟨hdigits second second' hsecond, fun _ => respects_radixDigits⟩

theorem numberExponent_related (h : AlikeInputs d inp inp') {pos pos' : ℕ}
    (hpos : pos' = d + pos) :
    Related (fun r r' => r'.1 = d + r.1 ∧ r.2 = r'.2) (numberExponent inp pos)
      (numberExponent inp' pos') := by
  have hlength := h.length
  have hsigns : ∀ test ∈ [fun ch : UInt8 => ch == 0x2B || ch == 0x2D], Respects upper test :=
    respects_letter (by decide +kernel)
  refine (related_andThen (by omega) (h.passes hpos (respects_letter (by decide +kernel)))).bind
    fun haveE haveE' heq => ?_
  subst heq
  refine related_ite Iff.rfl (fun _ _ => ?_) fun _ _ => related_pure ⟨hpos, rfl⟩
  refine (related_andThen (by omega) (h.passes (by omega) hsigns)).bind fun sign sign' heq => ?_
  subst heq
  have hmoved : (if sign = true then pos' + 2 else pos' + 1) =
      d + (if sign = true then pos + 2 else pos + 1) := by
    split_ifs
    · omega
    · omega
  have hstop := h.skipDigits hmoved
  refine related_pure ⟨hstop, ?_⟩
  rw [hstop, hmoved]
  simp only [Nat.add_lt_add_iff_left]

theorem numberSuffix_related (h : AlikeInputs d inp inp') {pos pos' : ℕ} (hpos : pos' = d + pos) :
    Related (fun stop stop' => stop' = d + stop) (numberSuffix inp pos)
      (numberSuffix inp' pos') := by
  have hlength := h.length
  have hsuffix : ∀ test ∈ [fun ch : UInt8 =>
      ch == 0x64 || ch == 0x44 || ch == 0x66 || ch == 0x46], Respects upper test := by
    intro test htest
    rw [List.mem_singleton.mp htest]
    exact respects_of_all (by decide +kernel)
  have hend : Respects upper (fun ch => charIsWhite ch || ch == 0x3B) :=
    respects_or respects_white (respects_symbol (by decide))
  refine (related_andThen (by omega) (h.passes hpos hsuffix)).bind fun suffix suffix' heq => ?_
  subst heq
  refine related_ite Iff.rfl (fun _ _ => ?_) fun _ _ => related_pure hpos
  refine related_ite (by omega) (fun _ _ => related_pure (by omega)) fun _ _ => ?_
  refine (h.readAt (by omega)).bind fun next next' hnext => ?_
  have hends : (charIsWhite next || next == 0x3B) = (charIsWhite next' || next' == 0x3B) :=
    hend next next' hnext
  have hunsigned : (next == 0x75 || next == 0x55) = (next' == 0x75 || next' == 0x55) :=
    respects_letter (by decide +kernel) _ (.head _) next next' hnext
  refine related_ite (by rw [hends]) (fun _ _ => related_pure (by omega)) fun _ _ => ?_
  exact related_ite (by rw [hunsigned]) (fun _ _ => related_pure (by omega))
    fun _ _ => related_pure hpos

theorem parseDecimal_related (h : AlikeInputs d inp inp') (hs : SameScan d o sf sf') :
    Related (SameResult d o) (parseDecimal inp sf) (parseDecimal inp' sf') := by
  have hpos := hs.pos
  have hlength := h.length
  have hdigits := h.skipDigits hpos
  refine (related_andThen (by omega) (h.passes hdigits (respects_equals (by decide)))).bind
    fun dotted dotted' heq => ?_
  subst heq
  have hfraction : (if dotted = true then skipDigits inp' (skipDigits inp' sf'.pos + 1)
      else skipDigits inp' sf'.pos) = d + (if dotted = true then
        skipDigits inp (skipDigits inp sf.pos + 1) else skipDigits inp sf.pos) := by
    split_ifs
    · exact h.skipDigits (by omega)
    · exact hdigits
  refine related_ite (and_congr Iff.rfl (by omega)) (fun _ _ => ?_) fun _ _ => ?_
  · exact (hs.assignChar rfl typeDot _ _).bind fun _ _ hs' => related_pure ⟨hfraction, hs'⟩
  refine (numberExponent_related h hfraction).bind fun r r' hr => ?_
  obtain ⟨pos, haveE, haveExp⟩ := r
  obtain ⟨pos', haveE', haveExp'⟩ := r'
  obtain ⟨hexponent, hsame⟩ := hr
  cases hsame
  refine (numberSuffix_related h hexponent).bind fun stop stop' hstop => ?_
  refine (related_minus (by omega)).bind fun len len' heq => ?_
  subst heq
  exact (hs.assign h hpos _ len).bind fun _ _ hs' => related_pure ⟨hstop, hs'⟩

theorem parseNumber_related (h : AlikeInputs d inp inp') (hs : SameScan d o sf sf') :
    Related (SameResult d o) (parseNumber inp sf) (parseNumber inp' sf') := by
  have hpos := hs.pos
  have hlength := h.length
  refine (radixPrefix_related h hpos).bind fun r r' hr => ?_
  obtain ⟨rfl, hdigits⟩ := hr
  cases r with
  | none => exact parseDecimal_related h hs
  | some digits =>
    refine (related_minus (by omega)).bind fun rest rest' heq => ?_
    subst heq
    refine (h.strlenspn (by omega) (hdigits digits rfl)).bind fun xlen xlen' heq => ?_
    subst heq
    refine (hs.assign h hpos _ (2 + xlen)).bind fun _ _ hs' => related_pure ⟨?_, hs'⟩
    change sf'.pos + 2 + xlen = d + (sf.pos + 2 + xlen)
    omega

end Numbers

section Tokenizer

/-- What the lemma on a parser asks of the character that it is called at. -/
def readsSymbol : CharParser → UInt8 → Bool
  | .char, ch | .string, ch => isSymbol ch
  | .backslash, ch => ch == typeBackslash
  | .money, ch => ch == dollar
  | _, _ => true

theorem charParseMap_symbols :
    (List.range 256).all (fun n =>
      charParseMap[n]?.all fun parser => readsSymbol parser (UInt8.ofNat n)) = true := by
  decide +kernel

theorem readsSymbol_of_map {ch : UInt8} {parser : CharParser}
    (h : charParseMap[ch.toNat]? = some parser) : readsSymbol parser ch = true := by
  have hall := List.all_eq_true.mp charParseMap_symbols ch.toNat (List.mem_range.mpr ch.toNat_lt)
  rw [h, Option.all_some, UInt8.ofNat_toNat] at hall
  exact hall

theorem respects_charParseMap : Respects upper (fun ch => charParseMap[ch.toNat]?) :=
  respects_of_all (by decide +kernel)

theorem run_related (parser : CharParser) (h : AlikeInputs d inp inp')
    (hs : SameScan d o sf sf') {ch : UInt8} (hch : inp.s[sf.pos]? = some ch)
    (hreads : readsSymbol parser ch = true) :
    Related (SameResult d o) (parser.run inp sf) (parser.run inp' sf') := by
  have hpos := hs.pos
  cases parser with
  | white =>
    refine related_pure ⟨?_, hs⟩
    change sf'.pos + 1 = d + (sf.pos + 1)
    omega
  | operator1 => exact parseOperator1_related h hs
  | other => exact parseOther_related h hs
  | char => exact parseChar_related h hs hch hreads
  | hash => exact parseHash_related h hs
  | dash => exact parseDash_related h hs
  | slash => exact parseSlash_related h hs
  | backslash =>
    rw [beq_iff_eq.mp hreads] at hch
    exact parseBackslash_related h hs hch
  | operator2 => exact parseOperator2_related h hs
  | string => exact parseString_related h hs hch hreads
  | word => exact parseWord_related h hs
  | estring => exact parseEstring_related h hs
  | ustring => exact parseUstring_related h hs
  | qstring => exact parseQstringCore_related h hs 0
  | nqstring => exact parseNqstring_related h hs
  | bstring => exact parseDigitString_related h hs (respects_strchr (by decide))
  | xstring => exact parseDigitString_related h hs (respects_of_all (by decide +kernel))
  | bword => exact parseBword_related h hs
  | tick => exact parseTick_related h hs
  | var => exact parseVar_related h hs
  | money =>
    rw [beq_iff_eq.mp hreads] at hch
    exact absurd (List.mem_of_getElem? hch) h.undollared
  | number => exact parseNumber_related h hs

def SameCall (d : ℕ) (o : UInt8 → UInt8) (r r' : Bool × Scan) : Prop :=
  r.1 = r'.1 ∧ SameScan d o r.2 r'.2

theorem tokenizeTurn_related (h : AlikeInputs d inp inp') (sf sf' : Scan)
    (hs : SameScan d o sf sf') :
    Related (Sum.LiftRel (SameScan d o) (SameCall d o)) (tokenizeTurn inp sf)
      (tokenizeTurn inp' sf') := by
  have hpos := hs.pos
  have hlength := h.length
  refine related_ite (by omega) (fun _ _ => ?_) fun _ _ => related_pure (.inr ⟨rfl, hs⟩)
  have hread : Related (fun a b => upper a = upper b ∧ inp.s[sf.pos]? = some a)
      (readAt inp.s sf.pos) (readAt inp'.s sf'.pos) :=
    fun a b ha hb => ⟨h.readAt hpos a b ha hb, eq_of_readAt ha⟩
  refine hread.bind fun ch ch' hch => ?_
  have hparser : Related (fun p q => p = q ∧ readsSymbol p ch = true)
      (readAt charParseMap ch.toNat) (readAt charParseMap ch'.toNat) := by
    intro p q hp hq
    have hp' := eq_of_readAt hp
    have hq' := eq_of_readAt hq
    have hsame : charParseMap[ch.toNat]? = charParseMap[ch'.toNat]? :=
      respects_charParseMap ch ch' hch.1
    rw [hp', hq'] at hsame
    exact ⟨Option.some.inj hsame, readsSymbol_of_map hp'⟩
  refine hparser.bind fun p q hpq => ?_
  obtain ⟨rfl, hreads⟩ := hpq
  refine (run_related p h hs hch.2 hreads).bind fun r r' hr => ?_
  obtain ⟨pos, g⟩ := r
  obtain ⟨pos', g'⟩ := r'
  obtain ⟨hstop, hg⟩ := hr
  have htype : g.current.type = g'.current.type := hg.current.type
  refine related_ite (by rw [htype]) (fun _ _ => ?_) fun _ _ => ?_
  · exact related_pure (.inr ⟨rfl, hstop, hg.current, hg.ddx, hg.hash,
      congrArg (· + 1) hg.tokens⟩)
  · exact related_pure (.inl (hg.moved hstop))

/-- A call behind the first character; a quote in front of the text is not asked for any more. -/
theorem tokenize_related (h : AlikeInputs d inp inp') (hs : SameScan d o sf sf')
    (hstarted : 0 < sf.pos) (hnonempty : 0 < inp.s.length) :
    Related (SameCall d o) (libinjectionSqliTokenize inp sf)
      (libinjectionSqliTokenize inp' sf') := by
  have hpos := hs.pos
  have hlength := h.length
  refine related_ite (by omega) (fun hempty _ => absurd hempty (by omega)) fun _ _ => ?_
  have hcleared := hs.holding (@rfl _ (seen o Token.clear))
  refine related_ite ⟨fun hquote => absurd hquote.1 ?_, fun hquote => absurd hquote.1 ?_⟩
    (fun hquote _ => absurd hquote.1 ?_) fun _ _ => ?_
  · change sf.pos ≠ 0
    omega
  · change sf'.pos ≠ 0
    omega
  · change sf.pos ≠ 0
    omega
  · exact related_loop (tokenizeTurn_related h) hcleared

end Tokenizer
end WafWasm.RespelledTokens
