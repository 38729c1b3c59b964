import WafWasm.FoldRuns
import WafWasm.RespelledTokens

set_option autoImplicit false

namespace WafWasm.LockstepFolds
open CheckedMemory RelatedRuns Common LibinjectionTokens LibinjectionParsers LibinjectionFold
open TokenSpans TokenRuns Respelling RespelledTokens

variable {S : Scan → Scan → Prop} {o : UInt8 → UInt8} {inp inp' : Input}

section Tokens
variable {v w : Bytes} {t t' : Token}

theorem mem_symbol {c : UInt8} (hc : isSymbol c = true) (h : Alike upper v w) : c ∈ v ↔ c ∈ w := by
  have hmap : ∀ u : Bytes, c ∈ u ↔ c ∈ u.map upper := by
    intro u
    rw [List.mem_map]
    constructor
    · intro hmem
      exact ⟨c, hmem, upper_symbol hc⟩
    · rintro ⟨a, hmem, ha⟩
      rw [← eq_symbol hc (ha.trans (upper_symbol hc).symm)]
      exact hmem
  rw [hmap v, hmap w, h]

theorem eq_symbols {word : Bytes} (hword : word.all isSymbol = true) (h : Alike upper v w)
    (hv : v = word) : w = word := by
  subst hv
  induction v generalizing w with
  | nil => exact List.map_eq_nil_iff.mp h.symm
  | cons a v ih =>
    cases w with
    | nil => cases h
    | cons b w =>
      obtain ⟨hab, htail⟩ := List.cons.inj h
      rw [List.all_cons, Bool.and_eq_true] at hword
      rw [ih htail hword.2, eq_symbol hword.1 hab.symm]

theorem cString_related (h : Alike upper v w) :
    Related (Alike upper) (cString v) (cString w) := by
  refine related_ite (mem_symbol (by decide) h) (fun _ _ => ?_) fun _ _ _ _ ha _ => nomatch ha
  exact related_pure (h.takeWhile (respects_not (respects_symbol (by decide))))

theorem is_alike (h : SameToken o t t') (word : Bytes) : t.is word = t'.is word := by
  rw [Token.is, Token.is, h.len, cstrcasecmp_alike h.val]

theorem isAny_alike (h : SameToken o t t') (words : List Bytes) :
    Token.isAny t words = Token.isAny t' words := by
  induction words with
  | nil => rfl
  | cons word words ih => rw [Token.isAny, Token.isAny, is_alike h word, ih]

theorem stIsArithmeticOp_related (h : SameToken o t t') :
    Related Eq (stIsArithmeticOp t) (stIsArithmeticOp t') := by
  have hop : Respects upper (fun ch =>
      ch == 0x2A || ch == 0x2F || ch == 0x2D || ch == 0x2B || ch == 0x25) :=
    respects_of_all (by decide +kernel)
  refine (related_readAt h.val).bind fun a b hab => related_pure ?_
  have hsame : (a == 0x2A || a == 0x2F || a == 0x2D || a == 0x2B || a == 0x25) =
      (b == 0x2A || b == 0x2F || b == 0x2D || b == 0x2B || b == 0x25) := hop a b hab
  rw [h.type, h.len, hsame]

theorem stIsUnaryOp_related (h : SameToken o t t') :
    Related Eq (stIsUnaryOp t) (stIsUnaryOp t') := by
  have hone : Respects upper (fun ch => ch == 0x2B || ch == 0x2D || ch == 0x21 || ch == 0x7E) :=
    respects_of_all (by decide +kernel)
  have htwo := respects_symbol (show isSymbol 0x21 = true by decide)
  have hlen := h.len
  rw [stIsUnaryOp, stIsUnaryOp]
  refine related_ite (by rw [h.type]) (fun _ _ => related_pure rfl) fun _ _ => ?_
  rw [← hlen]
  split
  · refine (related_readAt h.val).bind fun a b hab => related_pure ?_
    exact hone a b hab
  · refine (related_readAt h.val).bind fun a b hab => ?_
    refine (related_readAt h.val).bind fun a' b' hab' => related_pure ?_
    exact congrArg₂ and (htwo a b hab) (htwo a' b' hab')
  · rw [is_alike h]
    exact related_self _
  · exact related_pure rfl

end Tokens

section Sources

def SameReturn (S : Scan → Scan → Prop) (o : UInt8 → UInt8) (r r' : Bool × Scan) : Prop :=
  r.1 = r'.1 ∧ S r.2 r'.2 ∧ SameToken o r.2.current r'.2.current

/-- Scans with `S` go on to scans with `S`, and to tokens that look the same. -/
structure Lockstep (S : Scan → Scan → Prop) (o : UInt8 → UInt8) (inp inp' : Input) : Prop where
  keywords : inp'.keywords = inp.keywords
  counted : ∀ sf sf' : Scan, S sf sf' → sf.statsTokens = sf'.statsTokens
  call : ∀ sf sf' : Scan, S sf sf' → ∀ slot slot', SameToken o slot slot' →
    Related (SameReturn S o) (libinjectionSqliTokenize inp { sf with current := slot })
      (libinjectionSqliTokenize inp' { sf' with current := slot' })

end Sources

section Merging
variable {a a' b b' : Token}

theorem syntaxMergeWords_related (h : Lockstep S o inp inp') (ha : SameToken o a a')
    (hb : SameToken o b b') :
    Related (fun m m' => m.map (seen o) = m'.map (seen o)) (syntaxMergeWords inp a b)
      (syntaxMergeWords inp' a' b') := by
  refine related_ite (by rw [ha.type, hb.type]) (fun _ _ => related_pure rfl) fun _ _ => ?_
  refine related_ite (by rw [ha.len, hb.len]) (fun _ _ => related_pure rfl) fun _ _ => ?_
  rw [← ha.len, ← hb.len]
  refine (related_slice (ha.val.drop 0)).bind fun first first' hfirst => ?_
  refine (related_copyTo (show Alike upper (List.replicate tokenSize 0) _ from rfl) hfirst).bind
    fun tmp tmp' htmp => ?_
  refine (related_writeAt htmp rfl).bind fun tmp tmp' htmp => ?_
  refine (related_slice (hb.val.drop 0)).bind fun second second' hsecond => ?_
  refine (related_copyTo htmp hsecond).bind fun tmp tmp' htmp => ?_
  refine (related_writeAt htmp rfl).bind fun tmp tmp' htmp => ?_
  rw [h.keywords, ← isKeyword_alike htmp]
  refine (related_self _).bind fun ch ch' heq => ?_
  subst heq
  refine related_ite Iff.rfl (fun _ _ => ?_) fun _ _ => related_pure rfl
  exact (stAssign_related ha (htmp.drop 0) ch _ _ _).bind fun _ _ hmerged =>
    related_pure (congrArg some hmerged)

/-- What is seen of the facts about two tokens. -/
def seenFacts (o : UInt8 → UInt8) (facts : PairFacts) : PairFacts :=
  { facts with merged := facts.merged.map (seen o) }

def seenFold (o : UInt8 → UInt8) : PairFold → PairFold
  | .merge merged left => .merge (seen o merged) left
  | fold => fold

theorem pairFacts_related (h : Lockstep S o inp inp') (ha : SameToken o a a')
    (hb : SameToken o b b') :
    Related (fun facts facts' => seenFacts o facts = seenFacts o facts') (pairFacts inp a b)
      (pairFacts inp' a' b') := by
  have hi : Respects upper (fun ch => ch == 0x49 || ch == 0x69) :=
    respects_of_all (by decide +kernel)
  have hf : Respects upper (fun ch => ch == 0x46 || ch == 0x66) :=
    respects_of_all (by decide +kernel)
  rw [pairFacts, pairFacts, isAny_alike ha, isAny_alike ha, isAny_alike ha]
  refine (stIsUnaryOp_related hb).bind fun unary unary' heq => ?_
  subst heq
  refine (syntaxMergeWords_related h ha hb).bind fun merged merged' hmerged => ?_
  refine (related_readAt hb.val).bind fun c0 c0' h0 => ?_
  refine (related_readAt hb.val).bind fun c1 c1' h1 => ?_
  refine (related_self _).bind fun name name' heq => ?_
  subst heq
  refine (related_self _).bind fun isIn isIn' heq => ?_
  subst heq
  refine (related_self _).bind fun isLike isLike' heq => ?_
  subst heq
  refine (cString_related hb.val).bind fun text text' htext => ?_
  refine (stIsArithmeticOp_related hb).bind fun arithmetic arithmetic' heq => related_pure ?_
  subst heq
  have hstart : ((c0 == 0x49 || c0 == 0x69) && (c1 == 0x46 || c1 == 0x66)) =
      ((c0' == 0x49 || c0' == 0x69) && (c1' == 0x46 || c1' == 0x66)) :=
    congrArg₂ and (hi c0 c0' h0) (hf c1 c1' h1)
  have hunderscore : text.contains underscore = text'.contains underscore := by
    apply Bool.eq_iff_iff.mpr
    rw [List.contains_iff_mem, List.contains_iff_mem]
    exact mem_symbol (by decide) htext
  simp only [seenFacts, hmerged, hstart, hunderscore]

theorem pairFold_seen (o : UInt8 → UInt8) (left : ℕ) (a b : Token) (facts : PairFacts) :
    pairFold left (seen o a) (seen o b) (seenFacts o facts) =
      seenFold o (pairFold left a b facts) := by
  obtain ⟨unary, merged, startsIf, functionName, isIn, isLike, underscore, arithmetic⟩ := facts
  have hatype : (seen o a).type = a.type := rfl
  have hbtype : (seen o b).type = b.type := rfl
  have hblen : (seen o b).len = b.len := rfl
  unfold pairFold seenFacts
  cases merged with
  | none =>
    simp only [hatype, hbtype, hblen, Option.map_none, apply_ite (seenFold o)]
    rfl
  | some merged =>
    simp only [hatype, hbtype, Option.map_some, apply_ite (seenFold o)]
    rfl

theorem seenFold_cases {p p' : PairFold} (h : seenFold o p = seenFold o p') :
    p = p' ∨ ∃ m m' left, p = .merge m left ∧ p' = .merge m' left ∧ SameToken o m m' := by
  cases p with
  | merge m left =>
    cases p' with
    | merge m' left' =>
      obtain ⟨hm, rfl⟩ := PairFold.merge.inj h
      exact .inr ⟨m, m', left, rfl, rfl, hm⟩
    | _ => cases h
  | _ =>
    cases p' with
    | merge m' left' => cases h
    | _ => exact .inl h

theorem pairFold_related {facts facts' : PairFacts} (ha : SameToken o a a')
    (hb : SameToken o b b') (hfacts : seenFacts o facts = seenFacts o facts') (left : ℕ) :
    seenFold o (pairFold left a b facts) = seenFold o (pairFold left a' b' facts') := by
  rw [← pairFold_seen, ← pairFold_seen, hfacts, show seen o a = seen o a' from ha,
    show seen o b = seen o b' from hb]

end Merging

section Slots

/-- The states of the two folds between calls of the tokenizer; the first call is over. -/
structure SameSfilter (S : Scan → Scan → Prop) (o : UInt8 → UInt8) (sf sf' : Sfilter) : Prop where
  scan : S sf.scan sf'.scan
  tokenvec : Alike (seen o) sf.tokenvec sf'.tokenvec

structure SameFolding (S : Scan → Scan → Prop) (o : UInt8 → UInt8) (f f' : Folding) : Prop where
  sf : SameSfilter S o f.sf f'.sf
  comment : SameToken o f.lastComment f'.lastComment
  pos : f.pos = f'.pos
  left : f.left = f'.left
  more : f.more = f'.more

def SameSlots (S : Scan → Scan → Prop) (o : UInt8 → UInt8) (r r' : Bool × Sfilter) : Prop :=
  r.1 = r'.1 ∧ SameSfilter S o r.2 r'.2

variable {sf sf' : Sfilter} {f f' : Folding}

theorem tokenizeAt_of_call (hvec : Alike (seen o) sf.tokenvec sf'.tokenvec) (i : ℕ)
    (hcall : ∀ slot slot', SameToken o slot slot' → Related (SameReturn S o)
      (libinjectionSqliTokenize inp { sf.scan with current := slot })
      (libinjectionSqliTokenize inp' { sf'.scan with current := slot' })) :
    Related (SameSlots S o) (tokenizeAt inp sf i) (tokenizeAt inp' sf' i) := by
  refine (related_readAt hvec).bind fun slot slot' hslot => ?_
  refine (hcall slot slot' hslot).bind fun r r' hr => ?_
  obtain ⟨more, scan⟩ := r
  obtain ⟨more', scan'⟩ := r'
  obtain ⟨hmore, hscan, hcurrent⟩ := hr
  exact (related_writeAt hvec hcurrent).bind fun _ _ hvec =>
    related_pure ⟨hmore, hscan, hvec⟩

theorem tokenizeAt_related (h : Lockstep S o inp inp') (hs : SameSfilter S o sf sf') (i : ℕ) :
    Related (SameSlots S o) (tokenizeAt inp sf i) (tokenizeAt inp' sf' i) :=
  tokenizeAt_of_call hs.tokenvec i (h.call _ _ hs.scan)

theorem SameFolding.put (hf : SameFolding S o f f') {t t' : Token} (ht : SameToken o t t')
    (i : ℕ) : Related (SameFolding S o) (f.put i t) (f'.put i t') :=
  (related_writeAt hf.sf.tokenvec ht).bind fun _ _ hvec =>
    related_pure ⟨⟨hf.sf.scan, hvec⟩, hf.comment, hf.pos, hf.left,
      hf.more⟩

theorem SameFolding.drop (hf : SameFolding S o f f') (n folds left : ℕ) :
    Related (SameFolding S o) (f.drop n folds left) (f'.drop n folds left) := by
  have hpos := hf.pos
  refine (related_minus (by omega)).bind fun pos pos' heq => ?_
  exact related_pure ⟨⟨hf.sf.scan, hf.sf.tokenvec⟩, hf.comment, heq,
    rfl, hf.more⟩

theorem SameFolding.restart (hf : SameFolding S o f f') (pos left : ℕ) :
    SameFolding S o { f with pos := pos, left := left }
      { f' with pos := pos, left := left } :=
  ⟨hf.sf, hf.comment, rfl, rfl, hf.more⟩

end Slots

section Folds
variable {f f' : Folding}

inductive SameStep (S : Scan → Scan → Prop) (o : UInt8 → UInt8) : Step → Step → Prop where
  | next {f f' : Folding} (h : SameFolding S o f f') : SameStep S o (.next f) (.next f')
  | fall {f f' : Folding} (h : SameFolding S o f f') : SameStep S o (.fall f) (.fall f')
  | stop {sf sf' : Sfilter} {n n' : ℕ} (h : SameSfilter S o sf sf') (hn : n = n') :
      SameStep S o (.stop sf n) (.stop sf' n')

theorem foldTwo_related (h : Lockstep S o inp inp') (hf : SameFolding S o f f') :
    Related (SameStep S o) (foldTwo inp f) (foldTwo inp' f') := by
  have hleft := hf.left
  rw [foldTwo, foldTwo, ← hleft]
  refine (related_readAt hf.sf.tokenvec).bind fun a a' ha => ?_
  refine (related_readAt hf.sf.tokenvec).bind fun b b' hb => ?_
  refine (pairFacts_related h ha hb).bind fun facts facts' hfacts => ?_
  rcases seenFold_cases (pairFold_related ha hb hfacts f.left) with
    hsame | ⟨m, m', left, hfold, hfold', hm⟩
  · rw [hsame]
    cases pairFold f.left a' b' facts' with
    | dropSecond left => exact (hf.drop 1 1 left).bind fun _ _ hg => related_pure (.next hg)
    | merge m left =>
      exact (hf.put (@rfl _ (seen o m)) _).bind fun _ _ hg => (hg.drop 1 1 left).bind
        fun _ _ hg' => related_pure (.next hg')
    | replaceFirst =>
      exact (hf.put hb _).bind fun _ _ hg => (hg.drop 1 1 0).bind
        fun _ _ hg' => related_pure (.next hg')
    | retypeSecond stype =>
      exact (hf.put (SameToken.retype hb rfl) _).bind fun _ _ hg => related_pure (.next hg)
    | retypeFirst stype left =>
      exact (hf.put (SameToken.retype ha rfl) _).bind fun _ _ hg =>
        related_pure (.next ⟨hg.sf, hg.comment, hg.pos, rfl, hg.more⟩)
    | evil =>
      exact (hf.put (SameToken.retype hb rfl) _).bind fun _ _ hg =>
        related_pure (.stop hg.sf (congrArg (· + 2) hg.left))
    | dropBoth => exact (hf.drop 2 2 0).bind fun _ _ hg => related_pure (.next hg)
    | likeFunction =>
      exact (hf.put (SameToken.retype ha rfl) _).bind fun _ _ hg => related_pure (.fall hg)
    | collation =>
      exact (hf.put (SameToken.retype hb rfl) _).bind fun _ _ hg =>
        related_pure (.fall ⟨hg.sf, hg.comment, hg.pos, rfl, hg.more⟩)
    | keep => exact related_pure (.fall hf)
  · rw [hfold, hfold']
    exact (hf.put hm _).bind fun _ _ hg => (hg.drop 1 1 left).bind
      fun _ _ hg' => related_pure (.next hg')

theorem foldThree_related (hf : SameFolding S o f f') :
    Related (SameStep S o) (foldThree f) (foldThree f') := by
  have hleft := hf.left
  rw [foldThree, foldThree, ← hleft]
  refine (related_readAt hf.sf.tokenvec).bind fun a a' ha => ?_
  refine (related_readAt hf.sf.tokenvec).bind fun b b' hb => ?_
  refine (related_readAt hf.sf.tokenvec).bind fun c c' hc => ?_
  refine (stIsUnaryOp_related hb).bind fun unary unary' heq => ?_
  subst heq
  refine (cString_related (SameToken.val hb)).bind fun text text' htext => ?_
  rw [is_alike ha]
  refine (related_self _).bind fun user user' heq => ?_
  subst heq
  have hcast : (text == bytes "::") = (text' == bytes "::") := by
    apply Bool.eq_iff_iff.mpr
    rw [beq_iff_eq, beq_iff_eq]
    exact ⟨eq_symbols (by decide) htext, eq_symbols (by decide) htext.symm⟩
  rw [hcast, SameToken.type ha, SameToken.type hb, SameToken.type hc]
  cases tripleFold a'.type b'.type c'.type unary (text' == bytes "::") user with
  | dropTwo folds => exact (hf.drop 2 folds 0).bind fun _ _ hg => related_pure (.next hg)
  | dropDot =>
    exact related_require.bind fun _ _ _ => (hf.drop 2 0 0).bind fun _ _ hg =>
      related_pure (.next hg)
  | dropSecond =>
    exact (hf.put hc _).bind fun _ _ hg => (hg.drop 1 0 0).bind
      fun _ _ hg' => related_pure (.next hg')
  | dropSign =>
    exact (hf.put hc _).bind fun _ _ hg => related_require.bind fun _ _ _ =>
      (hg.drop 3 0 0).bind fun _ _ hg' => related_pure (.next hg')
  | userWord =>
    exact (hf.put (SameToken.retype ha rfl) _).bind fun _ _ hg => related_pure (.fall hg)
  | keep => exact related_pure (.fall hf)

theorem foldFive_related (hf : SameFolding S o f f') :
    Related (SameFolding S o) (foldFive f) (foldFive f') := by
  have hpos := hf.pos
  have htokens := hf.sf.tokenvec
  refine related_ite (by rw [hpos]) (fun _ _ => related_pure hf) fun _ _ => ?_
  refine (related_readAt htokens).bind fun t0 t0' h0 => ?_
  refine (related_readAt htokens).bind fun t1 t1' h1 => ?_
  refine (related_readAt htokens).bind fun t2 t2' h2 => ?_
  refine (related_readAt htokens).bind fun t3 t3' h3 => ?_
  refine (related_readAt htokens).bind fun t4 t4' h4 => ?_
  rw [SameToken.type h0, SameToken.type h1, SameToken.type h2, SameToken.type h3,
    SameToken.type h4]
  refine related_ite Iff.rfl (fun _ _ => ?_) fun _ _ => related_pure hf
  refine related_ite (by rw [hpos]) (fun _ _ => ?_) fun _ _ => related_pure (hf.restart 1 0)
  refine (related_readAt htokens).bind fun sixth sixth' hsixth => ?_
  exact (hf.put hsixth 1).bind fun _ _ hg => related_pure (hg.restart 2 0)

def SameFold (S : Scan → Scan → Prop) (o : UInt8 → UInt8) (r r' : Sfilter × ℕ) : Prop :=
  SameSfilter S o r.1 r'.1 ∧ r.2 = r'.2

theorem finish_related (hf : SameFolding S o f f') :
    Related (SameFold S o) (finish f) (finish f') := by
  have hleft := hf.left
  have htype := hf.comment.type
  rw [finish, finish, ← hleft, ← htype]
  refine related_ite Iff.rfl (fun _ _ => ?_) fun _ _ => related_pure ⟨hf.sf, rfl⟩
  exact (hf.put hf.comment _).bind fun g g' hg =>
    related_pure ⟨hg.sf, by rw [hg.left]⟩

end Folds

section Loops

theorem fetchTurn_related (h : Lockstep S o inp inp') (n : ℕ) (f f' : Folding)
    (hf : SameFolding S o f f') :
    Related (Sum.LiftRel (SameFolding S o) (SameFolding S o)) (fetchTurn inp n f)
      (fetchTurn inp' n f') := by
  have hpos := hf.pos
  rw [fetchTurn, fetchTurn, ← hpos, ← hf.left, ← hf.more]
  refine (related_self _).bind fun gap gap' heq => ?_
  subst heq
  refine related_ite Iff.rfl (fun _ _ => ?_) fun _ _ => related_pure (.inr hf)
  refine (tokenizeAt_related h hf.sf f.pos).bind fun r r' hr => ?_
  obtain ⟨more, sf⟩ := r
  obtain ⟨more', sf'⟩ := r'
  obtain ⟨hmore, hsf⟩ := hr
  cases hmore
  refine (related_readAt hsf.tokenvec).bind fun token token' htoken => ?_
  refine related_ite Iff.rfl (fun _ _ => ?_) fun _ _ => ?_
  · exact related_pure (.inl ⟨hsf, hf.comment, rfl, rfl, rfl⟩)
  refine related_ite (by rw [SameToken.type htoken]) (fun _ _ => ?_) fun _ _ => ?_
  · exact related_pure (.inl ⟨hsf, htoken, rfl, rfl, rfl⟩)
  · exact related_pure (.inl ⟨hsf, hf.comment.retype rfl, rfl, rfl, rfl⟩)

theorem fetch_related (h : Lockstep S o inp inp') (n : ℕ) {f f' : Folding}
    (hf : SameFolding S o f f') :
    Related (SameFolding S o) (fetch inp n f) (fetch inp' n f') :=
  related_loop (fetchTurn_related h n) hf

theorem foldTurn_related (h : Lockstep S o inp inp') (f f' : Folding)
    (hf : SameFolding S o f f') :
    Related (Sum.LiftRel (SameFolding S o) (SameFold S o)) (foldTurn inp f)
      (foldTurn inp' f') := by
  refine (foldFive_related hf).bind fun f f' hf => ?_
  refine related_ite (by rw [hf.more, hf.left]) (fun _ _ => ?_) fun _ _ => ?_
  · have hdone : SameFolding S o { f with left := f.pos } { f' with left := f'.pos } :=
      ⟨hf.sf, hf.comment, hf.pos, hf.pos, hf.more⟩
    exact (finish_related hdone).bind fun _ _ hr => related_pure (.inr hr)
  refine (fetch_related h 2 hf).bind fun f f' hf => ?_
  refine (related_minus (by rw [hf.pos, hf.left])).bind fun gap gap' heq => ?_
  subst heq
  refine related_ite Iff.rfl (fun _ _ => ?_) fun _ _ => ?_
  · exact related_pure (.inl ⟨hf.sf, hf.comment, hf.pos, hf.pos, hf.more⟩)
  refine (foldTwo_related h hf).bind fun step step' hstep => ?_
  cases hstep with
  | next hg => exact related_pure (.inl hg)
  | stop hsf hn => exact related_pure (.inr ⟨hsf, hn⟩)
  | fall hg =>
    refine (fetch_related h 3 hg).bind fun f f' hf => ?_
    refine (related_minus (by rw [hf.pos, hf.left])).bind fun gap gap' heq => ?_
    subst heq
    refine related_ite Iff.rfl (fun _ _ => ?_) fun _ _ => ?_
    · exact related_pure (.inl ⟨hf.sf, hf.comment, hf.pos, hf.pos, hf.more⟩)
    refine (foldThree_related hf).bind fun step step' hstep => ?_
    cases hstep with
    | next hg => exact related_pure (.inl hg)
    | stop hsf hn => exact related_pure (.inr ⟨hsf, hn⟩)
    | fall hg =>
      exact related_pure (.inl ⟨hg.sf, hg.comment, hg.pos, congrArg (· + 1) hg.left, hg.more⟩)

theorem skipTurn_related {sf sf' : Sfilter}
    (hcall : Related (SameSlots S o) (tokenizeAt inp sf 0) (tokenizeAt inp' sf' 0)) :
    Related (Sum.LiftRel (SameSfilter S o) (SameSlots S o)) (skipTurn inp sf)
      (skipTurn inp' sf') := by
  refine hcall.bind fun r r' hr => ?_
  obtain ⟨more, g⟩ := r
  obtain ⟨more', g'⟩ := r'
  obtain ⟨hmore, hg⟩ := hr
  cases hmore
  refine (related_readAt hg.tokenvec).bind fun token token' htoken => ?_
  refine (stIsUnaryOp_related htoken).bind fun unary unary' heq => ?_
  subst heq
  refine related_ite (by rw [SameToken.type htoken]) (fun _ _ => ?_) fun _ _ => ?_
  · exact related_ite Iff.rfl (fun _ _ => related_pure (.inl hg))
      fun _ _ => related_pure (.inr ⟨rfl, hg⟩)
  · exact related_pure (.inr ⟨rfl, hg⟩)

theorem fold_related (h : Lockstep S o inp inp') {sf sf' : Sfilter}
    (hfirst : Related (SameSlots S o) (tokenizeAt inp sf 0) (tokenizeAt inp' sf' 0)) :
    Related (SameFold S o) (libinjectionSqliFold inp sf) (libinjectionSqliFold inp' sf') := by
  have hskip : Related (SameSlots S o) (loop (skipTurn inp) (inp.s.length + 2) sf)
      (loop (skipTurn inp') (inp'.s.length + 2) sf') := by
    rw [loop, loop]
    refine (skipTurn_related hfirst).bind fun r r' hr => ?_
    cases hr with
    | inl hg =>
      exact related_loop (fun _ _ hsf => skipTurn_related (tokenizeAt_related h hsf 0)) hg
    | inr hg => exact related_pure hg
  refine hskip.bind fun r r' hr => ?_
  obtain ⟨more, g⟩ := r
  obtain ⟨more', g'⟩ := r'
  obtain ⟨hmore, hg⟩ := hr
  cases hmore
  refine related_ite Iff.rfl (fun _ _ => related_pure ⟨hg, rfl⟩) fun _ _ => ?_
  exact related_loop (foldTurn_related h) ⟨hg, rfl, rfl, rfl, rfl⟩

end Loops
end WafWasm.LockstepFolds
