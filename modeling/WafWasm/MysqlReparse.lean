import WafWasm.AgreeingRuns
import WafWasm.Verdicts

set_option autoImplicit false

namespace WafWasm.MysqlReparse
open CheckedMemory AgreeingRuns Common LibinjectionTokens LibinjectionKeywords
open LibinjectionParsers LibinjectionFold LibinjectionVerdict InputSearches TokenSpans TokenRuns
open FoldSteps FoldRuns FoldShapes Fingerprints Verdicts

/-- Two contexts for one text that differ in the dialect. -/
structure Dialects (ansi mysql : Input) : Prop where
  text : ansi.s = mysql.s
  keywords : ansi.keywords = mysql.keywords
  quotes : ∀ flag ∈ [flagQuoteSingle, flagQuoteDouble, flagQuoteSingle ||| flagQuoteDouble],
    ansi.has flag = mysql.has flag
  isAnsi : ansi.has flagSqlAnsi = true
  notMysql : ansi.has flagSqlMysql = false

variable {a b : Input}

theorem Dialects.delim (h : Dialects a b) : flag2delim a = flag2delim b := by
  rw [flag2delim, flag2delim, h.quotes flagQuoteSingle (.head _),
    h.quotes flagQuoteDouble (.tail _ (.head _))]

theorem Dialects.quoted (h : Dialects a b) : a.has (flagQuoteSingle ||| flagQuoteDouble) =
    b.has (flagQuoteSingle ||| flagQuoteDouble) :=
  h.quotes _ (.tail _ (.tail _ (.head _)))

section Parsers
variable {sf : Scan}

def SeenBy (sf : Scan) (r : ℕ × Scan) : Prop := marks sf < marks r.2

theorem parseHash_agree (h : Dialects a b) (hval : sf.current.val = padded [])
    (hch : a.s[sf.pos]? = some hash) : Agree (SeenBy sf) (parseHash a sf) (parseHash b sf) := by
  obtain ⟨hpos, -⟩ := List.getElem?_eq_some_iff.mp hch
  right
  have hansi : ¬a.has flagSqlMysql = true := by
    rw [h.notMysql]
    decide
  rw [parseHash, if_neg hansi]
  refine (@assignChar_holds a { sf with statsCommentHash := sf.statsCommentHash + 1 } sf.pos
    (sf.pos + 1) sf.pos typeOperator hash hval (by decide) (Nat.le_refl _) (Nat.le_refl _) hpos
    (by decide) hch).bind fun sf' hsf' => holds_pure ?_
  exact Nat.lt_of_lt_of_le (Nat.add_lt_add_left (Nat.lt_succ_self _) _) hsf'.2.marks_le

theorem parseDash_agree {s : Bytes} {table : KeywordTable} {flags flags' : ℕ}
    (hansi : Input.has ⟨s, flags, table⟩ flagSqlAnsi = true)
    (hval : sf.current.val = padded []) (hch : s[sf.pos]? = some dash) :
    Agree (SeenBy sf) (parseDash ⟨s, flags, table⟩ sf) (parseDash ⟨s, flags', table⟩ sf) := by
  obtain ⟨hpos, -⟩ := List.getElem?_eq_some_iff.mp hch
  rw [parseDash, parseDash]
  refine agree_bind fun white _ => agree_ite (fun _ => .of_eq rfl) fun _ => ?_
  refine agree_bind fun atEnd _ => agree_ite (fun _ => .of_eq rfl) fun _ => ?_
  obtain ⟨other', hother', htest⟩ := @lookahead_holds ⟨s, flags, table⟩
    (sf.pos + 1 < s.length) _ (sf.pos + 1) (· == dash) [] fun hc => by simpa using hc
  refine agree_bind fun other hother => ?_
  cases other with
  | false => exact .of_eq rfl
  | true =>
    have hsame : other' = true := Except.ok.inj (hother'.symm.trans hother)
    have hopen := @opensComment_of_dash ⟨s, flags, table⟩ sf _ hch (htest hsame)
    right
    rw [Bool.true_and, if_pos hansi]
    have heol := @parseEolComment_scanned ⟨s, flags, table⟩
      { sf with statsCommentDdx := sf.statsCommentDdx + 1 } hval hpos hopen
    refine heol.imp fun r hr => ?_
    exact Nat.lt_of_lt_of_le (Nat.add_lt_add_right (Nat.lt_succ_self _) _) hr.kept.marks_le

theorem run_agree (h : Dialects a b) (parser : CharParser) (hval : sf.current.val = padded [])
    {ch : UInt8} (hch : a.s[sf.pos]? = some ch) (hsuits : suits parser ch = true) :
    Agree (SeenBy sf) (parser.run a sf) (parser.run b sf) := by
  obtain ⟨s, flags, table⟩ := a
  obtain ⟨s', flags', table'⟩ := b
  obtain rfl : s = s' := h.text
  obtain rfl : table = table' := h.keywords
  cases parser with
  | hash =>
    rw [beq_iff_eq.mp hsuits] at hch
    exact parseHash_agree h hval hch
  | dash =>
    rw [beq_iff_eq.mp hsuits] at hch
    exact parseDash_agree h.isAnsi hval hch
  | white => exact .of_eq rfl
  | operator1 => exact .of_eq rfl
  | other => exact .of_eq rfl
  | char => exact .of_eq rfl
  | slash => exact .of_eq rfl
  | backslash => exact .of_eq rfl
  | operator2 => exact .of_eq rfl
  | string => exact .of_eq rfl
  | word => exact .of_eq rfl
  | estring => exact .of_eq rfl
  | ustring => exact .of_eq rfl
  | qstring => exact .of_eq rfl
  | nqstring => exact .of_eq rfl
  | bstring => exact .of_eq rfl
  | xstring => exact .of_eq rfl
  | bword => exact .of_eq rfl
  | tick => exact .of_eq rfl
  | var => exact .of_eq rfl
  | money => exact .of_eq rfl
  | number => exact .of_eq rfl

end Parsers

section Calls
variable {n : ℕ}

def TurnMarked (n : ℕ) : Scan ⊕ (Bool × Scan) → Prop :=
  Sum.elim (fun sf => n < marks sf) (fun r => n < marks r.2)

theorem tokenizeTurn_agree (h : Dialects a b) {sf : Scan} (hcurrent : sf.current = Token.clear)
    (hn : n ≤ marks sf) : Agree (TurnMarked n) (tokenizeTurn a sf) (tokenizeTurn b sf) := by
  have hval : sf.current.val = padded [] := by
    rw [hcurrent]
    rfl
  rw [tokenizeTurn, tokenizeTurn, ← h.text]
  refine agree_ite (fun hpos => ?_) fun _ => .of_eq rfl
  refine agree_bind fun ch hch => agree_bind fun parser hparser => ?_
  have hget : a.s[sf.pos]? = some ch := by
    rw [readAt_ok hpos] at hch
    rw [List.getElem?_eq_getElem hpos, Except.ok.inj hch]
  have hsuits : suits parser ch = true := by
    refine charParseMap_suits ?_
    have hindex : ch.toNat < charParseMap.length := by
      rw [charParseMap_length]
      exact ch.toNat_lt
    rw [readAt_ok hindex] at hparser
    rw [List.getElem?_eq_getElem hindex, Except.ok.inj hparser]
  refine (run_agree h parser hval hget hsuits).bind (fun r _ => .of_eq rfl) fun r _ hr => ?_
  have hlt : n < marks r.2 := Nat.lt_of_le_of_lt hn hr
  exact holds_ite (fun _ => holds_pure hlt) fun _ => holds_pure hlt

theorem tokenizeTurn_keeps {start sf : Scan} (h : Skipping a start sf) (hn : n < marks sf) :
    Holds (tokenizeTurn a sf)
      (Continues (fun sf => Skipping a start sf ∧ n < marks sf) (fun sf => a.s.length - sf.pos)
        (fun r => n < marks r.2) sf) := by
  have hself : Skipping a sf sf := ⟨h.current, Nat.le_refl _, h.within, .refl sf⟩
  refine (tokenizeTurn_holds sf sf hself).imp fun r hr => ?_
  cases r with
  | inl next =>
    obtain ⟨hskip, hlt⟩ := hr
    exact ⟨⟨⟨hskip.current, h.before.trans hskip.before, hskip.within, h.kept.trans hskip.kept⟩,
      Nat.lt_of_lt_of_le hn hskip.kept.marks_le⟩, hlt⟩
  | inr r =>
    obtain ⟨more, sf'⟩ := r
    cases more with
    | true => exact Nat.lt_of_lt_of_le hn hr.2.2.2
    | false => exact Nat.lt_of_lt_of_le hn hr.2.1.marks_le

theorem tokenize_agree (h : Dialects a b) {sf : Scan} (hpos : sf.pos ≤ a.s.length) :
    Agree (fun r => marks sf < marks r.2) (libinjectionSqliTokenize a sf)
      (libinjectionSqliTokenize b sf) := by
  have hloop : Agree (fun r : Bool × Scan => marks sf < marks r.2)
      (loop (tokenizeTurn a) (a.s.length + 1) { sf with current := Token.clear })
      (loop (tokenizeTurn b) (a.s.length + 1) { sf with current := Token.clear }) := by
    refine agree_loop (tokenizeTurn_holds sf) (fun s hs hmarked => tokenizeTurn_keeps hs hmarked)
      (fun s hs => tokenizeTurn_agree h hs.current hs.kept.marks_le)
      ⟨rfl, Nat.le_refl _, hpos, .refl sf⟩ ?_
    change a.s.length - sf.pos < a.s.length + 1
    omega
  obtain ⟨s, flags, table⟩ := a
  obtain ⟨s', flags', table'⟩ := b
  obtain rfl : s = s' := h.text
  obtain rfl : table = table' := h.keywords
  rw [libinjectionSqliTokenize, libinjectionSqliTokenize, ← h.delim, ← h.quoted]
  refine agree_ite (fun _ => .of_eq rfl) fun _ => ?_
  exact agree_ite (fun _ => .of_eq rfl) fun _ => hloop

end Calls

section Fetches
variable {n : ℕ}

theorem tokenizeAt_agree (h : Dialects a b) {sf : Sfilter} {i : ℕ} (hi : i < sf.tokenvec.length)
    (hpos : sf.scan.pos ≤ a.s.length) :
    Agree (fun r => marks sf.scan < marks r.2.scan) (tokenizeAt a sf i) (tokenizeAt b sf i) := by
  rw [tokenizeAt, tokenizeAt, readAt_ok hi, bind_ok, bind_ok]
  have hcall := @tokenize_agree a b h { sf.scan with current := sf.tokenvec[i] } hpos
  refine hcall.bind (fun r _ => .of_eq rfl) fun r _ hr => ?_
  change Holds (writeAt sf.tokenvec i r.2.current >>= _) _
  rw [writeAt_ok hi, bind_ok]
  exact holds_pure hr

theorem tokenizeAt_slot {sf : Sfilter} {i : ℕ} (hi : i < sf.tokenvec.length)
    (hpos : sf.scan.pos ≤ a.s.length) {r : Bool × Sfilter} (hr : tokenizeAt a sf i = .ok r) :
    ∃ scan, r.2 = fetchedAt sf i scan ∧ ((∀ t ∈ sf.tokenvec, Held t) → Held scan.current) := by
  obtain ⟨r', hr', scan, slot, hslot, hsf, -, htoken⟩ := @tokenizeAt_holds a sf i hi hpos
  rw [hr] at hr'
  cases hr'
  exact ⟨scan, hsf, fun hheld => held_of_tokenized (hheld slot hslot) htoken⟩

/-- The text has been seen at least `n` times. -/
def FoldMarked (n : ℕ) : Folding → Prop := fun f => n ≤ marks f.sf.scan

theorem fetchTurn_agree (h : Dialects a b) {f : Folding} (hf : Folds a f)
    (hn : FoldMarked n f) (k : ℕ) :
    Agree (Sum.elim (FoldMarked (n + 1)) (FoldMarked (n + 1)))
      (fetchTurn a k f) (fetchTurn b k f) := by
  rw [fetchTurn, fetchTurn]
  refine agree_bind fun gap _ => agree_ite (fun hfetch => ?_) fun _ => .of_eq rfl
  have hi : f.pos < f.sf.tokenvec.length := by
    rw [hf.slots]
    exact Nat.lt_of_le_of_lt hfetch.2.1 (by decide)
  refine (tokenizeAt_agree h hi hf.scanned).bind (fun r _ => .of_eq rfl) fun r hr hmarked => ?_
  obtain ⟨more, sf⟩ := r
  obtain ⟨scan, rfl, -⟩ := tokenizeAt_slot hi hf.scanned hr
  have hlt : n < marks (fetchedAt f.sf f.pos scan).scan := Nat.lt_of_le_of_lt hn hmarked
  change Holds (readAt (fetchedAt f.sf f.pos scan).tokenvec f.pos >>= _) _
  rw [fetchedAt_slot hi, bind_ok]
  refine holds_ite (fun _ => holds_pure hlt) fun _ => ?_
  exact holds_ite (fun _ => holds_pure hlt) fun _ => holds_pure hlt

theorem Fetched.marks_le {f g : Folding} (h : Fetched a f g) :
    marks f.sf.scan ≤ marks g.sf.scan := by
  cases h with
  | ended scan hend hheld hkept => exact hkept.marks_le
  | comment scan hlt htoken htokens hmarks htype => exact hmarks
  | token scan hlt htoken htokens hmarks htype => exact hmarks

theorem fetch_agree (h : Dialects a b) {f : Folding} (hf : Folds a f) (hmore : f.more = true)
    (hn : FoldMarked n f) (k : ℕ) :
    Agree (FoldMarked (n + 1)) (fetch a k f) (fetch b k f) := by
  have hstep : ∀ m g g', Folds a g → FoldMarked m g → Open g → Fetched a g g' → FoldMarked m g' :=
    fun m g g' _ hle _ hfetched => Nat.le_trans hle (Fetched.marks_le hfetched)
  rw [fetch, fetch, ← h.text]
  refine agree_loop (fetchTurn_continues (hstep n)) (fun g hg hmarked => ?_)
    (fun g hg => fetchTurn_agree h hg.folds hg.inv k) (FetchLoop.start k hf hn hmore) toFetch_lt
  have hloop : FetchLoop a (FoldMarked (n + 1)) k f g := { hg with inv := hmarked }
  refine (fetchTurn_continues (hstep (n + 1)) g hloop).imp fun r hr => ?_
  cases r with
  | inl next => exact ⟨⟨{ hr.1 with inv := Nat.le_of_succ_le hr.1.inv }, hr.1.inv⟩, hr.2⟩
  | inr next => exact hr.inv

end Fetches

section Turns
variable {n : ℕ}

def ResultMarked (n : ℕ) : Sfilter × ℕ → Prop := fun r => n ≤ marks r.1.scan

theorem marked_rule (n : ℕ) : FoldRule a (FoldMarked n) (FoldMarked n) (ResultMarked n) where
  five := fun _ _ _ h hstep => by
    cases hstep with
    | same => exact h
    | restart => exact h
    | sixth => exact h
  fetchTop := fun _ _ _ h _ hfetched => Nat.le_trans h (Fetched.marks_le hfetched)
  fetchMid := fun _ _ _ h _ hfetched => Nat.le_trans h (Fetched.marks_le hfetched)
  pair := fun f a b fold _ h _ => by
    cases fold <;> exact h
  triple := fun f a b c fold _ h _ => by
    cases fold <;> exact h
  closeTop := fun _ _ h _ _ => h
  closeMid := fun _ _ h _ _ => h
  exit := fun f _ h _ => by
    unfold finished
    split_ifs
    · exact h
    · exact h

def StepMarked (n : ℕ) : Folding ⊕ (Sfilter × ℕ) → Prop :=
  Sum.elim (FoldMarked n) (ResultMarked n)

theorem stepMarked_of_goes {f : Folding} {r : Folding ⊕ (Sfilter × ℕ)}
    (h : Goes a (FoldMarked n) (ResultMarked n) f r) : StepMarked n r := by
  cases r with
  | inl next => exact h.1.top
  | inr result => exact h

theorem fetchStop_of_ok {Inv : Folding → Prop} {f g : Folding} {k : ℕ}
    (h : Holds (fetch a k f) (FetchStop a Inv k f)) (hg : fetch a k f = .ok g) :
    FetchStop a Inv k f g := by
  obtain ⟨g', hg', hstop⟩ := h
  rw [hg] at hg'
  cases hg'
  exact hstop

theorem settleTwo_agree (h : Dialects a b) {f g : Folding}
    (hg : FetchStop a (FoldMarked n) 2 f g) :
    Agree (StepMarked (n + 1)) (settleTwo a g) (settleTwo b g) := by
  have hfoldTwo : foldTwo b g = foldTwo a g := by
    obtain ⟨s, flags, table⟩ := a
    obtain ⟨s', flags', table'⟩ := b
    obtain rfl : s = s' := h.text
    obtain rfl : table = table' := h.keywords
    rfl
  rw [settleTwo, settleTwo, hfoldTwo, minus_ok hg.folds.left_le, bind_ok, bind_ok]
  refine agree_ite (fun _ => .of_eq rfl) fun hgap => ?_
  have hgroom : g.left + 2 ≤ g.pos := by omega
  have hgmore := hg.more_eq hgroom
  obtain ⟨t0, t1, fold, ht0, ht1, hheld0, hheld1, hreason, hfold⟩ := foldTwo_eq hg.folds hgroom
  have hpair : Pair g t0 t1 fold := ⟨hgroom, ht0, ht1, hheld0, hheld1, hreason⟩
  have hstep := (marked_rule n).pair g t0 t1 fold hg.folds hg.inv hpair
  have hsmaller := hpair.folds hg.folds
  rw [hfold, bind_ok, bind_ok]
  generalize pairStep g t0 t1 fold = step at hstep hsmaller ⊢
  cases step with
  | next g' => exact .of_eq rfl
  | stop sf m => exact .of_eq rfl
  | fall g' =>
    obtain ⟨hfolds, hle, hpos', hleft', hmore'⟩ := hsmaller
    have hmore := hmore'.trans hgmore
    refine (fetch_agree h hfolds hmore hstep 3).bind (fun _ _ => .of_eq rfl) fun g'' hg'' hm => ?_
    have hfetch := fetchStop_of_ok (fetch_holds (marked_rule n).fetchMid hfolds hstep hmore) hg''
    have hmarked : FetchStop a (FoldMarked (n + 1)) 3 g' g'' := { hfetch with inv := hm }
    exact (settleThree_holds (marked_rule (n + 1)) hmarked (by omega)).imp
      fun _ hr => stepMarked_of_goes hr

theorem foldTurn_agree (h : Dialects a b) {f : Folding} (hf : AtTop a (FoldMarked n) f) :
    Agree (StepMarked (n + 1)) (foldTurn a f) (foldTurn b f) := by
  rw [foldTurn_eq, foldTurn_eq]
  refine agree_bind fun g hg => ?_
  obtain ⟨g', hg', hfive⟩ := foldFive_holds hf.folds
  obtain rfl : g' = g := Except.ok.inj (hg'.symm.trans hg)
  have hfolds := hfive.folds hf.folds
  have htop := (marked_rule n).five f g' hf.folds hf.top hfive
  refine agree_ite (fun _ => .of_eq rfl) fun hgo => ?_
  rw [not_or, Bool.not_eq_true', Bool.not_eq_false, Nat.not_le] at hgo
  refine (fetch_agree h hfolds hgo.1 htop 2).bind (fun g hg => ?_) fun g hg hm => ?_
  · exact settleTwo_agree h
      (fetchStop_of_ok (fetch_holds (marked_rule n).fetchTop hfolds htop hgo.1) hg)
  · have hfetch := fetchStop_of_ok (fetch_holds (marked_rule n).fetchTop hfolds htop hgo.1) hg
    have hmarked : FetchStop a (FoldMarked (n + 1)) 2 g' g := { hfetch with inv := hm }
    exact (settleTwo_holds (marked_rule (n + 1)) hfolds hgo.1 hgo.2 hmarked).imp
      fun _ hr => stepMarked_of_goes hr

theorem foldLoop_agree (h : Dialects a b) {f : Folding} (hf : AtTop a (FoldMarked n) f) :
    Agree (ResultMarked (n + 1)) (loop (foldTurn a) (foldFuel a.s.length) f)
      (loop (foldTurn b) (foldFuel a.s.length) f) := by
  refine agree_loop (fun _ hg => foldTurn_holds (marked_rule n) hg) (fun g hg hm => ?_)
    (fun g hg => foldTurn_agree h hg) hf (measure_lt_fuel hf.folds)
  have hstrict : AtTop a (FoldMarked (n + 1)) g := { hg with top := hm }
  refine (foldTurn_holds (marked_rule (n + 1)) hstrict).imp fun r hr => ?_
  cases r with
  | inl next => exact ⟨⟨{ hr.1 with top := Nat.le_of_succ_le hr.1.top }, hr.1.top⟩, hr.2⟩
  | inr result => exact hr

end Turns

section Contexts
variable {n : ℕ}

theorem skipTurn_agree (h : Dialects a b) {sf : Sfilter} (hsf : Skips a n sf) :
    Agree (Sum.elim (fun sf => n + 1 ≤ marks sf.scan) (fun r => n + 1 ≤ marks r.2.scan))
      (skipTurn a sf) (skipTurn b sf) := by
  have hi : 0 < sf.tokenvec.length := by
    rw [hsf.slots]
    decide
  rw [skipTurn, skipTurn]
  refine (tokenizeAt_agree h hi hsf.scanned).bind (fun r _ => .of_eq rfl) fun r hr hmarked => ?_
  obtain ⟨more, sf'⟩ := r
  obtain ⟨scan, rfl, hheld⟩ := tokenizeAt_slot hi hsf.scanned hr
  have hlt : n + 1 ≤ marks (fetchedAt sf 0 scan).scan := Nat.lt_of_le_of_lt hsf.marked hmarked
  change Holds (readAt (fetchedAt sf 0 scan).tokenvec 0 >>= _) _
  rw [fetchedAt_slot hi, bind_ok]
  refine (stIsUnaryOp_holds (hheld hsf.held)).bind fun unary _ => ?_
  refine holds_ite (fun _ => ?_) fun _ => holds_pure hlt
  exact holds_ite (fun _ => holds_pure hlt) fun _ => holds_pure hlt

theorem skipped_of_ok {sf : Sfilter} (hsf : Skips a n sf) {r : Bool × Sfilter}
    (hr : loop (skipTurn a) (a.s.length + 2) sf = .ok r) : Skipped a n r := by
  obtain ⟨r', hr', hskipped⟩ := skipLoop_holds hsf
  rw [hr] at hr'
  cases hr'
  exact hskipped

theorem fold_agree (h : Dialects a b) {sf : Sfilter} (hsf : Skips a n sf) :
    Agree (ResultMarked (n + 1)) (libinjectionSqliFold a sf) (libinjectionSqliFold b sf) := by
  have hloop : Agree (fun r : Bool × Sfilter => n + 1 ≤ marks r.2.scan)
      (loop (skipTurn a) (a.s.length + 2) sf) (loop (skipTurn b) (a.s.length + 2) sf) := by
    refine agree_loop (fun _ hs => skipTurn_holds hs) (fun sf hs hm => ?_)
      (fun sf hs => skipTurn_agree h hs) hsf toSkip_lt
    have hstrict : Skips a (n + 1) sf := { hs with marked := hm }
    refine (skipTurn_holds hstrict).imp fun r hr => ?_
    cases r with
    | inl next => exact ⟨⟨{ hr.1 with marked := Nat.le_of_succ_le hr.1.marked }, hr.1.marked⟩, hr.2⟩
    | inr result =>
      obtain ⟨more, sf'⟩ := result
      cases more with
      | true => exact hr.marked
      | false => exact hr.marked
  rw [libinjectionSqliFold, libinjectionSqliFold, ← h.text]
  refine hloop.bind (fun r hr => ?_) fun r hr hm => ?_
  · obtain ⟨more, sf'⟩ := r
    cases more with
    | false =>
      change Agree _ (pure (sf', 0)) (pure (sf', 0))
      exact .of_eq rfl
    | true =>
      have hstarts : Starts a n sf' := skipped_of_ok hsf hr
      change Agree _ (loop (foldTurn a) (foldFuel a.s.length) (started sf'))
        (loop (foldTurn b) (foldFuel a.s.length) (started sf'))
      exact foldLoop_agree h (hstarts.atTop hstarts.marked)
  · obtain ⟨more, sf'⟩ := r
    cases more with
    | false =>
      change Holds (pure (sf', 0)) _
      exact holds_pure hm
    | true =>
      have hstarts : Starts a n sf' := skipped_of_ok hsf hr
      change Holds (loop (foldTurn a) (foldFuel a.s.length) (started sf')) _
      exact foldLoop_holds (marked_rule (n + 1)) (hstarts.atTop hm)

end Contexts

section Tests
variable (s : Bytes) (table : KeywordTable)

abbrev Quoted (quote : ℕ) : Prop := quote = flagQuoteNone ∨ quote = flagQuoteSingle

theorem has_reset (flags flag : ℕ) :
    (resetInput s table flags).has flag = (resetFlags flags &&& flag != 0) := rfl

theorem dialects_reset {quote : ℕ} (h : Quoted quote) :
    Dialects (resetInput s table (quote ||| flagSqlAnsi))
      (resetInput s table (quote ||| flagSqlMysql)) := by
  rcases h with rfl | rfl
  · refine ⟨rfl, rfl, ?_, ?_, ?_⟩
    · simp only [has_reset]
      decide
    · rw [has_reset]
      decide
    · rw [has_reset]
      decide
  · refine ⟨rfl, rfl, ?_, ?_, ?_⟩
    · simp only [has_reset]
      decide
    · rw [has_reset]
      decide
    · rw [has_reset]
      decide

theorem fingerprint_agree {quote : ℕ} (h : Quoted quote) :
    Agree (fun st => reparseAsMysql st = true)
      (libinjectionSqliFingerprint s table (quote ||| flagSqlAnsi))
      (libinjectionSqliFingerprint s table (quote ||| flagSqlMysql)) := by
  rw [fingerprint_eq, fingerprint_eq]
  have hfold := fold_agree (dialects_reset s table h) (skips_reset _)
  refine hfold.bind (fun r _ => .of_eq rfl) fun r hr hmarked => ?_
  obtain ⟨r', hr', hfolded, hasRead⟩ :=
    foldReset_holds (resetInput s table (quote ||| flagSqlAnsi))
  rw [hr] at hr'
  cases hr'
  refine (spell_holds hfolded hasRead).imp fun st hst => ?_
  have hmarks : 0 < marks st.sf.scan := by
    rw [hst.1]
    exact hmarked
  unfold marks at hmarks
  rw [reparseAsMysql, Bool.or_eq_true, bne_iff_ne, bne_iff_ne]
  omega

/-- A test that asks for no other test has the verdict of the other one. -/
theorem testContext_eq {quote : ℕ} (h : Quoted quote) {found : Bool}
    (hansi : testContext s table (quote ||| flagSqlAnsi) = .ok (found, false)) :
    testContext s table (quote ||| flagSqlMysql) = .ok (found, false) := by
  rw [testContext] at hansi ⊢
  have hagree : Agree (fun r : Bool × Bool => r.2 = true)
      (testContext s table (quote ||| flagSqlAnsi))
      (testContext s table (quote ||| flagSqlMysql)) := by
    rw [testContext, testContext]
    refine (fingerprint_agree s table h).bind (fun st _ => .of_eq rfl) fun st hst hreparse => ?_
    obtain ⟨st', hst', pattern, hpattern⟩ :=
      @fingerprint_holds s table (quote ||| flagSqlAnsi)
    rw [hst] at hst'
    cases hst'
    refine (checkFingerprint_holds s table hpattern).bind fun _ _ => holds_pure hreparse
  rw [testContext, testContext] at hagree
  exact hagree.eq_of_not_marked hansi Bool.false_ne_true

end Tests
end WafWasm.MysqlReparse
