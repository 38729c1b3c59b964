import WafWasm.FoldRuns

set_option autoImplicit false

namespace WafWasm.FoldCounts
open LibinjectionTokens LibinjectionParsers LibinjectionFold TokenSpans TokenRuns FoldSteps
open FoldRuns

variable {inp : Input}

section Trails

/-- Tokens of the text before `hi`, one after the other. -/
structure Trail (inp : Input) (hi : ℕ) (tokens : List Token) : Prop where
  apart : tokens.Pairwise fun a b => a.pos + a.len ≤ b.pos
  each : ∀ t ∈ tokens, IsToken inp 0 hi t

variable {hi : ℕ} {tokens : List Token}

theorem Trail.snoc (h : Trail inp hi tokens) {hi' : ℕ} {t : Token} (ht : IsToken inp hi hi' t)
    (hle : hi ≤ hi') : Trail inp hi' (tokens ++ [t]) := by
  constructor
  · refine List.pairwise_append.mpr ⟨h.apart, List.pairwise_singleton _ _, fun a ha b hb => ?_⟩
    rw [List.mem_singleton.mp hb]
    exact (h.each a ha).stop.trans ht.start
  · intro other hother
    rcases List.mem_append.mp hother with hmem | hmem
    · exact (h.each other hmem).mono (Nat.le_refl _) hle ht.within
    · rw [List.mem_singleton.mp hmem]
      exact ht.mono (Nat.zero_le _) (Nat.le_refl _) ht.within

theorem Trail.mono (h : Trail inp hi tokens) {hi' : ℕ} (hle : hi ≤ hi')
    (hin : hi' ≤ inp.s.length) : Trail inp hi' tokens :=
  ⟨h.apart, fun t ht => (h.each t ht).mono (Nat.le_refl _) hle hin⟩

theorem Trail.retype (h : Trail inp hi tokens) {i : ℕ} {t : Token} (ht : tokens[i]? = some t)
    {stype : UInt8} (hnull : stype ≠ charNull) (hcomment : stype ≠ typeComment) :
    Trail inp hi (tokens.set i { t with type := stype }) := by
  obtain ⟨hlt, hget⟩ := List.getElem?_eq_some_iff.mp ht
  have hspans : (tokens.set i { t with type := stype }).map (fun t => (t.pos, t.len)) =
      tokens.map fun t => (t.pos, t.len) := by
    rw [List.map_set]
    change (tokens.map _).set i (t.pos, t.len) = _
    apply List.ext_getElem?
    intro j
    rw [List.getElem?_set]
    split_ifs with hij hin
    · rw [← hij, List.getElem?_map, ht]
      rfl
    · rw [List.length_map] at hin
      omega
    · rfl
  constructor
  · have happart := h.apart
    rw [← @List.pairwise_map _ _ (fun t : Token => (t.pos, t.len))
      (fun a b => a.1 + a.2 ≤ b.1)] at happart ⊢
    rw [hspans]
    exact happart
  · intro other hother
    rcases List.mem_or_eq_of_mem_set hother with hmem | rfl
    · exact h.each other hmem
    · exact (h.each t (List.mem_of_getElem? ht)).retype hnull hcomment

/-- A token but for its type. -/
def untyped (t : Token) : Token := { t with type := charNull }

/-- Pieces of the text, and but for their types the tokens that the calls so far have returned. -/
structure AsCalled (inp : Input) (scan : Scan) (tokens : List Token) : Prop where
  pieces : Trail inp scan.pos tokens
  calls : ∃ read, Calls inp read scan ∧ tokens.map untyped = read.map untyped

variable {scan scan' : Scan}

theorem AsCalled.snoc (h : AsCalled inp scan tokens) (hlt : scan.pos < scan'.pos)
    (ht : IsToken inp scan.pos scan'.pos scan'.current) {slot : Token}
    (hcall : libinjectionSqliTokenize inp { scan with current := slot } = .ok (true, scan')) :
    AsCalled inp scan' (tokens ++ [scan'.current]) := by
  obtain ⟨read, hread, hsame⟩ := h.calls
  refine ⟨h.pieces.snoc ht (Nat.le_of_lt hlt), read ++ [scan'.current],
    .call slot true hread hcall, ?_⟩
  rw [List.map_append, List.map_append, hsame]

theorem AsCalled.ended (h : AsCalled inp scan tokens) (hle : scan.pos ≤ scan'.pos)
    (hin : scan'.pos ≤ inp.s.length) {slot : Token}
    (hcall : libinjectionSqliTokenize inp { scan with current := slot } = .ok (false, scan')) :
    AsCalled inp scan' tokens := by
  obtain ⟨read, hread, hsame⟩ := h.calls
  exact ⟨h.pieces.mono hle hin, read, .call slot false hread hcall, hsame⟩

theorem AsCalled.retype (h : AsCalled inp scan tokens) {i : ℕ} {t : Token}
    (ht : tokens[i]? = some t) {stype : UInt8} (hnull : stype ≠ charNull)
    (hcomment : stype ≠ typeComment) :
    AsCalled inp scan (tokens.set i { t with type := stype }) := by
  obtain ⟨read, hread, hsame⟩ := h.calls
  refine ⟨h.pieces.retype ht hnull hcomment, read, hread, ?_⟩
  obtain ⟨hlt, hget⟩ := List.getElem?_eq_some_iff.mp ht
  rw [← hsame, List.map_set, ← hget]
  change (tokens.map untyped).set i (untyped tokens[i]) = _
  have hmap : i < (tokens.map untyped).length := by
    rw [List.length_map]
    exact hlt
  rw [← List.getElem_map untyped (h := hmap), List.set_getElem_self]

end Trails

section Counts

/-- The tokens that the fold holds: the slots in use, and a comment after them. -/
def comments (f : Folding) : List Token :=
  if f.lastComment.type = typeComment then [f.lastComment] else []

def trail (f : Folding) : List Token := f.sf.tokenvec.take f.pos ++ comments f

structure Counted (inp : Input) (f : Folding) : Prop where
  counted : (trail f).length ≤ f.sf.scan.statsTokens
  raw : f.sf.scan.statsTokens ≤ (trail f).length → AsCalled inp f.sf.scan (trail f)

variable {f : Folding}

theorem trail_length (h : Folds inp f) : (trail f).length = f.pos + (comments f).length := by
  have hslots := h.slots
  have hpos := h.pos_le
  rw [trail, List.length_append, List.length_take]
  omega

theorem Counted.trail_eq (h : Counted inp f) (hf : Folds inp f) {n : ℕ}
    (hle : f.sf.scan.statsTokens ≤ n) (hn : n ≤ f.pos) : trail f = f.sf.tokenvec.take n := by
  have hcounted := h.counted
  rw [trail_length hf] at hcounted
  have hnone : comments f = [] := List.length_eq_zero_iff.mp (by omega)
  have hpos : n = f.pos := by omega
  rw [trail, hnone, List.append_nil, hpos]

theorem counted_of_lt (h : (trail f).length < f.sf.scan.statsTokens) : Counted inp f :=
  ⟨Nat.le_of_lt h, fun hle => absurd h (Nat.not_lt.mpr hle)⟩

theorem Counted.dropped {g : Folding} {n folds left : ℕ} (h : Counted inp f) (hf : Folds inp f)
    (hg : Folds inp (dropped g n folds left)) (hn : 0 < n) (hle : n ≤ f.pos)
    (hpos : g.pos = f.pos) (hscan : g.sf.scan = f.sf.scan)
    (hcomment : g.lastComment = f.lastComment) : Counted inp (dropped g n folds left) := by
  have hcounted := h.counted
  have hsame : comments (FoldSteps.dropped g n folds left) = comments f := by
    unfold comments
    change (if g.lastComment.type = typeComment then [g.lastComment] else []) = _
    rw [hcomment]
  apply counted_of_lt
  rw [trail_length hg, hsame]
  rw [trail_length hf] at hcounted
  change g.pos - n + _ < g.sf.scan.statsTokens
  rw [hpos, hscan]
  omega

theorem Counted.retype (h : Counted inp f) (hf : Folds inp f) {i : ℕ} {t : Token}
    (ht : f.sf.tokenvec[i]? = some t) (hi : i < f.pos) {stype : UInt8} (hnull : stype ≠ charNull)
    (hcomment : stype ≠ typeComment) : Counted inp (placed f i { t with type := stype }) := by
  have hslots := hf.slots
  have hpos := hf.pos_le
  have htrail : trail (placed f i { t with type := stype }) =
      (trail f).set i { t with type := stype } := by
    unfold trail
    change (f.sf.tokenvec.set i _).take f.pos ++ comments f = _
    rw [List.take_set, List.set_append_left _ _ (by rw [List.length_take]; omega)]
  have hget : (trail f)[i]? = some t := by
    unfold trail
    rw [List.getElem?_append_left (by rw [List.length_take]; omega),
      List.getElem?_take_of_lt hi, ht]
  constructor
  · rw [htrail, List.length_set]
    exact h.counted
  · rw [htrail, List.length_set]
    exact fun hle => (h.raw hle).retype hget hnull hcomment

end Counts

section Rule
variable {f g : Folding}

theorem Counted.snoc (h : Counted inp f) (hf : Folds inp f) {scan : Scan}
    (hlt : f.sf.scan.pos < scan.pos) (htoken : IsToken inp f.sf.scan.pos scan.pos scan.current)
    (htokens : scan.statsTokens = f.sf.scan.statsTokens + 1) {slot : Token}
    (hcall : libinjectionSqliTokenize inp { f.sf.scan with current := slot } = .ok (true, scan))
    (hscan : g.sf.scan = scan) (htrail : trail g = f.sf.tokenvec.take f.pos ++ [scan.current]) :
    Counted inp g := by
  have hlength := trail_length hf
  have hcounted := h.counted
  constructor
  · rw [htrail, hscan, List.length_append, List.length_take, List.length_singleton]
    omega
  · rw [htrail, hscan, List.length_append, List.length_take, List.length_singleton]
    intro hle
    have hraw := h.raw (by omega)
    rw [h.trail_eq hf (show f.sf.scan.statsTokens ≤ f.pos by omega) (Nat.le_refl _)] at hraw
    exact hraw.snoc hlt htoken hcall

theorem Counted.fetched (h : Counted inp f) (hf : Folds inp f) (hpos : f.pos ≤ 5)
    (hfetched : Fetched inp f g) : Counted inp g := by
  have hslots := hf.slots
  cases hfetched with
  | ended scan hend hheld hkept slot hcall =>
    have htrail : trail (fetchedEnd f scan) = trail f := by
      unfold trail
      change (f.sf.tokenvec.set f.pos scan.current).take f.pos ++ comments f = _
      rw [List.take_set_of_le (Nat.le_refl _)]
    constructor
    · rw [htrail]
      change _ ≤ scan.statsTokens
      rw [hkept.tokens]
      exact h.counted
    · rw [htrail]
      change scan.statsTokens ≤ _ → AsCalled inp scan _
      rw [hkept.tokens]
      exact fun hle => (h.raw hle).ended (hf.scanned.trans (Nat.le_of_eq hend.symm))
        (Nat.le_of_eq hend) hcall
  | comment scan hlt htoken htokens hmarks htype slot hcall =>
    have htrail : trail (fetchedComment f scan) =
        f.sf.tokenvec.take f.pos ++ [scan.current] := by
      unfold trail comments
      change (f.sf.tokenvec.set f.pos scan.current).take f.pos ++
        (if scan.current.type = typeComment then [scan.current] else []) = _
      rw [List.take_set_of_le (Nat.le_refl _), if_pos htype]
    exact h.snoc hf hlt htoken htokens hcall rfl htrail
  | token scan hlt htoken htokens hmarks htype slot hcall =>
    have htrail : trail (fetchedToken f scan) = f.sf.tokenvec.take f.pos ++ [scan.current] := by
      unfold trail comments
      change (f.sf.tokenvec.set f.pos scan.current).take (f.pos + 1) ++
        (if charNull = typeComment then _ else []) = _
      rw [if_neg (by decide), List.append_nil, List.take_add_one,
        List.take_set_of_le (Nat.le_refl _), List.getElem?_set_self (by omega)]
      rfl
    exact h.snoc hf hlt htoken htokens hcall rfl htrail

theorem Counted.five (h : Counted inp f) (hf : Folds inp f) (hstep : FiveStep f g) :
    Counted inp g := by
  have hg := hstep.folds hf
  have hcounted := h.counted
  rw [trail_length hf] at hcounted
  cases hstep with
  | same => exact h
  | restart hpos =>
    apply counted_of_lt
    rw [trail_length hg]
    change 1 + (comments f).length < f.sf.scan.statsTokens
    omega
  | sixth t hpos ht =>
    apply counted_of_lt
    rw [trail_length hg]
    change 2 + (comments f).length < f.sf.scan.statsTokens
    omega

theorem Counted.whole (h : Counted inp f) (hf : Folds inp f) {n : ℕ}
    (hle : f.sf.scan.statsTokens ≤ n) (hn : n ≤ f.pos) :
    AsCalled inp f.sf.scan (f.sf.tokenvec.take n) := by
  have hlength := trail_length hf
  rw [← h.trail_eq hf hle hn]
  exact h.raw (by omega)

/-- Without a token that is folded away, the result is what the tokenizer has read. -/
structure AsRead (inp : Input) (r : Sfilter × ℕ) : Prop where
  within : r.1.scan.pos ≤ inp.s.length
  raw : r.1.scan.statsTokens ≤ r.2 → AsCalled inp r.1.scan (r.1.tokenvec.take r.2)

theorem AsRead.pieces {r : Sfilter × ℕ} (h : AsRead inp r) (hle : r.1.scan.statsTokens ≤ r.2) :
    Trail inp inp.s.length (r.1.tokenvec.take r.2) :=
  (h.raw hle).pieces.mono h.within (Nat.le_refl _)

theorem Counted.pair {a b : Token} {fold : PairFold} (h : Counted inp f) (hf : Folds inp f)
    (hpair : Pair f a b fold) :
    Meets (Counted inp) (Counted inp) (AsRead inp) (pairStep f a b fold) := by
  have hroom := hpair.room
  have hsmaller := hpair.folds hf
  have hfirst : f.left < f.pos := by omega
  have hsecond : f.left + 1 < f.pos := by omega
  cases fold with
  | dropSecond left => exact h.dropped hf hsmaller.1 (by decide) (by omega) rfl rfl rfl
  | merge merged left => exact h.dropped hf hsmaller.1 (by decide) (by omega) rfl rfl rfl
  | replaceFirst => exact h.dropped hf hsmaller.1 (by decide) (by omega) rfl rfl rfl
  | dropBoth => exact h.dropped hf hsmaller.1 (by decide) (by omega) rfl rfl rfl
  | retypeSecond stype =>
    obtain ⟨rfl, -⟩ := hpair.reason
    exact h.retype hf hpair.second hsecond (by decide) (by decide)
  | retypeFirst stype left =>
    have hstype : stype ≠ charNull ∧ stype ≠ typeComment := by
      rcases hpair.reason with ⟨-, rfl, -⟩ | ⟨-, rfl | rfl, -⟩ | ⟨-, rfl, -⟩ <;> decide
    have hretyped := h.retype hf hpair.first hfirst hstype.1 hstype.2
    exact ⟨hretyped.counted, hretyped.raw⟩
  | evil =>
    refine ⟨hf.scanned, fun hle => ?_⟩
    have hevil := h.retype hf hpair.second hsecond (show typeEvil ≠ charNull by decide) (by decide)
    have hplaced := hf.placed (f.left + 1) (hpair.heldSecond.retype typeEvil)
    exact hevil.whole hplaced hle hroom
  | likeFunction =>
    exact h.retype hf hpair.first hfirst (show typeFunction ≠ charNull by decide) (by decide)
  | collation =>
    have hretyped := h.retype hf hpair.second hsecond (show typeSqltype ≠ charNull by decide)
      (by decide)
    exact ⟨hretyped.counted, hretyped.raw⟩
  | keep => exact h

theorem Counted.triple {a b c : Token} {fold : TripleFold} (h : Counted inp f) (hf : Folds inp f)
    (htriple : Triple f a b c fold) :
    Meets (Counted inp) (fun g => Counted inp { g with left := g.left + 1 }) (AsRead inp)
      (tripleStep f a c fold) := by
  have hroom := htriple.room
  have hsmaller := htriple.folds hf
  cases fold with
  | dropTwo folds => exact h.dropped hf hsmaller.1 (by decide) (by omega) rfl rfl rfl
  | dropDot => exact h.dropped hf hsmaller.1 (by decide) (by omega) rfl rfl rfl
  | dropSecond => exact h.dropped hf hsmaller.1 (by decide) (by omega) rfl rfl rfl
  | dropSign => exact h.dropped hf hsmaller.1 (by decide) (by omega) rfl rfl rfl
  | userWord =>
    have hword := h.retype hf htriple.first (show f.left < f.pos by omega)
      (show typeBareword ≠ charNull by decide) (by decide)
    exact ⟨hword.counted, hword.raw⟩
  | keep => exact ⟨h.counted, h.raw⟩

theorem Counted.exit (h : Counted inp f) (hf : Folds inp f) :
    AsRead inp (finished { f with left := f.pos }) := by
  have hslots := hf.slots
  have hlength := trail_length hf
  unfold finished
  split_ifs with hc
  · obtain ⟨hlt, htype⟩ := hc
    change f.pos < 5 at hlt
    change f.lastComment.type = typeComment at htype
    have htrail : trail f =
        (f.sf.tokenvec.set f.pos f.lastComment).take (min (f.pos + 1) 5) := by
      unfold trail comments
      rw [if_pos htype, Nat.min_eq_left (by omega), List.take_add_one,
        List.take_set_of_le (Nat.le_refl _), List.getElem?_set_self (by omega)]
      rfl
    refine ⟨hf.scanned, fun hle => ?_⟩
    change f.sf.scan.statsTokens ≤ min (f.pos + 1) 5 at hle
    have hraw := h.raw (by rw [hlength, comments, if_pos htype, List.length_singleton]; omega)
    change AsCalled inp f.sf.scan
      ((f.sf.tokenvec.set f.pos f.lastComment).take (min (f.pos + 1) 5))
    rw [← htrail]
    exact hraw
  · exact ⟨hf.scanned, fun hle => h.whole hf hle (Nat.min_le_left _ _)⟩

theorem counted_rule : FoldRule inp (Counted inp) (Counted inp) (AsRead inp) where
  five := fun _ _ hf h hstep => h.five hf hstep
  fetchTop := fun _ _ hf h hopen hfetched => h.fetched hf hopen.2 hfetched
  fetchMid := fun _ _ hf h hopen hfetched => h.fetched hf hopen.2 hfetched
  pair := fun _ _ _ _ hf h hpair => h.pair hf hpair
  triple := fun _ _ _ _ _ hf h htriple => h.triple hf htriple
  closeTop := fun _ _ h _ _ => ⟨h.counted, h.raw⟩
  closeMid := fun _ _ h _ _ => ⟨h.counted, h.raw⟩
  exit := fun _ hf h _ => h.exit hf

theorem counted_started {sf : Sfilter} {n : ℕ} (h : Starts inp n sf) :
    Counted inp (started sf) := by
  obtain ⟨t, hget, htoken, -, tokens, hcalls⟩ := h.token
  have hcount := hcalls.counted.2
  rw [List.length_append, List.length_singleton] at hcount
  have htrail : trail (started sf) = [t] := by
    unfold trail comments
    change sf.tokenvec.take (0 + 1) ++ (if charNull = typeComment then _ else []) = _
    rw [if_neg (by decide), List.append_nil, List.take_add_one, List.take_zero, hget]
    rfl
  constructor
  · rw [htrail]
    change 1 ≤ sf.scan.statsTokens
    omega
  · rw [htrail]
    intro hle
    change sf.scan.statsTokens ≤ 1 at hle
    have hnone : tokens = [] := List.length_eq_zero_iff.mp (by omega)
    rw [hnone] at hcalls
    refine ⟨⟨List.pairwise_singleton _ _, fun other hother => ?_⟩, [t], hcalls, rfl⟩
    rw [List.mem_singleton.mp hother]
    exact htoken

theorem asRead_empty {sf : Sfilter} {n : ℕ} (h : Skips inp n sf) : AsRead inp (sf, 0) := by
  refine ⟨h.scanned, fun hle => ?_⟩
  obtain ⟨tokens, hcalls⟩ := h.calls
  have hnone : tokens = [] := by
    rw [← List.length_eq_zero_iff, hcalls.counted.2]
    exact Nat.le_zero.mp hle
  change AsCalled inp sf.scan (sf.tokenvec.take 0)
  rw [List.take_zero]
  exact ⟨⟨List.Pairwise.nil, fun t ht => absurd ht List.not_mem_nil⟩, tokens, hcalls,
    by rw [hnone]⟩

end Rule
end WafWasm.FoldCounts
