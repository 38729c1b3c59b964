import WafWasm.FoldSteps

set_option autoImplicit false

/-!
# Runs of the fold

A turn of the main loop takes tokens from the tokenizer, folds, or settles one more token. The
weight counts two for every character that is left and one for every slot in use; a turn that
leaves it as it is has retyped a token or moved `left` ahead, and this can be repeated only a
bounded number of times. What every step keeps therefore holds of the result.
-/
namespace WafWasm.FoldRuns
open CheckedMemory LibinjectionTokens LibinjectionParsers LibinjectionFold TokenSpans TokenRuns
open FoldSteps

variable {inp : Input}

section Relations

def fetchedAt (sf : Sfilter) (i : ℕ) (scan : Scan) : Sfilter :=
  { sf with scan := scan, tokenvec := sf.tokenvec.set i scan.current }

def fetchedEnd (f : Folding) (scan : Scan) : Folding :=
  { f with sf := fetchedAt f.sf f.pos scan, more := false }

def fetchedComment (f : Folding) (scan : Scan) : Folding :=
  { f with sf := fetchedAt f.sf f.pos scan, more := true, lastComment := scan.current }

def fetchedToken (f : Folding) (scan : Scan) : Folding :=
  { f with sf := fetchedAt f.sf f.pos scan, more := true, pos := f.pos + 1,
           lastComment := { f.lastComment with type := charNull } }

/-- One call of the tokenizer, on the slot at `pos`. -/
inductive Fetched (inp : Input) (f : Folding) : Folding → Prop where
  | ended (scan : Scan) (hend : scan.pos = inp.s.length) (hheld : Held scan.current)
      (hkept : Kept f.sf.scan scan) (slot : Token)
      (hcall : libinjectionSqliTokenize inp { f.sf.scan with current := slot } =
        .ok (false, scan)) : Fetched inp f (fetchedEnd f scan)
  | comment (scan : Scan) (hlt : f.sf.scan.pos < scan.pos)
      (htoken : IsToken inp f.sf.scan.pos scan.pos scan.current)
      (htokens : scan.statsTokens = f.sf.scan.statsTokens + 1)
      (hmarks : marks f.sf.scan ≤ marks scan)
      (htype : scan.current.type = typeComment) (slot : Token)
      (hcall : libinjectionSqliTokenize inp { f.sf.scan with current := slot } =
        .ok (true, scan)) : Fetched inp f (fetchedComment f scan)
  | token (scan : Scan) (hlt : f.sf.scan.pos < scan.pos)
      (htoken : IsToken inp f.sf.scan.pos scan.pos scan.current)
      (htokens : scan.statsTokens = f.sf.scan.statsTokens + 1)
      (hmarks : marks f.sf.scan ≤ marks scan)
      (htype : scan.current.type ≠ typeComment) (slot : Token)
      (hcall : libinjectionSqliTokenize inp { f.sf.scan with current := slot } =
        .ok (true, scan)) : Fetched inp f (fetchedToken f scan)

/-- What the check for five tokens leaves. -/
inductive FiveStep (f : Folding) : Folding → Prop where
  | same : FiveStep f f
  | restart (hpos : f.pos = 5) : FiveStep f { f with pos := 1, left := 0 }
  | sixth (t : Token) (hpos : f.pos = 6) (ht : f.sf.tokenvec[5]? = some t) :
      FiveStep f { placed f 1 t with pos := 2, left := 0 }

structure Pair (f : Folding) (a b : Token) (fold : PairFold) : Prop where
  room : f.left + 2 ≤ f.pos
  first : f.sf.tokenvec[f.left]? = some a
  second : f.sf.tokenvec[f.left + 1]? = some b
  heldFirst : Held a
  heldSecond : Held b
  reason : PairReason f.left a b fold

structure Triple (f : Folding) (a b c : Token) (fold : TripleFold) : Prop where
  room : f.left + 3 ≤ f.pos
  first : f.sf.tokenvec[f.left]? = some a
  second : f.sf.tokenvec[f.left + 1]? = some b
  third : f.sf.tokenvec[f.left + 2]? = some c
  heldFirst : Held a
  heldThird : Held c
  reason : TripleReason a b fold

def Meets (next fall : Folding → Prop) (stop : Sfilter × ℕ → Prop) : Step → Prop
  | .next f => next f
  | .fall f => fall f
  | .stop sf n => stop (sf, n)

def finished (f : Folding) : Sfilter × ℕ :=
  if f.left < maxTokens ∧ f.lastComment.type = typeComment then
    ((placed f f.left f.lastComment).sf, min (f.left + 1) maxTokens)
  else (f.sf, min f.left maxTokens)

def Open (f : Folding) : Prop := f.more = true ∧ f.pos ≤ 5

/-- What must be shown of each step for a property of the results: `Top` holds at the head of the
loop, `Mid` between the folds of two tokens and of three. -/
structure FoldRule (inp : Input) (Top Mid : Folding → Prop) (Post : Sfilter × ℕ → Prop) :
    Prop where
  five : ∀ f f', Folds inp f → Top f → FiveStep f f' → Top f'
  fetchTop : ∀ f f', Folds inp f → Top f → Open f → Fetched inp f f' → Top f'
  fetchMid : ∀ f f', Folds inp f → Mid f → Open f → Fetched inp f f' → Mid f'
  pair : ∀ f a b fold, Folds inp f → Top f → Pair f a b fold →
    Meets Top Mid Post (pairStep f a b fold)
  triple : ∀ f a b c fold, Folds inp f → Mid f → Triple f a b c fold →
    Meets Top (fun g => Top { g with left := g.left + 1 }) Post (tripleStep f a c fold)
  closeTop : ∀ f, Folds inp f → Top f → ¬Open f → f.pos < f.left + 2 →
    Top { f with left := f.pos }
  closeMid : ∀ f, Folds inp f → Mid f → ¬Open f → f.pos < f.left + 3 →
    Top { f with left := f.pos }
  exit : ∀ f, Folds inp f → Top f → f.left = f.pos ∨ f.pos ≤ 1 ∨ 5 ≤ f.left →
    Post (finished { f with left := f.pos })

end Relations

section Measure

def weight (inp : Input) (f : Folding) : ℕ :=
  2 * (inp.s.length - f.sf.scan.pos) + f.pos + if f.more then 1 else 0

/-- A token that a fold may retype and go back to the first one. -/
def Volatile (t : Token) : Prop :=
  t.type = typeBackslash ∨ t.type = typeBareword ∧ HasUnderscore t

instance : DecidablePred Volatile := fun t =>
  inferInstanceAs (Decidable (t.type = typeBackslash ∨ t.type = typeBareword ∧ HasUnderscore t))

def volatiles (f : Folding) : ℕ := f.sf.tokenvec.countP (fun t => decide (Volatile t))

def slotType (f : Folding) (i : ℕ) : UInt8 := (f.sf.tokenvec[i]?.map Token.type).getD 0

/-- How often two tokens at `left` may still be retyped without moving. -/
def retypings (first second : UInt8) : ℕ :=
  (if first = typeKeyword then 2
    else if first = typeBareword ∨ first = typeVariable then 1 else 0) +
  if second = typeFunction then 1 else 0

def measure (inp : Input) (f : Folding) : ℕ :=
  252 * weight inp f + 28 * volatiles f + 4 * (6 - f.left) +
    retypings (slotType f f.left) (slotType f (f.left + 1))

theorem retypings_le (first second : UInt8) : retypings first second ≤ 3 := by
  unfold retypings
  split_ifs <;> omega

theorem volatiles_le {f : Folding} (h : Folds inp f) : volatiles f ≤ 8 := by
  rw [← h.slots]
  exact List.countP_le_length

theorem measure_lt_of_weight {f g : Folding} (hg : Folds inp g)
    (h : weight inp g < weight inp f) : measure inp g < measure inp f := by
  have hr := retypings_le (slotType g g.left) (slotType g (g.left + 1))
  have hv := volatiles_le hg
  unfold measure
  omega

theorem measure_lt_fuel {f : Folding} (h : Folds inp f) :
    measure inp f < foldFuel inp.s.length := by
  have hr := retypings_le (slotType f f.left) (slotType f (f.left + 1))
  have hv := volatiles_le h
  have hp := h.pos_le
  have hw : weight inp f ≤ 2 * inp.s.length + 7 := by
    unfold weight
    split_ifs <;> omega
  unfold measure foldFuel
  omega

theorem slotType_eq {f : Folding} {i : ℕ} {t : Token} (h : f.sf.tokenvec[i]? = some t) :
    slotType f i = t.type := by
  rw [slotType, h]
  rfl

theorem placed_self {f : Folding} (h : Folds inp f) {i : ℕ} (hi : i < 8) (t : Token) :
    (placed f i t).sf.tokenvec[i]? = some t := by
  change (f.sf.tokenvec.set i t)[i]? = some t
  rw [List.getElem?_set_self (by rw [h.slots]; exact hi)]

theorem placed_ne (f : Folding) {i j : ℕ} (hij : i ≠ j) (t : Token) :
    (placed f i t).sf.tokenvec[j]? = f.sf.tokenvec[j]? :=
  List.getElem?_set_ne hij

theorem slotType_placed_ne (f : Folding) {i j : ℕ} (hij : i ≠ j) (t : Token) :
    slotType (placed f i t) j = slotType f j := by
  rw [slotType, slotType, placed_ne f hij]

theorem volatiles_placed {f : Folding} {i : ℕ} {old t : Token}
    (hold : f.sf.tokenvec[i]? = some old) :
    volatiles (placed f i t) + (if Volatile old then 1 else 0) =
      volatiles f + if Volatile t then 1 else 0 := by
  obtain ⟨hi, hget⟩ := List.getElem?_eq_some_iff.mp hold
  have hset := @List.countP_set _ (fun t => decide (Volatile t)) f.sf.tokenvec i t hi
  rw [hget] at hset
  have hpos : Volatile old → 0 < f.sf.tokenvec.countP (fun t => decide (Volatile t)) := by
    intro hv
    refine List.countP_pos_iff.mpr ⟨old, ?_, decide_eq_true hv⟩
    rw [← hget]
    exact List.getElem_mem hi
  unfold volatiles
  change (f.sf.tokenvec.set i t).countP _ + _ = _
  rw [hset]
  simp only [decide_eq_true_eq]
  split_ifs with ho ht ht
  · have := hpos ho
    omega
  · have := hpos ho
    omega
  · omega
  · omega

theorem volatiles_placed_le {f : Folding} {i : ℕ} {old t : Token}
    (hold : f.sf.tokenvec[i]? = some old) (ht : ¬Volatile t) :
    volatiles (placed f i t) ≤ volatiles f := by
  have h := @volatiles_placed f i old t hold
  rw [if_neg ht] at h
  omega

theorem volatiles_placed_lt {f : Folding} {i : ℕ} {old t : Token}
    (hold : f.sf.tokenvec[i]? = some old) (ho : Volatile old) (ht : ¬Volatile t) :
    volatiles (placed f i t) < volatiles f := by
  have h := @volatiles_placed f i old t hold
  rw [if_neg ht, if_pos ho] at h
  omega

theorem not_volatile {t : Token} {stype : UInt8} (hslash : stype ≠ typeBackslash)
    (hword : stype = typeBareword → ¬HasUnderscore t) :
    ¬Volatile { t with type := stype } := by
  rintro (h | ⟨h, hunderscore⟩)
  · exact hslash h
  · exact hword h hunderscore

end Measure

section Fetches

theorem tokenizeAt_holds {sf : Sfilter} {i : ℕ} (hi : i < sf.tokenvec.length)
    (hpos : sf.scan.pos ≤ inp.s.length) :
    Holds (tokenizeAt inp sf i) (fun r => ∃ scan slot, slot ∈ sf.tokenvec ∧
      r.2 = fetchedAt sf i scan ∧
      libinjectionSqliTokenize inp { sf.scan with current := slot } = .ok (r.1, scan) ∧
      Tokenized inp { sf.scan with current := slot } (r.1, scan)) := by
  obtain ⟨⟨more, scan⟩, hcall, htoken⟩ :=
    @tokenize_holds inp { sf.scan with current := sf.tokenvec[i] } hpos
  rw [tokenizeAt, readAt_ok hi, bind_ok, hcall, bind_ok]
  change Holds (writeAt sf.tokenvec i scan.current >>= _) _
  rw [writeAt_ok hi, bind_ok]
  exact holds_pure ⟨scan, sf.tokenvec[i], List.getElem_mem hi, rfl, hcall, htoken⟩

theorem held_of_tokenized {sf : Scan} {r : Bool × Scan} (hsf : Held sf.current)
    (h : Tokenized inp sf r) : Held r.2.current := by
  obtain ⟨more, scan⟩ := r
  cases more with
  | true => exact held_of_isToken h.2.1
  | false =>
    rcases h.2.2 with hclear | hsame
    · change Held scan.current
      rw [hclear]
      exact held_clear
    · change Held scan.current
      rw [hsame]
      exact hsf

theorem fetchedAt_slot {sf : Sfilter} {i : ℕ} (hi : i < sf.tokenvec.length) (scan : Scan) :
    readAt (fetchedAt sf i scan).tokenvec i = .ok scan.current := by
  have hlen : i < (sf.tokenvec.set i scan.current).length := by
    rw [List.length_set]
    exact hi
  change readAt (sf.tokenvec.set i scan.current) i = _
  rw [readAt_ok hlen, List.getElem_set_self]

def FetchResult (inp : Input) (n : ℕ) (f : Folding) : Folding ⊕ Folding → Prop
  | .inl g => f.more = true ∧ f.pos ≤ 5 ∧ f.pos < f.left + n ∧ Fetched inp f g
  | .inr g => g = f ∧ ¬(f.more = true ∧ f.pos ≤ 5 ∧ f.pos < f.left + n)

theorem fetchTurn_holds {f : Folding} (hf : Folds inp f) (n : ℕ) :
    Holds (fetchTurn inp n f) (FetchResult inp n f) := by
  have hle := hf.left_le
  rw [fetchTurn, minus_ok hle, bind_ok]
  refine holds_ite ?_ ?_
  · rintro ⟨hmore, hpos, hgap⟩
    have hroom : f.pos < f.left + n := by omega
    have hi : f.pos < f.sf.tokenvec.length := by
      rw [hf.slots]
      exact Nat.lt_of_le_of_lt hpos (by decide)
    refine (tokenizeAt_holds hi hf.scanned).bind fun r hr => ?_
    obtain ⟨more, sf⟩ := r
    obtain ⟨scan, slot, hslot, rfl, hcall, htok⟩ := hr
    have hheld := held_of_tokenized (hf.held slot hslot) htok
    change Holds (readAt (fetchedAt f.sf f.pos scan).tokenvec f.pos >>= _) _
    rw [fetchedAt_slot hi, bind_ok]
    cases more with
    | false =>
      obtain ⟨hend, hkept, -⟩ := htok
      exact holds_pure ⟨hmore, hpos, hroom, .ended scan hend hheld hkept slot hcall⟩
    | true =>
      obtain ⟨hlt, htoken, htokens, hmarks⟩ := htok
      change Holds (if scan.current.type = typeComment then _ else _) _
      refine holds_ite ?_ ?_
      · intro htype
        exact holds_pure ⟨hmore, hpos, hroom,
          .comment scan hlt htoken htokens hmarks htype slot hcall⟩
      · intro htype
        exact holds_pure ⟨hmore, hpos, hroom,
          .token scan hlt htoken htokens hmarks htype slot hcall⟩
  · intro hstop
    refine holds_pure ⟨rfl, fun hc => hstop ⟨hc.1, hc.2.1, ?_⟩⟩
    omega

theorem Fetched.folds {f g : Folding} (h : Fetched inp f g) (hf : Folds inp f)
    (hpos : f.pos ≤ 5) : Folds inp g := by
  cases h with
  | ended scan hend hheld hkept =>
    exact ⟨by rw [← hf.slots]; exact List.length_set, held_set hf.held _ hheld, hf.comment,
      Nat.le_of_eq hend, hf.left_le, hf.pos_le⟩
  | comment scan hlt htoken htokens hmarks htype =>
    exact ⟨by rw [← hf.slots]; exact List.length_set,
      held_set hf.held _ (held_of_isToken htoken), held_of_isToken htoken, htoken.within,
      hf.left_le, hf.pos_le⟩
  | token scan hlt htoken htokens hmarks htype =>
    exact ⟨by rw [← hf.slots]; exact List.length_set,
      held_set hf.held _ (held_of_isToken htoken), hf.comment.retype _, htoken.within,
      Nat.le_succ_of_le hf.left_le, Nat.succ_le_succ hpos⟩

theorem Fetched.weight_lt {f g : Folding} (h : Fetched inp f g) (hmore : f.more = true) :
    weight inp g < weight inp f := by
  unfold weight
  rw [hmore, if_pos rfl]
  cases h with
  | ended scan hend hheld hkept =>
    change 2 * (inp.s.length - scan.pos) + f.pos + 0 < _
    omega
  | comment scan hlt htoken htokens hmarks htype =>
    have := htoken.within
    change 2 * (inp.s.length - scan.pos) + f.pos + 1 < _
    omega
  | token scan hlt htoken htokens hmarks htype =>
    have := htoken.within
    change 2 * (inp.s.length - scan.pos) + (f.pos + 1) + 1 < _
    omega

theorem Fetched.left_eq {f g : Folding} (h : Fetched inp f g) : g.left = f.left := by
  cases h <;> rfl

theorem Fetched.pos_le {f g : Folding} (h : Fetched inp f g) : f.pos ≤ g.pos := by
  cases h with
  | ended => exact Nat.le_refl _
  | comment => exact Nat.le_refl _
  | token => exact Nat.le_succ _

/-- What the loop that takes tokens keeps. -/
structure FetchLoop (inp : Input) (Inv : Folding → Prop) (n : ℕ) (f g : Folding) : Prop where
  folds : Folds inp g
  inv : Inv g
  left_eq : g.left = f.left
  pos_le : f.pos ≤ g.pos
  weight_le : g = f ∨ weight inp g < weight inp f
  ended : g.more = false → g.pos < g.left + n ∧ g.pos ≤ 5

structure FetchStop (inp : Input) (Inv : Folding → Prop) (n : ℕ) (f g : Folding) : Prop
    extends FetchLoop inp Inv n f g where
  stopped : g.pos < g.left + n → ¬Open g

theorem FetchLoop.next {Inv : Folding → Prop} {f g g' : Folding} {n : ℕ}
    (h : FetchLoop inp Inv n f g) (hmore : g.more = true) (hpos : g.pos ≤ 5)
    (hgap : g.pos < g.left + n) (hfetched : Fetched inp g g') (hinv : Inv g') :
    FetchLoop inp Inv n f g' := by
  have hlt := hfetched.weight_lt hmore
  refine ⟨hfetched.folds h.folds hpos, hinv, hfetched.left_eq.trans h.left_eq,
    h.pos_le.trans hfetched.pos_le, .inr ?_, ?_⟩
  · rcases h.weight_le with rfl | hle
    · exact hlt
    · exact hlt.trans hle
  · intro hended
    cases hfetched with
    | ended scan hend hheld hkept => exact ⟨hgap, hpos⟩
    | comment scan hlt htoken htokens hmarks htype =>
      exact absurd (show true = false from hended) (by decide)
    | token scan hlt htoken htokens hmarks htype =>
      exact absurd (show true = false from hended) (by decide)

def toFetch (inp : Input) (f : Folding) : ℕ :=
  (inp.s.length - f.sf.scan.pos) + if f.more then 1 else 0

theorem Fetched.toFetch_lt {f g : Folding} (h : Fetched inp f g) (hmore : f.more = true) :
    toFetch inp g < toFetch inp f := by
  unfold toFetch
  rw [hmore, if_pos rfl]
  cases h with
  | ended scan hend hheld hkept =>
    change (inp.s.length - scan.pos) + 0 < _
    omega
  | comment scan hlt htoken htokens hmarks htype =>
    have := htoken.within
    change (inp.s.length - scan.pos) + 1 < _
    omega
  | token scan hlt htoken htokens hmarks htype =>
    have := htoken.within
    change (inp.s.length - scan.pos) + 1 < _
    omega

theorem fetchTurn_continues {Inv : Folding → Prop} {f : Folding} {n : ℕ}
    (hstep : ∀ g g', Folds inp g → Inv g → Open g → Fetched inp g g' → Inv g') (g : Folding)
    (hg : FetchLoop inp Inv n f g) :
    Holds (fetchTurn inp n g)
      (Continues (FetchLoop inp Inv n f) (toFetch inp) (FetchStop inp Inv n f) g) := by
  refine (fetchTurn_holds hg.folds n).imp fun r hr => ?_
  cases r with
  | inl g' =>
    obtain ⟨hgmore, hpos, hgap, hfetched⟩ := hr
    have hinv := hstep g g' hg.folds hg.inv ⟨hgmore, hpos⟩ hfetched
    exact ⟨hg.next hgmore hpos hgap hfetched hinv, hfetched.toFetch_lt hgmore⟩
  | inr g' =>
    obtain ⟨rfl, hstop⟩ := hr
    exact ⟨hg, fun hgap hopen => hstop ⟨hopen.1, hopen.2, hgap⟩⟩

theorem FetchLoop.start {Inv : Folding → Prop} {f : Folding} (n : ℕ) (hf : Folds inp f)
    (hInv : Inv f) (hmore : f.more = true) : FetchLoop inp Inv n f f :=
  ⟨hf, hInv, rfl, Nat.le_refl _, .inl rfl,
    fun hended => absurd (hmore.symm.trans hended) (by decide)⟩

theorem toFetch_lt {f : Folding} : toFetch inp f < inp.s.length + 3 := by
  unfold toFetch
  split_ifs
  · omega
  · omega

theorem fetch_holds {Inv : Folding → Prop} {f : Folding} {n : ℕ}
    (hstep : ∀ g g', Folds inp g → Inv g → Open g → Fetched inp g g' → Inv g')
    (hf : Folds inp f) (hInv : Inv f) (hmore : f.more = true) :
    Holds (fetch inp n f) (FetchStop inp Inv n f) :=
  holds_loop (fetchTurn_continues hstep) (FetchLoop.start n hf hInv hmore) toFetch_lt

end Fetches

section Steps
variable {f : Folding}

theorem foldFive_holds (hf : Folds inp f) : Holds (foldFive f) (FiveStep f) := by
  have hpos := hf.pos_le
  rw [foldFive]
  refine holds_ite (fun _ => holds_pure .same) fun hfive => ?_
  obtain ⟨t0, h0, -⟩ := hf.slot (show 0 < 8 by decide)
  obtain ⟨t1, h1, -⟩ := hf.slot (show 1 < 8 by decide)
  obtain ⟨t2, h2, -⟩ := hf.slot (show 2 < 8 by decide)
  obtain ⟨t3, h3, -⟩ := hf.slot (show 3 < 8 by decide)
  obtain ⟨t4, h4, -⟩ := hf.slot (show 4 < 8 by decide)
  obtain ⟨t5, h5, ht5, -⟩ := hf.slot (show 5 < 8 by decide)
  rw [h0, bind_ok, h1, bind_ok, h2, bind_ok, h3, bind_ok, h4, bind_ok]
  refine holds_ite (fun _ => ?_) fun _ => holds_pure .same
  refine holds_ite (fun hsix => ?_) fun hsix => ?_
  · rw [h5, bind_ok, put_eq (by rw [hf.slots]; decide), bind_ok]
    exact holds_pure (.sixth t5 (Nat.le_antisymm hpos hsix) ht5)
  · refine holds_pure (.restart ?_)
    have hlow : 5 ≤ f.pos := Nat.le_of_not_lt hfive
    have hhigh : f.pos ≤ 5 := Nat.le_of_not_lt hsix
    omega

theorem FiveStep.folds {g : Folding} (h : FiveStep f g) (hf : Folds inp f) : Folds inp g := by
  cases h with
  | same => exact hf
  | restart hpos =>
    exact ⟨hf.slots, hf.held, hf.comment, hf.scanned, Nat.zero_le _, by change 1 ≤ 6; decide⟩
  | sixth t hpos ht =>
    have hheld := hf.held t (List.mem_of_getElem? ht)
    have hplaced := hf.placed 1 hheld
    exact ⟨hplaced.slots, hplaced.held, hplaced.comment, hplaced.scanned, Nat.zero_le _,
      by change 2 ≤ 6; decide⟩

theorem FiveStep.measure_le {g : Folding} (h : FiveStep f g) (hf : Folds inp f) :
    measure inp g ≤ measure inp f := by
  have hg := h.folds hf
  cases h with
  | same => exact Nat.le_refl _
  | restart hpos =>
    refine Nat.le_of_lt (measure_lt_of_weight hg ?_)
    unfold weight
    change 2 * (inp.s.length - f.sf.scan.pos) + 1 + (if f.more = true then 1 else 0) < _
    rw [hpos]
    omega
  | sixth t hpos ht =>
    refine Nat.le_of_lt (measure_lt_of_weight hg ?_)
    unfold weight
    change 2 * (inp.s.length - f.sf.scan.pos) + 2 + (if f.more = true then 1 else 0) < _
    rw [hpos]
    omega

theorem finish_eq (hf : Folds inp f) : finish f = .ok (finished f) := by
  rw [finish, finished]
  split_ifs with hc
  · have hleft : f.left < 5 := hc.1
    rw [put_eq (by rw [hf.slots]; omega)]
    rfl
  · rfl

theorem retypings_function (first : UInt8) :
    retypings first typeFunction = retypings first typeTsql + 1 := rfl

theorem retypings_lt {first first' second : UInt8}
    (h : retypings first' typeTsql < retypings first typeTsql) :
    retypings first' second < retypings first second := by
  unfold retypings at h ⊢
  rw [if_neg (show typeTsql ≠ typeFunction by decide)] at h
  omega

theorem measure_lt_of_volatiles {g : Folding} (hweight : weight inp g = weight inp f)
    (h : volatiles g < volatiles f) : measure inp g < measure inp f := by
  have hr := retypings_le (slotType g g.left) (slotType g (g.left + 1))
  unfold measure
  omega

theorem Pair.measure_retyped {a b : Token} {fold : PairFold} (h : Pair f a b fold)
    (hf : Folds inp f) (stype : UInt8) :
    measure inp (placed f f.left { a with type := stype }) =
      252 * weight inp f + 28 * volatiles (placed f f.left { a with type := stype }) +
        4 * (6 - f.left) + retypings stype (slotType f (f.left + 1)) := by
  have hroom := h.room
  have hpos := hf.pos_le
  unfold measure
  change 252 * weight inp f + _ + 4 * (6 - f.left) +
    retypings (slotType (placed f f.left _) f.left)
      (slotType (placed f f.left _) (f.left + 1)) = _
  rw [slotType_placed_ne f (Nat.succ_ne_self f.left).symm,
    slotType_eq (placed_self hf (by omega) _)]

theorem Pair.retyped_measure {a b : Token} {fold : PairFold} (h : Pair f a b fold)
    (hf : Folds inp f) {stype : UInt8} (hplain : ¬Volatile { a with type := stype }) :
    measure inp (placed f f.left { a with type := stype }) +
        retypings a.type (slotType f (f.left + 1)) ≤
      measure inp f + retypings stype (slotType f (f.left + 1)) := by
  have hv := volatiles_placed_le h.first hplain
  rw [h.measure_retyped hf]
  unfold measure
  rw [slotType_eq h.first]
  omega

theorem Pair.retyped_lt {a b : Token} {fold : PairFold} (h : Pair f a b fold) (hf : Folds inp f)
    {stype : UInt8} (hplain : ¬Volatile { a with type := stype })
    (hlt : retypings stype (slotType f (f.left + 1)) < retypings a.type (slotType f (f.left + 1))) :
    measure inp (placed f f.left { a with type := stype }) < measure inp f := by
  have hmeasure := h.retyped_measure hf hplain
  omega

/-- A fold that drops tokens leaves less, whatever it puts into the slots before. -/
theorem dropped_smaller {g : Folding} {n folds left : ℕ} (hg : Folds inp g)
    (hn : 0 < n) (hle : n ≤ f.pos) (hleft : left ≤ f.pos - n) (hpos : g.pos = f.pos)
    (hmore : g.more = f.more) (hscan : g.sf.scan = f.sf.scan) :
    Folds inp (dropped g n folds left) ∧
      measure inp (dropped g n folds left) < measure inp f ∧
        (dropped g n folds left).more = f.more := by
  have hdropped := hg.dropped folds (show left ≤ g.pos - n by rw [hpos]; exact hleft)
  refine ⟨hdropped, measure_lt_of_weight hdropped ?_, hmore⟩
  unfold weight
  change 2 * (inp.s.length - g.sf.scan.pos) + (g.pos - n) + (if g.more = true then 1 else 0) < _
  rw [hpos, hmore, hscan]
  omega

/-- Every fold of two tokens keeps the slots in order; one that goes back to the head of the loop
is smaller in the measure. -/
theorem Pair.folds {a b : Token} {fold : PairFold} (h : Pair f a b fold) (hf : Folds inp f) :
    Meets (fun g => Folds inp g ∧ measure inp g < measure inp f ∧ g.more = f.more)
      (fun g => Folds inp g ∧ measure inp g ≤ measure inp f ∧ g.pos = f.pos ∧ g.left ≤ f.left ∧
        g.more = f.more) (fun _ => True) (pairStep f a b fold) := by
  have hroom := h.room
  have hpos := hf.pos_le
  have hleft : f.left < 8 := by omega
  cases fold with
  | dropSecond left =>
    have hle : left ≤ f.left := h.reason
    exact dropped_smaller hf (by decide) (by omega) (by omega) rfl rfl rfl
  | merge merged left =>
    obtain ⟨hle, hheld, -⟩ := h.reason
    exact dropped_smaller (hf.placed _ hheld) (by decide) (by omega) (by omega) rfl rfl rfl
  | replaceFirst =>
    exact dropped_smaller (hf.placed _ h.heldSecond) (by decide) (by omega) (Nat.zero_le _) rfl
      rfl rfl
  | dropBoth => exact dropped_smaller hf (by decide) (by omega) (Nat.zero_le _) rfl rfl rfl
  | evil => trivial
  | keep => exact ⟨hf, Nat.le_refl _, rfl, Nat.le_refl _, rfl⟩
  | retypeSecond stype =>
    obtain ⟨rfl, hb⟩ := h.reason
    have hplain : ¬Volatile { b with type := typeTsql } :=
      not_volatile (by decide) fun h => absurd h (by decide)
    have hv := volatiles_placed_le h.second hplain
    have hnew : slotType (placed f (f.left + 1) { b with type := typeTsql }) (f.left + 1) =
        typeTsql := slotType_eq (placed_self hf (by omega) _)
    refine ⟨hf.placed _ (h.heldSecond.retype _), ?_, rfl⟩
    unfold measure
    change 252 * weight inp f + _ + 4 * (6 - f.left) +
      retypings (slotType (placed f (f.left + 1) _) f.left)
        (slotType (placed f (f.left + 1) _) (f.left + 1)) < _
    rw [slotType_placed_ne f (Nat.succ_ne_self f.left), hnew, slotType_eq h.second, hb,
      retypings_function]
    omega
  | retypeFirst stype left =>
    rcases h.reason with ⟨rfl, rfl, ha⟩ | ⟨rfl, hstype, ha, hword⟩ | ⟨rfl, rfl, ha⟩
    · have hplain : ¬Volatile { a with type := typeFunction } :=
        not_volatile (by decide) fun h => absurd h (by decide)
      have hlt : retypings typeFunction (slotType f (f.left + 1)) <
          retypings a.type (slotType f (f.left + 1)) := by
        rcases ha with ha | ha
        · rw [ha]
          exact retypings_lt (by decide)
        · rw [ha]
          exact retypings_lt (by decide)
      exact ⟨hf.placed _ (h.heldFirst.retype _), h.retyped_lt hf hplain hlt, rfl⟩
    · have hplain : ¬Volatile { a with type := stype } := by
        refine not_volatile ?_ fun _ => hword
        rcases hstype with rfl | rfl <;> decide
      have hlt : retypings stype (slotType f (f.left + 1)) <
          retypings a.type (slotType f (f.left + 1)) := by
        rw [ha]
        rcases hstype with rfl | rfl
        · exact retypings_lt (by decide)
        · exact retypings_lt (by decide)
      exact ⟨hf.placed _ (h.heldFirst.retype _), h.retyped_lt hf hplain hlt, rfl⟩
    · have hplain : ¬Volatile { a with type := typeNumber } :=
        not_volatile (by decide) fun h => absurd h (by decide)
      have hv := volatiles_placed_lt h.first (.inl ha) hplain
      have hplaced := hf.placed f.left (h.heldFirst.retype typeNumber)
      exact ⟨hplaced.moved (Nat.zero_le _), measure_lt_of_volatiles rfl hv, rfl⟩
  | likeFunction =>
    obtain ⟨ha, hb⟩ := h.reason
    have hplain : ¬Volatile { a with type := typeFunction } :=
      not_volatile (by decide) fun h => absurd h (by decide)
    have hmeasure := h.retyped_measure hf hplain
    rw [ha] at hmeasure
    exact ⟨hf.placed _ (h.heldFirst.retype _), Nat.le_of_add_le_add_right hmeasure, rfl,
      Nat.le_refl _, rfl⟩
  | collation =>
    obtain ⟨ha, hb, hword⟩ := h.reason
    have hplain : ¬Volatile { b with type := typeSqltype } :=
      not_volatile (by decide) fun h => absurd h (by decide)
    have hv := volatiles_placed_lt h.second (.inr ⟨hb, hword⟩) hplain
    have hplaced := hf.placed (f.left + 1) (h.heldSecond.retype typeSqltype)
    exact ⟨hplaced.moved (Nat.zero_le _), Nat.le_of_lt (measure_lt_of_volatiles rfl hv), rfl,
      Nat.zero_le _, rfl⟩

theorem measure_lt_of_left {g : Folding} (hweight : weight inp g = weight inp f)
    (hv : volatiles g ≤ volatiles f) (hle : f.left < g.left) (hin : f.left < 6) :
    measure inp g < measure inp f := by
  have hr := retypings_le (slotType g g.left) (slotType g (g.left + 1))
  unfold measure
  omega

/-- The same of three tokens, after which `left` moves ahead. -/
theorem Triple.folds {a b c : Token} {fold : TripleFold} (h : Triple f a b c fold)
    (hf : Folds inp f) :
    Meets (fun g => Folds inp g ∧ measure inp g < measure inp f ∧ g.more = f.more)
      (fun g => Folds inp { g with left := g.left + 1 } ∧
        measure inp { g with left := g.left + 1 } < measure inp f ∧ g.more = f.more)
      (fun _ => True) (tripleStep f a c fold) := by
  have hroom := h.room
  have hpos := hf.pos_le
  have hmove : f.left + 1 ≤ f.pos := by omega
  cases fold with
  | dropTwo folds => exact dropped_smaller hf (by decide) (by omega) (Nat.zero_le _) rfl rfl rfl
  | dropDot => exact dropped_smaller hf (by decide) (by omega) (Nat.zero_le _) rfl rfl rfl
  | dropSecond =>
    exact dropped_smaller (hf.placed _ h.heldThird) (by decide) (by omega) (Nat.zero_le _) rfl rfl
      rfl
  | dropSign =>
    exact dropped_smaller (hf.placed _ h.heldThird) (by decide) (by omega) (Nat.zero_le _) rfl rfl
      rfl
  | userWord =>
    obtain ⟨-, -, hword⟩ := h.reason
    have hplain : ¬Volatile { a with type := typeBareword } :=
      not_volatile (by decide) fun _ => hword
    have hplaced := hf.placed f.left (h.heldFirst.retype typeBareword)
    refine ⟨hplaced.moved hmove, ?_, rfl⟩
    exact measure_lt_of_left rfl (volatiles_placed_le h.first hplain) (Nat.lt_succ_self _)
      (by omega)
  | keep =>
    refine ⟨hf.moved hmove, ?_, rfl⟩
    exact measure_lt_of_left rfl (Nat.le_refl _) (Nat.lt_succ_self _) (by omega)

theorem closed_smaller (hf : Folds inp f) (hlt : f.left < f.pos) :
    measure inp { f with left := f.pos } < measure inp f := by
  have hpos := hf.pos_le
  exact measure_lt_of_left rfl (Nat.le_refl _) hlt (by omega)

end Steps

section Turns
variable {Top Mid : Folding → Prop} {Post : Sfilter × ℕ → Prop} {f : Folding}

/-- The invariant of the main loop: without more tokens the slots are settled. -/
structure AtTop (inp : Input) (Top : Folding → Prop) (f : Folding) : Prop where
  folds : Folds inp f
  top : Top f
  settled : f.more = false → f.left = f.pos ∧ f.pos ≤ 5

theorem AtTop.closed (hf : Folds inp f) (htop : Top { f with left := f.pos })
    (hended : f.more = false → f.pos ≤ 5) : AtTop inp Top { f with left := f.pos } :=
  ⟨hf.moved (Nat.le_refl _), htop, fun hmore => ⟨rfl, hended hmore⟩⟩

theorem AtTop.going (hf : Folds inp f) (htop : Top f) (hmore : f.more = true) :
    AtTop inp Top f :=
  ⟨hf, htop, fun hended => absurd (hmore.symm.trans hended) (by decide)⟩

theorem FetchLoop.more_eq {Inv : Folding → Prop} {g : Folding} {n : ℕ}
    (h : FetchLoop inp Inv n f g) (hgap : g.left + n ≤ g.pos) : g.more = true := by
  cases hmore : g.more with
  | true => rfl
  | false =>
    have hlt := (h.ended hmore).1
    omega

theorem FetchLoop.measure_le {Inv : Folding → Prop} {g : Folding} {n : ℕ}
    (h : FetchLoop inp Inv n f g) : measure inp g ≤ measure inp f := by
  rcases h.weight_le with rfl | hlt
  · exact Nat.le_refl _
  · exact Nat.le_of_lt (measure_lt_of_weight h.folds hlt)

/-- What a step leaves for the next turn, measured against the folding `f`. -/
def Goes (inp : Input) (Top : Folding → Prop) (Post : Sfilter × ℕ → Prop) (f : Folding) :
    Folding ⊕ (Sfilter × ℕ) → Prop :=
  Continues (AtTop inp Top) (measure inp) Post f

theorem Goes.trans {g : Folding} {r : Folding ⊕ (Sfilter × ℕ)} (h : Goes inp Top Post g r)
    (hle : measure inp g ≤ measure inp f) : Goes inp Top Post f r := by
  cases r with
  | inl next => exact ⟨h.1, h.2.trans_le hle⟩
  | inr result => exact h

theorem FetchLoop.going {Inv : Folding → Prop} {g g' : Folding} {n : ℕ}
    (hg : FetchLoop inp Inv n f g) (hmore : g.more = true) (htop : Top g')
    (hsmaller : Folds inp g' ∧ measure inp g' < measure inp g ∧ g'.more = g.more) :
    Goes inp Top Post f (.inl g') := by
  obtain ⟨hfolds, hlt, hmore'⟩ := hsmaller
  exact Goes.trans ⟨AtTop.going hfolds htop (hmore'.trans hmore), hlt⟩ hg.measure_le

/-- The turn after the third token is taken. -/
def settleThree (f : Folding) : Checked (Folding ⊕ (Sfilter × ℕ)) := do
  let gap ← minus f.pos f.left
  if gap < 3 then return .inl { f with left := f.pos }
  else
    match ← foldThree f with
    | .next f => return .inl f
    | .stop sf n => return .inr (sf, n)
    | .fall f => return .inl { f with left := f.left + 1 }

theorem settleThree_holds (rule : FoldRule inp Top Mid Post) {g : Folding}
    (hg : FetchStop inp Mid 3 f g) (hroom : f.left + 2 ≤ f.pos) :
    Holds (settleThree g) (Goes inp Top Post f) := by
  have hleft := hg.left_eq
  have hpos := hg.pos_le
  rw [settleThree, minus_ok hg.folds.left_le, bind_ok]
  refine holds_ite (fun hgap => ?_) fun hgap => ?_
  · have hgap' : g.pos < g.left + 3 := by omega
    have hclosed := rule.closeMid g hg.folds hg.inv (hg.stopped hgap') hgap'
    refine holds_pure (Goes.trans ⟨?_, closed_smaller hg.folds (by omega)⟩ hg.measure_le)
    exact AtTop.closed hg.folds hclosed fun hmore => (hg.ended hmore).2
  · have hgroom : g.left + 3 ≤ g.pos := by omega
    have hgmore := hg.more_eq hgroom
    obtain ⟨a, b, c, fold, ha, hb, hc, haheld, hcheld, hreason, hfold⟩ :=
      foldThree_eq hg.folds hgroom
    have htriple : Triple g a b c fold := ⟨hgroom, ha, hb, hc, haheld, hcheld, hreason⟩
    have hstep := rule.triple g a b c fold hg.folds hg.inv htriple
    have hsmaller := htriple.folds hg.folds
    rw [hfold, bind_ok]
    generalize tripleStep g a c fold = step at hstep hsmaller ⊢
    cases step with
    | next g' => exact holds_pure (hg.going hgmore hstep hsmaller)
    | stop sf n => exact holds_pure hstep
    | fall g' => exact holds_pure (hg.going hgmore hstep hsmaller)

/-- The turn after the second token is taken. -/
def settleTwo (inp : Input) (f : Folding) : Checked (Folding ⊕ (Sfilter × ℕ)) := do
  let gap ← minus f.pos f.left
  if gap < 2 then return .inl { f with left := f.pos }
  else
    match ← foldTwo inp f with
    | .next f => return .inl f
    | .stop sf n => return .inr (sf, n)
    | .fall f => fetch inp 3 f >>= settleThree

theorem settleTwo_holds (rule : FoldRule inp Top Mid Post) {g : Folding} (hf : Folds inp f)
    (hmore : f.more = true) (hleft : f.left < 5) (hg : FetchStop inp Top 2 f g) :
    Holds (settleTwo inp g) (Goes inp Top Post f) := by
  rw [settleTwo, minus_ok hg.folds.left_le, bind_ok]
  refine holds_ite (fun hgap => ?_) fun hgap => ?_
  · have hgap' : g.pos < g.left + 2 := by omega
    have hclosed := rule.closeTop g hg.folds hg.inv (hg.stopped hgap') hgap'
    have hweight : weight inp g < weight inp f := by
      rcases hg.weight_le with rfl | hweight
      · exact absurd ⟨hmore, by omega⟩ (hg.stopped hgap')
      · exact hweight
    refine holds_pure ⟨?_, measure_lt_of_weight (hg.folds.moved (Nat.le_refl _)) hweight⟩
    exact AtTop.closed hg.folds hclosed fun hmore => (hg.ended hmore).2
  · have hgroom : g.left + 2 ≤ g.pos := by omega
    have hgmore := hg.more_eq hgroom
    obtain ⟨a, b, fold, ha, hb, haheld, hbheld, hreason, hfold⟩ := foldTwo_eq hg.folds hgroom
    have hpair : Pair g a b fold := ⟨hgroom, ha, hb, haheld, hbheld, hreason⟩
    have hstep := rule.pair g a b fold hg.folds hg.inv hpair
    have hsmaller := hpair.folds hg.folds
    rw [hfold, bind_ok]
    generalize pairStep g a b fold = step at hstep hsmaller ⊢
    cases step with
    | next g' => exact holds_pure (hg.going hgmore hstep hsmaller)
    | stop sf n => exact holds_pure hstep
    | fall g' =>
      obtain ⟨hfolds, hle, hpos', hleft', hmore'⟩ := hsmaller
      refine (fetch_holds rule.fetchMid hfolds hstep (hmore'.trans hgmore)).bind fun g'' hg'' => ?_
      have hrest := settleThree_holds rule hg'' (by omega)
      exact hrest.imp fun r hr => hr.trans (hle.trans hg.measure_le)

theorem foldTurn_eq : foldTurn inp f = (do
    let f ← foldFive f
    if !f.more ∨ maxTokens ≤ f.left then
      let result ← finish { f with left := f.pos }
      return .inr result
    else fetch inp 2 f >>= settleTwo inp) := rfl

/-- Where the loop ends, every two neighbours have been seen, or there are five. -/
theorem FiveStep.settled {g : Folding} (h : FiveStep f g) (hf : AtTop inp Top f)
    (hend : g.more = false ∨ 5 ≤ g.left) : g.left = g.pos ∨ g.pos ≤ 1 ∨ 5 ≤ g.left := by
  rcases hend with hmore | hleft
  · cases h with
    | same => exact .inl (hf.settled hmore).1
    | restart hpos => exact .inr (.inl (Nat.le_refl 1))
    | sixth t hpos ht =>
      have hle := (hf.settled hmore).2
      omega
  · exact .inr (.inr hleft)

theorem foldTurn_holds (rule : FoldRule inp Top Mid Post) (hf : AtTop inp Top f) :
    Holds (foldTurn inp f) (Goes inp Top Post f) := by
  rw [foldTurn_eq]
  refine (foldFive_holds hf.folds).bind fun g hg => ?_
  have hfolds := hg.folds hf.folds
  have htop := rule.five f g hf.folds hf.top hg
  refine holds_ite (fun hend => ?_) fun hgo => ?_
  · rw [Bool.not_eq_true'] at hend
    rw [finish_eq (hfolds.moved (Nat.le_refl _)), bind_ok]
    exact holds_pure (rule.exit g hfolds htop (hg.settled hf hend))
  · rw [not_or, Bool.not_eq_true', Bool.not_eq_false, Nat.not_le] at hgo
    refine (fetch_holds rule.fetchTop hfolds htop hgo.1).bind fun g' hg' => ?_
    have hrest := settleTwo_holds rule hfolds hgo.1 hgo.2 hg'
    exact hrest.imp fun r hr => hr.trans (hg.measure_le hf.folds)

/-- What every step keeps holds of the result, and the loop ends. -/
theorem foldLoop_holds (rule : FoldRule inp Top Mid Post) (hf : AtTop inp Top f) :
    Holds (loop (foldTurn inp) (foldFuel inp.s.length) f) Post :=
  holds_loop (fun _ hg => foldTurn_holds rule hg) hf (measure_lt_fuel hf.folds)

end Turns

section Starts
variable {Top Mid : Folding → Prop} {Post : Sfilter × ℕ → Prop} {sf : Sfilter} {n : ℕ}

/-- The state between the tokens that are skipped at the start. -/
structure Skips (inp : Input) (n : ℕ) (sf : Sfilter) : Prop where
  slots : sf.tokenvec.length = 8
  held : ∀ t ∈ sf.tokenvec, Held t
  scanned : sf.scan.pos ≤ inp.s.length
  marked : n ≤ marks sf.scan
  calls : ∃ tokens, Calls inp tokens sf.scan

/-- The state with the first token that is not skipped. -/
structure Starts (inp : Input) (n : ℕ) (sf : Sfilter) : Prop extends Skips inp n sf where
  token : ∃ t, sf.tokenvec[0]? = some t ∧ IsToken inp 0 sf.scan.pos t ∧ t.type ≠ typeComment ∧
    ∃ tokens, Calls inp (tokens ++ [t]) sf.scan

def Skipped (inp : Input) (n : ℕ) : Bool × Sfilter → Prop
  | (true, sf) => Starts inp n sf
  | (false, sf) => Skips inp n sf

def toSkip (inp : Input) (sf : Sfilter) : ℕ := inp.s.length - sf.scan.pos

theorem skipTurn_holds (h : Skips inp n sf) :
    Holds (skipTurn inp sf) (Continues (Skips inp n) (toSkip inp) (Skipped inp n) sf) := by
  have hi : 0 < sf.tokenvec.length := by
    rw [h.slots]
    decide
  rw [skipTurn]
  refine (tokenizeAt_holds hi h.scanned).bind fun r hr => ?_
  obtain ⟨more, sf'⟩ := r
  obtain ⟨scan, slot, hslot, rfl, hcall, htok⟩ := hr
  obtain ⟨tokens, hcalls⟩ := h.calls
  have hheld : Held scan.current := held_of_tokenized (h.held slot hslot) htok
  change Holds (readAt (fetchedAt sf 0 scan).tokenvec 0 >>= _) _
  rw [fetchedAt_slot hi, bind_ok]
  have hslots : (fetchedAt sf 0 scan).tokenvec.length = 8 := by
    rw [← h.slots]
    exact List.length_set
  cases more with
  | true =>
    obtain ⟨hlt, htoken, htokens, hmarks⟩ := htok
    have hcalled : Calls inp (tokens ++ [scan.current]) scan := .call slot true hcalls hcall
    have hskips : Skips inp n (fetchedAt sf 0 scan) :=
      ⟨hslots, held_set h.held 0 hheld, htoken.within, h.marked.trans hmarks, _, hcalled⟩
    refine (stIsUnaryOp_holds hheld).bind fun unary _ => holds_ite (fun _ => ?_) fun hstop => ?_
    · have hwithin := htoken.within
      refine holds_pure ⟨hskips, ?_⟩
      change inp.s.length - scan.pos < inp.s.length - sf.scan.pos
      change sf.scan.pos < scan.pos at hlt
      omega
    · rw [not_or] at hstop
      have hstart : IsToken inp 0 scan.pos scan.current :=
        htoken.mono (Nat.zero_le _) (Nat.le_refl _) htoken.within
      exact holds_pure ⟨hskips, scan.current, List.getElem?_set_self hi, hstart, hstop.1,
        tokens, hcalled⟩
  | false =>
    obtain ⟨hend, hkept, -⟩ := htok
    have hskips : Skips inp n (fetchedAt sf 0 scan) :=
      ⟨hslots, held_set h.held 0 hheld, Nat.le_of_eq hend, h.marked.trans hkept.marks_le,
        tokens, .call slot false hcalls hcall⟩
    refine (stIsUnaryOp_holds hheld).bind fun unary _ => holds_ite (fun _ => ?_) fun _ => ?_
    · exact holds_pure hskips
    · exact holds_pure hskips

def started (sf : Sfilter) : Folding :=
  { sf := sf, lastComment := Token.clear, pos := 1, left := 0, more := true }

theorem Starts.atTop (h : Starts inp n sf) (htop : Top (started sf)) :
    AtTop inp Top (started sf) :=
  AtTop.going ⟨h.slots, h.held, held_clear, h.scanned, Nat.zero_le _, by change 1 ≤ 6; decide⟩ htop
    rfl

theorem toSkip_lt : toSkip inp sf < inp.s.length + 2 := by
  unfold toSkip
  omega

theorem skipLoop_holds (h : Skips inp n sf) :
    Holds (loop (skipTurn inp) (inp.s.length + 2) sf) (Skipped inp n) :=
  holds_loop (fun _ hs => skipTurn_holds hs) h toSkip_lt

/-- What holds of the first token and is kept by every step holds of the result of the fold. -/
theorem fold_holds (rule : FoldRule inp Top Mid Post) (hsf : Skips inp n sf)
    (hstart : ∀ sf, Starts inp n sf → Top (started sf))
    (hempty : ∀ sf, Skips inp n sf → Post (sf, 0)) : Holds (libinjectionSqliFold inp sf) Post := by
  rw [libinjectionSqliFold]
  refine (skipLoop_holds hsf).bind fun r hr => ?_
  obtain ⟨more, sf'⟩ := r
  cases more with
  | false => exact holds_pure (hempty sf' hr)
  | true => exact foldLoop_holds rule (hr.atTop (hstart sf' hr))

end Starts
end WafWasm.FoldRuns
