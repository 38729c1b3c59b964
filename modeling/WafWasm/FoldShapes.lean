import WafWasm.FoldRuns

set_option autoImplicit false

namespace WafWasm.FoldShapes
open LibinjectionTokens LibinjectionKeywords LibinjectionParsers LibinjectionFold TokenSpans
open FoldSteps FoldRuns

variable {inp : Input}

section Invariant

abbrev Typed (stype : UInt8) : Prop := stype ≠ charNull ∧ stype ≠ typeComment

/-- The types that may follow every type. -/
abbrev Plain (stype : UInt8) : Prop :=
  Typed stype ∧
    stype ∉ [typeString, typeSemicolon, typeLeftparens, typeRightparens, typeRightbrace]

/-- The first `n` neighbours have passed the folds of two tokens. -/
structure Shaped (n : ℕ) (f : Folding) : Prop where
  typed : ∀ i < f.pos, Typed (slotType f i)
  paired : ∀ i < n, i + 1 < f.pos → GoodPair (slotType f i) (slotType f (i + 1))

variable {f : Folding} {n k : ℕ} {t : Token}

theorem Shaped.mono (h : Shaped n f) {m : ℕ} (hle : m ≤ n) : Shaped m f :=
  ⟨h.typed, fun i hi hin => h.paired i (Nat.lt_of_lt_of_le hi hle) hin⟩

theorem Shaped.moved (h : Shaped n f) (left : ℕ) : Shaped n { f with left := left } :=
  ⟨h.typed, h.paired⟩

theorem Shaped.dropped (h : Shaped n f) (m folds left : ℕ) :
    Shaped n (dropped f m folds left) := by
  constructor
  · intro i hi
    exact h.typed i (Nat.lt_of_lt_of_le hi (Nat.sub_le _ _))
  · intro i hi hin
    exact h.paired i hi (Nat.lt_of_lt_of_le hin (Nat.sub_le _ _))

theorem Shaped.extend (h : Shaped n f) (hpair : GoodPair (slotType f n) (slotType f (n + 1))) :
    Shaped (n + 1) f := by
  refine ⟨h.typed, fun i hi hin => ?_⟩
  rcases Nat.lt_succ_iff_lt_or_eq.mp hi with hlt | rfl
  · exact h.paired i hlt hin
  · exact hpair

theorem slotType_placed (h : Folds inp f) (hk : k < 8) (t : Token) :
    slotType (placed f k t) k = t.type :=
  slotType_eq (placed_self h hk t)

theorem slotType_retyped (h : Folds inp f) (hk : k < 8) (t : Token) (stype : UInt8) :
    slotType (placed f k { t with type := stype }) k = stype :=
  slotType_placed h hk _

theorem Shaped.put_typed (h : Shaped n f) (hf : Folds inp f) (hk : k < 8) (ht : Typed t.type) :
    ∀ i < f.pos, Typed (slotType (placed f k t) i) := by
  intro i hi
  by_cases hki : k = i
  · rw [← hki, slotType_placed hf hk]
    exact ht
  · rw [slotType_placed_ne f hki]
    exact h.typed i hi

theorem Shaped.put (h : Shaped n f) (hf : Folds inp f) (hk : k < 8) (hle : n ≤ k)
    (ht : Plain t.type) : Shaped n (placed f k t) := by
  refine ⟨h.put_typed hf hk ht.1, fun i hi hin => ?_⟩
  rw [slotType_placed_ne f (show k ≠ i by omega)]
  by_cases hki : k = i + 1
  · rw [← hki, slotType_placed hf hk]
    exact goodPair_of_second ht.2
  · rw [slotType_placed_ne f hki]
    exact h.paired i hi hin

theorem Shaped.retype (h : Shaped n f) (hf : Folds inp f) (hk : k < 8) (hle : n ≤ k) (t : Token)
    {stype : UInt8} (ht : Plain stype) : Shaped n (placed f k { t with type := stype }) :=
  h.put hf hk hle ht

theorem Shaped.restart (h : Shaped n f) (hf : Folds inp f) (hk : k < 8) (ht : Typed t.type) :
    Shaped 0 (placed f k t) :=
  ⟨h.put_typed hf hk ht, fun _ hi => absurd hi (Nat.not_lt_zero _)⟩

end Invariant

section Results

def typeAt (tokenvec : List Token) (i : ℕ) : UInt8 := (tokenvec[i]?.map Token.type).getD 0

/-- The result of the fold: in normal form, or with the mark of what cannot be parsed. -/
structure Folded (r : Sfilter × ℕ) : Prop where
  slots : r.1.tokenvec.length = 8
  held : ∀ t ∈ r.1.tokenvec, Held t
  typed : ∀ i < r.2, typeAt r.1.tokenvec i ≠ charNull
  shape : (r.2 ≤ 5 ∧ ∀ i, i + 1 < r.2 → typeAt r.1.tokenvec i ≠ typeComment ∧
      GoodPair (typeAt r.1.tokenvec i) (typeAt r.1.tokenvec (i + 1))) ∨
    (r.2 ≤ 6 ∧ ∃ i < r.2, typeAt r.1.tokenvec i = typeEvil)

variable {f g : Folding}

theorem folded_empty {sf : Sfilter} {n : ℕ} (h : Skips inp n sf) : Folded (sf, 0) :=
  ⟨h.slots, h.held, fun _ hi => absurd hi (Nat.not_lt_zero _),
    .inl ⟨Nat.zero_le _, fun _ hi => absurd hi (Nat.not_lt_zero _)⟩⟩

theorem Shaped.exit (h : Shaped f.left f) (hf : Folds inp f)
    (hend : f.left = f.pos ∨ f.pos ≤ 1 ∨ 5 ≤ f.left) :
    Folded (finished { f with left := f.pos }) := by
  have hpaired : ∀ i, i + 1 < min f.pos 5 → GoodPair (slotType f i) (slotType f (i + 1)) := by
    intro i hi
    exact h.paired i (by omega) (by omega)
  unfold finished
  split_ifs with hc
  · obtain ⟨hlt, htype⟩ := hc
    change f.pos < 5 at hlt
    change f.lastComment.type = typeComment at htype
    have hplaced := hf.placed f.pos hf.comment
    have hlast : slotType (placed f f.pos f.lastComment) f.pos = typeComment := by
      rw [slotType_placed hf (by omega), htype]
    have hbefore : ∀ i < f.pos, slotType (placed f f.pos f.lastComment) i = slotType f i :=
      fun i hi => slotType_placed_ne f (by omega) _
    refine ⟨hplaced.slots, hplaced.held, fun i hi => ?_, .inl ⟨Nat.min_le_right _ _, ?_⟩⟩
    · change i < min (f.pos + 1) 5 at hi
      change slotType (placed f f.pos f.lastComment) i ≠ charNull
      rcases Nat.lt_or_ge i f.pos with hbelow | habove
      · rw [hbefore i hbelow]
        exact (h.typed i hbelow).1
      · rw [show i = f.pos by omega, hlast]
        decide
    · intro i hi
      change i + 1 < min (f.pos + 1) 5 at hi
      change slotType (placed f f.pos f.lastComment) i ≠ typeComment ∧
        GoodPair (slotType (placed f f.pos f.lastComment) i)
          (slotType (placed f f.pos f.lastComment) (i + 1))
      rw [hbefore i (by omega)]
      refine ⟨(h.typed i (by omega)).2, ?_⟩
      rcases Nat.lt_or_ge (i + 1) f.pos with hbelow | habove
      · rw [hbefore (i + 1) hbelow]
        exact hpaired i (by omega)
      · rw [show i + 1 = f.pos by omega, hlast]
        exact goodPair_of_second (by decide)
  · refine ⟨hf.slots, hf.held, fun i hi => ?_, .inl ⟨Nat.min_le_right _ _, ?_⟩⟩
    · change i < min f.pos 5 at hi
      exact (h.typed i (by omega)).1
    · intro i hi
      change i + 1 < min f.pos 5 at hi
      exact ⟨(h.typed i (by omega)).2, hpaired i hi⟩

end Results

section Rule
variable {f g : Folding}

theorem Shaped.five (h : Shaped f.left f) (hf : Folds inp f) (hstep : FiveStep f g) :
    Shaped g.left g := by
  cases hstep with
  | same => exact h
  | restart hpos =>
    exact ⟨fun i hi => h.typed i (Nat.lt_of_lt_of_le hi (by change 1 ≤ f.pos; omega)),
      fun _ hi => absurd hi (Nat.not_lt_zero _)⟩
  | sixth t hpos ht =>
    have htyped : Typed t.type := by
      rw [← slotType_eq ht]
      exact h.typed 5 (by omega)
    have hplaced := h.restart hf (show 1 < 8 by decide) htyped
    exact ⟨fun i hi => hplaced.typed i (Nat.lt_of_lt_of_le hi (by change 2 ≤ f.pos; omega)),
      fun _ hi => absurd hi (Nat.not_lt_zero _)⟩

theorem Shaped.fetched {n : ℕ} (h : Shaped n f) (hf : Folds inp f) (hpos : f.pos ≤ 5)
    (hn : n < f.pos ∨ n = 0) (hfetched : Fetched inp f g) : Shaped n g := by
  have hslot : f.pos < 8 := by omega
  have hkept : ∀ (t : Token) (i : ℕ), i < f.pos → slotType (placed f f.pos t) i = slotType f i :=
    fun t i hi => slotType_placed_ne f (by omega) t
  have hpaired : ∀ (t : Token) (i : ℕ), i < n → i + 1 < f.pos →
      GoodPair (slotType (placed f f.pos t) i) (slotType (placed f f.pos t) (i + 1)) := by
    intro t i hi hin
    rw [hkept t i (by omega), hkept t (i + 1) hin]
    exact h.paired i hi hin
  have htyped : ∀ (t : Token) (i : ℕ), i < f.pos → Typed (slotType (placed f f.pos t) i) := by
    intro t i hi
    rw [hkept t i hi]
    exact h.typed i hi
  cases hfetched with
  | ended scan hend hheld hkept => exact ⟨htyped scan.current, hpaired scan.current⟩
  | comment scan hlt htoken htokens hmarks htype =>
    exact ⟨htyped scan.current, hpaired scan.current⟩
  | token scan hlt htoken htokens hmarks htype =>
    constructor
    · intro i hi
      rcases Nat.lt_succ_iff_lt_or_eq.mp hi with hbelow | rfl
      · exact htyped scan.current i hbelow
      · change Typed (slotType (placed f f.pos scan.current) f.pos)
        rw [slotType_placed hf hslot]
        exact ⟨htoken.typed, htype⟩
    · intro i hi hin
      exact hpaired scan.current i hi (by change i + 1 < f.pos + 1 at hin; omega)

/-- Between turns the fold can take a token only behind the neighbours it has seen. -/
structure AtHead (f : Folding) : Prop extends Shaped f.left f where
  behind : Open f → f.left < f.pos ∨ f.left = 0

/-- Between the folds of two tokens and of three the neighbours at `left` have been seen, too. -/
structure AtHalf (f : Folding) : Prop extends Shaped (f.left + 1) f where
  room : f.left + 2 ≤ f.pos

theorem plain_of_keyword : ∀ stype ∈ keywordTypes, Plain stype := by decide +kernel

theorem AtHead.pair {a b : Token} {fold : PairFold} (h : AtHead f) (hf : Folds inp f)
    (hpair : Pair f a b fold) : Meets AtHead AtHalf Folded (pairStep f a b fold) := by
  have hroom := hpair.room
  have hpos := hf.pos_le
  have hshaped := h.toShaped
  have hbtyped : Typed b.type := by
    rw [← slotType_eq hpair.second]
    exact h.typed _ (by omega)
  have hfirst := slotType_eq hpair.first
  have hsecond := slotType_eq hpair.second
  cases fold with
  | dropSecond left =>
    have hle : left ≤ f.left := hpair.reason
    exact ⟨(hshaped.mono hle).dropped 1 1 left, fun _ => .inl (by change left < f.pos - 1; omega)⟩
  | merge merged left =>
    obtain ⟨rfl, -, htype⟩ := hpair.reason
    have hput := hshaped.put hf (show f.left < 8 by omega) (Nat.le_refl _)
      (plain_of_keyword _ htype)
    exact ⟨(hput.mono (Nat.sub_le _ 1)).dropped 1 1 _,
      fun _ => .inl (by change f.left - 1 < f.pos - 1; omega)⟩
  | replaceFirst =>
    exact ⟨(hshaped.restart hf (show f.left < 8 by omega) hbtyped).dropped 1 1 0,
      fun _ => .inr rfl⟩
  | dropBoth => exact ⟨(hshaped.mono (Nat.zero_le _)).dropped 2 2 0, fun _ => .inr rfl⟩
  | retypeSecond stype =>
    obtain ⟨rfl, -⟩ := hpair.reason
    exact ⟨hshaped.retype hf (show f.left + 1 < 8 by omega) (Nat.le_succ _) b (by decide),
      fun _ => .inl (by change f.left < f.pos; omega)⟩
  | retypeFirst stype left =>
    have hstype : left ≤ f.left ∧ Plain stype := by
      rcases hpair.reason with ⟨rfl, rfl, -⟩ | ⟨rfl, rfl | rfl, -⟩ | ⟨rfl, rfl, -⟩
      · exact ⟨Nat.le_refl _, by decide⟩
      · exact ⟨Nat.le_refl _, by decide⟩
      · exact ⟨Nat.le_refl _, by decide⟩
      · exact ⟨Nat.zero_le _, by decide⟩
    have hput := hshaped.retype hf (show f.left < 8 by omega) (Nat.le_refl _) a hstype.2
    exact ⟨(hput.mono hstype.1).moved left,
      fun _ => .inl (Nat.lt_of_le_of_lt hstype.1 (by change f.left < f.pos; omega))⟩
  | evil =>
    have hplaced := hf.placed (f.left + 1) (hpair.heldSecond.retype typeEvil)
    have hput := hshaped.retype hf (show f.left + 1 < 8 by omega) (Nat.le_succ _) b
      (show Plain typeEvil by decide)
    refine ⟨hplaced.slots, hplaced.held, fun i hi => ?_, .inr ⟨by change f.left + 2 ≤ 6; omega,
      f.left + 1, Nat.lt_succ_self _, slotType_retyped hf (by omega) b _⟩⟩
    change i < f.left + 2 at hi
    exact (hput.typed i (by change i < f.pos; omega)).1
  | likeFunction =>
    obtain ⟨ha, hb⟩ := hpair.reason
    have hput := hshaped.retype hf (show f.left < 8 by omega) (Nat.le_refl _) a
      (show Plain typeFunction by decide)
    refine ⟨hput.extend ?_, hroom⟩
    rw [slotType_retyped hf (by omega), slotType_placed_ne f (by omega), hsecond, hb]
    exact goodPair_of_first (by decide) fun hbrace => absurd hbrace (by decide)
  | collation =>
    have hput := hshaped.retype hf (show f.left + 1 < 8 by omega) (Nat.le_succ _) b
      (show Plain typeSqltype by decide)
    have hextended := hput.extend (by
      rw [slotType_retyped hf (by omega)]
      exact goodPair_of_second (by decide))
    exact ⟨(hextended.mono (Nat.le_add_left 1 f.left)).moved 0, by change 0 + 2 ≤ f.pos; omega⟩
  | keep =>
    refine ⟨hshaped.extend ?_, hroom⟩
    rw [hfirst, hsecond]
    exact hpair.reason

theorem AtHalf.triple {a b c : Token} {fold : TripleFold} (h : AtHalf f) (hf : Folds inp f)
    (htriple : Triple f a b c fold) :
    Meets AtHead (fun g => AtHead { g with left := g.left + 1 }) Folded
      (tripleStep f a c fold) := by
  have hroom := htriple.room
  have hpos := hf.pos_le
  have hshaped := h.toShaped
  have hctyped : Typed c.type := by
    rw [← slotType_eq htriple.third]
    exact h.typed _ (by omega)
  have hsecond := slotType_eq htriple.second
  cases fold with
  | dropTwo folds =>
    exact ⟨(hshaped.mono (Nat.zero_le _)).dropped 2 folds 0, fun _ => .inr rfl⟩
  | dropDot => exact ⟨(hshaped.mono (Nat.zero_le _)).dropped 2 0 0, fun _ => .inr rfl⟩
  | dropSecond =>
    exact ⟨(hshaped.restart hf (show f.left + 1 < 8 by omega) hctyped).dropped 1 0 0,
      fun _ => .inr rfl⟩
  | dropSign =>
    exact ⟨(hshaped.restart hf (show f.left + 1 < 8 by omega) hctyped).dropped 3 0 0,
      fun _ => .inr rfl⟩
  | userWord =>
    obtain ⟨-, hb, -⟩ := htriple.reason
    have hput := (hshaped.mono (Nat.le_succ f.left)).retype hf (show f.left < 8 by omega)
      (Nat.le_refl _) a (show Plain typeBareword by decide)
    refine ⟨(hput.extend ?_).moved _, fun _ => .inl (by change f.left + 1 < f.pos; omega)⟩
    rw [slotType_retyped hf (by omega), slotType_placed_ne f (by omega), hsecond, hb]
    exact goodPair_of_first (by decide) fun hbrace => absurd hbrace (by decide)
  | keep =>
    exact ⟨hshaped.moved _, fun _ => .inl (by change f.left + 1 < f.pos; omega)⟩

theorem AtHead.five (h : AtHead f) (hf : Folds inp f) (hstep : FiveStep f g) : AtHead g := by
  refine ⟨h.toShaped.five hf hstep, fun hopen => ?_⟩
  cases hstep with
  | same => exact h.behind hopen
  | restart hpos => exact .inr rfl
  | sixth t hpos ht => exact .inr rfl

theorem AtHead.fetched (h : AtHead f) (hf : Folds inp f) (hopen : Open f)
    (hfetched : Fetched inp f g) : AtHead g := by
  have hleft := hfetched.left_eq
  have hpos := hfetched.pos_le
  have hbehind := h.behind hopen
  have hshaped := h.toShaped.fetched hf hopen.2 hbehind hfetched
  refine ⟨by rw [hleft]; exact hshaped, fun _ => ?_⟩
  omega

theorem AtHalf.fetched (h : AtHalf f) (hf : Folds inp f) (hopen : Open f)
    (hfetched : Fetched inp f g) : AtHalf g := by
  have hroom := h.room
  have hleft := hfetched.left_eq
  have hpos := hfetched.pos_le
  have hshaped := h.toShaped.fetched hf hopen.2 (.inl (by omega)) hfetched
  exact ⟨by rw [hleft]; exact hshaped, by omega⟩

theorem Shaped.closed {n : ℕ} (h : Shaped n f) (hopen : ¬Open f) (hle : f.pos ≤ n + 1) :
    AtHead { f with left := f.pos } :=
  ⟨⟨h.typed, fun i hi hin => h.paired i (by change i + 1 < f.pos at hin; omega) hin⟩,
    fun hcontra => absurd hcontra hopen⟩

theorem shaped_rule : FoldRule inp AtHead AtHalf Folded where
  five := fun _ _ hf h hstep => h.five hf hstep
  fetchTop := fun _ _ hf h hopen hfetched => h.fetched hf hopen hfetched
  fetchMid := fun _ _ hf h hopen hfetched => h.fetched hf hopen hfetched
  pair := fun _ _ _ _ hf h hpair => h.pair hf hpair
  triple := fun _ _ _ _ _ hf h htriple => h.triple hf htriple
  closeTop := fun _ _ h hopen hgap => h.toShaped.closed hopen (by omega)
  closeMid := fun _ _ h hopen hgap => h.toShaped.closed hopen (by omega)
  exit := fun _ hf h hend => h.toShaped.exit hf hend

theorem atHead_started {sf : Sfilter} {n : ℕ} (h : Starts inp n sf) : AtHead (started sf) := by
  obtain ⟨t, hget, htoken, htype, -⟩ := h.token
  refine ⟨⟨fun i hi => ?_, fun _ hi => absurd hi (Nat.not_lt_zero _)⟩, fun _ => .inr rfl⟩
  change i < 1 at hi
  rw [show i = 0 by omega, slotType_eq hget]
  exact ⟨htoken.typed, htype⟩

end Rule
end WafWasm.FoldShapes
