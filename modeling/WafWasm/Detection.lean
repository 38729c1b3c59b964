import WafWasm.Sqli

set_option autoImplicit false

namespace WafWasm.Detection
open Common UnorderedContainers Sqli

/-- One part of the configuration: the keys to inspect, or the keys not to inspect. -/
structure Selection where
  isInclude : Bool
  keys : Keys
deriving DecidableEq

def Selection.Selects (sel : Selection) (key : Bytes) : Prop :=
  if sel.isInclude then key ∈ sel.keys else key ∉ sel.keys

instance (sel : Selection) (key : Bytes) : Decidable (sel.Selects key) :=
  inferInstanceAs (Decidable (if sel.isInclude then key ∈ sel.keys else key ∉ sel.keys))

variable (detectSQLi : Bytes → Bool)

def Flagged (p : Bytes × Bytes) : Prop := detectSQLi p.1 = true ∨ detectSQLi p.2 = true

/-- A pair that the configuration asks to inspect and the detector flags. -/
def Hit (sel : Selection) (p : Bytes × Bytes) : Prop := sel.Selects p.1 ∧ Flagged detectSQLi p

instance (sel : Selection) (p : Bytes × Bytes) : Decidable (Hit detectSQLi sel p) :=
  inferInstanceAs (Decidable (sel.Selects p.1 ∧ (detectSQLi p.1 = true ∨ detectSQLi p.2 = true)))

def HasHit (sel : Selection) (params : QueryParams) : Prop :=
  ∃ p : Bytes × Bytes, params.lookup p.1 = some p.2 ∧ Hit detectSQLi sel p

theorem mem_pickKeys_fold (keys picked : Keys) (visited : List Bytes) (key : Bytes) :
    key ∈ visited.foldl (fun picked key => if key ∈ keys then picked else insert key picked) picked
      ↔ key ∈ picked ∨ key ∈ visited ∧ key ∉ keys := by
  induction visited generalizing picked with
  | nil => simp
  | cons first visited ih =>
    rw [List.foldl_cons, ih]
    split_ifs with hfirst
    · constructor
      · rintro (h | ⟨h, hk⟩)
        · exact .inl h
        · exact .inr ⟨List.mem_cons_of_mem _ h, hk⟩
      · rintro (h | ⟨h, hk⟩)
        · exact .inl h
        · rcases List.mem_cons.mp h with rfl | h
          · exact absurd hfirst hk
          · exact .inr ⟨h, hk⟩
    · rw [Finset.mem_insert]
      constructor
      · rintro ((rfl | h) | ⟨h, hk⟩)
        · exact .inr ⟨List.mem_cons_self, hfirst⟩
        · exact .inl h
        · exact .inr ⟨List.mem_cons_of_mem _ h, hk⟩
      · rintro (h | ⟨h, hk⟩)
        · exact .inl (.inr h)
        · rcases List.mem_cons.mp h with rfl | h
          · exact .inl (.inl rfl)
          · exact .inr ⟨h, hk⟩

theorem mem_pickKeysForDetection (order : IterationOrder) (params : QueryParams) (sel : Selection)
    {key val : Bytes} (h : params.lookup key = some val) :
    key ∈ pickKeysForDetection order params sel.isInclude sel.keys ↔ sel.Selects key := by
  unfold pickKeysForDetection Selection.Selects
  split_ifs with hi
  · rfl
  · rw [mem_pickKeys_fold, Traversal.mem_visit, Finmap.mem_keys]
    simp [Finmap.mem_of_lookup_eq_some h]

theorem inspectKeys_found (params : QueryParams) (visited : List Bytes) (log : Bytes) :
    (inspectKeys detectSQLi params visited log).found = true ↔
      ∃ p : Bytes × Bytes, p.1 ∈ visited ∧ params.lookup p.1 = some p.2 ∧
        Flagged detectSQLi p := by
  induction visited generalizing log with
  | nil => simp [inspectKeys]
  | cons key visited ih =>
    unfold inspectKeys
    split
    · next hnone =>
      rw [ih]
      constructor
      · rintro ⟨p, hp, hrest⟩
        exact ⟨p, List.mem_cons_of_mem _ hp, hrest⟩
      · rintro ⟨p, hp, hl, hf⟩
        rcases List.mem_cons.mp hp with he | hp
        · rw [he, hnone] at hl
          cases hl
        · exact ⟨p, hp, hl, hf⟩
    · next val hsome =>
      split_ifs with hd
      · refine iff_of_true rfl ⟨(key, val), List.mem_cons_self, hsome, ?_⟩
        rw [Bool.or_eq_true] at hd
        exact hd.symm
      · rw [ih]
        constructor
        · rintro ⟨p, hp, hrest⟩
          exact ⟨p, List.mem_cons_of_mem _ hp, hrest⟩
        · rintro ⟨⟨k, v⟩, hp, hl, hf⟩
          rcases List.mem_cons.mp hp with he | hp
          · dsimp only at he hl
            subst he
            rw [hsome] at hl
            cases hl
            rw [Bool.or_eq_true] at hd
            exact absurd hf.symm hd
          · exact ⟨(k, v), hp, hl, hf⟩

theorem found_iff_hasHit (order : IterationOrder) (params : QueryParams) (sel : Selection) :
    (detectSQLiOnParams detectSQLi order params sel.isInclude sel.keys).found = true ↔
      HasHit detectSQLi sel params := by
  unfold detectSQLiOnParams HasHit
  rw [inspectKeys_found]
  apply exists_congr
  intro p
  rw [Traversal.mem_visit]
  constructor
  · rintro ⟨hp, hl, hf⟩
    exact ⟨hl, (mem_pickKeysForDetection order params sel hl).mp hp, hf⟩
  · rintro ⟨hl, hs, hf⟩
    exact ⟨(mem_pickKeysForDetection order params sel hl).mpr hs, hl, hf⟩

theorem found_eq_false_iff (order : IterationOrder) (params : QueryParams) (sel : Selection) :
    (detectSQLiOnParams detectSQLi order params sel.isInclude sel.keys).found = false ↔
      ¬ HasHit detectSQLi sel params := by
  rw [← found_iff_hasHit detectSQLi order, Bool.not_eq_true]

theorem hasHit_congr {sel : Selection} {params params' : QueryParams}
    (h : ∀ key, sel.Selects key → params.lookup key = params'.lookup key) :
    HasHit detectSQLi sel params ↔ HasHit detectSQLi sel params' := by
  apply exists_congr
  intro p
  constructor
  · rintro ⟨hl, hs, hf⟩
    exact ⟨(h p.1 hs).symm.trans hl, hs, hf⟩
  · rintro ⟨hl, hs, hf⟩
    exact ⟨(h p.1 hs).trans hl, hs, hf⟩

/-- Two scans that share what both see agree when that is there, or when what only one sees is
there exactly with what only the other sees. -/
theorem agree_iff {both first second : Prop} :
    (both ∨ first ↔ both ∨ second) ↔ both ∨ (first ↔ second) := by
  by_cases h : both
  · exact iff_of_true (iff_of_true (.inl h) (.inl h)) (.inl h)
  · rw [or_iff_right h, or_iff_right h, or_iff_right h]

section FirstWins

/-- A hit among the first pairs of their keys. -/
def FirstHit (sel : Selection) (ps : List (Bytes × Bytes)) : Prop :=
  ∃ front p back, ps = front ++ p :: back ∧ p.1 ∉ front.map Prod.fst ∧ Hit detectSQLi sel p

/-- A flagged value of a selected key that an earlier pair of the same key shadows. -/
def RepeatHit (sel : Selection) (ps : List (Bytes × Bytes)) : Prop :=
  ∃ front p back, ps = front ++ p :: back ∧ p.1 ∈ front.map Prod.fst ∧
    sel.Selects p.1 ∧ detectSQLi p.2 = true

theorem lookup_iff_first (ps : List (Bytes × Bytes)) (p : Bytes × Bytes) :
    ps.lookup p.1 = some p.2 ↔
      ∃ front back, ps = front ++ p :: back ∧ p.1 ∉ front.map Prod.fst := by
  rw [List.lookup_eq_some_iff]
  apply exists_congr
  intro front
  apply exists_congr
  intro back
  apply and_congr_right
  intro _
  rw [List.mem_map]
  constructor
  · rintro h ⟨q, hq, he⟩
    exact bne_iff_ne.mp (h q hq) he.symm
  · intro h q hq
    exact bne_iff_ne.mpr fun he => h ⟨q, hq, he.symm⟩

theorem hasHit_collect (sel : Selection) (ps : List (Bytes × Bytes)) :
    HasHit detectSQLi sel (collect ps) ↔ FirstHit detectSQLi sel ps := by
  unfold HasHit FirstHit
  constructor
  · rintro ⟨p, hl, hp⟩
    rw [lookup_collect] at hl
    obtain ⟨front, back, he, hfirst⟩ := (lookup_iff_first ps p).mp hl
    exact ⟨front, p, back, he, hfirst, hp⟩
  · rintro ⟨front, p, back, he, hfirst, hp⟩
    refine ⟨p, ?_, hp⟩
    rw [lookup_collect]
    exact (lookup_iff_first ps p).mpr ⟨front, back, he, hfirst⟩

theorem exists_lookup_of_mem {ps : List (Bytes × Bytes)} {key : Bytes}
    (h : key ∈ ps.map Prod.fst) : ∃ val, ps.lookup key = some val := by
  obtain ⟨p, hp, rfl⟩ := List.mem_map.mp h
  exact Option.isSome_iff_exists.mp (List.lookup_isSome_iff.mpr ⟨p, hp, beq_self_eq_true _⟩)

/-- A flagged key is seen whichever of its pairs comes first, so only a flagged value can be
shadowed. -/
theorem firstHit_or_repeatHit {sel : Selection} {ps : List (Bytes × Bytes)} {p : Bytes × Bytes}
    (hp : p ∈ ps) (hhit : Hit detectSQLi sel p) :
    FirstHit detectSQLi sel ps ∨ RepeatHit detectSQLi sel ps := by
  obtain ⟨front, back, he⟩ := List.append_of_mem hp
  by_cases hrepeat : p.1 ∈ front.map Prod.fst
  · obtain ⟨hsel, hkey | hval⟩ := hhit
    · left
      obtain ⟨val, hl⟩ := exists_lookup_of_mem (List.mem_map_of_mem (f := Prod.fst) hp)
      rw [← hasHit_collect]
      exact ⟨(p.1, val), (lookup_collect ps p.1).trans hl, hsel, .inl hkey⟩
    · exact .inr ⟨front, p, back, he, hrepeat, hsel, hval⟩
  · exact .inl ⟨front, p, back, he, hrepeat, hhit⟩

theorem firstHit_iff (sel : Selection) (ps : List (Bytes × Bytes)) :
    FirstHit detectSQLi sel ps ↔ ∃ p ∈ ps, ps.lookup p.1 = some p.2 ∧ Hit detectSQLi sel p := by
  constructor
  · rintro ⟨front, p, back, he, hfirst, hhit⟩
    refine ⟨p, ?_, (lookup_iff_first ps p).mpr ⟨front, back, he, hfirst⟩, hhit⟩
    rw [he]
    exact List.mem_append_right _ List.mem_cons_self
  · rintro ⟨p, _, hl, hhit⟩
    obtain ⟨front, back, he, hfirst⟩ := (lookup_iff_first ps p).mp hl
    exact ⟨front, p, back, he, hfirst, hhit⟩

instance (sel : Selection) (ps : List (Bytes × Bytes)) : Decidable (FirstHit detectSQLi sel ps) :=
  decidable_of_iff _ (firstHit_iff detectSQLi sel ps).symm

theorem exists_hit_of_first {sel : Selection} {ps : List (Bytes × Bytes)}
    (h : FirstHit detectSQLi sel ps) : ∃ p ∈ ps, Hit detectSQLi sel p := by
  obtain ⟨front, p, back, rfl, _, hhit⟩ := h
  exact ⟨p, List.mem_append_right _ List.mem_cons_self, hhit⟩

theorem exists_hit_of_repeat {sel : Selection} {ps : List (Bytes × Bytes)}
    (h : RepeatHit detectSQLi sel ps) : ∃ p ∈ ps, Hit detectSQLi sel p := by
  obtain ⟨front, p, back, rfl, _, hsel, hval⟩ := h
  exact ⟨p, List.mem_append_right _ List.mem_cons_self, hsel, .inr hval⟩

/-- The first pairs tell whether any pair hits, unless only shadowed ones do. -/
theorem covers_iff (sel : Selection) (ps : List (Bytes × Bytes)) :
    ((∃ p ∈ ps, Hit detectSQLi sel p) → FirstHit detectSQLi sel ps) ↔
      (RepeatHit detectSQLi sel ps → FirstHit detectSQLi sel ps) := by
  constructor
  · intro h hrepeat
    exact h (exists_hit_of_repeat detectSQLi hrepeat)
  · rintro h ⟨p, hp, hhit⟩
    rcases firstHit_or_repeatHit detectSQLi hp hhit with hfirst | hrepeat
    · exact hfirst
    · exact h hrepeat

end FirstWins
end WafWasm.Detection
