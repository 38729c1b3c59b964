import Mathlib.Data.Finmap
import Mathlib.Data.Finset.Dedup
import Mathlib.Data.Finset.Insert

set_option autoImplicit false

/-!
# Unordered containers

Sets are `Finset`s and maps are `Finmap`s, so equality is equality of contents. What a
container leaves open, the order in which a loop visits it, is a `Traversal`; what `emplace`
decides, that the first value of a key wins, is `collect`.
-/
namespace WafWasm.UnorderedContainers
universe u v

/-- An order of visit for every finite set: each element exactly once. -/
structure Traversal (α : Type u) where
  visit : Finset α → List α
  visit_val : ∀ s, (visit s : Multiset α) = s.val

theorem Traversal.mem_visit {α : Type u} (t : Traversal α) (s : Finset α) (a : α) :
    a ∈ t.visit s ↔ a ∈ s := by
  rw [← Multiset.mem_coe, t.visit_val, Finset.mem_val]

noncomputable def Traversal.toList (α : Type u) : Traversal α where
  visit := Finset.toList
  visit_val := Finset.coe_toList

abbrev UnorderedMap (α : Type u) (β : Type v) := Finmap (fun _ : α => β)

variable {α : Type u} {β : Type v}

section Emplace
variable [DecidableEq α]

/-- Inserting keeps what a key already holds. -/
def emplace (m : UnorderedMap α β) (k : α) (v : β) : UnorderedMap α β :=
  if k ∈ m then m else m.insert k v

theorem lookup_emplace (m : UnorderedMap α β) (k : α) (v : β) (a : α) :
    (emplace m k v).lookup a = (m.lookup a).or (if a = k then .some v else none) := by
  unfold emplace
  split_ifs with hm ha ha
  · subst ha
    obtain ⟨b, hb⟩ := Finmap.mem_iff.mp hm
    rw [hb, Option.some_or]
  · rw [Option.or_none]
  · subst ha
    rw [Finmap.lookup_insert, Finmap.lookup_eq_none.mpr hm, Option.none_or]
  · rw [Finmap.lookup_insert_of_ne _ ha, Option.or_none]

def emplaceAll (m : UnorderedMap α β) (ps : List (α × β)) : UnorderedMap α β :=
  ps.foldl (fun m p => emplace m p.1 p.2) m

/-- The map of a list of pairs, in which the first pair of a key decides. -/
def collect (ps : List (α × β)) : UnorderedMap α β := emplaceAll ∅ ps

theorem emplaceAll_append (m : UnorderedMap α β) (ps qs : List (α × β)) :
    emplaceAll m (ps ++ qs) = emplaceAll (emplaceAll m ps) qs :=
  List.foldl_append ..

variable [BEq α] [LawfulBEq α]

theorem lookup_emplaceAll (m : UnorderedMap α β) (ps : List (α × β)) (a : α) :
    (emplaceAll m ps).lookup a = (m.lookup a).or (ps.lookup a) := by
  induction ps generalizing m with
  | nil => exact (Option.or_none).symm
  | cons p ps ih =>
    change (emplaceAll (emplace m p.1 p.2) ps).lookup a = _
    rw [ih, lookup_emplace, Option.or_assoc, List.lookup_cons]
    by_cases h : a = p.1
    · simp [h]
    · have hb : (a == p.1) = false := beq_eq_false_iff_ne.mpr h
      simp [h, hb]

@[simp] theorem lookup_collect (ps : List (α × β)) (a : α) :
    (collect ps).lookup a = ps.lookup a := by
  rw [collect, lookup_emplaceAll, Finmap.lookup_empty, Option.none_or]

end Emplace

section FirstPair
variable [BEq α] [LawfulBEq α]

theorem lookup_of_mem_nodup {ps : List (α × β)} (h : (ps.map Prod.fst).Nodup) {k : α} {v : β}
    (hm : (k, v) ∈ ps) : ps.lookup k = some v := by
  obtain ⟨before, after, rfl⟩ := List.append_of_mem hm
  rw [List.map_append, List.map_cons, List.nodup_append] at h
  refine List.lookup_eq_some_iff.mpr ⟨before, after, rfl, ?_⟩
  intro p hp
  have hne : p.1 ≠ k := h.2.2 p.1 (List.mem_map_of_mem hp) k (by simp)
  exact bne_iff_ne.mpr hne.symm

theorem mem_of_lookup {ps : List (α × β)} {k : α} {v : β} (h : ps.lookup k = some v) :
    (k, v) ∈ ps := by
  obtain ⟨before, after, rfl, _⟩ := List.lookup_eq_some_iff.mp h
  exact List.mem_append_right _ List.mem_cons_self

theorem lookup_iff_mem {ps : List (α × β)} (h : (ps.map Prod.fst).Nodup) (k : α) (v : β) :
    ps.lookup k = some v ↔ (k, v) ∈ ps :=
  ⟨mem_of_lookup, lookup_of_mem_nodup h⟩

theorem lookup_filter (keep : α → Bool) (ps : List (α × β)) {a : α} (ha : keep a = true) :
    (ps.filter (fun p => keep p.1)).lookup a = ps.lookup a := by
  induction ps with
  | nil => rfl
  | cons p ps ih =>
    obtain ⟨k, v⟩ := p
    rw [List.filter_cons, List.lookup_cons]
    by_cases h : a = k
    · subst h
      simp [ha]
    · have hb : (a == k) = false := beq_eq_false_iff_ne.mpr h
      split_ifs with hk
      · rw [List.lookup_cons, hb, ih]
      · rw [hb, ih]

end FirstPair
end WafWasm.UnorderedContainers
