import Mathlib.Data.List.Basic
import Mathlib.Data.List.TakeWhile

set_option autoImplicit false

namespace WafWasm.DelimitedText
universe u
variable {α : Type u}

section Search

theorem take_findIdx (p : α → Bool) (xs : List α) :
    xs.take (xs.findIdx p) = xs.takeWhile (fun x => !p x) := by
  induction xs with
  | nil => rfl
  | cons x xs ih =>
    rw [List.findIdx_cons, List.takeWhile_cons]
    cases p x with
    | true => rfl
    | false => simpa using ih

theorem drop_findIdx (p : α → Bool) (xs : List α) :
    xs.drop (xs.findIdx p) = xs.dropWhile (fun x => !p x) := by
  induction xs with
  | nil => rfl
  | cons x xs ih =>
    rw [List.findIdx_cons, List.dropWhile_cons]
    cases p x with
    | true => rfl
    | false => simpa using ih

end Search

section Fields

def dropEmptyLast : List (List α) → List (List α)
  | [] => []
  | [piece] => if piece.isEmpty then [] else [piece]
  | piece :: next :: pieces => piece :: dropEmptyLast (next :: pieces)

def mapTail (f : List α → List α) : List (List α) → List (List α)
  | [] => []
  | piece :: pieces => piece :: pieces.map f

theorem dropEmptyLast_cons (piece : List α) {pieces : List (List α)} (h : pieces ≠ []) :
    dropEmptyLast (piece :: pieces) = piece :: dropEmptyLast pieces := by
  cases pieces with
  | nil => exact absurd rfl h
  | cons next pieces => rfl

theorem dropEmptyLast_append (front : List (List α)) {pieces : List (List α)} (h : pieces ≠ []) :
    dropEmptyLast (front ++ pieces) = front ++ dropEmptyLast pieces := by
  induction front with
  | nil => rfl
  | cons piece front ih =>
    rw [List.cons_append, dropEmptyLast_cons piece (List.append_ne_nil_of_right_ne_nil _ h), ih,
      List.cons_append]

theorem dropEmptyLast_eq_self {pieces : List (List α)} (h : ∀ piece ∈ pieces, piece ≠ []) :
    dropEmptyLast pieces = pieces := by
  induction pieces with
  | nil => rfl
  | cons piece pieces ih =>
    cases pieces with
    | nil => simp [dropEmptyLast, h piece (by simp)]
    | cons next pieces =>
      rw [dropEmptyLast_cons piece (by simp), ih fun q hq => h q (List.mem_cons_of_mem _ hq)]

theorem mapTail_modifyHead (f : List α → List α) (pieces : List (List α)) :
    mapTail f (pieces.modifyHead f) = pieces.map f := by
  cases pieces <;> rfl

variable [DecidableEq α]

def fields (pad : α → Bool) (d : α) (xs : List α) : List (List α) :=
  dropEmptyLast (mapTail (List.dropWhile pad) (xs.splitOn d))

theorem fields_of_notMem (pad : α → Bool) {d : α} {xs : List α} (h : d ∉ xs) (hne : xs ≠ []) :
    fields pad d xs = [xs] := by
  simp [fields, List.splitOn_eq_singleton h, mapTail, dropEmptyLast, hne]

theorem splitOn_dropWhile {pad : α → Bool} {d : α} (hd : pad d = false) (xs : List α) :
    (xs.dropWhile pad).splitOn d = (xs.splitOn d).modifyHead (List.dropWhile pad) := by
  induction xs with
  | nil => rfl
  | cons x xs ih =>
    rw [List.splitOn_cons_eq_if_modifyHead, List.dropWhile_cons]
    by_cases hx : x = d
    · subst hx
      simp [hd, List.splitOn_cons_eq_if_modifyHead]
    · have hb : (x == d) = false := beq_eq_false_iff_ne.mpr hx
      obtain ⟨piece, pieces, hs⟩ := List.exists_cons_of_ne_nil (List.splitOn_ne_nil d xs)
      cases hp : pad x with
      | true => simpa [hb, hs, hp] using ih
      | false => simp [hb, hs, hp, List.splitOn_cons_eq_if_modifyHead]

theorem fields_cut {pad : α → Bool} {d : α} (hd : pad d = false) {front : List α}
    (h : d ∉ front) (back : List α) :
    fields pad d (front ++ d :: back) = front :: fields pad d (back.dropWhile pad) := by
  have hne : (back.splitOn d).map (List.dropWhile pad) ≠ [] := by simp
  rw [fields, fields, List.splitOn_append_cons_self_of_not_mem h, splitOn_dropWhile hd,
    mapTail_modifyHead, mapTail, dropEmptyLast_cons front hne]

/-- One turn of the scan: the piece before the first delimiter, then the rest behind it. -/
theorem fields_scan {pad : α → Bool} {d : α} (hd : pad d = false) {xs : List α} (hne : xs ≠ []) :
    fields pad d xs = xs.take (xs.findIdx (· == d)) ::
      fields pad d ((xs.drop (xs.findIdx (· == d) + 1)).dropWhile pad) := by
  by_cases h : d ∈ xs
  · obtain ⟨front, back, rfl, hfront⟩ := List.eq_append_cons_of_mem h
    have hidx : (front ++ d :: back).findIdx (· == d) = front.length := by
      have hall : ∀ x ∈ front, (x == d) = false :=
        fun x hx => beq_eq_false_iff_ne.mpr fun he => hfront (he ▸ hx)
      rw [List.findIdx_append, List.findIdx_eq_length.mpr hall, if_neg (Nat.lt_irrefl _),
        List.findIdx_cons, beq_self_eq_true, cond_true, Nat.zero_add]
    have hback : (front ++ d :: back).drop (front.length + 1) = back := by
      rw [← List.drop_drop, List.drop_left' rfl, List.drop_one, List.tail_cons]
    rw [hidx, fields_cut hd hfront, List.take_left' rfl, hback]
  · have hall : ∀ x ∈ xs, (x == d) = false :=
      fun x hx => beq_eq_false_iff_ne.mpr fun he => h (he ▸ hx)
    rw [List.findIdx_eq_length.mpr hall, fields_of_notMem pad h hne, List.take_length,
      List.drop_eq_nil_of_le (Nat.le_succ _)]
    rfl

theorem fields_unpadded (d : α) (xs : List α) :
    fields (fun _ => false) d xs = dropEmptyLast (xs.splitOn d) := by
  have hid : List.dropWhile (fun _ : α => false) = id := by
    funext ys
    cases ys <;> rfl
  have htail : ∀ pieces : List (List α), mapTail id pieces = pieces := by
    intro pieces
    cases pieces with
    | nil => rfl
    | cons piece pieces => exact congrArg (piece :: ·) (List.map_id pieces)
  rw [fields, hid, htail]

theorem fields_between (pad : α → Bool) {d : α} (front back : List α) {middle : List α}
    (h : d ∉ middle) :
    fields pad d (front ++ d :: (middle ++ d :: back)) =
      mapTail (List.dropWhile pad) (front.splitOn d) ++ middle.dropWhile pad ::
        dropEmptyLast ((back.splitOn d).map (List.dropWhile pad)) := by
  have hback : (back.splitOn d).map (List.dropWhile pad) ≠ [] := by simp
  obtain ⟨piece, pieces, hfront⟩ := List.exists_cons_of_ne_nil (List.splitOn_ne_nil d front)
  have htail : mapTail (List.dropWhile pad)
      (front.splitOn d ++ (middle :: back.splitOn d)) =
      mapTail (List.dropWhile pad) (front.splitOn d) ++
        (middle.dropWhile pad :: (back.splitOn d).map (List.dropWhile pad)) := by
    rw [hfront, List.cons_append, mapTail, mapTail, List.map_append, List.map_cons,
      List.cons_append]
  rw [fields, List.splitOn_append_cons_self, List.splitOn_append_cons_self_of_not_mem h, htail,
    dropEmptyLast_append _ (List.cons_ne_nil _ _), dropEmptyLast_cons _ hback]

theorem fields_intercalate (d : α) {pieces : List (List α)} (hne : ∀ p ∈ pieces, p ≠ [])
    (h : ∀ p ∈ pieces, d ∉ p) :
    fields (fun _ => false) d ([d].intercalate pieces) = pieces := by
  cases pieces with
  | nil => rfl
  | cons piece pieces =>
    rw [fields_unpadded, List.splitOn_intercalate d h (by simp), dropEmptyLast_eq_self hne]

theorem fields_append (d : α) (xs ys : List α) :
    fields (fun _ => false) d (xs ++ d :: ys) =
      fields (fun _ => false) d (xs ++ [d]) ++ fields (fun _ => false) d ys := by
  have hempty : dropEmptyLast [([] : List α)] = [] := rfl
  rw [fields_unpadded, fields_unpadded, fields_unpadded, List.splitOn_append_cons_self,
    List.splitOn_append_cons_self, dropEmptyLast_append _ (List.splitOn_ne_nil d ys),
    dropEmptyLast_append _ (List.splitOn_ne_nil d []), List.splitOn_nil, hempty, List.append_nil]

end Fields

section Places

/-- A piece can start behind this text. -/
def Opens (d : α) (front : List α) : Prop := front = [] ∨ front.getLast? = some d

/-- A piece can end in front of this text. -/
def Closes (d : α) (back : List α) : Prop := back = [] ∨ back.head? = some d

/-- A piece of a text, between what stands in front of it and behind it. -/
structure Stands (d : α) (front piece back : List α) : Prop where
  opens : Opens d front
  free : d ∉ piece
  closes : Closes d back
  counts : piece ≠ [] ∨ back ≠ []

theorem Opens.cases {d : α} {front : List α} (h : Opens d front) :
    front = [] ∨ ∃ rest, front = rest ++ [d] :=
  h.imp_right List.getLast?_eq_some_iff.mp

theorem Closes.cases {d : α} {back : List α} (h : Closes d back) :
    back = [] ∨ ∃ rest, back = d :: rest :=
  h.imp_right List.head?_eq_some_iff.mp

theorem opens_append {d : α} {front : List α} (pre : List α) (h : Opens d front)
    (hpre : front = [] → Opens d pre) : Opens d (pre ++ front) := by
  rcases h.cases with rfl | ⟨rest, rfl⟩
  · rw [List.append_nil]
    exact hpre rfl
  · exact .inr (List.getLast?_eq_some_iff.mpr ⟨pre ++ rest, (List.append_assoc _ _ _).symm⟩)

theorem closes_append {d : α} {back : List α} (post : List α) (h : Closes d back)
    (hpost : back = [] → Closes d post) : Closes d (back ++ post) := by
  rcases h.cases with rfl | ⟨rest, rfl⟩
  · exact hpost rfl
  · exact .inr rfl

variable [DecidableEq α] {d : α} {front piece back : List α}

theorem fields_cut_unpadded (h : d ∉ front) (back : List α) :
    fields (fun _ => false) d (front ++ d :: back) = front :: fields (fun _ => false) d back := by
  have hskip : back.dropWhile (fun _ => false) = back := by cases back <;> rfl
  rw [fields_cut rfl h, hskip]

theorem fields_opens (h : Opens d front) (text : List α) :
    fields (fun _ => false) d (front ++ text) =
      fields (fun _ => false) d front ++ fields (fun _ => false) d text := by
  rcases h.cases with rfl | ⟨rest, rfl⟩
  · rfl
  · rw [List.append_assoc, List.singleton_append, fields_append]

theorem fields_stands (h : Stands d front piece back) :
    fields (fun _ => false) d (front ++ (piece ++ back)) =
      fields (fun _ => false) d front ++ piece :: fields (fun _ => false) d back.tail := by
  rw [fields_opens h.opens]
  rcases h.closes.cases with rfl | ⟨rest, rfl⟩
  · have hne : piece ≠ [] := h.counts.resolve_right fun hnil => hnil rfl
    rw [List.append_nil, fields_of_notMem _ h.free hne]
    rfl
  · rw [fields_cut_unpadded h.free, List.tail_cons]

theorem stands_of_fields {text : List α} {before after : List (List α)}
    (h : fields (fun _ => false) d text = before ++ piece :: after) :
    ∃ front back, text = front ++ (piece ++ back) ∧ Stands d front piece back ∧
      fields (fun _ => false) d front = before := by
  induction before generalizing text with
  | nil =>
    by_cases hd : d ∈ text
    · obtain ⟨first, rest, rfl, hfirst⟩ := List.eq_append_cons_of_mem hd
      rw [fields_cut_unpadded hfirst] at h
      obtain ⟨rfl, -⟩ := List.cons.inj h
      exact ⟨[], d :: rest, rfl, ⟨.inl rfl, hfirst, .inr rfl, .inr (List.cons_ne_nil _ _)⟩, rfl⟩
    · have hne : text ≠ [] := by
        rintro rfl
        cases h
      rw [fields_of_notMem _ hd hne] at h
      obtain ⟨rfl, -⟩ := List.cons.inj h
      exact ⟨[], [], (List.append_nil _).symm, ⟨.inl rfl, hd, .inl rfl, .inl hne⟩, rfl⟩
  | cons first before ih =>
    by_cases hd : d ∈ text
    · obtain ⟨head, rest, rfl, hhead⟩ := List.eq_append_cons_of_mem hd
      rw [fields_cut_unpadded hhead] at h
      obtain ⟨rfl, hrest⟩ := List.cons.inj h
      obtain ⟨front, back, rfl, hstands, hbefore⟩ := ih hrest
      have hopens : Opens d (head ++ [d]) := .inr (by rw [List.getLast?_concat])
      refine ⟨head ++ d :: front, back, by rw [List.append_assoc, List.cons_append], ?_, ?_⟩
      · have hfront : Opens d ((head ++ [d]) ++ front) :=
          opens_append _ hstands.opens fun _ => hopens
        rw [List.append_assoc] at hfront
        exact ⟨hfront, hstands.free, hstands.closes, hstands.counts⟩
      · rw [fields_cut_unpadded hhead, hbefore]
    · have hne : text ≠ [] := by
        rintro rfl
        cases h
      rw [fields_of_notMem _ hd hne] at h
      obtain ⟨-, hnil⟩ := List.cons.inj h
      exact absurd hnil.symm (List.append_ne_nil_of_right_ne_nil _ (List.cons_ne_nil _ _))

end Places
end WafWasm.DelimitedText
