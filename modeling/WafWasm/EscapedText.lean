import Mathlib.Data.List.Basic
import Mathlib.Data.List.TakeDrop

set_option autoImplicit false

namespace WafWasm.EscapedText
variable {α : Type} [DecidableEq α] (escape delim : α)

/-- Where the text ends: the number of elements before its closing delimiter. -/
def closing : List α → Option ℕ
  | [] => none
  | [a] => if a = delim then some 0 else none
  | a :: b :: rest =>
    if a = escape ∨ a = delim ∧ b = delim then (closing rest).map (· + 2)
    else if a = delim then some 0
    else (closing (b :: rest)).map (· + 1)

/-- The texts that contain no closing delimiter. -/
inductive Body : List α → Prop where
  | nil : Body []
  | plain (a : α) (text : List α) (hescape : a ≠ escape) (hdelim : a ≠ delim) (h : Body text) :
      Body (a :: text)
  | escaped (a : α) (text : List α) (h : Body text) : Body (escape :: a :: text)
  | doubled (text : List α) (h : Body text) : Body (delim :: delim :: text)

def trailing (text : List α) : ℕ := (text.reverse.takeWhile (· == escape)).length

section Closing
variable {escape delim} {text rest : List α}

theorem closing_absent (h : delim ∉ text) : closing escape delim text = none := by
  induction text using closing.induct escape delim with
  | case1 => rfl
  | case2 => exact absurd (List.mem_singleton_self _) h
  | case3 a hne => rw [closing, if_neg hne]
  | case4 a b rest hskip ih =>
    rw [closing, if_pos hskip, ih fun hmem => h (.tail _ (.tail _ hmem))]
    rfl
  | case5 b rest hskip => exact absurd (.head _) h
  | case6 a b rest hskip hne ih =>
    rw [closing, if_neg hskip, if_neg hne, ih fun hmem => h (.tail _ hmem)]
    rfl

theorem closing_body (hne : delim ≠ escape) {body : List α} (hbody : Body escape delim body)
    (hrest : rest.head? ≠ some delim) :
    closing escape delim (body ++ delim :: rest) = some body.length := by
  induction hbody with
  | nil =>
    cases rest with
    | nil => rw [List.nil_append, closing, if_pos rfl, List.length_nil]
    | cons b rest =>
      have hb : ¬(delim = escape ∨ delim = delim ∧ b = delim) := by
        rintro (h | ⟨-, rfl⟩)
        · exact hne h
        · exact hrest rfl
      rw [List.nil_append, closing, if_neg hb, if_pos rfl, List.length_nil]
  | plain a text hescape hdelim h ih =>
    have ha : ∀ b, ¬(a = escape ∨ a = delim ∧ b = delim) := fun b hc =>
      hc.elim hescape fun hd => hdelim hd.1
    rcases htext : text ++ delim :: rest with _ | ⟨b, tail⟩
    · exact absurd htext (by simp)
    rw [List.cons_append, htext, closing, if_neg (ha b), if_neg hdelim, ← htext, ih]
    rfl
  | escaped a text h ih =>
    rw [List.cons_append, List.cons_append, closing, if_pos (.inl rfl), ih]
    rfl
  | doubled text h ih =>
    rw [List.cons_append, List.cons_append, closing, if_pos (.inr ⟨rfl, rfl⟩), ih]
    rfl

theorem body_of_closing {i : ℕ} (h : closing escape delim text = some i) :
    ∃ body rest, text = body ++ delim :: rest ∧ body.length = i ∧ Body escape delim body ∧
      rest.head? ≠ some delim := by
  induction text using closing.induct escape delim generalizing i with
  | case1 => cases h
  | case2 =>
    rw [closing, if_pos rfl] at h
    cases h
    exact ⟨[], [], rfl, rfl, .nil, by simp⟩
  | case3 a hne =>
    rw [closing, if_neg hne] at h
    cases h
  | case4 a b rest hskip ih =>
    rw [closing, if_pos hskip] at h
    obtain ⟨j, hj, rfl⟩ := Option.map_eq_some_iff.mp h
    obtain ⟨body, rest', rfl, rfl, hbody, hrest⟩ := ih hj
    refine ⟨a :: b :: body, rest', rfl, rfl, ?_, hrest⟩
    rcases hskip with rfl | ⟨rfl, rfl⟩
    · exact .escaped b body hbody
    · exact .doubled body hbody
  | case5 b rest hskip =>
    rw [closing, if_neg hskip, if_pos rfl] at h
    cases h
    refine ⟨[], b :: rest, rfl, rfl, .nil, fun hb => ?_⟩
    exact hskip (.inr ⟨rfl, Option.some.inj hb⟩)
  | case6 a b rest hskip hne ih =>
    rw [closing, if_neg hskip, if_neg hne] at h
    obtain ⟨j, hj, rfl⟩ := Option.map_eq_some_iff.mp h
    obtain ⟨body, rest', htext, rfl, hbody, hrest⟩ := ih hj
    refine ⟨a :: body, rest', by rw [htext]; rfl, rfl, ?_, hrest⟩
    exact .plain a body (fun ha => hskip (.inl ha)) hne hbody

end Closing

section Candidates
variable {escape delim} {front rest : List α}

theorem trailing_nil : trailing escape ([] : List α) = 0 := rfl

theorem trailing_cons_of_ne {a : α} (h : a ≠ escape) (text : List α) :
    trailing escape (a :: text) = trailing escape text := by
  rw [trailing, trailing, List.reverse_cons, List.takeWhile_append]
  split_ifs with hall
  · rw [List.takeWhile_cons_of_neg (by simpa using h), List.append_nil, hall]
  · rfl

theorem trailing_le (text : List α) : trailing escape text ≤ text.length := by
  have h := (List.takeWhile_prefix (· == escape) (l := text.reverse)).length_le
  rw [List.length_reverse] at h
  exact h

theorem trailing_cons (text : List α) : trailing escape (escape :: text) =
    if trailing escape text = text.length then text.length + 1 else trailing escape text := by
  rw [trailing, trailing, List.reverse_cons, List.takeWhile_append, List.length_reverse]
  split_ifs with hall
  · have hone : [escape].takeWhile (· == escape) = [escape] :=
      List.takeWhile_cons_of_pos (beq_self_eq_true escape)
    rw [hone, List.length_append, List.length_reverse, List.length_singleton]
  · rfl

theorem trailing_append {a : α} (h : a ≠ escape) (before text : List α) :
    trailing escape (before ++ a :: text) = trailing escape text := by
  induction before with
  | nil => exact trailing_cons_of_ne h text
  | cons b before ih =>
    rw [List.cons_append]
    by_cases hb : b = escape
    · have hle := @trailing_le _ _ escape text
      rw [hb, trailing_cons, ih, if_neg]
      rw [List.length_append, List.length_cons]
      omega
    · rw [trailing_cons_of_ne hb, ih]

/-- An escape and what it escapes change the number of escapes at the end by two, or not at
all. -/
theorem trailing_escaped (a : α) (text : List α) :
    trailing escape (escape :: a :: text) % 2 = trailing escape text % 2 := by
  by_cases ha : a = escape
  · have hle := @trailing_le _ _ escape text
    rw [ha, trailing_cons, trailing_cons, List.length_cons]
    split_ifs
    · omega
    · omega
    · omega
    · rfl
  · rw [← @trailing_append _ _ escape _ ha [escape] text]
    rfl

theorem closing_head (hne : delim ≠ escape) : closing escape delim (delim :: rest) =
    if rest.head? = some delim then (closing escape delim rest.tail).map (· + 2) else some 0 := by
  cases rest with
  | nil => rw [closing, if_pos rfl, if_neg (by simp)]
  | cons b rest =>
    rw [List.head?_cons, List.tail_cons]
    by_cases hb : b = delim
    · rw [hb, closing, if_pos (.inr ⟨rfl, rfl⟩), if_pos rfl]
    · have hskip : ¬(delim = escape ∨ delim = delim ∧ b = delim) := by
        rintro (h | ⟨-, h⟩)
        · exact hne h
        · exact hb h
      rw [closing, if_neg hskip, if_pos rfl, if_neg fun h => hb (Option.some.inj h)]

theorem closing_plain {a : α} (hescape : a ≠ escape) (hdelim : a ≠ delim) {text : List α}
    (htext : text ≠ []) :
    closing escape delim (a :: text) = (closing escape delim text).map (· + 1) := by
  cases text with
  | nil => exact absurd rfl htext
  | cons b text =>
    rw [closing, if_neg (fun h => h.elim hescape fun hd => hdelim hd.1), if_neg hdelim]

theorem closing_escaped (a : α) (text : List α) :
    closing escape delim (escape :: a :: text) = (closing escape delim text).map (· + 2) := by
  rw [closing, if_pos (.inl rfl)]

theorem closing_candidate (hne : delim ≠ escape) (hfront : delim ∉ front) :
    closing escape delim (front ++ delim :: rest) =
      if trailing escape front % 2 = 1 then (closing escape delim rest).map (· + (front.length + 1))
      else if rest.head? = some delim then
        (closing escape delim rest.tail).map (· + (front.length + 2))
      else some front.length := by
  induction front using closing.induct escape delim with
  | case1 =>
    rw [List.nil_append, trailing_nil, if_neg (by decide), closing_head hne]
    rfl
  | case2 => exact absurd (.head _) hfront
  | case3 a ha =>
    by_cases hescape : a = escape
    · rw [hescape, List.cons_append, List.nil_append, closing_escaped, trailing_cons, trailing_nil]
      rfl
    · rw [List.cons_append, List.nil_append, closing_plain hescape ha (List.cons_ne_nil _ _),
        closing_head hne, trailing_cons_of_ne hescape, trailing_nil,
        if_neg (show ¬0 % 2 = 1 by decide)]
      split_ifs
      · rw [Option.map_map]
        rfl
      · rfl
  | case4 a b front hskip ih =>
    have hescape : a = escape := hskip.resolve_right fun h => hfront (h.1 ▸ .head _)
    rw [hescape, List.cons_append, List.cons_append, closing_escaped,
      ih fun hmem => hfront (.tail _ (.tail _ hmem)), trailing_escaped]
    split_ifs
    · rw [Option.map_map]
      rfl
    · rw [Option.map_map]
      rfl
    · rfl
  | case5 b front hskip => exact absurd (.head _) hfront
  | case6 a b front hskip ha ih =>
    have hescape : a ≠ escape := fun h => hskip (.inl h)
    have hnonempty : b :: front ++ delim :: rest ≠ [] := List.cons_ne_nil _ _
    rw [List.cons_append, closing_plain hescape ha hnonempty,
      ih fun hmem => hfront (.tail _ hmem), trailing_cons_of_ne hescape]
    split_ifs
    · rw [Option.map_map]
      rfl
    · rw [Option.map_map]
      rfl
    · rfl

end Candidates
end WafWasm.EscapedText
