import WafWasm.CheckedMemory

set_option autoImplicit false

namespace WafWasm.Bisection
open CheckedMemory

def turn (test : ℕ → Checked Bool) : ℕ × ℕ → Checked ((ℕ × ℕ) ⊕ (ℕ × ℕ))
  | (left, right) => do
    if left < right then
      let pos := (left + right) / 2
      if ← test pos then return .inl (pos + 1, right) else return .inl (left, pos)
    else return .inr (left, right)

/-- All before the meeting point is below; the point itself is not, unless it is the last. -/
structure Boundary (below : ℕ → Prop) (last : ℕ) (r : ℕ × ℕ) : Prop where
  meet : r.1 = r.2
  within : r.1 ≤ last
  before : ∀ i < r.1, below i
  after : r.1 = last ∨ ¬below r.1

structure Window (below : ℕ → Prop) (last : ℕ) (r : ℕ × ℕ) : Prop where
  ordered : r.1 ≤ r.2
  within : r.2 ≤ last
  before : ∀ i < r.1, below i
  after : r.2 = last ∨ ¬below r.2

variable {below : ℕ → Prop} {last : ℕ} {test : ℕ → Checked Bool}

theorem turn_holds (closed : ∀ i j, i ≤ j → j ≤ last → below j → below i)
    (htest : ∀ i ≤ last, Holds (test i) (fun b => b = true ↔ below i)) (r : ℕ × ℕ)
    (hr : Window below last r) :
    Holds (turn test r)
      (Continues (Window below last) (fun r => r.2 - r.1) (Boundary below last) r) := by
  obtain ⟨left, right⟩ := r
  have hordered : left ≤ right := hr.ordered
  have hwithin : right ≤ last := hr.within
  rw [turn]
  refine holds_ite ?_ ?_
  · intro hlt
    refine (htest ((left + right) / 2) (by omega)).bind fun b hb => ?_
    cases b with
    | true =>
      have hmid : below ((left + right) / 2) := hb.mp rfl
      refine holds_pure ⟨⟨?_, hwithin, ?_, hr.after⟩, ?_⟩
      · change (left + right) / 2 + 1 ≤ right
        omega
      · intro i hi
        change i < (left + right) / 2 + 1 at hi
        exact closed i _ (by omega) (by omega) hmid
      · change right - ((left + right) / 2 + 1) < right - left
        omega
    | false =>
      refine holds_pure ⟨⟨?_, ?_, hr.before, .inr ?_⟩, ?_⟩
      · change left ≤ (left + right) / 2
        omega
      · change (left + right) / 2 ≤ last
        omega
      · intro hmid
        exact Bool.false_ne_true (hb.mpr hmid)
      · change (left + right) / 2 - left < right - left
        omega
  · intro hge
    have hmeet : left = right := by omega
    subst hmeet
    exact holds_pure ⟨rfl, hwithin, hr.before, hr.after⟩

theorem holds_bisect (closed : ∀ i j, i ≤ j → j ≤ last → below j → below i)
    (htest : ∀ i ≤ last, Holds (test i) (fun b => b = true ↔ below i)) {fuel : ℕ}
    (hfuel : last < fuel) : Holds (loop (turn test) fuel (0, last)) (Boundary below last) := by
  have hstart : Window below last (0, last) :=
    ⟨Nat.zero_le _, Nat.le_refl _, fun i hi => absurd hi (Nat.not_lt_zero i), .inl rfl⟩
  exact holds_loop (turn_holds closed htest) hstart hfuel

end WafWasm.Bisection
