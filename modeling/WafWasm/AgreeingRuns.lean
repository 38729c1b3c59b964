import WafWasm.CheckedMemory

set_option autoImplicit false

namespace WafWasm.AgreeingRuns
open CheckedMemory
variable {α β σ : Type}

def Agree (marked : α → Prop) (x y : Checked α) : Prop := x = y ∨ Holds x marked

section Sequences
variable {marked : α → Prop} {marked' : β → Prop} {x y : Checked α}

theorem Agree.of_eq (h : x = y) : Agree marked x y := .inl h

theorem Agree.imp (h : Agree marked x y) {weaker : α → Prop} (hweaker : ∀ a, marked a → weaker a) :
    Agree weaker x y :=
  Or.imp_right (fun hx => hx.imp hweaker) h

theorem Agree.bind {k l : α → Checked β} (h : Agree marked x y)
    (hsame : ∀ a, x = .ok a → Agree marked' (k a) (l a))
    (hmarked : ∀ a, x = .ok a → marked a → Holds (k a) marked') :
    Agree marked' (x >>= k) (y >>= l) := by
  rcases h with rfl | ⟨a, rfl, ha⟩
  · cases hx : x with
    | error fault => exact .inl rfl
    | ok a => exact hsame a hx
  · exact .inr (hmarked a rfl ha)

theorem agree_bind {k l : α → Checked β} (hsame : ∀ a, x = .ok a → Agree marked' (k a) (l a)) :
    Agree marked' (x >>= k) (x >>= l) := by
  cases hx : x with
  | error fault => exact .inl rfl
  | ok a => exact hsame a hx

theorem agree_ite {c : Prop} [Decidable c] {x' y' : Checked α} (hx : c → Agree marked x y)
    (hy : ¬c → Agree marked x' y') :
    Agree marked (if c then x else x') (if c then y else y') := by
  by_cases hc : c
  · rw [if_pos hc, if_pos hc]
    exact hx hc
  · rw [if_neg hc, if_neg hc]
    exact hy hc

theorem Agree.eq_of_not_marked (h : Agree marked x y) {a : α} (hx : x = .ok a)
    (ha : ¬marked a) : y = .ok a := by
  rcases h with rfl | ⟨b, hb, hmarked⟩
  · exact hx
  · rw [hx] at hb
    cases hb
    exact absurd hmarked ha

end Sequences

section Loops
variable {turn turn' : σ → Checked (σ ⊕ α)} {Inv Marked : σ → Prop} {measure : σ → ℕ}
  {P marked : α → Prop}

theorem agree_loop (hturn : ∀ s, Inv s → Holds (turn s) (Continues Inv measure P s))
    (hkeeps : ∀ s, Inv s → Marked s →
      Holds (turn s) (Continues (fun s => Inv s ∧ Marked s) measure marked s))
    (hagree : ∀ s, Inv s → Agree (Sum.elim Marked marked) (turn s) (turn' s)) {fuel : ℕ} {s : σ}
    (hs : Inv s) (hfuel : measure s < fuel) :
    Agree marked (loop turn fuel s) (loop turn' fuel s) := by
  induction fuel generalizing s with
  | zero => exact absurd hfuel (Nat.not_lt_zero _)
  | succ fuel ih =>
    have hnext : ∀ {next : σ}, turn s = .ok (.inl next) → Inv next ∧ measure next < fuel := by
      intro next hx
      obtain ⟨r, hr, hcontinues⟩ := hturn s hs
      rw [hx] at hr
      cases hr
      exact ⟨hcontinues.1, Nat.lt_of_lt_of_le hcontinues.2 (Nat.le_of_lt_succ hfuel)⟩
    rw [loop, loop]
    refine (hagree s hs).bind (fun r hx => ?_) fun r hx hr => ?_
    · cases r with
      | inl next => exact ih (hnext hx).1 (hnext hx).2
      | inr a => exact .inl rfl
    · cases r with
      | inl next =>
        exact holds_loop (fun s hs => hkeeps s hs.1 hs.2) ⟨(hnext hx).1, hr⟩ (hnext hx).2
      | inr a => exact holds_pure hr

end Loops
end WafWasm.AgreeingRuns
