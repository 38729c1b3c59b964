import Mathlib.Data.List.Basic
import Mathlib.Data.List.TakeDrop

set_option autoImplicit false

/-!
# Computations that check every access

A checked computation returns or faults: on an access outside of a buffer, on an unsigned
difference that would wrap, on an assertion, or on a loop that does not end within its fuel.
`Holds x P` says that `x` returns, and returns a value with `P`.
-/
namespace WafWasm.CheckedMemory
variable {α β σ : Type}

inductive Fault where
  | outOfBounds
  | wrapped
  | assertion
  | outOfFuel
deriving DecidableEq, Repr

abbrev Checked (α : Type) := Except Fault α

section Accesses

def readAt (xs : List α) (i : ℕ) : Checked α :=
  match xs[i]? with
  | some a => .ok a
  | none => .error .outOfBounds

def writeAt (xs : List α) (i : ℕ) (a : α) : Checked (List α) :=
  if i < xs.length then .ok (xs.set i a) else .error .outOfBounds

def slice (xs : List α) (start n : ℕ) : Checked (List α) :=
  if start + n ≤ xs.length then .ok ((xs.drop start).take n) else .error .outOfBounds

/-- The buffer with its elements from `start` overwritten by `ys`. -/
def copyTo (xs : List α) (start : ℕ) (ys : List α) : Checked (List α) :=
  if start + ys.length ≤ xs.length then
    .ok (xs.take start ++ ys ++ xs.drop (start + ys.length))
  else .error .outOfBounds

def minus (a b : ℕ) : Checked ℕ :=
  if b ≤ a then .ok (a - b) else .error .wrapped

def require (c : Prop) [Decidable c] : Checked Unit :=
  if c then .ok () else .error .assertion

/-- A loop whose turn goes on with a new state or leaves with a result. -/
def loop (turn : σ → Checked (σ ⊕ α)) : ℕ → σ → Checked α
  | 0, _ => .error .outOfFuel
  | fuel + 1, s => do
    match ← turn s with
    | .inl next => loop turn fuel next
    | .inr a => return a

end Accesses

def Holds (x : Checked α) (P : α → Prop) : Prop := ∃ a, x = .ok a ∧ P a

section Rules
variable {x : Checked α} {P Q : α → Prop}

theorem holds_ok {a : α} (h : P a) : Holds (.ok a) P := ⟨a, rfl, h⟩

theorem holds_pure {a : α} (h : P a) : Holds (pure a : Checked α) P := ⟨a, rfl, h⟩

theorem holds_of_eq {a : α} (hx : x = .ok a) (h : P a) : Holds x P := ⟨a, hx, h⟩

theorem ok_of_holds (h : Holds x P) {a : α} (ha : x = .ok a) : P a := by
  obtain ⟨b, hb, hP⟩ := h
  rw [ha] at hb
  cases hb
  exact hP

theorem Holds.imp (h : Holds x P) (hPQ : ∀ a, P a → Q a) : Holds x Q := by
  obtain ⟨a, hx, ha⟩ := h
  exact ⟨a, hx, hPQ a ha⟩

theorem Holds.bind {k : α → Checked β} {R : β → Prop} (h : Holds x P)
    (hk : ∀ a, P a → Holds (k a) R) : Holds (x >>= k) R := by
  obtain ⟨a, rfl, ha⟩ := h
  exact hk a ha

theorem Holds.and {h : α → Prop} (hP : Holds x P) (hh : Holds x h) :
    Holds x (fun a => P a ∧ h a) := by
  obtain ⟨a, hx, ha⟩ := hP
  exact ⟨a, hx, ha, ok_of_holds hh hx⟩

theorem holds_ite {c : Prop} [Decidable c] {y : Checked α} (hx : c → Holds x P)
    (hy : ¬c → Holds y P) : Holds (if c then x else y) P := by
  by_cases hc : c
  · rw [if_pos hc]
    exact hx hc
  · rw [if_neg hc]
    exact hy hc

theorem bind_ok (a : α) (k : α → Checked β) : ((.ok a : Checked α) >>= k) = k a := rfl

end Rules

section AccessRules
variable {xs ys : List α} {i start n : ℕ}

theorem readAt_ok (h : i < xs.length) : readAt xs i = .ok xs[i] := by
  rw [readAt, List.getElem?_eq_getElem h]

theorem writeAt_ok (h : i < xs.length) (a : α) : writeAt xs i a = .ok (xs.set i a) := if_pos h

theorem slice_ok (h : start + n ≤ xs.length) : slice xs start n = .ok ((xs.drop start).take n) :=
  if_pos h

theorem copyTo_ok (h : start + ys.length ≤ xs.length) :
    copyTo xs start ys = .ok (xs.take start ++ ys ++ xs.drop (start + ys.length)) := if_pos h

theorem minus_ok {a b : ℕ} (h : b ≤ a) : minus a b = .ok (a - b) := if_pos h

theorem require_ok {c : Prop} [Decidable c] (h : c) : require c = .ok () := if_pos h

theorem holds_readAt (h : i < xs.length) : Holds (readAt xs i) (fun a => xs[i]? = some a) :=
  holds_of_eq (readAt_ok h) (List.getElem?_eq_getElem h)

end AccessRules

section Loops
variable {turn : σ → Checked (σ ⊕ α)} {Inv : σ → Prop} {measure : σ → ℕ} {P : α → Prop}

/-- A turn keeps the invariant and decreases the measure, or leaves with the postcondition. -/
def Continues (Inv : σ → Prop) (measure : σ → ℕ) (P : α → Prop) (s : σ) : σ ⊕ α → Prop
  | .inl next => Inv next ∧ measure next < measure s
  | .inr a => P a

theorem holds_loop (h : ∀ s, Inv s → Holds (turn s) (Continues Inv measure P s)) {fuel : ℕ}
    {s : σ} (hs : Inv s) (hfuel : measure s < fuel) : Holds (loop turn fuel s) P := by
  induction fuel generalizing s with
  | zero => exact absurd hfuel (Nat.not_lt_zero _)
  | succ fuel ih =>
    rw [loop]
    refine (h s hs).bind fun r hr => ?_
    cases r with
    | inl next => exact ih hr.1 (Nat.lt_of_lt_of_le hr.2 (Nat.le_of_lt_succ hfuel))
    | inr a => exact holds_pure hr

end Loops
end WafWasm.CheckedMemory
