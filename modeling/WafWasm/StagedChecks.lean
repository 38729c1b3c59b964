import Mathlib.Data.List.Basic

set_option autoImplicit false

namespace WafWasm.StagedChecks
variable {ε σ : Type}

abbrev Check (ε σ : Type) := EStateM ε σ Bool

def allOf : List (Check ε σ) → EStateM ε σ Bool
  | [] => pure true
  | check :: checks => do
    if ← check then allOf checks else return false

/-- Every check passes, and together they take the first state to the second. -/
inductive Passes : List (Check ε σ) → σ → σ → Prop where
  | nil (s : σ) : Passes [] s s
  | cons {check : Check ε σ} {checks : List (Check ε σ)} {s t s' : σ}
      (head : check s = .ok true t) (tail : Passes checks t s') : Passes (check :: checks) s s'

def Stops (check : Check ε σ) (s : σ) : Prop := ∀ t, check s ≠ .ok true t

theorem bind_of_ok {α β : Type} {x : EStateM ε σ α} {s t : σ} {a : α} (h : x s = .ok a t)
    (k : α → EStateM ε σ β) : (x >>= k) s = k a t := by
  change EStateM.bind x k s = _
  rw [EStateM.bind, h]

theorem bind_of_error {α β : Type} {x : EStateM ε σ α} {s t : σ} {e : ε} (h : x s = .error e t)
    (k : α → EStateM ε σ β) : (x >>= k) s = .error e t := by
  change EStateM.bind x k s = _
  rw [EStateM.bind, h]

theorem allOf_pass {check : Check ε σ} {s t : σ} (h : check s = .ok true t)
    (checks : List (Check ε σ)) : allOf (check :: checks) s = allOf checks t := by
  rw [allOf, bind_of_ok h, if_pos rfl]

theorem allOf_stop {check : Check ε σ} {s : σ} (h : Stops check s) (checks : List (Check ε σ)) :
    allOf (check :: checks) s = check s := by
  rw [allOf]
  cases hr : check s with
  | ok accepted t =>
    cases accepted with
    | false =>
      rw [bind_of_ok hr]
      rfl
    | true => exact absurd hr (h t)
  | error e t => rw [bind_of_error hr]

theorem Passes.run_append {front : List (Check ε σ)} {s t : σ} (h : Passes front s t)
    (back : List (Check ε σ)) : allOf (front ++ back) s = allOf back t := by
  induction h with
  | nil s => rfl
  | cons head tail ih => rw [List.cons_append, allOf_pass head, ih]

theorem Passes.run_stop {front : List (Check ε σ)} {check : Check ε σ} {s t : σ}
    (h : Passes front s t) (hstop : Stops check t) (back : List (Check ε σ)) :
    allOf (front ++ check :: back) s = check t := by
  rw [h.run_append, allOf_stop hstop]

def finalState {α : Type} : EStateM.Result ε σ α → σ
  | .ok _ s => s
  | .error _ s => s

end WafWasm.StagedChecks
