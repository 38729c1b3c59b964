import Mathlib.Data.List.Basic

set_option autoImplicit false

namespace WafWasm.TracedRuns
variable {Event Failure α β σ : Type}

structure Run (Event Failure α : Type) where
  events : List Event
  result : Except Failure α

section Programs

def record (event : Event) : Run Event Failure Unit := ⟨[event], .ok ()⟩

def fail (failure : Failure) : Run Event Failure α := ⟨[], .error failure⟩

instance : Monad (Run Event Failure) where
  pure a := ⟨[], .ok a⟩
  bind x k :=
    match x.result with
    | .ok a => ⟨x.events ++ (k a).events, (k a).result⟩
    | .error failure => ⟨x.events, .error failure⟩

def loop (turn : σ → Run Event Failure (σ ⊕ α)) (outOfFuel : Failure) :
    ℕ → σ → Run Event Failure α
  | 0, _ => fail outOfFuel
  | fuel + 1, s => do
    match ← turn s with
    | .inl next => loop turn outOfFuel fuel next
    | .inr a => return a

end Programs

section Rules

structure Returns (P : Event → Prop) (x : Run Event Failure α) (a : α) : Prop where
  result : x.result = .ok a
  events : ∀ event ∈ x.events, P event

variable {P : Event → Prop}

theorem returns_pure (a : α) : Returns P (pure a : Run Event Failure α) a :=
  ⟨rfl, fun _ h => absurd h List.not_mem_nil⟩

theorem returns_record {event : Event} (h : P event) :
    Returns P (record event : Run Event Failure Unit) () := by
  refine ⟨rfl, ?_⟩
  intro other hother
  rw [List.mem_singleton.mp hother]
  exact h

theorem bind_eq {x : Run Event Failure α} {a : α} (hx : x.result = .ok a)
    (k : α → Run Event Failure β) : x >>= k = ⟨x.events ++ (k a).events, (k a).result⟩ := by
  change (match x.result with
    | .ok a => (⟨x.events ++ (k a).events, (k a).result⟩ : Run Event Failure β)
    | .error failure => ⟨x.events, .error failure⟩) = _
  rw [hx]

theorem loop_events {turn : σ → Run Event Failure (σ ⊕ α)} {s next : σ}
    (h : (turn s).result = .ok (.inl next)) (outOfFuel : Failure) (fuel : ℕ) :
    (loop turn outOfFuel (fuel + 1) s).events =
      (turn s).events ++ (loop turn outOfFuel fuel next).events := by
  rw [loop, bind_eq h]

theorem Returns.bind {x : Run Event Failure α} {a : α} {k : α → Run Event Failure β} {b : β}
    (hx : Returns P x a) (hk : Returns P (k a) b) : Returns P (x >>= k) b := by
  rw [bind_eq hx.result]
  refine ⟨hk.result, ?_⟩
  intro event hevent
  rcases List.mem_append.mp hevent with h | h
  · exact hx.events event h
  · exact hk.events event h

/-- A turn leaves with the value of its state, or keeps the value and decreases the measure. -/
def Turns (P : Event → Prop) (turn : σ → Run Event Failure (σ ⊕ α)) (value : σ → α)
    (measure : σ → ℕ) (s : σ) : Prop :=
  Returns P (turn s) (.inr (value s)) ∨
    ∃ next, Returns P (turn s) (.inl next) ∧ value next = value s ∧ measure next < measure s

theorem loop_returns {turn : σ → Run Event Failure (σ ⊕ α)} {value : σ → α} {measure : σ → ℕ}
    (h : ∀ s, Turns P turn value measure s) (outOfFuel : Failure) {fuel : ℕ} {s : σ}
    (hfuel : measure s < fuel) : Returns P (loop turn outOfFuel fuel s) (value s) := by
  induction fuel generalizing s with
  | zero => exact absurd hfuel (Nat.not_lt_zero _)
  | succ fuel ih =>
    rw [loop]
    rcases h s with hleave | ⟨next, hnext, hvalue, hmeasure⟩
    · exact hleave.bind (returns_pure _)
    · refine hnext.bind ?_
      rw [← hvalue]
      exact ih (by omega)

end Rules
end WafWasm.TracedRuns
