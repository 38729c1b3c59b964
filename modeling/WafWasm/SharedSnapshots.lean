import Mathlib.Data.List.Forall2
import Mathlib.Logic.Function.Basic

set_option autoImplicit false

/-!
# Machines started from a snapshot of a shared part

A system has one shared part and any number of local machines. A machine is started from the
shared part as it is then, and from there on its calls see its own state only. A run interleaves
updates, starts and calls; what a machine answers in it is what it answers alone.
-/
namespace WafWasm.SharedSnapshots
universe u₁ u₂ u₃ u₄ u₅ u₆

structure System (Update : Type u₁) (Call : Type u₂) (Shared : Type u₃) (Local : Type u₄)
    (Answer : Type u₅) where
  update : Shared → Update → Shared
  start : Shared → Local
  step : Local → Call → Local × Answer

inductive Event (Id : Type u₆) (Update : Type u₁) (Call : Type u₂) where
  | update (change : Update)
  | start (id : Id)
  | call (id : Id) (c : Call)

structure State (Id : Type u₆) (Shared : Type u₃) (Local : Type u₄) where
  shared : Shared
  locals : Id → Option Local

variable {Id : Type u₆} {Update : Type u₁} {Call : Type u₂} {Shared : Type u₃} {Local : Type u₄}
  {Answer : Type u₅}

def State.initial (shared : Shared) : State Id Shared Local := ⟨shared, fun _ => none⟩

section Alone
variable (sys : System Update Call Shared Local Answer)

def System.runAlone (l : Local) : List Call → Local × List Answer
  | [] => (l, [])
  | c :: cs =>
    let rest := System.runAlone (sys.step l c).1 cs
    (rest.1, (sys.step l c).2 :: rest.2)

variable {sys}

theorem System.runAlone_cons (l : Local) (c : Call) (cs : List Call) :
    sys.runAlone l (c :: cs) = ((sys.runAlone (sys.step l c).1 cs).1,
      (sys.step l c).2 :: (sys.runAlone (sys.step l c).1 cs).2) := rfl

theorem System.runAlone_append (l : Local) (cs cs' : List Call) :
    sys.runAlone l (cs ++ cs') = ((sys.runAlone (sys.runAlone l cs).1 cs').1,
      (sys.runAlone l cs).2 ++ (sys.runAlone (sys.runAlone l cs).1 cs').2) := by
  induction cs generalizing l with
  | nil => rfl
  | cons c cs ih => rw [List.cons_append, runAlone_cons, runAlone_cons, ih, List.cons_append]

theorem System.runAlone_invariant {P : Local → Prop} (hstep : ∀ l c, P l → P (sys.step l c).1)
    {l : Local} (h : P l) (cs : List Call) : P (sys.runAlone l cs).1 := by
  induction cs generalizing l with
  | nil => exact h
  | cons c cs ih => exact ih (hstep l c h)

theorem System.runAlone_congr {Feature : Type u₆} {feature : Call → Feature}
    (hstep : ∀ l c c', feature c = feature c' → sys.step l c = sys.step l c')
    {cs cs' : List Call} (h : cs.map feature = cs'.map feature) (l : Local) :
    sys.runAlone l cs = sys.runAlone l cs' := by
  induction cs generalizing cs' l with
  | nil =>
    cases cs' with
    | nil => rfl
    | cons c' cs' => cases h
  | cons c cs ih =>
    cases cs' with
    | nil => cases h
    | cons c' cs' =>
      obtain ⟨hc, hcs⟩ := List.cons.inj h
      rw [runAlone_cons, runAlone_cons, hstep l c c' hc, ih hcs]

end Alone

/-- The calls of a run, whichever machine they go to. -/
def calls (events : List (Event Id Update Call)) : List (Id × Call) :=
  events.filterMap fun
    | .call id c => some (id, c)
    | _ => none

theorem calls_cons (e : Event Id Update Call) (events : List (Event Id Update Call)) :
    calls (e :: events) = calls [e] ++ calls events :=
  List.filterMap_append (l := [e])

section Runs
variable [DecidableEq Id]

def callsOf (id : Id) (events : List (Event Id Update Call)) : List Call :=
  events.filterMap fun
    | .call i c => if i = id then some c else none
    | _ => none

def answersOf (id : Id) (answers : List (Id × Answer)) : List Answer :=
  answers.filterMap fun answer => if answer.1 = id then some answer.2 else none

theorem callsOf_cons (id : Id) (e : Event Id Update Call) (events : List (Event Id Update Call)) :
    callsOf id (e :: events) = callsOf id [e] ++ callsOf id events :=
  List.filterMap_append (l := [e])

theorem answersOf_append (id : Id) (answers answers' : List (Id × Answer)) :
    answersOf id (answers ++ answers') = answersOf id answers ++ answersOf id answers' :=
  List.filterMap_append

variable (sys : System Update Call Shared Local Answer)

/-- No machine is started twice, and only started machines are called. -/
def System.next (s : State Id Shared Local) :
    Event Id Update Call → Option (State Id Shared Local × List (Id × Answer))
  | .update change => some ({ s with shared := sys.update s.shared change }, [])
  | .start id =>
    match s.locals id with
    | some _ => none
    | none =>
      some ({ s with locals := Function.update s.locals id (some (sys.start s.shared)) }, [])
  | .call id c => (s.locals id).map fun l =>
    ({ s with locals := Function.update s.locals id (some (sys.step l c).1) },
      [(id, (sys.step l c).2)])

def System.run (s : State Id Shared Local) :
    List (Event Id Update Call) → Option (State Id Shared Local × List (Id × Answer))
  | [] => some (s, [])
  | e :: events => do
    let (s, answers) ← sys.next s e
    let (s, answers') ← System.run s events
    return (s, answers ++ answers')

variable {sys} {s s' : State Id Shared Local} {answers : List (Id × Answer)}

theorem System.next_cases {e : Event Id Update Call} (h : sys.next s e = some (s', answers)) :
    (∃ change, e = .update change ∧ answers = [] ∧
      s' = { s with shared := sys.update s.shared change }) ∨
    (∃ id, e = .start id ∧ s.locals id = none ∧ answers = [] ∧
      s' = { s with locals := Function.update s.locals id (some (sys.start s.shared)) }) ∨
    (∃ id c l, e = .call id c ∧ s.locals id = some l ∧ answers = [(id, (sys.step l c).2)] ∧
      s' = { s with locals := Function.update s.locals id (some (sys.step l c).1) }) := by
  cases e with
  | update change =>
    cases h
    exact .inl ⟨change, rfl, rfl, rfl⟩
  | start id =>
    cases hl : s.locals id with
    | some l =>
      simp only [System.next, hl] at h
      cases h
    | none =>
      simp only [System.next, hl] at h
      cases h
      exact .inr (.inl ⟨id, rfl, hl, rfl, rfl⟩)
  | call id c =>
    obtain ⟨l, hl, he⟩ := Option.map_eq_some_iff.mp h
    cases he
    exact .inr (.inr ⟨id, c, l, rfl, hl, rfl, rfl⟩)

theorem System.run_cons {e : Event Id Update Call} {events : List (Event Id Update Call)}
    (h : sys.run s (e :: events) = some (s', answers)) :
    ∃ mid first rest, sys.next s e = some (mid, first) ∧ sys.run mid events = some (s', rest) ∧
      answers = first ++ rest := by
  unfold System.run at h
  obtain ⟨⟨mid, first⟩, hnext, h⟩ := Option.bind_eq_some_iff.mp h
  obtain ⟨⟨last, rest⟩, hrest, h⟩ := Option.bind_eq_some_iff.mp h
  cases h
  exact ⟨mid, first, rest, hnext, hrest, rfl⟩

theorem System.run_append {events events' : List (Event Id Update Call)}
    (h : sys.run s (events ++ events') = some (s', answers)) :
    ∃ mid first rest, sys.run s events = some (mid, first) ∧
      sys.run mid events' = some (s', rest) ∧ answers = first ++ rest := by
  induction events generalizing s answers with
  | nil => exact ⟨s, [], answers, rfl, h, rfl⟩
  | cons e events ih =>
    obtain ⟨mid, first, rest, hnext, hrest, rfl⟩ := System.run_cons h
    obtain ⟨mid', first', rest', hfirst', hrest', rfl⟩ := ih hrest
    refine ⟨mid', first ++ first', rest', ?_, hrest', (List.append_assoc _ _ _).symm⟩
    unfold System.run
    rw [hnext]
    change (sys.run mid events).bind _ = _
    rw [hfirst']
    rfl

/-- What one event does to a machine that is running: its own calls are steps of it. -/
theorem System.next_local {e : Event Id Update Call} (h : sys.next s e = some (s', answers))
    {id : Id} {l : Local} (hl : s.locals id = some l) :
    s'.locals id = some (sys.runAlone l (callsOf id [e])).1 ∧
      answersOf id answers = (sys.runAlone l (callsOf id [e])).2 := by
  rcases System.next_cases h with
    ⟨change, rfl, rfl, rfl⟩ | ⟨i, rfl, hi, rfl, rfl⟩ | ⟨i, c, l', rfl, hi, rfl, rfl⟩
  · exact ⟨hl, rfl⟩
  · have hne : id ≠ i := by
      intro he
      rw [he, hi] at hl
      cases hl
    exact ⟨(Function.update_of_ne hne _ _).trans hl, rfl⟩
  · by_cases he : i = id
    · subst he
      obtain rfl : l' = l := Option.some.inj (hi.symm.trans hl)
      simp [callsOf, answersOf, System.runAlone]
    · have hcalls : callsOf id [(.call i c : Event Id Update Call)] = [] := by simp [callsOf, he]
      have hanswers : answersOf id [(i, (sys.step l' c).2)] = [] := by simp [answersOf, he]
      rw [hcalls, hanswers]
      exact ⟨(Function.update_of_ne (Ne.symm he) _ _).trans hl, rfl⟩

theorem System.run_local {events : List (Event Id Update Call)}
    (h : sys.run s events = some (s', answers)) {id : Id} {l : Local}
    (hl : s.locals id = some l) :
    s'.locals id = some (sys.runAlone l (callsOf id events)).1 ∧
      answersOf id answers = (sys.runAlone l (callsOf id events)).2 := by
  induction events generalizing s answers l with
  | nil =>
    cases h
    exact ⟨hl, rfl⟩
  | cons e events ih =>
    obtain ⟨mid, first, rest, hnext, hrest, rfl⟩ := System.run_cons h
    obtain ⟨hmid, hfirst⟩ := System.next_local hnext hl
    obtain ⟨hlast, hanswers⟩ := ih hrest hmid
    rw [callsOf_cons, System.runAlone_append, answersOf_append, hfirst, hanswers]
    exact ⟨hlast, rfl⟩

/-- Machines are never dropped, so one that is not there was not called before. -/
theorem System.next_absent {e : Event Id Update Call} (h : sys.next s e = some (s', answers))
    {id : Id} (hid : s'.locals id = none) :
    s.locals id = none ∧ callsOf id [e] = [] ∧ answersOf id answers = [] := by
  cases hl : s.locals id with
  | some l =>
    rw [(System.next_local h hl).1] at hid
    cases hid
  | none =>
    refine ⟨rfl, ?_⟩
    rcases System.next_cases h with
      ⟨change, rfl, rfl, rfl⟩ | ⟨i, rfl, hi, rfl, rfl⟩ | ⟨i, c, l, rfl, hi, rfl, rfl⟩
    · exact ⟨rfl, rfl⟩
    · exact ⟨rfl, rfl⟩
    · have hne : i ≠ id := by
        intro he
        rw [he, hl] at hi
        cases hi
      simp [callsOf, answersOf, hne]

theorem System.run_absent {events : List (Event Id Update Call)}
    (h : sys.run s events = some (s', answers)) {id : Id} (hid : s'.locals id = none) :
    s.locals id = none ∧ callsOf id events = [] ∧ answersOf id answers = [] := by
  induction events generalizing s answers with
  | nil =>
    cases h
    exact ⟨hid, rfl, rfl⟩
  | cons e events ih =>
    obtain ⟨mid, first, rest, hnext, hrest, rfl⟩ := System.run_cons h
    obtain ⟨hmid, hcalls, hanswers⟩ := ih hrest
    obtain ⟨hs, hcall, hfirst⟩ := System.next_absent hnext hmid
    rw [callsOf_cons, answersOf_append, hcall, hfirst, hcalls, hanswers]
    exact ⟨hs, rfl, rfl⟩

/-- In any run a machine answers as it does alone, started from the shared part as it was. -/
theorem System.isolated {before after : List (Event Id Update Call)} {id : Id}
    (h : sys.run s (before ++ .start id :: after) = some (s', answers)) :
    ∃ mid earlier, sys.run s before = some (mid, earlier) ∧
      answersOf id answers =
        (sys.runAlone (sys.start mid.shared) (callsOf id (before ++ .start id :: after))).2 := by
  obtain ⟨mid, earlier, rest, hbefore, hrest, rfl⟩ := System.run_append h
  obtain ⟨started, first, later, hstart, hlater, rfl⟩ := System.run_cons hrest
  refine ⟨mid, earlier, hbefore, ?_⟩
  rcases System.next_cases hstart with ⟨_, he, _, _⟩ | ⟨i, he, hi, rfl, rfl⟩ | ⟨_, _, _, he, _⟩
  · cases he
  · cases he
    obtain ⟨_, hcalls, hanswers⟩ := System.run_absent hbefore hi
    have hown := (System.run_local hlater (Function.update_self id _ _)).2
    have hproject : callsOf id (before ++ .start id :: after) = callsOf id after := by
      unfold callsOf at hcalls ⊢
      rw [List.filterMap_append, hcalls]
      rfl
    rw [answersOf_append, hanswers, hproject]
    exact hown
  · cases he

inductive Event.Alike (R : Call → Call → Prop) : Event Id Update Call → Event Id Update Call → Prop
  | update (change : Update) : Event.Alike R (.update change) (.update change)
  | start (id : Id) : Event.Alike R (.start id) (.start id)
  | call (id : Id) {c c' : Call} (h : R c c') : Event.Alike R (.call id c) (.call id c')

/-- Where a step treats two calls alike, a run goes on as before when one stands for the other. -/
theorem System.run_alike {R : Call → Call → Prop}
    (hstep : ∀ l c c', R c c' → sys.step l c' = sys.step l c)
    {events events' : List (Event Id Update Call)}
    (h : List.Forall₂ (Event.Alike R) events events') (s : State Id Shared Local) :
    sys.run s events' = sys.run s events := by
  induction h generalizing s with
  | nil => rfl
  | @cons e e' events events' head tail ih =>
    have hnext : sys.next s e' = sys.next s e := by
      cases head with
      | update change => rfl
      | start id => rfl
      | call id hc =>
        simp only [System.next]
        simp only [fun l => hstep l _ _ hc]
    unfold System.run
    rw [hnext]
    simp only [ih]

/-- The answers of a run go to its calls one by one, in their order. -/
theorem System.run_answers {events : List (Event Id Update Call)}
    (h : sys.run s events = some (s', answers)) :
    List.Forall₂ (fun call answer => answer.1 = call.1 ∧ ∃ l, answer.2 = (sys.step l call.2).2)
      (calls events) answers := by
  induction events generalizing s answers with
  | nil =>
    cases h
    exact .nil
  | cons e events ih =>
    obtain ⟨mid, first, rest, hnext, hrest, rfl⟩ := System.run_cons h
    rw [calls_cons]
    refine List.rel_append ?_ (ih hrest)
    rcases System.next_cases hnext with
      ⟨_, rfl, rfl, _⟩ | ⟨_, rfl, _, rfl, _⟩ | ⟨i, c, l, rfl, _, rfl, _⟩
    · exact .nil
    · exact .nil
    · exact .cons ⟨rfl, l, rfl⟩ .nil

end Runs
end WafWasm.SharedSnapshots
