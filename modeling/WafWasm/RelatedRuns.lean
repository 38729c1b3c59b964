import Mathlib.Data.List.Basic
import Mathlib.Data.Sum.Basic
import WafWasm.CheckedMemory

set_option autoImplicit false

namespace WafWasm.RelatedRuns
open CheckedMemory
variable {α β γ δ σ τ : Type}

section Alike

def Alike (f : α → β) (xs ys : List α) : Prop := xs.map f = ys.map f

/-- The function does not tell apart what `f` does not. -/
def Respects (f : α → β) (g : α → γ) : Prop := ∀ a b, f a = f b → g a = g b

variable {f : α → β} {xs ys vs ws : List α}

theorem Alike.length (h : Alike f xs ys) : xs.length = ys.length := by
  have hlength := congrArg List.length h
  rwa [List.length_map, List.length_map] at hlength

theorem Alike.take (h : Alike f xs ys) (n : ℕ) : Alike f (xs.take n) (ys.take n) := by
  rw [Alike, List.map_take, List.map_take]
  exact congrArg (List.take n) h

theorem Alike.drop (h : Alike f xs ys) (n : ℕ) : Alike f (xs.drop n) (ys.drop n) := by
  rw [Alike, List.map_drop, List.map_drop]
  exact congrArg (List.drop n) h

theorem Alike.append (h : Alike f xs ys) (h' : Alike f vs ws) :
    Alike f (xs ++ vs) (ys ++ ws) := by
  rw [Alike, List.map_append, List.map_append]
  exact congrArg₂ (· ++ ·) h h'

theorem Alike.reverse (h : Alike f xs ys) : Alike f xs.reverse ys.reverse := by
  rw [Alike, List.map_reverse, List.map_reverse]
  exact congrArg List.reverse h

theorem Alike.set (h : Alike f xs ys) {a b : α} (hab : f a = f b) (i : ℕ) :
    Alike f (xs.set i a) (ys.set i b) := by
  rw [Alike, List.map_set, List.map_set, hab]
  exact congrArg (List.set · i (f b)) h

theorem Alike.getElem (h : Alike f xs ys) {i : ℕ} {a b : α} (ha : xs[i]? = some a)
    (hb : ys[i]? = some b) : f a = f b := by
  have hget := congrArg (fun zs : List β => zs[i]?) h
  simp only [List.getElem?_map, ha, hb, Option.map_some] at hget
  exact Option.some.inj hget

theorem Alike.map (h : Alike f xs ys) {g : α → γ} (hg : Respects f g) : xs.map g = ys.map g := by
  induction xs generalizing ys with
  | nil => rw [List.map_eq_nil_iff.mp h.symm]
  | cons a xs ih =>
    cases ys with
    | nil => cases h
    | cons b ys =>
      obtain ⟨hab, htail⟩ := List.cons.inj h
      rw [List.map_cons, List.map_cons, hg a b hab, ih htail]

theorem Alike.takeWhile (h : Alike f xs ys) {p : α → Bool} (hp : Respects f p) :
    Alike f (xs.takeWhile p) (ys.takeWhile p) := by
  induction xs generalizing ys with
  | nil =>
    rw [List.map_eq_nil_iff.mp h.symm]
    rfl
  | cons a xs ih =>
    cases ys with
    | nil => cases h
    | cons b ys =>
      obtain ⟨hab, htail⟩ := List.cons.inj h
      rw [List.takeWhile_cons, List.takeWhile_cons, hp a b hab]
      split_ifs
      · exact congrArg₂ List.cons hab (ih htail)
      · rfl

theorem Alike.findIdx (h : Alike f xs ys) {p : α → Bool} (hp : Respects f p) :
    xs.findIdx? p = ys.findIdx? p := by
  have hmap := h.map hp
  have hsame : ∀ zs : List α, zs.findIdx? p = (zs.map p).findIdx? id := by
    intro zs
    rw [List.findIdx?_map]
    rfl
  rw [hsame, hsame, hmap]

end Alike

section Sequences
variable {R : α → β → Prop} {S : γ → δ → Prop} {x x' : Checked α} {y y' : Checked β}

def Related (R : α → β → Prop) (x : Checked α) (y : Checked β) : Prop :=
  ∀ a b, x = .ok a → y = .ok b → R a b

theorem related_pure {a : α} {b : β} (h : R a b) :
    Related R (pure a : Checked α) (pure b : Checked β) := by
  rintro _ _ ⟨⟩ ⟨⟩
  exact h

theorem related_self (x : Checked α) : Related Eq x x := by
  intro a b ha hb
  rw [ha] at hb
  exact Except.ok.inj hb

theorem Related.imp (h : Related R x y) {R' : α → β → Prop} (hR : ∀ a b, R a b → R' a b) :
    Related R' x y :=
  fun a b ha hb => hR a b (h a b ha hb)

theorem Related.bind {k : α → Checked γ} {l : β → Checked δ} (h : Related R x y)
    (hk : ∀ a b, R a b → Related S (k a) (l b)) : Related S (x >>= k) (y >>= l) := by
  intro c d hc hd
  cases hx : x with
  | error fault =>
    rw [hx] at hc
    cases hc
  | ok a =>
    cases hy : y with
    | error fault =>
      rw [hy] at hd
      cases hd
    | ok b =>
      rw [hx] at hc
      rw [hy] at hd
      exact hk a b (h a b hx hy) c d hc hd

theorem related_ite {c d : Prop} [Decidable c] [Decidable d] (hcd : c ↔ d)
    (hx : c → d → Related R x y) (hy : ¬c → ¬d → Related R x' y') :
    Related R (if c then x else x') (if d then y else y') := by
  by_cases hc : c
  · rw [if_pos hc, if_pos (hcd.mp hc)]
    exact hx hc (hcd.mp hc)
  · rw [if_neg hc, if_neg (mt hcd.mpr hc)]
    exact hy hc (mt hcd.mpr hc)

theorem Related.and {P : α → Prop} (h : Related R x y) (hx : Holds x P) :
    Related (fun a b => R a b ∧ P a) x y :=
  fun a b ha hb => ⟨h a b ha hb, ok_of_holds hx ha⟩

end Sequences

section Accesses
variable {f : α → β} {xs ys vs ws : List α} {i : ℕ}

theorem eq_of_readAt {a : α} (h : readAt xs i = .ok a) : xs[i]? = some a := by
  unfold readAt at h
  cases hget : xs[i]? with
  | none =>
    rw [hget] at h
    cases h
  | some b =>
    rw [hget] at h
    exact congrArg some (Except.ok.inj h)

theorem related_readAt (h : Alike f xs ys) :
    Related (fun a b => f a = f b) (readAt xs i) (readAt ys i) :=
  fun _ _ ha hb => h.getElem (eq_of_readAt ha) (eq_of_readAt hb)

theorem related_writeAt (h : Alike f xs ys) {a b : α} (hab : f a = f b) :
    Related (Alike f) (writeAt xs i a) (writeAt ys i b) := by
  have hlength := h.length
  exact related_ite (by omega) (fun _ _ => related_pure (h.set hab i))
    fun _ _ _ _ ha _ => nomatch ha

theorem related_slice {j n : ℕ} (h : Alike f (xs.drop i) (ys.drop j)) :
    Related (Alike f) (slice xs i n) (slice ys j n) := by
  intro v w hv hw
  unfold slice at hv hw
  split_ifs at hv hw
  cases hv
  cases hw
  exact h.take n

theorem related_copyTo (h : Alike f xs ys) (h' : Alike f vs ws) :
    Related (Alike f) (copyTo xs i vs) (copyTo ys i ws) := by
  have hlength := h.length
  have hlength' := h'.length
  refine related_ite (by omega) (fun _ _ => related_pure ?_) fun _ _ _ _ ha _ => nomatch ha
  rw [hlength']
  exact ((h.take i).append h').append (h.drop _)

theorem related_minus {a b a' b' : ℕ} (h : a + b' = a' + b) :
    Related Eq (minus a b) (minus a' b') := by
  intro m n hm hn
  unfold minus at hm hn
  split_ifs at hm hn
  cases hm
  cases hn
  omega

theorem related_require {c d : Prop} [Decidable c] [Decidable d] :
    Related Eq (require c) (require d) := fun _ _ _ _ => rfl

end Accesses

section Loops
variable {turn : σ → Checked (σ ⊕ α)} {turn' : τ → Checked (τ ⊕ β)} {I : σ → τ → Prop}
  {R : α → β → Prop}

theorem related_loop (h : ∀ s t, I s t → Related (Sum.LiftRel I R) (turn s) (turn' t)) {n m : ℕ}
    {s : σ} {t : τ} (hst : I s t) : Related R (loop turn n s) (loop turn' m t) := by
  induction n generalizing m s t with
  | zero => exact fun _ _ ha _ => nomatch ha
  | succ n ih =>
    cases m with
    | zero => exact fun _ _ _ hb => nomatch hb
    | succ m =>
      rw [loop, loop]
      refine (h s t hst).bind fun r r' hr => ?_
      cases hr with
      | inl hnext => exact ih hnext
      | inr hab => exact related_pure hab

end Loops
end WafWasm.RelatedRuns
