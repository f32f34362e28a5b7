import Mathlib.Tactic.Basic

/-!
Which exceptions a computation may raise.
A sequence of steps raises only allowed ones exactly when its first step does and, for
whatever that step returns, the rest does. So what a whole program needs of its input is
read off its text, step by step.
-/
namespace Exceptions

universe u

variable {ε : Type*} {α β : Type u} {allowed : ε → Prop}

def RaisesOnly (allowed : ε → Prop) (x : Except ε α) : Prop := ∀ e, x = .error e → allowed e

@[simp] theorem raisesOnly_ok (a : α) : RaisesOnly allowed (.ok a) := by
  intro e h
  cases h

@[simp] theorem raisesOnly_error (e : ε) :
    RaisesOnly allowed (.error e : Except ε α) ↔ allowed e := by
  constructor
  · intro h
    exact h e rfl
  · intro h e' heq
    cases heq
    exact h

theorem raisesOnly_pure (a : α) : RaisesOnly allowed (pure a : Except ε α) := raisesOnly_ok a

/-- What the rest needs it needs only for what the first step returns. -/
theorem raisesOnly_bind {x : Except ε α} {f : α → Except ε β} :
    RaisesOnly allowed (x >>= f) ↔
      RaisesOnly allowed x ∧ ∀ a, x = .ok a → RaisesOnly allowed (f a) := by
  cases x with
  | error e =>
    have hraised : RaisesOnly allowed (Except.error e >>= f) ↔ allowed e := raisesOnly_error e
    rw [hraised, raisesOnly_error]
    refine (and_iff_left fun a ha => ?_).symm
    cases ha
  | ok a =>
    constructor
    · intro h
      refine ⟨raisesOnly_ok a, fun a' ha => ?_⟩
      cases ha
      exact h
    · intro h
      exact h.2 a rfl

/-- A step that is safe by itself leaves what the rest needs. -/
theorem RaisesOnly.bind_iff {x : Except ε α} {f : α → Except ε β} (h : RaisesOnly allowed x) :
    RaisesOnly allowed (x >>= f) ↔ ∀ a, x = .ok a → RaisesOnly allowed (f a) := by
  rw [raisesOnly_bind]
  exact and_iff_right h

/-- A check that raises leaves the rest to the inputs that pass it. -/
theorem raisesOnly_check {c : Prop} [Decidable c] {e : ε} {f : PUnit → Except ε α}
    {rest : Except ε α} :
    RaisesOnly allowed (if c then throw e >>= f else rest) ↔
      (c → allowed e) ∧ (¬ c → RaisesOnly allowed rest) := by
  by_cases hc : c
  · have hraised : RaisesOnly allowed (throw e >>= f) ↔ allowed e := raisesOnly_error e
    rw [if_pos hc, hraised]
    exact ⟨fun h => ⟨fun _ => h, fun hnot => absurd hc hnot⟩, fun h => h.1 hc⟩
  · rw [if_neg hc]
    exact ⟨fun h => ⟨fun hyes => absurd hyes hc, fun _ => h⟩, fun h => h.2 hc⟩

end Exceptions
