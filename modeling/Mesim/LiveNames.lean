import Mathlib.Data.List.Basic
import Mathlib.Logic.Function.Basic

/-!
Names that stand for things, and the things that are live.
Several names may stand for one thing. The live set mirrors the table of names when it
has what some name stands for. A name that comes or goes keeps it so exactly when it
does not take the last name of a thing that stays live, or leave one to a thing that
goes. The comings and goings of one thing alternate along such a run.
-/
namespace LiveNames

section Mirror

variable {Name Thing : Type*}

/-- Live is what some name stands for. -/
def Mirrors (live : Thing → Prop) (names : Name → Option Thing) : Prop :=
  ∀ x, live x ↔ ∃ name, names name = some x

/-- Another name stands for it, too. -/
def Shared (names : Name → Option Thing) (name : Name) (x : Thing) : Prop :=
  ∃ other, other ≠ name ∧ names other = some x

variable [DecidableEq Name] {live : Thing → Prop} {names : Name → Option Thing}

/-- A thing becomes live under a name: what the name stood for needs another one. -/
theorem mirrors_update_iff (h : Mirrors live names) (name : Name) (x : Thing) :
    Mirrors (fun y => y = x ∨ live y) (Function.update names name (some x)) ↔
      ∀ old, names name = some old → old ≠ x → Shared names name old := by
  constructor
  · intro hmirrors old hold hne
    obtain ⟨other, hother⟩ := (hmirrors old).mp (Or.inr ((h old).mpr ⟨name, hold⟩))
    have hname : other ≠ name := by
      rintro rfl
      rw [Function.update_self] at hother
      exact hne (Option.some.inj hother).symm
    rw [Function.update_of_ne hname] at hother
    exact ⟨other, hname, hother⟩
  · intro hshared y
    constructor
    · rintro (rfl | hlive)
      · exact ⟨name, Function.update_self _ _ _⟩
      · obtain ⟨other, hother⟩ := (h y).mp hlive
        by_cases hname : other = name
        · subst hname
          by_cases hy : y = x
          · exact ⟨other, by rw [Function.update_self, hy]⟩
          · obtain ⟨third, hthird, hsame⟩ := hshared y hother hy
            exact ⟨third, by rw [Function.update_of_ne hthird, hsame]⟩
        · exact ⟨other, by rw [Function.update_of_ne hname, hother]⟩
    · rintro ⟨other, hother⟩
      by_cases hname : other = name
      · subst hname
        rw [Function.update_self] at hother
        exact Or.inl (Option.some.inj hother).symm
      · rw [Function.update_of_ne hname] at hother
        exact Or.inr ((h y).mpr ⟨other, hother⟩)

/-- A thing goes with a name of its own: it must be the last one. -/
theorem mirrors_erase_iff (h : Mirrors live names) (name : Name) (x : Thing)
    (hname : names name = some x) :
    Mirrors (fun y => y ≠ x ∧ live y) (Function.update names name none) ↔
      ¬ Shared names name x := by
  constructor
  · rintro hmirrors ⟨other, hother, hsame⟩
    have hgone := (hmirrors x).mpr ⟨other, by rw [Function.update_of_ne hother, hsame]⟩
    exact hgone.1 rfl
  · intro hlast y
    constructor
    · rintro ⟨hne, hlive⟩
      obtain ⟨other, hother⟩ := (h y).mp hlive
      have hne' : other ≠ name := by
        rintro rfl
        exact hne (Option.some.inj (hother.symm.trans hname))
      exact ⟨other, by rw [Function.update_of_ne hne', hother]⟩
    · rintro ⟨other, hother⟩
      have hne : other ≠ name := by
        rintro rfl
        rw [Function.update_self] at hother
        cases hother
      rw [Function.update_of_ne hne] at hother
      refine ⟨?_, (h y).mpr ⟨other, hother⟩⟩
      rintro rfl
      exact hlast ⟨other, hne, hother⟩

end Mirror

section Alternation

/-- By turns, from this one on. -/
def Alternates : Bool → List Bool → Prop
  | _, [] => True
  | turn, b :: rest => b = turn ∧ Alternates (!turn) rest

/-- Whose turn it is after the list. -/
def turnAfter : Bool → List Bool → Bool
  | turn, [] => turn
  | turn, _ :: rest => turnAfter (!turn) rest

theorem alternates_concat (turn : Bool) (l : List Bool) (b : Bool) :
    Alternates turn (l ++ [b]) ↔ Alternates turn l ∧ b = turnAfter turn l := by
  induction l generalizing turn with
  | nil =>
    rw [List.nil_append, Alternates, Alternates, turnAfter]
    simp only [Alternates, and_true, true_and]
  | cons c rest ih => rw [List.cons_append, Alternates, ih, Alternates, turnAfter, and_assoc]

theorem turnAfter_concat (turn : Bool) (l : List Bool) (b : Bool) :
    turnAfter turn (l ++ [b]) = !turnAfter turn l := by
  induction l generalizing turn with
  | nil => rfl
  | cons c rest ih => rw [List.cons_append, turnAfter, ih, turnAfter]

end Alternation

end LiveNames
