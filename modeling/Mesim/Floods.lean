import Mathlib
import Mesim.Runs

/-!
Flooding a finite graph.
An announcement that has come to depth `n` has passed `n` different nodes, so
with a budget of all nodes but two the last node that may not pass it on has
nobody left to tell. A measure that every change raises bounds the changes of a
run, so a run has a point after which nothing changes.
-/
namespace Floods

section Trails

variable {N : Type*} {origin : N} {reached reached' : N → Prop} {depth : ℕ} {S : Finset N}

/-- The nodes that an announcement has passed on its way to the given depth. -/
structure Trail (origin : N) (reached : N → Prop) (depth : ℕ) (S : Finset N) : Prop where
  away : origin ∉ S
  reached : ∀ i ∈ S, reached i
  card : S.card = depth

theorem Trail.mono (h : Trail origin reached depth S) (hmono : ∀ i, reached i → reached' i) :
    Trail origin reached' depth S :=
  ⟨h.away, fun i hi => hmono i (h.reached i hi), h.card⟩

theorem trail_empty (origin : N) (reached : N → Prop) : Trail origin reached 0 ∅ :=
  ⟨by simp, by simp, rfl⟩

/-- A node that was not reached before lengthens the trail. -/
theorem Trail.extend [DecidableEq N] (h : Trail origin reached depth S) {i : N} (hi : ¬ reached i)
    (hne : i ≠ origin) (hmono : ∀ j, reached j → reached' j) (hreached : reached' i) :
    Trail origin reached' (depth + 1) (insert i S) where
  away hmem := by
    rcases Finset.mem_insert.mp hmem with heq | hold
    · exact hne heq.symm
    · exact h.away hold
  reached j hj := by
    rcases Finset.mem_insert.mp hj with rfl | hold
    · exact hreached
    · exact hmono j (h.reached j hold)
  card := by rw [Finset.card_insert_of_notMem fun hmem => hi (h.reached i hmem), h.card]

variable [Fintype N]

theorem Trail.depth_lt (h : Trail origin reached depth S) : depth < Fintype.card N := by
  rw [← h.card, ← Finset.card_univ]
  exact Finset.card_lt_card (Finset.ssubset_univ_iff.mpr fun heq =>
    h.away (by rw [heq]; exact Finset.mem_univ origin))

/-- A trail of all nodes but one has passed every other node. -/
theorem Trail.all [DecidableEq N] (h : Trail origin reached depth S)
    (hdepth : Fintype.card N ≤ depth + 1) {i : N} (hi : i ≠ origin) : reached i := by
  have hcard : (insert origin S).card = depth + 1 := by
    rw [Finset.card_insert_of_notMem h.away, h.card]
  have huniv : insert origin S = Finset.univ := by
    refine Finset.eq_univ_of_card _ ?_
    have hle : (insert origin S).card ≤ Fintype.card N := Finset.card_le_univ _
    omega
  have hmem : i ∈ insert origin S := by
    rw [huniv]
    exact Finset.mem_univ i
  exact h.reached i ((Finset.mem_insert.mp hmem).resolve_left hi)

/-- Where the origin and all nodes within the budget have told their neighbours, every node
that the origin is connected to has been reached. -/
theorem covers [DecidableEq N] (reached : N → Prop) {link : N → N → Prop} {budget : ℕ}
    (hbudget : Fintype.card N ≤ budget + 2)
    (horigin : ∀ k, link origin k → k = origin ∨ reached k)
    (htold : ∀ i, i ≠ origin → reached i → ∃ depth S, Trail origin reached depth S ∧
      (depth ≤ budget → ∀ k, link i k → k = origin ∨ reached k))
    {i : N} (hpath : Relation.ReflTransGen link origin i) : i = origin ∨ reached i := by
  induction hpath with
  | refl => exact Or.inl rfl
  | @tail j k _ hlink ih =>
    by_cases hj : j = origin
    · subst j
      exact horigin k hlink
    · obtain ⟨depth, S, htrail, htold⟩ := htold j hj (ih.resolve_left hj)
      by_cases hdepth : depth ≤ budget
      · exact htold hdepth k hlink
      · -- beyond the budget the trail has passed every node already
        refine or_iff_not_imp_left.mpr fun hk => htrail.all ?_ hk
        omega

end Trails

section Settling

variable {State Label : Type*} {step : State → Label → State} {measure : State → ℕ}

/-- The steps of a run that change the state. -/
noncomputable def changes (step : State → Label → State) (s : State) (labels : List Label) : ℕ :=
  open Classical in
  ((Runs.visits step s labels).filter fun visit => step visit.1 visit.2 ≠ visit.1).length

/-- Every change raises the measure, so the measure bounds the changes. -/
theorem changes_le {I : State → Prop} (hstep : ∀ s l, I s → I (step s l))
    (hraise : ∀ s l, I s → step s l ≠ s → measure s < measure (step s l)) (s : State)
    (labels : List Label) (hs : I s) :
    changes step s labels + measure s ≤ measure (Runs.run step s labels) := by
  classical
  induction labels generalizing s with
  | nil => simp [changes, Runs.visits]
  | cons l rest ih =>
    have hrest := ih (step s l) (hstep s l hs)
    rw [changes] at hrest ⊢
    rw [Runs.visits, Runs.run_cons]
    by_cases hsame : step s l = s
    · rw [List.filter_cons_of_neg (by simpa using hsame)]
      rw [hsame] at hrest ⊢
      exact hrest
    · have hlt := hraise s l hs hsame
      rw [List.filter_cons_of_pos (by simpa using hsame), List.length_cons]
      omega

/-- Where every step pays its cost out of the measure, so does a run. -/
theorem cost_add_le (measure : State → ℕ) {cost : State × Label → ℕ}
    (hpay : ∀ s l, cost (s, l) + measure (step s l) ≤ measure s) (s : State) (labels : List Label) :
    ((Runs.visits step s labels).map cost).sum + measure (Runs.run step s labels) ≤ measure s := by
  induction labels generalizing s with
  | nil => simp [Runs.visits]
  | cons l rest ih =>
    have hrest := ih (step s l)
    have hfirst := hpay s l
    rw [Runs.visits, Runs.run_cons, List.map_cons, List.sum_cons]
    omega

/-- With the measure bounded, some run ends where no step changes anything. -/
theorem exists_settled {I : State → Prop} (hstep : ∀ s l, I s → I (step s l))
    (hraise : ∀ s l, I s → step s l ≠ s → measure s < measure (step s l)) {bound : ℕ}
    (hbound : ∀ s, I s → measure s ≤ bound) (s : State) (hs : I s) :
    ∃ labels, ∀ l, step (Runs.run step s labels) l = Runs.run step s labels := by
  induction hgap : bound - measure s using Nat.strong_induction_on generalizing s with
  | _ gap ih =>
    by_cases hsettled : ∀ l, step s l = s
    · exact ⟨[], hsettled⟩
    · obtain ⟨l, hl⟩ := not_forall.mp hsettled
      have hlt := hraise s l hs hl
      have hle := hbound _ (hstep s l hs)
      obtain ⟨labels, hlabels⟩ := ih _ (by omega) (step s l) (hstep s l hs) rfl
      exact ⟨l :: labels, hlabels⟩

end Settling

end Floods
