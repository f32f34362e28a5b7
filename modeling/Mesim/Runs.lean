import Mathlib.Data.List.Basic
import Mathlib.Data.List.Induction
import Mathlib.Order.Basic

/-!
Runs of a labelled deterministic system, given by its step function.
A guard restricts which steps a run may take; an invariant that every guarded
step preserves holds after every guarded run. Steps that are not enabled are
modelled by a step function that leaves the state alone.
-/
namespace Runs

variable {State Label : Type*} (step : State → Label → State)

def run (s : State) (labels : List Label) : State := labels.foldl step s

/-- Every step of the run from `s` meets the guard in the state it is taken in. -/
def Always (guard : State → Label → Prop) : State → List Label → Prop
  | _, [] => True
  | s, l :: rest => guard s l ∧ Always guard (step s l) rest

def Reachable (initial : State → Prop) (s : State) : Prop :=
  ∃ s₀ labels, initial s₀ ∧ run step s₀ labels = s

/-- The steps of a run, each with the state it is taken in. -/
def visits : State → List Label → List (State × Label)
  | _, [] => []
  | s, l :: rest => (s, l) :: visits (step s l) rest

/-- The stamps of the steps of a run in order, each as often as its step counts. -/
def stamps {α : Type*} (count : State → Label → ℕ) (stamp : Label → α) (s : State)
    (labels : List Label) : List α :=
  (visits step s labels).flatMap fun visit => List.replicate (count visit.1 visit.2) (stamp visit.2)

/-- A value that the steps of a run hand on, each changing it as it may. -/
def Handed {X : Type*} (carry : State × Label → X → X → Prop) : List (State × Label) → X → X → Prop
  | [], x, y => x = y
  | visit :: rest, x, y => ∃ z, carry visit x z ∧ Handed carry rest z y

@[simp] theorem run_nil (s : State) : run step s [] = s := rfl

@[simp] theorem run_cons (s : State) (l : Label) (rest : List Label) :
    run step s (l :: rest) = run step (step s l) rest := rfl

theorem run_append (s : State) (ls ms : List Label) :
    run step s (ls ++ ms) = run step (run step s ls) ms :=
  List.foldl_append

theorem run_concat (s : State) (ls : List Label) (l : Label) :
    run step s (ls ++ [l]) = step (run step s ls) l := by
  rw [run_append]
  rfl

theorem visits_append (s : State) (ls ms : List Label) :
    visits step s (ls ++ ms) = visits step s ls ++ visits step (run step s ls) ms := by
  induction ls generalizing s with
  | nil => rfl
  | cons l rest ih =>
    rw [List.cons_append, visits, visits, ih, List.cons_append, run_cons]

theorem visits_concat (s : State) (ls : List Label) (l : Label) :
    visits step s (ls ++ [l]) = visits step s ls ++ [(run step s ls, l)] := by
  rw [visits_append]
  rfl

theorem label_mem_of_mem_visits {s : State} {labels : List Label} {visit : State × Label}
    (h : visit ∈ visits step s labels) : visit.2 ∈ labels := by
  induction labels generalizing s with
  | nil => exact absurd h List.not_mem_nil
  | cons l rest ih =>
    rcases List.mem_cons.mp h with rfl | hrest
    · exact List.mem_cons_self
    · exact List.mem_cons_of_mem l (ih hrest)

/-- The last step adds its own stamps. -/
theorem stamps_concat {α : Type*} (count : State → Label → ℕ) (stamp : Label → α) (s : State)
    (ls : List Label) (l : Label) :
    stamps step count stamp s (ls ++ [l]) =
      stamps step count stamp s ls ++ List.replicate (count (run step s ls) l) (stamp l) := by
  rw [stamps, visits_concat, List.flatMap_append, List.flatMap_singleton]
  rfl

variable {step}

/-- A guard holds along a run when it holds at every step of it. -/
theorem always_iff {guard : State → Label → Prop} (s : State) (labels : List Label) :
    Always step guard s labels ↔
      ∀ done l, done ++ [l] <+: labels → guard (run step s done) l := by
  induction labels generalizing s with
  | nil =>
    refine iff_of_true trivial fun done l hdone => ?_
    exact absurd (List.prefix_nil.mp hdone) (by simp)
  | cons m rest ih =>
    constructor
    · rintro ⟨hguard, hrest⟩ done l hdone
      cases done with
      | nil =>
        cases (List.cons_prefix_cons.mp hdone).1
        exact hguard
      | cons m' done =>
        obtain ⟨rfl, htail⟩ := List.cons_prefix_cons.mp hdone
        exact (ih _).mp hrest done l htail
    · intro h
      refine ⟨h [] m (by simp), (ih _).mpr fun done l hdone => ?_⟩
      exact h (m :: done) l (List.cons_prefix_cons.mpr ⟨rfl, hdone⟩)

theorem Reachable.of_initial {initial : State → Prop} {s : State} (h : initial s) :
    Reachable step initial s := ⟨s, [], h, rfl⟩

/-- Whatever a reachable state runs to is reachable. -/
theorem Reachable.run {initial : State → Prop} {s : State} (h : Reachable step initial s)
    (labels : List Label) : Reachable step initial (Runs.run step s labels) := by
  obtain ⟨s₀, before, h₀, rfl⟩ := h
  exact ⟨s₀, before ++ labels, h₀, run_append step s₀ before labels⟩

theorem Reachable.next {initial : State → Prop} {s : State} (h : Reachable step initial s)
    (l : Label) : Reachable step initial (step s l) := h.run [l]

/-- The invariant rule: preserved by guarded steps, so true after guarded runs. -/
theorem invariant {guard : State → Label → Prop} {I : State → Prop}
    (hstep : ∀ s l, I s → guard s l → I (step s l)) (s : State) (labels : List Label)
    (hs : I s) (hguard : Always step guard s labels) : I (run step s labels) := by
  induction labels generalizing s with
  | nil => exact hs
  | cons l rest ih => exact ih (step s l) (hstep s l hs hguard.1) hguard.2

/-- When the guard is exactly what one step needs, it is exactly what every prefix of
a run needs. -/
theorem invariant_prefixes_iff {guard : State → Label → Prop} {I : State → Prop}
    (hstep : ∀ s l, I s → (I (step s l) ↔ guard s l)) (s : State) (labels : List Label)
    (hs : I s) :
    (∀ done, done <+: labels → I (run step s done)) ↔ Always step guard s labels := by
  induction labels generalizing s with
  | nil =>
    refine ⟨fun _ => trivial, fun _ done hdone => ?_⟩
    rw [List.prefix_nil.mp hdone]
    exact hs
  | cons l rest ih =>
    constructor
    · intro h
      have hnext : I (step s l) := h [l] (by simp)
      refine ⟨(hstep s l hs).mp hnext, (ih _ hnext).mp (fun done hdone => ?_)⟩
      exact h (l :: done) (List.cons_prefix_cons.mpr ⟨rfl, hdone⟩)
    · rintro ⟨hguard, hrest⟩ done hdone
      rcases List.prefix_cons_iff.mp hdone with rfl | ⟨done, rfl, hrestDone⟩
      · exact hs
      · exact (ih _ ((hstep s l hs).mpr hguard)).mpr hrest done hrestDone

/-- Two guards that agree where the invariant holds, of which one preserves it, allow the
same runs. -/
theorem always_congr {guard guard' : State → Label → Prop} {I : State → Prop}
    (hguard : ∀ s l, I s → (guard s l ↔ guard' s l))
    (hstep : ∀ s l, I s → guard' s l → I (step s l)) (s : State) (labels : List Label) (hs : I s) :
    Always step guard s labels ↔ Always step guard' s labels := by
  induction labels generalizing s with
  | nil => exact Iff.rfl
  | cons l rest ih =>
    constructor
    · rintro ⟨hl, hrest⟩
      have hl' := (hguard s l hs).mp hl
      exact ⟨hl', (ih _ (hstep s l hs hl')).mp hrest⟩
    · rintro ⟨hl', hrest⟩
      exact ⟨(hguard s l hs).mpr hl', (ih _ (hstep s l hs hl')).mpr hrest⟩

theorem invariant_of_step {I : State → Prop} (hstep : ∀ s l, I s → I (step s l)) (s : State)
    (labels : List Label) (hs : I s) : I (run step s labels) := by
  induction labels generalizing s with
  | nil => exact hs
  | cons l rest ih => exact ih (step s l) (hstep s l hs)

/-- A relation that hidden labels preserve on the left alone, and the others on both sides,
relates a run to the same run without its hidden labels. -/
theorem related_filter {R : State → State → Prop} {visible : Label → Bool} (s s' : State)
    (labels : List Label)
    (hboth : ∀ s s' l, l ∈ labels → visible l = true → R s s' → R (step s l) (step s' l))
    (hhidden : ∀ s s' l, l ∈ labels → visible l = false → R s s' → R (step s l) s') (h : R s s') :
    R (run step s labels) (run step s' (labels.filter visible)) := by
  induction labels generalizing s s' with
  | nil => exact h
  | cons l rest ih =>
    have hrest := fun s s' => ih s s' (fun s s' m hm => hboth s s' m (List.mem_cons_of_mem l hm))
      fun s s' m hm => hhidden s s' m (List.mem_cons_of_mem l hm)
    cases hl : visible l with
    | true =>
      rw [List.filter_cons_of_pos hl]
      exact hrest _ _ (hboth s s' l List.mem_cons_self hl h)
    | false =>
      rw [List.filter_cons_of_neg (by simp [hl])]
      exact hrest _ _ (hhidden s s' l List.mem_cons_self hl h)

/-- No stamps from a state whose invariant keeps the counts at zero. -/
theorem stamps_eq_nil {α : Type*} {count : State → Label → ℕ} {stamp : Label → α}
    {I : State → Prop} (hstep : ∀ s l, I s → I (step s l)) (hcount : ∀ s l, I s → count s l = 0)
    (s : State) (labels : List Label) (hs : I s) : stamps step count stamp s labels = [] := by
  induction labels generalizing s with
  | nil => rfl
  | cons l rest ih =>
    have hrest := ih (step s l) (hstep s l hs)
    rw [stamps] at hrest ⊢
    rw [visits, List.flatMap_cons, hcount s l hs, hrest]
    rfl

theorem reachable_invariant {initial I : State → Prop} (hinit : ∀ s, initial s → I s)
    (hstep : ∀ s l, I s → I (step s l)) {s : State} (h : Reachable step initial s) : I s := by
  obtain ⟨s₀, labels, h₀, rfl⟩ := h
  exact invariant_of_step hstep s₀ labels (hinit s₀ h₀)

/-- What the steps of a run report is strictly increasing when no report lies below a mark
that never falls and every report lifts the mark above itself. -/
theorem pairwise_lt_visits {α : Type*} [Preorder α] {mark : State → α}
    {report : State × Label → Option α} (hmono : ∀ s l, mark s ≤ mark (step s l))
    (hreport : ∀ s l n, report (s, l) = some n → mark s ≤ n ∧ n < mark (step s l)) (s : State)
    (labels : List Label) :
    ((visits step s labels).filterMap report).Pairwise (· < ·) ∧
      ∀ n ∈ (visits step s labels).filterMap report, mark s ≤ n := by
  induction labels generalizing s with
  | nil => exact ⟨List.Pairwise.nil, fun n hn => absurd hn List.not_mem_nil⟩
  | cons l rest ih =>
    obtain ⟨hsorted, habove⟩ := ih (step s l)
    rw [visits]
    cases hnone : report (s, l) with
    | none =>
      rw [List.filterMap_cons_none hnone]
      exact ⟨hsorted, fun n hn => (hmono s l).trans (habove n hn)⟩
    | some m =>
      obtain ⟨hle, hlt⟩ := hreport s l m hnone
      rw [List.filterMap_cons_some hnone, List.pairwise_cons]
      refine ⟨⟨fun n hn => hlt.trans_le (habove n hn), hsorted⟩, fun n hn => ?_⟩
      rcases List.mem_cons.mp hn with rfl | hn
      · exact hle
      · exact (hmono s l).trans (habove n hn)

theorem Handed.concat {X : Type*} {carry : State × Label → X → X → Prop}
    {visits : List (State × Label)} {visit : State × Label} {x y z : X}
    (h : Handed carry visits x y) (hlast : carry visit y z) :
    Handed carry (visits ++ [visit]) x z := by
  induction visits generalizing x with
  | nil => exact ⟨z, h ▸ hlast, rfl⟩
  | cons first rest ih =>
    obtain ⟨w, hfirst, hrest⟩ := h
    exact ⟨w, hfirst, ih hrest⟩

/-- What a run ends with, if it was not there at first, came into being at some step and was
handed on by all later ones. -/
theorem exists_epoch {X : Type*} {I : State → Prop} (look : State → Option X)
    {opens : State × Label → X → Prop} {carry : State × Label → X → X → Prop}
    (hinv : ∀ s l, I s → I (step s l))
    (hstep : ∀ s l x, I s → look (step s l) = some x →
      opens (s, l) x ∨ ∃ x₀, look s = some x₀ ∧ carry (s, l) x₀ x)
    (s : State) (hs : I s) (hnone : look s = none) (labels : List Label) (x : X)
    (h : look (run step s labels) = some x) : ∃ before l after x₀,
      labels = before ++ l :: after ∧ opens (run step s before, l) x₀ ∧
      Handed carry (visits step (run step s (before ++ [l])) after) x₀ x := by
  induction labels using List.reverseRecOn generalizing x with
  | nil =>
    rw [run_nil, hnone] at h
    contradiction
  | append_singleton done l ih =>
    rw [run_concat] at h
    rcases hstep _ l x (invariant_of_step hinv s done hs) h with hopens | ⟨x₀, hlook, hcarry⟩
    · exact ⟨done, l, [], x, rfl, hopens, rfl⟩
    · obtain ⟨before, first, after, x₁, rfl, hopens, hhanded⟩ := ih x₀ hlook
      refine ⟨before, first, after ++ [l], x₁, by simp, hopens, ?_⟩
      rw [visits_concat]
      refine hhanded.concat ?_
      rw [← run_append, List.append_assoc]
      exact hcarry

end Runs
