import Mathlib.Data.Finset.Insert

/-!
Collecting a fixed set over and over.
A collector keeps the items it has received. When the last one of the full set
arrives it fires and forgets everything. It fires at most once on a sequence
exactly when the sequence cannot be cut into two parts that both contain every
item of the set.
-/
namespace Collector

variable {α : Type*} [DecidableEq α]

/-- What is kept after one more item. -/
def collect (full kept : Finset α) (x : α) : Finset α :=
  if insert x kept = full then ∅ else insert x kept

/-- How often the collector fires. -/
def firings (full : Finset α) : Finset α → List α → ℕ
  | _, [] => 0
  | kept, x :: rest =>
    (if insert x kept = full then 1 else 0) + firings full (collect full kept x) rest

def Covers (full : Finset α) (l : List α) : Prop := ∀ x ∈ full, x ∈ l

theorem collect_subset {full kept : Finset α} {x : α} (hkept : kept ⊆ full) (hx : x ∈ full) :
    collect full kept x ⊆ full := by
  unfold collect
  split
  · exact Finset.empty_subset full
  · exact Finset.insert_subset hx hkept

theorem eq_of_subset_of_cover {full kept : Finset α} {x : α} (hkept : kept ⊆ full) (hx : x ∈ full)
    (h : ∀ y ∈ full, y ∈ kept ∨ y = x) : insert x kept = full := by
  apply Finset.Subset.antisymm (Finset.insert_subset hx hkept)
  intro y hy
  rcases h y hy with hmem | rfl
  · exact Finset.mem_insert_of_mem hmem
  · exact Finset.mem_insert_self y kept

/-- The collector fires on a sequence that brings everything it has not kept yet, and
nothing it has received by then counts for the next time. -/
theorem firings_of_cover {full : Finset α} (l m : List α) (kept : Finset α)
    (hkept : kept ⊆ full) (hne : kept ≠ full) (hl : ∀ x ∈ l, x ∈ full)
    (hcover : ∀ x ∈ full, x ∈ kept ∨ x ∈ l) :
    ∃ rest, rest <:+ l ∧ firings full kept (l ++ m) = 1 + firings full ∅ (rest ++ m) := by
  induction l generalizing kept with
  | nil =>
    refine absurd (Finset.Subset.antisymm hkept fun x hx => ?_) hne
    exact (hcover x hx).resolve_right (List.not_mem_nil)
  | cons x l ih =>
    by_cases hfire : insert x kept = full
    · refine ⟨l, List.suffix_cons x l, ?_⟩
      simp only [List.cons_append, firings, collect, hfire, if_true]
    · obtain ⟨rest, hrest, heq⟩ := ih (insert x kept)
        (Finset.insert_subset (hl x List.mem_cons_self) hkept) hfire
        (fun y hy => hl y (List.mem_cons_of_mem x hy)) (fun y hy => by
          rcases hcover y hy with hmem | hmem
          · exact Or.inl (Finset.mem_insert_of_mem hmem)
          · rcases List.mem_cons.mp hmem with rfl | hmem
            · exact Or.inl (Finset.mem_insert_self y kept)
            · exact Or.inr hmem)
      refine ⟨rest, hrest.trans (List.suffix_cons x l), ?_⟩
      simp only [List.cons_append, firings, collect, if_neg hfire, Nat.zero_add]
      exact heq

/-- Where the collector fires, everything it had not kept has arrived. -/
theorem exists_first_firing {full : Finset α} (l : List α) (kept : Finset α)
    (hfire : 0 < firings full kept l) :
    ∃ l₁ l₂, l = l₁ ++ l₂ ∧ (∀ x ∈ full, x ∈ kept ∨ x ∈ l₁) ∧
      firings full kept l = 1 + firings full ∅ l₂ := by
  induction l generalizing kept with
  | nil => simp [firings] at hfire
  | cons x l ih =>
    by_cases hx : insert x kept = full
    · refine ⟨[x], l, rfl, fun y hy => ?_, by simp only [firings, collect, hx, if_true]⟩
      rw [← hx] at hy
      rcases Finset.mem_insert.mp hy with rfl | hmem
      · exact Or.inr (List.mem_singleton_self y)
      · exact Or.inl hmem
    · have hstep : firings full kept (x :: l) = firings full (insert x kept) l := by
        simp only [firings, collect, if_neg hx, Nat.zero_add]
      rw [hstep] at hfire
      obtain ⟨l₁, l₂, rfl, hcover, heq⟩ := ih (insert x kept) hfire
      refine ⟨x :: l₁, l₂, rfl, fun y hy => ?_, hstep.trans heq⟩
      rcases hcover y hy with hmem | hmem
      · rcases Finset.mem_insert.mp hmem with rfl | hmem
        · exact Or.inr List.mem_cons_self
        · exact Or.inl hmem
      · exact Or.inr (List.mem_cons_of_mem x hmem)

/-- Starting empty, the collector fires at most once exactly when the sequence does
not bring the full set twice over. -/
theorem firings_le_one_iff {full : Finset α} (hfull : full ≠ ∅) (l : List α)
    (hl : ∀ x ∈ l, x ∈ full) :
    firings full ∅ l ≤ 1 ↔ ¬ ∃ l₁ l₂, l = l₁ ++ l₂ ∧ Covers full l₁ ∧ Covers full l₂ := by
  constructor
  · rintro hle ⟨l₁, l₂, rfl, hfirst, hsecond⟩
    obtain ⟨rest, hrest, heq⟩ := firings_of_cover l₁ l₂ ∅ (Finset.empty_subset full) hfull.symm
      (fun x hx => hl x (List.mem_append_left l₂ hx)) (fun x hx => Or.inr (hfirst x hx))
    obtain ⟨rest', _, heq'⟩ := firings_of_cover (rest ++ l₂) [] ∅ (Finset.empty_subset full)
      hfull.symm (fun x hx => hl x (by
        rcases List.mem_append.mp hx with hmem | hmem
        · exact List.mem_append_left l₂ (hrest.subset hmem)
        · exact List.mem_append_right l₁ hmem))
      (fun x hx => Or.inr (List.mem_append_right rest (hsecond x hx)))
    rw [List.append_nil] at heq'
    omega
  · intro hcut
    by_contra hmany
    have hfire : 0 < firings full ∅ l := by omega
    obtain ⟨l₁, l₂, rfl, hfirst, heq⟩ := exists_first_firing l ∅ hfire
    have hagain : 0 < firings full ∅ l₂ := by omega
    obtain ⟨l₂₁, l₂₂, rfl, hsecond, _⟩ := exists_first_firing l₂ ∅ hagain
    refine hcut ⟨l₁, l₂₁ ++ l₂₂, rfl, fun x hx => ?_, fun x hx => ?_⟩
    · exact (hfirst x hx).resolve_left (Finset.notMem_empty x)
    · exact List.mem_append_left l₂₂ ((hsecond x hx).resolve_left (Finset.notMem_empty x))

end Collector
