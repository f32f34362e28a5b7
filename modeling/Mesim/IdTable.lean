import Mathlib.Data.List.Sort

/-!
Tables whose ids are handed out in increasing order and never again.
Rows stand as they were inserted. A query selects rows by a condition and lists
them by a key, rows of equal key by id; the list is the only one in that order
that has exactly those rows.
-/

structure IdTable {Row : Type*} (id : Row → ℕ) where
  rows : List Row
  nextId : ℕ
  ordered : (rows.map id).Pairwise (· < ·)
  below : ∀ row ∈ rows, id row < nextId

namespace IdTable

variable {Row : Type*} {id : Row → ℕ}

theorem ordered_nil (id : Row → ℕ) : (([] : List Row).map id).Pairwise (· < ·) := List.Pairwise.nil

theorem below_nil (id : Row → ℕ) : ∀ row ∈ ([] : List Row), id row < 1 :=
  fun _ hrow => absurd hrow List.not_mem_nil

def empty : IdTable id where
  rows := []
  nextId := 1
  ordered := ordered_nil id
  below := below_nil id

/-- Adds the row made with the next id. -/
def insert (t : IdTable id) (make : ℕ → Row) (hid : ∀ n, id (make n) = n) : IdTable id where
  rows := t.rows ++ [make t.nextId]
  nextId := t.nextId + 1
  ordered := by
    rw [List.map_append, List.pairwise_append]
    refine ⟨t.ordered, List.pairwise_singleton _ _, fun i hi j hj => ?_⟩
    obtain ⟨row, hrow, rfl⟩ := List.mem_map.mp hi
    rw [List.mem_singleton.mp hj, hid]
    exact t.below row hrow
  below := by
    intro row hrow
    rcases List.mem_append.mp hrow with hold | hnew
    · exact Nat.lt_succ_of_lt (t.below row hold)
    · rw [List.mem_singleton.mp hnew, hid]
      exact Nat.lt_succ_self t.nextId

def delete (t : IdTable id) (condition : Row → Bool) : IdTable id where
  rows := t.rows.filter fun row => !condition row
  nextId := t.nextId
  ordered := t.ordered.sublist (List.filter_sublist.map id)
  below := fun row hrow => t.below row (List.mem_filter.mp hrow).1

def update (t : IdTable id) (change : Row → Row) (hid : ∀ row, id (change row) = id row) :
    IdTable id where
  rows := t.rows.map change
  nextId := t.nextId
  ordered := by
    have hsame : id ∘ change = id := funext hid
    rw [List.map_map, hsame]
    exact t.ordered
  below := by
    intro row hrow
    obtain ⟨old, hold, rfl⟩ := List.mem_map.mp hrow
    rw [hid]
    exact t.below old hold

theorem nodup_ids (t : IdTable id) : (t.rows.map id).Nodup := t.ordered.imp fun hlt => hlt.ne

end IdTable

namespace IdTable

section Order

variable {Row κ : Type*} [LinearOrder κ] (key : Row → κ) (id : Row → ℕ)

/-- ORDER BY key ASC, id ASC. -/
def Precedes (a b : Row) : Prop := key a < key b ∨ key a = key b ∧ id a ≤ id b

/-- The same for rows with different ids. -/
def Before (a b : Row) : Prop := key a < key b ∨ key a = key b ∧ id a < id b

instance (a b : Row) : Decidable (Precedes key id a b) := inferInstanceAs (Decidable (_ ∨ _ ∧ _))

instance (a b : Row) : Decidable (Before key id a b) := inferInstanceAs (Decidable (_ ∨ _ ∧ _))

instance : Std.Total (Precedes key id) where
  total a b := by
    rcases lt_trichotomy (key a) (key b) with hlt | heq | hgt
    · exact Or.inl (Or.inl hlt)
    · exact (le_total (id a) (id b)).imp (fun h => Or.inr ⟨heq, h⟩) fun h => Or.inr ⟨heq.symm, h⟩
    · exact Or.inr (Or.inl hgt)

instance : IsTrans Row (Precedes key id) where
  trans a b c := by
    rintro (hab | ⟨hab, hid⟩) (hbc | ⟨hbc, hid'⟩)
    · exact Or.inl (hab.trans hbc)
    · exact Or.inl (hab.trans_eq hbc)
    · exact Or.inl (hab.trans_lt hbc)
    · exact Or.inr ⟨hab.trans hbc, hid.trans hid'⟩

variable {key id}

theorem Before.asymm {a b : Row} (h : Before key id a b) : ¬ Before key id b a := by
  rintro (hba | ⟨hba, hid⟩)
  · rcases h with hab | ⟨hab, _⟩
    · exact lt_asymm hab hba
    · exact hba.ne hab.symm
  · rcases h with hab | ⟨_, hid'⟩
    · exact hab.ne hba.symm
    · exact lt_asymm hid hid'

theorem Precedes.before {a b : Row} (h : Precedes key id a b) (hne : id a ≠ id b) :
    Before key id a b := h.imp_right fun h => ⟨h.1, lt_of_le_of_ne h.2 hne⟩

end Order

section Select

variable {Row κ : Type*} [LinearOrder κ] (key : Row → κ) {id : Row → ℕ}

/-- SELECT ... WHERE condition ORDER BY key ASC, id ASC. -/
def select (t : IdTable id) (condition : Row → Bool) : List Row :=
  (t.rows.filter condition).insertionSort (Precedes key id)

variable {key}

theorem mem_select (t : IdTable id) (condition : Row → Bool) (row : Row) :
    row ∈ t.select key condition ↔ row ∈ t.rows ∧ condition row = true := by
  rw [select, List.mem_insertionSort, List.mem_filter]

theorem nodup_select (t : IdTable id) (condition : Row → Bool) :
    ((t.select key condition).map id).Nodup :=
  ((List.perm_insertionSort _ _).map id).nodup_iff.mpr
    (t.nodup_ids.sublist (List.filter_sublist.map id))

/-- A sort of rows with different ids is in strict order. -/
theorem sort_before (rows : List Row) (hids : (rows.map id).Nodup) :
    (rows.insertionSort (Precedes key id)).Pairwise (Before key id) := by
  have hsorted := List.pairwise_insertionSort (Precedes key id) rows
  have hnodup : ((rows.insertionSort (Precedes key id)).map id).Nodup :=
    ((List.perm_insertionSort (Precedes key id) rows).map id).nodup_iff.mpr hids
  exact (hsorted.and (List.pairwise_map.mp hnodup)).imp fun h => h.1.before h.2

/-- Only one list in strict order has these members. -/
theorem eq_of_before {xs ys : List Row} (hxs : xs.Pairwise (Before key id))
    (hys : ys.Pairwise (Before key id)) (hmem : ∀ row, row ∈ xs ↔ row ∈ ys) : xs = ys := by
  have hnodup : ∀ {zs : List Row}, zs.Pairwise (Before key id) → zs.Nodup := fun hzs =>
    hzs.imp fun hab heq => by
      subst heq
      exact hab.asymm hab
  have hperm : xs.Perm ys := (List.perm_ext_iff_of_nodup (hnodup hxs) (hnodup hys)).mpr hmem
  exact hperm.eq_of_pairwise (fun a b _ _ hab hba => absurd hba hab.asymm) hxs hys

end Select

end IdTable
