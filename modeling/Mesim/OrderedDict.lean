import Mathlib.Data.Finset.Card

/-!
Finite mappings that remember insertion order.
Assigning to a present key replaces its value in place; a new key goes to the
end. Keys never repeat: the list of entries carries that fact, so lookups,
sizes and removals can be related without a separate well-formedness premise.
-/
namespace OrderedDict

/-- The raw association list operations, before the key invariant is added. -/
def lookupEntry {K V : Type*} [DecidableEq K] (k : K) : List (K × V) → Option V
  | [] => none
  | (k', v) :: rest => if k' = k then some v else lookupEntry k rest

def assignEntry {K V : Type*} [DecidableEq K] (k : K) (v : V) : List (K × V) → List (K × V)
  | [] => [(k, v)]
  | (k', v') :: rest => if k' = k then (k, v) :: rest else (k', v') :: assignEntry k v rest

variable {K V : Type*} [DecidableEq K]

theorem lookupEntry_eq_none_iff (k : K) (l : List (K × V)) :
    lookupEntry k l = none ↔ k ∉ l.map Prod.fst := by
  induction l with
  | nil => simp [lookupEntry]
  | cons entry rest ih =>
    obtain ⟨k', v⟩ := entry
    by_cases hk : k' = k
    · simp [lookupEntry, hk]
    · simp [lookupEntry, hk, ih, Ne.symm hk]

theorem lookupEntry_mem (k : K) (v : V) (l : List (K × V)) (h : lookupEntry k l = some v) :
    (k, v) ∈ l := by
  induction l with
  | nil => simp [lookupEntry] at h
  | cons entry rest ih =>
    obtain ⟨k', v'⟩ := entry
    by_cases hk : k' = k
    · subst k'
      have hv : v' = v := by simpa [lookupEntry] using h
      simp [hv]
    · exact List.mem_cons_of_mem _ (ih (by simpa [lookupEntry, hk] using h))

theorem lookupEntry_of_mem (k : K) (v : V) (l : List (K × V))
    (hnodup : (l.map Prod.fst).Nodup) (h : (k, v) ∈ l) : lookupEntry k l = some v := by
  induction l with
  | nil => simp at h
  | cons entry rest ih =>
    obtain ⟨k', v'⟩ := entry
    simp only [List.map_cons, List.nodup_cons] at hnodup
    rcases List.mem_cons.mp h with heq | hrest
    · obtain ⟨rfl, rfl⟩ := Prod.mk.inj heq
      simp [lookupEntry]
    · have hk : k' ≠ k := by
        rintro rfl
        exact hnodup.1 (List.mem_map_of_mem (f := Prod.fst) hrest)
      simpa [lookupEntry, hk] using ih hnodup.2 hrest

theorem lookupEntry_assignEntry (k j : K) (v : V) (l : List (K × V)) :
    lookupEntry j (assignEntry k v l) = if k = j then some v else lookupEntry j l := by
  induction l with
  | nil => simp [assignEntry, lookupEntry]
  | cons entry rest ih =>
    obtain ⟨k', v'⟩ := entry
    by_cases hk : k' = k
    · subst k'
      by_cases hj : k = j <;> simp [assignEntry, lookupEntry, hj]
    · by_cases hj : k' = j
      · subst k'
        simp [assignEntry, lookupEntry, hk, Ne.symm hk]
      · simp [assignEntry, lookupEntry, hk, hj, ih]

theorem assignEntry_keys_of_mem (k : K) (v : V) (l : List (K × V))
    (h : k ∈ l.map Prod.fst) : (assignEntry k v l).map Prod.fst = l.map Prod.fst := by
  induction l with
  | nil => simp at h
  | cons entry rest ih =>
    obtain ⟨k', v'⟩ := entry
    by_cases hk : k' = k
    · simp [assignEntry, hk]
    · have hrest : k ∈ rest.map Prod.fst := by
        rcases List.mem_cons.mp h with heq | hmem
        · exact absurd heq.symm hk
        · exact hmem
      simp only [assignEntry, hk, if_false, List.map_cons, ih hrest]

theorem assignEntry_of_not_mem (k : K) (v : V) (l : List (K × V))
    (h : k ∉ l.map Prod.fst) : assignEntry k v l = l ++ [(k, v)] := by
  induction l with
  | nil => rfl
  | cons entry rest ih =>
    obtain ⟨k', v'⟩ := entry
    simp only [List.map_cons, List.mem_cons, not_or] at h
    simp only [assignEntry, Ne.symm h.1, if_false, ih h.2, List.cons_append]

theorem assignEntry_self (k : K) (v : V) (l : List (K × V)) (h : lookupEntry k l = some v) :
    assignEntry k v l = l := by
  induction l with
  | nil => simp [lookupEntry] at h
  | cons entry rest ih =>
    obtain ⟨k', v'⟩ := entry
    by_cases hk : k' = k
    · subst k'
      have hv : v' = v := by simpa [lookupEntry] using h
      simp [assignEntry, hv]
    · have hrest := ih (by simpa [lookupEntry, hk] using h)
      simp only [assignEntry, hk, if_false, hrest]

theorem assignEntry_nodup (k : K) (v : V) (l : List (K × V)) (h : (l.map Prod.fst).Nodup) :
    ((assignEntry k v l).map Prod.fst).Nodup := by
  by_cases hk : k ∈ l.map Prod.fst
  · rw [assignEntry_keys_of_mem k v l hk]
    exact h
  · rw [assignEntry_of_not_mem k v l hk, List.map_append, List.nodup_append]
    refine ⟨h, by simp, ?_⟩
    intro a ha b hb
    have hbk : b = k := by simpa using hb
    rw [hbk]
    rintro rfl
    exact hk ha

theorem lookupEntry_filter (k j : K) (l : List (K × V)) :
    lookupEntry j (l.filter (fun e => e.1 ≠ k)) = if k = j then none else lookupEntry j l := by
  induction l with
  | nil => simp [lookupEntry]
  | cons entry rest ih =>
    obtain ⟨k', v'⟩ := entry
    by_cases hk : k' = k
    · subst k'
      by_cases hj : k = j
      · simpa [hj] using ih
      · simpa [hj, lookupEntry] using ih
    · by_cases hj : k' = j
      · subst k'
        simp [hk, Ne.symm hk, lookupEntry]
      · simpa [hk, hj, lookupEntry] using ih

end OrderedDict

/-- An insertion-ordered mapping whose keys are pairwise different. -/
structure OrderedDict (K V : Type*) where
  entries : List (K × V)
  nodup : (entries.map Prod.fst).Nodup
  deriving DecidableEq

namespace OrderedDict

variable {K V : Type*}

@[ext] theorem ext {d e : OrderedDict K V} (h : d.entries = e.entries) : d = e := by
  cases d
  cases e
  cases h
  rfl

def empty : OrderedDict K V := ⟨[], List.nodup_nil⟩

def size (d : OrderedDict K V) : ℕ := d.entries.length

def keys (d : OrderedDict K V) : List K := d.entries.map Prod.fst

def values (d : OrderedDict K V) : List V := d.entries.map Prod.snd

variable [DecidableEq K]

def get? (d : OrderedDict K V) (k : K) : Option V := lookupEntry k d.entries

def set (d : OrderedDict K V) (k : K) (v : V) : OrderedDict K V :=
  ⟨assignEntry k v d.entries, assignEntry_nodup k v d.entries d.nodup⟩

def erase (d : OrderedDict K V) (k : K) : OrderedDict K V :=
  ⟨d.entries.filter (fun e => e.1 ≠ k),
    d.nodup.sublist (List.filter_sublist.map Prod.fst)⟩

@[simp] theorem get?_empty (k : K) : (empty : OrderedDict K V).get? k = none := rfl

theorem get?_set (d : OrderedDict K V) (k j : K) (v : V) :
    (d.set k v).get? j = if k = j then some v else d.get? j :=
  lookupEntry_assignEntry k j v d.entries

@[simp] theorem get?_set_self (d : OrderedDict K V) (k : K) (v : V) :
    (d.set k v).get? k = some v := by
  rw [get?_set]
  simp

theorem get?_set_of_ne (d : OrderedDict K V) {k j : K} (v : V) (h : k ≠ j) :
    (d.set k v).get? j = d.get? j := by
  rw [get?_set]
  simp [h]

theorem get?_erase (d : OrderedDict K V) (k j : K) :
    (d.erase k).get? j = if k = j then none else d.get? j :=
  lookupEntry_filter k j d.entries

@[simp] theorem get?_erase_self (d : OrderedDict K V) (k : K) : (d.erase k).get? k = none := by
  rw [get?_erase]
  simp

theorem get?_erase_of_ne (d : OrderedDict K V) {k j : K} (h : k ≠ j) :
    (d.erase k).get? j = d.get? j := by
  rw [get?_erase]
  simp [h]

theorem get?_set_eq_update (d : OrderedDict K V) (k : K) (v : V) :
    (d.set k v).get? = Function.update d.get? k (some v) := by
  funext j
  rw [get?_set, Function.update_apply]
  simp only [eq_comm]

theorem get?_erase_eq_update (d : OrderedDict K V) (k : K) :
    (d.erase k).get? = Function.update d.get? k none := by
  funext j
  rw [get?_erase, Function.update_apply]
  simp only [eq_comm]

/-- Erasing the keys of a list of entries. -/
theorem get?_foldl_erase (d : OrderedDict K V) (entries : List (K × V)) (k : K) :
    (entries.foldl (fun d e => d.erase e.1) d).get? k =
      if k ∈ entries.map Prod.fst then none else d.get? k := by
  induction entries generalizing d with
  | nil => rfl
  | cons e rest ih =>
    rw [List.foldl_cons, ih, get?_erase, List.map_cons]
    by_cases hrest : k ∈ rest.map Prod.fst
    · rw [if_pos hrest, if_pos (List.mem_cons_of_mem _ hrest)]
    · rw [if_neg hrest]
      by_cases hk : e.1 = k
      · rw [if_pos hk, if_pos (by rw [hk]; exact List.mem_cons_self)]
      · rw [if_neg hk, if_neg (by simp [List.mem_cons, hrest, Ne.symm hk])]

theorem get?_eq_none_iff (d : OrderedDict K V) (k : K) : d.get? k = none ↔ k ∉ d.keys :=
  lookupEntry_eq_none_iff k d.entries

theorem mem_keys_iff (d : OrderedDict K V) (k : K) : k ∈ d.keys ↔ ∃ v, d.get? k = some v := by
  rw [← Option.ne_none_iff_exists', ne_eq, get?_eq_none_iff, not_not]

theorem mem_entries_iff (d : OrderedDict K V) (k : K) (v : V) :
    (k, v) ∈ d.entries ↔ d.get? k = some v :=
  ⟨lookupEntry_of_mem k v d.entries d.nodup, lookupEntry_mem k v d.entries⟩

theorem mem_values_of_get? (d : OrderedDict K V) (k : K) (v : V) (h : d.get? k = some v) :
    v ∈ d.values :=
  List.mem_map.mpr ⟨(k, v), (d.mem_entries_iff k v).mpr h, rfl⟩

theorem mem_values_iff (d : OrderedDict K V) (v : V) :
    v ∈ d.values ↔ ∃ k, d.get? k = some v := by
  constructor
  · intro h
    obtain ⟨⟨k, v'⟩, hmem, rfl⟩ := List.mem_map.mp h
    exact ⟨k, (d.mem_entries_iff k v').mp hmem⟩
  · rintro ⟨k, h⟩
    exact d.mem_values_of_get? k v h

/-- Reassigning the value a key already has changes nothing, not even the order. -/
theorem set_eq_self (d : OrderedDict K V) (k : K) (v : V) (h : d.get? k = some v) :
    d.set k v = d :=
  OrderedDict.ext (assignEntry_self k v d.entries h)

theorem eq_of_set_eq_self (d : OrderedDict K V) (k : K) (v : V) (h : d.set k v = d) :
    d.get? k = some v := by
  rw [← h]
  exact d.get?_set_self k v

theorem erase_eq_self (d : OrderedDict K V) (k : K) (h : d.get? k = none) : d.erase k = d := by
  apply OrderedDict.ext
  apply List.filter_eq_self.mpr
  intro entry hentry
  have hk : entry.1 ≠ k := by
    rintro rfl
    exact (d.get?_eq_none_iff _).mp h (List.mem_map_of_mem (f := Prod.fst) hentry)
  simpa using hk

/-- Removing a freshly added key restores the mapping it was added to. -/
theorem erase_set_of_none (d : OrderedDict K V) (k : K) (v : V) (h : d.get? k = none) :
    (d.set k v).erase k = d := by
  have hnot : k ∉ d.entries.map Prod.fst := (d.get?_eq_none_iff k).mp h
  apply OrderedDict.ext
  show (assignEntry k v d.entries).filter (fun e => e.1 ≠ k) = d.entries
  rw [assignEntry_of_not_mem k v d.entries hnot, List.filter_append]
  have hself : d.entries.filter (fun e => e.1 ≠ k) = d.entries :=
    congrArg entries (d.erase_eq_self k h)
  rw [hself]
  simp

theorem size_eq_card_keys (d : OrderedDict K V) : d.size = d.keys.toFinset.card := by
  have hkeys : d.keys.Nodup := d.nodup
  rw [List.toFinset_card_of_nodup hkeys]
  exact (List.length_map ..).symm

/-- A mapping with as many keys is as long, whatever their order. -/
theorem size_congr {d e : OrderedDict K V} (h : ∀ k, d.get? k = e.get? k) : d.size = e.size := by
  rw [size_eq_card_keys, size_eq_card_keys]
  congr 1
  ext k
  rw [List.mem_toFinset, List.mem_toFinset, mem_keys_iff, mem_keys_iff, h k]

theorem size_set (d : OrderedDict K V) (k : K) (v : V) :
    (d.set k v).size = if d.get? k = none then d.size + 1 else d.size := by
  by_cases hk : d.get? k = none
  · have hentries : (d.set k v).entries = d.entries ++ [(k, v)] :=
      assignEntry_of_not_mem k v d.entries ((d.get?_eq_none_iff k).mp hk)
    rw [if_pos hk, size, hentries, List.length_append]
    rfl
  · have hkeys : (d.set k v).keys = d.keys :=
      assignEntry_keys_of_mem k v d.entries ((d.mem_keys_iff k).mpr
        (Option.ne_none_iff_exists'.mp hk))
    rw [if_neg hk, size_eq_card_keys, size_eq_card_keys, hkeys]

theorem size_erase_le (d : OrderedDict K V) (k : K) : (d.erase k).size ≤ d.size :=
  List.length_filter_le _ d.entries

/-- Different keys that are all there are no more than the size. -/
theorem length_le_size (d : OrderedDict K V) (keys : List K) (hnodup : keys.Nodup)
    (h : ∀ k ∈ keys, d.get? k ≠ none) : keys.length ≤ d.size := by
  rw [size_eq_card_keys, ← List.toFinset_card_of_nodup hnodup]
  refine Finset.card_le_card fun k hk => ?_
  rw [List.mem_toFinset] at hk ⊢
  exact (d.mem_keys_iff k).mpr (Option.ne_none_iff_exists'.mp (h k hk))

theorem size_eq_zero (d : OrderedDict K V) (h : ∀ k, d.get? k = none) : d.size = 0 := by
  have hkeys : d.keys = [] :=
    List.eq_nil_iff_forall_not_mem.mpr fun k => (d.get?_eq_none_iff k).mp (h k)
  rw [size_eq_card_keys, hkeys]
  rfl

end OrderedDict
