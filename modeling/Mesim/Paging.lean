import Mathlib.Data.List.Basic
import Mathlib.Order.Bounds.Basic
import Mathlib.Order.Bounds.Defs
import Mathlib.Data.List.MinMax

/-!
Reading a list page by page.
A page is the first `limit` entries whose key lies below a bound, and the next
bound is the smallest key of the page. The pages together give every entry once
exactly when, cutting the list into blocks of `limit`, the keys of every block lie
above those of the blocks after it.
-/
namespace Paging

section Reading

variable {α κ : Type*} [LinearOrder κ] (key : α → κ)

/-- Pages read one after the other until one is empty, each below the smallest key of the
one before. `answers` relates a bound to the page that comes back. -/
inductive Reads (answers : Option κ → List α → Prop) : Option κ → List (List α) → Prop
  | done {bound : Option κ} (h : answers bound []) : Reads answers bound []
  | more {bound : Option κ} {page : List α} {least : κ} {rest : List (List α)}
      (h : answers bound page) (hsome : page ≠ [])
      (hleast : IsLeast {k | ∃ x ∈ page, key x = k} least)
      (hrest : Reads answers (some least) rest) : Reads answers bound (page :: rest)

def isBelow (bound : Option κ) (x : α) : Bool := bound.all fun b => key x < b

/-- The page of a list. -/
def page (limit : ℕ) (xs : List α) (bound : Option κ) : List α :=
  (xs.filter (isBelow key bound)).take limit

/-- The bounds that pages of a list lead to: none at first, then keys of its entries. -/
def IsBound (xs : List α) (bound : Option κ) : Prop := ∀ b, bound = some b → ∃ x ∈ xs, key x = b

/-- The keys of a block of `limit` entries lie above those of every later block. -/
def Descends (limit : ℕ) (xs : List α) : Prop :=
  ∀ i j (hi : i < xs.length) (hj : j < xs.length), i / limit < j / limit → key xs[j] < key xs[i]

variable {key} {limit : ℕ} {xs : List α}

theorem descends_iff (hlimit : 0 < limit) : Descends key limit xs ↔
    (∀ a ∈ xs.take limit, ∀ b ∈ xs.drop limit, key b < key a) ∧
      Descends key limit (xs.drop limit) := by
  constructor
  · intro h
    refine ⟨fun a ha b hb => ?_, fun i j hi hj hij => ?_⟩
    · obtain ⟨i, hi, rfl⟩ := List.mem_iff_getElem.mp ha
      obtain ⟨j, hj, rfl⟩ := List.mem_iff_getElem.mp hb
      rw [List.length_take] at hi
      rw [List.length_drop] at hj
      rw [List.getElem_take, List.getElem_drop]
      apply h i (limit + j) (by omega) (by omega)
      rw [Nat.div_eq_of_lt (by omega), Nat.add_div_left j hlimit]
      exact Nat.succ_pos _
    · rw [List.length_drop] at hi hj
      rw [List.getElem_drop, List.getElem_drop]
      apply h (limit + i) (limit + j) (by omega) (by omega)
      rw [Nat.add_div_left i hlimit, Nat.add_div_left j hlimit]
      exact Nat.succ_lt_succ hij
  · rintro ⟨hfirst, hrest⟩ i j hi hj hij
    have hj' : limit ≤ j := by
      by_contra hlt
      rw [Nat.div_eq_of_lt (by omega : j < limit)] at hij
      exact Nat.not_lt_zero _ hij
    obtain ⟨j, rfl⟩ := Nat.exists_eq_add_of_le hj'
    have hjd : j < (xs.drop limit).length := by
      rw [List.length_drop]
      omega
    rw [← List.getElem_drop (h := hjd)]
    by_cases hi' : limit ≤ i
    · obtain ⟨i, rfl⟩ := Nat.exists_eq_add_of_le hi'
      have hid : i < (xs.drop limit).length := by
        rw [List.length_drop]
        omega
      rw [← List.getElem_drop (h := hid)]
      rw [Nat.add_div_left i hlimit, Nat.add_div_left j hlimit] at hij
      exact hrest i j hid hjd (Nat.lt_of_succ_lt_succ hij)
    · refine hfirst _ ?_ _ (List.getElem_mem hjd)
      rw [List.mem_take_iff_getElem]
      exact ⟨i, by omega, rfl⟩

/-- A list whose keys grow has only one block. -/
theorem descends_increasing (hlimit : 0 < limit) (hgrows : xs.Pairwise fun a b => key a < key b) :
    Descends key limit xs ↔ xs.length ≤ limit := by
  constructor
  · intro h
    by_contra hlong
    have hfirst := h 0 limit (by omega) (by omega) (by
      rw [Nat.zero_div, Nat.div_self hlimit]
      exact Nat.one_pos)
    have hgrow := List.pairwise_iff_getElem.mp hgrows 0 limit (by omega) (by omega) hlimit
    exact lt_asymm hfirst hgrow
  · intro hshort i j hi hj hij
    rw [Nat.div_eq_of_lt (by omega : j < limit)] at hij
    exact absurd hij (Nat.not_lt_zero _)

theorem isBelow_none (key : α → κ) (xs : List α) : xs.filter (isBelow key none) = xs :=
  List.filter_eq_self.mpr fun _ _ => rfl

theorem isBelow_some (bound : κ) (x : α) : isBelow key (some bound) x = true ↔ key x < bound :=
  decide_eq_true_iff

/-- Entries of the first page lie on or above its least key. -/
theorem filter_below_least {least : κ}
    (hleast : IsLeast {k | ∃ x ∈ xs.take limit, key x = k} least) :
    xs.filter (isBelow key (some least)) = (xs.drop limit).filter (isBelow key (some least)) := by
  conv => lhs; rw [← List.take_append_drop limit xs]
  rw [List.filter_append, List.filter_eq_nil_iff.mpr, List.nil_append]
  intro x hx hbelow
  exact absurd (hleast.2 ⟨x, hx, rfl⟩) (not_le.mpr ((isBelow_some least x).mp hbelow))

theorem filter_below_below {bound : Option κ} {least : κ}
    (hleast : IsLeast {k | ∃ x ∈ page key limit xs bound, key x = k} least) :
    xs.filter (isBelow key (some least)) =
      (xs.filter (isBelow key bound)).filter (isBelow key (some least)) := by
  rw [List.filter_filter]
  refine List.filter_congr fun x _ => ?_
  obtain ⟨y, hy, rfl⟩ := hleast.1
  have hybound := (List.mem_filter.mp (List.mem_of_mem_take hy)).2
  rw [Bool.eq_iff_iff, Bool.and_eq_true, isBelow_some, iff_self_and]
  intro hlt
  cases bound with
  | none => rfl
  | some b => exact (isBelow_some b x).mpr (hlt.trans ((isBelow_some b y).mp hybound))

omit [LinearOrder κ] in
theorem isBound_none : IsBound key xs none := fun _ h => nomatch h

/-- The least key of a page is the next bound. -/
theorem isBound_least {bound : Option κ} {least : κ}
    (hleast : IsLeast {k | ∃ x ∈ page key limit xs bound, key x = k} least) :
    IsBound key xs (some least) := by
  obtain ⟨x, hx, rfl⟩ := hleast.1
  rintro b ⟨⟩
  exact ⟨x, (List.mem_filter.mp (List.mem_of_mem_take hx)).1, rfl⟩

variable {answers : Option κ → List α → Prop}
  (hanswers : ∀ bound p, IsBound key xs bound → (answers bound p ↔ p = page key limit xs bound))
include hanswers

/-- What is read from a bound on lies below it. -/
theorem mem_of_reads {bound : Option κ} {pages : List (List α)}
    (h : Reads key answers bound pages) (hbound : IsBound key xs bound) :
    ∀ x ∈ pages.flatten, x ∈ xs.filter (isBelow key bound) := by
  induction h with
  | done _ => exact fun x hx => absurd hx List.not_mem_nil
  | more hpage hsome hleast _ ih =>
    rw [(hanswers _ _ hbound).mp hpage] at hleast ⊢
    intro x hx
    rw [List.flatten_cons] at hx
    rcases List.mem_append.mp hx with hfirst | hrest
    · exact List.mem_of_mem_take hfirst
    · have hin := ih (isBound_least hleast) x hrest
      rw [filter_below_below hleast] at hin
      exact (List.mem_filter.mp hin).1

/-- The pages give every entry below the bound once exactly when the blocks descend. -/
theorem reads_perm_iff (hlimit : 0 < limit) {bound : Option κ} {pages : List (List α)}
    (h : Reads key answers bound pages) (hbound : IsBound key xs bound) :
    pages.flatten.Perm (xs.filter (isBelow key bound)) ↔
      Descends key limit (xs.filter (isBelow key bound)) := by
  induction h with
  | done hpage =>
    rename_i bound
    have hnil : xs.filter (isBelow key bound) = [] :=
      (List.take_eq_nil_iff.mp ((hanswers _ _ hbound).mp hpage).symm).resolve_left hlimit.ne'
    rw [hnil]
    exact iff_of_true (List.Perm.refl _) fun i j hi => absurd hi (Nat.not_lt_zero i)
  | more hpage hsome hleast hrest ih =>
    rename_i bound p least rest
    rw [(hanswers _ _ hbound).mp hpage] at hleast ⊢
    replace ih := ih (isBound_least hleast)
    let ys := xs.filter (isBelow key bound)
    have hys : xs.filter (isBelow key (some least)) =
        (ys.drop limit).filter (isBelow key (some least)) :=
      (filter_below_below hleast).trans (filter_below_least hleast)
    have hmem := mem_of_reads hanswers hrest (isBound_least hleast)
    rw [hys] at ih hmem
    rw [descends_iff hlimit, List.flatten_cons]
    show (ys.take limit ++ rest.flatten).Perm ys ↔ (∀ a ∈ ys.take limit, ∀ b ∈ ys.drop limit,
      key b < key a) ∧ Descends key limit (ys.drop limit)
    have hsplit : (ys.take limit ++ rest.flatten).Perm ys ↔ rest.flatten.Perm (ys.drop limit) := by
      conv => lhs; rhs; rw [← List.take_append_drop limit ys]
      exact List.perm_append_left_iff _
    -- everything later must lie below the least key of this page
    have hall : (∀ a ∈ ys.take limit, ∀ b ∈ ys.drop limit, key b < key a) ↔
        (ys.drop limit).filter (isBelow key (some least)) = ys.drop limit := by
      rw [List.filter_eq_self]
      constructor
      · intro h b hb
        obtain ⟨a, ha, hleast'⟩ := hleast.1
        rw [isBelow_some, ← hleast']
        exact h a ha b hb
      · intro h a ha b hb
        exact lt_of_lt_of_le ((isBelow_some least b).mp (h b hb)) (hleast.2 ⟨a, ha, rfl⟩)
    rw [hsplit, hall]
    constructor
    · intro hperm
      have hfilter : (ys.drop limit).filter (isBelow key (some least)) = ys.drop limit :=
        List.filter_eq_self.mpr fun b hb =>
          (List.mem_filter.mp (hmem b (hperm.mem_iff.mpr hb))).2
      rw [hfilter] at ih
      exact ⟨hfilter, ih.mp hperm⟩
    · rintro ⟨hfilter, hdescends⟩
      rw [hfilter] at ih
      exact ih.mpr hdescends

/-- The pages end. -/
theorem reads_exists {bound : Option κ} (hbound : IsBound key xs bound) :
    ∃ pages, Reads key answers bound pages := by
  induction hlen : (xs.filter (isBelow key bound)).length using Nat.strong_induction_on
    generalizing bound with
  | _ n ih =>
    by_cases hnil : page key limit xs bound = []
    · exact ⟨[], .done ((hanswers _ _ hbound).mpr hnil.symm)⟩
    · obtain ⟨x, hx, hleast⟩ : ∃ x ∈ page key limit xs bound, ∀ y ∈ page key limit xs bound,
          key x ≤ key y := by
        obtain ⟨x, hx⟩ := Option.ne_none_iff_exists'.mp
          fun hnone => hnil (List.argmin_eq_none (f := key).mp hnone)
        exact ⟨x, List.argmin_mem hx, fun y hy => List.le_of_mem_argmin hy hx⟩
      have hIsLeast : IsLeast {k | ∃ y ∈ page key limit xs bound, key y = k} (key x) := by
        refine ⟨⟨x, hx, rfl⟩, ?_⟩
        rintro k ⟨y, hy, rfl⟩
        exact hleast y hy
      have hshorter : (xs.filter (isBelow key (some (key x)))).length < n := by
        rw [filter_below_below hIsLeast, ← hlen]
        refine List.length_filter_lt_length_iff_exists.mpr ⟨x, List.mem_of_mem_take hx, ?_⟩
        rw [isBelow_some]
        exact lt_irrefl _
      obtain ⟨rest, hrest⟩ := ih _ hshorter (isBound_least hIsLeast) rfl
      exact ⟨_, .more ((hanswers _ _ hbound).mpr rfl) hnil hIsLeast hrest⟩

end Reading

end Paging
