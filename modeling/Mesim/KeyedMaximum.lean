import Mathlib.Data.List.MinMax

/-!
The best entry of a log under each key.
Entries are ranked in a linear order, and the earliest of the best ones counts. What it is
can be kept up to date entry by entry, its rank does not depend on the order of the log,
and entries under other keys or already in the log make no difference.
-/
namespace KeyedMaximum

section Argmax

variable {α β : Type*} [LinearOrder β] {f : α → β}

/-- All before it are worse, and none after it is better. -/
theorem argmax_eq_some_iff_split {l : List α} {a : α} :
    l.argmax f = some a ↔ ∃ earlier later, l = earlier ++ a :: later ∧
      (∀ b ∈ earlier, f b < f a) ∧ ∀ c ∈ later, f c ≤ f a := by
  induction l generalizing a with
  | nil => simp
  | cons x rest ih =>
    rw [List.argmax_cons]
    constructor
    · intro h
      cases hrest : rest.argmax f with
      | none =>
        rw [hrest] at h
        rw [List.argmax_eq_none.mp hrest]
        cases Option.some.inj h
        exact ⟨[], [], rfl, by simp, by simp⟩
      | some best =>
        simp only [hrest] at h
        by_cases hlt : f x < f best
        · rw [if_pos hlt] at h
          cases Option.some.inj h
          obtain ⟨earlier, later, hsplit, hearlier, hlater⟩ := ih.mp hrest
          refine ⟨x :: earlier, later, by rw [hsplit]; rfl, fun b hb => ?_, hlater⟩
          rcases List.mem_cons.mp hb with rfl | hb
          · exact hlt
          · exact hearlier b hb
        · rw [if_neg hlt] at h
          cases Option.some.inj h
          refine ⟨[], rest, rfl, by simp, fun c hc => ?_⟩
          exact (List.le_of_mem_argmax hc hrest).trans (not_lt.mp hlt)
    · rintro ⟨earlier, later, hsplit, hearlier, hlater⟩
      cases earlier with
      | nil =>
        obtain ⟨rfl, rfl⟩ := List.cons.inj hsplit
        cases hrest : rest.argmax f with
        | none => rfl
        | some best =>
          have hle := hlater best (List.argmax_mem hrest)
          exact if_neg (not_lt.mpr hle)
      | cons first earlier =>
        obtain ⟨rfl, htail⟩ := List.cons.inj hsplit
        have hrest : rest.argmax f = some a :=
          ih.mpr ⟨earlier, later, htail, fun b hb => hearlier b (List.mem_cons_of_mem _ hb), hlater⟩
        rw [hrest]
        exact if_pos (hearlier x List.mem_cons_self)

/-- The greatest rank is that of the set of entries. -/
theorem argmax_map_of_mem_iff {l l' : List α} (h : ∀ a, a ∈ l ↔ a ∈ l') :
    (l.argmax f).map f = (l'.argmax f).map f := by
  cases hbest : l.argmax f with
  | none =>
    have hnil : l' = [] := by
      apply List.eq_nil_iff_forall_not_mem.mpr
      intro a ha
      simpa [List.argmax_eq_none.mp hbest] using (h a).mpr ha
    rw [hnil]
    rfl
  | some a =>
    cases hbest' : l'.argmax f with
    | none =>
      have ha := (h a).mp (List.argmax_mem hbest)
      simp [List.argmax_eq_none.mp hbest'] at ha
    | some a' =>
      have hle := List.le_of_mem_argmax ((h a).mp (List.argmax_mem hbest)) hbest'
      have hge := List.le_of_mem_argmax ((h a').mpr (List.argmax_mem hbest')) hbest
      exact congrArg some (le_antisymm hle hge)

end Argmax

section Keyed

variable {α K β : Type*} [DecidableEq K] [LinearOrder β] (key : α → K) (rank : α → β)

def best (l : List α) (k : K) : Option α := (l.filter fun a => key a = k).argmax rank

/-- The first of the entries under a key that have the greatest rank. -/
def FirstBest (l : List α) (k : K) (a : α) : Prop :=
  ∃ earlier later, l = earlier ++ a :: later ∧ key a = k ∧
    (∀ b ∈ earlier, key b = k → rank b < rank a) ∧ ∀ c ∈ later, key c = k → rank c ≤ rank a

variable {key rank} {l : List α} {k : K}

theorem best_eq_some_iff {a : α} : best key rank l k = some a ↔ FirstBest key rank l k a := by
  rw [best, argmax_eq_some_iff_split]
  constructor
  · rintro ⟨earlier, later, hsplit, hearlier, hlater⟩
    obtain ⟨front, back, rfl, hfront, hback⟩ := List.filter_eq_append_iff.mp hsplit
    obtain ⟨skipped, back, rfl, hskipped, hkey, hback⟩ := List.filter_eq_cons_iff.mp hback
    refine ⟨front ++ skipped, back, by simp, of_decide_eq_true hkey, fun b hb hbk => ?_,
      fun c hc hck => ?_⟩
    · rcases List.mem_append.mp hb with hb | hb
      · exact hearlier b (hfront ▸ List.mem_filter.mpr ⟨hb, decide_eq_true hbk⟩)
      · exact absurd (decide_eq_true hbk) (hskipped b hb)
    · exact hlater c (hback ▸ List.mem_filter.mpr ⟨hc, decide_eq_true hck⟩)
  · rintro ⟨earlier, later, rfl, hkey, hearlier, hlater⟩
    refine ⟨earlier.filter fun a => key a = k, later.filter fun a => key a = k,
      by simp [hkey], fun b hb => ?_, fun c hc => ?_⟩
    · exact hearlier b (List.mem_filter.mp hb).1 (of_decide_eq_true (List.mem_filter.mp hb).2)
    · exact hlater c (List.mem_filter.mp hc).1 (of_decide_eq_true (List.mem_filter.mp hc).2)

theorem best_concat_of_ne {a : α} (h : key a ≠ k) :
    best key rank (l ++ [a]) k = best key rank l k := by
  simp [best, List.filter_append, h]

/-- An entry takes the place of the best one when it ranks higher. -/
theorem best_concat_of_lt {a : α} (h : ∀ b, best key rank l (key a) = some b → rank b < rank a) :
    best key rank (l ++ [a]) (key a) = some a := by
  simp only [best, List.filter_append, List.filter_cons, List.filter_nil, decide_true, if_true,
    List.argmax_concat]
  cases hbest : (l.filter fun b => key b = key a).argmax rank with
  | none => rfl
  | some b => exact if_pos (h b hbest)

theorem best_concat_of_le {a b : α} (h : best key rank l (key a) = some b)
    (hle : rank a ≤ rank b) : best key rank (l ++ [a]) (key a) = some b := by
  rw [best] at h
  simp only [best, List.filter_append, List.filter_cons, List.filter_nil, decide_true, if_true,
    List.argmax_concat, h]
  exact if_neg (not_lt.mpr hle)

/-- Whatever is in the log ranks no higher than the best under its key. -/
theorem exists_best_of_mem (key : α → K) (rank : α → β) {a : α} (ha : a ∈ l) :
    ∃ b, best key rank l (key a) = some b ∧ rank a ≤ rank b := by
  have hmem : a ∈ l.filter fun b => key b = key a := List.mem_filter.mpr ⟨ha, by simp⟩
  obtain ⟨b, hb⟩ : ∃ b, best key rank l (key a) = some b :=
    Option.ne_none_iff_exists'.mp fun hnone =>
      List.ne_nil_of_mem hmem (List.argmax_eq_none.mp hnone)
  exact ⟨b, hb, List.le_of_mem_argmax hmem hb⟩

theorem best_rank_perm (key : α → K) (rank : α → β) {l' : List α} (h : l.Perm l') (k : K) :
    (best key rank l k).map rank = (best key rank l' k).map rank := by
  apply argmax_map_of_mem_iff
  intro a
  exact (h.filter _).mem_iff

theorem best_filter : best key rank (l.filter fun a => key a = k) k = best key rank l k := by
  simp [best]

end Keyed

end KeyedMaximum
