import Mathlib.Algebra.Order.Group.Defs
import Mathlib.Algebra.Order.Sub.Defs
import Mathlib.Data.List.Basic

/-!
Logs of events that are admitted at most so many in a window.
An event joins the log when the window that ends with it has room. The window moves
with the last event only, and yet every window of its width, wherever it stands, holds
at most as many events of the log.
-/
namespace SlidingWindow

variable {α : Type*} [AddCommGroup α] [LinearOrder α] [IsOrderedAddMonoid α]

/-- The events not older than the width at this time. -/
def recent (width : α) (log : List α) (now : α) : List α := log.filter fun t => now - width ≤ t

/-- Logs in the order of their events, each of them admitted with room in its window. -/
inductive Paced (limit : ℕ) (width : α) : List α → Prop
  | nil : Paced limit width []
  | pass (log : List α) (now : α) (h : Paced limit width log) (hlast : ∀ t ∈ log, t ≤ now)
      (hroom : (recent width log now).length < limit) : Paced limit width (log ++ [now])

omit [IsOrderedAddMonoid α] in
theorem recent_append (width : α) (log more : List α) (now : α) :
    recent width (log ++ more) now = recent width log now ++ recent width more now :=
  List.filter_append _ _

/-- What is recent later was recent before. -/
theorem recent_recent (width : α) (log : List α) {before now : α} (h : before ≤ now) :
    recent width (recent width log before) now = recent width log now := by
  rw [recent, recent, recent, List.filter_filter]
  refine List.filter_congr fun t _ => ?_
  have hcutoff : before - width ≤ now - width := sub_le_sub_right h width
  by_cases ht : now - width ≤ t
  · rw [decide_eq_true ht, decide_eq_true (hcutoff.trans ht)]
    rfl
  · rw [decide_eq_false ht]
    rfl

/-- In a sorted log the old events stand at the front. -/
theorem dropWhile_eq_recent (width : α) (log : List α) (h : log.Pairwise (· ≤ ·)) (now : α) :
    (log.dropWhile fun t => t < now - width) = recent width log now := by
  induction log with
  | nil => rfl
  | cons t rest ih =>
    obtain ⟨hfirst, hrest⟩ := List.pairwise_cons.mp h
    by_cases ht : t < now - width
    · have hold : ¬ now - width ≤ t := not_le.mpr ht
      rw [List.dropWhile_cons_of_pos (by simpa using ht), ih hrest, recent, recent,
        List.filter_cons_of_neg (by simpa using hold)]
    · have hall : ∀ s ∈ t :: rest, now - width ≤ s := by
        intro s hs
        rcases List.mem_cons.mp hs with rfl | hs
        · exact not_lt.mp ht
        · exact (not_lt.mp ht).trans (hfirst s hs)
      rw [List.dropWhile_cons_of_neg (by simpa using ht), recent]
      exact (List.filter_eq_self.mpr fun s hs => decide_eq_true (hall s hs)).symm

/-- Every window of the width holds at most the limit. -/
theorem Paced.length_window_le {limit : ℕ} {width : α} {log : List α} (h : Paced limit width log)
    (start : α) : (log.filter fun t => start ≤ t ∧ t ≤ start + width).length ≤ limit := by
  induction h with
  | nil => exact Nat.zero_le limit
  | pass log now _ hlast hroom ih =>
    rw [List.filter_append, List.length_append]
    by_cases hin : start ≤ now ∧ now ≤ start + width
    · -- Everything in this window is recent when the event is admitted.
      have hsub : (log.filter fun t => start ≤ t ∧ t ≤ start + width).length ≤
          (recent width log now).length := by
        apply (List.monotone_filter_right log _).length_le
        intro t ht
        rw [decide_eq_true_iff] at ht ⊢
        exact (sub_le_iff_le_add.mpr hin.2).trans ht.1
      have hone : ([now].filter fun t => start ≤ t ∧ t ≤ start + width).length ≤ 1 :=
        List.length_filter_le _ _
      omega
    · rw [List.filter_cons_of_neg (by simpa using hin)]
      exact ih

end SlidingWindow
