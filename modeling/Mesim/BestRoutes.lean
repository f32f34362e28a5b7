import Mesim.KeyedMaximum
import Mesim.RouteLearning
import Mesim.RouteSources
import Mathlib.Data.Prod.Lex

/-!
What a table filled by update_route() holds.
Its three replacement rules keep, for each originator, the first of the calls with the
highest sequence number and among these the fewest hops.
-/
namespace Mesim.BestRoutes

open Transport Router RouteSources KeyedMaximum

/-- The arguments of a call. -/
structure UpdateRoute where
  originatorId : String
  nextHopId : String
  nextHopAddr : Addr
  hopCount : ℕ
  seqNum : ℕ
  timestamp : Timestamp
  deriving DecidableEq

namespace UpdateRoute

def entry (c : UpdateRoute) : RouteEntry where
  originatorId := c.originatorId
  nextHopId := c.nextHopId
  nextHopAddr := c.nextHopAddr
  hopCount := c.hopCount
  lastSeen := c.timestamp
  seqNum := c.seqNum

/-- (seq_num, -hop_count), compared lexicographically. -/
def rank (c : UpdateRoute) : ℕ ×ₗ ℤ := toLex (c.seqNum, -(c.hopCount : ℤ))

def call (r : MeshRouter) (c : UpdateRoute) : MeshRouter :=
  r.updateRoute c.originatorId c.nextHopId c.nextHopAddr c.hopCount c.seqNum c.timestamp

end UpdateRoute

/-- The router once its empty table has taken the calls. -/
def filled (r : MeshRouter) (calls : List UpdateRoute) : MeshRouter :=
  Runs.run UpdateRoute.call { r with routes := .empty } calls

open UpdateRoute

section Step

variable {r : MeshRouter} {c : UpdateRoute}

theorem rank_lt_iff {c c' : UpdateRoute} : c.rank < c'.rank ↔
    c.seqNum < c'.seqNum ∨ (c.seqNum = c'.seqNum ∧ c'.hopCount < c.hopCount) := by
  rw [rank, rank, Prod.Lex.toLex_lt_toLex]
  simp only
  omega

/-- Where the table has the entry of a call, another call improves it by ranking higher. -/
theorem improves_iff {best : Option UpdateRoute}
    (h : r.routes.get? c.originatorId = best.map entry) :
    Improves r c.originatorId c.seqNum c.hopCount ↔ ∀ b, best = some b → b.rank < c.rank := by
  rw [Improves, h]
  constructor
  · rintro himproves b rfl
    exact rank_lt_iff.mpr (himproves b.entry rfl)
  · intro hbetter existing hexisting
    obtain ⟨b, hb, rfl⟩ := Option.map_eq_some_iff.mp hexisting
    exact rank_lt_iff.mp (hbetter b hb)

end Step

section Table

variable (r : MeshRouter)

theorem filled_concat (calls : List UpdateRoute) (c : UpdateRoute) :
    filled r (calls ++ [c]) = call (filled r calls) c :=
  Runs.run_concat call _ calls c

/-- The table holds the best call of each originator. -/
theorem get?_filled (calls : List UpdateRoute) (oid : String) :
    (filled r calls).routes.get? oid = (best originatorId rank calls oid).map entry := by
  induction calls using List.reverseRecOn with
  | nil => rfl
  | append_singleton calls c ih =>
    rw [filled_concat]
    by_cases hself : c.originatorId = oid
    · subst hself
      by_cases himproves : Improves (filled r calls) c.originatorId c.seqNum c.hopCount
      · rw [best_concat_of_lt ((improves_iff ih).mp himproves), call,
          routes_updateRoute_improves _ _ _ _ _ _ _ himproves]
        exact OrderedDict.get?_set_self _ _ _
      · rw [call, updateRoute_not _ _ _ _ _ _ _ himproves, ih]
        rw [improves_iff ih] at himproves
        push Not at himproves
        obtain ⟨b, hbest, hle⟩ := himproves
        rw [best_concat_of_le hbest hle, hbest]
    · rw [best_concat_of_ne hself, ← ih, call]
      exact RouteLearning.updateRoute_other _ _ _ _ _ _ _ _ (Ne.symm hself)

/-- The entry of an originator is that of its first best call. -/
theorem get?_filled_iff (calls : List UpdateRoute) (oid : String) (e : RouteEntry) :
    (filled r calls).routes.get? oid = some e ↔
      ∃ c, FirstBest originatorId rank calls oid c ∧ c.entry = e := by
  simp only [get?_filled, Option.map_eq_some_iff, best_eq_some_iff]

/-- A call that was made before returns early. -/
theorem call_again {calls : List UpdateRoute} {c : UpdateRoute} (hc : c ∈ calls) :
    call (filled r calls) c = filled r calls := by
  apply updateRoute_not
  rw [improves_iff (get?_filled r calls c.originatorId)]
  intro hbetter
  obtain ⟨b, hbest, hle⟩ := exists_best_of_mem originatorId rank hc
  exact absurd (hbetter b hbest) (not_lt.mpr hle)

/-- In whatever order the calls come, an originator gets the same numbers. -/
theorem numbers_perm {calls calls' : List UpdateRoute} (hperm : calls.Perm calls') (oid : String) :
    ((filled r calls).routes.get? oid).map (fun e => (e.seqNum, e.hopCount)) =
      ((filled r calls').routes.get? oid).map (fun e => (e.seqNum, e.hopCount)) := by
  have hrank := best_rank_perm originatorId rank hperm oid
  have hnumbers : ∀ best : Option UpdateRoute,
      (best.map entry).map (fun e => (e.seqNum, e.hopCount)) =
        (best.map rank).map fun rank => ((ofLex rank).1, (-(ofLex rank).2).toNat) := by
    intro best
    rw [Option.map_map, Option.map_map]
    apply Option.map_congr
    intro c _
    simp [entry, UpdateRoute.rank]
  rw [get?_filled, get?_filled, hnumbers, hnumbers, hrank]

/-- An originator's entry is that of its own calls alone. -/
theorem get?_filled_own (calls : List UpdateRoute) (oid : String) :
    (filled r (calls.filter fun c => c.originatorId = oid)).routes.get? oid =
      (filled r calls).routes.get? oid := by
  rw [get?_filled, get?_filled, best_filter]

/-- The final entry of each originator is that of the first of its calls with the greatest
(seq_num, -hop_count). So it has the same numbers in any order of the calls, repeating a call
at any later time changes nothing, and the calls for the others make no difference. -/
theorem update_route_keeps_first_best (calls : List UpdateRoute) :
    (∀ oid e, (filled r calls).routes.get? oid = some e ↔
      ∃ c, FirstBest originatorId rank calls oid c ∧ c.entry = e) ∧
    (∀ c ∈ calls, ∃ e, (filled r calls).routes.get? c.originatorId = some e) ∧
    (∀ calls', calls.Perm calls' → ∀ oid,
      ((filled r calls).routes.get? oid).map (fun e => (e.seqNum, e.hopCount)) =
        ((filled r calls').routes.get? oid).map (fun e => (e.seqNum, e.hopCount))) ∧
    (∀ earlier later, earlier ++ later = calls → ∀ c ∈ earlier,
      filled r (earlier ++ c :: later) = filled r calls) ∧
    ∀ oid, (filled r (calls.filter fun c => c.originatorId = oid)).routes.get? oid =
      (filled r calls).routes.get? oid := by
  refine ⟨get?_filled_iff r calls, fun c hc => ?_, fun calls' hperm => numbers_perm r hperm,
    fun earlier later hsplit c hc => ?_, get?_filled_own r calls⟩
  · obtain ⟨b, hbest, _⟩ := exists_best_of_mem originatorId rank hc
    exact ⟨b.entry, by rw [get?_filled, hbest]; rfl⟩
  · rw [← hsplit, filled, filled, Runs.run_append, Runs.run_cons, Runs.run_append]
    exact congrArg (Runs.run call · later) (call_again r hc)

end Table

end Mesim.BestRoutes
