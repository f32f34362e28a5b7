import Mathlib.Data.Nat.Notation
import Mathlib.Logic.Relation
import Mathlib.Tactic.Basic

/-!
Next-hop tables ordered by freshness.
Nodes hold routes to a fixed origin, each with the sequence number of the
announcement it came from and a hop count. If the next hop has always seen
something at least as fresh, and is strictly closer where its own route is
equally fresh, following next hops never returns to where it started. A walk
counts the links it takes.
-/
namespace FreshRoutes

structure Route (N : Type*) where
  next : N
  seq : ℕ
  hops : ℕ

variable {N : Type*}

/-- The routes to one origin, and the freshest announcement each node has seen. -/
structure Snapshot (N : Type*) where
  route : N → Route N → Prop
  seen : N → Option ℕ

def NextHop (s : Snapshot N) (j i : N) : Prop := ∃ r, s.route j r ∧ r.next = i

/-- Fresher, or as fresh and closer to the origin. -/
def Better (r r' : Route N) : Prop := r'.seq < r.seq ∨ (r'.seq = r.seq ∧ r.hops < r'.hops)

structure Ordered (origin : N) (s : Snapshot N) : Prop where
  no_route : ∀ r, ¬ s.route origin r
  current : ∀ i r, s.route i r → s.seen i = some r.seq
  fresher : ∀ j r, s.route j r → r.next = origin ∨ ∃ m, s.seen r.next = some m ∧ r.seq ≤ m
  closer : ∀ j r r', s.route j r → s.route r.next r' → r'.seq = r.seq → r'.hops < r.hops

theorem Better.trans {r r' r'' : Route N} (h : Better r r') (h' : Better r' r'') :
    Better r r'' := by
  unfold Better at *
  omega

theorem not_better_self (r : Route N) : ¬ Better r r := by
  unfold Better
  omega

theorem Ordered.better {origin : N} {s : Snapshot N} (h : Ordered origin s) (j : N)
    (r r' : Route N) (hr : s.route j r) (hr' : s.route r.next r') : Better r' r := by
  rcases h.fresher j r hr with horigin | ⟨m, hseen, hle⟩
  · rw [horigin] at hr'
    exact absurd hr' (h.no_route r')
  · have hm : m = r'.seq := by
      rw [h.current _ r' hr'] at hseen
      exact (Option.some.inj hseen).symm
    rcases Nat.lt_or_ge r.seq r'.seq with hlt | hge
    · exact Or.inl hlt
    · have heq : r'.seq = r.seq := by omega
      exact Or.inr ⟨heq.symm, h.closer j r r' hr hr' heq⟩

/-- Along a path of next hops, routes only get better. -/
theorem Ordered.better_of_path {origin : N} {s : Snapshot N} (h : Ordered origin s) {j i : N}
    (hpath : Relation.TransGen (NextHop s) j i) :
    ∃ r, s.route j r ∧ ∀ r', s.route i r' → Better r' r := by
  induction hpath with
  | single hstep =>
    obtain ⟨r, hr, rfl⟩ := hstep
    exact ⟨r, hr, fun r' hr' => h.better _ r r' hr hr'⟩
  | tail _ hstep ih =>
    obtain ⟨r, hr, hbetter⟩ := ih
    obtain ⟨r₁, hr₁, rfl⟩ := hstep
    exact ⟨r, hr, fun r' hr' => (h.better _ r₁ r' hr₁ hr').trans (hbetter r₁ hr₁)⟩

/-- No node reaches itself by following next hops. -/
theorem Ordered.acyclic {origin : N} {s : Snapshot N} (h : Ordered origin s) (i : N) :
    ¬ Relation.TransGen (NextHop s) i i := by
  intro hcycle
  obtain ⟨r, hr, hbetter⟩ := h.better_of_path hcycle
  exact not_better_self r (hbetter r hr)

/-- A walk of exactly `n` links. -/
inductive Walk (link : N → N → Prop) : ℕ → N → N → Prop
  | here (i : N) : Walk link 0 i i
  | step {n : ℕ} {i j k : N} (hwalk : Walk link n i j) (hlink : link j k) : Walk link (n + 1) i k

end FreshRoutes
