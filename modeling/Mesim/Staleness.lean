import Mesim.RouteTimes

/-!
By which clock a route is stale.
The time that an entry carries is the one its originator has put into the packet, while
route_to() and purge_stale() measure it by the local clock. A route is found for the sixty
seconds after its announcement has been taken in, no more and no less, in exactly the runs
in which every announcement carries the local time at which it is taken in.
-/
namespace Mesim.Staleness

open Octets TextCodec Crypto Identity Packet Transport Router RouterPackets OriginatorSignatures
open RouteTables RouteLearning RouteTimes MeshTransport RouterOutcome

variable (C : Suite)

/-- The local time of a call that takes in an announcement of this originator. -/
def takenAt (key : String) (visit : MeshRouter × ℚ × Call) : Option ℚ :=
  (takesIn C visit.1 visit.2).bind fun o => if oidStr o = key then some visit.2.1 else none

/-- When the calls have last taken in an announcement of this originator. -/
def lastTaken (key : String) (r : MeshRouter) (calls : List (ℚ × Call)) : Option ℚ :=
  ((Runs.visits (callStep C) r calls).filterMap (takenAt C key)).getLast?

/-- After the calls, at every local time from then on, route_to() finds those of whom an
announcement has been taken in no more than a minute ago. -/
def Measured (r : MeshRouter) (calls : List (ℚ × Call)) : Prop :=
  ∀ now : ℚ, (∀ c ∈ calls, c.1 ≤ now) → ∀ key,
    ((Runs.run (callStep C) r calls).routeTo now key).isSome ↔
      ∃ time, lastTaken C key r calls = some time ∧ now - staleRouteSeconds ≤ time

/-- The call takes in an announcement only with the local time as its timestamp. -/
def Punctual (r : MeshRouter) (c : ℚ × Call) : Prop :=
  ∀ o, takesIn C r c = some o → o.timestamp.value = .finite c.1

section Run

variable {C} {r : MeshRouter} {calls : List (ℚ × Call)} {c : ℚ × Call} {key : String}

theorem lastTaken_concat (r : MeshRouter) (calls : List (ℚ × Call)) (c : ℚ × Call) (key : String) :
    lastTaken C key r (calls ++ [c]) =
      (takenAt C key (Runs.run (callStep C) r calls, c)).or (lastTaken C key r calls) := by
  rw [lastTaken, Runs.visits_concat, List.filterMap_append, List.getLast?_append]
  cases hlast : takenAt C key (Runs.run (callStep C) r calls, c) with
  | none =>
    rw [List.filterMap_cons_none hlast]
    rfl
  | some time =>
    rw [List.filterMap_cons_some hlast]
    rfl

/-- What the table has of an originator, when every announcement has been punctual: its last
announcement, or nothing if there was none or a purge has found it stale. -/
inductive Dated (calls : List (ℚ × Call)) (entry : Option RouteEntry) : Option ℚ → Prop
  | never (hentry : entry = none) : Dated calls entry none
  | known (time : ℚ) (e : RouteEntry) (hentry : entry = some e)
      (hseen : e.lastSeen.value = .finite time) : Dated calls entry (some time)
  | purged (time : ℚ) (hentry : entry = none) (c : ℚ × Call) (hc : c ∈ calls)
      (hstale : time < c.1 - staleRouteSeconds) : Dated calls entry (some time)

theorem before_finite {t : Timestamp} {value : ℚ} (h : t.value = .finite value) (bound : ℚ) :
    t.before bound = true ↔ value < bound := by
  rw [Timestamp.before, h]
  exact decide_eq_true_iff

theorem Dated.later {entry : Option RouteEntry} {last : Option ℚ} (h : Dated calls entry last)
    (c : ℚ × Call) : Dated (calls ++ [c]) entry last := by
  cases h with
  | never hentry => exact .never hentry
  | known time e hentry hseen => exact .known time e hentry hseen
  | purged time hentry c' hc hstale =>
    exact .purged time hentry c' (List.mem_append_left _ hc) hstale

theorem Dated.purge {entry : Option RouteEntry} {last : Option ℚ} (h : Dated calls entry last)
    (c : ℚ × Call) : Dated (calls ++ [c])
      (entry.filter fun e => !e.lastSeen.before (c.1 - staleRouteSeconds)) last := by
  cases h with
  | never hentry =>
    rw [hentry]
    exact .never rfl
  | known time e hentry hseen =>
    rw [hentry, Option.filter_some]
    cases hstale : e.lastSeen.before (c.1 - staleRouteSeconds) with
    | false => exact .known time e rfl hseen
    | true =>
      exact .purged time rfl c (List.mem_append_right _ (List.mem_singleton_self c))
        ((before_finite hseen _).mp hstale)
  | purged time hentry c' hc hstale =>
    rw [hentry]
    exact .purged time rfl c' (List.mem_append_left _ hc) hstale

theorem dated_step (hbehind : Behind (Runs.run (callStep C) r calls))
    (hdated : Dated calls ((Runs.run (callStep C) r calls).routes.get? key) (lastTaken C key r calls))
    (hpunctual : Punctual C (Runs.run (callStep C) r calls) c) :
    Dated (calls ++ [c]) ((Runs.run (callStep C) r (calls ++ [c])).routes.get? key)
      (lastTaken C key r (calls ++ [c])) := by
  rw [lastTaken_concat, Runs.run_concat]
  generalize Runs.run (callStep C) r calls = s at hbehind hdated hpunctual
  cases htakes : takesIn C s c with
  | some o =>
    obtain ⟨nextHopId, fromAddr, hroutes⟩ := routes_taken hbehind htakes
    rw [hroutes]
    by_cases hkey : oidStr o = key
    · have htime : takenAt C key (s, c) = some c.1 := by
        rw [takenAt, htakes, Option.bind_some, if_pos hkey]
      subst hkey
      rw [htime, OrderedDict.get?_set_self, Option.some_or]
      exact .known c.1 _ rfl (hpunctual o htakes)
    · have htime : takenAt C key (s, c) = none := by
        rw [takenAt, htakes, Option.bind_some, if_neg hkey]
      rw [htime, OrderedDict.get?_set_of_ne _ _ hkey, Option.none_or]
      exact hdated.later c
  | none =>
    have htime : takenAt C key (s, c) = none := by
      rw [takenAt, htakes, Option.bind_none]
    rw [htime, Option.none_or]
    by_cases hpurge : c.2.isPurge = true
    · obtain ⟨now, call⟩ := c
      cases call with
      | purgeStale =>
        show Dated _ ((s.purgeStale now).routes.get? key) _
        rw [purgeStale_get?]
        exact hdated.purge (now, .purgeStale)
      | broadcastOriginator _ _ | handleOriginator _ _ _ _ | registerBundle _ _ => cases hpurge
    · rw [routes_untaken htakes (Bool.eq_false_of_not_eq_true hpurge)]
      exact hdated.later c

theorem behind_calls (r : MeshRouter) (calls : List (ℚ × Call)) (h : Behind r) :
    Behind (Runs.run (callStep C) r calls) :=
  Runs.invariant_of_step (behind_callStep C) r calls h

theorem dated_run (identity : DeviceIdentity) (maxHops : ℕ) (calls : List (ℚ × Call))
    (hpunctual : Runs.Always (callStep C) (Punctual C) (MeshRouter.init identity maxHops) calls)
    (key : String) :
    Dated calls ((Runs.run (callStep C) (MeshRouter.init identity maxHops) calls).routes.get? key)
      (lastTaken C key (MeshRouter.init identity maxHops) calls) := by
  rw [Runs.always_iff] at hpunctual
  induction calls using List.reverseRecOn with
  | nil => exact .never rfl
  | append_singleton calls c ih =>
    refine dated_step (behind_calls _ calls (behind_init identity maxHops)) (ih ?_)
      (hpunctual calls c (List.prefix_refl _))
    exact fun done l hdone => hpunctual done l (hdone.trans (List.prefix_append calls [c]))

/-- From a dated table route_to() finds what the local clock says. -/
theorem measured_of_dated
    (hdated : ∀ key, Dated calls ((Runs.run (callStep C) r calls).routes.get? key)
      (lastTaken C key r calls)) : Measured C r calls := by
  intro now hnow key
  rw [Option.isSome_iff_exists]
  simp only [routeTo_eq_some_iff]
  have hkey := hdated key
  generalize (Runs.run (callStep C) r calls).routes.get? key = entry at hkey
  generalize lastTaken C key r calls = last at hkey
  cases hkey with
  | never hentry => simp [hentry]
  | known time e hentry hseen =>
    have hfresh : e.lastSeen.before (now - staleRouteSeconds) = false ↔
        now - staleRouteSeconds ≤ time := by
      rw [← Bool.not_eq_true, before_finite hseen, not_lt]
    constructor
    · rintro ⟨e', heq, hbefore⟩
      cases Option.some.inj (hentry.symm.trans heq)
      exact ⟨time, rfl, hfresh.mp hbefore⟩
    · rintro ⟨time', heq, hle⟩
      cases heq
      exact ⟨e, hentry, hfresh.mpr hle⟩
  | purged time hentry c hc hstale =>
    apply iff_of_false (by simp [hentry])
    rintro ⟨time', heq, hle⟩
    cases heq
    have hlater := hnow c hc
    linarith

/-- A timestamp that goes stale as the local time would is that time. -/
theorem value_of_age (t : Timestamp) (time : ℚ) (h : ∀ now, time ≤ now →
    (t.before (now - staleRouteSeconds) = false ↔ now - staleRouteSeconds ≤ time)) :
    t.value = .finite time := by
  have hminute : (0 : ℚ) < staleRouteSeconds := by norm_num
  have hfresh := h (time + staleRouteSeconds) (by linarith)
  have hstale := h (time + staleRouteSeconds + 1) (by linarith)
  have hnow := h time le_rfl
  cases hvalue : t.value with
  | finite value =>
    simp only [Timestamp.before, hvalue, decide_eq_false_iff_not, not_lt] at h hfresh
    have hle : time ≤ value := by linarith [hfresh.mpr (by linarith)]
    have hlater := (h (value + staleRouteSeconds) (by linarith)).mp (by linarith)
    have heq : value = time := le_antisymm (by linarith) hle
    rw [heq]
  | infinite negative =>
    cases negative with
    | false =>
      simp only [Timestamp.before, hvalue, true_iff] at hstale
      linarith
    | true =>
      simp only [Timestamp.before, hvalue, Bool.true_eq_false, false_iff, not_le] at hnow
      linarith
  | notANumber =>
    simp only [Timestamp.before, hvalue, true_iff] at hstale
    linarith

theorem value_of_measured {o : Originator} (hbehind : Behind (Runs.run (callStep C) r calls))
    (hsorted : ∀ c' ∈ calls, c'.1 ≤ c.1) (htakes : takesIn C (Runs.run (callStep C) r calls) c = some o)
    (hmeasured : Measured C r (calls ++ [c])) : o.timestamp.value = .finite c.1 := by
  obtain ⟨nextHopId, fromAddr, hroutes⟩ := routes_taken hbehind htakes
  have htime : takenAt C (oidStr o) (Runs.run (callStep C) r calls, c) = some c.1 := by
    rw [takenAt, htakes, Option.bind_some, if_pos rfl]
  refine value_of_age o.timestamp c.1 fun now hnow => ?_
  have hall : ∀ c' ∈ calls ++ [c], c'.1 ≤ now := by
    intro c' hc'
    rcases List.mem_append.mp hc' with hc' | hc'
    · exact (hsorted c' hc').trans hnow
    · rw [List.mem_singleton.mp hc']
      exact hnow
  have hfound := hmeasured now hall (oidStr o)
  rw [lastTaken_concat, htime, Option.some_or, Runs.run_concat, Option.isSome_iff_exists] at hfound
  simp only [routeTo_eq_some_iff, hroutes, OrderedDict.get?_set_self, Option.some.injEq,
    exists_eq_left', entryOf] at hfound
  exact hfound

end Run

section Clocks

/-- In every run of a router whose clock does not run backwards, route_to() goes by the local
time of receipt at every moment exactly when every announcement that is taken in carries that
time. -/
theorem measured_iff (identity : DeviceIdentity) (maxHops : ℕ) (calls : List (ℚ × Call))
    (hsorted : (calls.map Prod.fst).Pairwise (· ≤ ·)) :
    (∀ done, done <+: calls → Measured C (MeshRouter.init identity maxHops) done) ↔
      ∀ done c, done ++ [c] <+: calls → ∀ o,
        takesIn C (Runs.run (callStep C) (MeshRouter.init identity maxHops) done) c = some o →
          o.timestamp.value = .finite c.1 := by
  constructor
  · intro hmeasured done c hdone o htakes
    refine value_of_measured (behind_calls _ done (behind_init identity maxHops)) (fun c' hc' => ?_)
      htakes (hmeasured _ hdone)
    have hpairs := hsorted.sublist (hdone.sublist.map Prod.fst)
    rw [List.map_append, List.pairwise_append] at hpairs
    exact hpairs.2.2 _ (List.mem_map_of_mem hc') _ (List.mem_singleton_self _)
  · intro hpunctual done hdone
    refine measured_of_dated fun key => dated_run identity maxHops done ?_ key
    rw [Runs.always_iff]
    exact fun before c hbefore => hpunctual before c (hbefore.trans hdone)

end Clocks

section Stub

open Honest RouterNetwork

/-- The second router hears of the first, whose clock stands at zero. -/
def hearing : Call :=
  .handleOriginator (duoTransport true) forgedPayload alphaAddr (duo.senderId false).toList

def listener : MeshRouter := MeshRouter.init (duo.identity true) defaultMaxHops

theorem takesIn_hearing (now : ℚ) : takesIn stub listener (now, hearing) = some forged := by
  have htakes : takesIn stub listener (0, hearing) = some forged := by decide +kernel
  exact htakes

theorem value_epoch : forged.timestamp.value = .finite 0 := by decide +kernel

/-- While both clocks stand at zero, the route is found for a minute. -/
theorem measured_iff_duo : Measured stub listener [(0, hearing)] := by
  refine (measured_iff stub (duo.identity true) defaultMaxHops [(0, hearing)]
    (List.pairwise_singleton _ _)).mpr (fun done c hdone o htakes => ?_) _ (List.prefix_refl _)
  have hlen := hdone.length_le
  rw [List.length_append, List.length_singleton, List.length_singleton] at hlen
  have hnil : done = [] := List.length_eq_zero_iff.mp (by omega)
  subst hnil
  cases (List.cons_prefix_cons.mp hdone).1
  cases (takesIn_hearing 0).symm.trans htakes
  exact value_epoch

/-- A node that has just been heard of is not found, because its own clock is behind. -/
theorem late_clock_not_found : ¬ Measured stub listener [(1000, hearing)] ∧
    lastTaken stub (oidStr forged) listener [(1000, hearing)] = some 1000 ∧
    (callStep stub listener (1000, hearing)).routeTo 1000 (oidStr forged) = none := by
  refine ⟨fun hmeasured => ?_, by decide +kernel, by decide +kernel⟩
  have hvalue := @value_of_measured stub listener [] (1000, hearing) forged (behind_init _ _)
    (fun _ h => absurd h List.not_mem_nil) (takesIn_hearing 1000) hmeasured
  rw [value_epoch] at hvalue
  exact absurd (FloatValue.finite.inj hvalue) (by decide)

end Stub

end Mesim.Staleness
