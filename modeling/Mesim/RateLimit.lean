import Mesim.OrderedDict
import Mesim.Runs
import Mesim.SlidingWindow
import Mathlib.Algebra.Order.Ring.Rat

/-!
The rate limiter of the device server.
Each client address has a bucket of times at which its requests were let through. A
request first evicts what is older than a minute, and is let through while the bucket
has room. With a clock that does not go back the bucket is the window of the last
minute, whatever the other addresses do.
-/
namespace Mesim.RateLimit

open SlidingWindow

section Model

structure Request where
  client : Option String
  time : ℚ
  deriving DecidableEq

/-- The buckets of `app.state.rate_buckets`. -/
abbrev Buckets := OrderedDict String (List ℚ)

inductive Response where
  | passed
  | json (statusCode : ℕ) (detail : String)
  deriving DecidableEq

def Request.clientIp (request : Request) : String := request.client.getD "unknown"

def bucketOf (buckets : Buckets) (clientIp : String) : List ℚ := (buckets.get? clientIp).getD []

/-- Evict timestamps older than 60 s. -/
def evict (bucket : List ℚ) (now : ℚ) : List ℚ := bucket.dropWhile fun t => t < now - 60

def rateLimit (requestsPerMinute : ℤ) (buckets : Buckets) (request : Request) : Buckets × Response :=
  let clientIp := request.clientIp
  let bucket := evict (bucketOf buckets clientIp) request.time
  if bucket.length ≥ requestsPerMinute then
    (buckets.set clientIp bucket, .json 429 "rate limit exceeded")
  else (buckets.set clientIp (bucket ++ [request.time]), .passed)

/-- The middleware is there for a positive limit only. -/
def handle (requestsPerMinute : ℤ) (buckets : Buckets) (request : Request) : Buckets × Response :=
  if requestsPerMinute > 0 then rateLimit requestsPerMinute buckets request else (buckets, .passed)

def step (requestsPerMinute : ℤ) (buckets : Buckets) (request : Request) : Buckets :=
  (handle requestsPerMinute buckets request).1

/-- The buckets of a new app after these requests. -/
def after (requestsPerMinute : ℤ) (requests : List Request) : Buckets :=
  Runs.run (step requestsPerMinute) .empty requests

/-- The request is let through after these. -/
def Passes (requestsPerMinute : ℤ) (requests : List Request) (request : Request) : Prop :=
  (handle requestsPerMinute (after requestsPerMinute requests) request).2 = .passed

instance (requestsPerMinute : ℤ) (requests : List Request) (request : Request) :
    Decidable (Passes requestsPerMinute requests request) := inferInstanceAs (Decidable (_ = _))

def passedAt (requestsPerMinute : ℤ) (clientIp : String) (visit : Buckets × Request) : Option ℚ :=
  if visit.2.clientIp = clientIp ∧ (handle requestsPerMinute visit.1 visit.2).2 = .passed then
    some visit.2.time
  else none

/-- The times at which requests from this address were let through. -/
def passedTimes (requestsPerMinute : ℤ) (requests : List Request) (clientIp : String) : List ℚ :=
  (Runs.visits (step requestsPerMinute) .empty requests).filterMap
    (passedAt requestsPerMinute clientIp)

end Model

section Steps

variable {R : ℤ} {buckets : Buckets} {request : Request}

theorem bucketOf_set_self (bucket : List ℚ) (clientIp : String) :
    bucketOf (buckets.set clientIp bucket) clientIp = bucket := by
  rw [bucketOf, OrderedDict.get?_set_self, Option.getD_some]

theorem bucketOf_set_of_ne (bucket : List ℚ) {clientIp clientIp' : String} (h : clientIp ≠ clientIp') :
    bucketOf (buckets.set clientIp bucket) clientIp' = bucketOf buckets clientIp' := by
  rw [bucketOf, OrderedDict.get?_set_of_ne buckets bucket h, bucketOf]

/-- A request is decided by the bucket of its own address. -/
theorem passed_iff (hR : 0 < R) : (handle R buckets request).2 = .passed ↔
    ((evict (bucketOf buckets request.clientIp) request.time).length : ℤ) < R := by
  rw [handle, if_pos hR, rateLimit]
  split
  · rename_i hfull
    exact iff_of_false (by simp) (not_lt.mpr hfull)
  · rename_i hroom
    exact iff_of_true rfl (not_le.mp hroom)

theorem bucketOf_step_self (hR : 0 < R) : bucketOf (step R buckets request) request.clientIp =
    evict (bucketOf buckets request.clientIp) request.time ++
      if (handle R buckets request).2 = .passed then [request.time] else [] := by
  rw [step, handle, if_pos hR, rateLimit]
  split
  · rw [bucketOf_set_self]
    simp
  · rw [bucketOf_set_self]
    simp

/-- It leaves the buckets of the other addresses alone. -/
theorem bucketOf_step_other (clientIp : String) (h : request.clientIp ≠ clientIp) :
    bucketOf (step R buckets request) clientIp = bucketOf buckets clientIp := by
  rw [step, handle]
  split
  · rw [rateLimit]
    split
    · exact bucketOf_set_of_ne _ h
    · exact bucketOf_set_of_ne _ h
  · rfl

theorem after_concat (requests : List Request) (request : Request) :
    after R (requests ++ [request]) = step R (after R requests) request :=
  Runs.run_concat _ _ _ _

theorem passedTimes_concat (requests : List Request) (request : Request) (clientIp : String) :
    passedTimes R (requests ++ [request]) clientIp = passedTimes R requests clientIp ++
      if request.clientIp = clientIp ∧ Passes R requests request then [request.time] else [] := by
  rw [passedTimes, Runs.visits_concat, List.filterMap_append]
  apply congrArg
  by_cases hpassed : request.clientIp = clientIp ∧ Passes R requests request
  · have hat : passedAt R clientIp (after R requests, request) = some request.time := if_pos hpassed
    rw [if_pos hpassed]
    exact List.filterMap_cons_some hat
  · have hat : passedAt R clientIp (after R requests, request) = none := if_neg hpassed
    rw [if_neg hpassed]
    exact List.filterMap_cons_none hat

end Steps

section Windows

variable {R : ℤ}

/-- The bucket of an address against the times at which its requests were let through: the same
from the last of all requests on. -/
structure Tracks (R : ℕ) (times bucket log : List ℚ) : Prop where
  sorted : bucket.Pairwise (· ≤ ·)
  logged : ∀ t ∈ bucket, t ∈ log
  made : ∀ t ∈ log, t ∈ times
  paced : Paced R 60 log
  agrees : ∀ now, (∀ t ∈ times, t ≤ now) → recent 60 bucket now = recent 60 log now

theorem tracks_nil (R : ℕ) : Tracks R [] [] [] where
  sorted := List.Pairwise.nil
  logged _ ht := ht
  made _ ht := ht
  paced := .nil
  agrees _ _ := rfl

/-- A request of another address. -/
theorem Tracks.other {R : ℕ} {times bucket log : List ℚ} (h : Tracks R times bucket log) (now : ℚ) :
    Tracks R (times ++ [now]) bucket log where
  sorted := h.sorted
  logged := h.logged
  made t ht := List.mem_append_left _ (h.made t ht)
  paced := h.paced
  agrees later hlater := h.agrees later fun t ht => hlater t (List.mem_append_left _ ht)

/-- At any request the evicted bucket is the window of the last minute. -/
theorem Tracks.evict {R : ℕ} {times bucket log : List ℚ} (h : Tracks R times bucket log) (now : ℚ)
    (hnow : ∀ t ∈ times, t ≤ now) : evict bucket now = recent 60 log now := by
  rw [← h.agrees now hnow]
  exact dropWhile_eq_recent 60 bucket h.sorted now

theorem Tracks.refused {R : ℕ} {times bucket log : List ℚ} (h : Tracks R times bucket log) (now : ℚ)
    (hnow : ∀ t ∈ times, t ≤ now) : Tracks R (times ++ [now]) (RateLimit.evict bucket now) log where
  sorted := h.sorted.sublist (List.dropWhile_sublist _)
  logged t ht := h.logged t ((List.dropWhile_sublist _).subset ht)
  made t ht := List.mem_append_left _ (h.made t ht)
  paced := h.paced
  agrees later hlater := by
    rw [h.evict now hnow]
    exact recent_recent 60 log (hlater now (by simp))

theorem Tracks.admitted {R : ℕ} {times bucket log : List ℚ} (h : Tracks R times bucket log) (now : ℚ)
    (hnow : ∀ t ∈ times, t ≤ now) (hroom : (RateLimit.evict bucket now).length < R) :
    Tracks R (times ++ [now]) (RateLimit.evict bucket now ++ [now]) (log ++ [now]) := by
  have hrefused := h.refused now hnow
  constructor
  · rw [List.pairwise_append]
    refine ⟨hrefused.sorted, List.pairwise_singleton _ _, fun t ht t' ht' => ?_⟩
    rw [List.mem_singleton.mp ht']
    exact hnow t (h.made t (hrefused.logged t ht))
  · intro t ht
    rcases List.mem_append.mp ht with hold | hnew
    · exact List.mem_append_left _ (hrefused.logged t hold)
    · exact List.mem_append_right _ hnew
  · intro t ht
    rcases List.mem_append.mp ht with hold | hnew
    · exact List.mem_append_left _ (h.made t hold)
    · exact List.mem_append_right _ hnew
  · apply h.paced.pass log now
    · exact fun t ht => hnow t (h.made t ht)
    · rw [← h.evict now hnow]
      exact hroom
  · intro later hlater
    rw [recent_append, recent_append, hrefused.agrees later hlater]

theorem tracks_after (R : ℕ) (hR : 0 < R) (requests : List Request)
    (hclock : (requests.map Request.time).Pairwise (· ≤ ·)) (clientIp : String) :
    Tracks R (requests.map Request.time) (bucketOf (after R requests) clientIp)
      (passedTimes R requests clientIp) := by
  induction requests using List.reverseRecOn with
  | nil => exact tracks_nil R
  | append_singleton requests request ih =>
    rw [List.map_append, List.map_singleton] at hclock ⊢
    obtain ⟨hsorted, _, hbefore⟩ := List.pairwise_append.mp hclock
    have hnow : ∀ t ∈ requests.map Request.time, t ≤ request.time :=
      fun t ht => hbefore t ht request.time (by simp)
    have h := ih hsorted
    have hlimit : 0 < (R : ℤ) := Int.natCast_pos.mpr hR
    rw [after_concat, passedTimes_concat]
    by_cases hip : request.clientIp = clientIp
    · subst hip
      rw [bucketOf_step_self hlimit]
      by_cases hpassed : (handle R (after R requests) request).2 = .passed
      · rw [if_pos hpassed, if_pos ⟨rfl, hpassed⟩]
        exact h.admitted request.time hnow (Int.ofNat_lt.mp ((passed_iff hlimit).mp hpassed))
      · rw [if_neg hpassed, if_neg fun hboth => hpassed hboth.2, List.append_nil, List.append_nil]
        exact h.refused request.time hnow
    · rw [bucketOf_step_other clientIp hip, if_neg fun hboth => hip hboth.1, List.append_nil]
      exact h.other request.time

/-- The bucket of an address comes of its own requests. -/
theorem bucketOf_after_filter (hR : 0 < R) (requests : List Request) (clientIp : String) :
    bucketOf (after R requests) clientIp =
      bucketOf (after R (requests.filter fun request => request.clientIp = clientIp)) clientIp := by
  induction requests using List.reverseRecOn with
  | nil => rfl
  | append_singleton requests request ih =>
    rw [after_concat, List.filter_append]
    by_cases hip : request.clientIp = clientIp
    · subst hip
      rw [List.filter_cons_of_pos (by simp), List.filter_nil, after_concat,
        bucketOf_step_self hR, bucketOf_step_self hR, ← ih]
      apply congrArg
      refine if_congr ?_ rfl rfl
      rw [passed_iff hR, passed_iff hR, ← ih]
    · rw [List.filter_cons_of_neg (by simpa using hip), List.filter_nil, List.append_nil,
        bucketOf_step_other clientIp hip, ih]

end Windows

section Results

theorem passes_iff_room (R : ℕ) (hR : 0 < R) (done : List Request) (request : Request)
    (hclock : ((done ++ [request]).map Request.time).Pairwise (· ≤ ·)) :
    Passes R done request ↔ (((passedTimes R done request.clientIp).filter fun t =>
      request.time - 60 ≤ t ∧ t ≤ request.time).length : ℤ) < R := by
  rw [List.map_append, List.map_singleton] at hclock
  obtain ⟨hbefore, _, hlast⟩ := List.pairwise_append.mp hclock
  have hnow : ∀ t ∈ done.map Request.time, t ≤ request.time :=
    fun t ht => hlast t ht request.time (by simp)
  have htracks := tracks_after R hR done hbefore request.clientIp
  have hwindow : ∀ t ∈ passedTimes R done request.clientIp,
      decide (request.time - 60 ≤ t) = decide (request.time - 60 ≤ t ∧ t ≤ request.time) := by
    intro t ht
    have hearlier := hnow t (htracks.made t ht)
    simp only [hearlier, and_true]
  rw [Passes, passed_iff (by omega), htracks.evict request.time hnow, recent,
    List.filter_congr hwindow]

theorem window_le (R : ℕ) (hR : 0 < R) (requests : List Request)
    (hclock : (requests.map Request.time).Pairwise (· ≤ ·)) (clientIp : String) (start : ℚ) :
    (((passedTimes R requests clientIp).filter fun t =>
      start ≤ t ∧ t ≤ start + 60).length : ℤ) ≤ R := by
  apply Int.ofNat_le.mpr
  exact (tracks_after R hR requests hclock clientIp).paced.length_window_le start

/-- No clock is needed for that. -/
theorem passes_iff_own {R : ℤ} (hR : 0 < R) (done : List Request) (request : Request) :
    Passes R done request ↔
      Passes R (done.filter fun earlier => earlier.clientIp = request.clientIp) request := by
  rw [Passes, Passes, passed_iff hR, passed_iff hR, bucketOf_after_filter hR done]

/-- With a clock that does not go back, a request is let through exactly when fewer than the limit of
its address's were in the last minute. So every minute has at most the limit of an address's, and
the requests of the other addresses do not matter. -/
theorem exact_sliding_window (R : ℤ) (hR : 1 ≤ R) (requests : List Request)
    (hclock : (requests.map Request.time).Pairwise (· ≤ ·)) :
    (∀ done request, done ++ [request] <+: requests →
      (Passes R done request ↔ (((passedTimes R done request.clientIp).filter fun t =>
        request.time - 60 ≤ t ∧ t ≤ request.time).length : ℤ) < R)) ∧
    (∀ clientIp start, (((passedTimes R requests clientIp).filter fun t =>
      start ≤ t ∧ t ≤ start + 60).length : ℤ) ≤ R) ∧
    ∀ done request, done ++ [request] <+: requests →
      (Passes R done request ↔
        Passes R (done.filter fun earlier => earlier.clientIp = request.clientIp) request) := by
  obtain ⟨n, rfl⟩ := Int.eq_ofNat_of_zero_le (by omega : 0 ≤ R)
  have hlimit : 0 < n := by omega
  refine ⟨fun done request hdone => ?_, window_le n hlimit requests hclock,
    fun done request _ => passes_iff_own (by omega) done request⟩
  apply passes_iff_room n hlimit done request
  exact hclock.sublist (hdone.sublist.map Request.time)

/-- Two of three requests within a minute pass, and one more at the end of it does not; a moment
later it does. -/
theorem exact_sliding_window_two : ∃ requests : List Request,
    passedTimes 2 requests "10.0.0.7" = [0, 30, 61] ∧
      ((passedTimes 2 requests "10.0.0.7").filter fun t => 0 ≤ t ∧ t ≤ (0 : ℚ) + 60).length ≤ (2 : ℤ) := by
  let requests : List Request := [⟨some "10.0.0.7", 0⟩, ⟨none, 0⟩, ⟨some "10.0.0.7", 30⟩,
    ⟨some "10.0.0.7", 30⟩, ⟨some "10.0.0.7", 60⟩, ⟨some "10.0.0.7", 61⟩]
  refine ⟨requests, by decide +kernel, ?_⟩
  exact (exact_sliding_window 2 (by decide) requests (by decide +kernel)).2.1 "10.0.0.7" 0

end Results

end Mesim.RateLimit
