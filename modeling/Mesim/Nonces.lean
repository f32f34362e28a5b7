import Mesim.Crypto
import Mesim.Runs

/-!
The counter behind the deterministic nonces.
`next_nonce` takes a value and advances the counter under a lock, and packs the
value outside it. So callers on several threads are served in some order, the one
in which they get the lock, and each nonce is a function of its place in this order.
-/
namespace Mesim.Nonces

open Octets Crypto
open scoped List

/-- The prefix is os.urandom(4). -/
structure NonceCounter where
  noncePrefix : Fixed 4
  counter : ℕ
  deriving DecidableEq

def init (urandom : Fixed 4) : NonceCounter := { noncePrefix := urandom, counter := 0 }

/-- `struct.pack(">Q", n)`. -/
def packQ (n : ℕ) : Except PyError Bytes :=
  if n < 2 ^ 64 then .ok (packBE 8 n) else .error .structError

/-- The block under the lock: the error, or the value of `n`. -/
def takeValue (self : NonceCounter) : Except PyError ℕ × NonceCounter :=
  if self.counter ≥ 2 ^ 64 - 1 then
    (.error (.overflowError "NonceCounter exhausted — rotate session key"), self)
  else (.ok self.counter, { self with counter := self.counter + 1 })

/-- What the call returns once it has its `n`. -/
def packNonce (self : NonceCounter) (n : ℕ) : Except PyError Bytes := do
  let field ← packQ n
  return self.noncePrefix.toList ++ field

def nextNonce (self : NonceCounter) : Except PyError Bytes × NonceCounter :=
  match takeValue self with
  | (.error e, self) => (.error e, self)
  | (.ok n, self) => (packNonce self n, self)

section Callers

variable {Caller : Type}

/-- A counter and what its calls came to so far. -/
structure Served (Caller : Type) where
  counter : NonceCounter
  results : List (Caller × Except PyError Bytes)

def serve (s : Served Caller) (caller : Caller) : Served Caller :=
  let (result, counter) := nextNonce s.counter
  { counter := counter, results := s.results ++ [(caller, result)] }

/-- One call after the other. -/
def serial (urandom : Fixed 4) (callers : List Caller) : Served Caller :=
  Runs.run serve { counter := init urandom, results := [] } callers

def nonces (results : List (Caller × Except PyError Bytes)) : List Bytes :=
  results.filterMap fun result => result.2.toOption

/-- The last eight bytes of a nonce as a number. -/
def counterField (nonce : Bytes) : ℕ := unpackBE (nonce.drop 4)

/-- A caller gets the lock and leaves its block, or packs and returns. -/
inductive Step (Caller : Type) where
  | locked (caller : Caller)
  | packed (caller : Caller)

/-- The callers that are past the lock, each with its `n`, and what the others have got. -/
structure Threads (Caller : Type) where
  counter : NonceCounter
  packing : List (Caller × ℕ)
  returned : List (Caller × Except PyError Bytes)

def Threads.start (urandom : Fixed 4) : Threads Caller :=
  { counter := init urandom, packing := [], returned := [] }

/-- A caller is in one call at a time. -/
def Threads.step [DecidableEq Caller] (s : Threads Caller) : Step Caller → Threads Caller
  | .locked caller =>
    if caller ∈ s.packing.map Prod.fst then s
    else match takeValue s.counter with
      | (.error e, counter) =>
        { s with counter := counter, returned := s.returned ++ [(caller, .error e)] }
      | (.ok n, counter) => { s with counter := counter, packing := s.packing ++ [(caller, n)] }
  | .packed caller =>
    match s.packing.find? fun entry => entry.1 = caller with
    | none => s
    | some entry =>
      { s with
        packing := s.packing.erase entry
        returned := s.returned ++ [(entry.1, packNonce s.counter entry.2)] }

/-- What the callers past the lock are about to get. -/
def Threads.underway (s : Threads Caller) : List (Caller × Except PyError Bytes) :=
  s.packing.map fun entry => (entry.1, packNonce s.counter entry.2)

end Callers

section Values

variable {self : NonceCounter}

/-- What the call in a given place comes to. -/
def resultAt (urandom : Fixed 4) (i : ℕ) : Except PyError Bytes :=
  if i < 2 ^ 64 - 1 then .ok (urandom.toList ++ packBE 8 i)
  else .error (.overflowError "NonceCounter exhausted — rotate session key")

theorem takeValue_available (h : self.counter < 2 ^ 64 - 1) :
    takeValue self = (.ok self.counter, { self with counter := self.counter + 1 }) := by
  rw [takeValue, if_neg (by omega)]

/-- The guard stands one value below the width of the field. -/
theorem takeValue_exhausted (h : 2 ^ 64 - 1 ≤ self.counter) :
    takeValue self =
      (.error (.overflowError "NonceCounter exhausted — rotate session key"), self) := by
  rw [takeValue, if_pos h]

theorem packNonce_fits {n : ℕ} (h : n < 2 ^ 64) :
    packNonce self n = .ok (self.noncePrefix.toList ++ packBE 8 n) := by
  rw [packNonce, packQ, if_pos h]
  rfl

theorem takeValue_noncePrefix : (takeValue self).2.noncePrefix = self.noncePrefix := by
  rw [takeValue]
  split <;> rfl

theorem nextNonce_available (h : self.counter < 2 ^ 64 - 1) :
    nextNonce self = (.ok (self.noncePrefix.toList ++ packBE 8 self.counter),
      { self with counter := self.counter + 1 }) := by
  have hpack : packNonce { self with counter := self.counter + 1 } self.counter =
      .ok (self.noncePrefix.toList ++ packBE 8 self.counter) := packNonce_fits (by omega)
  simp only [nextNonce, takeValue_available h, hpack]

theorem nextNonce_exhausted (h : 2 ^ 64 - 1 ≤ self.counter) :
    nextNonce self =
      (.error (.overflowError "NonceCounter exhausted — rotate session key"), self) := by
  simp only [nextNonce, takeValue_exhausted h]

theorem counterField_packed (urandom : Fixed 4) {i : ℕ} (h : i < 2 ^ 64) :
    counterField (urandom.toList ++ packBE 8 i) = i := by
  rw [counterField, List.drop_left' urandom.toList_length]
  exact unpackBE_packBE 8 i (by omega)

end Values

section Serial

variable {Caller : Type}

/-- In the i-th place the counter stands at i until it is exhausted. -/
theorem serial_eq (urandom : Fixed 4) (callers : List Caller) :
    serial urandom callers =
      { counter := { noncePrefix := urandom, counter := min callers.length (2 ^ 64 - 1) }
        results := callers.mapIdx fun i caller => (caller, resultAt urandom i) } := by
  induction callers using List.reverseRecOn with
  | nil => rfl
  | append_singleton callers caller ih =>
    rw [serial] at ih ⊢
    rw [Runs.run_concat, ih, serve, List.mapIdx_concat, List.length_append, List.length_singleton]
    by_cases hleft : callers.length < 2 ^ 64 - 1
    · rw [nextNonce_available (by simp only; omega), resultAt, if_pos hleft]
      simp only [Served.mk.injEq, NonceCounter.mk.injEq, true_and]
      have hmin : min callers.length (2 ^ 64 - 1) = callers.length := by omega
      exact ⟨by omega, by rw [hmin]⟩
    · rw [nextNonce_exhausted (by simp only; omega), resultAt, if_neg hleft]
      simp only [Served.mk.injEq, NonceCounter.mk.injEq, true_and, and_true]
      omega

theorem serial_concat (urandom : Fixed 4) (callers : List Caller) (caller : Caller) :
    serial urandom (callers ++ [caller]) = serve (serial urandom callers) caller :=
  Runs.run_concat serve _ callers caller

theorem toOption_resultAt {urandom : Fixed 4} {i : ℕ} {nonce : Bytes}
    (h : (resultAt urandom i).toOption = some nonce) :
    i < 2 ^ 64 - 1 ∧ nonce = urandom.toList ++ packBE 8 i := by
  rw [resultAt] at h
  split at h
  · next hleft => exact ⟨hleft, (Option.some.inj h).symm⟩
  · cases h

/-- A nonce is that of the call in some place before the last value. -/
theorem mem_nonces_serial {urandom : Fixed 4} {callers : List Caller} {nonce : Bytes}
    (h : nonce ∈ nonces (serial urandom callers).results) :
    ∃ i < 2 ^ 64 - 1, nonce = urandom.toList ++ packBE 8 i := by
  obtain ⟨result, hresult, hnonce⟩ := List.mem_filterMap.mp h
  rw [serial_eq] at hresult
  obtain ⟨i, _, rfl⟩ := List.mem_mapIdx.mp hresult
  exact ⟨i, toOption_resultAt hnonce⟩

theorem nonces_increasing (urandom : Fixed 4) (callers : List Caller) :
    (nonces (serial urandom callers).results).Pairwise
      fun earlier later => counterField earlier < counterField later := by
  rw [nonces, List.pairwise_filterMap, serial_eq, List.pairwise_iff_getElem]
  intro i j hi hj hij earlier hearlier later hlater
  simp only [List.getElem_mapIdx] at hearlier hlater
  obtain ⟨hi', rfl⟩ := toOption_resultAt hearlier
  obtain ⟨hj', rfl⟩ := toOption_resultAt hlater
  rw [counterField_packed urandom (by omega), counterField_packed urandom (by omega)]
  exact hij

theorem nodup_nonces (urandom : Fixed 4) (callers : List Caller) :
    (nonces (serial urandom callers).results).Nodup := by
  apply (nonces_increasing urandom callers).imp
  intro earlier later hlt heq
  rw [heq] at hlt
  omega

end Serial

section Threads

variable {Caller : Type}

/-- The calls took their values one after the other, in this order. -/
structure ServedAs (urandom : Fixed 4) (s : Threads Caller) (callers : List Caller) : Prop where
  counter : s.counter = (serial urandom callers).counter
  results : (s.returned ++ s.underway).Perm (serial urandom callers).results

/-- Advancing the counter leaves what the others pack. -/
theorem packNonce_takeValue (self : NonceCounter) (n : ℕ) :
    packNonce (takeValue self).2 n = packNonce self n := by
  rw [packNonce, packNonce, takeValue_noncePrefix]

theorem underway_counter {s : Threads Caller} {counter : NonceCounter}
    (h : ∀ n, packNonce counter n = packNonce s.counter n) :
    Threads.underway { s with counter := counter } = s.underway := by
  simp only [Threads.underway, h]

theorem nodup_returned {urandom : Fixed 4} {s : Threads Caller} {callers : List Caller}
    (h : ServedAs urandom s callers) : (nonces s.returned).Nodup := by
  have hperm := h.results.filterMap fun result => result.2.toOption
  rw [List.filterMap_append] at hperm
  have hnodup := hperm.nodup_iff.mpr (nodup_nonces urandom callers)
  exact hnodup.sublist (List.sublist_append_left _ _)

variable [DecidableEq Caller]

/-- Getting the lock is being served next. -/
theorem servedAs_locked {urandom : Fixed 4} {s : Threads Caller} {callers : List Caller}
    (h : ServedAs urandom s callers) {caller : Caller}
    (hidle : caller ∉ s.packing.map Prod.fst) :
    ServedAs urandom (s.step (.locked caller)) (callers ++ [caller]) := by
  have hpack := packNonce_takeValue s.counter
  rw [Threads.step, if_neg hidle]
  cases htake : takeValue s.counter with
  | mk result counter =>
    rw [htake] at hpack
    have hunderway := underway_counter hpack
    cases result with
    | error e =>
      have hserve : serve (serial urandom callers) caller =
          { counter := counter
            results := (serial urandom callers).results ++ [(caller, .error e)] } := by
        simp only [serve, nextNonce, ← h.counter, htake]
      constructor
      · rw [serial_concat, hserve]
      · rw [serial_concat, hserve]
        calc s.returned ++ [(caller, .error e)] ++ Threads.underway { s with counter := counter }
          _ = s.returned ++ ([(caller, .error e)] ++ s.underway) := by
            rw [hunderway, List.append_assoc]
          _ ~ s.returned ++ (s.underway ++ [(caller, .error e)]) :=
            List.perm_append_comm.append_left _
          _ = s.returned ++ s.underway ++ [(caller, .error e)] := (List.append_assoc ..).symm
          _ ~ (serial urandom callers).results ++ [(caller, .error e)] :=
            h.results.append_right _
    | ok n =>
      have hserve : serve (serial urandom callers) caller =
          { counter := counter
            results := (serial urandom callers).results ++ [(caller, packNonce counter n)] } := by
        simp only [serve, nextNonce, ← h.counter, htake]
      constructor
      · rw [serial_concat, hserve]
      · rw [serial_concat, hserve]
        calc s.returned ++ (s.packing ++ [(caller, n)]).map
              (fun entry => (entry.1, packNonce counter entry.2))
          _ = s.returned ++ s.underway ++ [(caller, packNonce counter n)] := by
            rw [List.map_append, List.append_assoc, ← hunderway]
            rfl
          _ ~ (serial urandom callers).results ++ [(caller, packNonce counter n)] :=
            h.results.append_right _

/-- Returning is handing over what was underway. -/
theorem servedAs_packed {urandom : Fixed 4} {s : Threads Caller} {callers : List Caller}
    (h : ServedAs urandom s callers) (caller : Caller) :
    ServedAs urandom (s.step (.packed caller)) callers := by
  cases hfind : s.packing.find? fun entry => entry.1 = caller with
  | none =>
    simp only [Threads.step, hfind]
    exact h
  | some entry =>
    simp only [Threads.step, hfind]
    refine ⟨h.counter, List.Perm.trans ?_ h.results⟩
    have hentry : s.packing ~ entry :: s.packing.erase entry :=
      List.perm_cons_erase (List.mem_of_find?_eq_some hfind)
    calc s.returned ++ [(entry.1, packNonce s.counter entry.2)] ++
          (s.packing.erase entry).map (fun entry => (entry.1, packNonce s.counter entry.2))
      _ = s.returned ++ (entry :: s.packing.erase entry).map
            (fun entry => (entry.1, packNonce s.counter entry.2)) := by
        rw [List.append_assoc, List.map_cons]
        rfl
      _ ~ s.returned ++ s.underway := (hentry.symm.map _).append_left _

/-- However the threads interleave, the calls are served in some order. -/
theorem exists_servedAs (urandom : Fixed 4) (steps : List (Step Caller)) :
    ∃ callers, ServedAs urandom (Runs.run Threads.step (.start urandom) steps) callers := by
  induction steps using List.reverseRecOn with
  | nil => exact ⟨[], rfl, List.Perm.refl _⟩
  | append_singleton steps step ih =>
    obtain ⟨callers, h⟩ := ih
    rw [Runs.run_concat]
    cases step with
    | locked caller =>
      by_cases hidle : caller ∈ (Runs.run Threads.step (.start urandom) steps).packing.map Prod.fst
      · rw [Threads.step, if_pos hidle]
        exact ⟨callers, h⟩
      · exact ⟨callers ++ [caller], servedAs_locked h hidle⟩
    | packed caller => exact ⟨callers, servedAs_packed h caller⟩

/-- Served one by one, the callers get the prefix with a counter that rises by one from 0 until
the value before the last, and after that an error that leaves the counter where it is. However
they interleave, what they get is what some such order gives, so no nonce is returned twice. -/
theorem nonces_never_repeat (urandom : Fixed 4) :
    (∀ callers : List Caller,
      (∀ nonce ∈ nonces (serial urandom callers).results,
        nonce.length = 12 ∧ nonce.take 4 = urandom.toList) ∧
      (nonces (serial urandom callers).results).Pairwise
        (fun earlier later => earlier ≠ later ∧ counterField earlier < counterField later) ∧
      (serial urandom callers).counter.counter = min callers.length (2 ^ 64 - 1) ∧
      nextNonce (serial urandom callers).counter =
        if callers.length < 2 ^ 64 - 1 then
          (.ok (urandom.toList ++ packBE 8 callers.length),
            { noncePrefix := urandom, counter := callers.length + 1 })
        else (.error (.overflowError "NonceCounter exhausted — rotate session key"),
          (serial urandom callers).counter)) ∧
    ∀ steps : List (Step Caller),
      (nonces (Runs.run Threads.step (.start urandom) steps).returned).Nodup ∧
      ∃ callers, ServedAs urandom (Runs.run Threads.step (.start urandom) steps) callers := by
  refine ⟨fun callers => ⟨fun nonce hnonce => ?_, ?_, ?_, ?_⟩, fun steps => ?_⟩
  · obtain ⟨i, _, rfl⟩ := mem_nonces_serial hnonce
    exact ⟨by simp, List.take_left' urandom.toList_length⟩
  · exact (nodup_nonces urandom callers).and (nonces_increasing urandom callers)
  · rw [serial_eq]
  · split
    · next hleft =>
      have hcounter : min callers.length (2 ^ 64 - 1) = callers.length := by omega
      rw [serial_eq, hcounter]
      exact nextNonce_available hleft
    · next hleft =>
      apply nextNonce_exhausted
      rw [serial_eq]
      simp only
      omega
  · obtain ⟨callers, h⟩ := exists_servedAs urandom steps
    exact ⟨nodup_returned h, callers, h⟩

end Threads

end Mesim.Nonces
