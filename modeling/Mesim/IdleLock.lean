import Mesim.Crypto
import Mesim.Repl
import Mesim.Runs
import Mathlib.Tactic.Linarith

/-!
The inactivity lock of the command line.
The timeout is checked before the prompt, and the wait at the prompt is not part of
it: a line that comes in after the timeout has run out is executed all the same.
-/
namespace Mesim.IdleLock

open Octets Repl

section Log

/-- The start, the executed commands and the unlocks. -/
def isActive (passphrase : String) (entry : Entry) : Bool :=
  match entry.happening with
  | .started | .executed _ => true
  | .entered entered => entered = passphrase

def lastActive (passphrase : String) (log : List Entry) : Option Entry :=
  (log.filter (isActive passphrase)).getLast?

/-- The entry comes in time after this log, or the passphrase was entered in between. -/
def Covered (timeout : ℤ) (passphrase : String) (before : List Entry) (entry : Entry) : Prop :=
  ∀ last, lastActive passphrase before = some last → entry.time < last.time + 60 * timeout ∨
    ∃ unlock ∈ before, unlock.happening = .entered passphrase ∧
      last.time + 60 * timeout ≤ unlock.time ∧ unlock.time ≤ entry.time

/-- Every executed command is covered by what happened before it. -/
def Guards (timeout : ℤ) (passphrase : String) (log : List Entry) : Prop :=
  ∀ before entry after cmd, log = before ++ entry :: after → entry.happening = .executed cmd →
    Covered timeout passphrase before entry

variable {timeout : ℤ} {passphrase : String} {log : List Entry} {entry : Entry}

theorem lastActive_concat_active (h : isActive passphrase entry = true) :
    lastActive passphrase (log ++ [entry]) = some entry := by
  rw [lastActive, List.filter_append, List.filter_cons_of_pos h, List.filter_nil,
    List.getLast?_concat]

theorem lastActive_concat_idle (h : isActive passphrase entry = false) :
    lastActive passphrase (log ++ [entry]) = lastActive passphrase log := by
  rw [lastActive, List.filter_append, List.filter_cons_of_neg (by rw [h]; simp), List.filter_nil,
    List.append_nil]
  rfl

theorem mem_of_lastActive {last : Entry} (h : lastActive passphrase log = some last) :
    last ∈ log ∧ isActive passphrase last = true :=
  List.mem_filter.mp (List.mem_of_getLast? h)

/-- One entry more. -/
theorem guards_concat : Guards timeout passphrase (log ++ [entry]) ↔
    Guards timeout passphrase log ∧
      ∀ cmd, entry.happening = .executed cmd → Covered timeout passphrase log entry := by
  constructor
  · intro h
    refine ⟨fun before e after cmd hlog => ?_, fun cmd => h log entry [] cmd rfl⟩
    apply h before e (after ++ [entry]) cmd
    rw [hlog, List.append_assoc, List.cons_append]
  · rintro ⟨hlog, hentry⟩ before e after cmd hsplit hexecuted
    rcases List.eq_nil_or_concat after with rfl | ⟨after, last, rfl⟩
    · obtain ⟨rfl, hlast⟩ := List.append_inj' hsplit rfl
      cases hlast
      exact hentry cmd hexecuted
    · rw [List.concat_eq_append, ← List.cons_append, ← List.append_assoc] at hsplit
      obtain ⟨rfl, -⟩ := List.append_inj' hsplit rfl
      exact hlog before e after cmd rfl hexecuted

end Log

section Invariant

variable (hmacSha256 : Bytes → Bytes → Fixed 32)

/-- The loop's own record of activity is the last active entry of the log. -/
structure Tracks (timeout : ℤ) (passphrase : String) (s : Session) : Prop where
  lockTimeout : s.cli.lockTimeout = some timeout
  passphraseHmac : s.cli.passphraseHmac = some (hashPassphrase hmacSha256 passphrase)
  past : ∀ entry ∈ s.log, entry.time ≤ s.clock
  last : ∃ last, lastActive passphrase s.log = some last ∧ last.time = s.cli.lastActivity
  newest : ∀ entry ∈ s.log, isActive passphrase entry = true → entry.time ≤ s.cli.lastActivity
  unlocked : timeout ≤ 0 → s.phase = .reading →
    ∃ entry ∈ s.log, entry.happening = .entered passphrase ∧ entry.time = s.cli.lastActivity

/-- A command line comes in while the loop would still call itself unlocked, unless it has to be
unlocked before every prompt. -/
def InTime (timeout : ℤ) (s : Session) (l : Label) : Prop :=
  ∀ text raised, l.input = .line text raised → s.phase = .reading → (command text).isSome = true →
    timeout ≤ 0 ∨ s.cli.isLocked (s.clock + l.wait) = false

variable {hmacSha256} {timeout : ℤ} {passphrase : String} {s : Session}

theorem tracks_start (now : ℚ) : Tracks hmacSha256 timeout passphrase
    (.start hmacSha256 now (some timeout) (some passphrase)) where
  lockTimeout := rfl
  passphraseHmac := rfl
  past entry hentry := by
    rw [List.mem_singleton.mp hentry]
    exact le_rfl
  last := ⟨_, rfl, rfl⟩
  newest entry hentry _ := by
    rw [List.mem_singleton.mp hentry]
    exact le_rfl
  unlocked _ h := by contradiction

theorem Tracks.isLocked_iff (h : Tracks hmacSha256 timeout passphrase s) (now : ℚ) :
    s.cli.isLocked now = true ↔ s.cli.lastActivity + 60 * timeout ≤ now := by
  simp only [MesimCLI.isLocked, h.lockTimeout, h.passphraseHmac, decide_eq_true_iff, ge_iff_le]
  constructor <;> intro hle <;> linarith

theorem Tracks.lastActivity_le (h : Tracks hmacSha256 timeout passphrase s) :
    s.cli.lastActivity ≤ s.clock := by
  obtain ⟨last, hlast, heq⟩ := h.last
  rw [← heq]
  exact h.past last (mem_of_lastActive hlast).1

theorem Tracks.later (h : Tracks hmacSha256 timeout passphrase s) (wait : ℚ≥0) :
    Tracks hmacSha256 timeout passphrase { s with clock := s.clock + wait } where
  lockTimeout := h.lockTimeout
  passphraseHmac := h.passphraseHmac
  past entry hentry := (h.past entry hentry).trans (le_add_of_nonneg_right wait.2)
  last := h.last
  newest := h.newest
  unlocked := h.unlocked

/-- With no time to be idle the loop locks at every turn. -/
theorem Tracks.turn (h : Tracks hmacSha256 timeout passphrase s) :
    Tracks hmacSha256 timeout passphrase { s with phase := turn s.cli s.clock } where
  lockTimeout := h.lockTimeout
  passphraseHmac := h.passphraseHmac
  past := h.past
  last := h.last
  newest := h.newest
  unlocked htimeout hreading := by
    have hzero : (timeout : ℚ) ≤ 0 := by exact_mod_cast htimeout
    have hlocked : s.cli.isLocked s.clock = true := (h.isLocked_iff s.clock).mpr (by
      linarith [h.lastActivity_le])
    simp only [Repl.turn, hlocked, if_true] at hreading
    split at hreading <;> contradiction

theorem Tracks.phase (h : Tracks hmacSha256 timeout passphrase s) (phase : Phase)
    (hphase : phase ≠ .reading) : Tracks hmacSha256 timeout passphrase { s with phase := phase } :=
  ⟨h.lockTimeout, h.passphraseHmac, h.past, h.last, h.newest,
    fun _ hreading => absurd hreading hphase⟩

theorem Tracks.stop (h : Tracks hmacSha256 timeout passphrase s) :
    Tracks hmacSha256 timeout passphrase { s with cli := { s.cli with running := false } } :=
  ⟨h.lockTimeout, h.passphraseHmac, h.past, h.last, h.newest, h.unlocked⟩

/-- An active entry and the loop's record of it. -/
theorem Tracks.active (h : Tracks hmacSha256 timeout passphrase s) (happening : Happening)
    (hactive : isActive passphrase ⟨s.clock, happening⟩ = true) (phase : Phase)
    (hphase : phase = .reading → happening = .entered passphrase) :
    Tracks hmacSha256 timeout passphrase { s with
      cli := { s.cli with lastActivity := s.clock }
      phase := phase
      log := s.log ++ [⟨s.clock, happening⟩] } where
  lockTimeout := h.lockTimeout
  passphraseHmac := h.passphraseHmac
  past entry hentry := by
    rcases List.mem_append.mp hentry with hold | hnew
    · exact h.past entry hold
    · rw [List.mem_singleton.mp hnew]
  last := ⟨_, lastActive_concat_active hactive, rfl⟩
  newest entry hentry _ := by
    rcases List.mem_append.mp hentry with hold | hnew
    · exact h.past entry hold
    · rw [List.mem_singleton.mp hnew]
  unlocked _ hreading :=
    ⟨⟨s.clock, happening⟩, List.mem_append_right _ (List.mem_singleton_self _), hphase hreading, rfl⟩

theorem Tracks.rejected (h : Tracks hmacSha256 timeout passphrase s) (entered : String)
    (hne : entered ≠ passphrase) : Tracks hmacSha256 timeout passphrase
      { s with log := s.log ++ [⟨s.clock, .entered entered⟩] } := by
  have hidle : isActive passphrase ⟨s.clock, .entered entered⟩ = false := decide_eq_false hne
  constructor
  · exact h.lockTimeout
  · exact h.passphraseHmac
  · intro entry hentry
    rcases List.mem_append.mp hentry with hold | hnew
    · exact h.past entry hold
    · rw [List.mem_singleton.mp hnew]
  · obtain ⟨last, hlast, heq⟩ := h.last
    exact ⟨last, (lastActive_concat_idle hidle).trans hlast, heq⟩
  · intro entry hentry hactive
    rcases List.mem_append.mp hentry with hold | hnew
    · exact h.newest entry hold hactive
    · rw [List.mem_singleton.mp hnew, hidle] at hactive
      contradiction
  · intro htimeout hreading
    obtain ⟨entry, hentry, hunlock⟩ := h.unlocked htimeout hreading
    exact ⟨entry, List.mem_append_left _ hentry, hunlock⟩

/-- A command is covered exactly when it comes in before the timeout has run out, or when there is
none to run out. -/
theorem Tracks.covered_iff (h : Tracks hmacSha256 timeout passphrase s)
    (hreading : s.phase = .reading) (happening : Happening) :
    Covered timeout passphrase s.log ⟨s.clock, happening⟩ ↔
      timeout ≤ 0 ∨ s.cli.isLocked s.clock = false := by
  obtain ⟨last, hlast, heq⟩ := h.last
  rw [← Bool.not_eq_true, h.isLocked_iff, not_le]
  constructor
  · intro hcovered
    rcases hcovered last hlast with hbefore | ⟨unlock, hunlock, hentered, hafter, _⟩
    · exact Or.inr (heq ▸ hbefore)
    · left
      have hactive : isActive passphrase unlock = true := by
        rw [isActive, hentered]
        exact decide_eq_true rfl
      have hle := h.newest unlock hunlock hactive
      rw [← heq] at hle
      have hzero : (timeout : ℚ) ≤ 0 := by linarith
      exact_mod_cast hzero
  · rintro hcase last' hlast'
    cases hlast.symm.trans hlast'
    rcases hcase with htimeout | hbefore
    · right
      obtain ⟨unlock, hunlock, hentered, htime⟩ := h.unlocked htimeout hreading
      have hzero : (timeout : ℚ) ≤ 0 := by exact_mod_cast htimeout
      exact ⟨unlock, hunlock, hentered, by linarith, h.past unlock hunlock⟩
    · exact Or.inl (heq ▸ hbefore)

end Invariant

section Results

variable {hmacSha256 : Bytes → Bytes → Fixed 32} {timeout : ℤ} {passphrase : String} {s : Session}

/-- No other passphrase that is entered has the HMAC of the right one. -/
def Distinct (hmacSha256 : Bytes → Bytes → Fixed 32) (passphrase : String) (l : Label) : Prop :=
  ∀ entered, l.input = .passphrase entered →
    hashPassphrase hmacSha256 entered = hashPassphrase hmacSha256 passphrase → entered = passphrase

theorem tracks_step (h : Tracks hmacSha256 timeout passphrase s) (l : Label)
    (hdistinct : Distinct hmacSha256 passphrase l) :
    Tracks hmacSha256 timeout passphrase (step hmacSha256 s l) := by
  have hlater := h.later l.wait
  unfold step
  dsimp only
  split
  · split
    · exact hlater.turn
    · exact hlater
  · rename_i entered hinput
    split
    · unfold enter
      dsimp only
      split
      · rename_i hmatch
        have hright : entered = passphrase :=
          hdistinct entered hinput (Option.some.inj (hmatch.trans h.passphraseHmac))
        exact hlater.active (.entered entered) (decide_eq_true hright) .reading
          fun _ => by rw [hright]
      · rename_i hmatch
        refine hlater.rejected entered fun hright => hmatch ?_
        rw [hright]
        exact h.passphraseHmac.symm
    · exact hlater
  · rename_i text raised _
    split
    · split
      · exact hlater.phase .ended (by decide)
      · unfold handleCommand
        split
        · exact hlater.phase .turning (by decide)
        · refine hlater.active (.executed _) rfl _ fun hreading => ?_
          split at hreading <;> contradiction
    · exact hlater
  · exact hlater.phase .ended (by decide)
  · exact hlater.stop

theorem inTime_line {l : Label} {text : String} {raised : Bool} (h : l.input = .line text raised) :
    InTime timeout s l ↔ (s.phase = .reading → (command text).isSome = true →
      timeout ≤ 0 ∨ s.cli.isLocked (s.clock + l.wait) = false) := by
  rw [InTime, h]
  refine ⟨fun hall => hall text raised rfl, fun hall text' raised' heq => ?_⟩
  obtain ⟨rfl, rfl⟩ := Input.line.inj heq
  exact hall

/-- What executes no command neither loses nor restores the guard. -/
theorem inTime_other {l : Label} (h : ∀ text raised, l.input = .line text raised →
    s.phase = .reading → command text = none) : InTime timeout s l :=
  fun text raised hline hreading hsome => by
    rw [h text raised hline hreading] at hsome
    contradiction

theorem guards_entered (log : List Entry) (now : ℚ) (entered : String) :
    Guards timeout passphrase (log ++ [⟨now, .entered entered⟩]) ↔
      Guards timeout passphrase log := by
  rw [guards_concat, and_iff_left_iff_imp]
  exact fun _ cmd hcmd => by contradiction

/-- The guard can only be lost by a command line, and only by one that is not in time. -/
theorem guards_step (h : Tracks hmacSha256 timeout passphrase s) (l : Label) :
    Guards timeout passphrase (step hmacSha256 s l).log ↔
      Guards timeout passphrase s.log ∧ InTime timeout s l := by
  have hidle : (∀ text raised, l.input = .line text raised → s.phase = .reading →
      command text = none) → (Guards timeout passphrase s.log ↔
        Guards timeout passphrase s.log ∧ InTime timeout s l) :=
    fun hother => (and_iff_left (inTime_other hother)).symm
  unfold step
  dsimp only
  split
  · rename_i hinput
    have hother := hidle fun text raised hline => by rw [hinput] at hline; contradiction
    split <;> exact hother
  · rename_i entered hinput
    have hother := hidle fun text raised hline => by rw [hinput] at hline; contradiction
    split
    · unfold enter
      dsimp only
      split <;> exact (guards_entered _ _ entered).trans hother
    · exact hother
  · rename_i text raised hinput
    have hblank : (s.phase = .reading → command text = none) →
        (Guards timeout passphrase s.log ↔
          Guards timeout passphrase s.log ∧ InTime timeout s l) := fun hnone =>
      hidle fun text' raised' hline hreading => by
        obtain ⟨rfl, rfl⟩ := Input.line.inj (hinput.symm.trans hline)
        exact hnone hreading
    split
    · rename_i hreading
      split
      · rename_i hempty
        exact hblank fun _ => by rw [hempty]; decide
      · unfold handleCommand
        split
        · rename_i hnone
          exact hblank fun _ => hnone
        · rename_i cmd hcmd
          have hcovered := (h.later l.wait).covered_iff hreading (.executed cmd)
          rw [guards_concat, inTime_line hinput]
          refine and_congr_right fun _ => ?_
          rw [hcmd]
          constructor
          · exact fun hall _ _ => hcovered.mp (hall cmd rfl)
          · exact fun hall cmd' _ => hcovered.mpr (hall hreading rfl)
    · rename_i hnot
      exact hblank fun hreading => absurd hreading hnot
  · rename_i hinput
    exact hidle fun text raised hline => by rw [hinput] at hline; contradiction
  · rename_i hinput
    exact hidle fun text raised hline => by rw [hinput] at hline; contradiction

theorem guards_run (labels : List Label) (h : Tracks hmacSha256 timeout passphrase s)
    (hdistinct : ∀ l ∈ labels, Distinct hmacSha256 passphrase l) :
    Guards timeout passphrase (Runs.run (step hmacSha256) s labels).log ↔
      Guards timeout passphrase s.log ∧ Runs.Always (step hmacSha256) (InTime timeout) s labels := by
  induction labels generalizing s with
  | nil => exact (and_iff_left trivial).symm
  | cons l rest ih =>
    have hnext := tracks_step h l (hdistinct l List.mem_cons_self)
    rw [Runs.run_cons, ih hnext fun l' hl' => hdistinct l' (List.mem_cons_of_mem l hl'),
      guards_step h l, and_assoc]
    rfl

theorem guards_start (now : ℚ) : Guards timeout passphrase
    (Session.start hmacSha256 now (some timeout) (some passphrase)).log := by
  intro before entry after cmd hlog hexecuted
  have hmem : entry ∈ [(⟨now, .started⟩ : Entry)] := by
    change [(⟨now, .started⟩ : Entry)] = _ at hlog
    rw [hlog]
    simp
  rw [List.mem_singleton.mp hmem] at hexecuted
  contradiction

/-- The lock guards the commands of a run exactly when every command line of it comes in while the
loop would still call itself unlocked: the line that a long wait ends is not checked. -/
theorem guards_iff_inTime (hmacSha256 : Bytes → Bytes → Fixed 32) (now : ℚ) (timeout : ℤ)
    (passphrase : String) (labels : List Label)
    (hdistinct : ∀ l ∈ labels, Distinct hmacSha256 passphrase l) :
    Guards timeout passphrase (Runs.run (step hmacSha256)
        (.start hmacSha256 now (some timeout) (some passphrase)) labels).log ↔
      Runs.Always (step hmacSha256) (InTime timeout)
        (.start hmacSha256 now (some timeout) (some passphrase)) labels := by
  rw [guards_run labels (tracks_start now) hdistinct]
  exact and_iff_right (guards_start now)

end Results

section Stub

open Crypto

def stubHmac (key message : Bytes) : Fixed 32 := checksum 32 (key ++ message)

/-- Two hours at the prompt under a timeout of five minutes, and then a command. -/
theorem long_wait_executes : ∃ labels : List Label,
    (Runs.run (step stubHmac) (.start stubHmac 0 (some 5) (some "alpha")) labels).log =
      [⟨0, .started⟩, ⟨7200, .executed .peers⟩] ∧
    ¬ Guards 5 "alpha"
      (Runs.run (step stubHmac) (.start stubHmac 0 (some 5) (some "alpha")) labels).log := by
  let labels : List Label := [⟨0, .turn⟩, ⟨7200, .line "peers" false⟩]
  have hlog : (Runs.run (step stubHmac) (.start stubHmac 0 (some 5) (some "alpha")) labels).log =
      [⟨0, .started⟩, ⟨7200, .executed .peers⟩] := by decide +kernel
  refine ⟨labels, hlog, fun hguards => ?_⟩
  rw [hlog] at hguards
  rcases hguards [⟨0, .started⟩] ⟨7200, .executed .peers⟩ [] .peers rfl rfl ⟨0, .started⟩ rfl with
    hbefore | ⟨unlock, hunlock, hentered, _⟩
  · norm_num at hbefore
  · rw [List.mem_singleton.mp hunlock] at hentered
    contradiction

/-- A command in time, ten idle minutes before the next turn, a wrong passphrase, the right one and
another command. -/
theorem guards_iff_inTime_alpha : ∃ labels : List Label,
    (Runs.run (step stubHmac) (.start stubHmac 0 (some 5) (some "alpha")) labels).log =
      [⟨0, .started⟩, ⟨60, .executed .peers⟩, ⟨661, .entered "bravo"⟩, ⟨662, .entered "alpha"⟩,
        ⟨692, .executed .whoami⟩] ∧
    Guards 5 "alpha"
      (Runs.run (step stubHmac) (.start stubHmac 0 (some 5) (some "alpha")) labels).log := by
  let labels : List Label := [⟨0, .turn⟩, ⟨60, .line "peers" false⟩, ⟨600, .turn⟩,
    ⟨1, .passphrase "bravo"⟩, ⟨1, .passphrase "alpha"⟩, ⟨30, .line "whoami" false⟩]
  have hdistinct : ∀ l ∈ labels, Distinct stubHmac "alpha" l := by
    intro l hl entered hentered hhash
    simp only [labels, List.mem_cons, List.not_mem_nil, or_false] at hl
    rcases hl with rfl | rfl | rfl | rfl | rfl | rfl
    all_goals cases hentered
    · exact absurd hhash (by decide +kernel)
    · rfl
  have hother : ∀ (s : Session) (l : Label), (∀ text raised, l.input ≠ .line text raised) →
      InTime 5 s l := fun s l hne text raised hline => absurd hline (hne text raised)
  refine ⟨labels, by decide +kernel, ?_⟩
  apply (guards_iff_inTime stubHmac 0 5 "alpha" labels hdistinct).mpr
  refine ⟨hother _ _ fun _ _ h => (by cases h), fun _ _ _ _ _ => Or.inr (by decide +kernel),
    hother _ _ fun _ _ h => (by cases h), hother _ _ fun _ _ h => (by cases h),
    hother _ _ fun _ _ h => (by cases h), fun _ _ _ _ _ => Or.inr (by decide +kernel), trivial⟩

end Stub

end Mesim.IdleLock
