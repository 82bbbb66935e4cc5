import Portalis.Backup
import Portalis.Programs

/-!
# The backup scheduler

The loop of `backup_scheduler`: sleep until three o'clock of the local date one day from now, attempt a
backup, and look at the clock again.  A time zone says what the local clock shows at an instant, and
answers no, one or two instants for a local date-time, by whatever rule.

* `backupWait_eq_zero_iff`: when the loop does not sleep at all.
* `spaced_of_reaches`: while three o'clock of the next date is one instant, in the future and on that date,
  no two attempts fall on one date.
* `onDate_shiftZone`: it is on that date where the clock changes once, by less than twenty-one hours.
* `repeated_hour_spins`: a night on which the clock is set back over three o'clock.
-/

namespace Portalis

open Programs

/-! ### Time zones -/

/-- A second, in the nanoseconds that instants and durations are counted in. -/
def second : ℤ := 10 ^ 9

def hour : ℤ := 3600 * second

def day : ℤ := 24 * hour

/-- `MappedLocalTime`: the instants that a time zone answers for a local date-time. -/
inductive MappedLocalTime
  | none
  | single (instant : ℤ)
  | ambiguous (earliest latest : ℤ)
  deriving DecidableEq

/-- `MappedLocalTime::single`. -/
def MappedLocalTime.single? : MappedLocalTime → Option ℤ
  | single instant => some instant
  | _ => Option.none

/-- A time zone: what its clock shows at an instant, and its answer for a date-time. -/
structure TimeZone where
  toLocal : ℤ → ℤ
  resolve : ℤ → MappedLocalTime

/-- `date_naive`, in days. -/
def dateOf (dateTime : ℤ) : ℤ := dateTime / day

/-- `and_hms_opt(hours, 0, 0)`. -/
def atHour (date hours : ℤ) : ℤ := date * day + hours * hour

theorem dateOf_atHour (date : ℤ) : dateOf (atHour date 3) = date := by
  unfold dateOf atHour day hour second
  omega

/-! ### One turn of the loop -/

/-- `Duration::to_std`, or zero. -/
def toStdOrDefault (duration : ℤ) : ℤ := if duration < 0 then 0 else duration

section

variable (zone : TimeZone) (now : ℤ)

/-- Three o'clock of the date one day from now. -/
def nextBackup : ℤ := atHour (dateOf (zone.toLocal (now + day))) 3

def backupWait : ℤ :=
  toStdOrDefault ((zone.resolve (nextBackup zone now)).single?.getD now - now)

/-- Three o'clock of that date is one instant, in the future. -/
def NextBackupAhead : Prop :=
  ∃ instant, zone.resolve (nextBackup zone now) = .single instant ∧ now < instant

/-- At the instant of three o'clock of that date the clock shows that date.  It need not show three o'clock: for
the start of a gap a zone may answer the instant at which the clock is set forward. -/
def NextBackupOnDate : Prop :=
  ∀ instant, zone.resolve (nextBackup zone now) = .single instant →
    dateOf (zone.toLocal instant) = dateOf (nextBackup zone now)

variable {zone now}

theorem NextBackupAhead.wait_eq {instant : ℤ}
    (h : zone.resolve (nextBackup zone now) = .single instant) (hnow : now < instant) :
    backupWait zone now = instant - now := by
  have hpositive : ¬ instant - now < 0 := by omega
  unfold backupWait
  rw [h]
  exact if_neg hpositive

/-- **When the loop does not sleep.**  Three o'clock of the next date is no instant, two, or not in the
future. -/
theorem backupWait_eq_zero_iff : backupWait zone now = 0 ↔ ¬ NextBackupAhead zone now := by
  have hself : toStdOrDefault (now - now) = 0 := by
    rw [sub_self]
    rfl
  constructor
  · intro hzero hahead
    obtain ⟨instant, hresolve, hnow⟩ := hahead
    rw [NextBackupAhead.wait_eq hresolve hnow] at hzero
    omega
  · intro hnot
    unfold backupWait
    cases hresolve : zone.resolve (nextBackup zone now) with
    | none => exact hself
    | ambiguous earliest latest => exact hself
    | single instant =>
      have hpast : ¬ now < instant := fun hnow => hnot ⟨instant, hresolve, hnow⟩
      show toStdOrDefault (instant - now) = 0
      unfold toStdOrDefault
      split
      · rfl
      · omega

end

/-! ### An attempt -/

/-- A row of the `backups` table. -/
structure BackupRow where
  revisionId : String
  objectKey : String
  checksum : String
  sizeBytes : ℕ
  status : String
  error : Option String
  deriving DecidableEq

/-- What an attempt meets: the newest active revision, the failures of the two queries around the upload,
the upload, and the time it takes. -/
structure Attempt where
  active : Except String (Option String)
  lookupError : Option String
  upload : Except String BackupArtifact
  recordError : Option String
  elapsed : ℕ

def hasSuccessfulBackup (backups : List BackupRow) (revisionId : String) : Bool :=
  backups.any fun row => row.revisionId = revisionId && row.status = "uploaded"

/-- `backup_record`. -/
def backupRecord (backups : List BackupRow) (row : BackupRow) (error : Option String) :
    Except String Unit × List BackupRow :=
  match error with
  | some error => (.error error, backups)
  | none => (.ok (), row :: backups)

def backupActiveIfNew (backups : List BackupRow) (met : Attempt) :
    Except String Bool × List BackupRow :=
  match met.active with
  | .error error => (.error error, backups)
  | .ok none => (.ok false, backups)
  | .ok (some revisionId) =>
    match met.lookupError with
    | some error => (.error error, backups)
    | none =>
      if hasSuccessfulBackup backups revisionId then (.ok false, backups)
      else
        match met.upload with
        | .ok artifact =>
          match backupRecord backups ⟨revisionId, artifact.key, artifact.sha256,
              artifact.sizeBytes, "uploaded", none⟩ met.recordError with
          | (.ok (), backups) => (.ok true, backups)
          | (.error error, backups) => (.error error, backups)
        | .error error =>
          match backupRecord backups ⟨revisionId, "", "", 0, "failed", some error⟩ met.recordError with
          | (.ok (), backups) => (.error error, backups)
          | (.error recordError, backups) => (.error recordError, backups)

/-- The clock, the attempts made, the latest first, with the wait before each, and the table. -/
structure Scheduler where
  now : ℤ
  attempts : List (ℤ × ℤ)
  backups : List BackupRow

namespace Scheduler

/-- One turn: the sleep, the attempt, and whatever it answers. -/
def step (zone : TimeZone) (s : Scheduler) (met : Attempt) : Option Scheduler :=
  let wait := backupWait zone s.now
  let start := s.now + wait
  some ⟨start + met.elapsed, (start, wait) :: s.attempts, (backupActiveIfNew s.backups met).2⟩

/-- The local date of an attempt. -/
def attemptDate (zone : TimeZone) (attempt : ℤ × ℤ) : ℤ := dateOf (zone.toLocal attempt.1)

/-- No two attempts fall on one local date, and no two waits in a row are zero. -/
structure Spaced (zone : TimeZone) (s : Scheduler) : Prop where
  dates : s.attempts.Pairwise fun later earlier => attemptDate zone later ≠ attemptDate zone earlier
  waits : s.attempts.IsChain fun later earlier => ¬ (later.2 = 0 ∧ earlier.2 = 0)

/-- Attempts come one after the other, each after a sleep and at the instant for three o'clock of its date. -/
structure Paced (zone : TimeZone) (s : Scheduler) : Prop where
  later : s.attempts.Pairwise fun later earlier => earlier.1 < later.1
  past : ∀ attempt ∈ s.attempts, attempt.1 ≤ s.now
  hour : ∀ attempt ∈ s.attempts, zone.resolve (atHour (attemptDate zone attempt) 3) = .single attempt.1
  slept : ∀ attempt ∈ s.attempts, attempt.2 ≠ 0

section

variable {zone : TimeZone} {s : Scheduler}

/-- **The step lemma.** -/
theorem Paced.step {s' : Scheduler} {met : Attempt} (h : Paced zone s)
    (hahead : NextBackupAhead zone s.now) (hdate : NextBackupOnDate zone s.now)
    (hstep : s.step zone met = some s') : Paced zone s' := by
  obtain ⟨instant, hresolve, hnow⟩ := hahead
  have hshown : dateOf (zone.toLocal instant) = dateOf (zone.toLocal (s.now + day)) := by
    rw [hdate instant hresolve, nextBackup, dateOf_atHour]
  have hwait := NextBackupAhead.wait_eq hresolve hnow
  cases hstep
  have hstart : s.now + backupWait zone s.now = instant := by omega
  rw [hstart, hwait]
  refine ⟨?_, ?_, ?_, ?_⟩
  · refine List.pairwise_cons.mpr ⟨?_, h.later⟩
    intro earlier hmem
    show earlier.1 < instant
    have hpast := h.past earlier hmem
    omega
  · refine List.forall_mem_cons.mpr ⟨?_, ?_⟩
    · show instant ≤ instant + met.elapsed
      omega
    · intro attempt hmem
      show attempt.1 ≤ instant + met.elapsed
      have hpast := h.past attempt hmem
      omega
  · refine List.forall_mem_cons.mpr ⟨?_, h.hour⟩
    show zone.resolve (atHour (dateOf (zone.toLocal instant)) 3) = .single instant
    rw [hshown]
    exact hresolve
  · refine List.forall_mem_cons.mpr ⟨?_, h.slept⟩
    show instant - s.now ≠ 0
    omega

theorem Paced.spaced (h : Paced zone s) : Spaced zone s where
  dates := by
    refine h.later.imp_of_mem ?_
    intro later earlier hlater hearlier hlt hsame
    have hhour := h.hour later hlater
    have hhour' := h.hour earlier hearlier
    -- one date has one instant for three o'clock
    rw [hsame, hhour'] at hhour
    have hinstant := MappedLocalTime.single.inj hhour
    omega
  waits := by
    have hall : s.attempts.Pairwise fun later earlier => ¬ (later.2 = 0 ∧ earlier.2 = 0) := by
      refine h.later.imp_of_mem ?_
      intro later earlier hlater _ _ hzero
      exact h.slept later hlater hzero.1
    exact hall.isChain

/-- **Attempts are spaced.**  In every zone and every run from a start without attempts: while three
o'clock of the date one day from now is always one instant, in the future and on that date, any two attempts
fall on different local dates, and the wait is never zero twice in a row. -/
theorem spaced_of_reaches {start : Scheduler} (hstart : start.attempts = [])
    (h : Reaches (step zone) (fun s _ => NextBackupAhead zone s.now ∧ NextBackupOnDate zone s.now) start s) :
    Spaced zone s := by
  have hnone : Paced zone start := by
    have hmem : ∀ attempt, attempt ∉ start.attempts := by
      intro attempt hmem
      rw [hstart] at hmem
      cases hmem
    refine ⟨?_, fun attempt h => absurd h (hmem attempt), fun attempt h => absurd h (hmem attempt),
      fun attempt h => absurd h (hmem attempt)⟩
    rw [hstart]
    exact List.Pairwise.nil
  have hs : Paced zone s :=
    h.invariant hnone fun _ _ _ hguard hpaced hstep => hpaced.step hguard.1 hguard.2 hstep
  exact hs.spaced

end

end Scheduler

/-! ### Zones with one change of the clock -/

section

variable (transition before after : ℤ)

def shiftToLocal (instant : ℤ) : ℤ :=
  if instant < transition then instant + before else instant + after

/-- As chrono answers: an hour that is repeated has both its ends, and a gap has neither of its ends. -/
def shiftResolve (dateTime : ℤ) : MappedLocalTime :=
  if after ≤ before then
    if dateTime < transition + after then .single (dateTime - before)
    else if dateTime ≤ transition + before then .ambiguous (dateTime - before) (dateTime - after)
    else .single (dateTime - after)
  else if dateTime ≤ transition + before then .single (dateTime - before)
  else if dateTime < transition + after then .none
  else .single (dateTime - after)

/-- The clock is `before` ahead of universal time until the transition, and `after` from then on. -/
def shiftZone : TimeZone := ⟨shiftToLocal transition before after, shiftResolve transition before after⟩

variable {transition before after}

/-- A single instant shows the date-time it was asked for, or the end of the gap that starts there. -/
theorem shiftToLocal_of_single {dateTime instant : ℤ}
    (h : shiftResolve transition before after dateTime = .single instant) :
    shiftToLocal transition before after instant = dateTime ∨ before < after ∧
      dateTime = transition + before ∧ shiftToLocal transition before after instant = transition + after := by
  unfold shiftResolve at h
  unfold shiftToLocal
  split at h
  · -- set back
    split at h
    · cases h
      rw [if_pos (show dateTime - before < transition by omega)]
      omega
    · split at h
      · cases h
      · cases h
        rw [if_neg (show ¬ dateTime - after < transition by omega)]
        omega
  · -- set forward
    split at h
    · cases h
      split
      · omega
      · omega
    · split at h
      · cases h
      · cases h
        rw [if_neg (show ¬ dateTime - after < transition by omega)]
        omega

/-- **A gap from three o'clock on ends on the same date** when it is shorter than twenty-one hours. -/
theorem onDate_shiftZone (hshort : after - before < 21 * hour) (now : ℤ) :
    NextBackupOnDate (shiftZone transition before after) now := by
  intro instant hsingle
  rcases shiftToLocal_of_single hsingle with hshown | ⟨hgap, hstart, hend⟩
  · exact congrArg dateOf hshown
  · show dateOf (shiftToLocal transition before after instant) = _
    rw [hend, show transition + after = nextBackup (shiftZone transition before after) now +
      (after - before) by omega]
    unfold nextBackup atHour dateOf day hour second at *
    omega

end

namespace Scheduler

/-- An attempt that fails in its upload, after one second. -/
def failedUpload : Attempt := ⟨.ok (some "revision"), none, .error "no route", none, 10 ^ 9⟩

/-- The clock goes from two to three hours ahead at three o'clock of the second day. -/
def springZone : TimeZone := shiftZone (day + hour) (2 * hour) (3 * hour)

/-- The clock goes back from three to two hours ahead at four o'clock of the second day. -/
def autumnZone : TimeZone := shiftZone (day + hour) (3 * hour) (2 * hour)

/-- What such an attempt leaves. -/
theorem step_failedUpload (zone : TimeZone) (s : Scheduler) :
    s.step zone failedUpload = some ⟨s.now + backupWait zone s.now + second,
      (s.now + backupWait zone s.now, backupWait zone s.now) :: s.attempts,
      (backupActiveIfNew s.backups failedUpload).2⟩ := rfl

/-- Two nights, in the first of which the clock is set forward at three o'clock. -/
theorem spaced_after_two_nights :
    ∃ s, Reaches (step springZone)
        (fun s _ => NextBackupAhead springZone s.now ∧ NextBackupOnDate springZone s.now) ⟨0, [], []⟩ s ∧
      s.attempts = [(2 * day, 23 * hour - second), (day + hour, day + hour)] ∧ Spaced springZone s := by
  have hdate : ∀ now, NextBackupOnDate springZone now := onDate_shiftZone (by decide)
  have hfirst : NextBackupAhead springZone 0 := ⟨day + hour, by decide, by decide⟩
  have hsecond : NextBackupAhead springZone (0 + backupWait springZone 0 + second) :=
    ⟨2 * day, by decide, by decide⟩
  have hstart := @Reaches.start _ _ (step springZone)
    (fun s _ => NextBackupAhead springZone s.now ∧ NextBackupOnDate springZone s.now) ⟨0, [], []⟩
  have hrun := (hstart.step ⟨hfirst, hdate _⟩ (step_failedUpload _ _)).step ⟨hsecond, hdate _⟩
    (step_failedUpload _ _)
  exact ⟨_, hrun, by decide, spaced_of_reaches rfl hrun⟩

/-- **A repeated three o'clock.**  At noon of the day before, the next backup is at two instants: the loop
does not sleep, and attempts a backup again and again. -/
theorem repeated_hour_spins :
    ¬ ∀ (zone : TimeZone) (start s : Scheduler), start.attempts = [] →
      Reaches (step zone) (fun _ _ => True) start s → Spaced zone s := by
  intro hspaced
  have hrun : ∃ s, runAll (step autumnZone) ⟨9 * hour, [], []⟩ [failedUpload, failedUpload] = some s ∧
      s.attempts = [(9 * hour + second, 0), (9 * hour, 0)] ∧ s.backups.length = 2 :=
    ⟨_, rfl, by decide, rfl⟩
  obtain ⟨s, hrun, hattempts, -⟩ := hrun
  have hreaches := Reaches.of_runAll (@Reaches.start _ _ (step autumnZone) (fun _ _ => True) _)
    (fun _ _ _ => trivial) hrun
  have hdates := (hspaced autumnZone _ s rfl hreaches).dates
  rw [hattempts] at hdates
  revert hdates
  decide

end Scheduler

end Portalis
