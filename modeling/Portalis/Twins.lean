import Portalis.Concurrency

/-!
# The handlers and the commands

`apply` and `rollback` are written twice, as handlers of the API and as commands.  Both copies run
from one state, and every call of the nft controller, of the forwarding step and of the database
meets the same outcome in both; the files they write may fare differently.

* `activate_eq_bind`: what the copies have in common is one program, whatever follows it.
* `activationReport_cases`: how that program ends, and what it leaves.
* `rollback_agrees`, `apply_agrees`: exactly when the two copies agree.
-/

namespace Portalis

open Programs

/-! ### One outcome for each call -/

abbrev Outcomes := Call → Outcome

def World.performEach (w : World) (c : Call) (os : Outcomes) : Answer c × World := w.perform c (os c)

theorem World.performEach_validationContext (w : World) (os : Outcomes) :
    w.performEach .validationContext os = (w.validationContext, w) := rfl

/-- The calls of the file system. -/
def Call.isFile : Call → Bool
  | .createSnapshotDir => true
  | .writeSnapshot => true
  | .exportConfig _ => true
  | _ => false

/-- The calls of the nft controller, the forwarding step and the database meet the same. -/
def SameOutcomes (os os' : Outcomes) : Prop := ∀ c, c.isFile = false → os c = os' c

/-- Whether an operation reports an error, and what it leaves: the kernel, the newest active
revision, and the rows of the database. -/
structure Report where
  failed : Bool
  kernel : Option Table
  sysctl : Sysctl
  active : Option Config
  rows : List (RevisionKind × Config)
  deriving DecidableEq

def World.report (w : World) (failed : Bool) : Report :=
  ⟨failed, w.kernel, w.sysctl, w.db.activeConfig, w.db.rows⟩

/-- The report of an operation run alone from `w`. -/
def reportOf {α : Type} (isError : α → Bool) (p : Operation α) (os : Outcomes) (w : World) : Report :=
  let (answer, after) := p.run World.performEach os w
  after.report (isError answer)

/-- Nothing was changed, up to what was counted. -/
def Report.Untouched (self : Report) (before : World) : Prop :=
  self.kernel.map Table.erase = before.kernel.map Table.erase ∧ self.active = before.db.activeConfig

/-- Both refuse and leave everything as it was, or both succeed and leave the same. -/
def Report.Agrees (self other : Report) (before : World) : Prop :=
  (self.failed = true ∧ other.failed = true ∧ self.Untouched before ∧ other.Untouched before) ∨
    (self.failed = false ∧ other.failed = false ∧ self.kernel = other.kernel ∧
      self.active = other.active)

/-- One call, once its answer is known. -/
theorem reportOf_call {α : Type} {isError : α → Bool} {c : Call} {os : Outcomes} {w w' : World}
    {a : Answer c} (h : w.performEach c os = (a, w')) (k : Answer c → Operation α) :
    reportOf isError (.call c k) os w = reportOf isError (k a) os w' := by
  unfold reportOf
  rw [Program.run_call h]

theorem World.report_untouched (w : World) (failed : Bool) : (w.report failed).Untouched w :=
  ⟨rfl, rfl⟩

/-! ### The common part -/

/-- How an activation ends. -/
inductive Activated
  | refused (error : NftError)
  | unforwarded (message : String)
  | unsaved (error rollback : String)
  | done (active : Revision) (receipt : ApplyReceipt)

def Activated.failed : Activated → Bool
  | done _ _ => false
  | _ => true

/-- The activation alone. -/
def activation (config previous : Config) : Operation Activated :=
  activate config previous (fun error => .ret (.refused error))
    (fun message => .ret (.unforwarded message))
    (fun error rollback => .ret (.unsaved error rollback))
    (fun active receipt => .ret (.done active receipt))

theorem compensate_bind {α β : Type} (previous : Config) (next : String → Operation α)
    (f : α → Operation β) :
    (compensate previous next).bind f = compensate previous fun rollback => (next rollback).bind f := by
  refine congrArg (Program.call (Call.nftRollback previous)) (funext fun r => ?_)
  cases r <;> rfl

/-- **Whatever follows it**, the common part is one program. -/
theorem activate_eq_bind {α : Type} (config previous : Config) (next : Activated → Operation α) :
    activate config previous (fun error => next (.refused error))
      (fun message => next (.unforwarded message))
      (fun error rollback => next (.unsaved error rollback))
      (fun active receipt => next (.done active receipt)) =
        (activation config previous).bind next := by
  refine congrArg (Program.call (Call.nftApply config)) (funext fun r => ?_)
  cases r with
  | error error => rfl
  | ok receipt =>
    refine congrArg (Program.call (Call.ensureForwarding config)) (funext fun r => ?_)
    cases r with
    | error error =>
      exact (compensate_bind previous
        (fun rollback => .ret (.unforwarded (error ++ rollback))) next).symm
    | ok _ =>
      refine congrArg (Program.call (Call.markActive config)) (funext fun r => ?_)
      cases r with
      | error error =>
        exact (compensate_bind previous (fun rollback => .ret (.unsaved error rollback)) next).symm
      | ok active => rfl

/-! ### How an activation goes -/

/-- The batch of the configuration is refused, or it cannot be built. -/
def Refuses (os : Outcomes) (config : Config) : Prop :=
  (∃ error, (os (.nftApply config)).failing = some (.nftApply error)) ∨
    ∃ error, compile config = .error error

/-- The compensating batch is refused, or it cannot be built. -/
def RefusesBack (os : Outcomes) (previous : Config) : Prop :=
  (∃ error, (os (.nftRollback previous)).failing = some (.nftRollback error)) ∨
    ∃ error, compile previous = .error error

namespace World

variable (w : World) (os : Outcomes) (config : Config)

/-- What the compensation writes back. -/
def previous : Config := w.db.activeConfig.getD .default

/-- What the forwarding step answers, and the switches it leaves. -/
def switched : Except SysctlStep Unit × Sysctl :=
  w.sysctl.ensureForwarding config (os (.ensureForwarding config)).sysctlStep

/-- The forwarding step succeeds. -/
def EnablesForwarding : Prop := (w.switched os config).1 = .ok ()

/-- What `mark_active` answers, and the database it leaves. -/
def marked : Except DbError Revision × Database :=
  w.db.markActive config (os (.markActive config)).now (os (.markActive config)).dbStep

/-- `mark_active` stores nothing, or a row without its audit entry, or a row. -/
theorem marked_rows :
    ((∃ e, (w.marked os config).1 = .error e) ∧ (w.marked os config).2.rows = w.db.rows) ∨
      ((w.marked os config).1 = .error (.failed .audit) ∧
        (w.marked os config).2.rows = w.db.rows ++ [(.active, config)]) ∨
      ∃ active, (w.marked os config).1 = .ok active ∧
        (w.marked os config).2.rows = w.db.rows ++ [(.active, config)] := by
  unfold marked
  rcases w.db.markActive_cases config (os (.markActive config)).now (os (.markActive config)).dbStep
    with ⟨e, hrun⟩ | ⟨h, -, hrun⟩ | ⟨h, log, hrun⟩
  · rw [hrun]
    exact Or.inl ⟨⟨e, rfl⟩, rfl⟩
  · rw [hrun]
    exact Or.inr (Or.inl ⟨rfl, Database.rows_append _ _ h⟩)
  · rw [hrun]
    exact Or.inr (Or.inr ⟨_, rfl, Database.rows_append _ _ h⟩)

/-- The activation succeeds. -/
structure Completes : Prop where
  accepted : ¬ Refuses os config
  forwarding : w.EnablesForwarding os config
  marked : ∃ active, (w.marked os config).1 = .ok active

/-- The table that the compensation leaves is the one from before: it wrote that one back, or could not
write and the new table is the same. -/
def TableReturns : Prop :=
  (¬ RefusesBack os w.previous ∧
      ∃ t, compile w.previous = .ok t ∧ w.kernel.map Table.erase = some t.erase) ∨
    (RefusesBack os w.previous ∧
      ∃ t, compile config = .ok t ∧ w.kernel.map Table.erase = some t.erase)

/-- An activation that fails after its batch leaves no trace. -/
structure Traceless : Prop where
  table : w.TableReturns os config
  newest : w.EnablesForwarding os config → (w.marked os config).2.activeConfig = w.db.activeConfig

/-- The report of an activation. -/
def activationReport : Report := reportOf Activated.failed (activation config w.previous) os w

variable {w os config}

/-- The batch is refused, or its table is written. -/
theorem performEach_nftApply :
    (Refuses os config ∧ ∃ error, w.performEach (.nftApply config) os = (.error error, w)) ∨
      (¬ Refuses os config ∧ ∃ t receipt, compile config = .ok t ∧
        w.performEach (.nftApply config) os = (.ok receipt, { w with kernel := some t })) := by
  refine w.sendTable_of_iff (or_congr_left ?_)
  split
  · rename_i error hfailing
    simp [hfailing]
  · rename_i hother
    simpa using hother

/-- The compensating batch likewise. -/
theorem performEach_nftRollback :
    (RefusesBack os config ∧ ∃ error, w.performEach (.nftRollback config) os = (.error error, w)) ∨
      (¬ RefusesBack os config ∧ ∃ t receipt, compile config = .ok t ∧
        w.performEach (.nftRollback config) os = (.ok receipt, { w with kernel := some t })) := by
  refine w.sendTable_of_iff (or_congr_left ?_)
  split
  · rename_i error hfailing
    simp [hfailing]
  · rename_i hother
    simpa using hother

/-- **What a compensation leaves.**  The table of the configuration is in the kernel when it starts. -/
theorem run_compensate_report {t : Table} {next : String → Activated} {after : World}
    (hcompile : compile config = .ok t) (hkernel : after.kernel = some t)
    (hnext : ∀ rollback, (next rollback).failed = true) :
    (reportOf Activated.failed (compensate w.previous fun rollback => .ret (next rollback)) os
        after).failed = true ∧
      ((reportOf Activated.failed (compensate w.previous fun rollback => .ret (next rollback)) os
        after).Untouched w ↔
          w.TableReturns os config ∧ after.db.activeConfig = w.db.activeConfig) ∧
      (reportOf Activated.failed (compensate w.previous fun rollback => .ret (next rollback)) os
        after).rows = after.db.rows := by
  unfold compensate
  rcases @performEach_nftRollback after os w.previous with
    ⟨hback, error, hrun⟩ | ⟨hback, before, receipt, hprevious, hrun⟩
  · rw [reportOf_call hrun]
    refine ⟨hnext _, and_congr ?_ Iff.rfl, rfl⟩
    show after.kernel.map Table.erase = _ ↔ _
    simp [TableReturns, hback, hcompile, hkernel, eq_comm]
  · rw [reportOf_call hrun]
    refine ⟨hnext _, and_congr ?_ Iff.rfl, rfl⟩
    show some before.erase = _ ↔ _
    simp [TableReturns, hback, hprevious, eq_comm]

/-- **How an activation goes**: it refuses, it succeeds, or it fails after its batch. -/
theorem activationReport_cases :
    (Refuses os config ∧ w.activationReport os config = w.report true) ∨
      (w.Completes os config ∧ ∃ t, compile config = .ok t ∧ w.activationReport os config =
        ⟨false, some t, (w.switched os config).2, (w.marked os config).2.activeConfig,
          (w.marked os config).2.rows⟩) ∨
      (¬ Refuses os config ∧ ¬ w.Completes os config ∧
        (w.activationReport os config).failed = true ∧
          ((w.activationReport os config).Untouched w ↔ w.Traceless os config) ∧
            ((w.activationReport os config).rows = w.db.rows ∨
              (w.marked os config).1 = .error (.failed .audit) ∧
                (w.activationReport os config).rows = (w.marked os config).2.rows)) := by
  unfold activationReport activation activate
  rcases @performEach_nftApply w os config with
    ⟨hrefuses, error, hrun⟩ | ⟨haccepted, t, receipt, hcompile, hrun⟩
  · exact Or.inl ⟨hrefuses, by rw [reportOf_call hrun]; rfl⟩
  refine Or.inr ?_
  rw [reportOf_call hrun]
  cases hforward : w.switched os config with
  | mk answer sysctl =>
    have hstep : ({ w with kernel := some t } : World).performEach (.ensureForwarding config) os =
        (answer.mapError (SysctlStep.text (os (.ensureForwarding config)).cause),
          { w with kernel := some t, sysctl := sysctl }) := by
      rw [switched] at hforward
      rw [performEach, perform]
      simp only [hforward]
    rw [reportOf_call hstep]
    cases answer with
    | error error =>
      have hoff : ¬ w.EnablesForwarding os config := by simp [EnablesForwarding, hforward]
      obtain ⟨hfailed, huntouched, hrows⟩ := @run_compensate_report w os config t
        (fun rollback => .unforwarded (error.text (os (.ensureForwarding config)).cause ++ rollback))
        { w with kernel := some t, sysctl := sysctl } hcompile rfl fun _ => rfl
      refine Or.inr ⟨haccepted, fun h => hoff h.forwarding, hfailed, huntouched.trans ?_,
        Or.inl hrows⟩
      exact ⟨fun h => ⟨h.1, fun hon => absurd hon hoff⟩, fun h => ⟨h.table, rfl⟩⟩
    | ok _ =>
      have hon : w.EnablesForwarding os config := by simp [EnablesForwarding, hforward]
      cases hmarked : w.marked os config with
      | mk answer db =>
        have hstep : ({ w with kernel := some t, sysctl := sysctl } : World).performEach
            (.markActive config) os = (answer.mapError (DbError.text (os (.markActive config)).cause),
              { w with kernel := some t, sysctl := sysctl, db := db }) := by
          rw [marked] at hmarked
          rw [performEach, perform]
          simp only [hmarked]
        dsimp only [Except.mapError]
        rw [reportOf_call hstep]
        cases answer with
        | error error =>
          obtain ⟨hfailed, huntouched, hrows⟩ := @run_compensate_report w os config t
            (fun rollback => .unsaved (error.text (os (.markActive config)).cause) rollback)
            { w with kernel := some t, sysctl := sysctl, db := db } hcompile rfl fun _ => rfl
          refine Or.inr ⟨haccepted, fun h => ?_, hfailed, huntouched.trans ?_, ?_⟩
          · obtain ⟨active, hactive⟩ := h.marked
            rw [hmarked] at hactive
            cases hactive
          · refine ⟨fun h => ⟨h.1, fun _ => by rw [hmarked]; exact h.2⟩, fun h => ⟨h.table, ?_⟩⟩
            have hnewest := h.newest hon
            rwa [hmarked] at hnewest
          · have hstored := w.marked_rows os config
            rw [hmarked] at hstored
            rcases hstored with ⟨-, hkept⟩ | ⟨haudit, -⟩ | ⟨active, hactive, -⟩
            · exact Or.inl (hrows.trans hkept)
            · exact Or.inr ⟨haudit, hrows⟩
            · cases hactive
        | ok active =>
          exact Or.inl ⟨⟨haccepted, hon, active, by rw [hmarked]⟩, t, hcompile, rfl⟩

end World

/-! ### Agreement -/

namespace Report

theorem agrees_comm {self other : Report} {before : World} :
    self.Agrees other before ↔ other.Agrees self before := by
  have hflip : ∀ {a b : Report}, a.Agrees b before → b.Agrees a before := by
    rintro a b (⟨ha, hb, hsame, hsame'⟩ | ⟨ha, hb, hkernel, hactive⟩)
    · exact Or.inl ⟨hb, ha, hsame', hsame⟩
    · exact Or.inr ⟨hb, ha, hkernel.symm, hactive.symm⟩
  exact ⟨hflip, hflip⟩

/-- Both refuse at once. -/
theorem agrees_of_refused (w : World) : (w.report true).Agrees (w.report true) w :=
  Or.inl ⟨rfl, rfl, w.report_untouched true, w.report_untouched true⟩

variable {w : World} {os : Outcomes} {config : Config}

/-- Only one copy comes to the activation, and the other refuses. -/
theorem agrees_activation_of_refused :
    (w.report true).Agrees (w.activationReport os config) w ↔
      ¬ w.Completes os config ∧ (Refuses os config ∨ w.Traceless os config) := by
  rcases @World.activationReport_cases w os config with
    ⟨hrefuses, hreport⟩ | ⟨hcompletes, t, -, hreport⟩ | ⟨haccepted, hnot, hfailed, huntouched, -⟩
  · rw [hreport]
    exact iff_of_true (agrees_of_refused w) ⟨fun h => h.accepted hrefuses, Or.inl hrefuses⟩
  · rw [hreport]
    refine iff_of_false ?_ fun h => h.1 hcompletes
    rintro (⟨-, hfailed, -⟩ | ⟨hrefused, -⟩)
    · cases hfailed
    · cases hrefused
  · constructor
    · rintro (⟨-, -, -, hsame⟩ | ⟨hrefused, -⟩)
      · exact ⟨hnot, Or.inr (huntouched.mp hsame)⟩
      · cases hrefused
    · rintro ⟨-, hrefuses | htraceless⟩
      · exact absurd hrefuses haccepted
      · exact Or.inl ⟨rfl, hfailed, w.report_untouched true, huntouched.mpr htraceless⟩

/-- Both copies come to the activation. -/
theorem agrees_activation_self :
    (w.activationReport os config).Agrees (w.activationReport os config) w ↔
      Refuses os config ∨ w.Completes os config ∨ w.Traceless os config := by
  rcases @World.activationReport_cases w os config with
    ⟨hrefuses, hreport⟩ | ⟨hcompletes, t, -, hreport⟩ | ⟨haccepted, hnot, hfailed, huntouched, -⟩
  · rw [hreport]
    exact iff_of_true (agrees_of_refused w) (Or.inl hrefuses)
  · rw [hreport]
    exact iff_of_true (Or.inr ⟨rfl, rfl, rfl, rfl⟩) (Or.inr (Or.inl hcompletes))
  · constructor
    · rintro (⟨-, -, -, hsame⟩ | ⟨hsucceeded, -⟩)
      · exact Or.inr (Or.inr (huntouched.mp hsame))
      · rw [hfailed] at hsucceeded
        cases hsucceeded
    · rintro (hrefuses | hcompletes | htraceless)
      · exact absurd hrefuses haccepted
      · exact absurd hcompletes hnot
      · have hsame := huntouched.mpr htraceless
        exact Or.inl ⟨hfailed, hfailed, hsame, hsame⟩

end Report

/-! ### What follows the activation -/

/-- Whatever follows an activation answers an error when it failed, and leaves the kernel and the newest
active revision. -/
def Follows {α : Type} (isError : α → Bool) (next : Activated → Operation α) : Prop :=
  ∀ ended os w, reportOf isError (next ended) os w = w.report ended.failed

/-- The activation decides the report. -/
theorem Follows.reportOf_activate {α : Type} {isError : α → Bool} {next : Activated → Operation α}
    (h : Follows isError next) (config : Config) (os : Outcomes) (w : World) :
    reportOf isError (activate config w.previous (fun error => next (.refused error))
      (fun message => next (.unforwarded message))
      (fun error rollback => next (.unsaved error rollback))
      (fun active receipt => next (.done active receipt))) os w = w.activationReport os config := by
  rw [activate_eq_bind, reportOf, Program.run_bind]
  exact h _ os _

/-- Its calls meet the same in both copies. -/
theorem SameOutcomes.activationReport_eq {os os' : Outcomes} (h : SameOutcomes os os') (w : World)
    (config : Config) : w.activationReport os' config = w.activationReport os config := by
  have honly : (activation config w.previous).Only fun c => c.isFile = false := by
    have hback : ∀ next : String → Activated, (compensate w.previous fun rollback =>
        .ret (next rollback) : Operation Activated).Only fun c => c.isFile = false :=
      fun next => ⟨rfl, fun r => by cases r <;> trivial⟩
    refine ⟨rfl, fun r => ?_⟩
    cases r with
    | error error => trivial
    | ok receipt =>
      refine ⟨rfl, fun r => ?_⟩
      cases r with
      | error error => exact hback _
      | ok _ =>
        refine ⟨rfl, fun r => ?_⟩
        cases r with
        | error error => exact hback _
        | ok active => trivial
  have hsame : ∀ (w : World) (c : Call), c.isFile = false → w.performEach c os' = w.performEach c os :=
    fun w c hc => congrArg (w.perform c) (h c hc).symm
  unfold World.activationReport reportOf
  rw [Program.run_congr hsame honly w]

/-! ### Rollback -/

section

variable {w : World} {os os' : Outcomes} {revisionId : String} {revision : Revision}

/-- The revision is read. -/
theorem reportOf_revision {α : Type} {isError : α → Bool} {k : Answer (.revision revisionId) →
    Operation α} (hread : (os (.revision revisionId)).failing ≠ some .revision) :
    reportOf isError (.call (.revision revisionId) k) os w =
      reportOf isError (k (.ok (w.db.revision revisionId))) os w :=
  reportOf_call (congrArg (·, w) (if_neg hread)) k

theorem reportOf_revision_error {α : Type} {isError : α → Bool} {k : Answer (.revision revisionId) →
    Operation α} (hread : (os (.revision revisionId)).failing = some .revision) :
    reportOf isError (.call (.revision revisionId) k) os w =
      reportOf isError (k (.error (os (.revision revisionId)).cause)) os w :=
  reportOf_call (congrArg (·, w) (if_pos hread)) k

theorem reportOf_activeConfig {α : Type} {isError : α → Bool} {k : Answer .activeConfig → Operation α}
    (hread : (os .activeConfig).failing ≠ some .activeConfig) :
    reportOf isError (.call .activeConfig k) os w =
      reportOf isError (k (.ok w.db.activeConfig)) os w :=
  reportOf_call (congrArg (·, w) (if_neg hread)) k

theorem reportOf_activeConfig_error {α : Type} {isError : α → Bool}
    {k : Answer .activeConfig → Operation α}
    (hread : (os .activeConfig).failing = some .activeConfig) :
    reportOf isError (.call .activeConfig k) os w =
      reportOf isError (k (.error (os .activeConfig).cause)) os w :=
  reportOf_call (congrArg (·, w) (if_pos hread)) k

theorem Api.rollback_report (hread : (os (.revision revisionId)).failing ≠ some .revision)
    (hfound : w.db.revision revisionId = some revision) :
    reportOf Response.isError (Api.rollback revisionId) os w =
      if revision.config.validate w.validationContext = .ok () ∧
        (os .activeConfig).failing ≠ some .activeConfig then w.activationReport os revision.config
      else w.report true := by
  have hfollows : Follows Response.isError fun
      | .refused error => .ret (.internal error.text)
      | .unforwarded message => .ret (.internal message)
      | .unsaved error rollback =>
        .ret (.internal ("could not persist rollback: " ++ error ++ rollback))
      | .done active _ => .ret (.rolledBack active) :=
    fun ended _ _ => by cases ended <;> rfl
  unfold Api.rollback
  rw [reportOf_revision hread, hfound]
  show reportOf _ (.call .validationContext _) os w = _
  rw [reportOf_call (w.performEach_validationContext os)]
  cases revision.config.validate w.validationContext with
  | error errors =>
    refine (if_neg ?_).symm
    rintro ⟨hvalid, -⟩
    cases hvalid
  | ok valid =>
    by_cases hprevious : (os .activeConfig).failing = some .activeConfig
    · rw [if_neg fun h => h.2 hprevious]
      show reportOf _ (.call .activeConfig _) os w = _
      rw [reportOf_activeConfig_error hprevious]
      rfl
    · rw [if_pos ⟨rfl, hprevious⟩]
      show reportOf _ (.call .activeConfig _) os w = _
      rw [reportOf_activeConfig hprevious]
      exact hfollows.reportOf_activate revision.config os w

theorem Service.rollback_report (hread : (os (.revision revisionId)).failing ≠ some .revision)
    (hfound : w.db.revision revisionId = some revision) :
    reportOf Service.failed (Service.rollback revisionId) os w =
      if (os .activeConfig).failing ≠ some .activeConfig then w.activationReport os revision.config
      else w.report true := by
  have hfollows : Follows Service.failed fun
      | .refused error => .ret (.error (.text error.text))
      | .unforwarded message => .ret (.error (.text message))
      | .unsaved error rollback =>
        .ret (.error (.text ("could not persist rollback: " ++ error ++ rollback)))
      | .done active _ => .ret (.ok ("rolled back to " ++ revisionId ++ " as active revision " ++
          active.id)) :=
    fun ended _ _ => by cases ended <;> rfl
  unfold Service.rollback
  rw [reportOf_revision hread, hfound]
  by_cases hprevious : (os .activeConfig).failing = some .activeConfig
  · rw [if_neg (not_not.mpr hprevious)]
    show reportOf _ (.call .activeConfig _) os w = _
    rw [reportOf_activeConfig_error hprevious]
    rfl
  · rw [if_pos hprevious]
    show reportOf _ (.call .activeConfig _) os w = _
    rw [reportOf_activeConfig hprevious]
    exact hfollows.reportOf_activate revision.config os w

/-- The condition for a rollback.  Once the revision and the active configuration are read, the
configuration is a valid one if its activation succeeds, and a failure after the batch leaves no
trace. -/
def World.AllowsRollback (w : World) (os : Outcomes) (revisionId : String) : Prop :=
  ∀ revision, w.db.revision revisionId = some revision →
    (os (.revision revisionId)).failing ≠ some .revision →
    (os .activeConfig).failing ≠ some .activeConfig →
    (w.Completes os revision.config → revision.config.validate w.validationContext = .ok ()) ∧
      (Refuses os revision.config ∨ w.Completes os revision.config ∨ w.Traceless os revision.config)

/-- **When the two rollbacks agree.** -/
theorem rollback_agrees (h : SameOutcomes os os') (w : World) (revisionId : String) :
    (reportOf Response.isError (Api.rollback revisionId) os w).Agrees
        (reportOf Service.failed (Service.rollback revisionId) os' w) w ↔
      w.AllowsRollback os revisionId := by
  unfold World.AllowsRollback
  have hrevision : os (.revision revisionId) = os' (.revision revisionId) := h _ rfl
  have hactive : os .activeConfig = os' .activeConfig := h _ rfl
  by_cases hread : (os (.revision revisionId)).failing = some .revision
  · rw [Api.rollback, Service.rollback, reportOf_revision_error hread,
      reportOf_revision_error (hrevision ▸ hread)]
    exact iff_of_true (Report.agrees_of_refused w) fun _ _ hnot => absurd hread hnot
  cases hfound : w.db.revision revisionId with
  | none =>
    rw [Api.rollback, Service.rollback, reportOf_revision hread,
      reportOf_revision (hrevision ▸ hread), hfound]
    exact iff_of_true (Report.agrees_of_refused w) nofun
  | some revision =>
    rw [Api.rollback_report hread hfound, Service.rollback_report (hrevision ▸ hread) hfound,
      ← hactive, h.activationReport_eq]
    by_cases hprevious : (os .activeConfig).failing = some .activeConfig
    · rw [if_neg fun h => h.2 hprevious, if_neg (not_not.mpr hprevious)]
      exact iff_of_true (Report.agrees_of_refused w) fun _ _ _ hnot => absurd hprevious hnot
    rw [if_pos hprevious]
    by_cases hvalid : revision.config.validate w.validationContext = .ok ()
    · rw [if_pos ⟨hvalid, hprevious⟩, Report.agrees_activation_self]
      simp [hvalid, hread, hprevious]
    · rw [if_neg fun h => hvalid h.1, Report.agrees_activation_of_refused]
      simp only [Option.some.injEq, forall_eq', ne_eq, hread, hprevious, not_false_eq_true, hvalid,
        imp_false, forall_const]
      tauto

end

/-! ### Apply -/

namespace World

variable (w : World) (os : Outcomes)

/-- `apply` comes to the test of the reuse path with this draft. -/
structure Proceeds (draft : Revision) : Prop where
  newest : w.db.draftConfig = some draft
  read : (os .draftConfig).failing ≠ some .draftConfig
  valid : draft.config.validate w.validationContext = .ok ()
  activeRead : (os .activeConfig).failing ≠ some .activeConfig

/-- `apply` takes the reuse path. -/
structure Reuses (config : Config) : Prop where
  statusRead : ∀ error, (os (.nftStatus config)).failing ≠ some (.nftStatus error)
  inPlace : w.HasInPlace config

end World

/-- The handler takes its snapshot. -/
structure ApiSnapshots (os : Outcomes) : Prop where
  dir : (os .createSnapshotDir).failing ≠ some .createSnapshotDir
  read : ∀ error, (os .tableSnapshot).failing ≠ some (.tableSnapshot error)
  file : (os .writeSnapshot).failing ≠ some .writeSnapshot

/-- The command takes its snapshot, or has none to take. -/
def CommandSnapshots (os : Outcomes) : Prop :=
  (∃ error, (os .tableSnapshot).failing = some (.tableSnapshot error)) ∨
    (os .writeSnapshot).failing ≠ some .writeSnapshot

theorem SameOutcomes.proceeds_iff {os os' : Outcomes} (h : SameOutcomes os os') {w : World}
    {draft : Revision} : w.Proceeds os' draft ↔ w.Proceeds os draft := by
  have hdraft : os .draftConfig = os' .draftConfig := h _ rfl
  have hactive : os .activeConfig = os' .activeConfig := h _ rfl
  exact ⟨fun ⟨hnewest, hread, hvalid, hprevious⟩ =>
      ⟨hnewest, hdraft ▸ hread, hvalid, hactive ▸ hprevious⟩,
    fun ⟨hnewest, hread, hvalid, hprevious⟩ =>
      ⟨hnewest, hdraft ▸ hread, hvalid, hactive ▸ hprevious⟩⟩

theorem SameOutcomes.reuses_iff {os os' : Outcomes} (h : SameOutcomes os os') {w : World}
    {config : Config} : w.Reuses os' config ↔ w.Reuses os config := by
  have hstatus : os (.nftStatus config) = os' (.nftStatus config) := h _ rfl
  exact ⟨fun ⟨hread, hplace⟩ => ⟨hstatus ▸ hread, hplace⟩,
    fun ⟨hread, hplace⟩ => ⟨hstatus ▸ hread, hplace⟩⟩

section

variable {α : Type} {isError : α → Bool} {w : World} {os : Outcomes} {config : Config}
  {reuse fresh : Operation α}

theorem performEach_nftStatus :
    (∃ error, (os (.nftStatus config)).failing = some (.nftStatus error) ∧
        w.performEach (.nftStatus config) os = (.error error, w)) ∨
      (∀ error, (os (.nftStatus config)).failing ≠ some (.nftStatus error)) ∧
        w.performEach (.nftStatus config) os =
          (.ok (nftStatus (os (.nftStatus config)).observedAt w.kernel config), w) := by
  rw [World.performEach, World.perform]
  split
  · rename_i error hfailing
    exact Or.inl ⟨error, hfailing, rfl⟩
  · rename_i hother
    exact Or.inr ⟨hother, rfl⟩

theorem unlessInPlace_run :
    (w.Reuses os config ∧ (unlessInPlace config w.previous reuse fresh).run World.performEach os w =
        reuse.run World.performEach os w) ∨
      (¬ w.Reuses os config ∧ (unlessInPlace config w.previous reuse fresh).run World.performEach os w =
        fresh.run World.performEach os w) := by
  unfold unlessInPlace
  by_cases heq : w.previous = config
  · rw [if_pos heq]
    rcases @performEach_nftStatus w os config with ⟨error, hfailing, hstatus⟩ | ⟨hread, hstatus⟩
    · rw [Program.run_call hstatus]
      exact Or.inr ⟨fun h => h.statusRead error hfailing, rfl⟩
    · obtain ⟨hpresent, hdrifted⟩ := nftStatus_now (os (.nftStatus config)).observedAt w.kernel config
      rw [Program.run_call hstatus]
      dsimp only
      rw [hpresent, hdrifted]
      by_cases hplace : (nftStatus "" w.kernel config).tablePresent = true ∧
          (nftStatus "" w.kernel config).drifted = false
      · rw [if_pos (by simpa using hplace)]
        exact Or.inl ⟨⟨hread, heq, hplace⟩, rfl⟩
      · rw [if_neg (by simpa using hplace)]
        exact Or.inr ⟨fun h => hplace h.inPlace.2, rfl⟩
  · rw [if_neg heq]
    exact Or.inr ⟨fun h => heq h.inPlace.1, rfl⟩

/-- **How an apply begins**: it refuses, or comes to one of its two paths. -/
theorem applyNewest_run {failed : String → α} {noDraft : α}
    {invalid : Revision → List ValidationError → α} {fresh : Revision → Config → Operation α}
    (hfailed : ∀ error, isError (failed error) = true) (hnone : isError noDraft = true)
    (hinvalid : ∀ draft errors, isError (invalid draft errors) = true) :
    ((∀ draft, ¬ w.Proceeds os draft) ∧ ∃ answer, isError answer = true ∧
        (applyNewest failed noDraft invalid reuse fresh).run World.performEach os w = (answer, w)) ∨
      ∃ draft, w.Proceeds os draft ∧
        ((w.Reuses os draft.config ∧
            (applyNewest failed noDraft invalid reuse fresh).run World.performEach os w =
              reuse.run World.performEach os w) ∨
          (¬ w.Reuses os draft.config ∧
            (applyNewest failed noDraft invalid reuse fresh).run World.performEach os w =
              (fresh draft w.previous).run World.performEach os w)) := by
  unfold applyNewest
  by_cases hread : (os .draftConfig).failing = some .draftConfig
  · refine Or.inl ⟨fun draft h => h.read hread, failed (os .draftConfig).cause, hfailed _, ?_⟩
    have hcall : w.performEach .draftConfig os = (.error (os .draftConfig).cause, w) :=
      congrArg (·, w) (if_pos hread)
    rw [Program.run_call hcall]
    rfl
  have hcall : w.performEach .draftConfig os = (.ok w.db.draftConfig, w) :=
    congrArg (·, w) (if_neg hread)
  rw [Program.run_call hcall]
  cases hnewest : w.db.draftConfig with
  | none =>
    refine Or.inl ⟨fun draft h => ?_, noDraft, hnone, rfl⟩
    cases hnewest.symm.trans h.newest
  | some draft =>
    have hsame : ∀ draft', w.Proceeds os draft' → draft' = draft := fun draft' h =>
      Option.some.inj (h.newest.symm.trans hnewest)
    dsimp only
    rw [Program.run_call (w.performEach_validationContext os)]
    cases hvalid : draft.config.validate w.validationContext with
    | error errors =>
      refine Or.inl ⟨fun draft' h => ?_, invalid draft errors, hinvalid _ _, rfl⟩
      cases hsame draft' h
      cases hvalid.symm.trans h.valid
    | ok valid =>
      dsimp only
      by_cases hprevious : (os .activeConfig).failing = some .activeConfig
      · refine Or.inl ⟨fun draft h => h.activeRead hprevious, failed (os .activeConfig).cause,
          hfailed _, ?_⟩
        have hcall : w.performEach .activeConfig os = (.error (os .activeConfig).cause, w) :=
          congrArg (·, w) (if_pos hprevious)
        rw [Program.run_call hcall]
        rfl
      · have hcall : w.performEach .activeConfig os = (.ok w.db.activeConfig, w) :=
          congrArg (·, w) (if_neg hprevious)
        rw [Program.run_call hcall]
        exact Or.inr ⟨draft, ⟨hnewest, hread, hvalid, hprevious⟩, unlessInPlace_run⟩

theorem applyNewest_report {failed : String → α} {noDraft : α}
    {invalid : Revision → List ValidationError → α} {fresh : Revision → Config → Operation α}
    {refused : Bool} (hfailed : ∀ error, isError (failed error) = true)
    (hnone : isError noDraft = true)
    (hinvalid : ∀ draft errors, isError (invalid draft errors) = true)
    (hreuse : reportOf isError reuse os w = w.report refused) :
    ((∀ draft, ¬ w.Proceeds os draft) ∧
        reportOf isError (applyNewest failed noDraft invalid reuse fresh) os w = w.report true) ∨
      ∃ draft, w.Proceeds os draft ∧
        ((w.Reuses os draft.config ∧
            reportOf isError (applyNewest failed noDraft invalid reuse fresh) os w =
              w.report refused) ∨
          (¬ w.Reuses os draft.config ∧
            reportOf isError (applyNewest failed noDraft invalid reuse fresh) os w =
              reportOf isError (fresh draft w.previous) os w)) := by
  rw [← hreuse]
  unfold reportOf
  rcases @applyNewest_run _ isError w os reuse _ _ _ fresh hfailed hnone hinvalid with
    ⟨hnot, answer, herror, hrun⟩ | ⟨draft, hproceeds, hpath⟩
  · rw [hrun]
    exact Or.inl ⟨hnot, congrArg w.report herror⟩
  · refine Or.inr ⟨draft, hproceeds, ?_⟩
    rcases hpath with ⟨hreuses, hrun⟩ | ⟨hfresh, hrun⟩
    · rw [hrun]
      exact Or.inl ⟨hreuses, rfl⟩
    · rw [hrun]
      exact Or.inr ⟨hfresh, rfl⟩

theorem performEach_tableSnapshot :
    (∃ error, (os .tableSnapshot).failing = some (.tableSnapshot error) ∧
        w.performEach .tableSnapshot os = (.error error, w)) ∨
      (∀ error, (os .tableSnapshot).failing ≠ some (.tableSnapshot error)) ∧
        w.performEach .tableSnapshot os = (.ok (), w) := by
  rw [World.performEach, World.perform]
  split
  · rename_i error hfailing
    exact Or.inl ⟨error, hfailing, rfl⟩
  · rename_i hother
    exact Or.inr ⟨hother, rfl⟩

/-- What follows the handler's activation. -/
def Api.afterActivation (draft : Revision) : Activated → Operation Response
  | .refused error => Api.failApply draft error.text
  | .unforwarded message => Api.failApply draft message
  | .unsaved error rollback =>
    .ret (.internal ("could not persist active revision: " ++ error ++ rollback))
  | .done active receipt => .call (.exportConfig draft.config) fun _ => .ret (.applied active receipt)

theorem Api.apply_follows (draft : Revision) :
    Follows Response.isError (Api.afterActivation draft) := by
  intro ended os w
  have hfail : ∀ message,
      reportOf Response.isError (Api.failApply draft message) os w = w.report true := by
    intro message
    have hactive := w.db.activeConfig_markApplyError draft.id message
      (os (.markApplyError draft.id message)).now (os (.markApplyError draft.id message)).dbStep
    have hrows := w.db.rows_markApplyError draft.id message
      (os (.markApplyError draft.id message)).now (os (.markApplyError draft.id message)).dbStep
    exact congrArg₂ (Report.mk true w.kernel w.sysctl) hactive hrows
  cases ended with
  | refused error => exact hfail error.text
  | unforwarded message => exact hfail message
  | unsaved error rollback => rfl
  | done active receipt =>
    obtain ⟨answer, exported, hexport⟩ :=
      w.perform_exportConfig draft.config (os (.exportConfig draft.config))
    exact reportOf_call hexport _

/-- The fresh path: no snapshot and an error, or an activation and what follows it. -/
theorem Api.applyFresh_run (draft : Revision) :
    (ApiSnapshots os ∧ (Api.applyFresh draft w.previous).run World.performEach os w =
        ((activation draft.config w.previous).bind (Api.afterActivation draft)).run
          World.performEach os w) ∨
      (¬ ApiSnapshots os ∧ ∃ answer, answer.isError = true ∧
        (Api.applyFresh draft w.previous).run World.performEach os w = (answer, w)) := by
  unfold Api.applyFresh
  by_cases hdir : (os .createSnapshotDir).failing = some .createSnapshotDir
  · have hcall : w.performEach .createSnapshotDir os = (.error (os .createSnapshotDir).cause, w) :=
      congrArg (·, w) (if_pos hdir)
    rw [Program.run_call hcall]
    exact Or.inr ⟨fun h => h.dir hdir, _, rfl, rfl⟩
  have hcall : w.performEach .createSnapshotDir os = (.ok (), w) := congrArg (·, w) (if_neg hdir)
  rw [Program.run_call hcall]
  dsimp only
  rcases @performEach_tableSnapshot w os with ⟨error, hfailing, hread⟩ | ⟨hread, hcall⟩
  · rw [Program.run_call hread]
    exact Or.inr ⟨fun h => h.read error hfailing, _, rfl, rfl⟩
  rw [Program.run_call hcall]
  dsimp only
  by_cases hfile : (os .writeSnapshot).failing = some .writeSnapshot
  · have hcall : w.performEach .writeSnapshot os = (.error (os .writeSnapshot).cause, w) :=
      congrArg (·, w) (if_pos hfile)
    rw [Program.run_call hcall]
    exact Or.inr ⟨fun h => h.file hfile, _, rfl, rfl⟩
  · have hcall : w.performEach .writeSnapshot os = (.ok (), w) := congrArg (·, w) (if_neg hfile)
    rw [Program.run_call hcall, ← activate_eq_bind]
    exact Or.inl ⟨⟨hdir, hread, hfile⟩, rfl⟩

theorem Api.applyFresh_report (draft : Revision) :
    (ApiSnapshots os ∧ reportOf Response.isError (Api.applyFresh draft w.previous) os w =
        w.activationReport os draft.config) ∨
      (¬ ApiSnapshots os ∧
        reportOf Response.isError (Api.applyFresh draft w.previous) os w = w.report true) := by
  rcases @Api.applyFresh_run w os draft with ⟨hsnapshots, hrun⟩ | ⟨hnone, answer, herror, hrun⟩
  · have hreport := (Api.apply_follows draft).reportOf_activate draft.config os w
    rw [activate_eq_bind] at hreport
    rw [reportOf, hrun]
    exact Or.inl ⟨hsnapshots, hreport⟩
  · rw [reportOf, hrun]
    exact Or.inr ⟨hnone, congrArg w.report herror⟩

theorem Service.applyFresh_report (draft : Revision) :
    (CommandSnapshots os ∧ reportOf Service.failed (Service.applyFresh draft w.previous) os w =
        w.activationReport os draft.config) ∨
      (¬ CommandSnapshots os ∧
        reportOf Service.failed (Service.applyFresh draft w.previous) os w = w.report true) := by
  have hfollows : Follows Service.failed fun
      | .refused error => .ret (.error (.text error.text))
      | .unforwarded message => .ret (.error (.text message))
      | .unsaved error _ => .ret (.error (.text error))
      | .done active receipt => .ret (.ok ("active revision " ++ active.id ++ " (" ++
          toString receipt.ruleCount ++ " kernel rules, replaced_existing_table=" ++
          toString receipt.replacedExistingTable ++ ")")) :=
    fun ended _ _ => by cases ended <;> rfl
  have hactivate : reportOf Service.failed (Service.activateDraft draft w.previous) os w =
      w.activationReport os draft.config := hfollows.reportOf_activate draft.config os w
  unfold Service.applyFresh
  rcases @performEach_tableSnapshot w os with ⟨error, hfailing, hread⟩ | ⟨hread, hcall⟩
  · rw [reportOf_call hread]
    exact Or.inl ⟨Or.inl ⟨error, hfailing⟩, hactivate⟩
  rw [reportOf_call hcall]
  dsimp only
  by_cases hfile : (os .writeSnapshot).failing = some .writeSnapshot
  · have hcall : w.performEach .writeSnapshot os = (.error (os .writeSnapshot).cause, w) :=
      congrArg (·, w) (if_pos hfile)
    rw [reportOf_call hcall]
    refine Or.inr ⟨?_, rfl⟩
    rintro (⟨error, hfailing⟩ | hfile')
    · exact hread error hfailing
    · exact hfile' hfile
  · have hcall : w.performEach .writeSnapshot os = (.ok (), w) := congrArg (·, w) (if_neg hfile)
    rw [reportOf_call hcall]
    exact Or.inl ⟨Or.inr hfile, hactivate⟩

end

section

variable {w : World} {os os' : Outcomes} {draft : Revision}

theorem World.Proceeds.unique {draft' : Revision} (h : w.Proceeds os draft)
    (h' : w.Proceeds os draft') : draft' = draft :=
  Option.some.inj (h'.newest.symm.trans h.newest)

/-- The handler, which reads the active revision to answer the reuse path. -/
theorem Api.apply_report :
    ((∀ draft, ¬ w.Proceeds os draft) ∧ reportOf Response.isError Api.apply os w = w.report true) ∨
      ∃ draft, w.Proceeds os draft ∧
        ((w.Reuses os draft.config ∧ reportOf Response.isError Api.apply os w =
            w.report (decide ((os .activeRevision).failing = some .activeRevision))) ∨
          (¬ w.Reuses os draft.config ∧ reportOf Response.isError Api.apply os w =
            reportOf Response.isError (Api.applyFresh draft w.previous) os w)) := by
  refine applyNewest_report (fun _ => rfl) rfl (fun _ _ => rfl) ?_
  by_cases hread : (os .activeRevision).failing = some .activeRevision
  · have hcall : w.performEach .activeRevision os = (.error (os .activeRevision).cause, w) :=
      congrArg (·, w) (if_pos hread)
    rw [reportOf_call hcall, decide_eq_true hread]
    rfl
  · have hcall : w.performEach .activeRevision os = (.ok w.db.activeRevision, w) :=
      congrArg (·, w) (if_neg hread)
    rw [reportOf_call hcall, decide_eq_false hread]
    rfl

theorem Service.apply_report :
    ((∀ draft, ¬ w.Proceeds os draft) ∧
        reportOf Service.failed Service.applyDraft os w = w.report true) ∨
      ∃ draft, w.Proceeds os draft ∧
        ((w.Reuses os draft.config ∧
            reportOf Service.failed Service.applyDraft os w = w.report false) ∨
          (¬ w.Reuses os draft.config ∧ reportOf Service.failed Service.applyDraft os w =
            reportOf Service.failed (Service.applyFresh draft w.previous) os w)) :=
  applyNewest_report (fun _ => rfl) rfl (fun _ _ => rfl) rfl

/-- The reuse path leaves everything as it is. -/
theorem Report.agrees_reused (failed : Bool) :
    (w.report failed).Agrees (w.report false) w ↔ failed = false := by
  constructor
  · rintro (⟨-, hrefused, -⟩ | ⟨hsucceeded, -⟩)
    · cases hrefused
    · exact hsucceeded
  · rintro rfl
    exact Or.inr ⟨rfl, rfl, rfl, rfl⟩

/-- The copies when the kernel has to be written. -/
theorem agrees_fresh (h : SameOutcomes os os') :
    (reportOf Response.isError (Api.applyFresh draft w.previous) os w).Agrees
        (reportOf Service.failed (Service.applyFresh draft w.previous) os' w) w ↔
      (w.Completes os draft.config → (ApiSnapshots os ↔ CommandSnapshots os')) ∧
        (ApiSnapshots os ∨ CommandSnapshots os' →
          Refuses os draft.config ∨ w.Completes os draft.config ∨ w.Traceless os draft.config) := by
  have hsame := h.activationReport_eq w draft.config
  rcases @Api.applyFresh_report w os draft with ⟨hapi, hreport⟩ | ⟨hapi, hreport⟩ <;>
    rcases @Service.applyFresh_report w os' draft with
      ⟨hcommand, hreport'⟩ | ⟨hcommand, hreport'⟩ <;> rw [hreport, hreport']
  · rw [hsame, Report.agrees_activation_self]
    simp [hapi, hcommand]
  · rw [Report.agrees_comm, Report.agrees_activation_of_refused]
    simp only [hapi, hcommand, iff_false, not_true_eq_false, imp_false, or_false, forall_const]
    tauto
  · rw [hsame, Report.agrees_activation_of_refused]
    simp only [hapi, hcommand, iff_true, imp_false, or_true, forall_const]
    tauto
  · refine iff_of_true (Report.agrees_of_refused w) ⟨fun _ => iff_of_false hapi hcommand, ?_⟩
    rintro (hapi' | hcommand')
    · exact absurd hapi' hapi
    · exact absurd hcommand' hcommand

end

/-- The condition for an apply.  In the reuse path the handler reads the active revision.  Otherwise
the snapshots do not decide alone whether an activation that succeeds takes place, and a failure
after the batch leaves no trace. -/
def World.AllowsApply (w : World) (os os' : Outcomes) : Prop :=
  ∀ draft, w.Proceeds os draft →
    (w.Reuses os draft.config → (os .activeRevision).failing ≠ some .activeRevision) ∧
    (¬ w.Reuses os draft.config →
      (w.Completes os draft.config → (ApiSnapshots os ↔ CommandSnapshots os')) ∧
      (ApiSnapshots os ∨ CommandSnapshots os' →
        Refuses os draft.config ∨ w.Completes os draft.config ∨ w.Traceless os draft.config))

/-- **When the two applies agree.** -/
theorem apply_agrees {os os' : Outcomes} (h : SameOutcomes os os') (w : World) :
    (reportOf Response.isError Api.apply os w).Agrees
        (reportOf Service.failed Service.applyDraft os' w) w ↔ w.AllowsApply os os' := by
  unfold World.AllowsApply
  rcases @Api.apply_report w os with ⟨hnone, hreport⟩ | ⟨draft, hproceeds, hreport⟩
  · rcases @Service.apply_report w os' with ⟨-, hreport'⟩ | ⟨draft, hproceeds, -⟩
    · rw [hreport, hreport']
      exact iff_of_true (Report.agrees_of_refused w) fun draft hproceeds =>
        absurd hproceeds (hnone draft)
    · exact absurd (h.proceeds_iff.mp hproceeds) (hnone draft)
  rcases @Service.apply_report w os' with ⟨hnone, -⟩ | ⟨draft', hproceeds', hreport'⟩
  · exact absurd (h.proceeds_iff.mpr hproceeds) (hnone draft)
  cases hproceeds.unique (h.proceeds_iff.mp hproceeds')
  rw [h.reuses_iff] at hreport'
  have honly : ∀ {P : Revision → Prop}, (∀ draft, w.Proceeds os draft → P draft) ↔ P draft :=
    ⟨fun hall => hall draft hproceeds, fun hdraft draft' hproceeds' =>
      hproceeds.unique hproceeds' ▸ hdraft⟩
  rw [honly]
  rcases hreport with ⟨hreuses, hreport⟩ | ⟨hfresh, hreport⟩
  · obtain ⟨-, hreport'⟩ := hreport'.resolve_right fun h => h.1 hreuses
    rw [hreport, hreport', Report.agrees_reused]
    simp [hreuses]
  · obtain ⟨-, hreport'⟩ := hreport'.resolve_left fun h => hfresh h.1
    rw [hreport, hreport', agrees_fresh h]
    simp only [hfresh, IsEmpty.forall_iff, not_false_eq_true, forall_const, true_and]

/-- **When the copies agree**: the two rollbacks on `AllowsRollback`, the two applies on
`AllowsApply`. -/
theorem twins_agree_iff {os os' : Outcomes} (h : SameOutcomes os os') (w : World)
    (revisionId : String) :
    ((reportOf Response.isError (Api.rollback revisionId) os w).Agrees
        (reportOf Service.failed (Service.rollback revisionId) os' w) w ↔
      w.AllowsRollback os revisionId) ∧
    ((reportOf Response.isError Api.apply os w).Agrees
        (reportOf Service.failed Service.applyDraft os' w) w ↔ w.AllowsApply os os') :=
  ⟨rollback_agrees h w revisionId, apply_agrees h w⟩

/-- With calls that meet no failure, on `webWorld`, every activation succeeds. -/
theorem webWorld_completes {config : Config} {t : Table} (h : compile config = .ok t) :
    webWorld.Completes (fun _ => smooth "third" 3) config where
  accepted := by
    rintro (⟨error, hfailing⟩ | ⟨error, hcompile⟩)
    · cases hfailing
    · cases h.symm.trans hcompile
  forwarding := by
    obtain ⟨after, hstep⟩ := webWorld.sysctl.ensureForwarding_none config
    exact congrArg Prod.fst hstep
  marked := ⟨_, rfl⟩

theorem twins_agree_web :
    SameOutcomes (fun _ => smooth "third" 3) (fun _ => smooth "third" 3) ∧
      (reportOf Response.isError (Api.rollback "web") (fun _ => smooth "third" 3) webWorld).Agrees
        (reportOf Service.failed (Service.rollback "web") (fun _ => smooth "third" 3) webWorld)
          webWorld := by
  have hsame : SameOutcomes (fun _ => smooth "third" 3) (fun _ => smooth "third" 3) := fun _ _ => rfl
  refine ⟨hsame, (twins_agree_iff hsame webWorld "web").1.mpr fun revision hfound _ _ => ?_⟩
  have hconfig : (webWorld.db.revision "web").map (·.config) = some ⟨1, [webRule]⟩ := by decide
  rw [hfound, Option.map_some, Option.some.injEq] at hconfig
  rw [hconfig]
  exact ⟨fun _ => by decide, Or.inr (Or.inl (@webWorld_completes _ (tableOf ⟨1, [webRule]⟩) rfl))⟩

/-- **A rollback to a revision that is no longer valid.**  `sshd` listens on the port of the `web`
revision: the handler refuses, the command makes it active. -/
theorem twins_disagree_on_ssh_port :
    ¬ ∀ (w : World) (revisionId : String) (os os' : Outcomes), SameOutcomes os os' →
      (reportOf Response.isError (Api.rollback revisionId) os w).Agrees
        (reportOf Service.failed (Service.rollback revisionId) os' w) w ∧
      (reportOf Response.isError Api.apply os w).Agrees
        (reportOf Service.failed Service.applyDraft os' w) w := by
  intro hagree
  have hrefused : (reportOf Response.isError (Api.rollback "web") (fun _ => smooth "third" 3)
      { webWorld with sshdConfig := "Port 8080" }).failed = true := by decide
  have hsucceeded : (reportOf Service.failed (Service.rollback "web") (fun _ => smooth "third" 3)
      { webWorld with sshdConfig := "Port 8080" }).failed = false := by decide
  rcases (hagree { webWorld with sshdConfig := "Port 8080" } "web" (fun _ => smooth "third" 3)
    (fun _ => smooth "third" 3) fun _ _ => rfl).1 with ⟨-, hfailed, -⟩ | ⟨hfailed, -⟩
  · rw [hsucceeded] at hfailed
    cases hfailed
  · rw [hrefused] at hfailed
    cases hfailed

end Portalis
