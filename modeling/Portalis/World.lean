import Portalis.Database
import Portalis.Drift
import Portalis.Programs
import Portalis.Sysctl

/-!
# The calls of an operation

An operation of the daemon or the command line is a program over the calls it makes: sections under
the database lock, calls of the nft controller, the forwarding step and files.  Every call may fail, as
its outcome says.

* `view_perform`, `perform_nftApply`, `perform_markActive`: all that a call does to the newest active
  revision and to the kernel's rules.
* `InStep`: the kernel forwards as the newest active revision says.
-/

namespace Portalis

/-- `NftError`'s display text. -/
def NftError.text : NftError → String
  | .io message => "nftables Netlink error: " ++ message
  | .library message => "nftables library error: " ++ message
  | .permission => "nftables permission denied; Portalis needs root or CAP_NET_ADMIN"
  | .unreachable message => message

def DbError.text (cause : String) : DbError → String
  | .constraint => "UNIQUE constraint failed: revisions.id"
  | .failed _ => cause

/-- Everything the operations read and write. -/
structure World where
  db : Database
  kernel : Option Table
  sysctl : Sysctl
  /-- The configuration last exported to `config_path`. -/
  exported : Option Config
  /-- What a read of `sshd_config` gives: the empty text, where it cannot be read. -/
  sshdConfig : String

/-- The step of a call that fails. -/
inductive Fault
  | draftConfig
  | activeConfig
  | activeRevision
  | revision
  | write (step : DbStep)
  | nftStatus (error : NftError)
  | tableSnapshot (error : NftError)
  | nftApply (error : NftError)
  | nftRollback (error : NftError)
  | sysctl (step : SysctlStep)
  | createSnapshotDir
  | writeSnapshot
  /-- A write of the exported file that fails leaves whatever it leaves. -/
  | exportConfig (left : Option Config)
  deriving DecidableEq

/-- What a call meets: the step that fails with the text of its error, and the readings. -/
structure Outcome where
  failing : Option Fault
  cause : String
  now : Database.Readings
  observedAt : String

namespace Outcome

def dbStep (self : Outcome) : Option DbStep :=
  match self.failing with
  | some (.write step) => some step
  | _ => none

def sysctlStep (self : Outcome) : Option SysctlStep :=
  match self.failing with
  | some (.sysctl step) => some step
  | _ => none

/-- An answer that can only fail as a whole. -/
def guard {α : Type} (self : Outcome) (fault : Fault) (a : α) : Except String α :=
  if self.failing = some fault then .error self.cause else .ok a

end Outcome

/-- A guarded answer, next to a world that stays. -/
theorem Outcome.guard_cases {α : Type} (self : Outcome) (fault : Fault) (a : α) (w : World) :
    (∃ error, self.failing = some fault ∧ (self.guard fault a, w) = (.error error, w)) ∨
      (self.guard fault a, w) = (.ok a, w) := by
  unfold guard
  by_cases h : self.failing = some fault
  · exact Or.inl ⟨self.cause, h, by rw [if_pos h]⟩
  · exact Or.inr (by rw [if_neg h])

/-- `nftRollback` is the `nft.apply(previous)` that compensates. -/
inductive Call
  | draftConfig
  | activeConfig
  | activeRevision
  | revision (id : String)
  | saveDraft (config : Config)
  | markActive (config : Config)
  | markApplyError (revisionId error : String)
  | validationContext
  | nftStatus (config : Config)
  | tableSnapshot
  | nftApply (config : Config)
  | nftRollback (config : Config)
  | ensureForwarding (config : Config)
  | createSnapshotDir
  | writeSnapshot
  | exportConfig (config : Config)

@[reducible] def Answer : Call → Type
  | .draftConfig => Except String (Option Revision)
  | .activeConfig => Except String (Option Config)
  | .activeRevision => Except String (Option Revision)
  | .revision _ => Except String (Option Revision)
  | .saveDraft _ => Except String Revision
  | .markActive _ => Except String Revision
  | .markApplyError _ _ => Except String Unit
  | .validationContext => ValidationContext
  | .nftStatus _ => Except NftError KernelStatus
  | .tableSnapshot => Except NftError Unit
  | .nftApply _ => Except NftError ApplyReceipt
  | .nftRollback _ => Except NftError ApplyReceipt
  | .ensureForwarding _ => Except String Unit
  | .createSnapshotDir => Except String Unit
  | .writeSnapshot => Except String Unit
  | .exportConfig _ => Except String Unit

namespace World

/-- `runtime.validation_context()`, which has no error. -/
def validationContext (w : World) : ValidationContext := ⟨parseSshPorts w.sshdConfig⟩

/-- `runtime.nft.apply`, unless the batch is refused.  An error that is met after the batch was committed, while
its acknowledgements are read, is not in the model. -/
def sendTable (w : World) (config : Config) (refused : Option NftError) :
    Except NftError ApplyReceipt × World :=
  match refused with
  | some error => (.error error, w)
  | none =>
    match nftApply w.kernel config with
    | .error error => (.error error, w)
    | .ok (kernel, receipt) => (.ok receipt, { w with kernel := kernel })

/-- What a call answers and leaves.  Reads of `sshd_config` all give the world's text: one that fails for once
is not in the model. -/
def perform (w : World) : (c : Call) → Outcome → Answer c × World
  | .draftConfig, o => (o.guard .draftConfig w.db.draftConfig, w)
  | .activeConfig, o => (o.guard .activeConfig w.db.activeConfig, w)
  | .activeRevision, o => (o.guard .activeRevision w.db.activeRevision, w)
  | .revision id, o => (o.guard .revision (w.db.revision id), w)
  | .saveDraft config, o =>
    let (answer, db) := w.db.saveDraft config o.now o.dbStep
    (answer.mapError (DbError.text o.cause), { w with db := db })
  | .markActive config, o =>
    let (answer, db) := w.db.markActive config o.now o.dbStep
    (answer.mapError (DbError.text o.cause), { w with db := db })
  | .markApplyError revisionId error, o =>
    let (answer, db) := w.db.markApplyError revisionId error o.now o.dbStep
    (answer.mapError (DbError.text o.cause), { w with db := db })
  | .validationContext, _ => (w.validationContext, w)
  | .nftStatus config, o =>
    match o.failing with
    | some (.nftStatus error) => (.error error, w)
    | _ => (.ok (Portalis.nftStatus o.observedAt w.kernel config), w)
  | .tableSnapshot, o =>
    match o.failing with
    | some (.tableSnapshot error) => (.error error, w)
    | _ => (.ok (), w)
  | .nftApply config, o =>
    w.sendTable config (match o.failing with
      | some (.nftApply error) => some error
      | _ => none)
  | .nftRollback config, o =>
    w.sendTable config (match o.failing with
      | some (.nftRollback error) => some error
      | _ => none)
  | .ensureForwarding config, o =>
    let (answer, sysctl) := w.sysctl.ensureForwarding config o.sysctlStep
    (answer.mapError (SysctlStep.text o.cause), { w with sysctl := sysctl })
  | .createSnapshotDir, o => (o.guard .createSnapshotDir (), w)
  | .writeSnapshot, o => (o.guard .writeSnapshot (), w)
  | .exportConfig config, o =>
    match o.failing with
    | some (.exportConfig left) => (.error o.cause, { w with exported := left })
    | _ => (.ok (), { w with exported := some config })

end World

/-! ### What matters of the world -/

/-- The row whatever its `apply_error` is, the one field that is ever written again. -/
def Revision.withoutError (r : Revision) : Revision := { r with applyError := none }

theorem Revision.withoutError_setApplyError (id error : String) (r : Revision) :
    (Database.setApplyError id error r).withoutError = r.withoutError := by
  unfold Database.setApplyError
  split <;> rfl

/-- The newest active revision, and the table up to its counters. -/
structure View where
  newest : Option Revision
  kernel : Option Table

def World.view (w : World) : View :=
  ⟨w.db.activeRevision.map Revision.withoutError, w.kernel.map Table.erase⟩

/-- The kernel forwards as the configuration says: its table is the one `apply` writes, up to the
counters; without a configuration there are no rules. -/
def InStep (active : Option Config) (kernel : Option Table) : Prop :=
  match active with
  | some config => ∃ t, compile config = .ok t ∧ kernel.map Table.erase = some t.erase
  | none => ∀ t, kernel = some t → t.rules = []

def World.InStep (w : World) : Prop := Portalis.InStep w.db.activeConfig w.kernel

def View.config (v : View) : Option Config := v.newest.map (·.config)

def View.InStep (v : View) : Prop := Portalis.InStep v.config v.kernel

theorem KernelRule.erase_erase (rule : KernelRule) : rule.erase.erase = rule.erase := by
  unfold KernelRule.erase
  rw [List.map_map]
  congr 1
  exact List.map_congr_left fun e _ => by cases e <;> rfl

theorem Table.erase_erase (t : Table) : t.erase.erase = t.erase := by
  unfold Table.erase
  rw [List.map_map]
  congr 1
  exact List.map_congr_left fun rule _ => rule.erase_erase

theorem inStep_erase (active : Option Config) (kernel : Option Table) :
    Portalis.InStep active (kernel.map Table.erase) ↔ Portalis.InStep active kernel := by
  cases active with
  | some config => simp [InStep, Function.comp_def, Table.erase_erase]
  | none =>
    cases kernel with
    | none => simp [InStep]
    | some t => simp [InStep, Table.erase]

@[simp] theorem World.view_config (w : World) : w.view.config = w.db.activeConfig := by
  rw [View.config, World.view, Option.map_map]
  rfl

theorem World.inStep_view (w : World) : w.view.InStep ↔ w.InStep := by
  rw [View.InStep, World.view_config]
  exact inStep_erase _ _

/-- The table of the active configuration, or of none, is in step with it. -/
theorem inStep_of_compile {active : Option Config} {t : Table}
    (h : compile (active.getD .default) = .ok t) : Portalis.InStep active (some t) := by
  cases active with
  | some config => exact ⟨t, h, rfl⟩
  | none =>
    intro t' ht
    have hdefault : compile Config.default = .ok ⟨[prerouting, postrouting, forward], []⟩ := rfl
    rw [Option.getD_none, hdefault] at h
    cases h
    cases ht
    rfl

/-- What is in step can be compiled. -/
theorem InStep.exists_compile {active : Option Config} {kernel : Option Table}
    (h : Portalis.InStep active kernel) : ∃ t, compile (active.getD .default) = .ok t := by
  cases active with
  | some config => exact ⟨h.choose, h.choose_spec.1⟩
  | none => exact ⟨⟨[prerouting, postrouting, forward], []⟩, rfl⟩

/-! ### What the calls do -/

/-- The calls that can change the newest active revision or the rules. -/
def Call.writes : Call → Bool
  | .markActive _ => true
  | .nftApply _ => true
  | .nftRollback _ => true
  | _ => false

namespace World

/-- **The other calls leave what matters as it is.** -/
theorem view_perform {c : Call} (h : c.writes = false) (w : World) (o : Outcome) :
    (w.perform c o).2.view = w.view := by
  have hdb : ∀ db : Database,
      db.activeRevision.map Revision.withoutError =
        w.db.activeRevision.map Revision.withoutError → ({ w with db := db } : World).view = w.view :=
    fun db heq => by rw [World.view, heq]; rfl
  cases c with
  | saveDraft config =>
    exact hdb (w.db.saveDraft config o.now o.dbStep).2 (by rw [Database.activeRevision_saveDraft])
  | markApplyError id error =>
    refine hdb (w.db.markApplyError id error o.now o.dbStep).2 ?_
    rcases w.db.latestRevision_markApplyError id error o.now o.dbStep .active with heq | heq
    · rw [Database.activeRevision, heq]
      rfl
    · rw [Database.activeRevision, heq, Option.map_map]
      exact Option.map_congr fun r _ => r.withoutError_setApplyError id error
  | markActive config => cases h
  | nftApply config => cases h
  | nftRollback config => cases h
  | nftStatus config =>
    rw [perform]
    split <;> rfl
  | tableSnapshot =>
    rw [perform]
    split <;> rfl
  | exportConfig config =>
    rw [perform]
    split <;> rfl
  | _ => rfl

theorem perform_draftConfig (w : World) (o : Outcome) :
    (∃ error, o.failing = some .draftConfig ∧ w.perform .draftConfig o = (.error error, w)) ∨
      w.perform .draftConfig o = (.ok w.db.draftConfig, w) :=
  o.guard_cases .draftConfig w.db.draftConfig w

theorem perform_activeConfig (w : World) (o : Outcome) :
    (∃ error, o.failing = some .activeConfig ∧ w.perform .activeConfig o = (.error error, w)) ∨
      w.perform .activeConfig o = (.ok w.db.activeConfig, w) :=
  o.guard_cases .activeConfig w.db.activeConfig w

theorem perform_activeRevision (w : World) (o : Outcome) :
    (∃ error, o.failing = some .activeRevision ∧ w.perform .activeRevision o = (.error error, w)) ∨
      w.perform .activeRevision o = (.ok w.db.activeRevision, w) :=
  o.guard_cases .activeRevision w.db.activeRevision w

theorem perform_revision (w : World) (id : String) (o : Outcome) :
    (∃ error, o.failing = some .revision ∧ w.perform (.revision id) o = (.error error, w)) ∨
      w.perform (.revision id) o = (.ok (w.db.revision id), w) :=
  o.guard_cases .revision (w.db.revision id) w

theorem perform_validationContext (w : World) (o : Outcome) :
    w.perform .validationContext o = (w.validationContext, w) := rfl

theorem perform_createSnapshotDir (w : World) (o : Outcome) :
    (∃ error, o.failing = some .createSnapshotDir ∧ w.perform .createSnapshotDir o = (.error error, w)) ∨
      w.perform .createSnapshotDir o = (.ok (), w) :=
  o.guard_cases .createSnapshotDir () w

theorem perform_writeSnapshot (w : World) (o : Outcome) :
    (∃ error, o.failing = some .writeSnapshot ∧ w.perform .writeSnapshot o = (.error error, w)) ∨
      w.perform .writeSnapshot o = (.ok (), w) :=
  o.guard_cases .writeSnapshot () w

theorem perform_tableSnapshot (w : World) (o : Outcome) :
    (∃ error, o.failing = some (.tableSnapshot error) ∧
        w.perform .tableSnapshot o = (.error error, w)) ∨
      w.perform .tableSnapshot o = (.ok (), w) := by
  rw [perform]
  split
  · rename_i error hfailing
    exact Or.inl ⟨error, hfailing, rfl⟩
  · exact Or.inr rfl

theorem perform_nftStatus (w : World) (config : Config) (o : Outcome) :
    (∃ error, o.failing = some (.nftStatus error) ∧
        w.perform (.nftStatus config) o = (.error error, w)) ∨
      w.perform (.nftStatus config) o = (.ok (Portalis.nftStatus o.observedAt w.kernel config), w) := by
  rw [perform]
  split
  · rename_i error hfailing
    exact Or.inl ⟨error, hfailing, rfl⟩
  · exact Or.inr rfl

theorem perform_exportConfig (w : World) (config : Config) (o : Outcome) :
    ∃ answer exported, w.perform (.exportConfig config) o =
      (answer, { w with exported := exported }) := by
  rw [perform]
  split
  · exact ⟨_, _, rfl⟩
  · exact ⟨_, _, rfl⟩

/-- The forwarding step touches the sysctls only. -/
theorem perform_ensureForwarding (w : World) (config : Config) (o : Outcome) :
    ∃ answer sysctl, w.perform (.ensureForwarding config) o = (answer, { w with sysctl := sysctl }) :=
  ⟨_, _, rfl⟩

/-- A refused batch or one that cannot be built changes nothing; otherwise the table is written. -/
theorem sendTable_cases (w : World) (config : Config) (refused : Option NftError) :
    (∃ error, w.sendTable config refused = (.error error, w)) ∨
      ∃ t receipt, compile config = .ok t ∧ refused = none ∧
        w.sendTable config refused = (.ok receipt, { w with kernel := some t }) := by
  cases refused with
  | some error => exact Or.inl ⟨error, rfl⟩
  | none =>
    rw [sendTable, nftApply_eq]
    cases hcompile : compile config with
    | error error => exact Or.inl ⟨error, rfl⟩
    | ok t => exact Or.inr ⟨t, _, rfl, rfl, rfl⟩

theorem sendTable_db (w : World) (config : Config) (refused : Option NftError) :
    (w.sendTable config refused).2.db = w.db := by
  rcases w.sendTable_cases config refused with ⟨error, hrun⟩ | ⟨t, receipt, -, -, hrun⟩
  · rw [hrun]
  · rw [hrun]

/-- `Refused` says when the batch is refused or cannot be built. -/
theorem sendTable_of_iff (w : World) {config : Config} {refused : Option NftError} {Refused : Prop}
    (h : Refused ↔ (∃ error, refused = some error) ∨ ∃ error, compile config = .error error) :
    (Refused ∧ ∃ error, w.sendTable config refused = (.error error, w)) ∨
      (¬ Refused ∧ ∃ t receipt, compile config = .ok t ∧
        w.sendTable config refused = (.ok receipt, { w with kernel := some t })) := by
  rw [h]
  cases refused with
  | some error => exact Or.inl ⟨Or.inl ⟨error, rfl⟩, error, rfl⟩
  | none =>
    rw [sendTable, nftApply_eq]
    cases compile config with
    | error error => exact Or.inl ⟨Or.inr ⟨error, rfl⟩, error, rfl⟩
    | ok t => exact Or.inr ⟨by simp, t, _, rfl, rfl⟩

theorem perform_nftApply (w : World) (config : Config) (o : Outcome) :
    (∃ error, w.perform (.nftApply config) o = (.error error, w)) ∨
      ∃ t receipt, compile config = .ok t ∧
        w.perform (.nftApply config) o = (.ok receipt, { w with kernel := some t }) := by
  rcases w.sendTable_cases config _ with h | ⟨t, receipt, hcompile, -, h⟩
  · exact Or.inl h
  · exact Or.inr ⟨t, receipt, hcompile, h⟩

theorem sendTable_of_compile (w : World) {config : Config} {t : Table}
    (h : compile config = .ok t) : w.sendTable config none =
      (.ok ⟨ruleCount config.plan, w.kernel.isSome⟩, { w with kernel := some t }) := by
  rw [sendTable, nftApply_eq, h]
  rfl

theorem perform_nftApply_of {w : World} {config : Config} {o : Outcome} {t : Table}
    (h : compile config = .ok t) (hsent : ∀ error, o.failing ≠ some (.nftApply error)) :
    w.perform (.nftApply config) o =
      (.ok ⟨ruleCount config.plan, w.kernel.isSome⟩, { w with kernel := some t }) := by
  rw [perform]
  split
  · rename_i error hfailing
    exact absurd hfailing (hsent error)
  · exact w.sendTable_of_compile h

theorem perform_nftRollback_of {w : World} {config : Config} {o : Outcome} {t : Table}
    (h : compile config = .ok t) (hsent : ∀ error, o.failing ≠ some (.nftRollback error)) :
    w.perform (.nftRollback config) o =
      (.ok ⟨ruleCount config.plan, w.kernel.isSome⟩, { w with kernel := some t }) := by
  rw [perform]
  split
  · rename_i error hfailing
    exact absurd hfailing (hsent error)
  · exact w.sendTable_of_compile h

/-- **`mark_active`, case by case**: nothing, a row without an answer, or a row and its answer. -/
theorem perform_markActive (w : World) (config : Config) (o : Outcome) :
    (∃ error, w.perform (.markActive config) o = (.error error, w)) ∨
      (∃ error h, o.failing = some (.write .audit) ∧ w.perform (.markActive config) o =
        (.error error, { w with db := w.db.append (Database.activeRow config o.now) h })) ∨
      ∃ h log, w.perform (.markActive config) o = (.ok (Database.activeRow config o.now),
        { w with db := { w.db.append (Database.activeRow config o.now) h with auditLog := log } }) := by
  rw [perform]
  rcases w.db.markActive_cases config o.now o.dbStep with
    ⟨e, hrun⟩ | ⟨h, haudit, hrun⟩ | ⟨h, log, hrun⟩
  · exact Or.inl ⟨e.text o.cause, by rw [hrun]; rfl⟩
  · refine Or.inr (Or.inl ⟨_, h, ?_, by rw [hrun]; rfl⟩)
    unfold Outcome.dbStep at haudit
    split at haudit
    · rename_i step hstep
      rw [hstep, Option.some.inj haudit]
    · cases haudit
  · exact Or.inr (Or.inr ⟨h, log, by rw [hrun]; rfl⟩)

end World

end Portalis
