import Portalis.Twins

/-!
# Where active configurations come from

Histories of the operations that write revisions, on their own or through the control socket's commands,
with restarts between them and calls that may fail at any step.  Beside the world a history records the
drafts that were applied.

* `Traced.next`, `traced_of_reaches`: while a rollback names only what was applied before, and no apply
  loses the audit entry of its row, every active revision has an applied configuration.
* `rollback_activates_draft`: a draft that was never applied becomes active.
-/

namespace Portalis

open Programs

/-! ### Restoring a backup -/

/-- `POST /api/v1/backups/restore`, given what was downloaded.  An answer without an error is the
draft. -/
def Api.restoreBackup (downloaded : Except String Config) : Operation (Except Response Revision) :=
  match downloaded with
  | .error error => .ret (.error (.badRequest error))
  | .ok config => .call .validationContext fun context =>
    match config.validate context with
    | .error errors => .ret (.error (.unprocessable errors config.plan))
    | .ok () => .call (.saveDraft config) fun
      | .ok revision => .ret (.ok revision)
      | .error error => .ret (.error (.internal error))

/-! ### Histories -/

/-- One operation, and what its calls meet. -/
inductive Deed
  | saveDraft (config : Config) (os : Outcomes)
  | restoreBackup (downloaded : Except String Config) (os : Outcomes)
  | apply (os : Outcomes)
  | rollback (revisionId : String) (os : Outcomes)
  | commandApply (os : Outcomes)
  | commandRollback (revisionId : String) (os : Outcomes)
  | restart (os : Outcomes)

/-- The world, and the configurations that were the newest draft when an apply succeeded. -/
structure History where
  world : World
  applied : List Config

namespace History

/-- After an apply: its draft is recorded when it succeeded. -/
def applying (s : History) (failed : Bool) (after : World) : History :=
  match failed, s.world.db.draftConfig with
  | false, some draft => ⟨after, draft.config :: s.applied⟩
  | _, _ => ⟨after, s.applied⟩

/-- The history after an operation. -/
def next (s : History) : Deed → History
  | .saveDraft config os =>
    ⟨((Api.saveDraft config).run World.performEach os s.world).2, s.applied⟩
  | .restoreBackup downloaded os =>
    ⟨((Api.restoreBackup downloaded).run World.performEach os s.world).2, s.applied⟩
  | .apply os =>
    let (answer, after) := Api.apply.run World.performEach os s.world
    s.applying answer.isError after
  | .rollback revisionId os =>
    ⟨((Api.rollback revisionId).run World.performEach os s.world).2, s.applied⟩
  | .commandApply os =>
    let (answer, after) := Service.applyDraft.run World.performEach os s.world
    s.applying (Service.failed answer) after
  | .commandRollback revisionId os =>
    ⟨((Service.rollback revisionId).run World.performEach os s.world).2, s.applied⟩
  | .restart os => ⟨(Runtime.openKernel.run World.performEach os s.world).2, s.applied⟩

def step (s : History) (deed : Deed) : Option History := some (s.next deed)

/-- The configuration was applied, or has been active. -/
def Knows (s : History) (config : Config) : Prop :=
  config ∈ s.applied ∨ (.active, config) ∈ s.world.db.rows

/-- The row of an apply does not lose its audit entry, unless its configuration is known. -/
def KeepsAudit (s : History) (os : Outcomes) : Prop :=
  ∀ draft, s.world.db.draftConfig = some draft →
    (s.world.marked os draft.config).1 = .error (.failed .audit) → s.Knows draft.config

end History

/-- Every active row has a configuration that was applied, or that of an earlier active row. -/
def Traced (rows : List (RevisionKind × Config)) (applied : List Config) : Prop :=
  ∀ before config after, rows = before ++ (.active, config) :: after →
    config ∈ applied ∨ (.active, config) ∈ before

/-- Rollbacks name what is known, and an apply whose row loses its audit entry is one of a known
configuration. -/
def KnownOnly (s : History) : Deed → Prop
  | .apply os => s.KeepsAudit os
  | .commandApply os => s.KeepsAudit os
  | .rollback revisionId _ =>
    ∀ revision, s.world.db.revision revisionId = some revision → s.Knows revision.config
  | .commandRollback revisionId _ =>
    ∀ revision, s.world.db.revision revisionId = some revision → s.Knows revision.config
  | _ => True

/-! ### One step -/

section

variable {rows : List (RevisionKind × Config)} {applied : List Config}

theorem Traced.mono {applied' : List Config} (h : Traced rows applied) (hsub : applied ⊆ applied') :
    Traced rows applied' :=
  fun before config after hrows => (h before config after hrows).imp_left fun hmem => hsub hmem

/-- A row at the end is traced when it is a draft, or known. -/
theorem Traced.append {row : RevisionKind × Config} (h : Traced rows applied)
    (hrow : row.1 = .active → row.2 ∈ applied ∨ (.active, row.2) ∈ rows) :
    Traced (rows ++ [row]) applied := by
  intro before config after hrows
  rcases List.eq_nil_or_concat after with rfl | ⟨after, last, rfl⟩
  · obtain ⟨rfl, hlast⟩ := List.append_inj' hrows rfl
    cases hlast
    exact hrow rfl
  · rw [List.concat_eq_append, ← List.cons_append, ← List.append_assoc] at hrows
    exact h before config after (List.append_inj' hrows rfl).1

end

section

variable {w : World} {os : Outcomes} {config : Config}

/-- An activation stores its row when it succeeds or its audit entry is lost. -/
theorem activationReport_rows :
    (w.activationReport os config).rows = w.db.rows ∨
      (w.activationReport os config).rows = w.db.rows ++ [(.active, config)] ∧
        ((w.activationReport os config).failed = false ∨
          (w.marked os config).1 = .error (.failed .audit)) := by
  rcases @World.activationReport_cases w os config with
    ⟨-, hreport⟩ | ⟨hcompletes, t, -, hreport⟩ | ⟨-, -, -, -, hkept | ⟨haudit, hstored⟩⟩
  · rw [hreport]
    exact Or.inl rfl
  · rw [hreport]
    rcases w.marked_rows os config with ⟨-, hrows⟩ | ⟨-, hrows⟩ | ⟨active, -, hrows⟩
    · exact Or.inl hrows
    · exact Or.inr ⟨hrows, Or.inl rfl⟩
    · exact Or.inr ⟨hrows, Or.inl rfl⟩
  · exact Or.inl hkept
  · rcases w.marked_rows os config with ⟨-, hrows⟩ | ⟨-, hrows⟩ | ⟨active, hactive, -⟩
    · exact Or.inl (hstored.trans hrows)
    · exact Or.inr ⟨hstored.trans hrows, Or.inr haudit⟩
    · rw [haudit] at hactive
      cases hactive

/-- A rollback refuses, or activates the configuration of the revision it found. -/
theorem rollback_report_cases (revisionId : String) :
    (reportOf Response.isError (Api.rollback revisionId) os w = w.report true ∨
      ∃ revision, w.db.revision revisionId = some revision ∧
        reportOf Response.isError (Api.rollback revisionId) os w =
          w.activationReport os revision.config) ∧
    (reportOf Service.failed (Service.rollback revisionId) os w = w.report true ∨
      ∃ revision, w.db.revision revisionId = some revision ∧
        reportOf Service.failed (Service.rollback revisionId) os w =
          w.activationReport os revision.config) := by
  by_cases hread : (os (.revision revisionId)).failing = some .revision
  · rw [Api.rollback, Service.rollback, reportOf_revision_error hread, reportOf_revision_error hread]
    exact ⟨Or.inl rfl, Or.inl rfl⟩
  cases hfound : w.db.revision revisionId with
  | none =>
    rw [Api.rollback, Service.rollback, reportOf_revision hread, reportOf_revision hread, hfound]
    exact ⟨Or.inl rfl, Or.inl rfl⟩
  | some revision =>
    rw [Api.rollback_report hread hfound, Service.rollback_report hread hfound]
    constructor
    · split
      · exact Or.inr ⟨revision, rfl, rfl⟩
      · exact Or.inl rfl
    · split
      · exact Or.inr ⟨revision, rfl, rfl⟩
      · exact Or.inl rfl

/-- From the report of an apply and that of its fresh path. -/
theorem activates_newest_of_report {report : Report} {fresh : Revision → Report} {refused : Bool}
    (hreport : ((∀ draft, ¬ w.Proceeds os draft) ∧ report = w.report true) ∨
      ∃ draft, w.Proceeds os draft ∧ ((w.Reuses os draft.config ∧ report = w.report refused) ∨
        (¬ w.Reuses os draft.config ∧ report = fresh draft)))
    (hfresh : ∀ draft, fresh draft = w.activationReport os draft.config ∨
      fresh draft = w.report true) :
    report.rows = w.db.rows ∨
      ∃ draft, w.db.draftConfig = some draft ∧ report = w.activationReport os draft.config := by
  rcases hreport with ⟨-, rfl⟩ | ⟨draft, hproceeds, ⟨-, rfl⟩ | ⟨-, rfl⟩⟩
  · exact Or.inl rfl
  · exact Or.inl rfl
  · rcases hfresh draft with hactivates | hrefuses
    · exact Or.inr ⟨draft, hproceeds.newest, hactivates⟩
    · rw [hrefuses]
      exact Or.inl rfl

/-- An apply changes no row, or activates the newest draft. -/
theorem apply_report_cases :
    ((reportOf Response.isError Api.apply os w).rows = w.db.rows ∨
      ∃ draft, w.db.draftConfig = some draft ∧
        reportOf Response.isError Api.apply os w = w.activationReport os draft.config) ∧
    ((reportOf Service.failed Service.applyDraft os w).rows = w.db.rows ∨
      ∃ draft, w.db.draftConfig = some draft ∧
        reportOf Service.failed Service.applyDraft os w = w.activationReport os draft.config) := by
  constructor
  · exact activates_newest_of_report Api.apply_report fun draft =>
      (@Api.applyFresh_report w os draft).imp And.right And.right
  · exact activates_newest_of_report Service.apply_report fun draft =>
      (@Service.applyFresh_report w os draft).imp And.right And.right

/-- No row is stored, or that of one draft, whose id is new. -/
def World.AddsDraft (w after : World) (config : Config) : Prop :=
  after.db.revisions = w.db.revisions ∨
    ∃ now : Database.Readings, now.id ∉ w.db.revisions.map (·.id) ∧
      after.db.revisions = w.db.revisions ++ [Database.draftRow config now]

theorem World.AddsDraft.rows {after : World} (h : w.AddsDraft after config) :
    after.db.rows = w.db.rows ∨ after.db.rows = w.db.rows ++ [(.draft, config)] := by
  unfold Database.rows
  rcases h with hsame | ⟨now, -, happend⟩
  · rw [hsame]
    exact Or.inl rfl
  · rw [happend, List.map_append]
    exact Or.inr rfl

/-- The call, whatever answers it. -/
theorem addsDraft_call {α : Type} {k : Answer (.saveDraft config) → Operation α}
    (hk : ∀ r after, ((k r).run World.performEach os after).2 = after) :
    w.AddsDraft ((Program.call (.saveDraft config) k).run World.performEach os w).2 config := by
  rw [Program.run, hk, World.performEach, World.perform]
  rcases w.db.saveDraft_cases config (os (.saveDraft config)).now (os (.saveDraft config)).dbStep with
    ⟨e, hrun⟩ | ⟨h, -, hrun⟩ | ⟨h, log, hrun⟩
  · rw [hrun]
    exact Or.inl rfl
  · rw [hrun]
    exact Or.inr ⟨_, h, rfl⟩
  · rw [hrun]
    exact Or.inr ⟨_, h, rfl⟩

theorem addsDraft_saveDraft (config : Config) :
    w.AddsDraft ((Api.saveDraft config).run World.performEach os w).2 config := by
  unfold Api.saveDraft
  rw [Program.run_call (w.performEach_validationContext os)]
  cases config.validate w.validationContext with
  | error errors => exact Or.inl rfl
  | ok valid =>
    refine addsDraft_call fun r after => ?_
    cases r with
    | ok revision => rfl
    | error error => rfl

theorem addsDraft_restoreBackup (downloaded : Except String Config) :
    ∃ config, w.AddsDraft ((Api.restoreBackup downloaded).run World.performEach os w).2 config := by
  unfold Api.restoreBackup
  cases downloaded with
  | error error => exact ⟨.default, Or.inl rfl⟩
  | ok config =>
    refine ⟨config, ?_⟩
    dsimp only
    rw [Program.run_call (w.performEach_validationContext os)]
    cases config.validate w.validationContext with
    | error errors => exact Or.inl rfl
    | ok valid =>
      refine addsDraft_call fun r after => ?_
      cases r with
      | ok revision => rfl
      | error error => rfl

/-- The calls that insert a row. -/
def Call.inserts : Call → Bool
  | .saveDraft _ => true
  | .markActive _ => true
  | _ => false

/-- The other calls keep the rows. -/
theorem rows_performEach (w : World) {c : Call} (h : c.inserts = false) (os : Outcomes) :
    (w.performEach c os).2.db.rows = w.db.rows := by
  rw [World.performEach]
  cases c with
  | saveDraft config => cases h
  | markActive config => cases h
  | markApplyError id error => exact w.db.rows_markApplyError id error _ _
  | nftStatus config =>
    rcases w.perform_nftStatus config (os (.nftStatus config)) with ⟨error, -, hrun⟩ | hrun <;> rw [hrun]
  | tableSnapshot =>
    rcases w.perform_tableSnapshot (os .tableSnapshot) with ⟨error, -, hrun⟩ | hrun <;> rw [hrun]
  | nftApply config => exact congrArg Database.rows (w.sendTable_db config _)
  | nftRollback config => exact congrArg Database.rows (w.sendTable_db config _)
  | exportConfig config =>
    obtain ⟨answer, exported, hrun⟩ := w.perform_exportConfig config (os (.exportConfig config))
    rw [hrun]
  | _ => rfl

/-- The calls of a start. -/
def Call.restores : Call → Bool
  | .activeConfig => true
  | .nftStatus _ => true
  | .nftApply _ => true
  | .ensureForwarding _ => true
  | _ => false

theorem Runtime.openKernel_only : Runtime.openKernel.Only fun c => c.restores = true := by
  refine ⟨rfl, fun r => ?_⟩
  rcases r with error | _ | config
  · trivial
  · trivial
  · refine ⟨rfl, fun r => ?_⟩
    cases r with
    | error error =>
      refine ⟨rfl, fun r => ?_⟩
      cases r with
      | error _ => trivial
      | ok _ => exact ⟨rfl, fun _ => trivial⟩
    | ok status =>
      dsimp only
      split
      · refine ⟨rfl, fun r => ?_⟩
        cases r with
        | error _ => trivial
        | ok _ => exact ⟨rfl, fun _ => trivial⟩
      · trivial

theorem rows_restart : (Runtime.openKernel.run World.performEach os w).2.db.rows = w.db.rows := by
  have honly : Runtime.openKernel.Only fun c => c.inserts = false :=
    Runtime.openKernel_only.imp fun c hc => by cases c <;> first | rfl | cases hc
  exact @Program.Only.run_keeps _ _ _ _ _ _ World.performEach _ os (·.db.rows)
    (fun w c hc => rows_performEach w hc os) _ honly w

end

/-! ### Runs -/

section

variable {s : History} {os : Outcomes} {report : Report}

@[simp] theorem History.applying_world (s : History) (failed : Bool) (after : World) :
    (s.applying failed after).world = after := by
  unfold applying
  split <;> rfl

/-- What was applied stays applied. -/
theorem History.applied_subset_applying (s : History) (failed : Bool) (after : World) :
    s.applied ⊆ (s.applying failed after).applied := by
  unfold applying
  split
  · exact List.subset_cons_self _ _
  · exact List.Subset.refl _

theorem History.mem_applying {draft : Revision} (h : s.world.db.draftConfig = some draft)
    (after : World) : draft.config ∈ (s.applying false after).applied := by
  unfold applying
  split
  · rename_i newest hnewest
    cases h.symm.trans hnewest
    exact List.mem_cons_self
  · rename_i hnone
    exact absurd h (hnone draft rfl)

/-- A draft more. -/
theorem Traced.saved (h : Traced s.world.db.rows s.applied) {w : World} {config : Config}
    (hrows : w.db.rows = s.world.db.rows ∨
      w.db.rows = s.world.db.rows ++ [(.draft, config)]) : Traced w.db.rows s.applied := by
  rcases hrows with hrows | hrows
  · rw [hrows]
    exact h
  · rw [hrows]
    exact h.append nofun

/-- A rollback to what is known. -/
theorem Traced.rolledBack (h : Traced s.world.db.rows s.applied) {revisionId : String}
    (hknown : ∀ revision, s.world.db.revision revisionId = some revision → s.Knows revision.config)
    (hreport : report = s.world.report true ∨
      ∃ revision, s.world.db.revision revisionId = some revision ∧
        report = s.world.activationReport os revision.config) : Traced report.rows s.applied := by
  rcases hreport with rfl | ⟨revision, hfound, rfl⟩
  · exact h
  · rcases @activationReport_rows s.world os revision.config with hrows | ⟨hrows, -⟩
    · rw [hrows]
      exact h
    · rw [hrows]
      exact h.append fun _ => hknown revision hfound

/-- An apply. -/
theorem Traced.applying (h : Traced s.world.db.rows s.applied) (haudit : s.KeepsAudit os)
    {after : World} (hreport : report.rows = s.world.db.rows ∨
      ∃ draft, s.world.db.draftConfig = some draft ∧
        report = s.world.activationReport os draft.config) :
    Traced report.rows (s.applying report.failed after).applied := by
  have hmono := h.mono (s.applied_subset_applying report.failed after)
  rcases hreport with hrows | ⟨draft, hnewest, rfl⟩
  · rw [hrows]
    exact hmono
  · rcases @activationReport_rows s.world os draft.config with hrows | ⟨hrows, hended⟩
    · rw [hrows]
      exact hmono
    · rw [hrows]
      refine hmono.append fun _ => ?_
      rcases hended with hdone | hlost
      · rw [hdone]
        exact Or.inl (History.mem_applying hnewest after)
      · exact (haudit draft hnewest hlost).imp_left fun hmem =>
          s.applied_subset_applying _ after hmem

end

/-- **The step lemma.** -/
theorem Traced.next {s : History} {deed : Deed} (h : Traced s.world.db.rows s.applied)
    (hguard : KnownOnly s deed) :
    Traced (s.next deed).world.db.rows (s.next deed).applied := by
  unfold History.next
  cases deed with
  | saveDraft config os =>
    exact h.saved (addsDraft_saveDraft config).rows
  | restoreBackup downloaded os =>
    obtain ⟨config, hadds⟩ := @addsDraft_restoreBackup s.world os downloaded
    exact h.saved hadds.rows
  | apply os =>
    rw [History.applying_world]
    exact h.applying hguard apply_report_cases.1
  | rollback revisionId os =>
    exact h.rolledBack hguard (rollback_report_cases revisionId).1
  | commandApply os =>
    rw [History.applying_world]
    exact h.applying hguard apply_report_cases.2
  | commandRollback revisionId os =>
    exact h.rolledBack hguard (rollback_report_cases revisionId).2
  | restart os =>
    show Traced (Runtime.openKernel.run World.performEach os s.world).2.db.rows s.applied
    rw [rows_restart]
    exact h

/-- **Rollbacks to what is known.**  From an empty database, while every rollback names a revision
whose configuration was applied or has been active, and an apply that loses the audit entry of its
row is one of such a configuration, every active revision has a configuration that was the newest
draft when an apply succeeded, or that of an earlier active revision. -/
theorem traced_of_reaches {start s : History} (hempty : start.world.db.revisions = [])
    (h : Reaches History.step KnownOnly start s) : Traced s.world.db.rows s.applied := by
  have hstart : Traced start.world.db.rows start.applied := by
    intro before config after hrows
    rw [Database.rows, hempty] at hrows
    cases before <;> cases hrows
  exact @Reaches.invariant _ _ _ _ (fun s : History => Traced s.world.db.rows s.applied) _ _ hstart
    (fun _ _ _ hguard htraced hstep => Option.some.inj hstep ▸ htraced.next hguard) h

/-- `webWorld` before its first revision. -/
def freshHistory : History := ⟨{ webWorld with db := .empty, kernel := none }, []⟩

/-- The draft of `webRule`. -/
def savingWeb : Deed := .saveDraft ⟨1, [webRule]⟩ fun _ => smooth "draft" 1

def applyingWeb : Deed := .apply fun _ => smooth "active" 2

def rollingBackWeb : Deed := .rollback "active" fun _ => smooth "again" 3

/-- The history after the draft is applied. -/
def appliedHistory : History := (freshHistory.next savingWeb).next applyingWeb

theorem traced_after_rollback :
    (appliedHistory.next rollingBackWeb).world.db.rows = [(.draft, ⟨1, [webRule]⟩),
        (.active, ⟨1, [webRule]⟩), (.active, ⟨1, [webRule]⟩)] ∧
      Traced (appliedHistory.next rollingBackWeb).world.db.rows
        (appliedHistory.next rollingBackWeb).applied := by
  have happly : KnownOnly (freshHistory.next savingWeb) applyingWeb :=
    fun draft hdraft haudit => by cases haudit
  have hrollback : KnownOnly appliedHistory rollingBackWeb := by
    intro revision hfound
    have hconfig : (appliedHistory.world.db.revision "active").map (·.config) =
      some ⟨1, [webRule]⟩ := by decide
    rw [hfound, Option.map_some, Option.some.injEq] at hconfig
    rw [hconfig]
    exact Or.inr (by decide)
  have hsave : KnownOnly freshHistory savingWeb := trivial
  have hsaved : Reaches History.step KnownOnly freshHistory (freshHistory.next savingWeb) :=
    .step .start hsave rfl
  have hrun : Reaches History.step KnownOnly freshHistory (appliedHistory.next rollingBackWeb) :=
    (hsaved.step happly rfl).step hrollback rfl
  exact ⟨by decide, traced_of_reaches rfl hrun⟩

/-- **A rollback to a draft.**  The draft was never applied, and becomes active. -/
theorem rollback_activates_draft :
    ¬ ∀ start s : History, start.world.db.revisions = [] →
      Reaches History.step (fun _ _ => True) start s → Traced s.world.db.rows s.applied := by
  intro htraced
  have hsaved : Reaches History.step (fun _ _ => True) freshHistory (freshHistory.next savingWeb) :=
    .step .start trivial rfl
  have hrun := @Reaches.step _ _ History.step _ _ _ _
    (.rollback "draft" fun _ => smooth "active" 2) hsaved trivial rfl
  have hrow := htraced _ _ rfl hrun [(.draft, ⟨1, [webRule]⟩)] ⟨1, [webRule]⟩ [] (by decide)
  revert hrow
  decide

end Portalis
