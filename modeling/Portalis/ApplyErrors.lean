import Portalis.Provenance

/-!
# The error of a draft

`apply_error` of a draft is to say whether the last attempt to apply it failed.  Only the handler of the API
writes it, when the rules are refused or forwarding cannot be enabled, and nothing ever clears it.

* `draftErrors_api_apply`: what the handler writes.
* `ApplyRecord.told_next_iff`: which step keeps the errors true.
* `told_of_reaches`: a run of such steps.
* `error_outlives_success`: a draft that was applied and still has its error.
-/

namespace Portalis

open Programs

/-! ### The column -/

/-- The revision and the error of every draft. -/
def Database.draftErrors (self : Database) : List (String × Option String) :=
  (self.revisions.filter (·.kind = .draft)).map fun r => (r.id, r.applyError)

/-- The errors after an error is set. -/
def setError (id error : String) (e : String × Option String) : String × Option String :=
  if e.1 = id then (e.1, some error) else e

namespace Database

theorem mem_draftErrors {db : Database} {e : String × Option String} :
    e ∈ db.draftErrors ↔ ∃ r ∈ db.revisions, r.kind = .draft ∧ (r.id, r.applyError) = e := by
  rw [draftErrors, List.mem_map]
  constructor
  · intro h
    obtain ⟨r, hr, he⟩ := h
    obtain ⟨hmem, hkind⟩ := List.mem_filter.mp hr
    exact ⟨r, hmem, of_decide_eq_true hkind, he⟩
  · intro h
    obtain ⟨r, hmem, hkind, he⟩ := h
    exact ⟨r, List.mem_filter.mpr ⟨hmem, decide_eq_true hkind⟩, he⟩

/-- A draft has one error, or none. -/
theorem draftErrors_unique {db : Database} {draft : Revision} (hmem : draft ∈ db.revisions)
    {e : String × Option String} (he : e ∈ db.draftErrors) (hid : e.1 = draft.id) :
    e.2 = draft.applyError := by
  obtain ⟨r, hr, -, hsame⟩ := mem_draftErrors.mp he
  rw [← hsame] at hid
  rw [← hsame, List.inj_on_of_nodup_map db.ids_nodup hr hmem hid]

theorem draftErrors_append (db : Database) (r : Revision) (h : r.id ∉ db.revisions.map (·.id)) :
    (db.append r h).draftErrors =
      db.draftErrors ++ if r.kind = .draft then [(r.id, r.applyError)] else [] := by
  rw [draftErrors, append, List.filter_append, List.map_append, ← draftErrors, List.filter_singleton]
  split
  · next hkind => rw [decide_eq_true hkind]; rfl
  · next hkind => rw [decide_eq_false hkind]; rfl

theorem draftErrors_updateError (db : Database) (id error : String) :
    (db.updateError id error).draftErrors = db.draftErrors.map (setError id error) := by
  rw [draftErrors, updateError, filter_setApplyError, draftErrors, List.map_map, List.map_map]
  refine List.map_congr_left fun r _ => ?_
  show (_, _) = setError id error (r.id, r.applyError)
  unfold setApplyError setError
  by_cases hid : r.id = id
  · rw [if_pos hid, if_pos hid]
  · rw [if_neg hid, if_neg hid]

/-- **What `mark_apply_error` writes**: the error of its draft, unless it is the `UPDATE` that fails. -/
theorem draftErrors_markApplyError (db : Database) (id error : String) (now : Readings)
    (failing : Option DbStep) :
    (db.markApplyError id error now failing).2.draftErrors =
      if failing = some .update then db.draftErrors else db.draftErrors.map (setError id error) := by
  unfold markApplyError
  by_cases hupdate : failing = some .update
  · rw [if_pos hupdate, if_pos hupdate]
  · rw [if_neg hupdate, if_neg hupdate, ← draftErrors_updateError]
    unfold audit
    by_cases haudit : failing = some .audit
    · dsimp only
      rw [if_pos haudit]
    · dsimp only
      rw [if_neg haudit]
      rfl

end Database

/-! ### The calls -/

/-- The calls that write the column. -/
def Call.tells : Call → Bool
  | .saveDraft _ => true
  | .markApplyError _ _ => true
  | _ => false

section

variable {w : World} {os : Outcomes} {config : Config}

/-- The other calls keep the errors. -/
theorem draftErrors_performEach (w : World) {c : Call} (h : c.tells = false) (os : Outcomes) :
    (w.performEach c os).2.db.draftErrors = w.db.draftErrors := by
  rw [World.performEach]
  cases c with
  | saveDraft config => cases h
  | markApplyError id error => cases h
  | markActive config =>
    have happend : ∀ hnew, (w.db.append (Database.activeRow config (os (.markActive config)).now)
        hnew).draftErrors = w.db.draftErrors := fun hnew =>
      (Database.draftErrors_append _ _ hnew).trans (List.append_nil _)
    rcases w.perform_markActive config (os (.markActive config)) with
      ⟨error, hrun⟩ | ⟨error, hnew, -, hrun⟩ | ⟨hnew, log, hrun⟩
    · rw [hrun]
    · rw [hrun]
      exact happend hnew
    · rw [hrun]
      exact happend hnew
  | nftStatus config =>
    rcases w.perform_nftStatus config (os (.nftStatus config)) with ⟨error, -, hrun⟩ | hrun
    · rw [hrun]
    · rw [hrun]
  | tableSnapshot =>
    rcases w.perform_tableSnapshot (os .tableSnapshot) with ⟨error, -, hrun⟩ | hrun
    · rw [hrun]
    · rw [hrun]
  | nftApply config => exact congrArg Database.draftErrors (w.sendTable_db config _)
  | nftRollback config => exact congrArg Database.draftErrors (w.sendTable_db config _)
  | exportConfig config =>
    obtain ⟨answer, exported, hrun⟩ := w.perform_exportConfig config (os (.exportConfig config))
    rw [hrun]
  | _ => rfl

/-- A program of such calls. -/
theorem draftErrors_of_only {α : Type} {p : Operation α} (h : p.Only fun c => c.tells = false)
    (w : World) : (p.run World.performEach os w).2.db.draftErrors = w.db.draftErrors :=
  @Program.Only.run_keeps _ _ _ _ _ _ World.performEach _ os (·.db.draftErrors)
    (fun w _ hc => draftErrors_performEach w hc os) _ h w

/-- A saved draft has no error, and its revision is new. -/
def DraftSaved (w after : World) : Prop :=
  after.db.draftErrors = w.db.draftErrors ∨
    ∃ id, id ∉ w.db.revisions.map (·.id) ∧ after.db.draftErrors = w.db.draftErrors ++ [(id, none)]

theorem DraftSaved.of_addsDraft {after : World} (h : w.AddsDraft after config) :
    DraftSaved w after := by
  unfold DraftSaved Database.draftErrors
  rcases h with hsame | ⟨now, hnew, happend⟩
  · rw [hsame]
    exact Or.inl rfl
  · rw [happend, List.filter_append, List.map_append]
    exact Or.inr ⟨now.id, hnew, rfl⟩

theorem draftSaved_saveDraft (config : Config) :
    DraftSaved w ((Api.saveDraft config).run World.performEach os w).2 :=
  .of_addsDraft (addsDraft_saveDraft config)

theorem draftSaved_restoreBackup (downloaded : Except String Config) :
    DraftSaved w ((Api.restoreBackup downloaded).run World.performEach os w).2 := by
  obtain ⟨config, hadds⟩ := @addsDraft_restoreBackup w os downloaded
  exact .of_addsDraft hadds

/-! ### The programs that keep the errors -/

/-- An activation and what follows it, unless that writes. -/
theorem activate_only {α : Type} {P : Call → Prop} {previous : Config} {refused : NftError → Operation α}
    {unforwarded : String → Operation α} {unsaved : String → String → Operation α}
    {done : Revision → ApplyReceipt → Operation α} (happly : P (.nftApply config))
    (hforward : P (.ensureForwarding config)) (hmark : P (.markActive config))
    (hback : P (.nftRollback previous)) (hrefused : ∀ error, (refused error).Only P)
    (hunforwarded : ∀ message, (unforwarded message).Only P)
    (hunsaved : ∀ error rollback, (unsaved error rollback).Only P)
    (hdone : ∀ active receipt, (done active receipt).Only P) :
    (activate config previous refused unforwarded unsaved done).Only P := by
  have hcompensate : ∀ next : String → Operation α, (∀ rollback, (next rollback).Only P) →
      (compensate previous next).Only P := by
    intro next hnext
    refine ⟨hback, fun r => ?_⟩
    cases r with
    | ok receipt => exact hnext _
    | error error => exact hnext _
  refine ⟨happly, fun r => ?_⟩
  cases r with
  | error error => exact hrefused error
  | ok receipt =>
    refine ⟨hforward, fun r => ?_⟩
    cases r with
    | error error => exact hcompensate _ fun rollback => hunforwarded _
    | ok _ =>
      refine ⟨hmark, fun r => ?_⟩
      cases r with
      | error error => exact hcompensate _ fun rollback => hunsaved _ _
      | ok active => exact hdone active receipt

theorem draftErrors_activation (config : Config) :
    ((activation config w.previous).run World.performEach os w).2.db.draftErrors =
      w.db.draftErrors := by
  have honly : (activation config w.previous).Only fun c => c.tells = false :=
    activate_only rfl rfl rfl rfl (fun _ => trivial) (fun _ => trivial) (fun _ _ => trivial)
      fun _ _ => trivial
  exact draftErrors_of_only honly w

theorem draftErrors_api_rollback (revisionId : String) :
    ((Api.rollback revisionId).run World.performEach os w).2.db.draftErrors = w.db.draftErrors := by
  refine @draftErrors_of_only os _ (Api.rollback revisionId) ⟨rfl, fun r => ?_⟩ w
  rcases r with error | _ | revision
  · trivial
  · trivial
  · refine ⟨rfl, fun context => ?_⟩
    cases hvalid : revision.config.validate context with
    | error errors =>
      dsimp only
      rw [hvalid]
      trivial
    | ok valid =>
      dsimp only
      rw [hvalid]
      refine ⟨rfl, fun r => ?_⟩
      cases r with
      | error error => trivial
      | ok previous =>
        exact activate_only rfl rfl rfl rfl (fun _ => trivial) (fun _ => trivial)
          (fun _ _ => trivial) fun _ _ => trivial

theorem draftErrors_command_rollback (revisionId : String) :
    ((Service.rollback revisionId).run World.performEach os w).2.db.draftErrors =
      w.db.draftErrors := by
  refine @draftErrors_of_only os _ (Service.rollback revisionId) ⟨rfl, fun r => ?_⟩ w
  rcases r with error | _ | revision
  · trivial
  · trivial
  · refine ⟨rfl, fun r => ?_⟩
    cases r with
    | error error => trivial
    | ok previous =>
      exact activate_only rfl rfl rfl rfl (fun _ => trivial) (fun _ => trivial)
        (fun _ _ => trivial) fun _ _ => trivial

theorem draftErrors_restart :
    (Runtime.openKernel.run World.performEach os w).2.db.draftErrors = w.db.draftErrors := by
  have honly : Runtime.openKernel.Only fun c => c.tells = false := by
    refine Runtime.openKernel_only.imp fun c hc => ?_
    cases c with
    | saveDraft config => cases hc
    | markApplyError id error => cases hc
    | _ => rfl
  exact draftErrors_of_only honly w

theorem Service.activateDraft_only (draft : Revision) (previous : Config) :
    (Service.activateDraft draft previous).Only fun c => c.tells = false :=
  activate_only rfl rfl rfl rfl (fun _ => trivial) (fun _ => trivial) (fun _ _ => trivial)
    fun _ _ => trivial

/-- **The command writes no error.** -/
theorem draftErrors_command_apply :
    (Service.applyDraft.run World.performEach os w).2.db.draftErrors = w.db.draftErrors := by
  have hfresh : ∀ draft previous, (Service.applyFresh draft previous).Only fun c => c.tells = false := by
    intro draft previous
    refine ⟨rfl, fun r => ?_⟩
    cases r with
    | error error => exact Service.activateDraft_only draft previous
    | ok _ =>
      refine ⟨rfl, fun r => ?_⟩
      cases r with
      | error error => trivial
      | ok _ => exact Service.activateDraft_only draft previous
  rcases @applyNewest_run _ Service.failed w os (.ret (.ok "active rules already match the saved draft"))
      (fun error => .error (.text error)) (.error (.text "no saved draft"))
      (fun _ errors => .error (.invalid errors)) Service.applyFresh (fun _ => rfl) rfl
      (fun _ _ => rfl) with ⟨-, answer, -, hrun⟩ | ⟨draft, -, ⟨-, hrun⟩ | ⟨-, hrun⟩⟩
  · rw [Service.applyDraft, hrun]
  · rw [Service.applyDraft, hrun]
    rfl
  · rw [Service.applyDraft, hrun]
    exact draftErrors_of_only (hfresh draft w.previous) w

end

/-! ### What an apply writes -/

/-- What a compensation adds to a text. -/
def World.rollbackText (w : World) (os : Outcomes) (previous : Config) : String :=
  match (w.performEach (.nftRollback previous) os).1 with
  | .ok _ => ""
  | .error error => "; nft rollback failed: " ++ error.text

/-- Why the rules are refused or forwarding is not enabled, as a text. -/
def World.rejection (w : World) (os : Outcomes) (config : Config) : Option String :=
  match (w.performEach (.nftApply config) os).1 with
  | .error error => some error.text
  | .ok _ =>
    match (w.switched os config).1 with
    | .error step => some (step.text (os (.ensureForwarding config)).cause ++ w.rollbackText os w.previous)
    | .ok _ => none

/-- The text that the handler writes on the draft. -/
def Activated.written : Activated → Option String
  | refused error => some error.text
  | unforwarded message => some message
  | _ => none

section

variable {w : World} {os : Outcomes} {config : Config}

/-- A batch is answered alike whatever table is there, but for the table it replaces. -/
theorem World.sendTable_congr (w w' : World) (config : Config) (refused : Option NftError) :
    (∃ error, (w.sendTable config refused).1 = .error error ∧
        (w'.sendTable config refused).1 = .error error) ∨
      ((∃ receipt, (w.sendTable config refused).1 = .ok receipt) ∧
        ∃ receipt, (w'.sendTable config refused).1 = .ok receipt) := by
  cases refused with
  | some error => exact Or.inl ⟨error, rfl, rfl⟩
  | none =>
    rw [sendTable, sendTable, nftApply_eq, nftApply_eq]
    cases compile config with
    | error error => exact Or.inl ⟨_, rfl, rfl⟩
    | ok t => exact Or.inr ⟨⟨_, rfl⟩, _, rfl⟩

theorem World.rollbackText_congr (w w' : World) (os : Outcomes) (previous : Config) :
    w.rollbackText os previous = w'.rollbackText os previous := by
  have hsend : ∃ refused, ∀ w : World,
      w.performEach (.nftRollback previous) os = w.sendTable previous refused := ⟨_, fun _ => rfl⟩
  obtain ⟨refused, hsend⟩ := hsend
  rw [rollbackText, rollbackText, hsend, hsend]
  rcases w.sendTable_congr w' previous refused with ⟨error, hw, hw'⟩ | ⟨⟨receipt, hw⟩, receipt', hw'⟩
  · rw [hw, hw']
  · rw [hw, hw']

/-- A compensation goes on with its text. -/
theorem compensate_run (previous : Config) (next : String → Activated) :
    ((compensate previous fun rollback => .ret (next rollback)).run World.performEach os w).1 =
      next (w.rollbackText os previous) := by
  unfold compensate World.rollbackText
  rw [Program.run]
  cases (w.performEach (.nftRollback previous) os).1 with
  | ok receipt => rfl
  | error error => rfl

/-- **Which text an activation leaves to be written.** -/
theorem written_activation (w : World) (os : Outcomes) (config : Config) :
    ((activation config w.previous).run World.performEach os w).1.written = w.rejection os config := by
  unfold activation activate World.rejection
  cases happly : w.performEach (.nftApply config) os with
  | mk answer applied =>
    rw [Program.run_call happly]
    cases answer with
    | error error => rfl
    | ok receipt =>
      have hsysctl : applied.sysctl = w.sysctl := by
        rcases w.sendTable_cases config _ with ⟨error, hrun⟩ | ⟨t, receipt', -, -, hrun⟩
        · cases hrun.symm.trans happly
        · cases hrun.symm.trans happly
          rfl
      cases hforward : w.switched os config with
      | mk answer sysctl =>
        have hstep : applied.performEach (.ensureForwarding config) os =
            (answer.mapError (SysctlStep.text (os (.ensureForwarding config)).cause),
              { applied with sysctl := sysctl }) := by
          rw [World.switched, ← hsysctl] at hforward
          rw [World.performEach, World.perform]
          simp only [hforward]
        dsimp only
        rw [Program.run_call hstep]
        cases answer with
        | error step =>
          dsimp only [Except.mapError]
          rw [compensate_run w.previous fun rollback =>
            .unforwarded (step.text (os (.ensureForwarding config)).cause ++ rollback)]
          exact congrArg (fun text => some (_ ++ text)) (World.rollbackText_congr _ _ os _)
        | ok _ =>
          dsimp only [Except.mapError]
          rw [Program.run]
          cases (World.performEach { applied with sysctl := sysctl } (.markActive config) os).1 with
          | error error =>
            dsimp only
            rw [compensate_run w.previous fun rollback => .unsaved error rollback]
            rfl
          | ok active => rfl

/-- The draft that an apply takes up. -/
def World.attempted (w : World) (os : Outcomes) : Option Revision :=
  if (os .draftConfig).failing = some .draftConfig then none else w.db.draftConfig

/-- The handler applies the draft: its rules are in place, or it activates them. -/
def World.ApiApplies (w : World) (os : Outcomes) (draft : Revision) : Prop :=
  w.Proceeds os draft ∧
    ((w.Reuses os draft.config ∧ (os .activeRevision).failing ≠ some .activeRevision) ∨
      (¬ w.Reuses os draft.config ∧ ApiSnapshots os ∧ w.Completes os draft.config))

/-- The handler fails at the batch or at the forwarding step, and writes so on the draft. -/
def World.ApiMarks (w : World) (os : Outcomes) (draft : Revision) : Prop :=
  w.Proceeds os draft ∧ ¬ w.Reuses os draft.config ∧ ApiSnapshots os ∧
    ∃ text, w.rejection os draft.config = some text ∧
      (os (.markApplyError draft.id text)).failing ≠ some (.write .update)

/-- The command applies the draft. -/
def World.CommandApplies (w : World) (os : Outcomes) (draft : Revision) : Prop :=
  w.Proceeds os draft ∧
    (w.Reuses os draft.config ∨
      (¬ w.Reuses os draft.config ∧ CommandSnapshots os ∧ w.Completes os draft.config))

theorem World.Proceeds.attempted {draft : Revision} (h : w.Proceeds os draft) :
    w.attempted os = some draft :=
  (if_neg h.read).trans h.newest

theorem activationReport_failed_iff :
    (w.activationReport os config).failed = false ↔ w.Completes os config := by
  rcases @World.activationReport_cases w os config with
    ⟨hrefuses, hreport⟩ | ⟨hcompletes, t, -, hreport⟩ | ⟨-, hnot, hfailed, -⟩
  · rw [hreport]
    exact iff_of_false Bool.noConfusion fun h => h.accepted hrefuses
  · rw [hreport]
    exact iff_of_true rfl hcompletes
  · rw [hfailed]
    exact iff_of_false Bool.noConfusion hnot

/-- An activation that succeeds leaves nothing to be written. -/
theorem rejection_of_completes (h : w.Completes os config) : w.rejection os config = none := by
  have hfailed : ((activation config w.previous).run World.performEach os w).1.failed = false :=
    activationReport_failed_iff.mpr h
  rw [← written_activation]
  cases hended : ((activation config w.previous).run World.performEach os w).1 with
  | done active receipt => rfl
  | _ =>
    rw [hended] at hfailed
    cases hfailed

theorem World.ApiMarks.not_applies {draft : Revision} (h : w.ApiMarks os draft) :
    ¬ w.ApiApplies os draft := by
  intro happlies
  obtain ⟨-, hfresh, -, text, htext, -⟩ := h
  rcases happlies.2 with hreuses | hcompletes
  · exact hfresh hreuses.1
  · rw [rejection_of_completes hcompletes.2.2] at htext
    cases htext

theorem api_apply_failed_iff {draft : Revision} (h : w.attempted os = some draft) :
    (Api.apply.run World.performEach os w).1.isError = false ↔ w.ApiApplies os draft := by
  have hfailed : (reportOf Response.isError Api.apply os w).failed = false ↔
      w.ApiApplies os draft := by
    rcases @Api.apply_report w os with ⟨hnone, hreport⟩ | ⟨draft', hproceeds, hreport⟩
    · rw [hreport]
      exact iff_of_false Bool.noConfusion fun happlies => hnone draft happlies.1
    · have hsame : draft' = draft := Option.some.inj (hproceeds.attempted.symm.trans h)
      rw [hsame] at hproceeds hreport
      rcases hreport with ⟨hreuses, hreport⟩ | ⟨hfresh, hreport⟩
      · rw [hreport]
        show decide _ = false ↔ _
        rw [decide_eq_false_iff_not]
        constructor
        · intro hread
          exact ⟨hproceeds, Or.inl ⟨hreuses, hread⟩⟩
        · intro happlies
          rcases happlies.2 with hreused | hactivates
          · exact hreused.2
          · exact absurd hreuses hactivates.1
      · rw [hreport]
        rcases @Api.applyFresh_report w os draft with ⟨hsnapshots, hreport⟩ | ⟨hnone, hreport⟩
        · rw [hreport, activationReport_failed_iff]
          constructor
          · intro hcompletes
            exact ⟨hproceeds, Or.inr ⟨hfresh, hsnapshots, hcompletes⟩⟩
          · intro happlies
            rcases happlies.2 with hreused | hactivates
            · exact absurd hreused.1 hfresh
            · exact hactivates.2.2
        · rw [hreport]
          refine iff_of_false Bool.noConfusion fun happlies => ?_
          rcases happlies.2 with hreused | hactivates
          · exact hfresh hreused.1
          · exact hnone hactivates.2.1
  exact hfailed

theorem command_apply_failed_iff {draft : Revision} (h : w.attempted os = some draft) :
    Service.failed (Service.applyDraft.run World.performEach os w).1 = false ↔
      w.CommandApplies os draft := by
  have hfailed : (reportOf Service.failed Service.applyDraft os w).failed = false ↔
      w.CommandApplies os draft := by
    rcases @Service.apply_report w os with ⟨hnone, hreport⟩ | ⟨draft', hproceeds, hreport⟩
    · rw [hreport]
      exact iff_of_false Bool.noConfusion fun happlies => hnone draft happlies.1
    · have hsame : draft' = draft := Option.some.inj (hproceeds.attempted.symm.trans h)
      rw [hsame] at hproceeds hreport
      rcases hreport with ⟨hreuses, hreport⟩ | ⟨hfresh, hreport⟩
      · rw [hreport]
        exact iff_of_true rfl ⟨hproceeds, Or.inl hreuses⟩
      · rw [hreport]
        rcases @Service.applyFresh_report w os draft with ⟨hsnapshots, hreport⟩ | ⟨hnone, hreport⟩
        · rw [hreport, activationReport_failed_iff]
          constructor
          · intro hcompletes
            exact ⟨hproceeds, Or.inr ⟨hfresh, hsnapshots, hcompletes⟩⟩
          · intro happlies
            rcases happlies.2 with hreused | hactivates
            · exact absurd hreused hfresh
            · exact hactivates.2.2
        · rw [hreport]
          refine iff_of_false Bool.noConfusion fun happlies => ?_
          rcases happlies.2 with hreused | hactivates
          · exact hfresh hreused
          · exact hnone hactivates.2.1
  exact hfailed

theorem draftErrors_failApply (draft : Revision) (text : String) (w : World) (os : Outcomes) :
    ((Api.failApply draft text).run World.performEach os w).2.db.draftErrors =
      if (os (.markApplyError draft.id text)).failing = some (.write .update) then w.db.draftErrors
      else w.db.draftErrors.map (setError draft.id text) := by
  have hstep : (os (.markApplyError draft.id text)).dbStep = some .update ↔
      (os (.markApplyError draft.id text)).failing = some (.write .update) := by
    unfold Outcome.dbStep
    split
    · next step hfailing => simp [hfailing]
    · next hother =>
      constructor
      · intro h
        cases h
      · intro h
        exact absurd h (hother .update)
  refine (w.db.draftErrors_markApplyError draft.id text _ _).trans ?_
  by_cases hupdate : (os (.markApplyError draft.id text)).failing = some (.write .update)
  · rw [if_pos (hstep.mpr hupdate), if_pos hupdate]
  · rw [if_neg fun h => hupdate (hstep.mp h), if_neg hupdate]

/-- An attempt that is refused or cannot forward: the error is written, unless its update fails. -/
theorem draftErrors_refused {w : World} {os : Outcomes} {draft : Revision} {text : String}
    (hproceeds : w.Proceeds os draft) (hfresh : ¬ w.Reuses os draft.config) (hsnapshots : ApiSnapshots os)
    (htext : w.rejection os draft.config = some text) {after : World}
    (hkept : after.db.draftErrors = w.db.draftErrors) :
    (∃ draft' text', w.ApiMarks os draft' ∧
        ((Api.failApply draft text).run World.performEach os after).2.db.draftErrors =
          w.db.draftErrors.map (setError draft'.id text')) ∨
      (∀ draft', ¬ w.ApiMarks os draft') ∧
        ((Api.failApply draft text).run World.performEach os after).2.db.draftErrors = w.db.draftErrors := by
  rw [draftErrors_failApply, hkept]
  by_cases hupdate : (os (.markApplyError draft.id text)).failing = some (.write .update)
  · rw [if_pos hupdate]
    refine Or.inr ⟨fun draft' hmarks => ?_, rfl⟩
    rw [hproceeds.unique hmarks.1] at hmarks
    obtain ⟨-, -, -, text', htext', hkeeps⟩ := hmarks
    rw [htext] at htext'
    cases htext'
    exact hkeeps hupdate
  · rw [if_neg hupdate]
    exact Or.inl ⟨draft, text, ⟨hproceeds, hfresh, hsnapshots, text, htext, hupdate⟩, rfl⟩

/-- The handler on a draft that is not the active configuration already. -/
theorem draftErrors_applyFresh {w : World} {os : Outcomes} {draft : Revision}
    (hproceeds : w.Proceeds os draft) (hfresh : ¬ w.Reuses os draft.config) :
    (∃ draft' text', w.ApiMarks os draft' ∧
        ((Api.applyFresh draft w.previous).run World.performEach os w).2.db.draftErrors =
          w.db.draftErrors.map (setError draft'.id text')) ∨
      (∀ draft', ¬ w.ApiMarks os draft') ∧
        ((Api.applyFresh draft w.previous).run World.performEach os w).2.db.draftErrors =
          w.db.draftErrors := by
  rcases @Api.applyFresh_run w os draft with ⟨hsnapshots, hfollow⟩ | ⟨hnone, answer, -, hfollow⟩
  · have hkept := @draftErrors_activation w os draft.config
    have hwritten := written_activation w os draft.config
    have hnot : w.rejection os draft.config = none → ∀ draft', ¬ w.ApiMarks os draft' := by
      intro hrejection draft' hmarks
      rw [hproceeds.unique hmarks.1] at hmarks
      obtain ⟨-, -, -, text, htext, -⟩ := hmarks
      rw [hrejection] at htext
      cases htext
    rw [hfollow, Program.run_bind]
    cases hended : ((activation draft.config w.previous).run World.performEach os w).1 with
    | refused error =>
      rw [hended] at hwritten
      exact draftErrors_refused hproceeds hfresh hsnapshots hwritten.symm hkept
    | unforwarded message =>
      rw [hended] at hwritten
      exact draftErrors_refused hproceeds hfresh hsnapshots hwritten.symm hkept
    | unsaved error rollback =>
      rw [hended] at hwritten
      exact Or.inr ⟨hnot hwritten.symm, hkept⟩
    | done active receipt =>
      rw [hended] at hwritten
      have hexport : (Api.afterActivation draft (.done active receipt)).Only
          fun c => c.tells = false := ⟨rfl, fun _ => trivial⟩
      exact Or.inr ⟨hnot hwritten.symm, (draftErrors_of_only hexport _).trans hkept⟩
  · refine Or.inr ⟨fun draft' hmarks => hnone hmarks.2.2.1, ?_⟩
    rw [hfollow]

/-- **What the handler writes**: on the draft, if it marks it. -/
theorem draftErrors_api_apply (w : World) (os : Outcomes) :
    (∃ draft text, w.ApiMarks os draft ∧
        (Api.apply.run World.performEach os w).2.db.draftErrors =
          w.db.draftErrors.map (setError draft.id text)) ∨
      ((∀ draft, ¬ w.ApiMarks os draft) ∧
        (Api.apply.run World.performEach os w).2.db.draftErrors = w.db.draftErrors) := by
  have hpaths : ((∀ draft, ¬ w.Proceeds os draft) ∧ ∃ answer, Response.isError answer = true ∧
        Api.apply.run World.performEach os w = (answer, w)) ∨
      ∃ draft, w.Proceeds os draft ∧
        ((w.Reuses os draft.config ∧ Api.apply.run World.performEach os w = _) ∨
          (¬ w.Reuses os draft.config ∧ Api.apply.run World.performEach os w =
            (Api.applyFresh draft w.previous).run World.performEach os w)) :=
    applyNewest_run (fun _ => rfl) rfl fun _ _ => rfl
  rcases hpaths with ⟨hnot, answer, -, hrun⟩ | ⟨draft, hproceeds, ⟨hreuses, hrun⟩ | ⟨hfresh, hrun⟩⟩
  · refine Or.inr ⟨fun draft hmarks => hnot draft hmarks.1, ?_⟩
    rw [hrun]
  · refine Or.inr ⟨fun draft' hmarks => ?_, ?_⟩
    · rw [hproceeds.unique hmarks.1] at hmarks
      exact hmarks.2.1 hreuses
    · rw [hrun]
      rcases w.perform_activeRevision (os .activeRevision) with ⟨error, -, hcall⟩ | hcall
      · rw [@Program.run_call _ _ _ _ _ World.performEach os .activeRevision w _ _ hcall]
        rfl
      · rw [@Program.run_call _ _ _ _ _ World.performEach os .activeRevision w _ _ hcall]
        rfl
  · rw [hrun]
    exact draftErrors_applyFresh hproceeds hfresh

end

/-! ### The attempts -/

/-- The world, and the attempts to apply a draft, the last one first: its revision, and whether it failed. -/
structure ApplyRecord where
  world : World
  attempts : List (String × Bool)

/-- The last attempt to apply the revision failed. -/
def lastFailed (attempts : List (String × Bool)) (id : String) : Bool :=
  ((attempts.find? fun a => a.1 = id).map (·.2)).getD false

/-- The errors say which of the last attempts failed. -/
def Tells (errors : List (String × Option String)) (attempts : List (String × Bool)) : Prop :=
  ∀ e ∈ errors, e.2.isSome = lastFailed attempts e.1

theorem lastFailed_cons_self (id : String) (failed : Bool) (attempts : List (String × Bool)) :
    lastFailed ((id, failed) :: attempts) id = failed := by
  rw [lastFailed, List.find?_cons_of_pos (by simp)]
  rfl

theorem lastFailed_cons_of_ne {id other : String} (h : other ≠ id) (failed : Bool)
    (attempts : List (String × Bool)) :
    lastFailed ((id, failed) :: attempts) other = lastFailed attempts other := by
  rw [lastFailed, List.find?_cons_of_neg (by simpa using h.symm), lastFailed]

/-- Nobody has tried a revision that nobody knew. -/
theorem lastFailed_of_notMem {attempts : List (String × Bool)} {id : String}
    (h : id ∉ attempts.map (·.1)) : lastFailed attempts id = false := by
  have hnone : attempts.find? (fun a => a.1 = id) = none := by
    rw [List.find?_eq_none]
    intro a ha hsame
    exact h (of_decide_eq_true hsame ▸ List.mem_map_of_mem ha)
  rw [lastFailed, hnone]
  rfl

section

variable {errors : List (String × Option String)} {attempts : List (String × Bool)} {id : String}
  {error : Option String}

/-- **An attempt that writes nothing** has to end as the error of its draft says. -/
theorem tells_attempt_iff (h : Tells errors attempts) (hmem : (id, error) ∈ errors)
    (hunique : ∀ e ∈ errors, e.1 = id → e.2 = error) (failed : Bool) :
    Tells errors ((id, failed) :: attempts) ↔ error.isSome = failed := by
  constructor
  · intro htells
    exact (htells _ hmem).trans (lastFailed_cons_self id failed attempts)
  · intro hended e he
    by_cases hid : e.1 = id
    · rw [hunique e he hid, hended, hid, lastFailed_cons_self]
    · rw [lastFailed_cons_of_ne hid]
      exact h e he

/-- **An attempt that writes an error** has to fail. -/
theorem tells_marked_iff (h : Tells errors attempts) (hmem : (id, error) ∈ errors) (text : String)
    (failed : Bool) :
    Tells (errors.map (setError id text)) ((id, failed) :: attempts) ↔ failed = true := by
  constructor
  · intro htells
    have hset : setError id text (id, error) = (id, some text) := if_pos rfl
    have hlast := htells _ (List.mem_map_of_mem hmem)
    rw [hset, lastFailed_cons_self] at hlast
    exact hlast.symm
  · intro hfailed e he
    obtain ⟨before, hbefore, hset⟩ := List.mem_map.mp he
    unfold setError at hset
    by_cases hid : before.1 = id
    · rw [if_pos hid] at hset
      rw [← hset, hid, lastFailed_cons_self, hfailed]
      rfl
    · rw [if_neg hid] at hset
      rw [← hset, lastFailed_cons_of_ne hid]
      exact h before hbefore

end

namespace ApplyRecord

variable (s : ApplyRecord)

/-- The attempts after one more, if it took up a draft. -/
def attempting (os : Outcomes) (failed : Bool) : List (String × Bool) :=
  match s.world.attempted os with
  | some draft => (draft.id, failed) :: s.attempts
  | none => s.attempts

def next (deed : Deed) : ApplyRecord where
  world := (History.next ⟨s.world, []⟩ deed).world
  attempts :=
    match deed with
    | .apply os => s.attempting os (Api.apply.run World.performEach os s.world).1.isError
    | .commandApply os =>
      s.attempting os (Service.failed (Service.applyDraft.run World.performEach os s.world).1)
    | _ => s.attempts

def step (deed : Deed) : Option ApplyRecord := some (s.next deed)

/-- The error of a draft is there exactly when the last attempt to apply it failed. -/
def Told : Prop :=
  ∀ r ∈ s.world.db.revisions, r.kind = .draft →
    (r.applyError.isSome = true ↔ lastFailed s.attempts r.id = true)

/-- The attempts were at drafts. -/
def Known : Prop := ∀ a ∈ s.attempts, a.1 ∈ s.world.db.draftErrors.map (·.1)

/-- A draft with an error is not applied; one without is applied, or the handler writes that it fails. -/
def KeepsErrors (deed : Deed) : Prop :=
  match deed with
  | .apply os => ∀ draft, s.world.attempted os = some draft →
      (draft.applyError.isSome = true → ¬ s.world.ApiApplies os draft) ∧
        (draft.applyError.isSome = false →
          s.world.ApiApplies os draft ∨ s.world.ApiMarks os draft)
  | .commandApply os => ∀ draft, s.world.attempted os = some draft →
      (draft.applyError.isSome = true ↔ ¬ s.world.CommandApplies os draft)
  | _ => True

variable {s}

theorem attempting_of_none {os : Outcomes} (h : s.world.attempted os = none) (failed : Bool) :
    s.attempting os failed = s.attempts := by
  rw [attempting, h]

theorem attempting_of_some {os : Outcomes} {draft : Revision} (h : s.world.attempted os = some draft)
    (failed : Bool) : s.attempting os failed = (draft.id, failed) :: s.attempts := by
  rw [attempting, h]

/-- A condition on the draft that is taken up, and there is at most one. -/
theorem forall_attempted_iff {os : Outcomes} {draft : Revision} (h : s.world.attempted os = some draft)
    (P : Revision → Prop) : (∀ other, s.world.attempted os = some other → P other) ↔ P draft := by
  constructor
  · intro hall
    exact hall draft h
  · intro hdraft other hother
    rw [h, Option.some.injEq] at hother
    rw [← hother]
    exact hdraft

theorem told_iff : s.Told ↔ Tells s.world.db.draftErrors s.attempts := by
  constructor
  · intro h e he
    obtain ⟨r, hr, hkind, hsame⟩ := Database.mem_draftErrors.mp he
    rw [← hsame]
    exact Bool.eq_iff_iff.mpr (h r hr hkind)
  · intro h r hr hkind
    have hsame := h _ (Database.mem_draftErrors.mpr ⟨r, hr, hkind, rfl⟩)
    exact Bool.eq_iff_iff.mp hsame

theorem draftErrors_ids_subset (db : Database) : db.draftErrors.map (·.1) ⊆ db.revisions.map (·.id) := by
  intro id hid
  obtain ⟨e, he, hsame⟩ := List.mem_map.mp hid
  obtain ⟨r, hr, -, hrow⟩ := Database.mem_draftErrors.mp he
  rw [← hsame, ← hrow]
  exact List.mem_map_of_mem hr

/-- The draft of an attempt is in the table, with its error. -/
theorem mem_of_attempted {w : World} {os : Outcomes} {draft : Revision}
    (h : w.attempted os = some draft) :
    draft ∈ w.db.revisions ∧ (draft.id, draft.applyError) ∈ w.db.draftErrors := by
  unfold World.attempted at h
  split at h
  · cases h
  · obtain ⟨hmem, hkind⟩ := Database.kind_of_latestRevision h
    exact ⟨hmem, Database.mem_draftErrors.mpr ⟨draft, hmem, hkind, rfl⟩⟩

/-- A new draft was never tried. -/
theorem tells_saved {after : World} (h : Tells s.world.db.draftErrors s.attempts) (hknown : s.Known)
    (hsaved : DraftSaved s.world after) : Tells after.db.draftErrors s.attempts := by
  rcases hsaved with hsame | ⟨id, hnew, happend⟩
  · rw [hsame]
    exact h
  · have huntried : lastFailed s.attempts id = false := by
      refine lastFailed_of_notMem fun hmem => ?_
      obtain ⟨a, ha, hsame⟩ := List.mem_map.mp hmem
      exact hnew (draftErrors_ids_subset _ (hsame ▸ hknown a ha))
    rw [happend]
    intro e he
    rcases List.mem_append.mp he with he | he
    · exact h e he
    · rw [List.mem_singleton.mp he, huntried]
      rfl

/-- An attempt that took up a draft, and wrote nothing. -/
theorem tells_unmarked_iff {os : Outcomes} {draft : Revision}
    (h : Tells s.world.db.draftErrors s.attempts) (hdraft : s.world.attempted os = some draft)
    (result : Bool) :
    Tells s.world.db.draftErrors (s.attempting os result) ↔ draft.applyError.isSome = result := by
  obtain ⟨hmem, herror⟩ := mem_of_attempted hdraft
  rw [attempting_of_some hdraft]
  exact tells_attempt_iff h herror (fun e he hid => Database.draftErrors_unique hmem he hid) result

/-- **The handler** keeps the errors true. -/
theorem tells_apply_iff {os : Outcomes} (h : Tells s.world.db.draftErrors s.attempts) :
    Tells (Api.apply.run World.performEach os s.world).2.db.draftErrors
        (s.attempting os (Api.apply.run World.performEach os s.world).1.isError) ↔
      s.KeepsErrors (.apply os) := by
  cases hdraft : s.world.attempted os with
  | none =>
    have hunmarked : ∀ draft, ¬ s.world.ApiMarks os draft := by
      intro draft hmarks
      rw [hmarks.1.attempted] at hdraft
      cases hdraft
    rcases draftErrors_api_apply s.world os with ⟨draft, text, hmarks, -⟩ | ⟨-, hkept⟩
    · exact absurd hmarks (hunmarked draft)
    · rw [hkept, attempting_of_none hdraft]
      refine iff_of_true h fun draft hsome => ?_
      rw [hdraft] at hsome
      cases hsome
  | some draft =>
    have honly : s.KeepsErrors (.apply os) ↔
        (draft.applyError.isSome = true → ¬ s.world.ApiApplies os draft) ∧
          (draft.applyError.isSome = false →
            s.world.ApiApplies os draft ∨ s.world.ApiMarks os draft) :=
      forall_attempted_iff hdraft _
    have hfailed := api_apply_failed_iff hdraft
    rw [honly]
    rcases draftErrors_api_apply s.world os with ⟨draft', text, hmarks, hmarked⟩ | ⟨hunmarked, hkept⟩
    · rw [hmarks.1.attempted] at hdraft
      cases hdraft
      have hnot := hmarks.not_applies
      rw [hmarked, attempting_of_some hmarks.1.attempted,
        tells_marked_iff h (mem_of_attempted hmarks.1.attempted).2 text _, ← Bool.not_eq_false, hfailed]
      exact iff_of_true hnot ⟨fun _ => hnot, fun _ => Or.inr hmarks⟩
    · rw [hkept, tells_unmarked_iff h hdraft]
      cases hended : (Api.apply.run World.performEach os s.world).1.isError with
      | false =>
        have happlies := hfailed.mp hended
        constructor
        · intro hnone
          refine ⟨fun hsome => ?_, fun _ => Or.inl happlies⟩
          rw [hnone] at hsome
          cases hsome
        · intro hkeeps
          exact Bool.eq_false_iff.mpr fun hsome => hkeeps.1 hsome happlies
      | true =>
        have hnot : ¬ s.world.ApiApplies os draft := by
          intro happlies
          rw [hfailed.mpr happlies] at hended
          cases hended
        constructor
        · intro hsome
          refine ⟨fun _ => hnot, fun hnone => ?_⟩
          rw [hsome] at hnone
          cases hnone
        · intro hkeeps
          by_contra hnone
          rcases hkeeps.2 (Bool.eq_false_iff.mpr hnone) with happlies | hmarks
          · exact hnot happlies
          · exact hunmarked draft hmarks

/-- **The command** keeps the errors true. -/
theorem tells_commandApply_iff {os : Outcomes} (h : Tells s.world.db.draftErrors s.attempts) :
    Tells (Service.applyDraft.run World.performEach os s.world).2.db.draftErrors
        (s.attempting os (Service.failed (Service.applyDraft.run World.performEach os s.world).1)) ↔
      s.KeepsErrors (.commandApply os) := by
  rw [draftErrors_command_apply]
  cases hdraft : s.world.attempted os with
  | none =>
    rw [attempting_of_none hdraft]
    refine iff_of_true h fun draft hsome => ?_
    rw [hdraft] at hsome
    cases hsome
  | some draft =>
    rw [tells_unmarked_iff h hdraft]
    have hfailed := command_apply_failed_iff hdraft
    have hended : draft.applyError.isSome =
          Service.failed (Service.applyDraft.run World.performEach os s.world).1 ↔
        (draft.applyError.isSome = true ↔ ¬ s.world.CommandApplies os draft) := by
      rw [← hfailed, Bool.not_eq_false]
      exact Bool.eq_iff_iff
    rw [hended]
    exact (forall_attempted_iff hdraft fun draft =>
      draft.applyError.isSome = true ↔ ¬ s.world.CommandApplies os draft).symm

theorem next_apply (s : ApplyRecord) (os : Outcomes) : (s.next (.apply os)).world =
    (Api.apply.run World.performEach os s.world).2 :=
  History.applying_world _ _ _

theorem next_commandApply (s : ApplyRecord) (os : Outcomes) : (s.next (.commandApply os)).world =
    (Service.applyDraft.run World.performEach os s.world).2 :=
  History.applying_world _ _ _

/-- **The step lemma**: which deeds keep the errors true. -/
theorem told_next_iff {deed : Deed} (h : s.Told) (hknown : s.Known) :
    (s.next deed).Told ↔ s.KeepsErrors deed := by
  rw [told_iff] at h ⊢
  cases deed with
  | saveDraft config os =>
    have hsaved := tells_saved h hknown (@draftSaved_saveDraft s.world os config)
    exact iff_of_true hsaved trivial
  | restoreBackup downloaded os =>
    have hsaved := tells_saved h hknown (@draftSaved_restoreBackup s.world os downloaded)
    exact iff_of_true hsaved trivial
  | apply os =>
    rw [next_apply]
    exact tells_apply_iff h
  | rollback revisionId os =>
    refine iff_of_true ?_ trivial
    show Tells ((Api.rollback revisionId).run World.performEach os s.world).2.db.draftErrors s.attempts
    rw [draftErrors_api_rollback]
    exact h
  | commandApply os =>
    rw [next_commandApply]
    exact tells_commandApply_iff h
  | commandRollback revisionId os =>
    refine iff_of_true ?_ trivial
    show Tells ((Service.rollback revisionId).run World.performEach os s.world).2.db.draftErrors s.attempts
    rw [draftErrors_command_rollback]
    exact h
  | restart os =>
    refine iff_of_true ?_ trivial
    show Tells (Runtime.openKernel.run World.performEach os s.world).2.db.draftErrors s.attempts
    rw [draftErrors_restart]
    exact h

/-- Attempts at drafts, and the drafts are still there. -/
theorem known_of_subset {after : ApplyRecord} (hknown : s.Known)
    (hids : s.world.db.draftErrors.map (·.1) ⊆ after.world.db.draftErrors.map (·.1))
    (hattempts : after.attempts = s.attempts ∨
      ∃ os failed, after.attempts = s.attempting os failed) : after.Known := by
  intro a ha
  rcases hattempts with hsame | ⟨os, failed, hmore⟩
  · rw [hsame] at ha
    exact hids (hknown a ha)
  · rw [hmore, attempting] at ha
    cases hdraft : s.world.attempted os with
    | none =>
      rw [hdraft] at ha
      exact hids (hknown a ha)
    | some draft =>
      rw [hdraft] at ha
      rcases List.mem_cons.mp ha with hnew | hold
      · rw [hnew]
        exact hids (List.mem_map_of_mem (f := Prod.fst) (mem_of_attempted hdraft).2)
      · exact hids (hknown a hold)

theorem ids_setError (errors : List (String × Option String)) (id text : String) :
    (errors.map (setError id text)).map (·.1) = errors.map (·.1) := by
  rw [List.map_map]
  refine List.map_congr_left fun e _ => ?_
  show (setError id text e).1 = e.1
  unfold setError
  split
  · rfl
  · rfl

/-- No deed loses a draft. -/
theorem ids_next (s : ApplyRecord) (deed : Deed) :
    s.world.db.draftErrors.map (·.1) ⊆ (s.next deed).world.db.draftErrors.map (·.1) := by
  have hsaved : ∀ after, DraftSaved s.world after →
      s.world.db.draftErrors.map (·.1) ⊆ after.db.draftErrors.map (·.1) := by
    intro after hsaved
    rcases hsaved with hsame | ⟨id, -, happend⟩
    · rw [hsame]
      exact List.Subset.refl _
    · rw [happend, List.map_append]
      exact List.subset_append_left _ _
  have hkept : ∀ after : World, after.db.draftErrors = s.world.db.draftErrors →
      s.world.db.draftErrors.map (·.1) ⊆ after.db.draftErrors.map (·.1) := by
    intro after hsame
    rw [hsame]
    exact List.Subset.refl _
  cases deed with
  | saveDraft config os => exact hsaved _ (draftSaved_saveDraft config)
  | restoreBackup downloaded os => exact hsaved _ (draftSaved_restoreBackup downloaded)
  | apply os =>
    rw [next_apply]
    rcases draftErrors_api_apply s.world os with ⟨draft, text, -, hmarked⟩ | ⟨-, hsame⟩
    · rw [hmarked, ids_setError]
      exact List.Subset.refl _
    · exact hkept _ hsame
  | rollback revisionId os => exact hkept _ (draftErrors_api_rollback revisionId)
  | commandApply os =>
    rw [next_commandApply]
    exact hkept _ draftErrors_command_apply
  | commandRollback revisionId os => exact hkept _ (draftErrors_command_rollback revisionId)
  | restart os => exact hkept _ draftErrors_restart

theorem known_next {deed : Deed} (hknown : s.Known) : (s.next deed).Known := by
  refine known_of_subset hknown (ids_next s deed) ?_
  cases deed with
  | apply os => exact Or.inr ⟨os, _, rfl⟩
  | commandApply os => exact Or.inr ⟨os, _, rfl⟩
  | _ => exact Or.inl rfl

end ApplyRecord

/-- **Runs that keep the errors true.**  From an empty table, while no draft with an error is applied, and
every attempt at one without an error succeeds or is the handler's and is marked, a draft has an error
exactly when the last attempt to apply it failed. -/
theorem told_of_reaches {start s : ApplyRecord} (hempty : start.world.db.revisions = [])
    (huntried : start.attempts = [])
    (h : Reaches ApplyRecord.step ApplyRecord.KeepsErrors start s) : s.Told := by
  have hstart : start.Told ∧ start.Known := by
    constructor
    · intro r hr
      rw [hempty] at hr
      cases hr
    · intro a ha
      rw [huntried] at ha
      cases ha
  have hstep : ∀ s deed s', ApplyRecord.KeepsErrors s deed → s.Told ∧ s.Known →
      ApplyRecord.step s deed = some s' → s'.Told ∧ s'.Known := by
    intro s deed s' hkeeps hinv hnext
    rw [← Option.some.inj hnext]
    exact ⟨(ApplyRecord.told_next_iff hinv.1 hinv.2).mpr hkeeps, ApplyRecord.known_next hinv.2⟩
  exact (@Reaches.invariant _ _ _ _ (fun s : ApplyRecord => s.Told ∧ s.Known) _ _ hstart hstep h).1

/-- An empty database, and no attempt. -/
def untried : ApplyRecord := ⟨freshHistory.world, []⟩

/-- The batch of an apply is refused. -/
def applyingRefused : Deed :=
  .apply fun _ => { smooth "refused" 2 with failing := some (.nftApply .permission) }

theorem told_of_applied_draft :
    untried.world.db.revisions = [] ∧ ((untried.next savingWeb).next applyingWeb).Told := by
  have happlies : ApplyRecord.KeepsErrors (untried.next savingWeb) applyingWeb := by
    intro draft hdraft
    have hsucceeds : (Api.apply.run World.performEach (fun _ => smooth "active" 2)
        (untried.next savingWeb).world).1.isError = false := by decide
    have hnone : (untried.next savingWeb).world.db.draftErrors = [("draft", none)] := by decide
    have herror := (ApplyRecord.mem_of_attempted hdraft).2
    rw [hnone, List.mem_singleton] at herror
    have hclean : draft.applyError = none := congrArg Prod.snd herror
    constructor
    · intro hsome
      rw [hclean] at hsome
      cases hsome
    · intro _
      exact Or.inl ((api_apply_failed_iff hdraft).mp hsucceeds)
  have hsave : ApplyRecord.KeepsErrors untried savingWeb := trivial
  have hsaved : Reaches ApplyRecord.step ApplyRecord.KeepsErrors untried (untried.next savingWeb) :=
    .step .start hsave rfl
  exact ⟨rfl, told_of_reaches rfl rfl (hsaved.step happlies rfl)⟩

/-- **A success does not clear the error** of the attempt before. -/
theorem error_outlives_success :
    ¬ (((untried.next savingWeb).next applyingRefused).next applyingWeb).Told := by
  intro htold
  have htells := ApplyRecord.told_iff.mp htold
  have hkept : ("draft", some "nftables permission denied; Portalis needs root or CAP_NET_ADMIN") ∈
      (((untried.next savingWeb).next applyingRefused).next applyingWeb).world.db.draftErrors := by decide
  have hlast : lastFailed
      (((untried.next savingWeb).next applyingRefused).next applyingWeb).attempts "draft" = false := by
    decide
  have hsome := (htells _ hkept).trans hlast
  cases hsome

end Portalis
