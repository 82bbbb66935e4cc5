import Portalis.Handlers

/-!
# Compensation

One apply or rollback run alone, from a world where the kernel forwards as the newest active revision
says.  The run meets one outcome: at most one of its steps fails from outside.

* `run_activate`: from `nft.apply` on, an operation that reports an error has changed nothing, has
  written the previous configuration back, or has in addition left a row without its audit entry.
* `unchanged_on_error_iff`: exactly when an operation that reports an error has changed nothing that
  matters.
-/

namespace Portalis

open Programs

/-! ### The answers of an operation -/

/-- The audit entry of `mark_active` is the step that fails. -/
def Outcome.FailsAudit (o : Outcome) : Prop := o.failing = some (.write .audit)

theorem Outcome.FailsAudit.ne {o : Outcome} (h : o.FailsAudit) {fault : Fault}
    (hother : fault ≠ .write .audit) : o.failing ≠ some fault :=
  fun hfailing => hother (Option.some.inj (h.symm.trans hfailing)).symm

/-- The newest active revision as it is, and the table up to its counters. -/
def World.standing (w : World) : View := ⟨w.db.activeRevision, w.kernel.map Table.erase⟩

theorem World.inStep_standing (w : World) : w.standing.InStep ↔ w.InStep :=
  inStep_erase w.db.activeConfig w.kernel

/-- Run alone, on a world that has the rows of `start` still, the program answers with or without an
error, and what stands, stands. -/
def Ends {α : Type} (isError : α → Bool) (start : World) (b : Bool) (p : Operation α) : Prop :=
  ∀ o w, start.db.revisions ⊆ w.db.revisions →
    isError (p.run World.perform o w).1 = b ∧ (p.run World.perform o w).2.standing = w.standing

theorem Ends.ret {α : Type} {isError : α → Bool} {start : World} {b : Bool} {a : α}
    (h : isError a = b) : Ends isError start b (.ret a) :=
  fun _ _ _ => ⟨h, rfl⟩

/-- The four continuations of `activate`, on worlds that have the rows of `start`. -/
structure Answers {α : Type} (isError : α → Bool) (start : World)
    (refused : NftError → Operation α) (unforwarded : String → Operation α)
    (unsaved : String → String → Operation α) (done : Revision → ApplyReceipt → Operation α) :
    Prop where
  refused : ∀ error, Ends isError start true (refused error)
  unforwarded : ∀ message, Ends isError start true (unforwarded message)
  unsaved : ∀ error rollback, Ends isError start true (unsaved error rollback)
  done : ∀ active receipt, Ends isError start false (done active receipt)

/-- Continuations that answer at once. -/
theorem Answers.of_ret {α : Type} {isError : α → Bool} {start : World} {refused : NftError → α}
    {unforwarded : String → α} {unsaved : String → String → α} {done : Revision → ApplyReceipt → α}
    (hrefused : ∀ error, isError (refused error) = true)
    (hunforwarded : ∀ message, isError (unforwarded message) = true)
    (hunsaved : ∀ error rollback, isError (unsaved error rollback) = true)
    (hdone : ∀ active receipt, isError (done active receipt) = false) :
    Answers isError start (fun error => .ret (refused error))
      (fun message => .ret (unforwarded message))
      (fun error rollback => .ret (unsaved error rollback))
      (fun active receipt => .ret (done active receipt)) where
  refused error := Ends.ret (hrefused error)
  unforwarded message := Ends.ret (hunforwarded message)
  unsaved error rollback := Ends.ret (hunsaved error rollback)
  done active receipt := Ends.ret (hdone active receipt)

/-! ### From `nft.apply` to `mark_active` -/

section

variable {α : Type} {isError : α → Bool} {config previous : Config} {refused : NftError → Operation α}
  {unforwarded : String → Operation α} {unsaved : String → String → Operation α}
  {done : Revision → ApplyReceipt → Operation α} {o : Outcome} {w : World} {before : Table}

/-- The compensation writes the previous configuration back. -/
theorem run_compensate {next : String → Operation α} (hprevious : compile previous = .ok before)
    (hcompensates : ∀ error, o.failing ≠ some (.nftRollback error)) (w : World) :
    (compensate previous next).run World.perform o w =
      (next "").run World.perform o { w with kernel := some before } :=
  Program.run_call (World.perform_nftRollback_of hprevious hcompensates) _

/-- **What an activation that reports an error leaves.** -/
theorem run_activate (hanswers : Answers isError w refused unforwarded unsaved done)
    (hprevious : compile previous = .ok before)
    (hcompensates : ∀ error, o.failing ≠ some (.nftRollback error))
    (herror : isError ((activate config previous refused unforwarded unsaved done).run
      World.perform o w).1 = true) :
    ((activate config previous refused unforwarded unsaved done).run World.perform o w).2.standing =
        w.standing ∨
      ((activate config previous refused unforwarded unsaved done).run World.perform o w).2.standing =
        ⟨w.db.activeRevision, some before.erase⟩ ∨
      ∃ h t, o.FailsAudit ∧ compile config = .ok t ∧
        ((activate config previous refused unforwarded unsaved done).run
            World.perform o w).2.standing =
          ⟨(w.db.append (Database.activeRow config o.now) h).activeRevision, some before.erase⟩ := by
  revert herror
  unfold activate
  rcases w.perform_nftApply config o with ⟨error, happly⟩ | ⟨t, receipt, hcompile, happly⟩
  · rw [Program.run_call happly]
    exact fun _ => Or.inl (hanswers.refused error o w fun _ h => h).2
  rw [Program.run_call happly]
  obtain ⟨answer, sysctl, hforward⟩ :=
    ({ w with kernel := some t } : World).perform_ensureForwarding config o
  dsimp only
  rw [Program.run_call hforward]
  cases answer with
  | error error =>
    dsimp only
    rw [run_compensate hprevious hcompensates]
    exact fun _ => Or.inr (Or.inl (hanswers.unforwarded _ o
      { w with kernel := some before, sysctl := sysctl } fun _ h => h).2)
  | ok _ =>
    dsimp only
    rcases ({ w with kernel := some t, sysctl := sysctl } : World).perform_markActive config o with
      ⟨error, hmark⟩ | ⟨error, h, haudit, hmark⟩ | ⟨h, log, hmark⟩
    · rw [Program.run_call hmark]
      dsimp only
      rw [run_compensate hprevious hcompensates]
      exact fun _ => Or.inr (Or.inl (hanswers.unsaved _ _ o
        { w with kernel := some before, sysctl := sysctl } fun _ h => h).2)
    · -- the row is there, and the table goes back
      rw [Program.run_call hmark]
      dsimp only
      rw [run_compensate hprevious hcompensates]
      exact fun _ => Or.inr (Or.inr ⟨h, t, haudit, hcompile,
        (hanswers.unsaved _ _ o _ (List.subset_append_left _ _)).2⟩)
    · rw [Program.run_call hmark]
      intro herror
      rw [(hanswers.done _ _ o _ (List.subset_append_left _ _)).1] at herror
      cases herror

/-- **An activation whose audit entry fails**: the row stays, and the kernel goes back. -/
theorem run_activate_of_audit (hanswers : Answers isError w refused unforwarded unsaved done)
    {t : Table} (hcompile : compile config = .ok t) (hprevious : compile previous = .ok before)
    (haudit : o.FailsAudit) (h : o.now.id ∉ w.db.revisions.map (·.id)) :
    isError ((activate config previous refused unforwarded unsaved done).run
        World.perform o w).1 = true ∧
      ((activate config previous refused unforwarded unsaved done).run World.perform o w).2.standing =
        ⟨(w.db.append (Database.activeRow config o.now) h).activeRevision, some before.erase⟩ := by
  have hcompensates : ∀ error, o.failing ≠ some (.nftRollback error) :=
    fun _ => haudit.ne (by simp)
  obtain ⟨sysctl, hsysctl⟩ := w.sysctl.ensureForwarding_none config
  have hforward : ({ w with kernel := some t } : World).perform (.ensureForwarding config) o =
      (.ok (), { w with kernel := some t, sysctl := sysctl }) := by
    rw [World.perform, Outcome.sysctlStep, haudit]
    simp only [hsysctl]
    rfl
  have hmark : ({ w with kernel := some t, sysctl := sysctl } : World).perform
      (.markActive config) o = (.error o.cause, { w with
        db := w.db.append (Database.activeRow config o.now) h, kernel := some t
        sysctl := sysctl }) := by
    rw [World.perform, Outcome.dbStep, haudit]
    simp only [Database.markActive_of_audit h]
    rfl
  have happly : w.perform (.nftApply config) o = (.ok _, { w with kernel := some t }) :=
    World.perform_nftApply_of hcompile fun _ => haudit.ne (by simp)
  unfold activate
  rw [Program.run_call happly, Program.run_call hforward, Program.run_call hmark,
    run_compensate hprevious hcompensates]
  exact hanswers.unsaved _ _ o _ (List.subset_append_left _ _)

end

/-! ### From the request to `nft.apply` -/

/-- The run of `p` is the run of an activation of `config`. -/
def Activates {α : Type} (isError : α → Bool) (p : Operation α) (o : Outcome) (w : World)
    (config : Config) : Prop :=
  ∃ refused unforwarded unsaved done, Answers isError w refused unforwarded unsaved done ∧
    p.run World.perform o w = (activate config (w.db.activeConfig.getD .default) refused unforwarded
      unsaved done).run World.perform o w

/-- An operation that activates a configuration or leaves the world as it is.  When no step fails before
the audit entry, it activates the configuration that `attempts` names, if there is one. -/
structure Attempting {α : Type} (isError : α → Bool) (p : Operation α)
    (attempts : World → Config → Prop) : Prop where
  cases : ∀ o w,
    ((p.run World.perform o w).2 = w ∧ (o.FailsAudit → ∀ config, ¬ attempts w config)) ∨
      ∃ config, Activates isError p o w config ∧ (o.FailsAudit → attempts w config)
  unique : ∀ {w config config'}, attempts w config → attempts w config' → config = config'

/-- What an operation that reports an error must leave: the newest active revision from before, and the
kernel in step with it. -/
def Unchanged (before after : World) : Prop :=
  after.db.activeRevision = before.db.activeRevision ∧ after.InStep

/-- **When an error report means that nothing changed**, for every operation that attempts. -/
theorem Attempting.unchanged_iff {α : Type} {isError : α → Bool} {p : Operation α}
    {attempts : World → Config → Prop} (hp : Attempting isError p attempts) {w : World}
    (hstep : w.InStep) {o : Outcome} (hcompensates : ∀ error, o.failing ≠ some (.nftRollback error)) :
    (isError (p.run World.perform o w).1 = true → Unchanged w (p.run World.perform o w).2) ↔
      ¬ (o.FailsAudit ∧ (∃ config t, attempts w config ∧ compile config = .ok t) ∧
        o.now.id ∉ w.db.revisions.map (·.id) ∧ w.db.Later o.now.createdAt) := by
  obtain ⟨before, hprevious⟩ := hstep.exists_compile
  have hback : ∀ {after : World}, after.standing = ⟨w.db.activeRevision, some before.erase⟩ →
      Unchanged w after := by
    intro after hstands
    refine ⟨congrArg View.newest hstands, (World.inStep_standing after).mp ?_⟩
    rw [hstands]
    exact (inStep_erase w.db.activeConfig (some before)).mpr (inStep_of_compile hprevious)
  constructor
  · rintro h ⟨haudit, ⟨config, t, hattempts, hcompile⟩, hid, hlater⟩
    obtain ⟨config', ⟨refused, unforwarded, unsaved, done, hanswers, hrun⟩, hatt⟩ :=
      (hp.cases o w).resolve_left fun hsame => hsame.2 haudit config hattempts
    cases hp.unique hattempts (hatt haudit)
    rw [hrun] at h
    obtain ⟨herror, hstands⟩ := run_activate_of_audit hanswers hcompile hprevious haudit hid
    have hnewest := (congrArg View.newest hstands).symm.trans (h herror).1
    -- the new row is the newest one, and it was not there before
    rw [Database.activeRevision_append_of_later hid hlater] at hnewest
    have hrow := (Database.kind_of_latestRevision hnewest.symm).1
    exact hid (List.mem_map_of_mem hrow)
  · intro hnot herror
    rcases hp.cases o w with
      ⟨hsame, -⟩ | ⟨config, ⟨refused, unforwarded, unsaved, done, hanswers, hrun⟩, hatt⟩
    · rw [hsame]
      exact ⟨rfl, hstep⟩
    · rw [hrun] at herror ⊢
      rcases run_activate hanswers hprevious hcompensates herror with
        hstands | hstands | ⟨hid, t, haudit, hcompile, hstands⟩
      · exact ⟨congrArg View.newest hstands,
          (World.inStep_standing _).mp (hstands ▸ (World.inStep_standing w).mpr hstep)⟩
      · exact hback hstands
      · have hlater : ¬ w.db.Later o.now.createdAt := fun hlater =>
          hnot ⟨haudit, ⟨config, t, hatt haudit, hcompile⟩, hid, hlater⟩
        rw [Database.activeRevision_append_of_not_later hid hlater] at hstands
        exact hback hstands

/-! ### The four operations -/

/-- The test of the reuse path: the configuration is the active one and its table is in place. -/
def World.HasInPlace (w : World) (config : Config) : Prop :=
  w.db.activeConfig.getD .default = config ∧ (nftStatus "" w.kernel config).tablePresent = true ∧
    (nftStatus "" w.kernel config).drifted = false

/-- The newest draft is valid, and its rules are not in place already. -/
def World.AppliesDraft (w : World) (config : Config) : Prop :=
  ∃ draft, w.db.draftConfig = some draft ∧ draft.config = config ∧
    config.validate w.validationContext = .ok () ∧ ¬ w.HasInPlace config

def World.RollsBack (revisionId : String) (w : World) (config : Config) : Prop :=
  ∃ revision, w.db.revision revisionId = some revision ∧ revision.config = config

def World.RollsBackValid (revisionId : String) (w : World) (config : Config) : Prop :=
  w.RollsBack revisionId config ∧ config.validate w.validationContext = .ok ()

section

variable {α : Type} {config : Config} {reuse fresh : Operation α} {o : Outcome} {w : World}

theorem nftStatus_now (now : String) (table : Option Table) (config : Config) :
    (nftStatus now table config).tablePresent = (nftStatus "" table config).tablePresent ∧
      (nftStatus now table config).drifted = (nftStatus "" table config).drifted := by
  cases table <;> exact ⟨rfl, rfl⟩

/-- Leaving the kernel alone is the reuse path; with a status that was read, it means that the rules are
in place. -/
theorem run_unlessInPlace :
    ((unlessInPlace config (w.db.activeConfig.getD .default) reuse fresh).run World.perform o w =
        reuse.run World.perform o w ∧ w.HasInPlace config) ∨
      ((unlessInPlace config (w.db.activeConfig.getD .default) reuse fresh).run World.perform o w =
        fresh.run World.perform o w ∧
          ((∃ error, o.failing = some (.nftStatus error)) ∨ ¬ w.HasInPlace config)) := by
  unfold unlessInPlace
  by_cases heq : w.db.activeConfig.getD .default = config
  · rw [if_pos heq]
    rcases w.perform_nftStatus config o with ⟨error, hfailing, hstatus⟩ | hstatus
    · exact Or.inr ⟨Program.run_call hstatus _, Or.inl ⟨error, hfailing⟩⟩
    · obtain ⟨hpresent, hdrifted⟩ := nftStatus_now o.observedAt w.kernel config
      rw [Program.run_call hstatus]
      dsimp only
      rw [hpresent, hdrifted]
      by_cases hplace : (nftStatus "" w.kernel config).tablePresent = true ∧
          (nftStatus "" w.kernel config).drifted = false
      · exact Or.inl ⟨by rw [if_pos (by simpa using hplace)], heq, hplace⟩
      · exact Or.inr ⟨by rw [if_neg (by simpa using hplace)], Or.inr fun h => hplace h.2⟩
  · exact Or.inr ⟨by rw [if_neg heq], Or.inr fun h => heq h.1⟩

end

/-- The newest draft is attempted, by whatever writes the kernel. -/
theorem applyNewest_attempting {α : Type} {isError : α → Bool} {failed : String → α} {noDraft : α}
    {invalid : Revision → List ValidationError → α} {reuse : Operation α}
    {fresh : Revision → Config → Operation α}
    (hreuse : ∀ o w, (reuse.run World.perform o w).2 = w)
    (hfresh : ∀ draft o w, w.db.draftConfig = some draft →
      (((fresh draft (w.db.activeConfig.getD .default)).run World.perform o w).2 = w ∧
          ¬ o.FailsAudit) ∨
        Activates isError (fresh draft (w.db.activeConfig.getD .default)) o w draft.config) :
    Attempting isError (applyNewest failed noDraft invalid reuse fresh) World.AppliesDraft where
  cases o w := by
    unfold applyNewest Activates
    rcases w.perform_draftConfig o with ⟨e, hfailing, hdraft⟩ | hdraft
    · rw [Program.run_call hdraft]
      exact Or.inl ⟨rfl, fun haudit => absurd hfailing (haudit.ne (by simp))⟩
    rw [Program.run_call hdraft]
    cases hlatest : w.db.draftConfig with
    | none => exact Or.inl ⟨rfl, by simp [World.AppliesDraft, hlatest]⟩
    | some draft =>
      dsimp only
      rw [Program.run_call (w.perform_validationContext o)]
      cases hvalid : draft.config.validate w.validationContext with
      | error errors =>
        refine Or.inl ⟨rfl, ?_⟩
        rintro - config ⟨draft', hlatest', rfl, hvalid', -⟩
        cases hlatest.symm.trans hlatest'
        rw [hvalid] at hvalid'
        cases hvalid'
      | ok valid =>
        dsimp only
        rcases w.perform_activeConfig o with ⟨e, hfailing, hprevious⟩ | hprevious
        · rw [Program.run_call hprevious]
          exact Or.inl ⟨rfl, fun haudit => absurd hfailing (haudit.ne (by simp))⟩
        rw [Program.run_call hprevious]
        dsimp only
        rcases @run_unlessInPlace _ draft.config reuse
          (fresh draft (w.db.activeConfig.getD .default)) o w with ⟨hrun, hplace⟩ | ⟨hrun, hnot⟩
        · rw [hrun]
          refine Or.inl ⟨hreuse o w, ?_⟩
          rintro - config ⟨draft', hlatest', rfl, -, hnot⟩
          cases hlatest.symm.trans hlatest'
          exact hnot hplace
        · rw [hrun]
          rcases hfresh draft o w hlatest with ⟨hsame, hno⟩ | hactivates
          · exact Or.inl ⟨hsame, fun haudit => absurd haudit hno⟩
          · refine Or.inr ⟨draft.config, hactivates, fun haudit => ⟨draft, hlatest, rfl, hvalid, ?_⟩⟩
            exact hnot.resolve_left fun ⟨_, hfailing⟩ => haudit.ne (by simp) hfailing
  unique := by
    rintro w config config' ⟨draft, hlatest, rfl, -⟩ ⟨draft', hlatest', rfl, -⟩
    cases hlatest.symm.trans hlatest'
    rfl

namespace Api

/-- An error on the draft is none on an active revision. -/
theorem ends_failApply {w : World} {draft : Revision} (h : w.db.draftConfig = some draft)
    (message : String) : Ends Response.isError w true (failApply draft message) := by
  intro o w' hrows
  obtain ⟨hmem, hkind⟩ := Database.kind_of_latestRevision h
  exact ⟨rfl, congrArg (fun newest => (⟨newest, w'.kernel.map Table.erase⟩ : View))
    (Database.activeRevision_markApplyError (hrows hmem) hkind message o.now o.dbStep)⟩

theorem activateDraft_answers {w : World} {draft : Revision} (h : w.db.draftConfig = some draft) :
    Answers Response.isError w
      (fun error => failApply draft error.text) (fun message => failApply draft message)
      (fun error rollback =>
        .ret (.internal ("could not persist active revision: " ++ error ++ rollback)))
      (fun active receipt =>
        .call (.exportConfig draft.config) fun _ => .ret (.applied active receipt)) where
  refused error := ends_failApply h error.text
  unforwarded message := ends_failApply h message
  unsaved _ _ := Ends.ret rfl
  done _ _ o w' _ := by
    rcases w'.perform_exportConfig draft.config o with ⟨answer, exported, hexport⟩
    rw [Program.run_call hexport]
    exact ⟨rfl, rfl⟩

theorem applyFresh_cases (draft : Revision) (o : Outcome) (w : World)
    (h : w.db.draftConfig = some draft) :
    (((applyFresh draft (w.db.activeConfig.getD .default)).run World.perform o w).2 = w ∧
        ¬ o.FailsAudit) ∨
      Activates Response.isError (applyFresh draft (w.db.activeConfig.getD .default)) o w
        draft.config := by
  unfold applyFresh Activates
  rcases w.perform_createSnapshotDir o with ⟨e, hfailing, hdir⟩ | hdir
  · rw [Program.run_call hdir]
    exact Or.inl ⟨rfl, fun haudit => haudit.ne (by simp) hfailing⟩
  rw [Program.run_call hdir]
  dsimp only
  rcases w.perform_tableSnapshot o with ⟨e, hfailing, hsnapshot⟩ | hsnapshot
  · rw [Program.run_call hsnapshot]
    exact Or.inl ⟨rfl, fun haudit => haudit.ne (by simp) hfailing⟩
  rw [Program.run_call hsnapshot]
  dsimp only
  rcases w.perform_writeSnapshot o with ⟨e, hfailing, hwrite⟩ | hwrite
  · rw [Program.run_call hwrite]
    exact Or.inl ⟨rfl, fun haudit => haudit.ne (by simp) hfailing⟩
  rw [Program.run_call hwrite]
  exact Or.inr ⟨_, _, _, _, activateDraft_answers h, rfl⟩

theorem apply_attempting : Attempting Response.isError apply World.AppliesDraft := by
  refine applyNewest_attempting (fun o w => ?_) applyFresh_cases
  rcases w.perform_activeRevision o with ⟨e, -, hactive⟩ | hactive
  · rw [Program.run_call hactive]
    rfl
  · rw [Program.run_call hactive]
    rfl

theorem rollback_attempting (revisionId : String) :
    Attempting Response.isError (rollback revisionId) (World.RollsBackValid revisionId) where
  cases o w := by
    unfold rollback Activates
    rcases w.perform_revision revisionId o with ⟨e, hfailing, hrevision⟩ | hrevision
    · rw [Program.run_call hrevision]
      exact Or.inl ⟨rfl, fun haudit => absurd hfailing (haudit.ne (by simp))⟩
    rw [Program.run_call hrevision]
    cases hfound : w.db.revision revisionId with
    | none => exact Or.inl ⟨rfl, by simp [World.RollsBackValid, World.RollsBack, hfound]⟩
    | some revision =>
      dsimp only
      rw [Program.run_call (w.perform_validationContext o)]
      cases hvalid : revision.config.validate w.validationContext with
      | error errors =>
        refine Or.inl ⟨rfl, ?_⟩
        rintro - config ⟨⟨revision', hfound', rfl⟩, hvalid'⟩
        cases hfound.symm.trans hfound'
        rw [hvalid] at hvalid'
        cases hvalid'
      | ok valid =>
        dsimp only
        rcases w.perform_activeConfig o with ⟨e, hfailing, hprevious⟩ | hprevious
        · rw [Program.run_call hprevious]
          exact Or.inl ⟨rfl, fun haudit => absurd hfailing (haudit.ne (by simp))⟩
        rw [Program.run_call hprevious]
        exact Or.inr ⟨revision.config, ⟨_, _, _, _, Answers.of_ret (fun _ => rfl) (fun _ => rfl)
          (fun _ _ => rfl) fun _ _ => rfl, rfl⟩, fun _ => ⟨⟨revision, hfound, rfl⟩, hvalid⟩⟩
  unique := by
    rintro w config config' ⟨⟨revision, hfound, rfl⟩, -⟩ ⟨⟨revision', hfound', rfl⟩, -⟩
    cases hfound.symm.trans hfound'
    rfl

end Api

namespace Service

def failed : Except CommandError String → Bool
  | .error _ => true
  | .ok _ => false

theorem activateDraft_activates (draft : Revision) (o : Outcome) (w : World) :
    Activates failed (activateDraft draft (w.db.activeConfig.getD .default)) o w draft.config :=
  ⟨_, _, _, _, Answers.of_ret (fun _ => rfl) (fun _ => rfl) (fun _ _ => rfl) fun _ _ => rfl, rfl⟩

theorem applyDraft_attempting : Attempting failed applyDraft World.AppliesDraft := by
  refine applyNewest_attempting (fun _ _ => rfl) fun draft o w _ => ?_
  unfold applyFresh Activates
  rcases w.perform_tableSnapshot o with ⟨e, -, hsnapshot⟩ | hsnapshot
  · rw [Program.run_call hsnapshot]
    exact Or.inr (activateDraft_activates draft o w)
  rw [Program.run_call hsnapshot]
  dsimp only
  rcases w.perform_writeSnapshot o with ⟨e, hfailing, hwrite⟩ | hwrite
  · rw [Program.run_call hwrite]
    exact Or.inl ⟨rfl, fun haudit => absurd hfailing (haudit.ne (by simp))⟩
  rw [Program.run_call hwrite]
  exact Or.inr (activateDraft_activates draft o w)

theorem rollback_attempting (revisionId : String) :
    Attempting failed (rollback revisionId) (World.RollsBack revisionId) where
  cases o w := by
    unfold rollback Activates
    rcases w.perform_revision revisionId o with ⟨e, hfailing, hrevision⟩ | hrevision
    · rw [Program.run_call hrevision]
      exact Or.inl ⟨rfl, fun haudit => absurd hfailing (haudit.ne (by simp))⟩
    rw [Program.run_call hrevision]
    cases hfound : w.db.revision revisionId with
    | none => exact Or.inl ⟨rfl, by simp [World.RollsBack, hfound]⟩
    | some revision =>
      dsimp only
      rcases w.perform_activeConfig o with ⟨e, hfailing, hprevious⟩ | hprevious
      · rw [Program.run_call hprevious]
        exact Or.inl ⟨rfl, fun haudit => absurd hfailing (haudit.ne (by simp))⟩
      rw [Program.run_call hprevious]
      exact Or.inr ⟨revision.config, ⟨_, _, _, _, Answers.of_ret (fun _ => rfl) (fun _ => rfl)
        (fun _ _ => rfl) fun _ _ => rfl, rfl⟩, fun _ => ⟨revision, hfound, rfl⟩⟩
  unique := by
    rintro w config config' ⟨revision, hfound, rfl⟩ ⟨revision', hfound', rfl⟩
    cases hfound.symm.trans hfound'
    rfl

end Service

/-! ### Any of the four -/

/-- The operations that activate a configuration. -/
inductive Activation
  | apiApply
  | apiRollback (revisionId : String)
  | commandApply
  | commandRollback (revisionId : String)

namespace Activation

/-- Whether the operation reports an error, and the world it leaves. -/
def run (o : Outcome) (w : World) : Activation → Bool × World
  | .apiApply =>
    let (response, after) := Api.apply.run World.perform o w
    (response.isError, after)
  | .apiRollback revisionId =>
    let (response, after) := (Api.rollback revisionId).run World.perform o w
    (response.isError, after)
  | .commandApply =>
    let (result, after) := Service.applyDraft.run World.perform o w
    (Service.failed result, after)
  | .commandRollback revisionId =>
    let (result, after) := (Service.rollback revisionId).run World.perform o w
    (Service.failed result, after)

/-- The configuration that the operation will activate if its calls succeed. -/
def Attempts (w : World) (config : Config) : Activation → Prop
  | .apiApply => w.AppliesDraft config
  | .apiRollback revisionId => w.RollsBackValid revisionId config
  | .commandApply => w.AppliesDraft config
  | .commandRollback revisionId => w.RollsBack revisionId config

/-- **When an error report means that nothing changed.**  The kernel forwards as the newest active
revision says, and one run meets an outcome with at most one failing step, not the compensating batch.
If the run reports an error, then the newest active revision is the one from before and the kernel
forwards as it says, unless the failing step is the audit entry of `mark_active`, the configuration gets
that far, and the row it leaves is later than the newest active revision. -/
theorem unchanged_on_error_iff (op : Activation) {w : World} (hstep : w.InStep) {o : Outcome}
    (hcompensates : ∀ error, o.failing ≠ some (.nftRollback error)) :
    ((op.run o w).1 = true → Unchanged w (op.run o w).2) ↔
      ¬ (o.FailsAudit ∧ (∃ config t, op.Attempts w config ∧ compile config = .ok t) ∧
        o.now.id ∉ w.db.revisions.map (·.id) ∧ w.db.Later o.now.createdAt) := by
  cases op with
  | apiApply => exact Api.apply_attempting.unchanged_iff hstep hcompensates
  | apiRollback revisionId =>
    exact (Api.rollback_attempting revisionId).unchanged_iff hstep hcompensates
  | commandApply => exact Service.applyDraft_attempting.unchanged_iff hstep hcompensates
  | commandRollback revisionId =>
    exact (Service.rollback_attempting revisionId).unchanged_iff hstep hcompensates

end Activation

/-- `webRule` is active and in the kernel; `movedRule` is the draft. -/
def webWorld : World where
  db :=
    let active :=
      (Database.empty.markActive ⟨1, [webRule]⟩ (.at "web" (Database.noonAnd 1)) none).2
    (active.saveDraft ⟨1, [movedRule]⟩ (.at "moved" (Database.noonAnd 2)) none).2
  kernel := some (tableOf ⟨1, [webRule]⟩)
  sysctl := ⟨true, false, none⟩
  exported := none
  sshdConfig := ""

theorem webWorld_inStep : webWorld.InStep := by
  rw [World.InStep, show webWorld.db.activeConfig = some ⟨1, [webRule]⟩ from by decide]
  exact ⟨tableOf ⟨1, [webRule]⟩, rfl, rfl⟩

/-- What a call of `webWorld` meets three seconds after noon. -/
def atThree (failing : Option Fault) : Outcome where
  failing := failing
  cause := "disk I/O error"
  now := .at "third" (Database.noonAnd 3)
  observedAt := ""

theorem Activation.unchanged_when_commit_fails :
    (Activation.apiApply.run (atThree (some (.write .commit))) webWorld).1 = true ∧
      Unchanged webWorld (Activation.apiApply.run (atThree (some (.write .commit))) webWorld).2 := by
  have herror : (Activation.apiApply.run (atThree (some (.write .commit))) webWorld).1 = true := by
    decide
  refine ⟨herror, (Activation.unchanged_on_error_iff .apiApply webWorld_inStep ?_).mpr ?_ herror⟩
  · intro error hfailing
    cases hfailing
  · rintro ⟨haudit, -⟩
    cases haudit

/-- **The audit entry fails after the commit.**  The handler reports an error and puts the table of
`webRule` back, and the newest active revision is the one of `movedRule`. -/
theorem Activation.changed_when_audit_fails :
    webWorld.InStep ∧ (Activation.apiApply.run (atThree (some (.write .audit))) webWorld).1 = true ∧
      ¬ Unchanged webWorld (Activation.apiApply.run (atThree (some (.write .audit))) webWorld).2 := by
  refine ⟨webWorld_inStep, by decide, ?_⟩
  rintro ⟨hnewest, -⟩
  exact absurd hnewest (by decide)

end Portalis
