import Portalis.Provenance

/-!
# The exported file

`config_path` is a copy of the newest active configuration, written by one of the four operations that
change it: `apply` of the API.

* `activate_leaves`: what the common part leaves of the newest active revision and of the file.
* `exported_iff`: which successful operations leave the file in step.
* `exported_of_reaches`: a run in which the others are used only for what is exported already.
* `rollback_leaves_stale_export`: a rollback, and the file of the configuration before it.
-/

namespace Portalis

open Programs Program

/-! ### The calls -/

/-- The identifier of the newest active revision. -/
def World.newestId (w : World) : Option String := w.db.activeRevision.map (·.id)

/-- The newest active revision and the exported file are those of `w`. -/
structure World.Stands (w after : World) : Prop where
  newest : after.newestId = w.newestId
  exported : after.exported = w.exported

/-- The calls that can change the newest active revision or the exported file. -/
def Call.publishes : Call → Bool
  | .markActive _ => true
  | .exportConfig _ => true
  | _ => false

section

variable {w : World} {os : Outcomes} {config : Config}

theorem newestId_of_view {after : World} (h : after.view = w.view) : after.newestId = w.newestId := by
  have hnewest : after.db.activeRevision.map Revision.withoutError =
      w.db.activeRevision.map Revision.withoutError := congrArg View.newest h
  have hid := congrArg (Option.map fun r : Revision => r.id) hnewest
  rw [Option.map_map, Option.map_map] at hid
  exact hid

theorem World.Stands.refl (w : World) : w.Stands w := ⟨rfl, rfl⟩

theorem World.Stands.trans {after last : World} (h : w.Stands after) (hlast : after.Stands last) :
    w.Stands last :=
  ⟨hlast.newest.trans h.newest, hlast.exported.trans h.exported⟩

theorem World.sendTable_stands (w : World) (config : Config) (refused : Option NftError) :
    w.Stands (w.sendTable config refused).2 := by
  rcases w.sendTable_cases config refused with ⟨error, hrun⟩ | ⟨t, receipt, -, -, hrun⟩
  · rw [hrun]
    exact .refl w
  · rw [hrun]
    exact ⟨rfl, rfl⟩

/-- The other calls keep both. -/
theorem World.performEach_stands {c : Call} (h : c.publishes = false) (w : World) (os : Outcomes) :
    w.Stands (w.performEach c os).2 := by
  have hview : c.writes = false → (w.performEach c os).2.newestId = w.newestId :=
    fun hwrites => newestId_of_view (World.view_perform hwrites w (os c))
  cases c with
  | markActive config => cases h
  | exportConfig config => cases h
  | nftApply config => exact w.sendTable_stands config _
  | nftRollback config => exact w.sendTable_stands config _
  | nftStatus config =>
    refine ⟨hview rfl, ?_⟩
    rcases w.perform_nftStatus config (os (.nftStatus config)) with ⟨error, -, hrun⟩ | hrun
    · rw [performEach, hrun]
    · rw [performEach, hrun]
  | tableSnapshot =>
    refine ⟨hview rfl, ?_⟩
    rcases w.perform_tableSnapshot (os .tableSnapshot) with ⟨error, -, hrun⟩ | hrun
    · rw [performEach, hrun]
    · rw [performEach, hrun]
  | _ => exact ⟨hview rfl, rfl⟩

/-- A call that keeps both, and what follows it. -/
theorem World.Stands.call {α : Type} {c : Call} {k : Answer c → Operation α} {post : α → World → Prop}
    (hc : c.publishes = false)
    (hrest : ∀ r, Triple World.performEach os w.Stands (k r) post) :
    Triple World.performEach os w.Stands (.call c k) post :=
  Triple.keep (fun after hafter => hafter.trans (after.performEach_stands hc os)) hrest

/-- After `mark_active`: the file stays, and when it answers a revision the newest active revision has
stayed or has the configuration. -/
def MarkedFrom (w : World) (config : Config) : Except String Revision → World → Prop
  | .error _, after => after.exported = w.exported
  | .ok _, after =>
    (after.newestId = w.newestId ∨ after.db.activeConfig = some config) ∧
      after.exported = w.exported

theorem newestId_append (db : Database) (config : Config) (now : Database.Readings)
    (h : (Database.activeRow config now).id ∉ db.revisions.map (·.id)) :
    (db.append (Database.activeRow config now) h).activeRevision = db.activeRevision ∨
      (db.append (Database.activeRow config now) h).activeConfig = some config := by
  by_cases hlater : db.Later now.createdAt
  · right
    rw [Database.activeConfig, Database.activeRevision_append_of_later h hlater]
    rfl
  · left
    exact Database.activeRevision_append_of_not_later h hlater

theorem markedFrom_performEach {after : World} (h : w.Stands after) :
    MarkedFrom w config (after.performEach (.markActive config) os).1
      (after.performEach (.markActive config) os).2 := by
  rw [World.performEach]
  rcases after.perform_markActive config (os (.markActive config)) with
    ⟨error, hrun⟩ | ⟨error, hnew, -, hrun⟩ | ⟨hnew, log, hrun⟩
  · rw [hrun]
    exact h.exported
  · rw [hrun]
    exact h.exported
  · rw [hrun]
    refine ⟨?_, h.exported⟩
    rcases newestId_append after.db config (os (.markActive config)).now hnew with hsame | hactive
    · left
      exact (congrArg (Option.map fun r : Revision => r.id) hsame).trans h.newest
    · exact Or.inr hactive

/-! ### The common part -/

/-- The compensation keeps what only the newest active revision and the file decide. -/
theorem compensate_leaves {α : Type} {previous : Config} {next : String → Operation α}
    {pre : World → Prop} {post : α → World → Prop}
    (hpre : ∀ before after : World, before.Stands after → pre before → pre after)
    (hnext : ∀ rollback, Triple World.performEach os pre (next rollback) post) :
    Triple World.performEach os pre (compensate previous next) post := by
  refine Triple.keep (fun before hbefore => hpre _ _ (before.performEach_stands rfl os) hbefore) ?_
  intro r
  cases r with
  | ok receipt => exact hnext _
  | error rollback => exact hnext _

/-- **What an activation leaves**, from what follows it. -/
theorem activate_leaves {α : Type} {previous : Config} {refused : NftError → Operation α}
    {unforwarded : String → Operation α} {unsaved : String → String → Operation α}
    {done : Revision → ApplyReceipt → Operation α} {post : α → World → Prop}
    (hrefused : ∀ error, Triple World.performEach os w.Stands (refused error) post)
    (hunforwarded : ∀ message, Triple World.performEach os w.Stands (unforwarded message) post)
    (hunsaved : ∀ error rollback, Triple World.performEach os
      (fun after => after.exported = w.exported) (unsaved error rollback) post)
    (hdone : ∀ active receipt, Triple World.performEach os (MarkedFrom w config (.ok active))
      (done active receipt) post) :
    Triple World.performEach os w.Stands
      (activate config previous refused unforwarded unsaved done) post := by
  refine World.Stands.call rfl fun r => ?_
  cases r with
  | error error => exact hrefused error
  | ok receipt =>
    refine World.Stands.call rfl fun r => ?_
    cases r with
    | error error =>
      exact compensate_leaves (fun _ _ hstands hbefore => hbefore.trans hstands)
        fun rollback => hunforwarded _
    | ok _ =>
      refine Triple.call (MarkedFrom w config) (fun after hafter => markedFrom_performEach hafter)
        fun r => ?_
      cases r with
      | error error =>
        exact compensate_leaves (fun _ _ hstands hbefore => hstands.exported.trans hbefore)
          fun rollback => hunsaved _ _
      | ok active => exact hdone active receipt

/-! ### The four operations -/

/-- What an operation leaves that is about `config` and leaves `copy` in the file when it succeeds: it
fails, or activates nothing, or makes `config` the newest active configuration if its row is the newest. -/
def World.Leaves (w : World) (config : Config) (copy : Option Config) (failed : Bool)
    (after : World) : Prop :=
  (failed = true ∧ after.exported = w.exported) ∨ (failed = false ∧ w.Stands after) ∨
    (failed = false ∧ (after.newestId = w.newestId ∨ after.db.activeConfig = some config) ∧
      after.exported = copy)

theorem World.Leaves.of_error {copy : Option Config} {after : World}
    (h : after.exported = w.exported) : w.Leaves config copy true after :=
  Or.inl ⟨rfl, h⟩

/-- The file is not written again. -/
theorem World.Leaves.of_marked {active : Revision} {after : World}
    (h : MarkedFrom w config (.ok active) after) : w.Leaves config w.exported false after :=
  Or.inr (Or.inr ⟨rfl, h⟩)

/-- The reads before an apply decide. -/
theorem unlessInPlace_leaves {α : Type} {previous : Config} {reuse fresh : Operation α}
    {post : α → World → Prop} (hreuse : Triple World.performEach os w.Stands reuse post)
    (hfresh : Triple World.performEach os w.Stands fresh post) :
    Triple World.performEach os w.Stands (unlessInPlace config previous reuse fresh) post := by
  unfold unlessInPlace
  split
  · refine World.Stands.call rfl fun r => ?_
    cases r with
    | error error => exact hfresh
    | ok kernel =>
      dsimp only
      split
      · exact hreuse
      · exact hfresh
  · exact hfresh

/-- **An apply**, from its fresh path. -/
theorem applyNewest_leaves {α : Type} {isError : α → Bool} {failed : String → α} {noDraft : α}
    {invalid : Revision → List ValidationError → α} {reuse : Operation α}
    {fresh : Revision → Config → Operation α} {copy : Config → Option Config}
    (hfailed : ∀ error, isError (failed error) = true) (hnoDraft : isError noDraft = true)
    (hinvalid : ∀ draft errors, isError (invalid draft errors) = true)
    (hreuse : ∀ config, Triple World.performEach os w.Stands reuse
      fun a after => w.Leaves config (copy config) (isError a) after)
    (hfresh : ∀ draft previous, Triple World.performEach os w.Stands (fresh draft previous)
      fun a after => w.Leaves draft.config (copy draft.config) (isError a) after) :
    let (answer, after) := (applyNewest failed noDraft invalid reuse fresh).run World.performEach os w
    (isError answer = true ∧ after.exported = w.exported) ∨
      ∃ draft, w.db.draftConfig = some draft ∧
        w.Leaves draft.config (copy draft.config) (isError answer) after := by
  unfold applyNewest
  rcases w.perform_draftConfig (os .draftConfig) with ⟨error, -, hrun⟩ | hrun
  · rw [@run_call _ _ _ _ _ World.performEach os .draftConfig w _ _ hrun]
    exact Or.inl ⟨hfailed error, rfl⟩
  · rw [@run_call _ _ _ _ _ World.performEach os .draftConfig w _ _ hrun]
    cases hdraft : w.db.draftConfig with
    | none => exact Or.inl ⟨hnoDraft, rfl⟩
    | some draft =>
      refine Or.inr ⟨draft, rfl, ?_⟩
      dsimp only
      rw [w.performEach_validationContext os]
      cases draft.config.validate w.validationContext with
      | error errors => exact Or.inl ⟨hinvalid draft errors, rfl⟩
      | ok valid =>
        refine @World.Stands.call w os _ .activeConfig _
          (fun a after => w.Leaves draft.config (copy draft.config) (isError a) after) rfl (fun r => ?_) w (.refl w)
        cases r with
        | error error =>
          exact Triple.ret fun after hafter => (hfailed error).symm ▸ .of_error hafter.exported
        | ok previous => exact unlessInPlace_leaves (hreuse draft.config) (hfresh draft _)

theorem Api.failApply_leaves (draft : Revision) (message : String) (copy : Option Config) :
    Triple World.performEach os w.Stands (Api.failApply draft message)
      fun a after => w.Leaves config copy a.isError after :=
  World.Stands.call rfl fun _ => Triple.ret fun _ hafter => .of_error hafter.exported

/-- The fresh path of the API's apply writes the file. -/
theorem Api.applyFresh_leaves (hexport : ∀ config left,
      (os (.exportConfig config)).failing ≠ some (.exportConfig left))
    (draft : Revision) (previous : Config) :
    Triple World.performEach os w.Stands (Api.applyFresh draft previous)
      fun a after => w.Leaves draft.config (some draft.config) a.isError after := by
  have hrefused : ∀ error, Triple World.performEach os w.Stands (.ret (Response.internal error))
      fun a after => w.Leaves draft.config (some draft.config) a.isError after :=
    fun error => Triple.ret fun after hafter => .of_error hafter.exported
  have hexported : ∀ after : World,
      (after.performEach (.exportConfig draft.config) os).2 =
        { after with exported := some draft.config } := by
    intro after
    rw [World.performEach, World.perform]
    split
    · rename_i left hleft
      exact absurd hleft (hexport draft.config left)
    · rfl
  refine World.Stands.call rfl fun r => ?_
  cases r with
  | error error => exact hrefused error
  | ok _ =>
    refine World.Stands.call rfl fun r => ?_
    cases r with
    | error error => exact hrefused error.text
    | ok _ =>
      refine World.Stands.call rfl fun r => ?_
      cases r with
      | error error => exact hrefused error
      | ok _ =>
        refine activate_leaves (fun error => Api.failApply_leaves draft _ _)
          (fun message => Api.failApply_leaves draft _ _)
          (fun error rollback => Triple.ret fun after hafter => .of_error hafter) ?_
        intro active receipt after hafter
        show w.Leaves draft.config (some draft.config) false
          (after.performEach (.exportConfig draft.config) os).2
        rw [hexported after]
        exact Or.inr (Or.inr ⟨rfl, hafter.1, rfl⟩)

theorem Api.apply_leaves (hexport : ∀ config left,
      (os (.exportConfig config)).failing ≠ some (.exportConfig left)) :
    let (answer, after) := Api.apply.run World.performEach os w
    (answer.isError = true ∧ after.exported = w.exported) ∨
      ∃ draft, w.db.draftConfig = some draft ∧
        w.Leaves draft.config (some draft.config) answer.isError after := by
  refine @applyNewest_leaves w os _ Response.isError .internal _ _ _ _ some (fun _ => rfl) rfl
    (fun _ _ => rfl) ?_ (Api.applyFresh_leaves hexport)
  intro config
  refine World.Stands.call rfl fun r => ?_
  cases r with
  | error error => exact Triple.ret fun after hafter => .of_error hafter.exported
  | ok active => exact Triple.ret fun after hafter => Or.inr (Or.inl ⟨rfl, hafter⟩)

/-- The fresh path of the command leaves the file. -/
theorem Service.applyFresh_leaves (draft : Revision) (previous : Config) :
    Triple World.performEach os w.Stands (Service.applyFresh draft previous)
      fun a after => w.Leaves draft.config w.exported (Service.failed a) after := by
  have hactivates : Triple World.performEach os w.Stands (Service.activateDraft draft previous)
      fun a after => w.Leaves draft.config w.exported (Service.failed a) after :=
    activate_leaves (fun error => Triple.ret fun after hafter => .of_error hafter.exported)
      (fun message => Triple.ret fun after hafter => .of_error hafter.exported)
      (fun error rollback => Triple.ret fun after hafter => .of_error hafter)
      (fun active receipt => Triple.ret fun after hafter => .of_marked hafter)
  refine World.Stands.call rfl fun r => ?_
  cases r with
  | error error => exact hactivates
  | ok _ =>
    refine World.Stands.call rfl fun r => ?_
    cases r with
    | error error => exact Triple.ret fun after hafter => .of_error hafter.exported
    | ok _ => exact hactivates

theorem Service.applyDraft_leaves :
    let (answer, after) := Service.applyDraft.run World.performEach os w
    (Service.failed answer = true ∧ after.exported = w.exported) ∨
      ∃ draft, w.db.draftConfig = some draft ∧
        w.Leaves draft.config w.exported (Service.failed answer) after :=
  @applyNewest_leaves w os _ Service.failed _ _ _ _ _ (fun _ => w.exported) (fun _ => rfl) rfl
    (fun _ _ => rfl) (fun _ => Triple.ret fun _ hafter => Or.inr (Or.inl ⟨rfl, hafter⟩))
    Service.applyFresh_leaves

theorem Api.rollback_leaves (revisionId : String) :
    let (answer, after) := (Api.rollback revisionId).run World.performEach os w
    (answer.isError = true ∧ after.exported = w.exported) ∨
      ∃ revision, w.db.revision revisionId = some revision ∧
        w.Leaves revision.config w.exported answer.isError after := by
  unfold Api.rollback
  rcases w.perform_revision revisionId (os (.revision revisionId)) with ⟨error, -, hrun⟩ | hrun
  · rw [@run_call _ _ _ _ _ World.performEach os (.revision revisionId) w _ _ hrun]
    exact Or.inl ⟨rfl, rfl⟩
  · rw [@run_call _ _ _ _ _ World.performEach os (.revision revisionId) w _ _ hrun]
    cases hfound : w.db.revision revisionId with
    | none => exact Or.inl ⟨rfl, rfl⟩
    | some revision =>
      refine Or.inr ⟨revision, rfl, ?_⟩
      dsimp only
      rw [w.performEach_validationContext os]
      cases revision.config.validate w.validationContext with
      | error errors => exact Or.inl ⟨rfl, rfl⟩
      | ok valid =>
        refine @World.Stands.call w os _ .activeConfig _
          (fun (a : Response) after => w.Leaves revision.config w.exported a.isError after) rfl (fun r => ?_) w (.refl w)
        cases r with
        | error error => exact Triple.ret fun after hafter => .of_error hafter.exported
        | ok previous =>
          exact activate_leaves
            (fun error => Triple.ret fun after hafter => .of_error hafter.exported)
            (fun message => Triple.ret fun after hafter => .of_error hafter.exported)
            (fun error rollback => Triple.ret fun after hafter => .of_error hafter)
            (fun active receipt => Triple.ret fun after hafter => .of_marked hafter)

theorem Service.rollback_leaves (revisionId : String) :
    let (answer, after) := (Service.rollback revisionId).run World.performEach os w
    (Service.failed answer = true ∧ after.exported = w.exported) ∨
      ∃ revision, w.db.revision revisionId = some revision ∧
        w.Leaves revision.config w.exported (Service.failed answer) after := by
  unfold Service.rollback
  rcases w.perform_revision revisionId (os (.revision revisionId)) with ⟨error, -, hrun⟩ | hrun
  · rw [@run_call _ _ _ _ _ World.performEach os (.revision revisionId) w _ _ hrun]
    exact Or.inl ⟨rfl, rfl⟩
  · rw [@run_call _ _ _ _ _ World.performEach os (.revision revisionId) w _ _ hrun]
    cases hfound : w.db.revision revisionId with
    | none => exact Or.inl ⟨rfl, rfl⟩
    | some revision =>
      refine Or.inr ⟨revision, rfl, ?_⟩
      dsimp only
      rcases w.perform_activeConfig (os .activeConfig) with ⟨error, -, hread⟩ | hread
      · rw [show w.performEach .activeConfig os = _ from hread]
        exact .of_error rfl
      · rw [show w.performEach .activeConfig os = _ from hread]
        refine (activate_leaves ?_ ?_ ?_ ?_ : Triple World.performEach os w.Stands _ fun a after =>
          w.Leaves revision.config w.exported (Service.failed a) after) w (.refl w)
        · exact fun error => Triple.ret fun after hafter => .of_error hafter.exported
        · exact fun message => Triple.ret fun after hafter => .of_error hafter.exported
        · exact fun error rollback => Triple.ret fun after hafter => .of_error hafter
        · exact fun active receipt => Triple.ret fun after hafter => .of_marked hafter

end

/-! ### Deeds -/

namespace Deed

/-- The deed is an apply or a rollback, and it answers no error. -/
def succeeds (w : World) : Deed → Bool
  | .apply os => !(Api.apply.run World.performEach os w).1.isError
  | .rollback revisionId os => !((Api.rollback revisionId).run World.performEach os w).1.isError
  | .commandApply os => !Service.failed (Service.applyDraft.run World.performEach os w).1
  | .commandRollback revisionId os =>
    !Service.failed ((Service.rollback revisionId).run World.performEach os w).1
  | _ => false

/-- The revision that an apply or a rollback is about. -/
def named (w : World) : Deed → Option Revision
  | .apply _ => w.db.draftConfig
  | .commandApply _ => w.db.draftConfig
  | .rollback revisionId _ => w.db.revision revisionId
  | .commandRollback revisionId _ => w.db.revision revisionId
  | _ => none

/-- The write of the exported file does not fail. -/
def WritesFile : Deed → Prop
  | .apply os => ∀ config left, (os (.exportConfig config)).failing ≠ some (.exportConfig left)
  | _ => True

/-- The deed is the apply that writes the file, or is about what the file holds already. -/
def KeepsCopy (w : World) : Deed → Prop
  | .apply _ => True
  | deed => ∀ revision, deed.named w = some revision → w.exported = some revision.config

/-- What an apply or a rollback leaves in the file when it succeeds. -/
def copy (w : World) (revision : Revision) : Deed → Option Config
  | .apply _ => some revision.config
  | _ => w.exported

end Deed

section

variable {s : History} {deed : Deed}

/-- The other operations keep the newest active revision and the file. -/
theorem stands_of_only {α : Type} {p : Operation α} {os : Outcomes} {w : World}
    (h : p.Only fun c => c.publishes = false) : w.Stands (p.run World.performEach os w).2 := by
  have hnewest := @Only.run_keeps _ _ _ _ _ _ World.performEach _ os World.newestId
    (fun w c hc => (w.performEach_stands hc os).newest) _ h w
  have hexported := @Only.run_keeps _ _ _ _ _ _ World.performEach _ os World.exported
    (fun w c hc => (w.performEach_stands hc os).exported) _ h w
  exact ⟨hnewest, hexported⟩

theorem Api.saveDraft_stands (config : Config) (os : Outcomes) (w : World) :
    w.Stands ((Api.saveDraft config).run World.performEach os w).2 := by
  refine stands_of_only ⟨rfl, fun context => ?_⟩
  cases hvalid : config.validate context with
  | error errors =>
    dsimp only
    rw [hvalid]
    trivial
  | ok valid =>
    dsimp only
    rw [hvalid]
    refine ⟨rfl, fun r => ?_⟩
    cases r with
    | error error => trivial
    | ok revision => trivial

theorem Api.restoreBackup_stands (downloaded : Except String Config) (os : Outcomes) (w : World) :
    w.Stands ((Api.restoreBackup downloaded).run World.performEach os w).2 := by
  cases downloaded with
  | error error => exact .refl w
  | ok config =>
    refine stands_of_only ⟨rfl, fun context => ?_⟩
    cases hvalid : config.validate context with
    | error errors =>
      dsimp only
      rw [hvalid]
      trivial
    | ok valid =>
      dsimp only
      rw [hvalid]
      refine ⟨rfl, fun r => ?_⟩
      cases r with
      | error error => trivial
      | ok revision => trivial

theorem Runtime.openKernel_stands (os : Outcomes) (w : World) :
    w.Stands (Runtime.openKernel.run World.performEach os w).2 :=
  stands_of_only (Runtime.openKernel_only.imp fun c hc => by cases c <;> first | rfl | cases hc)

/-- **The step, spelled out.** -/
theorem next_leaves (hwrites : deed.WritesFile) :
    (deed.succeeds s.world = false ∧ (s.next deed).world.exported = s.world.exported) ∨
      (deed.succeeds s.world = true ∧ s.world.Stands (s.next deed).world) ∨
      ∃ revision, deed.named s.world = some revision ∧ deed.succeeds s.world = true ∧
        ((s.next deed).world.newestId = s.world.newestId ∨
          (s.next deed).world.db.activeConfig = some revision.config) ∧
        (s.next deed).world.exported = deed.copy s.world revision := by
  have hleft : ∀ {failed : Bool} {named : Option Revision} {copy : Revision → Option Config}
      {after : World}, ((failed = true ∧ after.exported = s.world.exported) ∨
        ∃ revision, named = some revision ∧
          s.world.Leaves revision.config (copy revision) failed after) →
      ((!failed) = false ∧ after.exported = s.world.exported) ∨
        ((!failed) = true ∧ s.world.Stands after) ∨
        ∃ revision, named = some revision ∧ (!failed) = true ∧
          (after.newestId = s.world.newestId ∨ after.db.activeConfig = some revision.config) ∧
          after.exported = copy revision := by
    intro failed named copy after h
    rcases h with ⟨rfl, hsame⟩ | ⟨revision, hnamed, ⟨rfl, hsame⟩ | ⟨rfl, hstands⟩ | ⟨rfl, hafter⟩⟩
    · exact Or.inl ⟨rfl, hsame⟩
    · exact Or.inl ⟨rfl, hsame⟩
    · exact Or.inr (Or.inl ⟨rfl, hstands⟩)
    · exact Or.inr (Or.inr ⟨revision, hnamed, rfl, hafter⟩)
  unfold History.next
  cases deed with
  | saveDraft config os => exact Or.inl ⟨rfl, (Api.saveDraft_stands config os s.world).exported⟩
  | restoreBackup downloaded os =>
    exact Or.inl ⟨rfl, (Api.restoreBackup_stands downloaded os s.world).exported⟩
  | apply os =>
    rw [History.applying_world]
    exact hleft (Api.apply_leaves hwrites)
  | rollback revisionId os => exact hleft (Api.rollback_leaves revisionId)
  | commandApply os =>
    rw [History.applying_world]
    exact hleft Service.applyDraft_leaves
  | commandRollback revisionId os => exact hleft (Service.rollback_leaves revisionId)
  | restart os => exact Or.inl ⟨rfl, (Runtime.openKernel_stands os s.world).exported⟩

/-- **Which operations leave the file in step.**  After an operation that succeeds and changes the newest
active revision, the file holds that revision's configuration iff the operation is the API's apply, or
is about what the file held before. -/
theorem exported_iff (hwrites : deed.WritesFile) (hsucceeds : deed.succeeds s.world = true)
    (hchanges : (s.next deed).world.newestId ≠ s.world.newestId) :
    ∃ config, (s.next deed).world.db.activeConfig = some config ∧
      ((s.next deed).world.exported = some config ↔ deed.KeepsCopy s.world) := by
  rcases next_leaves hwrites with ⟨hfails, -⟩ | ⟨-, hstands⟩ | ⟨revision, hnamed, -, hactive, hcopy⟩
  · rw [hsucceeds] at hfails
    cases hfails
  · exact absurd hstands.newest hchanges
  · refine ⟨revision.config, hactive.resolve_left hchanges, ?_⟩
    rw [hcopy]
    have hother : (s.world.exported = some revision.config ↔ ∀ other,
        deed.named s.world = some other → s.world.exported = some other.config) := by
      constructor
      · intro hsame other hother
        cases hnamed.symm.trans hother
        exact hsame
      · intro hall
        exact hall revision hnamed
    cases deed with
    | apply os => exact iff_of_true rfl trivial
    | saveDraft config os => exact hother
    | restoreBackup downloaded os => exact hother
    | rollback revisionId os => exact hother
    | commandApply os => exact hother
    | commandRollback revisionId os => exact hother
    | restart os => exact hother

end

/-! ### Runs -/

/-- A history, and what the file owes: the configuration of the newest active revision, since the last
successful apply or rollback changed it. -/
structure Publication where
  history : History
  owed : Option Config

namespace Publication

/-- A success that changes the newest active revision sets what is owed, another one drops it. -/
def next (s : Publication) (deed : Deed) : Publication :=
  let after := s.history.next deed
  ⟨after,
    if deed.succeeds s.history.world = true then
      if after.world.newestId = s.history.world.newestId then none else after.world.db.activeConfig
    else s.owed⟩

def step (s : Publication) (deed : Deed) : Option Publication := some (s.next deed)

/-- The write of the file succeeds, and the deed keeps the copy. -/
def Copies (s : Publication) (deed : Deed) : Prop :=
  deed.WritesFile ∧ deed.KeepsCopy s.history.world

/-- The file holds what it owes. -/
def Holds (s : Publication) : Prop :=
  ∀ config, s.owed = some config → s.history.world.exported = some config

/-- **The step lemma.** -/
theorem Holds.next {s : Publication} {deed : Deed} (h : s.Holds) (hwrites : deed.WritesFile)
    (hcopy : deed.KeepsCopy s.history.world) : (s.next deed).Holds := by
  intro config howed
  show (s.history.next deed).world.exported = some config
  replace howed : (if deed.succeeds s.history.world = true then
      if (s.history.next deed).world.newestId = s.history.world.newestId then none
      else (s.history.next deed).world.db.activeConfig
    else s.owed) = some config := howed
  by_cases hsucceeds : deed.succeeds s.history.world = true
  · rw [if_pos hsucceeds] at howed
    by_cases hsame : (s.history.next deed).world.newestId = s.history.world.newestId
    · rw [if_pos hsame] at howed
      cases howed
    · rw [if_neg hsame] at howed
      obtain ⟨active, hactive, hiff⟩ := exported_iff hwrites hsucceeds hsame
      cases hactive.symm.trans howed
      exact hiff.mpr hcopy
  · rw [if_neg hsucceeds] at howed
    rcases @next_leaves s.history deed hwrites with ⟨-, hkept⟩ | ⟨hdone, -⟩ | ⟨-, -, hdone, -⟩
    · exact hkept.trans (h config howed)
    · exact absurd hdone hsucceeds
    · exact absurd hdone hsucceeds

/-- **The file is what was last activated.**  In every run in which the writes of the file succeed and
the operations other than the API's apply are only about what the file holds already: from a successful
apply or rollback that changes the newest active revision on, until another one succeeds, the file holds
that revision's configuration. -/
theorem exported_of_reaches {start s : Publication} (hstart : start.owed = none)
    (h : Reaches Publication.step Copies start s) : s.Holds := by
  have hholds : start.Holds := by
    intro config howed
    rw [hstart] at howed
    cases howed
  exact @Reaches.invariant _ _ _ _ Holds _ _ hholds
    (fun _ _ _ hguard hkept hstep => Option.some.inj hstep ▸ hkept.next hguard.1 hguard.2) h

/-- Before the first revision. -/
def fresh : Publication := ⟨freshHistory, none⟩

/-- The draft of `webRule` is saved and applied, and the active revision is rolled back to. -/
theorem exported_after_rollback :
    (((fresh.next savingWeb).next applyingWeb).next rollingBackWeb).owed =
        some ⟨1, [webRule]⟩ ∧
      Holds (((fresh.next savingWeb).next applyingWeb).next rollingBackWeb) := by
  have happly : applyingWeb.WritesFile := fun config left hfailing => by cases hfailing
  have hback : rollingBackWeb.KeepsCopy ((fresh.next savingWeb).next applyingWeb).history.world := by
    intro revision hnamed
    have hconfig : (((fresh.next savingWeb).next applyingWeb).history.world.db.revision "active").map
      (·.config) = some ⟨1, [webRule]⟩ := by decide
    replace hnamed : ((fresh.next savingWeb).next applyingWeb).history.world.db.revision "active" =
      some revision := hnamed
    rw [hnamed, Option.map_some, Option.some.injEq] at hconfig
    rw [hconfig]
    rfl
  have hsave : fresh.Copies savingWeb := ⟨trivial, fun revision hnamed => by cases hnamed⟩
  have hrun := ((@Reaches.start _ _ Publication.step Copies fresh).step hsave rfl).step
    ⟨happly, trivial⟩ rfl
  have hrollback : ((fresh.next savingWeb).next applyingWeb).Copies rollingBackWeb :=
    ⟨trivial, hback⟩
  replace hrun := hrun.step hrollback rfl
  exact ⟨by decide, exported_of_reaches rfl hrun⟩

def savingEmpty : Deed := .saveDraft .default fun _ => smooth "empty" 3

def applyingEmpty : Deed := .apply fun _ => smooth "none" 4

def rollingBackLater : Deed := .rollback "active" fun _ => smooth "again" 5

/-- **A rollback leaves a stale file.**  Two configurations are applied one after the other, and the
first is rolled back to: the file still holds the second. -/
theorem rollback_leaves_stale_export :
    ¬ ∀ start s : Publication, start.owed = none →
      Reaches Publication.step (fun _ deed => deed.WritesFile) start s → s.Holds := by
  intro hholds
  have hsave : savingWeb.WritesFile := trivial
  have happly : applyingWeb.WritesFile := fun config left hfailing => by cases hfailing
  have hsaveEmpty : savingEmpty.WritesFile := trivial
  have happlyEmpty : applyingEmpty.WritesFile := fun config left hfailing => by cases hfailing
  have hback : rollingBackLater.WritesFile := trivial
  have hrun := ((((@Reaches.start _ _ Publication.step (fun _ deed => deed.WritesFile) fresh).step
    hsave rfl).step happly rfl).step hsaveEmpty rfl).step happlyEmpty rfl
  replace hrun := hrun.step hback rfl
  have hstale := hholds _ _ rfl hrun ⟨1, [webRule]⟩ (by decide)
  revert hstale
  decide

end Publication

end Portalis
