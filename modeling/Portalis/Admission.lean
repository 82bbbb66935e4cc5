import Portalis.Provenance

/-!
# What was valid stays valid

A configuration is validated when it becomes a draft, and again when it is applied or rolled back to; the
command `rollback` and the start of the daemon do not validate.  While every read of sshd's configuration gives
the same text, it makes no difference.

* `Vetted.perform`: what each call keeps, given that what it is to write is valid, and what it answers.
* `apply_heeds` and its siblings: the operations write only what they validated or what they read.
* `vetted_of_reaches`: in every history all revisions are valid, the kernel has the rules of a valid
  configuration, and no apply and no rollback is refused as invalid.
-/

namespace Portalis

open Programs

/-! ### Validation by itself -/

structure ValidationResponse where
  valid : Bool
  errors : List ValidationError
  plan : List RulePlan
  deriving DecidableEq

/-- `POST /api/v1/draft/validate`. -/
def Api.validate (config : Config) : Operation ValidationResponse :=
  .call .validationContext fun context =>
    match config.validate context with
    | .ok () => .ret ⟨true, [], config.plan⟩
    | .error errors => .ret ⟨false, errors, config.plan⟩

/-! ### The calls -/

variable {context : ValidationContext}

/-- The configuration is accepted in this context. -/
def ValidIn (context : ValidationContext) (config : Config) : Prop :=
  config.validate context = .ok ()

theorem validIn_default (context : ValidationContext) : ValidIn context .default := by
  refine (accepted_iff _ _).mpr ⟨rfl, List.nodup_nil, ?_, ?_⟩
  · intro rule hrule
    cases hrule
  · exact List.Pairwise.nil

/-- Only what is valid is written. -/
def Call.Allowed (context : ValidationContext) : Call → Prop
  | .saveDraft config => ValidIn context config
  | .markActive config => ValidIn context config
  | .nftApply config => ValidIn context config
  | .nftRollback config => ValidIn context config
  | _ => True

/-- What is read is valid. -/
def Call.Promised (context : ValidationContext) : (c : Call) → Answer c → Prop
  | .draftConfig, r => ∀ revision, r = .ok (some revision) → ValidIn context revision.config
  | .revision _, r => ∀ revision, r = .ok (some revision) → ValidIn context revision.config
  | .activeConfig, r => ∀ config, r = .ok (some config) → ValidIn context config
  | .validationContext, r => r = context
  | _, _ => True

/-- All revisions are valid, and the kernel has its table from before or that of a valid configuration. -/
structure Vetted (before : Option Table) (context : ValidationContext) (w : World) : Prop where
  reads : w.validationContext = context
  rows : ∀ row ∈ w.db.rows, ValidIn context row.2
  kernel : w.kernel = before ∨
    ∃ config t, ValidIn context config ∧ compile config = .ok t ∧ w.kernel = some t

variable {before : Option Table} {w : World}

theorem Vetted.revision (h : Vetted before context w) {r : Revision}
    (hr : r ∈ w.db.revisions) : ValidIn context r.config :=
  h.rows (r.kind, r.config) (List.mem_map.mpr ⟨r, hr, rfl⟩)

theorem Vetted.latest (h : Vetted before context w) {kind : RevisionKind} {r : Revision}
    (hr : w.db.latestRevision kind = some r) : ValidIn context r.config :=
  h.revision (Database.kind_of_latestRevision hr).1

/-- A guarded answer is the answer, or none. -/
theorem guard_eq_ok {α : Type} {o : Outcome} {fault : Fault} {a b : α}
    (h : o.guard fault a = .ok b) : a = b := by
  unfold Outcome.guard at h
  split at h
  · cases h
  · exact Except.ok.inj h

theorem Vetted.promised (h : Vetted before context w) (c : Call) (o : Outcome) :
    c.Promised context (w.perform c o).1 := by
  cases c with
  | draftConfig =>
    intro r hr
    exact h.latest (guard_eq_ok hr)
  | revision id =>
    intro r hr
    have hfound : w.db.revisions.find? (fun r => r.id = id) = some r := guard_eq_ok hr
    exact h.revision (List.mem_of_find?_eq_some hfound)
  | activeConfig =>
    intro config hr
    have hconfig : w.db.activeRevision.map (·.config) = some config := guard_eq_ok hr
    obtain ⟨r, hlatest, hsame⟩ := Option.map_eq_some_iff.mp hconfig
    rw [← hsame]
    exact h.latest hlatest
  | validationContext => exact h.reads
  | _ => trivial

/-- Another database with these rows, or one valid row more. -/
theorem Vetted.withRows (h : Vetted before context w) {db : Database}
    {row : RevisionKind × Config} (hvalid : ValidIn context row.2)
    (hrows : db.rows = w.db.rows ∨ db.rows = w.db.rows ++ [row]) :
    Vetted before context { w with db := db } where
  reads := h.reads
  kernel := h.kernel
  rows := by
    intro other hmem
    rcases hrows with hsame | hmore
    · rw [hsame] at hmem
      exact h.rows other hmem
    · rw [hmore, List.mem_append, List.mem_singleton] at hmem
      rcases hmem with hold | rfl
      · exact h.rows other hold
      · exact hvalid

theorem Vetted.sendTable (h : Vetted before context w) {config : Config}
    (hvalid : ValidIn context config) (refused : Option NftError) :
    Vetted before context (w.sendTable config refused).2 := by
  rcases w.sendTable_cases config refused with ⟨error, hrun⟩ | ⟨t, receipt, hcompile, -, hrun⟩
  · rw [hrun]
    exact h
  · rw [hrun]
    exact ⟨h.reads, h.rows, .inr ⟨config, t, hvalid, hcompile, rfl⟩⟩

theorem saveDraft_rows (db : Database) (config : Config) (now : Database.Readings)
    (failing : Option DbStep) :
    (db.saveDraft config now failing).2.rows = db.rows ∨
      (db.saveDraft config now failing).2.rows = db.rows ++ [(.draft, config)] := by
  rcases db.saveDraft_cases config now failing with ⟨e, hrun⟩ | ⟨h, -, hrun⟩ | ⟨h, log, hrun⟩
  · rw [hrun]
    exact .inl rfl
  · rw [hrun]
    exact .inr (Database.rows_append _ _ h)
  · rw [hrun]
    exact .inr (Database.rows_append _ _ h)

theorem markActive_rows (db : Database) (config : Config) (now : Database.Readings)
    (failing : Option DbStep) :
    (db.markActive config now failing).2.rows = db.rows ∨
      (db.markActive config now failing).2.rows = db.rows ++ [(.active, config)] := by
  rcases db.markActive_cases config now failing with ⟨e, hrun⟩ | ⟨h, -, hrun⟩ | ⟨h, log, hrun⟩
  · rw [hrun]
    exact .inl rfl
  · rw [hrun]
    exact .inr (Database.rows_append _ _ h)
  · rw [hrun]
    exact .inr (Database.rows_append _ _ h)

/-- **What a call keeps**, when what it is to write is valid. -/
theorem Vetted.perform (h : Vetted before context w) {c : Call} (hc : c.Allowed context)
    (o : Outcome) : Vetted before context (w.perform c o).2 := by
  cases c with
  | saveDraft config =>
    have hvalid : ValidIn context config := hc
    exact @Vetted.withRows _ _ _ h _ (.draft, config) hvalid
      (saveDraft_rows w.db config o.now o.dbStep)
  | markActive config =>
    have hvalid : ValidIn context config := hc
    exact @Vetted.withRows _ _ _ h _ (.active, config) hvalid
      (markActive_rows w.db config o.now o.dbStep)
  | markApplyError id error =>
    exact @Vetted.withRows _ _ _ h _ (.draft, .default) (validIn_default context)
      (.inl (w.db.rows_markApplyError id error o.now o.dbStep))
  | nftApply config => exact h.sendTable hc _
  | nftRollback config => exact h.sendTable hc _
  | nftStatus config =>
    rcases w.perform_nftStatus config o with ⟨error, -, hrun⟩ | hrun
    · rw [hrun]
      exact h
    · rw [hrun]
      exact h
  | tableSnapshot =>
    rcases w.perform_tableSnapshot o with ⟨error, -, hrun⟩ | hrun
    · rw [hrun]
      exact h
    · rw [hrun]
      exact h
  | exportConfig config =>
    obtain ⟨answer, exported, hrun⟩ := w.perform_exportConfig config o
    rw [hrun]
    exact ⟨h.reads, h.rows, h.kernel⟩
  | ensureForwarding config => exact ⟨h.reads, h.rows, h.kernel⟩
  | _ => exact h

/-! ### The operations -/

/-- The program writes only what is valid, and ends so. -/
def HeedsIn (context : ValidationContext) {α : Type} (post : α → Prop) (p : Operation α) : Prop :=
  p.Heeds (Call.Allowed context) (Call.Promised context) post

theorem HeedsIn.run {α : Type} {post : α → Prop} {p : Operation α} (hp : HeedsIn context post p)
    (h : Vetted before context w) (os : Outcomes) :
    post (p.run World.performEach os w).1 ∧
      Vetted before context (p.run World.performEach os w).2 :=
  Program.Heeds.triple (fun _ c hw hc => ⟨hw.promised c (os c), hw.perform hc (os c)⟩) hp w h

section

variable {α : Type} {post : α → Prop} {config previous : Config}

theorem compensate_heeds (hprevious : ValidIn context previous) {next : String → Operation α}
    (hnext : ∀ rollback, HeedsIn context post (next rollback)) :
    HeedsIn context post (compensate previous next) := by
  refine ⟨hprevious, fun r _ => ?_⟩
  cases r with
  | ok receipt => exact hnext ""
  | error rollback => exact hnext _

theorem activate_heeds (hconfig : ValidIn context config) (hprevious : ValidIn context previous)
    {refused : NftError → Operation α} {unforwarded : String → Operation α}
    {unsaved : String → String → Operation α} {done : Revision → ApplyReceipt → Operation α}
    (hrefused : ∀ error, HeedsIn context post (refused error))
    (hunforwarded : ∀ message, HeedsIn context post (unforwarded message))
    (hunsaved : ∀ error rollback, HeedsIn context post (unsaved error rollback))
    (hdone : ∀ active receipt, HeedsIn context post (done active receipt)) :
    HeedsIn context post (activate config previous refused unforwarded unsaved done) := by
  refine ⟨hconfig, fun r _ => ?_⟩
  cases r with
  | error error => exact hrefused error
  | ok receipt =>
    refine ⟨trivial, fun r _ => ?_⟩
    cases r with
    | error error => exact compensate_heeds hprevious fun rollback => hunforwarded _
    | ok _ =>
      refine ⟨hconfig, fun r _ => ?_⟩
      cases r with
      | error error => exact compensate_heeds hprevious fun rollback => hunsaved error rollback
      | ok active => exact hdone active receipt

/-- The active configuration that was read, or the default. -/
theorem validIn_previous {r : Except String (Option Config)}
    (hr : Call.Promised context .activeConfig r) {active : Option Config} (hok : r = .ok active) :
    ValidIn context (active.getD .default) := by
  cases active with
  | none => exact validIn_default context
  | some config => exact hr config hok

theorem applyNewest_heeds {failed : String → α} {noDraft : α}
    {invalid : Revision → List ValidationError → α} {reuse : Operation α}
    {fresh : Revision → Config → Operation α} (hfailed : ∀ error, post (failed error))
    (hnone : post noDraft) (hreuse : HeedsIn context post reuse)
    (hfresh : ∀ draft previous, ValidIn context draft.config → ValidIn context previous →
      HeedsIn context post (fresh draft previous)) :
    HeedsIn context post (applyNewest failed noDraft invalid reuse fresh) := by
  refine ⟨trivial, fun r hr => ?_⟩
  rcases r with error | _ | draft
  · exact hfailed error
  · exact hnone
  · have hvalid : ValidIn context draft.config := hr draft rfl
    refine ⟨trivial, fun read hread => ?_⟩
    have hread : read = context := hread
    have haccepted : draft.config.validate read = .ok () := by
      rw [hread]
      exact hvalid
    simp only [haccepted]
    refine ⟨trivial, fun r hr => ?_⟩
    cases r with
    | error error => exact hfailed error
    | ok active =>
      have hprevious := validIn_previous hr rfl
      show HeedsIn context post (unlessInPlace _ _ _ _)
      unfold unlessInPlace
      split
      · refine ⟨trivial, fun r _ => ?_⟩
        cases r with
        | error error => exact hfresh draft _ hvalid hprevious
        | ok kernel =>
          dsimp only
          split
          · exact hreuse
          · exact hfresh draft _ hvalid hprevious
      · exact hfresh draft _ hvalid hprevious

end

/-- Not refused as invalid. -/
def Response.Admits (r : Response) : Prop := ∀ errors plan, r ≠ .unprocessable errors plan

/-- Not refused as invalid, by a command. -/
def AdmitsCommand (answer : Except CommandError String) : Prop :=
  ∀ errors, answer ≠ .error (.invalid errors)

theorem Api.apply_heeds : HeedsIn context Response.Admits Api.apply := by
  refine applyNewest_heeds (fun _ => nofun) nofun ?_ fun draft previous hdraft hprevious => ?_
  · refine ⟨trivial, fun r _ => ?_⟩
    cases r with
    | error error => exact nofun
    | ok active => exact nofun
  · refine ⟨trivial, fun r _ => ?_⟩
    cases r with
    | error error => exact nofun
    | ok _ =>
      refine ⟨trivial, fun r _ => ?_⟩
      cases r with
      | error error => exact nofun
      | ok _ =>
        refine ⟨trivial, fun r _ => ?_⟩
        cases r with
        | error error => exact nofun
        | ok _ =>
          refine activate_heeds hdraft hprevious (fun _ => ⟨trivial, fun _ _ => nofun⟩)
            (fun _ => ⟨trivial, fun _ _ => nofun⟩) (fun _ _ => nofun) fun _ _ =>
            ⟨trivial, fun _ _ => nofun⟩

theorem Api.rollback_heeds (revisionId : String) :
    HeedsIn context Response.Admits (Api.rollback revisionId) := by
  refine ⟨trivial, fun r hr => ?_⟩
  rcases r with error | _ | revision
  · exact nofun
  · exact nofun
  · have hvalid : ValidIn context revision.config := hr revision rfl
    refine ⟨trivial, fun read hread => ?_⟩
    have hread : read = context := hread
    have haccepted : revision.config.validate read = .ok () := by
      rw [hread]
      exact hvalid
    simp only [haccepted]
    refine ⟨trivial, fun r hr => ?_⟩
    cases r with
    | error error => exact nofun
    | ok active =>
      exact activate_heeds hvalid (validIn_previous hr rfl) (fun _ => nofun) (fun _ => nofun)
        (fun _ _ => nofun) fun _ _ => nofun

theorem Service.activateDraft_heeds {draft : Revision} {previous : Config}
    (hdraft : ValidIn context draft.config) (hprevious : ValidIn context previous) :
    HeedsIn context AdmitsCommand (Service.activateDraft draft previous) :=
  activate_heeds hdraft hprevious (fun _ => nofun) (fun _ => nofun) (fun _ _ => nofun) fun _ _ => nofun

theorem Service.applyDraft_heeds : HeedsIn context AdmitsCommand Service.applyDraft := by
  refine applyNewest_heeds (fun _ => nofun) nofun nofun fun draft previous hdraft hprevious => ?_
  refine ⟨trivial, fun r _ => ?_⟩
  cases r with
  | error error => exact Service.activateDraft_heeds hdraft hprevious
  | ok _ =>
    refine ⟨trivial, fun r _ => ?_⟩
    cases r with
    | error error => exact nofun
    | ok _ => exact Service.activateDraft_heeds hdraft hprevious

theorem Service.rollback_heeds (revisionId : String) :
    HeedsIn context AdmitsCommand (Service.rollback revisionId) := by
  refine ⟨trivial, fun r hr => ?_⟩
  rcases r with error | _ | revision
  · exact nofun
  · exact nofun
  · refine ⟨trivial, fun r hr' => ?_⟩
    cases r with
    | error error => exact nofun
    | ok active =>
      exact activate_heeds (hr revision rfl) (validIn_previous hr' rfl) (fun _ => nofun)
        (fun _ => nofun) (fun _ _ => nofun) fun _ _ => nofun

/-- A configuration that was not validated is not written. -/
theorem Api.saveDraft_heeds (config : Config) :
    HeedsIn context (fun _ => True) (Api.saveDraft config) := by
  refine ⟨trivial, fun read hread => ?_⟩
  have hread : read = context := hread
  cases hvalidate : config.validate read with
  | error errors =>
    simp only [hvalidate]
    trivial
  | ok _ =>
    simp only [hvalidate]
    rw [hread] at hvalidate
    refine ⟨hvalidate, fun r _ => ?_⟩
    cases r with
    | ok revision => trivial
    | error error => trivial

theorem Api.restoreBackup_heeds (downloaded : Except String Config) :
    HeedsIn context (fun _ => True) (Api.restoreBackup downloaded) := by
  cases downloaded with
  | error error => trivial
  | ok config =>
    refine ⟨trivial, fun read hread => ?_⟩
    have hread : read = context := hread
    cases hvalidate : config.validate read with
    | error errors =>
      simp only [hvalidate]
      trivial
    | ok _ =>
      simp only [hvalidate]
      rw [hread] at hvalidate
      refine ⟨hvalidate, fun r _ => ?_⟩
      cases r with
      | ok revision => trivial
      | error error => trivial

theorem Runtime.openKernel_heeds : HeedsIn context (fun _ => True) Runtime.openKernel := by
  refine ⟨trivial, fun r hr => ?_⟩
  rcases r with error | _ | config
  · trivial
  · trivial
  · have hvalid : ValidIn context config := hr config rfl
    refine ⟨trivial, fun r _ => ?_⟩
    cases r with
    | error error =>
      refine ⟨hvalid, fun r _ => ?_⟩
      cases r with
      | error error => trivial
      | ok receipt => exact ⟨trivial, fun _ _ => trivial⟩
    | ok status =>
      dsimp only
      split
      · refine ⟨hvalid, fun r _ => ?_⟩
        cases r with
        | error error => trivial
        | ok receipt => exact ⟨trivial, fun _ _ => trivial⟩
      · trivial

/-! ### Histories -/

/-- **The step lemma.** -/
theorem Vetted.next {s : History} (h : Vetted before context s.world) (deed : Deed) :
    Vetted before context (s.next deed).world := by
  cases deed with
  | saveDraft config os => exact ((Api.saveDraft_heeds config).run h os).2
  | restoreBackup downloaded os => exact ((Api.restoreBackup_heeds downloaded).run h os).2
  | apply os =>
    show Vetted before context (s.applying _ _).world
    rw [History.applying_world]
    exact (Api.apply_heeds.run h os).2
  | rollback revisionId os => exact ((Api.rollback_heeds revisionId).run h os).2
  | commandApply os =>
    show Vetted before context (s.applying _ _).world
    rw [History.applying_world]
    exact (Service.applyDraft_heeds.run h os).2
  | commandRollback revisionId os => exact ((Service.rollback_heeds revisionId).run h os).2
  | restart os => exact (Runtime.openKernel_heeds.run h os).2

/-- What `validate` says is what `save_draft` does. -/
theorem valid_iff_admits (w : World) (config : Config) (os : Outcomes) :
    ((Api.validate config).run World.performEach os w).1.valid = true ↔
      ((Api.saveDraft config).run World.performEach os w).1.Admits := by
  unfold Api.validate Api.saveDraft
  rw [Program.run_call (w.performEach_validationContext os),
    Program.run_call (w.performEach_validationContext os)]
  cases config.validate w.validationContext with
  | error errors =>
    refine iff_of_false (fun h => ?_) fun h => h errors config.plan rfl
    cases h
  | ok _ =>
    refine iff_of_true rfl ?_
    dsimp only
    rw [Program.run]
    cases (w.performEach (.saveDraft config) os).1 with
    | ok revision =>
      intro errors plan h
      cases h
    | error error =>
      intro errors plan h
      cases h

theorem Vetted.of_reaches {start s : History} (hempty : start.world.db.revisions = [])
    (h : Reaches History.step (fun _ _ => True) start s) :
    Vetted start.world.kernel start.world.validationContext s.world := by
  have hstart : Vetted start.world.kernel start.world.validationContext start.world := by
    refine ⟨rfl, ?_, .inl rfl⟩
    intro row hmem
    rw [Database.rows, hempty] at hmem
    cases hmem
  exact @Reaches.invariant _ _ _ _
    (fun s : History => Vetted start.world.kernel start.world.validationContext s.world) _ _ hstart
    (fun _ _ _ _ hinv hstep => Option.some.inj hstep ▸ hinv.next _) h

/-- **Nothing that was saved is refused later.**  From an empty database, whatever the operations are and
whichever of their calls fail, while sshd's configuration reads the same: every revision is valid, the kernel
has its table from before or that of a valid configuration, neither apply nor rollback is refused as invalid,
and what `validate` says of a configuration is what `save_draft` will do with it. -/
theorem vetted_of_reaches {start s : History} (hempty : start.world.db.revisions = [])
    (h : Reaches History.step (fun _ _ => True) start s) (os : Outcomes) :
    (∀ row ∈ s.world.db.rows, row.2.validate start.world.validationContext = .ok ()) ∧
    (s.world.kernel = start.world.kernel ∨ ∃ config t,
      config.validate start.world.validationContext = .ok () ∧ compile config = .ok t ∧
        s.world.kernel = some t) ∧
    (Api.apply.run World.performEach os s.world).1.Admits ∧
    (∀ id, ((Api.rollback id).run World.performEach os s.world).1.Admits) ∧
    AdmitsCommand (Service.applyDraft.run World.performEach os s.world).1 ∧
    ∀ config, ((Api.validate config).run World.performEach os s.world).1.valid = true ↔
      ((Api.saveDraft config).run World.performEach os s.world).1.Admits := by
  have hvetted := Vetted.of_reaches hempty h
  exact ⟨hvetted.rows, hvetted.kernel, (Api.apply_heeds.run hvetted os).1,
    fun id => ((Api.rollback_heeds id).run hvetted os).1,
    (Service.applyDraft_heeds.run hvetted os).1, fun config => valid_iff_admits s.world config os⟩

theorem vetted_after_rollback :
    ((Api.rollback "draft").run World.performEach (fun _ => smooth "again" 3)
      appliedHistory.world).1.Admits := by
  have hrun : runAll History.step freshHistory [savingWeb, applyingWeb] = some appliedHistory := rfl
  have hreaches : Reaches History.step (fun _ _ => True) freshHistory appliedHistory :=
    Reaches.of_runAll .start (fun _ _ _ => trivial) hrun
  exact (vetted_of_reaches rfl hreaches fun _ => smooth "again" 3).2.2.2.1 "draft"

end Portalis
