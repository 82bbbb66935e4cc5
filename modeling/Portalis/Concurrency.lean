import Portalis.Compensation

/-!
# Concurrent requests

Any number of `apply`, `rollback` and `save_draft` requests, interleaved call by call, while packets are
counted and other programs touch what the daemon does not own.  A request is in its critical section from
its read of the active configuration to its answer; nothing in the code makes the sections exclude each
other.  In the source the database lock of a failed `mark_active` is held during the compensation; here
others may come between, so there are more runs.

* `settles_activate`: the compensated part of an operation, alone, ends in step.
* `quiescent_in_step`: with one critical section at a time the kernel forwards as the newest active
  revision says whenever no request is in flight.
* `quiescent_out_of_step`: an apply and a rollback that both succeed.
-/

namespace Portalis

open Programs

/-! ### Requests -/

inductive Request
  | apply
  | rollback (revisionId : String)
  | saveDraft (config : Config)

def Request.program : Request → Operation Response
  | .apply => Api.apply
  | .rollback revisionId => Api.rollback revisionId
  | .saveDraft config => Api.saveDraft config

abbrev ServicePool := Pool Call Answer World Response

abbrev ServiceEvent := Event Call Answer World Outcome Response

/-- The compensating batch does not fail from outside. -/
def Outcome.Compensates (o : Outcome) : Prop := ∀ error, o.failing ≠ some (.nftRollback error)

/-- `mark_active` does not fail after its commit, and its clock reading is later than that of the newest
active revision. -/
def Timely (w : World) (o : Outcome) : Call → Prop
  | .markActive _ => ¬ o.FailsAudit ∧ w.db.Later o.now.createdAt
  | _ => True

/-- A request enters its critical section when it reads the active configuration. -/
def Call.enters : Call → Bool
  | .activeConfig => true
  | _ => false

/-- The requests as programs with critical sections; `good` is to be kept. -/
def discipline (good : View → Prop) : Discipline Call Answer World Outcome View where
  perform := World.perform
  view := World.view
  enters := Call.enters
  allowed w c o := o.Compensates ∧ Timely w o c
  good := good

/-! ### One operation alone -/

/-- A condition that an operation re-establishes when it ends in step. -/
structure Keepable (good : View → Prop) : Prop where
  compiles : ∀ v, good v → ∃ t, compile (v.config.getD .default) = .ok t
  of_inStep : ∀ v v', good v → (v.newest.isSome → v'.newest.isSome) → v'.InStep → good v'

section

variable {α : Type} {good : View → Prop} {v : View} {config previous : Config}
  {refused : NftError → Operation α} {unforwarded : String → Operation α}
  {unsaved : String → String → Operation α} {done : Revision → ApplyReceipt → Operation α}

theorem inStep_of_compile_view {t : Table} (hcompile : compile (v.config.getD .default) = .ok t) :
    View.InStep ⟨v.newest, some t.erase⟩ :=
  (inStep_erase v.config (some t)).mpr (inStep_of_compile hcompile)

/-- The compensation puts the table of the active configuration back. -/
theorem settles_compensate (hgood : Keepable good) (hv : good v) {kernel : Option Table}
    {next : String → Operation α} (hnext : ∀ message, (discipline good).Quiet (next message)) :
    (discipline good).Settles (compensate (v.config.getD .default) next) ⟨v.newest, kernel⟩ := by
  refine Discipline.Settles.of_call fun w o hw hallowed => ?_
  obtain ⟨t, hcompile⟩ := hgood.compiles v hv
  refine ⟨_, _, World.perform_nftRollback_of hcompile hallowed.1, (hnext "").settles ?_⟩
  have hview : ({ w with kernel := some t } : World).view = ⟨v.newest, some t.erase⟩ := by
    rw [World.view, show w.db.activeRevision.map Revision.withoutError = v.newest from
      congrArg View.newest hw]
    rfl
  show good _
  rw [show (discipline good).view _ = _ from hview]
  exact hgood.of_inStep v _ hv id (inStep_of_compile_view hcompile)

/-- **From `nft.apply` on, alone, an operation ends well.** -/
theorem settles_activate (hgood : Keepable good) (hv : good v)
    (hrefused : ∀ error, (discipline good).Quiet (refused error))
    (hunforwarded : ∀ message, (discipline good).Quiet (unforwarded message))
    (hunsaved : ∀ error rollback, (discipline good).Quiet (unsaved error rollback))
    (hdone : ∀ active receipt, (discipline good).Quiet (done active receipt)) :
    (discipline good).Settles
      (activate config (v.config.getD .default) refused unforwarded unsaved done) v := by
  refine Discipline.Settles.of_call fun w o hw _ => ?_
  rcases w.perform_nftApply config o with ⟨error, happly⟩ | ⟨t, receipt, hcompile, happly⟩
  · exact ⟨_, _, happly, (hrefused error).settles (hw ▸ hv)⟩
  refine ⟨_, _, happly, ?_⟩
  have hwritten : ({ w with kernel := some t } : World).view = ⟨v.newest, some t.erase⟩ := by
    rw [World.view, show w.db.activeRevision.map Revision.withoutError = v.newest from
      congrArg View.newest hw]
    rfl
  rw [show (discipline good).view _ = _ from hwritten]
  refine Discipline.Settles.of_keep (fun w o => World.view_perform rfl w o) fun answer => ?_
  cases answer with
  | error error => exact settles_compensate hgood hv fun rollback => hunforwarded _
  | ok _ =>
    refine Discipline.Settles.of_call fun w₂ o₂ hw₂ hallowed => ?_
    obtain ⟨-, haudit, hlater⟩ := hallowed
    rcases w₂.perform_markActive config o₂ with
      ⟨error, hmark⟩ | ⟨error, h, hfails, -⟩ | ⟨h, log, hmark⟩
    · refine ⟨_, _, hmark, ?_⟩
      rw [hw₂]
      exact settles_compensate hgood hv fun rollback => hunsaved _ _
    · exact absurd hfails haudit
    · refine ⟨_, _, hmark, (hdone _ _).settles ?_⟩
      have hkernel : w₂.kernel.map Table.erase = some t.erase := congrArg View.kernel hw₂
      have hview : ({ w₂ with db := { w₂.db.append (Database.activeRow config o₂.now) h with
          auditLog := log } } : World).view =
            ⟨some (Database.activeRow config o₂.now).withoutError, some t.erase⟩ := by
        rw [World.view, hkernel]
        have hnewest := Database.activeRevision_append_of_later h hlater
        rw [show ({ w₂.db.append (Database.activeRow config o₂.now) h with auditLog := log } :
          Database).activeRevision = _ from hnewest]
        rfl
      show good _
      rw [show (discipline good).view _ = _ from hview]
      refine hgood.of_inStep v _ hv (fun _ => rfl) ⟨t, hcompile, ?_⟩
      rw [Option.map_some, Table.erase_erase]

/-- The calls that write neither the active revisions nor the rules keep the view. -/
theorem keeps {c : Call} (h : c.writes = false) (w : World) (o : Outcome) :
    (discipline good).view ((discipline good).perform w c o).2 = (discipline good).view w :=
  World.view_perform h w o

/-- The read of the active configuration enters, and answers what the view says. -/
theorem idle_activeConfig {k : Answer .activeConfig → Operation α}
    (herror : ∀ error, (discipline good).Quiet (k (.error error)))
    (hok : ∀ v, good v → (discipline good).Settles (k (.ok v.config)) v) :
    (discipline good).Idle (.call .activeConfig k) := by
  refine Discipline.Idle.of_enters rfl fun v hv => Discipline.Settles.of_call fun w o hw _ => ?_
  rcases w.perform_activeConfig o with ⟨error, -, hread⟩ | hread
  · exact ⟨_, _, hread, (herror error).settles (hw ▸ hv)⟩
  · refine ⟨_, _, hread, ?_⟩
    rw [← World.view_config, show w.view = v from hw]
    exact hw ▸ hok v hv

theorem settles_unlessInPlace {reuse fresh : Operation α}
    (hreuse : (discipline good).Settles reuse v) (hfresh : (discipline good).Settles fresh v) :
    (discipline good).Settles (unlessInPlace config previous reuse fresh) v := by
  unfold unlessInPlace
  split
  · refine Discipline.Settles.of_keep (keeps rfl) fun answer => ?_
    cases answer with
    | error error => exact hfresh
    | ok kernel =>
      dsimp only
      split
      · exact hreuse
      · exact hfresh
  · exact hfresh

theorem idle_applyNewest {failed : String → α} {noDraft : α}
    {invalid : Revision → List ValidationError → α} {reuse : Operation α}
    {fresh : Revision → Config → Operation α} (hreuse : (discipline good).Quiet reuse)
    (hfresh : ∀ draft v, good v →
      (discipline good).Settles (fresh draft (v.config.getD .default)) v) :
    (discipline good).Idle (applyNewest failed noDraft invalid reuse fresh) := by
  refine Discipline.Idle.of_keep rfl (keeps rfl) fun answer => ?_
  rcases answer with error | _ | draft
  · trivial
  · trivial
  · refine Discipline.Idle.of_keep rfl (keeps rfl) fun context => ?_
    cases draft.config.validate context with
    | error errors => trivial
    | ok valid =>
      refine idle_activeConfig (fun error => trivial) fun v hv => ?_
      exact settles_unlessInPlace (hreuse.settles hv) (hfresh draft v hv)

end

/-! ### The requests -/

section

variable {good : View → Prop}

theorem quiet_failApply (draft : Revision) (message : String) :
    (discipline good).Quiet (Api.failApply draft message) :=
  Discipline.Quiet.of_keep (keeps rfl) fun _ => trivial

theorem idle_apply (hgood : Keepable good) : (discipline good).Idle Api.apply := by
  refine idle_applyNewest (Discipline.Quiet.of_keep (keeps rfl) fun answer => ?_) fun draft v hv => ?_
  · cases answer <;> trivial
  · refine Discipline.Settles.of_keep (keeps rfl) fun answer => ?_
    cases answer with
    | error error => exact hv
    | ok _ =>
      refine Discipline.Settles.of_keep (keeps rfl) fun answer => ?_
      cases answer with
      | error error => exact hv
      | ok _ =>
        refine Discipline.Settles.of_keep (keeps rfl) fun answer => ?_
        cases answer with
        | error error => exact hv
        | ok _ =>
          exact settles_activate hgood hv (fun _ => quiet_failApply _ _)
            (fun _ => quiet_failApply _ _) (fun _ _ => trivial)
            (fun _ _ => Discipline.Quiet.of_keep (keeps rfl) fun _ => trivial)

theorem idle_rollback (hgood : Keepable good) (revisionId : String) :
    (discipline good).Idle (Api.rollback revisionId) := by
  refine Discipline.Idle.of_keep rfl (keeps rfl) fun answer => ?_
  rcases answer with error | _ | revision
  · trivial
  · trivial
  · refine Discipline.Idle.of_keep rfl (keeps rfl) fun context => ?_
    cases revision.config.validate context with
    | error errors => trivial
    | ok valid =>
      refine idle_activeConfig (fun error => trivial) fun v hv => ?_
      exact settles_activate hgood hv (fun _ => trivial) (fun _ => trivial) (fun _ _ => trivial)
        (fun _ _ => trivial)

theorem idle_saveDraft (config : Config) : (discipline good).Idle (Api.saveDraft config) := by
  refine Discipline.Idle.of_keep rfl (keeps rfl) fun context => ?_
  cases config.validate context with
  | error errors => trivial
  | ok valid =>
    refine Discipline.Idle.of_keep rfl (keeps rfl) fun answer => ?_
    cases answer <;> trivial

/-- **Every request is idle until it reads the active configuration, and then settles.** -/
theorem idle_request (hgood : Keepable good) (request : Request) :
    (discipline good).Idle request.program := by
  cases request with
  | apply => exact idle_apply hgood
  | rollback revisionId => exact idle_rollback hgood revisionId
  | saveDraft config => exact idle_saveDraft config

end

/-! ### Runs -/

/-- The kernel's table is the compilation of the newest active revision's configuration. -/
def World.Forwards (w : World) : Prop :=
  ∃ config t, w.db.activeConfig = some config ∧ compile config = .ok t ∧
    w.kernel.map Table.erase = some t.erase

def View.Forwards (v : View) : Prop := v.InStep ∧ v.newest.isSome

theorem World.forwards_view (w : World) : w.view.Forwards ↔ w.Forwards := by
  have hsome : w.view.newest.isSome = w.db.activeConfig.isSome := by
    rw [World.view, Option.isSome_map, Database.activeConfig, Option.isSome_map]
  rw [View.Forwards, World.inStep_view, hsome, World.InStep, World.Forwards]
  cases w.db.activeConfig with
  | none => simp
  | some config => simp [Portalis.InStep]

theorem keepable_forwards : Keepable View.Forwards where
  compiles _ hv := InStep.exists_compile hv.1
  of_inStep _ _ hv hsome hstep := ⟨hstep, hsome hv.2⟩

/-- The service: its requests, and the condition that the kernel forwards as the newest active revision
says. -/
abbrev service : Discipline Call Answer World Outcome View := discipline View.Forwards

/-- Requests come, the compensating batch does not fail, and nobody else touches the active
revisions or the rules. -/
def Expected (s : ServicePool) : ServiceEvent → Prop
  | .arrive _ p => ∃ request : Request, p = request.program
  | .advance _ o => o.Compensates
  | .outside w => w.view = s.world.view

/-- A request reads the active configuration only while no other request is between that read and
its end, and `mark_active` is timely. -/
def OneAtATime (s : ServicePool) : ServiceEvent → Prop
  | .advance i o => ∀ c ∈ s.next i, Timely s.world o c ∧
      (c.enters = true → ∀ j, j ≠ i → ∀ r, s.running j = some r → r.entered = false)
  | _ => True

/-- Such steps respect the discipline. -/
theorem exclusive_of_oneAtATime {good : View → Prop} (hgood : Keepable good) {s : ServicePool}
    {e : ServiceEvent} (hexpected : Expected s e) (hone : OneAtATime s e) :
    Pool.Exclusive (discipline good) s e := by
  cases e with
  | arrive i p =>
    obtain ⟨request, rfl⟩ := hexpected
    exact idle_request hgood request
  | advance i o =>
    intro c hc
    obtain ⟨htimely, hothers⟩ := hone c hc
    exact ⟨⟨hexpected, htimely⟩, hothers⟩
  | outside w => exact hexpected

/-- **One critical section at a time.**  From a state in which the kernel's table is the compilation
of the newest active revision's configuration, it is so again whenever no request is in flight. -/
theorem quiescent_in_step {start s : ServicePool} (hquiet : start.Quiescent)
    (hstart : start.world.Forwards)
    (hrun : Reaches (Pool.step service) (fun s e => Expected s e ∧ OneAtATime s e) start s)
    (hs : s.Quiescent) : s.world.Forwards := by
  have hexclusive : Reaches (Pool.step service) (Pool.Exclusive service) start s :=
    hrun.imp fun _ _ hguard => exclusive_of_oneAtATime keepable_forwards hguard.1 hguard.2
  have hsound : Pool.Sound service s :=
    Pool.Sound.of_reaches (Pool.Sound.of_quiescent hquiet ((World.forwards_view _).mpr hstart))
      hexclusive
  exact (World.forwards_view _).mp (hsound.good hs.unentered)

/-- The service over `webWorld`, with no request. -/
def webService : ServicePool := ⟨webWorld, fun _ => none⟩

theorem webWorld_forwards : webWorld.Forwards :=
  ⟨⟨1, [webRule]⟩, tableOf ⟨1, [webRule]⟩, by decide, rfl, rfl⟩

/-- A call at that second after noon that meets no failure. -/
def smooth (id : String) (second : ℕ) : Outcome where
  failing := none
  cause := ""
  now := .at id (Database.noonAnd second)
  observedAt := ""

theorem smooth_compensates (id : String) (second : ℕ) :
    (smooth id second).Compensates := by
  intro error hfailing
  cases hfailing

theorem quiescent_after_apply :
    (Api.apply.run World.perform (smooth "applied" 5) webWorld).2.Forwards := by
  have harrives : Expected webService (.arrive 0 Api.apply) ∧
      OneAtATime webService (.arrive 0 Api.apply) := ⟨⟨.apply, rfl⟩, trivial⟩
  have harrived : Reaches (Pool.step service) (fun s e => Expected s e ∧ OneAtATime s e) webService
      ⟨webWorld, Function.update (fun _ => none) 0 (inFlight false Api.apply)⟩ :=
    .step .start harrives rfl
  have hmakes : Api.apply.Makes World.perform
      (fun w c => Timely w (smooth "applied" 5) c) (smooth "applied" 5)
      webWorld := by
    iterate 8 refine Program.Makes.call trivial ?_
    -- `mark_active`, and then the export
    refine Program.Makes.call ⟨nofun, by decide⟩ ?_
    exact Program.Makes.call trivial trivial
  have hrun := Pool.reaches_alone (fun s c hnext hothers htimely => ?_) harrived rfl hmakes
  · exact @quiescent_in_step webService _ (fun _ => rfl) webWorld_forwards hrun fun _ => rfl
  · refine ⟨smooth_compensates _ _, fun c' hc' => ?_⟩
    cases hnext.symm.trans hc'
    refine ⟨htimely, fun _ j hj r hr => ?_⟩
    rw [hothers j hj] at hr
    cases hr

/-- `apply` writes the table of `movedRule`; `rollback` to the revision of `webRule` then runs to
its end; `apply` goes on. -/
def overtaking : List ServiceEvent :=
  let apply := Event.advance 0 (smooth "applied" 5)
  let rollback := Event.advance 1 (smooth "rolled back" 4)
  [.arrive 0 Api.apply, .arrive 1 (Api.rollback "web")] ++ List.replicate 7 apply ++
    List.replicate 6 rollback ++ List.replicate 3 apply

/-- **Two requests that succeed.**  The rollback's table is in the kernel, and the newest active
revision is the one `apply` recorded. -/
theorem quiescent_out_of_step :
    webService.Quiescent ∧ webService.world.Forwards ∧
      ∃ s, Reaches (Pool.step service) Expected webService s ∧ s.Quiescent ∧ ¬ s.world.Forwards := by
  have hrun : ∃ s, runAll (Pool.step service) webService overtaking = some s ∧ s.Quiescent ∧
      s.world.db.activeConfig = some ⟨1, [movedRule]⟩ ∧
      s.world.kernel = some (tableOf ⟨1, [webRule]⟩) := by
    refine ⟨_, rfl, fun i => ?_, by decide, rfl⟩
    match i with
    | 0 => rfl
    | 1 => rfl
    | _ + 2 => rfl
  obtain ⟨s, hrun, hquiet, hactive, hkernel⟩ := hrun
  refine ⟨fun _ => rfl, webWorld_forwards, s, Reaches.of_runAll .start ?_ hrun, hquiet, ?_⟩
  · intro s e he
    simp only [overtaking, List.mem_append, List.mem_cons, List.mem_replicate, List.not_mem_nil,
      or_false] at he
    rcases he with (((rfl | rfl) | ⟨-, rfl⟩) | ⟨-, rfl⟩) | ⟨-, rfl⟩
    · exact ⟨.apply, rfl⟩
    · exact ⟨.rollback "web", rfl⟩
    · exact smooth_compensates _ _
    · exact smooth_compensates _ _
    · exact smooth_compensates _ _
  · rintro ⟨config, t, hconfig, hcompile, htable⟩
    cases hactive.symm.trans hconfig
    cases (show compile ⟨1, [movedRule]⟩ = .ok (tableOf ⟨1, [movedRule]⟩) from rfl).symm.trans hcompile
    rw [hkernel] at htable
    exact absurd htable (by decide)

end Portalis
