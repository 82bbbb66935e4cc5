import Portalis.Concurrency

/-!
# Restarts

Runs of the daemon: `Runtime::open` call by call, then requests, and a kill at any moment.  The kernel
table and the database survive.  The startup restores the table of the active revision when the status
does not show it in place, so it depends on what the drift test sees, and on there being an active
revision.

* `restores_openKernel`: what one startup does.
* `reopened_in_step_iff`: over all runs, exactly when a startup whose nft calls succeed ends in step; and
  which kills are harmless.
* `reopened_out_of_step`: a kill between the batch and the first active revision.
-/

namespace Portalis

open Programs

/-! ### The daemon -/

/-- While it starts, the daemon remembers the world it began in and whether all nft calls succeeded. -/
inductive Phase
  | down
  | opening (began : World) (clean : Bool) (p : Operation (Except String Unit))
  | opened (began : World) (clean : Bool)
  | serving (running : ℕ → Option (Running Call Answer Response))

structure Daemon where
  world : World
  phase : Phase

inductive DaemonEvent
  | start
  | startup (o : Outcome)
  | serve
  | request (e : ServiceEvent)
  | kill
  | outside (w : World)

def nftSucceeded : (c : Call) → Answer c → Bool
  | .nftStatus _, answer => answer.isOk
  | .tableSnapshot, answer => answer.isOk
  | .nftApply _, answer => answer.isOk
  | .nftRollback _, answer => answer.isOk
  | _, _ => true

/-- `Runtime::open` fails as a whole only when it cannot read the active configuration. -/
def startupPhase (began : World) (clean : Bool) : Operation (Except String Unit) → Phase
  | .ret (.ok ()) => .opened began clean
  | .ret (.error _) => .down
  | .call c k => .opening began clean (.call c k)

def Daemon.step (s : Daemon) : DaemonEvent → Option Daemon
  | .start =>
    match s.phase with
    | .down => some ⟨s.world, startupPhase s.world true Runtime.openKernel⟩
    | _ => none
  | .startup o =>
    match s.phase with
    | .opening began clean (.call c k) =>
      some ⟨(s.world.perform c o).2, startupPhase began
        (clean && nftSucceeded c (s.world.perform c o).1) (k (s.world.perform c o).1)⟩
    | _ => none
  | .serve =>
    match s.phase with
    | .opened _ _ => some ⟨s.world, .serving fun _ => none⟩
    | _ => none
  | .request e =>
    match s.phase with
    | .serving running =>
      (Pool.step service ⟨s.world, running⟩ e).map fun pool => ⟨pool.world, .serving pool.running⟩
    | _ => none
  | .kill => some ⟨s.world, .down⟩
  | .outside w => some ⟨w, s.phase⟩

/-! ### What a startup can recover -/

/-- The status of the configuration reports an absent or drifted table. -/
def ShowsDrift (kernel : Option Table) (config : Config) : Prop :=
  ¬ ((nftStatus "" kernel config).tablePresent = true ∧ (nftStatus "" kernel config).drifted = false)

/-- The kernel forwards as the active revision says, or there is an active revision and its status shows
that it does not. -/
def Recoverable (active : Option Config) (kernel : Option Table) : Prop :=
  (∃ t, compile (active.getD .default) = .ok t) ∧
    (InStep active kernel ∨ ∃ config, active = some config ∧ ShowsDrift kernel config)

def World.Recoverable (w : World) : Prop := Portalis.Recoverable w.db.activeConfig w.kernel

def View.Recoverable (v : View) : Prop := Portalis.Recoverable v.config v.kernel

theorem showsDrift_erase (kernel : Option Table) (config : Config) :
    ShowsDrift (kernel.map Table.erase) config ↔ ShowsDrift kernel config := by
  cases kernel with
  | none => rfl
  | some t =>
    have hlen : ∀ key, (t.erase.keyed key).length = (t.keyed key).length := fun key => by
      rw [keyed_erase, List.length_map]
    rw [Option.map_some, ShowsDrift, ShowsDrift, drifted_congr hlen "" ""]
    rfl

theorem World.recoverable_view (w : World) : w.view.Recoverable ↔ w.Recoverable := by
  rw [View.Recoverable, World.Recoverable, Portalis.Recoverable, Portalis.Recoverable, view_config]
  simp only [World.view, inStep_erase, showsDrift_erase]

theorem View.InStep.recoverable {v : View} (h : v.InStep) : v.Recoverable :=
  ⟨InStep.exists_compile h, Or.inl h⟩

/-- **The condition is one that operations keep.** -/
theorem keepable_recoverable : Keepable View.Recoverable where
  compiles _ hv := hv.1
  of_inStep _ _ _ _ hstep := hstep.recoverable

/-! ### One startup -/

/-- From the view `v`, the startup keeps the view recoverable, and a clean end is in step iff the view it
began in was recoverable. -/
def Restores (began : View) : Bool → Operation (Except String Unit) → View → Prop
  | clean, .ret answer, v => (began.Recoverable → v.Recoverable) ∧
      (answer = .ok () → clean = true → (v.InStep ↔ began.Recoverable))
  | clean, .call c k, v => (began.Recoverable → v.Recoverable) ∧
      ∀ (w : World) o, w.view = v → Restores began (clean && nftSucceeded c (w.perform c o).1)
        (k (w.perform c o).1) (w.perform c o).2.view

theorem Restores.steady {began v : View} {clean : Bool} {p : Operation (Except String Unit)}
    (h : Restores began clean p v) (hbegan : began.Recoverable) : v.Recoverable := by
  cases p with
  | ret answer => exact h.1 hbegan
  | call c k => exact h.1 hbegan

/-- The view is not touched before `nft.apply`, and after it the kernel is in step. -/
theorem restores_apply {v : View} {config : Config} (hactive : v.config = some config) (clean : Bool)
    (hclean : clean = true → ShowsDrift v.kernel config) :
    Restores v clean (.call (.nftApply config) fun
      | .error _ => .ret (.ok ())
      | .ok _ => .call (.ensureForwarding config) fun _ => .ret (.ok ())) v := by
  refine ⟨id, fun w o hw => ?_⟩
  rcases w.perform_nftApply config o with ⟨error, happly⟩ | ⟨t, receipt, hcompile, happly⟩
  · rw [happly, hw]
    exact ⟨id, fun _ hfalse => by simp [nftSucceeded, Except.isOk, Except.toBool] at hfalse⟩
  · rw [happly]
    have hview : ({ w with kernel := some t } : World).view = ⟨v.newest, some t.erase⟩ := by
      rw [← hw]
      rfl
    rw [hview]
    have hcompile' : compile (v.config.getD .default) = .ok t := by rw [hactive]; exact hcompile
    have hstep := inStep_of_compile_view hcompile'
    refine ⟨fun _ => hstep.recoverable, fun w' o' hw' => ?_⟩
    rw [World.view_perform rfl, hw']
    refine ⟨fun _ => hstep.recoverable, fun _ hclean' => iff_of_true hstep ⟨⟨t, hcompile'⟩, ?_⟩⟩
    have hclean'' : clean = true := by
      simp only [Bool.and_eq_true] at hclean'
      exact hclean'.1.1
    exact Or.inr ⟨config, hactive, hclean hclean''⟩

/-- **What a startup does.** -/
theorem restores_openKernel (v : View) : Restores v true Runtime.openKernel v := by
  refine ⟨id, fun w o hw => ?_⟩
  rcases w.perform_activeConfig o with ⟨error, -, hread⟩ | hread
  · rw [hread, hw]
    exact ⟨id, fun hok => nomatch hok⟩
  rw [hread, hw]
  have hconfig : v.config = w.db.activeConfig := by rw [← hw, World.view_config]
  rw [← hconfig]
  cases hactive : v.config with
  | none =>
    refine ⟨id, fun _ _ => ⟨fun h => h.recoverable, ?_⟩⟩
    rintro ⟨-, h | ⟨config, hsome, -⟩⟩
    · exact h
    · rw [hactive] at hsome
      cases hsome
  | some config =>
    refine ⟨id, fun w' o' hw' => ?_⟩
    rcases w'.perform_nftStatus config o' with ⟨error, -, hstatus⟩ | hstatus
    · rw [hstatus, hw']
      exact restores_apply hactive _ fun hclean => by
        simp [nftSucceeded, Except.isOk, Except.toBool] at hclean
    · rw [hstatus, hw']
      obtain ⟨hpresent, hdrifted⟩ := nftStatus_now o'.observedAt w'.kernel config
      dsimp only
      rw [hpresent, hdrifted]
      have hdrift : ShowsDrift v.kernel config ↔ (!(nftStatus "" w'.kernel config).tablePresent ||
          (nftStatus "" w'.kernel config).drifted) = true := by
        rw [← hw', World.view, showsDrift_erase, ShowsDrift]
        cases (nftStatus "" w'.kernel config).tablePresent <;>
          cases (nftStatus "" w'.kernel config).drifted <;> simp
      by_cases h : ShowsDrift v.kernel config
      · rw [if_pos (hdrift.mp h)]
        exact restores_apply hactive _ fun _ => h
      · rw [if_neg fun htrue => h (hdrift.mpr htrue)]
        refine ⟨id, fun _ _ => ⟨fun hstep => hstep.recoverable, ?_⟩⟩
        rintro ⟨-, hstep | ⟨config', hsome, hshows⟩⟩
        · exact hstep
        · rw [hactive] at hsome
          cases hsome
          exact absurd hshows h

/-! ### Runs -/

/-- Nobody else touches the active revisions or the rules. -/
def Undisturbed (s : Daemon) : DaemonEvent → Prop
  | .outside w => w.view = s.world.view
  | _ => True

/-- Requests come one critical section at a time, and the daemon is killed while no request is in
one, or in a world that a startup can recover. -/
def Careful (s : Daemon) : DaemonEvent → Prop
  | .request e => ∀ running, s.phase = .serving running →
      Expected ⟨s.world, running⟩ e ∧ OneAtATime ⟨s.world, running⟩ e
  | .kill => ∀ running, s.phase = .serving running →
      (⟨s.world, running⟩ : ServicePool).Unentered ∨ s.world.Recoverable
  | .outside w => w.view = s.world.view
  | _ => True

theorem Careful.undisturbed {s : Daemon} {e : DaemonEvent} (h : Careful s e) : Undisturbed s e := by
  cases e with
  | outside w => exact h
  | _ => trivial

namespace Daemon

/-- What a startup in progress promises, and what it has kept when it has ended. -/
def StartupSound (s : Daemon) : Prop :=
  match s.phase with
  | .opening began clean p => Restores began.view clean p s.world.view
  | .opened began clean => (began.Recoverable → s.world.Recoverable) ∧
      (clean = true → (s.world.InStep ↔ began.Recoverable))
  | _ => True

theorem startupSound_of_restores {began w : World} {clean : Bool}
    {p : Operation (Except String Unit)} (h : Restores began.view clean p w.view) :
    StartupSound ⟨w, startupPhase began clean p⟩ := by
  cases p with
  | call c k => exact h
  | ret answer =>
    obtain ⟨hsteady, hend⟩ := h
    rw [World.recoverable_view] at hsteady hend
    rw [World.recoverable_view] at hsteady
    rw [World.inStep_view] at hend
    cases answer with
    | error error => trivial
    | ok _ => exact ⟨hsteady, hend rfl⟩

/-- A step of the startup, or of anything else. -/
theorem StartupSound.step {s s' : Daemon} {e : DaemonEvent} (h : s.StartupSound)
    (hguard : Undisturbed s e) (hstep : s.step e = some s') : s'.StartupSound := by
  obtain ⟨w, phase⟩ := s
  cases e with
  | start =>
    cases phase with
    | down =>
      cases hstep
      exact startupSound_of_restores (restores_openKernel w.view)
    | _ => cases hstep
  | startup o =>
    cases phase with
    | opening began clean p =>
      cases p with
      | ret answer => cases hstep
      | call c k =>
        cases hstep
        exact startupSound_of_restores (h.2 w o rfl)
    | _ => cases hstep
  | serve =>
    cases phase with
    | opened began clean =>
      cases hstep
      trivial
    | _ => cases hstep
  | request e =>
    cases phase with
    | serving running =>
      obtain ⟨pool, -, rfl⟩ := Option.map_eq_some_iff.mp hstep
      trivial
    | _ => cases hstep
  | kill =>
    cases hstep
    trivial
  | outside w' =>
    cases hstep
    have hview : w'.view = w.view := hguard
    unfold StartupSound at h ⊢
    simp only [← World.recoverable_view, ← World.inStep_view, hview] at h ⊢
    exact h

/-- What is kept over careful runs: a world to start in, a startup that began in one, or requests
that keep one. -/
def Ready (s : Daemon) : Prop :=
  match s.phase with
  | .down => s.world.Recoverable
  | .opening began _ _ => began.Recoverable
  | .opened began _ => began.Recoverable
  | .serving running =>
    Pool.Sound (discipline View.Recoverable) (⟨s.world, running⟩ : ServicePool)

theorem ready_startupPhase {began w : World} {clean : Bool} {p : Operation (Except String Unit)}
    (hbegan : began.Recoverable) (h : Restores began.view clean p w.view) :
    Ready ⟨w, startupPhase began clean p⟩ := by
  cases p with
  | call c k => exact hbegan
  | ret answer =>
    cases answer with
    | error error =>
      exact (World.recoverable_view w).mp (h.steady ((World.recoverable_view began).mpr hbegan))
    | ok _ => exact hbegan

/-- **A careful step.** -/
theorem Ready.step {s s' : Daemon} {e : DaemonEvent} (h : s.Ready) (hstartup : s.StartupSound)
    (hguard : Careful s e) (hstep : s.step e = some s') : s'.Ready := by
  obtain ⟨w, phase⟩ := s
  cases e with
  | start =>
    cases phase with
    | down =>
      cases hstep
      exact ready_startupPhase h (restores_openKernel w.view)
    | _ => cases hstep
  | startup o =>
    cases phase with
    | opening began clean p =>
      cases p with
      | ret answer => cases hstep
      | call c k =>
        cases hstep
        exact ready_startupPhase h (hstartup.2 w o rfl)
    | _ => cases hstep
  | serve =>
    cases phase with
    | opened began clean =>
      cases hstep
      exact Pool.Sound.of_quiescent (fun _ => rfl) ((World.recoverable_view w).mpr (hstartup.1 h))
    | _ => cases hstep
  | request e =>
    cases phase with
    | serving running =>
      obtain ⟨pool, hpool, rfl⟩ := Option.map_eq_some_iff.mp hstep
      obtain ⟨hexpected, hone⟩ := hguard running rfl
      exact Pool.Sound.step h (exclusive_of_oneAtATime keepable_recoverable hexpected hone) hpool
    | _ => cases hstep
  | kill =>
    cases hstep
    cases phase with
    | down => exact h
    | opening began clean p =>
      exact (World.recoverable_view w).mp
        (Restores.steady hstartup ((World.recoverable_view began).mpr h))
    | opened began clean => exact hstartup.1 h
    | serving running =>
      rcases hguard running rfl with hunentered | hrecoverable
      · exact (World.recoverable_view w).mp (Pool.Sound.good h hunentered)
      · exact hrecoverable
  | outside w' =>
    cases hstep
    have hview : w'.view = w.view := hguard
    cases phase with
    | down =>
      show w'.Recoverable
      rw [← World.recoverable_view, hview, World.recoverable_view]
      exact h
    | opening began clean p => exact h
    | opened began clean => exact h
    | serving running =>
      have hexclusive : Pool.Exclusive (discipline View.Recoverable)
          (⟨w, running⟩ : ServicePool) (.outside w') := hview
      exact Pool.Sound.step h hexclusive rfl

/-- The invariant of careful runs. -/
structure Sound (s : Daemon) : Prop where
  ready : s.Ready
  startup : s.StartupSound

theorem Sound.step {s s' : Daemon} {e : DaemonEvent} (h : s.Sound) (hguard : Careful s e)
    (hstep : s.step e = some s') : s'.Sound :=
  ⟨h.ready.step h.startup hguard hstep, h.startup.step hguard.undisturbed hstep⟩

end Daemon

/-- **Restarts.**  In every run of the daemon, with any requests and killed at any moment, a startup
whose nft calls all succeed ends with the kernel in step with the newest active revision iff the
world it began in was recoverable.  And from a recoverable world it always does, when requests have
one critical section at a time and the daemon is killed while no request is in one, or in a
recoverable world. -/
theorem reopened_in_step_iff {start s : Daemon} (hdown : start.phase = .down) {began : World}
    (hopened : s.phase = .opened began true) :
    (Reaches Daemon.step Undisturbed start s → (s.world.InStep ↔ began.Recoverable)) ∧
      (start.world.Recoverable → Reaches Daemon.step Careful start s → s.world.InStep) := by
  have hstart : start.StartupSound := by
    rw [Daemon.StartupSound, hdown]
    trivial
  have hsound : s.StartupSound → (s.world.InStep ↔ began.Recoverable) := by
    intro h
    rw [Daemon.StartupSound, hopened] at h
    exact h.2 rfl
  constructor
  · exact fun hrun => hsound (hrun.invariant hstart fun _ _ _ hguard h hstep => h.step hguard hstep)
  · intro hrecoverable hrun
    have hready : start.Ready := by
      rw [Daemon.Ready, hdown]
      exact hrecoverable
    have hboth : s.Sound :=
      hrun.invariant ⟨hready, hstart⟩ fun _ _ _ hguard h hstep => h.step hguard hstep
    have hbegan := hboth.ready
    rw [Daemon.Ready, hopened] at hbegan
    exact (hsound hboth.startup).mpr hbegan

def DaemonEvent.isOutside : DaemonEvent → Bool
  | .outside _ => true
  | _ => false

/-- A schedule of the daemon's own events. -/
theorem reaches_of_runAll {start s : Daemon} {es : List DaemonEvent}
    (hown : ∀ e ∈ es, e.isOutside = false) (hrun : runAll Daemon.step start es = some s) :
    Reaches Daemon.step Undisturbed start s := by
  refine Reaches.of_runAll .start (fun s e he => ?_) hrun
  have hinside := hown e he
  cases e with
  | outside w => cases hinside
  | _ => trivial

/-- A start over `webWorld`, the first calls of an apply, a kill, and another start. -/
def interrupted : List DaemonEvent :=
  let startup := DaemonEvent.startup (smooth "" 4)
  [.start, startup, startup, .serve, .request (.arrive 0 Api.apply)] ++
    List.replicate 4 (.request (.advance 0 (smooth "" 5))) ++
    [.kill, .start, startup, startup]

theorem reopened_after_interruption :
    ∃ s, runAll Daemon.step ⟨webWorld, .down⟩ interrupted = some s ∧ s.world.InStep := by
  have hrecoverable : webWorld.Recoverable :=
    (World.recoverable_view _).mp ((World.inStep_view _).mpr webWorld_inStep).recoverable
  refine ⟨_, rfl, ((@reopened_in_step_iff ⟨webWorld, .down⟩ _ rfl webWorld rfl).1 ?_).mpr hrecoverable⟩
  exact @reaches_of_runAll _ _ interrupted (by decide) rfl

/-- A draft of `webRule` and nothing active. -/
def freshWorld : World where
  db := (Database.empty.saveDraft ⟨1, [webRule]⟩ (.at "web" (Database.noonAnd 1)) none).2
  kernel := none
  sysctl := ⟨false, false, none⟩
  exported := none
  sshdConfig := ""

/-- The first apply is killed when its batch is committed and its revision is not; then a restart. -/
def killedAfterBatch : List DaemonEvent :=
  let startup := DaemonEvent.startup (smooth "" 4)
  [.start, startup, .serve, .request (.arrive 0 Api.apply)] ++
    List.replicate 7 (.request (.advance 0 (smooth "" 5))) ++ [.kill, .start, startup]

/-- **No active revision to restore.**  The startup succeeds, and the kernel keeps forwarding by a
configuration that was never recorded. -/
theorem reopened_out_of_step :
    freshWorld.InStep ∧ ∃ s began, Reaches Daemon.step Undisturbed ⟨freshWorld, .down⟩ s ∧
      s.phase = .opened began true ∧ ¬ s.world.InStep := by
  have hrun : ∃ s began, runAll Daemon.step ⟨freshWorld, .down⟩ killedAfterBatch = some s ∧
      s.phase = .opened began true ∧ s.world.db.activeConfig = none ∧
      s.world.kernel = some (tableOf ⟨1, [webRule]⟩) :=
    ⟨_, _, rfl, rfl, by decide, rfl⟩
  obtain ⟨s, began, hrun, hopened, hactive, hkernel⟩ := hrun
  refine ⟨?_, s, began, reaches_of_runAll (by decide) hrun, hopened, ?_⟩
  · rw [World.InStep, show freshWorld.db.activeConfig = none from by decide]
    intro t ht
    cases ht
  · rw [World.InStep, hactive, hkernel]
    exact fun h => absurd (h _ rfl) (by decide)

end Portalis
