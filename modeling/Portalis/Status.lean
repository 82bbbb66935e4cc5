import Portalis.Admission
import Portalis.Reuse

/-!
# What the status shows

After an apply or a rollback that succeeded, the configuration is active, the kernel serves it and the status
says so, until the next one: saving drafts, restoring backups, traffic and restarts change nothing about it,
and another apply of the same configuration finds nothing to do.

* `routeWarnings_eq`: each target is probed once, and every one without a route is named.
* `steady_of_success`: what success means.
* `undisturbed_of_reaches`: what happens until the next apply or rollback.
-/

namespace Portalis

open Programs

/-! ### Routes -/

/-- What the kernel says of a target: no socket could be bound, or whether there is a route. -/
inductive Probe
  | unbound
  | routed
  | unrouted (error : String)

section

variable (display : IpAddr → String) (probe : IpAddr → Probe)

def noRoute (target : IpAddr) (error : String) : String :=
  "No route to target " ++ display target ++ ": " ++ error ++ "; nft apply is still allowed."

/-- The body of the loop over the enabled rules, with the targets that were seen. -/
def routeStep (acc : List IpAddr × List String) (rule : ForwardRule) : List IpAddr × List String :=
  if rule.targetIp ∈ acc.1 then acc
  else
    match probe rule.targetIp with
    | .unrouted error => (rule.targetIp :: acc.1, acc.2 ++ [noRoute display rule.targetIp error])
    | _ => (rule.targetIp :: acc.1, acc.2)

/-- `route_warnings`. -/
def routeWarnings (config : Config) : List String :=
  (config.activeRules.foldl (routeStep display probe) ([], [])).2

/-- The first occurrences of a list's elements that are not in `seen`. -/
def firstOccurrences (seen : List IpAddr) : List IpAddr → List IpAddr
  | [] => []
  | a :: rest =>
    if a ∈ seen then firstOccurrences seen rest else a :: firstOccurrences (a :: seen) rest

theorem mem_firstOccurrences {a : IpAddr} {l seen : List IpAddr} :
    a ∈ firstOccurrences seen l ↔ a ∈ l ∧ a ∉ seen := by
  induction l generalizing seen with
  | nil => simp [firstOccurrences]
  | cons b rest ih =>
    rw [firstOccurrences]
    by_cases hb : b ∈ seen
    · rw [if_pos hb, ih, List.mem_cons]
      constructor
      · intro h
        exact ⟨.inr h.1, h.2⟩
      · intro h
        rcases h.1 with rfl | hin
        · exact absurd hb h.2
        · exact ⟨hin, h.2⟩
    · rw [if_neg hb, List.mem_cons, ih, List.mem_cons, List.mem_cons]
      by_cases hab : a = b
      · subst hab
        simp [hb]
      · simp [hab]

theorem nodup_firstOccurrences (l seen : List IpAddr) : (firstOccurrences seen l).Nodup := by
  induction l generalizing seen with
  | nil => exact List.nodup_nil
  | cons b rest ih =>
    rw [firstOccurrences]
    split
    · exact ih seen
    · refine List.nodup_cons.mpr ⟨?_, ih (b :: seen)⟩
      intro hmem
      exact (mem_firstOccurrences.mp hmem).2 List.mem_cons_self

/-- The warning of one target. -/
def routeWarning (target : IpAddr) : Option String :=
  match probe target with
  | .unrouted error => some (noRoute display target error)
  | _ => none

/-- **Each target is probed once**, in the order of the enabled rules. -/
theorem routeWarnings_eq (config : Config) :
    (firstOccurrences [] (config.activeRules.map (·.targetIp))).Nodup ∧
      routeWarnings display probe config =
        (firstOccurrences [] (config.activeRules.map (·.targetIp))).filterMap
          (routeWarning display probe) := by
  have hloop : ∀ (rules : List ForwardRule) (seen : List IpAddr) (warnings : List String),
      (rules.foldl (routeStep display probe) (seen, warnings)).2 = warnings ++
        (firstOccurrences seen (rules.map (·.targetIp))).filterMap (routeWarning display probe) := by
    intro rules
    induction rules with
    | nil =>
      intro seen warnings
      show warnings = warnings ++ []
      rw [List.append_nil]
    | cons rule rest ih =>
      intro seen warnings
      rw [List.foldl_cons, List.map_cons, firstOccurrences, routeStep]
      by_cases hseen : rule.targetIp ∈ seen
      · rw [if_pos hseen, if_pos hseen, ih]
      · rw [if_neg hseen, if_neg hseen, List.filterMap_cons, routeWarning]
        cases probe rule.targetIp with
        | unrouted error => simp only [ih, List.append_assoc, List.singleton_append]
        | unbound => simp only [ih]
        | routed => simp only [ih]
  exact ⟨nodup_firstOccurrences _ [], hloop config.activeRules [] []⟩

end

/-! ### The handler -/

structure StatusReport where
  activeRevision : Option String
  draftRevision : Option String
  kernel : KernelStatus
  ipv4Forwarding : Bool
  ipv6Forwarding : Bool
  warnings : List String

def passwordWarning : String :=
  "Loopback requests bypass password authentication; configure a password before binding Portalis beyond localhost."

def ipv4Warning : String := "IPv4 forwarding is disabled for the active configuration."

def ipv6Warning : String := "IPv6 forwarding is disabled for the active configuration."

def driftWarning : String :=
  "The managed nftables table differs from the active revision or is absent."

/-- The part of `GET /api/v1/status` that can fail: the database, and the kernel, whose failure is shown. -/
def Api.statusReads :
    Operation (Except Response (Option Revision × Option Revision × KernelStatus)) :=
  .call .activeRevision fun active => .call .draftConfig fun draft =>
    match active, draft with
    | .error error, _ => .ret (.error (.internal error))
    | .ok _, .error error => .ret (.error (.internal error))
    | .ok active, .ok draft =>
      .call (.nftStatus ((active.map (·.config)).getD .default)) fun
        | .ok kernel => .ret (.ok (active, draft, kernel))
        | .error error => .ret (.ok (active, draft, ⟨false, true, 0, "error: " ++ error.text⟩))

section

variable (display : IpAddr → String) (probe : IpAddr → Probe) (hasPassword : Bool)

/-- The report, with the warnings in the order of the source. -/
def statusReport (sysctl : Sysctl) (active draft : Option Revision) (kernel : KernelStatus) :
    StatusReport :=
  let config := (active.map (·.config)).getD .default
  { activeRevision := active.map (·.id)
    draftRevision := draft.map (·.id)
    kernel := kernel
    ipv4Forwarding := sysctl.forwardingState .ipv4
    ipv6Forwarding := sysctl.forwardingState .ipv6
    warnings :=
      (if !hasPassword then [passwordWarning] else []) ++
      (if config.requiresIpv4Forwarding && !sysctl.forwardingState .ipv4 then [ipv4Warning] else []) ++
      (if config.requiresIpv6Forwarding && !sysctl.forwardingState .ipv6 then [ipv6Warning] else []) ++
      (if kernel.drifted then [driftWarning] else []) ++
      routeWarnings display probe config }

/-- `GET /api/v1/status`. -/
def Api.status (os : Outcomes) (w : World) : Except Response StatusReport :=
  (Api.statusReads.run World.performEach os w).1.map fun reads =>
    statusReport display probe hasPassword w.sysctl reads.1 reads.2.1 reads.2.2

end

/-! ### Steady worlds -/

/-- The configuration is active, valid and served. -/
structure World.Steady (w : World) (config : Config) : Prop where
  active : w.db.activeConfig = some config
  valid : ValidIn w.validationContext config
  serves : w.Serves config

variable {w : World} {config : Config}

/-- What is served is found in place. -/
theorem World.Steady.inPlace (h : w.Steady config) (now : String) :
    (nftStatus now w.kernel config).tablePresent = true ∧
      (nftStatus now w.kernel config).drifted = false := by
  have hacc := (accepted_iff _ _).mp h.valid
  obtain ⟨t, hcompile, htable⟩ := h.serves.table
  have hsame : t = tableOf config := by
    by_cases hiface : config.InterfacesOk
    · rw [hacc.compile_eq_ok hiface] at hcompile
      exact (Except.ok.inj hcompile).symm
    · rw [hacc.compile_eq_error hiface] at hcompile
      cases hcompile
  obtain ⟨there, hthere, herase⟩ := Option.map_eq_some_iff.mp htable
  have hkernel : w.kernel = some there := hthere
  rw [hkernel]
  refine (hacc.notDrifted_iff now (some there)).mpr ⟨there, rfl, fun key => ?_⟩
  rw [hsame] at herase
  exact length_keyed_of_erase_eq herase key

/-- A steady world, whose newest active revision is the given one. -/
structure SteadyAt (active : Option Revision) (config : Config) (w : World) : Prop where
  steady : w.Steady config
  newest : w.db.activeRevision = active

/-- Only the rules of the configuration are written, and no revision becomes active. -/
def Call.Minds (config : Config) : Call → Prop
  | .nftApply written => written = config
  | .nftRollback _ => False
  | .markActive _ => False
  | .markApplyError _ _ => False
  | _ => True

/-- The configuration is read. -/
def Call.Shows (config : Config) : (c : Call) → Answer c → Prop
  | .activeConfig, r => ∀ read, r = .ok (some read) → read = config
  | _, _ => True

variable {active : Option Revision}

/-- Another database with this active revision, other switches that are on, another exported file. -/
theorem SteadyAt.changed (h : SteadyAt active config w) {after : World}
    (hnewest : after.db.activeRevision = w.db.activeRevision) (hkernel : after.kernel = w.kernel)
    (hsysctl : after.sysctl.Covers w.sysctl) (hsshd : after.sshdConfig = w.sshdConfig) :
    SteadyAt active config after where
  newest := hnewest.trans h.newest
  steady :=
    { active := by
        rw [Database.activeConfig, hnewest]
        exact h.steady.active
      valid := by
        rw [World.validationContext, hsshd]
        exact h.steady.valid
      serves := {
        table := by
          show ∃ t, compile config = .ok t ∧ after.kernel.map Table.erase = some t.erase
          rw [hkernel]
          exact h.steady.serves.table
        ipv4 := fun hneeded => hsysctl .ipv4 (h.steady.serves.ipv4 hneeded)
        ipv6 := fun hneeded => hsysctl .ipv6 (h.steady.serves.ipv6 hneeded) } }

theorem SteadyAt.perform (h : SteadyAt active config w) {c : Call} (hc : c.Minds config)
    (o : Outcome) : SteadyAt active config (w.perform c o).2 := by
  have hrefl := Sysctl.Covers.refl w.sysctl
  cases c with
  | nftRollback written => cases hc
  | markActive written => cases hc
  | markApplyError id error => cases hc
  | nftApply written =>
    have hwritten : written = config := hc
    subst hwritten
    rcases w.perform_nftApply written o with ⟨error, hrun⟩ | ⟨t, receipt, hcompile, hrun⟩
    · rw [hrun]
      exact h
    · rw [hrun]
      exact ⟨⟨h.steady.active, h.steady.valid, ⟨⟨t, hcompile, rfl⟩, h.steady.serves.ipv4,
        h.steady.serves.ipv6⟩⟩, h.newest⟩
  | saveDraft draft =>
    exact h.changed (w.db.activeRevision_saveDraft draft o.now o.dbStep) rfl hrefl rfl
  | ensureForwarding other =>
    exact h.changed rfl rfl (w.sysctl.ensureForwarding_switches other o.sysctlStep).1 rfl
  | nftStatus other =>
    rcases w.perform_nftStatus other o with ⟨error, -, hrun⟩ | hrun
    · rw [hrun]
      exact h
    · rw [hrun]
      exact h
  | tableSnapshot =>
    rcases w.perform_tableSnapshot o with ⟨error, -, hrun⟩ | hrun
    · rw [hrun]
      exact h
    · rw [hrun]
      exact h
  | exportConfig other =>
    obtain ⟨answer, exported, hrun⟩ := w.perform_exportConfig other o
    rw [hrun]
    exact h.changed rfl rfl hrefl rfl
  | _ => exact h

theorem SteadyAt.shows (h : SteadyAt active config w) (c : Call) (o : Outcome) :
    c.Shows config (w.perform c o).1 := by
  cases c with
  | activeConfig =>
    intro read hread
    have hconfig : w.db.activeConfig = some read := guard_eq_ok hread
    exact (Option.some.inj (h.steady.active.symm.trans hconfig)).symm
  | _ => trivial

/-- The program writes no other rules. -/
theorem SteadyAt.run {α : Type} {p : Operation α}
    (hp : p.Heeds (Call.Minds config) (Call.Shows config) fun _ => True)
    (h : SteadyAt active config w) (os : Outcomes) :
    SteadyAt active config (p.run World.performEach os w).2 :=
  (Program.Heeds.triple (fun _ c hw hc => ⟨hw.shows c (os c), hw.perform hc (os c)⟩) hp w h).2

theorem Api.saveDraft_minds (draft : Config) :
    (Api.saveDraft draft).Heeds (Call.Minds config) (Call.Shows config) fun _ => True := by
  refine ⟨trivial, fun read _ => ?_⟩
  dsimp only
  cases draft.validate read with
  | error errors => trivial
  | ok _ =>
    refine ⟨trivial, fun r _ => ?_⟩
    cases r with
    | ok revision => trivial
    | error error => trivial

theorem Api.restoreBackup_minds (downloaded : Except String Config) :
    (Api.restoreBackup downloaded).Heeds (Call.Minds config) (Call.Shows config) fun _ => True := by
  cases downloaded with
  | error error => trivial
  | ok draft =>
    refine ⟨trivial, fun read _ => ?_⟩
    dsimp only
    cases draft.validate read with
    | error errors => trivial
    | ok _ =>
      refine ⟨trivial, fun r _ => ?_⟩
      cases r with
      | ok revision => trivial
      | error error => trivial

theorem Runtime.openKernel_minds :
    Runtime.openKernel.Heeds (Call.Minds config) (Call.Shows config) fun _ => True := by
  refine ⟨trivial, fun r hr => ?_⟩
  rcases r with error | _ | read
  · trivial
  · trivial
  · have hread : read = config := hr read rfl
    refine ⟨trivial, fun r _ => ?_⟩
    cases r with
    | error error =>
      refine ⟨hread, fun r _ => ?_⟩
      cases r with
      | error error => trivial
      | ok receipt => exact ⟨trivial, fun _ _ => trivial⟩
    | ok status =>
      dsimp only
      split
      · refine ⟨hread, fun r _ => ?_⟩
        cases r with
        | error error => trivial
        | ok receipt => exact ⟨trivial, fun _ _ => trivial⟩
      · trivial

/-! ### Until the next apply -/

/-- What happens between two activations. -/
inductive Passing
  | saveDraft (draft : Config) (os : Outcomes)
  | restoreBackup (downloaded : Except String Config) (os : Outcomes)
  | restart (os : Outcomes)
  /-- Traffic: the counters are others, the rules the same. -/
  | counted (t : Table)

def Passing.step (w : World) : Passing → Option World
  | .saveDraft draft os => some ((Api.saveDraft draft).run World.performEach os w).2
  | .restoreBackup downloaded os => some ((Api.restoreBackup downloaded).run World.performEach os w).2
  | .restart os => some (Runtime.openKernel.run World.performEach os w).2
  | .counted t =>
    if w.kernel.map Table.erase = some t.erase then some { w with kernel := some t } else none

theorem SteadyAt.step (h : SteadyAt active config w) {e : Passing} {after : World}
    (hstep : Passing.step w e = some after) : SteadyAt active config after := by
  cases e with
  | saveDraft draft os =>
    cases hstep
    exact h.run (Api.saveDraft_minds draft) os
  | restoreBackup downloaded os =>
    cases hstep
    exact h.run (Api.restoreBackup_minds downloaded) os
  | restart os =>
    cases hstep
    exact h.run Runtime.openKernel_minds os
  | counted t =>
    simp only [Passing.step] at hstep
    split at hstep
    next hsame =>
      cases hstep
      obtain ⟨written, hcompile, htable⟩ := h.steady.serves.table
      have hcounted : some t.erase = some written.erase := hsame.symm.trans htable
      exact ⟨⟨h.steady.active, h.steady.valid, ⟨⟨written, hcompile, hcounted⟩,
        h.steady.serves.ipv4, h.steady.serves.ipv6⟩⟩, h.newest⟩
    next => cases hstep

/-- A start that reads the status leaves everything, and the counters with it. -/
theorem World.Steady.restart (h : w.Steady config) {os : Outcomes}
    (hread : ∀ error, (os (.nftStatus config)).failing ≠ some (.nftStatus error)) :
    (Runtime.openKernel.run World.performEach os w).2 = w := by
  unfold Runtime.openKernel
  rcases w.perform_activeConfig (os .activeConfig) with ⟨error, -, hrun⟩ | hrun
  · rw [Program.run_call (show w.performEach .activeConfig os = _ from hrun)]
    rfl
  · rw [Program.run_call (show w.performEach .activeConfig os = _ from hrun), h.active]
    rcases @performEach_nftStatus w os config with ⟨error, hfailing, -⟩ | ⟨-, hstatus⟩
    · exact absurd hfailing (hread error)
    · obtain ⟨hpresent, hdrifted⟩ := h.inPlace (os (.nftStatus config)).observedAt
      dsimp only
      rw [Program.run_call hstatus]
      simp only [hpresent, hdrifted]
      rfl

/-- Another apply finds the rules in place. -/
theorem World.Steady.reapply (h : w.Steady config) {os : Outcomes} {draft : Revision}
    (hproceeds : w.Proceeds os draft) (hsame : draft.config = config)
    (hread : ∀ error, (os (.nftStatus config)).failing ≠ some (.nftStatus error))
    (hactive : (os .activeRevision).failing ≠ some .activeRevision) :
    Api.apply.run World.performEach os w = (.reused w.db.activeRevision, w) ∧
      Service.applyDraft.run World.performEach os w =
        (.ok "active rules already match the saved draft", w) := by
  have hreuses : w.Reuses os draft.config := by
    rw [hsame]
    refine ⟨hread, ?_, h.inPlace ""⟩
    rw [h.active, Option.getD_some]
  constructor
  · have hpaths : ((∀ draft, ¬ w.Proceeds os draft) ∧ ∃ answer, Response.isError answer = true ∧
          Api.apply.run World.performEach os w = (answer, w)) ∨
        ∃ draft, w.Proceeds os draft ∧
          ((w.Reuses os draft.config ∧ Api.apply.run World.performEach os w = _) ∨
            (¬ w.Reuses os draft.config ∧ Api.apply.run World.performEach os w =
              (Api.applyFresh draft w.previous).run World.performEach os w)) :=
      applyNewest_run (fun _ => rfl) rfl fun _ _ => rfl
    rcases hpaths with ⟨hnot, -⟩ | ⟨other, hother, ⟨-, hrun⟩ | ⟨hfresh, -⟩⟩
    · exact absurd hproceeds (hnot draft)
    · refine hrun.trans ?_
      have hcall : w.performEach .activeRevision os = (.ok w.db.activeRevision, w) :=
        congrArg (·, w) (if_neg hactive)
      rw [Program.run_call hcall]
      rfl
    · cases hproceeds.unique hother
      exact absurd hreuses hfresh
  · rcases @applyNewest_run _ Service.failed w os (.ret (.ok "active rules already match the saved draft"))
      (fun error => .error (.text error)) (.error (.text "no saved draft"))
      (fun _ errors => .error (.invalid errors)) Service.applyFresh (fun _ => rfl) rfl
      (fun _ _ => rfl) with ⟨hnot, -⟩ | ⟨other, hother, ⟨-, hrun⟩ | ⟨hfresh, -⟩⟩
    · exact absurd hproceeds (hnot draft)
    · exact hrun
    · cases hproceeds.unique hother
      exact absurd hreuses hfresh

/-- What is served is shown, without a warning about the kernel or about forwarding. -/
theorem World.Steady.status (h : w.Steady config) {display : IpAddr → String}
    {probe : IpAddr → Probe} {hasPassword : Bool} {os : Outcomes} {report : StatusReport}
    (hread : ∀ error, (os (.nftStatus config)).failing ≠ some (.nftStatus error))
    (hok : Api.status display probe hasPassword os w = .ok report) :
    report.activeRevision = w.db.activeRevision.map (·.id) ∧
      report.kernel = nftStatus (os (.nftStatus config)).observedAt w.kernel config ∧
      report.kernel.tablePresent = true ∧ report.kernel.drifted = false ∧
      report.warnings = (if !hasPassword then [passwordWarning] else []) ++
        routeWarnings display probe config := by
  have hconfig : (w.db.activeRevision.map (·.config)).getD .default = config := by
    have hactive : w.db.activeRevision.map (·.config) = some config := h.active
    rw [hactive, Option.getD_some]
  obtain ⟨hpresent, hdrifted⟩ := h.inPlace (os (.nftStatus config)).observedAt
  unfold Api.status Api.statusReads at hok
  rcases w.perform_activeRevision (os .activeRevision) with ⟨error, -, hactive⟩ | hactive
  · rw [Program.run_call (show w.performEach .activeRevision os = _ from hactive)] at hok
    rcases w.perform_draftConfig (os .draftConfig) with ⟨error, -, hdraft⟩ | hdraft
    · rw [Program.run_call (show w.performEach .draftConfig os = _ from hdraft)] at hok
      cases hok
    · rw [Program.run_call (show w.performEach .draftConfig os = _ from hdraft)] at hok
      cases hok
  rw [Program.run_call (show w.performEach .activeRevision os = _ from hactive)] at hok
  rcases w.perform_draftConfig (os .draftConfig) with ⟨error, -, hdraft⟩ | hdraft
  · rw [Program.run_call (show w.performEach .draftConfig os = _ from hdraft)] at hok
    cases hok
  rw [Program.run_call (show w.performEach .draftConfig os = _ from hdraft)] at hok
  dsimp only at hok
  rw [hconfig] at hok
  rcases @performEach_nftStatus w os config with ⟨error, hfailing, -⟩ | ⟨-, hstatus⟩
  · exact absurd hfailing (hread error)
  rw [Program.run_call hstatus] at hok
  have hreport := (Except.ok.inj hok).symm
  have hfour : (config.requiresIpv4Forwarding && !w.sysctl.forwardingState .ipv4) = false := by
    cases hneeded : config.requiresIpv4Forwarding with
    | false => rfl
    | true =>
      have hon : w.sysctl.forwardingState .ipv4 = true := h.serves.ipv4 hneeded
      rw [hon]
      rfl
  have hsix : (config.requiresIpv6Forwarding && !w.sysctl.forwardingState .ipv6) = false := by
    cases hneeded : config.requiresIpv6Forwarding with
    | false => rfl
    | true =>
      have hon : w.sysctl.forwardingState .ipv6 = true := h.serves.ipv6 hneeded
      rw [hon]
      rfl
  rw [hreport]
  refine ⟨rfl, rfl, hpresent, hdrifted, ?_⟩
  show (if !hasPassword then [passwordWarning] else []) ++ _ ++ _ ++ _ ++ routeWarnings display probe _ = _
  rw [hconfig, hfour, hsix, hdrifted]
  simp

/-- **Nothing disturbs what was applied.**  From a steady world on, drafts are saved, backups restored, packets
counted and the daemon restarted, with calls that may fail: the configuration stays active and served.  While
the table's status can be read, the status shows it without a warning about the kernel or about forwarding, a
restart leaves the counters as they are, and another apply of it that can read the active revision finds the
rules in place and changes nothing. -/
theorem undisturbed_of_reaches {start : World} (hsteady : start.Steady config)
    (h : Reaches Passing.step (fun _ _ => True) start w) (os : Outcomes)
    (hread : ∀ error, (os (.nftStatus config)).failing ≠ some (.nftStatus error)) :
    w.Steady config ∧
    (∀ display probe hasPassword report, Api.status display probe hasPassword os w = .ok report →
      report.activeRevision = start.db.activeRevision.map (·.id) ∧
        report.kernel = nftStatus (os (.nftStatus config)).observedAt w.kernel config ∧
        report.kernel.tablePresent = true ∧ report.kernel.drifted = false ∧
        report.warnings = (if !hasPassword then [passwordWarning] else []) ++
          routeWarnings display probe config) ∧
    (Runtime.openKernel.run World.performEach os w).2 = w ∧
    ∀ draft, w.Proceeds os draft → draft.config = config →
      (os .activeRevision).failing ≠ some .activeRevision →
      Api.apply.run World.performEach os w = (.reused start.db.activeRevision, w) ∧
        Service.applyDraft.run World.performEach os w =
          (.ok "active rules already match the saved draft", w) := by
  have hstart : SteadyAt start.db.activeRevision config start := ⟨hsteady, rfl⟩
  have hw : SteadyAt start.db.activeRevision config w :=
    Reaches.invariant hstart (fun _ _ _ _ hinv hstep => hinv.step hstep) h
  refine ⟨hw.steady, ?_, hw.steady.restart hread, ?_⟩
  · intro display probe hasPassword report hok
    obtain ⟨hrevision, hrest⟩ := hw.steady.status hread hok
    rw [hw.newest] at hrevision
    exact ⟨hrevision, hrest⟩
  · intro draft hproceeds hsame hactive
    obtain ⟨happly, hcommand⟩ := hw.steady.reapply hproceeds hsame hread hactive
    rw [hw.newest] at happly
    exact ⟨happly, hcommand⟩

/-- `webRule` is applied and served. -/
theorem applied_steady : appliedHistory.world.Steady ⟨1, [webRule]⟩ where
  active := by decide
  valid := show Config.validate ⟨1, [webRule]⟩ ⟨parseSshPorts ""⟩ = .ok () by decide
  serves := ⟨⟨tableOf ⟨1, [webRule]⟩, rfl, rfl⟩, fun _ => rfl, by decide⟩

/-- Another draft is saved, and the daemon restarted. -/
def afterDraft : World :=
  ((Api.saveDraft .default).run World.performEach (fun _ => smooth "other" 4) appliedHistory.world).2

theorem undisturbed_after_draft :
    (Runtime.openKernel.run World.performEach (fun _ => smooth "start" 5) afterDraft).2 = afterDraft := by
  have hrun : Reaches Passing.step (fun _ _ => True) appliedHistory.world afterDraft :=
    Reaches.start.next (.saveDraft .default fun _ => smooth "other" 4) trivial rfl
  exact (undisturbed_of_reaches applied_steady hrun (fun _ => smooth "start" 5) (fun _ => nofun)).2.2.1

/-! ### Success -/

/-- The operations that make a revision active. -/
inductive Activating
  | apply
  | rollback (revisionId : String)
  | commandApply
  | commandRollback (revisionId : String)

/-- Whether it reports an error, and the world afterwards. -/
def Activating.run (os : Outcomes) (w : World) : Activating → Bool × World
  | .apply =>
    let (answer, after) := Api.apply.run World.performEach os w
    (answer.isError, after)
  | .rollback revisionId =>
    let (answer, after) := (Api.rollback revisionId).run World.performEach os w
    (answer.isError, after)
  | .commandApply =>
    let (answer, after) := Service.applyDraft.run World.performEach os w
    (Service.failed answer, after)
  | .commandRollback revisionId =>
    let (answer, after) := (Service.rollback revisionId).run World.performEach os w
    (Service.failed answer, after)

theorem mem_of_revision {db : Database} {id : String} {r : Revision} (h : db.revision id = some r) :
    r ∈ db.revisions :=
  List.mem_of_find?_eq_some h

/-- It leaves the rows as they are, or activates the configuration of a stored revision. -/
theorem Activating.report_cases {os : Outcomes} (a : Activating) :
    ((a.run os w).2.report (a.run os w).1).rows = w.db.rows ∨
      ∃ r ∈ w.db.revisions,
        (a.run os w).2.report (a.run os w).1 = w.activationReport os r.config := by
  cases a with
  | apply =>
    rcases (@apply_report_cases w os).1 with hrows | ⟨draft, hnewest, hreport⟩
    · exact .inl hrows
    · exact .inr ⟨draft, (Database.kind_of_latestRevision hnewest).1, hreport⟩
  | rollback revisionId =>
    rcases (@rollback_report_cases w os revisionId).1 with hrefused | ⟨r, hfound, hreport⟩
    · exact .inl (congrArg Report.rows hrefused)
    · exact .inr ⟨r, mem_of_revision hfound, hreport⟩
  | commandApply =>
    rcases (@apply_report_cases w os).2 with hrows | ⟨draft, hnewest, hreport⟩
    · exact .inl hrows
    · exact .inr ⟨draft, (Database.kind_of_latestRevision hnewest).1, hreport⟩
  | commandRollback revisionId =>
    rcases (@rollback_report_cases w os revisionId).2 with hrefused | ⟨r, hfound, hreport⟩
    · exact .inl (congrArg Report.rows hrefused)
    · exact .inr ⟨r, mem_of_revision hfound, hreport⟩

/-- What is read of sshd's configuration stays the same. -/
theorem Activating.keeps_vetted {before : Option Table} {context : ValidationContext}
    (h : Vetted before context w) (a : Activating) (os : Outcomes) :
    Vetted before context (a.run os w).2 := by
  cases a with
  | apply => exact (Api.apply_heeds.run h os).2
  | rollback revisionId => exact ((Api.rollback_heeds revisionId).run h os).2
  | commandApply => exact (Service.applyDraft_heeds.run h os).2
  | commandRollback revisionId => exact ((Service.rollback_heeds revisionId).run h os).2

/-- A row that is stored at a later reading is the newest. -/
theorem activeConfig_marked {os : Outcomes} {active : Revision}
    (hmarked : (w.marked os config).1 = .ok active)
    (hlater : w.db.Later (os (.markActive config)).now.createdAt) :
    (w.marked os config).2.activeConfig = some config := by
  unfold World.marked at hmarked ⊢
  rcases w.db.markActive_cases config (os (.markActive config)).now
    (os (.markActive config)).dbStep with ⟨e, hrun⟩ | ⟨h, -, hrun⟩ | ⟨h, log, hrun⟩
  · rw [hrun] at hmarked
    cases hmarked
  · rw [hrun] at hmarked
    cases hmarked
  · rw [hrun]
    have hnewest := Database.activeRevision_append_of_later h hlater
    exact congrArg (Option.map (·.config)) hnewest

/-- An activation that succeeds stores its configuration, and leaves a steady world. -/
theorem Activating.steady_of_report {before : Option Table} {context : ValidationContext}
    (hvetted : Vetted before context w) (a : Activating) {os : Outcomes} (hvalid : ValidIn context config)
    (hreport : (a.run os w).2.report (a.run os w).1 = w.activationReport os config)
    (hdone : (a.run os w).1 = false) (hlater : w.db.Later (os (.markActive config)).now.createdAt) :
    (a.run os w).2.db.rows = w.db.rows ++ [(.active, config)] ∧ (a.run os w).2.Steady config := by
  have hfailed : (w.activationReport os config).failed = false := by
    rw [← hreport]
    exact hdone
  have hserves := activation_serves hfailed
  have hafter := a.keeps_vetted hvetted os
  rcases @World.activationReport_cases w os config with
    ⟨-, hrefused⟩ | ⟨hcompletes, t, -, hcompleted⟩ | ⟨-, -, hnot, -⟩
  · rw [hrefused] at hfailed
    cases hfailed
  · obtain ⟨active, hactive⟩ := hcompletes.marked
    have hrows : (w.marked os config).2.rows = w.db.rows ++ [(.active, config)] := by
      rcases w.marked_rows os config with ⟨⟨e, herror⟩, -⟩ | ⟨herror, -⟩ | ⟨-, -, hrows⟩
      · rw [hactive] at herror
        cases herror
      · rw [hactive] at herror
        cases herror
      · exact hrows
    refine ⟨?_, ?_, ?_, ?_⟩
    · have hsame := congrArg Report.rows (hreport.trans hcompleted)
      exact hsame.trans hrows
    · have hsame := congrArg Report.active (hreport.trans hcompleted)
      exact hsame.trans (activeConfig_marked hactive hlater)
    · rw [hafter.reads]
      exact hvalid
    · rw [← hreport] at hserves
      exact ⟨hserves.table, hserves.ipv4, hserves.ipv6⟩
  · rw [hnot] at hfailed
    cases hfailed

/-- **What success means.**  In every history from an empty database, while sshd's configuration reads the same:
an apply or a rollback that succeeds and stores a revision, at a later reading of the clock than that of the
newest active one, leaves a steady world. -/
theorem steady_of_success {start s : History} (hempty : start.world.db.revisions = [])
    (h : Reaches History.step (fun _ _ => True) start s) (a : Activating) {os : Outcomes}
    (hdone : (a.run os s.world).1 = false) (hstored : (a.run os s.world).2.db.rows ≠ s.world.db.rows)
    (hlater : ∀ c, s.world.db.Later (os c).now.createdAt) :
    ∃ config, (a.run os s.world).2.db.rows = s.world.db.rows ++ [(.active, config)] ∧
      (a.run os s.world).2.Steady config := by
  have hvetted := Vetted.of_reaches hempty h
  obtain ⟨r, hr, hreport⟩ := (@Activating.report_cases s.world os a).resolve_left hstored
  exact ⟨r.config, a.steady_of_report hvetted (hvetted.revision hr) hreport hdone (hlater _)⟩

theorem steady_after_apply :
    ∃ config, ((Activating.apply).run (fun _ => smooth "active" 2)
        (freshHistory.next savingWeb).world).2.Steady config := by
  have hsaved : Reaches History.step (fun _ _ => True) freshHistory (freshHistory.next savingWeb) :=
    Reaches.start.next savingWeb trivial rfl
  obtain ⟨config, -, hsteady⟩ := @steady_of_success freshHistory _ rfl hsaved .apply
    (fun _ => smooth "active" 2) (by decide) (by decide) (fun _ => by decide)
  exact ⟨config, hsteady⟩

end Portalis
