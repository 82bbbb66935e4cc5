import Portalis.Twins

/-!
# The reuse path

`apply` leaves the kernel alone when the draft is the active configuration, the table is there and the
drift test finds it undrifted.

* `fresh_serves`: the full path, when it succeeds, leaves a kernel that serves the draft.
* `reuse_serves_iff`: the reuse path does exactly when the kernel served the draft before.
-/

namespace Portalis

open Programs

/-- The kernel serves the configuration: the table is its compilation, up to the counters, and forwarding
is enabled for the families its rules need. -/
structure Report.Serves (r : Report) (config : Config) : Prop where
  table : ∃ t, compile config = .ok t ∧ r.kernel.map Table.erase = some t.erase
  ipv4 : config.requiresIpv4Forwarding = true → r.sysctl.ipv4Forwarding = true
  ipv6 : config.requiresIpv6Forwarding = true → r.sysctl.ipv6Forwarding = true

/-- The kernel of a world serves the configuration. -/
def World.Serves (w : World) (config : Config) : Prop := (w.report false).Serves config

section

variable {w : World} {os : Outcomes} {config : Config} {draft : Revision}

/-- **An activation that succeeds** leaves a kernel that serves the configuration. -/
theorem activation_serves (h : (w.activationReport os config).failed = false) :
    (w.activationReport os config).Serves config := by
  rcases @World.activationReport_cases w os config with
    ⟨-, hreport⟩ | ⟨hcompletes, t, hcompile, hreport⟩ | ⟨-, -, hfailed, -⟩
  · rw [hreport] at h
    cases h
  · obtain ⟨-, hswitches⟩ := w.sysctl.ensureForwarding_switches config
      (os (.ensureForwarding config)).sysctlStep
    obtain ⟨hfour, hsix⟩ := hswitches hcompletes.forwarding
    rw [hreport]
    exact ⟨⟨t, hcompile, rfl⟩, hfour, hsix⟩
  · rw [hfailed] at h
    cases h

/-- **The full path**, when it succeeds, leaves a kernel that serves the draft. -/
theorem fresh_serves :
    ((reportOf Response.isError (Api.applyFresh draft w.previous) os w).failed = false →
      (reportOf Response.isError (Api.applyFresh draft w.previous) os w).Serves draft.config) ∧
    ((reportOf Service.failed (Service.applyFresh draft w.previous) os w).failed = false →
      (reportOf Service.failed (Service.applyFresh draft w.previous) os w).Serves draft.config) := by
  constructor
  · rcases @Api.applyFresh_report w os draft with ⟨-, hreport⟩ | ⟨-, hreport⟩
    · rw [hreport]
      exact activation_serves
    · rw [hreport]
      exact nofun
  · rcases @Service.applyFresh_report w os draft with ⟨-, hreport⟩ | ⟨-, hreport⟩
    · rw [hreport]
      exact activation_serves
    · rw [hreport]
      exact nofun

/-- In the reuse path the handler leaves everything, and fails only when it cannot read the revision to
answer. -/
theorem api_reuse_report (hproceeds : w.Proceeds os draft) (hreuses : w.Reuses os draft.config) :
    reportOf Response.isError Api.apply os w =
      w.report (decide ((os .activeRevision).failing = some .activeRevision)) := by
  rcases @Api.apply_report w os with ⟨hnone, -⟩ | ⟨draft', hproceeds', hreport⟩
  · exact absurd hproceeds (hnone draft)
  · cases hproceeds.unique hproceeds'
    exact (hreport.resolve_right fun h => h.1 hreuses).2

/-- In the reuse path the command leaves everything, and succeeds. -/
theorem command_reuse_report (hproceeds : w.Proceeds os draft) (hreuses : w.Reuses os draft.config) :
    reportOf Service.failed Service.applyDraft os w = w.report false := by
  rcases @Service.apply_report w os with ⟨hnone, -⟩ | ⟨draft', hproceeds', hreport⟩
  · exact absurd hproceeds (hnone draft)
  · cases hproceeds.unique hproceeds'
    exact (hreport.resolve_right fun h => h.1 hreuses).2

/-- **When the reuse path serves the draft.**  The drift test has passed, and it compares counts; the
switches are not looked at.  The handler, when it answers, and the command leave a kernel that serves the
draft exactly when it did so before. -/
theorem reuse_serves_iff (hproceeds : w.Proceeds os draft) (hreuses : w.Reuses os draft.config) :
    (((reportOf Response.isError Api.apply os w).failed = false →
        (reportOf Response.isError Api.apply os w).Serves draft.config) ↔
      ((os .activeRevision).failing ≠ some .activeRevision → w.Serves draft.config)) ∧
    (((reportOf Service.failed Service.applyDraft os w).failed = false →
        (reportOf Service.failed Service.applyDraft os w).Serves draft.config) ↔
      w.Serves draft.config) := by
  rw [api_reuse_report hproceeds hreuses, command_reuse_report hproceeds hreuses]
  constructor
  · by_cases hread : (os .activeRevision).failing = some .activeRevision
    · rw [decide_eq_true hread]
      exact iff_of_true nofun fun h => absurd hread h
    · rw [decide_eq_false hread]
      exact ⟨fun h _ => h rfl, fun h _ => h hread⟩
  · exact ⟨fun h => h rfl, fun h _ => h⟩

end

/-- `webWorld` with the active configuration as its draft, and these switches. -/
def savedWorld (sysctl : Sysctl) : World :=
  { webWorld with
    db := (webWorld.db.saveDraft ⟨1, [webRule]⟩ (.at "saved" (Database.noonAnd 3)) none).2
    sysctl := sysctl }

def savedDraft : Revision := Database.draftRow ⟨1, [webRule]⟩ (.at "saved" (Database.noonAnd 3))

theorem savedWorld_reuses (sysctl : Sysctl) :
    (savedWorld sysctl).Proceeds (fun _ => smooth "fourth" 4) savedDraft ∧
      (savedWorld sysctl).Reuses (fun _ => smooth "fourth" 4) savedDraft.config where
  left := {
    newest := show (savedWorld ⟨true, false, none⟩).db.draftConfig = some savedDraft by decide
    read := nofun
    valid := show savedDraft.config.validate ⟨parseSshPorts ""⟩ = .ok () by decide
    activeRead := nofun }
  right := {
    statusRead := nofun
    inPlace := show (savedWorld ⟨true, false, none⟩).HasInPlace _ from
      ⟨by decide, by decide, by decide⟩ }

theorem reuse_serves_saved :
    (reportOf Service.failed Service.applyDraft (fun _ => smooth "fourth" 4)
        (savedWorld ⟨true, false, none⟩)).failed = false ∧
      (reportOf Service.failed Service.applyDraft (fun _ => smooth "fourth" 4)
        (savedWorld ⟨true, false, none⟩)).Serves savedDraft.config := by
  obtain ⟨hproceeds, hreuses⟩ := savedWorld_reuses ⟨true, false, none⟩
  have hsucceeds : (reportOf Service.failed Service.applyDraft (fun _ => smooth "fourth" 4)
      (savedWorld ⟨true, false, none⟩)).failed = false := by
    rw [command_reuse_report hproceeds hreuses]
    rfl
  refine ⟨hsucceeds, (reuse_serves_iff hproceeds hreuses).2.mpr ?_ hsucceeds⟩
  exact ⟨⟨tableOf ⟨1, [webRule]⟩, rfl, rfl⟩, fun _ => rfl, by decide⟩

/-- **Forwarding was switched off by someone else.**  The rules are in place, so `apply` succeeds
and leaves it off. -/
theorem reuse_leaves_forwarding_off :
    ¬ ∀ (w : World) (os : Outcomes) (draft : Revision), w.Proceeds os draft →
      w.Reuses os draft.config →
      ((reportOf Response.isError Api.apply os w).failed = false →
        (reportOf Response.isError Api.apply os w).Serves draft.config) ∧
      ((reportOf Service.failed Service.applyDraft os w).failed = false →
        (reportOf Service.failed Service.applyDraft os w).Serves draft.config) := by
  intro hserves
  obtain ⟨hproceeds, hreuses⟩ := savedWorld_reuses ⟨false, false, none⟩
  have hreport := command_reuse_report hproceeds hreuses
  have hleft := (hserves _ _ _ hproceeds hreuses).2
  rw [hreport] at hleft
  exact absurd ((hleft rfl).ipv4 (by decide)) (by decide)

end Portalis
