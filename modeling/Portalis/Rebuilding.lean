import Portalis.Retention
import Portalis.Status

/-!
# A machine built anew

The bucket and its profile are all that is left.  On a machine with an empty database and without a table of
its own in the kernel, a backup is restored as a draft, and the draft is applied.

* `draft_of_restored`: what a restore that succeeds leaves.
* `steady_of_applied`: what the first apply leaves.
* `rebuilt_of_reaches`: from an upload on one machine to the rules on another.
-/

namespace Portalis

open Programs Sharing

section

variable {w : World} {os : Outcomes} {config : Config}

/-- The restored configuration is the only draft. -/
theorem draft_of_restored {revision : Revision} (hempty : w.db.revisions = [])
    (h : ((Api.restoreBackup (.ok config)).run World.performEach os w).1 = .ok revision) :
    revision.config = config ∧ config.validate w.validationContext = .ok () ∧
      ((Api.restoreBackup (.ok config)).run World.performEach os w).2.db.activeRevision = none ∧
      ((Api.restoreBackup (.ok config)).run World.performEach os w).2.db.draftConfig = some revision ∧
      ((Api.restoreBackup (.ok config)).run World.performEach os w).2.kernel = w.kernel ∧
      ((Api.restoreBackup (.ok config)).run World.performEach os w).2.validationContext =
        w.validationContext := by
  unfold Api.restoreBackup at h ⊢
  dsimp only at h ⊢
  rw [Program.run_call (w.performEach_validationContext os)] at h ⊢
  cases hvalid : config.validate w.validationContext with
  | error errors =>
    rw [hvalid] at h
    cases h
  | ok valid =>
    rw [hvalid] at h
    dsimp only at h ⊢
    have hcall : w.performEach (.saveDraft config) os =
        ((w.db.saveDraft config (os (.saveDraft config)).now (os (.saveDraft config)).dbStep).1.mapError
            (DbError.text (os (.saveDraft config)).cause),
          { w with db :=
            (w.db.saveDraft config (os (.saveDraft config)).now (os (.saveDraft config)).dbStep).2 }) := rfl
    rcases w.db.saveDraft_cases config (os (.saveDraft config)).now (os (.saveDraft config)).dbStep with
      ⟨e, hrun⟩ | ⟨hfresh, -, hrun⟩ | ⟨hfresh, log, hrun⟩
    · rw [hrun] at hcall
      rw [Program.run_call hcall] at h
      cases h
    · rw [hrun] at hcall
      rw [Program.run_call hcall] at h
      cases h
    · rw [hrun] at hcall
      rw [Program.run_call hcall] at h ⊢
      cases h
      have hrows : (w.db.append _ hfresh).revisions =
          [Database.draftRow config (os (.saveDraft config)).now] := by
        show w.db.revisions ++ [_] = [_]
        rw [hempty]
        rfl
      refine ⟨rfl, rfl, ?_, ?_, rfl, rfl⟩
      · show ((w.db.append _ hfresh).revisions.filter fun r => r.kind = .active).argmax _ = _
        rw [hrows]
        rfl
      · show ((w.db.append _ hfresh).revisions.filter fun r => r.kind = .draft).argmax _ = _
        rw [hrows]
        rfl

/-- Without a table nothing is in place: an apply that succeeds has activated the draft. -/
theorem report_of_applied {a : Activating} (ha : a = .apply ∨ a = .commandApply) (hkernel : w.kernel = none)
    (hdone : (a.run os w).1 = false) {draft : Revision} (hdraft : w.db.draftConfig = some draft) :
    (a.run os w).2.report (a.run os w).1 = w.activationReport os draft.config := by
  have hplace : ∀ config, ¬ w.HasInPlace config := by
    intro config hplace
    have hpresent := hplace.2.1
    rw [hkernel] at hpresent
    cases hpresent
  have hsame : ∀ {other}, w.Proceeds os other → other = draft := by
    intro other hproceeds
    exact Option.some.inj (hproceeds.newest.symm.trans hdraft)
  rcases ha with rfl | rfl
  · have hfailed : (reportOf Response.isError Api.apply os w).failed = false := hdone
    show reportOf Response.isError Api.apply os w = _
    rcases @Api.apply_report w os with ⟨-, hreport⟩ | ⟨other, hproceeds, ⟨hreuses, -⟩ | ⟨-, hreport⟩⟩
    · rw [hreport] at hfailed
      cases hfailed
    · exact absurd hreuses.inPlace (hplace _)
    · rw [hreport] at hfailed ⊢
      rcases @Api.applyFresh_report w os other with ⟨-, hfresh⟩ | ⟨-, hfresh⟩
      · rw [hfresh, hsame hproceeds]
      · rw [hfresh] at hfailed
        cases hfailed
  · have hfailed : (reportOf Service.failed Service.applyDraft os w).failed = false := hdone
    show reportOf Service.failed Service.applyDraft os w = _
    rcases @Service.apply_report w os with ⟨-, hreport⟩ | ⟨other, hproceeds, ⟨hreuses, -⟩ | ⟨-, hreport⟩⟩
    · rw [hreport] at hfailed
      cases hfailed
    · exact absurd hreuses.inPlace (hplace _)
    · rw [hreport] at hfailed ⊢
      rcases @Service.applyFresh_report w os other with ⟨-, hfresh⟩ | ⟨-, hfresh⟩
      · rw [hfresh, hsame hproceeds]
      · rw [hfresh] at hfailed
        cases hfailed

/-- **The first apply** of a restored configuration. -/
theorem steady_of_applied {revision : Revision} (hempty : w.db.revisions = []) (hkernel : w.kernel = none)
    (hrestored : ((Api.restoreBackup (.ok config)).run World.performEach os w).1 = .ok revision)
    {a : Activating} (ha : a = .apply ∨ a = .commandApply) {os' : Outcomes}
    (hdone : (a.run os' ((Api.restoreBackup (.ok config)).run World.performEach os w).2).1 = false) :
    (a.run os' ((Api.restoreBackup (.ok config)).run World.performEach os w).2).2.Steady config := by
  obtain ⟨hconfig, hvalid, hactive, hdraft, hsame, -⟩ := draft_of_restored hempty hrestored
  have hvetted : Vetted w.kernel w.validationContext
      ((Api.restoreBackup (.ok config)).run World.performEach os w).2 :=
    @Vetted.of_reaches ⟨w, []⟩ _ hempty (Reaches.start.next (.restoreBackup (.ok config) os) trivial rfl)
  have hreport := report_of_applied ha (hsame.trans hkernel) hdone hdraft
  rw [hconfig] at hreport
  refine (a.steady_of_report hvetted hvalid hreport hdone fun r hr => ?_).2
  rw [hactive] at hr
  cases hr

/-- A backup is restored, and what it leaves is applied: whether the apply reports an error, and the world. -/
def World.rebuild (w : World) (downloaded : Except String Config) (os : Outcomes) (a : Activating)
    (os' : Outcomes) : Bool × World :=
  a.run os' ((Api.restoreBackup downloaded).run World.performEach os w).2

end

section

variable {codecs : BackupCodecs} {member : ℕ → Prop} {k : Keepsake}

/-- **From an upload to the rules on another machine.**  However the uploads into the bucket were interleaved,
while the backup is kept as in `retained_of_reaches`: on a machine with an empty database and no table, a restore
and then an apply that both succeed leave the configuration of the revision that was uploaded active and
served. -/
theorem rebuilt_of_reaches (hzstd : ∀ bytes, codecs.decodeAll (codecs.encodeAll bytes) = some bytes)
    {bucket : RemoteStore} {x : System RemoteStore S3Process}
    (hbucket : S3Process.Keeps codecs k (bucket.under k.start))
    (h : Reaches (Sharing.step (S3Process.machine codecs) bucketPerform)
      (fun x e => Shares codecs k.start member e ∧ k.Expects codecs member x e) (.idle bucket) x)
    {i : ℕ} {artifact : BackupArtifact} (hi : member i)
    (hupload : x.process i = some (.uploaded (.ok artifact))) (hkey : artifact.key = k.key)
    {dir : S3Files} {profile : S3Profile} {secrets : S3Secrets}
    (hload : dir.loadProfile = some (profile, secrets)) (hunder : profile.allowedPrefix = k.start)
    (hdots : containsDotDot k.key.toList = false) {w : World} (hempty : w.db.revisions = [])
    (hkernel : w.kernel = none) (say : BackupError → String) {os os' : Outcomes} {revision : Revision}
    (hrestored : ((Api.restoreBackup ((downloadConfig codecs dir x.store.getObject artifact.key).mapError
      say)).run World.performEach os w).1 = .ok revision)
    {a : Activating} (ha : a = .apply ∨ a = .commandApply)
    (hdone : (w.rebuild ((downloadConfig codecs dir x.store.getObject artifact.key).mapError say) os a
      os').1 = false) :
    (w.rebuild ((downloadConfig codecs dir x.store.getObject artifact.key).mapError say) os a
      os').2.Steady k.config := by
  have hkept := Kept.of_reaches hbucket h
  have hdownload := download_of_keeps hzstd hkept.entries (hkept.present i _ hi hupload artifact rfl hkey)
    hload hunder hdots
  rw [hkey, hdownload] at hrestored hdone ⊢
  exact steady_of_applied hempty hkernel hrestored ha hdone

end

/-- One rule, backed up while another revision is, and applied on a fresh machine. -/
theorem rebuilt_web : ∃ downloaded,
    (freshHistory.world.rebuild downloaded (fun _ => smooth "draft" 1) .apply
      (fun _ => smooth "active" 2)).2.Steady ⟨1, [webRule]⟩ := by
  obtain ⟨store, hreaches⟩ := reaches_bothUploaded ⟨1, [webRule]⟩
  have hupload : bothUploaded ⟨1, [webRule]⟩ 0 =
      some (.uploaded (.ok (artifactFor ⟨1, [webRule]⟩ "one"))) := rfl
  have hkept := Kept.of_reaches (keeps_emptyBucket _) hreaches
  have hdownload := @download_of_keeps plainCodecs (firstOfTwo ⟨1, [webRule]⟩) plainCodecs_decodeAll store
    hkept.entries (hkept.present 0 _ trivial hupload _ rfl rfl) (minioFiles "") (minioProfile "") minioSecrets
    rfl rfl (by decide)
  refine ⟨_, @rebuilt_of_reaches plainCodecs (fun _ => True) (firstOfTwo ⟨1, [webRule]⟩)
    plainCodecs_decodeAll emptyBucket ⟨store, bothUploaded ⟨1, [webRule]⟩⟩ (keeps_emptyBucket _) hreaches 0
    (artifactFor ⟨1, [webRule]⟩ "one") trivial hupload rfl (minioFiles "") (minioProfile "") minioSecrets rfl
    rfl (by decide) freshHistory.world rfl rfl (fun _ => "") _ _
    (Database.draftRow ⟨1, [webRule]⟩ (smooth "draft" 1).now) ?_ .apply (Or.inl rfl) ?_⟩
  · show ((Api.restoreBackup ((downloadConfig plainCodecs (minioFiles "") store.getObject
      (firstOfTwo ⟨1, [webRule]⟩).key).mapError _)).run _ _ _).1 = _
    rw [hdownload]
    decide
  · show (World.rebuild _ ((downloadConfig plainCodecs (minioFiles "") store.getObject
      (firstOfTwo ⟨1, [webRule]⟩).key).mapError _) _ _ _).1 = _
    rw [hdownload]
    decide

end Portalis
