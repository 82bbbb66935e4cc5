import Portalis.RemoteBackups
import Portalis.Sha256

/-!
# Restoring an object that was replaced

`download_config` compares the bytes of an object with the entry `sha256` of the metadata beside it.  Who can
write the object can write both, so the entry tells of the upload only where it is the one of the upload.

* `downloadConfig_eq_ok`: what a download that returns has checked.
* `object_of_newlyStored`: what an upload stores, also when it fails afterwards.
* `restored_of_entry`: what can be restored from an object that has an entry.
-/

namespace Portalis

open Text

/-- What `get_object` answers: the bytes, and the metadata map if there is one. -/
structure GetObjectOutput where
  body : List UInt8
  metadata : Option (List (String × String))

namespace GetObjectOutput

variable (self : GetObjectOutput)

/-- The checksum that a download expects. -/
def expected : Option String := self.metadata.bind fun metadata => metadata.lookup "sha256"

def stored : StoredObject := ⟨self.body, self.expected⟩

end GetObjectOutput

section

variable (codecs : BackupCodecs)

/-! ### What a download checks -/

theorem downloadConfig_eq_ok {dir : S3Files} {getObject : String → Option StoredObject} {key : String}
    {restored : Config} (h : downloadConfig codecs dir getObject key = .ok restored) :
    ∃ stored text envelope, getObject key = some stored ∧
      (∀ value, stored.sha256 = some value → value = checksumOf codecs stored.body) ∧
      codecs.decodeAll stored.body = some text ∧ BackupEnvelope.ofBytes codecs text = some envelope ∧
      envelope.config = restored := by
  unfold downloadConfig at h
  split at h
  · cases h
  · split at h
    · cases h
    · split at h
      · cases h
      · next stored hget =>
        split at h
        · cases h
        · next hmatch =>
          split at h
          · cases h
          · next text htext =>
            split at h
            · cases h
            · next envelope henvelope =>
              split at h
              · cases h
              · refine ⟨stored, text, envelope, hget, fun value hvalue => ?_, htext, henvelope,
                  Except.ok.inj h⟩
                rw [hvalue, Option.any_some, decide_eq_true_eq, not_not] at hmatch
                exact hmatch

/-- A checksum spells its digest. -/
theorem checksumOf_inj {as bs : List UInt8} :
    checksumOf codecs as = checksumOf codecs bs ↔ codecs.sha256 as = codecs.sha256 bs := by
  constructor
  · intro h
    refine eq_of_flatMap_hexDigits (fun _ _ => UInt8.toNat_inj.mp) (fun octet => ?_)
      (String.ofList_injective h)
    exact octet.toNat_lt
  · intro h
    rw [checksumOf, checksumOf, h]

/-! ### What an upload stores -/

variable {codecs} {service : ListingService} {dir : S3Files} {revisionId : String} {config : Config}
  {met : UploadMet} {store : RemoteStore} {o : RemoteObject}

theorem mem_of_mem_pruneStore {start : List Char} {keep : ℕ}
    (h : o ∈ (pruneStore service met start keep store).2.objects) : o ∈ store.objects := by
  unfold pruneStore at h
  dsimp only at h
  split at h
  · exact h
  · exact (mem_deleteAll.mp h).1

/-- **The object that an upload stores**: the compressed envelope, and its checksum beside it. -/
theorem object_of_newlyStored (ho : o ∈ (uploadTo codecs service dir revisionId config met store).2.objects)
    (hnew : store.puts ≤ o.serial) :
    o.object = ⟨compressedOf codecs met.now revisionId config,
      some (checksumOf codecs (compressedOf codecs met.now revisionId config))⟩ := by
  have hwritten : ∃ profile, o ∈ (writtenTo codecs profile revisionId config met store).objects := by
    unfold uploadTo at ho
    split at ho
    · exact absurd (store.serial_lt o ho) (not_lt.mpr hnew)
    · next profile secrets hload =>
      dsimp only at ho
      split at ho
      · exact absurd (store.serial_lt o ho) (not_lt.mpr hnew)
      · exact ⟨profile, ho⟩
      · exact ⟨profile, mem_of_mem_pruneStore ho⟩
  obtain ⟨profile, hwritten⟩ := hwritten
  rw [store.mem_put_new.mp ⟨hwritten, hnew⟩]

/-- **What an entry promises.**  An object with an entry is restored only if its bytes hash to the entry, and
if the entry is the one of an upload under the key, only from the bytes and to the configuration of the
upload. -/
theorem restored_of_entry (hzstd : ∀ bytes, codecs.decodeAll (codecs.encodeAll bytes) = some bytes)
    (ho : o ∈ (uploadTo codecs service dir revisionId config met store).2.objects)
    (hnew : store.puts ≤ o.serial) {dir' : S3Files} {getObject : String → Option GetObjectOutput}
    {output : GetObjectOutput} (hget : getObject o.key = some output) {value : String}
    (hentry : output.expected = some value)
    (hcollision : codecs.sha256 output.body = codecs.sha256 o.object.body → output.body = o.object.body)
    {restored : Config}
    (h : downloadConfig codecs dir' (fun key => (getObject key).map GetObjectOutput.stored) o.key =
      .ok restored) :
    checksumOf codecs output.body = value ∧
      (o.object.sha256 = some value → output.body = o.object.body ∧ restored = config) := by
  obtain ⟨stored, text, envelope, hstored, hsum, htext, henvelope, hrestored⟩ := downloadConfig_eq_ok codecs h
  rw [hget, Option.map_some, Option.some.injEq] at hstored
  subst hstored
  have hvalue : value = checksumOf codecs output.body := hsum value hentry
  refine ⟨hvalue.symm, fun hkept => ?_⟩
  have hobject := object_of_newlyStored ho hnew
  have hbody : output.body = o.object.body := by
    refine hcollision ((checksumOf_inj codecs).mp ?_)
    rw [hobject] at hkept ⊢
    rw [← hvalue]
    exact (Option.some.inj hkept).symm
  refine ⟨hbody, ?_⟩
  have hencoded : output.stored.body =
      codecs.encodeAll ((envelopeOf met.now revisionId config).toBytes codecs) := by
    show output.body = _
    rw [hbody, hobject]
    rfl
  rw [hencoded, hzstd, Option.some.injEq] at htext
  subst htext
  rw [BackupEnvelope.envelope_of_bytes, Option.some.injEq] at henvelope
  rw [← hrestored, ← henvelope]
  rfl

end

/-! ### One backup -/

def digestCodecs : BackupCodecs := { plainCodecs with sha256 := Sha256.digest }

def nightlyMet : UploadMet := ⟨Database.noonAnd 0, Database.noonAnd 0, .done, none, fun _ => .done⟩

/-- The bytes of a backup of the configuration. -/
def backupOf (config : Config) : List UInt8 :=
  compressedOf digestCodecs (Database.noonAnd 0) nightlyRevision.id config

def nightlyObject : RemoteObject :=
  ⟨"revisions/nightly.json.zst",
    ⟨backupOf nightlyRevision.config, some (checksumOf digestCodecs (backupOf nightlyRevision.config))⟩,
    Database.noonAnd 0, 0⟩

/-- A backup of the configuration, with its own checksum as the entry. -/
def consistentOutput (config : Config) : GetObjectOutput :=
  ⟨backupOf config, some [("sha256", checksumOf digestCodecs (backupOf config))]⟩

theorem expected_consistentOutput (config : Config) : (consistentOutput config).expected =
    some (checksumOf digestCodecs (backupOf config)) := by
  show List.lookup "sha256" [("sha256", _)] = _
  rw [List.lookup_cons_self]

theorem nightlyObject_stored : nightlyObject ∈ (uploadTo digestCodecs onePage (minioFiles "")
    nightlyRevision.id nightlyRevision.config nightlyMet emptyBucket).2.objects := by
  have hkept : ¬ ∃ j, (pruneOldBackups keptBackups (uploadPages digestCodecs onePage (minioProfile "")
      nightlyRevision.id nightlyRevision.config nightlyMet emptyBucket))[j]? = some nightlyObject.key ∧
        CarriedOut nightlyMet.deletes j := by
    intro h
    obtain ⟨j, hj, -⟩ := h
    cases hj
  exact mem_deleteAll.mpr ⟨List.mem_singleton.mpr rfl, hkept⟩

/-- A backup with its own checksum is restored. -/
theorem download_consistentOutput (config : Config) :
    downloadConfig digestCodecs (minioFiles "")
        (fun _ => (some (consistentOutput config)).map GetObjectOutput.stored) nightlyObject.key =
      .ok config := by
  have hupload : uploadActive digestCodecs (minioFiles "") nightlyRevision.id config (Database.noonAnd 0)
      ⟨true, true⟩ = .ok (⟨nightlyRevision.id, nightlyObject.key, checksumOf digestCodecs (backupOf config),
        (backupOf config).length⟩, (consistentOutput config).stored) := rfl
  have hdots : ¬ containsDotDot nightlyObject.key.toList = true := by decide
  have hread := @downloadConfig_uploaded digestCodecs plainCodecs_decodeAll _ _ _ _ _ _ _ hupload
    (fun _ => (some (consistentOutput config)).map GetObjectOutput.stored) rfl
  exact hread.trans (if_neg hdots)

/-- An object that is as it was uploaded. -/
theorem restored_nightly :
    ∃ restored, downloadConfig digestCodecs (minioFiles "")
        (fun _ => (some (consistentOutput nightlyRevision.config)).map GetObjectOutput.stored)
        nightlyObject.key = .ok restored ∧
      (consistentOutput nightlyRevision.config).body = nightlyObject.object.body ∧
        restored = nightlyRevision.config := by
  have hread := download_consistentOutput nightlyRevision.config
  have hentry : (consistentOutput nightlyRevision.config).expected =
      some (checksumOf digestCodecs (backupOf nightlyRevision.config)) := expected_consistentOutput _
  refine ⟨nightlyRevision.config, hread, ?_⟩
  exact (@restored_of_entry digestCodecs onePage (minioFiles "") nightlyRevision.id nightlyRevision.config
    nightlyMet emptyBucket nightlyObject plainCodecs_decodeAll nightlyObject_stored (le_refl 0)
    (minioFiles "") (fun _ => some (consistentOutput nightlyRevision.config))
    (consistentOutput nightlyRevision.config) rfl _ hentry (fun _ => rfl) _ hread).2 rfl

/-- The bytes of a backup, from the characters of its envelope. -/
theorem backupOf_eq (config : Config) :
    backupOf config = plainCodecs.encodeAll ((Json.render ((envelopeOf (Database.noonAnd 0)
      nightlyRevision.id config).toJson digestCodecs)).flatMap String.utf8EncodeChar) := by
  show plainCodecs.encodeAll (utf8 (String.ofList _)) = _
  rw [utf8, String.toList_ofList]

theorem sha256_backups_ne : digestCodecs.sha256 (backupOf ⟨1, []⟩) ≠
    digestCodecs.sha256 (backupOf nightlyRevision.config) := by
  rw [backupOf_eq, backupOf_eq]
  decide +kernel

/-- **Bytes and entry replaced together**: the object is restored to a configuration that was never
uploaded, and its bytes do not hash to the checksum of the upload. -/
theorem replaced_backup_restored :
    ¬ ∀ (codecs : BackupCodecs) (service : ListingService) (dir dir' : S3Files) (revisionId : String)
      (config : Config) (met : UploadMet) (store : RemoteStore) (o : RemoteObject)
      (getObject : String → Option GetObjectOutput) (output : GetObjectOutput) (restored : Config),
      (∀ bytes, codecs.decodeAll (codecs.encodeAll bytes) = some bytes) →
      o ∈ (uploadTo codecs service dir revisionId config met store).2.objects → store.puts ≤ o.serial →
      getObject o.key = some output →
      (codecs.sha256 output.body = codecs.sha256 o.object.body → output.body = o.object.body) →
      downloadConfig codecs dir' (fun key => (getObject key).map GetObjectOutput.stored) o.key =
        .ok restored →
      o.object.sha256 = some (checksumOf codecs output.body) := by
  intro h
  have hcollision : digestCodecs.sha256 (consistentOutput ⟨1, []⟩).body =
      digestCodecs.sha256 nightlyObject.object.body →
        (consistentOutput ⟨1, []⟩).body = nightlyObject.object.body :=
    fun hsame => absurd hsame sha256_backups_ne
  have hrecorded := h digestCodecs onePage (minioFiles "") (minioFiles "") nightlyRevision.id
    nightlyRevision.config nightlyMet emptyBucket nightlyObject (fun _ => some (consistentOutput ⟨1, []⟩))
    (consistentOutput ⟨1, []⟩) ⟨1, []⟩ plainCodecs_decodeAll nightlyObject_stored (le_refl 0) rfl
    hcollision (download_consistentOutput ⟨1, []⟩)
  have hsame : checksumOf digestCodecs (backupOf nightlyRevision.config) =
      checksumOf digestCodecs (backupOf ⟨1, []⟩) := Option.some.inj hrecorded
  exact sha256_backups_ne ((checksumOf_inj digestCodecs).mp hsame.symm)

end Portalis
