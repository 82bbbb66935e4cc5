import Portalis.Pruning
import Portalis.Scheduler

/-!
# What an upload leaves in the bucket

`upload_active` puts the object and then prunes, and each request may fail: it is refused, or it is carried
out and its answer is lost.  One error tells of all of them.  The scheduler enters it as a failed backup, and
a backup on demand enters nothing.

* `uploadTo_answer`: the answer is that of `uploadActive`.
* `uploadTo_error_iff`, `newlyStored_uploadTo_iff`: when an upload fails, and when its object is there then.
* `accurate_iff`: when an error, and what is entered for it, means that nothing was stored.
-/

namespace Portalis

open Ranking

/-! ### The bucket -/

/-- What becomes of a request: a lost one is carried out, but its answer does not arrive. -/
inductive RequestOutcome
  | done
  | refused
  | lost
  deriving DecidableEq

/-- An object, and the number of the put that wrote it. -/
structure RemoteObject where
  key : String
  object : StoredObject
  modified : DateTime
  serial : ℕ
  deriving DecidableEq

structure RemoteStore where
  objects : List RemoteObject
  puts : ℕ
  keys_nodup : (objects.map (·.key)).Nodup
  serial_lt : ∀ o ∈ objects, o.serial < puts

namespace RemoteStore

variable (self : RemoteStore)

def delete (key : String) : RemoteStore where
  objects := self.objects.filter fun o => o.key ≠ key
  puts := self.puts
  keys_nodup := self.keys_nodup.sublist (List.filter_sublist.map _)
  serial_lt o ho := self.serial_lt o (List.mem_of_mem_filter ho)

theorem mem_delete {key : String} {o : RemoteObject} :
    o ∈ (self.delete key).objects ↔ o ∈ self.objects ∧ o.key ≠ key := by
  rw [delete, List.mem_filter, decide_eq_true_eq]

theorem key_notMem_delete (key : String) : key ∉ (self.delete key).objects.map (·.key) := by
  intro hmem
  obtain ⟨o, ho, hkey⟩ := List.mem_map.mp hmem
  exact (self.mem_delete.mp ho).2 hkey

/-- The object that was under the key is replaced. -/
def put (key : String) (object : StoredObject) (modified : DateTime) : RemoteStore where
  objects := (self.delete key).objects ++ [⟨key, object, modified, self.puts⟩]
  puts := self.puts + 1
  keys_nodup := by
    rw [List.map_append, List.map_singleton]
    exact List.nodup_append_comm.mp
      (List.nodup_cons.mpr ⟨self.key_notMem_delete key, (self.delete key).keys_nodup⟩)
  serial_lt := by
    intro o ho
    rcases List.mem_append.mp ho with hold | hnew
    · exact Nat.lt_succ_of_lt (self.serial_lt o (self.mem_delete.mp hold).1)
    · rw [List.mem_singleton.mp hnew]
      exact Nat.lt_succ_self _

/-- An object that was not there before. -/
def NewlyStored (after : RemoteStore) : Prop := ∃ o ∈ after.objects, self.puts ≤ o.serial

theorem not_newlyStored_self : ¬ self.NewlyStored self := by
  intro h
  obtain ⟨o, ho, hnew⟩ := h
  exact absurd (self.serial_lt o ho) (not_lt.mpr hnew)

/-- The one new object of a put. -/
theorem mem_put_new {key : String} {object : StoredObject} {modified : DateTime} {o : RemoteObject} :
    o ∈ (self.put key object modified).objects ∧ self.puts ≤ o.serial ↔
      o = ⟨key, object, modified, self.puts⟩ := by
  constructor
  · intro h
    rcases List.mem_append.mp h.1 with hold | hnew
    · exact absurd (self.serial_lt o (self.mem_delete.mp hold).1) (not_lt.mpr h.2)
    · exact List.mem_singleton.mp hnew
  · intro h
    rw [h]
    exact ⟨List.mem_append_right _ (List.mem_singleton.mpr rfl), le_refl _⟩

end RemoteStore

/-- The listing of a prefix: each object under it once, on whatever page and in whatever order. -/
structure ListingService where
  list : RemoteStore → List Char → List (List ListedObject)
  list_perm : ∀ store start, (list store start).flatten.Perm
    ((store.objects.filter fun o => start.isPrefixOf o.key.toList).map
      fun o => ⟨some o.key, some o.modified⟩)

namespace ListingService

variable (service : ListingService) (store : RemoteStore) (start : List Char)

def listing : BackupListing where
  pages := service.list store start
  keys_nodup := by
    rw [((service.list_perm store start).filterMap _).nodup_iff, List.filterMap_map]
    have hkeys : List.filterMap ((fun object : ListedObject => object.key) ∘
        fun o : RemoteObject => ⟨some o.key, some o.modified⟩)
          (store.objects.filter fun o => start.isPrefixOf o.key.toList) =
        (store.objects.filter fun o => start.isPrefixOf o.key.toList).map (·.key) :=
      congrFun (List.filterMap_eq_map (f := fun o : RemoteObject => o.key)) _
    rw [hkeys]
    exact store.keys_nodup.sublist (List.filter_sublist.map _)

variable {service store start}

theorem mem_objectsOf {o : RemoteObject} (h : o ∈ store.objects) (hstart : start <+: o.key.toList) :
    (o.key, some o.modified) ∈ objectsOf (service.list store start) := by
  have hlisted : (⟨some o.key, some o.modified⟩ : ListedObject) ∈
      (service.list store start).flatten := by
    rw [(service.list_perm store start).mem_iff, List.mem_map]
    exact ⟨o, List.mem_filter.mpr ⟨h, List.isPrefixOf_iff_prefix.mpr hstart⟩, rfl⟩
  exact List.mem_filterMap.mpr ⟨_, hlisted, rfl⟩

end ListingService

/-! ### Deletions -/

/-- The deletions of a pruning, until one fails. -/
def deleteAll (store : RemoteStore) : List String → (ℕ → RequestOutcome) →
    Except BackupError Unit × RemoteStore
  | [], _ => (.ok (), store)
  | key :: keys, deletes =>
    match deletes 0 with
    | .done => deleteAll (store.delete key) keys fun i => deletes (i + 1)
    | .refused => (.error .prune, store)
    | .lost => (.error .prune, store.delete key)

/-- The request is made, and carried out. -/
def CarriedOut (deletes : ℕ → RequestOutcome) (j : ℕ) : Prop :=
  (∀ i < j, deletes i = .done) ∧ deletes j ≠ .refused

theorem carriedOut_zero_iff {deletes : ℕ → RequestOutcome} :
    CarriedOut deletes 0 ↔ deletes 0 ≠ .refused :=
  and_iff_right fun i hi => absurd hi (Nat.not_lt_zero i)

theorem carriedOut_succ_iff {deletes : ℕ → RequestOutcome} (h : deletes 0 = .done) (j : ℕ) :
    CarriedOut deletes (j + 1) ↔ CarriedOut (fun i => deletes (i + 1)) j := by
  refine and_congr_left fun _ => ?_
  constructor
  · intro hall i hi
    exact hall (i + 1) (Nat.succ_lt_succ hi)
  · intro hall i hi
    cases i with
    | zero => exact h
    | succ i => exact hall i (Nat.lt_of_succ_lt_succ hi)

theorem carriedOut_of_not_done {deletes : ℕ → RequestOutcome} (h : deletes 0 ≠ .done) {j : ℕ}
    (hj : CarriedOut deletes j) : j = 0 := by
  cases j with
  | zero => rfl
  | succ j => exact absurd (hj.1 0 (Nat.succ_pos j)) h

/-- **What deletions leave.** -/
theorem mem_deleteAll {keys : List String} {o : RemoteObject} :
    ∀ {store : RemoteStore} {deletes : ℕ → RequestOutcome},
      o ∈ (deleteAll store keys deletes).2.objects ↔
        o ∈ store.objects ∧ ¬ ∃ j, keys[j]? = some o.key ∧ CarriedOut deletes j := by
  induction keys with
  | nil =>
    intro store deletes
    refine (and_iff_left ?_).symm
    intro h
    obtain ⟨j, hj, -⟩ := h
    cases hj
  | cons key keys ih =>
    intro store deletes
    have hfirst : (key :: keys)[0]? = some o.key ↔ o.key = key := by
      rw [List.getElem?_cons_zero, Option.some.injEq]
      exact eq_comm
    rw [deleteAll]
    cases houtcome : deletes 0 with
    | done =>
      have hzero : CarriedOut deletes 0 := carriedOut_zero_iff.mpr (by simp [houtcome])
      show o ∈ (deleteAll (store.delete key) keys _).2.objects ↔ _
      rw [ih, store.mem_delete, and_assoc]
      refine and_congr_right fun _ => ?_
      constructor
      · intro h hdeleted
        obtain ⟨j, hkey, hcarried⟩ := hdeleted
        cases j with
        | zero => exact h.1 (hfirst.mp hkey)
        | succ j => exact h.2 ⟨j, hkey, (carriedOut_succ_iff houtcome j).mp hcarried⟩
      · intro h
        constructor
        · intro hkey
          exact h ⟨0, hfirst.mpr hkey, hzero⟩
        · intro hdeleted
          obtain ⟨j, hkey, hcarried⟩ := hdeleted
          exact h ⟨j + 1, hkey, (carriedOut_succ_iff houtcome j).mpr hcarried⟩
    | refused =>
      have hnot : deletes 0 ≠ .done := by simp [houtcome]
      refine (and_iff_left ?_).symm
      intro h
      obtain ⟨j, -, hcarried⟩ := h
      rw [carriedOut_of_not_done hnot hcarried] at hcarried
      exact hcarried.2 houtcome
    | lost =>
      have hnot : deletes 0 ≠ .done := by simp [houtcome]
      have hzero : CarriedOut deletes 0 := carriedOut_zero_iff.mpr (by simp [houtcome])
      show o ∈ (store.delete key).objects ↔ _
      rw [store.mem_delete]
      refine and_congr_right fun _ => ?_
      constructor
      · intro hkey h
        obtain ⟨j, hsame, hcarried⟩ := h
        rw [carriedOut_of_not_done hnot hcarried] at hsame
        exact hkey (hfirst.mp hsame)
      · intro h hkey
        exact h ⟨0, hfirst.mpr hkey, hzero⟩

theorem deleteAll_ok_iff {keys : List String} : ∀ {store : RemoteStore} {deletes : ℕ → RequestOutcome},
    (deleteAll store keys deletes).1 = .ok () ↔ ∀ i < keys.length, deletes i = .done := by
  induction keys with
  | nil =>
    intro store deletes
    exact iff_of_true rfl fun i hi => absurd hi (Nat.not_lt_zero i)
  | cons key keys ih =>
    intro store deletes
    rw [deleteAll]
    cases houtcome : deletes 0 with
    | done =>
      show (deleteAll (store.delete key) keys _).1 = .ok () ↔ _
      rw [ih]
      constructor
      · intro hall i hi
        cases i with
        | zero => exact houtcome
        | succ i => exact hall i (Nat.lt_of_succ_lt_succ hi)
      · intro hall i hi
        exact hall (i + 1) (Nat.succ_lt_succ hi)
    | refused =>
      refine iff_of_false (fun hok => ?_) fun hall => ?_
      · cases hok
      · rw [hall 0 (Nat.succ_pos _)] at houtcome
        cases houtcome
    | lost =>
      refine iff_of_false (fun hok => ?_) fun hall => ?_
      · cases hok
      · rw [hall 0 (Nat.succ_pos _)] at houtcome
        cases houtcome

theorem deleteAll_error {keys : List String} {error : BackupError} :
    ∀ {store : RemoteStore} {deletes : ℕ → RequestOutcome},
      (deleteAll store keys deletes).1 = .error error → error = .prune := by
  induction keys with
  | nil =>
    intro store deletes h
    cases h
  | cons key keys ih =>
    intro store deletes h
    rw [deleteAll] at h
    split at h
    · exact ih h
    · cases h
      rfl
    · cases h
      rfl

/-! ### Uploads -/

/-- What the requests of an upload meet: the put, the page that fails, the deletions one after the other. -/
structure UploadMet where
  now : DateTime
  modified : DateTime
  put : RequestOutcome
  failingPage : Option ℕ
  deletes : ℕ → RequestOutcome

/-- A page that is asked for fails. -/
def UploadMet.failsPage (met : UploadMet) (pages : List (List ListedObject)) : Bool :=
  met.failingPage.any fun i => i < pages.length

/-- How many objects an upload keeps. -/
def keptBackups : ℕ := 10

section

variable (codecs : BackupCodecs) (service : ListingService) (dir : S3Files)

/-- `prune_old_backups` on the bucket. -/
def pruneStore (met : UploadMet) (start : List Char) (keep : ℕ) (store : RemoteStore) :
    Except BackupError Unit × RemoteStore :=
  let pages := service.list store start
  if met.failsPage pages then (.error .prune, store)
  else deleteAll store (pruneOldBackups keep pages) met.deletes

def compressedOf (now : DateTime) (revisionId : String) (config : Config) : List UInt8 :=
  codecs.encodeAll ((envelopeOf now revisionId config).toBytes codecs)

/-- The bucket with the object of an upload. -/
def writtenTo (profile : S3Profile) (revisionId : String) (config : Config) (met : UploadMet)
    (store : RemoteStore) : RemoteStore :=
  let compressed := compressedOf codecs met.now revisionId config
  store.put (profile.backupKey revisionId) ⟨compressed, some (checksumOf codecs compressed)⟩ met.modified

/-- `upload_active` on the bucket. -/
def uploadTo (revisionId : String) (config : Config) (met : UploadMet) (store : RemoteStore) :
    Except BackupError BackupArtifact × RemoteStore :=
  match dir.loadProfile with
  | none => (.error .notConfigured, store)
  | some (profile, _) =>
    let compressed := compressedOf codecs met.now revisionId config
    let written := writtenTo codecs profile revisionId config met store
    match met.put with
    | .refused => (.error .upload, store)
    | .lost => (.error .upload, written)
    | .done =>
      let (answer, after) := pruneStore service met profile.allowedPrefix keptBackups written
      (answer.map fun _ => ⟨revisionId, profile.backupKey revisionId, checksumOf codecs compressed,
        compressed.length⟩, after)

theorem pruneStore_error {met : UploadMet} {start : List Char} {keep : ℕ} {store : RemoteStore}
    {error : BackupError} (h : (pruneStore service met start keep store).1 = .error error) :
    error = .prune := by
  unfold pruneStore at h
  dsimp only at h
  split at h
  · cases h
    rfl
  · exact deleteAll_error h

/-- **The answer is that of `uploadActive`**, which knows whether the put and the pruning answered. -/
theorem uploadTo_answer (revisionId : String) (config : Config) (met : UploadMet) (store : RemoteStore) :
    (uploadTo codecs service dir revisionId config met store).1 =
      (uploadActive codecs dir revisionId config met.now ⟨met.put = .done, dir.loadProfile.any fun files =>
        (pruneStore service met files.1.allowedPrefix keptBackups
          (writtenTo codecs files.1 revisionId config met store)).1.isOk⟩).map (·.1) := by
  unfold uploadTo uploadActive
  cases dir.loadProfile with
  | none => rfl
  | some files =>
    obtain ⟨profile, secrets⟩ := files
    cases met.put with
    | refused => rfl
    | lost => rfl
    | done =>
      dsimp only
      rw [Option.any_some]
      cases hprune : (pruneStore service met profile.allowedPrefix keptBackups
          (writtenTo codecs profile revisionId config met store)).1 with
      | error error =>
        rw [pruneStore_error service hprune]
        rfl
      | ok _ => rfl

variable {codecs service dir} {profile : S3Profile} {secrets : S3Secrets} {revisionId : String}
  {config : Config} {met : UploadMet} {store : RemoteStore}

/-- The listing that the pruning of an upload sees. -/
def uploadPages (codecs : BackupCodecs) (service : ListingService) (profile : S3Profile)
    (revisionId : String) (config : Config) (met : UploadMet) (store : RemoteStore) :
    List (List ListedObject) :=
  service.list (writtenTo codecs profile revisionId config met store) profile.allowedPrefix

/-- A page fails, or one of the deletions after the first ten objects. -/
def PruneFails (met : UploadMet) (pages : List (List ListedObject)) : Prop :=
  met.failsPage pages = true ∨
    ∃ i, keptBackups + i < (objectsOf pages).length ∧ met.deletes i ≠ .done

/-- The object itself is among the deletions that are carried out. -/
def PrunesObject (met : UploadMet) (pages : List (List ListedObject)) (object : String × Option DateTime) :
    Prop :=
  met.failsPage pages = false ∧ ∃ j, rank sortText (objectsOf pages) object = keptBackups + j ∧
    CarriedOut met.deletes j

/-- **When an upload fails.** -/
theorem uploadTo_error_iff (hload : dir.loadProfile = some (profile, secrets)) :
    (∃ error, (uploadTo codecs service dir revisionId config met store).1 = .error error) ↔
      met.put ≠ .done ∨ PruneFails met (uploadPages codecs service profile revisionId config met store) := by
  unfold uploadTo
  rw [hload]
  dsimp only
  cases hput : met.put with
  | refused => exact iff_of_true ⟨_, rfl⟩ (Or.inl (by simp))
  | lost => exact iff_of_true ⟨_, rfl⟩ (Or.inl (by simp))
  | done =>
    have hanswer : (∃ error, (((pruneStore service met profile.allowedPrefix keptBackups
          (writtenTo codecs profile revisionId config met store)).1.map fun _ =>
            (⟨revisionId, profile.backupKey revisionId,
              checksumOf codecs (compressedOf codecs met.now revisionId config),
              (compressedOf codecs met.now revisionId config).length⟩ : BackupArtifact)) = .error error)) ↔
        (pruneStore service met profile.allowedPrefix keptBackups
          (writtenTo codecs profile revisionId config met store)).1 ≠ .ok () := by
      cases (pruneStore service met profile.allowedPrefix keptBackups
          (writtenTo codecs profile revisionId config met store)).1 with
      | error error => exact iff_of_true ⟨error, rfl⟩ fun h => (by cases h)
      | ok _ =>
        refine iff_of_false (fun h => ?_) fun hne => hne rfl
        obtain ⟨error, herror⟩ := h
        cases herror
    refine hanswer.trans ?_
    show (pruneStore service met profile.allowedPrefix keptBackups _).1 ≠ _ ↔ _
    unfold pruneStore PruneFails
    dsimp only
    show _ ↔ RequestOutcome.done ≠ RequestOutcome.done ∨ _
    rw [← uploadPages]
    by_cases hpage : met.failsPage (uploadPages codecs service profile revisionId config met store) = true
    · rw [if_pos hpage]
      exact iff_of_true (fun h => (by cases h)) (Or.inr (Or.inl hpage))
    · rw [if_neg hpage, Ne, deleteAll_ok_iff, length_pruneOldBackups]
      constructor
      · intro hnot
        obtain ⟨i, hi⟩ := not_forall.mp hnot
        rw [Classical.not_imp] at hi
        exact Or.inr (Or.inr ⟨i, by omega, hi.2⟩)
      · intro h hall
        rcases h with h | h | ⟨i, hi, hfails⟩
        · exact h rfl
        · exact hpage h
        · exact hfails (hall i (by omega))

/-- The object of an upload is under the prefix that is listed. -/
theorem mem_uploadPages :
    (profile.backupKey revisionId, some met.modified) ∈
      objectsOf (uploadPages codecs service profile revisionId config met store) := by
  have hstart : profile.allowedPrefix <+: (profile.backupKey revisionId).toList := by
    rw [S3Profile.backupKey, String.toList_ofList]
    exact List.prefix_append _ _
  exact ListingService.mem_objectsOf (store.mem_put_new.mpr rfl).1 hstart

theorem newlyStored_writtenTo :
    store.NewlyStored (writtenTo codecs profile revisionId config met store) :=
  ⟨_, (store.mem_put_new.mpr rfl).1, le_refl _⟩

/-- The place of the object of an upload among the deletions is its rank after the first ten. -/
theorem getElem?_deleted_iff (j : ℕ) :
    (pruneOldBackups keptBackups
        (uploadPages codecs service profile revisionId config met store))[j]? =
          some (profile.backupKey revisionId) ↔
      rank sortText (objectsOf (uploadPages codecs service profile revisionId config met store))
        (profile.backupKey revisionId, some met.modified) = keptBackups + j :=
  @getElem?_pruneOldBackups_iff (service.listing (writtenTo codecs profile revisionId config met store)
    profile.allowedPrefix) keptBackups _ mem_uploadPages j

/-- What the pruning after an upload leaves of its object. -/
theorem newlyStored_pruneStore_iff :
    store.NewlyStored (pruneStore service met profile.allowedPrefix keptBackups
        (writtenTo codecs profile revisionId config met store)).2 ↔
      ¬ PrunesObject met (uploadPages codecs service profile revisionId config met store)
        (profile.backupKey revisionId, some met.modified) := by
  unfold pruneStore PrunesObject
  dsimp only
  rw [← uploadPages]
  by_cases hpage : met.failsPage (uploadPages codecs service profile revisionId config met store) = true
  · rw [if_pos hpage]
    refine iff_of_true newlyStored_writtenTo fun h => ?_
    rw [hpage] at h
    cases h.1
  · rw [if_neg hpage, and_iff_right (Bool.eq_false_iff.mpr hpage)]
    constructor
    · intro h hdeleted
      obtain ⟨o, ho, hnew⟩ := h
      rw [mem_deleteAll] at ho
      have hsame := store.mem_put_new.mp ⟨ho.1, hnew⟩
      obtain ⟨j, hrank, hcarried⟩ := hdeleted
      refine ho.2 ⟨j, ?_, hcarried⟩
      rw [hsame]
      exact (getElem?_deleted_iff j).mpr hrank
    · intro hkept
      have hobject := store.mem_put_new.mpr (Eq.refl (⟨profile.backupKey revisionId,
        ⟨compressedOf codecs met.now revisionId config,
          some (checksumOf codecs (compressedOf codecs met.now revisionId config))⟩,
        met.modified, store.puts⟩ : RemoteObject))
      refine ⟨_, mem_deleteAll.mpr ⟨hobject.1, fun hdeleted => ?_⟩, le_refl _⟩
      obtain ⟨j, hkey, hcarried⟩ := hdeleted
      exact hkept ⟨j, (getElem?_deleted_iff j).mp hkey, hcarried⟩

/-- **When its object is stored**: when the put is carried out, unless the pruning deletes it. -/
theorem newlyStored_uploadTo_iff (hload : dir.loadProfile = some (profile, secrets)) :
    store.NewlyStored (uploadTo codecs service dir revisionId config met store).2 ↔
      met.put = .lost ∨ met.put = .done ∧
        ¬ PrunesObject met (uploadPages codecs service profile revisionId config met store)
          (profile.backupKey revisionId, some met.modified) := by
  unfold uploadTo
  rw [hload]
  dsimp only
  cases hput : met.put with
  | refused => exact iff_of_false store.not_newlyStored_self (by simp)
  | lost => exact iff_of_true newlyStored_writtenTo (Or.inl rfl)
  | done =>
    rw [or_iff_right (by simp), and_iff_right rfl]
    exact newlyStored_pruneStore_iff

end

/-! ### What is entered of a backup -/

/-- The bucket and the table of backups. -/
structure BackupState where
  store : RemoteStore
  rows : List BackupRow

/-- What a backup meets: the newest active revision, the failures of the queries, the requests to the bucket,
and the text of an error that is a library's. -/
structure BackupMet where
  active : Except String (Option Revision)
  lookupError : Option String
  upload : UploadMet
  cause : String
  recordError : Option String

/-- The row of an upload that returned. -/
def uploadedRow (revisionId : String) (artifact : BackupArtifact) : BackupRow :=
  ⟨revisionId, artifact.key, artifact.sha256, artifact.sizeBytes, "uploaded", none⟩

def failedRow (revisionId error : String) : BackupRow := ⟨revisionId, "", "", 0, "failed", some error⟩

def BackupMet.errorText (met : BackupMet) (error : BackupError) : String := error.text.getD met.cause

namespace BackupState

variable (codecs : BackupCodecs) (service : ListingService) (dir : S3Files)

/-- The upload of a revision. -/
def upload (s : BackupState) (met : BackupMet) (revision : Revision) :
    Except BackupError BackupArtifact × RemoteStore :=
  uploadTo codecs service dir revision.id revision.config met.upload s.store

/-- `backup_active_if_new` on the bucket. -/
def backupActiveIfNew (s : BackupState) (met : BackupMet) : Except String Bool × BackupState :=
  match met.active with
  | .error error => (.error error, s)
  | .ok none => (.ok false, s)
  | .ok (some revision) =>
    match met.lookupError with
    | some error => (.error error, s)
    | none =>
      if hasSuccessfulBackup s.rows revision.id then (.ok false, s)
      else
        match s.upload codecs service dir met revision with
        | (.ok artifact, store) =>
          match backupRecord s.rows (uploadedRow revision.id artifact) met.recordError with
          | (.ok (), rows) => (.ok true, ⟨store, rows⟩)
          | (.error error, rows) => (.error error, ⟨store, rows⟩)
        | (.error error, store) =>
          match backupRecord s.rows (failedRow revision.id (met.errorText error)) met.recordError with
          | (.ok (), rows) => (.error (met.errorText error), ⟨store, rows⟩)
          | (.error recordError, rows) => (.error recordError, ⟨store, rows⟩)

/-- A backup on demand: `backup` of the API, and of the command line. -/
def backup (s : BackupState) (met : BackupMet) : Except String BackupArtifact × BackupState :=
  match met.active with
  | .error error => (.error error, s)
  | .ok none => (.error "no active revision", s)
  | .ok (some revision) =>
    match s.upload codecs service dir met revision with
    | (.ok artifact, store) =>
      match backupRecord s.rows (uploadedRow revision.id artifact) met.recordError with
      | (.ok (), rows) => (.ok artifact, ⟨store, rows⟩)
      | (.error error, rows) => (.error error, ⟨store, rows⟩)
    | (.error error, store) => (.error (met.errorText error), ⟨store, s.rows⟩)

/-- **The answer and the table are those of the scheduler.** -/
theorem backupActiveIfNew_rows (s : BackupState) (met : BackupMet) (elapsed : ℕ)
    {upload : Except String BackupArtifact}
    (hupload : ∀ revision, met.active = .ok (some revision) →
      upload = (s.upload codecs service dir met revision).1.mapError met.errorText) :
    (s.backupActiveIfNew codecs service dir met).1 =
        (Portalis.backupActiveIfNew s.rows ⟨met.active.map (Option.map (·.id)), met.lookupError, upload,
          met.recordError, elapsed⟩).1 ∧
      (s.backupActiveIfNew codecs service dir met).2.rows =
        (Portalis.backupActiveIfNew s.rows ⟨met.active.map (Option.map (·.id)), met.lookupError, upload,
          met.recordError, elapsed⟩).2 := by
  unfold backupActiveIfNew Portalis.backupActiveIfNew
  cases hactive : met.active with
  | error error => exact ⟨rfl, rfl⟩
  | ok active =>
    cases active with
    | none => exact ⟨rfl, rfl⟩
    | some revision =>
      rw [hupload revision hactive]
      cases met.lookupError with
      | some error => exact ⟨rfl, rfl⟩
      | none =>
        dsimp only [Except.map, Option.map]
        split
        · exact ⟨rfl, rfl⟩
        · rcases hrun : s.upload codecs service dir met revision with ⟨answer, store⟩
          cases answer with
          | error error =>
            dsimp only [Except.mapError]
            unfold backupRecord failedRow
            cases met.recordError with
            | none => exact ⟨rfl, rfl⟩
            | some recordError => exact ⟨rfl, rfl⟩
          | ok artifact =>
            dsimp only [Except.mapError]
            unfold backupRecord uploadedRow
            cases met.recordError with
            | none => exact ⟨rfl, rfl⟩
            | some recordError => exact ⟨rfl, rfl⟩

end BackupState

/-! ### What a record says -/

/-- Who asks for a backup. -/
inductive BackupCaller
  | scheduled
  | manual
  deriving DecidableEq

namespace BackupCaller

variable (codecs : BackupCodecs) (service : ListingService) (dir : S3Files)

/-- The state afterwards. -/
def run (caller : BackupCaller) (s : BackupState) (met : BackupMet) : BackupState :=
  match caller with
  | scheduled => (s.backupActiveIfNew codecs service dir met).2
  | manual => (s.backup codecs service dir met).2

/-- The table says that the backup failed, or after a backup on demand it says nothing. -/
def Disowns (caller : BackupCaller) (before after : BackupState) (revisionId : String) : Prop :=
  match caller with
  | scheduled => ∃ error, after.rows = failedRow revisionId error :: before.rows
  | manual => after.rows = before.rows

/-- An upload that fails leaves no new object, and where the table disowns the backup there is none. -/
def Accurate (caller : BackupCaller) (s : BackupState) (met : BackupMet) : Prop :=
  ∀ revision, met.active = .ok (some revision) →
    (∀ error, (s.upload codecs service dir met revision).1 = .error error →
      ¬ s.store.NewlyStored (s.upload codecs service dir met revision).2) ∧
    (caller.Disowns s (caller.run codecs service dir s met) revision.id →
      ¬ s.store.NewlyStored (caller.run codecs service dir s met).store)

/-- The object of the upload stays. -/
def Stays (profile : S3Profile) (s : BackupState) (met : BackupMet) (revision : Revision) : Prop :=
  met.upload.put = .lost ∨ met.upload.put = .done ∧
    ¬ PrunesObject met.upload
      (uploadPages codecs service profile revision.id revision.config met.upload s.store)
      (profile.backupKey revision.id, some met.upload.modified)

/-- A request of the upload fails. -/
def Fails (profile : S3Profile) (s : BackupState) (met : BackupMet) (revision : Revision) : Prop :=
  met.upload.put ≠ .done ∨ PruneFails met.upload
    (uploadPages codecs service profile revision.id revision.config met.upload s.store)

variable {codecs service dir} {s : BackupState} {met : BackupMet} {revision : Revision}

/-- Without a profile nothing is stored. -/
theorem not_newlyStored_of_unconfigured (h : dir.loadProfile = none) :
    ¬ s.store.NewlyStored (s.upload codecs service dir met revision).2 := by
  rw [BackupState.upload, uploadTo, h]
  exact s.store.not_newlyStored_self

/-- The state after a run with an active revision: the old one, or one with the bucket of its upload. -/
theorem run_store (caller : BackupCaller) (hactive : met.active = .ok (some revision)) :
    (caller.run codecs service dir s met).store = s.store ∨
      (caller.run codecs service dir s met).store = (s.upload codecs service dir met revision).2 := by
  cases caller with
  | scheduled =>
    show (s.backupActiveIfNew codecs service dir met).2.store = _ ∨
      (s.backupActiveIfNew codecs service dir met).2.store = _
    unfold BackupState.backupActiveIfNew
    rw [hactive]
    dsimp only
    split
    · exact Or.inl rfl
    · split
      · exact Or.inl rfl
      · right
        split
        · next artifact store hrun =>
          rw [hrun]
          split
          · rfl
          · rfl
        · next error store hrun =>
          rw [hrun]
          split
          · rfl
          · rfl
  | manual =>
    right
    show (s.backup codecs service dir met).2.store = _
    unfold BackupState.backup
    rw [hactive]
    dsimp only
    split
    · next artifact store hrun =>
      rw [hrun]
      split
      · rfl
      · rfl
    · next error store hrun => rw [hrun]

theorem cons_ne_rows (row : BackupRow) (rows : List BackupRow) : row :: rows ≠ rows := by
  intro h
  have hlength := congrArg List.length h
  rw [List.length_cons] at hlength
  omega

/-- The scheduler disowns a backup when its upload failed. -/
theorem error_of_disowns_scheduled (hactive : met.active = .ok (some revision))
    (h : scheduled.Disowns s (scheduled.run codecs service dir s met) revision.id) :
    ∃ error, (s.upload codecs service dir met revision).1 = .error error := by
  obtain ⟨text, hrows⟩ := h
  replace hrows : (s.backupActiveIfNew codecs service dir met).2.rows =
    failedRow revision.id text :: s.rows := hrows
  unfold BackupState.backupActiveIfNew at hrows
  rw [hactive] at hrows
  dsimp only at hrows
  split at hrows
  · exact absurd hrows.symm (cons_ne_rows _ _)
  · split at hrows
    · exact absurd hrows.symm (cons_ne_rows _ _)
    · split at hrows
      · next artifact store hrun =>
        unfold backupRecord at hrows
        cases hrecord : met.recordError with
        | none =>
          rw [hrecord] at hrows
          have hstatus : "uploaded" = "failed" := congrArg BackupRow.status (List.cons.inj hrows).1
          exact absurd hstatus (by decide)
        | some error =>
          rw [hrecord] at hrows
          exact absurd hrows.symm (cons_ne_rows _ _)
      · next error store hrun => exact ⟨error, by rw [hrun]⟩

/-- A backup on demand is disowned when its upload failed or its row could not be written. -/
theorem disowns_manual_iff (hactive : met.active = .ok (some revision)) :
    manual.Disowns s (manual.run codecs service dir s met) revision.id ↔
      (∃ error, (s.upload codecs service dir met revision).1 = .error error) ∨ met.recordError ≠ none := by
  show (s.backup codecs service dir met).2.rows = s.rows ↔ _
  unfold BackupState.backup
  rw [hactive]
  dsimp only
  split
  · next artifact store hrun =>
    unfold backupRecord
    cases met.recordError with
    | none =>
      refine iff_of_false (cons_ne_rows _ _) fun h => ?_
      rcases h with ⟨error, herror⟩ | hne
      · rw [hrun] at herror
        cases herror
      · exact hne rfl
    | some error => exact iff_of_true rfl (Or.inr (by simp))
  · next error store hrun => exact iff_of_true rfl (Or.inl ⟨error, by rw [hrun]⟩)

/-- The state after a backup on demand is that of its upload. -/
theorem run_store_manual (hactive : met.active = .ok (some revision)) :
    (manual.run codecs service dir s met).store = (s.upload codecs service dir met revision).2 := by
  show (s.backup codecs service dir met).2.store = _
  unfold BackupState.backup
  rw [hactive]
  dsimp only
  split
  · next artifact store hrun =>
    rw [hrun]
    split
    · rfl
    · rfl
  · next error store hrun => rw [hrun]

/-- What disowns a backup of the active revision. -/
theorem fails_of_disowns (caller : BackupCaller) (hactive : met.active = .ok (some revision))
    (h : caller.Disowns s (caller.run codecs service dir s met) revision.id) :
    (∃ error, (s.upload codecs service dir met revision).1 = .error error) ∨
      caller = .manual ∧ met.recordError ≠ none := by
  cases caller with
  | scheduled => exact Or.inl (error_of_disowns_scheduled hactive h)
  | manual =>
    rcases (disowns_manual_iff hactive).mp h with herror | hrecord
    · exact Or.inl herror
    · exact Or.inr ⟨rfl, hrecord⟩

/-- An object that stays makes an error, or a record that disowns its backup, wrong. -/
theorem not_accurate_of_stays (caller : BackupCaller) {profile : S3Profile} {secrets : S3Secrets}
    (hactive : met.active = .ok (some revision)) (hload : dir.loadProfile = some (profile, secrets))
    (hstays : Stays codecs service profile s met revision)
    (hfails : Fails codecs service profile s met revision ∨ caller = .manual ∧ met.recordError ≠ none) :
    ¬ caller.Accurate codecs service dir s met := by
  intro h
  obtain ⟨hanswer, hrecord⟩ := h revision hactive
  have hnew : s.store.NewlyStored (s.upload codecs service dir met revision).2 :=
    (newlyStored_uploadTo_iff hload).mpr hstays
  rcases hfails with hrequest | ⟨rfl, hinsert⟩
  · obtain ⟨error, herror⟩ := (@uploadTo_error_iff codecs service _ _ _ _ _ _ _ hload).mpr hrequest
    exact hanswer error herror hnew
  · refine hrecord ((disowns_manual_iff hactive).mpr (Or.inr hinsert)) ?_
    rw [run_store_manual hactive]
    exact hnew

/-- **An error means that nothing was stored, and a record that disowns a backup tells the truth, except
where the object stays** although a request of the upload, or on demand the insert of its row, fails. -/
theorem accurate_iff (codecs : BackupCodecs) (service : ListingService) (dir : S3Files)
    (caller : BackupCaller) (s : BackupState) (met : BackupMet) :
    caller.Accurate codecs service dir s met ↔
      ¬ ∃ revision profile secrets, met.active = .ok (some revision) ∧
        dir.loadProfile = some (profile, secrets) ∧ Stays codecs service profile s met revision ∧
          (Fails codecs service profile s met revision ∨ caller = .manual ∧ met.recordError ≠ none) := by
  constructor
  · intro h hbad
    obtain ⟨revision, profile, secrets, hactive, hload, hstays, hfails⟩ := hbad
    exact not_accurate_of_stays caller hactive hload hstays hfails h
  · intro h revision hactive
    have hkey : (∃ error, (s.upload codecs service dir met revision).1 = .error error) ∨
        caller = .manual ∧ met.recordError ≠ none →
          ¬ s.store.NewlyStored (s.upload codecs service dir met revision).2 := by
      intro hfails hnew
      cases hload : dir.loadProfile with
      | none => exact not_newlyStored_of_unconfigured hload hnew
      | some files =>
        obtain ⟨profile, secrets⟩ := files
        refine h ⟨revision, profile, secrets, hactive, hload, (newlyStored_uploadTo_iff hload).mp hnew, ?_⟩
        exact hfails.imp_left fun herror => (uploadTo_error_iff hload).mp herror
    constructor
    · intro error herror
      exact hkey (Or.inl ⟨error, herror⟩)
    · intro hdisowns hnew
      rcases @run_store codecs service dir s met revision caller hactive with hsame | hupload
      · rw [hsame] at hnew
        exact s.store.not_newlyStored_self hnew
      · rw [hupload] at hnew
        exact hkey (fails_of_disowns caller hactive hdisowns) hnew

end BackupCaller

/-! ### A listing that fails -/

/-- A bucket of one page. -/
def onePage : ListingService where
  list store start := [(store.objects.filter fun o => start.isPrefixOf o.key.toList).map
    fun o => ⟨some o.key, some o.modified⟩]
  list_perm store start := by rw [List.flatten_singleton]

def emptyBucket : RemoteStore where
  objects := []
  puts := 0
  keys_nodup := List.nodup_nil
  serial_lt _ ho := absurd ho List.not_mem_nil

def nightlyRevision : Revision :=
  ⟨"nightly", .active, ⟨1, [mixedRule]⟩, Database.noonAnd 0, some (Database.noonAnd 0), none⟩

/-- The put is answered, and the first page of the listing that follows is not. -/
def listingFails : BackupMet where
  active := .ok (some nightlyRevision)
  lookupError := none
  upload := ⟨Database.noonAnd 0, Database.noonAnd 0, .done, some 0, fun _ => .done⟩
  cause := "service error"
  recordError := none

/-- **The backup is in the bucket**, and its row says that it failed. -/
theorem failed_backup_stored :
    ¬ ∀ (codecs : BackupCodecs) (service : ListingService) (dir : S3Files) (caller : BackupCaller)
      (s : BackupState) (met : BackupMet), caller.Accurate codecs service dir s met := by
  intro h
  have hpage : listingFails.upload.failsPage (uploadPages plainCodecs onePage (minioProfile "")
      nightlyRevision.id nightlyRevision.config listingFails.upload emptyBucket) = true := rfl
  refine BackupCaller.not_accurate_of_stays .scheduled rfl rfl ?_ ?_
    (h plainCodecs onePage (minioFiles "") .scheduled ⟨emptyBucket, []⟩ listingFails)
  · refine Or.inr ⟨rfl, fun hpruned => ?_⟩
    rw [PrunesObject, hpage] at hpruned
    cases hpruned.1
  · exact Or.inl (Or.inr (Or.inl hpage))

end Portalis
