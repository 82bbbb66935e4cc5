import Portalis.OverlappingUploads

/-!
# An upload alone

Request by request, and with the pages as they come, an upload that nobody disturbs is `uploadTo`.

* `remaining_next`: a token goes on after the page.
* `FollowsUpload.step`: where a process is in a run of `uploadTo`, and what one request keeps of it.
* `uploadTo_of_reaches`: the answer and the bucket are those of `uploadTo`.
-/

namespace Portalis

open Ranking Programs Sharing

/-! ### An upload alone -/

/-- The last page has what is left. -/
theorem take_of_last {entries : List BucketEntry} {token : Option String} {size : ℕ} (hsize : 0 < size)
    (h : (pageOf entries token size).nextToken = none) :
    (remaining entries token).take size = remaining entries token := by
  refine List.take_of_length_le (not_lt.mp fun hlt => ?_)
  rw [pageOf] at h
  dsimp only at h
  rw [if_pos hlt, Option.map_eq_none_iff, List.getLast?_eq_none_iff, List.take_eq_nil_iff] at h
  rcases h with hzero | hnil
  · exact absurd hzero hsize.ne'
  · rw [hnil] at hlt
    cases hlt

theorem remaining_none (entries : List BucketEntry) : remaining entries none = ascending entries :=
  List.filter_eq_self.mpr fun _ _ => rfl

/-- What a listing says of an entry. -/
def BucketEntry.listed (e : BucketEntry) : ListedObject := ⟨some e.key, some e.modified⟩

/-- A token leaves what is after the page. -/
theorem remaining_next {entries : List BucketEntry} (hnodup : (entries.map (·.key)).Nodup)
    {token : Option String} {size : ℕ} {last : String}
    (h : (pageOf entries token size).nextToken = some last) :
    remaining entries (some last) = (remaining entries token).drop size := by
  rw [pageOf] at h
  dsimp only at h
  split at h
  · next hlt =>
    obtain ⟨e, he, rfl⟩ := Option.map_eq_some_iff.mp h
    have htake := List.mem_of_getLast? he
    have hsorted : (remaining entries token).Pairwise fun a b => a.key < b.key := by
      have hkeys : ((remaining entries token).map (·.key)).Nodup :=
        (((perm_descending _ entries).map _).nodup_iff.mpr hnodup).sublist (List.filter_sublist.map _)
      have hle : (remaining entries token).Pairwise fun a b => a.key ≤ b.key :=
        (pairwise_ascending entries).filter _
      exact (hle.and (List.pairwise_map.mp hkeys)).imp fun hab => lt_of_le_of_ne hab.1 hab.2
    have hfirst : ∀ a ∈ (remaining entries token).take size, ¬ e.key < a.key := by
      obtain ⟨before, hbefore⟩ := List.getLast?_eq_some_iff.mp he
      have hpage : (before ++ [e]).Pairwise fun a b => a.key < b.key := by
        rw [← hbefore]
        exact hsorted.sublist (List.take_sublist _ _)
      intro a ha
      rw [hbefore] at ha
      rcases List.mem_append.mp ha with hearlier | hself
      · exact ((List.pairwise_append.mp hpage).2.2 a hearlier e List.mem_cons_self).asymm
      · rw [List.mem_singleton.mp hself]
        exact lt_irrefl _
    have hrest : ∀ a ∈ (remaining entries token).drop size, e.key < a.key := by
      intro a ha
      rw [← List.take_append_drop size (remaining entries token), List.pairwise_append] at hsorted
      exact hsorted.2.2 e htake a ha
    have hsame : remaining entries (some e.key) = (remaining entries token).filter fun a => e.key < a.key := by
      have hafter : token.all (· < e.key) = true := (List.mem_filter.mp (List.mem_of_mem_take htake)).2
      rw [remaining, remaining, List.filter_filter]
      refine List.filter_congr fun a _ => ?_
      rw [Option.all_some, Bool.eq_iff_iff, Bool.and_eq_true, decide_eq_true_eq]
      refine (and_iff_left_of_imp fun habove => ?_).symm
      cases token with
      | none => rfl
      | some before =>
        rw [Option.all_some, decide_eq_true_eq] at hafter
        exact decide_eq_true (hafter.trans habove)
    rw [hsame]
    conv_lhs => rw [← List.take_append_drop size (remaining entries token)]
    rw [List.filter_append, List.filter_eq_nil_iff.mpr, List.nil_append, List.filter_eq_self]
    · intro a ha
      exact decide_eq_true (hrest a ha)
    · intro a ha hlt
      exact hfirst a ha (of_decide_eq_true hlt)
  · cases h

/-- Deletions that succeed, and those after them. -/
theorem deleteAll_append {gone keys : List String} : ∀ {store : RemoteStore} {deletes : ℕ → RequestOutcome},
    (∀ i < gone.length, deletes i = .done) →
      deleteAll store (gone ++ keys) deletes =
        deleteAll (gone.foldl RemoteStore.delete store) keys fun i => deletes (i + gone.length) := by
  induction gone with
  | nil =>
    intro store deletes _
    rfl
  | cons key gone ih =>
    intro store deletes h
    have hfirst : deletes 0 = .done := h 0 (Nat.succ_pos _)
    rw [List.cons_append, deleteAll, hfirst]
    exact ih fun i hi => h (i + 1) (Nat.succ_lt_succ hi)

/-- A pruning for which the listing has these pages, where they are those of the bucket. -/
theorem exists_pruneStore {store : RemoteStore} {start : List Char} {pages : List (List ListedObject)}
    (h : pages.flatten = (ascending (store.under start)).map BucketEntry.listed) :
    ∃ service : ListingService, ∀ (met : UploadMet) (keep : ℕ),
      pruneStore service met start keep store =
        if met.failsPage pages then (.error .prune, store)
        else deleteAll store (pruneOldBackups keep pages) met.deletes := by
  classical
  obtain ⟨service, hservice⟩ : ∃ service : ListingService, service.list store start = pages := by
    refine ⟨⟨fun store' start' => if store' = store ∧ start' = start then pages
      else onePage.list store' start', fun store' start' => ?_⟩, if_pos ⟨rfl, rfl⟩⟩
    split
    · next hsame =>
      rw [hsame.1, hsame.2, h]
      exact ((perm_descending _ _).map _).trans (List.map_map ▸ List.Perm.refl _)
    · exact onePage.list_perm store' start'
  refine ⟨service, fun met keep => ?_⟩
  unfold pruneStore
  rw [hservice]

section

variable {codecs : BackupCodecs} {dir : S3Files} {profile : S3Profile} {secrets : S3Secrets}
  {revisionId : String} {config : Config} {bucket : RemoteStore} {met : UploadMet}

theorem uploadTo_refused (hload : dir.loadProfile = some (profile, secrets)) (hput : met.put = .refused)
    (service : ListingService) :
    uploadTo codecs service dir revisionId config met bucket = (.error .upload, bucket) := by
  unfold uploadTo
  rw [hload]
  dsimp only
  rw [hput]

theorem uploadTo_lost (hload : dir.loadProfile = some (profile, secrets)) (hput : met.put = .lost)
    (service : ListingService) :
    uploadTo codecs service dir revisionId config met bucket =
      (.error .upload, writtenTo codecs profile revisionId config met bucket) := by
  unfold uploadTo
  rw [hload]
  dsimp only
  rw [hput]

theorem uploadTo_done (hload : dir.loadProfile = some (profile, secrets)) (hput : met.put = .done)
    {service : ListingService} {answer : Except BackupError Unit} {after : RemoteStore}
    (hprune : pruneStore service met profile.allowedPrefix keptBackups
      (writtenTo codecs profile revisionId config met bucket) = (answer, after)) :
    uploadTo codecs service dir revisionId config met bucket =
      (answer.map fun _ => S3Process.artifactOf codecs profile revisionId config met.now, after) := by
  unfold uploadTo
  rw [hload]
  dsimp only
  rw [hput]
  dsimp only
  rw [hprune]
  rfl

/-- The bucket with the object of the upload. -/
def PutAt (codecs : BackupCodecs) (profile : S3Profile) (revisionId : String) (config : Config)
    (now : DateTime) (bucket : RemoteStore) (modified : DateTime) (written : RemoteStore) : Prop :=
  written = bucket.put (profile.backupKey revisionId) (S3Process.objectOf codecs revisionId config now) modified

/-- Pages of everything under a prefix. -/
def Complete (store : RemoteStore) (start : List Char) (pages : List (List ListedObject)) : Prop :=
  pages.flatten = (ascending (store.under start)).map BucketEntry.listed

/-- Where the process of an upload is in a run of `uploadTo`. -/
def FollowsUpload (codecs : BackupCodecs) (dir : S3Files) (profile : S3Profile) (revisionId : String)
    (config : Config) (now : DateTime) (bucket store : RemoteStore) : S3Process → Prop
  | .putting start artifact object => start = profile.allowedPrefix ∧
      artifact = S3Process.artifactOf codecs profile revisionId config now ∧
      object = S3Process.objectOf codecs revisionId config now ∧ store = bucket
  | .pruning start artifact pages token => start = profile.allowedPrefix ∧
      artifact = S3Process.artifactOf codecs profile revisionId config now ∧
      (∃ modified, PutAt codecs profile revisionId config now bucket modified store) ∧
      Complete store start (pages ++ [(remaining (store.under start) token).map BucketEntry.listed])
  | .deleting artifact keys =>
      artifact = S3Process.artifactOf codecs profile revisionId config now ∧
      ∃ modified written pages gone, PutAt codecs profile revisionId config now bucket modified written ∧
        Complete written profile.allowedPrefix pages ∧ pruneOldBackups keptBackups pages = gone ++ keys ∧
          store = gone.foldl RemoteStore.delete written
  | .uploaded answer => ∃ (service : ListingService) (met : UploadMet), met.now = now ∧
      uploadTo codecs service dir revisionId config met bucket = (answer, store)
  | _ => False

variable {now modified : DateTime} {written : RemoteStore} {pages : List (List ListedObject)}
  {gone keys : List String}

/-- The pruning with these pages has the answer. -/
theorem follows_uploaded (hload : dir.loadProfile = some (profile, secrets))
    (hput : PutAt codecs profile revisionId config now bucket modified written)
    (hpages : Complete written profile.allowedPrefix pages) (failingPage : Option ℕ)
    (deletes : ℕ → RequestOutcome) {answer : Except BackupError Unit} {after : RemoteStore}
    (hprune : (if failingPage.any (fun i => i < pages.length) = true then (.error .prune, written)
      else deleteAll written (pruneOldBackups keptBackups pages) deletes) = (answer, after)) :
    FollowsUpload codecs dir profile revisionId config now bucket after (.uploaded
      (answer.map fun _ => S3Process.artifactOf codecs profile revisionId config now)) := by
  obtain ⟨service, hservice⟩ := exists_pruneStore hpages
  let met : UploadMet := ⟨now, modified, .done, failingPage, deletes⟩
  have hrun : pruneStore service met profile.allowedPrefix keptBackups
      (writtenTo codecs profile revisionId config met bucket) = (answer, after) := by
    rw [show writtenTo codecs profile revisionId config met bucket = written from hput.symm, hservice]
    exact hprune
  exact ⟨service, met, rfl, uploadTo_done hload rfl hrun⟩

/-- The deletions so far, and the next ones. -/
theorem follows_deleteNext (hload : dir.loadProfile = some (profile, secrets))
    (hput : PutAt codecs profile revisionId config now bucket modified written)
    (hpages : Complete written profile.allowedPrefix pages)
    (hkeys : pruneOldBackups keptBackups pages = gone ++ keys) :
    FollowsUpload codecs dir profile revisionId config now bucket (gone.foldl RemoteStore.delete written)
      (.deleteNext (S3Process.artifactOf codecs profile revisionId config now) keys) := by
  cases keys with
  | cons key keys => exact ⟨rfl, modified, written, pages, gone, hput, hpages, hkeys, rfl⟩
  | nil =>
    have hprune : deleteAll written (pruneOldBackups keptBackups pages) (fun _ => .done) =
        (.ok (), gone.foldl RemoteStore.delete written) := by
      rw [hkeys, deleteAll_append fun _ _ => rfl]
      rfl
    exact follows_uploaded hload hput hpages none (fun _ => .done) hprune

/-- A deletion that fails. -/
theorem follows_failed (hload : dir.loadProfile = some (profile, secrets))
    (hput : PutAt codecs profile revisionId config now bucket modified written)
    (hpages : Complete written profile.allowedPrefix pages)
    (hkeys : pruneOldBackups keptBackups pages = gone ++ keys) {outcome : RequestOutcome}
    {after : RemoteStore} (hdelete : deleteAll (gone.foldl RemoteStore.delete written) keys
      (fun _ => outcome) = (.error .prune, after)) :
    FollowsUpload codecs dir profile revisionId config now bucket after (.uploaded (.error .prune)) := by
  let deletes : ℕ → RequestOutcome := fun i => if i < gone.length then .done else outcome
  have hdone : ∀ i < gone.length, deletes i = .done := fun i hi => if_pos hi
  have hfails : (fun i => deletes (i + gone.length)) = fun _ => outcome := by
    funext i
    exact if_neg (by omega)
  have hprune : deleteAll written (pruneOldBackups keptBackups pages) deletes = (.error .prune, after) := by
    rw [hkeys, deleteAll_append hdone, hfails, hdelete]
  exact follows_uploaded hload hput hpages none deletes hprune

/-- A page. -/
theorem follows_pruneNext (hload : dir.loadProfile = some (profile, secrets))
    (hput : PutAt codecs profile revisionId config now bucket modified written) {token : Option String}
    (hpages : Complete written profile.allowedPrefix
      (pages ++ [(remaining (written.under profile.allowedPrefix) token).map BucketEntry.listed]))
    (o : S3Outcome) :
    FollowsUpload codecs dir profile revisionId config now bucket
      (bucketPerform written (.listObjects profile.allowedPrefix token) o).2
      (.pruneNext profile.allowedPrefix (S3Process.artifactOf codecs profile revisionId config now) pages
        (bucketPerform written (.listObjects profile.allowedPrefix token) o).1) := by
  have hfails : FollowsUpload codecs dir profile revisionId config now bucket written
      (.uploaded (.error .prune)) := by
    -- what was not read is one more page, the one that fails
    refine follows_uploaded hload hput hpages (some pages.length) (fun _ => .done) (if_pos ?_)
    rw [Option.any_some, List.length_append, List.length_singleton]
    exact decide_eq_true (Nat.lt_succ_self _)
  rw [bucketPerform]
  cases o.request with
  | refused => exact hfails
  | lost => exact hfails
  | done =>
    show FollowsUpload codecs dir profile revisionId config now bucket written
      (.pruneNext profile.allowedPrefix _ pages
        (some (pageOf (written.under profile.allowedPrefix) token o.pageSize)))
    have hcontents : (pageOf (written.under profile.allowedPrefix) token o.pageSize).contents.map
        (·.toListedObject) = ((remaining (written.under profile.allowedPrefix) token).take o.pageSize).map
          BucketEntry.listed := List.map_map
    cases htoken : (pageOf (written.under profile.allowedPrefix) token o.pageSize).nextToken with
    | some last =>
      rw [S3Process.pruneNext_more htoken, hcontents]
      refine ⟨rfl, rfl, ⟨modified, hput⟩, ?_⟩
      rw [remaining_next written.keys_under htoken, Complete, ← hpages, List.append_assoc,
        List.flatten_append, List.flatten_append, List.flatten_append, List.flatten_singleton,
        List.flatten_singleton, List.flatten_singleton, ← List.map_append, List.take_append_drop]
    | none =>
      rw [S3Process.pruneNext_last htoken, hcontents]
      rw [take_of_last o.pageSize_pos htoken]
      exact @follows_deleteNext _ _ _ _ _ _ _ _ _ _ _ [] _ hload hput hpages rfl

/-- **The step lemma.** -/
theorem FollowsUpload.step (hload : dir.loadProfile = some (profile, secrets)) {store : RemoteStore}
    {s : S3Process} (h : FollowsUpload codecs dir profile revisionId config now bucket store s)
    {c : S3Request} {k : c.Answer → S3Process} (hnext : s.next codecs = some ⟨c, k⟩) (o : S3Outcome) :
    FollowsUpload codecs dir profile revisionId config now bucket (bucketPerform store c o).2
      (k (bucketPerform store c o).1) := by
  cases s with
  | putting start artifact object =>
    obtain ⟨rfl, rfl, rfl, rfl⟩ := h
    cases hnext
    rw [bucketPerform]
    cases o.request with
    | done =>
      refine ⟨rfl, rfl, ⟨o.modified, rfl⟩, ?_⟩
      rw [remaining_none]
      exact List.append_nil _
    | refused =>
      exact ⟨onePage, ⟨now, now, .refused, none, fun _ => .done⟩, rfl, uploadTo_refused hload rfl onePage⟩
    | lost =>
      exact ⟨onePage, ⟨now, o.modified, .lost, none, fun _ => .done⟩, rfl, uploadTo_lost hload rfl onePage⟩
  | pruning start artifact pages token =>
    obtain ⟨rfl, rfl, ⟨modified, hput⟩, hpages⟩ := h
    cases hnext
    exact follows_pruneNext hload hput hpages o
  | deleting artifact keys =>
    obtain ⟨rfl, modified, written, pages, gone, hput, hpages, hkeys, rfl⟩ := h
    cases keys with
    | nil => cases hnext
    | cons key keys =>
      cases hnext
      rw [bucketPerform]
      cases o.request with
      | done =>
        have hfold : (gone ++ [key]).foldl RemoteStore.delete written =
            (gone.foldl RemoteStore.delete written).delete key := by
          rw [List.foldl_append]
          rfl
        show FollowsUpload codecs dir profile revisionId config now bucket
          ((gone.foldl RemoteStore.delete written).delete key) _
        rw [← hfold]
        refine follows_deleteNext hload hput hpages ?_
        rw [hkeys, List.append_assoc]
        rfl
      | refused =>
        have hdelete : deleteAll (gone.foldl RemoteStore.delete written) (key :: keys)
            (fun _ => .refused) = (.error .prune, _) := rfl
        exact follows_failed hload hput hpages hkeys hdelete
      | lost =>
        have hdelete : deleteAll (gone.foldl RemoteStore.delete written) (key :: keys)
            (fun _ => .lost) = (.error .prune, _) := rfl
        exact follows_failed hload hput hpages hkeys hdelete
  | uploaded answer => cases hnext
  | _ => exact h.elim

/-- **An upload alone is `uploadTo`**: whatever its requests meet, when it has come back, its answer and the
bucket are those of `uploadTo` with some listing and some outcomes. -/
theorem uploadTo_of_reaches {i : ℕ} {x : System RemoteStore S3Process}
    {answer : Except BackupError BackupArtifact}
    (h : Reaches (Sharing.step (S3Process.machine codecs) bucketPerform) (fun _ e => ∃ o, e = .advance i o)
      (.single bucket i (.uploadActive codecs dir revisionId config now)) x)
    (hanswer : x.process i = some (.uploaded answer)) :
    ∃ (service : ListingService) (met : UploadMet), met.now = now ∧
      uploadTo codecs service dir revisionId config met bucket = (answer, x.store) := by
  cases hload : dir.loadProfile with
  | none =>
    let stays (store : RemoteStore) (s : S3Process) : Prop :=
      store = bucket ∧ s = .uploaded (.error .notConfigured)
    have hstart : stays bucket (.uploadActive codecs dir revisionId config now) := by
      refine ⟨rfl, ?_⟩
      rw [S3Process.uploadActive, hload]
    have hcall : ∀ store s c k o, stays store s → (S3Process.machine codecs).next s = some ⟨c, k⟩ →
        stays (bucketPerform store c o).2 (k (bucketPerform store c o).1) := by
      intro store s c k o hs hnext
      rw [hs.2] at hnext
      cases hnext
    obtain ⟨hstore, hsame⟩ := invariant_of_single hstart hcall h _ hanswer
    cases hsame
    refine ⟨onePage, ⟨now, now, .done, none, fun _ => .done⟩, rfl, ?_⟩
    rw [hstore, uploadTo, hload]
  | some files =>
    obtain ⟨profile, secrets⟩ := files
    have hstart : FollowsUpload codecs dir profile revisionId config now bucket bucket
        (.uploadActive codecs dir revisionId config now) := by
      rw [S3Process.uploadActive, hload]
      exact ⟨rfl, rfl, rfl, rfl⟩
    have hcall : ∀ store s c k o, FollowsUpload codecs dir profile revisionId config now bucket store s →
        (S3Process.machine codecs).next s = some ⟨c, k⟩ →
          FollowsUpload codecs dir profile revisionId config now bucket (bucketPerform store c o).2
            (k (bucketPerform store c o).1) := by
      intro store s c k o hs hnext
      exact hs.step hload hnext o
    exact invariant_of_single hstart hcall h _ hanswer

end

/-- An upload into a bucket with twelve objects. -/
theorem uploadTo_crowded : ∃ (store : RemoteStore) (service : ListingService) (met : UploadMet),
    met.now = Database.noonAnd 0 ∧
      uploadTo plainCodecs service (minioFiles "") "one" ⟨1, []⟩ met
        (crowded (minioProfile "").allowedPrefix 12) = (.ok (S3Process.artifactOf plainCodecs
          (minioProfile "") "one" ⟨1, []⟩ (Database.noonAnd 0)), store) := by
  let guard (e : Sharing.Event S3Process S3Outcome) : Prop := ∃ o, e = .advance 0 o
  have hidle : Reaches (Sharing.step (S3Process.machine plainCodecs) bucketPerform) (fun _ => guard)
      (.single (crowded (minioProfile "").allowedPrefix 12) 0 (.uploadActive plainCodecs (minioFiles "") "one"
        ⟨1, []⟩ (Database.noonAnd 0)))
      (.single (crowded (minioProfile "").allowedPrefix 12) 0 (.uploadActive plainCodecs (minioFiles "") "one"
        ⟨1, []⟩ (Database.noonAnd 0))) := .start
  have hadvance : ∀ met : S3Outcome, met.request = .done → guard (.advance 0 met) := fun met _ => ⟨met, rfl⟩
  obtain ⟨store, hdone⟩ := reaches_pruned (fun _ _ met _ => hadvance met) (Database.noonAnd 2)
    (reaches_answered (Database.noonAnd 1) 0 (hadvance _ rfl) hidle rfl)
  exact ⟨store, uploadTo_of_reaches hdone (System.single_self store 0 _)⟩

end Portalis
