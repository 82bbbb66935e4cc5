import Portalis.RemoteBackups
import Portalis.Sharing

/-!
# A bucket that installations share

The functions of `s3.rs` as processes that send one request at a time: `upload_active` puts, reads the
listing page by page and deletes, `list_backups` reads the listing, `download_config` gets an object.  The
scheduler and the handlers of one daemon may run several of them at once, and other installations may keep
their backups in the same bucket.

* `separates_under`: what is under a prefix is read and written only by requests to it.
* `S3Process.keepsTo`: a process sends requests to its prefix only, as the listing tells of nothing else.
* `isolated_of_reaches`: installations whose prefixes do not begin with one another do not notice each other.
-/

namespace Portalis

open Ranking Programs Sharing

/-! ### Requests -/

/-- What a listing reads of an object. -/
structure BucketEntry where
  key : String
  object : StoredObject
  modified : DateTime
  deriving DecidableEq

/-- An object of a page. -/
structure S3Object extends ListedObject where
  size : Option ℤ
  deriving DecidableEq

/-- A page, and the token that continues it. -/
structure ListPage where
  contents : List S3Object
  nextToken : Option String

inductive S3Request
  | putObject (key : String) (object : StoredObject)
  | listObjects (start : List Char) (token : Option String)
  | deleteObject (key : String)
  | getObject (key : String)

/-- What an answer brings. -/
def S3Request.Content : S3Request → Type
  | putObject _ _ => Unit
  | listObjects _ _ => ListPage
  | deleteObject _ => Unit
  | getObject _ => StoredObject

/-- An answer that arrives, or an error. -/
abbrev S3Request.Answer (c : S3Request) : Type := Option c.Content

/-- What a request meets: what becomes of it, the time, the most that a page holds. -/
structure S3Outcome where
  request : RequestOutcome
  modified : DateTime
  pageSize : ℕ
  pageSize_pos : 0 < pageSize

namespace RemoteStore

/-- What is under a prefix. -/
def under (store : RemoteStore) (start : List Char) : List BucketEntry :=
  (store.objects.filter fun o => start.isPrefixOf o.key.toList).map fun o =>
    ⟨o.key, o.object, o.modified⟩

variable {store : RemoteStore} {start : List Char} {key : String}

theorem under_delete :
    (store.delete key).under start = (store.under start).filter fun e => e.key ≠ key := by
  rw [under, under, delete, List.filter_map, List.filter_comm]
  rfl

theorem under_delete_of_not (h : ¬ start <+: key.toList) :
    (store.delete key).under start = store.under start := by
  rw [under_delete, List.filter_eq_self]
  intro e he
  obtain ⟨o, ho, rfl⟩ := List.mem_map.mp he
  refine decide_eq_true fun hkey => h ?_
  rw [← hkey]
  exact List.isPrefixOf_iff_prefix.mp (List.mem_filter.mp ho).2

theorem under_put {object : StoredObject} {modified : DateTime} (h : start <+: key.toList) :
    (store.put key object modified).under start =
      ((store.under start).filter fun e => e.key ≠ key) ++ [⟨key, object, modified⟩] := by
  have hkey : start.isPrefixOf key.toList = true := List.isPrefixOf_iff_prefix.mpr h
  rw [← under_delete, under, put, List.filter_append, List.map_append,
    List.filter_cons_of_pos (by exact hkey)]
  rfl

theorem under_put_of_not {object : StoredObject} {modified : DateTime} (h : ¬ start <+: key.toList) :
    (store.put key object modified).under start = store.under start := by
  have hkey : ¬ start.isPrefixOf key.toList = true := fun hstart =>
    h (List.isPrefixOf_iff_prefix.mp hstart)
  rw [under, put, List.filter_append, List.map_append, List.filter_cons_of_neg (by exact hkey),
    List.filter_nil, List.map_nil, List.append_nil]
  exact under_delete_of_not h

theorem keys_under : ((store.under start).map (·.key)).Nodup := by
  rw [under, List.map_map]
  exact store.keys_nodup.sublist (List.filter_sublist.map _)

theorem prefix_of_mem_under {e : BucketEntry} (h : e ∈ store.under start) : start <+: e.key.toList := by
  obtain ⟨o, ho, rfl⟩ := List.mem_map.mp h
  exact List.isPrefixOf_iff_prefix.mp (List.mem_filter.mp ho).2

end RemoteStore

/-- In the order of the octets of the keys. -/
def ascending (entries : List BucketEntry) : List BucketEntry :=
  descending (fun e => OrderDual.toDual e.key) entries

/-- What a listing has not come to. -/
def remaining (entries : List BucketEntry) (token : Option String) : List BucketEntry :=
  (ascending entries).filter fun e => token.all (· < e.key)

def BucketEntry.toS3Object (e : BucketEntry) : S3Object :=
  ⟨⟨some e.key, some e.modified⟩, some e.object.body.length⟩

/-- The page after a token, and the token of the next page if there is one. -/
def pageOf (entries : List BucketEntry) (token : Option String) (size : ℕ) : ListPage where
  contents := ((remaining entries token).take size).map BucketEntry.toS3Object
  nextToken :=
    if size < (remaining entries token).length then
      ((remaining entries token).take size).getLast?.map (·.key)
    else none

namespace S3Request

/-- The bucket after a request that is carried out. -/
def effect (met : S3Outcome) (store : RemoteStore) : S3Request → RemoteStore
  | putObject key object => store.put key object met.modified
  | listObjects _ _ => store
  | deleteObject key => store.delete key
  | getObject _ => store

/-- The answer to a request that is carried out. -/
def reply (met : S3Outcome) (store : RemoteStore) : (c : S3Request) → c.Answer
  | putObject _ _ => some ()
  | listObjects start token => some (pageOf (store.under start) token met.pageSize)
  | deleteObject _ => some ()
  | getObject key => (store.objects.find? (·.key = key)).map (·.object)

end S3Request

/-- What a request does to the bucket. -/
def bucketPerform (store : RemoteStore) (c : S3Request) (met : S3Outcome) : c.Answer × RemoteStore :=
  match met.request with
  | .done => (c.reply met store, c.effect met store)
  | .refused => (none, store)
  | .lost => (none, c.effect met store)

/-! ### Processes -/

structure RemoteBackup where
  key : String
  sizeBytes : ℤ
  lastModified : Option String
  deriving DecidableEq

/-- `list_backups`: what the pages say, the latest text first. -/
def remoteBackups (pages : List (List S3Object)) : List RemoteBackup :=
  descending (fun backup => optional backup.lastModified) (pages.flatMap fun page =>
    page.filterMap fun object => object.key.map fun key =>
      ⟨key, object.size.getD 0, object.lastModified.map DateTime.toZulu⟩)

/-- Where a function of `s3.rs` is, and what it has to go on with. -/
inductive S3Process
  | putting (start : List Char) (artifact : BackupArtifact) (object : StoredObject)
  | pruning (start : List Char) (artifact : BackupArtifact) (pages : List (List ListedObject))
      (token : Option String)
  | deleting (artifact : BackupArtifact) (keys : List String)
  | uploaded (answer : Except BackupError BackupArtifact)
  | listing (start : List Char) (pages : List (List S3Object)) (token : Option String)
  | listed (answer : Except BackupError (List RemoteBackup))
  | downloading (dir : S3Files) (key : String)
  | downloaded (answer : Except BackupError Config)

namespace S3Process

variable (codecs : BackupCodecs)

def artifactOf (profile : S3Profile) (revisionId : String) (config : Config) (now : DateTime) :
    BackupArtifact :=
  let compressed := compressedOf codecs now revisionId config
  ⟨revisionId, profile.backupKey revisionId, checksumOf codecs compressed, compressed.length⟩

def objectOf (revisionId : String) (config : Config) (now : DateTime) : StoredObject :=
  let compressed := compressedOf codecs now revisionId config
  ⟨compressed, some (checksumOf codecs compressed)⟩

/-- `upload_active`, up to its first request. -/
def uploadActive (dir : S3Files) (revisionId : String) (config : Config) (now : DateTime) : S3Process :=
  match dir.loadProfile with
  | none => uploaded (.error .notConfigured)
  | some (profile, _) =>
    putting profile.allowedPrefix (artifactOf codecs profile revisionId config now)
      (objectOf codecs revisionId config now)

/-- `list_backups`, up to its first request. -/
def listBackups (dir : S3Files) : S3Process :=
  match dir.loadProfile with
  | none => listed (.error .notConfigured)
  | some (profile, _) => listing profile.allowedPrefix [] none

/-- `download_config`, up to its request. -/
def downloadConfig (dir : S3Files) (key : String) : S3Process :=
  match dir.loadProfile with
  | none => downloaded (.error .notConfigured)
  | some (profile, _) =>
    if ¬ profile.allowedPrefix <+: key.toList ∨ containsDotDot key.toList = true then
      downloaded (.error .outsidePrefix)
    else downloading dir key

/-- The objects that are left to delete, or the answer. -/
def deleteNext (artifact : BackupArtifact) : List String → S3Process
  | [] => uploaded (.ok artifact)
  | key :: keys => deleting artifact (key :: keys)

/-- After a page of `prune_old_backups`. -/
def pruneNext (start : List Char) (artifact : BackupArtifact) (pages : List (List ListedObject)) :
    Option ListPage → S3Process
  | none => uploaded (.error .prune)
  | some page =>
    let pages := pages ++ [page.contents.map (·.toListedObject)]
    match page.nextToken with
    | some token => pruning start artifact pages (some token)
    | none => deleteNext artifact (pruneOldBackups keptBackups pages)

/-- After a page of `list_backups`. -/
def listNext (start : List Char) (pages : List (List S3Object)) : Option ListPage → S3Process
  | none => listed (.error .download)
  | some page =>
    let pages := pages ++ [page.contents]
    match page.nextToken with
    | some token => listing start pages (some token)
    | none => listed (.ok (remoteBackups pages))

def next : S3Process → Option ((c : S3Request) × (c.Answer → S3Process))
  | putting start artifact object =>
    some ⟨.putObject artifact.key object, fun answer =>
      match answer with
      | none => uploaded (.error .upload)
      | some () => pruning start artifact [] none⟩
  | pruning start artifact pages token =>
    some ⟨.listObjects start token, pruneNext start artifact pages⟩
  | deleting artifact keys =>
    match keys with
    | [] => none
    | key :: keys => some ⟨.deleteObject key, fun answer =>
        match answer with
        | none => uploaded (.error .prune)
        | some () => deleteNext artifact keys⟩
  | listing start pages token => some ⟨.listObjects start token, listNext start pages⟩
  | downloading dir key =>
    some ⟨.getObject key, fun found => downloaded (Portalis.downloadConfig codecs dir (fun _ => found) key)⟩
  | uploaded _ => none
  | listed _ => none
  | downloaded _ => none

def machine : Machine S3Process S3Request S3Request.Answer := ⟨next codecs⟩

end S3Process

/-! ### Prefixes that keep apart -/

/-- Requests to what is under a prefix. -/
def S3Request.Within (start : List Char) : S3Request → Prop
  | putObject key _ => start <+: key.toList
  | listObjects start' _ => start' = start
  | deleteObject key => start <+: key.toList
  | getObject key => start <+: key.toList

/-- Requests that change nothing under a prefix. -/
def S3Request.Outside (start : List Char) : S3Request → Prop
  | putObject key _ => ¬ start <+: key.toList
  | listObjects _ _ => True
  | deleteObject key => ¬ start <+: key.toList
  | getObject _ => True

/-- A listing tells of what is under its prefix. -/
def S3Request.Promised : (c : S3Request) → c.Answer → Prop
  | putObject _ _, _ => True
  | listObjects start _, answer =>
    ∀ page : ListPage, answer = some page → ∀ object ∈ page.contents, ∀ key ∈ object.key,
      start <+: key.toList
  | deleteObject _, _ => True
  | getObject _, _ => True

theorem bucketPerform_promised (store : RemoteStore) (c : S3Request) (met : S3Outcome) :
    c.Promised (bucketPerform store c met).1 := by
  cases c with
  | putObject key object => trivial
  | deleteObject key => trivial
  | getObject key => trivial
  | listObjects start token =>
    intro page hpage object hobject key hkey
    rw [bucketPerform] at hpage
    cases hrequest : met.request with
    | refused =>
      rw [hrequest] at hpage
      cases hpage
    | lost =>
      rw [hrequest] at hpage
      cases hpage
    | done =>
      rw [hrequest] at hpage
      cases hpage
      obtain ⟨e, he, rfl⟩ := List.mem_map.mp hobject
      cases hkey
      have hmem := (List.mem_filter.mp (List.mem_of_mem_take he)).1
      exact RemoteStore.prefix_of_mem_under ((perm_descending _ _).mem_iff.mp hmem)

section

variable {store store' : RemoteStore} {start : List Char} {c : S3Request} {met : S3Outcome}

/-- What a get reads is under the prefix. -/
theorem find?_under {key : String} (h : start <+: key.toList) :
    (store.objects.find? (·.key = key)).map (·.object) =
      ((store.under start).find? (·.key = key)).map (·.object) := by
  have hsame : ∀ o ∈ store.objects, decide (o.key = key) =
      decide (start.isPrefixOf o.key.toList = true ∧ decide (o.key = key) = true) := by
    intro o _
    refine decide_eq_decide.mpr ⟨fun hkey => ⟨?_, decide_eq_true hkey⟩, fun h => of_decide_eq_true h.2⟩
    rw [hkey]
    exact List.isPrefixOf_iff_prefix.mpr h
  rw [RemoteStore.under, List.find?_map, List.find?_filter, Option.map_map, List.find?_congr hsame]
  rfl

theorem reply_congr (hc : c.Within start) (hview : store.under start = store'.under start) :
    c.reply met store = c.reply met store' := by
  cases c with
  | putObject key object => rfl
  | listObjects start' token =>
    rw [S3Request.reply, S3Request.reply, show start' = start from hc, hview]
  | deleteObject key => rfl
  | getObject key =>
    calc (store.objects.find? (·.key = key)).map (·.object)
        = ((store.under start).find? (·.key = key)).map (·.object) := find?_under hc
      _ = ((store'.under start).find? (·.key = key)).map (·.object) := by rw [hview]
      _ = (store'.objects.find? (·.key = key)).map (·.object) := (find?_under hc).symm

theorem effect_congr (hc : c.Within start) (hview : store.under start = store'.under start) :
    (c.effect met store).under start = (c.effect met store').under start := by
  cases c with
  | putObject key object =>
    rw [S3Request.effect, S3Request.effect, RemoteStore.under_put hc, RemoteStore.under_put hc, hview]
  | listObjects start' token => exact hview
  | deleteObject key =>
    rw [S3Request.effect, S3Request.effect, RemoteStore.under_delete, RemoteStore.under_delete, hview]
  | getObject key => exact hview

theorem effect_outside (hc : c.Outside start) : (c.effect met store).under start = store.under start := by
  cases c with
  | putObject key object => exact RemoteStore.under_put_of_not hc
  | listObjects start' token => rfl
  | deleteObject key => exact RemoteStore.under_delete_of_not hc
  | getObject key => rfl

end

/-- **A prefix keeps its requests apart** from those to what is outside. -/
theorem separates_under (start : List Char) :
    Separates bucketPerform (fun store => store.under start) (S3Request.Within start)
      (S3Request.Outside start) where
  answer store store' c met hours hview := by
    rw [bucketPerform, bucketPerform]
    cases met.request with
    | done => exact reply_congr hours hview
    | refused => rfl
    | lost => rfl
  after store store' c met hours hview := by
    rw [bucketPerform, bucketPerform]
    cases met.request with
    | done => exact effect_congr hours hview
    | refused => exact hview
    | lost => exact effect_congr hours hview
  leaves store c met htheirs := by
    rw [bucketPerform]
    cases met.request with
    | done => exact effect_outside htheirs
    | refused => rfl
    | lost => exact effect_outside htheirs

/-! ### What a process sends -/

namespace S3Process

/-- It works under the prefix. -/
def Under (start : List Char) : S3Process → Prop
  | putting start' artifact _ => start' = start ∧ start <+: artifact.key.toList
  | pruning start' _ pages _ =>
    start' = start ∧ ∀ object ∈ pages.flatten, ∀ key ∈ object.key, start <+: key.toList
  | deleting _ keys => ∀ key ∈ keys, start <+: key.toList
  | uploaded _ => True
  | listing start' _ _ => start' = start
  | listed _ => True
  | downloading _ key => start <+: key.toList
  | downloaded _ => True

/-- After the last page, the objects are known. -/
theorem pruneNext_last {start : List Char} {artifact : BackupArtifact} {pages : List (List ListedObject)}
    {page : ListPage} (h : page.nextToken = none) :
    pruneNext start artifact pages (some page) = deleteNext artifact
      (pruneOldBackups keptBackups (pages ++ [page.contents.map (·.toListedObject)])) := by
  rw [pruneNext, h]

theorem pruneNext_more {start : List Char} {artifact : BackupArtifact} {pages : List (List ListedObject)}
    {page : ListPage} {token : String} (h : page.nextToken = some token) :
    pruneNext start artifact pages (some page) =
      pruning start artifact (pages ++ [page.contents.map (·.toListedObject)]) (some token) := by
  rw [pruneNext, h]

theorem mem_pruneOldBackups {keep : ℕ} {pages : List (List ListedObject)} {key : String}
    (h : key ∈ pruneOldBackups keep pages) : ∃ object ∈ pages.flatten, object.key = some key := by
  rw [pruneOldBackups_eq] at h
  obtain ⟨object, hobject, rfl⟩ := List.mem_map.mp h
  have hlisted : object ∈ objectsOf pages := (perm_descending _ _).mem_iff.mp (List.mem_of_mem_drop hobject)
  obtain ⟨listed, hmem, hsome⟩ := List.mem_filterMap.mp hlisted
  obtain ⟨key, hkey, rfl⟩ := Option.map_eq_some_iff.mp hsome
  exact ⟨listed, hmem, hkey⟩

theorem under_deleteNext {start : List Char} {artifact : BackupArtifact} {keys : List String}
    (h : ∀ key ∈ keys, start <+: key.toList) : (deleteNext artifact keys).Under start := by
  cases keys with
  | nil => trivial
  | cons key keys => exact h

/-- **A process works under its prefix** to the end. -/
theorem keepsTo (codecs : BackupCodecs) (start : List Char) :
    (machine codecs).KeepsTo (S3Request.Within start) S3Request.Promised (Under start) := by
  intro s c k hs hnext
  cases s with
  | putting start' artifact object =>
    cases hnext
    obtain ⟨rfl, hkey⟩ := hs
    refine ⟨hkey, fun answer _ => ?_⟩
    cases answer with
    | none => trivial
    | some done =>
      refine ⟨rfl, fun object hobject => ?_⟩
      cases hobject
  | pruning start' artifact pages token =>
    cases hnext
    obtain ⟨rfl, hpages⟩ := hs
    refine ⟨rfl, fun answer hanswer => ?_⟩
    cases answer with
    | none => trivial
    | some page =>
      have hall : ∀ object ∈ (pages ++ [page.contents.map (·.toListedObject)]).flatten,
          ∀ key ∈ object.key, start' <+: key.toList := by
        intro object hobject key hkey
        rw [List.flatten_append, List.flatten_singleton] at hobject
        rcases List.mem_append.mp hobject with hold | hnew
        · exact hpages object hold key hkey
        · obtain ⟨entry, hentry, rfl⟩ := List.mem_map.mp hnew
          exact hanswer page rfl entry hentry key hkey
      show (pruneNext start' artifact pages (some page)).Under start'
      cases htoken : page.nextToken with
      | some token =>
        rw [pruneNext_more htoken]
        exact ⟨rfl, hall⟩
      | none =>
        rw [pruneNext_last htoken]
        refine under_deleteNext fun key hkey => ?_
        obtain ⟨object, hobject, hsome⟩ := mem_pruneOldBackups hkey
        exact hall object hobject key hsome
  | deleting artifact keys =>
    cases keys with
    | nil => cases hnext
    | cons key keys =>
      cases hnext
      refine ⟨hs key List.mem_cons_self, fun answer _ => ?_⟩
      cases answer with
      | none => trivial
      | some done => exact under_deleteNext fun key' hkey => hs key' (List.mem_cons_of_mem _ hkey)
  | uploaded answer => cases hnext
  | listing start' pages token =>
    cases hnext
    refine ⟨hs, fun answer _ => ?_⟩
    cases answer with
    | none => trivial
    | some page =>
      show (listNext start' pages (some page)).Under start
      unfold listNext
      dsimp only
      cases page.nextToken with
      | some token => exact hs
      | none => trivial
  | listed answer => cases hnext
  | downloading dir key =>
    cases hnext
    exact ⟨hs, fun answer _ => trivial⟩
  | downloaded answer => cases hnext

end S3Process

/-! ### Installations -/

/-- Neither prefix begins with the other. -/
def Apart (start start' : List Char) : Prop := ¬ start <+: start' ∧ ¬ start' <+: start

theorem Apart.outside {start start' : List Char} (h : Apart start start') {c : S3Request}
    (hc : c.Within start') : c.Outside start := by
  have hkey : ∀ key : String, start' <+: key.toList → ¬ start <+: key.toList := by
    intro key htheirs hours
    rcases List.prefix_or_prefix_of_prefix hours htheirs with hle | hle
    · exact h.1 hle
    · exact h.2 hle
  cases c with
  | putObject key object => exact hkey key hc
  | listObjects start token => trivial
  | deleteObject key => exact hkey key hc
  | getObject key => trivial

/-- The settings, if they are there, have the prefix. -/
def S3Files.Uses (dir : S3Files) (start : List Char) : Prop :=
  ∀ files ∈ dir.loadProfile, files.1.allowedPrefix = start

/-- What an installation whose settings have the prefix begins. -/
inductive Begins (codecs : BackupCodecs) (start : List Char) : S3Process → Prop
  | uploadActive (dir : S3Files) (h : dir.Uses start) (revisionId : String) (config : Config)
      (now : DateTime) : Begins codecs start (.uploadActive codecs dir revisionId config now)
  | listBackups (dir : S3Files) (h : dir.Uses start) : Begins codecs start (.listBackups dir)
  | downloadConfig (dir : S3Files) (h : dir.Uses start) (key : String) :
      Begins codecs start (.downloadConfig dir key)

theorem Begins.under {codecs : BackupCodecs} {start : List Char} {s : S3Process}
    (h : Begins codecs start s) : s.Under start := by
  cases h with
  | uploadActive dir huses revisionId config now =>
    rw [S3Process.uploadActive]
    cases hload : dir.loadProfile with
    | none => trivial
    | some files =>
      have hstart : files.1.allowedPrefix = start := huses files hload
      refine ⟨hstart, ?_⟩
      rw [← hstart]
      show files.1.allowedPrefix <+: (files.1.backupKey revisionId).toList
      rw [S3Profile.backupKey, String.toList_ofList]
      exact List.prefix_append _ _
  | listBackups dir huses =>
    rw [S3Process.listBackups]
    cases hload : dir.loadProfile with
    | none => trivial
    | some files => exact huses files hload
  | downloadConfig dir huses key =>
    rw [S3Process.downloadConfig]
    cases hload : dir.loadProfile with
    | none => trivial
    | some files =>
      have hstart : files.1.allowedPrefix = start := huses files hload
      dsimp only
      split
      · trivial
      · next hallowed =>
        rw [not_or, not_not, hstart] at hallowed
        exact hallowed.1

section

variable (codecs : BackupCodecs) (start : List Char) (member : ℕ → Prop)

/-- The processes of the installations with the prefix, and those of installations with prefixes apart. -/
def sharers : Group (S3Process.machine codecs) bucketPerform (fun store => store.under start) where
  member := member
  ours := S3Request.Within start
  theirs := S3Request.Outside start
  promised := S3Request.Promised
  own := S3Process.Under start
  other s := ∃ start', Apart start start' ∧ s.Under start'
  keeps := bucketPerform_promised
  own_keeps := S3Process.keepsTo codecs start
  other_keeps s c k hs hnext := by
    obtain ⟨start', hapart, hunder⟩ := hs
    obtain ⟨hwithin, hrest⟩ := S3Process.keepsTo codecs start' s c k hunder hnext
    exact ⟨hapart.outside hwithin, fun r hr => ⟨start', hapart, hrest r hr⟩⟩
  separates := separates_under start

/-- A member begins something under the prefix, and another process under a prefix that is apart. -/
def Shares : Sharing.Event S3Process S3Outcome → Prop
  | .start i s => (member i → Begins codecs start s) ∧
      (¬ member i → ∃ start', Apart start start' ∧ Begins codecs start' s)
  | .advance _ _ => True

variable {codecs start member}

theorem Shares.admits {e : Sharing.Event S3Process S3Outcome} (h : Shares codecs start member e) :
    (sharers codecs start member).Admits e := by
  cases e with
  | start i s =>
    refine ⟨fun hmember => (h.1 hmember).under, fun hnot => ?_⟩
    obtain ⟨start', hapart, hbegins⟩ := h.2 hnot
    exact ⟨start', hapart, hbegins.under⟩
  | advance i o => trivial

/-- **Installations with prefixes that are apart do not notice each other**: whatever they send and in
whatever order, those with the one prefix get the answers, and leave the objects, of a run by themselves. -/
theorem isolated_of_reaches {guard : Sharing.Event S3Process S3Outcome → Prop}
    (hguard : ∀ e, guard e → Shares codecs start member e) {bucket : RemoteStore}
    {x : System RemoteStore S3Process}
    (h : Reaches (Sharing.step (S3Process.machine codecs) bucketPerform) (fun _ => guard) (.idle bucket) x) :
    ∃ y, Reaches (Sharing.step (S3Process.machine codecs) bucketPerform)
        (fun _ e => guard e ∧ member e.process) (.idle bucket) y ∧
      x.store.under start = y.store.under start ∧ ∀ i, member i → x.process i = y.process i := by
  obtain ⟨-, y, hmirrors, hreaches⟩ :=
    Group.alone_of_reaches (G := sharers codecs start member) (fun e he => (hguard e he).admits) h
  exact ⟨y, hreaches, hmirrors.view_eq, hmirrors.process_eq⟩

end

end Portalis
