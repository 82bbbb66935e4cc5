import Portalis.OverlappingUploads

/-!
# How long a backup is kept

Every upload deletes what its listing ranks after the first ten objects, and listings are read page by page
while others put and delete.  Still, an object goes only when ten other keys were given texts that are not
below its own, whether or not their objects were ever there at once.

* `key_notMem_prune`: what a listing cannot rank after ten others.
* `Kept.step`: no process comes to delete the object.
* `retained_of_reaches`: what was uploaded can be restored until ten other keys have texts as great.
-/

namespace Portalis

open Ranking Programs Sharing

/-- A backup that is to be kept: the prefix, the revision and its configuration, the time whose text the object's
is not below, and the other keys that may get a text that is not below it. -/
structure Keepsake where
  start : List Char
  revisionId : String
  config : Config
  since : DateTime
  newer : List String
  few : newer.length < keptBackups

namespace Keepsake

/-- The key of the revision. -/
def key (k : Keepsake) : String :=
  String.ofList (k.start ++ (k.revisionId.toList ++ ".json.zst".toList))

/-- A time that the object may have, or an object of another key.  Times are compared by their texts, as the
ranking does, and the texts of two times need not be in the order of the times. -/
def Admits (k : Keepsake) (key : String) (modified : DateTime) : Prop :=
  (key = k.key → k.since.toZulu ≤ modified.toZulu) ∧
    (key ≠ k.key → key ∉ k.newer → modified.toZulu < k.since.toZulu)

/-- The object is one of an upload of the revision. -/
def Holds (codecs : BackupCodecs) (k : Keepsake) (object : StoredObject) : Prop :=
  ∃ now, object = S3Process.objectOf codecs k.revisionId k.config now

end Keepsake

/-! ### Listings -/

section

variable {k : Keepsake} {pages : List (List ListedObject)}

/-- The listing tells of objects as they were admitted. -/
def Keepsake.Lists (k : Keepsake) (pages : List (List ListedObject)) : Prop :=
  ∀ object ∈ objectsOf pages, ∃ modified, object.2 = some modified ∧ k.Admits object.1 modified

/-- **The object is among the first ten**: those before it are other keys with texts as great. -/
theorem key_notMem_prune (hnodup : ((objectsOf pages).map (·.1)).Nodup) (hlists : k.Lists pages) :
    k.key ∉ pruneOldBackups keptBackups pages := by
  intro hkey
  rw [pruneOldBackups_eq] at hkey
  obtain ⟨object, hdrop, hobject⟩ := List.mem_map.mp hkey
  have hmem : ∀ other, other ∈ ranked pages → other ∈ objectsOf pages := fun other hother =>
    (perm_descending sortText _).mem_iff.mp hother
  have hkeys : ((ranked pages).map (·.1)).Nodup :=
    ((perm_descending sortText _).map _).nodup_iff.mpr hnodup
  obtain ⟨modified, hmodified, hadmits⟩ := hlists object (hmem object (List.mem_of_mem_drop hdrop))
  have hbefore : ((ranked pages).take keptBackups).map (·.1) ⊆ k.newer := by
    intro key hkey
    obtain ⟨other, htake, rfl⟩ := List.mem_map.mp hkey
    obtain ⟨modified', hmodified', hadmits'⟩ := hlists other (hmem other (List.mem_of_mem_take htake))
    have hne : other.1 ≠ k.key := by
      intro hsame
      rw [← List.take_append_drop keptBackups (ranked pages), List.map_append, List.nodup_append] at hkeys
      exact hkeys.2.2 _ (List.mem_map_of_mem htake) _ (List.mem_map_of_mem hdrop) (hsame.trans hobject.symm)
    have htext : modified.toZulu ≤ modified'.toZulu := by
      have hle : sortText object ≤ sortText other :=
        le_of_mem_take_of_mem_drop (pairwise_descending sortText _) htake hdrop
      rw [sortText, sortText, hmodified, hmodified'] at hle
      exact WithBot.coe_le_coe.mp hle
    by_contra hnot
    exact absurd ((hadmits.1 hobject).trans htext) (not_le.mpr (hadmits'.2 hne hnot))
  have hlength : (((ranked pages).take keptBackups).map (·.1)).length = keptBackups := by
    have hpos := List.length_pos_of_mem hdrop
    rw [List.length_drop] at hpos
    rw [List.length_map, List.length_take]
    omega
  have htake : (((ranked pages).take keptBackups).map (·.1)).Nodup :=
    hkeys.sublist ((List.take_sublist _ _).map _)
  have hle := (List.subperm_of_subset htake hbefore).length_le
  rw [hlength] at hle
  exact absurd k.few (not_lt.mpr hle)

end

/-- What a page tells of. -/
theorem objectsOf_page (entries : List BucketEntry) :
    objectsOf [(entries.map BucketEntry.toS3Object).map (·.toListedObject)] =
      entries.map fun e => (e.key, some e.modified) := by
  rw [objectsOf, List.flatten_singleton, List.map_map, List.filterMap_map]
  exact congrFun (List.filterMap_eq_map (f := fun e : BucketEntry => (e.key, some e.modified))) entries

theorem objectsOf_append (pages more : List (List ListedObject)) :
    objectsOf (pages ++ more) = objectsOf pages ++ objectsOf more := by
  rw [objectsOf, List.flatten_append, List.filterMap_append]
  rfl

namespace S3Process

variable {k : Keepsake} {start : List Char} {artifact : BackupArtifact}

/-- It will not delete the object: what it has read are different keys up to the token, as they were
admitted; what it is to delete is something else; and what it puts under the key is of the configuration. -/
def Spares (codecs : BackupCodecs) (k : Keepsake) : S3Process → Prop
  | putting _ artifact object => artifact.key = k.key → k.Holds codecs object
  | pruning _ _ pages token => k.Lists pages ∧ ((objectsOf pages).map (·.1)).Nodup ∧
      ∀ key ∈ (objectsOf pages).map (·.1), ∃ last ∈ token, key ≤ last
  | deleting _ keys => k.key ∉ keys
  | _ => True

theorem spares_deleteNext {codecs : BackupCodecs} {keys : List String} (h : k.key ∉ keys) :
    (deleteNext artifact keys).Spares codecs k := by
  cases keys with
  | nil => trivial
  | cons key keys => exact h

/-- One more page, of a store whose objects were admitted. -/
theorem spares_pruneNext {codecs : BackupCodecs} {entries : List BucketEntry}
    (hentries : ∀ e ∈ entries, k.Admits e.key e.modified) (hkeys : (entries.map (·.key)).Nodup)
    {pages : List (List ListedObject)} {token : Option String} {size : ℕ}
    (h : (pruning start artifact pages token).Spares codecs k) :
    (pruneNext start artifact pages (some (pageOf entries token size))).Spares codecs k := by
  obtain ⟨hlists, hnodup, hread⟩ := h
  have hmem : ∀ e ∈ (remaining entries token).take size, e ∈ entries ∧ token.all (· < e.key) = true := by
    intro e he
    obtain ⟨hmem, hafter⟩ := List.mem_filter.mp (List.mem_of_mem_take he)
    exact ⟨mem_ascending.mp hmem, hafter⟩
  have hobjects : objectsOf (pages ++ [(pageOf entries token size).contents.map (·.toListedObject)]) =
      objectsOf pages ++ ((remaining entries token).take size).map fun e => (e.key, some e.modified) := by
    rw [objectsOf_append, pageOf, objectsOf_page]
  have hlists' : k.Lists (pages ++ [(pageOf entries token size).contents.map (·.toListedObject)]) := by
    intro object hobject
    rw [hobjects] at hobject
    rcases List.mem_append.mp hobject with hold | hnew
    · exact hlists object hold
    · obtain ⟨e, he, rfl⟩ := List.mem_map.mp hnew
      exact ⟨e.modified, rfl, hentries e (hmem e he).1⟩
  have hpage : (((remaining entries token).take size).map (·.key)).Nodup :=
    (((perm_descending _ entries).map _).nodup_iff.mpr hkeys).sublist
      (((List.take_sublist _ _).trans List.filter_sublist).map _)
  have hmap : (objectsOf (pages ++ [(pageOf entries token size).contents.map (·.toListedObject)])).map (·.1) =
      (objectsOf pages).map (·.1) ++ ((remaining entries token).take size).map (·.key) := by
    rw [hobjects, List.map_append, List.map_map]
    rfl
  have hbelow : ∀ key ∈ (objectsOf pages).map (·.1), ∀ e ∈ (remaining entries token).take size,
      key < e.key := by
    intro key hkey e he
    obtain ⟨last, hlast, hle⟩ := hread key hkey
    have hafter := (hmem e he).2
    rw [hlast, Option.all_some, decide_eq_true_eq] at hafter
    exact hle.trans_lt hafter
  have hnodup' : ((objectsOf (pages ++
      [(pageOf entries token size).contents.map (·.toListedObject)])).map (·.1)).Nodup := by
    rw [hmap, List.nodup_append]
    refine ⟨hnodup, hpage, fun key hkey key' hkey' hsame => ?_⟩
    obtain ⟨e, he, rfl⟩ := List.mem_map.mp hkey'
    exact (hbelow key hkey e he).ne hsame
  cases htoken : (pageOf entries token size).nextToken with
  | none =>
    rw [pruneNext_last htoken]
    exact spares_deleteNext (key_notMem_prune hnodup' hlists')
  | some last =>
    rw [pruneNext_more htoken]
    refine ⟨hlists', hnodup', fun key hkey => ⟨last, rfl, ?_⟩⟩
    -- the token is the last key of the page
    have hlast : ∃ e, ((remaining entries token).take size).getLast? = some e ∧ e.key = last := by
      rw [pageOf] at htoken
      dsimp only at htoken
      split at htoken
      · exact Option.map_eq_some_iff.mp htoken
      · cases htoken
    obtain ⟨e, he, rfl⟩ := hlast
    rw [hmap] at hkey
    rcases List.mem_append.mp hkey with hold | hnew
    · exact (hbelow key hold e (List.mem_of_getLast? he)).le
    · obtain ⟨e', he', rfl⟩ := List.mem_map.mp hnew
      have hsorted : ((remaining entries token).take size).Pairwise fun a b => a.key ≤ b.key :=
        ((pairwise_ascending entries).filter _).sublist (List.take_sublist _ _)
      obtain ⟨before, hsplit⟩ := List.getLast?_eq_some_iff.mp he
      rw [hsplit] at hsorted he'
      rcases List.mem_append.mp he' with hbefore | hsingle
      · exact (List.pairwise_append.mp hsorted).2.2 e' hbefore e (List.mem_singleton.mpr rfl)
      · rw [List.mem_singleton.mp hsingle]

/-- The upload that it is, where the object was put. -/
def put? : S3Process → Option BackupArtifact
  | pruning _ artifact _ _ => some artifact
  | deleting artifact _ => some artifact
  | uploaded (.ok artifact) => some artifact
  | _ => none

/-- The bucket as it is to be: all objects as they were admitted, and the one of the configuration. -/
def Keeps (codecs : BackupCodecs) (k : Keepsake) (entries : List BucketEntry) : Prop :=
  ∀ e ∈ entries, k.Admits e.key e.modified ∧ (e.key = k.key → k.Holds codecs e.object)

theorem put?_deleteNext {keys : List String} : (deleteNext artifact keys).put? = some artifact := by
  cases keys with
  | nil => rfl
  | cons key keys => rfl

theorem put?_pruneNext {pages : List (List ListedObject)} {answer : Option ListPage}
    {found : BackupArtifact} (h : found ∈ (pruneNext start artifact pages answer).put?) :
    found = artifact := by
  cases answer with
  | none => cases h
  | some page =>
    cases htoken : page.nextToken with
    | some token =>
      rw [pruneNext_more htoken] at h
      exact (Option.some.inj h).symm
    | none =>
      rw [pruneNext_last htoken, put?_deleteNext] at h
      exact (Option.some.inj h).symm

section

variable {codecs : BackupCodecs} {store : RemoteStore} {key : String}

theorem keys_put {object : StoredObject} {modified : DateTime} (h : start <+: key.toList) (other : String) :
    other ∈ ((store.put key object modified).under start).map (·.key) ↔
      other ∈ (store.under start).map (·.key) ∨ other = key := by
  rw [RemoteStore.under_put h, List.map_append, List.mem_append, List.map_singleton, List.mem_singleton]
  constructor
  · intro hmem
    refine hmem.imp_left fun hold => ?_
    obtain ⟨e, he, rfl⟩ := List.mem_map.mp hold
    exact List.mem_map_of_mem (List.mem_of_mem_filter he)
  · intro hmem
    by_cases hsame : other = key
    · exact Or.inr hsame
    · obtain ⟨e, he, rfl⟩ := List.mem_map.mp (hmem.resolve_right hsame)
      exact Or.inl (List.mem_map_of_mem (List.mem_filter.mpr ⟨he, decide_eq_true hsame⟩))

theorem keys_delete (other : String) :
    other ∈ ((store.delete key).under start).map (·.key) ↔
      other ∈ (store.under start).map (·.key) ∧ other ≠ key := by
  rw [RemoteStore.under_delete]
  constructor
  · intro hmem
    obtain ⟨e, he, rfl⟩ := List.mem_map.mp hmem
    obtain ⟨hold, hne⟩ := List.mem_filter.mp he
    exact ⟨List.mem_map_of_mem hold, of_decide_eq_true hne⟩
  · intro hmem
    obtain ⟨hold, hne⟩ := hmem
    obtain ⟨e, he, rfl⟩ := List.mem_map.mp hold
    exact List.mem_map_of_mem (List.mem_filter.mpr ⟨he, decide_eq_true hne⟩)

theorem Keeps.put (h : Keeps codecs k (store.under start)) {object : StoredObject} {modified : DateTime}
    (hkey : start <+: key.toList) (hadmits : k.Admits key modified)
    (hholds : key = k.key → k.Holds codecs object) :
    Keeps codecs k ((store.put key object modified).under start) := by
  intro e he
  rw [RemoteStore.under_put hkey] at he
  rcases List.mem_append.mp he with hold | hnew
  · exact h e (List.mem_of_mem_filter hold)
  · rw [List.mem_singleton.mp hnew]
    exact ⟨hadmits, hholds⟩

theorem Keeps.delete (h : Keeps codecs k (store.under start)) :
    Keeps codecs k ((store.delete key).under start) := by
  intro e he
  rw [RemoteStore.under_delete] at he
  exact h e (List.mem_of_mem_filter he)

end

/-- A request that only reads. -/
theorem store_of_reads {store : RemoteStore} {c : S3Request} {met : S3Outcome}
    (h : c.effect met store = store) : (bucketPerform store c met).2 = store := by
  unfold bucketPerform
  cases met.request with
  | done => exact h
  | refused => rfl
  | lost => exact h

theorem spares_listNext {codecs : BackupCodecs} {pages : List (List S3Object)} (answer : Option ListPage) :
    (listNext start pages answer).Spares codecs k ∧ (listNext start pages answer).put? = none := by
  unfold listNext
  cases answer with
  | none => exact ⟨trivial, rfl⟩
  | some page =>
    dsimp only
    cases page.nextToken with
    | none => exact ⟨trivial, rfl⟩
    | some token => exact ⟨trivial, rfl⟩

/-- **A request of a process that spares the object**: it goes on sparing it, whatever the answer; the objects
stay as they are to be; the object stays where it is; and a process that comes to have put the object has put
it now. -/
theorem spares_perform {codecs : BackupCodecs} {store : RemoteStore} {s : S3Process} (hunder : s.Under start)
    (hspares : s.Spares codecs k) {c : S3Request} {next : c.Answer → S3Process}
    (hnext : s.next codecs = some ⟨c, next⟩) (met : S3Outcome)
    (hentries : Keeps codecs k (store.under start))
    (hput : ∀ start' artifact object, s = putting start' artifact object → met.request ≠ .refused →
      k.Admits artifact.key met.modified) :
    (next (bucketPerform store c met).1).Spares codecs k ∧
      Keeps codecs k ((bucketPerform store c met).2.under start) ∧
      (k.key ∈ (store.under start).map (·.key) →
        k.key ∈ ((bucketPerform store c met).2.under start).map (·.key)) ∧
      ∀ artifact ∈ (next (bucketPerform store c met).1).put?, artifact ∈ s.put? ∨
        (artifact.key = k.key → k.key ∈ ((bucketPerform store c met).2.under start).map (·.key)) := by
  cases s with
  | putting start' artifact object =>
    cases hnext
    obtain ⟨rfl, hkey⟩ := hunder
    have hkeeps : met.request ≠ .refused →
        Keeps codecs k ((store.put artifact.key object met.modified).under start') :=
      fun hcarried => hentries.put hkey (hput _ _ _ rfl hcarried) hspares
    have hstays : k.key ∈ (store.under start').map (·.key) →
        k.key ∈ ((store.put artifact.key object met.modified).under start').map (·.key) :=
      fun hthere => (keys_put hkey k.key).mpr (Or.inl hthere)
    unfold bucketPerform
    cases hrequest : met.request with
    | done =>
      refine ⟨⟨fun other hother => ?_, List.nodup_nil, fun key hkey => ?_⟩,
        hkeeps (by rw [hrequest]; decide), hstays, ?_⟩
      · cases hother
      · cases hkey
      · intro found hfound
        cases hfound
        exact Or.inr fun hsame => (keys_put hkey k.key).mpr (Or.inr hsame.symm)
    | refused => exact ⟨trivial, hentries, fun hthere => hthere, fun found hfound => by cases hfound⟩
    | lost =>
      exact ⟨trivial, hkeeps (by rw [hrequest]; decide), hstays, fun found hfound => by cases hfound⟩
  | pruning start' artifact pages token =>
    cases hnext
    obtain ⟨rfl, -⟩ := hunder
    rw [store_of_reads rfl]
    refine ⟨?_, hentries, fun hthere => hthere, fun found hfound => Or.inl ?_⟩
    · unfold bucketPerform
      cases met.request with
      | done => exact spares_pruneNext (fun e he => (hentries e he).1) store.keys_under hspares
      | refused => trivial
      | lost => trivial
    · rw [put?_pruneNext hfound]
      rfl
  | deleting artifact keys =>
    cases keys with
    | nil => cases hnext
    | cons key keys =>
      cases hnext
      have hne : k.key ≠ key := fun hsame => hspares (hsame ▸ List.mem_cons_self)
      have hrest : k.key ∉ keys := fun hmem => hspares (List.mem_cons_of_mem key hmem)
      have hstays : k.key ∈ (store.under start).map (·.key) →
          k.key ∈ ((store.delete key).under start).map (·.key) :=
        fun hthere => (keys_delete k.key).mpr ⟨hthere, hne⟩
      unfold bucketPerform
      cases met.request with
      | done =>
        refine ⟨spares_deleteNext hrest, hentries.delete, hstays, fun found hfound => Or.inl ?_⟩
        have hfound : found ∈ (deleteNext artifact keys).put? := hfound
        rw [put?_deleteNext] at hfound
        exact hfound
      | refused => exact ⟨trivial, hentries, fun hthere => hthere, fun found hfound => by cases hfound⟩
      | lost => exact ⟨trivial, hentries.delete, hstays, fun found hfound => by cases hfound⟩
  | listing start' pages token =>
    cases hnext
    rw [store_of_reads rfl]
    obtain ⟨hspares', hput'⟩ := @spares_listNext k start' codecs pages
      (bucketPerform store (.listObjects start' token) met).1
    refine ⟨hspares', hentries, fun hthere => hthere, fun found hfound => ?_⟩
    rw [hput'] at hfound
    cases hfound
  | downloading dir key =>
    cases hnext
    rw [store_of_reads rfl]
    exact ⟨trivial, hentries, fun hthere => hthere, fun found hfound => by cases hfound⟩
  | uploaded answer => cases hnext
  | listed answer => cases hnext
  | downloaded answer => cases hnext

end S3Process

/-! ### Runs -/

section

variable {codecs : BackupCodecs} {member : ℕ → Prop} {k : Keepsake}

/-- What is put under the key is of the configuration, and every object is put as it is admitted. -/
def Keepsake.Expects (codecs : BackupCodecs) (member : ℕ → Prop) (k : Keepsake)
    (x : System RemoteStore S3Process) : Sharing.Event S3Process S3Outcome → Prop
  | .start i s => member i → ∀ start artifact object, s = .putting start artifact object →
      artifact.key = k.key → k.Holds codecs object
  | .advance i met => member i → ∀ start artifact object,
      x.process i = some (.putting start artifact object) → met.request ≠ .refused →
        k.Admits artifact.key met.modified

/-- All members spare the object, and it is there when one has put it. -/
structure Kept (codecs : BackupCodecs) (member : ℕ → Prop) (k : Keepsake)
    (x : System RemoteStore S3Process) : Prop where
  sorted : (sharers codecs k.start member).Sorted x
  entries : S3Process.Keeps codecs k (x.store.under k.start)
  spares : ∀ i s, member i → x.process i = some s → s.Spares codecs k
  present : ∀ i s, member i → x.process i = some s → ∀ artifact ∈ s.put?, artifact.key = k.key →
    k.key ∈ (x.store.under k.start).map (·.key)

theorem Begins.spares {start : List Char} {s : S3Process} (h : Begins codecs start s)
    (hholds : ∀ start artifact object, s = .putting start artifact object → artifact.key = k.key →
      k.Holds codecs object) : s.Spares codecs k ∧ s.put? = none := by
  cases h with
  | uploadActive dir huses revisionId config now =>
    rw [S3Process.uploadActive] at hholds ⊢
    cases hload : dir.loadProfile with
    | none => exact ⟨trivial, rfl⟩
    | some files =>
      rw [hload] at hholds
      exact ⟨hholds _ _ _ rfl, rfl⟩
  | listBackups dir huses =>
    rw [S3Process.listBackups]
    cases dir.loadProfile with
    | none => exact ⟨trivial, rfl⟩
    | some files => exact ⟨trivial, rfl⟩
  | downloadConfig dir huses key =>
    rw [S3Process.downloadConfig]
    cases dir.loadProfile with
    | none => exact ⟨trivial, rfl⟩
    | some files =>
      dsimp only
      split
      · exact ⟨trivial, rfl⟩
      · exact ⟨trivial, rfl⟩

/-- **The step lemma.** -/
theorem Kept.step {x x' : System RemoteStore S3Process} {e : Sharing.Event S3Process S3Outcome}
    (h : Kept codecs member k x) (hshares : Shares codecs k.start member e)
    (hexpects : k.Expects codecs member x e)
    (hstep : Sharing.step (S3Process.machine codecs) bucketPerform x e = some x') :
    Kept codecs member k x' := by
  have hsorted := h.sorted.step hshares.admits hstep
  rcases step_cases hstep with ⟨i, s, rfl, -, rfl⟩ | ⟨i, met, s, c, next, rfl, hs, hnext, rfl⟩
  · refine ⟨hsorted, h.entries, fun j t hj ht => ?_, fun j t hj ht => ?_⟩
    · rcases process_update ht with ⟨rfl, hnew⟩ | ⟨-, hold⟩
      · rw [← Option.some.inj hnew]
        exact ((hshares.1 hj).spares (hexpects hj)).1
      · exact h.spares j t hj hold
    · rcases process_update ht with ⟨rfl, hnew⟩ | ⟨-, hold⟩
      · rw [← Option.some.inj hnew, ((hshares.1 hj).spares (hexpects hj)).2]
        intro artifact hput
        cases hput
      · exact h.present j t hj hold
  · by_cases hmember : member i
    · have hunder : s.Under k.start := (h.sorted i s hs).1 hmember
      obtain ⟨hspares, hentries, hstays, hput⟩ := S3Process.spares_perform hunder (h.spares i s hmember hs)
        hnext met h.entries (fun start' artifact object hsame => hexpects hmember start' artifact object
          (hsame ▸ hs))
      refine ⟨hsorted, hentries, fun j t hj ht => ?_, fun j t hj ht artifact hartifact hkey => ?_⟩
      · rcases process_update ht with ⟨-, hnew⟩ | ⟨-, hold⟩
        · rw [← Option.some.inj hnew]
          exact hspares
        · exact h.spares j t hj hold
      · rcases process_update ht with ⟨rfl, hnew⟩ | ⟨-, hold⟩
        · rw [← Option.some.inj hnew] at hartifact
          rcases hput artifact hartifact with hbefore | hnow
          · exact hstays (h.present j s hj hs artifact hbefore hkey)
          · exact hnow hkey
        · exact hstays (h.present j t hj hold artifact hartifact hkey)
    · -- another installation changes nothing under the prefix
      obtain ⟨start', hapart, hother⟩ := (h.sorted i s hs).2 hmember
      have hview : (bucketPerform x.store c met).2.under k.start = x.store.under k.start :=
        (separates_under k.start).leaves _ _ _ (hapart.outside ((S3Process.keepsTo codecs start' s c next
          hother hnext).1))
      refine ⟨hsorted, ?_, fun j t hj ht => ?_, fun j t hj ht => ?_⟩
      · rw [hview]
        exact h.entries
      · rcases process_update ht with ⟨rfl, -⟩ | ⟨-, hold⟩
        · exact absurd hj hmember
        · exact h.spares j t hj hold
      · rw [hview]
        rcases process_update ht with ⟨rfl, -⟩ | ⟨-, hold⟩
        · exact absurd hj hmember
        · exact h.present j t hj hold

/-- **The run lemma.** -/
theorem Kept.of_reaches {bucket : RemoteStore} {x : System RemoteStore S3Process}
    (hbucket : S3Process.Keeps codecs k (bucket.under k.start))
    (h : Reaches (Sharing.step (S3Process.machine codecs) bucketPerform)
      (fun x e => Shares codecs k.start member e ∧ k.Expects codecs member x e) (.idle bucket) x) :
    Kept codecs member k x := by
  have hidle : Kept codecs member k (.idle bucket) := by
    refine ⟨fun i s hs => ?_, hbucket, fun i s _ hs => ?_, fun i s _ hs => ?_⟩
    · cases hs
    · cases hs
    · cases hs
  exact h.invariant hidle fun _ _ _ he hbefore hstep => hbefore.step he.1 he.2 hstep

/-- What is downloaded from the bucket. -/
def RemoteStore.getObject (store : RemoteStore) (key : String) : Option StoredObject :=
  (store.objects.find? (·.key = key)).map (·.object)

/-- The object is read back as the configuration. -/
theorem download_of_keeps (hzstd : ∀ bytes, codecs.decodeAll (codecs.encodeAll bytes) = some bytes)
    {store : RemoteStore} (h : S3Process.Keeps codecs k (store.under k.start))
    (hthere : k.key ∈ (store.under k.start).map (·.key)) {dir : S3Files} {profile : S3Profile}
    {secrets : S3Secrets} (hload : dir.loadProfile = some (profile, secrets))
    (hunder : profile.allowedPrefix = k.start) (hdots : containsDotDot k.key.toList = false) :
    downloadConfig codecs dir store.getObject k.key = .ok k.config := by
  have hkey : k.start <+: k.key.toList := by
    rw [Keepsake.key, String.toList_ofList]
    exact List.prefix_append _ _
  obtain ⟨e, he, hsame⟩ := List.mem_map.mp hthere
  have hfound : ∃ found, (store.under k.start).find? (·.key = k.key) = some found := by
    rw [← Option.isSome_iff_exists, List.find?_isSome]
    exact ⟨e, he, decide_eq_true hsame⟩
  obtain ⟨found, hfound⟩ := hfound
  have hfoundKey : decide (found.key = k.key) = true :=
    @List.find?_some _ (fun e : BucketEntry => decide (e.key = k.key)) _ _ hfound
  obtain ⟨now, hobject⟩ := (h found (List.mem_of_find?_eq_some hfound)).2 (of_decide_eq_true hfoundKey)
  have hget : store.getObject k.key = some (S3Process.objectOf codecs k.revisionId k.config now) := by
    rw [RemoteStore.getObject, find?_under hkey, hfound, Option.map_some, hobject]
  have hupload : uploadActive codecs dir k.revisionId k.config now ⟨true, true⟩ =
      .ok (S3Process.artifactOf codecs profile k.revisionId k.config now,
        S3Process.objectOf codecs k.revisionId k.config now) := by
    rw [uploadActive, hload]
    rfl
  have hbackup : (S3Process.artifactOf codecs profile k.revisionId k.config now).key = k.key := by
    show profile.backupKey k.revisionId = k.key
    rw [S3Profile.backupKey, hunder]
    rfl
  rw [← hbackup] at hget hdots ⊢
  rw [downloadConfig_uploaded codecs hzstd hupload hget, if_neg (Bool.eq_false_iff.mp hdots)]

/-- **What was uploaded can be restored until ten other keys have texts as great.**  However uploads, listings
and downloads of any number of processes are interleaved and whatever becomes of their requests: once a member
has uploaded the revision, its configuration is downloaded, as long as no upload of the revision is of another
configuration, the texts that are not below the one of its object are given to fewer than ten other keys, and
the key has no two dots in a row. -/
theorem retained_of_reaches (hzstd : ∀ bytes, codecs.decodeAll (codecs.encodeAll bytes) = some bytes)
    {bucket : RemoteStore} {x : System RemoteStore S3Process}
    (hbucket : S3Process.Keeps codecs k (bucket.under k.start))
    (h : Reaches (Sharing.step (S3Process.machine codecs) bucketPerform)
      (fun x e => Shares codecs k.start member e ∧ k.Expects codecs member x e) (.idle bucket) x)
    {i : ℕ} {artifact : BackupArtifact} (hi : member i)
    (hupload : x.process i = some (.uploaded (.ok artifact))) (hkey : artifact.key = k.key)
    {dir : S3Files} {profile : S3Profile} {secrets : S3Secrets}
    (hload : dir.loadProfile = some (profile, secrets)) (hunder : profile.allowedPrefix = k.start)
    (hdots : containsDotDot k.key.toList = false) :
    downloadConfig codecs dir x.store.getObject artifact.key = .ok k.config := by
  have hkept := Kept.of_reaches hbucket h
  rw [hkey]
  exact download_of_keeps hzstd hkept.entries (hkept.present i _ hi hupload artifact rfl hkey) hload hunder
    hdots

end

/-! ### Two uploads -/

section

variable (config : Config)

/-- The revision that is uploaded first, and then only one other. -/
def firstOfTwo : Keepsake where
  start := (minioProfile "").allowedPrefix
  revisionId := "one"
  config := config
  since := Database.noonAnd 1
  newer := [(minioProfile "").backupKey "two"]
  few := by decide

def uploadOf (revisionId : String) : S3Process :=
  .uploadActive plainCodecs (minioFiles "") revisionId config (Database.noonAnd 0)

def artifactFor (revisionId : String) : BackupArtifact :=
  S3Process.artifactOf plainCodecs (minioProfile "") revisionId config (Database.noonAnd 0)

/-- Both have come back. -/
def bothUploaded : ℕ → Option S3Process :=
  Function.update (Function.update (fun _ => none) 0 (some (.uploaded (.ok (artifactFor config "one"))))) 1
    (some (.uploaded (.ok (artifactFor config "two"))))

/-- Both objects are put before a listing is read. -/
theorem reaches_bothUploaded : ∃ store,
    Reaches (Sharing.step (S3Process.machine plainCodecs) bucketPerform)
      (fun x e => Shares plainCodecs (firstOfTwo config).start (fun _ => True) e ∧
        (firstOfTwo config).Expects plainCodecs (fun _ => True) x e)
      (.idle emptyBucket) ⟨store, bothUploaded config⟩ := by
  let guard (x : System RemoteStore S3Process) (e : Sharing.Event S3Process S3Outcome) : Prop :=
    Shares plainCodecs (firstOfTwo config).start (fun _ => True) e ∧
      (firstOfTwo config).Expects plainCodecs (fun _ => True) x e
  have hne : (minioProfile "").backupKey "two" ≠ (minioProfile "").backupKey "one" := by decide
  have hstored : ∀ f i store (s : S3Process) (met : S3Outcome), s.Stored → met.request = .done →
      guard ⟨store, Function.update f i (some s)⟩ (.advance i met) := by
    intro f i store s met hstored _
    refine ⟨trivial, fun _ start artifact object hs _ => ?_⟩
    have hs : Function.update f i (some s) i = some (.putting start artifact object) := hs
    rw [Function.update_self, Option.some.injEq] at hs
    rw [hs] at hstored
    exact hstored.elim
  have hputs : ∀ f i store revisionId modified,
      (firstOfTwo config).Admits ((minioProfile "").backupKey revisionId) modified →
      guard ⟨store, Function.update f i (some (uploadOf config revisionId))⟩
        (.advance i (answeredAt modified 0)) := by
    intro f i store revisionId modified hadmits
    refine ⟨trivial, fun _ start artifact object hs _ => ?_⟩
    have hs : Function.update f i (some (uploadOf config revisionId)) i =
      some (.putting start artifact object) := hs
    rw [Function.update_self] at hs
    cases hs
    exact hadmits
  have hstart : ∀ x i revisionId, (revisionId = "one" ∨ revisionId = "two") →
      guard x (.start i (uploadOf config revisionId)) := by
    intro x i revisionId hone
    refine ⟨⟨fun _ => begins_minio _ _ _, fun hnot => absurd trivial hnot⟩, ?_⟩
    intro _ start artifact object hs hkey
    rcases hone with rfl | rfl
    · cases hs
      exact ⟨_, rfl⟩
    · cases hs
      exact absurd hkey hne
  have hidle : Reaches (Sharing.step (S3Process.machine plainCodecs) bucketPerform) guard
      (.idle emptyBucket) ⟨emptyBucket, fun _ => none⟩ := .start
  have hone := reaches_put (Database.noonAnd 1) rfl (hstart _ 0 "one" (Or.inl rfl))
    (hputs _ _ _ "one" _ ⟨fun _ => le_refl _, fun hother => absurd rfl hother⟩) rfl hidle
  have htwo := reaches_put (Database.noonAnd 2) rfl (hstart _ 1 "two" (Or.inr rfl))
    (hputs _ _ _ "two" _ ⟨fun hkey => absurd hkey hne, fun _ hnot => absurd (List.mem_singleton.mpr rfl) hnot⟩)
    rfl hone
  rw [Function.update_comm (by decide)] at htwo
  obtain ⟨store, hfirst⟩ := reaches_pruned (hstored _ 0) (Database.noonAnd 3) htwo
  rw [Function.update_comm (by decide)] at hfirst
  exact reaches_pruned (hstored _ 1) (Database.noonAnd 4) hfirst

theorem keeps_emptyBucket :
    S3Process.Keeps plainCodecs (firstOfTwo config) (emptyBucket.under (firstOfTwo config).start) := by
  intro e he
  cases he

end

theorem retained_after_two : ∃ store,
    downloadConfig plainCodecs (minioFiles "") (RemoteStore.getObject store)
      (artifactFor ⟨1, []⟩ "one").key = .ok ⟨1, []⟩ := by
  obtain ⟨store, hreaches⟩ := reaches_bothUploaded ⟨1, []⟩
  have hupload : bothUploaded ⟨1, []⟩ 0 = some (.uploaded (.ok (artifactFor ⟨1, []⟩ "one"))) := rfl
  exact ⟨store, @retained_of_reaches plainCodecs (fun _ => True) (firstOfTwo ⟨1, []⟩) plainCodecs_decodeAll
    emptyBucket ⟨store, bothUploaded ⟨1, []⟩⟩ (keeps_emptyBucket _) hreaches 0 (artifactFor ⟨1, []⟩ "one")
    trivial hupload rfl (minioFiles "") (minioProfile "") minioSecrets rfl rfl (by decide)⟩

end Portalis
