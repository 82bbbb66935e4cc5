import Portalis.SharedBucket

/-!
# Uploads at once

The scheduler, the handler and other installations may upload at once.  Each upload puts its object, reads
the listing page by page and deletes what comes after the first ten objects, while the others do the same.

* `mem_page`: what a listing comes to.
* `reaches_put`, `reaches_pruned`: an upload whose requests are answered puts its object and comes back.
* `settled_of_reaches`: when all have come back, at most ten objects are left.
* `isolated_iff`: exactly which prefixes keep two installations apart.
-/

namespace Portalis

open Ranking Programs Sharing

/-! ### What a listing has read -/

theorem mem_ascending {entries : List BucketEntry} {e : BucketEntry} :
    e ∈ ascending entries ↔ e ∈ entries :=
  (perm_descending _ entries).mem_iff

theorem pairwise_ascending (entries : List BucketEntry) :
    (ascending entries).Pairwise fun a b => a.key ≤ b.key :=
  (pairwise_descending (fun e : BucketEntry => OrderDual.toDual e.key) entries).imp fun h => h

/-- What is under the prefix is read already, or on the page, or after the next token. -/
theorem mem_page {entries : List BucketEntry} (hnodup : (entries.map (·.key)).Nodup)
    {token : Option String} {size : ℕ} (hsize : 0 < size) {e : BucketEntry} (he : e ∈ entries)
    (hread : ∀ last ∈ (pageOf entries token size).nextToken, e.key ≤ last) :
    (∃ last ∈ token, e.key ≤ last) ∨
      some e.key ∈ (pageOf entries token size).contents.map (·.toListedObject.key) := by
  by_cases hrest : token.all (· < e.key) = true
  · right
    have hmem : e ∈ remaining entries token := List.mem_filter.mpr ⟨mem_ascending.mpr he, hrest⟩
    have hpage : e ∈ (remaining entries token).take size := by
      by_contra hnot
      rw [← List.take_append_drop size (remaining entries token)] at hmem
      have hdrop := (List.mem_append.mp hmem).resolve_left hnot
      have hlt : size < (remaining entries token).length := by
        have hpos := List.length_pos_of_mem hdrop
        rw [List.length_drop] at hpos
        omega
      -- the page is not the last one: its last key is below those that are left
      have hsorted : (remaining entries token).Pairwise fun a b => a.key ≤ b.key :=
        (pairwise_ascending entries).filter _
      have hkeys : ((remaining entries token).map (·.key)).Nodup :=
        (((perm_descending _ entries).map _).nodup_iff.mpr hnodup).sublist (List.filter_sublist.map _)
      cases hlast : ((remaining entries token).take size).getLast? with
      | none =>
        rw [List.getLast?_eq_none_iff, List.take_eq_nil_iff] at hlast
        rcases hlast with hzero | hnil
        · exact absurd hzero hsize.ne'
        · rw [hnil] at hlt
          cases hlt
      | some last =>
        have hle : e.key ≤ last.key := by
          refine hread last.key ?_
          show last.key ∈ (pageOf entries token size).nextToken
          rw [pageOf, if_pos hlt, hlast]
          rfl
        have htake := List.mem_of_getLast? hlast
        rw [← List.take_append_drop size (remaining entries token), List.map_append,
          List.nodup_append] at hkeys
        rw [← List.take_append_drop size (remaining entries token), List.pairwise_append] at hsorted
        refine hkeys.2.2 last.key (List.mem_map_of_mem htake) e.key (List.mem_map_of_mem hdrop) ?_
        exact le_antisymm (hsorted.2.2 last htake e hdrop) hle
    rw [pageOf, List.map_map]
    exact List.mem_map_of_mem hpage
  · left
    cases token with
    | none => exact absurd rfl hrest
    | some last =>
      rw [Option.all_some, decide_eq_true_eq, not_lt] at hrest
      exact ⟨last, rfl, hrest⟩

theorem length_remaining_le (entries : List BucketEntry) (token : Option String) :
    (remaining entries token).length ≤ entries.length := by
  rw [← (perm_descending (fun e : BucketEntry => OrderDual.toDual e.key) entries).length_eq]
  exact List.length_filter_le _ _

/-- A page with room for everything is the last one. -/
theorem pageOf_last {entries : List BucketEntry} {token : Option String} {size : ℕ}
    (h : entries.length ≤ size) : (pageOf entries token size).nextToken = none :=
  if_neg (not_lt.mpr ((length_remaining_le entries token).trans h))

/-! ### An upload that nothing stops -/

/-- A request that is answered, and a page that has room for so many more. -/
def answeredAt (modified : DateTime) (room : ℕ) : S3Outcome := ⟨.done, modified, room + 1, Nat.succ_pos room⟩

/-- Its object is in the bucket, and it has not failed. -/
def S3Process.Stored : S3Process → Prop
  | pruning _ _ _ _ => True
  | deleting _ _ => True
  | uploaded (.ok _) => True
  | _ => False

section

variable {codecs : BackupCodecs}
  {guard : System RemoteStore S3Process → Sharing.Event S3Process S3Outcome → Prop}
  {origin : System RemoteStore S3Process} {i : ℕ} {f : ℕ → Option S3Process}

/-- A process makes an answered request. -/
theorem reaches_answered (modified : DateTime) (room : ℕ) {store : RemoteStore} {s : S3Process}
    {c : S3Request} {k : c.Answer → S3Process}
    (hadvance : guard ⟨store, Function.update f i (some s)⟩ (.advance i (answeredAt modified room)))
    (h : Reaches (Sharing.step (S3Process.machine codecs) bucketPerform) guard origin
      ⟨store, Function.update f i (some s)⟩)
    (hnext : s.next codecs = some ⟨c, k⟩) :
    Reaches (Sharing.step (S3Process.machine codecs) bucketPerform) guard origin
      ⟨c.effect (answeredAt modified room) store,
        Function.update f i (some (k (c.reply (answeredAt modified room) store)))⟩ := by
  have hstep := @step_advance _ _ _ _ _ (S3Process.machine codecs) bucketPerform
    ⟨store, Function.update f i (some s)⟩ i s (answeredAt modified room) c k
    (Function.update_self _ _ _) hnext
  rw [Function.update_idem] at hstep
  exact h.next _ hadvance hstep

theorem reaches_deleted
    (hadvance : ∀ store (s : S3Process) (met : S3Outcome), s.Stored → met.request = .done →
      guard ⟨store, Function.update f i (some s)⟩ (.advance i met))
    {artifact : BackupArtifact} (modified : DateTime) {keys : List String} : ∀ {store : RemoteStore},
      Reaches (Sharing.step (S3Process.machine codecs) bucketPerform) guard origin
        ⟨store, Function.update f i (some (.deleteNext artifact keys))⟩ →
      ∃ store', Reaches (Sharing.step (S3Process.machine codecs) bucketPerform) guard origin
        ⟨store', Function.update f i (some (.uploaded (.ok artifact)))⟩ := by
  induction keys with
  | nil =>
    intro store h
    exact ⟨store, h⟩
  | cons key keys ih =>
    intro store h
    exact ih (reaches_answered modified 0 (hadvance store (.deleting artifact (key :: keys)) _ trivial rfl) h
      rfl)

/-- One page has room for everything. -/
theorem reaches_pruned
    (hadvance : ∀ store (s : S3Process) (met : S3Outcome), s.Stored → met.request = .done →
      guard ⟨store, Function.update f i (some s)⟩ (.advance i met))
    {start : List Char} {artifact : BackupArtifact} {store : RemoteStore} (modified : DateTime)
    (h : Reaches (Sharing.step (S3Process.machine codecs) bucketPerform) guard origin
      ⟨store, Function.update f i (some (.pruning start artifact [] none))⟩) :
    ∃ store', Reaches (Sharing.step (S3Process.machine codecs) bucketPerform) guard origin
      ⟨store', Function.update f i (some (.uploaded (.ok artifact)))⟩ := by
  have hpage := reaches_answered modified (store.under start).length
    (hadvance store (.pruning start artifact [] none) _ trivial rfl) h rfl
  have hnext : S3Process.pruneNext start artifact [] (S3Request.reply
      (answeredAt modified (store.under start).length) store (.listObjects start none)) =
        .deleteNext artifact (pruneOldBackups keptBackups
          [(pageOf (store.under start) none ((store.under start).length + 1)).contents.map
            (·.toListedObject)]) :=
    S3Process.pruneNext_last (pageOf_last (Nat.le_succ _))
  rw [hnext] at hpage
  exact reaches_deleted hadvance modified hpage

/-- The object is put. -/
theorem reaches_put (modified : DateTime) {dir : S3Files} {profile : S3Profile} {secrets : S3Secrets}
    (hload : dir.loadProfile = some (profile, secrets)) {revisionId : String} {config : Config}
    {now : DateTime} {store : RemoteStore}
    (hstart : guard ⟨store, f⟩ (.start i (.uploadActive codecs dir revisionId config now)))
    (hadvance : guard ⟨store, Function.update f i (some (.uploadActive codecs dir revisionId config now))⟩
      (.advance i (answeredAt modified 0)))
    (hfree : f i = none)
    (h : Reaches (Sharing.step (S3Process.machine codecs) bucketPerform) guard origin ⟨store, f⟩) :
    Reaches (Sharing.step (S3Process.machine codecs) bucketPerform) guard origin
      ⟨store.put (profile.backupKey revisionId) (S3Process.objectOf codecs revisionId config now) modified,
        Function.update f i (some (.pruning profile.allowedPrefix
          (S3Process.artifactOf codecs profile revisionId config now) [] none))⟩ := by
  have hbegun := h.next _ hstart (step_start (by exact hfree))
  rw [S3Process.uploadActive, hload] at hbegun hadvance
  exact reaches_answered modified 0 hadvance hbegun rfl

end

/-! ### What overlapping uploads leave -/

namespace S3Process

/-- What it has read, and still deletes, tells of all but ten objects under the prefix. -/
def Bounds (entries : List BucketEntry) : S3Process → Prop
  | pruning _ _ pages token => ∀ e ∈ entries, (∃ last ∈ token, e.key ≤ last) →
      e.key ∈ (objectsOf pages).map (·.1)
  | deleting _ keys => ∃ kept : List String, kept.length ≤ keptBackups ∧
      ∀ e ∈ entries, e.key ∈ kept ∨ e.key ∈ keys
  | uploaded (.ok _) => ∃ kept : List String, kept.length ≤ keptBackups ∧ ∀ e ∈ entries, e.key ∈ kept
  | _ => False

variable {entries entries' : List BucketEntry} {start : List Char} {artifact : BackupArtifact}

theorem Bounds.mono (hsub : entries' ⊆ entries) {s : S3Process} (h : s.Bounds entries) :
    s.Bounds entries' := by
  cases s with
  | pruning start artifact pages token => exact fun e he => h e (hsub he)
  | deleting artifact keys =>
    obtain ⟨kept, hlength, hall⟩ := h
    exact ⟨kept, hlength, fun e he => hall e (hsub he)⟩
  | uploaded answer =>
    cases answer with
    | error error => exact h
    | ok artifact =>
      obtain ⟨kept, hlength, hall⟩ := h
      exact ⟨kept, hlength, fun e he => hall e (hsub he)⟩
  | _ => exact h

theorem bounds_deleteNext {kept keys : List String} (hlength : kept.length ≤ keptBackups)
    (hall : ∀ e ∈ entries, e.key ∈ kept ∨ e.key ∈ keys) : (deleteNext artifact keys).Bounds entries := by
  cases keys with
  | nil => exact ⟨kept, hlength, fun e he => (hall e he).resolve_right List.not_mem_nil⟩
  | cons key keys => exact ⟨kept, hlength, hall⟩

/-- One more page. -/
theorem bounds_pruneNext (hnodup : (entries.map (·.key)).Nodup) {pages : List (List ListedObject)}
    {token : Option String} {size : ℕ} (hsize : 0 < size)
    (h : (pruning start artifact pages token).Bounds entries) :
    (pruneNext start artifact pages (some (pageOf entries token size))).Bounds entries := by
  have hread : ∀ e ∈ entries, (∀ last ∈ (pageOf entries token size).nextToken, e.key ≤ last) →
      e.key ∈ (objectsOf (pages ++
        [(pageOf entries token size).contents.map (·.toListedObject)])).map (·.1) := by
    intro e he hlast
    rw [keys_objectsOf, List.flatten_append, List.filterMap_append, List.mem_append, ← keys_objectsOf]
    rcases mem_page hnodup hsize he hlast with hbefore | hpage
    · exact Or.inl (h e he hbefore)
    · right
      obtain ⟨object, hobject, hkey⟩ := List.mem_map.mp hpage
      rw [List.flatten_singleton]
      exact List.mem_filterMap.mpr ⟨_, List.mem_map_of_mem hobject, hkey⟩
  cases htoken : (pageOf entries token size).nextToken with
  | some last =>
    rw [pruneNext_more htoken]
    intro e he hlast
    refine hread e he fun last' hlast' => ?_
    rw [htoken] at hlast'
    cases hlast'
    obtain ⟨last', hsame, hle⟩ := hlast
    cases hsame
    exact hle
  | none =>
    -- what is not among the first ten is deleted
    rw [pruneNext_last htoken]
    refine @bounds_deleteNext _ _ (((ranked (pages ++
      [(pageOf entries token size).contents.map (·.toListedObject)])).take keptBackups).map (·.1)) _ ?_ ?_
    · rw [List.length_map]
      exact List.length_take_le _ _
    · intro e he
      have hmem := hread e he fun last hlast => by
        rw [htoken] at hlast
        cases hlast
      rw [pruneOldBackups_eq, ← List.mem_append, ← List.map_append, List.take_append_drop]
      exact ((perm_descending sortText _).map _).mem_iff.mpr hmem

/-- An answered request of a process that stays under the prefix: it stores its object only by a put, and the
objects stay bounded. -/
theorem bounds_answered {codecs : BackupCodecs} {store : RemoteStore} {s : S3Process} (hs : s.Under start)
    {c : S3Request} {k : c.Answer → S3Process} (hnext : s.next codecs = some ⟨c, k⟩) (met : S3Outcome) :
    (k (c.reply met store)).Bounds ((c.effect met store).under start) ∨
      (c.effect met store).under start ⊆ store.under start ∧
        ((k (c.reply met store)).Stored → s.Stored) ∧
        (s.Bounds (store.under start) →
          (k (c.reply met store)).Bounds ((c.effect met store).under start)) := by
  cases s with
  | putting start' artifact object =>
    cases hnext
    left
    intro e _ hread
    obtain ⟨last, hlast, -⟩ := hread
    cases hlast
  | pruning start' artifact pages token =>
    cases hnext
    obtain ⟨rfl, -⟩ := hs
    exact Or.inr ⟨List.Subset.refl _, fun _ => trivial, bounds_pruneNext store.keys_under met.pageSize_pos⟩
  | deleting artifact keys =>
    cases keys with
    | nil => cases hnext
    | cons key keys =>
      cases hnext
      right
      have heffect : (S3Request.effect met store (.deleteObject key)).under start =
          (store.under start).filter fun e => e.key ≠ key := RemoteStore.under_delete
      rw [heffect]
      refine ⟨List.filter_subset_self _, fun _ => trivial, fun hbounds => ?_⟩
      obtain ⟨kept, hlength, hall⟩ := hbounds
      refine bounds_deleteNext hlength fun e he => ?_
      obtain ⟨hmem, hne⟩ := List.mem_filter.mp he
      refine (hall e hmem).imp_right fun hkey => ?_
      exact (List.mem_cons.mp hkey).resolve_left (of_decide_eq_true hne)
  | listing start' pages token =>
    cases hnext
    right
    refine ⟨List.Subset.refl _, fun hstored => ?_, fun hbounds => hbounds.elim⟩
    have hstored : (listNext start' pages (some (pageOf (store.under start') token met.pageSize))).Stored :=
      hstored
    unfold listNext at hstored
    dsimp only at hstored
    split at hstored
    · exact hstored
    · exact hstored
  | downloading dir key =>
    cases hnext
    exact Or.inr ⟨List.Subset.refl _, fun hstored => hstored, fun hbounds => hbounds.elim⟩
  | uploaded answer => cases hnext
  | listed answer => cases hnext
  | downloaded answer => cases hnext

end S3Process

section

variable {codecs : BackupCodecs} {start : List Char} {member : ℕ → Prop}

/-- No request of a member fails. -/
def Answered (member : ℕ → Prop) : Sharing.Event S3Process S3Outcome → Prop
  | .start _ _ => True
  | .advance i met => member i → met.request = .done

/-- Where an object was stored, some process knows of all but ten objects that they go. -/
structure Bounded (start : List Char) (member : ℕ → Prop) (x : System RemoteStore S3Process) : Prop where
  members : ∀ i s, x.process i = some s → member i
  under : ∀ i s, x.process i = some s → s.Under start
  bounds : ∀ i s, x.process i = some s → s.Stored →
    ∃ j t, x.process j = some t ∧ t.Bounds (x.store.under start)

theorem Begins.not_stored {s : S3Process} (h : Begins codecs start s) : ¬ s.Stored := by
  intro hstored
  cases h with
  | uploadActive dir huses revisionId config now =>
    rw [S3Process.uploadActive] at hstored
    split at hstored
    · exact hstored
    · exact hstored
  | listBackups dir huses =>
    rw [S3Process.listBackups] at hstored
    split at hstored
    · exact hstored
    · exact hstored
  | downloadConfig dir huses key =>
    rw [S3Process.downloadConfig] at hstored
    split at hstored
    · exact hstored
    · split at hstored
      · exact hstored
      · exact hstored

/-- **The step lemma.** -/
theorem Bounded.step {x x' : System RemoteStore S3Process} {e : Sharing.Event S3Process S3Outcome}
    (h : Bounded start member x) (hshares : Shares codecs start member e) (hanswered : Answered member e)
    (hmember : member e.process)
    (hstep : Sharing.step (S3Process.machine codecs) bucketPerform x e = some x') :
    Bounded start member x' := by
  rcases step_cases hstep with ⟨i, s, rfl, hfree, rfl⟩ | ⟨i, met, s, c, k, rfl, hs, hnext, rfl⟩
  · have hbegins : Begins codecs start s := hshares.1 hmember
    refine ⟨fun j t ht => ?_, ?_, ?_⟩
    · rcases process_update ht with ⟨rfl, -⟩ | ⟨-, hold⟩
      · exact hmember
      · exact h.members j t hold
    · intro j t ht
      rcases process_update ht with ⟨rfl, hnew⟩ | ⟨-, hold⟩
      · rw [← Option.some.inj hnew]
        exact hbegins.under
      · exact h.under j t hold
    · intro j t ht hstored
      rcases process_update ht with ⟨rfl, hnew⟩ | ⟨-, hold⟩
      · rw [← Option.some.inj hnew] at hstored
        exact absurd hstored hbegins.not_stored
      · obtain ⟨l, u, hu, hbounds⟩ := h.bounds j t hold hstored
        refine ⟨l, u, ?_, hbounds⟩
        have hli : l ≠ i := by
          rintro rfl
          rw [hfree] at hu
          cases hu
        exact (Function.update_of_ne hli _ _).trans hu
  · have hdone : bucketPerform x.store c met = (c.reply met x.store, c.effect met x.store) := by
      rw [bucketPerform, hanswered hmember]
    have hunder := h.under i s hs
    rw [hdone]
    refine ⟨fun j t ht => ?_, ?_, ?_⟩
    · rcases process_update ht with ⟨rfl, -⟩ | ⟨-, hold⟩
      · exact hmember
      · exact h.members j t hold
    · intro j t ht
      rcases process_update ht with ⟨rfl, hnew⟩ | ⟨-, hold⟩
      · have hpromised := bucketPerform_promised x.store c met
        rw [hdone] at hpromised
        rw [← Option.some.inj hnew]
        exact (S3Process.keepsTo codecs start s c k hunder hnext).2 _ hpromised
      · exact h.under j t hold
    · intro j t ht hstored
      have hself : Function.update x.process i (some (k (c.reply met x.store))) i =
          some (k (c.reply met x.store)) := Function.update_self _ _ _
      rcases S3Process.bounds_answered hunder hnext met with hnew | ⟨hsub, hkeeps, hbounds⟩
      · exact ⟨i, _, hself, hnew⟩
      · have hbefore : ∃ l u, x.process l = some u ∧ u.Bounds (x.store.under start) := by
          rcases process_update ht with ⟨rfl, hnew⟩ | ⟨-, hold⟩
          · rw [← Option.some.inj hnew] at hstored
            exact h.bounds j s hs (hkeeps hstored)
          · exact h.bounds j t hold hstored
        obtain ⟨l, u, hu, hknown⟩ := hbefore
        by_cases hli : l = i
        · rw [hli, hs] at hu
          cases hu
          exact ⟨i, _, hself, hbounds hknown⟩
        · exact ⟨l, u, (Function.update_of_ne hli _ _).trans hu, hknown.mono hsub⟩

/-- It has come back. -/
def S3Process.Finished (codecs : BackupCodecs) (s : S3Process) : Prop := s.next codecs = none

theorem S3Process.Bounds.length_le {entries : List BucketEntry} {s : S3Process} (h : s.Bounds entries)
    (hfinished : s.Finished codecs) (hnodup : (entries.map (·.key)).Nodup) :
    entries.length ≤ keptBackups := by
  have hkept : ∃ kept : List String, kept.length ≤ keptBackups ∧ ∀ e ∈ entries, e.key ∈ kept := by
    cases s with
    | deleting artifact keys =>
      cases keys with
      | nil =>
        obtain ⟨kept, hlength, hall⟩ := h
        exact ⟨kept, hlength, fun e he => (hall e he).resolve_right List.not_mem_nil⟩
      | cons key keys => cases hfinished
    | uploaded answer =>
      cases answer with
      | error error => exact h.elim
      | ok artifact => exact h
    | pruning start artifact pages token => cases hfinished
    | _ => exact h.elim
  obtain ⟨kept, hlength, hall⟩ := hkept
  have hsub : entries.map (·.key) ⊆ kept := by
    intro key hkey
    obtain ⟨e, he, rfl⟩ := List.mem_map.mp hkey
    exact hall e he
  calc entries.length = (entries.map (·.key)).length := (List.length_map _).symm
    _ ≤ kept.length := (List.subperm_of_subset hnodup hsub).length_le
    _ ≤ keptBackups := hlength

/-- **The run lemma.** -/
theorem Bounded.of_reaches {bucket : RemoteStore} {x : System RemoteStore S3Process}
    (h : Reaches (Sharing.step (S3Process.machine codecs) bucketPerform)
      (fun _ e => (Shares codecs start member e ∧ Answered member e) ∧ member e.process) (.idle bucket) x) :
    Bounded start member x := by
  have hidle : Bounded start member (.idle bucket) := by
    refine ⟨fun i s hs => ?_, fun i s hs => ?_, fun i s hs => ?_⟩
    · cases hs
    · cases hs
    · cases hs
  exact h.invariant hidle fun _ _ _ he hbefore hstep => hbefore.step he.1.1 he.1.2 he.2 hstep

theorem Bounded.length_le {x : System RemoteStore S3Process} (h : Bounded start member x)
    (hfinished : ∀ i s, member i → x.process i = some s → s.Finished codecs) {i : ℕ}
    {artifact : BackupArtifact} (hupload : x.process i = some (.uploaded (.ok artifact))) :
    (x.store.under start).length ≤ keptBackups := by
  obtain ⟨j, t, ht, hbounds⟩ := h.bounds i _ hupload trivial
  exact hbounds.length_le (hfinished j t (h.members j t ht) ht) x.store.keys_under

/-- **What overlapping uploads leave**: when all members have come back, no request of theirs has failed and
an upload was among them, then at most ten objects are under the prefix. -/
theorem settled_of_reaches {bucket : RemoteStore} {x : System RemoteStore S3Process}
    (h : Reaches (Sharing.step (S3Process.machine codecs) bucketPerform)
      (fun _ e => Shares codecs start member e ∧ Answered member e) (.idle bucket) x)
    (hfinished : ∀ i s, member i → x.process i = some s → s.Finished codecs) {i : ℕ}
    {artifact : BackupArtifact} (hi : member i) (hupload : x.process i = some (.uploaded (.ok artifact))) :
    (x.store.under start).length ≤ keptBackups := by
  obtain ⟨y, hreaches, hview, hprocess⟩ := isolated_of_reaches (fun _ he => he.1) h
  have hfinished' : ∀ j t, member j → y.process j = some t → t.Finished codecs := by
    intro j t hj ht
    rw [← hprocess j hj] at ht
    exact hfinished j t hj ht
  rw [hview]
  exact (Bounded.of_reaches hreaches).length_le hfinished' ((hprocess i hi).symm.trans hupload)

end

/-- So many objects under a prefix. -/
def crowded (start : List Char) (n : ℕ) : RemoteStore where
  objects := (List.range n).map fun i =>
    ⟨String.ofList (start ++ List.replicate i 'x'), ⟨[], none⟩, Database.noonAnd 0, 0⟩
  puts := 1
  keys_nodup := by
    rw [List.map_map]
    refine List.nodup_range.map fun i j h => ?_
    have hlist : start ++ List.replicate i 'x' = start ++ List.replicate j 'x' := String.ofList_injective h
    have hlength := congrArg List.length (List.append_cancel_left hlist)
    rw [List.length_replicate, List.length_replicate] at hlength
    exact hlength
  serial_lt o ho := by
    obtain ⟨i, -, rfl⟩ := List.mem_map.mp ho
    exact Nat.zero_lt_one

theorem length_under_crowded (start : List Char) (n : ℕ) :
    ((crowded start n).under start).length = n := by
  have hall : ∀ o ∈ (crowded start n).objects, start.isPrefixOf o.key.toList = true := by
    intro o ho
    obtain ⟨i, -, rfl⟩ := List.mem_map.mp ho
    rw [String.toList_ofList]
    exact List.isPrefixOf_iff_prefix.mpr (List.prefix_append _ _)
  rw [RemoteStore.under, List.filter_eq_self.mpr hall, List.length_map]
  show ((List.range n).map _).length = n
  rw [List.length_map, List.length_range]

theorem begins_minio (revisionId : String) (config : Config) (now : DateTime) :
    Begins plainCodecs (minioProfile "").allowedPrefix
      (.uploadActive plainCodecs (minioFiles "") revisionId config now) := by
  refine .uploadActive _ (fun files hfiles => ?_) _ _ _
  cases hfiles
  rfl

/-- Two uploads into a bucket with twelve objects, and both objects are put before a listing is read. -/
theorem settled_after_two :
    ∃ x : System RemoteStore S3Process,
      (∃ artifact, x.process 0 = some (.uploaded (.ok artifact)) ∧ artifact.revisionId = "one") ∧
      (∃ artifact, x.process 1 = some (.uploaded (.ok artifact)) ∧ artifact.revisionId = "two") ∧
        (x.store.under (minioProfile "").allowedPrefix).length ≤ keptBackups := by
  let guard (e : Sharing.Event S3Process S3Outcome) : Prop :=
    Shares plainCodecs (minioProfile "").allowedPrefix (fun _ => True) e ∧ Answered (fun _ => True) e
  have hadvance : ∀ i (met : S3Outcome), met.request = .done → guard (.advance i met) :=
    fun i met hdone => ⟨trivial, fun _ => hdone⟩
  have hstart : ∀ i revisionId, guard (.start i (.uploadActive plainCodecs (minioFiles "") revisionId ⟨1, []⟩
      (Database.noonAnd 0))) := fun i revisionId =>
    ⟨⟨fun _ => begins_minio _ _ _, fun hnot => absurd trivial hnot⟩, trivial⟩
  have hidle : Reaches (Sharing.step (S3Process.machine plainCodecs) bucketPerform) (fun _ => guard)
      (.idle (crowded (minioProfile "").allowedPrefix 12))
      ⟨crowded (minioProfile "").allowedPrefix 12, fun _ => none⟩ := .start
  have hone := reaches_put (Database.noonAnd 1) rfl (hstart 0 "one") (hadvance 0 _ rfl) rfl hidle
  have htwo := reaches_put (Database.noonAnd 2) rfl (hstart 1 "two") (hadvance 1 _ rfl) rfl hone
  rw [Function.update_comm (by decide)] at htwo
  obtain ⟨store, hfirst⟩ := reaches_pruned (fun _ _ met _ => hadvance 0 met) (Database.noonAnd 3) htwo
  rw [Function.update_comm (by decide)] at hfirst
  obtain ⟨store', hboth⟩ := reaches_pruned (fun _ _ met _ => hadvance 1 met) (Database.noonAnd 4) hfirst
  let artifact (revisionId : String) : BackupArtifact :=
    S3Process.artifactOf plainCodecs (minioProfile "") revisionId ⟨1, []⟩ (Database.noonAnd 0)
  let f : ℕ → Option S3Process := Function.update (Function.update (fun _ => none) 0
    (some (.uploaded (.ok (artifact "one"))))) 1 (some (.uploaded (.ok (artifact "two"))))
  have hzero : f 0 = some (.uploaded (.ok (artifact "one"))) := rfl
  have hone : f 1 = some (.uploaded (.ok (artifact "two"))) := rfl
  have hfinished : ∀ i s, f i = some s → s.Finished plainCodecs := by
    intro i s hs
    rcases process_update hs with ⟨-, hnew⟩ | ⟨-, hold⟩
    · rw [← Option.some.inj hnew]
      rfl
    · rcases process_update hold with ⟨-, hnew⟩ | ⟨-, hfree⟩
      · rw [← Option.some.inj hnew]
        rfl
      · cases hfree
  have hsettled := @settled_of_reaches plainCodecs _ (fun _ => True) _ ⟨store', f⟩ hboth
    (fun i s _ hs => hfinished i s hs) 1 (artifact "two") trivial hone
  exact ⟨⟨store', f⟩, ⟨_, hzero, rfl⟩, ⟨_, hone, rfl⟩, hsettled⟩

/-! ### Exactly the prefixes that keep apart -/

/-- Two installations: the members have the one prefix, the others the other. -/
def SharesWith (codecs : BackupCodecs) (start start' : List Char) (member : ℕ → Prop) :
    Sharing.Event S3Process S3Outcome → Prop
  | .start i s => (member i → Begins codecs start s) ∧ (¬ member i → Begins codecs start' s)
  | .advance _ _ => True

/-- Whatever both send and in whatever order, the one gets the answers, and leaves the objects, of a run by
itself. -/
def Isolated (codecs : BackupCodecs) (start start' : List Char) : Prop :=
  ∀ (member : ℕ → Prop) (bucket : RemoteStore) (x : System RemoteStore S3Process),
    Reaches (Sharing.step (S3Process.machine codecs) bucketPerform)
      (fun _ => SharesWith codecs start start' member) (.idle bucket) x →
    ∃ y, Reaches (Sharing.step (S3Process.machine codecs) bucketPerform)
        (fun _ e => SharesWith codecs start start' member e ∧ member e.process) (.idle bucket) y ∧
      x.store.under start = y.store.under start ∧ ∀ i, member i → x.process i = y.process i

/-- What is under a prefix is under each beginning of it. -/
theorem RemoteStore.length_under_le {store : RemoteStore} {start start' : List Char} (h : start' <+: start) :
    (store.under start).length ≤ (store.under start').length := by
  rw [under, under, List.length_map, List.length_map]
  refine (List.monotone_filter_right store.objects fun o ho => ?_).length_le
  exact List.isPrefixOf_iff_prefix.mpr (h.trans (List.isPrefixOf_iff_prefix.mp ho))

section

variable {codecs : BackupCodecs} {start start' : List Char}

theorem isolated_of_apart (h : Apart start start') : Isolated codecs start start' := by
  intro member bucket x hreaches
  refine isolated_of_reaches (fun e he => ?_) hreaches
  cases e with
  | start i s => exact ⟨he.1, fun hnot => ⟨start', h, he.2 hnot⟩⟩
  | advance i met => trivial

/-- When only the other sends, nothing changes under the prefix. -/
theorem Isolated.under_eq (h : Isolated codecs start start') {bucket : RemoteStore}
    {x : System RemoteStore S3Process}
    (hreaches : Reaches (Sharing.step (S3Process.machine codecs) bucketPerform)
      (fun _ => SharesWith codecs start start' fun _ => False) (.idle bucket) x) :
    x.store.under start = bucket.under start := by
  obtain ⟨y, halone, hview, -⟩ := h (fun _ => False) bucket x hreaches
  cases halone with
  | start => exact hview
  | step _ he _ => exact he.2.elim

end

/-- One installation alone, and its requests are answered. -/
def Unhindered (codecs : BackupCodecs) (start : List Char) : Sharing.Event S3Process S3Outcome → Prop
  | .start _ s => Begins codecs start s
  | .advance _ met => met.request = .done

section

variable {codecs : BackupCodecs} {start start' : List Char} {e : Sharing.Event S3Process S3Outcome}

/-- It is the other one of two. -/
theorem Unhindered.sharesWith (h : Unhindered codecs start' e) :
    SharesWith codecs start start' (fun _ => False) e := by
  cases e with
  | start i s => exact ⟨fun hfalse => hfalse.elim, fun _ => h⟩
  | advance i met => trivial

theorem Unhindered.answered (h : Unhindered codecs start e) :
    Shares codecs start (fun _ => True) e ∧ Answered (fun _ => True) e := by
  cases e with
  | start i s => exact ⟨⟨fun _ => h, fun hnot => absurd trivial hnot⟩, trivial⟩
  | advance i met => exact ⟨trivial, fun _ => h⟩

theorem begins_nightly (codecs : BackupCodecs) (profile : S3Profile) :
    Begins codecs profile.allowedPrefix (.uploadActive codecs ⟨some profile, some minioSecrets⟩
      nightlyRevision.id nightlyRevision.config (Database.noonAnd 0)) := by
  refine .uploadActive _ (fun files hfiles => ?_) _ _ _
  cases hfiles
  rfl

theorem reaches_nightly_put (codecs : BackupCodecs) (profile : S3Profile) (bucket : RemoteStore) :
    Reaches (Sharing.step (S3Process.machine codecs) bucketPerform)
      (fun _ => Unhindered codecs profile.allowedPrefix) (.idle bucket)
      (.single (bucket.put (profile.backupKey nightlyRevision.id)
        (S3Process.objectOf codecs nightlyRevision.id nightlyRevision.config (Database.noonAnd 0))
        (Database.noonAnd 0)) 0 (.pruning profile.allowedPrefix
          (S3Process.artifactOf codecs profile nightlyRevision.id nightlyRevision.config (Database.noonAnd 0))
            [] none)) :=
  reaches_put (Database.noonAnd 0) rfl (begins_nightly codecs profile) rfl rfl .start

/-- An upload alone that is answered leaves at most ten objects. -/
theorem reaches_settled (codecs : BackupCodecs) (profile : S3Profile) (bucket : RemoteStore) :
    ∃ store artifact, Reaches (Sharing.step (S3Process.machine codecs) bucketPerform)
      (fun _ => Unhindered codecs profile.allowedPrefix) (.idle bucket)
        (.single store 0 (.uploaded (.ok artifact))) ∧
      (store.under profile.allowedPrefix).length ≤ keptBackups := by
  obtain ⟨store, hreaches⟩ := reaches_pruned (fun _ _ _ _ hdone => hdone) (Database.noonAnd 0)
    (reaches_nightly_put codecs profile bucket)
  refine ⟨store, _, hreaches, ?_⟩
  have hbounded := Bounded.of_reaches (hreaches.imp fun _ _ he => ⟨he.answered, trivial⟩)
  refine @Bounded.length_le codecs _ _ _ hbounded (fun j s _ hs => ?_) 0 _ (System.single_self store 0 _)
  rw [System.eq_of_single hs]
  rfl

end

/-- **Installations do not notice each other if and only if neither prefix begins with the other.**  Under a
prefix that begins with the other one, the other installation stores; and under a prefix that the other one
begins with, it deletes. -/
theorem isolated_iff (codecs : BackupCodecs) (profile profile' : S3Profile) :
    Isolated codecs profile.allowedPrefix profile'.allowedPrefix ↔
      Apart profile.allowedPrefix profile'.allowedPrefix := by
  refine ⟨fun h => ?_, isolated_of_apart⟩
  constructor
  · intro hbelow
    have hsame := h.under_eq ((reaches_nightly_put codecs profile' emptyBucket).imp
      fun _ _ he => he.sharesWith)
    have hkey : profile.allowedPrefix <+: (profile'.backupKey nightlyRevision.id).toList := by
      rw [S3Profile.backupKey, String.toList_ofList]
      exact hbelow.trans (List.prefix_append _ _)
    have hstored : emptyBucket.under profile.allowedPrefix = _ :=
      hsame.symm.trans (RemoteStore.under_put hkey)
    cases hstored
  · intro habove
    obtain ⟨store, artifact, hreaches, hten⟩ :=
      reaches_settled codecs profile' (crowded profile.allowedPrefix 11)
    have hsame : store.under profile.allowedPrefix = _ :=
      h.under_eq (hreaches.imp fun _ _ he => he.sharesWith)
    have hle : (store.under profile.allowedPrefix).length ≤ keptBackups :=
      (RemoteStore.length_under_le habove).trans hten
    rw [hsame, length_under_crowded] at hle
    exact absurd hle (by decide)

end Portalis
