import Portalis.Backup
import Portalis.Ranking

/-!
# Pruning

`prune_old_backups` lists the objects under the backup prefix, page by page, sorts them by the text of their
last modification, the greatest first, and deletes all but the first ten.  The texts end with the letter `Z`,
and the one of a full second sorts above those of its fractions.

* `keepsMostRecent_iff`: when the objects that are kept are the most recent ones.
* `newest_survives`: the object just uploaded is kept then.
* `newest_backup_deleted`: it can be the one that is deleted.
-/

namespace Portalis

open Ranking

/-! ### Listings -/

/-- What a listing says of an object. -/
structure ListedObject where
  key : Option String
  lastModified : Option DateTime
  deriving DecidableEq

/-- The pages of a listing, in which every key is once. -/
structure BackupListing where
  pages : List (List ListedObject)
  keys_nodup : (pages.flatten.filterMap (·.key)).Nodup

/-- The order of optional values: none is below all. -/
def optional {α : Type} (value : Option α) : WithBot α := value

/-- The keys and the texts of the instants, page after page. -/
def listed (pages : List (List ListedObject)) : List (String × Option String) :=
  pages.flatMap fun page => page.filterMap fun object =>
    object.key.map fun key => (key, object.lastModified.map DateTime.toZulu)

/-- `prune_old_backups`: the keys it deletes, one after the other. -/
def pruneOldBackups (keep : ℕ) (pages : List (List ListedObject)) : List String :=
  ((descending (fun object => optional object.2) (listed pages)).drop keep).map (·.1)

/-! ### The most recent ones -/

/-- The objects and when they were modified. -/
def objectsOf (pages : List (List ListedObject)) : List (String × Option DateTime) :=
  pages.flatten.filterMap fun object => object.key.map fun key => (key, object.lastModified)

/-- What is not deleted are `keep` objects, or all, and none of them is earlier than one that is. -/
structure KeepsMostRecent (keep : ℕ) (objects : List (String × Option DateTime))
    (deleted : List String) : Prop where
  found : ∀ key ∈ deleted, key ∈ objects.map (·.1)
  count : (objects.filter fun object => object.1 ∉ deleted).length = min keep objects.length
  recent : ∀ kept ∈ objects, kept.1 ∉ deleted → ∀ gone ∈ objects, gone.1 ∈ deleted →
    ¬ optional kept.2 < optional gone.2

/-- The text that the object is sorted by. -/
def sortText (object : String × Option DateTime) : WithBot String :=
  optional (object.2.map DateTime.toZulu)

/-- The earlier object has the greater text: the numerals of the later one go on from its own. -/
def Outranks (earlier later : String × Option DateTime) : Prop :=
  ∃ s t, earlier.2 = some s ∧ later.2 = some t ∧ s < t ∧ s.numerals <+: t.numerals

/-- The cut is between the two: fewer objects have a greater text than the one, and more have at least the
text of the other. -/
def CutBetween (keep : ℕ) (objects : List (String × Option DateTime))
    (one other : String × Option DateTime) : Prop :=
  objects.countP (fun object => sortText one < sortText object) < keep ∧
    keep < objects.countP fun object => sortText other ≤ sortText object

/-- **The newest object survives** where the most recent ones are kept. -/
theorem newest_survives {keep : ℕ} {objects : List (String × Option DateTime)} {deleted : List String}
    {newest : String × Option DateTime} (h : KeepsMostRecent keep objects deleted) (hkeep : 0 < keep)
    (hmem : newest ∈ objects)
    (hlatest : ∀ other ∈ objects, other ≠ newest → optional other.2 < optional newest.2) :
    newest.1 ∉ deleted := by
  intro hgone
  have hpos : 0 < (objects.filter fun object => object.1 ∉ deleted).length := by
    have hlength := List.length_pos_of_mem hmem
    rw [h.count]
    omega
  obtain ⟨kept, hkept⟩ := List.exists_mem_of_length_pos hpos
  obtain ⟨hobject, hstays⟩ := List.mem_filter.mp hkept
  have hstays : kept.1 ∉ deleted := of_decide_eq_true hstays
  have hne : kept ≠ newest := by
    intro hsame
    rw [hsame] at hstays
    exact hstays hgone
  exact h.recent kept hobject hstays newest hmem hgone (hlatest kept hobject hne)

/-! ### Texts and instants -/

theorem sortText_eq_iff {a b : String × Option DateTime} : sortText a = sortText b ↔ a.2 = b.2 := by
  show a.2.map DateTime.toZulu = b.2.map DateTime.toZulu ↔ _
  exact (Option.map_injective fun _ _ h => DateTime.toZulu_inj.mp h).eq_iff

/-- **An earlier object that does not sort below** outranks the later one. -/
theorem outranks_iff {a b : String × Option DateTime} :
    optional a.2 < optional b.2 ∧ sortText b ≤ sortText a ↔ Outranks a b := by
  unfold Outranks sortText optional
  cases ha : a.2 with
  | none =>
    refine iff_of_false ?_ ?_
    · intro h
      cases hb : b.2 with
      | none =>
        rw [hb] at h
        exact lt_irrefl _ h.1
      | some t =>
        rw [hb] at h
        exact absurd h.2 (not_le.mpr (WithBot.bot_lt_coe t.toZulu))
    · intro h
      obtain ⟨s, t, hs, -⟩ := h
      cases hs
  | some s =>
    cases hb : b.2 with
    | none =>
      refine iff_of_false ?_ ?_
      · intro h
        exact absurd h.1 (not_lt.mpr (bot_le : (⊥ : WithBot DateTime) ≤ (s : WithBot DateTime)))
      · intro h
        obtain ⟨s', t, -, ht, -⟩ := h
        cases ht
    | some t =>
      have hlt : (optional (some s) < optional (some t)) ↔ s < t := WithBot.coe_lt_coe
      have hle : (optional (some t.toZulu) ≤ optional (some s.toZulu)) ↔ t.toZulu ≤ s.toZulu :=
        WithBot.coe_le_coe
      constructor
      · intro h
        have hst := hlt.mp h.1
        exact ⟨s, t, rfl, rfl, hst, (DateTime.toZulu_le_iff_of_lt hst).mp (hle.mp h.2)⟩
      · intro h
        obtain ⟨s', t', hs, ht, hst, hprefix⟩ := h
        cases hs
        cases ht
        exact ⟨hlt.mpr hst, hle.mpr ((DateTime.toZulu_le_iff_of_lt hst).mpr hprefix)⟩

/-! ### What is deleted -/

theorem keys_objectsOf (pages : List (List ListedObject)) :
    (objectsOf pages).map (·.1) = pages.flatten.filterMap (·.key) := by
  rw [objectsOf, List.map_filterMap]
  refine List.filterMap_congr fun object _ => ?_
  cases object.key with
  | none => rfl
  | some key => rfl

/-- The pages make up one list. -/
theorem listed_eq (pages : List (List ListedObject)) :
    listed pages = (objectsOf pages).map fun object => (object.1, object.2.map DateTime.toZulu) := by
  have hobject : ∀ object : ListedObject,
      (object.key.map fun key => (key, object.lastModified)).map
          (fun object => (object.1, object.2.map DateTime.toZulu)) =
        object.key.map fun key => (key, object.lastModified.map DateTime.toZulu) := by
    intro object
    cases object.key with
    | none => rfl
    | some key => rfl
  rw [objectsOf, List.map_filterMap, List.filterMap_congr fun object _ => hobject object, listed,
    List.filterMap_flatten, List.flatMap]

/-- The cut of the sorted objects. -/
def ranked (pages : List (List ListedObject)) : List (String × Option DateTime) :=
  descending sortText (objectsOf pages)

theorem pruneOldBackups_eq (keep : ℕ) (pages : List (List ListedObject)) :
    pruneOldBackups keep pages = ((ranked pages).drop keep).map (·.1) := by
  have hsort : descending (fun object => optional object.2) (listed pages) =
      (ranked pages).map fun object => (object.1, object.2.map DateTime.toZulu) := by
    rw [listed_eq]
    refine (List.map_insertionSort _ _ _ _ fun a _ b _ => ?_).symm
    rfl
  rw [pruneOldBackups, hsort, ← List.map_drop, List.map_map]
  rfl

section

variable (listing : BackupListing) (keep : ℕ)

theorem nodup_keys : ((objectsOf listing.pages).map (·.1)).Nodup := by
  rw [keys_objectsOf]
  exact listing.keys_nodup

variable {listing keep}

theorem mem_ranked {object : String × Option DateTime} :
    object ∈ ranked listing.pages ↔ object ∈ objectsOf listing.pages :=
  (perm_descending sortText _).mem_iff

/-- An object is deleted when it is after the cut. -/
theorem key_mem_deleted_iff {object : String × Option DateTime}
    (h : object ∈ objectsOf listing.pages) :
    object.1 ∈ pruneOldBackups keep listing.pages ↔ object ∈ (ranked listing.pages).drop keep := by
  rw [pruneOldBackups_eq]
  constructor
  · intro hkey
    obtain ⟨gone, hgone, hsame⟩ := List.mem_map.mp hkey
    have hlisted : gone ∈ objectsOf listing.pages := mem_ranked.mp (List.mem_of_mem_drop hgone)
    rw [← List.inj_on_of_nodup_map (nodup_keys listing) hlisted h hsame]
    exact hgone
  · intro hgone
    exact List.mem_map_of_mem hgone

theorem key_notMem_deleted_iff {object : String × Option DateTime}
    (h : object ∈ objectsOf listing.pages) :
    object.1 ∉ pruneOldBackups keep listing.pages ↔ object ∈ (ranked listing.pages).take keep := by
  have hnodup : (ranked listing.pages).Nodup :=
    (perm_descending sortText _).nodup_iff.mpr (nodup_keys listing).of_map
  rw [key_mem_deleted_iff h]
  constructor
  · intro hnot
    have hsplit := mem_ranked.mpr h
    rw [← List.take_append_drop keep (ranked listing.pages)] at hsplit
    exact (List.mem_append.mp hsplit).resolve_right hnot
  · intro hkept hgone
    exact List.disjoint_take_drop hnodup (le_refl keep) hkept hgone

/-- As many are kept as can be. -/
theorem count_kept :
    ((objectsOf listing.pages).filter fun object =>
        object.1 ∉ pruneOldBackups keep listing.pages).length =
      min keep (objectsOf listing.pages).length := by
  have hperm := (perm_descending sortText (objectsOf listing.pages)).filter fun object =>
    decide (object.1 ∉ pruneOldBackups keep listing.pages)
  have hkept : (ranked listing.pages).filter (fun object =>
      decide (object.1 ∉ pruneOldBackups keep listing.pages)) = (ranked listing.pages).take keep := by
    conv_lhs => rw [← List.take_append_drop keep (ranked listing.pages)]
    have htake : ∀ object ∈ (ranked listing.pages).take keep,
        decide (object.1 ∉ pruneOldBackups keep listing.pages) = true := fun object hobject =>
      decide_eq_true ((key_notMem_deleted_iff (mem_ranked.mp (List.mem_of_mem_take hobject))).mpr hobject)
    have hdrop : ∀ object ∈ (ranked listing.pages).drop keep,
        ¬ decide (object.1 ∉ pruneOldBackups keep listing.pages) = true := by
      intro object hobject hkept
      exact of_decide_eq_true hkept
        ((key_mem_deleted_iff (mem_ranked.mp (List.mem_of_mem_drop hobject))).mpr hobject)
    rw [List.filter_append, List.filter_eq_self.mpr htake, List.filter_eq_nil_iff.mpr hdrop,
      List.append_nil]
  rw [← hperm.length_eq]
  show ((ranked listing.pages).filter _).length = _
  rw [hkept, List.length_take, ← (perm_descending sortText (objectsOf listing.pages)).length_eq]
  rfl

/-- **Where an object is deleted**: so many places after the cut. -/
theorem getElem?_pruneOldBackups_iff {object : String × Option DateTime}
    (h : object ∈ objectsOf listing.pages) (j : ℕ) :
    (pruneOldBackups keep listing.pages)[j]? = some object.1 ↔
      rank sortText (objectsOf listing.pages) object = keep + j := by
  have hnodup : (ranked listing.pages).Nodup :=
    (perm_descending sortText _).nodup_iff.mpr (nodup_keys listing).of_map
  have hplace : (ranked listing.pages)[rank sortText (objectsOf listing.pages) object]? = some object :=
    getElem?_rank h
  rw [pruneOldBackups_eq, List.getElem?_map, List.getElem?_drop]
  constructor
  · intro hkey
    obtain ⟨other, hother, hsame⟩ := Option.map_eq_some_iff.mp hkey
    have hlisted : other ∈ objectsOf listing.pages := mem_ranked.mp (List.mem_of_getElem? hother)
    rw [List.inj_on_of_nodup_map (nodup_keys listing) hlisted h hsame] at hother
    have hlt := (List.getElem?_eq_some_iff.mp hplace).1
    exact (List.getElem?_inj hlt hnodup).mp (hplace.trans hother.symm)
  · intro hrank
    rw [← hrank, hplace]
    rfl

theorem length_pruneOldBackups (keep : ℕ) (pages : List (List ListedObject)) :
    (pruneOldBackups keep pages).length = (objectsOf pages).length - keep := by
  rw [pruneOldBackups_eq, List.length_map, List.length_drop,
    ← (perm_descending sortText (objectsOf pages)).length_eq]
  rfl

/-- **When the most recent objects are kept**: when the cut does not fall between an object and an earlier
one that outranks it. -/
theorem keepsMostRecent_iff (listing : BackupListing) (keep : ℕ) :
    KeepsMostRecent keep (objectsOf listing.pages) (pruneOldBackups keep listing.pages) ↔
      ¬ ∃ earlier ∈ objectsOf listing.pages, ∃ later ∈ objectsOf listing.pages,
        Outranks earlier later ∧ CutBetween keep (objectsOf listing.pages) earlier later := by
  have hsorted : (ranked listing.pages).Pairwise fun a b => sortText b ≤ sortText a :=
    pairwise_descending sortText _
  have hperm := perm_descending sortText (objectsOf listing.pages)
  have hbefore : ∀ object ∈ objectsOf listing.pages,
      (∃ kept ∈ (ranked listing.pages).take keep, sortText kept = sortText object) ↔
        (objectsOf listing.pages).countP (fun other => sortText object < sortText other) < keep := by
    intro object hobject
    rw [exists_mem_take_iff hsorted ⟨object, mem_ranked.mpr hobject, rfl⟩, ← hperm.countP_eq]
    rfl
  have hafter : ∀ object ∈ objectsOf listing.pages,
      (∃ gone ∈ (ranked listing.pages).drop keep, sortText gone = sortText object) ↔
        keep < (objectsOf listing.pages).countP fun other => sortText object ≤ sortText other := by
    intro object hobject
    rw [exists_mem_drop_iff hsorted ⟨object, mem_ranked.mpr hobject, rfl⟩, ← hperm.countP_eq]
    rfl
  constructor
  · intro h hcut
    obtain ⟨earlier, hearlier, later, hlater, houtranks, hkeeps, hdeletes⟩ := hcut
    obtain ⟨kept, hkept, hkeptText⟩ := (hbefore earlier hearlier).mpr hkeeps
    obtain ⟨gone, hgone, hgoneText⟩ := (hafter later hlater).mpr hdeletes
    have hkeptMem := mem_ranked.mp (List.mem_of_mem_take hkept)
    have hgoneMem := mem_ranked.mp (List.mem_of_mem_drop hgone)
    refine h.recent kept hkeptMem ((key_notMem_deleted_iff hkeptMem).mpr hkept) gone hgoneMem
      ((key_mem_deleted_iff hgoneMem).mpr hgone) ?_
    rw [sortText_eq_iff.mp hkeptText, sortText_eq_iff.mp hgoneText]
    exact (outranks_iff.mpr houtranks).1
  · intro hnone
    refine ⟨?_, count_kept, ?_⟩
    · intro key hkey
      rw [pruneOldBackups_eq] at hkey
      obtain ⟨gone, hgone, hsame⟩ := List.mem_map.mp hkey
      rw [← hsame]
      exact List.mem_map_of_mem (mem_ranked.mp (List.mem_of_mem_drop hgone))
    · intro kept hkept hstays gone hgone hdeleted hearlier
      have htake := (key_notMem_deleted_iff hkept).mp hstays
      have hdrop := (key_mem_deleted_iff hgone).mp hdeleted
      have hle := le_of_mem_take_of_mem_drop hsorted htake hdrop
      exact hnone ⟨kept, hkept, gone, hgone, outranks_iff.mp ⟨hearlier, hle⟩,
        (hbefore kept hkept).mp ⟨kept, htake, rfl⟩, (hafter gone hgone).mp ⟨gone, hdrop, rfl⟩⟩

end

/-! ### A full second and its half -/

def halfASecond : DateTime := { Database.noonAnd 0 with nanos := 500000000, nanos_lt := by decide }

def backupObject (revision : String) (modified : DateTime) : ListedObject :=
  ⟨some ("revisions/" ++ revision ++ ".json.zst"), some modified⟩

/-- Ten objects of a full second, and on the next page one that was uploaded half a second later. -/
def elevenBackups : BackupListing where
  pages :=
    [["a", "b", "c", "d", "e", "f", "g", "h", "i", "j"].map fun revision =>
        backupObject revision (Database.noonAnd 0),
      [backupObject "newest" halfASecond]]
  keys_nodup := by decide

/-- **The object just uploaded** is the one that is deleted. -/
theorem newest_backup_deleted :
    ¬ KeepsMostRecent 10 (objectsOf elevenBackups.pages) (pruneOldBackups 10 elevenBackups.pages) := by
  intro h
  have hdeleted : pruneOldBackups 10 elevenBackups.pages = ["revisions/newest.json.zst"] := by
    decide +kernel
  have hnewest : ("revisions/newest.json.zst", some halfASecond) ∈ objectsOf elevenBackups.pages := by
    decide +kernel
  rw [hdeleted] at h
  refine newest_survives h (by decide) hnewest ?_ List.mem_cons_self
  decide +kernel

end Portalis
