import Portalis.Database

/-!
# What is kept of a write

`save_draft`, `mark_active` and `mark_apply_error` each write the table of revisions and then the audit log.
Only the row of `mark_active` is in a transaction, and that is committed before the audit entry is written.

* `accounted_iff`: when an error means that nothing was written, and success that it was entered in the log.
-/

namespace Portalis

namespace Database

/-- A write of the table and its audit entry. -/
inductive Bookkeeping
  | saveDraft (config : Config)
  | markActive (config : Config)
  | markApplyError (revisionId error : String)

namespace Bookkeeping

/-- The answer, which is the revision that was written, and the database afterwards. -/
def run (write : Bookkeeping) (db : Database) (now : Readings) (failing : Option DbStep) :
    Except DbError String × Database :=
  match write with
  | saveDraft config =>
    let (answer, after) := db.saveDraft config now failing
    (answer.map (·.id), after)
  | markActive config =>
    let (answer, after) := db.markActive config now failing
    (answer.map (·.id), after)
  | markApplyError revisionId error =>
    let (answer, after) := db.markApplyError revisionId error now failing
    (answer.map fun _ => revisionId, after)

/-- The write has something to change: its row is new, or there is a row to set its error on. -/
def Changes (write : Bookkeeping) (db : Database) (now : Readings) : Prop :=
  match write with
  | saveDraft _ => now.id ∉ db.revisions.map (·.id)
  | markActive _ => now.id ∉ db.revisions.map (·.id)
  | markApplyError revisionId error => ∃ r ∈ db.revisions, r.id = revisionId ∧ r.applyError ≠ some error

end Bookkeeping

/-- An error says that the table is as it was, and success that one entry names the revision. -/
def Accounted (before : Database) (answer : Except DbError String) (after : Database) : Prop :=
  match answer with
  | .error _ => after.revisions = before.revisions
  | .ok id => ∃ entry, after.auditLog = before.auditLog ++ [entry] ∧ entry.revisionId = some id

theorem accounted_error (db : Database) (e : DbError) : Accounted db (.error e) db := by
  show db.revisions = db.revisions
  rfl

/-- A row that is new is stored whenever it is not its own statement that fails. -/
theorem insertRevision_of_fresh {db : Database} {r : Revision} (h : r.id ∉ db.revisions.map (·.id)) :
    db.insertRevision r (some .audit) = .ok (db.append r h) := by
  rw [insertRevision, if_neg (by decide), dif_neg h]

/-- The table changes when a row is stored. -/
theorem append_revisions_ne (db : Database) (r : Revision) (h : r.id ∉ db.revisions.map (·.id)) :
    (db.append r h).revisions ≠ db.revisions := by
  intro hsame
  have hlength := congrArg List.length hsame
  rw [append, List.length_append, List.length_singleton] at hlength
  omega

/-- After a stored row all hangs on its audit entry. -/
theorem accounted_auditStored_iff {db : Database} {r : Revision} (h : r.id ∉ db.revisions.map (·.id))
    (action details : String) (now : Readings) (failing : Option DbStep) :
    Accounted db (((db.append r h).auditStored r action details now failing).1.map (·.id))
        ((db.append r h).auditStored r action details now failing).2 ↔
      failing ≠ some .audit := by
  unfold auditStored audit
  by_cases haudit : failing = some .audit
  · rw [if_pos haudit]
    exact iff_of_false (append_revisions_ne db r h) fun hnot => hnot haudit
  · rw [if_neg haudit]
    exact iff_of_true ⟨_, rfl, rfl⟩ haudit

/-- A row that cannot be stored is no change that lacks an entry. -/
theorem not_unaudited_of_error {db : Database} {r : Revision} {failing : Option DbStep} {e : DbError}
    (h : db.insertRevision r failing = .error e) :
    ¬ (failing = some .audit ∧ r.id ∉ db.revisions.map (·.id)) := by
  intro hunaudited
  rw [hunaudited.1, insertRevision_of_fresh hunaudited.2] at h
  cases h

theorem accounted_saveDraft_iff (db : Database) (config : Config) (now : Readings)
    (failing : Option DbStep) :
    Accounted db ((Bookkeeping.saveDraft config).run db now failing).1
        ((Bookkeeping.saveDraft config).run db now failing).2 ↔
      ¬ (failing = some .audit ∧ (Bookkeeping.saveDraft config).Changes db now) := by
  show Accounted db ((db.saveDraft config now failing).1.map (·.id)) (db.saveDraft config now failing).2 ↔
    ¬ (failing = some .audit ∧ now.id ∉ db.revisions.map (·.id))
  unfold saveDraft
  rcases db.insertRevision_cases (draftRow config now) failing with ⟨e, hins⟩ | ⟨hfresh, hins⟩
  · have hunaudited := not_unaudited_of_error hins
    rw [hins]
    exact iff_of_true (accounted_error db e) hunaudited
  · rw [hins]
    show Accounted db (((db.append _ hfresh).auditStored _ _ _ _ _).1.map _) _ ↔ _
    rw [accounted_auditStored_iff]
    constructor
    · intro hnot h
      exact hnot h.1
    · intro hnot haudit
      exact hnot ⟨haudit, hfresh⟩

theorem accounted_markActive_iff (db : Database) (config : Config) (now : Readings)
    (failing : Option DbStep) :
    Accounted db ((Bookkeeping.markActive config).run db now failing).1
        ((Bookkeeping.markActive config).run db now failing).2 ↔
      ¬ (failing = some .audit ∧ (Bookkeeping.markActive config).Changes db now) := by
  show Accounted db ((db.markActive config now failing).1.map (·.id)) (db.markActive config now failing).2 ↔
    ¬ (failing = some .audit ∧ now.id ∉ db.revisions.map (·.id))
  unfold markActive
  by_cases hbegin : failing = some .begin
  · rw [if_pos hbegin]
    refine iff_of_true (accounted_error db _) ?_
    intro h
    rw [hbegin] at h
    cases h.1
  · rw [if_neg hbegin]
    rcases db.insertRevision_cases (activeRow config now) failing with ⟨e, hins⟩ | ⟨hfresh, hins⟩
    · have hunaudited := not_unaudited_of_error hins
      rw [hins]
      exact iff_of_true (accounted_error db e) hunaudited
    · rw [hins]
      dsimp only
      by_cases hcommit : failing = some .commit
      · rw [if_pos hcommit]
        refine iff_of_true (accounted_error db _) ?_
        intro h
        rw [hcommit] at h
        cases h.1
      · rw [if_neg hcommit, accounted_auditStored_iff]
        constructor
        · intro hnot h
          exact hnot h.1
        · intro hnot haudit
          exact hnot ⟨haudit, hfresh⟩

/-- An `UPDATE` changes the table when a row of that id has another error, or none. -/
theorem updateError_revisions_eq_iff (db : Database) (revisionId error : String) :
    (db.updateError revisionId error).revisions = db.revisions ↔
      ¬ ∃ r ∈ db.revisions, r.id = revisionId ∧ r.applyError ≠ some error := by
  have hrow : ∀ r : Revision, setApplyError revisionId error r = r ↔
      ¬ (r.id = revisionId ∧ r.applyError ≠ some error) := by
    intro r
    unfold setApplyError
    by_cases hid : r.id = revisionId
    · rw [if_pos hid]
      constructor
      · intro hsame h
        rw [← hsame] at h
        exact h.2 rfl
      · intro hnot
        have herror : r.applyError = some error := by
          by_contra hne
          exact hnot ⟨hid, hne⟩
        rw [← herror]
    · rw [if_neg hid]
      exact iff_of_true rfl fun h => hid h.1
  have hmap : (db.updateError revisionId error).revisions = db.revisions ↔
      ∀ r ∈ db.revisions, setApplyError revisionId error r = id r := by
    rw [← List.map_inj_left, List.map_id]
    rfl
  rw [hmap]
  constructor
  · intro hsame h
    obtain ⟨r, hr, hchange⟩ := h
    exact (hrow r).mp (hsame r hr) hchange
  · intro hnot r hr
    exact (hrow r).mpr fun hchange => hnot ⟨r, hr, hchange⟩

theorem accounted_markApplyError_iff (db : Database) (revisionId error : String) (now : Readings)
    (failing : Option DbStep) :
    Accounted db ((Bookkeeping.markApplyError revisionId error).run db now failing).1
        ((Bookkeeping.markApplyError revisionId error).run db now failing).2 ↔
      ¬ (failing = some .audit ∧ (Bookkeeping.markApplyError revisionId error).Changes db now) := by
  show Accounted db ((db.markApplyError revisionId error now failing).1.map fun _ => revisionId)
      (db.markApplyError revisionId error now failing).2 ↔
    ¬ (failing = some .audit ∧ ∃ r ∈ db.revisions, r.id = revisionId ∧ r.applyError ≠ some error)
  unfold markApplyError
  by_cases hupdate : failing = some .update
  · rw [if_pos hupdate]
    refine iff_of_true (accounted_error db _) ?_
    intro h
    rw [hupdate] at h
    cases h.1
  · rw [if_neg hupdate]
    unfold audit
    by_cases haudit : failing = some .audit
    · dsimp only
      rw [if_pos haudit]
      show (db.updateError revisionId error).revisions = db.revisions ↔ _
      rw [updateError_revisions_eq_iff]
      constructor
      · intro hnot h
        exact hnot h.2
      · intro hnot h
        exact hnot ⟨haudit, h⟩
    · dsimp only
      rw [if_neg haudit]
      exact iff_of_true ⟨_, rfl, rfl⟩ fun h => haudit h.1

/-- **When a write accounts for what it did**: unless it changed the table and its audit entry fails. -/
theorem accounted_iff (write : Bookkeeping) (db : Database) (now : Readings) (failing : Option DbStep) :
    Accounted db (write.run db now failing).1 (write.run db now failing).2 ↔
      ¬ (failing = some .audit ∧ write.Changes db now) := by
  cases write with
  | saveDraft config => exact accounted_saveDraft_iff db config now failing
  | markActive config => exact accounted_markActive_iff db config now failing
  | markApplyError revisionId error => exact accounted_markApplyError_iff db revisionId error now failing

/-- **A draft that is stored** although the call says that it was not. -/
theorem saved_draft_unaccounted :
    ¬ Accounted empty
      ((Bookkeeping.saveDraft .default).run empty (.at "draft" (noonAnd 0)) (some .audit)).1
      ((Bookkeeping.saveDraft .default).run empty (.at "draft" (noonAnd 0)) (some .audit)).2 := by
  intro hsame
  have hrows : ((Bookkeeping.saveDraft .default).run empty (.at "draft" (noonAnd 0))
      (some .audit)).2.revisions.length = 1 := by decide
  have hnone := congrArg List.length (show _ = empty.revisions from hsame)
  rw [hrows] at hnone
  cases hnone

end Database

end Portalis
