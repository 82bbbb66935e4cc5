import Portalis.Overlap
import Portalis.Instant
import Portalis.Ranking

/-!
# The revision store

`db.rs`: revisions in the order they were inserted, and the audit log.  A revision is never deleted; the
newest one of a kind is recomputed from the text of `created_at`, and the index on `(kind, created_at
DESC)` lists equal texts in insertion order.  Each SQL statement can fail: `mark_active` inserts in a
transaction and writes its audit row after the commit.

* `markActive_cases`, `saveDraft_cases`: all that the writers can do.
* `latestRevision_append`: what one insertion does to the newest revision.
* `latest_iff_leads`: the newest revision is the one whose reading is later than all before it and not
  earlier than any after it.
* `newest_is_last_iff`: exactly when the newest revisions are those of the last calls.
* `ordered_by_createdAt`: the order of the texts, which `latest_revision` and `revisions` ask for, is
  chronological.
-/

namespace Portalis

open Instant Text

/-! ### Rows -/

inductive RevisionKind
  | draft
  | active
  deriving DecidableEq

structure Revision where
  id : String
  kind : RevisionKind
  config : Config
  createdAt : DateTime
  appliedAt : Option DateTime
  applyError : Option String
  deriving DecidableEq

structure AuditEntry where
  action : String
  revisionId : Option String
  details : String
  createdAt : DateTime
  deriving DecidableEq

/-- The tables `revisions` and `audit_log`, in rowid order; `id` is the primary key. -/
structure Database where
  revisions : List Revision
  auditLog : List AuditEntry
  ids_nodup : (revisions.map (·.id)).Nodup
  deriving DecidableEq

/-- The SQL statements of a writing section under the lock. -/
inductive DbStep
  | begin
  | insert
  | commit
  | update
  | audit
  deriving DecidableEq

inductive DbError
  | constraint
  | failed (step : DbStep)
  deriving DecidableEq

namespace Database

def empty : Database := ⟨[], [], List.nodup_nil⟩

/-! ### Reading -/

/-- `ORDER BY created_at DESC LIMIT 1`: the greatest text, the first row among equals. -/
def latestRevision (self : Database) (kind : RevisionKind) : Option Revision :=
  (self.revisions.filter (·.kind = kind)).argmax fun r => r.createdAt.toRfc3339

/-- `revisions`: the rows of both kinds, the greatest text first, and at most `limit` of them.  A limit that
is negative as an `i64` is none. -/
def listRevisions (self : Database) (limit : UInt64) : List Revision :=
  let rows := Ranking.descending (fun r => r.createdAt.toRfc3339) self.revisions
  if limit.toNat < 2 ^ 63 then rows.take limit.toNat else rows

def draftConfig (self : Database) : Option Revision := self.latestRevision .draft

def activeRevision (self : Database) : Option Revision := self.latestRevision .active

def activeConfig (self : Database) : Option Config := self.activeRevision.map (·.config)

def revision (self : Database) (id : String) : Option Revision :=
  self.revisions.find? fun r => r.id = id

/-! ### Writing -/

/-- The table with one more row. -/
def append (self : Database) (r : Revision) (h : r.id ∉ self.revisions.map (·.id)) :
    Database where
  revisions := self.revisions ++ [r]
  auditLog := self.auditLog
  ids_nodup := by
    rw [List.map_append, List.map_singleton]
    exact List.nodup_append_comm.mp (List.nodup_cons.mpr ⟨h, self.ids_nodup⟩)

/-- The kind and the configuration of every row. -/
def rows (self : Database) : List (RevisionKind × Config) :=
  self.revisions.map fun r => (r.kind, r.config)

theorem rows_append (self : Database) (r : Revision) (h : r.id ∉ self.revisions.map (·.id)) :
    (self.append r h).rows = self.rows ++ [(r.kind, r.config)] :=
  List.map_append

/-- `INSERT INTO revisions`. -/
def insertRevision (self : Database) (r : Revision) (failing : Option DbStep) :
    Except DbError Database :=
  if failing = some .insert then .error (.failed .insert)
  else if h : r.id ∈ self.revisions.map (·.id) then .error .constraint
  else .ok (self.append r h)

def audit (self : Database) (action : String) (revisionId : Option String) (details : String)
    (now : DateTime) (failing : Option DbStep) : Except DbError Database :=
  if failing = some .audit then .error (.failed .audit)
  else .ok { self with auditLog := self.auditLog ++ [⟨action, revisionId, details, now⟩] }

/-- What one call reads from outside: the clock, at each place the source reads it, and a fresh UUID. -/
structure Readings where
  id : String
  appliedAt : DateTime
  createdAt : DateTime
  auditedAt : DateTime
  deriving DecidableEq

def newRevision (kind : RevisionKind) (config : Config) (appliedAt : Option DateTime)
    (now : Readings) : Revision :=
  ⟨now.id, kind, config, now.createdAt, appliedAt, none⟩

def draftRow (config : Config) (now : Readings) : Revision := newRevision .draft config none now

def activeRow (config : Config) (now : Readings) : Revision :=
  newRevision .active config (some now.appliedAt) now

/-- The audit entry that follows a stored row, and the answer. -/
def auditStored (stored : Database) (revision : Revision) (action details : String)
    (now : Readings) (failing : Option DbStep) : Except DbError Revision × Database :=
  match stored.audit action (some revision.id) details now.auditedAt failing with
  | .error e => (.error e, stored)
  | .ok audited => (.ok revision, audited)

/-- `save_draft`: the row, then its audit entry. -/
def saveDraft (self : Database) (config : Config) (now : Readings) (failing : Option DbStep) :
    Except DbError Revision × Database :=
  match self.insertRevision (draftRow config now) failing with
  | .error e => (.error e, self)
  | .ok stored => stored.auditStored (draftRow config now) "save_draft" "draft saved" now failing

/-- `mark_active`: the row in a transaction, and after its commit the audit entry. -/
def markActive (self : Database) (config : Config) (now : Readings) (failing : Option DbStep) :
    Except DbError Revision × Database :=
  if failing = some .begin then (.error (.failed .begin), self)
  else
    match self.insertRevision (activeRow config now) failing with
    | .error e => (.error e, self)
    | .ok transaction =>
      if failing = some .commit then (.error (.failed .commit), self)
      else
        transaction.auditStored (activeRow config now) "apply" "revision became active" now failing

def setApplyError (id error : String) (r : Revision) : Revision :=
  if r.id = id then { r with applyError := some error } else r

theorem setApplyError_spec (id error : String) (r : Revision) :
    (setApplyError id error r).kind = r.kind ∧ (setApplyError id error r).config = r.config ∧
      (setApplyError id error r).createdAt = r.createdAt ∧ (setApplyError id error r).id = r.id := by
  unfold setApplyError
  split <;> exact ⟨rfl, rfl, rfl, rfl⟩

/-- `UPDATE revisions SET apply_error`. -/
def updateError (self : Database) (revisionId error : String) : Database where
  revisions := self.revisions.map (setApplyError revisionId error)
  auditLog := self.auditLog
  ids_nodup := by
    have hids : ((·.id) ∘ setApplyError revisionId error) = fun r : Revision => r.id :=
      funext fun r => (setApplyError_spec revisionId error r).2.2.2
    rw [List.map_map, hids]
    exact self.ids_nodup

/-- `mark_apply_error`: the error on the row, then its audit entry. -/
def markApplyError (self : Database) (revisionId : String) (error : String) (now : Readings)
    (failing : Option DbStep) : Except DbError Unit × Database :=
  if failing = some .update then (.error (.failed .update), self)
  else
    let updated := self.updateError revisionId error
    match updated.audit "apply_failed" (some revisionId) error now.auditedAt failing with
    | .error e => (.error e, updated)
    | .ok audited => (.ok (), audited)

/-! ### What the writers do -/

/-- After a stored row the call fails with its audit entry or answers the row; the row stays. -/
theorem auditStored_cases (stored : Database) (revision : Revision) (action details : String)
    (now : Readings) (failing : Option DbStep) :
    (failing = some .audit ∧ stored.auditStored revision action details now failing =
        (.error (.failed .audit), stored)) ∨
      ∃ log, stored.auditStored revision action details now failing =
        (.ok revision, { stored with auditLog := log }) := by
  unfold auditStored audit
  by_cases haudit : failing = some .audit
  · exact Or.inl ⟨haudit, by simp only [if_pos haudit]⟩
  · exact Or.inr ⟨_, by simp only [if_neg haudit]; rfl⟩

theorem insertRevision_cases (self : Database) (r : Revision) (failing : Option DbStep) :
    (∃ e, self.insertRevision r failing = .error e) ∨
      ∃ h, self.insertRevision r failing = .ok (self.append r h) := by
  unfold insertRevision
  by_cases hinsert : failing = some .insert
  · exact Or.inl ⟨_, if_pos hinsert⟩
  · rw [if_neg hinsert]
    by_cases h : r.id ∈ self.revisions.map (·.id)
    · exact Or.inl ⟨_, dif_pos h⟩
    · exact Or.inr ⟨h, dif_neg h⟩

/-- **`save_draft`, case by case.** -/
theorem saveDraft_cases (self : Database) (config : Config) (now : Readings)
    (failing : Option DbStep) :
    (∃ e, self.saveDraft config now failing = (.error e, self)) ∨
      (∃ h, failing = some .audit ∧ self.saveDraft config now failing =
        (.error (.failed .audit), self.append (draftRow config now) h)) ∨
      ∃ h log, self.saveDraft config now failing =
        (.ok (draftRow config now), { self.append (draftRow config now) h with auditLog := log }) := by
  unfold saveDraft
  rcases self.insertRevision_cases (draftRow config now) failing with ⟨e, hins⟩ | ⟨h, hins⟩
  · exact Or.inl ⟨e, by rw [hins]⟩
  · rw [hins]
    rcases (self.append _ h).auditStored_cases (draftRow config now) "save_draft" "draft saved" now
      failing with ⟨haudit, hrun⟩ | ⟨log, hrun⟩
    · exact Or.inr (Or.inl ⟨h, haudit, hrun⟩)
    · exact Or.inr (Or.inr ⟨h, log, hrun⟩)

/-- **`mark_active`, case by case.**  Before the commit nothing changes; after it the row is there,
whether or not the call succeeds. -/
theorem markActive_cases (self : Database) (config : Config) (now : Readings)
    (failing : Option DbStep) :
    (∃ e, self.markActive config now failing = (.error e, self)) ∨
      (∃ h, failing = some .audit ∧ self.markActive config now failing =
        (.error (.failed .audit), self.append (activeRow config now) h)) ∨
      ∃ h log, self.markActive config now failing =
        (.ok (activeRow config now),
          { self.append (activeRow config now) h with auditLog := log }) := by
  unfold markActive
  by_cases hbegin : failing = some .begin
  · exact Or.inl ⟨.failed .begin, by rw [if_pos hbegin]⟩
  rw [if_neg hbegin]
  rcases self.insertRevision_cases (activeRow config now) failing with ⟨e, hins⟩ | ⟨h, hins⟩
  · exact Or.inl ⟨e, by rw [hins]⟩
  · rw [hins]
    by_cases hcommit : failing = some .commit
    · exact Or.inl ⟨.failed .commit, by simp only [if_pos hcommit]⟩
    · simp only [if_neg hcommit]
      rcases (self.append _ h).auditStored_cases (activeRow config now) "apply"
        "revision became active" now failing with ⟨haudit, hrun⟩ | ⟨log, hrun⟩
      · exact Or.inr (Or.inl ⟨h, haudit, hrun⟩)
      · exact Or.inr (Or.inr ⟨h, log, hrun⟩)

/-- A row is stored before its audit entry fails. -/
theorem markActive_of_audit {self : Database} {config : Config} {now : Readings}
    (h : (activeRow config now).id ∉ self.revisions.map (·.id)) :
    self.markActive config now (some .audit) =
      (.error (.failed .audit), self.append (activeRow config now) h) := by
  have hins : self.insertRevision (activeRow config now) (some .audit) =
      .ok (self.append (activeRow config now) h) := by
    rw [insertRevision, if_neg (by decide), dif_neg h]
  rw [markActive, if_neg (by decide), hins]
  rfl

/-! ### The newest revision -/

/-- **What an insertion does to the newest revision**: a later text wins, an equal one does not. -/
theorem latestRevision_append (self : Database) (r : Revision)
    (h : r.id ∉ self.revisions.map (·.id)) (kind : RevisionKind) :
    (self.append r h).latestRevision kind =
      if r.kind = kind then
        match self.latestRevision kind with
        | none => some r
        | some best => if best.createdAt < r.createdAt then some r else some best
      else self.latestRevision kind := by
  rw [latestRevision, append, List.filter_append]
  by_cases hkind : r.kind = kind
  · rw [if_pos hkind, List.filter_cons_of_pos (by simpa using hkind), List.filter_nil,
      List.argmax_concat, ← latestRevision]
    cases self.latestRevision kind with
    | none => rfl
    | some best => simp only [DateTime.toRfc3339_lt_iff]
  · rw [if_neg hkind, List.filter_cons_of_neg (by simpa using hkind), List.filter_nil,
      List.append_nil, latestRevision]

/-- The clock reading is later than that of the newest active revision. -/
def Later (self : Database) (reading : DateTime) : Prop :=
  ∀ r ∈ self.activeRevision, r.createdAt < reading

instance (self : Database) (reading : DateTime) : Decidable (self.Later reading) :=
  inferInstanceAs (Decidable (∀ r ∈ self.activeRevision, r.createdAt < reading))

/-- What an insertion does to the newest active revision. -/
theorem activeRevision_append (self : Database) (config : Config) (now : Readings)
    (h : (activeRow config now).id ∉ self.revisions.map (·.id)) :
    (self.append (activeRow config now) h).activeRevision =
      match self.activeRevision with
      | none => some (activeRow config now)
      | some best =>
        if best.createdAt < now.createdAt then some (activeRow config now) else some best :=
  (self.latestRevision_append (activeRow config now) h .active).trans (if_pos rfl)

theorem activeRevision_append_of_later {self : Database} {config : Config} {now : Readings}
    (h : (activeRow config now).id ∉ self.revisions.map (·.id)) (hlater : self.Later now.createdAt) :
    (self.append (activeRow config now) h).activeRevision = some (activeRow config now) := by
  rw [activeRevision_append]
  cases hlatest : self.activeRevision with
  | none => rfl
  | some best => exact if_pos (hlater best hlatest)

theorem activeRevision_append_of_not_later {self : Database} {config : Config} {now : Readings}
    (h : (activeRow config now).id ∉ self.revisions.map (·.id))
    (hlater : ¬ self.Later now.createdAt) :
    (self.append (activeRow config now) h).activeRevision = self.activeRevision := by
  rw [activeRevision_append]
  cases hlatest : self.activeRevision with
  | none => exact absurd (fun r hr => nomatch hlatest.symm.trans hr) hlater
  | some best =>
    refine if_neg fun hlt => hlater fun r hr => ?_
    cases hlatest.symm.trans hr
    exact hlt

/-- The audit log does not matter for what is newest. -/
theorem latestRevision_of_revisions_eq {a b : Database} (h : a.revisions = b.revisions)
    (kind : RevisionKind) : a.latestRevision kind = b.latestRevision kind := by
  rw [latestRevision, latestRevision, h]

/-- A draft is never the newest active revision. -/
theorem activeRevision_saveDraft (self : Database) (config : Config) (now : Readings)
    (failing : Option DbStep) :
    (self.saveDraft config now failing).2.activeRevision = self.activeRevision := by
  have happend : ∀ h, (self.append (draftRow config now) h).activeRevision = self.activeRevision :=
    fun h => (self.latestRevision_append (draftRow config now) h .active).trans (if_neg nofun)
  rcases self.saveDraft_cases config now failing with ⟨e, hrun⟩ | ⟨h, -, hrun⟩ | ⟨h, log, hrun⟩
  · rw [hrun]
  · rw [hrun]
    exact happend h
  · rw [hrun]
    exact happend h

theorem kind_of_latestRevision {self : Database} {kind : RevisionKind} {r : Revision}
    (h : self.latestRevision kind = some r) : r ∈ self.revisions ∧ r.kind = kind := by
  have hmem := List.mem_filter.mp (List.argmax_mem h)
  exact ⟨hmem.1, by simpa using hmem.2⟩

/-! ### The order of the texts -/

theorem createdAt_le_of_latestRevision {self : Database} {kind : RevisionKind} {r other : Revision}
    (h : self.latestRevision kind = some r) (hmem : other ∈ self.revisions)
    (hkind : other.kind = kind) : other.createdAt ≤ r.createdAt := by
  have hother : other ∈ self.revisions.filter (·.kind = kind) :=
    List.mem_filter.mpr ⟨hmem, by simpa using hkind⟩
  have hle := List.le_of_mem_argmax (f := fun r : Revision => r.createdAt.toRfc3339) hother h
  exact (DateTime.toRfc3339_le_iff _ _).mp hle

/-- The list is cut off a ranking of all rows. -/
theorem exists_listRevisions_eq_take (self : Database) (limit : UInt64) :
    ∃ k, self.listRevisions limit =
      (Ranking.descending (fun r => r.createdAt.toRfc3339) self.revisions).take k := by
  unfold listRevisions
  dsimp only
  split
  · exact ⟨limit.toNat, rfl⟩
  · exact ⟨_, (List.take_length).symm⟩

/-- **`ORDER BY created_at DESC` is chronological.**  The stored text of the earlier instant has the smaller
octets; the newest revision of a kind is none that another one of its kind is later than; and the listed
revisions come latest first, with none left out that is later than a listed one. -/
theorem ordered_by_createdAt :
    (∀ a b : DateTime, utf8 a.toRfc3339 < utf8 b.toRfc3339 ↔ a < b) ∧
      (∀ (self : Database) (kind : RevisionKind), ∀ r ∈ self.latestRevision kind,
        ∀ other ∈ self.revisions, other.kind = kind → other.createdAt ≤ r.createdAt) ∧
      ∀ (self : Database) (limit : UInt64),
        ((self.listRevisions limit).Pairwise fun newer older =>
          older.createdAt ≤ newer.createdAt) ∧
        ∀ r ∈ self.listRevisions limit, ∀ other ∈ self.revisions,
          other ∉ self.listRevisions limit → other.createdAt ≤ r.createdAt := by
  refine ⟨fun a b => ?_, fun self kind r hr other hmem hkind => ?_, fun self limit => ?_⟩
  · rw [utf8_lt_utf8_iff a.toRfc3339_ascii b.toRfc3339_ascii, DateTime.toRfc3339_lt_iff]
  · exact createdAt_le_of_latestRevision hr hmem hkind
  · obtain ⟨k, hk⟩ := self.exists_listRevisions_eq_take limit
    have hsorted := Ranking.pairwise_descending (fun r : Revision => r.createdAt.toRfc3339)
      self.revisions
    rw [hk]
    constructor
    · refine (hsorted.sublist (List.take_sublist k _)).imp fun {newer older} hle => ?_
      exact (DateTime.toRfc3339_le_iff _ _).mp hle
    · intro r hr other hmem hnot
      have hall : other ∈ Ranking.descending (fun r => r.createdAt.toRfc3339) self.revisions :=
        (Ranking.perm_descending _ _).mem_iff.mpr hmem
      rw [← List.take_append_drop k (Ranking.descending _ _)] at hall
      rcases List.mem_append.mp hall with hin | hout
      · exact absurd hin hnot
      · exact (DateTime.toRfc3339_le_iff _ _).mp
          (Ranking.le_of_mem_take_of_mem_drop hsorted hr hout)

/-- `mark_apply_error` writes on rows, or nothing. -/
theorem markApplyError_revisions (self : Database) (id error : String) (now : Readings)
    (failing : Option DbStep) :
    (self.markApplyError id error now failing).2.revisions = self.revisions ∨
      (self.markApplyError id error now failing).2.revisions =
        self.revisions.map (setApplyError id error) := by
  unfold markApplyError
  by_cases hupdate : failing = some .update
  · exact Or.inl (by rw [if_pos hupdate])
  · refine Or.inr ?_
    rw [if_neg hupdate]
    unfold audit
    by_cases haudit : failing = some .audit
    · simp only [if_pos haudit]
      rfl
    · simp only [if_neg haudit]
      rfl

/-- An error on a row changes neither its kind nor its configuration. -/
theorem rows_markApplyError (self : Database) (id error : String) (now : Readings)
    (failing : Option DbStep) : (self.markApplyError id error now failing).2.rows = self.rows := by
  unfold rows
  rcases self.markApplyError_revisions id error now failing with h | h
  · rw [h]
  · rw [h, List.map_map]
    refine List.map_congr_left fun r _ => ?_
    obtain ⟨hkind, hconfig, -, -⟩ := setApplyError_spec id error r
    rw [Function.comp_apply, hkind, hconfig]

theorem filter_setApplyError (id error : String) (kind : RevisionKind) (rs : List Revision) :
    (rs.map (setApplyError id error)).filter (·.kind = kind) =
      (rs.filter (·.kind = kind)).map (setApplyError id error) := by
  rw [List.filter_map]
  congr 1
  exact List.filter_congr fun r _ => by simp [(setApplyError_spec id error r).1]

/-- **An error on a row does not change which row is newest.** -/
theorem latestRevision_markApplyError (self : Database) (id error : String) (now : Readings)
    (failing : Option DbStep) (kind : RevisionKind) :
    (self.markApplyError id error now failing).2.latestRevision kind = self.latestRevision kind ∨
      (self.markApplyError id error now failing).2.latestRevision kind =
        (self.latestRevision kind).map (setApplyError id error) := by
  rcases self.markApplyError_revisions id error now failing with h | h
  · exact Or.inl (latestRevision_of_revisions_eq h kind)
  · refine Or.inr ?_
    rw [latestRevision, h, filter_setApplyError, latestRevision]
    exact argmax_map (fun r => by rw [(setApplyError_spec id error r).2.2.1]) _

/-- The active configuration has no error on it. -/
theorem activeConfig_markApplyError (self : Database) (id error : String) (now : Readings)
    (failing : Option DbStep) :
    (self.markApplyError id error now failing).2.activeConfig = self.activeConfig := by
  unfold activeConfig activeRevision
  rcases self.latestRevision_markApplyError id error now failing .active with h | h
  · rw [h]
  · rw [h, Option.map_map]
    exact Option.map_congr fun r _ => (setApplyError_spec id error r).2.1

/-- An error on a draft is none on an active revision. -/
theorem activeRevision_markApplyError {self : Database} {draft : Revision}
    (hmem : draft ∈ self.revisions) (hkind : draft.kind = .draft) (error : String) (now : Readings)
    (failing : Option DbStep) :
    (self.markApplyError draft.id error now failing).2.activeRevision = self.activeRevision := by
  rcases self.markApplyError_revisions draft.id error now failing with h | h
  · exact latestRevision_of_revisions_eq h .active
  · have hkeep : ∀ r ∈ self.revisions, r.kind = .active → setApplyError draft.id error r = r := by
      intro r hr hactive
      refine if_neg fun hid => ?_
      rw [List.inj_on_of_nodup_map self.ids_nodup hr hmem hid, hkind] at hactive
      cases hactive
    rw [activeRevision, activeRevision, latestRevision, h, filter_setApplyError, latestRevision]
    congr 1
    refine (List.map_congr_left fun r hr => ?_).trans (List.map_id _)
    have hr := List.mem_filter.mp hr
    exact hkeep r hr.1 (by simpa using hr.2)

/-! ### Histories -/

/-- One call of a writer, with what it reads from outside. -/
structure StoreCall where
  kind : RevisionKind
  config : Config
  now : Readings

/-- `save_draft` or `mark_active`, with no statement failing. -/
def StoreCall.run (call : StoreCall) (db : Database) : Except DbError Revision × Database :=
  match call.kind with
  | .draft => db.saveDraft call.config call.now none
  | .active => db.markActive call.config call.now none

/-- A sequence of calls that all succeed. -/
def runCalls (db : Database) : List StoreCall → Option Database
  | [] => some db
  | call :: calls =>
    match call.run db with
    | (.ok _, db) => runCalls db calls
    | (.error _, _) => none

def StoreCall.row (call : StoreCall) : Revision :=
  match call.kind with
  | .draft => draftRow call.config call.now
  | .active => activeRow call.config call.now

theorem StoreCall.row_kind (call : StoreCall) : call.row.kind = call.kind := by
  unfold row
  cases call.kind <;> rfl

theorem StoreCall.row_config (call : StoreCall) : call.row.config = call.config := by
  unfold row
  cases call.kind <;> rfl

theorem StoreCall.row_createdAt (call : StoreCall) : call.row.createdAt = call.now.createdAt := by
  unfold row
  cases call.kind <;> rfl

/-- A successful call appends its row. -/
theorem StoreCall.run_ok {call : StoreCall} {db db' : Database} {r : Revision}
    (h : call.run db = (.ok r, db')) : db'.revisions = db.revisions ++ [call.row] := by
  unfold run at h
  unfold row
  cases hkind : call.kind with
  | draft =>
    rw [hkind] at h
    rcases db.saveDraft_cases call.config call.now none with
      ⟨e, hrun⟩ | ⟨-, hnone, -⟩ | ⟨hid, log, hrun⟩
    · rw [hrun] at h
      cases h
    · cases hnone
    · rw [hrun] at h
      cases h
      rfl
  | active =>
    rw [hkind] at h
    rcases db.markActive_cases call.config call.now none with
      ⟨e, hrun⟩ | ⟨-, hnone, -⟩ | ⟨hid, log, hrun⟩
    · rw [hrun] at h
      cases h
    · cases hnone
    · rw [hrun] at h
      cases h
      rfl

/-- A history appends the rows of its calls. -/
theorem runCalls_revisions {calls : List StoreCall} : ∀ {db db' : Database},
    runCalls db calls = some db' → db'.revisions = db.revisions ++ calls.map StoreCall.row := by
  induction calls with
  | nil =>
    intro db db' h
    cases h
    simp
  | cons call calls ih =>
    intro db db' h
    rw [runCalls] at h
    rcases hrun : call.run db with ⟨result, mid⟩
    rw [hrun] at h
    cases result with
    | error e => cases h
    | ok r => rw [ih h, StoreCall.run_ok hrun, List.map_cons, List.append_assoc, List.singleton_append]

/-- The calls of one kind, in order. -/
def callsOf (kind : RevisionKind) (calls : List StoreCall) : List StoreCall :=
  calls.filter (·.kind = kind)

/-- Some call with this configuration read the clock later than all calls before it and not earlier
than any call after it. -/
def Leads (config : Config) (calls : List StoreCall) : Prop :=
  ∃ before call after, calls = before ++ call :: after ∧ call.config = config ∧
    (∀ x ∈ before, x.now.createdAt < call.now.createdAt) ∧
    ∀ x ∈ after, x.now.createdAt ≤ call.now.createdAt

/-- **The newest revision of a history.** -/
theorem latest_iff_leads {calls : List StoreCall} {db : Database}
    (h : runCalls empty calls = some db) (kind : RevisionKind) (config : Config) :
    (db.latestRevision kind).map (·.config) = some config ↔ Leads config (callsOf kind calls) := by
  have hrows : db.revisions.filter (·.kind = kind) = (callsOf kind calls).map StoreCall.row := by
    rw [runCalls_revisions h, empty, List.nil_append, List.filter_map, callsOf]
    congr 1
    exact List.filter_congr fun call _ => by simp [StoreCall.row_kind]
  rw [Option.map_eq_some_iff]
  simp only [latestRevision, hrows, argmax_eq_some_iff_split, DateTime.toRfc3339_lt_iff,
    DateTime.toRfc3339_le_iff]
  constructor
  · rintro ⟨r, ⟨before, after, hsplit, hbefore, hafter⟩, rfl⟩
    obtain ⟨bs, rest, hcalls, rfl, hrest⟩ := List.map_eq_append_iff.mp hsplit
    obtain ⟨call, as, rfl, rfl, rfl⟩ := List.map_eq_cons_iff.mp hrest
    refine ⟨bs, call, as, hcalls, call.row_config.symm, fun x hx => ?_, fun x hx => ?_⟩
    · have hlt := hbefore _ (List.mem_map_of_mem hx)
      rwa [x.row_createdAt, call.row_createdAt] at hlt
    · have hle := hafter _ (List.mem_map_of_mem hx)
      rwa [x.row_createdAt, call.row_createdAt] at hle
  · rintro ⟨before, call, after, hcalls, rfl, hbefore, hafter⟩
    refine ⟨call.row, ⟨before.map StoreCall.row, after.map StoreCall.row, ?_, ?_, ?_⟩,
      call.row_config⟩
    · rw [hcalls, List.map_append, List.map_cons]
    · intro r hr
      obtain ⟨x, hx, rfl⟩ := List.mem_map.mp hr
      rw [x.row_createdAt, call.row_createdAt]
      exact hbefore x hx
    · intro r hr
      obtain ⟨x, hx, rfl⟩ := List.mem_map.mp hr
      rw [x.row_createdAt, call.row_createdAt]
      exact hafter x hx

/-- **When the newest revision is the last one.**  After a history of successful calls on a fresh
database, `active_config` returns the configuration of the last `mark_active` call iff that configuration
leads the readings of the `mark_active` calls; and likewise for drafts. -/
theorem newest_is_last_iff {calls : List StoreCall} {db : Database}
    (h : runCalls empty calls = some db) :
    (∀ last, (callsOf .active calls).getLast? = some last →
      (db.activeConfig = some last.config ↔ Leads last.config (callsOf .active calls))) ∧
    ∀ last, (callsOf .draft calls).getLast? = some last →
      (db.draftConfig.map (·.config) = some last.config ↔
        Leads last.config (callsOf .draft calls)) :=
  ⟨fun last _ => latest_iff_leads h .active last.config,
    fun last _ => latest_iff_leads h .draft last.config⟩

/-- Noon of the first of January 2026, and so many seconds of the first minute. -/
def noonAnd (second : ℕ) : DateTime where
  year := 2026
  month := 1
  day := 1
  hour := 12
  minute := 0
  second := second % 60
  nanos := 0
  year_lt := by decide
  month_le := by decide
  day_le := by decide
  hour_lt := by decide
  minute_lt := by decide
  second_lt := Nat.mod_lt _ (by decide)
  nanos_lt := by decide

/-- One moment for the whole call. -/
def Readings.at (id : String) (t : DateTime) : Readings := ⟨id, t, t, t⟩

/-- `mark_active` of nothing and then of `webRule`, at two readings of the clock. -/
def twoCalls (first second : DateTime) : List StoreCall :=
  [⟨.active, .default, .at "first" first⟩, ⟨.active, ⟨1, [webRule]⟩, .at "second" second⟩]

theorem newest_is_last_of_running_clock :
    ∃ db, runCalls empty (twoCalls (noonAnd 3) (noonAnd 5)) = some db ∧
      db.activeConfig = some ⟨1, [webRule]⟩ := by
  refine ⟨_, rfl, ?_⟩
  have h := (@newest_is_last_iff (twoCalls (noonAnd 3) (noonAnd 5)) _ rfl).1
    ⟨.active, ⟨1, [webRule]⟩, .at "second" (noonAnd 5)⟩ rfl
  exact h.mpr ⟨[_], _, [], rfl, rfl, by decide, by decide⟩

/-- **A clock that is set back.**  The second call succeeds and the first one's configuration stays the
active one. -/
theorem active_config_of_clock_set_back :
    ∃ db, runCalls empty (twoCalls (noonAnd 5) (noonAnd 3)) = some db ∧
      (callsOf .active (twoCalls (noonAnd 5) (noonAnd 3))).getLast?.map
        (·.config) = some ⟨1, [webRule]⟩ ∧
      db.activeConfig = some .default := by
  exact ⟨_, rfl, rfl, by decide⟩

end Database

end Portalis
