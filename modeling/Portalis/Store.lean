import Portalis.Rfc3339
import Portalis.ConfigJson
import Portalis.Bookkeeping

/-!
# What the file holds

SQLite keeps texts: the configuration as JSON, the instants as `to_rfc3339` wrote them.  The writers put the
texts into their rows, and every read decodes the rows it selects, or fails with the column it cannot read.
The revisions of `Database` are what the texts stand for.

* `Stores.run`: a write of the texts is a write of what they stand for, whichever statement fails.
* `reads_of_writes`: whatever was written, every read succeeds and returns what was put in.
-/

namespace Portalis

open Text Json

/-! ### Rows -/

/-- A row of `revisions`.  The check on `kind` admits two texts. -/
structure RevisionRow where
  id : String
  kind : RevisionKind
  schemaVersion : UInt32
  configJson : String
  createdAt : String
  appliedAt : Option String
  applyError : Option String
  deriving DecidableEq

/-- A row of `audit_log`. -/
structure AuditRow where
  id : ℕ
  action : String
  revisionId : Option String
  details : String
  createdAt : String
  deriving DecidableEq

/-- The tables in rowid order, and the last key that `AUTOINCREMENT` gave. -/
structure Store where
  revisions : List RevisionRow
  auditLog : List AuditRow
  sequence : ℕ

/-- `FromSqlConversionFailure`. -/
structure ConversionFailure where
  column : ℕ
  deriving DecidableEq

def parseTime (value : String) : Except ConversionFailure DateTime :=
  match DateTime.ofRfc3339 value with
  | some t => .ok t
  | none => .error ⟨0⟩

theorem parseTime_toRfc3339 (t : DateTime) : parseTime t.toRfc3339 = .ok t := by
  rw [parseTime, DateTime.ofRfc3339_toRfc3339]

/-- `params![..]` of an audit entry. -/
def AuditEntry.row (id : ℕ) (entry : AuditEntry) : AuditRow :=
  ⟨id, entry.action, entry.revisionId, entry.details, entry.createdAt.toRfc3339⟩

def AuditRow.decode (row : AuditRow) : Except ConversionFailure (ℕ × AuditEntry) := do
  let createdAt ← parseTime row.createdAt
  pure (row.id, ⟨row.action, row.revisionId, row.details, createdAt⟩)

theorem AuditRow.decode_row (id : ℕ) (entry : AuditEntry) :
    (entry.row id).decode = .ok (id, entry) := by
  show (parseTime entry.createdAt.toRfc3339 >>= fun createdAt => _) = _
  rw [parseTime_toRfc3339]
  rfl

variable (ip : TextCodec IpAddr) (net : TextCodec IpNet)

/-- The texts of a revision. -/
def Revision.row (r : Revision) : RevisionRow where
  id := r.id
  kind := r.kind
  schemaVersion := schemaVersion
  configJson := r.config.toText ip net
  createdAt := r.createdAt.toRfc3339
  appliedAt := r.appliedAt.map DateTime.toRfc3339
  applyError := r.applyError

def parseConfig (text : String) : Except ConversionFailure Config :=
  match Config.ofText ip net text with
  | some config => .ok config
  | none => .error ⟨2⟩

/-- The closure of each `SELECT` on `revisions`. -/
def RevisionRow.decode (row : RevisionRow) : Except ConversionFailure Revision := do
  let config ← parseConfig ip net row.configJson
  let createdAt ← parseTime row.createdAt
  let appliedAt ← row.appliedAt.mapM parseTime
  pure ⟨row.id, row.kind, config, createdAt, appliedAt, row.applyError⟩

/-- **A revision is read back from its row.** -/
theorem RevisionRow.decode_row (r : Revision) : (r.row ip net).decode ip net = .ok r := by
  have hconfig : parseConfig ip net (r.config.toText ip net) = .ok r.config := by
    have htext : Config.ofText ip net (r.config.toText ip net) = some r.config := by
      rw [Config.ofText, Config.toText, String.toList_ofList, Json.parse_render]
      exact r.config.ofJson_toJson ip net
    rw [parseConfig, htext]
  have happlied : (r.appliedAt.map DateTime.toRfc3339).mapM parseTime = .ok r.appliedAt := by
    cases r.appliedAt with
    | none => rfl
    | some t =>
      show (parseTime t.toRfc3339 >>= fun t => pure (some t)) = _
      rw [parseTime_toRfc3339]
      rfl
  simp only [RevisionRow.decode, Revision.row, hconfig, happlied, parseTime_toRfc3339]
  rfl

namespace Store

def empty : Store := ⟨[], [], 0⟩

/-! ### Reading -/

/-- Texts are ordered by their octets. -/
def binary (text : String) : List ℕ := (utf8 text).map UInt8.toNat

/-- `LIMIT ?1`, where a limit that is negative as an `i64` is none. -/
def page {α : Type} (limit : UInt64) (rows : List α) : List α :=
  if limit.toNat < 2 ^ 63 then rows.take limit.toNat else rows

theorem map_page {α β : Type} (f : α → β) (limit : UInt64) (rows : List α) :
    (page limit rows).map f = page limit (rows.map f) := by
  unfold page
  split
  · exact List.map_take
  · rfl

def latestRevision (self : Store) (kind : RevisionKind) :
    Except ConversionFailure (Option Revision) :=
  ((self.revisions.filter (·.kind = kind)).argmax fun row => binary row.createdAt).mapM
    (·.decode ip net)

def listRevisions (self : Store) (limit : UInt64) : Except ConversionFailure (List Revision) :=
  (page limit (Ranking.descending (fun row => binary row.createdAt) self.revisions)).mapM
    (·.decode ip net)

def revision (self : Store) (id : String) : Except ConversionFailure (Option Revision) :=
  (self.revisions.find? (·.id = id)).mapM (·.decode ip net)

def auditEntries (self : Store) (limit : UInt64) :
    Except ConversionFailure (List (ℕ × AuditEntry)) :=
  (page limit (Ranking.descending (·.id) self.auditLog)).mapM AuditRow.decode

/-! ### Writing -/

open Database

def insertRevision (self : Store) (row : RevisionRow) (failing : Option DbStep) :
    Except DbError Store :=
  if failing = some .insert then .error (.failed .insert)
  else if row.id ∈ self.revisions.map (·.id) then .error .constraint
  else .ok { self with revisions := self.revisions ++ [row] }

def audit (self : Store) (action : String) (revisionId : Option String) (details : String)
    (now : DateTime) (failing : Option DbStep) : Except DbError Store :=
  if failing = some .audit then .error (.failed .audit)
  else
    let row : AuditRow := ⟨self.sequence + 1, action, revisionId, details, now.toRfc3339⟩
    .ok { self with auditLog := self.auditLog ++ [row], sequence := self.sequence + 1 }

/-- The audit entry that follows a stored row, and the identifier that is answered. -/
def auditStored (stored : Store) (id action details : String) (now : Readings)
    (failing : Option DbStep) : Except DbError String × Store :=
  match stored.audit action (some id) details now.auditedAt failing with
  | .error e => (.error e, stored)
  | .ok audited => (.ok id, audited)

/-- `save_draft`, which answers the identifier of the revision. -/
def saveDraft (self : Store) (config : Config) (now : Readings) (failing : Option DbStep) :
    Except DbError String × Store :=
  let row : RevisionRow := ⟨now.id, .draft, schemaVersion, config.toText ip net,
    now.createdAt.toRfc3339, none, none⟩
  match self.insertRevision row failing with
  | .error e => (.error e, self)
  | .ok stored => stored.auditStored now.id "save_draft" "draft saved" now failing

def markActive (self : Store) (config : Config) (now : Readings) (failing : Option DbStep) :
    Except DbError String × Store :=
  if failing = some .begin then (.error (.failed .begin), self)
  else
    let row : RevisionRow := ⟨now.id, .active, schemaVersion, config.toText ip net,
      now.createdAt.toRfc3339, some now.appliedAt.toRfc3339, none⟩
    match self.insertRevision row failing with
    | .error e => (.error e, self)
    | .ok transaction =>
      if failing = some .commit then (.error (.failed .commit), self)
      else transaction.auditStored now.id "apply" "revision became active" now failing

/-- `UPDATE revisions SET apply_error`. -/
def updateError (self : Store) (revisionId error : String) : Store :=
  { self with
    revisions := self.revisions.map fun row : RevisionRow =>
      if row.id = revisionId then { row with applyError := some error } else row }

def markApplyError (self : Store) (revisionId error : String) (now : Readings)
    (failing : Option DbStep) : Except DbError String × Store :=
  if failing = some .update then (.error (.failed .update), self)
  else
    let updated := self.updateError revisionId error
    updated.auditStored revisionId "apply_failed" error now failing

/-- A write of the texts, under the same calls. -/
def run (write : Bookkeeping) (self : Store) (now : Readings) (failing : Option DbStep) :
    Except DbError String × Store :=
  match write with
  | .saveDraft config => self.saveDraft ip net config now failing
  | .markActive config => self.markActive ip net config now failing
  | .markApplyError revisionId error => self.markApplyError revisionId error now failing

end Store

/-! ### What the texts stand for -/

open Database

/-- The texts are those of a database, and the keys of the audit log count from one. -/
structure Stores (s : Store) (db : Database) : Prop where
  revisions : s.revisions = db.revisions.map (Revision.row ip net)
  auditLog : s.auditLog = db.auditLog.mapIdx fun i entry => entry.row (i + 1)
  sequence : s.sequence = db.auditLog.length

variable {ip net} {s : Store} {db : Database}

/-- Both fail alike, or both go on. -/
def Alike (stored : Except DbError Store) (meant : Except DbError Database) : Prop :=
  (∃ e, stored = .error e ∧ meant = .error e) ∨
    ∃ s db, stored = .ok s ∧ meant = .ok db ∧ Stores ip net s db

theorem Stores.insertRevision (h : Stores ip net s db) (r : Revision) (failing : Option DbStep) :
    @Alike ip net (s.insertRevision (r.row ip net) failing) (db.insertRevision r failing) := by
  have hids : (r.row ip net).id ∈ s.revisions.map (·.id) ↔ r.id ∈ db.revisions.map (·.id) := by
    rw [h.revisions, List.map_map]
    rfl
  unfold Store.insertRevision Database.insertRevision
  by_cases hinsert : failing = some .insert
  · rw [if_pos hinsert, if_pos hinsert]
    exact .inl ⟨_, rfl, rfl⟩
  · rw [if_neg hinsert, if_neg hinsert]
    by_cases hid : r.id ∈ db.revisions.map (·.id)
    · rw [dif_pos hid, if_pos (hids.mpr hid)]
      exact .inl ⟨_, rfl, rfl⟩
    · rw [dif_neg hid, if_neg (mt hids.mp hid)]
      refine .inr ⟨_, _, rfl, rfl, ?_, h.auditLog, h.sequence⟩
      show s.revisions ++ [r.row ip net] = (db.revisions ++ [r]).map (Revision.row ip net)
      rw [List.map_append, h.revisions]
      rfl

theorem Stores.audit (h : Stores ip net s db) (action : String) (revisionId : Option String)
    (details : String) (now : DateTime) (failing : Option DbStep) :
    @Alike ip net (s.audit action revisionId details now failing)
      (db.audit action revisionId details now failing) := by
  unfold Store.audit Database.audit
  by_cases haudit : failing = some .audit
  · rw [if_pos haudit, if_pos haudit]
    exact .inl ⟨_, rfl, rfl⟩
  · rw [if_neg haudit, if_neg haudit]
    refine .inr ⟨_, _, rfl, rfl, h.revisions, ?_, ?_⟩
    · show s.auditLog ++ [_] = List.mapIdx _ (db.auditLog ++ [_])
      rw [List.mapIdx_concat, h.auditLog, h.sequence]
      rfl
    · show s.sequence + 1 = (db.auditLog ++ [_]).length
      rw [List.length_append, h.sequence]
      rfl

theorem Stores.updateError (h : Stores ip net s db) (revisionId error : String) :
    Stores ip net (s.updateError revisionId error) (db.updateError revisionId error) where
  auditLog := h.auditLog
  sequence := h.sequence
  revisions := by
    show s.revisions.map _ = (db.revisions.map (setApplyError revisionId error)).map _
    rw [h.revisions, List.map_map, List.map_map]
    refine List.map_congr_left fun r _ => ?_
    show (if r.id = revisionId then { r.row ip net with applyError := some error } else r.row ip net) =
      (setApplyError revisionId error r).row ip net
    unfold setApplyError
    split
    · rfl
    · rfl

/-- The same answer, and texts of the same database. -/
def SameWrite (stored : Except DbError String × Store) (meant : Except DbError String × Database) :
    Prop :=
  stored.1 = meant.1 ∧ Stores ip net stored.2 meant.2

theorem Stores.auditStored (h : Stores ip net s db) (r : Revision) (action details : String)
    (now : Readings) (failing : Option DbStep) :
    @SameWrite ip net (s.auditStored r.id action details now failing)
      ((db.auditStored r action details now failing).1.map (·.id),
        (db.auditStored r action details now failing).2) := by
  unfold Store.auditStored Database.auditStored
  rcases h.audit action (some r.id) details now.auditedAt failing with
    ⟨e, hs, hdb⟩ | ⟨s', db', hs, hdb, h'⟩
  · rw [hs, hdb]
    exact ⟨rfl, h⟩
  · rw [hs, hdb]
    exact ⟨rfl, h'⟩

theorem Stores.saveDraft (h : Stores ip net s db) (config : Config) (now : Readings)
    (failing : Option DbStep) :
    @SameWrite ip net (s.saveDraft ip net config now failing)
      ((Bookkeeping.saveDraft config).run db now failing) := by
  show SameWrite _ ((db.saveDraft config now failing).1.map (·.id), (db.saveDraft config now failing).2)
  unfold Store.saveDraft Database.saveDraft
  rcases h.insertRevision (draftRow config now) failing with ⟨e, hs, hdb⟩ | ⟨s', db', hs, hdb, h'⟩
  · rw [hdb]
    show SameWrite (match s.insertRevision ((draftRow config now).row ip net) failing with
      | .error e => (.error e, s)
      | .ok stored => stored.auditStored now.id "save_draft" "draft saved" now failing) _
    rw [hs]
    exact ⟨rfl, h⟩
  · rw [hdb]
    show SameWrite (match s.insertRevision ((draftRow config now).row ip net) failing with
      | .error e => (.error e, s)
      | .ok stored => stored.auditStored now.id "save_draft" "draft saved" now failing) _
    rw [hs]
    exact h'.auditStored (draftRow config now) "save_draft" "draft saved" now failing

theorem Stores.markActive (h : Stores ip net s db) (config : Config) (now : Readings)
    (failing : Option DbStep) :
    @SameWrite ip net (s.markActive ip net config now failing)
      ((Bookkeeping.markActive config).run db now failing) := by
  show SameWrite _
    ((db.markActive config now failing).1.map (·.id), (db.markActive config now failing).2)
  unfold Store.markActive Database.markActive
  by_cases hbegin : failing = some .begin
  · rw [if_pos hbegin, if_pos hbegin]
    exact ⟨rfl, h⟩
  rw [if_neg hbegin, if_neg hbegin]
  show SameWrite (match s.insertRevision ((activeRow config now).row ip net) failing with
    | .error e => (.error e, s)
    | .ok transaction =>
      if failing = some .commit then (.error (.failed .commit), s)
      else transaction.auditStored now.id "apply" "revision became active" now failing) _
  rcases h.insertRevision (activeRow config now) failing with ⟨e, hs, hdb⟩ | ⟨s', db', hs, hdb, h'⟩
  · rw [hs, hdb]
    exact ⟨rfl, h⟩
  · rw [hs, hdb]
    by_cases hcommit : failing = some .commit
    · simp only [if_pos hcommit]
      exact ⟨rfl, h⟩
    · simp only [if_neg hcommit]
      exact h'.auditStored (activeRow config now) "apply" "revision became active" now failing

theorem Stores.markApplyError (h : Stores ip net s db) (revisionId error : String) (now : Readings)
    (failing : Option DbStep) :
    @SameWrite ip net (s.markApplyError revisionId error now failing)
      ((Bookkeeping.markApplyError revisionId error).run db now failing) := by
  show SameWrite _ ((db.markApplyError revisionId error now failing).1.map (fun _ => revisionId),
    (db.markApplyError revisionId error now failing).2)
  unfold Store.markApplyError Database.markApplyError
  by_cases hupdate : failing = some .update
  · rw [if_pos hupdate, if_pos hupdate]
    exact ⟨rfl, h⟩
  · rw [if_neg hupdate, if_neg hupdate]
    have h' := h.updateError revisionId error
    dsimp only
    unfold Store.auditStored
    rcases h'.audit "apply_failed" (some revisionId) error now.auditedAt failing with
      ⟨e, hs, hdb⟩ | ⟨s', db', hs, hdb, h''⟩
    · rw [hs, hdb]
      exact ⟨rfl, h'⟩
    · rw [hs, hdb]
      exact ⟨rfl, h''⟩

/-- **A write of the texts is a write of what they stand for.** -/
theorem Stores.run (h : Stores ip net s db) (write : Bookkeeping) (now : Readings)
    (failing : Option DbStep) :
    @SameWrite ip net (Store.run ip net write s now failing) (write.run db now failing) := by
  cases write with
  | saveDraft config => exact h.saveDraft config now failing
  | markActive config => exact h.markActive config now failing
  | markApplyError revisionId error => exact h.markApplyError revisionId error now failing

/-! ### What is read -/

theorem map_toNat_lt_iff {as bs : List UInt8} :
    as.map UInt8.toNat < bs.map UInt8.toNat ↔ as < bs := by
  induction as generalizing bs with
  | nil =>
    cases bs with
    | nil => simp
    | cons b bs => simp
  | cons a as ih =>
    cases bs with
    | nil => simp
    | cons b bs =>
      rw [List.map_cons, List.map_cons, List.cons_lt_cons_iff, List.cons_lt_cons_iff, ih,
        UInt8.toNat_inj, UInt8.lt_iff_toNat_lt]

theorem binary_lt_iff (a b : DateTime) :
    Store.binary a.toRfc3339 < Store.binary b.toRfc3339 ↔ a.toRfc3339 < b.toRfc3339 := by
  rw [Store.binary, Store.binary, map_toNat_lt_iff,
    utf8_lt_utf8_iff a.toRfc3339_ascii b.toRfc3339_ascii]

theorem Stores.latestRevision (h : Stores ip net s db) (kind : RevisionKind) :
    s.latestRevision ip net kind = .ok (db.latestRevision kind) := by
  have hfilter : s.revisions.filter (·.kind = kind) =
      (db.revisions.filter (·.kind = kind)).map (Revision.row ip net) := by
    rw [h.revisions, List.filter_map]
    rfl
  have hmax : (((db.revisions.filter (·.kind = kind)).map (Revision.row ip net)).argmax
      fun row => Store.binary row.createdAt) =
      ((db.revisions.filter (·.kind = kind)).argmax fun r => r.createdAt.toRfc3339).map
        (Revision.row ip net) := by
    convert @Ranking.argmax_map _ _ _ (fun r : Revision => r.createdAt.toRfc3339) _ _ _
      (fun row : RevisionRow => Store.binary row.createdAt) (Revision.row ip net)
      (fun a b => binary_lt_iff a.createdAt b.createdAt) (db.revisions.filter (·.kind = kind))
  rw [Store.latestRevision, hfilter, hmax, Database.latestRevision]
  cases (db.revisions.filter (·.kind = kind)).argmax fun r => r.createdAt.toRfc3339 with
  | none => rfl
  | some r =>
    show ((r.row ip net).decode ip net >>= fun r => pure (some r)) = _
    rw [RevisionRow.decode_row]
    rfl

theorem decode_rows (rs : List Revision) :
    (rs.map (Revision.row ip net)).mapM (·.decode ip net) = .ok rs := by
  rw [List.mapM_map]
  have hall : ∀ r ∈ rs, (r.row ip net).decode ip net = .ok (id r) := fun r _ =>
    RevisionRow.decode_row ip net r
  have hmap := Fallible.mapM_eq_ok _ hall
  rw [List.map_id] at hmap
  exact hmap

theorem Stores.listRevisions (h : Stores ip net s db) (limit : UInt64) :
    s.listRevisions ip net limit = .ok (db.listRevisions limit) := by
  have hle : ∀ a b : Revision, Store.binary (b.row ip net).createdAt ≤ Store.binary (a.row ip net).createdAt ↔
      b.createdAt.toRfc3339 ≤ a.createdAt.toRfc3339 := by
    intro a b
    rw [← not_lt, ← not_lt]
    exact not_congr (binary_lt_iff a.createdAt b.createdAt)
  have hrank := @Ranking.descending_map _ _ _ (fun r : Revision => r.createdAt.toRfc3339) _ _ _
    (fun row : RevisionRow => Store.binary row.createdAt) (Revision.row ip net) hle db.revisions
  rw [Store.listRevisions, h.revisions, hrank, ← Store.map_page, decode_rows]
  rfl

theorem Stores.revision (h : Stores ip net s db) (id : String) :
    s.revision ip net id = .ok (db.revision id) := by
  rw [Store.revision, Database.revision, h.revisions, List.find?_map]
  show ((db.revisions.find? fun r => r.id = id).map (Revision.row ip net)).mapM _ = _
  cases db.revisions.find? fun r => r.id = id with
  | none => rfl
  | some r =>
    show ((r.row ip net).decode ip net >>= fun r => pure (some r)) = _
    rw [RevisionRow.decode_row]
    rfl

/-- The audit log, numbered from one. -/
def numbered (log : List AuditEntry) : List (ℕ × AuditEntry) := log.mapIdx fun i entry => (i + 1, entry)

theorem Stores.auditEntries (h : Stores ip net s db) (limit : UInt64) :
    s.auditEntries limit = .ok (Store.page limit (numbered db.auditLog).reverse) := by
  have hrows : s.auditLog = (numbered db.auditLog).map fun e => e.2.row e.1 := by
    rw [h.auditLog, numbered]
    refine List.ext_getElem (by simp) fun i hi hj => ?_
    simp only [List.getElem_mapIdx, List.getElem_map]
  have hgrows : s.auditLog.Pairwise fun a b => a.id < b.id := by
    rw [h.auditLog, List.pairwise_iff_getElem]
    intro i j hi hj hij
    simp only [List.getElem_mapIdx]
    show i + 1 < j + 1
    omega
  have hdecode : ∀ entries : List (ℕ × AuditEntry),
      (entries.map fun e => e.2.row e.1).mapM AuditRow.decode = .ok entries := by
    intro entries
    rw [List.mapM_map]
    have hall : ∀ e ∈ entries, (e.2.row e.1).decode = .ok (id e) := fun e _ =>
      AuditRow.decode_row e.1 e.2
    have hmap := Fallible.mapM_eq_ok _ hall
    rw [List.map_id] at hmap
    exact hmap
  rw [Store.auditEntries, Ranking.descending_eq_reverse hgrows, hrows, ← List.map_reverse,
    ← Store.map_page, hdecode]

/-! ### Runs -/

/-- A call of a writer: what it reads from outside, and the statement that fails. -/
structure WriteCall where
  write : Bookkeeping
  now : Readings
  failing : Option DbStep

/-- The answers of the calls, and what is there afterwards. -/
def answers {S : Type} (step : S → WriteCall → Except DbError String × S) (s : S) :
    List WriteCall → List (Except DbError String) × S
  | [] => ([], s)
  | call :: calls =>
    let (answer, after) := step s call
    let (more, last) := answers step after calls
    (answer :: more, last)

/-- Steps that keep a relation and answer alike answer alike all along. -/
theorem answers_related {S T : Type} {step : S → WriteCall → Except DbError String × S}
    {step' : T → WriteCall → Except DbError String × T} {R : S → T → Prop}
    (h : ∀ s t call, R s t → (step s call).1 = (step' t call).1 ∧ R (step s call).2 (step' t call).2)
    {s : S} {t : T} (hst : R s t) (calls : List WriteCall) :
    (answers step s calls).1 = (answers step' t calls).1 ∧
      R (answers step s calls).2 (answers step' t calls).2 := by
  induction calls generalizing s t with
  | nil => exact ⟨rfl, hst⟩
  | cons call calls ih =>
    obtain ⟨hanswer, hafter⟩ := h s t call hst
    obtain ⟨hmore, hlast⟩ := ih hafter
    exact ⟨congrArg₂ List.cons hanswer hmore, hlast⟩

variable (ip net) in
def storeCalls (calls : List WriteCall) : List (Except DbError String) × Store :=
  answers (fun s call => Store.run ip net call.write s call.now call.failing) .empty calls

def databaseCalls (calls : List WriteCall) : List (Except DbError String) × Database :=
  answers (fun db call => call.write.run db call.now call.failing) .empty calls

theorem stores_of_calls (calls : List WriteCall) :
    (storeCalls ip net calls).1 = (databaseCalls calls).1 ∧
      Stores ip net (storeCalls ip net calls).2 (databaseCalls calls).2 :=
  answers_related (fun _ _ call h => h.run call.write call.now call.failing) ⟨rfl, rfl, rfl⟩ calls

/-- **What is written is read.**  After any writes, whichever of their statements failed, the file answers as
the revisions themselves would: the newest of a kind, the page of the newest, a revision by its identifier and
the page of the audit log, the last entry first. -/
theorem reads_of_writes (calls : List WriteCall) :
    (storeCalls ip net calls).1 = (databaseCalls calls).1 ∧
    (∀ kind, (storeCalls ip net calls).2.latestRevision ip net kind =
      .ok ((databaseCalls calls).2.latestRevision kind)) ∧
    (∀ limit, (storeCalls ip net calls).2.listRevisions ip net limit =
      .ok ((databaseCalls calls).2.listRevisions limit)) ∧
    (∀ id, (storeCalls ip net calls).2.revision ip net id =
      .ok ((databaseCalls calls).2.revision id)) ∧
    ∀ limit, (storeCalls ip net calls).2.auditEntries limit =
      .ok (Store.page limit (numbered (databaseCalls calls).2.auditLog).reverse) := by
  obtain ⟨hanswers, hstores⟩ := @stores_of_calls ip net calls
  exact ⟨hanswers, hstores.latestRevision, hstores.listRevisions, hstores.revision,
    hstores.auditEntries⟩

end Portalis
