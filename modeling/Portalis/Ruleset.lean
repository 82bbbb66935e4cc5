import Portalis.Receipt
import Portalis.Drift
import Portalis.Programs

/-!
# The tables of the kernel, and several processes

The daemon and every command of the command line have a controller of their own, and its lock holds only
within the process.  `apply` makes two visits to the kernel: it lists the tables, and it sends a batch that
removes the table when the list had it.  The kernel commits a batch whole or not at all, but between the two
visits other processes may have committed theirs.

* `hadTable_eq`: the list tells whether the table `inet portalis` is there, whatever other tables are.
* `commit_batch`: what a batch does to whatever table it finds.
* `whole_table_of_reaches`: once the table is there, it is always that of the batch committed last.
* `undrifted_iff_of_reaches`: without a table at first, rules of several batches can come together, and the
  status tells.
-/

namespace Portalis

open Text RuleMachine Fallible Programs Tally

/-! ### Tables -/

/-- The families a table can have. -/
inductive TableFamily
  | ip
  | ip6
  | inet
  | arp
  | bridge
  | netdev
  deriving DecidableEq

/-- What tells tables apart: the family, and the octets of the name. -/
structure TableId where
  family : TableFamily
  name : List UInt8
  deriving DecidableEq

/-- `TABLE_NAME`. -/
def tableName : String := "portalis"

def portalisId : TableId := ⟨.inet, utf8 tableName⟩

/-- The tables of the kernel: the one of Portalis, and those of others. -/
structure Ruleset (X : Type) where
  own : Option Table
  foreign : List (TableId × X)
  foreign_ne : ∀ entry ∈ foreign, entry.1 ≠ portalisId

namespace Ruleset

variable {X : Type}

def ids (r : Ruleset X) : List TableId :=
  (if r.own.isSome then [portalisId] else []) ++ r.foreign.map (·.1)

/-- `list_tables`: the names of the tables of the family `inet`. -/
def listTables (r : Ruleset X) : List String :=
  (r.ids.filter (·.family = .inet)).map fun id => fromUtf8Lossy id.name

def hadTable (r : Ruleset X) : Bool := tableName ∈ r.listTables

/-- **The list does not mistake another table for ours**: neither one of another family nor one whose name is
not UTF-8. -/
theorem hadTable_eq (r : Ruleset X) : r.hadTable = r.own.isSome := by
  have hforeign : ∀ entry ∈ r.foreign, entry.1.family = .inet →
      fromUtf8Lossy entry.1.name ≠ tableName := by
    intro entry hmem hinet hname
    refine r.foreign_ne entry hmem ?_
    have hoctets : utf8 tableName = entry.1.name := by
      rw [← hname]
      exact utf8_fromUtf8Lossy (by rw [hname]; decide)
    rw [portalisId, hoctets, ← hinet]
  have hown : fromUtf8Lossy portalisId.name = tableName := fromUtf8Lossy_utf8 tableName
  rw [Bool.eq_iff_iff, hadTable, decide_eq_true_eq, listTables, List.mem_map]
  constructor
  · intro h
    obtain ⟨id, hid, hname⟩ := h
    obtain ⟨hmem, hinet⟩ := List.mem_filter.mp hid
    rcases List.mem_append.mp hmem with hself | hother
    · split at hself
      next hsome => exact hsome
      next => cases hself
    · obtain ⟨entry, hentry, hsame⟩ := List.mem_map.mp hother
      rw [← hsame] at hinet hname
      exact absurd hname (hforeign entry hentry (by simpa using hinet))
  · intro h
    refine ⟨portalisId, List.mem_filter.mpr ⟨?_, rfl⟩, hown⟩
    rw [ids, if_pos h]
    exact List.mem_append_left _ List.mem_cons_self

end Ruleset

/-! ### Batches -/

/-- Why the kernel refuses a message. -/
inductive Errno
  | noEntry
  | exists
  deriving DecidableEq

/-- One message of a transaction.  A chain that is there already stays when it is the same one. -/
def Message.exec (own : Option Table) : Message → Except Errno (Option Table)
  | delTable =>
    match own with
    | none => .error .noEntry
    | some _ => .ok none
  | addTable => .ok (some (own.getD ⟨[], []⟩))
  | addChain chain =>
    match own with
    | none => .error .noEntry
    | some t =>
      match t.chains.find? (·.name = chain.name) with
      | none => .ok (some { t with chains := t.chains ++ [chain] })
      | some old => if old = chain then .ok (some t) else .error .exists
  | addRule rule =>
    match own with
    | none => .error .noEntry
    | some t =>
      if t.chains.any (·.name = rule.chain) then .ok (some { t with rules := t.rules ++ [rule] })
      else .error .noEntry

namespace Ruleset

variable {X : Type}

/-- A batch is committed when none of its messages is refused. -/
def commit (r : Ruleset X) (batch : List Message) : Except Errno (Ruleset X) :=
  (batch.foldlM Message.exec r.own).map fun own => { r with own := own }

/-- The chains of `apply`. -/
def chains : List Chain := [prerouting, postrouting, forward]

theorem exec_addRules {t : Table} {rules : List KernelRule} (hchains : t.chains = chains)
    (hrules : ∀ rule ∈ rules, rule.chain ∈ chains.map (·.name)) :
    (rules.map Message.addRule).foldlM Message.exec (some t) =
      .ok (some { t with rules := t.rules ++ rules }) := by
  induction rules generalizing t with
  | nil => simp [pure, Except.pure]
  | cons rule rules ih =>
    have hthere : t.chains.any (·.name = rule.chain) = true := by
      have hmem := hrules rule List.mem_cons_self
      rw [← hchains] at hmem
      simpa [List.mem_map] using hmem
    have hstep : Message.exec (some t) (.addRule rule) =
        .ok (some { t with rules := t.rules ++ [rule] }) := if_pos hthere
    rw [List.map_cons, List.foldlM_cons, hstep]
    have hrest := @ih { t with rules := t.rules ++ [rule] } hchains
      fun rule' hmem => hrules rule' (List.mem_cons_of_mem rule hmem)
    rw [List.append_assoc] at hrest
    exact hrest

/-- The chains of a table, where there is one, are those of `apply`. -/
def Managed (own : Option Table) : Prop := ∀ t ∈ own, t.chains = chains

/-- The messages before the rules. -/
def header : List Message :=
  [.addTable, .addChain prerouting, .addChain postrouting, .addChain forward]

theorem exec_header {own : Option Table} (h : Managed own) :
    header.foldlM Message.exec own = .ok (some ⟨chains, (own.map (·.rules)).getD []⟩) := by
  cases own with
  | none => rfl
  | some t =>
    obtain ⟨found, rules⟩ := t
    have hfound : found = chains := h ⟨found, rules⟩ rfl
    rw [hfound]
    rfl

theorem chain_of_buildRules {plans : List RulePlan} {rules : List KernelRule}
    (h : buildRules plans = .ok rules) : ∀ rule ∈ rules, rule.chain ∈ chains.map (·.name) := by
  simp only [buildRules, bind_eq_ok] at h
  obtain ⟨pre, hpre, post, hpost, fwd, hfwd, hrules⟩ := h
  cases hrules
  intro rule hmem
  rcases List.mem_append.mp hmem with hin | hrest
  · obtain ⟨some, hsome, hrule⟩ := List.mem_flatten.mp hin
    obtain ⟨plan, -, hplan⟩ := exists_of_mem_result _ hpre hsome
    rw [chain_of_addPreroutingRules hplan rule hrule]
    exact List.mem_cons_self
  · rcases List.mem_append.mp hrest with hin | hin
    · obtain ⟨plan, -, hplan⟩ := exists_of_mem_result _ hpost hin
      rw [addPostroutingRule_chain hplan]
      exact List.mem_cons_of_mem _ List.mem_cons_self
    · obtain ⟨some, hsome, hrule⟩ := List.mem_flatten.mp hin
      obtain ⟨plan, -, hplan⟩ := exists_of_mem_result _ hfwd hsome
      rw [chain_of_addForwardCounterRules hplan rule hrule]
      exact List.mem_cons_of_mem _ (List.mem_cons_of_mem _ List.mem_cons_self)

/-- The rules of a configuration, where they can be built. -/
def builtRules (config : Config) : List KernelRule :=
  match buildRules config.plan with
  | .ok rules => rules
  | .error _ => []

theorem buildBatch_eq_ok {had : Bool} {config : Config} {batch : List Message}
    (h : buildBatch had config = .ok batch) :
    buildRules config.plan = .ok (builtRules config) ∧
      batch = (if had then [.delTable] else []) ++ (header ++ (builtRules config).map .addRule) := by
  simp only [buildBatch, bind_eq_ok] at h
  obtain ⟨rules, hrules, hbatch⟩ := h
  cases hbatch
  have hsame : builtRules config = rules := by
    unfold builtRules
    rw [hrules]
  rw [hsame]
  exact ⟨hrules, rfl⟩

theorem compile_eq_ok {config : Config} (h : buildRules config.plan = .ok (builtRules config)) :
    compile config = .ok ⟨chains, builtRules config⟩ := by
  rw [compile, h]
  rfl

/-- The table after a batch: a batch that removes the table leaves none of its rules. -/
def written (had : Bool) (own : Option Table) (config : Config) : Table :=
  ⟨chains, (if had then [] else (own.map (·.rules)).getD []) ++ builtRules config⟩

/-- **What a batch does to the table it finds.**  One that is to remove the table needs it; one that is not
appends its rules to those that are there. -/
theorem commit_batch {r : Ruleset X} {had : Bool} {config : Config} {batch : List Message}
    (hbatch : buildBatch had config = .ok batch) (hfound : had = true → r.own.isSome = true)
    (hmanaged : had = false → Managed r.own) :
    r.commit batch = .ok { r with own := some (written had r.own config) } := by
  obtain ⟨hrules, hmessages⟩ := buildBatch_eq_ok hbatch
  have hchains := chain_of_buildRules hrules
  have hbody : ∀ own : Option Table, Managed own →
      (header ++ (builtRules config).map Message.addRule).foldlM Message.exec own =
        .ok (some ⟨chains, (own.map Table.rules).getD [] ++ builtRules config⟩) := by
    intro own hown
    rw [List.foldlM_append, exec_header hown]
    exact @exec_addRules ⟨chains, _⟩ _ rfl hchains
  rw [commit, hmessages]
  cases had with
  | false =>
    rw [if_neg (by decide), List.nil_append, hbody r.own (hmanaged rfl)]
    rfl
  | true =>
    obtain ⟨t, ht⟩ := Option.isSome_iff_exists.mp (hfound rfl)
    have hdel : [Message.delTable].foldlM Message.exec r.own = .ok none := by
      rw [ht]
      rfl
    rw [if_pos rfl, List.foldlM_append, hdel]
    show Except.map _ ((header ++ (builtRules config).map Message.addRule).foldlM Message.exec none) = _
    rw [hbody none fun t h => nomatch h]
    rfl

/-- **The two visits at once** are the `apply` of one process alone. -/
theorem commit_alone (r : Ruleset X) {config : Config} {batch : List Message}
    (hbatch : buildBatch r.hadTable config = .ok batch) :
    ∃ t, nftApply r.own config = .ok (some t, ⟨ruleCount config.plan, r.own.isSome⟩) ∧
      r.commit batch = .ok { r with own := some t } := by
  have hcompile := compile_eq_ok (buildBatch_eq_ok hbatch).1
  refine ⟨⟨chains, builtRules config⟩, ?_, ?_⟩
  · rw [nftApply_eq, hcompile]
    rfl
  · rw [r.hadTable_eq] at hbatch
    have hnone : r.own.isSome = false → r.own = none := by simp
    have hcommit := commit_batch hbatch (fun h => h) fun h t ht => by
      rw [hnone h] at ht
      cases ht
    rw [hcommit, written]
    cases hown : r.own with
    | none => rfl
    | some t => rfl

end Ruleset

/-! ### Processes -/

/-- The kernel, the applies that have listed the tables and not yet sent their batch, and the batches that
were committed, the last one first: what each had seen, and its configuration. -/
structure Applying (X : Type) where
  ruleset : Ruleset X
  pending : ℕ → Option (Bool × Config)
  committed : List (Bool × Config)

inductive ApplyEvent (X : Type)
  | list (i : ℕ) (config : Config)
  /-- The kernel may refuse the batch for reasons of its own. -/
  | send (i : ℕ) (refused : Bool)
  | others (foreign : List (TableId × X)) (h : ∀ entry ∈ foreign, entry.1 ≠ portalisId)

namespace Applying

variable {X : Type}

/-- A batch that was built and is sent. -/
def sent (s : Applying X) (had : Bool) (config : Config) (batch : List Message) : Applying X :=
  match s.ruleset.commit batch with
  | .error _ => s
  | .ok r => { s with ruleset := r, committed := (had, config) :: s.committed }

def step (s : Applying X) : ApplyEvent X → Option (Applying X)
  | .list i config =>
    match s.pending i with
    | none =>
      some { s with pending := Function.update s.pending i (some (s.ruleset.hadTable, config)) }
    | some _ => none
  | .send i refused =>
    match s.pending i with
    | none => none
    | some (had, config) =>
      let s := { s with pending := Function.update s.pending i none }
      match buildBatch had config with
      | .error _ => some s
      | .ok batch => some (if refused then s else s.sent had config batch)
  | .others foreign h => some { s with ruleset := { s.ruleset with foreign := foreign, foreign_ne := h } }

/-- The table after batches, the last one first. -/
def replay (start : Option Table) : List (Bool × Config) → Option Table
  | [] => start
  | (had, config) :: older => some (Ruleset.written had (replay start older) config)

/-- Nothing is under way, and nothing counted yet. -/
def Fresh (s : Applying X) : Prop := (∀ i, s.pending i = none) ∧ s.committed = []

/-- A table stays, so that who saw one will find one; who saw none started where there was none. -/
structure Kept (start : Option Table) (s : Applying X) : Prop where
  own : s.ruleset.own = replay start s.committed
  seen : ∀ i config, s.pending i = some (true, config) → s.ruleset.own.isSome = true
  unseen : ∀ i config, s.pending i = some (false, config) → start = none
  removes : ∀ commit ∈ s.committed, commit.1 = false → start = none
  built : ∀ commit ∈ s.committed, buildRules commit.2.plan = .ok (Ruleset.builtRules commit.2)

variable {start : Option Table} {s s' : Applying X}

theorem Fresh.kept (h : s.Fresh) : Kept s.ruleset.own s where
  own := by rw [h.2, replay]
  seen i config hpending := by rw [h.1 i] at hpending; cases hpending
  unseen i config hpending := by rw [h.1 i] at hpending; cases hpending
  removes commit hmem := by rw [h.2] at hmem; cases hmem
  built commit hmem := by rw [h.2] at hmem; cases hmem

theorem replay_managed (committed : List (Bool × Config)) :
    Ruleset.Managed (replay none committed) := by
  intro t ht
  cases committed with
  | nil => cases ht
  | cons commit older => exact (Option.mem_some_iff.mp ht) ▸ rfl

/-- **A batch finds what it was made for**: whatever was committed since the list. -/
theorem Kept.commit_ok (h : Kept start s) {i : ℕ} {had : Bool} {config : Config}
    {batch : List Message} (hpending : s.pending i = some (had, config))
    (hbatch : buildBatch had config = .ok batch) :
    s.ruleset.commit batch =
      .ok { s.ruleset with own := some (Ruleset.written had s.ruleset.own config) } := by
  refine Ruleset.commit_batch hbatch ?_ ?_
  · intro hhad
    subst hhad
    exact h.seen i config hpending
  · intro hhad
    subst hhad
    rw [h.own, h.unseen i config hpending]
    exact replay_managed s.committed

theorem pending_update {i j : ℕ} {new : Option (Bool × Config)} {seen : Bool × Config}
    (h : Function.update s.pending i new j = some seen) : new = some seen ∨ s.pending j = some seen := by
  rw [Function.update_apply] at h
  split at h
  · exact .inl h
  · exact .inr h

/-- One process fewer is waiting. -/
theorem Kept.forget (h : Kept start s) (i : ℕ) :
    Kept start { s with pending := Function.update s.pending i none } where
  own := h.own
  removes := h.removes
  built := h.built
  seen j config hpending := by
    rcases pending_update hpending with hnone | hold
    · cases hnone
    · exact h.seen j config hold
  unseen j config hpending := by
    rcases pending_update hpending with hnone | hold
    · cases hnone
    · exact h.unseen j config hold

theorem Kept.list (h : Kept start s) (i : ℕ) (config : Config) :
    Kept start
      { s with pending := Function.update s.pending i (some (s.ruleset.hadTable, config)) } where
  own := h.own
  removes := h.removes
  built := h.built
  seen j config' hpending := by
    rcases pending_update hpending with hnew | hold
    · obtain ⟨hhad, -⟩ := Prod.mk.inj (Option.some.inj hnew)
      rw [s.ruleset.hadTable_eq] at hhad
      exact hhad
    · exact h.seen j config' hold
  unseen j config' hpending := by
    rcases pending_update hpending with hnew | hold
    · obtain ⟨hhad, -⟩ := Prod.mk.inj (Option.some.inj hnew)
      rw [s.ruleset.hadTable_eq, h.own] at hhad
      -- once a batch was committed there is a table, so none was committed yet
      cases hcommitted : s.committed with
      | nil =>
        rw [hcommitted, replay] at hhad
        exact Option.not_isSome_iff_eq_none.mp (by rw [hhad]; decide)
      | cons commit older =>
        rw [hcommitted] at hhad
        cases hhad
    · exact h.unseen j config' hold

theorem Kept.send (h : Kept start s) {i : ℕ} {had : Bool} {config : Config} {batch : List Message}
    (hpending : s.pending i = some (had, config)) (hbatch : buildBatch had config = .ok batch) :
    Kept start (({ s with pending := Function.update s.pending i none } : Applying X).sent
      had config batch) := by
  have hrest := h.forget i
  have hcommit := h.commit_ok hpending hbatch
  unfold sent
  rw [show ({ s with pending := Function.update s.pending i none } : Applying X).ruleset.commit batch =
    _ from hcommit]
  refine ⟨?_, fun _ _ _ => rfl, hrest.unseen, ?_, ?_⟩
  · show some (Ruleset.written had s.ruleset.own config) = replay start ((had, config) :: s.committed)
    rw [replay, h.own]
  · intro commit hmem hhad
    rcases List.mem_cons.mp hmem with rfl | hold
    · change had = false at hhad
      subst hhad
      exact h.unseen i config hpending
    · exact h.removes commit hold hhad
  · intro commit hmem
    rcases List.mem_cons.mp hmem with rfl | hold
    · exact (Ruleset.buildBatch_eq_ok hbatch).1
    · exact h.built commit hold

theorem Kept.step (h : Kept start s) {e : ApplyEvent X} (hstep : s.step e = some s') :
    Kept start s' := by
  cases e with
  | list i config =>
    cases hpending : s.pending i with
    | some _ => simp [Applying.step, hpending] at hstep
    | none =>
      simp only [Applying.step, hpending, Option.some.injEq] at hstep
      subst hstep
      exact h.list i config
  | send i refused =>
    cases hpending : s.pending i with
    | none => simp [Applying.step, hpending] at hstep
    | some seen =>
      obtain ⟨had, config⟩ := seen
      simp only [Applying.step, hpending] at hstep
      cases hbatch : buildBatch had config with
      | error _ =>
        rw [hbatch] at hstep
        cases hstep
        exact h.forget i
      | ok batch =>
        rw [hbatch] at hstep
        cases refused with
        | true =>
          cases hstep
          exact h.forget i
        | false =>
          cases hstep
          exact h.send hpending hbatch
  | others foreign hne =>
    cases hstep
    exact ⟨h.own, h.seen, h.unseen, h.removes, h.built⟩

theorem kept_of_reaches {start s : Applying X} (hfresh : start.Fresh)
    (h : Reaches step (fun _ _ => True) start s) : Kept start.ruleset.own s :=
  Reaches.invariant hfresh.kept (fun _ _ _ _ hkept hstep => hkept.step hstep) h

/-- **A table is replaced as a whole.**  Once there is one, however the applies of however many processes are
interleaved, it is the one that was there or exactly what was compiled for the batch committed last.  Every
batch that is still to be sent will be committed, whatever comes before it, and no batch touches another
table. -/
theorem whole_table_of_reaches {start s : Applying X} (hfresh : start.Fresh) {t : Table}
    (htable : start.ruleset.own = some t) (h : Reaches step (fun _ _ => True) start s) :
    (s.committed = [] → s.ruleset.own = some t) ∧
    (∀ had config older, s.committed = (had, config) :: older →
      ∃ t', compile config = .ok t' ∧ s.ruleset.own = some t') ∧
    ∀ i had config batch, s.pending i = some (had, config) → buildBatch had config = .ok batch →
      ∃ t', compile config = .ok t' ∧
        s.ruleset.commit batch = .ok { s.ruleset with own := some t' } := by
  have hkept := kept_of_reaches hfresh h
  rw [htable] at hkept
  have hremoves : ∀ had config, (had = false → some t = none) →
      Ruleset.written had s.ruleset.own config = ⟨Ruleset.chains, Ruleset.builtRules config⟩ := by
    intro had config hhad
    cases had with
    | false => cases hhad rfl
    | true => rw [Ruleset.written, if_pos rfl, List.nil_append]
  refine ⟨?_, ?_, ?_⟩
  · intro hnone
    rw [hkept.own, hnone, replay]
  · intro had config older hcommitted
    have hmem : (had, config) ∈ s.committed := by
      rw [hcommitted]
      exact List.mem_cons_self
    refine ⟨_, Ruleset.compile_eq_ok (hkept.built _ hmem), ?_⟩
    cases had with
    | false => cases hkept.removes _ hmem rfl
    | true => rw [hkept.own, hcommitted, replay, Ruleset.written, if_pos rfl, List.nil_append]
  · intro i had config batch hpending hbatch
    refine ⟨_, Ruleset.compile_eq_ok (Ruleset.buildBatch_eq_ok hbatch).1, ?_⟩
    rw [hkept.commit_ok hpending hbatch, hremoves had config]
    intro hhad
    subst hhad
    exact hkept.unseen i config hpending

/-- A kernel where nobody else has tables. -/
def quiet (own : Option Table) : Applying Unit := ⟨⟨own, [], nofun⟩, fun _ => none, []⟩

/-- Two processes list the tables before either sends its batch. -/
def racing : List (ApplyEvent Unit) :=
  [.list 0 ⟨1, [webRule]⟩, .list 1 ⟨1, [movedRule]⟩, .send 0 false, .send 1 false]

def racedFrom (own : Option Table) : Applying Unit :=
  (runAll step (quiet own) racing).getD (quiet own)

theorem whole_table_after_race :
    ∃ t', compile ⟨1, [movedRule]⟩ = .ok t' ∧ (racedFrom (some ⟨[], []⟩)).ruleset.own = some t' := by
  have hrun : runAll step (quiet (some ⟨[], []⟩)) racing = some (racedFrom (some ⟨[], []⟩)) := rfl
  have hreaches : Reaches step (fun _ _ => True) (quiet (some ⟨[], []⟩)) (racedFrom (some ⟨[], []⟩)) :=
    Reaches.of_runAll .start (fun _ _ _ => trivial) hrun
  exact (whole_table_of_reaches ⟨fun _ => rfl, rfl⟩ rfl hreaches).2.1 true ⟨1, [movedRule]⟩
    [(true, ⟨1, [webRule]⟩)] rfl

/-! ### Applies that saw no table -/

/-- The batches since the last one that removed a table, that one included, the last one first. -/
def generation : List (Bool × Config) → List (Bool × Config)
  | [] => []
  | (true, config) :: _ => [(true, config)]
  | (false, config) :: older => (false, config) :: generation older

/-- The rules that a generation has written, in the order of the table. -/
def writtenBy (commits : List (Bool × Config)) : List KernelRule :=
  commits.reverse.flatMap fun commit => rulesOf commit.2.plan

theorem writtenBy_cons (commit : Bool × Config) (older : List (Bool × Config)) :
    writtenBy (commit :: older) = writtenBy older ++ rulesOf commit.2.plan := by
  rw [writtenBy, List.reverse_cons, List.flatMap_append, List.flatMap_singleton]
  rfl

/-- Only configurations that `validate` accepted are applied. -/
def Checked (_ : Applying X) : ApplyEvent X → Prop
  | .list _ config => ∃ context, config.validate context = .ok ()
  | _ => True

/-- Whatever is under way or committed was accepted. -/
def AllChecked (s : Applying X) : Prop :=
  (∀ i seen, s.pending i = some seen → ∃ context, Accepted seen.2 context) ∧
    ∀ commit ∈ s.committed, ∃ context, Accepted commit.2 context

theorem AllChecked.step (h : s.AllChecked) {e : ApplyEvent X} (hguard : Checked s e)
    (hstep : s.step e = some s') : s'.AllChecked := by
  obtain ⟨hpendings, hcommits⟩ := h
  cases e with
  | list i config =>
    cases hpending : s.pending i with
    | some _ => simp [Applying.step, hpending] at hstep
    | none =>
      simp only [Applying.step, hpending, Option.some.injEq] at hstep
      subst hstep
      refine ⟨?_, hcommits⟩
      intro j seen hseen
      rcases pending_update hseen with hnew | hold
      · obtain ⟨context, hvalid⟩ := hguard
        cases hnew
        exact ⟨context, Accepted.of_validate hvalid⟩
      · exact hpendings j seen hold
  | send i refused =>
    cases hpending : s.pending i with
    | none => simp [Applying.step, hpending] at hstep
    | some seen =>
      obtain ⟨had, config⟩ := seen
      simp only [Applying.step, hpending] at hstep
      have hrest : ∀ j seen, Function.update s.pending i none j = some seen →
          ∃ context, Accepted seen.2 context := by
        intro j seen hseen
        rcases pending_update hseen with hnone | hold
        · cases hnone
        · exact hpendings j seen hold
      split at hstep
      next => cases hstep; exact ⟨hrest, hcommits⟩
      next batch _ =>
        cases hstep
        split
        next => exact ⟨hrest, hcommits⟩
        next =>
          unfold sent
          split
          next => exact ⟨hrest, hcommits⟩
          next =>
            refine ⟨hrest, ?_⟩
            intro commit hmem
            rcases List.mem_cons.mp hmem with rfl | hold
            · exact hpendings i _ hpending
            · exact hcommits commit hold
  | others foreign hne =>
    cases hstep
    exact ⟨hpendings, hcommits⟩

/-- The rules that were built for an accepted configuration. -/
theorem builtRules_eq {config : Config} {context : ValidationContext} (h : Accepted config context)
    (hbuilt : buildRules config.plan = .ok (Ruleset.builtRules config)) :
    Ruleset.builtRules config = rulesOf config.plan := by
  by_cases hiface : config.InterfacesOk
  · rw [buildRules_eq_ok (fun plan hp => h.planChecked hp) hiface.plan] at hbuilt
    exact (Except.ok.inj hbuilt).symm
  · rw [h.buildRules_eq_error hiface] at hbuilt
    cases hbuilt

theorem replay_eq {committed : List (Bool × Config)} (hne : committed ≠ [])
    (hbuilt : ∀ commit ∈ committed, Ruleset.builtRules commit.2 = rulesOf commit.2.plan) :
    replay none committed = some ⟨Ruleset.chains, writtenBy (generation committed)⟩ := by
  induction committed with
  | nil => exact absurd rfl hne
  | cons commit older ih =>
    obtain ⟨had, config⟩ := commit
    have hlast : Ruleset.builtRules config = rulesOf config.plan := hbuilt _ List.mem_cons_self
    cases had with
    | true => simp [replay, Ruleset.written, generation, writtenBy, hlast]
    | false =>
      rw [replay, Ruleset.written, if_neg (by decide), hlast, generation, writtenBy_cons]
      by_cases hfirst : older = []
      · rw [hfirst]
        rfl
      · rw [ih hfirst fun commit hmem => hbuilt commit (List.mem_cons_of_mem _ hmem)]
        rfl

/-- The rules of earlier batches count for nobody only when there are none. -/
theorem keyed_writtenBy_eq_nil_iff (commits : List (Bool × Config)) :
    (∀ key, ofKey KernelRule.key key (writtenBy commits) = []) ↔
      ∀ commit ∈ commits, commit.2.plan = [] := by
  induction commits with
  | nil => simp [writtenBy, ofKey]
  | cons commit older ih =>
    have hhead : (∀ key, ofKey KernelRule.key key (rulesOf commit.2.plan) = []) ↔
        commit.2.plan = [] := by
      constructor
      · intro hnil
        refine List.eq_nil_iff_forall_not_mem.mpr fun plan hmem => ?_
        exact (keyed_tableOf_ne_nil_iff commit.2 plan.key).mpr (List.mem_map_of_mem hmem)
          (hnil plan.key)
      · intro hnil key
        rw [hnil]
        rfl
    simp only [writtenBy_cons, ofKey_append, List.append_eq_nil_iff, List.forall_mem_cons]
    rw [forall_and, ih, hhead, and_comm]

/-- **A mixture never goes unnoticed.**  Without a table at first, the table has the rules of every batch since
the last one that removed a table; for the configuration committed last it is reported as not drifted exactly
when it is what that configuration compiles to, which is when the others had nothing to forward. -/
theorem undrifted_iff_of_reaches {start s : Applying X} (hfresh : start.Fresh)
    (hnone : start.ruleset.own = none) (h : Reaches step Checked start s) {had : Bool}
    {config : Config} {older : List (Bool × Config)} (hlast : s.committed = (had, config) :: older)
    (now : String) :
    ∃ t, s.ruleset.own = some t ∧ t.chains = Ruleset.chains ∧
      t.rules = writtenBy (generation s.committed) ∧
      ((nftStatus now (some t) config).drifted = false ↔ compile config = .ok t) ∧
      (compile config = .ok t ↔ ∀ earlier ∈ (generation s.committed).tail, earlier.2.plan = []) := by
  have hkept := kept_of_reaches hfresh (h.imp fun _ _ _ => trivial)
  rw [hnone] at hkept
  have hchecked : s.AllChecked := by
    refine Reaches.invariant ⟨?_, ?_⟩ (fun _ _ _ hguard hall hstep => hall.step hguard hstep) h
    · intro i seen hseen
      rw [hfresh.1 i] at hseen
      cases hseen
    · intro commit hmem
      rw [hfresh.2] at hmem
      cases hmem
  have hbuilt : ∀ commit ∈ s.committed, Ruleset.builtRules commit.2 = rulesOf commit.2.plan := by
    intro commit hmem
    obtain ⟨context, hacc⟩ := hchecked.2 commit hmem
    exact builtRules_eq hacc (hkept.built commit hmem)
  have hmem : (had, config) ∈ s.committed := by
    rw [hlast]
    exact List.mem_cons_self
  obtain ⟨context, hacc⟩ := hchecked.2 _ hmem
  have hcompile : compile config = .ok (tableOf config) := by
    have hok := Ruleset.compile_eq_ok (hkept.built _ hmem)
    rw [hbuilt _ hmem] at hok
    exact hok
  obtain ⟨tail, hgeneration⟩ : ∃ tail, generation s.committed = (had, config) :: tail := by
    rw [hlast]
    cases had with
    | true => exact ⟨[], rfl⟩
    | false => exact ⟨generation older, rfl⟩
  have hown : s.ruleset.own = some ⟨Ruleset.chains, writtenBy (generation s.committed)⟩ := by
    rw [hkept.own]
    exact replay_eq (by rw [hlast]; simp) hbuilt
  have hrules : writtenBy (generation s.committed) = writtenBy tail ++ rulesOf config.plan := by
    rw [hgeneration, writtenBy_cons]
  have hdrift : (nftStatus now s.ruleset.own config).drifted = false ↔
      ∀ earlier ∈ tail, earlier.2.plan = [] := by
    have hiff := hacc.notDrifted_iff now s.ruleset.own
    rw [and_iff_right (by rw [hown]; rfl)] at hiff
    rw [hiff, hown, ← keyed_writtenBy_eq_nil_iff]
    constructor
    · intro ⟨t, ht, hlen⟩ key
      cases ht
      have hkey := hlen key
      simp only [Table.keyed, hrules, ofKey_append, List.length_append, tableOf] at hkey
      exact List.eq_nil_of_length_eq_zero (by omega)
    · intro hnil
      refine ⟨_, rfl, fun key => ?_⟩
      simp only [Table.keyed, hrules, ofKey_append, hnil key, List.nil_append, tableOf]
  have hexact : compile config = .ok ⟨Ruleset.chains, writtenBy (generation s.committed)⟩ ↔
      ∀ earlier ∈ tail, earlier.2.plan = [] := by
    rw [hcompile, ← keyed_writtenBy_eq_nil_iff, hrules]
    constructor
    · intro hsame key
      have hlist : rulesOf config.plan = writtenBy tail ++ rulesOf config.plan :=
        congrArg Table.rules (Except.ok.inj hsame)
      rw [List.self_eq_append_left] at hlist
      rw [hlist]
      rfl
    · intro hnil
      have hempty : ∀ commit ∈ tail, rulesOf commit.2.plan = [] := by
        intro commit hin
        rw [(keyed_writtenBy_eq_nil_iff tail).mp hnil commit hin]
        rfl
      have hnone : writtenBy tail = [] :=
        List.flatMap_eq_nil_iff.mpr fun commit hin => hempty commit (List.mem_reverse.mp hin)
      rw [hnone, List.nil_append]
      rfl
  refine ⟨_, hown, rfl, rfl, ?_, ?_⟩
  · rw [hown] at hdrift
    rw [hdrift, hexact]
  · rw [hexact, hgeneration, List.tail_cons]

theorem race_reported :
    ∃ t, (racedFrom none).ruleset.own = some t ∧
      (nftStatus "" (some t) ⟨1, [movedRule]⟩).drifted = true := by
  have hrun : runAll step (quiet none) racing = some (racedFrom none) := rfl
  have hguard : ∀ s, ∀ e ∈ racing, Checked s e := by
    intro s e he
    simp only [racing, List.mem_cons, List.not_mem_nil, or_false] at he
    rcases he with rfl | rfl | rfl | rfl
    · exact ⟨.default, by decide⟩
    · exact ⟨.default, by decide⟩
    · trivial
    · trivial
  obtain ⟨t, hown, -, -, hdrift, hexact⟩ := undrifted_iff_of_reaches ⟨fun _ => rfl, rfl⟩ rfl
    (Reaches.of_runAll .start hguard hrun)
    (show (racedFrom none).committed = [(false, ⟨1, [movedRule]⟩), (false, ⟨1, [webRule]⟩)] from rfl) ""
  refine ⟨t, hown, ?_⟩
  have hmixed : ¬ ∀ earlier ∈ (generation (racedFrom none).committed).tail, earlier.2.plan = [] := by
    intro hnil
    exact absurd (hnil (false, ⟨1, [webRule]⟩) List.mem_cons_self) (by decide)
  have hreported := mt hdrift.mp (mt hexact.mp hmixed)
  simpa using hreported

end Applying

end Portalis
