import Portalis.Programs

/-!
# Tasks that share a readers-writer lock

Tasks over a world and a lock with readers and writers, polled in any order.  A task is a program that
asks for guards, gives them back and makes calls; a guard is given out by a policy that is fair, as a queue
of the tasks that wait is, and a client that leaves takes its guards and its place in the queue along.

* `step_eq_some`: what a step can do.
* `Orderly.of_reaches`: a task holds the guards that its program has still to give back.
-/

namespace RwLock

open Programs

inductive Mode
  | read
  | write
  deriving DecidableEq

/-! ### The lock -/

/-- The guards that are held, the newest first, and the tasks that wait, the oldest first. -/
structure Lock where
  held : List (ℕ × Mode)
  waiting : List (ℕ × Mode)

namespace Lock

def idle : Lock := ⟨[], []⟩

/-- Whether a guard fits those that are held: readers next to readers, a writer alone. -/
def free (l : Lock) : Mode → Bool
  | .read => l.held.all fun guard => guard.2 = .read
  | .write => l.held.isEmpty

def ask (l : Lock) (i : ℕ) (m : Mode) : Lock := { l with waiting := l.waiting ++ [(i, m)] }

def take (l : Lock) (i : ℕ) (m : Mode) : Lock := ⟨(i, m) :: l.held, l.waiting.erase (i, m)⟩

def drop (l : Lock) (i : ℕ) (m : Mode) : Lock := { l with held := l.held.erase (i, m) }

def leave (l : Lock) (i : ℕ) : Lock :=
  ⟨l.held.filter fun guard => guard.1 ≠ i, l.waiting.filter fun entry => entry.1 ≠ i⟩

/-- The guards of a task. -/
def guards (l : Lock) (i : ℕ) : List Mode := (l.held.filter fun guard => guard.1 = i).map (·.2)

theorem mem_guards {l : Lock} {i : ℕ} {m : Mode} : m ∈ l.guards i ↔ (i, m) ∈ l.held := by
  simp [guards]

theorem guards_take (l : Lock) (i : ℕ) (m : Mode) : (l.take i m).guards i = m :: l.guards i := by
  simp [guards, take]

theorem guards_take_ne (l : Lock) {i j : ℕ} (m : Mode) (h : j ≠ i) :
    (l.take i m).guards j = l.guards j := by
  simp [guards, take, h.symm]

theorem guards_drop {l : Lock} {i : ℕ} {m : Mode} {rest : List Mode} (h : l.guards i = m :: rest) :
    (l.drop i m).guards i = rest := by
  obtain ⟨held, waiting⟩ := l
  replace h : (held.filter fun guard => guard.1 = i).map (·.2) = m :: rest := h
  show ((held.erase (i, m)).filter fun guard => guard.1 = i).map (·.2) = rest
  induction held with
  | nil => cases h
  | cons guard held ih =>
    obtain ⟨j, m'⟩ := guard
    by_cases hj : j = i
    · subst hj
      rw [List.filter_cons_of_pos (by simp), List.map_cons] at h
      cases h
      rw [List.erase_cons_head]
    · rw [List.filter_cons_of_neg (by simpa using hj)] at h
      rw [List.erase_cons_tail (by simp [hj]), List.filter_cons_of_neg (by simpa using hj)]
      exact ih h

theorem guards_drop_ne (l : Lock) {i j : ℕ} (m : Mode) (h : j ≠ i) :
    (l.drop i m).guards j = l.guards j := by
  obtain ⟨held, waiting⟩ := l
  show ((held.erase (i, m)).filter fun guard => guard.1 = j).map (·.2) =
    (held.filter fun guard => guard.1 = j).map (·.2)
  induction held with
  | nil => rfl
  | cons guard held ih =>
    by_cases hguard : guard = (i, m)
    · subst hguard
      rw [List.erase_cons_head, List.filter_cons_of_neg (by simpa using h.symm)]
    · rw [List.erase_cons_tail (by simpa using hguard), List.filter_cons, List.filter_cons]
      split
      · rw [List.map_cons, List.map_cons, ih]
      · exact ih

theorem guards_leave (l : Lock) (i : ℕ) : (l.leave i).guards i = [] := by
  simp [guards, leave]

theorem guards_leave_ne (l : Lock) {i j : ℕ} (h : j ≠ i) : (l.leave i).guards j = l.guards j := by
  show ((l.held.filter fun guard => guard.1 ≠ i).filter fun guard => guard.1 = j).map (·.2) =
    (l.held.filter fun guard => guard.1 = j).map (·.2)
  rw [List.filter_filter]
  refine congrArg (List.map Prod.snd) (List.filter_congr ?_)
  intro guard _
  by_cases hj : guard.1 = j
  · simp [hj, h]
  · simp [hj]

/-- A task with a guard keeps writers out. -/
theorem free_write_of_guards {l : Lock} {i : ℕ} (h : l.guards i ≠ []) : l.free .write = false := by
  show l.held.isEmpty = false
  rw [List.isEmpty_eq_false_iff]
  intro hheld
  rw [guards, hheld] at h
  exact h rfl

theorem free_read_of {l : Lock} (h : ∀ guard ∈ l.held, guard.2 = .read) : l.free .read = true :=
  List.all_eq_true.mpr fun guard hmem => decide_eq_true (h guard hmem)

theorem free_of_held_nil {l : Lock} (h : l.held = []) (m : Mode) : l.free m = true := by
  cases m with
  | read => rw [free, h, List.all_nil]
  | write => rw [free, h, List.isEmpty_nil]

end Lock

/-- How guards are given out: only where they fit, never past a writer that asked before, and at once to
the task that has waited longest. -/
structure Policy where
  grants : Lock → ℕ → Mode → Bool
  fits {l : Lock} {i : ℕ} {m : Mode} : grants l i m = true → l.free m = true
  fair {l : Lock} {i j : ℕ} {m : Mode} {before after : List (ℕ × Mode)} : grants l i m = true →
    l.waiting = before ++ (j, .write) :: after → (i, m) ∈ before ++ [(j, .write)]
  prompt {l : Lock} {i : ℕ} {m : Mode} {rest : List (ℕ × Mode)} : l.waiting = (i, m) :: rest →
    l.free m = true → grants l i m = true

/-- One after the other, in the order of asking. -/
def fifo : Policy where
  grants l i m := l.waiting.head? = some (i, m) && l.free m
  fits h := (Bool.and_eq_true_iff.mp h).2
  fair {l i j m before after} h hwaiting := by
    have hhead : l.waiting.head? = some (i, m) := by simpa using (Bool.and_eq_true_iff.mp h).1
    rw [hwaiting] at hhead
    cases before with
    | nil =>
      cases hhead
      exact List.mem_cons_self
    | cons first before =>
      cases hhead
      exact List.mem_cons_self
  prompt hwaiting hfree := by simp [hwaiting, hfree]

/-! ### Tasks -/

/-- What a task does with the lock, or with the world. -/
inductive Act (C : Type)
  | acquire (m : Mode)
  | release (m : Mode)
  | call (c : C)

def Act.Answer {C : Type} (R : C → Type) : Act C → Type
  | acquire _ => Unit
  | release _ => Unit
  | call c => R c

abbrev Task (C : Type) (R : C → Type) (α : Type) := Program (Act C) (Act.Answer R) α

variable {W C V O α β : Type} {R : C → Type}

/-- What an act does for a task alone, which gets every guard at once. -/
def performAct (perform : W → (c : C) → O → R c × W) (w : W) : (act : Act C) → O → Act.Answer R act × W
  | .acquire _, _ => ((), w)
  | .release _, _ => ((), w)
  | .call c, o => perform w c o

/-- The world, the lock, the tasks in flight with what they are for, and the answers so far. -/
structure System (W C V α : Type) (R : C → Type) where
  world : W
  lock : Lock
  task : ℕ → Option (V × Task C R α)
  answer : ℕ → Option (V × α)

/-- Nobody is there. -/
def System.idle (w : W) : System W C V α R := ⟨w, .idle, fun _ => none, fun _ => none⟩

inductive Event (V O : Type)
  | arrive (i : ℕ) (v : V)
  | poll (i : ℕ) (o : O)
  | leave (i : ℕ)

section

variable (P : Policy) (perform : W → (c : C) → O → R c × W) (program : V → Task C R α)

/-- A task comes under a new number, goes on by one act, or is given up.  A task that asks for a guard is
put into the queue first, and goes on when the guard is given out. -/
def step (s : System W C V α R) : Event V O → Option (System W C V α R)
  | .arrive i v =>
    if (s.task i).isNone && (s.answer i).isNone then
      some { s with task := Function.update s.task i (some (v, program v)) }
    else none
  | .poll i o =>
    match s.task i with
    | none => none
    | some (v, .ret a) =>
      some { s with
        task := Function.update s.task i none
        answer := Function.update s.answer i (some (v, a)) }
    | some (v, .call (.acquire m) k) =>
      if (i, m) ∈ s.lock.waiting then
        if P.grants s.lock i m then
          some { s with
            lock := s.lock.take i m
            task := Function.update s.task i (some (v, k ())) }
        else none
      else some { s with lock := s.lock.ask i m }
    | some (v, .call (.release m) k) =>
      some { s with
        lock := s.lock.drop i m
        task := Function.update s.task i (some (v, k ())) }
    | some (v, .call (.call c) k) =>
      some { s with
        world := (perform s.world c o).2
        task := Function.update s.task i (some (v, k (perform s.world c o).1)) }
  | .leave i => some { s with lock := s.lock.leave i, task := Function.update s.task i none }

/-- What a step can do. -/
inductive Moves (s : System W C V α R) : Event V O → System W C V α R → Prop
  | arrive {i : ℕ} {v : V} (hfree : s.task i = none) (hnew : s.answer i = none) :
      Moves s (.arrive i v) { s with task := Function.update s.task i (some (v, program v)) }
  | finish {i : ℕ} {o : O} {v : V} {a : α} (htask : s.task i = some (v, .ret a)) :
      Moves s (.poll i o) { s with
        task := Function.update s.task i none
        answer := Function.update s.answer i (some (v, a)) }
  | ask {i : ℕ} {o : O} {v : V} {m : Mode} {k : Unit → Task C R α}
      (htask : s.task i = some (v, .call (.acquire m) k)) (hnot : (i, m) ∉ s.lock.waiting) :
      Moves s (.poll i o) { s with lock := s.lock.ask i m }
  | take {i : ℕ} {o : O} {v : V} {m : Mode} {k : Unit → Task C R α}
      (htask : s.task i = some (v, .call (.acquire m) k)) (hwaits : (i, m) ∈ s.lock.waiting)
      (hgrants : P.grants s.lock i m = true) :
      Moves s (.poll i o) { s with
        lock := s.lock.take i m
        task := Function.update s.task i (some (v, k ())) }
  | release {i : ℕ} {o : O} {v : V} {m : Mode} {k : Unit → Task C R α}
      (htask : s.task i = some (v, .call (.release m) k)) :
      Moves s (.poll i o) { s with
        lock := s.lock.drop i m
        task := Function.update s.task i (some (v, k ())) }
  | call {i : ℕ} {o : O} {v : V} {c : C} {k : R c → Task C R α}
      (htask : s.task i = some (v, .call (.call c) k)) :
      Moves s (.poll i o) { s with
        world := (perform s.world c o).2
        task := Function.update s.task i (some (v, k (perform s.world c o).1)) }
  | leave {i : ℕ} :
      Moves s (.leave i) { s with lock := s.lock.leave i, task := Function.update s.task i none }

variable {P perform program}

theorem step_eq_some {s s' : System W C V α R} {e : Event V O} :
    step P perform program s e = some s' ↔ Moves P perform program s e s' := by
  constructor
  · intro h
    cases e with
    | arrive i v =>
      rw [step] at h
      split at h
      · next hfree =>
        obtain ⟨hfree, hnew⟩ := Bool.and_eq_true_iff.mp hfree
        cases h
        exact .arrive (Option.isNone_iff_eq_none.mp hfree) (Option.isNone_iff_eq_none.mp hnew)
      · cases h
    | poll i o =>
      rw [step] at h
      split at h
      · cases h
      · next htask =>
        cases h
        exact .finish htask
      · next htask =>
        split at h
        · next hwaits =>
          split at h
          · next hgrants =>
            cases h
            exact .take htask hwaits hgrants
          · cases h
        · next hnot =>
          cases h
          exact .ask htask hnot
      · next htask =>
        cases h
        exact .release htask
      · next htask =>
        cases h
        exact .call htask
    | leave i =>
      cases h
      exact .leave
  · intro h
    cases h with
    | arrive hfree hnew =>
      rw [step, hfree, hnew]
      rfl
    | finish htask => rw [step, htask]
    | ask htask hnot =>
      rw [step, htask]
      exact if_neg hnot
    | take htask hwaits hgrants =>
      rw [step, htask]
      exact (if_pos hwaits).trans (if_pos hgrants)
    | release htask => rw [step, htask]
    | call htask => rw [step, htask]
    | leave => rfl

end

/-! ### Guards that are given back -/

/-- Which guards a task with these guards may ask for, and which calls it may make. -/
structure Rules (C : Type) where
  acquires : List Mode → Mode → Prop
  calls : List Mode → C → Prop

/-- From the guards `gs` on the task keeps to the rules, gives each guard back before the ones it took
earlier, and ends with the guards `goal`. -/
def Follows (rules : Rules C) (goal : List Mode) : List Mode → Task C R α → Prop
  | gs, .ret _ => gs = goal
  | gs, .call (.acquire m) k => rules.acquires gs m ∧ Follows rules goal (m :: gs) (k ())
  | gs, .call (.release m) k => ∃ rest, gs = m :: rest ∧ Follows rules goal rest (k ())
  | gs, .call (.call c) k => rules.calls gs c ∧ ∀ r, Follows rules goal gs (k r)

theorem Follows.bind {rules : Rules C} {mid goal gs : List Mode} {p : Task C R α} {f : α → Task C R β}
    (hp : Follows rules mid gs p) (hf : ∀ a, Follows rules goal mid (f a)) :
    Follows rules goal gs (p.bind f) := by
  induction p generalizing gs with
  | ret a =>
    have hgs : gs = mid := hp
    rw [hgs]
    exact hf a
  | call act k ih =>
    cases act with
    | acquire m => exact ⟨hp.1, ih () hp.2⟩
    | release m =>
      obtain ⟨rest, hgs, hrest⟩ := hp
      exact ⟨rest, hgs, ih () hrest⟩
    | call c => exact ⟨hp.1, fun r => ih r (hp.2 r)⟩

section

variable {P : Policy} {perform : W → (c : C) → O → R c × W} {program : V → Task C R α}

/-- Every task keeps to the rules with the guards it holds, and waits for what it asks for. -/
structure Orderly (rules : Rules C) (s : System W C V α R) : Prop where
  follows {i : ℕ} {v : V} {p : Task C R α} : s.task i = some (v, p) →
    Follows rules [] (s.lock.guards i) p
  gone {i : ℕ} : s.task i = none → s.lock.guards i = []
  queued {i : ℕ} {m : Mode} : (i, m) ∈ s.lock.waiting →
    ∃ v k, s.task i = some (v, .call (.acquire m) k)
  nodup : s.lock.waiting.Nodup

theorem Orderly.idle (rules : Rules C) (w : W) :
    Orderly rules (System.idle w : System W C V α R) where
  follows h := by cases h
  gone _ := rfl
  queued h := by cases h
  nodup := List.nodup_nil

/-- A task alone changes, with its guards. -/
theorem Orderly.follows_update {rules : Rules C} {s : System W C V α R} (h : Orderly rules s) {i : ℕ}
    {l : Lock} {new : Option (V × Task C R α)} (hne : ∀ j, j ≠ i → l.guards j = s.lock.guards j)
    (hnew : ∀ v p, new = some (v, p) → Follows rules [] (l.guards i) p) {j : ℕ} {v : V} {p : Task C R α}
    (htask : Function.update s.task i new j = some (v, p)) : Follows rules [] (l.guards j) p := by
  by_cases hj : j = i
  · subst hj
    rw [Function.update_self] at htask
    exact hnew v p htask
  · rw [Function.update_of_ne hj] at htask
    rw [hne j hj]
    exact h.follows htask

theorem Orderly.gone_update {rules : Rules C} {s : System W C V α R} (h : Orderly rules s) {i : ℕ}
    {l : Lock} {new : Option (V × Task C R α)} (hne : ∀ j, j ≠ i → l.guards j = s.lock.guards j)
    (hnew : new = none → l.guards i = []) {j : ℕ} (htask : Function.update s.task i new j = none) :
    l.guards j = [] := by
  by_cases hj : j = i
  · subst hj
    rw [Function.update_self] at htask
    exact hnew htask
  · rw [Function.update_of_ne hj] at htask
    rw [hne j hj]
    exact h.gone htask

/-- The tasks that wait are where they were when the one that changes is none of them. -/
theorem Orderly.queued_update {rules : Rules C} {s : System W C V α R} (h : Orderly rules s) {i : ℕ}
    {waiting : List (ℕ × Mode)} {new : Option (V × Task C R α)}
    (hsub : ∀ entry ∈ waiting, entry ∈ s.lock.waiting ∧ entry.1 ≠ i) {j : ℕ} {m : Mode}
    (hmem : (j, m) ∈ waiting) : ∃ v k, Function.update s.task i new j = some (v, .call (.acquire m) k) := by
  obtain ⟨hold, hne⟩ := hsub (j, m) hmem
  rw [Function.update_of_ne hne]
  exact h.queued hold

/-- Who does not stand at asking for a guard does not wait. -/
theorem Orderly.notMem_waiting {rules : Rules C} {s : System W C V α R} (h : Orderly rules s) {i : ℕ}
    (hnot : ∀ v m k, s.task i ≠ some (v, .call (.acquire m) k)) :
    ∀ entry ∈ s.lock.waiting, entry ∈ s.lock.waiting ∧ entry.1 ≠ i := by
  intro entry hmem
  obtain ⟨j, m⟩ := entry
  refine ⟨hmem, ?_⟩
  intro hj
  have hj : j = i := hj
  rw [hj] at hmem
  obtain ⟨v, k, htask⟩ := h.queued hmem
  exact hnot v m k htask

/-- **The step lemma.** -/
theorem Orderly.step {rules : Rules C} (hprogram : ∀ v, Follows rules [] [] (program v))
    {s s' : System W C V α R} {e : Event V O} (h : Orderly rules s)
    (hstep : Moves P perform program s e s') : Orderly rules s' := by
  cases hstep with
  | @arrive i v hfree hnew =>
    have hguards : s.lock.guards i = [] := h.gone hfree
    refine ⟨h.follows_update (fun _ _ => rfl) ?_, h.gone_update (fun _ _ => rfl) ?_,
      h.queued_update (h.notMem_waiting ?_), h.nodup⟩
    · intro v' p hp
      cases hp
      rw [hguards]
      exact hprogram v
    · intro _
      exact hguards
    · intro v' m k htask
      rw [hfree] at htask
      cases htask
  | @finish i o v a htask =>
    have hguards : s.lock.guards i = [] := h.follows htask
    refine ⟨h.follows_update (fun _ _ => rfl) ?_, h.gone_update (fun _ _ => rfl) ?_,
      h.queued_update (h.notMem_waiting ?_), h.nodup⟩
    · intro v' p hp
      cases hp
    · intro _
      exact hguards
    · intro v' m k hother
      cases htask.symm.trans hother
  | @ask i o v m k htask hnot =>
    refine ⟨h.follows, h.gone, ?_, ?_⟩
    · intro j m' hmem
      rcases List.mem_append.mp hmem with hold | hlast
      · exact h.queued hold
      · cases List.mem_singleton.mp hlast
        exact ⟨v, k, htask⟩
    · exact List.Nodup.append h.nodup (List.nodup_singleton _) (List.disjoint_singleton.mpr hnot)
  | @take i o v m k htask hwaits hgrants =>
    have hfollows := (h.follows htask).2
    refine ⟨h.follows_update (fun j hj => Lock.guards_take_ne _ m hj) ?_,
      h.gone_update (fun j hj => Lock.guards_take_ne _ m hj) ?_, h.queued_update ?_, h.nodup.erase _⟩
    · intro v' p hp
      cases hp
      rw [Lock.guards_take]
      exact hfollows
    · intro hnone
      cases hnone
    · -- the task waits for one guard only
      intro entry hmem
      obtain ⟨hne, hold⟩ := (h.nodup.mem_erase_iff).mp hmem
      refine ⟨hold, ?_⟩
      intro hi
      obtain ⟨j, m'⟩ := entry
      have hj : j = i := hi
      rw [hj] at hold
      obtain ⟨v', k', htask'⟩ := h.queued hold
      cases htask.symm.trans htask'
      exact hne (by rw [hj])
  | @release i o v m k htask =>
    obtain ⟨rest, hguards, hrest⟩ := h.follows htask
    refine ⟨h.follows_update (fun j hj => Lock.guards_drop_ne _ m hj) ?_,
      h.gone_update (fun j hj => Lock.guards_drop_ne _ m hj) ?_,
      h.queued_update (h.notMem_waiting ?_), h.nodup⟩
    · intro v' p hp
      cases hp
      rw [Lock.guards_drop hguards]
      exact hrest
    · intro hnone
      cases hnone
    · intro v' m' k' hother
      cases htask.symm.trans hother
  | @call i o v c k htask =>
    have hfollows := (h.follows htask).2
    refine ⟨h.follows_update (fun _ _ => rfl) ?_, h.gone_update (fun _ _ => rfl) ?_,
      h.queued_update (h.notMem_waiting ?_), h.nodup⟩
    · intro v' p hp
      cases hp
      exact hfollows _
    · intro hnone
      cases hnone
    · intro v' m' k' hother
      cases htask.symm.trans hother
  | @leave i =>
    refine ⟨h.follows_update (fun j hj => Lock.guards_leave_ne _ hj) ?_,
      h.gone_update (fun j hj => Lock.guards_leave_ne _ hj) ?_, h.queued_update ?_, h.nodup.filter _⟩
    · intro v' p hp
      cases hp
    · intro _
      exact Lock.guards_leave _ i
    · intro entry hmem
      obtain ⟨hold, hne⟩ := List.mem_filter.mp hmem
      exact ⟨hold, of_decide_eq_true hne⟩

/-- **A task holds the guards that its program has still to give back.** -/
theorem Orderly.of_reaches {rules : Rules C} (hprogram : ∀ v, Follows rules [] [] (program v))
    {guard : System W C V α R → Event V O → Prop} {start s : System W C V α R}
    (hstart : Orderly rules start) (h : Reaches (RwLock.step P perform program) guard start s) :
    Orderly rules s :=
  h.invariant hstart fun _ _ _ _ hinv hstep => Orderly.step hprogram hinv (step_eq_some.mp hstep)

end

end RwLock
