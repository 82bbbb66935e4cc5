import Portalis.RwLock

/-!
# Standing still and coming to an end

Runs of the tasks that share a readers-writer lock.

* `Stalled.of_reaches`: a task that holds a guard and waits to write waits for ever, and so does every task
  behind it.
* `shared_of_reaches`: where every writer holds a guard already, nobody writes.
* `drains_of_progress`: where some task can always go on, all tasks can be brought to an end.
* `drains_of_flat`, `drains_iff_of_nested`: when they can.
-/

namespace RwLock

open Programs

variable {W C V O α : Type} {R : C → Type}

/-! ### A task that waits for itself -/

/-- The task goes to its end without the lock, and its answer is one of these. -/
def Lockless (answers : α → Prop) : Task C R α → Prop
  | .ret a => answers a
  | .call (.acquire _) _ => False
  | .call (.release _) _ => False
  | .call (.call _) k => ∀ r, Lockless answers (k r)

/-- The task asks for a guard next. -/
def Asks (p : Task C R α) : Prop := ∃ m k, p = .call (.acquire m) k

/-- The task holds a guard and waits to write, behind `before` and in front of `after`. -/
structure Stalled (i : ℕ) (before after : List (ℕ × Mode)) (s : System W C V α R) : Prop where
  guards : s.lock.guards i ≠ []
  task : ∃ v k, s.task i = some (v, .call (.acquire .write) k)
  waiting : s.lock.waiting = before ++ (i, .write) :: after

/-- The task is not in front of the others, and it asks for a guard next or needs none. -/
structure Late (answers : V → α → Prop) (before : List (ℕ × Mode)) (j : ℕ) (s : System W C V α R) :
    Prop where
  answered {v : V} {a : α} : s.answer j = some (v, a) → answers v a
  behind (m : Mode) : (j, m) ∉ before
  task {v : V} {p : Task C R α} : s.task j = some (v, p) → Lockless (answers v) p ∨ Asks p

section

variable {P : Policy} {perform : W → (c : C) → O → R c × W} {program : V → Task C R α}

theorem Stalled.not_grants {i : ℕ} {before after : List (ℕ × Mode)} {s : System W C V α R}
    (h : Stalled i before after s) : P.grants s.lock i .write = false := by
  rw [Bool.eq_false_iff]
  intro hgrants
  have hfree := P.fits hgrants
  rw [Lock.free_write_of_guards h.guards] at hfree
  cases hfree

/-- Only those in front get a guard. -/
theorem Stalled.mem_of_grants {i j : ℕ} {m : Mode} {before after : List (ℕ × Mode)}
    {s : System W C V α R} (h : Stalled i before after s) (hgrants : P.grants s.lock j m = true) :
    (j, m) ∈ before := by
  rcases List.mem_append.mp (P.fair hgrants h.waiting) with hbefore | hself
  · exact hbefore
  · cases List.mem_singleton.mp hself
    rw [h.not_grants] at hgrants
    cases hgrants

/-- A task that stands somewhere else. -/
theorem Stalled.ne {i j : ℕ} {before after : List (ℕ × Mode)} {s : System W C V α R}
    (h : Stalled i before after s) (hother : ∀ v k, s.task j ≠ some (v, .call (.acquire .write) k)) :
    i ≠ j := by
  intro hij
  obtain ⟨v, k, htask⟩ := h.task
  rw [hij] at htask
  exact hother v k htask

theorem Stalled.other {i j : ℕ} {before after : List (ℕ × Mode)} {s : System W C V α R}
    (h : Stalled i before after s) (hne : i ≠ j) {w : W} {l : Lock} {new : Option (V × Task C R α)}
    {answer : ℕ → Option (V × α)} (hguards : l.guards i = s.lock.guards i)
    {before' after' : List (ℕ × Mode)} (hwaiting : l.waiting = before' ++ (i, .write) :: after') :
    Stalled i before' after' (⟨w, l, Function.update s.task j new, answer⟩ : System W C V α R) where
  guards := by
    rw [hguards]
    exact h.guards
  task := by
    obtain ⟨v, k, htask⟩ := h.task
    exact ⟨v, k, (Function.update_of_ne hne _ _).trans htask⟩
  waiting := hwaiting

/-- **The step lemma.**  Unless the task is given up it stays where it is, and nobody comes in front. -/
theorem Stalled.step {i : ℕ} {before after : List (ℕ × Mode)} {s s' : System W C V α R} {e : Event V O}
    (h : Stalled i before after s) (hstep : Moves P perform program s e s') (hstays : e ≠ .leave i) :
    ∃ before' after', before' ⊆ before ∧ Stalled i before' after' s' := by
  cases hstep with
  | @arrive j v hfree hnew =>
    have hne : i ≠ j := h.ne fun v k htask => by rw [hfree] at htask; cases htask
    exact ⟨before, after, List.Subset.refl _, h.other hne rfl h.waiting⟩
  | @finish j o v a htask =>
    have hne : i ≠ j := h.ne fun v k hother => by cases htask.symm.trans hother
    exact ⟨before, after, List.Subset.refl _, h.other hne rfl h.waiting⟩
  | @ask j o v m k htask hnot =>
    refine ⟨before, after ++ [(j, m)], List.Subset.refl _, h.guards, h.task, ?_⟩
    show s.lock.waiting ++ [(j, m)] = _
    rw [h.waiting, List.append_assoc, List.cons_append]
  | @take j o v m k htask hwaits hgrants =>
    have hmem : (j, m) ∈ before := h.mem_of_grants hgrants
    have hne : i ≠ j := by
      intro hij
      obtain ⟨v', k', htask'⟩ := h.task
      rw [hij] at htask'
      cases htask.symm.trans htask'
      rw [← hij, h.not_grants] at hgrants
      cases hgrants
    refine ⟨before.erase (j, m), after, List.erase_subset, h.other hne (Lock.guards_take_ne _ m hne) ?_⟩
    show s.lock.waiting.erase (j, m) = _
    rw [h.waiting, List.erase_append_left _ hmem]
  | @release j o v m k htask =>
    have hne : i ≠ j := h.ne fun v k hother => by cases htask.symm.trans hother
    exact ⟨before, after, List.Subset.refl _, h.other hne (Lock.guards_drop_ne _ m hne) h.waiting⟩
  | @call j o v c k htask =>
    have hne : i ≠ j := h.ne fun v k hother => by cases htask.symm.trans hother
    exact ⟨before, after, List.Subset.refl _, h.other hne rfl h.waiting⟩
  | @leave j =>
    have hne : i ≠ j := fun hij => hstays (by rw [hij])
    refine ⟨before.filter fun entry => entry.1 ≠ j, after.filter fun entry => entry.1 ≠ j,
      List.filter_subset_self _, h.other hne (Lock.guards_leave_ne _ hne) ?_⟩
    show (s.lock.waiting.filter fun entry => entry.1 ≠ j) = _
    rw [h.waiting, List.filter_append, List.filter_cons_of_pos (by simpa using hne)]

/-- A late task stays late, and is answered only when it needs no guard. -/
theorem Late.step {i j : ℕ} {before after : List (ℕ × Mode)} {s s' : System W C V α R} {e : Event V O}
    {answers : V → α → Prop} (hprogram : ∀ v, Lockless (answers v) (program v) ∨ Asks (program v))
    (hlate : Late answers before j s) (h : Stalled i before after s)
    (hstep : Moves P perform program s e s') : Late answers before j s' := by
  have hupdate : ∀ {j' : ℕ} {new : Option (V × Task C R α)},
      (j' = j → ∀ v p, new = some (v, p) → Lockless (answers v) p ∨ Asks p) →
        ∀ v p, Function.update s.task j' new j = some (v, p) → Lockless (answers v) p ∨ Asks p := by
    intro j' new hnew v p htask
    by_cases hj : j' = j
    · subst hj
      rw [Function.update_self] at htask
      exact hnew rfl v p htask
    · rw [Function.update_of_ne (Ne.symm hj)] at htask
      exact hlate.task htask
  cases hstep with
  | @arrive j' v hfree hnew =>
    refine ⟨hlate.answered, hlate.behind, @hupdate _ _ ?_⟩
    intro _ v' p hp
    cases hp
    exact hprogram v
  | @finish j' o v a htask =>
    refine ⟨?_, hlate.behind, @hupdate _ _ ?_⟩
    · intro v' a' hanswer
      by_cases hj : j' = j
      · subst hj
        have hanswer : Function.update s.answer j' (some (v, a)) j' = some (v', a') := hanswer
        rw [Function.update_self] at hanswer
        cases hanswer
        rcases hlate.task htask with hret | ⟨m, k, hasks⟩
        · exact hret
        · cases hasks
      · have hanswer : Function.update s.answer j' (some (v, a)) j = some (v', a') := hanswer
        rw [Function.update_of_ne (Ne.symm hj)] at hanswer
        exact hlate.answered hanswer
    · intro _ v' p hp
      cases hp
  | ask htask hnot => exact ⟨hlate.answered, hlate.behind, hlate.task⟩
  | @take j' o v m k htask hwaits hgrants =>
    refine ⟨hlate.answered, hlate.behind, @hupdate _ _ ?_⟩
    intro hj
    rw [hj] at hgrants
    exact absurd (h.mem_of_grants hgrants) (hlate.behind m)
  | @release j' o v m k htask =>
    refine ⟨hlate.answered, hlate.behind, @hupdate _ _ ?_⟩
    intro hj
    rw [hj] at htask
    rcases hlate.task htask with hnone | ⟨m', k', hasks⟩
    · exact hnone.elim
    · cases hasks
  | @call j' o v c k htask =>
    refine ⟨hlate.answered, hlate.behind, @hupdate _ _ ?_⟩
    intro hj v' p hp
    cases hp
    rw [hj] at htask
    rcases hlate.task htask with hrest | ⟨m', k', hasks⟩
    · exact Or.inl (hrest _)
    · cases hasks
  | @leave j' =>
    refine ⟨hlate.answered, hlate.behind, @hupdate _ _ ?_⟩
    intro _ v p hp
    cases hp

/-- **A task that waits for itself.**  Unless it is given up it waits for ever, and the late tasks are
answered only when they need no guard. -/
theorem Stalled.of_reaches {i : ℕ} {before after : List (ℕ × Mode)} {start s : System W C V α R}
    {answers : V → α → Prop} (hprogram : ∀ v, Lockless (answers v) (program v) ∨ Asks (program v))
    (hstart : Stalled i before after start)
    (h : Reaches (RwLock.step P perform program) (fun _ e => e ≠ .leave i) start s) :
    ∃ before' after', Stalled i before' after' s ∧
      ∀ j, Late answers before j start → Late answers before' j s := by
  induction h with
  | start => exact ⟨before, after, hstart, fun _ hlate => hlate⟩
  | step _ hstays hstep ih =>
    obtain ⟨front, back, hstalled, hlates⟩ := ih
    have hmoves := step_eq_some.mp hstep
    obtain ⟨front', back', hsub, hstalled'⟩ := hstalled.step hmoves hstays
    refine ⟨front', back', hstalled', ?_⟩
    intro j hlate
    have hnext := (hlates j hlate).step hprogram hstalled hmoves
    exact ⟨hnext.answered, fun m hmem => hnext.behind m (hsub hmem), hnext.task⟩

end

/-! ### Tasks that want to write and hold a guard already -/

/-- Who asks to write holds a guard, and who holds no guard to write leaves the world. -/
structure Nested (rules : Rules C) (perform : W → (c : C) → O → R c × W) : Prop where
  holds {gs : List Mode} : rules.acquires gs .write → gs ≠ []
  leaves {gs : List Mode} {c : C} (w : W) (o : O) : rules.calls gs c → .write ∉ gs → (perform w c o).2 = w

/-- The world is this one, and no writer is in. -/
structure Shared (w : W) (s : System W C V α R) : Prop where
  world : s.world = w
  readers {guard : ℕ × Mode} : guard ∈ s.lock.held → guard.2 = .read

/-- In a world that stays, whatever the calls meet: the task ends with one of these answers, unless it gets
to writing, and it gets there only under the condition. -/
def UpToWriting (perform : W → (c : C) → O → R c × W) (allowed : O → Prop) (w : W) (ended : α → Prop)
    (writing : Prop) : Task C R α → Prop
  | .ret a => ended a
  | .call (.acquire .read) k => UpToWriting perform allowed w ended writing (k ())
  | .call (.acquire .write) _ => writing
  | .call (.release _) k => UpToWriting perform allowed w ended writing (k ())
  | .call (.call c) k =>
    ∀ o, allowed o → UpToWriting perform allowed w ended writing (k (perform w c o).1)

theorem UpToWriting.imp {perform : W → (c : C) → O → R c × W} {allowed : O → Prop} {w : W}
    {ended ended' : α → Prop} {writing : Prop} {p : Task C R α}
    (hp : UpToWriting perform allowed w ended writing p) (himp : ∀ a, ended a → ended' a) :
    UpToWriting perform allowed w ended' writing p := by
  induction p with
  | ret a => exact himp a hp
  | call act k ih =>
    cases act with
    | acquire m =>
      cases m with
      | read => exact ih () hp
      | write => exact hp
    | release m => exact ih () hp
    | call c => exact fun o ho => ih _ (hp o ho)

theorem UpToWriting.bind {β : Type} {perform : W → (c : C) → O → R c × W} {allowed : O → Prop} {w : W}
    {mid : α → Prop} {ended : β → Prop} {writing : Prop} {p : Task C R α} {f : α → Task C R β}
    (hp : UpToWriting perform allowed w mid writing p)
    (hf : ∀ a, mid a → UpToWriting perform allowed w ended writing (f a)) :
    UpToWriting perform allowed w ended writing (p.bind f) := by
  induction p with
  | ret a => exact hf a hp
  | call act k ih =>
    cases act with
    | acquire m =>
      cases m with
      | read => exact ih () hp
      | write => exact hp
    | release m => exact ih () hp
    | call c => exact fun o ho => ih _ (hp o ho)

/-- Every task in flight ends so or gets to writing under its condition, and every answer is such an end. -/
structure Foreseen (perform : W → (c : C) → O → R c × W) (allowed : O → Prop) (w : W)
    (ended : V → α → Prop) (writing : V → Prop) (s : System W C V α R) : Prop where
  task {i : ℕ} {v : V} {p : Task C R α} : s.task i = some (v, p) →
    UpToWriting perform allowed w (ended v) (writing v) p
  answer {i : ℕ} {v : V} {a : α} : s.answer i = some (v, a) → ended v a

/-- The outcome that the event meets is one of these. -/
def Event.Meets (allowed : O → Prop) : Event V O → Prop
  | poll _ o => allowed o
  | _ => True

section

variable {P : Policy} {perform : W → (c : C) → O → R c × W} {program : V → Task C R α}
  {rules : Rules C}

theorem Shared.step {w : W} {s s' : System W C V α R} {e : Event V O} (hnested : Nested rules perform)
    (horderly : Orderly rules s) (h : Shared w s) (hstep : Moves P perform program s e s') :
    Shared w s' := by
  cases hstep with
  | arrive hfree hnew => exact ⟨h.world, h.readers⟩
  | finish htask => exact ⟨h.world, h.readers⟩
  | ask htask hnot => exact ⟨h.world, h.readers⟩
  | @take i o v m k htask hwaits hgrants =>
    refine ⟨h.world, ?_⟩
    intro guard hmem
    rcases List.mem_cons.mp hmem with hnew | hold
    · rw [hnew]
      cases m with
      | read => rfl
      | write =>
        have hguards := hnested.holds (horderly.follows htask).1
        have hfree := P.fits hgrants
        rw [Lock.free_write_of_guards hguards] at hfree
        cases hfree
    · exact h.readers hold
  | release htask => exact ⟨h.world, fun hmem => h.readers (List.mem_of_mem_erase hmem)⟩
  | @call i o v c k htask =>
    refine ⟨?_, h.readers⟩
    have hreads : Mode.write ∉ s.lock.guards i := by
      intro hmem
      cases h.readers (Lock.mem_guards.mp hmem)
    show (perform s.world c o).2 = w
    rw [hnested.leaves s.world o (horderly.follows htask).1 hreads]
    exact h.world
  | leave => exact ⟨h.world, fun hmem => h.readers (List.mem_filter.mp hmem).1⟩

/-- A task alone changes. -/
theorem Foreseen.update {allowed : O → Prop} {w : W} {ended : V → α → Prop} {writing : V → Prop}
    {s : System W C V α R} (h : Foreseen perform allowed w ended writing s) {i : ℕ}
    {new : Option (V × Task C R α)}
    (hnew : ∀ v p, new = some (v, p) → UpToWriting perform allowed w (ended v) (writing v) p) {w' : W}
    {l : Lock} : Foreseen perform allowed w ended writing
      (⟨w', l, Function.update s.task i new, s.answer⟩ : System W C V α R) where
  task {j v p} htask := by
    have htask : Function.update s.task i new j = some (v, p) := htask
    by_cases hj : j = i
    · rw [hj, Function.update_self] at htask
      exact hnew v p htask
    · rw [Function.update_of_ne hj] at htask
      exact h.task htask
  answer := h.answer

theorem Foreseen.step {allowed : O → Prop} {w : W} {ended : V → α → Prop} {writing : V → Prop}
    {s s' : System W C V α R} {e : Event V O}
    (hprogram : ∀ v, UpToWriting perform allowed w (ended v) (writing v) (program v))
    (hshared : Shared w s) (hshared' : Shared w s') (h : Foreseen perform allowed w ended writing s)
    (hmeets : e.Meets allowed) (hstep : Moves P perform program s e s') :
    Foreseen perform allowed w ended writing s' := by
  cases hstep with
  | @arrive i v hfree hnew =>
    refine h.update ?_
    intro v' p hp
    cases hp
    exact hprogram v
  | @finish i o v a htask =>
    refine ⟨(@Foreseen.update _ _ _ _ _ _ _ _ _ _ _ _ h i none (fun _ _ hp => by cases hp) w s.lock).task, ?_⟩
    intro j v' a' hanswer
    have hanswer : Function.update s.answer i (some (v, a)) j = some (v', a') := hanswer
    by_cases hj : j = i
    · rw [hj, Function.update_self] at hanswer
      cases hanswer
      exact h.task htask
    · rw [Function.update_of_ne hj] at hanswer
      exact h.answer hanswer
  | ask htask hnot => exact ⟨h.task, h.answer⟩
  | @take i o v m k htask hwaits hgrants =>
    have hread : m = .read := hshared'.readers (List.mem_cons_self : (i, m) ∈ (i, m) :: s.lock.held)
    subst hread
    have hrest := h.task htask
    refine h.update ?_
    intro v' p hp
    cases hp
    exact hrest
  | @release i o v m k htask =>
    have hrest := h.task htask
    refine h.update ?_
    intro v' p hp
    cases hp
    exact hrest
  | @call i o v c k htask =>
    refine h.update ?_
    intro v' p hp
    cases hp
    rw [hshared.world]
    exact h.task htask o hmeets
  | leave =>
    refine h.update ?_
    intro v p hp
    cases hp

/-- **Nobody writes.**  Where every writer holds a guard already, the world stays as it was, and what is
foreseen of every task alone is so in every run. -/
theorem shared_of_reaches {allowed : O → Prop} {w : W} {ended : V → α → Prop} {writing : V → Prop}
    (hnested : Nested rules perform) (hfollows : ∀ v, Follows rules [] [] (program v))
    (hprogram : ∀ v, UpToWriting perform allowed w (ended v) (writing v) (program v))
    {start s : System W C V α R} (horderly : Orderly rules start) (hshared : Shared w start)
    (hforeseen : Foreseen perform allowed w ended writing start)
    (h : Reaches (step P perform program) (fun _ e => e.Meets allowed) start s) :
    Orderly rules s ∧ Shared w s ∧ Foreseen perform allowed w ended writing s := by
  induction h with
  | start => exact ⟨horderly, hshared, hforeseen⟩
  | step _ hmeets hstep ih =>
    obtain ⟨horderly, hshared, hforeseen⟩ := ih
    have hmoves := step_eq_some.mp hstep
    have hshared' := hshared.step hnested horderly hmoves
    exact ⟨horderly.step hfollows hmoves, hshared',
      hforeseen.step hprogram hshared hshared' hmeets hmoves⟩

theorem Foreseen.idle {allowed : O → Prop} {w : W} {ended : V → α → Prop} {writing : V → Prop} :
    Foreseen perform allowed w ended writing (System.idle w : System W C V α R) where
  task h := by cases h
  answer h := by cases h

theorem Shared.idle (w : W) : Shared w (System.idle w : System W C V α R) where
  world := rfl
  readers h := by cases h

end

/-! ### Bringing all tasks to an end -/

/-- One act less. -/
def Rest (q p : Task C R α) : Prop := ∃ act k r, p = .call act k ∧ q = k r

theorem wellFounded_rest : WellFounded (Rest : Task C R α → Task C R α → Prop) := by
  refine ⟨fun p => ?_⟩
  induction p with
  | ret a =>
    refine Acc.intro _ ?_
    intro q h
    obtain ⟨act, k, r, hp, -⟩ := h
    cases hp
  | call act k ih =>
    refine Acc.intro _ ?_
    intro q h
    obtain ⟨act', k', r, hp, hq⟩ := h
    cases hp
    rw [hq]
    exact ih r

/-- What the task has still to do. -/
def pending : Option (V × Task C R α) → Multiset (Task C R α)
  | none => 0
  | some t => {t.2}

/-- What these tasks have still to do. -/
def System.pending (ids : Finset ℕ) (s : System W C V α R) : Multiset (Task C R α) :=
  ∑ i ∈ ids, RwLock.pending (s.task i)

/-- One task is one act further, or has ended. -/
structure Advances (s s' : System W C V α R) : Prop where
  advanced : ∃ i v p new, s.task i = some (v, p) ∧ s'.task = Function.update s.task i new ∧
    ∀ v' q, new = some (v', q) → Rest q p

/-- An advance makes what is pending smaller. -/
theorem Advances.pending_lt {s s' : System W C V α R} (h : Advances s s') {ids : Finset ℕ}
    (hids : ∀ i, s.task i ≠ none → i ∈ ids) :
    Relation.CutExpand Rest (s'.pending ids) (s.pending ids) := by
  obtain ⟨i, v, p, new, htask, htask', hrest⟩ := h.advanced
  have hi : i ∈ ids := by
    refine hids i ?_
    rw [htask]
    exact Option.some_ne_none _
  have hother : ∑ j ∈ ids.erase i, RwLock.pending (s'.task j) =
      ∑ j ∈ ids.erase i, RwLock.pending (s.task j) := by
    refine Finset.sum_congr rfl ?_
    intro j hj
    rw [htask', Function.update_of_ne (Finset.ne_of_mem_erase hj)]
  have hbefore : s.pending ids = {p} + ∑ j ∈ ids.erase i, RwLock.pending (s.task j) := by
    rw [System.pending, ← Finset.add_sum_erase ids _ hi, htask]
    rfl
  have hafter : s'.pending ids = RwLock.pending new + ∑ j ∈ ids.erase i, RwLock.pending (s.task j) := by
    rw [System.pending, ← Finset.add_sum_erase ids _ hi, hother, htask', Function.update_self]
  refine ⟨RwLock.pending new, p, ?_, ?_⟩
  · intro q hq
    cases new with
    | none => cases hq
    | some t =>
      obtain ⟨v', q'⟩ := t
      rw [Multiset.mem_singleton.mp hq]
      exact hrest v' q' rfl
  · rw [hbefore, hafter]
    abel

theorem Advances.mem {s s' : System W C V α R} (h : Advances s s') {ids : Finset ℕ}
    (hids : ∀ i, s.task i ≠ none → i ∈ ids) : ∀ i, s'.task i ≠ none → i ∈ ids := by
  intro j hj
  obtain ⟨i, v, p, new, htask, htask', -⟩ := h.advanced
  by_cases hij : j = i
  · refine hids j ?_
    rw [hij, htask]
    exact Option.some_ne_none _
  · rw [htask', Function.update_of_ne hij] at hj
    exact hids j hj

/-- A task of the system goes on, and meets one of these outcomes. -/
def Event.Polls (allowed : O → Prop) (e : Event V O) : Prop := ∃ i o, e = .poll i o ∧ allowed o

section

variable (P : Policy) (perform : W → (c : C) → O → R c × W) (program : V → Task C R α)
  (allowed : O → Prop)

/-- Without anyone new and without anyone leaving, all tasks in flight can be answered. -/
def Drains (s : System W C V α R) : Prop :=
  ∃ s', Reaches (step P perform program) (fun _ e => e.Polls allowed) s s' ∧
    (∀ i, s'.task i = none) ∧ ∀ i v p, s.task i = some (v, p) → ∃ a, s'.answer i = some (v, a)

variable {P perform program allowed}

/-- The task is in flight, or has been answered. -/
def Known (i : ℕ) (v : V) (s : System W C V α R) : Prop :=
  (∃ p, s.task i = some (v, p)) ∨ (s.task i = none ∧ ∃ a, s.answer i = some (v, a))

theorem Known.step {i j : ℕ} {v : V} {o : O} {s s' : System W C V α R} (h : Known i v s)
    (hstep : Moves P perform program s (.poll j o) s') : Known i v s' := by
  have hupdate : ∀ {v' : V} {p q : Task C R α} {w : W} {l : Lock}, s.task j = some (v', p) →
      Known i v (⟨w, l, Function.update s.task j (some (v', q)), s.answer⟩ : System W C V α R) := by
    intro v' p q w l htask
    by_cases hij : i = j
    · subst hij
      rcases h with ⟨p', hp⟩ | ⟨hnone, -⟩
      · cases htask.symm.trans hp
        exact Or.inl ⟨q, Function.update_self _ _ _⟩
      · cases htask.symm.trans hnone
    · rcases h with ⟨p', hp⟩ | ⟨hnone, hanswer⟩
      · exact Or.inl ⟨p', (Function.update_of_ne hij _ _).trans hp⟩
      · exact Or.inr ⟨(Function.update_of_ne hij _ _).trans hnone, hanswer⟩
  cases hstep with
  | @finish _ _ v' a htask =>
    by_cases hij : i = j
    · subst hij
      rcases h with ⟨p, hp⟩ | ⟨hnone, -⟩
      · cases htask.symm.trans hp
        exact Or.inr ⟨Function.update_self _ _ _, a, Function.update_self _ _ _⟩
      · cases htask.symm.trans hnone
    · rcases h with ⟨p, hp⟩ | ⟨hnone, a', hanswer⟩
      · exact Or.inl ⟨p, (Function.update_of_ne hij _ _).trans hp⟩
      · exact Or.inr ⟨(Function.update_of_ne hij _ _).trans hnone, a',
          (Function.update_of_ne hij _ _).trans hanswer⟩
  | ask htask hnot => exact h
  | take htask hwaits hgrants => exact hupdate htask
  | release htask => exact hupdate htask
  | call htask => exact hupdate htask

theorem Known.of_polls {i : ℕ} {v : V} {s s' : System W C V α R} (h : Known i v s)
    (hpolls : Reaches (RwLock.step P perform program) (fun _ e => e.Polls allowed) s s') :
    Known i v s' := by
  refine hpolls.invariant h ?_
  intro s e s' he hknown hstep
  obtain ⟨j, o, rfl, -⟩ := he
  exact Known.step hknown (step_eq_some.mp hstep)

/-- **Progress is enough.**  Where some task can always go on, all can be brought to an end. -/
theorem drains_of_progress {inv : System W C V α R → Prop}
    (hkeep : ∀ s i o s', allowed o → inv s → Moves P perform program s (.poll i o) s' → inv s')
    (hprogress : ∀ s, inv s → (∃ i, s.task i ≠ none) →
      ∃ s', Reaches (step P perform program) (fun _ e => e.Polls allowed) s s' ∧ Advances s s')
    {s : System W C V α R} (hinv : inv s) {ids : Finset ℕ} (hids : ∀ i, s.task i ≠ none → i ∈ ids) :
    Drains P perform program allowed s := by
  have hends : ∃ s', Reaches (step P perform program) (fun _ e => e.Polls allowed) s s' ∧
      ∀ i, s'.task i = none := by
    -- what is pending becomes smaller with every advance
    induction hpending : s.pending ids using wellFounded_rest.cutExpand.induction generalizing s with
    | _ pending ih =>
      by_cases hnone : ∀ i, s.task i = none
      · exact ⟨s, .start, hnone⟩
      · obtain ⟨s₁, hreaches, hadvances⟩ := hprogress s hinv (not_forall.mp hnone)
        have hinv₁ : inv s₁ := by
          refine hreaches.invariant hinv ?_
          intro s e s' he hinv hstep
          obtain ⟨i, o, rfl, ho⟩ := he
          exact hkeep s i o s' ho hinv (step_eq_some.mp hstep)
        obtain ⟨s', hreaches', hdone⟩ :=
          ih _ (hpending ▸ hadvances.pending_lt hids) hinv₁ (hadvances.mem hids) rfl
        exact ⟨s', hreaches.trans hreaches', hdone⟩
  obtain ⟨s', hreaches, hdone⟩ := hends
  refine ⟨s', hreaches, hdone, ?_⟩
  intro i v p htask
  rcases Known.of_polls (Or.inl ⟨p, htask⟩ : Known i v s) hreaches with ⟨q, hq⟩ | ⟨-, hanswer⟩
  · cases (hdone i).symm.trans hq
  · exact hanswer

/-- A task advances when it asks for no guard, or for one that is free with nobody in front. -/
theorem exists_advance {s : System W C V α R} {i : ℕ} {v : V} {p : Task C R α} {o : O}
    (htask : s.task i = some (v, p)) (ho : allowed o)
    (hlock : ∀ m k, p = .call (.acquire m) k → s.lock.free m = true ∧
      (s.lock.waiting = [] ∨ ∃ rest, s.lock.waiting = (i, m) :: rest)) :
    ∃ s', Reaches (step P perform program) (fun _ e => e.Polls allowed) s s' ∧ Advances s s' := by
  have hpoll : (Event.poll i o : Event V O).Polls allowed := ⟨i, o, rfl, ho⟩
  cases p with
  | ret a =>
    refine ⟨_, Reaches.start.next (.poll i o) hpoll (step_eq_some.mpr (.finish htask)), ?_⟩
    exact ⟨i, v, .ret a, none, htask, rfl, fun _ _ hnone => by cases hnone⟩
  | call act k =>
    have hrest : ∀ r v' q, some (v, k r) = some (v', q) → Rest q (.call act k) := by
      intro r v' q hq
      cases hq
      exact ⟨act, k, r, rfl, rfl⟩
    cases act with
    | acquire m =>
      obtain ⟨hfree, hwaiting⟩ := hlock m k rfl
      rcases hwaiting with hnil | ⟨rest, hfirst⟩
      · -- nobody waits: the task asks, and is the first
        have hnot : (i, m) ∉ s.lock.waiting := by
          rw [hnil]
          exact List.not_mem_nil
        have hwaiting : (s.lock.ask i m).waiting = [(i, m)] := by
          show s.lock.waiting ++ [(i, m)] = _
          rw [hnil, List.nil_append]
        have hmoves : Moves P perform program s (.poll i o) { s with lock := s.lock.ask i m } :=
          .ask htask hnot
        have hasked : Reaches (step P perform program) (fun _ e => e.Polls allowed) s
            { s with lock := s.lock.ask i m } :=
          Reaches.start.next (.poll i o) hpoll (step_eq_some.mpr hmoves)
        refine ⟨_, hasked.next (.poll i o) hpoll (step_eq_some.mpr (.take htask ?_ ?_)), ?_⟩
        · rw [hwaiting]
          exact List.mem_cons_self
        · exact P.prompt hwaiting hfree
        · exact ⟨i, v, _, _, htask, rfl, hrest ()⟩
      · refine ⟨_, Reaches.start.next (.poll i o) hpoll (step_eq_some.mpr (.take htask ?_ ?_)), ?_⟩
        · rw [hfirst]
          exact List.mem_cons_self
        · exact P.prompt hfirst hfree
        · exact ⟨i, v, _, _, htask, rfl, hrest ()⟩
    | release m =>
      refine ⟨_, Reaches.start.next (.poll i o) hpoll (step_eq_some.mpr (.release htask)), ?_⟩
      exact ⟨i, v, _, _, htask, rfl, hrest ()⟩
    | call c =>
      refine ⟨_, Reaches.start.next (.poll i o) hpoll (step_eq_some.mpr (.call htask)), ?_⟩
      exact ⟨i, v, _, _, htask, rfl, hrest _⟩

/-- The tasks in flight are finitely many. -/
theorem exists_ids {guard : System W C V α R → Event V O → Prop} {w : W} {s : System W C V α R}
    (h : Reaches (step P perform program) guard (.idle w) s) :
    ∃ ids : Finset ℕ, ∀ i, s.task i ≠ none → i ∈ ids := by
  have hupdate : ∀ {s : System W C V α R} {j : ℕ} {new : Option (V × Task C R α)},
      (∃ ids : Finset ℕ, ∀ i, s.task i ≠ none → i ∈ ids) →
        ∃ ids : Finset ℕ, ∀ i, Function.update s.task j new i ≠ none → i ∈ ids := by
    intro s j new hids
    obtain ⟨ids, hids⟩ := hids
    refine ⟨insert j ids, ?_⟩
    intro i hi
    by_cases hij : i = j
    · rw [hij]
      exact Finset.mem_insert_self j ids
    · rw [Function.update_of_ne hij] at hi
      exact Finset.mem_insert_of_mem (hids i hi)
  induction h with
  | start => exact ⟨∅, fun i hi => absurd rfl hi⟩
  | step _ _ hstep ih =>
    cases step_eq_some.mp hstep with
    | arrive hfree hnew => exact hupdate ih
    | finish htask => exact hupdate ih
    | ask htask hnot => exact ih
    | take htask hwaits hgrants => exact hupdate ih
    | release htask => exact hupdate ih
    | call htask => exact hupdate ih
    | leave => exact hupdate ih

end

/-! ### When all tasks can be brought to an end -/

section

variable {P : Policy} {perform : W → (c : C) → O → R c × W} {program : V → Task C R α}
  {allowed : O → Prop} {rules : Rules C}

/-- Who goes on was in flight. -/
theorem Moves.of_poll {s s' : System W C V α R} {i j : ℕ} {v : V} {o : O} {q : Task C R α}
    (hstep : Moves P perform program s (.poll j o) s') (htask : s'.task i = some (v, q)) :
    ∃ p, s.task i = some (v, p) := by
  have hupdate : ∀ {v' : V} {p q' : Task C R α}, s.task j = some (v', p) →
      Function.update s.task j (some (v', q')) i = some (v, q) → ∃ p, s.task i = some (v, p) := by
    intro v' p q' hold hnew
    by_cases hij : i = j
    · subst hij
      rw [Function.update_self] at hnew
      cases hnew
      exact ⟨p, hold⟩
    · rw [Function.update_of_ne hij] at hnew
      exact ⟨q, hnew⟩
  cases hstep with
  | @finish _ _ v' a hold =>
    have hnew : Function.update s.task j none i = some (v, q) := htask
    by_cases hij : i = j
    · rw [hij, Function.update_self] at hnew
      cases hnew
    · rw [Function.update_of_ne hij] at hnew
      exact ⟨q, hnew⟩
  | ask hold hnot => exact ⟨q, htask⟩
  | take hold hwaits hgrants => exact hupdate hold htask
  | release hold => exact hupdate hold htask
  | call hold => exact hupdate hold htask

/-- The first of those that wait goes on when its guard is free; when nobody waits, anyone does. -/
theorem Orderly.exists_advance {s : System W C V α R} {o : O} (h : Orderly rules s) (ho : allowed o)
    (hinflight : ∃ i, s.task i ≠ none)
    (hfree : ∀ i v m k, s.task i = some (v, .call (.acquire m) k) → s.lock.free m = true) :
    ∃ s', Reaches (RwLock.step P perform program) (fun _ e => e.Polls allowed) s s' ∧
      Advances s s' := by
  cases hwaiting : s.lock.waiting with
  | nil =>
    obtain ⟨i, hi⟩ := hinflight
    obtain ⟨⟨v, p⟩, htask⟩ := Option.ne_none_iff_exists'.mp hi
    refine RwLock.exists_advance htask ho ?_
    intro m k hp
    rw [hp] at htask
    exact ⟨hfree i v m k htask, Or.inl hwaiting⟩
  | cons first rest =>
    obtain ⟨i, m⟩ := first
    obtain ⟨v, k, htask⟩ := h.queued (hwaiting ▸ List.mem_cons_self : (i, m) ∈ s.lock.waiting)
    refine RwLock.exists_advance htask ho ?_
    intro m' k' hp
    cases hp
    exact ⟨hfree i v m k htask, Or.inr ⟨rest, hwaiting⟩⟩

/-- **Without nesting nothing gets stuck.**  Where nobody who holds a guard asks for another one, all tasks
can be brought to an end. -/
theorem drains_of_flat {o : O} (hflat : ∀ gs m, rules.acquires gs m → gs = [])
    (hfollows : ∀ v, Follows rules [] [] (program v)) (ho : allowed o) {w : W} {s : System W C V α R}
    {guard : System W C V α R → Event V O → Prop}
    (h : Reaches (step P perform program) guard (.idle w) s) : Drains P perform program allowed s := by
  obtain ⟨ids, hids⟩ := exists_ids h
  have horderly : Orderly rules s := Orderly.of_reaches hfollows (.idle rules w) h
  refine drains_of_progress (fun s i o s' _ hinv hstep => Orderly.step hfollows hinv hstep) ?_ horderly hids
  intro s hinv hinflight
  cases hheld : s.lock.held with
  | nil => exact hinv.exists_advance ho hinflight fun _ _ m _ _ => Lock.free_of_held_nil hheld m
  | cons first others =>
    -- whoever holds a guard asks for none
    obtain ⟨i, m⟩ := first
    have hguards : s.lock.guards i ≠ [] := by
      refine List.ne_nil_of_mem (Lock.mem_guards.mpr ?_ : m ∈ s.lock.guards i)
      rw [hheld]
      exact List.mem_cons_self
    obtain ⟨⟨v, p⟩, htask⟩ := Option.ne_none_iff_exists'.mp fun hnone => hguards (hinv.gone hnone)
    refine RwLock.exists_advance htask ho ?_
    intro m' k hp
    rw [hp] at htask
    exact absurd (hflat _ m' (hinv.follows htask).1) hguards

/-- **With nesting, nobody may want to write.**  Where every writer holds a guard already, all tasks in
flight can be brought to an end if and only if none of them gets to writing. -/
theorem drains_iff_of_nested {w : W} {ended : V → α → Prop} {writing : V → Prop} {o : O}
    (hnested : Nested rules perform) (hfollows : ∀ v, Follows rules [] [] (program v))
    (hprogram : ∀ v, UpToWriting perform allowed w (ended v) (writing v) (program v))
    (hended : ∀ v a, writing v → ¬ ended v a) (ho : allowed o) {s : System W C V α R}
    (h : Reaches (step P perform program) (fun _ e => e.Meets allowed) (.idle w) s) :
    Drains P perform program allowed s ↔ ∀ i v p, s.task i = some (v, p) → ¬ writing v := by
  have hof : ∀ {s}, Reaches (step P perform program) (fun _ e => e.Meets allowed) (.idle w) s →
      Orderly rules s ∧ Shared w s ∧ Foreseen perform allowed w ended writing s :=
    shared_of_reaches hnested hfollows hprogram (.idle rules w) (.idle w) .idle
  constructor
  · intro hdrains i v p htask hwriting
    obtain ⟨s', hreaches, -, hanswered⟩ := hdrains
    obtain ⟨a, hanswer⟩ := hanswered i v p htask
    have hmeets : Reaches (step P perform program) (fun _ e => e.Meets allowed) s s' := by
      refine hreaches.imp ?_
      intro _ e he
      obtain ⟨j, o, rfl, ho⟩ := he
      exact ho
    exact hended v a hwriting ((hof (h.trans hmeets)).2.2.answer hanswer)
  · intro hnone
    obtain ⟨ids, hids⟩ := exists_ids h
    obtain ⟨horderly, hshared, hforeseen⟩ := hof h
    let inv (s : System W C V α R) : Prop :=
      (Orderly rules s ∧ Shared w s ∧ Foreseen perform allowed w ended writing s) ∧
        ∀ i v p, s.task i = some (v, p) → ¬ writing v
    have hkeep : ∀ s i o s', allowed o → inv s → Moves P perform program s (.poll i o) s' → inv s' := by
      intro s i o s' ho hinv hstep
      obtain ⟨⟨horderly, hshared, hforeseen⟩, hnone⟩ := hinv
      have hshared' := hshared.step hnested horderly hstep
      have hmeets : (Event.poll i o : Event V O).Meets allowed := ho
      refine ⟨⟨horderly.step hfollows hstep, hshared',
        hforeseen.step hprogram hshared hshared' hmeets hstep⟩, ?_⟩
      intro j v q hq
      obtain ⟨p, hp⟩ := hstep.of_poll hq
      exact hnone j v p hp
    have hinv : inv s := ⟨⟨horderly, hshared, hforeseen⟩, hnone⟩
    refine drains_of_progress hkeep ?_ hinv hids
    intro s hinv hinflight
    obtain ⟨⟨horderly, hshared, hforeseen⟩, hnone⟩ := hinv
    refine horderly.exists_advance ho hinflight ?_
    intro i v m k htask
    cases m with
    | read => exact Lock.free_read_of fun guard hmem => hshared.readers hmem
    | write => exact absurd (hforeseen.task htask) (hnone i v _ htask)

end

end RwLock
