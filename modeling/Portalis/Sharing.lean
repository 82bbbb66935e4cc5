import Portalis.Programs

/-!
# Processes that share a store

Processes that call a store, one call at a time and in any order.  A process is a state of a machine: it asks
for a call and goes on with the answer, or it is done.

* `step_cases`: what a step can do.
* `Separates`: what of the store one group of calls reads and writes, and the calls of others leave.
* `alone_of_reaches`: what a group of processes sees in a run with others, it sees in a run without them.
-/

namespace Sharing

open Programs

variable {σ C O W V : Type} {R : C → Type}

/-- The next call of a state and how it goes on, or nothing when it is done. -/
structure Machine (σ C : Type) (R : C → Type) where
  next : σ → Option ((c : C) × (R c → σ))

/-- The store, and the processes by their number. -/
structure System (W σ : Type) where
  store : W
  process : ℕ → Option σ

inductive Event (σ O : Type)
  | start (i : ℕ) (s : σ)
  | advance (i : ℕ) (o : O)

/-- The process that an event is about. -/
def Event.process : Event σ O → ℕ
  | start i _ => i
  | advance i _ => i

/-- A store without processes. -/
def System.idle (w : W) : System W σ := ⟨w, fun _ => none⟩

section

variable (M : Machine σ C R) (perform : W → (c : C) → O → R c × W)

/-- A process comes under a free number, or makes its next call. -/
def step (x : System W σ) : Event σ O → Option (System W σ)
  | .start i s =>
    match x.process i with
    | none => some { x with process := Function.update x.process i (some s) }
    | some _ => none
  | .advance i o =>
    match (x.process i).bind M.next with
    | some ⟨c, k⟩ =>
      some ⟨(perform x.store c o).2, Function.update x.process i (some (k (perform x.store c o).1))⟩
    | none => none

variable {M perform}

/-- **What a step can do.** -/
theorem step_cases {x x' : System W σ} {e : Event σ O} (h : step M perform x e = some x') :
    (∃ i s, e = .start i s ∧ x.process i = none ∧
        x' = { x with process := Function.update x.process i (some s) }) ∨
      ∃ i o s c k, e = .advance i o ∧ x.process i = some s ∧ M.next s = some ⟨c, k⟩ ∧
        x' = ⟨(perform x.store c o).2,
          Function.update x.process i (some (k (perform x.store c o).1))⟩ := by
  cases e with
  | start i s =>
    rw [step] at h
    split at h
    · next hfree => exact Or.inl ⟨i, s, rfl, hfree, (Option.some.inj h).symm⟩
    · cases h
  | advance i o =>
    rw [step] at h
    split at h
    · next c k hnext =>
      obtain ⟨s, hs, hcall⟩ := Option.bind_eq_some_iff.mp hnext
      exact Or.inr ⟨i, o, s, c, k, rfl, hs, hcall, (Option.some.inj h).symm⟩
    · cases h

theorem step_start {x : System W σ} {i : ℕ} {s : σ} (h : x.process i = none) :
    step M perform x (.start i s : Event σ O) =
      some { x with process := Function.update x.process i (some s) } := by
  rw [step, h]

theorem step_advance {x : System W σ} {i : ℕ} {s : σ} {o : O} {c : C} {k : R c → σ}
    (h : x.process i = some s) (hnext : M.next s = some ⟨c, k⟩) :
    step M perform x (.advance i o) = some ⟨(perform x.store c o).2,
      Function.update x.process i (some (k (perform x.store c o).1))⟩ := by
  rw [step, h, Option.bind_some, hnext]

theorem process_update {f : ℕ → Option σ} {i j : ℕ} {new : Option σ} {s : σ}
    (h : Function.update f i new j = some s) : (j = i ∧ new = some s) ∨ (j ≠ i ∧ f j = some s) := by
  by_cases hji : j = i
  · rw [hji, Function.update_self] at h
    exact Or.inl ⟨hji, h⟩
  · rw [Function.update_of_ne hji] at h
    exact Or.inr ⟨hji, h⟩

end

/-- A store and one process. -/
def System.single (w : W) (i : ℕ) (s : σ) : System W σ := ⟨w, Function.update (fun _ => none) i (some s)⟩

theorem System.single_self (w : W) (i : ℕ) (s : σ) : (single w i s).process i = some s := by
  show Function.update (fun _ => none) i (some s) i = some s
  rw [Function.update_self]

theorem System.eq_of_single {w : W} {i j : ℕ} {s t : σ} (h : (single w i s).process j = some t) : t = s := by
  have h : Function.update (fun _ => none) i (some s) j = some t := h
  rcases process_update h with ⟨-, hnew⟩ | ⟨-, hold⟩
  · exact (Option.some.inj hnew).symm
  · cases hold

/-- What each call of a process keeps of it and the store holds whenever it is alone. -/
theorem invariant_of_single {M : Machine σ C R} {perform : W → (c : C) → O → R c × W} {inv : W → σ → Prop}
    {w : W} {i : ℕ} {s : σ} (hstart : inv w s)
    (hcall : ∀ w s c k o, inv w s → M.next s = some ⟨c, k⟩ →
      inv (perform w c o).2 (k (perform w c o).1)) {x : System W σ}
    (h : Reaches (step M perform) (fun _ e => ∃ o, e = Event.advance i o) (.single w i s) x) :
    ∀ t, x.process i = some t → inv x.store t := by
  induction h with
  | start =>
    intro t ht
    rw [System.eq_of_single ht]
    exact hstart
  | step _ he hstep ih =>
    obtain ⟨o, rfl⟩ := he
    intro t ht
    rcases step_cases hstep with ⟨i', s, hstarts, -, -⟩ | ⟨i', o', s, c, k, hadvances, hs, hnext, rfl⟩
    · cases hstarts
    · cases hadvances
      rcases process_update ht with ⟨-, hnew⟩ | ⟨hne, -⟩
      · rw [← Option.some.inj hnew]
        exact hcall _ s c k o (ih s hs) hnext
      · exact absurd rfl hne

/-! ### What a process keeps to -/

/-- While its answers are as promised, a process makes allowed calls only. -/
def Machine.KeepsTo (M : Machine σ C R) (allowed : C → Prop) (promised : (c : C) → R c → Prop)
    (inv : σ → Prop) : Prop :=
  ∀ s c k, inv s → M.next s = some ⟨c, k⟩ → allowed c ∧ ∀ r, promised c r → inv (k r)

/-- `ours` read and write the store through the view only; `theirs` leave the view. -/
structure Separates (perform : W → (c : C) → O → R c × W) (view : W → V) (ours theirs : C → Prop) :
    Prop where
  answer : ∀ w w' c o, ours c → view w = view w' → (perform w c o).1 = (perform w' c o).1
  after : ∀ w w' c o, ours c → view w = view w' → view (perform w c o).2 = view (perform w' c o).2
  leaves : ∀ w c o, theirs c → view (perform w c o).2 = view w

/-- Two groups of processes: those of the one make its calls, and the others theirs. -/
structure Group (M : Machine σ C R) (perform : W → (c : C) → O → R c × W) (view : W → V) where
  member : ℕ → Prop
  ours : C → Prop
  theirs : C → Prop
  promised : (c : C) → R c → Prop
  own : σ → Prop
  other : σ → Prop
  keeps : ∀ w c o, promised c (perform w c o).1
  own_keeps : M.KeepsTo ours promised own
  other_keeps : M.KeepsTo theirs promised other
  separates : Separates perform view ours theirs

namespace Group

variable {M : Machine σ C R} {perform : W → (c : C) → O → R c × W} {view : W → V}
  (G : Group M perform view)

/-- A process is started as one of its group. -/
def Admits : Event σ O → Prop
  | .start i s => (G.member i → G.own s) ∧ (¬ G.member i → G.other s)
  | .advance _ _ => True

/-- Every process is one of its group. -/
def Sorted (x : System W σ) : Prop :=
  ∀ i s, x.process i = some s → (G.member i → G.own s) ∧ (¬ G.member i → G.other s)

variable {G}

theorem Sorted.step {x x' : System W σ} {e : Event σ O} (h : G.Sorted x) (hadmits : G.Admits e)
    (hstep : Sharing.step M perform x e = some x') : G.Sorted x' := by
  intro j t ht
  rcases step_cases hstep with ⟨i, s, rfl, -, rfl⟩ | ⟨i, o, s, c, k, rfl, hs, hnext, rfl⟩
  · rcases process_update ht with ⟨rfl, hnew⟩ | ⟨-, hold⟩
    · rw [← Option.some.inj hnew]
      exact hadmits
    · exact h j t hold
  · rcases process_update ht with ⟨rfl, hnew⟩ | ⟨-, hold⟩
    · have hpromised := G.keeps x.store c o
      rw [← Option.some.inj hnew]
      constructor
      · intro hmember
        exact (G.own_keeps s c k ((h j s hs).1 hmember) hnext).2 _ hpromised
      · intro hnot
        exact (G.other_keeps s c k ((h j s hs).2 hnot) hnext).2 _ hpromised
    · exact h j t hold

/-- The group alone: the same view, and the same processes of the group. -/
structure Mirrors (G : Group M perform view) (x y : System W σ) : Prop where
  view_eq : view x.store = view y.store
  process_eq : ∀ i, G.member i → x.process i = y.process i

theorem Mirrors.update {x y : System W σ} (h : Mirrors G x y) {w w' : W} {i : ℕ} {s : Option σ}
    (hview : view w = view w') :
    Mirrors G ⟨w, Function.update x.process i s⟩ ⟨w', Function.update y.process i s⟩ where
  view_eq := hview
  process_eq j hj := by
    show Function.update x.process i s j = Function.update y.process i s j
    by_cases hji : j = i
    · rw [hji, Function.update_self, Function.update_self]
    · rw [Function.update_of_ne hji, Function.update_of_ne hji]
      exact h.process_eq j hj

/-- A step of another process. -/
theorem Mirrors.other {x y : System W σ} (h : Mirrors G x y) {w : W} {i : ℕ} {s : Option σ}
    (hnot : ¬ G.member i) (hview : view w = view x.store) :
    Mirrors G ⟨w, Function.update x.process i s⟩ y where
  view_eq := hview.trans h.view_eq
  process_eq j hj := by
    have hji : j ≠ i := by
      intro hsame
      rw [hsame] at hj
      exact hnot hj
    exact (Function.update_of_ne hji _ _).trans (h.process_eq j hj)

/-- **The step lemma**: the group alone makes the same step, or none. -/
theorem Mirrors.step {x x' y : System W σ} {e : Event σ O} (h : Mirrors G x y) (hsorted : G.Sorted x)
    (hstep : Sharing.step M perform x e = some x') :
    (¬ G.member e.process ∧ Mirrors G x' y) ∨
      ∃ y', Sharing.step M perform y e = some y' ∧ G.member e.process ∧ Mirrors G x' y' := by
  rcases step_cases hstep with ⟨i, s, rfl, hfree, rfl⟩ | ⟨i, o, s, c, k, rfl, hs, hnext, rfl⟩
  · by_cases hmember : G.member i
    · refine Or.inr ⟨_, step_start ?_, hmember, h.update h.view_eq⟩
      rw [← h.process_eq i hmember]
      exact hfree
    · exact Or.inl ⟨hmember, h.other hmember rfl⟩
  · by_cases hmember : G.member i
    · have hours : G.ours c := (G.own_keeps s c k ((hsorted i s hs).1 hmember) hnext).1
      have hs' : y.process i = some s := by
        rw [← h.process_eq i hmember]
        exact hs
      refine Or.inr ⟨_, step_advance hs' hnext, hmember, ?_⟩
      rw [G.separates.answer x.store y.store c o hours h.view_eq]
      exact h.update (G.separates.after x.store y.store c o hours h.view_eq)
    · have htheirs : G.theirs c := (G.other_keeps s c k ((hsorted i s hs).2 hmember) hnext).1
      exact Or.inl ⟨hmember, h.other hmember (G.separates.leaves x.store c o htheirs)⟩

/-- **The run lemma**: what the group sees in a run with others, it sees in a run without them. -/
theorem alone_of_reaches {guard : Event σ O → Prop} {w : W} {x : System W σ}
    (hguard : ∀ e, guard e → G.Admits e)
    (h : Reaches (Sharing.step M perform) (fun _ => guard) (.idle w) x) :
    G.Sorted x ∧ ∃ y, Mirrors G x y ∧ Reaches (Sharing.step M perform)
      (fun _ e => guard e ∧ G.member e.process) (.idle w) y := by
  induction h with
  | start =>
    refine ⟨?_, .idle w, ⟨rfl, fun _ _ => rfl⟩, .start⟩
    intro i s hs
    cases hs
  | step _ he hstep ih =>
    obtain ⟨hsorted, y, hmirrors, hreaches⟩ := ih
    refine ⟨hsorted.step (hguard _ he) hstep, ?_⟩
    rcases hmirrors.step hsorted hstep with ⟨-, hsame⟩ | ⟨y', hy', hmember, hsame⟩
    · exact ⟨y, hsame, hreaches⟩
    · exact ⟨y', hsame, hreaches.step ⟨he, hmember⟩ hy'⟩

end Group

end Sharing
