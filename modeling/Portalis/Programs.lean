import Mathlib

/-!
# Programs that share a world

Programs over an interface of calls, alone and interleaved.  A program returns or makes a call and
goes on with the answer; a pool advances its programs one call at a time, in any order.  A
discipline names what of the world matters (`view`), the condition on it to keep (`good`), the calls
that open a critical section (`enters`) and the outcomes that are assumed (`allowed`).

* `Program.run_bind`: one program after another.  `Program.run_congr`: outcomes that agree on the calls a
  program can make.
* `Program.Triple`: pre- and postconditions, with a rule for each way a program begins.
* `Settles`: alone, the program ends in a good view whatever it meets.
* `Idle`: until it enters, the program does not touch the view, and entering in a good view it settles.
* `Reaches.invariant`: invariants over runs.
* `Sound.step`, `Sound.of_reaches`: if a program enters only when no other has entered, then the
  view is good whenever no program has entered.
-/

namespace Programs

/-- It returns, or makes a call and goes on with the answer. -/
inductive Program (C : Type) (R : C → Type) (α : Type)
  | ret (a : α)
  | call (c : C) (k : R c → Program C R α)

variable {C : Type} {R : C → Type} {W O V α : Type}

/-! ### Runs -/

section

variable {S E : Type} (step : S → E → Option S)

/-- The states that steps under `guard` lead to. -/
inductive Reaches (guard : S → E → Prop) (start : S) : S → Prop
  | start : Reaches guard start start
  | step {s s' : S} {e : E} : Reaches guard start s → guard s e → step s e = some s' →
      Reaches guard start s'

/-- The steps of a schedule, one after the other. -/
def runAll (s : S) : List E → Option S
  | [] => some s
  | e :: es => (step s e).bind fun s => runAll s es

variable {step}

/-- What every guarded step keeps holds in every state reached. -/
theorem Reaches.invariant {guard : S → E → Prop} {inv : S → Prop} {start s : S}
    (hstart : inv start) (hstep : ∀ s e s', guard s e → inv s → step s e = some s' → inv s')
    (h : Reaches step guard start s) : inv s := by
  induction h with
  | start => exact hstart
  | step _ hguard hrun ih => exact hstep _ _ _ hguard ih hrun

/-- One more step, by a given event. -/
theorem Reaches.next {guard : S → E → Prop} {start s s' : S} (h : Reaches step guard start s) (e : E)
    (hguard : guard s e) (hstep : step s e = some s') : Reaches step guard start s' :=
  h.step hguard hstep

theorem Reaches.trans {guard : S → E → Prop} {start s s' : S} (h : Reaches step guard start s)
    (h' : Reaches step guard s s') : Reaches step guard start s' := by
  induction h' with
  | start => exact h
  | step _ hguard hrun ih => exact ih.step hguard hrun

theorem Reaches.imp {guard guard' : S → E → Prop} {start s : S}
    (himp : ∀ s e, guard s e → guard' s e) (h : Reaches step guard start s) :
    Reaches step guard' start s := by
  induction h with
  | start => exact .start
  | step _ hguard hrun ih => exact ih.step (himp _ _ hguard) hrun

/-- A schedule whose events satisfy the guard in whatever state. -/
theorem Reaches.of_runAll {guard : S → E → Prop} {es : List E} : ∀ {start s s' : S},
    Reaches step guard start s → (∀ s, ∀ e ∈ es, guard s e) → runAll step s es = some s' →
      Reaches step guard start s' := by
  induction es with
  | nil =>
    intro start s s' h _ hrun
    cases hrun
    exact h
  | cons e es ih =>
    intro start s s' h hguard hrun
    obtain ⟨mid, hstep, hrest⟩ := Option.bind_eq_some_iff.mp hrun
    exact ih (h.step (hguard s e List.mem_cons_self) hstep)
      (fun s e he => hguard s e (List.mem_cons_of_mem _ he)) hrest

end

/-! ### A program alone -/

namespace Program

/-- The program alone in the world, with one outcome for all its calls. -/
def run (perform : W → (c : C) → O → R c × W) (o : O) : Program C R α → W → α × W
  | .ret a, w => (a, w)
  | .call c k, w => run perform o (k (perform w c o).1) (perform w c o).2

/-- Every call the program makes alone, with one outcome, satisfies `P`. -/
def Makes (perform : W → (c : C) → O → R c × W) (P : W → C → Prop) (o : O) :
    Program C R α → W → Prop
  | .ret _, _ => True
  | .call c k, w => P w c ∧ Makes perform P o (k (perform w c o).1) (perform w c o).2

theorem Makes.call {perform : W → (c : C) → O → R c × W} {P : W → C → Prop} {o : O} {c : C} {w : W}
    {k : R c → Program C R α} (h : P w c)
    (hrest : Makes perform P o (k (perform w c o).1) (perform w c o).2) :
    Makes perform P o (.call c k) w :=
  ⟨h, hrest⟩

/-- One call, once its answer is known. -/
theorem run_call {perform : W → (c : C) → O → R c × W} {o : O} {c : C} {w w' : W} {a : R c}
    (h : perform w c o = (a, w')) (k : R c → Program C R α) :
    (Program.call c k).run perform o w = (k a).run perform o w' := by
  rw [run, h]

/-! #### Sequences -/

variable {β : Type}

/-- One program, and then another with its answer. -/
def bind : Program C R α → (α → Program C R β) → Program C R β
  | .ret a, f => f a
  | .call c k, f => .call c fun r => (k r).bind f

theorem run_bind (perform : W → (c : C) → O → R c × W) (o : O) (p : Program C R α)
    (f : α → Program C R β) (w : W) :
    (p.bind f).run perform o w =
      (f (p.run perform o w).1).run perform o (p.run perform o w).2 := by
  induction p generalizing w with
  | ret a => rfl
  | call c k ih => exact ih _ _

/-- Every call the program can make satisfies `P`. -/
def Only (P : C → Prop) : Program C R α → Prop
  | .ret _ => True
  | .call c k => P c ∧ ∀ r, Only P (k r)

theorem Only.imp {P Q : C → Prop} (himp : ∀ c, P c → Q c) {p : Program C R α} (h : p.Only P) :
    p.Only Q := by
  induction p with
  | ret a => trivial
  | call c k ih => exact ⟨himp c h.1, fun r => ih r (h.2 r)⟩

/-- What none of its calls changes, the program leaves. -/
theorem Only.run_keeps {perform : W → (c : C) → O → R c × W} {P : C → Prop} {o : O} {f : W → V}
    (hkeep : ∀ w c, P c → f (perform w c o).2 = f w) {p : Program C R α} (h : p.Only P) (w : W) :
    f (p.run perform o w).2 = f w := by
  induction p generalizing w with
  | ret a => rfl
  | call c k ih =>
    obtain ⟨hc, hrest⟩ := h
    exact (ih _ (hrest _) _).trans (hkeep w c hc)

/-- Outcomes that agree on the calls of a program give the same run. -/
theorem run_congr {perform : W → (c : C) → O → R c × W} {P : C → Prop} {o o' : O}
    (hsame : ∀ w c, P c → perform w c o = perform w c o') {p : Program C R α} (h : p.Only P)
    (w : W) : p.run perform o w = p.run perform o' w := by
  induction p generalizing w with
  | ret a => rfl
  | call c k ih =>
    obtain ⟨hc, hrest⟩ := h
    rw [run, run, hsame w c hc]
    exact ih _ (hrest _) _

/-! #### Pre- and postconditions -/

/-- From a world that satisfies `pre`, the program alone ends in an answer and a world that satisfy
`post`. -/
def Triple (perform : W → (c : C) → O → R c × W) (o : O) (pre : W → Prop) (p : Program C R α)
    (post : α → W → Prop) : Prop :=
  ∀ w, pre w → post (p.run perform o w).1 (p.run perform o w).2

section

variable {perform : W → (c : C) → O → R c × W} {o : O} {pre : W → Prop} {post : α → W → Prop}

theorem Triple.ret {a : α} (h : ∀ w, pre w → post a w) :
    Triple perform o pre (.ret a : Program C R α) post :=
  h

/-- A call leads from the precondition to a condition on its answer, from which the rest goes on. -/
theorem Triple.call {c : C} {k : R c → Program C R α} (mid : R c → W → Prop)
    (hcall : ∀ w, pre w → mid (perform w c o).1 (perform w c o).2)
    (hrest : ∀ r, Triple perform o (mid r) (k r) post) :
    Triple perform o pre (.call c k) post :=
  fun w hw => hrest _ _ (hcall w hw)

/-- A call that keeps the precondition. -/
theorem Triple.keep {c : C} {k : R c → Program C R α} (hcall : ∀ w, pre w → pre (perform w c o).2)
    (hrest : ∀ r, Triple perform o pre (k r) post) : Triple perform o pre (.call c k) post :=
  Triple.call (fun _ => pre) hcall hrest

end

/-- While every answer is as promised, every call is allowed, and so is the end. -/
def Heeds (allowed : C → Prop) (promised : (c : C) → R c → Prop) (post : α → Prop) :
    Program C R α → Prop
  | .ret a => post a
  | .call c k => allowed c ∧ ∀ r, promised c r → Heeds allowed promised post (k r)

/-- **Assumptions and guarantees.**  Where allowed calls keep an invariant and are answered as promised, a
program that heeds the promises keeps the invariant. -/
theorem Heeds.triple {perform : W → (c : C) → O → R c × W} {o : O} {inv : W → Prop}
    {allowed : C → Prop} {promised : (c : C) → R c → Prop} {post : α → Prop}
    (hcall : ∀ w c, inv w → allowed c → promised c (perform w c o).1 ∧ inv (perform w c o).2)
    {p : Program C R α} (h : p.Heeds allowed promised post) :
    Triple perform o inv p fun a w => post a ∧ inv w := by
  induction p with
  | ret a => exact Triple.ret fun w hw => ⟨h, hw⟩
  | call c k ih =>
    obtain ⟨hallowed, hrest⟩ := h
    intro w hw
    obtain ⟨hanswer, hafter⟩ := hcall w c hw hallowed
    exact ih _ (hrest _ hanswer) _ hafter

end Program

/-- What the programs of a pool have to respect, and what for. -/
structure Discipline (C : Type) (R : C → Type) (W O V : Type) where
  perform : W → (c : C) → O → R c × W
  view : W → V
  enters : C → Bool
  allowed : W → C → O → Prop
  good : V → Prop

namespace Discipline

variable (D : Discipline C R W O V)

/-- From every world with view `v` the program ends in a good view. -/
def Settles : Program C R α → V → Prop
  | .ret _, v => D.good v
  | .call c k, v => ∀ w o, D.view w = v → D.allowed w c o →
      Settles (k (D.perform w c o).1) (D.view (D.perform w c o).2)

/-- No call of the program touches the view. -/
def Quiet : Program C R α → Prop
  | .ret _ => True
  | .call c k => ∀ w o, D.view (D.perform w c o).2 = D.view w ∧ Quiet (k (D.perform w c o).1)

/-- No call touches the view before one that enters; from there, in a good view, the program settles. -/
def Idle : Program C R α → Prop
  | .ret _ => True
  | .call c k =>
    if D.enters c then ∀ v, D.good v → D.Settles (.call c k) v
    else ∀ w o, D.view (D.perform w c o).2 = D.view w ∧ Idle (k (D.perform w c o).1)

variable {D}

theorem Quiet.settles {p : Program C R α} {v : V} (h : D.Quiet p) (hv : D.good v) :
    D.Settles p v := by
  induction p with
  | ret a => exact hv
  | call c k ih =>
    intro w o hw _
    obtain ⟨hview, hrest⟩ := h w o
    rw [hview, hw]
    exact ih _ hrest

theorem Quiet.of_keep {c : C} {k : R c → Program C R α}
    (hkeep : ∀ w o, D.view (D.perform w c o).2 = D.view w) (h : ∀ a, D.Quiet (k a)) :
    D.Quiet (.call c k) :=
  fun w o => ⟨hkeep w o, h _⟩

/-- A call, once its answers are known. -/
theorem Settles.of_call {c : C} {k : R c → Program C R α} {v : V}
    (h : ∀ w o, D.view w = v → D.allowed w c o →
      ∃ a w', D.perform w c o = (a, w') ∧ D.Settles (k a) (D.view w')) :
    D.Settles (.call c k) v := by
  intro w o hw hallowed
  obtain ⟨a, w', hperform, hsettles⟩ := h w o hw hallowed
  rw [hperform]
  exact hsettles

/-- A call that keeps the view. -/
theorem Settles.of_keep {c : C} {k : R c → Program C R α} {v : V}
    (hkeep : ∀ w o, D.view (D.perform w c o).2 = D.view w) (h : ∀ a, D.Settles (k a) v) :
    D.Settles (.call c k) v := by
  intro w o hw _
  rw [hkeep, hw]
  exact h _

theorem Idle.of_keep {c : C} {k : R c → Program C R α} (henters : D.enters c = false)
    (hkeep : ∀ w o, D.view (D.perform w c o).2 = D.view w)
    (h : ∀ a, D.Idle (k a)) : D.Idle (.call c k) := by
  rw [Idle, if_neg (by simp [henters])]
  exact fun w o => ⟨hkeep w o, h _⟩

theorem Idle.of_enters {c : C} {k : R c → Program C R α} (henters : D.enters c = true)
    (h : ∀ v, D.good v → D.Settles (.call c k) v) : D.Idle (.call c k) := by
  rw [Idle, if_pos henters]
  exact h

end Discipline

/-! ### A pool -/

/-- A program in flight, and whether it has entered. -/
structure Running (C : Type) (R : C → Type) (α : Type) where
  entered : Bool
  program : Program C R α

/-- A program stays in flight until it returns. -/
def inFlight (entered : Bool) : Program C R α → Option (Running C R α)
  | .ret _ => none
  | .call c k => some ⟨entered, .call c k⟩

theorem inFlight_eq_some {entered : Bool} {p : Program C R α} {r : Running C R α}
    (h : inFlight entered p = some r) : r = ⟨entered, p⟩ := by
  cases p with
  | ret a => cases h
  | call c k => exact (Option.some.inj h).symm

/-- The world, and the programs in flight by the number of their request. -/
structure Pool (C : Type) (R : C → Type) (W α : Type) where
  world : W
  running : ℕ → Option (Running C R α)

inductive Event (C : Type) (R : C → Type) (W O α : Type)
  | arrive (i : ℕ) (p : Program C R α)
  | advance (i : ℕ) (o : O)
  | outside (w : W)

namespace Pool

/-- No program is in flight. -/
def Quiescent (s : Pool C R W α) : Prop := ∀ i, s.running i = none

/-- No program in flight has entered. -/
def Unentered (s : Pool C R W α) : Prop :=
  ∀ i r, s.running i = some r → r.entered = false

theorem Quiescent.unentered {s : Pool C R W α} (h : s.Quiescent) : s.Unentered := by
  intro i r hr
  rw [h i] at hr
  cases hr

/-- The next call of a request. -/
def next (s : Pool C R W α) (i : ℕ) : Option C :=
  match s.running i with
  | some ⟨_, .call c _⟩ => some c
  | _ => none

variable (D : Discipline C R W O V)

/-- One step: a request comes, makes its next call, or the world changes from outside. -/
def step (s : Pool C R W α) : Event C R W O α → Option (Pool C R W α)
  | .arrive i p =>
    match s.running i with
    | none => some { s with running := Function.update s.running i (inFlight false p) }
    | some _ => none
  | .advance i o =>
    match s.running i with
    | some ⟨entered, .call c k⟩ =>
      some ⟨(D.perform s.world c o).2, Function.update s.running i
        (inFlight (entered || D.enters c) (k (D.perform s.world c o).1))⟩
    | _ => none
  | .outside w => some { s with world := w }

/-- **What a step can do.** -/
theorem step_cases {s s' : Pool C R W α} {e : Event C R W O α} (h : s.step D e = some s') :
    (∃ i p, e = .arrive i p ∧
        s' = { s with running := Function.update s.running i (inFlight false p) }) ∨
      (∃ i o entered c k, e = .advance i o ∧ s.running i = some ⟨entered, .call c k⟩ ∧
        s' = ⟨(D.perform s.world c o).2, Function.update s.running i
          (inFlight (entered || D.enters c) (k (D.perform s.world c o).1))⟩) ∨
      ∃ w, e = .outside w ∧ s' = { s with world := w } := by
  cases e with
  | arrive i p =>
    rw [step] at h
    cases hi : s.running i with
    | none =>
      rw [hi] at h
      exact Or.inl ⟨i, p, rfl, (Option.some.inj h).symm⟩
    | some r =>
      rw [hi] at h
      cases h
  | advance i o =>
    rw [step] at h
    split at h
    · rename_i entered c k hi
      exact Or.inr (Or.inl ⟨i, o, entered, c, k, rfl, hi, (Option.some.inj h).symm⟩)
    · cases h
  | outside w => exact Or.inr (Or.inr ⟨w, rfl, (Option.some.inj h).symm⟩)

variable {D}

/-- **A request alone in the pool runs like its program alone.** -/
theorem reaches_alone {guard : Pool C R W α → Event C R W O α → Prop} {start : Pool C R W α}
    {i : ℕ} {o : O} {P : W → C → Prop} {p : Program C R α}
    (hguard : ∀ s c, s.next i = some c → (∀ j, j ≠ i → s.running j = none) → P s.world c →
      guard s (.advance i o)) :
    ∀ {s : Pool C R W α} {entered : Bool}, Reaches (step D) guard start s →
      s.running = Function.update (fun _ => none) i (inFlight entered p) →
      p.Makes D.perform P o s.world →
      Reaches (step D) guard start ⟨(p.run D.perform o s.world).2, fun _ => none⟩ := by
  induction p with
  | ret a =>
    intro s entered h hrunning _
    have hnone : s = ⟨s.world, fun _ => none⟩ := by
      rw [inFlight, Function.update_eq_self_iff.mpr rfl] at hrunning
      rw [← hrunning]
    exact hnone ▸ h
  | call c k ih =>
    rintro s entered h hrunning ⟨hP, hrest⟩
    have hi : s.running i = some ⟨entered, .call c k⟩ := by
      rw [hrunning, Function.update_self, inFlight]
    have hnext : s.next i = some c := by rw [next, hi]
    have hothers : ∀ j, j ≠ i → s.running j = none := by
      intro j hji
      rw [hrunning, Function.update_of_ne hji]
    have hstep : s.step D (.advance i o) = some ⟨(D.perform s.world c o).2,
        Function.update s.running i (inFlight (entered || D.enters c)
          (k (D.perform s.world c o).1))⟩ := by
      rw [Pool.step, hi]
    have hrunning' : Function.update s.running i (inFlight (entered || D.enters c)
        (k (D.perform s.world c o).1)) = Function.update (fun _ => none) i
          (inFlight (entered || D.enters c) (k (D.perform s.world c o).1)) := by
      rw [hrunning, Function.update_idem]
    exact ih _ (h.step (hguard s c hnext hothers hP) hstep) hrunning' hrest

/-! ### One critical section at a time -/

/-- Idle programs come, a program enters only when no other has entered, calls have allowed outcomes, and
nobody outside touches the view. -/
def Exclusive (D : Discipline C R W O V) (s : Pool C R W α) : Event C R W O α → Prop
  | .arrive _ p => D.Idle p
  | .advance i o => ∀ c ∈ s.next i, D.allowed s.world c o ∧
      (D.enters c = true → ∀ j, j ≠ i → ∀ r, s.running j = some r → r.entered = false)
  | .outside w => D.view w = D.view s.world

/-- At most one program has entered; it settles, and the others are idle.  When none has, the view is
good. -/
structure Sound (D : Discipline C R W O V) (s : Pool C R W α) : Prop where
  idle : ∀ i r, s.running i = some r → r.entered = false → D.Idle r.program
  settles : ∀ i r, s.running i = some r → r.entered = true →
    D.Settles r.program (D.view s.world) ∧
      ∀ j, j ≠ i → ∀ r', s.running j = some r' → r'.entered = false
  good : s.Unentered → D.good (D.view s.world)

/-- A pool with no program in flight. -/
theorem Sound.of_quiescent {s : Pool C R W α} (h : s.Quiescent) (hgood : D.good (D.view s.world)) :
    Sound D s where
  idle i r hr := by
    rw [h i] at hr
    cases hr
  settles i r hr := by
    rw [h i] at hr
    cases hr
  good _ := hgood

theorem running_update {s : Pool C R W α} {i j : ℕ} {new : Option (Running C R α)}
    {r : Running C R α} (h : Function.update s.running i new j = some r) :
    (j = i ∧ new = some r) ∨ (j ≠ i ∧ s.running j = some r) := by
  by_cases hji : j = i
  · rw [hji, Function.update_self] at h
    exact Or.inl ⟨hji, h⟩
  · rw [Function.update_of_ne hji] at h
    exact Or.inr ⟨hji, h⟩

theorem Sound.arrive {s : Pool C R W α} (h : Sound D s) {i : ℕ} {p : Program C R α}
    (hfree : s.running i = none) (hp : D.Idle p) :
    Sound D { s with running := Function.update s.running i (inFlight false p) } where
  idle j r hr hentered := by
    rcases running_update hr with ⟨-, hnew⟩ | ⟨-, hold⟩
    · rw [inFlight_eq_some hnew]
      exact hp
    · exact h.idle j r hold hentered
  settles j r hr hentered := by
    rcases running_update hr with ⟨-, hnew⟩ | ⟨hji, hold⟩
    · rw [inFlight_eq_some hnew] at hentered
      cases hentered
    · refine ⟨(h.settles j r hold hentered).1, fun l hl r' hr' => ?_⟩
      rcases running_update hr' with ⟨-, hnew⟩ | ⟨-, hold'⟩
      · rw [inFlight_eq_some hnew]
      · exact (h.settles j r hold hentered).2 l hl r' hold'
  good hnone := by
    refine h.good fun j r hr => hnone j r ?_
    have hji : j ≠ i := by
      rintro rfl
      rw [hfree] at hr
      cases hr
    exact (Function.update_of_ne hji _ _).trans hr

/-- **An entered program makes a call.** -/
theorem Sound.advance_entered {s : Pool C R W α} (h : Sound D s) {i : ℕ} {o : O} {c : C}
    {k : R c → Program C R α} {entered : Bool}
    (hi : s.running i = some ⟨entered, .call c k⟩)
    (hothers : ∀ j, j ≠ i → ∀ r, s.running j = some r → r.entered = false)
    (hsettles : D.Settles (k (D.perform s.world c o).1) (D.view (D.perform s.world c o).2)) :
    Sound D (⟨(D.perform s.world c o).2, Function.update s.running i
      (inFlight true (k (D.perform s.world c o).1))⟩ : Pool C R W α) where
  idle j r hr hentered := by
    rcases running_update hr with ⟨-, hnew⟩ | ⟨-, hold⟩
    · rw [inFlight_eq_some hnew] at hentered
      cases hentered
    · exact h.idle j r hold hentered
  settles j r hr hentered := by
    rcases running_update hr with ⟨rfl, hnew⟩ | ⟨hji, hold⟩
    · refine ⟨?_, fun l hl r' hr' => ?_⟩
      · rw [inFlight_eq_some hnew]
        exact hsettles
      · rcases running_update hr' with ⟨hlj, -⟩ | ⟨-, hold⟩
        · exact absurd hlj hl
        · exact hothers l hl r' hold
    · rw [hothers j hji r hold] at hentered
      cases hentered
  good hnone := by
    cases hk : k (D.perform s.world c o).1 with
    | ret a =>
      rw [hk] at hsettles
      exact hsettles
    | call c' k' =>
      have hself := hnone i ⟨true, .call c' k'⟩ (by
        show Function.update s.running i _ i = _
        rw [Function.update_self, hk, inFlight])
      cases hself

/-- **A program that has not entered makes a call that does not enter.** -/
theorem Sound.advance_idle {s : Pool C R W α} (h : Sound D s) {i : ℕ} {o : O} {c : C}
    {k : R c → Program C R α} (hi : s.running i = some ⟨false, .call c k⟩)
    (hview : D.view (D.perform s.world c o).2 = D.view s.world)
    (hidle : D.Idle (k (D.perform s.world c o).1)) :
    Sound D (⟨(D.perform s.world c o).2, Function.update s.running i
      (inFlight false (k (D.perform s.world c o).1))⟩ : Pool C R W α) where
  idle j r hr hentered := by
    rcases running_update hr with ⟨-, hnew⟩ | ⟨-, hold⟩
    · rw [inFlight_eq_some hnew]
      exact hidle
    · exact h.idle j r hold hentered
  settles j r hr hentered := by
    rcases running_update hr with ⟨-, hnew⟩ | ⟨hji, hold⟩
    · rw [inFlight_eq_some hnew] at hentered
      cases hentered
    · refine ⟨?_, fun l hl r' hr' => ?_⟩
      · show D.Settles r.program (D.view (D.perform s.world c o).2)
        rw [hview]
        exact (h.settles j r hold hentered).1
      · rcases running_update hr' with ⟨-, hnew⟩ | ⟨-, hold'⟩
        · rw [inFlight_eq_some hnew]
        · exact (h.settles j r hold hentered).2 l hl r' hold'
  good hnone := by
    show D.good (D.view (D.perform s.world c o).2)
    rw [hview]
    refine h.good fun j r hr => ?_
    by_cases hji : j = i
    · rw [hji, hi] at hr
      rw [← Option.some.inj hr]
    · exact hnone j r ((Function.update_of_ne hji _ _).trans hr)

/-- **The step lemma.** -/
theorem Sound.step {s s' : Pool C R W α} {e : Event C R W O α} (h : Sound D s)
    (hguard : Exclusive D s e) (hstep : s.step D e = some s') : Sound D s' := by
  rcases step_cases D hstep with ⟨i, p, rfl, rfl⟩ | ⟨i, o, entered, c, k, rfl, hi, rfl⟩ | ⟨w, rfl, rfl⟩
  · cases hfree : s.running i with
    | none => exact h.arrive hfree hguard
    | some r =>
      rw [Pool.step, hfree] at hstep
      cases hstep
  · have hnext : s.next i = some c := by rw [next, hi]
    obtain ⟨hallowed, halone⟩ := hguard c hnext
    cases entered with
    | true =>
      obtain ⟨hsettles, hothers⟩ := h.settles i _ hi rfl
      exact h.advance_entered hi hothers (hsettles s.world o rfl hallowed)
    | false =>
      have hidle : D.Idle (.call c k) := h.idle i _ hi rfl
      rw [Discipline.Idle] at hidle
      rw [Bool.false_or]
      cases henters : D.enters c with
      | true =>
        -- it enters: nobody else has, and before this call neither had it
        rw [if_pos henters] at hidle
        have hothers := halone henters
        have hgood := h.good fun j r hr => by
          by_cases hji : j = i
          · rw [hji, hi] at hr
            rw [← Option.some.inj hr]
          · exact hothers j hji r hr
        exact h.advance_entered hi hothers (hidle _ hgood s.world o rfl hallowed)
      | false =>
        rw [if_neg (by simp [henters])] at hidle
        obtain ⟨hview, hrest⟩ := hidle s.world o
        exact h.advance_idle hi hview hrest
  · exact ⟨h.idle, fun i r hr hentered => by
      rw [show D.view w = D.view s.world from hguard]
      exact h.settles i r hr hentered, fun hnone => by
      rw [show D.view w = D.view s.world from hguard]
      exact h.good hnone⟩

/-- **The run lemma.** -/
theorem Sound.of_reaches {start s : Pool C R W α} (hstart : Sound D start)
    (h : Reaches (Pool.step D) (Exclusive D) start s) : Sound D s :=
  h.invariant hstart fun _ _ _ hguard hsound hstep => hsound.step hguard hstep

end Pool

end Programs
