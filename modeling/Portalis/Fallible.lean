import Mathlib

/-!
# Traversals that can fail

`List.mapM` in `Except`: the traversal succeeds exactly when every element does, element by element,
and otherwise fails with the error of one of them.
-/

namespace Fallible

variable {ε α β : Type} (f : α → Except ε β)

/-- A sequence of two steps succeeds when both do. -/
theorem bind_eq_ok {x : Except ε α} {y : β} : x >>= f = .ok y ↔ ∃ a, x = .ok a ∧ f a = .ok y := by
  cases x with
  | error e =>
    constructor
    · intro h; cases h
    · intro h
      obtain ⟨a, ha, -⟩ := h
      cases ha
  | ok a =>
    constructor
    · intro h
      exact ⟨a, rfl, h⟩
    · intro h
      obtain ⟨b, hb, hf⟩ := h
      cases hb
      exact hf

theorem mapM_cons (x : α) (xs : List α) :
    (x :: xs).mapM f = (f x).bind fun y => (xs.mapM f).bind fun ys => .ok (y :: ys) := by
  rw [List.mapM_cons]; rfl

theorem mapM_eq_ok_iff {xs : List α} : ∀ {ys : List β}, xs.mapM f = .ok ys ↔
    List.Forall₂ (fun x y => f x = .ok y) xs ys := by
  induction xs with
  | nil =>
    intro ys
    rw [List.mapM_nil, List.forall₂_nil_left_iff]
    exact ⟨fun h => (Except.ok.inj h).symm, fun h => congrArg Except.ok h.symm⟩
  | cons x xs ih =>
    intro ys
    rw [mapM_cons, List.forall₂_cons_left_iff]
    cases hx : f x with
    | error e =>
      constructor
      · intro h; cases h
      · rintro ⟨y, _, hy, -⟩; cases hy
    | ok y =>
      cases hxs : xs.mapM f with
      | error e =>
        constructor
        · intro h; cases h
        · rintro ⟨_, ys', -, hys, -⟩
          rw [← ih, hxs] at hys
          cases hys
      | ok ys' =>
        constructor
        · intro h
          cases h
          exact ⟨y, ys', rfl, ih.mp hxs, rfl⟩
        · rintro ⟨_, zs, hy, hzs, rfl⟩
          cases hy
          rw [← ih, hxs] at hzs
          cases hzs
          rfl

theorem length_of_mapM_eq_ok {xs : List α} {ys : List β} (h : xs.mapM f = .ok ys) :
    ys.length = xs.length :=
  ((mapM_eq_ok_iff f).mp h).length_eq.symm

/-- What a traversal yields, some element does. -/
theorem exists_of_mem_result {xs : List α} {ys : List β} (h : xs.mapM f = .ok ys) {y : β}
    (hy : y ∈ ys) : ∃ x ∈ xs, f x = .ok y := by
  have hall := (mapM_eq_ok_iff f).mp h
  clear h
  induction hall with
  | nil => cases hy
  | cons hxy _ ih =>
    rcases List.mem_cons.mp hy with heq | htail
    · rw [heq]
      exact ⟨_, List.mem_cons_self, hxy⟩
    · obtain ⟨x, hx, hfx⟩ := ih htail
      exact ⟨x, List.mem_cons_of_mem _ hx, hfx⟩

/-- Lists whose lengths are known, one after the other. -/
theorem length_flatten_of_mapM_eq_ok {γ : Type} {g : α → Except ε (List γ)} {size : α → ℕ}
    (hsize : ∀ x ys, g x = .ok ys → ys.length = size x) {xs : List α} {out : List (List γ)}
    (h : xs.mapM g = .ok out) : out.flatten.length = (xs.map size).sum := by
  have hall := (mapM_eq_ok_iff g).mp h
  clear h
  induction hall with
  | nil => rfl
  | cons hxy _ ih =>
    rw [List.flatten_cons, List.length_append, hsize _ _ hxy, ih, List.map_cons, List.sum_cons]

/-- Traversals that agree element by element. -/
theorem mapM_congr {g : α → Except ε β} {xs : List α} (h : ∀ x ∈ xs, f x = g x) :
    xs.mapM f = xs.mapM g := by
  induction xs with
  | nil => rfl
  | cons x xs ih =>
    rw [mapM_cons, mapM_cons, h x List.mem_cons_self,
      ih fun y hy => h y (List.mem_cons_of_mem x hy)]

/-- A traversal whose elements succeed is a map. -/
theorem mapM_eq_ok {xs : List α} {g : α → β} (h : ∀ x ∈ xs, f x = .ok (g x)) :
    xs.mapM f = .ok (xs.map g) := by
  induction xs with
  | nil => rfl
  | cons x xs ih =>
    rw [mapM_cons, h x List.mem_cons_self, ih fun y hy => h y (List.mem_cons_of_mem x hy)]
    rfl

/-- A traversal that fails, fails with the error of some element. -/
theorem exists_of_mapM_eq_error {xs : List α} {e : ε} (h : xs.mapM f = .error e) :
    ∃ x ∈ xs, f x = .error e := by
  induction xs with
  | nil => cases h
  | cons x xs ih =>
    rw [mapM_cons] at h
    cases hx : f x with
    | error e' =>
      rw [hx] at h
      cases h
      exact ⟨x, List.mem_cons_self, hx⟩
    | ok y =>
      rw [hx] at h
      cases hxs : xs.mapM f with
      | error e' =>
        rw [hxs] at h
        cases h
        obtain ⟨z, hz, hfz⟩ := ih hxs
        exact ⟨z, List.mem_cons_of_mem x hz, hfz⟩
      | ok ys => rw [hxs] at h; cases h

/-- In a traversal that succeeds every element does. -/
theorem exists_of_mem_of_mapM_eq_ok {xs : List α} {ys : List β} (h : xs.mapM f = .ok ys) {x : α}
    (hx : x ∈ xs) : ∃ y ∈ ys, f x = .ok y := by
  have hall := (mapM_eq_ok_iff f).mp h
  clear h
  induction hall with
  | nil => cases hx
  | cons hxy _ ih =>
    rcases List.mem_cons.mp hx with rfl | hx
    · exact ⟨_, List.mem_cons_self, hxy⟩
    · obtain ⟨y, hy, hfy⟩ := ih hx
      exact ⟨y, List.mem_cons_of_mem _ hy, hfy⟩

/-- A traversal with one error to offer fails with it. -/
theorem mapM_eq_error {xs : List α} {e : ε} (hall : ∀ x ∈ xs, ∀ e', f x = .error e' → e' = e)
    {x : α} (hx : x ∈ xs) (hfx : f x = .error e) : xs.mapM f = .error e := by
  cases hrun : xs.mapM f with
  | error e' =>
    obtain ⟨y, hy, hfy⟩ := exists_of_mapM_eq_error f hrun
    rw [hall y hy e' hfy]
  | ok ys =>
    obtain ⟨y, -, hfy⟩ := exists_of_mem_of_mapM_eq_ok f hrun hx
    rw [hfx] at hfy
    cases hfy

end Fallible
