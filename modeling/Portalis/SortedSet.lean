import Mathlib

/-!
# Sorted sets

A set kept as the strictly increasing list of its elements, so that iteration is in order and every
element occurs once.  The invariant is a field: a value that breaks it cannot be built.  `insert`
answers, like the `insert` of an ordered-set container, whether the element is new.
-/

/-- A finite set, stored as a strictly increasing list. -/
structure SortedSet (α : Type*) [LinearOrder α] where
  toList : List α
  sorted : toList.Pairwise (· < ·)

namespace SortedSet

variable {α : Type*} [LinearOrder α]

/-- Insertion into a strictly increasing list. -/
def insertList (a : α) : List α → List α
  | [] => [a]
  | b :: bs => if a < b then a :: b :: bs else if a = b then b :: bs else b :: insertList a bs

theorem mem_insertList (a x : α) (l : List α) : x ∈ insertList a l ↔ x = a ∨ x ∈ l := by
  induction l with
  | nil => simp [insertList]
  | cons b bs ih =>
    rw [insertList]
    split
    · simp
    · split
      · rename_i h; simp [h]
      · rw [List.mem_cons, ih, List.mem_cons]; tauto

theorem insertList_sorted (a : α) {l : List α} (h : l.Pairwise (· < ·)) :
    (insertList a l).Pairwise (· < ·) := by
  induction l with
  | nil => simp [insertList]
  | cons b bs ih =>
    rw [List.pairwise_cons] at h
    rw [insertList]
    split
    · rename_i hab
      refine List.pairwise_cons.mpr ⟨fun x hx => ?_, List.pairwise_cons.mpr h⟩
      rcases List.mem_cons.mp hx with rfl | hx
      · exact hab
      · exact hab.trans (h.1 x hx)
    · split
      · exact List.pairwise_cons.mpr h
      · rename_i hab hne
        refine List.pairwise_cons.mpr ⟨fun x hx => ?_, ih h.2⟩
        rcases (mem_insertList a x bs).mp hx with rfl | hx
        · exact lt_of_le_of_ne (not_lt.mp hab) (Ne.symm hne)
        · exact h.1 x hx

instance : Membership α (SortedSet α) := ⟨fun s a => a ∈ s.toList⟩

instance (a : α) (s : SortedSet α) : Decidable (a ∈ s) :=
  inferInstanceAs (Decidable (a ∈ s.toList))

def empty : SortedSet α := ⟨[], List.Pairwise.nil⟩

def singleton (a : α) : SortedSet α := ⟨[a], List.pairwise_singleton _ _⟩

/-- Insert an element; the first component says whether it was absent. -/
def insert (s : SortedSet α) (a : α) : Bool × SortedSet α :=
  (decide (a ∉ s), ⟨insertList a s.toList, insertList_sorted a s.sorted⟩)

@[simp] theorem not_mem_empty (a : α) : a ∉ (empty : SortedSet α) :=
  List.not_mem_nil

@[simp] theorem mem_singleton {a b : α} : a ∈ singleton b ↔ a = b :=
  List.mem_singleton

@[simp] theorem mem_insert {s : SortedSet α} {a x : α} : x ∈ (s.insert a).2 ↔ x = a ∨ x ∈ s :=
  mem_insertList a x s.toList

@[simp] theorem insert_fst {s : SortedSet α} {a : α} : (s.insert a).1 = decide (a ∉ s) := rfl

end SortedSet

/-! ### Machine words as elements -/

instance instLinearOrderUInt16 : LinearOrder UInt16 where
  le_refl := UInt16.le_refl
  le_trans _ _ _ := UInt16.le_trans
  le_antisymm _ _ := UInt16.le_antisymm
  le_total := UInt16.le_total
  lt_iff_le_not_ge a b := by
    rw [UInt16.not_le]
    exact ⟨fun h => ⟨UInt16.le_of_lt h, h⟩, fun h => h.2⟩
  toDecidableLE := inferInstance
  toDecidableEq := inferInstance
  toDecidableLT := inferInstance
