import Mathlib

/-!
# Tallies

Finite maps filled by one pass over a list: each element may name a key, and what the map holds there is
updated with the element.  The map at a key is the fold over the elements of that key alone, so a tally
does not depend on how elements of different keys are interleaved.

* `lookup_tally`: the tally at a key.
* `lookup_insertAll`: a map filled by plain insertion holds the last element of each key.
-/

namespace Tally

variable {α κ β : Type} [DecidableEq κ]

/-- Update the entry at `k`, starting from `b` when there is none. -/
def upsert (m : Finmap fun _ : κ => β) (k : κ) (b : β) (f : β → β) : Finmap fun _ : κ => β :=
  m.insert k (f ((m.lookup k).getD b))

variable (key : α → Option κ) (b : β) (g : β → α → β)

def tallyStep (m : Finmap fun _ : κ => β) (x : α) : Finmap fun _ : κ => β :=
  match key x with
  | none => m
  | some k => upsert m k b fun v => g v x

def tally (xs : List α) : Finmap fun _ : κ => β := xs.foldl (tallyStep key b g) ∅

/-- The elements that name `k`. -/
def ofKey (k : κ) (xs : List α) : List α := xs.filter fun x => key x = some k

theorem ofKey_append (k : κ) (xs ys : List α) :
    ofKey key k (xs ++ ys) = ofKey key k xs ++ ofKey key k ys :=
  List.filter_append _ _

/-- **The tally at a key** is the fold over the elements of that key. -/
theorem lookup_tally (xs : List α) (k : κ) :
    (tally key b g xs).lookup k =
      if ofKey key k xs = [] then none else some ((ofKey key k xs).foldl g b) := by
  induction xs using List.reverseRecOn with
  | nil => simp [tally, ofKey]
  | append_singleton xs x ih =>
    have hstep : tally key b g (xs ++ [x]) = tallyStep key b g (tally key b g xs) x := by
      simp [tally]
    rw [hstep, ofKey_append, tallyStep]
    cases hx : key x with
    | none => simpa [ofKey, hx] using ih
    | some k' =>
      by_cases hk : k' = k
      · subst hk
        have hval : ((tally key b g xs).lookup k').getD b = (ofKey key k' xs).foldl g b := by
          rw [ih]
          split
          · rename_i hnil
            simp [hnil]
          · rfl
        have hone : ofKey key k' [x] = [x] := by simp [ofKey, hx]
        rw [hone, if_neg (by simp), List.foldl_append]
        simp only [upsert, Finmap.lookup_insert, hval, List.foldl_cons, List.foldl_nil]
      · have hnone : ofKey key k [x] = [] := by simp [ofKey, hx, hk]
        simp only [hnone, List.append_nil, upsert]
        rw [Finmap.lookup_insert_of_ne _ (Ne.symm hk), ih]

/-! ### Plain insertion -/

variable (name : α → κ) (val : α → β)

def insertAll (m : Finmap fun _ : κ => β) (xs : List α) : Finmap fun _ : κ => β :=
  xs.foldl (fun m x => m.insert (name x) (val x)) m

/-- The last element of a key is the one the map keeps. -/
theorem lookup_insertAll (xs : List α) (k : κ) : ∀ m : Finmap fun _ : κ => β,
    (insertAll name val m xs).lookup k =
      match (xs.filter fun x => name x = k).getLast? with
      | some x => some (val x)
      | none => m.lookup k := by
  induction xs using List.reverseRecOn with
  | nil => intro m; rfl
  | append_singleton xs x ih =>
    intro m
    have hstep : insertAll name val m (xs ++ [x]) =
        (insertAll name val m xs).insert (name x) (val x) := by
      simp [insertAll]
    rw [hstep, List.filter_append]
    by_cases hk : name x = k
    · subst hk
      simp
    · rw [Finmap.lookup_insert_of_ne _ (Ne.symm hk), ih m]
      simp [hk]

/-! ### Entries -/

/-- The entries of a finite map are its lookups. -/
theorem mem_entries_iff (m : Finmap fun _ : κ => β) (k : κ) (v : β) :
    (⟨k, v⟩ : Sigma fun _ : κ => β) ∈ m.entries ↔ m.lookup k = some v := by
  induction m using Finmap.induction_on with
  | H a => exact AList.mem_lookup_iff.symm

end Tally
