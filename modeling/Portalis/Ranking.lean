import Mathlib

/-!
# The first of a ranking

A list in descending order of a key, and its first `k` elements.  Elements of one key may fall on both sides
of the cut; how many elements have a greater key, or one that is not smaller, says whether they do.

* `exists_mem_take_iff`, `exists_mem_drop_iff`: whether a key is found before the cut, or after it.
* `getElem?_rank`: where an element is.
* `le_of_mem_take_of_mem_drop`: what is before the cut ranks at least as high as what is after it.
-/

namespace Ranking

variable {α τ : Type} [LinearOrder τ]

/-- Stably sorted, the greatest key first. -/
def descending (key : α → τ) (l : List α) : List α := l.insertionSort fun a b => key b ≤ key a

variable {key : α → τ}

theorem pairwise_descending (key : α → τ) (l : List α) :
    (descending key l).Pairwise fun a b => key b ≤ key a := by
  have htotal : Std.Total fun a b : α => key b ≤ key a := ⟨fun a b => le_total (key b) (key a)⟩
  have htrans : IsTrans α fun a b => key b ≤ key a := ⟨fun a b c hab hbc => hbc.trans hab⟩
  exact List.pairwise_insertionSort _ l

theorem perm_descending (key : α → τ) (l : List α) : (descending key l).Perm l :=
  List.perm_insertionSort _ l

/-- A map that keeps the order of the keys keeps the ranking. -/
theorem descending_map {β σ : Type} [LinearOrder σ] {key' : β → σ} {f : α → β}
    (h : ∀ a b, key' (f b) ≤ key' (f a) ↔ key b ≤ key a) (l : List α) :
    descending key' (l.map f) = (descending key l).map f :=
  (List.map_insertionSort _ _ f l fun a _ b _ => (h a b).symm).symm

/-- It keeps the greatest, too. -/
theorem argmax_map {β σ : Type} [LinearOrder σ] {key' : β → σ} {f : α → β}
    (h : ∀ a b, key' (f a) < key' (f b) ↔ key a < key b) (l : List α) :
    (l.map f).argmax key' = (l.argmax key).map f := by
  induction l with
  | nil => rfl
  | cons a l ih =>
    rw [List.map_cons, List.argmax_cons, List.argmax_cons, ih]
    cases l.argmax key with
    | none => rfl
    | some c =>
      simp only [Option.map_some, h]
      split
      · rfl
      · rfl

/-- A list whose keys grow is ranked by turning it round. -/
theorem descending_eq_reverse {l : List α} (h : l.Pairwise fun a b => key a < key b) :
    descending key l = l.reverse := by
  induction l with
  | nil => rfl
  | cons a l ih =>
    obtain ⟨ha, hl⟩ := List.pairwise_cons.mp h
    have hall : ∀ b ∈ l.reverse, decide (¬ key b ≤ key a) = true := by
      intro b hb
      simpa using ha b (List.mem_reverse.mp hb)
    show (descending key l).orderedInsert (fun a b => key b ≤ key a) a = _
    rw [ih hl, List.orderedInsert_eq_take_drop, List.takeWhile_eq_self_iff.mpr hall,
      List.dropWhile_eq_nil_iff.mpr hall, List.reverse_cons]

/-- **The cut respects the order.** -/
theorem le_of_mem_take_of_mem_drop {l : List α} (h : l.Pairwise fun a b => key b ≤ key a) {k : ℕ}
    {a b : α} (ha : a ∈ l.take k) (hb : b ∈ l.drop k) : key b ≤ key a := by
  have hsplit := h
  rw [← List.take_append_drop k l, List.pairwise_append] at hsplit
  exact hsplit.2.2 a ha b hb

omit [LinearOrder τ] in
/-- A key that the head does not have is looked for in the tail. -/
theorem exists_mem_cons_of_ne {c : α} {l : List α} {v : τ} (h : key c ≠ v) :
    (∃ a ∈ c :: l, key a = v) ↔ ∃ a ∈ l, key a = v := by
  constructor
  · intro hexists
    obtain ⟨a, ha, hav⟩ := hexists
    rcases List.mem_cons.mp ha with hac | hal
    · rw [hac] at hav
      exact absurd hav h
    · exact ⟨a, hal, hav⟩
  · intro hexists
    obtain ⟨a, ha, hav⟩ := hexists
    exact ⟨a, List.mem_cons_of_mem c ha, hav⟩

/-- **A key before the cut**: fewer than `k` elements have a greater one. -/
theorem exists_mem_take_iff {l : List α} (h : l.Pairwise fun a b => key b ≤ key a) {v : τ}
    (hv : ∃ a ∈ l, key a = v) (k : ℕ) :
    (∃ a ∈ l.take k, key a = v) ↔ l.countP (fun a => v < key a) < k := by
  induction l generalizing k with
  | nil =>
    obtain ⟨a, ha, -⟩ := hv
    cases ha
  | cons c l ih =>
    obtain ⟨hc, hl⟩ := List.pairwise_cons.mp h
    cases k with
    | zero =>
      rw [List.take_zero]
      refine iff_of_false ?_ (Nat.not_lt_zero _)
      intro hexists
      obtain ⟨a, ha, -⟩ := hexists
      cases ha
    | succ k =>
      rw [List.take_succ_cons]
      by_cases hsame : key c = v
      · -- the head has the key, and nothing has a greater one
        have hnone : (c :: l).countP (fun a => v < key a) = 0 := by
          rw [List.countP_eq_zero]
          intro a ha
          rcases List.mem_cons.mp ha with hac | hal
          · simp [hac, hsame]
          · simpa [← hsame] using hc a hal
        rw [hnone]
        exact iff_of_true ⟨c, List.mem_cons_self, hsame⟩ (Nat.succ_pos k)
      · have htail : ∃ a ∈ l, key a = v := (exists_mem_cons_of_ne hsame).mp hv
        have hgreater : v < key c := by
          obtain ⟨a, ha, hav⟩ := htail
          exact lt_of_le_of_ne (hav ▸ hc a ha) fun heq => hsame heq.symm
        have hcount : (c :: l).countP (fun a => v < key a) = l.countP (fun a => v < key a) + 1 :=
          List.countP_cons_of_pos (by simpa using hgreater)
        rw [hcount, Nat.add_lt_add_iff_right, ← ih hl htail k]
        exact exists_mem_cons_of_ne hsame

/-- **A key after the cut**: more than `k` elements have it or a greater one. -/
theorem exists_mem_drop_iff {l : List α} (h : l.Pairwise fun a b => key b ≤ key a) {v : τ}
    (hv : ∃ a ∈ l, key a = v) (k : ℕ) :
    (∃ a ∈ l.drop k, key a = v) ↔ k < l.countP fun a => v ≤ key a := by
  induction l generalizing k with
  | nil =>
    obtain ⟨a, ha, -⟩ := hv
    cases ha
  | cons c l ih =>
    obtain ⟨hc, hl⟩ := List.pairwise_cons.mp h
    have hhead : v ≤ key c := by
      obtain ⟨a, ha, hav⟩ := hv
      rcases List.mem_cons.mp ha with hac | hal
      · rw [← hav, hac]
      · exact hav ▸ hc a hal
    have hcount : ((c :: l).countP fun a => v ≤ key a) = (l.countP fun a => v ≤ key a) + 1 :=
      List.countP_cons_of_pos (by simpa using hhead)
    rw [hcount]
    cases k with
    | zero =>
      rw [List.drop_zero]
      exact iff_of_true hv (Nat.succ_pos _)
    | succ k =>
      rw [List.drop_succ_cons, Nat.add_lt_add_iff_right]
      by_cases htail : ∃ a ∈ l, key a = v
      · exact ih hl htail k
      · -- the head is the only one that has it, and none of the others reaches it
        have hnone : (l.countP fun a => v ≤ key a) = 0 := by
          rw [List.countP_eq_zero]
          intro a ha hreaches
          have hcv : key c = v := by
            obtain ⟨b, hb, hbv⟩ := hv
            rcases List.mem_cons.mp hb with hbc | hbl
            · rw [← hbv, hbc]
            · exact absurd ⟨b, hbl, hbv⟩ htail
          exact htail ⟨a, ha, le_antisymm (hcv ▸ hc a ha) (of_decide_eq_true hreaches)⟩
        rw [hnone]
        refine iff_of_false ?_ (Nat.not_lt_zero k)
        intro hexists
        obtain ⟨a, ha, hav⟩ := hexists
        exact htail ⟨a, List.mem_of_mem_drop ha, hav⟩

/-! ### The place of an element -/

/-- How many elements have a greater key, or the same one and come before in the list. -/
def rank [DecidableEq α] (key : α → τ) (l : List α) (a : α) : ℕ :=
  l.countP (fun b => key a < key b) + (l.takeWhile fun b => b ≠ a).countP fun b => key b = key a

theorem orderedInsert_skip {b c : α} (h : ¬ key b ≤ key c) {l : List α} :
    (b :: l).orderedInsert (fun a b => key b ≤ key a) c =
      b :: l.orderedInsert (fun a b => key b ≤ key a) c :=
  List.orderedInsert_of_not_le _ _ h

/-- An element is inserted before those that it does not rank below. -/
theorem orderedInsert_before {c a : α} (h : key a ≤ key c) (before after : List α) :
    ∃ before', (before ++ a :: after).orderedInsert (fun a b => key b ≤ key a) c = before' ++ a :: after ∧
      before'.length = before.length + 1 := by
  induction before with
  | nil => exact ⟨[c], List.orderedInsert_cons_of_le _ _ h, rfl⟩
  | cons b before ih =>
    by_cases hbc : key b ≤ key c
    · exact ⟨c :: b :: before, List.orderedInsert_cons_of_le _ _ hbc, rfl⟩
    · obtain ⟨before', hinsert, hlength⟩ := ih
      refine ⟨b :: before', ?_, congrArg Nat.succ hlength⟩
      rw [List.cons_append, orderedInsert_skip hbc, hinsert, List.cons_append]

/-- An element is inserted after those that it ranks below. -/
theorem orderedInsert_after {c a : α} (h : key c < key a) {before : List α}
    (hbefore : ∀ b ∈ before, key a ≤ key b) (after : List α) :
    ∃ after', (before ++ a :: after).orderedInsert (fun a b => key b ≤ key a) c =
      before ++ a :: after' := by
  induction before with
  | nil => exact ⟨_, List.orderedInsert_of_not_le _ _ (not_le.mpr h)⟩
  | cons b before ih =>
    have hbc : ¬ key b ≤ key c := not_le.mpr (h.trans_le (hbefore b List.mem_cons_self))
    obtain ⟨after', hinsert⟩ := ih fun d hd => hbefore d (List.mem_cons_of_mem b hd)
    refine ⟨after', ?_⟩
    rw [List.cons_append, orderedInsert_skip hbc, hinsert, List.cons_append]

/-- The elements of a greater key come first. -/
theorem length_takeWhile_greater {l : List α} (h : l.Pairwise fun a b => key b ≤ key a) (v : τ) :
    (l.takeWhile fun b => ¬ key b ≤ v).length = l.countP fun b => v < key b := by
  induction l with
  | nil => rfl
  | cons c l ih =>
    obtain ⟨hc, hl⟩ := List.pairwise_cons.mp h
    by_cases hcv : v < key c
    · have hcount : ((c :: l).countP fun b => v < key b) = (l.countP fun b => v < key b) + 1 :=
        List.countP_cons_of_pos (by simpa using hcv)
      rw [List.takeWhile_cons_of_pos (by simpa using hcv), List.length_cons, ih hl, hcount]
    · have hnone : ((c :: l).countP fun b => v < key b) = 0 := by
        rw [List.countP_eq_zero]
        intro b hb
        rcases List.mem_cons.mp hb with hbc | hbl
        · simpa [hbc] using hcv
        · simpa using (hc b hbl).trans (not_lt.mp hcv)
      rw [List.takeWhile_cons_of_neg (by simpa using hcv), hnone]
      rfl

/-- **Where an element comes to stand**, given what was before it in the list. -/
theorem descending_append_cons (key : α → τ) (before : List α) (a : α) (after : List α) :
    ∃ above below, descending key (before ++ a :: after) = above ++ a :: below ∧
      above.length = (before ++ a :: after).countP (fun b => key a < key b) +
        before.countP fun b => key b = key a := by
  induction before with
  | nil =>
    refine ⟨_, _, List.orderedInsert_eq_take_drop _ _ _, ?_⟩
    have hself : ((a :: after).countP fun b => key a < key b) = after.countP fun b => key a < key b :=
      List.countP_cons_of_neg (by simp)
    show ((descending key after).takeWhile fun b => ¬ key b ≤ key a).length = _
    rw [length_takeWhile_greater (pairwise_descending key after), (perm_descending key after).countP_eq,
      List.nil_append, hself, List.countP_nil, Nat.add_zero]
  | cons c before ih =>
    obtain ⟨above, below, hsorted, hlength⟩ := ih
    have hpairwise := pairwise_descending key (before ++ a :: after)
    rw [hsorted, List.pairwise_append] at hpairwise
    have habove : ∀ b ∈ above, key a ≤ key b := fun b hb => hpairwise.2.2 b hb a List.mem_cons_self
    have hstep : descending key (c :: before ++ a :: after) =
        (above ++ a :: below).orderedInsert (fun a b => key b ≤ key a) c := by
      rw [← hsorted]
      rfl
    rw [hstep, List.cons_append]
    rcases lt_trichotomy (key c) (key a) with hless | hsame | hgreater
    · obtain ⟨below', hinsert⟩ := orderedInsert_after hless habove below
      refine ⟨above, below', hinsert, ?_⟩
      rw [List.countP_cons_of_neg (by simpa using hless.le), List.countP_cons_of_neg (by simpa using hless.ne),
        hlength]
    · obtain ⟨above', hinsert, hmore⟩ := orderedInsert_before hsame.ge above below
      refine ⟨above', below, hinsert, ?_⟩
      have hcount : ((c :: before).countP fun b => key b = key a) =
          (before.countP fun b => key b = key a) + 1 := List.countP_cons_of_pos (by simpa using hsame)
      rw [List.countP_cons_of_neg (by simpa using hsame.le), hcount, hmore, hlength, Nat.add_assoc]
    · obtain ⟨above', hinsert, hmore⟩ := orderedInsert_before hgreater.le above below
      refine ⟨above', below, hinsert, ?_⟩
      have hcount : ((c :: (before ++ a :: after)).countP fun b => key a < key b) =
          ((before ++ a :: after).countP fun b => key a < key b) + 1 :=
        List.countP_cons_of_pos (by simpa using hgreater)
      rw [hcount, List.countP_cons_of_neg (by simpa using hgreater.ne'), hmore, hlength]
      omega

/-- **An element stands at its rank.** -/
theorem getElem?_rank [DecidableEq α] {l : List α} {a : α} (h : a ∈ l) :
    (descending key l)[rank key l a]? = some a := by
  obtain ⟨before, after, hsplit, hfirst⟩ := List.eq_append_cons_of_mem h
  have hbefore : (l.takeWhile fun b => b ≠ a) = before := by
    have hall : ∀ b ∈ before, decide (b ≠ a) = true := fun b hb =>
      decide_eq_true fun hba => hfirst (hba ▸ hb)
    rw [hsplit, List.takeWhile_append_of_pos hall, List.takeWhile_cons_of_neg (by simp), List.append_nil]
  obtain ⟨above, below, hsorted, hlength⟩ := descending_append_cons key before a after
  rw [rank, hbefore, hsplit, hsorted, ← hlength, List.getElem?_append_right (le_refl _), Nat.sub_self]
  rfl

end Ranking
