import Portalis.Octets

/-!
# A register machine for packet rules

Packet-filter rules are straight-line programs over a few registers: load a field, mask it, compare
it with constant octets, and at the end act.  A comparison that fails leaves the rule; a rule that
runs off its end lets the packet go on; an action ends the chain with a verdict.  The machine is
generic in the fields `S` a packet offers (through a `view`) and in the actions `A`.

* A `Clause` is one load with its mask and comparisons.  `exec_clauses_append`: a rule made of clauses
  and a tail is the conjunction of its clauses, guarding the tail.
* `runChain` is first match.  `runChain_eq_some_of_agree`: when the rules that fire agree on the verdict,
  the order of the chain does not matter.
* `count` is what a packet leaves in the counters.  `count_clauses_append`: a counter behind clauses
  counts the packets that the clauses admit.
-/

namespace RuleMachine

inductive Register
  | reg1
  | reg2
  | reg3
  deriving DecidableEq

abbrev Registers := Register → List UInt8

inductive CmpOp
  | eq
  | lte
  | gte
  deriving DecidableEq

/-- Compare as many octets of the register as the constant has, like `memcmp`. -/
def CmpOp.holds (op : CmpOp) (reg data : List UInt8) : Bool :=
  match op with
  | eq => reg.take data.length == data
  | lte => reg.take data.length ≤ data
  | gte => data ≤ reg.take data.length

/-- Loads, masks and comparisons work on register 1; constants go where they say. -/
inductive Expr (S A : Type)
  | load (sel : S)
  | bitwise (mask xor : List UInt8)
  | cmp (op : CmpOp) (data : List UInt8)
  | immediate (data : List UInt8) (dreg : Register)
  | counter (packets bytes : UInt64)
  | action (a : A)
  deriving DecidableEq

/-- How one rule ends. -/
inductive Outcome (V : Type)
  | mismatch
  | pass
  | verdict (v : V)
  deriving DecidableEq

def Outcome.verdict? {V : Type} : Outcome V → Option V
  | verdict v => some v
  | _ => none

/-- The octets `bitwise` leaves in the register. -/
def masked (mask xor reg : List UInt8) : List UInt8 :=
  List.zipWith (· ^^^ ·) (List.zipWith (· &&& ·) reg mask) xor

variable {S A V : Type} (view : S → Option (List UInt8)) (act : A → Registers → Option V)

def exec : List (Expr S A) → Registers → Outcome V
  | [], _ => .pass
  | .load sel :: es, r =>
    match view sel with
    | none => .mismatch
    | some d => exec es (Function.update r .reg1 d)
  | .bitwise mask xor :: es, r => exec es (Function.update r .reg1 (masked mask xor (r .reg1)))
  | .cmp op data :: es, r => if op.holds (r .reg1) data then exec es r else .mismatch
  | .immediate data dreg :: es, r => exec es (Function.update r dreg data)
  | .counter _ _ :: es, r => exec es r
  | .action a :: _, r =>
    match act a r with
    | none => .mismatch
    | some v => .verdict v

/-- A rule starts with empty registers. -/
def runRule (es : List (Expr S A)) : Outcome V := exec view act es fun _ => []

/-- First match: the first rule that reaches an action decides. -/
def runChain (rules : List (List (Expr S A))) : Option V :=
  rules.findSome? fun es => (runRule view act es).verdict?

/-- The rule after a packet of `len` octets: the counters that the packet reaches have counted it. -/
def count (len : UInt64) : List (Expr S A) → Registers → List (Expr S A)
  | [], _ => []
  | .load sel :: es, r =>
    .load sel :: match view sel with
      | none => es
      | some d => count len es (Function.update r .reg1 d)
  | .bitwise mask xor :: es, r =>
    .bitwise mask xor :: count len es (Function.update r .reg1 (masked mask xor (r .reg1)))
  | .cmp op data :: es, r =>
    .cmp op data :: if op.holds (r .reg1) data then count len es r else es
  | .immediate data dreg :: es, r =>
    .immediate data dreg :: count len es (Function.update r dreg data)
  | .counter packets bytes :: es, r => .counter (packets + 1) (bytes + len) :: count len es r
  | .action a :: es, _ => .action a :: es

/-! ### Clauses -/

/-- One load, an optional mask, and comparisons that must all hold. -/
structure Clause (S : Type) where
  sel : S
  mask : Option (List UInt8 × List UInt8)
  tests : List (CmpOp × List UInt8)

namespace Clause

def exprs (c : Clause S) : List (Expr S A) :=
  .load c.sel :: ((c.mask.toList.map fun m => .bitwise m.1 m.2) ++
    c.tests.map fun t => .cmp t.1 t.2)

/-- What the comparisons see. -/
def seen (c : Clause S) (d : List UInt8) : List UInt8 :=
  match c.mask with
  | none => d
  | some m => masked m.1 m.2 d

def holds (c : Clause S) : Bool :=
  match view c.sel with
  | none => false
  | some d => c.tests.all fun t => t.1.holds (c.seen d) t.2

theorem holds_of_view {view : S → Option (List UInt8)} (c : Clause S) {d : List UInt8}
    (h : view c.sel = some d) :
    c.holds view = c.tests.all fun t => t.1.holds (c.seen d) t.2 := by
  simp [holds, h]

end Clause

theorem exec_tests_append (tests : List (CmpOp × List UInt8)) (es : List (Expr S A))
    (r : Registers) :
    exec view act ((tests.map fun t => .cmp t.1 t.2) ++ es) r =
      if tests.all fun t => t.1.holds (r .reg1) t.2 then exec view act es r else .mismatch := by
  induction tests with
  | nil => simp
  | cons t ts ih =>
    rw [List.map_cons, List.cons_append, exec, ih, List.all_cons]
    cases t.1.holds (r .reg1) t.2 <;> rfl

theorem exec_clause_append (c : Clause S) (es : List (Expr S A)) (r : Registers) :
    ∃ r', exec view act (c.exprs ++ es) r =
      if c.holds view then exec view act es r' else .mismatch := by
  cases hview : view c.sel with
  | none => exact ⟨r, by simp [Clause.exprs, exec, Clause.holds, hview]⟩
  | some d =>
    refine ⟨Function.update r .reg1 (c.seen d), ?_⟩
    rw [c.holds_of_view hview]
    cases hmask : c.mask with
    | none =>
      have hseen : c.seen d = d := by simp [Clause.seen, hmask]
      simp only [Clause.exprs, hmask, Option.toList_none, List.map_nil, List.nil_append,
        List.cons_append, exec, hview, exec_tests_append, Function.update_self, hseen]
    | some m =>
      have hseen : c.seen d = masked m.1 m.2 d := by simp [Clause.seen, hmask]
      simp only [Clause.exprs, hmask, Option.toList_some, List.map_cons, List.map_nil,
        List.cons_append, List.nil_append, exec, hview, exec_tests_append, Function.update_self,
        Function.update_idem, hseen]

/-- **A rule is the conjunction of its clauses.**  If the tail ends the same way from any registers,
the clauses decide whether it is reached. -/
theorem exec_clauses_append (cs : List (Clause S)) (tail : List (Expr S A)) (o : Outcome V)
    (htail : ∀ r, exec view act tail r = o) (r : Registers) :
    exec view act (cs.flatMap Clause.exprs ++ tail) r =
      if cs.all (·.holds view) then o else .mismatch := by
  induction cs generalizing r with
  | nil => simpa using htail r
  | cons c cs ih =>
    rw [List.flatMap_cons, List.append_assoc]
    obtain ⟨r', hr'⟩ := exec_clause_append view act c (cs.flatMap Clause.exprs ++ tail) r
    rw [hr', ih r', List.all_cons]
    cases c.holds view <;> rfl

/-! ### Counters behind clauses -/

theorem count_tests_append (len : UInt64) (tests : List (CmpOp × List UInt8))
    (es : List (Expr S A)) (r : Registers) :
    count view len ((tests.map fun t => .cmp t.1 t.2) ++ es) r =
      (tests.map fun t => .cmp t.1 t.2) ++
        if tests.all fun t => t.1.holds (r .reg1) t.2 then count view len es r else es := by
  induction tests with
  | nil => simp
  | cons t ts ih =>
    rw [List.map_cons, List.cons_append, count, ih, List.all_cons, List.cons_append]
    cases t.1.holds (r .reg1) t.2 <;> rfl

theorem count_clause_append (len : UInt64) (c : Clause S) (es : List (Expr S A)) (r : Registers) :
    ∃ r', count view len (c.exprs ++ es) r =
      c.exprs ++ if c.holds view then count view len es r' else es := by
  cases hview : view c.sel with
  | none => exact ⟨r, by simp [Clause.exprs, count, Clause.holds, hview]⟩
  | some d =>
    refine ⟨Function.update r .reg1 (c.seen d), ?_⟩
    rw [c.holds_of_view hview]
    cases hmask : c.mask with
    | none =>
      have hseen : c.seen d = d := by simp [Clause.seen, hmask]
      simp only [Clause.exprs, hmask, Option.toList_none, List.map_nil, List.nil_append,
        List.cons_append, count, hview, count_tests_append, Function.update_self, hseen]
    | some m =>
      have hseen : c.seen d = masked m.1 m.2 d := by simp [Clause.seen, hmask]
      simp only [Clause.exprs, hmask, Option.toList_some, List.map_cons, List.map_nil,
        List.cons_append, List.nil_append, count, hview, count_tests_append,
        Function.update_self, Function.update_idem, hseen]

/-- **A counter behind clauses** counts a packet iff the clauses hold; the clauses stay as they are. -/
theorem count_clauses_append (len : UInt64) (cs : List (Clause S)) {tail counted : List (Expr S A)}
    (htail : ∀ r, count view len tail r = counted) (r : Registers) :
    count view len (cs.flatMap Clause.exprs ++ tail) r =
      cs.flatMap Clause.exprs ++ if cs.all (·.holds view) then counted else tail := by
  induction cs generalizing r with
  | nil => simpa using htail r
  | cons c cs ih =>
    rw [List.flatMap_cons, List.append_assoc]
    obtain ⟨r', hr'⟩ := count_clause_append view len c (cs.flatMap Clause.exprs ++ tail) r
    rw [hr', ih r', List.all_cons, List.append_assoc]
    cases c.holds view <;> rfl

/-! ### Chains -/

theorem runChain_eq_none_iff (rules : List (List (Expr S A))) :
    runChain view act rules = none ↔
      ∀ es ∈ rules, (runRule view act es).verdict? = none := by
  simp [runChain, List.findSome?_eq_none_iff]

/-- **First match without order.**  If some rule fires and every rule that fires gives `v`, so does
the chain. -/
theorem runChain_eq_some_of_agree {rules : List (List (Expr S A))} {v : V}
    (hsome : ∃ es ∈ rules, (runRule view act es).verdict? ≠ none)
    (hagree : ∀ es ∈ rules, ∀ u, (runRule view act es).verdict? = some u → u = v) :
    runChain view act rules = some v := by
  cases hrun : runChain view act rules with
  | none =>
    obtain ⟨es, hes, hne⟩ := hsome
    exact absurd ((runChain_eq_none_iff view act rules).mp hrun es hes) hne
  | some u =>
    obtain ⟨es, hes, hu⟩ := List.exists_of_findSome?_eq_some hrun
    rw [hagree es hes u hu]

end RuleMachine
