import Portalis.Validation

/-!
# What an error is about

Every error of the validator but the one about the schema version names the rules it is about, and depends on
nothing else: not on the other rules, and not on where in the list they are.

* `names_validateRule`: a rule's own errors name it.
* `errors_keepOnly`: the errors of a part of the rules are those of the whole that name only this part.
* `validate_keepOnly`: which rules to take out so that the rest is accepted.
-/

namespace Portalis

/-- The rules that an error names. -/
def ValidationError.names : ValidationError → List Uuid
  | schemaVersion _ => []
  | emptyName id => [id]
  | nameTooLong id => [id]
  | noProtocol id => [id]
  | invalidPortRange id _ _ => [id]
  | rangeLengthMismatch id => [id]
  | targetFamilyMismatch id _ _ => [id]
  | listenFamilyMismatch id _ => [id]
  | sourceFamilyMismatch id _ _ => [id]
  | snatFamilyMismatch id _ => [id]
  | emptyInterface id => [id]
  | sshPortConflict id _ => [id]
  | overlap first second _ => [first, second]
  | duplicateId id => [id]

/-- The rules with the identifiers that are kept. -/
def Config.keepOnly (self : Config) (keep : Uuid → Bool) : Config :=
  { self with rules := self.rules.filter fun rule => keep rule.id }

/-! ### Errors of one rule -/

section

variable {rule : ForwardRule} {context : ValidationContext} {e : ValidationError}

theorem names_portRangeErrors {id : Uuid} {ports : PortRange} (h : e ∈ portRangeErrors id ports) :
    e.names = [id] := by
  rw [portRangeErrors] at h
  split at h
  · rw [List.mem_singleton.mp h]
    rfl
  · cases h

/-- An error that is pushed under a condition. -/
theorem names_of_mem_ite {c : Prop} [Decidable c] {pushed : ValidationError} {ids : List Uuid}
    (h : e ∈ (if c then [pushed] else [])) (hnames : pushed.names = ids) : e.names = ids := by
  split at h
  · rw [List.mem_singleton.mp h]
    exact hnames
  · cases h

/-- **A rule's own errors name it.** -/
theorem names_validateRule (h : e ∈ validateRule rule context) : e.names = [rule.id] := by
  unfold validateRule at h
  simp only [List.mem_append] at h
  rcases h with ((((((((((hname | hlong) | hprotocol) | hlisten) | htarget) | hlength) | hfamily) | haddress) |
    hsource) | hsnat) | hinterface) | hssh
  · exact names_of_mem_ite hname rfl
  · exact names_of_mem_ite hlong rfl
  · exact names_of_mem_ite hprotocol rfl
  · exact names_portRangeErrors hlisten
  · exact names_portRangeErrors htarget
  · exact names_of_mem_ite hlength rfl
  · exact names_of_mem_ite hfamily rfl
  · split at haddress
    · exact names_of_mem_ite haddress rfl
    · cases haddress
  · obtain ⟨cidr, -, hcidr⟩ := List.mem_flatMap.mp hsource
    exact names_of_mem_ite hcidr rfl
  · split at hsnat
    · exact names_of_mem_ite hsnat rfl
    · cases hsnat
  · split at hinterface
    · exact names_of_mem_ite hinterface rfl
    · cases hinterface
  · split at hssh
    · obtain ⟨port, -, hport⟩ := List.mem_flatMap.mp hssh
      exact names_of_mem_ite hport rfl
    · cases hssh

end

/-! ### Errors of a part -/

section

variable {keep : Uuid → Bool} {context : ValidationContext}

/-- Errors that all name the same rules are kept or dropped together. -/
theorem filter_names {errors : List ValidationError} {ids : List Uuid} (h : ∀ e ∈ errors, e.names = ids) :
    (errors.filter fun e => e.names.all keep) = if ids.all keep then errors else [] := by
  split
  · next hall =>
    refine List.filter_eq_self.mpr fun e he => ?_
    rw [h e he]
    exact hall
  · next hnot =>
    refine List.filter_eq_nil_iff.mpr fun e he => ?_
    rw [h e he]
    exact hnot

/-- **The loop over the rules.**  What has been seen of the identifiers that are kept is the same. -/
theorem ruleErrors_filter {rules : List ForwardRule} : ∀ {seen seen' : SortedSet Uuid},
    (∀ id, keep id = true → (id ∈ seen' ↔ id ∈ seen)) →
      ruleErrors context seen' (rules.filter fun rule => keep rule.id) =
        (ruleErrors context seen rules).filter fun e => e.names.all keep := by
  induction rules with
  | nil =>
    intro seen seen' _
    rfl
  | cons rule rules ih =>
    intro seen seen' hseen
    have hown : ∀ e ∈ (if !decide (rule.id ∉ seen) then [ValidationError.duplicateId rule.id] else []) ++
        validateRule rule context, e.names = [rule.id] := by
      intro e he
      rcases List.mem_append.mp he with hduplicate | hrule
      · exact names_of_mem_ite hduplicate rfl
      · exact names_validateRule hrule
    have hsingle : [rule.id].all keep = keep rule.id := by
      rw [List.all_cons, List.all_nil, Bool.and_true]
    cases hkeep : keep rule.id with
    | true =>
      have hnext : ∀ id, keep id = true → (id ∈ (seen'.insert rule.id).2 ↔ id ∈ (seen.insert rule.id).2) := by
        intro id hid
        rw [SortedSet.mem_insert, SortedSet.mem_insert, hseen id hid]
      rw [List.filter_cons_of_pos (by exact hkeep)]
      show (if !decide (rule.id ∉ seen') then [ValidationError.duplicateId rule.id] else []) ++
          validateRule rule context ++
            ruleErrors context (seen'.insert rule.id).2 (rules.filter fun rule => keep rule.id) =
        ((if !decide (rule.id ∉ seen) then [ValidationError.duplicateId rule.id] else []) ++
          validateRule rule context ++ ruleErrors context (seen.insert rule.id).2 rules).filter _
      rw [List.filter_append, filter_names hown, hsingle, hkeep, if_pos rfl, ih hnext,
        decide_eq_decide.mpr (not_congr (hseen rule.id hkeep))]
    | false =>
      have hnext : ∀ id, keep id = true → (id ∈ seen' ↔ id ∈ (seen.insert rule.id).2) := by
        intro id hid
        have hne : id ≠ rule.id := by
          intro hsame
          rw [hsame, hkeep] at hid
          cases hid
        rw [SortedSet.mem_insert, hseen id hid, or_iff_right hne]
      rw [List.filter_cons_of_neg (by simp [hkeep])]
      show _ = ((if !decide (rule.id ∉ seen) then [ValidationError.duplicateId rule.id] else []) ++
          validateRule rule context ++ ruleErrors context (seen.insert rule.id).2 rules).filter _
      rw [List.filter_append, filter_names hown, hsingle, hkeep, if_neg Bool.false_ne_true, List.nil_append,
        ih hnext]

/-- The errors about one pair name both rules of it. -/
theorem names_pair {first second : ForwardRule} {e : ValidationError}
    (he : e ∈ first.protocols.iter.flatMap fun protocol =>
      if overlapsFor first second protocol then [ValidationError.overlap first.id second.id protocol] else []) :
    e.names = [first.id, second.id] := by
  obtain ⟨protocol, -, hprotocol⟩ := List.mem_flatMap.mp he
  exact names_of_mem_ite hprotocol rfl

/-- One rule against the later ones: it is in every pair. -/
theorem overlapErrorsOf_filter (first : ForwardRule) (later : List ForwardRule) :
    ((overlapErrorsOf first later).filter fun e => e.names.all keep) =
      if keep first.id then overlapErrorsOf first (later.filter fun rule => keep rule.id) else [] := by
  induction later with
  | nil =>
    rw [List.filter_nil, overlapErrorsOf, List.flatMap_nil, List.filter_nil, ite_self]
  | cons second later ih =>
    have hpair : [first.id, second.id].all keep = (keep first.id && keep second.id) := by
      rw [List.all_cons, List.all_cons, List.all_nil, Bool.and_true]
    rw [overlapErrorsOf] at ih ⊢
    rw [List.flatMap_cons, List.filter_append, ih, filter_names fun _ => names_pair, hpair]
    cases hfirst : keep first.id with
    | false =>
      rw [Bool.false_and, if_neg Bool.false_ne_true, if_neg Bool.false_ne_true, if_neg Bool.false_ne_true,
        List.append_nil]
    | true =>
      rw [Bool.true_and, if_pos rfl, if_pos rfl, overlapErrorsOf, overlapErrorsOf]
      cases hsecond : keep second.id with
      | false =>
        rw [if_neg Bool.false_ne_true, List.nil_append, List.filter_cons_of_neg (by simp [hsecond])]
      | true =>
        rw [if_pos rfl, List.filter_cons_of_pos (by exact hsecond), List.flatMap_cons]

/-- **The overlap pass.** -/
theorem overlapErrors_filter (rules : List ForwardRule) :
    overlapErrors (rules.filter fun rule => keep rule.id) =
      (overlapErrors rules).filter fun e => e.names.all keep := by
  induction rules with
  | nil => rfl
  | cons first later ih =>
    rw [overlapErrors, List.filter_append, overlapErrorsOf_filter, ← ih]
    cases hfirst : keep first.id with
    | false =>
      rw [if_neg Bool.false_ne_true, List.nil_append, List.filter_cons_of_neg (by simp [hfirst])]
    | true =>
      rw [if_pos rfl, List.filter_cons_of_pos (by exact hfirst), overlapErrors]

end

/-- The errors of a part of the rules are those of the whole that name only this part, in their order. -/
theorem errors_keepOnly (config : Config) (context : ValidationContext) (keep : Uuid → Bool) :
    (config.keepOnly keep).errors context =
      (config.errors context).filter fun e => e.names.all keep := by
  have hactive : (config.keepOnly keep).activeRules = config.activeRules.filter fun rule => keep rule.id := by
    show (config.rules.filter _).filter _ = (config.rules.filter _).filter _
    rw [List.filter_comm]
  have hschema : ∀ e ∈ (if config.schemaVersion ≠ schemaVersion then
      [ValidationError.schemaVersion config.schemaVersion] else []), e.names = [] :=
    fun e he => names_of_mem_ite he rfl
  rw [Config.errors, Config.errors, List.filter_append, List.filter_append, filter_names hschema, hactive,
    overlapErrors_filter, List.all_nil, if_pos rfl]
  show _ ++ ruleErrors context SortedSet.empty (config.rules.filter fun rule => keep rule.id) ++ _ = _
  rw [ruleErrors_filter fun id _ => Iff.rfl]
  rfl

/-- **Which rules to take out.**  What is left reports what it reported before about its own rules, and is accepted
exactly when every error of the whole names a rule that is out. -/
theorem validate_keepOnly (config : Config) (context : ValidationContext) (keep : Uuid → Bool) :
    (config.keepOnly keep).errors context = (config.errors context).filter (fun e => e.names.all keep) ∧
      ((config.keepOnly keep).validate context = .ok () ↔
        ∀ e ∈ config.errors context, ∃ id ∈ e.names, keep id = false) := by
  refine ⟨errors_keepOnly config context keep, ?_⟩
  rw [Config.validate_eq_ok_iff, errors_keepOnly, List.filter_eq_nil_iff]
  refine forall₂_congr fun e _ => ?_
  rw [Bool.not_eq_true, List.all_eq_false]
  refine exists_congr fun id => and_congr_right fun _ => ?_
  rw [Bool.not_eq_true]

end Portalis
