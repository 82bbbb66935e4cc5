import Portalis.Translation

/-!
# Fewer rules

Deleting rules, switching rules off and freeing SSH ports never makes an accepted configuration a
rejected one: every check of the validator is about one rule or about a pair of rules, and asks less
of fewer of them.

* `OffOrSame.activeRules_sublist`: the pairs that survive are pairs of the original.
* `thinned_accepted`: acceptance, check by check.
-/

namespace Portalis

/-! ### Thinned configurations -/

/-- The rule as it is, or switched off. -/
def ForwardRule.OffOrSame (rule original : ForwardRule) : Prop :=
  rule = original ∨ rule = { original with enabled := false }

/-- Some of the rules, in their order, some of them switched off. -/
def ThinnedRules (rules original : List ForwardRule) : Prop :=
  ∃ kept, kept.Sublist original ∧ List.Forall₂ ForwardRule.OffOrSame rules kept

section

variable {rule original : ForwardRule} {context context' : ValidationContext}

theorem ForwardRule.OffOrSame.id_eq (h : rule.OffOrSame original) : rule.id = original.id := by
  rcases h with rfl | rfl
  · rfl
  · rfl

/-- The checks of a rule do not ask whether it is enabled, and ask nothing more for fewer SSH ports. -/
theorem RuleChecked.thinned (h : RuleChecked original context) (hrule : rule.OffOrSame original)
    (hports : ∀ port ∈ context'.sshPorts, port ∈ context.sshPorts) : RuleChecked rule context' := by
  have hoff : ∀ enabled, RuleChecked { original with enabled := enabled } context' := by
    intro enabled
    exact ⟨h.name_nonempty, h.name_short, h.some_protocol, h.listen_start, h.listen_le,
      h.target_start, h.target_le, h.same_length, h.target_family, h.listen_family, h.source_family,
      h.snat_family, h.interface_nonempty,
      fun hssh port hport => h.ssh_free hssh port (hports port hport)⟩
  rcases hrule with rfl | rfl
  · exact hoff rule.enabled
  · exact hoff false

end

/-! ### The rules that are left -/

section

variable {rules kept : List ForwardRule}

/-- Each rule that is left comes from one of the original. -/
theorem OffOrSame.exists_original (h : List.Forall₂ ForwardRule.OffOrSame rules kept) :
    ∀ rule ∈ rules, ∃ original ∈ kept, rule.OffOrSame original := by
  induction h with
  | nil =>
    intro rule hr
    cases hr
  | @cons rule original rules kept hrule _ ih =>
    intro rule' hr'
    rcases List.mem_cons.mp hr' with rfl | hr'
    · exact ⟨original, List.mem_cons_self, hrule⟩
    · obtain ⟨original', hmem, hsame⟩ := ih rule' hr'
      exact ⟨original', List.mem_cons_of_mem _ hmem, hsame⟩

theorem OffOrSame.map_id_eq (h : List.Forall₂ ForwardRule.OffOrSame rules kept) :
    rules.map (·.id) = kept.map (·.id) := by
  induction h with
  | nil => rfl
  | @cons rule original rules kept hrule _ ih =>
    show rule.id :: rules.map (·.id) = original.id :: kept.map (·.id)
    rw [hrule.id_eq, ih]

/-- Switching rules off leaves a sub-list of the enabled rules. -/
theorem OffOrSame.activeRules_sublist (h : List.Forall₂ ForwardRule.OffOrSame rules kept) :
    (rules.filter (·.enabled)).Sublist (kept.filter (·.enabled)) := by
  induction h with
  | nil => exact List.Sublist.refl _
  | @cons rule original rules kept hrule _ ih =>
    rcases hrule with rfl | rfl
    · rw [List.filter_cons, List.filter_cons]
      split
      · exact ih.cons_cons rule
      · exact ih
    · rw [List.filter_cons_of_neg (by simp), List.filter_cons]
      split
      · exact ih.cons original
      · exact ih

end

/-! ### Acceptance -/

section

variable {config : Config} {rules : List ForwardRule} {context context' : ValidationContext}

/-- **Acceptance, thinned.** -/
theorem Accepted.thinned (h : Accepted config context) (hrules : ThinnedRules rules config.rules)
    (hports : ∀ port ∈ context'.sshPorts, port ∈ context.sshPorts) :
    Accepted { config with rules := rules } context' := by
  obtain ⟨kept, hsub, hoff⟩ := hrules
  refine ⟨h.schema, ?_, ?_, ?_⟩
  · show (rules.map (·.id)).Nodup
    rw [OffOrSame.map_id_eq hoff]
    exact h.distinct.sublist (hsub.map _)
  · intro rule hr
    obtain ⟨original, hmem, hrule⟩ := OffOrSame.exists_original hoff rule hr
    exact (h.checked original (hsub.subset hmem)).thinned hrule hports
  · have hactive := (OffOrSame.activeRules_sublist hoff).trans (hsub.filter _)
    exact List.Pairwise.sublist hactive h.overlapFree

/-- **Fewer rules stay accepted.**  Deleting rules of an accepted configuration, switching some of the
others off and taking away SSH ports leaves an accepted configuration. -/
theorem thinned_accepted (h : config.validate context = .ok ())
    (hrules : ThinnedRules rules config.rules)
    (hports : ∀ port ∈ context'.sshPorts, port ∈ context.sshPorts) :
    Config.validate { config with rules := rules } context' = .ok () :=
  (accepted_iff _ _).mpr ((Accepted.of_validate h).thinned hrules hports)

end

/-- The first rule deleted, the second switched off, no SSH port left. -/
theorem thinned_accepted_web :
    Config.validate ⟨1, [{ webRule with enabled := false }]⟩ ⟨SortedSet.empty⟩ = .ok () :=
  @thinned_accepted ⟨1, [{ webRule with id := ⟨2⟩, listenPort := ⟨81, 81⟩ }, webRule]⟩ _ .default
    ⟨SortedSet.empty⟩ (by decide)
    ⟨[webRule], (List.Sublist.refl _).cons _, .cons (Or.inr rfl) .nil⟩
    (fun port hport => absurd hport (SortedSet.not_mem_empty port))

end Portalis
