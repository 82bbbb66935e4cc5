import Portalis.Drift

/-!
# The comments in the kernel

A rule comment is kept in the user data of the rule, behind whatever header the library puts there and with
NULs after it.  `dump_rule_callback` looks for the first `portalis:` in these octets, decodes the rest
without regard to what is no UTF-8, and drops the NULs.

* `commentOfUserData_frame`: the comment is found again behind any header that does not hold `portalis:`.
* `key_of_userData`: `parse_comment` then gives the rule id and the protocol, and no others.
-/

namespace Portalis

open RuleMachine Text Tally

/-- What every rule comment starts with. -/
def commentScheme : List UInt8 := utf8 "portalis:"

/-- The comment that `dump_rule_callback` takes from the user data. -/
def commentOfUserData (data : Option (List UInt8)) : String :=
  match data with
  | none => ""
  | some octets =>
    match octets.dropInfix? commentScheme with
    | none => ""
    | some (_, rest) =>
      String.ofList ((fromUtf8Lossy (commentScheme ++ rest)).toList.rdropWhile (· = '\x00'))

/-- User data with a comment: a header, the comment, and NULs. -/
def frameUserData (header : List UInt8) (comment : String) (padding : ℕ) : List UInt8 :=
  header ++ (utf8 comment ++ List.replicate padding 0)

/-- No proper tail of `portalis:` is a beginning of it. -/
theorem commentScheme_borderless (k : ℕ) (hpos : 0 < k) (hk : k < commentScheme.length) :
    ¬ commentScheme.drop k <+: commentScheme := by
  have hall : ∀ k < commentScheme.length, 0 < k → ¬ commentScheme.drop k <+: commentScheme := by
    decide +kernel
  exact hall k hk hpos

theorem utf8_nuls (n : ℕ) : utf8 (String.ofList (List.replicate n '\x00')) = List.replicate n 0 := by
  have hnul : String.utf8EncodeChar '\x00' = [0] := by decide
  rw [utf8, String.toList_ofList]
  induction n with
  | zero => rfl
  | succ n ih => rw [List.replicate_succ, List.flatMap_cons, ih, hnul, List.replicate_succ]; rfl

/-- A comment behind a header that does not hold its scheme is found, and its padding is dropped. -/
theorem commentOfUserData_frame {header : List UInt8} (hheader : ¬ commentScheme <:+: header)
    {comment : String} (hscheme : commentScheme <+: utf8 comment) (hnul : '\x00' ∉ comment.toList)
    (padding : ℕ) : commentOfUserData (some (frameUserData header comment padding)) = comment := by
  obtain ⟨rest, hrest⟩ := hscheme
  have hfound : (frameUserData header comment padding).dropInfix? commentScheme =
      some (header, rest ++ List.replicate padding 0) := by
    rw [frameUserData, ← hrest, List.append_assoc]
    exact dropInfix?_append commentScheme_borderless hheader _
  have hread : fromUtf8Lossy (commentScheme ++ (rest ++ List.replicate padding 0)) =
      comment ++ String.ofList (List.replicate padding '\x00') := by
    rw [← List.append_assoc, hrest, ← utf8_nuls, ← utf8_append, fromUtf8Lossy_utf8]
  have hkept : comment.toList.rdropWhile (· = '\x00') = comment.toList :=
    List.rdropWhile_eq_self_iff.mpr fun hne => by
      simpa using fun hlast : comment.toList.getLast hne = '\x00' =>
        hnul (hlast ▸ List.getLast_mem hne)
  have htrim : (comment.toList ++ List.replicate padding '\x00').rdropWhile (· = '\x00') =
      comment.toList := by
    rw [rdropWhile_append, if_pos, hkept]
    exact List.rdropWhile_eq_nil_iff.mpr fun c hc => by simpa using List.eq_of_mem_replicate hc
  unfold commentOfUserData
  dsimp only
  rw [hfound]
  dsimp only
  rw [hread, String.toList_append, String.toList_ofList, htrim, String.ofList_toList]

theorem scheme_of_ruleComment (id : Uuid) (protocol : Protocol) :
    commentScheme <+: utf8 (ruleComment id protocol) := by
  rw [ruleComment, utf8_append, utf8_append, utf8_append, utf8_append, commentScheme]
  simp only [List.append_assoc]
  exact List.prefix_append _ _

theorem setRuleComment_comment {setComment : SetComment} {rule written : KernelRule} {plan : RulePlan}
    (h : setRuleComment rule plan setComment = .ok written) :
    written.comment = ruleComment plan.ruleId plan.protocol := by
  have hnul := (ruleComment_spec plan.ruleId plan.protocol).1
  cases hset : setComment (utf8 (ruleComment plan.ruleId plan.protocol)) with
  | error e =>
    simp [setRuleComment, cstring, hnul, hset, Except.mapError, bind, Except.bind] at h
  | ok _ =>
    rw [setRuleComment_of_accepted rule hset, Except.ok.injEq] at h
    rw [← h]

/-- **The kernel gives back whose rule it is.**  Whatever header without `portalis:` and however many NULs
the comment is framed with, the dump reads the rule id and the protocol that it was written for; so rules
of different ids or protocols are never counted under one key. -/
theorem key_of_userData {setComment : SetComment} {rule written : KernelRule} {plan : RulePlan}
    (hwritten : setRuleComment rule plan setComment = .ok written) {header : List UInt8}
    (hheader : ¬ commentScheme <:+: header) (padding : ℕ) :
    parseComment (commentOfUserData (some (frameUserData header written.comment padding))) =
        some (plan.ruleId, plan.protocol) ∧
      ∀ (other : RulePlan) (rule' written' : KernelRule) (header' : List UInt8) (padding' : ℕ),
        setRuleComment rule' other setComment = .ok written' → ¬ commentScheme <:+: header' →
        (other.ruleId, other.protocol) ≠ (plan.ruleId, plan.protocol) →
        parseComment (commentOfUserData (some (frameUserData header' written'.comment padding'))) ≠
          parseComment (commentOfUserData (some (frameUserData header written.comment padding))) := by
  have hread : ∀ {plan : RulePlan} {rule written : KernelRule} {header : List UInt8} (padding : ℕ),
      setRuleComment rule plan setComment = .ok written → ¬ commentScheme <:+: header →
      parseComment (commentOfUserData (some (frameUserData header written.comment padding))) =
        some (plan.ruleId, plan.protocol) := by
    intro plan rule written header padding hset hno
    rw [setRuleComment_comment hset, commentOfUserData_frame hno (scheme_of_ruleComment _ _)
      (ruleComment_spec _ _).1, parseComment_ruleComment]
  refine ⟨hread padding hwritten hheader, ?_⟩
  intro other rule' written' header' padding' hwritten' hheader' hne
  rw [hread padding hwritten hheader, hread padding' hwritten' hheader']
  exact fun heq => hne (Option.some.inj heq)

/-- The user data of the library: the type and the length of the comment, and a NUL after it. -/
theorem key_of_library_userData :
    parseComment (commentOfUserData (some (frameUserData [0, 53]
      (ruleComment ⟨1⟩ .udp) 1))) = some (⟨1⟩, .udp) :=
  (@key_of_userData acceptComment (KernelRule.new forwardChain)
    { KernelRule.new forwardChain with comment := ruleComment ⟨1⟩ .udp }
    { webRule.planFor .udp with ruleId := ⟨1⟩ } (setRuleComment_eq _ _) [0, 53] (by decide +kernel) 1).1

end Portalis
