import Portalis.Drafts

/-!
# The rule editor of the web client

`RuleEditor` shows one rule of the draft in a form.  A control shows the text of a field, and its change
handler patches every rule of the draft that has the id of the shown one.  The control of the source blocks
joins and splits a list of texts, the controls of the listen address and of the fixed source address write
tagged values, and `RulesTable` decides anew after every change which rule the form is about.

* `RulesTable.current_eq_some_iff`: which rule the form is about.
* `join_pieces_iff`: which texts the control of the source blocks gives back as they are.
* `map_patch_iff`: when a patch changes one rule of the list and no other.
* `typed_iff`: when a control shows, and the draft holds, what was typed.
* `typing_lost`: texts that are not kept.
* `current_after_typing`: what a run of typing changes.
-/

namespace Portalis

open Text

/-! ### Which rule is shown -/

/-- The state of `RulesTable`: the selected id, and what its search field and its filters let through. -/
structure RulesTable where
  selected : Option String
  visible : WebRule → Bool

namespace RulesTable

def current (table : RulesTable) (rules : List WebRule) : Option WebRule :=
  ((rules.find? fun rule => some rule.id = table.selected).or (rules.filter table.visible).head?).or
    rules.head?

/-- The form is about the rule that stands between `before` and `after`. -/
def Shows (table : RulesTable) (before : List WebRule) (rule : WebRule)
    (after : List WebRule) : Prop :=
  (some rule.id = table.selected ∧ ∀ other ∈ before, some other.id ≠ table.selected) ∨
    (∀ other ∈ before ++ rule :: after, some other.id ≠ table.selected) ∧
      ((table.visible rule = true ∧ ∀ other ∈ before, table.visible other = false) ∨
        before = [] ∧ ∀ other ∈ rule :: after, table.visible other = false)

/-- The rule found is the current one. -/
theorem current_of_shows {table : RulesTable} {before after : List WebRule}
    {rule : WebRule} (h : table.Shows before rule after) :
    table.current (before ++ rule :: after) = some rule := by
  unfold current
  rcases h with ⟨hselected, hbefore⟩ | ⟨hnone, hfallback⟩
  · have hfind : (before ++ rule :: after).find? (fun rule => some rule.id = table.selected) =
        some rule := by
      rw [List.find?_append, List.find?_eq_none.mpr fun other hmem => by simpa using hbefore other hmem]
      rw [List.find?_cons_of_pos (by simpa using hselected)]
      rfl
    rw [hfind]
    rfl
  · rw [List.find?_eq_none.mpr fun other hmem => by simpa using hnone other hmem, Option.none_or]
    rcases hfallback with ⟨hvisible, hbefore⟩ | ⟨hfirst, hhidden⟩
    · have hskip : before.filter table.visible = [] :=
        List.filter_eq_nil_iff.mpr fun other hmem => by simp [hbefore other hmem]
      rw [List.filter_append, hskip, List.nil_append, List.filter_cons_of_pos hvisible]
      rfl
    · rw [hfirst, List.nil_append,
        List.filter_eq_nil_iff.mpr fun other hmem => by simp [hhidden other hmem]]
      rfl

/-- Every current rule stands somewhere in the list. -/
theorem current_eq_some_iff {table : RulesTable} {rules : List WebRule} {rule : WebRule} :
    table.current rules = some rule ↔
      ∃ before after, rules = before ++ rule :: after ∧ table.Shows before rule after := by
  constructor
  · intro h
    rw [current, List.head?_filter] at h
    cases hselected : rules.find? fun rule => some rule.id = table.selected with
    | some found =>
      rw [hselected] at h
      cases h
      obtain ⟨hid, before, after, hsplit, hbefore⟩ := List.find?_eq_some_iff_append.mp hselected
      exact ⟨before, after, hsplit, Or.inl ⟨by simpa using hid, by simpa using hbefore⟩⟩
    | none =>
      rw [hselected, Option.none_or] at h
      have hnone : ∀ other ∈ rules, some other.id ≠ table.selected := by
        simpa using List.find?_eq_none.mp hselected
      cases hvisible : rules.find? table.visible with
      | some found =>
        rw [hvisible] at h
        cases h
        obtain ⟨hshown, before, after, hsplit, hbefore⟩ := List.find?_eq_some_iff_append.mp hvisible
        rw [hsplit] at hnone
        exact ⟨before, after, hsplit, Or.inr ⟨hnone, Or.inl ⟨hshown, by simpa using hbefore⟩⟩⟩
      | none =>
        rw [hvisible, Option.none_or] at h
        obtain ⟨after, hsplit⟩ := List.head?_eq_some_iff.mp h
        have hhidden : ∀ other ∈ rules, table.visible other = false := by
          simpa using List.find?_eq_none.mp hvisible
        rw [hsplit] at hnone hhidden
        exact ⟨[], after, hsplit, Or.inr ⟨hnone, Or.inr ⟨rfl, hhidden⟩⟩⟩
  · intro h
    obtain ⟨before, after, hsplit, hshows⟩ := h
    rw [hsplit]
    exact current_of_shows hshows

end RulesTable

/-! ### The source blocks as a text -/

/-- The white space and the line ends of the language. -/
def isJsBlank (c : Char) : Bool :=
  let n := c.toNat
  (9 ≤ n && n ≤ 13) || n == 0x20 || n == 0xA0 || n == 0x1680 || (0x2000 ≤ n && n ≤ 0x200A) ||
    n == 0x2028 || n == 0x2029 || n == 0x202F || n == 0x205F || n == 0x3000 || n == 0xFEFF

def isSeparator (c : Char) : Bool := c = ',' || c = '\n'

/-- `split(/[,\n]/)`, `trim` and `filter(Boolean)`. -/
def pieces (text : List Char) : List (List Char) :=
  ((text.splitOnP isSeparator).map (stripBy isJsBlank)).filter (· ≠ [])

/-- Nothing, or lines without commas, none of them blank or with blanks at an end. -/
def Verbatim (text : List Char) : Prop :=
  text = [] ∨ ',' ∉ text ∧ ∀ line ∈ text.splitOn '\n', line ≠ [] ∧ stripBy isJsBlank line = line

instance (text : List Char) : Decidable (Verbatim text) :=
  inferInstanceAs (Decidable (_ ∨ _ ∧ ∀ line ∈ _, _))

theorem pieces_spec {text piece : List Char} (h : piece ∈ pieces text) :
    piece ≠ [] ∧ stripBy isJsBlank piece = piece ∧ '\n' ∉ piece ∧ ',' ∉ piece := by
  obtain ⟨hmem, hne⟩ := List.mem_filter.mp h
  obtain ⟨whole, hwhole, hstrip⟩ := List.mem_map.mp hmem
  have hsolid : ∀ c ∈ piece, isSeparator c = false := by
    intro c hc
    rw [← hstrip] at hc
    exact not_of_mem_splitOnP hwhole c (mem_of_mem_stripBy hc)
  refine ⟨by simpa using hne, ?_, fun hnewline => ?_, fun hcomma => ?_⟩
  · rw [← hstrip]
    exact stripBy_stripBy isJsBlank whole
  · exact absurd (hsolid '\n' hnewline) (by decide)
  · exact absurd (hsolid ',' hcomma) (by decide)

/-- **Which texts survive** being split into blocks and joined again. -/
theorem join_pieces_iff (text : List Char) :
    ['\n'].intercalate (pieces text) = text ↔ Verbatim text := by
  constructor
  · intro hjoin
    by_cases hnil : pieces text = []
    · rw [hnil] at hjoin
      exact Or.inl hjoin.symm
    · right
      have hlines : text.splitOn '\n' = pieces text := by
        have hread := List.splitOn_intercalate '\n'
          (fun piece (hmem : piece ∈ pieces text) => (pieces_spec hmem).2.2.1) hnil
        rwa [hjoin] at hread
      refine ⟨fun hcomma => ?_, fun line hmem => ?_⟩
      · rw [← hjoin] at hcomma
        rcases mem_intercalate hcomma with hsep | ⟨piece, hmem, hin⟩
        · exact absurd (List.mem_singleton.mp hsep) (by decide)
        · exact (pieces_spec hmem).2.2.2 hin
      · rw [hlines] at hmem
        exact ⟨(pieces_spec hmem).1, (pieces_spec hmem).2.1⟩
  · intro hverbatim
    rcases hverbatim with hempty | ⟨hcomma, hlines⟩
    · rw [hempty]
      rfl
    · have hsplit : text.splitOnP isSeparator = text.splitOn '\n' := by
        rw [List.splitOn_eq_splitOnP]
        refine splitOnP_congr fun c hc => ?_
        have hne : c ≠ ',' := fun heq => hcomma (heq ▸ hc)
        simp only [isSeparator, hne, decide_false, Bool.false_or]
        rfl
      have hstrip : (text.splitOn '\n').map (stripBy isJsBlank) = text.splitOn '\n' :=
        (List.map_congr_left fun line hmem => (hlines line hmem).2).trans (List.map_id _)
      have hkeep : (text.splitOn '\n').filter (· ≠ []) = text.splitOn '\n' :=
        List.filter_eq_self.mpr fun line hmem => by simpa using (hlines line hmem).1
      rw [pieces, hsplit, hstrip, hkeep, List.intercalate_splitOn]

/-! ### The controls -/

/-- The controls with free text. -/
inductive FreeText
  | ruleName
  | targetIp
  | listenIp
  | snatSourceIp
  | sourceCidrs
  | comment
  deriving DecidableEq

namespace FreeText

/-- The text that a control shows, if the form has it. -/
def shown (rule : WebRule) : FreeText → Option String
  | ruleName => some rule.name
  | targetIp => some rule.targetIp
  | listenIp => rule.listenAddress
  | snatSourceIp => if rule.snat.1 = .fixed then some (rule.snat.2.getD "") else none
  | sourceCidrs => some (String.ofList (['\n'].intercalate (rule.sourceCidrs.map String.toList)))
  | comment => some rule.comment

/-- The change handlers of the form of `rule`, as patches of a rule.  The one of the fixed source address
writes the address that is there. -/
def patch (rule : WebRule) (text : String) : FreeText → WebRule → WebRule
  | ruleName, value => { value with name := text }
  | targetIp, value => { value with targetIp := text }
  | listenIp, value => { value with listenAddress := some text }
  | snatSourceIp, value => { value with snat := (.fixed, rule.snat.2) }
  | sourceCidrs, value => { value with sourceCidrs := (pieces text.toList).map String.ofList }
  | comment, value => { value with comment := text }

/-- The field behind the control holds what was typed. -/
def Holds (rule : WebRule) (text : String) : FreeText → Prop
  | ruleName => rule.name = text
  | targetIp => rule.targetIp = text
  | listenIp => rule.listenAddress = some text
  | snatSourceIp => rule.snat = (.fixed, some text)
  | sourceCidrs => rule.sourceCidrs = (pieces text.toList).map String.ofList
  | comment => rule.comment = text

/-- The rule with the typed value in the field behind the control. -/
def put (rule : WebRule) (text : String) : FreeText → WebRule
  | ruleName => { rule with name := text }
  | targetIp => { rule with targetIp := text }
  | listenIp => { rule with listenAddress := some text }
  | snatSourceIp => { rule with snat := (.fixed, some text) }
  | sourceCidrs => { rule with sourceCidrs := (pieces text.toList).map String.ofList }
  | comment => { rule with comment := text }

/-- The two rules differ at most in the field behind the control. -/
def SameElsewhere (rule other : WebRule) (c : FreeText) : Prop := c.put rule "" = c.put other ""

/-- What the control can be given without losing it. -/
def Keeps (rule : WebRule) (text : String) : FreeText → Prop
  | snatSourceIp => rule.snat = (.fixed, some text)
  | sourceCidrs => Verbatim text.toList
  | _ => True

theorem put_id (rule : WebRule) (text : String) (c : FreeText) : (c.put rule text).id = rule.id := by
  cases c <;> rfl

theorem eq_put_iff {rule other : WebRule} {text : String} {c : FreeText} :
    other = c.put rule text ↔ c.Holds other text ∧ SameElsewhere other rule c := by
  cases rule
  cases other
  cases c <;> simp [put, Holds, SameElsewhere] <;> tauto

theorem put_self_iff {rule : WebRule} {text : String} {c : FreeText} :
    c.put rule text = rule ↔ c.Holds rule text := by
  rw [eq_comm, eq_put_iff]
  exact ⟨fun h => h.1, fun h => ⟨h, rfl⟩⟩

/-- A handler puts the typed value into the field, but for the one of the fixed source address. -/
theorem patch_eq_put {rule : WebRule} {text : String} {c : FreeText}
    (h : c = snatSourceIp → rule.snat = (.fixed, some text)) (value : WebRule) :
    c.patch rule text value = c.put value text := by
  cases c with
  | snatSourceIp =>
    simp only [patch, h rfl]
    rfl
  | ruleName => rfl
  | targetIp => rfl
  | listenIp => rfl
  | sourceCidrs => rfl
  | comment => rfl

theorem patch_eq_put_iff {rule : WebRule} {text : String} {c : FreeText}
    (hrendered : c.shown rule ≠ none) :
    c.patch rule text rule = c.put rule text ↔ (c = snatSourceIp → rule.snat = (.fixed, some text)) := by
  constructor
  · intro heq hc
    subst hc
    have hfixed : rule.snat.1 = .fixed := by
      by_contra hne
      exact hrendered (if_neg hne)
    have hsnat : (SnatChoice.fixed, rule.snat.2) = (SnatChoice.fixed, some text) :=
      congrArg WebRule.snat heq
    rw [← hsnat, ← hfixed]
  · exact fun h => patch_eq_put h rule

theorem keeps_iff (c : FreeText) {rule : WebRule} {text : String} :
    c.Keeps rule text ↔ (c = snatSourceIp → rule.snat = (.fixed, some text)) ∧
      (c = sourceCidrs → Verbatim text.toList) := by
  cases c <;> simp [Keeps]

/-- The control shows the typed text of a rule that holds it, unless blanks or commas are lost. -/
theorem shown_put_iff {rule : WebRule} {text : String} {c : FreeText} :
    shown (c.put rule text) c = some text ↔ (c = sourceCidrs → Verbatim text.toList) := by
  cases c with
  | sourceCidrs =>
    simp only [shown, put, List.map_map, Option.some.injEq, forall_const]
    have hlist : (pieces text.toList).map (String.toList ∘ String.ofList) = pieces text.toList :=
      (List.map_congr_left fun piece _ => String.toList_ofList).trans (List.map_id _)
    rw [hlist, ← join_pieces_iff, ← String.toList_inj, String.toList_ofList]
  | ruleName => simp [shown, put]
  | targetIp => simp [shown, put]
  | listenIp => simp [shown, put]
  | snatSourceIp => simp [shown, put]
  | comment => simp [shown, put]

end FreeText

/-! ### `updateRule` -/

/-- The change handler of a control of the form of `rule`. -/
def FreeText.onChange (s : App WebConfig) (rule : WebRule) (c : FreeText) (text : String) :
    App WebConfig :=
  s.updateConfig (WebConfig.updateRule rule.id (c.patch rule text))

/-- A patch of one rule and no other: the others do not have its id, or the patch leaves them as they
are. -/
theorem map_patch_iff {before after : List WebRule} {rule patched : WebRule}
    {patch : WebRule → WebRule} :
    (before ++ rule :: after).map (fun other => if other.id = rule.id then patch other else other) =
        before ++ patched :: after ↔
      patch rule = patched ∧ ∀ other ∈ before ++ after, other.id = rule.id → patch other = other := by
  have hfix : ∀ rules : List WebRule,
      rules.map (fun other => if other.id = rule.id then patch other else other) = rules ↔
        ∀ other ∈ rules, other.id = rule.id → patch other = other := by
    intro rules
    induction rules with
    | nil => simp
    | cons first rest ih =>
      rw [List.map_cons, List.cons.injEq, ih, List.forall_mem_cons]
      by_cases hid : first.id = rule.id
      · rw [if_pos hid, forall_prop_of_true hid]
      · rw [if_neg hid]
        simp [hid]
  rw [List.map_append, List.map_cons, if_pos rfl, List.forall_mem_append, ← hfix, ← hfix]
  constructor
  · intro h
    obtain ⟨hbefore, hrest⟩ := List.append_inj h (List.length_map _)
    obtain ⟨hpatch, hafter⟩ := List.cons.inj hrest
    exact ⟨hpatch, hbefore, hafter⟩
  · intro h
    rw [h.1, h.2.1, h.2.2]

/-- What a change handler writes, in a draft where the rule stands between `before` and `after`. -/
theorem content_onChange_iff {s : App WebConfig} {before after : List WebRule} {rule rule' : WebRule}
    (hrules : s.config.content.rules = before ++ rule :: after) (c : FreeText) (text : String) :
    (c.onChange s rule text).config.content =
        { s.config.content with rules := before ++ rule' :: after } ↔
      c.patch rule text rule = rule' ∧
        ∀ other ∈ before ++ after, other.id = rule.id → c.patch rule text other = other := by
  have hchange : (c.onChange s rule text).config.content =
      { s.config.content with rules := s.config.content.rules.map fun other =>
          if other.id = rule.id then c.patch rule text other else other } := rfl
  rw [← map_patch_iff, ← hrules, hchange, WebConfig.mk.injEq]
  exact ⟨fun h => h.2, fun h => ⟨rfl, h⟩⟩

/-- What typing is to do: the draft has the shown rule with the typed value in the field and otherwise as it
was, all other rules as they were, and the form is still about this rule and shows the text. -/
def Typed (table : RulesTable) (before : List WebRule) (rule : WebRule)
    (after : List WebRule) (c : FreeText) (text : String) (config config' : WebConfig) :
    Prop :=
  ∃ rule', config' = { config with rules := before ++ rule' :: after } ∧
    table.Shows before rule' after ∧ c.shown rule' = some text ∧ c.Holds rule' text ∧
    c.SameElsewhere rule' rule

/-- Whether the form is about the same rule after the change. -/
theorem shows_put_iff {table : RulesTable} {before after : List WebRule} {rule : WebRule}
    (h : table.Shows before rule after) (c : FreeText) (text : String) :
    table.Shows before (c.put rule text) after ↔
      some rule.id = table.selected ∨ table.visible (c.put rule text) = true ∨
        before = [] ∧ ∀ other ∈ after, table.visible other = false := by
  have hid : (c.put rule text).id = rule.id := c.put_id rule text
  constructor
  · intro hput
    rcases hput with ⟨hselected, -⟩ | ⟨-, ⟨hvisible, -⟩ | ⟨hfirst, hhidden⟩⟩
    · rw [hid] at hselected
      exact Or.inl hselected
    · exact Or.inr (Or.inl hvisible)
    · exact Or.inr (Or.inr ⟨hfirst, (List.forall_mem_cons.mp hhidden).2⟩)
  · intro hstill
    rcases h with ⟨hselected, hbefore⟩ | ⟨hnone, hfallback⟩
    · rw [← hid] at hselected
      exact Or.inl ⟨hselected, hbefore⟩
    · right
      have hnone' : ∀ other ∈ before ++ c.put rule text :: after, some other.id ≠ table.selected := by
        rw [List.forall_mem_append, List.forall_mem_cons] at hnone ⊢
        rw [hid]
        exact hnone
      have hhead : before = [] ∨ ∀ other ∈ before, table.visible other = false := by
        rcases hfallback with ⟨-, hhidden⟩ | ⟨hfirst, -⟩
        · exact Or.inr hhidden
        · exact Or.inl hfirst
      have hbefore : ∀ other ∈ before, table.visible other = false := by
        rcases hhead with hfirst | hhidden
        · rw [hfirst]
          exact List.forall_mem_nil _
        · exact hhidden
      refine ⟨hnone', ?_⟩
      by_cases hvisible : table.visible (c.put rule text) = true
      · exact Or.inl ⟨hvisible, hbefore⟩
      · rcases hstill with hselected | hput | ⟨hfirst, hafter⟩
        · exact absurd hselected (hnone rule (List.mem_append_right before List.mem_cons_self))
        · exact absurd hput hvisible
        · exact Or.inr ⟨hfirst, List.forall_mem_cons.mpr ⟨by simpa using hvisible, hafter⟩⟩

/-- **When typing does what it is to do.**  The control keeps the text; the other rules with the id of the
shown one, if there are any, hold it already; and the form does not turn to another rule because the changed
one is no longer let through. -/
theorem typed_iff {table : RulesTable} {before after : List WebRule} {rule : WebRule}
    (hshows : table.Shows before rule after) {c : FreeText} (hrendered : c.shown rule ≠ none)
    {s : App WebConfig} (hrules : s.config.content.rules = before ++ rule :: after) (text : String) :
    Typed table before rule after c text s.config.content (c.onChange s rule text).config.content ↔
      c.Keeps rule text ∧
      (∀ other ∈ before ++ after, other.id = rule.id → c.Holds other text) ∧
      (some rule.id = table.selected ∨ table.visible (c.put rule text) = true ∨
        before = [] ∧ ∀ other ∈ after, table.visible other = false) := by
  rw [c.keeps_iff, ← shows_put_iff hshows]
  constructor
  · intro htyped
    obtain ⟨rule', hconfig, hstill, hshown, hholds, hsame⟩ := htyped
    obtain ⟨hpatch, hothers⟩ := (content_onChange_iff hrules c text).mp hconfig
    have hput : rule' = c.put rule text := FreeText.eq_put_iff.mpr ⟨hholds, hsame⟩
    rw [hput] at hpatch hstill hshown
    have hsnat := (FreeText.patch_eq_put_iff hrendered).mp hpatch
    refine ⟨⟨hsnat, FreeText.shown_put_iff.mp hshown⟩, fun other hmem hid => ?_, hstill⟩
    have hfix := hothers other hmem hid
    rw [FreeText.patch_eq_put hsnat] at hfix
    exact FreeText.put_self_iff.mp hfix
  · intro hcond
    obtain ⟨⟨hsnat, hverbatim⟩, hothers, hstill⟩ := hcond
    obtain ⟨hholds, hsame⟩ := FreeText.eq_put_iff.mp (Eq.refl (c.put rule text))
    refine ⟨c.put rule text, (content_onChange_iff hrules c text).mpr ⟨FreeText.patch_eq_put hsnat rule, ?_⟩,
      hstill, FreeText.shown_put_iff.mpr hverbatim, hholds, hsame⟩
    intro other hmem hid
    rw [FreeText.patch_eq_put hsnat]
    exact FreeText.put_self_iff.mpr (hothers other hmem hid)

/-! ### Texts that are kept and texts that are not -/

/-- A rule with a fixed source address and one source block. -/
def officeWebRule : WebRule :=
  { WebConfig.emptyRule "office" with
    sourceCidrs := ["10.0.0.0/8"]
    snat := (.fixed, some "192.0.2.1") }

/-- The page with that rule, selected. -/
def officePage : App WebConfig := App.opened ⟨1, [officeWebRule]⟩ []

def officeTable : RulesTable := ⟨some "office", fun _ => true⟩

theorem office_shown : officeTable.Shows [] officeWebRule [] :=
  Or.inl ⟨rfl, List.forall_mem_nil _⟩

theorem typed_name :
    Typed officeTable [] officeWebRule [] .ruleName "Office" officePage.config.content
      (FreeText.ruleName.onChange officePage officeWebRule "Office").config.content :=
  (typed_iff office_shown (by decide) rfl "Office").mpr
    ⟨trivial, List.forall_mem_nil _, Or.inl rfl⟩

/-- **Typing that is lost.**  A new fixed source address is discarded, and a comma after a source block is
gone before the next block can be typed. -/
theorem typing_lost :
    (¬ Typed officeTable [] officeWebRule [] .snatSourceIp "192.0.2.2" officePage.config.content
      (FreeText.snatSourceIp.onChange officePage officeWebRule "192.0.2.2").config.content) ∧
    (FreeText.snatSourceIp.onChange officePage officeWebRule "192.0.2.2").config.content =
      officePage.config.content ∧
    (¬ Typed officeTable [] officeWebRule [] .sourceCidrs "10.0.0.0/8," officePage.config.content
      (FreeText.sourceCidrs.onChange officePage officeWebRule "10.0.0.0/8,").config.content) ∧
    (FreeText.sourceCidrs.onChange officePage officeWebRule "10.0.0.0/8,").config.content =
      officePage.config.content := by
  refine ⟨fun htyped => ?_, by decide, fun htyped => ?_, by decide⟩
  · obtain ⟨rule', hconfig, -, -, hholds, -⟩ := htyped
    have hrules := congrArg WebConfig.rules hconfig
    rw [List.nil_append] at hrules
    obtain ⟨hrule, -⟩ := List.cons.inj hrules
    rw [← hrule] at hholds
    have hsnat : (SnatChoice.fixed, some "192.0.2.1") = (SnatChoice.fixed, some "192.0.2.2") := hholds
    exact absurd hsnat (by decide)
  · obtain ⟨rule', hconfig, -, hshown, -, -⟩ := htyped
    have hrules := congrArg WebConfig.rules hconfig
    rw [List.nil_append] at hrules
    obtain ⟨hrule, -⟩ := List.cons.inj hrules
    rw [← hrule] at hshown
    exact absurd hshown (by decide)

/-! ### A run of typing -/

/-- One change in the form that is shown, if one is. -/
def RulesTable.typeInto (table : RulesTable) (s : App WebConfig) (typing : FreeText × String) : App WebConfig :=
  match table.current s.config.content.rules with
  | some rule => typing.1.onChange s rule typing.2
  | none => s

/-- What the change handler makes of the rule that is shown. -/
def FreeText.typedRule (rule : WebRule) (typing : FreeText × String) : WebRule :=
  typing.1.patch rule typing.2 rule

theorem FreeText.typedRule_id (rule : WebRule) (typing : FreeText × String) :
    (typedRule rule typing).id = rule.id := by
  obtain ⟨c, text⟩ := typing
  cases c <;> rfl

namespace RulesTable

variable {table : RulesTable} {before after : List WebRule} {rule : WebRule}

/-- A selected rule is shown when no rule before it has its id. -/
theorem shows_of_selected (hselected : table.selected = some rule.id)
    (hothers : ∀ other ∈ before ++ after, other.id ≠ rule.id) : table.Shows before rule after := by
  refine Or.inl ⟨hselected.symm, fun other hmem hsame => ?_⟩
  rw [hselected] at hsame
  exact hothers other (List.mem_append_left after hmem) (Option.some.inj hsame)

/-- **The step lemma.** -/
theorem content_typeInto {s : App WebConfig} (hselected : table.selected = some rule.id)
    (hothers : ∀ other ∈ before ++ after, other.id ≠ rule.id)
    (hrules : s.config.content.rules = before ++ rule :: after) (typing : FreeText × String) :
    (table.typeInto s typing).config.content =
      { s.config.content with rules := before ++ FreeText.typedRule rule typing :: after } := by
  have hcurrent : table.current s.config.content.rules = some rule := by
    rw [hrules]
    exact current_of_shows (shows_of_selected hselected hothers)
  unfold typeInto
  rw [hcurrent]
  -- no other rule has the id that the handler patches
  exact (content_onChange_iff hrules typing.1 typing.2).mpr
    ⟨rfl, fun other hmem hid => absurd hid (hothers other hmem)⟩

theorem content_typing {s : App WebConfig} (hselected : table.selected = some rule.id)
    (hothers : ∀ other ∈ before ++ after, other.id ≠ rule.id)
    (hrules : s.config.content.rules = before ++ rule :: after) (typings : List (FreeText × String)) :
    (typings.foldl table.typeInto s).config.content =
        { s.config.content with rules := before ++ typings.foldl FreeText.typedRule rule :: after } ∧
      (typings.foldl FreeText.typedRule rule).id = rule.id := by
  induction typings generalizing s rule with
  | nil =>
    rw [List.foldl_nil, List.foldl_nil, ← hrules]
    exact ⟨rfl, rfl⟩
  | cons typing rest ih =>
    have hstep := content_typeInto hselected hothers hrules typing
    have hid := FreeText.typedRule_id rule typing
    rw [← hid] at hselected hothers
    rw [List.foldl_cons, List.foldl_cons]
    obtain ⟨hcontent, hsame⟩ := ih hselected hothers (congrArg WebConfig.rules hstep)
    rw [hstep] at hcontent
    exact ⟨hcontent, hsame.trans hid⟩

/-- **A run of typing.**  While the form is about a selected rule and the ids of the rules differ: whatever is
typed into its controls, in whatever order, the form stays about this rule, the rule is what its handlers make
of it one after the other, and every other rule stays as it was. -/
theorem current_after_typing {s : App WebConfig}
    (hcurrent : table.current s.config.content.rules = some rule) (hselected : table.selected = some rule.id)
    (hids : (s.config.content.rules.map (·.id)).Nodup) (typings : List (FreeText × String)) :
    ∃ before after, s.config.content.rules = before ++ rule :: after ∧
      (typings.foldl table.typeInto s).config.content =
        { s.config.content with rules := before ++ typings.foldl FreeText.typedRule rule :: after } ∧
      table.current (typings.foldl table.typeInto s).config.content.rules =
        some (typings.foldl FreeText.typedRule rule) := by
  obtain ⟨before, after, hrules, -⟩ := current_eq_some_iff.mp hcurrent
  have hothers : ∀ other ∈ before ++ after, other.id ≠ rule.id := by
    rw [hrules, List.map_append, List.map_cons, List.nodup_middle, List.nodup_cons, ← List.map_append] at hids
    intro other hmem hsame
    exact hids.1 (hsame ▸ List.mem_map_of_mem hmem)
  obtain ⟨hcontent, hid⟩ := content_typing hselected hothers hrules typings
  refine ⟨before, after, hrules, hcontent, ?_⟩
  rw [hcontent]
  rw [← hid] at hselected hothers
  exact current_of_shows (shows_of_selected hselected hothers)

end RulesTable

end Portalis
