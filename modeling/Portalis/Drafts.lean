import Portalis.Config
import Portalis.Programs

/-!
# The draft of the web client

`updateConfig`, `refresh` and `save` of `main.tsx`: one page, any number of its requests in flight, and a
server that stores drafts one after the other, from this page and from others.  Every edit has a number,
and a draft carries the numbers of the edits that went into it; nothing the page does looks at them.

* `Bounded`: what holds in every run.  `Unhurried`: when the success of a save may clear the dirty flag.
* `refresh_safe_of_reaches`: then no refresh discards an unsaved edit or goes back behind a saved draft,
  and a step that does not wait is followed by a run in which one does.
* `hurried_refresh_loses`: both can happen.
-/

namespace Portalis

open Programs

/-! ### The drafts -/

/-- A config of the page, and the edits that went into it. -/
structure Draft (Content : Type) where
  content : Content
  edits : List ℕ
  deriving DecidableEq

/-- A save in flight: its body, and whether the server has stored it. -/
structure SaveRequest (Content : Type) where
  draft : Draft Content
  stored : Bool

/-- The draft that the server answers a refresh with, and how many were stored when it read it. -/
structure ReadDraft (Content : Type) where
  draft : Draft Content
  version : ℕ

/-- The page: what it shows, its dirty flag and the edits made so far, its saves and refreshes in flight (a
refresh with what the server has read for it).  The server: its drafts, and which of them are of this page. -/
structure App (Content : Type) where
  config : Draft Content
  draftDirty : Bool
  edits : ℕ
  saves : List (SaveRequest Content)
  refreshes : List (Option (ReadDraft Content))
  drafts : List (Draft Content)
  savedHere : List ℕ

/-- What can happen next. -/
inductive AppEvent (Content : Type)
  /-- An edit. -/
  | updateConfig (value : Content → Content)
  /-- `save` sends the config that is shown. -/
  | save
  /-- The server stores the body of a save. -/
  | store (i : ℕ)
  /-- The success of a save comes. -/
  | saved (i : ℕ)
  /-- A save fails, whether its draft was stored or not. -/
  | saveFailed (i : ℕ)
  /-- `refresh` sends its requests: the timer, the button, the end of `apply`. -/
  | refresh
  /-- The server reads its newest draft for a refresh. -/
  | read (i : ℕ)
  /-- Both answers of a refresh have come. -/
  | refreshed (i : ℕ)
  | refreshFailed (i : ℕ)
  /-- Someone else saves a draft. -/
  | saveElsewhere (content : Content)

namespace App

variable {Content : Type}

/-- `get_draft`: the newest draft, or the default config when there is none. -/
def getDraft (fallback : Content) (drafts : List (Draft Content)) : Draft Content :=
  drafts.getLast?.getD ⟨fallback, []⟩

def updateConfig (s : App Content) (value : Content → Content) : App Content :=
  { s with
    draftDirty := true
    config := ⟨value s.config.content, s.config.edits ++ [s.edits]⟩
    edits := s.edits + 1 }

/-- The server stores the body of the `i`-th save. -/
def store (s : App Content) (i : ℕ) (draft : Draft Content) : App Content :=
  { s with
    saves := s.saves.set i ⟨draft, true⟩
    drafts := s.drafts ++ [draft]
    savedHere := s.savedHere ++ [s.drafts.length + 1] }

/-- The end of `save`. -/
def saved (s : App Content) (i : ℕ) : App Content :=
  { s with draftDirty := false, saves := s.saves.eraseIdx i }

/-- The server reads its newest draft for the `i`-th refresh. -/
def read (fallback : Content) (s : App Content) (i : ℕ) : App Content :=
  { s with
    refreshes := s.refreshes.set i (some ⟨getDraft fallback s.drafts, s.drafts.length⟩) }

/-- The end of `refresh`. -/
def refreshed (s : App Content) (i : ℕ) (served : ReadDraft Content) : App Content :=
  { s with
    config := if s.draftDirty then s.config else served.draft
    refreshes := s.refreshes.eraseIdx i }

def step (fallback : Content) (s : App Content) : AppEvent Content → Option (App Content)
  | .updateConfig value => some (s.updateConfig value)
  | .save => some { s with saves := s.saves ++ [⟨s.config, false⟩] }
  | .store i =>
    match s.saves[i]? with
    | some ⟨draft, false⟩ => some (s.store i draft)
    | _ => none
  | .saved i =>
    match s.saves[i]? with
    | some ⟨_, true⟩ => some (s.saved i)
    | _ => none
  | .saveFailed i => some { s with saves := s.saves.eraseIdx i }
  | .refresh => some { s with refreshes := s.refreshes ++ [none] }
  | .read i =>
    match s.refreshes[i]? with
    | some none => some (s.read fallback i)
    | _ => none
  | .refreshed i =>
    match s.refreshes[i]? with
    | some (some served) => some (s.refreshed i served)
    | _ => none
  | .refreshFailed i => some { s with refreshes := s.refreshes.eraseIdx i }
  | .saveElsewhere content => some { s with drafts := s.drafts ++ [⟨content, []⟩] }

/-- A page that has just been opened, before its first refresh. -/
def opened (initial : Content) (stored : List Content) : App Content :=
  ⟨⟨initial, []⟩, false, 0, [], [], stored.map fun content => ⟨content, []⟩, []⟩

/-! ### What is to hold -/

/-- The edit is in a draft that the server has stored. -/
def Stored (s : App Content) (edit : ℕ) : Prop := ∃ draft ∈ s.drafts, edit ∈ draft.edits

/-- The refresh was read before the server stored a draft of this page. -/
def Overtaken (s : App Content) (served : ReadDraft Content) : Prop :=
  ∃ version ∈ s.savedHere, served.version < version

/-- A refresh that ends now discards no edit that is in no stored draft. -/
def KeepsEdits (fallback : Content) (s : App Content) : Prop :=
  ∀ i s', s.step fallback (.refreshed i) = some s' →
    ∀ edit ∈ s.config.edits, edit ∉ s'.config.edits → s.Stored edit

/-- A refresh that ends now and replaces the shown config does not replace it by a draft older than one of
this page. -/
def NeverOlder (s : App Content) : Prop :=
  ∀ served, some served ∈ s.refreshes → s.draftDirty = false → ¬ s.Overtaken served

/-- The success of a save comes when every edit that is shown has been stored, and no unanswered refresh
was read before a draft of this page was stored; and the server stores nothing from a page without unsaved
edits while it has read a refresh that is unanswered. -/
def Unhurried (s : App Content) : AppEvent Content → Prop
  | .saved _ => (∀ edit ∈ s.config.edits, s.Stored edit) ∧
      ∀ served, some served ∈ s.refreshes → ¬ s.Overtaken served
  | .store _ => s.draftDirty = false → ∀ served, some served ∉ s.refreshes
  | _ => True

/-! ### Steps that wait for something -/

section

variable {fallback : Content} {s s' : App Content}

theorem step_store {i : ℕ} :
    s.step fallback (.store i) = some s' ↔
      ∃ draft, s.saves[i]? = some ⟨draft, false⟩ ∧ s' = s.store i draft := by
  simp only [step]
  split
  next draft hsave =>
    rw [hsave]
    refine ⟨fun h => ⟨draft, rfl, (Option.some.inj h).symm⟩, fun h => ?_⟩
    obtain ⟨draft', hsame, hs'⟩ := h
    cases hsame
    rw [hs']
  next hother =>
    refine ⟨fun h => (by cases h), fun h => ?_⟩
    obtain ⟨draft, hsave, -⟩ := h
    exact absurd hsave (hother draft)

theorem step_saved {i : ℕ} :
    s.step fallback (.saved i) = some s' ↔
      (∃ draft, s.saves[i]? = some ⟨draft, true⟩) ∧ s' = s.saved i := by
  simp only [step]
  split
  next draft hsave =>
    rw [hsave]
    exact ⟨fun h => ⟨⟨draft, rfl⟩, (Option.some.inj h).symm⟩, fun h => by rw [h.2]⟩
  next hother =>
    refine ⟨fun h => (by cases h), fun h => ?_⟩
    obtain ⟨⟨draft, hsave⟩, -⟩ := h
    exact absurd hsave (hother draft)

theorem step_read {i : ℕ} :
    s.step fallback (.read i) = some s' ↔ s.refreshes[i]? = some none ∧ s' = s.read fallback i := by
  simp only [step]
  split
  next hunread =>
    exact ⟨fun h => ⟨hunread, (Option.some.inj h).symm⟩, fun h => by rw [h.2]⟩
  next hother =>
    exact ⟨fun h => (by cases h), fun h => absurd h.1 hother⟩

theorem step_refreshed {i : ℕ} :
    s.step fallback (.refreshed i) = some s' ↔
      ∃ served, s.refreshes[i]? = some (some served) ∧ s' = s.refreshed i served := by
  simp only [step]
  split
  next served hserved =>
    rw [hserved]
    refine ⟨fun h => ⟨served, rfl, (Option.some.inj h).symm⟩, fun h => ?_⟩
    obtain ⟨served', hsame, hs'⟩ := h
    cases hsame
    rw [hs']
  next hother =>
    refine ⟨fun h => (by cases h), fun h => ?_⟩
    obtain ⟨served, hserved, -⟩ := h
    exact absurd hserved (hother served)

/-! ### What holds in every run -/

/-- A version is at most the number of drafts, and what a refresh was answered with has been stored. -/
structure Bounded (s : App Content) : Prop where
  savedHere : ∀ version ∈ s.savedHere, version ≤ s.drafts.length
  version : ∀ served, some served ∈ s.refreshes → served.version ≤ s.drafts.length
  draft : ∀ served, some served ∈ s.refreshes → ∀ edit ∈ served.draft.edits, s.Stored edit

theorem Stored.append {edit : ℕ} (h : s.Stored edit) {more : List (Draft Content)}
    (hs' : s'.drafts = s.drafts ++ more) : s'.Stored edit := by
  obtain ⟨draft, hmem, hedit⟩ := h
  exact ⟨draft, by rw [hs']; exact List.mem_append_left more hmem, hedit⟩

theorem stored_of_getDraft {edit : ℕ} (h : edit ∈ (getDraft fallback s.drafts).edits) :
    s.Stored edit := by
  unfold getDraft at h
  cases hlast : s.drafts.getLast? with
  | none =>
    rw [hlast] at h
    cases h
  | some draft =>
    rw [hlast] at h
    exact ⟨draft, List.mem_of_getLast? hlast, h⟩

/-- More drafts, and refreshes that were in flight before. -/
theorem Bounded.of_append (h : Bounded s) {more : List (Draft Content)}
    (hdrafts : s'.drafts = s.drafts ++ more)
    (hsaved : ∀ version ∈ s'.savedHere, version ∈ s.savedHere ∨ version ≤ s'.drafts.length)
    (hrefreshes : ∀ served, some served ∈ s'.refreshes → some served ∈ s.refreshes) :
    Bounded s' where
  savedHere := by
    intro version hmem
    rcases hsaved version hmem with hold | hnew
    · have hle := h.savedHere version hold
      rw [hdrafts, List.length_append]
      omega
    · exact hnew
  version := by
    intro served hmem
    have hle := h.version served (hrefreshes served hmem)
    rw [hdrafts, List.length_append]
    omega
  draft := fun served hmem edit hedit =>
    (h.draft served (hrefreshes served hmem) edit hedit).append hdrafts

/-- The drafts, their versions and the refreshes in flight stay as they were. -/
theorem Bounded.of_same (h : Bounded s) (hdrafts : s'.drafts = s.drafts)
    (hsaved : s'.savedHere = s.savedHere)
    (hrefreshes : ∀ served, some served ∈ s'.refreshes → some served ∈ s.refreshes) : Bounded s' :=
  h.of_append (by rw [hdrafts, List.append_nil]) (fun version hmem => Or.inl (hsaved ▸ hmem)) hrefreshes

/-- A refresh in flight after a read is the one that was read, or was in flight before. -/
theorem mem_read {i : ℕ} {served : ReadDraft Content}
    (h : some served ∈ (s.read fallback i).refreshes) :
    served = ⟨getDraft fallback s.drafts, s.drafts.length⟩ ∨ some served ∈ s.refreshes := by
  rcases List.mem_or_eq_of_mem_set h with hold | hnew
  · exact Or.inr hold
  · exact Or.inl (Option.some.inj hnew)

/-- A refresh that has only been asked for brings nothing. -/
theorem mem_refresh {served : ReadDraft Content} {refreshes : List (Option (ReadDraft Content))}
    (h : some served ∈ refreshes ++ [none]) : some served ∈ refreshes := by
  rcases List.mem_append.mp h with hold | hnew
  · exact hold
  · rw [List.mem_singleton] at hnew
    cases hnew

theorem Bounded.step {e : AppEvent Content} (h : Bounded s) (hstep : s.step fallback e = some s') :
    Bounded s' := by
  cases e with
  | updateConfig value =>
    cases hstep
    exact h.of_same rfl rfl fun _ hmem => hmem
  | save =>
    cases hstep
    exact h.of_same rfl rfl fun _ hmem => hmem
  | store i =>
    obtain ⟨draft, -, hs'⟩ := step_store.mp hstep
    subst hs'
    refine h.of_append rfl ?_ fun _ hmem => hmem
    intro version hmem
    rcases List.mem_append.mp hmem with hold | hnew
    · exact Or.inl hold
    · rw [List.mem_singleton] at hnew
      right
      rw [hnew]
      show s.drafts.length + 1 ≤ (s.drafts ++ [draft]).length
      rw [List.length_append, List.length_singleton]
  | saved i =>
    obtain ⟨-, hs'⟩ := step_saved.mp hstep
    subst hs'
    exact h.of_same rfl rfl fun _ hmem => hmem
  | saveFailed i =>
    cases hstep
    exact h.of_same rfl rfl fun _ hmem => hmem
  | refresh =>
    cases hstep
    exact h.of_same rfl rfl fun _ hmem => mem_refresh hmem
  | read i =>
    obtain ⟨-, hs'⟩ := step_read.mp hstep
    subst hs'
    refine ⟨h.savedHere, fun served hmem => ?_, fun served hmem edit hedit => ?_⟩
    · rcases mem_read hmem with hnew | hold
      · rw [hnew]
        exact le_refl s.drafts.length
      · exact h.version served hold
    · rcases mem_read hmem with hnew | hold
      · subst hnew
        exact stored_of_getDraft hedit
      · exact h.draft served hold edit hedit
  | refreshed i =>
    obtain ⟨served, -, hs'⟩ := step_refreshed.mp hstep
    subst hs'
    exact h.of_same rfl rfl fun _ hmem => List.mem_of_mem_eraseIdx hmem
  | refreshFailed i =>
    cases hstep
    exact h.of_same rfl rfl fun _ hmem => List.mem_of_mem_eraseIdx hmem
  | saveElsewhere content =>
    cases hstep
    exact h.of_append rfl (fun _ hmem => Or.inl hmem) fun _ hmem => hmem

theorem bounded_opened (initial : Content) (stored : List Content) : Bounded (opened initial stored) :=
  ⟨fun _ hmem => absurd hmem List.not_mem_nil, fun _ hmem => absurd hmem List.not_mem_nil,
    fun _ hmem => absurd hmem List.not_mem_nil⟩

theorem bounded_of_reaches {guard : App Content → AppEvent Content → Prop} {initial : Content}
    {stored : List Content} (h : Reaches (App.step fallback) guard (opened initial stored) s) :
    Bounded s :=
  h.invariant (bounded_opened initial stored) fun _ _ _ _ hs hstep => hs.step hstep

/-! ### Runs in which the flag is cleared in time -/

/-- Without the flag, nothing that is shown is unsaved and no refresh is late. -/
structure Tame (s : App Content) : Prop where
  unsaved : s.draftDirty = false → ∀ edit ∈ s.config.edits, s.Stored edit
  neverOlder : s.NeverOlder

/-- The shown config, the flag and this page's versions stay as they were, and there are more drafts. -/
theorem Tame.of_append (h : Tame s) {more : List (Draft Content)} (hdrafts : s'.drafts = s.drafts ++ more)
    (hdirty : s'.draftDirty = s.draftDirty) (hconfig : s'.config = s.config)
    (hsaved : s'.savedHere = s.savedHere)
    (hrefreshes : ∀ served, some served ∈ s'.refreshes → some served ∈ s.refreshes) : Tame s' where
  unsaved := by
    intro hclean edit hedit
    rw [hdirty] at hclean
    rw [hconfig] at hedit
    exact (h.unsaved hclean edit hedit).append hdrafts
  neverOlder := by
    intro served hmem hclean hovertaken
    rw [hdirty] at hclean
    unfold Overtaken at hovertaken
    rw [hsaved] at hovertaken
    exact h.neverOlder served (hrefreshes served hmem) hclean hovertaken

/-- What a refresh was answered with is not older than what this page saved before it was read. -/
theorem Bounded.not_overtaken_read (h : Bounded s) {i : ℕ} :
    ¬ (s.read fallback i).Overtaken ⟨getDraft fallback s.drafts, s.drafts.length⟩ := by
  intro hovertaken
  obtain ⟨version, hmem, hlt⟩ := hovertaken
  have hle := h.savedHere version hmem
  have hlt : s.drafts.length < version := hlt
  omega

theorem Tame.step {e : AppEvent Content} (hbounded : Bounded s) (h : Tame s) (hguard : s.Unhurried e)
    (hstep : s.step fallback e = some s') : Tame s' := by
  cases e with
  | updateConfig value =>
    cases hstep
    exact ⟨fun hclean => (by cases hclean), fun _ _ hclean => (by cases hclean)⟩
  | save =>
    cases hstep
    exact h.of_append (List.append_nil _).symm rfl rfl rfl fun _ hmem => hmem
  | store i =>
    obtain ⟨draft, -, hs'⟩ := step_store.mp hstep
    subst hs'
    refine ⟨fun hclean edit hedit => ?_, fun served hmem hclean => ?_⟩
    · exact Stored.append (h.unsaved hclean edit hedit) rfl
    · exact absurd hmem (hguard hclean served)
  | saved i =>
    obtain ⟨-, hs'⟩ := step_saved.mp hstep
    subst hs'
    exact ⟨fun _ => hguard.1, fun served hmem _ => hguard.2 served hmem⟩
  | saveFailed i =>
    cases hstep
    exact h.of_append (List.append_nil _).symm rfl rfl rfl fun _ hmem => hmem
  | refresh =>
    cases hstep
    exact h.of_append (List.append_nil _).symm rfl rfl rfl fun _ hmem => mem_refresh hmem
  | read i =>
    obtain ⟨-, hs'⟩ := step_read.mp hstep
    subst hs'
    refine ⟨h.unsaved, fun served hmem hclean => ?_⟩
    rcases mem_read hmem with hnew | hold
    · subst hnew
      exact hbounded.not_overtaken_read
    · exact h.neverOlder served hold hclean
  | refreshed i =>
    obtain ⟨served, hserved, hs'⟩ := step_refreshed.mp hstep
    subst hs'
    refine ⟨fun hclean edit hedit => ?_, fun other hmem hclean => ?_⟩
    · have hclean : s.draftDirty = false := hclean
      have hedit : edit ∈ (if s.draftDirty then s.config else served.draft).edits := hedit
      rw [hclean, if_neg Bool.false_ne_true] at hedit
      exact hbounded.draft served (List.mem_of_getElem? hserved) edit hedit
    · exact h.neverOlder other (List.mem_of_mem_eraseIdx hmem) hclean
  | refreshFailed i =>
    cases hstep
    exact h.of_append (List.append_nil _).symm rfl rfl rfl fun _ hmem => List.mem_of_mem_eraseIdx hmem
  | saveElsewhere content =>
    cases hstep
    exact h.of_append rfl rfl rfl rfl fun _ hmem => hmem

theorem tame_of_reaches {initial : Content} {stored : List Content}
    (h : Reaches (App.step fallback) Unhurried (opened initial stored) s) : Tame s := by
  have hstart : Bounded (opened initial stored) ∧ Tame (opened initial stored) :=
    ⟨bounded_opened initial stored, fun _ _ hedit => absurd hedit List.not_mem_nil,
      fun _ hmem => absurd hmem List.not_mem_nil⟩
  have hboth : Bounded s ∧ Tame s := by
    refine @Reaches.invariant _ _ _ _ (fun s => Bounded s ∧ Tame s) _ _ hstart ?_ h
    intro s e s' hguard hs hstep
    exact ⟨hs.1.step hstep, hs.2.step hs.1 hguard hstep⟩
  exact hboth.2

theorem Tame.keepsEdits (h : Tame s) : s.KeepsEdits fallback := by
  intro i s' hstep edit hedit hgone
  obtain ⟨served, -, hs'⟩ := step_refreshed.mp hstep
  subst hs'
  cases hdirty : s.draftDirty with
  | false => exact h.unsaved hdirty edit hedit
  | true =>
    have hgone : edit ∉ (if s.draftDirty then s.config else served.draft).edits := hgone
    rw [hdirty, if_pos rfl] at hgone
    exact absurd hedit hgone

/-! ### Steps that do not wait -/

/-- The next refresh discards an unsaved edit of a page without the flag. -/
theorem loses_unsaved {edit : ℕ} (hclean : s.draftDirty = false) (hedit : edit ∈ s.config.edits)
    (hunsaved : ¬ s.Stored edit) :
    ∃ s', Reaches (App.step fallback) (fun _ _ => True) s s' ∧ ¬ s'.KeepsEdits fallback := by
  have hlast : (s.refreshes ++ [none])[s.refreshes.length]? = some none := by
    rw [List.getElem?_append_right (le_refl _), Nat.sub_self]
    rfl
  have hsent : s.step fallback .refresh = some { s with refreshes := s.refreshes ++ [none] } := rfl
  have hread := (@step_read _ fallback { s with refreshes := s.refreshes ++ [none] } _
    s.refreshes.length).mpr ⟨hlast, rfl⟩
  refine ⟨_, (Reaches.start.step trivial hsent).step trivial hread, fun hkeeps => hunsaved ?_⟩
  have hserved : (App.read fallback { s with refreshes := s.refreshes ++ [none] }
      s.refreshes.length).refreshes[s.refreshes.length]? =
        some (some ⟨getDraft fallback s.drafts, s.drafts.length⟩) := by
    refine List.getElem?_set_self ?_
    rw [List.length_append, List.length_singleton]
    exact Nat.lt_succ_self _
  refine hkeeps s.refreshes.length _ (step_refreshed.mpr ⟨_, hserved, rfl⟩) edit hedit fun hkept => ?_
  have hkept : edit ∈ (if s.draftDirty then s.config else getDraft fallback s.drafts).edits := hkept
  rw [hclean, if_neg Bool.false_ne_true] at hkept
  exact hunsaved (stored_of_getDraft hkept)

/-- Where a step does not wait, a run from there has a refresh that loses something. -/
theorem loses_of_hurried {e : AppEvent Content} (h : Bounded s) (hstep : s.step fallback e = some s')
    (hhurried : ¬ s.Unhurried e) :
    ∃ s'', Reaches (App.step fallback) (fun _ _ => True) s' s'' ∧
      ¬ (s''.KeepsEdits fallback ∧ s''.NeverOlder) := by
  cases e with
  | store i =>
    obtain ⟨draft, -, hs'⟩ := step_store.mp hstep
    subst hs'
    refine ⟨_, .start, fun hsafe => hhurried fun hclean served hmem => ?_⟩
    refine hsafe.2 served hmem hclean ⟨s.drafts.length + 1, ?_, ?_⟩
    · exact List.mem_append_right _ (List.mem_singleton.mpr rfl)
    · exact Nat.lt_succ_of_le (h.version served hmem)
  | saved i =>
    obtain ⟨-, hs'⟩ := step_saved.mp hstep
    subst hs'
    by_cases hstored : ∀ edit ∈ s.config.edits, s.Stored edit
    · refine ⟨_, .start, fun hsafe => hhurried ⟨hstored, fun served hmem => ?_⟩⟩
      exact hsafe.2 served hmem rfl
    · push Not at hstored
      obtain ⟨edit, hedit, hunsaved⟩ := hstored
      obtain ⟨s'', hrun, hloses⟩ := @loses_unsaved _ fallback (s.saved i) edit rfl hedit hunsaved
      exact ⟨s'', hrun, fun hsafe => hloses hsafe.1⟩
  | updateConfig value => exact absurd trivial hhurried
  | save => exact absurd trivial hhurried
  | saveFailed i => exact absurd trivial hhurried
  | refresh => exact absurd trivial hhurried
  | read i => exact absurd trivial hhurried
  | refreshed i => exact absurd trivial hhurried
  | refreshFailed i => exact absurd trivial hhurried
  | saveElsewhere content => exact absurd trivial hhurried

/-- **Refreshes lose nothing.**  In every run in which the saves wait: a refresh that ends discards no edit
that the server has not stored, and does not go back behind a draft that this page has saved.  The first
save that does not wait is the start of a run in which one does. -/
theorem refresh_safe_of_reaches {initial : Content} {stored : List Content}
    (h : Reaches (App.step fallback) Unhurried (opened initial stored) s) :
    (s.KeepsEdits fallback ∧ s.NeverOlder) ∧
      ∀ e s', s.step fallback e = some s' → ¬ s.Unhurried e →
        ∃ s'', Reaches (App.step fallback) (fun _ _ => True) s' s'' ∧
          ¬ (s''.KeepsEdits fallback ∧ s''.NeverOlder) := by
  have htame := tame_of_reaches h
  exact ⟨⟨htame.keepsEdits, htame.neverOlder⟩,
    fun _ _ hstep hhurried => loses_of_hurried (bounded_of_reaches h) hstep hhurried⟩

end

end App

/-! ### The edits of the rules page -/

/-- `mode` of `Snat`. -/
inductive SnatChoice
  | none
  | masquerade
  | fixed
  deriving DecidableEq

/-- `Rule`, with what the page's inputs can hold; no `listenAddress` is "any". -/
structure WebRule where
  id : String
  name : String
  comment : String
  enabled : Bool
  order : ℤ
  allowSshConflict : Bool
  family : AddressFamily
  listenAddress : Option String
  listenInterface : Option String
  sourceCidrs : List String
  protocols : Protocols
  listenPort : ℤ × ℤ
  targetIp : String
  targetPort : ℤ × ℤ
  snat : SnatChoice × Option String
  deriving DecidableEq

/-- `Config` of the page. -/
structure WebConfig where
  schemaVersion : ℤ
  rules : List WebRule
  deriving DecidableEq

namespace WebConfig

def initial : WebConfig := ⟨1, []⟩

def emptyRule (newId : String) : WebRule where
  id := newId
  name := "New forward"
  comment := ""
  enabled := true
  order := 0
  allowSshConflict := false
  family := .auto
  listenAddress := none
  listenInterface := none
  sourceCidrs := []
  protocols := ⟨true, false⟩
  listenPort := (10000, 10000)
  targetIp := "192.0.2.10"
  targetPort := (10000, 10000)
  snat := (.masquerade, none)

def updateRule (id : String) (patch : WebRule → WebRule) (value : WebConfig) : WebConfig :=
  { value with rules := value.rules.map fun rule => if rule.id = id then patch rule else rule }

/-- The order is that of the config that was shown. -/
def addRule (config : WebConfig) (newId : String) (value : WebConfig) : WebConfig :=
  { value with
    rules := value.rules ++ [{ emptyRule newId with order := config.rules.length }] }

end WebConfig

namespace App

open WebConfig

/-- A rule is added and saved, and a refresh is read after that. -/
theorem refresh_safe_after_save :
    ∃ s, Reaches (App.step initial) Unhurried (opened initial []) s ∧
      s.refreshes = [some ⟨⟨addRule initial "web" initial, [0]⟩, 1⟩] ∧
      s.KeepsEdits initial ∧ s.NeverOlder := by
  have hstart := @Reaches.start _ _ (App.step initial) Unhurried (opened initial [])
  have hedited := hstart.next (.updateConfig (addRule initial "web")) trivial rfl
  have hsent := hedited.next .save trivial rfl
  have hstored := hsent.next (.store 0) (fun hclean => (by cases hclean)) rfl
  have hsaved := hstored.next (.saved 0)
    ⟨fun _ hedit => ⟨_, List.mem_singleton.mpr rfl, hedit⟩, fun _ hmem => absurd hmem List.not_mem_nil⟩
    rfl
  have hread := (hsaved.next .refresh trivial rfl).next (.read 0) trivial rfl
  exact ⟨_, hread, rfl, (refresh_safe_of_reaches hread).1⟩

/-- **Two ways to lose.**  An edit is made while a save is on its way, and its success clears the flag; a
refresh is read before a save is stored, and its answer comes after the success. -/
theorem hurried_refresh_loses :
    (∃ s, Reaches (App.step initial) (fun _ _ => True) (opened initial []) s ∧
        ¬ s.KeepsEdits initial) ∧
      ∃ s, Reaches (App.step initial) (fun _ _ => True) (opened initial []) s ∧ ¬ s.NeverOlder := by
  have hrename : ∃ s, runAll (App.step initial) (opened initial [])
      [.updateConfig (addRule initial "web"), .save, .store 0,
        .updateConfig (updateRule "web" fun rule => { rule with name := "Web" }), .saved 0,
        .refresh, .read 0] = some s ∧
      s.config.edits = [0, 1] ∧ s.draftDirty = false ∧ s.drafts.map (·.edits) = [[0]] ∧
      s.refreshes = [some ⟨⟨addRule initial "web" initial, [0]⟩, 1⟩] :=
    ⟨_, rfl, rfl, rfl, rfl, rfl⟩
  have hlate : ∃ s, runAll (App.step initial) (opened initial [])
      [.updateConfig (addRule initial "web"), .refresh, .read 0, .save, .store 0, .saved 0] = some s ∧
      s.draftDirty = false ∧ s.savedHere = [1] ∧ s.refreshes = [some ⟨⟨initial, []⟩, 0⟩] :=
    ⟨_, rfl, rfl, rfl, rfl⟩
  obtain ⟨s, hrun, hedits, hclean, hdrafts, hrefreshes⟩ := hrename
  obtain ⟨s', hrun', hclean', hsaved', hrefreshes'⟩ := hlate
  have hstart := @Reaches.start _ _ (App.step initial) (fun _ _ => True) (opened initial [])
  refine ⟨⟨s, Reaches.of_runAll hstart (fun _ _ _ => trivial) hrun, fun hkeeps => ?_⟩,
    ⟨s', Reaches.of_runAll hstart (fun _ _ _ => trivial) hrun', fun hnever => ?_⟩⟩
  · have hanswer : s.refreshes[0]? = some (some ⟨⟨addRule initial "web" initial, [0]⟩, 1⟩) := by
      rw [hrefreshes]
      rfl
    obtain ⟨draft, hmem, hedit⟩ := hkeeps 0 _ (step_refreshed.mpr ⟨_, hanswer, rfl⟩) 1
      (by rw [hedits]; decide)
      (by
        show 1 ∉ (if s.draftDirty then s.config else _).edits
        rw [hclean, if_neg Bool.false_ne_true]
        decide)
    have hedits' : draft.edits ∈ s.drafts.map (·.edits) := List.mem_map_of_mem hmem
    rw [hdrafts, List.mem_singleton] at hedits'
    rw [hedits'] at hedit
    revert hedit
    decide
  · refine hnever ⟨⟨initial, []⟩, 0⟩ ?_ hclean' ⟨1, ?_, Nat.zero_lt_one⟩
    · rw [hrefreshes']
      exact List.mem_singleton.mpr rfl
    · rw [hsaved']
      exact List.mem_singleton.mpr rfl

end App

end Portalis
