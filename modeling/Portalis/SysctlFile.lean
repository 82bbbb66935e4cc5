import Portalis.Sysctl
import Portalis.SysctlConf
import Portalis.Overlap

/-!
# The file of the forwarding sysctls

What `ensure_forwarding` leaves in `99-portalis.conf`, whatever was there before.  A setting is looked for as
a trimmed line anywhere in the file and is appended when there is none; what the file says at the next boot
is the last assignment to each name.

* `rawLines_addSettings`: the lines of the file afterwards.
* `ensureForwarding_file`: the previous content stays in front, the missing settings follow it, and a second
  run changes nothing.
* `persisted_iff`: when the file sets what the configuration needs.
* `forwarding_off_after_boot`: it does not have to.
-/

namespace Portalis

open Text

namespace Sysctl

/-! ### One setting -/

/-- Some line of the file is the setting, apart from blanks around it. -/
def HasSetting (content : List Char) (value : String) : Prop :=
  ∃ line ∈ lines content, trim line = value.toList

instance (content : List Char) (value : String) : Decidable (HasSetting content value) :=
  inferInstanceAs (Decidable (∃ line ∈ lines content, trim line = value.toList))

/-- A setting fits on a line and has no blanks around it. -/
structure Plain (value : String) : Prop where
  oneLine : '\n' ∉ value.toList
  trimmed : trim value.toList = value.toList

/-- The settings that the file does not have. -/
def missing (content : List Char) (values : List String) : List String :=
  values.filter fun value => ¬ HasSetting content value

theorem hasSetting_iff {content : List Char} {value : String} :
    HasSetting content value ↔ value.toList ∈ (rawLines content).map trim := by
  rw [← map_trim_lines, List.mem_map]
  rfl

theorem addSetting_of_hasSetting {content : List Char} {value : String}
    (h : HasSetting content value) : addSetting content value = content := by
  refine if_pos ?_
  rw [List.any_eq_true]
  obtain ⟨line, hline, htrim⟩ := h
  exact ⟨line, hline, decide_eq_true htrim⟩

/-- The lines of an addition: those of the text before it, and the added one. -/
theorem rawLines_concat {before : List Char} {value : String} (h : '\n' ∉ value.toList) :
    rawLines (before ++ '\n' :: (value.toList ++ ['\n'])) =
      before.splitOn '\n' ++ [value.toList] := by
  rw [rawLines_append_newline, rawLines_append_newline, List.splitOn_eq_singleton h]
  rfl

/-- What is added starts on a line of its own. -/
theorem addSetting_of_missing {content : List Char} {value : String}
    (h : ¬ HasSetting content value) :
    content <+: addSetting content value ∧
      ('\n' ∉ value.toList →
        rawLines (addSetting content value) = rawLines content ++ [value.toList]) := by
  have hno : ¬ ((lines content).any fun line => trim line = value.toList) = true := by
    rw [List.any_eq_true]
    intro hany
    obtain ⟨line, hline, htrim⟩ := hany
    exact h ⟨line, hline, of_decide_eq_true htrim⟩
  rw [addSetting, if_neg hno]
  dsimp only
  by_cases hopen : content ≠ [] ∧ content.getLast? ≠ some '\n'
  · rw [if_pos hopen, List.append_assoc, List.append_assoc]
    refine ⟨List.prefix_append _ _, fun hline => ?_⟩
    rw [List.singleton_append, rawLines_concat hline, rawLines_of_open hopen.1 hopen.2]
  · rw [if_neg hopen, List.append_assoc]
    refine ⟨List.prefix_append _ _, fun hline => ?_⟩
    by_cases hempty : content = []
    · rw [hempty, List.nil_append, rawLines_append_newline, List.splitOn_eq_singleton hline]
      rfl
    · -- the last newline of the content ends its last line
      have hend : content.getLast? = some '\n' := by
        by_contra hne
        exact hopen ⟨hempty, hne⟩
      have hsplit : content = content.dropLast ++ ['\n'] :=
        (List.dropLast_append_getLast? '\n' hend).symm
      rw [hsplit, List.append_assoc, List.singleton_append, rawLines_concat hline,
        rawLines_append_newline]
      exact congrArg (· ++ [value.toList]) (List.append_nil _).symm

theorem rawLines_addSetting (content : List Char) {value : String} (h : '\n' ∉ value.toList) :
    rawLines (addSetting content value) =
      rawLines content ++ if HasSetting content value then [] else [value.toList] := by
  by_cases hset : HasSetting content value
  · rw [addSetting_of_hasSetting hset, if_pos hset, List.append_nil]
  · rw [if_neg hset]
    exact (addSetting_of_missing hset).2 h

theorem prefix_addSetting (content : List Char) (value : String) :
    content <+: addSetting content value := by
  by_cases hset : HasSetting content value
  · rw [addSetting_of_hasSetting hset]
  · exact (addSetting_of_missing hset).1

/-- Adding a setting makes the file have that setting, and no other one. -/
theorem hasSetting_addSetting {content : List Char} {value other : String} (h : Plain value) :
    HasSetting (addSetting content value) other ↔ HasSetting content other ∨ other = value := by
  rw [hasSetting_iff, hasSetting_iff, rawLines_addSetting content h.oneLine, List.map_append,
    List.mem_append]
  by_cases hset : HasSetting content value
  · rw [if_pos hset]
    constructor
    · intro hmem
      rcases hmem with hold | hnone
      · exact Or.inl hold
      · cases hnone
    · intro hmem
      rcases hmem with hold | hsame
      · exact Or.inl hold
      · rw [hsame]
        exact Or.inl (hasSetting_iff.mp hset)
  · rw [if_neg hset, List.map_singleton, List.mem_singleton, h.trimmed, String.toList_inj]

/-! ### All settings -/

theorem prefix_addSettings (values : List String) : ∀ content : List Char,
    content <+: values.foldl addSetting content := by
  induction values with
  | nil => exact List.prefix_refl
  | cons value values ih =>
    intro content
    exact (prefix_addSetting content value).trans (ih (addSetting content value))

theorem addSettings_of_hasSetting {content : List Char} {values : List String}
    (h : ∀ value ∈ values, HasSetting content value) : values.foldl addSetting content = content := by
  induction values with
  | nil => rfl
  | cons value values ih =>
    rw [List.foldl_cons, addSetting_of_hasSetting (h value List.mem_cons_self)]
    exact ih fun other hmem => h other (List.mem_cons_of_mem value hmem)

/-- **The lines of the file afterwards**: those of before, and the settings that it did not have. -/
theorem rawLines_addSettings {values : List String} (hplain : ∀ value ∈ values, Plain value)
    (hnodup : values.Nodup) : ∀ content : List Char,
    rawLines (values.foldl addSetting content) =
      rawLines content ++ (missing content values).map String.toList := by
  induction values with
  | nil => exact fun content => (List.append_nil _).symm
  | cons value values ih =>
    intro content
    obtain ⟨hnotmem, hrest⟩ := List.nodup_cons.mp hnodup
    have hvalue : Plain value := hplain value List.mem_cons_self
    -- the setting just added is none of the others
    have hsame : missing (addSetting content value) values = missing content values := by
      refine List.filter_congr fun other hmem => ?_
      have hne : other ≠ value := fun heq => hnotmem (heq ▸ hmem)
      simp only [hasSetting_addSetting hvalue, hne, or_false]
    rw [List.foldl_cons, ih (fun other hmem => hplain other (List.mem_cons_of_mem value hmem)) hrest,
      hsame, rawLines_addSetting content hvalue.oneLine, List.append_assoc, missing, missing,
      List.filter_cons]
    by_cases hset : HasSetting content value
    · rw [if_pos hset, if_neg (by simpa using hset), List.nil_append]
    · rw [if_neg hset, if_pos (by simpa using hset), List.map_cons, List.singleton_append]

/-- Afterwards the file has all of them, and what it had before. -/
theorem hasSetting_addSettings {values : List String} (hplain : ∀ value ∈ values, Plain value)
    (other : String) : ∀ content : List Char,
    HasSetting (values.foldl addSetting content) other ↔ HasSetting content other ∨ other ∈ values := by
  induction values with
  | nil =>
    intro content
    simp
  | cons value values ih =>
    intro content
    obtain ⟨hvalue, hrest⟩ := List.forall_mem_cons.mp hplain
    rw [List.foldl_cons, ih hrest, hasSetting_addSetting hvalue, List.mem_cons, or_assoc]

/-! ### `ensure_forwarding` and the file -/

/-- What is read of the file: nothing when there is none. -/
def content (self : Sysctl) : List Char := (self.conf.getD "").toList

theorem plain_settingsOf (config : Config) : ∀ value ∈ settingsOf config, Plain value := by
  have hipv4 : Plain ipv4Setting := ⟨by decide, by decide⟩
  have hipv6 : Plain ipv6Setting := ⟨by decide, by decide⟩
  intro value hmem
  rcases List.mem_append.mp hmem with h | h
  · split at h
    · rw [List.mem_singleton.mp h]
      exact hipv4
    · cases h
  · split at h
    · rw [List.mem_singleton.mp h]
      exact hipv6
    · cases h

theorem nodup_settingsOf (config : Config) : (settingsOf config).Nodup := by
  unfold settingsOf
  split <;> split <;> decide

theorem enable_conf {self after : Sysctl} {needed : Bool} {family : AddressFamily} {step : SysctlStep}
    {failing : Option SysctlStep} (h : self.enable needed family step failing = .ok after) :
    after.conf = self.conf := by
  unfold enable at h
  split at h
  · split at h
    · cases h
    · cases h
      cases family <;> rfl
  · cases h
    rfl

/-- What a success leaves of the file. -/
theorem conf_of_ensureForwarding {self after : Sysctl} {config : Config}
    {failing : Option SysctlStep} (h : self.ensureForwarding config failing = (.ok (), after)) :
    after.conf = if settingsOf config = [] then self.conf else
      some (String.ofList ((settingsOf config).foldl addSetting self.content)) := by
  rcases self.ensureForwarding_cases config failing with ⟨e, hrun⟩ | ⟨first, hfirst, hlater⟩
  · cases h.symm.trans hrun
  · rcases hlater with ⟨e, hrun⟩ | ⟨second, hsecond, hrun⟩
    · cases h.symm.trans hrun
    · have hpersist := hrun.symm.trans h
      have hconf : second.conf = self.conf := (enable_conf hsecond).trans (enable_conf hfirst)
      unfold persist at hpersist
      split at hpersist
      next hnone =>
        cases hpersist
        rw [if_pos hnone]
        exact hconf
      next hsome =>
        split at hpersist
        · cases hpersist
        · split at hpersist
          · cases hpersist
          · cases hpersist
            rw [if_neg hsome, content, ← hconf]

/-- What is read of the file afterwards. -/
theorem content_of_ensureForwarding {self after : Sysctl} {config : Config}
    {failing : Option SysctlStep} (h : self.ensureForwarding config failing = (.ok (), after)) :
    after.content = (settingsOf config).foldl addSetting self.content := by
  rw [content, conf_of_ensureForwarding h]
  by_cases hnone : settingsOf config = []
  · rw [if_pos hnone, hnone]
    rfl
  · rw [if_neg hnone]
    exact String.toList_ofList

/-- When no family needs forwarding, none of the four operations is tried. -/
theorem ensureForwarding_of_no_setting {config : Config} (h : settingsOf config = [])
    (self : Sysctl) (failing : Option SysctlStep) :
    self.ensureForwarding config failing = (.ok (), self) := by
  obtain ⟨hfour, hsix⟩ := List.append_eq_nil_iff.mp h
  have hfour' : config.requiresIpv4Forwarding = false := by simpa using hfour
  have hsix' : config.requiresIpv6Forwarding = false := by simpa using hsix
  have hskip : ∀ family step, self.enable false family step failing = .ok self := by
    intro family step
    exact if_neg fun hneeded => Bool.noConfusion hneeded.1
  rw [ensureForwarding, hfour', hskip]
  dsimp only
  rw [hsix', hskip]
  exact if_pos h

/-- **What `ensure_forwarding` does to the file.**  After a success the previous content is there as it was,
in front; every setting that the configuration needs is on a line of its own; the lines that were added are
the needed settings that were missing.  A further run with the same configuration leaves the file as it is,
and a configuration that needs no setting does not touch it. -/
theorem ensureForwarding_file {self after : Sysctl} {config : Config} {failing : Option SysctlStep}
    (h : self.ensureForwarding config failing = (.ok (), after)) :
    self.content <+: after.content ∧
      (∀ value ∈ settingsOf config, ∃ line ∈ lines after.content, trim line = value.toList) ∧
      rawLines after.content = rawLines self.content ++
        (missing self.content (settingsOf config)).map String.toList ∧
      (∀ (again final : Sysctl) (failing' : Option SysctlStep), again.conf = after.conf →
        again.ensureForwarding config failing' = (.ok (), final) → final.conf = after.conf) ∧
      (settingsOf config = [] → ∀ failing', self.ensureForwarding config failing' = (.ok (), self)) := by
  have hplain := plain_settingsOf config
  have hafter := content_of_ensureForwarding h
  have hset : ∀ value ∈ settingsOf config, HasSetting after.content value := by
    intro value hmem
    rw [hafter]
    exact (hasSetting_addSettings hplain value self.content).mpr (Or.inr hmem)
  refine ⟨?_, hset, ?_, ?_, fun hnone failing' => ensureForwarding_of_no_setting hnone self failing'⟩
  · rw [hafter]
    exact prefix_addSettings (settingsOf config) self.content
  · rw [hafter]
    exact rawLines_addSettings hplain (nodup_settingsOf config) self.content
  · intro again final failing' hsame hrun
    have hcontent : again.content = after.content := by rw [content, hsame, content]
    have hfixed : (settingsOf config).foldl addSetting after.content = after.content :=
      addSettings_of_hasSetting hset
    rw [conf_of_ensureForwarding hrun, hcontent, hfixed, hafter, hsame, conf_of_ensureForwarding h]
    split
    · rfl
    · rfl

/-- A file whose last line lacks its newline and ends with a carriage return. -/
theorem ensureForwarding_file_of_open_line :
    ∃ after, (Sysctl.mk true false (some "vm.swappiness = 10\r")).ensureForwarding ⟨1, [webRule]⟩ none =
        (.ok (), after) ∧
      rawLines after.content = ["vm.swappiness = 10\r".toList, ipv4Setting.toList] := by
  refine ⟨_, rfl, ?_⟩
  have hlines := (@ensureForwarding_file (Sysctl.mk true false (some "vm.swappiness = 10\r")) _
    ⟨1, [webRule]⟩ none rfl).2.2.1
  exact hlines.trans (by decide)

/-! ### What the file sets at the next boot -/

/-- The value the file gives to a name. -/
def assigned (content : List Char) (name : String) : Option (List Char) :=
  SysctlConf.valueOf (SysctlConf.normalize name.toList) (rawLines content)

/-- The file switches on what the configuration needs. -/
def Persists (content : List Char) (config : Config) : Prop :=
  (config.requiresIpv4Forwarding = true → assigned content "net.ipv4.ip_forward" = some ['1']) ∧
    (config.requiresIpv6Forwarding = true →
      assigned content "net.ipv6.conf.all.forwarding" = some ['1'])

theorem assignment_settings :
    SysctlConf.assignment ipv4Setting.toList =
        some (SysctlConf.normalize "net.ipv4.ip_forward".toList, ['1']) ∧
      SysctlConf.assignment ipv6Setting.toList =
        some (SysctlConf.normalize "net.ipv6.conf.all.forwarding".toList, ['1']) := by
  decide

/-- What a setting line assigns, alone. -/
theorem valueOf_setting {setting : String} {name value other : List Char}
    (h : SysctlConf.assignment setting.toList = some (name, value)) :
    SysctlConf.valueOf other [setting.toList] = if name = other then some value else none := by
  rw [SysctlConf.valueOf, List.filterMap_cons_some h, List.filterMap_nil]
  by_cases heq : name = other
  · rw [if_pos heq, List.filter_cons_of_pos (by simpa using heq)]
    rfl
  · rw [if_neg heq, List.filter_cons_of_neg (by simpa using heq)]
    rfl

/-- The lines that are added to the file, one family after the other. -/
theorem missing_settingsOf (content : List Char) (config : Config) :
    missing content (settingsOf config) =
      (if config.requiresIpv4Forwarding ∧ ¬ HasSetting content ipv4Setting then [ipv4Setting]
        else []) ++
      if config.requiresIpv6Forwarding ∧ ¬ HasSetting content ipv6Setting then [ipv6Setting]
        else [] := by
  have hone : ∀ (needed : Bool) (setting : String),
      missing content (if needed then [setting] else []) =
        if needed ∧ ¬ HasSetting content setting then [setting] else [] := by
    intro needed setting
    cases needed with
    | false => rfl
    | true =>
      rw [if_pos rfl, missing, List.filter_cons]
      by_cases hset : HasSetting content setting
      · rw [if_neg (by simpa using hset), if_neg fun h => h.2 hset]
        rfl
      · rw [if_pos (by simpa using hset), if_pos ⟨rfl, hset⟩]
        rfl
  rw [← hone, ← hone]
  exact List.filter_append _ _

/-- The value of each of the two names afterwards: the one of the added line, or that of before. -/
theorem assigned_after {self after : Sysctl} {config : Config} {failing : Option SysctlStep}
    (h : self.ensureForwarding config failing = (.ok (), after)) :
    assigned after.content "net.ipv4.ip_forward" =
        (if config.requiresIpv4Forwarding ∧ ¬ HasSetting self.content ipv4Setting then some ['1']
          else assigned self.content "net.ipv4.ip_forward") ∧
      assigned after.content "net.ipv6.conf.all.forwarding" =
        if config.requiresIpv6Forwarding ∧ ¬ HasSetting self.content ipv6Setting then some ['1']
          else assigned self.content "net.ipv6.conf.all.forwarding" := by
  obtain ⟨hfour, hsix⟩ := assignment_settings
  have hlines := rawLines_addSettings (plain_settingsOf config) (nodup_settingsOf config) self.content
  have hvalue : ∀ name, assigned after.content name =
      (SysctlConf.valueOf (SysctlConf.normalize name.toList)
        ((missing self.content (settingsOf config)).map String.toList)).or
          (assigned self.content name) := by
    intro name
    rw [assigned, content_of_ensureForwarding h, hlines, SysctlConf.valueOf_append]
    rfl
  have hone : ∀ (added : Prop) [Decidable added] (setting : String) (name : List Char),
      SysctlConf.valueOf name ((if added then [setting] else []).map String.toList) =
        if added then SysctlConf.valueOf name [setting.toList] else none := by
    intro added _ setting name
    split
    · rfl
    · rfl
  have hne : SysctlConf.normalize "net.ipv6.conf.all.forwarding".toList ≠
      SysctlConf.normalize "net.ipv4.ip_forward".toList := by
    decide
  rw [hvalue, hvalue, missing_settingsOf, List.map_append, SysctlConf.valueOf_append,
    SysctlConf.valueOf_append, hone, hone, hone, hone, valueOf_setting hfour, valueOf_setting hsix,
    valueOf_setting hfour, valueOf_setting hsix, if_pos rfl, if_pos rfl, if_neg hne, if_neg hne.symm,
    ite_self, ite_self, Option.none_or, Option.or_none]
  constructor
  · split
    · rfl
    · rfl
  · split
    · rfl
    · rfl

/-- **When the file persists forwarding.**  After a success it sets what the configuration needs iff, for
every family that is needed and whose setting is on some line of the previous file, the last assignment of
the previous file to that name was a one already. -/
theorem persisted_iff {self after : Sysctl} {config : Config} {failing : Option SysctlStep}
    (h : self.ensureForwarding config failing = (.ok (), after)) :
    Persists after.content config ↔
      (config.requiresIpv4Forwarding = true → HasSetting self.content ipv4Setting →
        assigned self.content "net.ipv4.ip_forward" = some ['1']) ∧
      (config.requiresIpv6Forwarding = true → HasSetting self.content ipv6Setting →
        assigned self.content "net.ipv6.conf.all.forwarding" = some ['1']) := by
  obtain ⟨hfour, hsix⟩ := assigned_after h
  have hfamily : ∀ (needed : Bool) (setting : String) (before : Option (List Char)),
      (needed = true → (if needed ∧ ¬ HasSetting self.content setting then some ['1'] else before) =
        some ['1']) ↔ (needed = true → HasSetting self.content setting → before = some ['1']) := by
    intro needed setting before
    refine forall_congr' fun hneeded => ?_
    by_cases hset : HasSetting self.content setting
    · rw [if_neg fun hmissing => hmissing.2 hset]
      exact ⟨fun hbefore _ => hbefore, fun hbefore => hbefore hset⟩
    · rw [if_pos ⟨hneeded, hset⟩]
      exact iff_of_true rfl fun hhas => absurd hhas hset
  rw [Persists, hfour, hsix, hfamily, hfamily]

theorem persisted_after_other_file :
    ∃ after, (Sysctl.mk false false (some "net/ipv4/ip_forward=0\n")).ensureForwarding ⟨1, [webRule]⟩
        none = (.ok (), after) ∧ Persists after.content ⟨1, [webRule]⟩ :=
  ⟨_, rfl, (@persisted_iff (Sysctl.mk false false (some "net/ipv4/ip_forward=0\n")) _ ⟨1, [webRule]⟩
    none rfl).mpr (by decide)⟩

/-- **Forwarding that does not survive a boot.**  A file with the setting and, after it, the opposite
assignment is left as it is. -/
theorem forwarding_off_after_boot :
    ∃ after, (Sysctl.mk false false
        (some "net.ipv4.ip_forward = 1\nnet.ipv4.ip_forward = 0\n")).ensureForwarding ⟨1, [webRule]⟩
        none = (.ok (), after) ∧
      (Config.mk 1 [webRule]).requiresIpv4Forwarding = true ∧
      assigned after.content "net.ipv4.ip_forward" = some ['0'] ∧
      ¬ Persists after.content ⟨1, [webRule]⟩ := by
  refine ⟨_, rfl, by decide, by decide, fun hpersists => ?_⟩
  exact absurd (hpersists.1 (by decide)) (by decide)

end Sysctl

end Portalis
