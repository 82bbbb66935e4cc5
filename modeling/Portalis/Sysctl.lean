import Portalis.Config

/-!
# The forwarding sysctls

`ensure_forwarding`: the two switches of the running kernel, and the lines of `99-portalis.conf` that set
them again at boot.  A switch that is on is not written; a line that is there is not added.  Each of the
four file operations can fail, and what happened before it stays.

* `ensureForwarding_switches`: no switch is ever turned off, and after a success those the configuration
  needs are on.
-/

namespace Portalis

open Text

structure Sysctl where
  ipv4Forwarding : Bool
  ipv6Forwarding : Bool
  /-- The content of `99-portalis.conf`, when it can be read.  A read that fails for once is not in the model. -/
  conf : Option String
  deriving DecidableEq

/-- The file operations.  A write of the file that fails leaves whatever it leaves. -/
inductive SysctlStep
  | enableIpv4
  | enableIpv6
  | createDir
  | writeConf (left : Option String)
  deriving DecidableEq

/-- The error of a failed operation: the context the source adds, or the error of the file system. -/
def SysctlStep.text (cause : String) : SysctlStep → String
  | .enableIpv4 => "enable IPv4 forwarding"
  | .enableIpv6 => "enable IPv6 forwarding"
  | .createDir => cause
  | .writeConf _ => cause

namespace Sysctl

def forwardingState (self : Sysctl) : AddressFamily → Bool
  | .auto => false
  | .ipv4 => self.ipv4Forwarding
  | .ipv6 => self.ipv6Forwarding

def ipv4Setting : String := "net.ipv4.ip_forward = 1"

def ipv6Setting : String := "net.ipv6.conf.all.forwarding = 1"

/-- The lines the configuration needs. -/
def settingsOf (config : Config) : List String :=
  (if config.requiresIpv4Forwarding then [ipv4Setting] else []) ++
    if config.requiresIpv6Forwarding then [ipv6Setting] else []

/-- The loop body over the settings. -/
def addSetting (content : List Char) (value : String) : List Char :=
  if (lines content).any fun line => trim line = value.toList then content
  else
    let content :=
      if content ≠ [] ∧ content.getLast? ≠ some '\n' then content ++ ['\n'] else content
    content ++ value.toList ++ ['\n']

/-- The switch of one family, when the configuration needs it. -/
def enable (self : Sysctl) (needed : Bool) (family : AddressFamily) (step : SysctlStep)
    (failing : Option SysctlStep) : Except SysctlStep Sysctl :=
  if needed ∧ self.forwardingState family = false then
    if failing = some step then .error step
    else .ok (match family with
      | .auto => self
      | .ipv4 => { self with ipv4Forwarding := true }
      | .ipv6 => { self with ipv6Forwarding := true })
  else .ok self

/-- The file with the lines of `values`. -/
def persist (self : Sysctl) (values : List String) (failing : Option SysctlStep) :
    Except SysctlStep Unit × Sysctl :=
  if values = [] then (.ok (), self)
  else if failing = some .createDir then (.error .createDir, self)
  else
    match failing with
    | some (.writeConf left) => (.error (.writeConf left), { self with conf := left })
    | _ =>
      let content := values.foldl addSetting (self.conf.getD "").toList
      (.ok (), { self with conf := some (String.ofList content) })

/-- `ensure_forwarding`: the IPv4 switch, the IPv6 switch, the file. -/
def ensureForwarding (self : Sysctl) (config : Config) (failing : Option SysctlStep) :
    Except SysctlStep Unit × Sysctl :=
  match self.enable config.requiresIpv4Forwarding .ipv4 .enableIpv4 failing with
  | .error e => (.error e, self)
  | .ok first =>
    match first.enable config.requiresIpv6Forwarding .ipv6 .enableIpv6 failing with
    | .error e => (.error e, first)
    | .ok second => second.persist (settingsOf config) failing

/-- A switch cannot be written, or both are on and the file is next. -/
theorem ensureForwarding_cases (self : Sysctl) (config : Config) (failing : Option SysctlStep) :
    (∃ e, self.ensureForwarding config failing = (.error e, self)) ∨
      ∃ first, self.enable config.requiresIpv4Forwarding .ipv4 .enableIpv4 failing = .ok first ∧
        ((∃ e, self.ensureForwarding config failing = (.error e, first)) ∨
          ∃ second,
            first.enable config.requiresIpv6Forwarding .ipv6 .enableIpv6 failing = .ok second ∧
            self.ensureForwarding config failing = second.persist (settingsOf config) failing) := by
  unfold ensureForwarding
  cases self.enable config.requiresIpv4Forwarding .ipv4 .enableIpv4 failing with
  | error e => exact Or.inl ⟨e, rfl⟩
  | ok first =>
    refine Or.inr ⟨first, rfl, ?_⟩
    dsimp only
    cases first.enable config.requiresIpv6Forwarding .ipv6 .enableIpv6 failing with
    | error e => exact Or.inl ⟨e, rfl⟩
    | ok second => exact Or.inr ⟨second, rfl, rfl⟩

/-- It succeeds when none of its operations fails. -/
theorem ensureForwarding_none (self : Sysctl) (config : Config) :
    ∃ after, self.ensureForwarding config none = (.ok (), after) := by
  have henable : ∀ (s : Sysctl) needed family step, ∃ after, s.enable needed family step none =
      .ok after := by
    intro s needed family step
    unfold enable
    split
    · exact ⟨_, if_neg nofun⟩
    · exact ⟨s, rfl⟩
  obtain ⟨first, hfirst⟩ := henable self config.requiresIpv4Forwarding .ipv4 .enableIpv4
  obtain ⟨second, hsecond⟩ := henable first config.requiresIpv6Forwarding .ipv6 .enableIpv6
  simp only [ensureForwarding, hfirst, hsecond, persist]
  split
  · exact ⟨_, rfl⟩
  · exact ⟨_, rfl⟩

/-! ### The switches -/

/-- `self` has every switch on that `other` has on. -/
def Covers (self other : Sysctl) : Prop :=
  ∀ family, other.forwardingState family = true → self.forwardingState family = true

theorem Covers.refl (self : Sysctl) : self.Covers self := fun _ h => h

theorem Covers.trans {a b c : Sysctl} (hab : a.Covers b) (hbc : b.Covers c) : a.Covers c :=
  fun family h => hab family (hbc family h)

theorem enable_ok {self after : Sysctl} {needed : Bool} {family : AddressFamily} {step : SysctlStep}
    {failing : Option SysctlStep} (hfamily : family ≠ .auto)
    (h : self.enable needed family step failing = .ok after) :
    after.Covers self ∧ (needed = true → after.forwardingState family = true) := by
  unfold enable at h
  by_cases hwrite : needed ∧ self.forwardingState family = false
  · rw [if_pos hwrite] at h
    by_cases hfail : failing = some step
    · rw [if_pos hfail] at h
      cases h
    · rw [if_neg hfail, Except.ok.injEq] at h
      subst h
      cases family with
      | auto => exact absurd rfl hfamily
      | ipv4 => exact ⟨fun f hf => by cases f <;> first | rfl | exact hf, fun _ => rfl⟩
      | ipv6 => exact ⟨fun f hf => by cases f <;> first | rfl | exact hf, fun _ => rfl⟩
  · rw [if_neg hwrite, Except.ok.injEq] at h
    subst h
    refine ⟨Covers.refl self, fun hneeded => ?_⟩
    simpa using fun hoff => hwrite ⟨hneeded, hoff⟩

/-- The file does not concern the switches. -/
theorem persist_forwardingState (self : Sysctl) (values : List String)
    (failing : Option SysctlStep) (family : AddressFamily) :
    (self.persist values failing).2.forwardingState family = self.forwardingState family := by
  unfold persist
  split
  · rfl
  · split
    · rfl
    · split <;> cases family <;> rfl

/-- **What `ensure_forwarding` does to the switches.**  None is turned off, whatever fails, and after a
success the ones the configuration needs are on. -/
theorem ensureForwarding_switches (self : Sysctl) (config : Config) (failing : Option SysctlStep) :
    (self.ensureForwarding config failing).2.Covers self ∧
      ((self.ensureForwarding config failing).1 = .ok () →
        (config.requiresIpv4Forwarding = true →
          (self.ensureForwarding config failing).2.ipv4Forwarding = true) ∧
        (config.requiresIpv6Forwarding = true →
          (self.ensureForwarding config failing).2.ipv6Forwarding = true)) := by
  rcases self.ensureForwarding_cases config failing with ⟨e, hrun⟩ | ⟨first, hfirst, hlater⟩
  · rw [hrun]
    exact ⟨Covers.refl self, fun h => nomatch h⟩
  · obtain ⟨hcover, hfour⟩ := enable_ok (by decide) hfirst
    rcases hlater with ⟨e, hrun⟩ | ⟨second, hsecond, hrun⟩
    · rw [hrun]
      exact ⟨hcover, fun h => nomatch h⟩
    · obtain ⟨hcover', hsix⟩ := enable_ok (by decide) hsecond
      have hkeep := second.persist_forwardingState (settingsOf config) failing
      have hfour' : config.requiresIpv4Forwarding = true → second.forwardingState .ipv4 = true :=
        fun hneeded => hcover' .ipv4 (hfour hneeded)
      rw [hrun]
      refine ⟨fun family h => ?_, fun _ => ⟨fun hneeded => ?_, fun hneeded => ?_⟩⟩
      · exact (hkeep family).trans (hcover'.trans hcover family h)
      · exact (hkeep .ipv4).trans (hfour' hneeded)
      · exact (hkeep .ipv6).trans (hsix hneeded)

end Sysctl

end Portalis
