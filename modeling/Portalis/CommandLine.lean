import Portalis.AuthLock
import Portalis.SetupToken

/-!
# Passwords of the command line

`main` checks the options that concern the credentials, `Runtime::open` loads them and sets the password of
the command line, and `serve` answers requests until the process stops.

* `Managed.of_reaches`: every hash, on disk and in memory, was made from a password of the command line.
* `letIn_of_reaches`: whom a gated daemon answers otherwise than by a refusal.
-/

namespace Portalis

open Text Http RwLock Programs

/-! ### Starts -/

/-- The options that concern the credentials, and whether the command is `serve`. -/
structure Cli where
  allowUnauthenticated : Bool
  webPassword : Option (List Char)
  serves : Bool

/-- The checks of `main`. -/
def Cli.check (cli : Cli) : Except String Unit :=
  if cli.allowUnauthenticated && cli.webPassword.isSome then
    .error "--allow-unauthenticated cannot be combined with --web-password"
  else if cli.webPassword.isSome && !cli.serves then
    .error "--web-password can only be used with the serve command"
  else .ok ()

/-- What the two operations on the credentials meet: the text generated for a missing token, the salt, and
what fails. -/
structure StartMet where
  generated : List Char
  loading : AuthFaults
  salt : List UInt8
  setting : AuthFaults

section

variable {H : Type} (argon2 : Argon2 H)

/-- The part of `Runtime::open` that concerns the credentials. -/
def Runtime.openAuth (dir : AuthDir) (webPassword : Option (List Char)) (met : StartMet) :
    Except String AuthState × AuthDir :=
  match AuthState.loadOrInitialize dir met.generated met.loading with
  | (.error error, dir) => (.error error, dir)
  | (.ok auth, dir) =>
    match webPassword with
    | none => (.ok auth, dir)
    | some password =>
      if password.length < 12 then
        (.error "web password must contain at least 12 characters", dir)
      else
        match auth.setPassword argon2 dir password met.salt met.setting with
        | (.ok (), auth, dir) => (.ok auth, dir)
        | (.error error, _, dir) => (.error error, dir)

/-- The text was made from a password among these, which has twelve characters. -/
def MadeFromGiven (given : List (List Char)) (text : List Char) : Prop :=
  ∃ password ∈ given, 12 ≤ password.length ∧ argon2.HashOf password text

variable {argon2}

theorem MadeFromGiven.mono {given given' : List (List Char)} (hsub : given ⊆ given') {text : List Char}
    (h : MadeFromGiven argon2 given text) : MadeFromGiven argon2 given' text := by
  obtain ⟨password, hmem, hhash⟩ := h
  exact ⟨password, hsub hmem, hhash⟩

/-- **The hashes after a start**: those of the passwords so far and of the one that was given. -/
theorem Runtime.openAuth_hashes (hsound : argon2.Sound) {dir : AuthDir} {given : List (List Char)}
    (hfile : ∀ text, dir.hash = some text → MadeFromGiven argon2 given (trim text))
    (webPassword : Option (List Char)) (met : StartMet) :
    (∀ text, (Runtime.openAuth argon2 dir webPassword met).2.hash = some text →
        MadeFromGiven argon2 (webPassword.toList ++ given) (trim text)) ∧
      ∀ auth text, (Runtime.openAuth argon2 dir webPassword met).1 = .ok auth →
        auth.passwordHash = some text → MadeFromGiven argon2 (webPassword.toList ++ given) text := by
  have hsub : given ⊆ webPassword.toList ++ given := List.subset_append_right _ _
  obtain ⟨hhash, hended⟩ := AuthState.loadOrInitialize_cases dir met.generated met.loading
  unfold Runtime.openAuth
  cases hload : AuthState.loadOrInitialize dir met.generated met.loading with
  | mk answer after =>
    rw [hload] at hhash hended
    have hafter : ∀ text, after.hash = some text →
        MadeFromGiven argon2 (webPassword.toList ++ given) (trim text) :=
      fun text htext => (hfile text (hhash ▸ htext)).mono hsub
    cases answer with
    | error error => exact ⟨hafter, fun auth text hok => by cases hok⟩
    | ok auth =>
      have hmemory : ∀ text, auth.passwordHash = some text →
          MadeFromGiven argon2 (webPassword.toList ++ given) text := by
        intro text htext
        rcases hended with ⟨error, herror⟩ | hread
        · cases herror
        · -- the hash in memory was read from the file
          rw [Except.ok.inj hread] at htext
          by_cases hfailed : met.loading.readHash = true
          · rw [if_pos hfailed] at htext
            cases htext
          · rw [if_neg hfailed] at htext
            obtain ⟨stored, hstored, rfl⟩ := Option.map_eq_some_iff.mp htext
            exact (hfile stored hstored).mono hsub
      dsimp only
      cases webPassword with
      | none =>
        refine ⟨hafter, ?_⟩
        intro auth' text hok htext
        cases hok
        exact hmemory text htext
      | some password =>
        dsimp only
        by_cases hshort : password.length < 12
        · rw [if_pos hshort]
          exact ⟨hafter, fun auth text hok => by cases hok⟩
        · rw [if_neg hshort]
          have hgiven : ∀ text, argon2.HashOf password text →
              MadeFromGiven argon2 ((some password).toList ++ given) text :=
            fun text hmade => ⟨password, List.mem_cons_self, Nat.not_lt.mp hshort, hmade⟩
          obtain ⟨set, auth', file, hset, hfile', hmemory'⟩ :=
            auth.setPassword_files hsound after password met.salt met.setting
          have hdisk : ∀ text, file = some text →
              MadeFromGiven argon2 ((some password).toList ++ given) (trim text) := by
            intro text htext
            rcases hfile' with hsame | ⟨written, hwritten, hmade⟩
            · exact hafter text (hsame ▸ htext)
            · cases hwritten.symm.trans htext
              exact hgiven _ hmade
          rw [hset]
          cases set with
          | error error => exact ⟨hdisk, fun auth text hok => by cases hok⟩
          | ok _ =>
            refine ⟨hdisk, ?_⟩
            intro auth'' text hok htext
            cases hok
            rcases hmemory' with rfl | ⟨hash, rfl, hmade⟩
            · exact hmemory text htext
            · cases htext
              exact hgiven _ hmade

end

/-! ### Histories -/

/-- The files of the credentials, the process that serves with its option, and the passwords that the
command line has given so far. -/
structure Installation (T : Type) where
  dir : AuthDir
  serving : Option (Bool × AuthLockSystem T)
  given : List (List Char)

/-- The daemon with this option. -/
def AuthDaemon.allowing {H : Type} (self : AuthDaemon H) (allow : Bool) : AuthDaemon H :=
  { self with allowUnauthenticated := allow }

inductive InstallationEvent (T : Type)
  | start (cli : Cli) (met : StartMet)
  | http (e : Event Visit (AuthOutcome T))
  | stop

namespace Installation

variable {H T : Type} (daemon : AuthDaemon H) (P : Policy)

/-- A start, when nothing serves: a command that is not `serve` does its work and ends.  A process that
serves answers requests until it stops. -/
def step (s : Installation T) : InstallationEvent T → Option (Installation T)
  | .start cli met =>
    match s.serving, cli.check with
    | some _, _ => none
    | none, .error _ => some s
    | none, .ok () =>
      match Runtime.openAuth daemon.argon2 s.dir cli.webPassword met with
      | (.error _, dir) => some ⟨dir, none, cli.webPassword.toList ++ s.given⟩
      | (.ok auth, dir) =>
        some ⟨dir, if cli.serves then some (cli.allowUnauthenticated, .idle ⟨auth, dir⟩) else none,
          cli.webPassword.toList ++ s.given⟩
  | .http e =>
    match s.serving with
    | none => none
    | some (allow, system) =>
      match (daemon.allowing allow).step P system e with
      | none => none
      | some after => some { s with dir := after.world.dir, serving := some (allow, after) }
  | .stop => some { s with serving := none }

/-- Starts are without `--allow-unauthenticated`. -/
def Gated : InstallationEvent T → Prop
  | .start cli _ => cli.allowUnauthenticated = false
  | _ => True

/-- A gated process that has served since its start, with the files as they were then. -/
structure Serves (given : List (List Char)) (dir : AuthDir) (allow : Bool) (system : AuthLockSystem T) :
    Prop where
  gated : allow = false
  reaches : ∃ auth, (∀ text, auth.passwordHash = some text → MadeFromGiven daemon.argon2 given text) ∧
    Reaches ((daemon.allowing false).step P) (fun _ _ => True) (.idle ⟨auth, dir⟩) system

/-- Every hash, on disk and in memory, was made from a password of the command line. -/
structure Managed (s : Installation T) : Prop where
  file {text : List Char} : s.dir.hash = some text → MadeFromGiven daemon.argon2 s.given (trim text)
  serving {allow : Bool} {system : AuthLockSystem T} : s.serving = some (allow, system) →
    Serves daemon P s.given s.dir allow system

variable {daemon P}

/-- **The step lemma.** -/
theorem Managed.step (hsound : daemon.argon2.Sound) {s s' : Installation T} {e : InstallationEvent T}
    (h : Managed daemon P s) (hgated : Gated e) (hstep : s.step daemon P e = some s') :
    Managed daemon P s' := by
  cases e with
  | start cli met =>
    rw [Installation.step] at hstep
    cases hserving : s.serving with
    | some serving =>
      rw [hserving] at hstep
      cases hstep
    | none =>
      rw [hserving] at hstep
      cases hcheck : cli.check with
      | error error =>
        rw [hcheck] at hstep
        cases hstep
        exact h
      | ok _ =>
        rw [hcheck] at hstep
        obtain ⟨hfile, hmemory⟩ := Runtime.openAuth_hashes hsound
          (fun text htext => h.file htext) cli.webPassword met
        cases hopen : Runtime.openAuth daemon.argon2 s.dir cli.webPassword met with
        | mk answer dir =>
          rw [hopen] at hfile hmemory hstep
          cases answer with
          | error error =>
            cases hstep
            exact ⟨fun htext => hfile _ htext, fun hnone => by cases hnone⟩
          | ok auth =>
            cases hstep
            refine ⟨fun htext => hfile _ htext, ?_⟩
            intro allow system hstarted
            have hstarted : (if cli.serves = true then
                some (cli.allowUnauthenticated, System.idle (⟨auth, dir⟩ : AuthWorld)) else none) =
                  some (allow, system) := hstarted
            split at hstarted
            · cases hstarted
              exact ⟨hgated, auth, fun text htext => hmemory auth text rfl htext, .start⟩
            · cases hstarted
  | http e =>
    rw [Installation.step] at hstep
    cases hserving : s.serving with
    | none =>
      rw [hserving] at hstep
      cases hstep
    | some serving =>
      obtain ⟨allow, system⟩ := serving
      obtain ⟨rfl, auth, hauth, hreaches⟩ := h.serving hserving
      rw [hserving] at hstep
      dsimp only at hstep
      cases hnext : (daemon.allowing false).step P system e with
      | none =>
        rw [hnext] at hstep
        cases hstep
      | some after =>
        rw [hnext] at hstep
        cases hstep
        have hreaches' := hreaches.next e trivial hnext
        -- the requests leave the files
        have hworld : after.world = ⟨auth, s.dir⟩ := (AuthDaemon.password_kept_of_reaches rfl hreaches').1
        have hdir : after.world.dir = s.dir := congrArg AuthWorld.dir hworld
        refine ⟨?_, ?_⟩
        · intro text htext
          exact h.file (hdir ▸ htext)
        · intro allow' system' hsame
          cases hsame
          refine ⟨rfl, auth, hauth, ?_⟩
          show Reaches _ _ (.idle ⟨auth, after.world.dir⟩) after
          rw [hdir]
          exact hreaches'
  | stop =>
    cases hstep
    exact ⟨h.file, fun hnone => by cases hnone⟩

theorem Managed.of_reaches (hsound : daemon.argon2.Sound) {start s : Installation T}
    (hstopped : start.serving = none) (hblank : start.dir.hash = none)
    (h : Reaches (Installation.step daemon P) (fun _ e => Gated e) start s) : Managed daemon P s := by
  have hstart : Managed daemon P start := by
    refine ⟨?_, ?_⟩
    · intro text htext
      cases hblank.symm.trans htext
    · intro allow system hserving
      cases hstopped.symm.trans hserving
  exact h.invariant hstart fun _ _ _ hgated hmanaged hstep => hmanaged.step hsound hgated hstep

/-- Whom a daemon lets in: with the files and the passwords of the command line, and no password in memory
for those that need none. -/
inductive LetIn (decode : List Char → Option (List UInt8)) (secret : Option (List Char))
    (given : List (List Char)) (passwordless : Prop) (request : Request IpAddr) : Prop
  | page (h : isAsset request = true)
  | controlSocket (h : request.remote = none)
  | loopback {address : IpAddr} {host : List Char} (hpassword : passwordless)
      (hremote : request.remote = some address) (hloopback : address.isLoopback = true)
      (hhost : request.text "host" = some host) (haccepts : isLoopbackHost host = true)
  | token {token : List Char} (h : request.text "authorization" = some ("Bearer ".toList ++ token) ∨
      request.text "x-portalis-password" = some token) (htoken : secret.map trim = some token)
  | password {password : List Char} (h : request.text "x-portalis-password" = some password ∨
      basicPassword decode request = some password) (hgiven : password ∈ given)
      (hlong : 12 ≤ password.length)

/-- A password that is accepted was given on the command line. -/
theorem mem_of_isPassword {argon2 : Argon2 H} (hsound : argon2.Sound) {access : Access}
    {given : List (List Char)}
    (hgiven : ∀ text, access.auth.passwordHash = some text → MadeFromGiven argon2 given text)
    {password : List Char} (h : IsPassword argon2 access password) :
    password ∈ given ∧ 12 ≤ password.length := by
  obtain ⟨text, parsed, htext, hparse, hverify⟩ := h
  obtain ⟨password', hmem, hlong, hmade⟩ := hgiven text htext
  cases hsound.accepts_only hmade hparse hverify
  exact ⟨hmem, hlong⟩

theorem secret_of_isSetupToken {access : Access} {dir : AuthDir} {token : List Char}
    (hsecret : ∀ text, access.secret = some text → dir.secret = some text)
    (h : IsSetupToken access token) : dir.secret.map trim = some token := by
  obtain ⟨text, htext, htrim⟩ := h
  rw [hsecret text htext, Option.map_some, htrim]

theorem LetIn.of_admitted {argon2 : Argon2 H} {decode : List Char → Option (List UInt8)} {access : Access}
    {request : Request IpAddr} {dir : AuthDir} {given : List (List Char)}
    (hgated : access.allowUnauthenticated = false)
    (hsecret : ∀ text, access.secret = some text → dir.secret = some text)
    (hpassword : ∀ password, IsPassword argon2 access password → password ∈ given ∧ 12 ≤ password.length)
    (h : Admitted argon2 decode access request) :
    LetIn decode dir.secret given (access.auth.passwordHash = none) request := by
  cases h with
  | unauthenticated hallow => cases hgated.symm.trans hallow
  | controlSocket hremote => exact .controlSocket hremote
  | loopback hnone hremote hloopback hhost haccepts =>
    exact .loopback hnone hremote hloopback hhost haccepts
  | bearer hbearer htoken => exact .token (Or.inl hbearer) (secret_of_isSetupToken hsecret htoken)
  | password htext haccepts =>
    rcases haccepts with htoken | hpass
    · exact .token (Or.inr htext) (secret_of_isSetupToken hsecret htoken)
    · exact .password (Or.inl htext) (hpassword _ hpass).1 (hpassword _ hpass).2
  | basic hbasic hpass => exact .password (Or.inr hbasic) (hpassword _ hpass).1 (hpassword _ hpass).2

/-- **Only the command line gives passwords.**  In every history that starts without a stored password and
whose starts are gated, whatever file operations fail and whatever is sent: a request that the daemon answers
otherwise than by a refusal asks for a page of the web client, or comes over the control socket, or through
loopback while no password is in memory, or bears the text of the setup token's file, or a password that a
start was given. -/
theorem letIn_of_reaches (hsound : daemon.argon2.Sound) {start s : Installation T}
    (hstopped : start.serving = none) (hblank : start.dir.hash = none)
    (h : Reaches (Installation.step daemon P) (fun _ e => Gated e) start s) {allow : Bool}
    {system : AuthLockSystem T} (hserving : s.serving = some (allow, system)) {i : ℕ} {v : Visit}
    {a : Reply (AuthAnswer T)} (hanswer : system.answer i = some (v, a)) :
    (∃ error, a = .refused error) ∨
      LetIn daemon.decode s.dir.secret s.given (system.world.auth.passwordHash = none) v.request := by
  obtain ⟨rfl, auth, hauth, hreaches⟩ := (Managed.of_reaches hsound hstopped hblank h).serving hserving
  obtain ⟨hworld, hanswers⟩ := AuthDaemon.password_kept_of_reaches rfl hreaches
  rcases hanswers i v a hanswer with hrefused | ⟨-, unread, hok⟩
  · exact Or.inl hrefused
  · refine Or.inr ?_
    rw [hworld]
    have hsecret : ∀ text, ((daemon.allowing false).access ⟨auth, s.dir⟩ unread).secret = some text →
        s.dir.secret = some text := by
      intro text htext
      have htext : (if unread = true then none else s.dir.secret) = some text := htext
      split at htext
      · cases htext
      · exact htext
    have hpassword : ∀ password,
        IsPassword daemon.argon2 ((daemon.allowing false).access ⟨auth, s.dir⟩ unread) password →
          password ∈ s.given ∧ 12 ≤ password.length :=
      fun password hp => mem_of_isPassword hsound hauth hp
    obtain ⟨-, hasset | hallow | hexempt | hcredential⟩ := (authenticate_ok_iff _ _).mp hok
    · exact .page hasset
    · cases hallow
    · exact LetIn.of_admitted rfl hsecret hpassword (admitted_of_exempt hexempt)
    · exact LetIn.of_admitted rfl hsecret hpassword (admitted_of_authenticated hcredential)

/-- Before the first start. -/
def blank : Installation T := ⟨⟨none, none⟩, none, []⟩

def horse : HeaderValue :=
  ⟨"correct horse".toList.map fun c => UInt8.ofNat c.toNat, by decide +kernel⟩

/-- `about`, with a password. -/
def aboutVisit : Visit :=
  ⟨⟨.get, "/api/v1/about".toList, [("x-portalis-password", horse)], some (.v4 0x0A000001)⟩, none⟩

def sealedDaemon : AuthDaemon (List Char) :=
  ⟨sealedArgon2, fun _ => none, fun _ => none, false, "/var/lib/portalis/web-auth.secret"⟩

def passwordStart : InstallationEvent Unit :=
  .start ⟨false, some "correct horse".toList, true⟩ ⟨"token".toList, .none, [], .none⟩

theorem letIn_with_password :
    ∃ (s : Installation Unit) (system : AuthLockSystem Unit), s.serving = some (false, system) ∧
      system.answer 0 = some (aboutVisit, .answered (.other ())) ∧
      LetIn sealedDaemon.decode s.dir.secret s.given (system.world.auth.passwordHash = none)
        aboutVisit.request := by
  have hrun : ∃ (s : Installation Unit) (system : AuthLockSystem Unit),
      runAll (Installation.step sealedDaemon fifo) blank
        (passwordStart :: .http (.arrive 0 aboutVisit) ::
          List.replicate 6 (.http (.poll 0 AuthDaemon.plainOutcome))) = some s ∧
        s.serving = some (false, system) ∧
        system.answer 0 = some (aboutVisit, .answered (.other ())) := ⟨_, _, rfl, rfl, rfl⟩
  obtain ⟨s, system, hrun, hserving, hanswer⟩ := hrun
  have hreaches : Reaches (Installation.step sealedDaemon fifo) (fun _ e => Gated e) blank s := by
    refine Reaches.of_runAll .start ?_ hrun
    intro _ e he
    rcases List.mem_cons.mp he with rfl | he
    · rfl
    · rcases List.mem_cons.mp he with rfl | he
      · trivial
      · rw [List.eq_of_mem_replicate he]
        trivial
  refine ⟨s, system, hserving, hanswer, ?_⟩
  rcases letIn_of_reaches sealedArgon2_sound rfl rfl hreaches hserving hanswer with ⟨error, herror⟩ | hletIn
  · cases herror
  · exact hletIn

end Installation

end Portalis
