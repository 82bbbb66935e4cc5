import Portalis.Auth
import Portalis.Programs

/-!
# The stored credentials

`load_or_initialize` and `set_password` on the two files of the data directory, `web-auth.secret` and
`web-auth.hash`.  Every file operation can fail, and a write can be cut off after any part of the text.

* `loadOrInitialize_cases`, `setPassword_cases`: all that the two do.
* `guarded_of_reaches`: while every load reads the hash file that is there, a password that was set
  keeps the loopback exemption shut.
* `unread_hash_opens_loopback`: a load that cannot read it opens the exemption.
-/

namespace Portalis

open Text Programs

/-! ### Files -/

/-- How a write fails: the file is not opened, or is cut off after so many characters or octets. -/
inductive WriteFault
  | refused
  | cut (written : ℕ)
  deriving DecidableEq

/-- `std::fs::write`: whether it succeeds, and the file it leaves. -/
def writeFile {α : Type} (file : Option (List α)) (content : List α) :
    Option WriteFault → Bool × Option (List α)
  | none => (true, some content)
  | some .refused => (false, file)
  | some (.cut written) => (false, some (content.take written))

/-- A file that is there stays there. -/
theorem isSome_writeFile {α : Type} {file : Option (List α)} (h : file.isSome = true) (content : List α)
    (fault : Option WriteFault) : (writeFile file content fault).2.isSome = true := by
  rcases fault with _ | _ | written
  · rfl
  · exact h
  · rfl

structure AuthDir where
  secret : Option (List Char)
  hash : Option (List Char)
  deriving DecidableEq

/-- The operations of one call that fail, and the text of the error. -/
structure AuthFaults where
  createDir : Bool
  readHash : Bool
  /-- The file is there, and `exists` answers that it is not. -/
  statSecret : Bool
  random : Bool
  writeSecret : Option WriteFault
  restrictSecret : Bool
  writeHash : Option WriteFault
  restrictHash : Bool
  cause : String
  deriving DecidableEq

def AuthFaults.none : AuthFaults :=
  ⟨false, false, false, false, Option.none, false, Option.none, false, ""⟩

/-! ### Loading and setting -/

/-- The part of `load_or_initialize` that writes a missing secret; `generated` is the encoded random
text. -/
def AuthDir.initializeSecret (self : AuthDir) (generated : List Char) (faults : AuthFaults) :
    Except String Unit × AuthDir :=
  if self.secret.isSome && !faults.statSecret then (.ok (), self)
  else if faults.random then (.error ("generate web auth secret: " ++ faults.cause), self)
  else
    let (written, file) := writeFile self.secret generated faults.writeSecret
    (if written then .ok () else .error faults.cause, { self with secret := file })

namespace AuthState

/-- `load_or_initialize`. -/
def loadOrInitialize (dir : AuthDir) (generated : List Char) (faults : AuthFaults) :
    Except String AuthState × AuthDir :=
  if faults.createDir then (.error faults.cause, dir)
  else
    let passwordHash := if faults.readHash then none else dir.hash.map trim
    match dir.initializeSecret generated faults with
    | (.error error, dir) => (.error error, dir)
    | (.ok (), dir) =>
      if faults.restrictSecret then (.error faults.cause, dir)
      else if passwordHash.isSome && faults.restrictHash then (.error faults.cause, dir)
      else (.ok ⟨passwordHash⟩, dir)

/-- `set_password`, with the random octets of the salt. -/
def setPassword {H : Type} (argon2 : Argon2 H) (self : AuthState) (dir : AuthDir)
    (password : List Char) (salt : List UInt8) (faults : AuthFaults) :
    Except String Unit × AuthState × AuthDir :=
  if faults.random then (.error ("generate password salt: " ++ faults.cause), self, dir)
  else
    match argon2.encodeSalt salt with
    | none => (.error ("encode password salt: " ++ faults.cause), self, dir)
    | some salt =>
      match argon2.hash password salt with
      | none => (.error ("hash password: " ++ faults.cause), self, dir)
      | some hash =>
        match writeFile dir.hash hash faults.writeHash with
        | (false, file) => (.error faults.cause, self, { dir with hash := file })
        | (true, file) =>
          if faults.restrictHash then (.error faults.cause, self, { dir with hash := file })
          else (.ok (), ⟨some hash⟩, { dir with hash := file })

/-- The secret does not concern the hash. -/
theorem hash_initializeSecret (dir : AuthDir) (generated : List Char) (faults : AuthFaults) :
    (dir.initializeSecret generated faults).2.hash = dir.hash := by
  unfold AuthDir.initializeSecret
  split
  · rfl
  · split <;> rfl

/-- **`load_or_initialize`, case by case.**  It leaves the hash, and when it succeeds it has read it. -/
theorem loadOrInitialize_cases (dir : AuthDir) (generated : List Char) (faults : AuthFaults) :
    (loadOrInitialize dir generated faults).2.hash = dir.hash ∧
      ((∃ error, (loadOrInitialize dir generated faults).1 = .error error) ∨
        (loadOrInitialize dir generated faults).1 =
          .ok ⟨if faults.readHash then none else dir.hash.map trim⟩) := by
  have hhash := hash_initializeSecret dir generated faults
  unfold loadOrInitialize
  split
  · exact ⟨rfl, Or.inl ⟨_, rfl⟩⟩
  · cases hinit : dir.initializeSecret generated faults with
    | mk answer after =>
      rw [hinit] at hhash
      cases answer with
      | error error => exact ⟨hhash, Or.inl ⟨_, rfl⟩⟩
      | ok _ =>
        dsimp only
        generalize (if faults.readHash = true then none else dir.hash.map trim) = passwordHash
        split
        · exact ⟨hhash, Or.inl ⟨_, rfl⟩⟩
        · split
          · exact ⟨hhash, Or.inl ⟨_, rfl⟩⟩
          · exact ⟨hhash, Or.inr rfl⟩

/-- **`set_password`, case by case.**  An error leaves the state in memory, and a hash file that is
there; a success stores the hash in both. -/
theorem setPassword_cases {H : Type} (argon2 : Argon2 H) (self : AuthState) (dir : AuthDir)
    (password : List Char) (salt : List UInt8) (faults : AuthFaults) :
    (∃ error after, self.setPassword argon2 dir password salt faults = (.error error, self, after) ∧
        (dir.hash.isSome = true → after.hash.isSome = true)) ∨
      ∃ salt' hash, argon2.encodeSalt salt = some salt' ∧ argon2.hash password salt' = some hash ∧
        self.setPassword argon2 dir password salt faults =
          (.ok (), ⟨some hash⟩, { dir with hash := some hash }) := by
  unfold setPassword
  split
  · exact Or.inl ⟨_, _, rfl, id⟩
  · cases hsalt : argon2.encodeSalt salt with
    | none => exact Or.inl ⟨_, _, rfl, id⟩
    | some salt' =>
      dsimp only
      cases hhash : argon2.hash password salt' with
      | none => exact Or.inl ⟨_, _, rfl, id⟩
      | some hash =>
        dsimp only
        have hkept : dir.hash.isSome = true →
            (writeFile dir.hash hash faults.writeHash).2.isSome = true :=
          fun h => isSome_writeFile h hash faults.writeHash
        rcases hfault : faults.writeHash with _ | fault
        · rw [hfault] at hkept
          dsimp only [writeFile]
          split
          · exact Or.inl ⟨_, _, rfl, hkept⟩
          · exact Or.inr ⟨salt', hash, rfl, hhash, rfl⟩
        · rw [hfault] at hkept
          cases fault with
          | refused => exact Or.inl ⟨_, _, rfl, hkept⟩
          | cut written => exact Or.inl ⟨_, _, rfl, hkept⟩

end AuthState

/-- `POST /api/v1/auth/password`. -/
def Api.setPassword {H : Type} (argon2 : Argon2 H) (auth : AuthState) (dir : AuthDir)
    (password : List Char) (salt : List UInt8) (faults : AuthFaults) :
    Except ErrorResponse Unit × AuthState × AuthDir :=
  if password.length < 12 then
    (.error ⟨400, "password must contain at least 12 characters"⟩, auth, dir)
  else
    match auth.setPassword argon2 dir password salt faults with
    | (.ok (), auth, dir) => (.ok (), auth, dir)
    | (.error error, auth, dir) => (.error ⟨500, error⟩, auth, dir)

/-- A password that is accepted has twelve characters, and its hash is stored. -/
theorem Api.setPassword_ok {H : Type} {argon2 : Argon2 H} {auth auth' : AuthState}
    {dir dir' : AuthDir} {password : List Char} {salt : List UInt8} {faults : AuthFaults}
    (h : Api.setPassword argon2 auth dir password salt faults = (.ok (), auth', dir')) :
    12 ≤ password.length ∧ ∃ salt' hash, argon2.hash password salt' = some hash ∧
      auth' = ⟨some hash⟩ ∧ dir'.hash = some hash := by
  unfold Api.setPassword at h
  by_cases hshort : password.length < 12
  · rw [if_pos hshort] at h
    cases h
  · rw [if_neg hshort] at h
    refine ⟨Nat.le_of_not_lt hshort, ?_⟩
    rcases auth.setPassword_cases argon2 dir password salt faults with
      ⟨error, after, hrun, -⟩ | ⟨salt', hash, -, hhash, hrun⟩
    · rw [hrun] at h
      cases h
    · rw [hrun] at h
      cases h
      exact ⟨salt', hash, hhash, rfl, rfl⟩

/-! ### Runs of the daemon -/

/-- The files, the state of the process when one runs, and whether a `set_password` has returned
`Ok` since the hash file was last taken away. -/
structure AuthSystem where
  dir : AuthDir
  process : Option AuthState
  passwordSet : Bool

inductive AuthEvent
  | load (generated : List Char) (faults : AuthFaults)
  | setPassword (password : List Char) (salt : List UInt8) (faults : AuthFaults)
  | stop
  /-- Someone takes the hash file away. -/
  | removeHash

namespace AuthSystem

variable {H : Type} (argon2 : Argon2 H)

def step (s : AuthSystem) : AuthEvent → Option AuthSystem
  | .load generated faults =>
    match AuthState.loadOrInitialize s.dir generated faults with
    | (.ok auth, dir) => some { s with dir := dir, process := some auth }
    | (.error _, dir) => some { s with dir := dir, process := none }
  | .setPassword password salt faults =>
    s.process.map fun auth =>
      match auth.setPassword argon2 s.dir password salt faults with
      | (.ok (), auth, dir) => ⟨dir, some auth, true⟩
      | (.error _, auth, dir) => ⟨dir, some auth, s.passwordSet⟩
  | .stop => some { s with process := none }
  | .removeHash => some { s with dir := { s.dir with hash := none }, passwordSet := false }

variable {argon2}

/-- **A load**: the hash file and the flag stay, and a process that it starts has read the hash. -/
theorem step_load {s s' : AuthSystem} {generated : List Char} {faults : AuthFaults}
    (hstep : s.step argon2 (.load generated faults) = some s') :
    s'.dir = (AuthState.loadOrInitialize s.dir generated faults).2 ∧ s'.dir.hash = s.dir.hash ∧
      s'.passwordSet = s.passwordSet ∧ ∀ auth ∈ s'.process,
        (AuthState.loadOrInitialize s.dir generated faults).1 = .ok auth ∧
          auth.passwordHash = if faults.readHash then none else s.dir.hash.map trim := by
  obtain ⟨hhash, hended⟩ := AuthState.loadOrInitialize_cases s.dir generated faults
  rw [AuthSystem.step] at hstep
  cases hload : AuthState.loadOrInitialize s.dir generated faults with
  | mk answer dir =>
    rw [hload] at hhash hended hstep
    cases answer with
    | error error =>
      cases hstep
      exact ⟨rfl, hhash, rfl, fun auth hauth => by cases hauth⟩
    | ok started =>
      cases hstep
      refine ⟨rfl, hhash, rfl, fun auth hauth => ?_⟩
      cases hauth
      rcases hended with ⟨error, herror⟩ | hread
      · cases herror
      · exact ⟨rfl, congrArg AuthState.passwordHash (Except.ok.inj hread)⟩

/-- **A `set_password`** is one of a process that runs, and the process goes on. -/
theorem step_setPassword {s s' : AuthSystem} {password : List Char} {salt : List UInt8}
    {faults : AuthFaults} (hstep : s.step argon2 (.setPassword password salt faults) = some s') :
    ∃ auth answer after dir, s.process = some auth ∧
      auth.setPassword argon2 s.dir password salt faults = (answer, after, dir) ∧
      s'.process = some after ∧ s'.dir = dir ∧
      (s'.passwordSet = true → s.passwordSet = true ∨ answer = .ok ()) := by
  rw [AuthSystem.step] at hstep
  obtain ⟨auth, hprocess, hnext⟩ := Option.map_eq_some_iff.mp hstep
  cases hrun : auth.setPassword argon2 s.dir password salt faults with
  | mk answer rest =>
    obtain ⟨after, dir⟩ := rest
    rw [hrun] at hnext
    cases answer with
    | ok _ =>
      subst hnext
      exact ⟨auth, _, after, dir, hprocess, hrun, rfl, rfl, fun _ => Or.inr rfl⟩
    | error error =>
      subst hnext
      exact ⟨auth, _, after, dir, hprocess, hrun, rfl, rfl, Or.inl⟩

variable (argon2)

/-- Once a password was set, its file is there and a process that runs has a password. -/
structure Guarded (s : AuthSystem) : Prop where
  file : s.passwordSet = true → s.dir.hash.isSome = true
  process : s.passwordSet = true → ∀ auth ∈ s.process, auth.hasPassword = true

/-- A load reads the hash file when it is there. -/
def ReadsHash (s : AuthSystem) : AuthEvent → Prop
  | .load _ faults => faults.readHash = true → s.dir.hash = none
  | _ => True

/-- **The step lemma.** -/
theorem Guarded.step {s s' : AuthSystem} {e : AuthEvent} (h : Guarded s) (hreads : ReadsHash s e)
    (hstep : s.step argon2 e = some s') : Guarded s' := by
  cases e with
  | load generated faults =>
    obtain ⟨-, hhash, hflag, hprocess⟩ := step_load hstep
    refine ⟨fun hset => ?_, fun hset auth hauth => ?_⟩
    · rw [hhash]
      exact h.file (hflag ▸ hset)
    · -- the file is there, so it was read
      have hfile := h.file (hflag ▸ hset)
      have hnotFailed : faults.readHash = false := by
        by_contra hfailed
        rw [hreads (by simpa using hfailed)] at hfile
        cases hfile
      simpa [AuthState.hasPassword, (hprocess auth hauth).2, hnotFailed] using hfile
  | setPassword password salt faults =>
    obtain ⟨auth, answer, after, dir, hprocess, hrun, hafter, hdir, hset⟩ := step_setPassword hstep
    rcases auth.setPassword_cases argon2 s.dir password salt faults with
      ⟨error, kept, herror, hkept⟩ | ⟨salt', hash, -, -, hok⟩
    · cases herror.symm.trans hrun
      have hold : s'.passwordSet = true → s.passwordSet = true := by
        intro hset'
        rcases hset hset' with hold | hnever
        · exact hold
        · cases hnever
      refine ⟨fun hset' => hdir ▸ hkept (h.file (hold hset')), fun hset' auth' hauth' => ?_⟩
      cases hafter.symm.trans hauth'
      exact h.process (hold hset') auth hprocess
    · cases hok.symm.trans hrun
      refine ⟨fun _ => hdir ▸ rfl, fun _ auth' hauth' => ?_⟩
      cases hafter.symm.trans hauth'
      rfl
  | stop =>
    cases hstep
    exact ⟨h.file, fun _ => nofun⟩
  | removeHash =>
    cases hstep
    exact ⟨nofun, nofun⟩

/-- **A password that was set keeps the exemption shut.**  From a state before any `set_password`,
while every load reads the hash file when it is there: once `set_password` has returned `Ok` and the
file is still on disk, a process that runs has a password, and no TCP request is exempt. -/
theorem guarded_of_reaches {start s : AuthSystem} (hstart : start.passwordSet = false)
    (h : Reaches (step argon2) ReadsHash start s) (hset : s.passwordSet = true) :
    s.dir.hash.isSome = true ∧ ∀ auth ∈ s.process, auth.hasPassword = true ∧
      ∀ address host, localAuthExempt (some address) host auth.hasPassword = false := by
  have hguarded : Guarded start := ⟨by simp [hstart], by simp [hstart]⟩
  have hs : Guarded s :=
    h.invariant hguarded fun _ _ _ hreads hguarded hstep => hguarded.step argon2 hreads hstep
  refine ⟨hs.file hset, fun auth hauth => ?_⟩
  have hpassword := hs.process hset auth hauth
  refine ⟨hpassword, fun address host => ?_⟩
  rw [hpassword]
  rfl

/-- Stands in for Argon2 where it has to run: the hash spells the password in hexadecimal digits. -/
def hexArgon2 : Argon2 (List Char) where
  parse := some
  verify password parsed := parsed = password.flatMap fun c => hexDigits 6 c.toNat
  encodeSalt _ := some []
  hash password _ := some (password.flatMap fun c => hexDigits 6 c.toNat)

/-- Before the first start. -/
def blank : AuthSystem := ⟨⟨none, none⟩, none, false⟩

def firstLoad : AuthEvent := .load "token".toList .none

def settingPassword : AuthEvent := .setPassword "correct horse".toList [] .none

theorem guarded_after_restart :
    ∃ s, Reaches (step hexArgon2) ReadsHash blank s ∧ s.passwordSet = true ∧
      ∀ auth ∈ s.process, auth.hasPassword = true := by
  have hrun : ∃ s, runAll (step hexArgon2) blank [firstLoad, settingPassword, .stop, firstLoad] =
      some s ∧ s.passwordSet = true := ⟨_, rfl, rfl⟩
  obtain ⟨s, hrun, hset⟩ := hrun
  have hreaches : Reaches (step hexArgon2) ReadsHash blank s := by
    refine Reaches.of_runAll .start ?_ hrun
    intro s e he
    simp only [List.mem_cons, List.not_mem_nil, or_false] at he
    rcases he with rfl | rfl | rfl | rfl
    · exact nofun
    · trivial
    · trivial
    · exact nofun
  exact ⟨s, hreaches, hset, fun auth hauth =>
    ((guarded_of_reaches hexArgon2 rfl hreaches hset).2 auth hauth).1⟩

/-- **A load that cannot read the hash** takes the daemon for one without a password, and exempts a
request that comes through loopback. -/
theorem unread_hash_opens_loopback :
    ¬ ∀ start s : AuthSystem, start.passwordSet = false →
      Reaches (step hexArgon2) (fun _ _ => True) start s → s.passwordSet = true →
        s.dir.hash.isSome = true → ∀ auth ∈ s.process, auth.hasPassword = true ∧
          ∀ address host, localAuthExempt (some address) host auth.hasPassword = false := by
  intro hguarded
  have hrun : ∃ s, runAll (step hexArgon2) blank [firstLoad, settingPassword, .stop,
      .load "token".toList { AuthFaults.none with readHash := true }] = some s ∧
        s.passwordSet = true ∧ s.dir.hash.isSome = true ∧ s.process = some ⟨none⟩ :=
    ⟨_, rfl, rfl, rfl, rfl⟩
  obtain ⟨s, hrun, hset, hfile, hprocess⟩ := hrun
  have hreaches : Reaches (step hexArgon2) (fun _ _ => True) blank s :=
    Reaches.of_runAll .start (fun _ _ _ => trivial) hrun
  have hpassword := (hguarded blank s rfl hreaches hset hfile ⟨none⟩ hprocess).1
  cases hpassword

end AuthSystem

end Portalis
