import Portalis.AuthStore
import Portalis.Backup
import Portalis.JsonFiles

/-!
# Saves that fail

`set_password` and `save_profile` write in place, file after file, and stop at the first operation that
fails.  What is written by then stays, and the next `load_or_initialize` or `load_profile` reads it.

* `save_files`: without failures, `save_profile` on the files is `saveProfile` on what they hold.
* `readings_save`: what is read of the files after a save, wherever it stops.
* `passwordKept_iff`, `settingsKept_iff`: when a save that fails changes nothing that is read.
* `failed_save_unnoticed_iff`: both.
-/

namespace Portalis

open Json Text

/-! ### The S3 files -/

namespace S3Profile

def fields : List String := ["provider", "endpoint", "region", "bucket", "prefix", "path_style"]

def members (self : S3Profile) : List (String × Json) :=
  [("provider", .string self.provider), ("endpoint", .string self.endpoint), ("region", .string self.region),
    ("bucket", .string self.bucket), ("prefix", .string self.prefixText), ("path_style", .bool self.pathStyle)]

def ofMembers (members : List (String × Json)) : Option S3Profile := do
  let provider ← required members "provider" asString
  let endpoint ← required members "endpoint" asString
  let region ← required members "region" asString
  let bucket ← required members "bucket" asString
  let prefixText ← defaulted members "prefix" asString ""
  let pathStyle ← defaulted members "path_style" asBool false
  return ⟨provider, endpoint, region, bucket, prefixText, pathStyle⟩

def ofJson (v : Json) : Option S3Profile := (entries fields v).bind ofMembers

theorem ofJson_object (self : S3Profile) : ofJson (.object self.members) = some self := by
  have hnodup : (self.members.map (·.1)).Nodup := (by decide : fields.Nodup)
  show ofMembers self.members = some self
  rw [ofMembers, required_bind hnodup 0 rfl (asString_string self.provider),
    required_bind hnodup 1 rfl (asString_string self.endpoint),
    required_bind hnodup 2 rfl (asString_string self.region),
    required_bind hnodup 3 rfl (asString_string self.bucket),
    defaulted_bind hnodup 4 rfl (asString_string self.prefixText),
    defaulted_bind hnodup 5 rfl (asBool_bool self.pathStyle)]
  rfl

/-- `serde_json::to_vec_pretty` and `from_slice`. -/
def format : FileFormat S3Profile :=
  textFormat (fun self => pretty self.members) (fun text => (parse text).bind ofJson)
    (fun self => by rw [parse_pretty, Option.bind_some, ofJson_object])
    (fun hstart hne => by rw [parse_cut_pretty hstart hne, Option.bind_none])

end S3Profile

namespace S3Secrets

def fields : List String := ["access_key_id", "secret_access_key"]

def members (self : S3Secrets) : List (String × Json) :=
  [("access_key_id", .string self.accessKeyId), ("secret_access_key", .string self.secretAccessKey)]

def ofMembers (members : List (String × Json)) : Option S3Secrets := do
  let accessKeyId ← required members "access_key_id" asString
  let secretAccessKey ← required members "secret_access_key" asString
  return ⟨accessKeyId, secretAccessKey⟩

def ofJson (v : Json) : Option S3Secrets := (entries fields v).bind ofMembers

theorem ofJson_object (self : S3Secrets) : ofJson (.object self.members) = some self := by
  have hnodup : (self.members.map (·.1)).Nodup := (by decide : fields.Nodup)
  show ofMembers self.members = some self
  rw [ofMembers, required_bind hnodup 0 rfl (asString_string self.accessKeyId),
    required_bind hnodup 1 rfl (asString_string self.secretAccessKey)]
  rfl

/-- `serde_json::to_vec` and `from_slice`. -/
def format : FileFormat S3Secrets :=
  textFormat (fun self => render (.object self.members)) (fun text => (parse text).bind ofJson)
    (fun self => by rw [parse_render, Option.bind_some, ofJson_object])
    (fun hstart hne => by rw [parse_cut_render hstart hne, Option.bind_none])

end S3Secrets

/-- What is found of a file. -/
inductive FileReading (α : Type)
  | missing
  | unreadable
  | value (a : α)
  deriving DecidableEq

namespace FileReading

variable {α : Type}

def of (format : FileFormat α) : Option (List UInt8) → FileReading α
  | none => missing
  | some bytes =>
    match format.read bytes with
    | none => unreadable
    | some a => value a

/-- What is found after a value was written over it, in so many octets. -/
def overwritten (old : FileReading α) (a : α) (size : ℕ) : Option WriteFault → FileReading α
  | none => value a
  | some .refused => old
  | some (.cut written) => if size ≤ written then value a else unreadable

theorem of_write (format : FileFormat α) (a : α) : of format (some (format.write a)) = value a := by
  rw [of, format.read_write]

/-- **What is found of a file that was written**, whether or not the write succeeded. -/
theorem of_writeFile (format : FileFormat α) (file : Option (List UInt8)) (a : α)
    (fault : Option WriteFault) : of format (writeFile file (format.write a) fault).2 =
      (of format file).overwritten a (format.write a).length fault := by
  cases fault with
  | none => exact of_write format a
  | some fault =>
    cases fault with
    | refused => rfl
    | cut written =>
      show of format (some ((format.write a).take written)) = if _ then _ else _
      split
      · next hsize =>
        rw [List.take_of_length_le hsize]
        exact of_write format a
      · next hsize =>
        have hne : (format.write a).take written ≠ format.write a := by
          intro hsame
          have hlength := congrArg List.length hsame
          rw [List.length_take] at hlength
          omega
        rw [of, format.read_cut (List.take_prefix _ _) hne]

end FileReading

/-- `s3-profile.json` and `s3-secrets.json` as octets. -/
structure S3Dir where
  profile : Option (List UInt8)
  secrets : Option (List UInt8)

/-- The operations of a `save_profile` that fail, and the text of the error. -/
structure SaveFaults where
  createDir : Bool
  writeProfile : Option WriteFault
  writeSecrets : Option WriteFault
  restrictSecrets : Bool
  restrictProfile : Bool
  cause : String

def SaveFaults.none : SaveFaults := ⟨false, Option.none, Option.none, false, false, ""⟩

/-- What `load_profile` makes of the two files; the text of an error is the reader's. -/
def loaded : FileReading S3Profile → FileReading S3Secrets → Except Unit (Option (S3Profile × S3Secrets))
  | .missing, _ => .ok none
  | _, .missing => .ok none
  | .value profile, .value secrets => .ok (some (profile, secrets))
  | .unreadable, _ => .error ()
  | _, .unreadable => .error ()

/-- When two pairs of files are loaded alike, where a file that is there does not go away. -/
theorem loaded_eq_iff {profile profile' : FileReading S3Profile} {secrets secrets' : FileReading S3Secrets}
    (hprofile : profile' ≠ .missing) (hsecrets : secrets' = .missing → secrets = .missing) :
    loaded profile' secrets' = loaded profile secrets ↔
      secrets' = .missing ∨ profile ≠ .missing ∧ secrets ≠ .missing ∧
        ((profile' = .unreadable ∨ secrets' = .unreadable) ∧ (profile = .unreadable ∨ secrets = .unreadable) ∨
          profile' = profile ∧ secrets' = secrets) := by
  cases profile' with
  | missing => exact absurd rfl hprofile
  | unreadable => cases secrets' <;> cases profile <;> cases secrets <;> simp_all [loaded]
  | value a => cases secrets' <;> cases profile <;> cases secrets <;> simp_all [loaded]

namespace S3Dir

variable (dir : S3Dir)

def profileReading : FileReading S3Profile := .of S3Profile.format dir.profile

def secretsReading : FileReading S3Secrets := .of S3Secrets.format dir.secrets

/-- `load_profile`. -/
def loadProfile : Except Unit (Option (S3Profile × S3Secrets)) :=
  match dir.profile, dir.secrets with
  | some profile, some secrets =>
    match S3Profile.format.read profile with
    | none => .error ()
    | some profile =>
      match S3Secrets.format.read secrets with
      | none => .error ()
      | some secrets => .ok (some (profile, secrets))
  | _, _ => .ok none

/-- The part of `save_profile` that writes the secrets, when there are some. -/
def saveSecrets (faults : SaveFaults) : Option S3Secrets → Bool × S3Dir
  | none => (true, dir)
  | some secrets =>
    match writeFile dir.secrets (S3Secrets.format.write secrets) faults.writeSecrets with
    | (false, file) => (false, { dir with secrets := file })
    | (true, file) => (!faults.restrictSecrets, { dir with secrets := file })

/-- `save_profile`. -/
def saveProfile (profile : S3Profile) (secrets : Option S3Secrets) (faults : SaveFaults) :
    Except String Unit × S3Dir :=
  if faults.createDir then (.error faults.cause, dir)
  else
    match writeFile dir.profile (S3Profile.format.write profile) faults.writeProfile with
    | (false, file) => (.error faults.cause, { dir with profile := file })
    | (true, file) =>
      match S3Dir.saveSecrets { dir with profile := file } faults secrets with
      | (false, dir) => (.error faults.cause, dir)
      | (true, dir) => (if faults.restrictProfile then .error faults.cause else .ok (), dir)

/-- What the files hold. -/
def files : S3Files where
  profile := dir.profile.bind S3Profile.format.read
  secrets := dir.secrets.bind S3Secrets.format.read

theorem loadProfile_eq : dir.loadProfile = loaded dir.profileReading dir.secretsReading := by
  unfold loadProfile profileReading secretsReading FileReading.of
  cases dir.profile with
  | none => rfl
  | some profile =>
    cases dir.secrets with
    | none =>
      dsimp only
      cases S3Profile.format.read profile with
      | none => rfl
      | some _ => rfl
    | some secrets =>
      dsimp only
      cases S3Profile.format.read profile with
      | none =>
        cases S3Secrets.format.read secrets with
        | none => rfl
        | some _ => rfl
      | some _ =>
        cases S3Secrets.format.read secrets with
        | none => rfl
        | some _ => rfl

/-- **Without failures**, the files hold what `saveProfile` says. -/
theorem save_files (profile : S3Profile) (secrets : Option S3Secrets) :
    (dir.saveProfile profile secrets .none).1 = .ok () ∧
      (dir.saveProfile profile secrets .none).2.files = dir.files.saveProfile profile secrets := by
  have hprofile : (some (S3Profile.format.write profile)).bind S3Profile.format.read = some profile :=
    S3Profile.format.read_write profile
  cases secrets with
  | none =>
    have hrun : dir.saveProfile profile none .none =
        (.ok (), ⟨some (S3Profile.format.write profile), dir.secrets⟩) := rfl
    rw [hrun]
    refine ⟨rfl, ?_⟩
    show (⟨(some (S3Profile.format.write profile)).bind _, _⟩ : S3Files) = _
    rw [hprofile]
    rfl
  | some secrets =>
    have hsecrets : (some (S3Secrets.format.write secrets)).bind S3Secrets.format.read = some secrets :=
      S3Secrets.format.read_write secrets
    have hrun : dir.saveProfile profile (some secrets) .none = (.ok (),
        ⟨some (S3Profile.format.write profile), some (S3Secrets.format.write secrets)⟩) := rfl
    rw [hrun]
    refine ⟨rfl, ?_⟩
    show (⟨(some (S3Profile.format.write profile)).bind _, (some (S3Secrets.format.write secrets)).bind _⟩ :
      S3Files) = _
    rw [hprofile, hsecrets]
    rfl

/-- While no file is there that cannot be read, `load_profile` finds what the files hold. -/
theorem loadProfile_files (hprofile : dir.profileReading ≠ .unreadable)
    (hsecrets : dir.secretsReading ≠ .unreadable) : dir.loadProfile = .ok dir.files.loadProfile := by
  unfold profileReading FileReading.of at hprofile
  unfold secretsReading FileReading.of at hsecrets
  unfold loadProfile files S3Files.loadProfile
  cases hp : dir.profile with
  | none => rfl
  | some profile =>
    cases hs : dir.secrets with
    | none =>
      dsimp only
      rw [Option.bind_some]
      cases S3Profile.format.read profile with
      | none => rfl
      | some _ => rfl
    | some secrets =>
      rw [hp] at hprofile
      rw [hs] at hsecrets
      dsimp only at hprofile hsecrets ⊢
      rw [Option.bind_some, Option.bind_some]
      cases hread : S3Profile.format.read profile with
      | none =>
        rw [hread] at hprofile
        exact absurd rfl hprofile
      | some _ =>
        cases hread' : S3Secrets.format.read secrets with
        | none =>
          rw [hread'] at hsecrets
          exact absurd rfl hsecrets
        | some _ => rfl

/-! ### Where a save stops -/

/-- The operation that fails comes before a file is opened for writing. -/
def RefusedFirst (faults : SaveFaults) : Prop :=
  faults.createDir = true ∨ faults.writeProfile = some .refused

/-- An operation fails that this save comes to. -/
def SaveFails (secrets : Option S3Secrets) (faults : SaveFaults) : Prop :=
  faults.createDir = true ∨ faults.writeProfile ≠ none ∨
    (secrets ≠ none ∧ (faults.writeSecrets ≠ none ∨ faults.restrictSecrets = true)) ∨
      faults.restrictProfile = true

/-- The profile that is left. -/
def profileLeft (profile : S3Profile) (faults : SaveFaults) : FileReading S3Profile :=
  dir.profileReading.overwritten profile (S3Profile.format.write profile).length faults.writeProfile

/-- The secrets that are left: the old ones, where none are given or the profile was not written. -/
def secretsLeft (secrets : Option S3Secrets) (faults : SaveFaults) : FileReading S3Secrets :=
  match faults.writeProfile, secrets with
  | none, some secrets =>
    dir.secretsReading.overwritten secrets (S3Secrets.format.write secrets).length faults.writeSecrets
  | _, _ => dir.secretsReading

/-- **What is read after a save**, wherever it stops. -/
theorem readings_save (profile : S3Profile) (secrets : Option S3Secrets) {faults : SaveFaults}
    (h : faults.createDir = false) :
    (dir.saveProfile profile secrets faults).2.profileReading = dir.profileLeft profile faults ∧
      (dir.saveProfile profile secrets faults).2.secretsReading = dir.secretsLeft secrets faults := by
  have hprofile := FileReading.of_writeFile S3Profile.format dir.profile profile faults.writeProfile
  unfold saveProfile profileLeft secretsLeft
  rw [h, if_neg Bool.false_ne_true]
  cases hfault : faults.writeProfile with
  | some fault =>
    rw [hfault] at hprofile
    cases fault with
    | refused => exact ⟨hprofile, rfl⟩
    | cut written => exact ⟨hprofile, rfl⟩
  | none =>
    rw [hfault] at hprofile
    cases secrets with
    | none => exact ⟨hprofile, rfl⟩
    | some secrets =>
      have hsecrets := FileReading.of_writeFile S3Secrets.format dir.secrets secrets faults.writeSecrets
      cases hfault' : faults.writeSecrets with
      | some fault =>
        rw [hfault'] at hsecrets
        dsimp only [writeFile, saveSecrets]
        rw [hfault']
        cases fault with
        | refused => exact ⟨hprofile, hsecrets⟩
        | cut written => exact ⟨hprofile, hsecrets⟩
      | none =>
        rw [hfault'] at hsecrets
        dsimp only [writeFile, saveSecrets]
        rw [hfault']
        dsimp only [writeFile]
        cases faults.restrictSecrets with
        | false => exact ⟨hprofile, hsecrets⟩
        | true => exact ⟨hprofile, hsecrets⟩

/-- When the secrets fail to be saved. -/
theorem saveSecrets_eq_false_iff (secrets : Option S3Secrets) (faults : SaveFaults) :
    (dir.saveSecrets faults secrets).1 = false ↔
      secrets ≠ none ∧ (faults.writeSecrets ≠ none ∨ faults.restrictSecrets = true) := by
  cases secrets with
  | none => exact iff_of_false (fun h => (by cases h)) fun h => h.1 rfl
  | some secrets =>
    rw [and_iff_right (by simp)]
    unfold saveSecrets
    cases faults.writeSecrets with
    | none =>
      show (!faults.restrictSecrets) = false ↔ _
      rw [Bool.not_eq_false', or_iff_right fun h => h rfl]
    | some fault =>
      refine iff_of_true ?_ (Or.inl (by simp))
      cases fault with
      | refused => rfl
      | cut written => rfl

theorem saveProfile_error_iff (profile : S3Profile) (secrets : Option S3Secrets) (faults : SaveFaults) :
    (∃ error, (dir.saveProfile profile secrets faults).1 = .error error) ↔ SaveFails secrets faults := by
  unfold saveProfile SaveFails
  cases faults.createDir with
  | true => exact iff_of_true ⟨_, rfl⟩ (Or.inl rfl)
  | false =>
    rw [if_neg Bool.false_ne_true, or_iff_right Bool.false_ne_true]
    cases faults.writeProfile with
    | some fault =>
      refine iff_of_true ?_ (Or.inl (by simp))
      cases fault with
      | refused => exact ⟨_, rfl⟩
      | cut written => exact ⟨_, rfl⟩
    | none =>
      rw [or_iff_right fun h => h rfl]
      dsimp only [writeFile]
      rw [← saveSecrets_eq_false_iff { dir with profile := some (S3Profile.format.write profile) }]
      rcases hsave : S3Dir.saveSecrets { dir with profile := some (S3Profile.format.write profile) } faults
        secrets with ⟨saved, after⟩
      cases saved with
      | false => exact iff_of_true ⟨_, rfl⟩ (Or.inl rfl)
      | true =>
        rw [or_iff_right Bool.noConfusion]
        dsimp only
        cases faults.restrictProfile with
        | true => exact iff_of_true ⟨_, rfl⟩ rfl
        | false =>
          refine iff_of_false (fun h => ?_) Bool.false_ne_true
          obtain ⟨error, herror⟩ := h
          cases herror

/-! ### Settings -/

/-- A save that fails leaves what `load_profile` returns. -/
def SettingsKept (profile : S3Profile) (secrets : Option S3Secrets) (faults : SaveFaults) : Prop :=
  ∀ error left, dir.saveProfile profile secrets faults = (.error error, left) →
    left.loadProfile = dir.loadProfile

/-- There are no secrets, before and after, or there were both files, and what is left of them is what they
held, or can no more be read than they could. -/
def Unnoticed (profile : S3Profile) (secrets : Option S3Secrets) (faults : SaveFaults) : Prop :=
  dir.secretsLeft secrets faults = .missing ∨
    dir.profileReading ≠ .missing ∧ dir.secretsReading ≠ .missing ∧
      ((dir.profileLeft profile faults = .unreadable ∨ dir.secretsLeft secrets faults = .unreadable) ∧
          (dir.profileReading = .unreadable ∨ dir.secretsReading = .unreadable) ∨
        dir.profileLeft profile faults = dir.profileReading ∧
          dir.secretsLeft secrets faults = dir.secretsReading)

variable {dir} {profile : S3Profile} {secrets : Option S3Secrets} {faults : SaveFaults}

/-- A profile that was opened for writing is there. -/
theorem profileLeft_ne_missing (h : faults.writeProfile ≠ some .refused) :
    dir.profileLeft profile faults ≠ .missing := by
  unfold profileLeft FileReading.overwritten
  split
  · exact fun hvalue => (by cases hvalue)
  · next hrefused => exact absurd hrefused h
  · split
    · exact fun hvalue => (by cases hvalue)
    · exact fun hvalue => (by cases hvalue)

theorem secretsReading_of_left (h : dir.secretsLeft secrets faults = .missing) :
    dir.secretsReading = .missing := by
  unfold secretsLeft at h
  split at h
  · unfold FileReading.overwritten at h
    split at h
    · cases h
    · exact h
    · split at h
      · cases h
      · cases h
  · exact h

/-- What is loaded after a save that came to open the profile. -/
theorem loadProfile_save (hcreate : faults.createDir = false) :
    (dir.saveProfile profile secrets faults).2.loadProfile =
      loaded (dir.profileLeft profile faults) (dir.secretsLeft secrets faults) := by
  obtain ⟨hprofile, hsecrets⟩ := dir.readings_save profile secrets hcreate
  rw [loadProfile_eq, hprofile, hsecrets]

theorem loadProfile_of_refusedFirst (h : RefusedFirst faults) :
    (dir.saveProfile profile secrets faults).2.loadProfile = dir.loadProfile := by
  cases hcreate : faults.createDir with
  | true =>
    unfold saveProfile
    rw [hcreate]
    rfl
  | false =>
    have hrefused : faults.writeProfile = some .refused := h.resolve_left (by rw [hcreate]; simp)
    have hprofile : dir.profileLeft profile faults = dir.profileReading := by
      rw [profileLeft, hrefused]
      rfl
    have hsecrets : dir.secretsLeft secrets faults = dir.secretsReading := by
      unfold secretsLeft
      rw [hrefused]
    rw [loadProfile_save hcreate, hprofile, hsecrets, ← loadProfile_eq]

/-- **When a failed save of the settings changes nothing.** -/
theorem settingsKept_iff : dir.SettingsKept profile secrets faults ↔
    (SaveFails secrets faults → RefusedFirst faults ∨ dir.Unnoticed profile secrets faults) := by
  have hfails := dir.saveProfile_error_iff profile secrets faults
  have hkept : dir.SettingsKept profile secrets faults ↔ (SaveFails secrets faults →
      (dir.saveProfile profile secrets faults).2.loadProfile = dir.loadProfile) := by
    constructor
    · intro h hsave
      obtain ⟨error, herror⟩ := hfails.mpr hsave
      exact h error _ (Prod.ext herror rfl)
    · intro h error left hrun
      have hload := h (hfails.mp ⟨error, by rw [hrun]⟩)
      rwa [hrun] at hload
  rw [hkept]
  refine forall_congr' fun _ => ?_
  by_cases hfirst : RefusedFirst faults
  · exact iff_of_true (loadProfile_of_refusedFirst hfirst) (Or.inl hfirst)
  · rw [or_iff_right hfirst]
    obtain ⟨hcreate, hrefused⟩ := not_or.mp hfirst
    rw [loadProfile_save (Bool.eq_false_iff.mpr hcreate), loadProfile_eq,
      loaded_eq_iff (profileLeft_ne_missing hrefused) secretsReading_of_left]
    rfl

end S3Dir

/-! ### Passwords -/

section

variable {H : Type} (argon2 : Argon2 H)

/-- Two states of the daemon that answer alike. -/
def AuthState.SameAnswers (a b : AuthState) : Prop :=
  a.hasPassword = b.hasPassword ∧ ∀ password, a.verifyPassword argon2 password = b.verifyPassword argon2 password

/-- The passwords that the text of a hash file accepts. -/
def acceptsPassword (text password : List Char) : Bool :=
  AuthState.verifyPassword argon2 ⟨some (trim text)⟩ password

/-- What a `set_password` that fails leaves in the file it has opened. -/
def AuthFaults.leaves (faults : AuthFaults) (hash : List Char) : Option (List Char) :=
  match faults.writeHash with
  | some .refused => Option.none
  | some (.cut written) => some (hash.take written)
  | .none => if faults.restrictHash then some hash else Option.none

/-- The new hash is computed, and the file is left with `text` of it. -/
def LeavesText (password : List Char) (salt : List UInt8) (faults : AuthFaults) (text : List Char) : Prop :=
  faults.random = false ∧ ∃ salt' hash, argon2.encodeSalt salt = some salt' ∧
    argon2.hash password salt' = some hash ∧ faults.leaves hash = some text

/-- A `set_password` that fails changes no answer, neither of the daemon that runs nor of one that is
started again. -/
def PasswordKept (auth : AuthState) (dir : AuthDir) (password : List Char) (salt : List UInt8)
    (faults : AuthFaults) : Prop :=
  ∀ error after left, auth.setPassword argon2 dir password salt faults = (.error error, after, left) →
    after.SameAnswers argon2 auth ∧
      ∀ generated restart before restarted,
        (AuthState.loadOrInitialize dir generated restart).1 = .ok before →
        (AuthState.loadOrInitialize left generated restart).1 = .ok restarted →
          restarted.SameAnswers argon2 before

variable {argon2} {auth after : AuthState} {dir left : AuthDir} {password : List Char} {salt : List UInt8}
  {faults : AuthFaults}

/-- **A `set_password` that fails** leaves the memory, and the file unless it was opened. -/
theorem setPassword_error {error : String}
    (h : auth.setPassword argon2 dir password salt faults = (.error error, after, left)) :
    after = auth ∧ (left = dir ∨ ∃ text, LeavesText argon2 password salt faults text ∧
      left = { dir with hash := some text }) := by
  unfold AuthState.setPassword at h
  split at h
  · cases h
    exact ⟨rfl, Or.inl rfl⟩
  · next hrandom =>
    split at h
    · cases h
      exact ⟨rfl, Or.inl rfl⟩
    · next salt' hsalt =>
      split at h
      · cases h
        exact ⟨rfl, Or.inl rfl⟩
      · next hash hhash =>
        have hleaves : ∀ text, faults.leaves hash = some text → LeavesText argon2 password salt faults text :=
          fun text htext => ⟨Bool.eq_false_iff.mpr hrandom, salt', hash, hsalt, hhash, htext⟩
        unfold AuthFaults.leaves at hleaves
        cases hfault : faults.writeHash with
        | none =>
          rw [hfault] at h hleaves
          dsimp only [writeFile] at h hleaves
          cases hrestrict : faults.restrictHash with
          | false =>
            rw [hrestrict] at h
            cases h
          | true =>
            rw [hrestrict] at h hleaves
            cases h
            exact ⟨rfl, Or.inr ⟨hash, hleaves hash rfl, rfl⟩⟩
        | some fault =>
          rw [hfault] at h hleaves
          cases fault with
          | refused =>
            cases h
            exact ⟨rfl, Or.inl rfl⟩
          | cut written =>
            cases h
            exact ⟨rfl, Or.inr ⟨_, hleaves _ rfl, rfl⟩⟩

/-- A file that is opened and not finished. -/
theorem setPassword_of_leavesText {text : List Char} (h : LeavesText argon2 password salt faults text) :
    auth.setPassword argon2 dir password salt faults =
      (.error faults.cause, auth, { dir with hash := some text }) := by
  obtain ⟨hrandom, salt', hash, hsalt, hhash, htext⟩ := h
  unfold AuthFaults.leaves at htext
  unfold AuthState.setPassword
  rw [hrandom, if_neg Bool.false_ne_true, hsalt]
  dsimp only
  rw [hhash]
  dsimp only
  cases hfault : faults.writeHash with
  | none =>
    rw [hfault] at htext
    dsimp only [writeFile] at htext ⊢
    split at htext
    · next hrestrict =>
      rw [if_pos hrestrict, Option.some.inj htext]
    · cases htext
  | some fault =>
    rw [hfault] at htext
    cases fault with
    | refused => cases htext
    | cut written =>
      rw [← Option.some.inj htext]
      rfl

/-- A load without failures. -/
theorem loadOrInitialize_none (dir : AuthDir) (generated : List Char) :
    (AuthState.loadOrInitialize dir generated .none).1 = .ok ⟨dir.hash.map trim⟩ := by
  unfold AuthState.loadOrInitialize AuthDir.initializeSecret
  cases dir.secret with
  | none =>
    cases dir.hash with
    | none => rfl
    | some hash => rfl
  | some secret =>
    cases dir.hash with
    | none => rfl
    | some hash => rfl

/-- What a load that succeeds has of the hash file. -/
theorem eq_of_loaded {generated : List Char} {restart : AuthFaults} {loaded : AuthState}
    (h : (AuthState.loadOrInitialize dir generated restart).1 = .ok loaded) :
    loaded = ⟨if restart.readHash then none else dir.hash.map trim⟩ := by
  have hcases := (AuthState.loadOrInitialize_cases dir generated restart).2
  rw [h] at hcases
  rcases hcases with ⟨error, herror⟩ | hok
  · cases herror
  · exact Except.ok.inj hok

/-- **When a failed `set_password` changes no answer**: when the hash file was not opened, or was there and
accepted the passwords that what is left of the new hash accepts. -/
theorem passwordKept_iff : PasswordKept argon2 auth dir password salt faults ↔
    ∀ text, LeavesText argon2 password salt faults text → ∃ old, dir.hash = some old ∧
      ∀ other, acceptsPassword argon2 text other = acceptsPassword argon2 old other := by
  constructor
  · intro h text hleaves
    obtain ⟨-, hrestart⟩ := h _ _ _ (setPassword_of_leavesText hleaves)
    have hsame := hrestart [] .none _ _ (loadOrInitialize_none dir [])
      (loadOrInitialize_none { dir with hash := some text } [])
    cases hhash : dir.hash with
    | none =>
      rw [hhash] at hsame
      cases hsame.1
    | some old =>
      rw [hhash] at hsame
      exact ⟨old, rfl, hsame.2⟩
  · intro h error after left hrun
    obtain ⟨hmemory, hfile⟩ := setPassword_error hrun
    rw [hmemory]
    refine ⟨⟨rfl, fun _ => rfl⟩, fun generated restart before restarted hbefore hrestarted => ?_⟩
    rcases hfile with hsame | ⟨text, hleaves, hleft⟩
    · rw [hsame, hbefore] at hrestarted
      rw [Except.ok.inj hrestarted]
      exact ⟨rfl, fun _ => rfl⟩
    · obtain ⟨old, hold, haccepts⟩ := h text hleaves
      rw [eq_of_loaded hbefore, eq_of_loaded hrestarted, hleft, hold]
      cases restart.readHash with
      | true => exact ⟨rfl, fun _ => rfl⟩
      | false => exact ⟨rfl, haccepts⟩

/-- **Saves that fail and are not noticed.**  A failed `set_password` changes no answer if and only if the
hash file was not opened, or accepted the same passwords as what is left in it.  A failed `save_profile`
changes nothing that is loaded if and only if no file was opened, or there were no secrets and are none, or
what is left of the two files is what they held, or can no more be loaded than they could. -/
theorem failed_save_unnoticed_iff (argon2 : Argon2 H) :
    (∀ auth dir password salt faults, PasswordKept argon2 auth dir password salt faults ↔
      ∀ text, LeavesText argon2 password salt faults text → ∃ old, dir.hash = some old ∧
        ∀ other, acceptsPassword argon2 text other = acceptsPassword argon2 old other) ∧
      ∀ (dir : S3Dir) profile secrets faults, dir.SettingsKept profile secrets faults ↔
        (S3Dir.SaveFails secrets faults →
          S3Dir.RefusedFirst faults ∨ dir.Unnoticed profile secrets faults) :=
  ⟨fun _ _ _ _ _ => passwordKept_iff, fun _ _ _ _ => S3Dir.settingsKept_iff⟩

end

/-! ### A disk that is full -/

/-- Nothing is written into the hash file that was opened. -/
def fullDisk : AuthFaults := { AuthFaults.none with writeHash := some (.cut 0), cause := "no space" }

/-- The secrets cannot be opened. -/
def lockedSecrets : SaveFaults := { SaveFaults.none with writeSecrets := some .refused, cause := "denied" }

/-- The files of a first configuration. -/
def minioDir : S3Dir :=
  ⟨some (S3Profile.format.write (minioProfile "")), some (S3Secrets.format.write minioSecrets)⟩

/-- **Both saves report an error and leave something else**: an empty hash file, which is a password that
nobody knows, and the new profile with the old secrets. -/
theorem failed_save_noticed :
    (¬ ∀ auth dir password salt faults,
      PasswordKept AuthSystem.hexArgon2 auth dir password salt faults) ∧
    ¬ ∀ (dir : S3Dir) profile secrets faults, dir.SettingsKept profile secrets faults := by
  constructor
  · intro h
    have hleaves : LeavesText AuthSystem.hexArgon2 "correct horse".toList [] fullDisk [] :=
      ⟨rfl, [], _, rfl, rfl, rfl⟩
    obtain ⟨old, hold, -⟩ := passwordKept_iff.mp (h ⟨none⟩ ⟨none, none⟩ _ [] fullDisk) [] hleaves
    cases hold
  · intro h
    have hkept := h minioDir (minioProfile "copies") (some ⟨"backup", "backup-secret"⟩) lockedSecrets
    have hprofile : minioDir.profileReading = .value (minioProfile "") := FileReading.of_write _ _
    have hsecrets : minioDir.secretsReading = .value minioSecrets := FileReading.of_write _ _
    have hleft : minioDir.profileLeft (minioProfile "copies") lockedSecrets =
        .value (minioProfile "copies") := rfl
    have hkeeps : minioDir.secretsLeft (some ⟨"backup", "backup-secret"⟩) lockedSecrets =
        minioDir.secretsReading := rfl
    rcases S3Dir.settingsKept_iff.mp hkept (Or.inr (Or.inr (Or.inl ⟨by simp, Or.inl (by decide)⟩))) with
      hfirst | hmissing | ⟨-, -, hbroken | hsame⟩
    · rcases hfirst with hcreate | hrefused
      · cases hcreate
      · cases hrefused
    · rw [hkeeps, hsecrets] at hmissing
      cases hmissing
    · rw [hprofile, hsecrets] at hbroken
      rcases hbroken.2 with hbad | hbad
      · cases hbad
      · cases hbad
    · rw [hleft, hprofile] at hsame
      have hprefix := FileReading.value.inj hsame.1
      exact absurd hprefix (by decide)

end Portalis
