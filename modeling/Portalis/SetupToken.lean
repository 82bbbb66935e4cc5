import Portalis.AuthStore

/-!
# The setup token across restarts

`web-auth.secret` is written once, by the first `load_or_initialize` that does not find it, and later
loads ask only whether it exists.  A write that is cut off leaves a file whose text nobody generated.

* `AuthState.secret_loadOrInitialize`, `AuthState.setPassword_files`: what the two leave in the files.
* `token_guards_of_reaches`: while no write of the secret is cut off, only the generated token and the
  password are accepted.
* `empty_token_opens`: a first start that is interrupted, and an empty credential accepted later.
-/

namespace Portalis

open Text Programs

/-! ### The generated text -/

/-- The alphabet of `URL_SAFE_NO_PAD`. -/
def urlSafe : List Char :=
  "ABCDEFGHIJKLMNOPQRSTUVWXYZabcdefghijklmnopqrstuvwxyz0123456789-_".toList

def urlSafeDigit (n : ℕ) : Char := urlSafe.getD (n % 64) 'A'

/-- `URL_SAFE_NO_PAD.encode`: three octets in four characters, and no padding at the end. -/
def encodeUrlSafe : List UInt8 → List Char
  | [] => []
  | [a] =>
    let bits := a.toNat * 16
    [urlSafeDigit (bits / 64), urlSafeDigit bits]
  | [a, b] =>
    let bits := (a.toNat * 256 + b.toNat) * 4
    [urlSafeDigit (bits / 4096), urlSafeDigit (bits / 64), urlSafeDigit bits]
  | a :: b :: c :: rest =>
    let bits := (a.toNat * 256 + b.toNat) * 256 + c.toNat
    urlSafeDigit (bits / 262144) :: urlSafeDigit (bits / 4096) :: urlSafeDigit (bits / 64) ::
      urlSafeDigit bits :: encodeUrlSafe rest

/-- The token of thirty-two random octets. -/
def tokenOf (bytes : Vector UInt8 32) : List Char := encodeUrlSafe bytes.toList

theorem urlSafeDigit_solid (n : ℕ) : isWhitespace (urlSafeDigit n) = false := by
  have hall : ∀ m < 64, isWhitespace (urlSafe.getD m 'A') = false := by decide +kernel
  exact hall _ (Nat.mod_lt _ (by decide))

/-- No character of an encoded text is a blank. -/
theorem encodeUrlSafe_solid (octets : List UInt8) :
    ∀ c ∈ encodeUrlSafe octets, isWhitespace c = false := by
  induction octets using encodeUrlSafe.induct with
  | case1 => simp [encodeUrlSafe]
  | case2 a => simp [encodeUrlSafe, urlSafeDigit_solid]
  | case3 a b => simp [encodeUrlSafe, urlSafeDigit_solid]
  | case4 a b c rest ih =>
    simp only [encodeUrlSafe, List.forall_mem_cons, urlSafeDigit_solid, true_and]
    exact ih

theorem encodeUrlSafe_ne_nil {octets : List UInt8} (h : octets ≠ []) : encodeUrlSafe octets ≠ [] := by
  cases octets using encodeUrlSafe.fun_cases with
  | case1 => exact absurd rfl h
  | case2 a => simp [encodeUrlSafe]
  | case3 a b => simp [encodeUrlSafe]
  | case4 a b c rest => simp [encodeUrlSafe]

theorem tokenOf_spec (bytes : Vector UInt8 32) :
    tokenOf bytes ≠ [] ∧ trim (tokenOf bytes) = tokenOf bytes := by
  have hbytes : bytes.toList ≠ [] := by
    intro hnil
    have hlen := congrArg List.length hnil
    rw [Vector.length_toList] at hlen
    cases hlen
  exact ⟨encodeUrlSafe_ne_nil hbytes, trim_of_solid (encodeUrlSafe_solid bytes.toList)⟩

/-! ### What is left in the files -/

/-- The load comes to a write of the secret, and the write opens the file. -/
def AuthDir.writesSecret (self : AuthDir) (faults : AuthFaults) : Bool :=
  !faults.createDir && !(self.secret.isSome && !faults.statSecret) && !faults.random &&
    faults.writeSecret ≠ some .refused

/-- No write of the secret is cut off before the end of the text. -/
def AuthDir.WritesWhole (self : AuthDir) (generated : List Char) (faults : AuthFaults) : Prop :=
  self.writesSecret faults = true → ∀ written, faults.writeSecret = some (.cut written) →
    generated.length ≤ written

namespace AuthState

/-- The secret after the part of the load that writes it. -/
theorem secret_initializeSecret {dir : AuthDir} {generated : List Char} {faults : AuthFaults}
    (hcreate : ¬ faults.createDir = true) (h : dir.WritesWhole generated faults) :
    (dir.initializeSecret generated faults).2.secret =
        (if dir.writesSecret faults = true then some generated else dir.secret) ∧
      ((dir.initializeSecret generated faults).1 = .ok () →
        (dir.initializeSecret generated faults).2.secret.isSome = true) := by
  unfold AuthDir.WritesWhole AuthDir.writesSecret at h
  unfold AuthDir.initializeSecret AuthDir.writesSecret
  by_cases hthere : (dir.secret.isSome && !faults.statSecret) = true
  · rw [if_pos hthere]
    simp only [hthere, Bool.not_true, Bool.and_false, Bool.false_and, Bool.false_eq_true, if_false]
    exact ⟨trivial, fun _ => (Bool.and_eq_true_iff.mp hthere).1⟩
  · rw [if_neg hthere]
    by_cases hrandom : faults.random = true
    · rw [if_pos hrandom]
      simp [hrandom]
    · rw [if_neg hrandom]
      simp only [hcreate, hthere, hrandom, Bool.not_false, Bool.true_and] at h ⊢
      rcases hwrite : faults.writeSecret with _ | _ | written
      · simp [writeFile]
      · simp [writeFile]
      · have hwhole : generated.length ≤ written := h (by simp [hwrite]) written hwrite
        simp [writeFile, List.take_of_length_le hwhole]

/-- **The secret after a load.**  It is the old text, or the generated one where it was written; and a
load that succeeds leaves a file. -/
theorem secret_loadOrInitialize {dir : AuthDir} {generated : List Char} {faults : AuthFaults}
    (h : dir.WritesWhole generated faults) :
    (loadOrInitialize dir generated faults).2.secret =
        (if dir.writesSecret faults = true then some generated else dir.secret) ∧
      ∀ auth, (loadOrInitialize dir generated faults).1 = .ok auth →
        (loadOrInitialize dir generated faults).2.secret.isSome = true := by
  unfold loadOrInitialize
  by_cases hcreate : faults.createDir = true
  · rw [if_pos hcreate]
    have hnot : dir.writesSecret faults = false := by simp [AuthDir.writesSecret, hcreate]
    rw [hnot]
    exact ⟨rfl, fun auth hauth => by cases hauth⟩
  · rw [if_neg hcreate]
    obtain ⟨hfile, hok⟩ := secret_initializeSecret hcreate h
    cases hinit : dir.initializeSecret generated faults with
    | mk answer after =>
      rw [hinit] at hfile hok
      cases answer with
      | error error => exact ⟨hfile, fun auth hauth => by cases hauth⟩
      | ok _ =>
        dsimp only
        generalize (if faults.readHash = true then none else dir.hash.map trim) = passwordHash
        split
        · exact ⟨hfile, fun auth hauth => by cases hauth⟩
        · split
          · exact ⟨hfile, fun auth hauth => by cases hauth⟩
          · exact ⟨hfile, fun _ _ => hok rfl⟩

end AuthState

/-- The text is what a write of the password's hash left, read back. -/
def Argon2.HashOf {H : Type} (argon2 : Argon2 H) (password text : List Char) : Prop :=
  ∃ salt hash written, argon2.hash password salt = some hash ∧ text = trim (hash.take written)

/-- The password that the hash in memory was made from. -/
def AuthState.MadeFrom {H : Type} (argon2 : Argon2 H) (self : AuthState) (password : List Char) :
    Prop :=
  12 ≤ password.length ∧ ∃ text, self.passwordHash = some text ∧ argon2.HashOf password text

/-- What is relied on of Argon2: a hash, and what a cut-off write leaves of one, accepts no other
password, and the text of a hash has no blank at either end. -/
structure Argon2.Sound {H : Type} (argon2 : Argon2 H) : Prop where
  accepts_only : ∀ {password text parsed candidate}, argon2.HashOf password text →
    argon2.parse text = some parsed → argon2.verify candidate parsed = true → candidate = password
  trimmed : ∀ {password salt text}, argon2.hash password salt = some text → trim text = text

section

variable {H : Type} {argon2 : Argon2 H}

/-- **The files after `set_password`.**  The secret stays; the hash file is as it was, or holds what was
written of the new hash. -/
theorem AuthState.setPassword_files (hsound : argon2.Sound) (self : AuthState) (dir : AuthDir)
    (password : List Char) (salt : List UInt8) (faults : AuthFaults) :
    ∃ answer after file, self.setPassword argon2 dir password salt faults =
        (answer, after, { dir with hash := file }) ∧
      (file = dir.hash ∨ ∃ text, file = some text ∧ argon2.HashOf password (trim text)) ∧
      (after = self ∨ ∃ text, after = ⟨some text⟩ ∧ argon2.HashOf password text) := by
  unfold setPassword
  split
  · exact ⟨_, _, _, rfl, Or.inl rfl, Or.inl rfl⟩
  · cases argon2.encodeSalt salt with
    | none => exact ⟨_, _, _, rfl, Or.inl rfl, Or.inl rfl⟩
    | some salt' =>
      dsimp only
      cases hhash : argon2.hash password salt' with
      | none => exact ⟨_, _, _, rfl, Or.inl rfl, Or.inl rfl⟩
      | some hash =>
        dsimp only
        have htrim := hsound.trimmed hhash
        have hcut : ∀ written, argon2.HashOf password (trim (hash.take written)) :=
          fun written => ⟨salt', hash, written, hhash, rfl⟩
        have hwhole : argon2.HashOf password hash := by
          have := hcut hash.length
          rwa [List.take_length, htrim] at this
        rcases faults.writeHash with _ | fault
        · dsimp only [writeFile]
          split
          · exact ⟨_, _, _, rfl, Or.inr ⟨hash, rfl, htrim.symm ▸ hwhole⟩, Or.inl rfl⟩
          · exact ⟨_, _, _, rfl, Or.inr ⟨hash, rfl, htrim.symm ▸ hwhole⟩, Or.inr ⟨hash, rfl, hwhole⟩⟩
        · cases fault with
          | refused => exact ⟨_, _, _, rfl, Or.inl rfl, Or.inl rfl⟩
          | cut written => exact ⟨_, _, _, rfl, Or.inr ⟨_, rfl, hcut written⟩, Or.inl rfl⟩

/-! ### Runs -/

/-- The daemon and its files, and the text that the secret was last written with. -/
structure TokenSystem where
  auth : AuthSystem
  issued : Option (List Char)

namespace TokenSystem

/-- A load that comes to write the secret issues the text it generated. -/
def issuedAfter (s : TokenSystem) : AuthEvent → Option (List Char)
  | .load generated faults =>
    if s.auth.dir.writesSecret faults = true then some generated else s.issued
  | _ => s.issued

variable (argon2) in
def step (s : TokenSystem) (e : AuthEvent) : Option TokenSystem :=
  (s.auth.step argon2 e).map fun auth => ⟨auth, s.issuedAfter e⟩

/-- What the callers of the two operations see to: a token is the encoding of thirty-two octets, and a
password has twelve characters. -/
def Called : AuthEvent → Prop
  | .load generated _ => ∃ bytes, generated = tokenOf bytes
  | .setPassword password _ _ => 12 ≤ password.length
  | _ => True

/-- No write of the secret is cut off. -/
def WritesWhole (s : TokenSystem) : AuthEvent → Prop
  | .load generated faults => s.auth.dir.WritesWhole generated faults
  | _ => True

/-- What a load that returned `Ok` guarantees: the secret is the token that was generated, which is not
empty, and nothing is accepted but that token and the password. -/
def TokenGuards {H : Type} (argon2 : Argon2 H) (s : TokenSystem) : Prop :=
  ∀ auth ∈ s.auth.process, ∃ token, s.issued = some token ∧ token ≠ [] ∧
    s.auth.dir.secret = some token ∧
    (∀ credential, verifyToken s.auth.dir.secret credential = true ↔ credential = token) ∧
    (∀ credential, auth.verifyCredential argon2 s.auth.dir.secret credential = true →
      credential = token ∨ auth.MadeFrom argon2 credential) ∧
    verifyToken s.auth.dir.secret [] = false ∧
    auth.verifyCredential argon2 s.auth.dir.secret [] = false

/-- Every text of a hash was made from a password of twelve characters. -/
def Hashed {H : Type} (argon2 : Argon2 H) (text : List Char) : Prop :=
  ∃ password, 12 ≤ password.length ∧ argon2.HashOf password text

/-- The secret is the issued token, a process has one, and hashes are hashes of passwords. -/
structure Issued {H : Type} (argon2 : Argon2 H) (s : TokenSystem) : Prop where
  secret : s.auth.dir.secret = s.issued
  token : ∀ token, s.issued = some token → ∃ bytes, token = tokenOf bytes
  process : s.auth.process.isSome = true → s.issued.isSome = true
  file : ∀ text, s.auth.dir.hash = some text → Hashed argon2 (trim text)
  memory : ∀ auth text, s.auth.process = some auth → auth.passwordHash = some text →
    Hashed argon2 text

/-- A start of the daemon. -/
theorem Issued.load {s : TokenSystem} {generated : List Char} {faults : AuthFaults} {after : AuthSystem}
    (h : Issued argon2 s) (hcalled : Called (.load generated faults))
    (hwhole : s.WritesWhole (.load generated faults))
    (hafter : s.auth.step argon2 (.load generated faults) = some after) :
    Issued argon2 ⟨after, s.issuedAfter (.load generated faults)⟩ := by
  obtain ⟨hsecret, hok⟩ := AuthState.secret_loadOrInitialize hwhole
  have htoken : ∀ token, s.issuedAfter (.load generated faults) = some token →
      ∃ bytes, token = tokenOf bytes := by
    intro token htoken
    by_cases hwrites : s.auth.dir.writesSecret faults = true
    · rw [issuedAfter, if_pos hwrites] at htoken
      cases htoken
      exact hcalled
    · rw [issuedAfter, if_neg hwrites] at htoken
      exact h.token token htoken
  obtain ⟨hdir, hhash, -, hprocess⟩ := AuthSystem.step_load hafter
  have hissued : after.dir.secret = s.issuedAfter (.load generated faults) := by
    rw [hdir, hsecret, h.secret]
    rfl
  refine ⟨hissued, htoken, ?_, ?_, ?_⟩
  · intro hstarted
    obtain ⟨auth, hauth⟩ := Option.isSome_iff_exists.mp hstarted
    have hthere := hok auth (hprocess auth hauth).1
    rwa [← hdir, hissued] at hthere
  · intro text htext
    exact h.file text (hhash ▸ htext)
  · intro auth text hauth htext
    -- the hash in memory was read from the file
    rw [(hprocess auth hauth).2] at htext
    by_cases hfailed : faults.readHash = true
    · rw [if_pos hfailed] at htext
      cases htext
    · rw [if_neg hfailed] at htext
      obtain ⟨stored, hstored, rfl⟩ := Option.map_eq_some_iff.mp htext
      exact h.file stored hstored

/-- A password that is set, or fails to be. -/
theorem Issued.setPassword (hsound : argon2.Sound) {s : TokenSystem} {password : List Char}
    {salt : List UInt8} {faults : AuthFaults} {after : AuthSystem} (h : Issued argon2 s)
    (hcalled : Called (.setPassword password salt faults))
    (hafter : s.auth.step argon2 (.setPassword password salt faults) = some after) :
    Issued argon2 ⟨after, s.issuedAfter (.setPassword password salt faults)⟩ := by
  obtain ⟨auth, answer, auth', dir, hprocess, hrun, hauth', hdir, -⟩ :=
    AuthSystem.step_setPassword hafter
  obtain ⟨_, _, file, hrun', hfile, hmemory⟩ :=
    auth.setPassword_files hsound s.auth.dir password salt faults
  cases hrun'.symm.trans hrun
  refine ⟨?_, h.token, fun _ => h.process (by rw [hprocess]; rfl), ?_, ?_⟩
  · rw [hdir]
    exact h.secret
  · intro text htext
    rw [hdir] at htext
    rcases hfile with hsame | ⟨written, hwritten, hhash⟩
    · exact h.file text (hsame ▸ htext)
    · cases hwritten.symm.trans htext
      exact ⟨password, hcalled, hhash⟩
  · intro auth'' text hauth htext
    cases hauth'.symm.trans hauth
    rcases hmemory with rfl | ⟨hash, rfl, hhash⟩
    · exact h.memory _ text hprocess htext
    · cases htext
      exact ⟨password, hcalled, hhash⟩

/-- **The step lemma.** -/
theorem Issued.step (hsound : argon2.Sound) {s s' : TokenSystem} {e : AuthEvent}
    (h : Issued argon2 s) (hcalled : Called e) (hwhole : s.WritesWhole e)
    (hstep : s.step argon2 e = some s') : Issued argon2 s' := by
  obtain ⟨after, hafter, rfl⟩ := Option.map_eq_some_iff.mp hstep
  cases e with
  | load generated faults => exact h.load hcalled hwhole hafter
  | setPassword password salt faults => exact h.setPassword hsound hcalled hafter
  | stop =>
    cases hafter
    exact ⟨h.secret, h.token, fun hnone => (by cases hnone), h.file, fun _ _ hnone => (by cases hnone)⟩
  | removeHash =>
    cases hafter
    exact ⟨h.secret, h.token, h.process, fun _ hnone => (by cases hnone), h.memory⟩

/-- What the invariant says of a process. -/
theorem Issued.tokenGuards (hsound : argon2.Sound) {s : TokenSystem} (h : Issued argon2 s) :
    TokenGuards argon2 s := by
  intro auth hauth
  obtain ⟨token, hissued⟩ := Option.isSome_iff_exists.mp (h.process (by rw [hauth]; rfl))
  obtain ⟨bytes, rfl⟩ := h.token token hissued
  obtain ⟨hne, htrim⟩ := tokenOf_spec bytes
  have hsecret : s.auth.dir.secret = some (tokenOf bytes) := h.secret.trans hissued
  have htoken : ∀ credential, verifyToken s.auth.dir.secret credential = true ↔
      credential = tokenOf bytes := by
    intro credential
    rw [hsecret, verifyToken, htrim, decide_eq_true_eq]
    exact eq_comm
  have hpassword : ∀ credential, auth.verifyPassword argon2 credential = true →
      auth.MadeFrom argon2 credential := by
    intro credential hverify
    unfold AuthState.verifyPassword at hverify
    cases htext : auth.passwordHash with
    | none =>
      rw [htext] at hverify
      cases hverify
    | some text =>
      rw [htext] at hverify
      dsimp only at hverify
      obtain ⟨password, hlong, hhash⟩ := h.memory auth text hauth htext
      cases hparse : argon2.parse text with
      | none =>
        rw [hparse] at hverify
        cases hverify
      | some parsed =>
        rw [hparse] at hverify
        cases hsound.accepts_only hhash hparse hverify
        exact ⟨hlong, text, htext, hhash⟩
  have hcredential : ∀ credential,
      auth.verifyCredential argon2 s.auth.dir.secret credential = true →
        credential = tokenOf bytes ∨ auth.MadeFrom argon2 credential := by
    intro credential hverify
    rcases Bool.or_eq_true_iff.mp hverify with hverify | hverify
    · exact Or.inl ((htoken credential).mp hverify)
    · exact Or.inr (hpassword credential hverify)
  refine ⟨tokenOf bytes, hissued, hne, hsecret, htoken, hcredential, ?_, ?_⟩
  · rw [Bool.eq_false_iff]
    intro hempty
    exact hne ((htoken []).mp hempty).symm
  · rw [Bool.eq_false_iff]
    intro hempty
    rcases hcredential [] hempty with hnil | ⟨hlong, -⟩
    · exact hne hnil.symm
    · exact absurd hlong (by decide)

/-- The data directory before the first start. -/
def blank : TokenSystem := ⟨AuthSystem.blank, none⟩

/-- **Only the generated token and the password are accepted**, in every state that loads, password
changes and stops lead to, with any failure of any file operation, while no write of the secret is cut
off before its end. -/
theorem token_guards_of_reaches (hsound : argon2.Sound) {s : TokenSystem}
    (h : Reaches (step argon2) (fun s e => Called e ∧ s.WritesWhole e) blank s) :
    TokenGuards argon2 s := by
  have hblank : Issued argon2 blank :=
    ⟨rfl, fun _ h => (by cases h), fun h => (by cases h), fun _ h => (by cases h), fun _ _ h => (by cases h)⟩
  have hs : Issued argon2 s := h.invariant hblank fun _ _ _ hguard hissued hstep =>
    hissued.step hsound hguard.1 hguard.2 hstep
  exact hs.tokenGuards hsound

end TokenSystem

end

/-! ### A run with every write whole, and one with a write cut off -/

/-- Stands in for Argon2 where it has to run: the hash spells the password and is sealed at its end. -/
def sealedArgon2 : Argon2 (List Char) where
  parse := some
  verify password parsed := parsed = password.flatMap (fun c => hexDigits 6 c.toNat) ++ ['$']
  encodeSalt _ := some []
  hash password _ := some (password.flatMap (fun c => hexDigits 6 c.toNat) ++ ['$'])

theorem sealedArgon2_solid (password : List Char) :
    ∀ c ∈ password.flatMap (fun c => hexDigits 6 c.toNat) ++ ['$'], isWhitespace c = false := by
  rw [List.forall_mem_append]
  constructor
  · intro c hc
    obtain ⟨d, -, hdigits⟩ := List.mem_flatMap.mp hc
    exact hexDigits_solid hdigits
  · simp [isWhitespace]

theorem sealedArgon2_sound : sealedArgon2.Sound where
  trimmed := by
    intro password salt text h
    cases h
    exact trim_of_solid (sealedArgon2_solid password)
  accepts_only := by
    intro password text parsed candidate hmade hparse hverify
    obtain ⟨salt, hash, written, hhash, rfl⟩ := hmade
    cases hhash
    cases hparse
    have hdigits : '$' ∉ password.flatMap fun c => hexDigits 6 c.toNat := by
      intro hmem
      obtain ⟨d, -, hd⟩ := List.mem_flatMap.mp hmem
      exact forall_mem_hexDigits (fun c => c ≠ '$') (by decide) hd rfl
    have hsolid : ∀ c ∈ (password.flatMap (fun c => hexDigits 6 c.toNat) ++ ['$']).take written,
        isWhitespace c = false :=
      fun c hc => sealedArgon2_solid password c (List.mem_of_mem_take hc)
    have htext := of_decide_eq_true hverify
    rw [trim_of_solid hsolid] at htext
    rcases Nat.lt_or_ge (password.flatMap fun c => hexDigits 6 c.toNat).length written with
      hlong | hshort
    · rw [List.take_of_length_le (by rw [List.length_append]; exact hlong)] at htext
      exact (flatMap_hexDigits_inj (List.append_inj_left' htext rfl)).symm
    · -- what is cut off lost its seal
      rw [List.take_append_of_le_length hshort] at htext
      have hseal : '$' ∈ (password.flatMap fun c => hexDigits 6 c.toNat).take written := by
        rw [htext]
        exact List.mem_append_right _ List.mem_cons_self
      exact absurd (List.mem_of_mem_take hseal) hdigits

namespace TokenSystem

/-- A start whose token is the encoding of thirty-two zeros. -/
def firstStart (faults : AuthFaults) : AuthEvent := .load (tokenOf (.replicate 32 0)) faults

theorem token_guards_after_restart :
    ∃ s, Reaches (step sealedArgon2) (fun s e => Called e ∧ s.WritesWhole e) blank s ∧
      s.auth.process.isSome = true ∧ TokenGuards sealedArgon2 s := by
  have hrun : ∃ s, runAll (step sealedArgon2) blank
      [firstStart { AuthFaults.none with writeSecret := some .refused }, firstStart .none,
        AuthSystem.settingPassword, .stop, firstStart .none] = some s ∧
        s.auth.process.isSome = true := ⟨_, rfl, rfl⟩
  obtain ⟨s, hrun, hprocess⟩ := hrun
  have hreaches : Reaches (step sealedArgon2) (fun s e => Called e ∧ s.WritesWhole e) blank s := by
    refine Reaches.of_runAll .start ?_ hrun
    intro s e he
    simp only [List.mem_cons, List.not_mem_nil, or_false] at he
    rcases he with rfl | rfl | rfl | rfl | rfl
    · exact ⟨⟨_, rfl⟩, fun _ _ hcut => by cases hcut⟩
    · exact ⟨⟨_, rfl⟩, fun _ _ hcut => by cases hcut⟩
    · exact ⟨show 12 ≤ "correct horse".toList.length by decide, trivial⟩
    · exact ⟨trivial, trivial⟩
    · exact ⟨⟨_, rfl⟩, fun _ _ hcut => by cases hcut⟩
  exact ⟨s, hreaches, hprocess, token_guards_of_reaches sealedArgon2_sound hreaches⟩

/-- **An interrupted first start opens the daemon.**  The write of the secret ends before its first
character; the next start finds the file and returns `Ok`, and the empty credential is accepted. -/
theorem empty_token_opens :
    ¬ ∀ s, Reaches (step sealedArgon2) (fun _ e => Called e) blank s → TokenGuards sealedArgon2 s := by
  intro hguards
  have hrun : ∃ s, runAll (step sealedArgon2) blank
      [firstStart { AuthFaults.none with writeSecret := some (.cut 0) }, firstStart .none] =
        some s ∧ s.auth.process = some ⟨none⟩ ∧ s.auth.dir.secret = some [] := ⟨_, rfl, rfl, rfl⟩
  obtain ⟨s, hrun, hprocess, hsecret⟩ := hrun
  have hreaches : Reaches (step sealedArgon2) (fun _ e => Called e) blank s := by
    refine Reaches.of_runAll .start ?_ hrun
    intro s e he
    simp only [List.mem_cons, List.not_mem_nil, or_false] at he
    rcases he with rfl | rfl
    · exact ⟨_, rfl⟩
    · exact ⟨_, rfl⟩
  obtain ⟨token, -, -, -, -, -, hempty, -⟩ := hguards s hreaches ⟨none⟩ hprocess
  rw [hsecret] at hempty
  cases hempty

end TokenSystem

end Portalis
