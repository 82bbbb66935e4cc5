import Portalis.Backup

/-!
# Requests to change the S3 settings

Any sequence of `PUT /api/v1/settings/s3` on an empty data directory.  A request without secrets keeps those
that are there, and one with blank secrets is refused as long as nothing is configured, but not afterwards.

* `put_eq`: when a request is accepted, and what it saves.
* `usable_settingsAfter`: while no request blanks the secrets, those that are loaded can be used.
* `keepsUsable_iff`: exactly when a sequence of requests keeps usable secrets.
-/

namespace Portalis

def S3Secrets.usable (self : S3Secrets) : Bool :=
  !isBlank self.accessKeyId && !isBlank self.secretAccessKey

structure SettingsRequest where
  profile : S3Profile
  secrets : Option S3Secrets

/-- The bucket, and where the provider needs it the endpoint, are given. -/
def SettingsRequest.complete (self : SettingsRequest) : Bool :=
  !((self.profile.provider ≠ "aws" && isBlank self.profile.endpoint) || isBlank self.profile.bucket)

/-- The request has secrets that are not blank. -/
def SettingsRequest.hasSecrets (self : SettingsRequest) : Bool := self.secrets.any S3Secrets.usable

namespace S3Files

/-- The files after a request. -/
def put (dir : S3Files) (request : SettingsRequest) : S3Files :=
  match saveS3Settings dir request.profile request.secrets with
  | .ok after => after
  | .error _ => dir

/-- The request is accepted. -/
def accepts (dir : S3Files) (request : SettingsRequest) : Bool :=
  request.complete && (request.hasSecrets || dir.loadProfile.isSome)

theorem put_eq (dir : S3Files) (request : SettingsRequest) :
    dir.put request =
      if dir.accepts request = true then dir.saveProfile request.profile request.secrets else dir := by
  have hsecrets : (request.secrets.all fun secrets =>
      isBlank secrets.accessKeyId || isBlank secrets.secretAccessKey) = !request.hasSecrets := by
    unfold SettingsRequest.hasSecrets S3Secrets.usable
    cases request.secrets with
    | none => rfl
    | some secrets =>
      rw [Option.all_some, Option.any_some, Bool.not_and, Bool.not_not, Bool.not_not]
  unfold put saveS3Settings accepts SettingsRequest.complete
  rw [hsecrets]
  generalize ((request.profile.provider ≠ "aws" && isBlank request.profile.endpoint) ||
    isBlank request.profile.bucket) = incomplete
  cases incomplete with
  | true => rfl
  | false =>
    cases request.hasSecrets with
    | true => rfl
    | false =>
      rw [Bool.false_or, Bool.not_false, Bool.true_and]
      cases dir.loadProfile with
      | none => rfl
      | some loaded => rfl

theorem loadProfile_saveProfile (dir : S3Files) (profile : S3Profile) (secrets : Option S3Secrets) :
    (dir.saveProfile profile secrets).loadProfile =
      (secrets.or dir.secrets).map fun secrets => (profile, secrets) := rfl

/-- Whatever is loaded has secrets that can be used. -/
def Usable (dir : S3Files) : Prop :=
  ∀ profile secrets, dir.loadProfile = some (profile, secrets) → secrets.usable = true

/-- A request that is accepted, and has blank secrets, for files that are there. -/
def Blanks (dir : S3Files) (request : SettingsRequest) : Prop :=
  request.complete = true ∧ dir.loadProfile.isSome = true ∧
    ∃ secrets, request.secrets = some secrets ∧ secrets.usable = false

variable {dir : S3Files} {request : SettingsRequest}

/-- The secrets beside a profile that is loaded. -/
theorem secrets_of_loadProfile {profile : S3Profile} {secrets : S3Secrets}
    (h : dir.loadProfile = some (profile, secrets)) : dir.secrets = some secrets := by
  obtain ⟨_, -, hmap⟩ := Option.bind_eq_some_iff.mp h
  obtain ⟨_, hsecrets, hpair⟩ := Option.map_eq_some_iff.mp hmap
  rw [hsecrets, (Prod.mk.inj hpair).2]

/-- What is configured stays configured. -/
theorem isSome_loadProfile_put (h : dir.loadProfile.isSome = true) :
    (dir.put request).loadProfile.isSome = true := by
  rw [put_eq]
  split
  · obtain ⟨⟨profile, secrets⟩, hload⟩ := Option.isSome_iff_exists.mp h
    rw [loadProfile_saveProfile, secrets_of_loadProfile hload, Option.isSome_map, Option.isSome_or]
    exact Bool.or_true _
  · exact h

/-- **A request keeps usable secrets** unless it blanks them. -/
theorem Usable.put (h : dir.Usable) (hblanks : ¬ dir.Blanks request) : (dir.put request).Usable := by
  intro profile secrets hload
  rw [put_eq] at hload
  split at hload
  · next haccepts =>
    obtain ⟨hcomplete, hallowed⟩ := Bool.and_eq_true_iff.mp haccepts
    rw [loadProfile_saveProfile] at hload
    obtain ⟨kept, hkept, hpair⟩ := Option.map_eq_some_iff.mp hload
    rw [← (Prod.mk.inj hpair).2]
    cases hgiven : request.secrets with
    | some given =>
      rw [hgiven, Option.some_or, Option.some.injEq] at hkept
      rw [← hkept]
      by_contra hblank
      rcases Bool.or_eq_true_iff.mp hallowed with husable | hthere
      · rw [SettingsRequest.hasSecrets, hgiven, Option.any_some] at husable
        exact hblank husable
      · exact hblanks ⟨hcomplete, hthere, given, hgiven, Bool.eq_false_iff.mpr hblank⟩
    | none =>
      rw [SettingsRequest.hasSecrets, hgiven, Option.any_none, Bool.false_or] at hallowed
      obtain ⟨⟨before, old⟩, hbefore⟩ := Option.isSome_iff_exists.mp hallowed
      rw [hgiven, Option.none_or, secrets_of_loadProfile hbefore, Option.some.injEq] at hkept
      rw [← hkept]
      exact h before old hbefore
  · exact h profile secrets hload

/-- A request that blanks the secrets leaves blank ones. -/
theorem Blanks.not_usable (h : dir.Blanks request) : ¬ (dir.put request).Usable := by
  intro husable
  obtain ⟨hcomplete, hthere, secrets, hgiven, hblank⟩ := h
  have haccepts : dir.accepts request = true := by
    rw [accepts, hcomplete, hthere, Bool.or_true, Bool.and_true]
  have hload : (dir.put request).loadProfile = some (request.profile, secrets) := by
    rw [put_eq, if_pos haccepts, loadProfile_saveProfile, hgiven]
    rfl
  rw [husable request.profile secrets hload] at hblank
  cases hblank

end S3Files

/-! ### Sequences of requests -/

/-- The files after some requests, on a directory without them. -/
def settingsAfter (requests : List SettingsRequest) : S3Files := requests.foldl S3Files.put ⟨none, none⟩

variable {requests : List SettingsRequest}

theorem settingsAfter_take_succ {n : ℕ} {request : SettingsRequest} (h : requests[n]? = some request) :
    settingsAfter (requests.take (n + 1)) = (settingsAfter (requests.take n)).put request := by
  rw [settingsAfter, List.take_add_one, h, List.foldl_append]
  rfl

theorem settingsAfter_take_of_none {n : ℕ} (h : requests[n]? = none) :
    settingsAfter (requests.take (n + 1)) = settingsAfter (requests.take n) := by
  rw [List.take_add_one, h, Option.toList_none, List.append_nil]

theorem isSome_settingsAfter {n m : ℕ} (hle : n ≤ m)
    (h : (settingsAfter (requests.take n)).loadProfile.isSome = true) :
    (settingsAfter (requests.take m)).loadProfile.isSome = true := by
  induction hle with
  | refl => exact h
  | @step m hle ih =>
    cases hnext : requests[m]? with
    | none =>
      rw [settingsAfter_take_of_none hnext]
      exact ih
    | some request =>
      rw [settingsAfter_take_succ hnext]
      exact S3Files.isSome_loadProfile_put ih

/-- Once a profile is loaded, one is always loaded, and its secrets can be used. -/
def KeepsUsable (requests : List SettingsRequest) : Prop :=
  ∀ n m, n ≤ m → (settingsAfter (requests.take n)).loadProfile.isSome = true →
    ∃ profile secrets, (settingsAfter (requests.take m)).loadProfile = some (profile, secrets) ∧
      secrets.usable = true

/-- **While no request blanks the secrets**, those that are loaded can be used. -/
theorem usable_settingsAfter
    (h : ∀ n request, requests[n]? = some request → ¬ (settingsAfter (requests.take n)).Blanks request)
    (n : ℕ) : (settingsAfter (requests.take n)).Usable := by
  induction n with
  | zero =>
    intro profile secrets hload
    cases hload
  | succ n ih =>
    cases hnext : requests[n]? with
    | none =>
      rw [settingsAfter_take_of_none hnext]
      exact ih
    | some request =>
      rw [settingsAfter_take_succ hnext]
      exact ih.put (h n request hnext)

/-- Secrets that were blanked are not kept. -/
theorem not_keepsUsable {n : ℕ} {request : SettingsRequest} (hnext : requests[n]? = some request)
    (hblanks : (settingsAfter (requests.take n)).Blanks request) : ¬ KeepsUsable requests := by
  intro h
  obtain ⟨profile, secrets, hload, husable⟩ := h n (n + 1) (Nat.le_succ n) hblanks.2.1
  rw [settingsAfter_take_succ hnext] at hload
  refine hblanks.not_usable fun profile' secrets' hload' => ?_
  rw [hload, Option.some.injEq, Prod.mk.injEq] at hload'
  rw [← hload'.2]
  exact husable

/-- **A sequence of requests keeps usable secrets if and only if** none of them is accepted with blank
secrets, which needs a profile that is there already. -/
theorem keepsUsable_iff (requests : List SettingsRequest) :
    KeepsUsable requests ↔ ∀ n request, requests[n]? = some request →
      ¬ (settingsAfter (requests.take n)).Blanks request := by
  constructor
  · intro h n request hnext hblanks
    exact not_keepsUsable hnext hblanks h
  · intro h n m hle hthere
    obtain ⟨⟨profile, secrets⟩, hload⟩ :=
      Option.isSome_iff_exists.mp (isSome_settingsAfter hle hthere)
    exact ⟨profile, secrets, hload, usable_settingsAfter h m profile secrets hload⟩

/-! ### Two requests -/

def blankSecrets : S3Secrets := ⟨"", " "⟩

/-- The first configuration, and after it the same profile with blank secrets. -/
def blankingRequests : List SettingsRequest :=
  [⟨minioProfile "", some minioSecrets⟩, ⟨minioProfile "", some blankSecrets⟩]

/-- **The second request is accepted**, and the secrets that could be used are gone. -/
theorem blank_secrets_accepted : ¬ ∀ requests : List SettingsRequest, KeepsUsable requests := by
  intro h
  have hblanks : (settingsAfter (blankingRequests.take 1)).Blanks ⟨minioProfile "", some blankSecrets⟩ :=
    ⟨by decide, by decide, blankSecrets, rfl, by decide⟩
  exact not_keepsUsable rfl hblanks (h blankingRequests)

end Portalis
