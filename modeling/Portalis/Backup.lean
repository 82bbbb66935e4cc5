import Portalis.ConfigJson
import Portalis.Database

/-!
# Backups in an S3 bucket

`upload_active` and `download_config` of `s3.rs` under the profile that `save_s3_settings` of `api.rs` has
stored: the key under the prefix of the profile, the envelope as compressed JSON, the checksum beside it.
The requests to S3, the compressor, the digest and how addresses are written are parameters.

* `envelope_of_bytes`: what is uploaded is read back.
* `contains_dotDot_backupKey`: when a key is one that a download refuses.
* `restored_iff`: exactly when a backup that was uploaded can be restored.
-/

namespace Portalis

open Json Text Instant

/-! ### Settings -/

structure S3Profile where
  provider : String
  endpoint : String
  region : String
  bucket : String
  prefixText : String
  pathStyle : Bool
  deriving DecidableEq

structure S3Secrets where
  accessKeyId : String
  secretAccessKey : String
  deriving DecidableEq

/-- `s3-profile.json` and `s3-secrets.json` of the data directory. -/
structure S3Files where
  profile : Option S3Profile
  secrets : Option S3Secrets
  deriving DecidableEq

namespace S3Files

/-- `load_profile`: both files, or nothing. -/
def loadProfile (dir : S3Files) : Option (S3Profile × S3Secrets) :=
  dir.profile.bind fun profile => dir.secrets.map fun secrets => (profile, secrets)

/-- `save_profile`: secrets that are not given stay as they are. -/
def saveProfile (dir : S3Files) (profile : S3Profile) (secrets : Option S3Secrets) : S3Files :=
  ⟨some profile, secrets.or dir.secrets⟩

end S3Files

def isBlank (text : String) : Bool := (trim text.toList).isEmpty

/-- `save_s3_settings`: the refusal, or the files afterwards. -/
def saveS3Settings (dir : S3Files) (profile : S3Profile) (secrets : Option S3Secrets) :
    Except String S3Files :=
  if (profile.provider ≠ "aws" && isBlank profile.endpoint) || isBlank profile.bucket then
    .error "S3 bucket is required; a custom endpoint is also required for MinIO, R2, or custom storage"
  else if
    (secrets.all fun secrets => isBlank secrets.accessKeyId || isBlank secrets.secretAccessKey) &&
      dir.loadProfile.isNone
  then .error "access key and secret key are required for the first S3 configuration"
  else .ok (dir.saveProfile profile secrets)

/-! ### Keys -/

/-- `str::trim_matches`. -/
def trimMatches (c : Char) (text : List Char) : List Char :=
  ((text.dropWhile (· = c)).reverse.dropWhile (· = c)).reverse

namespace S3Profile

def trimmedPrefix (profile : S3Profile) : List Char := trimMatches '/' profile.prefixText.toList

/-- Where the backups are. -/
def allowedPrefix (profile : S3Profile) : List Char :=
  if profile.trimmedPrefix = [] then "revisions/".toList
  else profile.trimmedPrefix ++ "/revisions/".toList

def backupKey (profile : S3Profile) (revisionId : String) : String :=
  String.ofList (profile.allowedPrefix ++ (revisionId.toList ++ ".json.zst".toList))

end S3Profile

/-- `key.contains("..")`. -/
def containsDotDot (text : List Char) : Bool := decide (['.', '.'] <:+: text)

/-! ### Envelopes -/

structure BackupEnvelope where
  schemaVersion : UInt32
  product : String
  createdAt : String
  revisionId : String
  config : Config
  nftPlan : List RulePlan
  deriving DecidableEq

/-- `zstd`, `Sha256` and the texts of addresses. -/
structure BackupCodecs where
  encodeAll : List UInt8 → List UInt8
  decodeAll : List UInt8 → Option (List UInt8)
  sha256 : List UInt8 → List UInt8
  ip : TextCodec IpAddr
  net : TextCodec IpNet

namespace BackupEnvelope

variable (codecs : BackupCodecs)

def fields : List String :=
  ["schema_version", "product", "created_at", "revision_id", "config", "nft_plan"]

def members (self : BackupEnvelope) : List (String × Json) :=
  [("schema_version", u32ToJson self.schemaVersion), ("product", .string self.product),
    ("created_at", .string self.createdAt), ("revision_id", .string self.revisionId),
    ("config", self.config.toJson codecs.ip codecs.net),
    ("nft_plan", .array (self.nftPlan.map (RulePlan.toJson codecs.ip codecs.net)))]

def toJson (self : BackupEnvelope) : Json := .object (self.members codecs)

def ofMembers (members : List (String × Json)) : Option BackupEnvelope := do
  let schemaVersion ← required members "schema_version" u32OfJson
  let product ← required members "product" asString
  let createdAt ← required members "created_at" asString
  let revisionId ← required members "revision_id" asString
  let config ← required members "config" (Config.ofJson codecs.ip codecs.net)
  let nftPlan ← required members "nft_plan" (asArray (RulePlan.ofJson codecs.ip codecs.net))
  return ⟨schemaVersion, product, createdAt, revisionId, config, nftPlan⟩

def ofJson (v : Json) : Option BackupEnvelope := (entries fields v).bind (ofMembers codecs)

theorem ofJson_toJson (self : BackupEnvelope) : ofJson codecs (self.toJson codecs) = some self := by
  have hnodup : ((self.members codecs).map (·.1)).Nodup := (by decide : fields.Nodup)
  show ofMembers codecs (self.members codecs) = some self
  rw [ofMembers, required_bind hnodup 0 rfl (u32OfJson_toJson self.schemaVersion),
    required_bind hnodup 1 rfl (asString_string self.product),
    required_bind hnodup 2 rfl (asString_string self.createdAt),
    required_bind hnodup 3 rfl (asString_string self.revisionId),
    required_bind hnodup 4 rfl (self.config.ofJson_toJson codecs.ip codecs.net),
    required_bind hnodup 5 rfl (asArray_map (RulePlan.ofJson_toJson codecs.ip codecs.net) self.nftPlan)]
  rfl

/-- `serde_json::to_vec`. -/
def toBytes (self : BackupEnvelope) : List UInt8 := utf8 (String.ofList (render (self.toJson codecs)))

/-- `serde_json::from_slice`. -/
def ofBytes (bytes : List UInt8) : Option BackupEnvelope :=
  (ofUtf8? bytes).bind fun text => (parse text.toList).bind (ofJson codecs)

/-- **What is uploaded is read back.** -/
theorem envelope_of_bytes (self : BackupEnvelope) : ofBytes codecs (self.toBytes codecs) = some self := by
  rw [ofBytes, toBytes, ofUtf8?_utf8, Option.bind_some, String.toList_ofList, parse_render,
    Option.bind_some, ofJson_toJson]

end BackupEnvelope

/-! ### Upload and download -/

structure BackupArtifact where
  revisionId : String
  key : String
  sha256 : String
  sizeBytes : ℕ
  deriving DecidableEq

/-- An object of the bucket: its bytes, and the metadata entry `sha256`. -/
structure StoredObject where
  body : List UInt8
  sha256 : Option String
  deriving DecidableEq

/-- What fails. -/
inductive BackupError
  | notConfigured
  | upload
  | prune
  | outsidePrefix
  | download
  | checksum
  | decompress
  | json
  | format
  deriving DecidableEq

/-- The text of an error that is not a library's. -/
def BackupError.text : BackupError → Option String
  | notConfigured => some "S3 profile is not configured"
  | upload => some "upload Portalis backup"
  | outsidePrefix => some "backup key is outside the Portalis backup prefix"
  | download => some "download Portalis backup"
  | checksum => some "backup checksum mismatch"
  | format => some "unsupported Portalis backup format"
  | prune => none
  | decompress => none
  | json => none

section

variable (codecs : BackupCodecs)

/-- `hex::encode(Sha256::digest(..))`. -/
def checksumOf (bytes : List UInt8) : String :=
  String.ofList ((codecs.sha256 bytes).flatMap fun octet => hexDigits 2 octet.toNat)

def envelopeOf (now : DateTime) (revisionId : String) (config : Config) : BackupEnvelope where
  schemaVersion := schemaVersion
  product := "Portalis"
  createdAt := now.toRfc3339
  revisionId := revisionId
  config := config
  nftPlan := config.plan

/-- How the requests of an upload end: the put, and the pruning after it. -/
structure UploadOutcome where
  put : Bool
  prune : Bool

/-- `upload_active`: the artifact, and the object that was put under its key. -/
def uploadActive (dir : S3Files) (revisionId : String) (config : Config) (now : DateTime)
    (outcome : UploadOutcome) : Except BackupError (BackupArtifact × StoredObject) :=
  match dir.loadProfile with
  | none => .error .notConfigured
  | some (profile, _) =>
    let compressed := codecs.encodeAll ((envelopeOf now revisionId config).toBytes codecs)
    let checksum := checksumOf codecs compressed
    let key := profile.backupKey revisionId
    if outcome.put then
      if outcome.prune then
        .ok (⟨revisionId, key, checksum, compressed.length⟩, ⟨compressed, some checksum⟩)
      else .error .prune
    else .error .upload

/-- `download_config`; `getObject` is the store. -/
def downloadConfig (dir : S3Files) (getObject : String → Option StoredObject) (key : String) :
    Except BackupError Config :=
  match dir.loadProfile with
  | none => .error .notConfigured
  | some (profile, _) =>
    if ¬ profile.allowedPrefix <+: key.toList ∨ containsDotDot key.toList = true then .error .outsidePrefix
    else
      match getObject key with
      | none => .error .download
      | some output =>
        if output.sha256.any fun value => value ≠ checksumOf codecs output.body then .error .checksum
        else
          match codecs.decodeAll output.body with
          | none => .error .decompress
          | some text =>
            match BackupEnvelope.ofBytes codecs text with
            | none => .error .json
            | some envelope =>
              if envelope.schemaVersion ≠ schemaVersion ∨ envelope.product ≠ "Portalis" then
                .error .format
              else .ok envelope.config

/-! ### What a download refuses -/

/-- Two dots in a row do not go across another character. -/
theorem dotDot_infix_append_cons {c : Char} (hc : c ≠ '.') (l m : List Char) :
    ['.', '.'] <:+: l ++ c :: m ↔ ['.', '.'] <:+: l ∨ ['.', '.'] <:+: m := by
  have hfront : ∀ rest, ¬ ['.'] <+: c :: rest := by
    intro rest hprefix
    exact hc (List.cons_prefix_cons.mp hprefix).1.symm
  induction l with
  | nil =>
    have hfirst : ¬ ['.', '.'] <+: c :: m := by
      intro hprefix
      exact hc (List.cons_prefix_cons.mp hprefix).1.symm
    rw [List.nil_append, List.infix_cons_iff, List.infix_nil]
    exact ⟨fun h => Or.inr (h.resolve_left hfirst), fun h => Or.inr (h.resolve_left (List.cons_ne_nil _ _))⟩
  | cons d l ih =>
    have hsame : ['.', '.'] <+: d :: (l ++ c :: m) ↔ ['.', '.'] <+: d :: l := by
      rw [List.cons_prefix_cons, List.cons_prefix_cons]
      refine and_congr_right fun _ => ?_
      cases l with
      | nil =>
        rw [List.nil_append, List.prefix_nil]
        exact ⟨fun h => absurd h (hfront m), fun h => absurd h (List.cons_ne_nil _ _)⟩
      | cons e l =>
        rw [List.cons_append, List.cons_prefix_cons, List.cons_prefix_cons]
        exact and_congr_right fun _ => ⟨fun _ => List.nil_prefix, fun _ => List.nil_prefix⟩
    rw [List.cons_append, List.infix_cons_iff, List.infix_cons_iff, hsame, or_assoc]
    exact or_congr_right ih

theorem containsDotDot_append_cons {c : Char} (hc : c ≠ '.') (l m : List Char) :
    containsDotDot (l ++ c :: m) = (containsDotDot l || containsDotDot m) := by
  rw [containsDotDot, containsDotDot, containsDotDot, ← Bool.decide_or]
  exact decide_eq_decide.mpr (dotDot_infix_append_cons hc l m)

/-- **The keys that a download refuses**: of a prefix with two dots in a row, or of an identifier with two
dots in a row or one at its end. -/
theorem contains_dotDot_backupKey (profile : S3Profile) (revisionId : String) :
    containsDotDot (profile.backupKey revisionId).toList =
      (containsDotDot profile.trimmedPrefix || containsDotDot (revisionId.toList ++ ['.'])) := by
  have hend : containsDotDot (revisionId.toList ++ ".json.zst".toList) =
      containsDotDot (revisionId.toList ++ ['.']) := by
    have hsplit : revisionId.toList ++ ".json.zst".toList =
        (revisionId.toList ++ ['.']) ++ 'j' :: "son.zst".toList := by
      rw [List.append_assoc]
      rfl
    rw [hsplit, containsDotDot_append_cons (by decide), show containsDotDot "son.zst".toList = false by decide,
      Bool.or_false]
  have hstart : ∀ rest, containsDotDot ("revisions/".toList ++ rest) = containsDotDot rest := by
    intro rest
    have hsplit : "revisions/".toList ++ rest = "revisions".toList ++ '/' :: rest := rfl
    rw [hsplit, containsDotDot_append_cons (by decide),
      show containsDotDot "revisions".toList = false by decide, Bool.false_or]
  rw [S3Profile.backupKey, S3Profile.allowedPrefix, String.toList_ofList]
  by_cases hnil : profile.trimmedPrefix = []
  · rw [if_pos hnil, hstart, hend, hnil]
    rfl
  · have hsplit : profile.trimmedPrefix ++ "/revisions/".toList ++
        (revisionId.toList ++ ".json.zst".toList) =
          profile.trimmedPrefix ++ '/' :: ("revisions/".toList ++
            (revisionId.toList ++ ".json.zst".toList)) := by
      rw [List.append_assoc]
      rfl
    rw [if_neg hnil, hsplit, containsDotDot_append_cons (by decide), hstart, hend]

/-! ### Restoring what was uploaded -/

theorem loadProfile_of_save {dir dir' : S3Files} {profile : S3Profile} {secrets : Option S3Secrets}
    (h : saveS3Settings dir profile secrets = .ok dir') : dir'.profile = some profile := by
  unfold saveS3Settings at h
  split at h
  · cases h
  · split at h
    · cases h
    · cases h
      rfl

/-- An upload that returns needs a profile, and puts the compressed envelope with its checksum. -/
theorem uploadActive_eq_ok {dir : S3Files} {revisionId : String} {config : Config} {now : DateTime}
    {outcome : UploadOutcome} {artifact : BackupArtifact} {stored : StoredObject}
    (h : uploadActive codecs dir revisionId config now outcome = .ok (artifact, stored)) :
    ∃ profile secrets, dir.loadProfile = some (profile, secrets) ∧
      artifact.key = profile.backupKey revisionId ∧
      stored.body = codecs.encodeAll ((envelopeOf now revisionId config).toBytes codecs) ∧
      stored.sha256 = some (checksumOf codecs stored.body) := by
  unfold uploadActive at h
  split at h
  · cases h
  · next profile secrets hload =>
    dsimp only at h
    split at h
    · split at h
      · cases h
        exact ⟨profile, secrets, hload, rfl, rfl, rfl⟩
      · cases h
    · cases h

/-- The download of an object that was uploaded depends on its key alone. -/
theorem downloadConfig_uploaded (hzstd : ∀ bytes, codecs.decodeAll (codecs.encodeAll bytes) = some bytes)
    {dir : S3Files} {revisionId : String} {config : Config} {now : DateTime} {outcome : UploadOutcome}
    {artifact : BackupArtifact} {stored : StoredObject}
    (hupload : uploadActive codecs dir revisionId config now outcome = .ok (artifact, stored))
    {getObject : String → Option StoredObject} (hget : getObject artifact.key = some stored) :
    downloadConfig codecs dir getObject artifact.key =
      if containsDotDot artifact.key.toList = true then .error .outsidePrefix else .ok config := by
  obtain ⟨profile, secrets, hload, hkey, hbody, hsum⟩ := uploadActive_eq_ok codecs hupload
  have hprefix : profile.allowedPrefix <+: artifact.key.toList := by
    rw [hkey, S3Profile.backupKey, String.toList_ofList]
    exact List.prefix_append _ _
  have hmatch : (stored.sha256.any fun value => value ≠ checksumOf codecs stored.body) = false := by
    rw [hsum, Option.any_some]
    exact decide_eq_false fun h => h rfl
  have henvelope : BackupEnvelope.ofBytes codecs ((envelopeOf now revisionId config).toBytes codecs) =
      some (envelopeOf now revisionId config) := BackupEnvelope.envelope_of_bytes codecs _
  have hformat : ¬ ((envelopeOf now revisionId config).schemaVersion ≠ schemaVersion ∨
      (envelopeOf now revisionId config).product ≠ "Portalis") := by
    intro h
    exact h.elim (fun hne => hne rfl) fun hne => hne rfl
  unfold downloadConfig
  rw [hload]
  dsimp only
  by_cases hdots : containsDotDot artifact.key.toList = true
  · rw [if_pos (Or.inr hdots), if_pos hdots]
  · rw [if_neg (fun h => h.elim (fun hnot => hnot hprefix) hdots), if_neg hdots, hget]
    dsimp only
    rw [hmatch, if_neg Bool.false_ne_true, hbody, hzstd]
    dsimp only
    rw [henvelope]
    dsimp only
    rw [if_neg hformat]
    rfl

/-- **Backups that can be restored.**  Under a profile that was accepted, a backup whose upload returned and
whose object the store returns as it was put is restored to the same configuration if and only if neither
the trimmed prefix nor the identifier with a dot after it has two dots in a row. -/
theorem restored_iff (hzstd : ∀ bytes, codecs.decodeAll (codecs.encodeAll bytes) = some bytes)
    {dir dir' : S3Files} {profile : S3Profile} {secrets : Option S3Secrets}
    (hsaved : saveS3Settings dir profile secrets = .ok dir') {revisionId : String} {config : Config}
    {now : DateTime} {outcome : UploadOutcome} {artifact : BackupArtifact} {stored : StoredObject}
    (hupload : uploadActive codecs dir' revisionId config now outcome = .ok (artifact, stored))
    {getObject : String → Option StoredObject} (hget : getObject artifact.key = some stored) :
    downloadConfig codecs dir' getObject artifact.key = .ok config ↔
      containsDotDot profile.trimmedPrefix = false ∧
        containsDotDot (revisionId.toList ++ ['.']) = false := by
  obtain ⟨profile', secrets', hload, hkey, -, -⟩ := uploadActive_eq_ok codecs hupload
  have hprofile : profile' = profile := by
    have hthere := loadProfile_of_save hsaved
    rw [S3Files.loadProfile, hthere, Option.bind_some] at hload
    obtain ⟨other, -, hother⟩ := Option.map_eq_some_iff.mp hload
    cases hother
    rfl
  subst hprofile
  rw [downloadConfig_uploaded codecs hzstd hupload hget, hkey, contains_dotDot_backupKey,
    ← Bool.or_eq_false_iff]
  cases containsDotDot profile'.trimmedPrefix || containsDotDot (revisionId.toList ++ ['.']) with
  | false => exact ⟨fun _ => rfl, fun _ => if_neg Bool.false_ne_true⟩
  | true => exact ⟨fun h => (by rw [if_pos rfl] at h; cases h), fun h => (by cases h)⟩

end

/-! ### Two profiles -/

section

open Octets

/-- The header of a frame of one block that is not compressed. -/
def frameHeader (size : ℕ) : List UInt8 :=
  [0x28, 0xB5, 0x2F, 0xFD, 0xA0] ++ (hostEndian 4 size ++ hostEndian 3 (size * 8 + 1))

/-- Frames that store their content, and a digest of the length alone. -/
def plainCodecs : BackupCodecs where
  encodeAll := fun bytes => frameHeader bytes.length ++ bytes
  decodeAll := fun bytes =>
    if bytes.take 12 = frameHeader (bytes.length - 12) then some (bytes.drop 12) else none
  sha256 := fun bytes => bigEndian 32 bytes.length
  ip := ipCodec
  net := netCodec

theorem plainCodecs_decodeAll (bytes : List UInt8) :
    plainCodecs.decodeAll (plainCodecs.encodeAll bytes) = some bytes := by
  have hlength : (frameHeader bytes.length).length = 12 := by
    simp [frameHeader, hostEndian]
  show (if (frameHeader bytes.length ++ bytes).take 12 =
    frameHeader ((frameHeader bytes.length ++ bytes).length - 12) then
      some ((frameHeader bytes.length ++ bytes).drop 12) else none) = some bytes
  rw [List.length_append, hlength, Nat.add_sub_cancel_left, List.take_left' hlength,
    List.drop_left' hlength, if_pos rfl]

end

def minioProfile (prefixText : String) : S3Profile :=
  ⟨"minio", "http://127.0.0.1:9000", "us-east-1", "portalis-test", prefixText, true⟩

def minioSecrets : S3Secrets := ⟨"minioadmin", "minioadmin"⟩

/-- The files after the first settings with this prefix. -/
def minioFiles (prefixText : String) : S3Files := ⟨some (minioProfile prefixText), some minioSecrets⟩

theorem saved_minio (prefixText : String) :
    saveS3Settings ⟨none, none⟩ (minioProfile prefixText) (some minioSecrets) =
      .ok (minioFiles prefixText) := by
  have hblank : isBlank "http://127.0.0.1:9000" = false ∧ isBlank "portalis-test" = false ∧
      isBlank "minioadmin" = false := by decide
  unfold saveS3Settings
  show (if (("minio" ≠ "aws" && isBlank "http://127.0.0.1:9000") || isBlank "portalis-test") = true then _
    else if ((isBlank "minioadmin" || isBlank "minioadmin") && true) = true then _ else _) = _
  rw [hblank.1, hblank.2.1, hblank.2.2]
  rfl

/-- A backup of one rule, under the prefix of the test. -/
theorem restored_of_integration :
    ∃ artifact stored, uploadActive plainCodecs (minioFiles "/integration/") "integration-revision"
        ⟨1, [mixedRule]⟩ (Database.noonAnd 0) ⟨true, true⟩ = .ok (artifact, stored) ∧
      downloadConfig plainCodecs (minioFiles "/integration/") (fun _ => some stored) artifact.key =
        .ok ⟨1, [mixedRule]⟩ := by
  have hupload : ∃ artifact stored, uploadActive plainCodecs (minioFiles "/integration/")
      "integration-revision" ⟨1, [mixedRule]⟩ (Database.noonAnd 0) ⟨true, true⟩ = .ok (artifact, stored) :=
    ⟨_, _, rfl⟩
  obtain ⟨artifact, stored, hupload⟩ := hupload
  refine ⟨artifact, stored, hupload, ?_⟩
  exact (restored_iff plainCodecs plainCodecs_decodeAll (saved_minio "/integration/") hupload rfl).mpr
    (by decide)

/-- **A prefix with two dots.**  It is accepted, the upload returns, and no download takes its key. -/
theorem dotted_prefix_not_restored :
    ¬ ∀ (codecs : BackupCodecs) (dir dir' : S3Files) (profile : S3Profile) (secrets : Option S3Secrets)
      (revisionId : String) (config : Config) (now : DateTime) (outcome : UploadOutcome)
      (artifact : BackupArtifact) (stored : StoredObject)
      (getObject : String → Option StoredObject),
      (∀ bytes, codecs.decodeAll (codecs.encodeAll bytes) = some bytes) →
      saveS3Settings dir profile secrets = .ok dir' →
      uploadActive codecs dir' revisionId config now outcome = .ok (artifact, stored) →
      getObject artifact.key = some stored →
      downloadConfig codecs dir' getObject artifact.key = .ok config := by
  intro hrestored
  have hupload : ∃ artifact stored, uploadActive plainCodecs (minioFiles "site..backup")
      "integration-revision" ⟨1, []⟩ (Database.noonAnd 0) ⟨true, true⟩ = .ok (artifact, stored) ∧
        artifact.key = (minioProfile "site..backup").backupKey "integration-revision" :=
    ⟨_, _, rfl, rfl⟩
  obtain ⟨artifact, stored, hupload, hkey⟩ := hupload
  have hdots : containsDotDot artifact.key.toList = true := by
    rw [hkey, contains_dotDot_backupKey]
    decide
  have hread := hrestored plainCodecs _ _ _ _ _ _ _ _ _ _ (fun _ => some stored) plainCodecs_decodeAll
    (saved_minio "site..backup") hupload rfl
  rw [@downloadConfig_uploaded plainCodecs plainCodecs_decodeAll _ _ _ _ _ _ _ hupload
    (fun _ => some stored) rfl, if_pos hdots] at hread
  cases hread

end Portalis
