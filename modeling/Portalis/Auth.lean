import Portalis.Address
import Portalis.Http

/-!
# Authentication

`authenticate` of `api.rs` and the checks of `auth.rs` it makes.  A password is checked against the
stored Argon2 hash, a token against the setup token's file.

* `authenticate_ok_iff`: what the middleware lets through.
-/

namespace Portalis

open Text Http

/-! ### Credentials -/

/-- The Argon2 hasher: `PasswordHash::new`, `verify_password`, `SaltString::encode_b64` and
`hash_password`. -/
structure Argon2 (H : Type) where
  parse : List Char → Option H
  verify : List Char → H → Bool
  encodeSalt : List UInt8 → Option (List Char)
  hash : List Char → List Char → Option (List Char)

structure AuthState where
  passwordHash : Option (List Char)
  deriving DecidableEq

/-- `verify_token`, given what a read of the setup token's file yields. -/
def verifyToken (secret : Option (List Char)) (token : List Char) : Bool :=
  match secret with
  | none => false
  | some value => trim value = token

namespace AuthState

variable {H : Type} (argon2 : Argon2 H)

def hasPassword (self : AuthState) : Bool := self.passwordHash.isSome

def verifyPassword (self : AuthState) (password : List Char) : Bool :=
  match self.passwordHash with
  | none => false
  | some hash =>
    match argon2.parse hash with
    | none => false
    | some parsed => argon2.verify password parsed

def verifyCredential (self : AuthState) (secret : Option (List Char)) (credential : List Char) :
    Bool :=
  verifyToken secret credential || self.verifyPassword argon2 credential

end AuthState

/-! ### Exemptions -/

def isLoopbackHost (host : List Char) : Bool :=
  let host := trim host
  let host :=
    match host with
    | '[' :: value => ((splitOnce ']' value).map (·.1)).getD host
    | _ => if host.count ':' = 1 then ((splitOnce ':' host).map (·.1)).getD host else host
  eqIgnoreAsciiCase host "localhost".toList || host = "127.0.0.1".toList || host = "::1".toList

/-- A connection without an address is the control socket. -/
def localAuthExempt (remote : Option IpAddr) (host : Option (List Char)) (passwordEnabled : Bool) :
    Bool :=
  match remote with
  | none => true
  | some address => !passwordEnabled && address.isLoopback && host.any isLoopbackHost

/-! ### The middleware -/

/-- What `authenticate` reads of the runtime, and what a read of the setup token's file yields. -/
structure Access where
  allowUnauthenticated : Bool
  auth : AuthState
  secret : Option (List Char)
  deriving DecidableEq

structure ErrorResponse where
  status : ℕ
  error : String
  deriving DecidableEq

def isRead (method : Method) : Bool := method = .get || method = .head

/-- A mutation whose `Origin` is not the host it is sent to. -/
def crossOrigin (request : Request IpAddr) : Bool :=
  !isRead request.method &&
    match request.text "origin" with
    | none => false
    | some origin =>
      let host := (request.text "host").getD []
      origin ≠ "http://".toList ++ host && origin ≠ "https://".toList ++ host

/-- The text after `Bearer `. -/
def bearer (request : Request IpAddr) : Option (List Char) :=
  (request.text "authorization").bind "Bearer ".toList.isPrefixOf?

/-- The password of the `Basic` scheme, decoded by `base64`. -/
def basicPassword (decode : List Char → Option (List UInt8)) (request : Request IpAddr) :
    Option (List Char) :=
  (request.text "authorization").bind fun value =>
    ("Basic ".toList.isPrefixOf? value).bind fun encoded =>
      (decode encoded).bind fun octets =>
        (String.fromUTF8? ⟨octets.toArray⟩).bind fun decoded =>
          (splitOnce ':' decoded.toList).map (·.2)

section

variable {H : Type} (argon2 : Argon2 H) (decode : List Char → Option (List UInt8))

/-- Whether one of the credentials verifies. -/
def authenticated (access : Access) (request : Request IpAddr) : Bool :=
  (bearer request).any (verifyToken access.secret) ||
    (request.text "x-portalis-password").any (access.auth.verifyCredential argon2 access.secret) ||
      (basicPassword decode request).any (access.auth.verifyPassword argon2)

/-- A page of the web client. -/
def isAsset (request : Request IpAddr) : Bool :=
  !"/api/".toList.isPrefixOf request.path && isRead request.method

def authenticate (access : Access) (request : Request IpAddr) : Except ErrorResponse Unit :=
  if crossOrigin request then .error ⟨403, "cross-origin mutation rejected"⟩
  else if isAsset request then .ok ()
  else if access.allowUnauthenticated then .ok ()
  else if localAuthExempt request.remote (request.text "host") access.auth.hasPassword ||
      authenticated argon2 decode access request then .ok ()
  else .error ⟨401, "authentication required; use the setup token or configured password"⟩

/-- **What the middleware lets through.** -/
theorem authenticate_ok_iff {access : Access} {request : Request IpAddr} :
    authenticate argon2 decode access request = .ok () ↔
      crossOrigin request = false ∧
        (isAsset request = true ∨ access.allowUnauthenticated = true ∨
          localAuthExempt request.remote (request.text "host") access.auth.hasPassword = true ∨
            authenticated argon2 decode access request = true) := by
  unfold authenticate
  cases crossOrigin request
  · cases isAsset request
    · cases access.allowUnauthenticated
      · simp [or_iff_not_imp_left]
      · simp
    · simp
  · simp

end

end Portalis
