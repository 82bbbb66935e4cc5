import Portalis.Auth

/-!
# The gate

The router behind its middleware.  The handlers are whatever they are: each takes the request and
the state to an answer and a state.  Only the static assets are served by the router itself.

* `endpoint_path`: every handler is under `/api/`.
* `gate_admits`: when a handler runs the request was admitted, and otherwise the state stays.
-/

namespace Portalis

open Text Http

/-! ### The router -/

/-- The handlers of `router`. -/
inductive Endpoint
  | authStatus
  | setPassword
  | about
  | status
  | rules
  | getDraft
  | saveDraft
  | validate
  | apply
  | revisions
  | rollback
  | audit
  | s3Settings
  | saveS3Settings
  | backups
  | backup
  | restoreBackup
  deriving DecidableEq

def routes : Table Endpoint :=
  [(.exact "/api/v1/auth", [(.get, .authStatus)]),
    (.exact "/api/v1/auth/password", [(.post, .setPassword)]),
    (.exact "/api/v1/about", [(.get, .about)]),
    (.exact "/api/v1/status", [(.get, .status)]),
    (.exact "/api/v1/rules", [(.get, .rules)]),
    (.exact "/api/v1/draft", [(.get, .getDraft), (.put, .saveDraft)]),
    (.exact "/api/v1/draft/validate", [(.post, .validate)]),
    (.exact "/api/v1/apply", [(.post, .apply)]),
    (.exact "/api/v1/revisions", [(.get, .revisions)]),
    (.parameter "/api/v1/rollback/", [(.post, .rollback)]),
    (.exact "/api/v1/audit", [(.get, .audit)]),
    (.exact "/api/v1/settings/s3", [(.get, .s3Settings), (.put, .saveS3Settings)]),
    (.exact "/api/v1/backups", [(.get, .backups), (.post, .backup)]),
    (.exact "/api/v1/backups/restore", [(.post, .restoreBackup)])]

/-- **Every handler is under `/api/`.** -/
theorem endpoint_path {path : List Char} {method : Method} {e : Endpoint}
    (h : routes.lookup path method = .endpoint e) : "/api/".toList <+: path := by
  have hroutes : ∀ row ∈ routes, "/api/".toList.isPrefixOf row.1.text.toList = true := by decide
  obtain ⟨row, hrow, hprefix, -⟩ := Table.lookup_endpoint h
  exact (List.isPrefixOf_iff_prefix.mp (hroutes row hrow)).trans hprefix

/-- `static_asset`: the embedded file of the path, or the page of the web client. -/
def staticAsset (assets : List Char → Option (List UInt8)) (path : List Char) :
    Option (String × List UInt8) :=
  let path := path.dropWhile (· = '/')
  let path := if path = [] then "index.html".toList else path
  let contentType :=
    if ".js".toList.isSuffixOf path then "text/javascript"
    else if ".css".toList.isSuffixOf path then "text/css"
    else if ".svg".toList.isSuffixOf path then "image/svg+xml"
    else "text/html; charset=utf-8"
  ((assets path).or (assets "index.html".toList)).map fun data => (contentType, data)

inductive Reply (R : Type)
  | refused (error : ErrorResponse)
  | answered (answer : R)
  | methodNotAllowed
  | asset (contentType : String) (data : List UInt8)
  | notFound

/-- A reply, the handler that ran, and the state it left. -/
structure Served (R S : Type) where
  ran : Option Endpoint
  reply : Reply R
  state : S

/-! ### Requests through the gate -/

/-- The setup token, as its file has it. -/
def IsSetupToken (access : Access) (token : List Char) : Prop :=
  ∃ value, access.secret = some value ∧ trim value = token

/-- The stored hash accepts the password. -/
def IsPassword {H : Type} (argon2 : Argon2 H) (access : Access) (password : List Char) : Prop :=
  ∃ hash parsed, access.auth.passwordHash = some hash ∧ argon2.parse hash = some parsed ∧
    argon2.verify password parsed = true

/-- Why a request may reach a handler. -/
inductive Admitted {H : Type} (argon2 : Argon2 H) (decode : List Char → Option (List UInt8))
    (access : Access) (request : Request IpAddr) : Prop
  | unauthenticated (h : access.allowUnauthenticated = true)
  | controlSocket (h : request.remote = none)
  | loopback {address : IpAddr} {host : List Char} (hpassword : access.auth.passwordHash = none)
      (hremote : request.remote = some address) (hloopback : address.isLoopback = true)
      (hhost : request.text "host" = some host) (haccepts : isLoopbackHost host = true)
  | bearer {token : List Char} (h : request.text "authorization" = some ("Bearer ".toList ++ token))
      (htoken : IsSetupToken access token)
  | password {credential : List Char} (h : request.text "x-portalis-password" = some credential)
      (haccepts : IsSetupToken access credential ∨ IsPassword argon2 access credential)
  | basic {password : List Char} (h : basicPassword decode request = some password)
      (haccepts : IsPassword argon2 access password)

section

variable {H R S : Type} (argon2 : Argon2 H) (decode : List Char → Option (List UInt8))
  (assets : List Char → Option (List UInt8)) (access : S → Access)
  (run : Endpoint → Request IpAddr → S → R × S)

/-- The router under the middleware. -/
def serve (request : Request IpAddr) (s : S) : Served R S :=
  match authenticate argon2 decode (access s) request with
  | .error error => ⟨none, .refused error, s⟩
  | .ok () =>
    match routes.lookup request.path request.method with
    | .endpoint e =>
      let (answer, after) := run e request s
      ⟨some e, .answered answer, after⟩
    | .methodNotAllowed => ⟨none, .methodNotAllowed, s⟩
    | .fallback =>
      match staticAsset assets request.path with
      | some (contentType, data) => ⟨none, .asset contentType data, s⟩
      | none => ⟨none, .notFound, s⟩

variable {argon2 decode} {access' : Access} {request : Request IpAddr}

theorem isSetupToken_of_verifyToken {token : List Char}
    (h : verifyToken access'.secret token = true) : IsSetupToken access' token := by
  unfold verifyToken at h
  cases hsecret : access'.secret with
  | none =>
    rw [hsecret] at h
    cases h
  | some value =>
    rw [hsecret] at h
    exact ⟨value, hsecret, by simpa using h⟩

theorem isPassword_of_verifyPassword {password : List Char}
    (h : access'.auth.verifyPassword argon2 password = true) :
    IsPassword argon2 access' password := by
  unfold AuthState.verifyPassword at h
  cases hhash : access'.auth.passwordHash with
  | none =>
    rw [hhash] at h
    cases h
  | some hash =>
    rw [hhash] at h
    cases hparsed : argon2.parse hash with
    | none =>
      simp only [hparsed] at h
      cases h
    | some parsed =>
      simp only [hparsed] at h
      exact ⟨hash, parsed, hhash, hparsed, h⟩

theorem admitted_of_exempt (h : localAuthExempt request.remote (request.text "host")
    access'.auth.hasPassword = true) : Admitted argon2 decode access' request := by
  unfold localAuthExempt at h
  cases hremote : request.remote with
  | none => exact .controlSocket hremote
  | some address =>
    rw [hremote] at h
    simp only [Bool.and_eq_true, Bool.not_eq_true', AuthState.hasPassword, Option.isSome_eq_false_iff,
      Option.isNone_iff_eq_none, Option.any_eq_true] at h
    obtain ⟨⟨hpassword, hloopback⟩, host, hhost, haccepts⟩ := h
    exact .loopback hpassword hremote hloopback hhost haccepts

theorem admitted_of_authenticated (h : authenticated argon2 decode access' request = true) :
    Admitted argon2 decode access' request := by
  simp only [authenticated, Bool.or_eq_true, Option.any_eq_true, or_assoc] at h
  rcases h with ⟨token, hbearer, htoken⟩ | ⟨credential, htext, haccepts⟩ | ⟨password, hbasic, haccepts⟩
  · obtain ⟨value, htext, hvalue⟩ := Option.bind_eq_some_iff.mp hbearer
    rw [← List.isPrefixOf?_eq_some_iff_append_eq.mp hvalue] at htext
    exact .bearer htext (isSetupToken_of_verifyToken htoken)
  · rw [AuthState.verifyCredential, Bool.or_eq_true] at haccepts
    exact .password htext (haccepts.imp isSetupToken_of_verifyToken isPassword_of_verifyPassword)
  · exact .basic hbasic (isPassword_of_verifyPassword haccepts)

/-- **The gate.**  When a handler runs the request was admitted, and when none runs the state is as
before. -/
theorem gate_admits (request : Request IpAddr) (s : S) :
    (∀ e, (serve argon2 decode assets access run request s).ran = some e →
        Admitted argon2 decode (access s) request) ∧
      ((serve argon2 decode assets access run request s).ran = none →
        (serve argon2 decode assets access run request s).state = s) := by
  unfold serve
  cases hauth : authenticate argon2 decode (access s) request with
  | error error => exact ⟨nofun, fun _ => rfl⟩
  | ok _ =>
    dsimp only
    cases hroute : routes.lookup request.path request.method with
    | endpoint e =>
      refine ⟨fun _ _ => ?_, nofun⟩
      obtain ⟨-, hasset | hallow | hexempt | hcredential⟩ :=
        (authenticate_ok_iff argon2 decode).mp hauth
      · have hpath : "/api/".toList.isPrefixOf request.path = true :=
          List.isPrefixOf_iff_prefix.mpr (endpoint_path hroute)
        rw [isAsset, hpath] at hasset
        cases hasset
      · exact .unauthenticated hallow
      · exact admitted_of_exempt hexempt
      · exact admitted_of_authenticated hcredential
    | methodNotAllowed => exact ⟨nofun, fun _ => rfl⟩
    | fallback =>
      dsimp only
      cases staticAsset assets request.path with
      | none => exact ⟨nofun, fun _ => rfl⟩
      | some asset => exact ⟨nofun, fun _ => rfl⟩

end

end Portalis
