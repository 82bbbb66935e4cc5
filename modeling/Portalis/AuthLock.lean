import Portalis.AuthStore
import Portalis.Gate
import Portalis.Standstill

/-!
# Requests and the lock of the credentials

`authenticate` reads the credentials under a guard of the lock that keeps them, and calls the handler with
the guard still held.  Of the handlers, `auth_status` and `status` read under a guard of their own, and
`set_password` writes under one.  The lock is fair, as tokio's is.

* `run_program`: alone, a request is answered as `serve` says.
-/

namespace Portalis

open Text Http RwLock Programs

/-! ### Requests as tasks -/

/-- A request, and what `Json<PasswordRequest>` makes of its body. -/
structure Visit where
  request : Request IpAddr
  password : Option (List Char)

/-- A request that sets a password, if it is let through. -/
def Visit.WantsPassword (v : Visit) : Prop :=
  routes.lookup v.request.path v.request.method = .endpoint .setPassword ∧
    ∃ password, v.password = some password ∧ 12 ≤ password.length

/-- A request that is answered before the middleware looks at the credentials. -/
def Visit.Outside (v : Visit) : Prop := crossOrigin v.request = true ∨ isAsset v.request = true

/-- The credentials of the process, and their files. -/
structure AuthWorld where
  auth : AuthState
  dir : AuthDir
  deriving DecidableEq

/-- What a request does besides the lock: it looks at the credentials and at the file of the setup token, or
sets the password, or reads the database for `status`, or does the work of another handler. -/
inductive AuthCall
  | look
  | setPassword (password : List Char)
  | database
  | work (e : Endpoint)

/-- What one call meets.  The work of a handler besides the credentials comes to a `T`. -/
structure AuthOutcome (T : Type) where
  secretUnread : Bool
  salt : List UInt8
  faults : AuthFaults
  database : Except ErrorResponse T
  work : T

/-- Reads of the setup token's file succeed. -/
def AuthOutcome.Legible {T : Type} (o : AuthOutcome T) : Prop := o.secretUnread = false

def AuthCall.Answer (T : Type) : AuthCall → Type
  | look => Access
  | setPassword _ => Except String Unit
  | database => Except ErrorResponse T
  | work _ => T

/-- The answers of the handlers. -/
inductive AuthAnswer (T : Type)
  | authStatus (passwordEnabled loopbackPasswordless : Bool) (setupTokenFile : String)
  | password (answer : Except ErrorResponse Unit)
  /-- The body is no `PasswordRequest`. -/
  | unreadable
  | status (hasPassword : Bool) (rest : T)
  | failed (error : ErrorResponse)
  | other (t : T)

/-- What the daemon is started with, and what it uses of other crates. -/
structure AuthDaemon (H : Type) where
  argon2 : Argon2 H
  decode : List Char → Option (List UInt8)
  assets : List Char → Option (List UInt8)
  allowUnauthenticated : Bool
  secretPath : String

abbrev AuthTask (T α : Type) := Task AuthCall (AuthCall.Answer T) α

abbrev AuthLockSystem (T : Type) :=
  System AuthWorld AuthCall Visit (Reply (AuthAnswer T)) (AuthCall.Answer T)

namespace AuthDaemon

variable {H T : Type} (self : AuthDaemon H)

/-- What `authenticate` reads under its guard. -/
def access (w : AuthWorld) (secretUnread : Bool) : Access :=
  ⟨self.allowUnauthenticated, w.auth, if secretUnread then none else w.dir.secret⟩

def perform (w : AuthWorld) : (c : AuthCall) → AuthOutcome T → AuthCall.Answer T c × AuthWorld
  | .look, o => (self.access w o.secretUnread, w)
  | .setPassword password, o =>
    let (answer, auth, dir) := w.auth.setPassword self.argon2 w.dir password o.salt o.faults
    (answer, ⟨auth, dir⟩)
  | .database, o => (o.database, w)
  | .work _, o => (o.work, w)

/-- `auth_status`. -/
def authStatus : AuthTask T (AuthAnswer T) :=
  .call (.acquire .read) fun _ => .call (.call .look) fun access => .call (.release .read) fun _ =>
    .ret (.authStatus access.auth.hasPassword (!access.auth.hasPassword) self.secretPath)

/-- `set_password`. -/
def setPassword (password : List Char) : AuthTask T (AuthAnswer T) :=
  if password.length < 12 then
    .ret (.password (.error ⟨400, "password must contain at least 12 characters"⟩))
  else
    .call (.acquire .write) fun _ => .call (.call (.setPassword password)) fun answer =>
      .call (.release .write) fun _ =>
        match answer with
        | .ok () => .ret (.password (.ok ()))
        | .error error => .ret (.password (.error ⟨500, error⟩))

/-- `status`, which looks at the credentials between its other reads. -/
def status : AuthTask T (AuthAnswer T) :=
  .call (.call .database) fun answer =>
    match answer with
    | .error error => .ret (.failed error)
    | .ok rest =>
      .call (.acquire .read) fun _ => .call (.call .look) fun access => .call (.release .read) fun _ =>
        .ret (.status access.auth.hasPassword rest)

def handler (v : Visit) : Endpoint → AuthTask T (AuthAnswer T)
  | .authStatus => self.authStatus
  | .setPassword =>
    match v.password with
    | none => .ret .unreadable
    | some password => setPassword password
  | .status => status
  | e => .call (.call (.work e)) fun t => .ret (.other t)

/-- `next.run`. -/
def next (v : Visit) : AuthTask T (Reply (AuthAnswer T)) :=
  match routes.lookup v.request.path v.request.method with
  | .endpoint e => (self.handler v e).bind fun answer => .ret (.answered answer)
  | .methodNotAllowed => .ret .methodNotAllowed
  | .fallback =>
    match staticAsset self.assets v.request.path with
    | some (contentType, data) => .ret (.asset contentType data)
    | none => .ret .notFound

/-- The end of `authenticate`, whose guard is dropped when the handler has answered. -/
def decided (v : Visit) (access : Access) : AuthTask T (Reply (AuthAnswer T)) :=
  if localAuthExempt v.request.remote (v.request.text "host") access.auth.hasPassword ||
      authenticated self.argon2 self.decode access v.request then
    (self.next v).bind fun reply => .call (.release .read) fun _ => .ret reply
  else
    .call (.release .read) fun _ => .ret
      (.refused ⟨401, "authentication required; use the setup token or configured password"⟩)

/-- `authenticate`. -/
def program (v : Visit) : AuthTask T (Reply (AuthAnswer T)) :=
  if crossOrigin v.request then .ret (.refused ⟨403, "cross-origin mutation rejected"⟩)
  else if isAsset v.request then self.next v
  else if self.allowUnauthenticated then self.next v
  else
    .call (.acquire .read) fun _ => .call (.call .look) fun access => self.decided v access

/-- The daemon under requests, with its lock. -/
def step (P : Policy) :
    AuthLockSystem T → Event Visit (AuthOutcome T) → Option (AuthLockSystem T) :=
  RwLock.step P self.perform self.program

variable {self}

/-! ### A request alone -/

/-- `set_password` alone is what its model without the lock is. -/
theorem run_setPassword (password : List Char) (o : AuthOutcome T) (w : AuthWorld) :
    ∃ answer auth dir,
      Api.setPassword self.argon2 w.auth w.dir password o.salt o.faults = (answer, auth, dir) ∧
      (setPassword password : AuthTask T (AuthAnswer T)).run (performAct self.perform) o w =
        (.password answer, ⟨auth, dir⟩) := by
  unfold Api.setPassword setPassword
  by_cases hshort : password.length < 12
  · rw [if_pos hshort, if_pos hshort]
    exact ⟨_, _, _, rfl, rfl⟩
  · rw [if_neg hshort, if_neg hshort]
    cases hset : w.auth.setPassword self.argon2 w.dir password o.salt o.faults with
    | mk answer rest =>
      obtain ⟨auth, dir⟩ := rest
      have hperform : performAct self.perform w (.call (.setPassword password)) o =
          (answer, ⟨auth, dir⟩) := by
        show self.perform w (.setPassword password) o = (answer, ⟨auth, dir⟩)
        simp only [perform, hset]
        rfl
      cases answer with
      | ok _ =>
        refine ⟨_, _, _, rfl, ?_⟩
        rw [Program.run_call (rfl : performAct self.perform w (.acquire .write) o = ((), w)),
          Program.run_call hperform]
        rfl
      | error error =>
        refine ⟨_, _, _, rfl, ?_⟩
        rw [Program.run_call (rfl : performAct self.perform w (.acquire .write) o = ((), w)),
          Program.run_call hperform]
        rfl

/-- What the middleware decides is what `authenticate` decides. -/
theorem run_program_error {v : Visit} {o : AuthOutcome T} {w : AuthWorld} {error : ErrorResponse}
    (h : authenticate self.argon2 self.decode (self.access w o.secretUnread) v.request = .error error) :
    (self.program v).run (performAct self.perform) o w = (.refused error, w) := by
  unfold authenticate at h
  unfold program
  by_cases hcross : crossOrigin v.request = true
  · rw [if_pos hcross] at h ⊢
    cases h
    rfl
  · rw [if_neg hcross] at h ⊢
    by_cases hasset : isAsset v.request = true
    · rw [if_pos hasset] at h
      cases h
    · rw [if_neg hasset] at h ⊢
      by_cases hallow : self.allowUnauthenticated = true
      · rw [if_pos (show (self.access w o.secretUnread).allowUnauthenticated = true from hallow)] at h
        cases h
      · rw [if_neg (show ¬ (self.access w o.secretUnread).allowUnauthenticated = true from hallow)] at h
        rw [if_neg hallow]
        by_cases hadmit : (localAuthExempt v.request.remote (v.request.text "host")
            (self.access w o.secretUnread).auth.hasPassword ||
              authenticated self.argon2 self.decode (self.access w o.secretUnread) v.request) = true
        · rw [if_pos hadmit] at h
          cases h
        · rw [if_neg hadmit] at h
          cases h
          rw [Program.run_call (rfl : performAct self.perform w (.acquire .read) o = ((), w)),
            Program.run_call (rfl : performAct self.perform w (.call .look) o =
              (self.access w o.secretUnread, w)), decided, if_neg hadmit]
          rfl

theorem run_program_ok {v : Visit} {o : AuthOutcome T} {w : AuthWorld}
    (h : authenticate self.argon2 self.decode (self.access w o.secretUnread) v.request = .ok ()) :
    (self.program v).run (performAct self.perform) o w =
      (self.next v).run (performAct self.perform) o w := by
  unfold authenticate at h
  unfold program
  by_cases hcross : crossOrigin v.request = true
  · rw [if_pos hcross] at h
    cases h
  · rw [if_neg hcross] at h ⊢
    by_cases hasset : isAsset v.request = true
    · rw [if_pos hasset]
    · rw [if_neg hasset] at h ⊢
      by_cases hallow : self.allowUnauthenticated = true
      · rw [if_pos hallow]
      · rw [if_neg (show ¬ (self.access w o.secretUnread).allowUnauthenticated = true from hallow)] at h
        rw [if_neg hallow]
        by_cases hadmit : (localAuthExempt v.request.remote (v.request.text "host")
            (self.access w o.secretUnread).auth.hasPassword ||
              authenticated self.argon2 self.decode (self.access w o.secretUnread) v.request) = true
        · rw [Program.run_call (rfl : performAct self.perform w (.acquire .read) o = ((), w)),
            Program.run_call (rfl : performAct self.perform w (.call .look) o =
              (self.access w o.secretUnread, w)), decided, if_pos hadmit, Program.run_bind]
          rfl
        · rw [if_neg hadmit] at h
          cases h

/-- **A request alone** is answered as `serve` says. -/
theorem run_program (v : Visit) (o : AuthOutcome T) (w : AuthWorld) :
    (self.program v).run (performAct self.perform) o w =
      let served := serve self.argon2 self.decode self.assets (fun w => self.access w o.secretUnread)
        (fun e _ w => (self.handler v e).run (performAct self.perform) o w) v.request w
      (served.reply, served.state) := by
  unfold serve
  cases hauth : authenticate self.argon2 self.decode (self.access w o.secretUnread) v.request with
  | error error => exact run_program_error hauth
  | ok _ =>
    rw [run_program_ok hauth]
    unfold next
    cases routes.lookup v.request.path v.request.method with
    | endpoint e => exact Program.run_bind _ _ _ _ _
    | methodNotAllowed => rfl
    | fallback =>
      dsimp only
      cases staticAsset self.assets v.request.path with
      | none => rfl
      | some asset => rfl

/-! ### What a request does with the lock -/

theorem lookup_of_isAsset {request : Request IpAddr} (h : isAsset request = true) (e : Endpoint) :
    routes.lookup request.path request.method ≠ .endpoint e := by
  intro hroute
  have hpath : "/api/".toList.isPrefixOf request.path = true :=
    List.isPrefixOf_iff_prefix.mpr (endpoint_path hroute)
  rw [isAsset, hpath] at h
  cases h

variable (self)

/-- With `--allow-unauthenticated` nobody asks for a second guard; without it a writer has one already. -/
def rules : Rules AuthCall where
  acquires gs m := (self.allowUnauthenticated = true → gs = []) ∧
    (self.allowUnauthenticated = false → m = .write → gs ≠ [])
  calls gs c := (∃ password, c = .setPassword password) → .write ∈ gs

variable {self}

/-- A read under a guard of its own. -/
theorem follows_read {α : Type} {gs : List Mode} {f : Access → α}
    (hflat : self.allowUnauthenticated = true → gs = []) :
    Follows self.rules gs gs (.call (.acquire .read) fun _ => .call (.call .look) fun access =>
      .call (.release .read) fun _ => .ret (f access) : AuthTask T α) := by
  refine ⟨⟨hflat, fun _ hwrite => by cases hwrite⟩, ?_, ?_⟩
  · intro hset
    obtain ⟨password, hset⟩ := hset
    cases hset
  · intro access
    exact ⟨gs, rfl, rfl⟩

theorem follows_setPassword {gs : List Mode} (hflat : self.allowUnauthenticated = true → gs = [])
    (hheld : self.allowUnauthenticated = false → gs ≠ []) (password : List Char) :
    Follows self.rules gs gs (setPassword password : AuthTask T (AuthAnswer T)) := by
  unfold setPassword
  split
  · rfl
  · refine ⟨⟨hflat, fun hgated _ => hheld hgated⟩, fun _ => List.mem_cons_self, ?_⟩
    intro answer
    refine ⟨gs, rfl, ?_⟩
    have answer : Except String Unit := answer
    split
    · rfl
    · rfl

theorem follows_handler {gs : List Mode} (hflat : self.allowUnauthenticated = true → gs = [])
    (hheld : self.allowUnauthenticated = false → gs ≠ []) (v : Visit) (e : Endpoint) :
    Follows self.rules gs gs (self.handler v e : AuthTask T (AuthAnswer T)) := by
  have hwork : ∀ e, Follows self.rules gs gs
      (.call (.call (.work e)) fun t => .ret (.other t) : AuthTask T (AuthAnswer T)) := by
    intro e
    refine ⟨?_, fun _ => rfl⟩
    intro hset
    obtain ⟨password, hset⟩ := hset
    cases hset
  cases e with
  | authStatus => exact follows_read hflat
  | setPassword =>
    unfold handler
    cases v.password with
    | none => rfl
    | some password => exact follows_setPassword hflat hheld password
  | status =>
    refine ⟨?_, ?_⟩
    · intro hset
      obtain ⟨password, hset⟩ := hset
      cases hset
    · intro answer
      cases answer with
      | error error => rfl
      | ok rest => exact follows_read hflat
  | _ => exact hwork _

theorem follows_next {gs : List Mode} (hflat : self.allowUnauthenticated = true → gs = []) (v : Visit)
    (hheld : ∀ e, routes.lookup v.request.path v.request.method = .endpoint e →
      self.allowUnauthenticated = false → gs ≠ []) :
    Follows self.rules gs gs (self.next v : AuthTask T (Reply (AuthAnswer T))) := by
  unfold next
  cases hroute : routes.lookup v.request.path v.request.method with
  | endpoint e => exact (follows_handler hflat (hheld e hroute) v e).bind fun _ => rfl
  | methodNotAllowed => rfl
  | fallback =>
    dsimp only
    cases staticAsset self.assets v.request.path with
    | none => rfl
    | some asset => rfl

theorem follows_program (v : Visit) :
    Follows self.rules [] [] (self.program v : AuthTask T (Reply (AuthAnswer T))) := by
  unfold program
  split
  · rfl
  · split
    · next hasset => exact follows_next (fun _ => rfl) v fun e he => absurd he (lookup_of_isAsset hasset e)
    · split
      · next hallow =>
        refine follows_next (fun _ => rfl) v ?_
        intro _ _ hgated
        rw [hallow] at hgated
        cases hgated
      · next hgated =>
        refine ⟨⟨fun _ => rfl, fun _ hwrite => by cases hwrite⟩, ?_, ?_⟩
        · intro hset
          obtain ⟨password, hset⟩ := hset
          cases hset
        · intro access
          have hheld : ∀ e, routes.lookup v.request.path v.request.method = .endpoint e →
              self.allowUnauthenticated = false → [Mode.read] ≠ [] := by
            intro _ _ _
            exact List.cons_ne_nil _ _
          show Follows self.rules [] [.read] (self.decided v access)
          unfold decided
          split
          · refine (follows_next (fun hallow => absurd hallow hgated) v hheld).bind ?_
            · intro reply
              exact ⟨[], rfl, rfl⟩
          · exact ⟨[], rfl, rfl⟩

/-- A request that needs the lock asks for it first. -/
theorem lockless_or_asks (hgated : self.allowUnauthenticated = false)
    {answers : Visit → Reply (AuthAnswer T) → Prop} (hanswers : ∀ v a, v.Outside → answers v a) (v : Visit) :
    Lockless (answers v) (self.program v : AuthTask T (Reply (AuthAnswer T))) ∨
      Asks (self.program v : AuthTask T (Reply (AuthAnswer T))) := by
  unfold program
  split
  · next hcross => exact Or.inl (hanswers v _ (Or.inl hcross))
  · split
    · next hasset =>
      have hanswer := fun a => hanswers v a (Or.inr hasset)
      refine Or.inl ?_
      unfold next
      cases hroute : routes.lookup v.request.path v.request.method with
      | endpoint e => exact absurd hroute (lookup_of_isAsset hasset e)
      | methodNotAllowed => exact hanswer _
      | fallback =>
        dsimp only
        cases staticAsset self.assets v.request.path with
        | none => exact hanswer _
        | some asset => exact hanswer _
    · rw [if_neg (by simp [hgated])]
      exact Or.inr ⟨.read, _, rfl⟩

/-! ### How a request ends, when the credentials stay -/

theorem upToWriting_handler {allowed : AuthOutcome T → Prop} {w : AuthWorld} {writing : Prop} {v : Visit}
    {e : Endpoint} (hroute : routes.lookup v.request.path v.request.method = .endpoint e)
    (hwrites : v.WantsPassword → writing) :
    UpToWriting self.perform allowed w (fun _ => ¬ v.WantsPassword) writing
      (self.handler v e : AuthTask T (AuthAnswer T)) := by
  have hnot : e ≠ .setPassword → ¬ v.WantsPassword := by
    intro hne hwants
    rw [hwants.1] at hroute
    cases hroute
    exact hne rfl
  cases e with
  | authStatus => exact fun _ _ => hnot (by decide)
  | setPassword =>
    unfold handler
    cases hpassword : v.password with
    | none =>
      intro hwants
      obtain ⟨-, password, hsome, -⟩ := hwants
      rw [hpassword] at hsome
      cases hsome
    | some password =>
      dsimp only
      unfold setPassword
      split
      · next hshort =>
        intro hwants
        obtain ⟨-, password', hsome, hlong⟩ := hwants
        rw [hpassword] at hsome
        cases hsome
        exact absurd hshort (Nat.not_lt.mpr hlong)
      · next hlong => exact hwrites ⟨hroute, password, hpassword, Nat.not_lt.mp hlong⟩
  | status =>
    have hrest := hnot (by decide)
    intro o _
    dsimp only [perform]
    cases o.database with
    | error error => exact hrest
    | ok rest => exact fun _ _ => hrest
  | _ => exact fun _ _ => hnot (by decide)

theorem upToWriting_next {allowed : AuthOutcome T → Prop} {w : AuthWorld} {writing : Prop} {v : Visit}
    (hwrites : v.WantsPassword → writing) :
    UpToWriting self.perform allowed w (fun _ => ¬ v.WantsPassword) writing
      (self.next v : AuthTask T (Reply (AuthAnswer T))) := by
  unfold next
  cases hroute : routes.lookup v.request.path v.request.method with
  | endpoint e => exact (upToWriting_handler hroute hwrites).bind fun _ hnot => hnot
  | methodNotAllowed =>
    intro hwants
    rw [hwants.1] at hroute
    cases hroute
  | fallback =>
    have hnot : ¬ v.WantsPassword := by
      intro hwants
      rw [hwants.1] at hroute
      cases hroute
    dsimp only
    cases staticAsset self.assets v.request.path with
    | none => exact hnot
    | some asset => exact hnot

/-- Past the first two checks the credentials decide. -/
theorem authenticate_inside (access : Access) {v : Visit} (hinside : ¬ v.Outside)
    (hgated : access.allowUnauthenticated = false) :
    authenticate self.argon2 self.decode access v.request =
      if localAuthExempt v.request.remote (v.request.text "host") access.auth.hasPassword ||
          authenticated self.argon2 self.decode access v.request then .ok ()
      else .error ⟨401, "authentication required; use the setup token or configured password"⟩ := by
  unfold authenticate
  rw [if_neg fun hcross => hinside (Or.inl hcross), if_neg fun hasset => hinside (Or.inr hasset),
    if_neg (by simp [hgated])]

/-- **A gated request**, whatever reads of the token's file it may meet, is refused, or let through. -/
theorem upToWriting_program (hgated : self.allowUnauthenticated = false) (reads : Bool → Prop)
    (hreads : reads false) {w : AuthWorld} {ended : Reply (AuthAnswer T) → Prop} {writing : Prop} {v : Visit}
    (hadmitted : ∀ unread, reads unread →
      authenticate self.argon2 self.decode (self.access w unread) v.request = .ok () →
        (v.WantsPassword → writing) ∧ (¬ v.WantsPassword → ∀ a, ended a))
    (hrefused : ∀ unread error, reads unread →
      authenticate self.argon2 self.decode (self.access w unread) v.request = .error error →
        ended (.refused error)) :
    UpToWriting self.perform (fun o => reads o.secretUnread) w ended writing
      (self.program v : AuthTask T (Reply (AuthAnswer T))) := by
  have hnext : ∀ unread, reads unread →
      authenticate self.argon2 self.decode (self.access w unread) v.request = .ok () →
        UpToWriting self.perform (fun o => reads o.secretUnread) w ended writing
          (self.next v : AuthTask T (Reply (AuthAnswer T))) := by
    intro unread hunread hok
    obtain ⟨hwrites, hother⟩ := hadmitted unread hunread hok
    exact (upToWriting_next hwrites).imp fun a hnot => hother hnot a
  by_cases hinside : v.Outside
  · unfold program
    by_cases hcross : crossOrigin v.request = true
    · rw [if_pos hcross]
      refine hrefused false _ hreads ?_
      unfold authenticate
      rw [if_pos hcross]
    · have hasset : isAsset v.request = true := hinside.resolve_left hcross
      rw [if_neg hcross, if_pos hasset]
      refine hnext false hreads ?_
      unfold authenticate
      rw [if_neg hcross, if_pos hasset]
  · unfold program
    rw [if_neg fun hcross => hinside (Or.inl hcross), if_neg fun hasset => hinside (Or.inr hasset),
      if_neg (by simp [hgated])]
    intro o ho
    have hauth : authenticate self.argon2 self.decode (self.access w o.secretUnread) v.request = _ :=
      authenticate_inside _ hinside hgated
    show UpToWriting self.perform _ w ended writing (self.decided v (self.access w o.secretUnread))
    unfold decided
    by_cases hadmit : (localAuthExempt v.request.remote (v.request.text "host")
        (self.access w o.secretUnread).auth.hasPassword ||
          authenticated self.argon2 self.decode (self.access w o.secretUnread) v.request) = true
    · rw [if_pos hadmit] at hauth ⊢
      exact (hnext _ ho hauth).bind fun _ hended => hended
    · rw [if_neg hadmit] at hauth ⊢
      exact hrefused _ _ ho hauth

variable (self)

theorem nested_rules (hgated : self.allowUnauthenticated = false) :
    Nested self.rules (self.perform : AuthWorld → (c : AuthCall) → AuthOutcome T → _) where
  holds h := h.2 hgated rfl
  leaves {gs c} w o h hnot := by
    cases c with
    | setPassword password => exact absurd (h ⟨password, rfl⟩) hnot
    | look => rfl
    | database => rfl
    | work e => rfl

variable {self}

/-! ### Runs of the daemon -/

/-- A daemon that asks for credentials. -/
def gatedDaemon : AuthDaemon (List Char) :=
  ⟨AuthSystem.hexArgon2, fun _ => none, fun _ => none, false, "/var/lib/portalis/web-auth.secret"⟩

def freshAuth : AuthWorld := ⟨⟨none⟩, ⟨some "token".toList, none⟩⟩

/-- A new password, over the control socket or from somewhere else. -/
def passwordVisit (remote : Option IpAddr) : Visit :=
  ⟨⟨.post, "/api/v1/auth/password".toList, [], remote⟩, some "correct horse".toList⟩

def statusVisit : Visit := ⟨⟨.get, "/api/v1/status".toList, [], none⟩, none⟩

def plainOutcome : AuthOutcome Unit := ⟨false, [], .none, .ok (), ()⟩

/-- **Nobody sets a password over HTTP.**  Unless the daemon was started with `--allow-unauthenticated`:
whatever is sent and in whatever order it is polled, the credentials stay, in memory and on disk; and what is
ever answered was refused, or it wants no new password and was let through by the credentials at the start. -/
theorem password_kept_of_reaches (hgated : self.allowUnauthenticated = false) {P : Policy} {w : AuthWorld}
    {s : AuthLockSystem T} (h : Reaches (self.step P) (fun _ _ => True) (.idle w) s) :
    s.world = w ∧ ∀ i v a, s.answer i = some (v, a) → (∃ error, a = .refused error) ∨
      ¬ v.WantsPassword ∧ ∃ unread,
        authenticate self.argon2 self.decode (self.access w unread) v.request = .ok () := by
  let ended (v : Visit) (a : Reply (AuthAnswer T)) : Prop := (∃ error, a = .refused error) ∨
    ¬ v.WantsPassword ∧ ∃ unread,
      authenticate self.argon2 self.decode (self.access w unread) v.request = .ok ()
  have hprogram : ∀ v : Visit, UpToWriting self.perform (fun _ => True) w (ended v) True
      (self.program v : AuthTask T (Reply (AuthAnswer T))) := by
    intro v
    refine upToWriting_program hgated (fun _ => True) trivial ?_ ?_
    · intro unread _ hok
      exact ⟨fun _ => trivial, fun hnot _ => Or.inr ⟨hnot, unread, hok⟩⟩
    · intro _ error _ _
      exact Or.inl ⟨error, rfl⟩
  have hmeets : Reaches (self.step P) (fun _ e => e.Meets fun _ => True) (.idle w) s := by
    refine h.imp ?_
    intro _ e _
    cases e with
    | arrive i v => trivial
    | poll i o => trivial
    | leave i => trivial
  obtain ⟨-, hshared, hforeseen⟩ := shared_of_reaches (self.nested_rules hgated) follows_program hprogram
    (.idle self.rules w) (.idle w) .idle hmeets
  exact ⟨hshared.world, fun i v a hanswer => hforeseen.answer hanswer⟩

theorem password_kept_from_elsewhere :
    ∃ (s : AuthLockSystem Unit) (a : Reply (AuthAnswer Unit)), s.world = freshAuth ∧
      s.answer 0 = some (passwordVisit (some (.v4 0x0A000001)), a) ∧ ∃ error, a = .refused error := by
  have hrun : ∃ (s : AuthLockSystem Unit) (a : Reply (AuthAnswer Unit)),
      runAll (gatedDaemon.step fifo) (.idle freshAuth)
        (.arrive 0 (passwordVisit (some (.v4 0x0A000001))) :: List.replicate 5 (.poll 0 plainOutcome)) = some s ∧
          s.answer 0 = some (passwordVisit (some (.v4 0x0A000001)), a) := ⟨_, _, rfl, rfl⟩
  obtain ⟨s, a, hrun, hanswer⟩ := hrun
  have hreaches : Reaches (gatedDaemon.step fifo) (fun _ _ => True) (.idle freshAuth) s :=
    Reaches.of_runAll .start (fun _ _ _ => trivial) hrun
  have hkept := password_kept_of_reaches rfl hreaches
  refine ⟨s, a, hkept.1, hanswer, ?_⟩
  rcases hkept.2 0 _ a hanswer with hrefused | ⟨hnot, -⟩
  · exact hrefused
  · exact absurd ⟨rfl, _, rfl, by decide⟩ hnot

/-- **One request for a password stops the daemon.**  From when it waits to write, and until its client
leaves, it waits; and of the requests that come later or wait behind it only those are answered that are
pages of the web client or cross-origin. -/
theorem standstill_of_reaches (hgated : self.allowUnauthenticated = false) {P : Policy} {w : AuthWorld}
    {s s' : AuthLockSystem T} (h : Reaches (self.step P) (fun _ _ => True) (.idle w) s) {i : ℕ}
    {before after : List (ℕ × Mode)} (hwaits : s.lock.waiting = before ++ (i, .write) :: after)
    (hrun : Reaches (self.step P) (fun _ e => e ≠ .leave i) s s') :
    (i, .write) ∈ s'.lock.waiting ∧ ∀ j v a, s.task j = none ∨ (∃ m, (j, m) ∈ after) →
      s'.answer j = some (v, a) → s.answer j = some (v, a) ∨ v.Outside := by
  have horderly : Orderly self.rules s := Orderly.of_reaches follows_program (.idle self.rules w) h
  obtain ⟨v, k, htask⟩ := horderly.queued
    (hwaits ▸ List.mem_append_right _ List.mem_cons_self : (i, Mode.write) ∈ s.lock.waiting)
  have hstalled : Stalled i before after s :=
    ⟨(self.nested_rules (T := T) hgated).holds (horderly.follows htask).1, ⟨v, k, htask⟩, hwaits⟩
  constructor
  · obtain ⟨before', after', hstalled', -⟩ :=
      hstalled.of_reaches (lockless_or_asks hgated fun v _ hv => hv) hrun
    rw [hstalled'.waiting]
    exact List.mem_append_right _ List.mem_cons_self
  · intro j v a hlate hanswer
    let answers (v : Visit) (a : Reply (AuthAnswer T)) : Prop := s.answer j = some (v, a) ∨ v.Outside
    obtain ⟨before', after', -, hlates⟩ := hstalled.of_reaches
      (lockless_or_asks hgated fun v a hv => (Or.inr hv : answers v a)) hrun
    have hlate : Late answers before j s := by
      refine ⟨Or.inl, ?_, ?_⟩
      · -- it waits for one guard only
        intro m hmem
        have hwaiting : (j, m) ∈ s.lock.waiting := hwaits ▸ List.mem_append_left _ hmem
        obtain ⟨v', k', htask'⟩ := horderly.queued hwaiting
        rcases hlate with hnone | ⟨m', hafter⟩
        · cases hnone.symm.trans htask'
        · obtain ⟨v'', k'', htask''⟩ := horderly.queued
            (hwaits ▸ List.mem_append_right _ (List.mem_cons_of_mem _ hafter) : (j, m') ∈ s.lock.waiting)
          cases htask'.symm.trans htask''
          have hnodup := horderly.nodup
          rw [hwaits] at hnodup
          exact (List.nodup_append.mp hnodup).2.2 _ hmem _ (List.mem_cons_of_mem _ hafter) rfl
      · intro v' p htask'
        rcases hlate with hnone | ⟨m, hafter⟩
        · cases hnone.symm.trans htask'
        · obtain ⟨v'', k', hasks⟩ := horderly.queued
            (hwaits ▸ List.mem_append_right _ (List.mem_cons_of_mem _ hafter) : (j, m) ∈ s.lock.waiting)
          cases htask'.symm.trans hasks
          exact Or.inr ⟨m, k', rfl⟩
    exact (hlates j hlate).answered hanswer

theorem standstill_of_status :
    ∃ s s' : AuthLockSystem Unit, s.lock.waiting = [(0, .write)] ∧
      s'.lock.waiting = [(0, .write), (1, .read)] ∧ (0, .write) ∈ s'.lock.waiting ∧
        ∀ a, s'.answer 1 = some (statusVisit, a) → s.answer 1 = some (statusVisit, a) ∨ statusVisit.Outside := by
  have hrun : ∃ s s' : AuthLockSystem Unit,
      runAll (gatedDaemon.step fifo) (.idle freshAuth)
        (.arrive 0 (passwordVisit none) :: List.replicate 4 (.poll 0 plainOutcome)) = some s ∧
      runAll (gatedDaemon.step fifo) s [.arrive 1 statusVisit, .poll 1 plainOutcome] = some s' ∧
      s.lock.waiting = [(0, .write)] ∧ s.task 1 = none ∧ s'.lock.waiting = [(0, .write), (1, .read)] :=
    ⟨_, _, rfl, rfl, rfl, rfl, rfl⟩
  obtain ⟨s, s', hrun, hrun', hwaits, hnone, hwaits'⟩ := hrun
  have hreaches : Reaches (gatedDaemon.step fifo) (fun _ _ => True) (.idle freshAuth) s :=
    Reaches.of_runAll .start (fun _ _ _ => trivial) hrun
  have hstays : Reaches (gatedDaemon.step fifo) (fun _ e => e ≠ .leave 0) s s' := by
    refine Reaches.of_runAll .start ?_ hrun'
    intro _ e he
    rcases List.mem_pair.mp he with rfl | rfl
    · intro hleave
      cases hleave
    · intro hleave
      cases hleave
  have hfront : s.lock.waiting = [] ++ (0, .write) :: [] := hwaits
  have hstandstill := standstill_of_reaches rfl hreaches hfront hstays
  exact ⟨s, s', hwaits, hwaits', hstandstill.1, fun a => hstandstill.2 1 _ a (Or.inl hnone)⟩

/-- **When everybody can be answered.**  While the setup token's file can be read: the requests in flight can all
be answered, without anyone new and without anyone leaving, if and only if the daemon was started with
`--allow-unauthenticated`, or none of them wants a new password and is let through. -/
theorem drains_iff_of_reaches [Inhabited T] {P : Policy} {w : AuthWorld} {s : AuthLockSystem T}
    (h : Reaches (self.step P) (fun _ e => e.Meets AuthOutcome.Legible) (.idle w) s) :
    Drains P self.perform self.program AuthOutcome.Legible s ↔
      self.allowUnauthenticated = true ∨ ∀ i v p, s.task i = some (v, p) → v.WantsPassword →
        ∃ error, authenticate self.argon2 self.decode ⟨false, w.auth, w.dir.secret⟩ v.request =
          .error error := by
  have hlegible : (⟨false, [], .none, .ok default, default⟩ : AuthOutcome T).Legible := rfl
  cases hallow : self.allowUnauthenticated with
  | true =>
    have hflat : ∀ gs m, self.rules.acquires gs m → gs = [] := fun _ _ hacquires => hacquires.1 hallow
    exact iff_of_true (drains_of_flat hflat follows_program hlegible h) (Or.inl rfl)
  | false =>
    let writing (v : Visit) : Prop := v.WantsPassword ∧
      authenticate self.argon2 self.decode (self.access w false) v.request = .ok ()
    have hprogram : ∀ v : Visit, UpToWriting self.perform AuthOutcome.Legible w
        (fun _ => ¬ writing v) (writing v) (self.program v : AuthTask T (Reply (AuthAnswer T))) := by
      intro v
      refine upToWriting_program hallow (fun unread => unread = false) rfl ?_ ?_
      · intro unread hunread hok
        subst hunread
        exact ⟨fun hwants => ⟨hwants, hok⟩, fun hnot _ hwriting => hnot hwriting.1⟩
      · intro unread error hunread herror hwriting
        subst hunread
        cases herror.symm.trans hwriting.2
    have haccess : self.access w false = ⟨false, w.auth, w.dir.secret⟩ := by
      rw [access, hallow]
      rfl
    rw [drains_iff_of_nested (self.nested_rules hallow) follows_program hprogram
      (fun v a hwriting hnot => hnot hwriting) hlegible h]
    have hnot : ∀ v : Visit, ¬ writing v ↔ (v.WantsPassword → ∃ error,
        authenticate self.argon2 self.decode ⟨false, w.auth, w.dir.secret⟩ v.request = .error error) := by
      intro v
      show ¬ (v.WantsPassword ∧
        authenticate self.argon2 self.decode (self.access w false) v.request = .ok ()) ↔ _
      rw [haccess, not_and]
      refine imp_congr_right fun _ => ?_
      cases authenticate self.argon2 self.decode ⟨false, w.auth, w.dir.secret⟩ v.request with
      | error error => exact iff_of_true (fun hok => by cases hok) ⟨error, rfl⟩
      | ok _ => exact iff_of_false (fun hne => hne rfl) fun herror => by cases herror.choose_spec
    constructor
    · intro hnone
      exact Or.inr fun i v p htask => (hnot v).mp (hnone i v p htask)
    · intro hrefused i v p htask
      rcases hrefused with hallow' | hrefused
      · cases hallow'
      · exact (hnot v).mpr (hrefused i v p htask)

theorem drains_not_with_password :
    ∃ s : AuthLockSystem Unit, s.answer 0 = none ∧
      ¬ Drains fifo gatedDaemon.perform gatedDaemon.program AuthOutcome.Legible s := by
  have hrun : ∃ s : AuthLockSystem Unit, ∃ p,
      runAll (gatedDaemon.step fifo) (.idle freshAuth) [.arrive 0 (passwordVisit none)] = some s ∧
        s.answer 0 = none ∧ s.task 0 = some (passwordVisit none, p) := ⟨_, _, rfl, rfl, rfl⟩
  obtain ⟨s, p, hrun, hanswer, htask⟩ := hrun
  have hreaches : Reaches (gatedDaemon.step fifo) (fun _ e => e.Meets AuthOutcome.Legible)
      (.idle freshAuth) s := by
    refine Reaches.of_runAll .start ?_ hrun
    intro _ e he
    rw [List.mem_singleton.mp he]
    trivial
  refine ⟨s, hanswer, ?_⟩
  rw [drains_iff_of_reaches hreaches]
  intro h
  rcases h with hallow | hrefused
  · cases hallow
  · obtain ⟨error, herror⟩ := hrefused 0 _ p htask ⟨rfl, _, rfl, by decide⟩
    cases herror

end AuthDaemon

end Portalis
