import Portalis.Programs

/-!
# The stored credential of the web client

`api` of `main.tsx` and the functions of `auth.ts` it shares: any number of requests in flight, one prompt
at most, and one storage.  An answer to the prompt resumes those who wait for it one after the other, and
they all run before the next response or answer is looked at.

* `tidy_of_reaches`: while the prompt is open nothing is stored, and a retry carries a credential.
* `Tidy.storage_cases`: what an event can do to the storage.
* `handling_keeps_other_credential`: a 401 to a request removes no stored credential but its own.
-/

namespace Portalis

open Programs

/-! ### `auth.ts` -/

/-- `Storage`, at the two keys that the client uses. -/
structure CredentialStorage where
  credential : Option String
  legacyPassword : Option String
  deriving DecidableEq

/-- A text that is there and not empty. -/
def truthy : Option String → Bool
  | none => false
  | some text => text ≠ ""

namespace CredentialStorage

def readCredential (storage : CredentialStorage) : Option String :=
  if truthy storage.credential then storage.credential else storage.legacyPassword

def rememberCredential (storage : CredentialStorage) (credential : String) : CredentialStorage :=
  { storage with credential := some credential }

def forgetCredential (storage : CredentialStorage) (expected : Option String) : CredentialStorage :=
  if truthy expected && storage.readCredential ≠ expected then storage else ⟨none, none⟩

/-- One of the two keys holds the credential. -/
def Holds (storage : CredentialStorage) (stored : String) : Prop :=
  storage.credential = some stored ∨ storage.legacyPassword = some stored

/-- At most one of the two keys holds a credential. -/
def Single (storage : CredentialStorage) : Prop :=
  truthy storage.credential = true → truthy storage.legacyPassword = false

end CredentialStorage

/-! ### The page -/

/-- A request in flight: the credential it was sent with, and the options of its call. -/
structure ApiRequest where
  credential : Option String
  retrying : Bool
  onPasswordRequired : Bool
  deriving DecidableEq

/-- Who waits for the prompt: a call in `waitForCredential`, or one in `recoverCredential`. -/
inductive Waiter
  | starting (retrying onPasswordRequired : Bool)
  | recovering (onPasswordRequired : Bool)
  deriving DecidableEq

/-- The storage, those who wait for the open prompt, those the last answer resumed and that answer, and
the requests in flight. -/
structure ClientPage where
  storage : CredentialStorage
  credentialRecovery : Option (List Waiter)
  resumed : List (Waiter × Option String)
  inFlight : List ApiRequest

namespace ClientPage

/-- The request of a call, with the credential that is stored now. -/
def send (s : ClientPage) (retrying onPasswordRequired : Bool) : ClientPage :=
  { s with
    inFlight := s.inFlight ++ [⟨s.storage.readCredential, retrying, onPasswordRequired⟩] }

/-- `api` up to its `fetch`, which comes after the open prompt. -/
def call (s : ClientPage) (retrying onPasswordRequired : Bool) : ClientPage :=
  match s.credentialRecovery with
  | some waiters =>
    { s with credentialRecovery := some (waiters ++ [.starting retrying onPasswordRequired]) }
  | none => s.send retrying onPasswordRequired

/-- `recoverCredential`: the prompt is opened if it is not open, and is waited for. -/
def recoverCredential (s : ClientPage) (onPasswordRequired : Bool) : ClientPage :=
  { s with
    credentialRecovery := some (s.credentialRecovery.getD [] ++ [.recovering onPasswordRequired]) }

/-- `api` from the response on, for a response with JSON in it. -/
def handle (s : ClientPage) (request : ApiRequest) (status : ℕ) : ClientPage :=
  let s :=
    if status = 401 ∧ request.retrying = true then
      { s with storage := s.storage.forgetCredential request.credential }
    else s
  if status = 401 ∧ request.retrying = false ∧ request.onPasswordRequired = true then
    let currentCredential := s.storage.readCredential
    if truthy currentCredential ∧ currentCredential ≠ request.credential then
      s.call true request.onPasswordRequired
    else
      { s with storage := s.storage.forgetCredential request.credential }.recoverCredential
        request.onPasswordRequired
  else s

/-- Someone who waited goes on with what was entered. -/
def resume (s : ClientPage) (entered : Option String) : Waiter → ClientPage
  | .starting retrying onPasswordRequired => s.send retrying onPasswordRequired
  | .recovering onPasswordRequired =>
    if truthy entered then s.call true onPasswordRequired else s

end ClientPage

/-- What can happen next. -/
inductive ClientEvent
  /-- The page calls `api`. -/
  | request (onPasswordRequired : Bool)
  /-- One of those the last answer resumed goes on. -/
  | resume (i : ℕ)
  /-- A response with JSON in it comes for a request. -/
  | respond (i : ℕ) (status : ℕ)
  /-- A request ends otherwise: no response, or one without JSON. -/
  | fail (i : ℕ)
  /-- The prompt is answered, or cancelled. -/
  | answer (entered : Option String)
  /-- The prompt fails. -/
  | reject
  /-- "Forget saved credential". -/
  | forgetSaved
  /-- The page is loaded again. -/
  | reload

namespace ClientPage

/-- A page that has just been loaded. -/
def loaded (storage : CredentialStorage) : ClientPage := ⟨storage, none, [], []⟩

/-- Responses, answers and clicks wait until those who were resumed have run. -/
def step (s : ClientPage) : ClientEvent → Option ClientPage
  | .request onPasswordRequired => some (s.call false onPasswordRequired)
  | .resume i =>
    s.resumed[i]?.map fun next =>
      { s with resumed := s.resumed.eraseIdx i }.resume next.2 next.1
  | .respond i status =>
    if s.resumed = [] then
      s.inFlight[i]?.map fun request =>
        { s with inFlight := s.inFlight.eraseIdx i }.handle request status
    else none
  | .fail i =>
    if s.resumed = [] then some { s with inFlight := s.inFlight.eraseIdx i } else none
  | .answer entered =>
    if s.resumed = [] then
      s.credentialRecovery.map fun waiters =>
        { s with
          storage := if truthy entered then s.storage.rememberCredential (entered.getD "")
            else s.storage
          credentialRecovery := none
          resumed := waiters.map fun waiter => (waiter, entered) }
    else none
  | .reject =>
    if s.resumed = [] then s.credentialRecovery.map fun _ => { s with credentialRecovery := none }
    else none
  | .forgetSaved =>
    if s.resumed = [] then some { s with storage := s.storage.forgetCredential none } else none
  | .reload => some (loaded s.storage)

/-! ### What an event needs, and what it does -/

section

variable {s s' : ClientPage}

theorem step_resume {i : ℕ} :
    s.step (.resume i) = some s' ↔ ∃ next, s.resumed[i]? = some next ∧
      { s with resumed := s.resumed.eraseIdx i }.resume next.2 next.1 = s' := by
  rw [step, Option.map_eq_some_iff]

theorem step_respond {i status : ℕ} :
    s.step (.respond i status) = some s' ↔ s.resumed = [] ∧ ∃ request,
      s.inFlight[i]? = some request ∧
        { s with inFlight := s.inFlight.eraseIdx i }.handle request status = s' := by
  rw [step, Option.ite_none_right_eq_some, Option.map_eq_some_iff]

theorem step_fail {i : ℕ} :
    s.step (.fail i) = some s' ↔
      s.resumed = [] ∧ { s with inFlight := s.inFlight.eraseIdx i } = s' := by
  rw [step, Option.ite_none_right_eq_some, Option.some_inj]

theorem step_answer {entered : Option String} :
    s.step (.answer entered) = some s' ↔ s.resumed = [] ∧ ∃ waiters,
      s.credentialRecovery = some waiters ∧
        { s with
          storage :=
            if truthy entered then s.storage.rememberCredential (entered.getD "") else s.storage
          credentialRecovery := none
          resumed := waiters.map fun waiter => (waiter, entered) } = s' := by
  rw [step, Option.ite_none_right_eq_some, Option.map_eq_some_iff]

theorem step_reject :
    s.step .reject = some s' ↔ s.resumed = [] ∧ ∃ waiters,
      s.credentialRecovery = some waiters ∧ { s with credentialRecovery := none } = s' := by
  rw [step, Option.ite_none_right_eq_some, Option.map_eq_some_iff]

theorem step_forgetSaved :
    s.step .forgetSaved = some s' ↔
      s.resumed = [] ∧ { s with storage := s.storage.forgetCredential none } = s' := by
  rw [step, Option.ite_none_right_eq_some, Option.some_inj]

end

/-! ### What the storage keeps -/

section

variable {storage : CredentialStorage} {c : Option String}

theorem readCredential_remember {entered : Option String} (h : truthy entered = true) :
    truthy (storage.rememberCredential (entered.getD "")).readCredential = true := by
  cases entered with
  | none => cases h
  | some text =>
    unfold CredentialStorage.readCredential CredentialStorage.rememberCredential
    show truthy (if truthy (some text) then some text else storage.legacyPassword) = true
    rw [if_pos h]
    exact h

/-- What is forgotten is the expected credential, or everything when none is expected. -/
theorem forgetCredential_cases :
    storage.forgetCredential c = storage ∧ truthy c = true ∧ storage.readCredential ≠ c ∨
      storage.forgetCredential c = ⟨none, none⟩ ∧
        (truthy c = true → storage.readCredential = c) := by
  unfold CredentialStorage.forgetCredential
  by_cases hother : (truthy c && decide (storage.readCredential ≠ c)) = true
  · rw [if_pos hother]
    obtain ⟨htruthy, hne⟩ := Bool.and_eq_true_iff.mp hother
    exact Or.inl ⟨rfl, htruthy, of_decide_eq_true hne⟩
  · rw [if_neg hother]
    refine Or.inr ⟨rfl, fun htruthy => ?_⟩
    by_contra hne
    exact hother (Bool.and_eq_true_iff.mpr ⟨htruthy, decide_eq_true hne⟩)

/-- Nothing is readable after a forget that finds nothing, or the expected credential. -/
theorem readCredential_forget (h : truthy storage.readCredential = true →
    storage.readCredential = c) : truthy (storage.forgetCredential c).readCredential = false := by
  rcases @forgetCredential_cases storage c with ⟨hsame, -, hne⟩ | ⟨hempty, -⟩
  · rw [hsame, Bool.eq_false_iff]
    intro hread
    exact hne (h hread)
  · rw [hempty]
    rfl

/-- Nothing readable is nothing at either key. -/
theorem truthy_keys (h : truthy storage.readCredential = false) :
    truthy storage.credential = false ∧ truthy storage.legacyPassword = false := by
  unfold CredentialStorage.readCredential at h
  by_cases hkey : truthy storage.credential = true
  · rw [if_pos hkey, hkey] at h
    cases h
  · rw [if_neg hkey] at h
    exact ⟨by simpa using hkey, h⟩

/-- With at most one credential, what is at a key is readable. -/
theorem readCredential_of_holds {stored : String} (hsingle : storage.Single) (htext : stored ≠ "")
    (h : storage.Holds stored) : storage.readCredential = some stored := by
  have htruthy : truthy (some stored) = true := by simpa [truthy] using htext
  unfold CredentialStorage.readCredential
  rcases h with hkey | hlegacy
  · rw [if_pos (by rw [hkey]; exact htruthy), hkey]
  · have hfree : ¬ truthy storage.credential = true := by
      intro hkey
      have hempty := hsingle hkey
      rw [hlegacy, htruthy] at hempty
      cases hempty
    rw [if_neg hfree, hlegacy]

theorem single_forget (h : storage.Single) : (storage.forgetCredential c).Single := by
  rcases @forgetCredential_cases storage c with ⟨hsame, -, -⟩ | ⟨hempty, -⟩
  · rw [hsame]
    exact h
  · rw [hempty]
    intro hkey
    cases hkey

/-- What is remembered while nothing is readable is the only credential. -/
theorem single_remember {text : String} (h : truthy storage.readCredential = false) :
    (storage.rememberCredential text).Single :=
  fun _ => (truthy_keys h).2

end

/-! ### The four ends of a response -/

/-- A response is not a 401 to act on, or it is one: to a retry, to a first try that was sent before the
stored credential came, or to a first try that nothing newer is stored for. -/
theorem handle_cases (s : ClientPage) (request : ApiRequest) (status : ℕ) :
    s.handle request status = s ∨
      (status = 401 ∧ request.retrying = true ∧
        s.handle request status =
          { s with storage := s.storage.forgetCredential request.credential }) ∨
      (truthy s.storage.readCredential = true ∧
        s.handle request status = s.call true request.onPasswordRequired) ∨
      (status = 401 ∧
        (truthy s.storage.readCredential = true → s.storage.readCredential = request.credential) ∧
        s.handle request status =
          { s with storage := s.storage.forgetCredential request.credential }.recoverCredential
            request.onPasswordRequired) := by
  unfold handle
  by_cases hretry : status = 401 ∧ request.retrying = true
  · have hfirst : ¬ (status = 401 ∧ request.retrying = false ∧ request.onPasswordRequired = true) := by
      intro hfirst
      have hcontra := hretry.2.symm.trans hfirst.2.1
      cases hcontra
    rw [if_pos hretry]
    refine Or.inr (Or.inl ⟨hretry.1, hretry.2, ?_⟩)
    exact if_neg hfirst
  · rw [if_neg hretry]
    by_cases hfirst : status = 401 ∧ request.retrying = false ∧ request.onPasswordRequired = true
    · simp only [if_pos hfirst]
      by_cases hnewer : truthy s.storage.readCredential = true ∧
          s.storage.readCredential ≠ request.credential
      · rw [if_pos hnewer]
        exact Or.inr (Or.inr (Or.inl ⟨hnewer.1, rfl⟩))
      · rw [if_neg hnewer]
        refine Or.inr (Or.inr (Or.inr ⟨hfirst.1, fun htruthy => ?_, rfl⟩))
        by_contra hne
        exact hnewer ⟨htruthy, hne⟩
    · exact Or.inl (if_neg hfirst)

/-! ### What holds in every run -/

/-- Nothing is stored while the prompt is open; those resumed run before it opens again; an answer that
resumes them is stored; who waits to start is on a first try; a retry in flight carries a credential. -/
structure Tidy (s : ClientPage) : Prop where
  waiting : s.credentialRecovery ≠ none → truthy s.storage.readCredential = false
  resuming : s.resumed ≠ [] → s.credentialRecovery = none
  entered : ∀ next ∈ s.resumed, truthy next.2 = true → truthy s.storage.readCredential = true
  firstWaiting : ∀ waiters, s.credentialRecovery = some waiters →
    ∀ onPasswordRequired, Waiter.starting true onPasswordRequired ∉ waiters
  firstResumed : ∀ next ∈ s.resumed, ∀ onPasswordRequired, next.1 ≠ .starting true onPasswordRequired
  retries : ∀ request ∈ s.inFlight, request.retrying = true → truthy request.credential = true

namespace Tidy

theorem of_loaded (storage : CredentialStorage) : Tidy (loaded storage) where
  waiting := fun h => absurd rfl h
  resuming := fun _ => rfl
  entered := fun _ h => absurd h List.not_mem_nil
  firstWaiting := fun _ h => (by cases h)
  firstResumed := fun _ h => absurd h List.not_mem_nil
  retries := fun _ h => absurd h List.not_mem_nil

section

variable {s : ClientPage} (h : Tidy s)

include h

/-- A retry is sent only when a credential is stored. -/
theorem send {retrying onPasswordRequired : Bool}
    (hretry : retrying = true → truthy s.storage.readCredential = true) :
    Tidy (s.send retrying onPasswordRequired) :=
  { h with
    retries := by
      intro request hmem hretrying
      rcases List.mem_append.mp hmem with hold | hnew
      · exact h.retries request hold hretrying
      · rw [List.mem_singleton] at hnew
        subst hnew
        exact hretry hretrying }

theorem call {retrying onPasswordRequired : Bool}
    (hretry : retrying = true → truthy s.storage.readCredential = true) :
    Tidy (s.call retrying onPasswordRequired) := by
  unfold ClientPage.call
  cases hrecovery : s.credentialRecovery with
  | none => exact h.send hretry
  | some waiters =>
    have hopen : s.credentialRecovery ≠ none := by
      rw [hrecovery]
      exact Option.some_ne_none waiters
    refine { h with waiting := fun _ => h.waiting hopen, resuming := ?_, firstWaiting := ?_ }
    · intro hresumed
      exact absurd (h.resuming hresumed) hopen
    · intro all hall opr hmem
      cases hall
      rcases List.mem_append.mp hmem with hold | hnew
      · exact h.firstWaiting waiters hrecovery opr hold
      · rw [List.mem_singleton] at hnew
        cases hnew
        have hstored := hretry rfl
        rw [h.waiting hopen] at hstored
        cases hstored

theorem recoverCredential (hresumed : s.resumed = [])
    (hempty : truthy s.storage.readCredential = false) (onPasswordRequired : Bool) :
    Tidy (s.recoverCredential onPasswordRequired) := by
  refine { h with waiting := fun _ => hempty, resuming := fun hne => absurd hresumed hne,
                  firstWaiting := ?_ }
  intro waiters hwaiters opr hmem
  cases hwaiters
  rcases List.mem_append.mp hmem with hold | hnew
  · cases hrecovery : s.credentialRecovery with
    | none =>
      rw [hrecovery] at hold
      exact List.not_mem_nil hold
    | some old =>
      rw [hrecovery] at hold
      exact h.firstWaiting old hrecovery opr hold
  · rw [List.mem_singleton] at hnew
    cases hnew

/-- A forget leaves the page tidy once those resumed have run. -/
theorem forget (hresumed : s.resumed = []) (c : Option String) :
    Tidy { s with storage := s.storage.forgetCredential c } := by
  refine { h with waiting := ?_, entered := ?_ }
  · intro hopen
    exact readCredential_forget fun htruthy => by
      rw [h.waiting hopen] at htruthy
      cases htruthy
  · intro next hmem
    have hmem : next ∈ s.resumed := hmem
    rw [hresumed] at hmem
    exact absurd hmem List.not_mem_nil

/-- The request of a response or a failure is no longer in flight. -/
theorem eraseInFlight (i : ℕ) : Tidy { s with inFlight := s.inFlight.eraseIdx i } :=
  { h with retries := fun request hmem => h.retries request (List.mem_of_mem_eraseIdx hmem) }

/-- The answer is stored before those who wait for it are resumed. -/
theorem answer {waiters : List Waiter} (hwaiters : s.credentialRecovery = some waiters)
    (entered : Option String) :
    Tidy { s with
      storage := if truthy entered then s.storage.rememberCredential (entered.getD "") else s.storage
      credentialRecovery := none
      resumed := waiters.map fun waiter => (waiter, entered) } := by
  refine { h with waiting := fun hopen => absurd rfl hopen, resuming := fun _ => rfl, entered := ?_,
                  firstWaiting := fun _ hnone => (by cases hnone), firstResumed := ?_ }
  · intro next hmem hentered
    obtain ⟨waiter, -, hnext⟩ := List.mem_map.mp hmem
    subst hnext
    have hentered : truthy entered = true := hentered
    show truthy (if truthy entered = true then _ else s.storage).readCredential = true
    rw [if_pos hentered]
    exact readCredential_remember hentered
  · intro next hmem onPasswordRequired hstarting
    obtain ⟨waiter, hwaiter, hnext⟩ := List.mem_map.mp hmem
    subst hnext
    have hstarting : waiter = .starting true onPasswordRequired := hstarting
    subst hstarting
    exact h.firstWaiting waiters hwaiters onPasswordRequired hwaiter

theorem handle (hresumed : s.resumed = []) (request : ApiRequest) (status : ℕ) :
    Tidy (s.handle request status) := by
  rcases s.handle_cases request status with hsame | ⟨-, -, hforget⟩ | ⟨hstored, hcall⟩ | ⟨-, hown, hopen⟩
  · rw [hsame]
    exact h
  · rw [hforget]
    exact h.forget hresumed request.credential
  · rw [hcall]
    exact h.call fun _ => hstored
  · rw [hopen]
    exact (h.forget hresumed request.credential).recoverCredential hresumed
      (readCredential_forget hown) request.onPasswordRequired

theorem resume {i : ℕ} {next : Waiter × Option String} (hnext : s.resumed[i]? = some next) :
    Tidy ({ s with resumed := s.resumed.eraseIdx i }.resume next.2 next.1) := by
  have hmem : next ∈ s.resumed := List.mem_of_getElem? hnext
  have hrest : Tidy { s with resumed := s.resumed.eraseIdx i } :=
    { h with
      resuming := fun hne => h.resuming (by
        intro hnil
        rw [hnil] at hmem
        exact List.not_mem_nil hmem)
      entered := fun other hother => h.entered other (List.mem_of_mem_eraseIdx hother)
      firstResumed := fun other hother => h.firstResumed other (List.mem_of_mem_eraseIdx hother) }
  obtain ⟨waiter, entered⟩ := next
  cases waiter with
  | starting retrying onPasswordRequired =>
    refine hrest.send fun hretrying => ?_
    subst hretrying
    exact absurd rfl (h.firstResumed _ hmem onPasswordRequired)
  | recovering onPasswordRequired =>
    unfold ClientPage.resume
    by_cases hentered : truthy entered = true
    · show Tidy (if truthy entered = true then _ else _)
      rw [if_pos hentered]
      exact hrest.call fun _ => h.entered _ hmem hentered
    · show Tidy (if truthy entered = true then _ else _)
      rw [if_neg hentered]
      exact hrest

end

/-- Every event leaves a tidy page tidy. -/
theorem step {s s' : ClientPage} {e : ClientEvent} (h : Tidy s) (hstep : s.step e = some s') :
    Tidy s' := by
  cases e with
  | request onPasswordRequired =>
    cases hstep
    exact h.call fun hretrying => (by cases hretrying)
  | resume i =>
    obtain ⟨next, hnext, hs'⟩ := step_resume.mp hstep
    subst hs'
    exact h.resume hnext
  | respond i status =>
    obtain ⟨hresumed, request, -, hs'⟩ := step_respond.mp hstep
    subst hs'
    exact (h.eraseInFlight i).handle hresumed request status
  | fail i =>
    obtain ⟨-, hs'⟩ := step_fail.mp hstep
    subst hs'
    exact h.eraseInFlight i
  | answer entered =>
    obtain ⟨-, waiters, hwaiters, hs'⟩ := step_answer.mp hstep
    subst hs'
    exact h.answer hwaiters entered
  | reject =>
    obtain ⟨hresumed, waiters, -, hs'⟩ := step_reject.mp hstep
    subst hs'
    exact { h with
            waiting := fun hopen => absurd rfl hopen
            resuming := fun _ => rfl
            firstWaiting := fun _ hnone => (by cases hnone) }
  | forgetSaved =>
    obtain ⟨hresumed, hs'⟩ := step_forgetSaved.mp hstep
    subst hs'
    exact h.forget hresumed none
  | reload =>
    cases hstep
    exact of_loaded s.storage

end Tidy

theorem tidy_of_reaches {storage : CredentialStorage} {s : ClientPage}
    (h : Reaches step (fun _ _ => True) (loaded storage) s) : Tidy s :=
  h.invariant (Tidy.of_loaded storage) fun _ _ _ _ htidy hstep => htidy.step hstep

/-! ### What an event does to the storage -/

@[simp] theorem storage_send (s : ClientPage) (retrying onPasswordRequired : Bool) :
    (s.send retrying onPasswordRequired).storage = s.storage := rfl

@[simp] theorem storage_call (s : ClientPage) (retrying onPasswordRequired : Bool) :
    (s.call retrying onPasswordRequired).storage = s.storage := by
  unfold call
  cases s.credentialRecovery with
  | none => rfl
  | some waiters => rfl

@[simp] theorem storage_resume (s : ClientPage) (entered : Option String) (waiter : Waiter) :
    (s.resume entered waiter).storage = s.storage := by
  unfold resume
  cases waiter with
  | starting retrying onPasswordRequired => rfl
  | recovering onPasswordRequired =>
    show (if truthy entered = true then s.call true onPasswordRequired else s).storage = s.storage
    split
    · exact storage_call s true onPasswordRequired
    · rfl

/-- The storage is as it was; or a 401 forgets the credential of its request, which is the stored one if
one is stored and the request carried none; or an answer is stored where nothing was; or everything is
forgotten by hand. -/
theorem Tidy.storage_cases {s s' : ClientPage} {e : ClientEvent} (h : Tidy s)
    (hstep : s.step e = some s') :
    s'.storage = s.storage ∨
      (∃ i request, e = .respond i 401 ∧ s.inFlight[i]? = some request ∧
        (truthy request.credential = false → truthy s.storage.readCredential = false) ∧
        s'.storage = s.storage.forgetCredential request.credential) ∨
      (∃ entered, e = .answer (some entered) ∧ truthy s.storage.readCredential = false ∧
        s'.storage = s.storage.rememberCredential entered) ∨
      (e = .forgetSaved ∧ s'.storage = s.storage.forgetCredential none) := by
  cases e with
  | request onPasswordRequired =>
    cases hstep
    exact Or.inl (storage_call s false onPasswordRequired)
  | resume i =>
    obtain ⟨next, -, hs'⟩ := step_resume.mp hstep
    subst hs'
    exact Or.inl (storage_resume _ next.2 next.1)
  | respond i status =>
    obtain ⟨-, request, hrequest, hs'⟩ := step_respond.mp hstep
    subst hs'
    rcases handle_cases { s with inFlight := s.inFlight.eraseIdx i } request status with
      hsame | ⟨rfl, hretrying, hforget⟩ | ⟨-, hcall⟩ | ⟨rfl, hown, hopen⟩
    · exact Or.inl (by rw [hsame])
    · refine Or.inr (Or.inl ⟨i, request, rfl, hrequest, fun hbare => ?_, by rw [hforget]⟩)
      have hcarried := h.retries request (List.mem_of_getElem? hrequest) hretrying
      rw [hbare] at hcarried
      cases hcarried
    · exact Or.inl (by rw [hcall, storage_call])
    · refine Or.inr (Or.inl ⟨i, request, rfl, hrequest, fun hbare => ?_, by rw [hopen]; rfl⟩)
      rw [Bool.eq_false_iff]
      intro hstored
      have hsame : s.storage.readCredential = request.credential := hown hstored
      rw [hsame, hbare] at hstored
      cases hstored
  | fail i =>
    obtain ⟨-, hs'⟩ := step_fail.mp hstep
    subst hs'
    exact Or.inl rfl
  | answer entered =>
    obtain ⟨-, waiters, hwaiters, hs'⟩ := step_answer.mp hstep
    subst hs'
    cases entered with
    | none => exact Or.inl rfl
    | some entered =>
      by_cases hentered : truthy (some entered) = true
      · refine Or.inr (Or.inr (Or.inl ⟨entered, rfl, h.waiting ?_, if_pos hentered⟩))
        rw [hwaiters]
        exact Option.some_ne_none waiters
      · exact Or.inl (if_neg hentered)
  | reject =>
    obtain ⟨-, waiters, -, hs'⟩ := step_reject.mp hstep
    subst hs'
    exact Or.inl rfl
  | forgetSaved =>
    obtain ⟨-, hs'⟩ := step_forgetSaved.mp hstep
    subst hs'
    exact Or.inr (Or.inr (Or.inr ⟨rfl, rfl⟩))
  | reload =>
    cases hstep
    exact Or.inl rfl

theorem single_of_reaches {storage : CredentialStorage} {s : ClientPage} (hsingle : storage.Single)
    (h : Reaches step (fun _ _ => True) (loaded storage) s) : s.storage.Single := by
  have hboth : Tidy s ∧ s.storage.Single := by
    have hstart : Tidy (loaded storage) ∧ (loaded storage).storage.Single :=
      ⟨Tidy.of_loaded storage, hsingle⟩
    refine @Reaches.invariant _ _ _ _ (fun s => Tidy s ∧ s.storage.Single) _ _ hstart ?_ h
    intro s e s' _ hs hstep
    refine ⟨hs.1.step hstep, ?_⟩
    rcases hs.1.storage_cases hstep with hsame | ⟨i, request, -, -, -, hforget⟩ |
      ⟨entered, -, hempty, hremember⟩ | ⟨-, hforget⟩
    · rw [hsame]
      exact hs.2
    · rw [hforget]
      exact single_forget hs.2
    · rw [hremember]
      exact single_remember hempty
    · rw [hforget]
      exact single_forget hs.2
  exact hboth.2

/-! ### What removes a credential -/

/-- The button removes any credential, and a 401 the one its request was sent with. -/
def RemovedBy (s : ClientPage) (stored : String) : ClientEvent → Prop
  | .forgetSaved => True
  | .respond i status =>
    status = 401 ∧ ∃ request, s.inFlight[i]? = some request ∧ request.credential = some stored
  | _ => False

/-- The storage is as it was where a readable credential is removed by neither. -/
theorem Tidy.storage_kept {s s' : ClientPage} {e : ClientEvent} {stored : String} (h : Tidy s)
    (hstep : s.step e = some s') (htext : stored ≠ "")
    (hread : s.storage.readCredential = some stored) (hother : ¬ s.RemovedBy stored e) :
    s'.storage = s.storage := by
  have hstored : truthy s.storage.readCredential = true := by
    rw [hread]
    simpa [truthy] using htext
  rcases h.storage_cases hstep with hsame | ⟨i, request, rfl, hrequest, hbare, hforget⟩ |
    ⟨entered, -, hempty, -⟩ | ⟨rfl, -⟩
  · exact hsame
  · rw [hforget]
    rcases @forgetCredential_cases s.storage request.credential with ⟨hkept, -, -⟩ | ⟨-, hown⟩
    · exact hkept
    · cases hcarried : truthy request.credential with
      | false =>
        rw [hbare hcarried] at hstored
        cases hstored
      | true =>
        have hsent : request.credential = some stored := (hown hcarried).symm.trans hread
        exact absurd ⟨rfl, request, hrequest, hsent⟩ hother
  · rw [hempty] at hstored
    cases hstored
  · exact absurd trivial hother

/-- **A 401 removes its own credential only.**  In every run of the page, whatever happens next: the stored
credential stays stored unless its button removes it or a 401 comes for a request that was sent with it.
Where the storage started with one credential at most, so does every credential at either key. -/
theorem handling_keeps_other_credential {storage : CredentialStorage} {s s' : ClientPage}
    {e : ClientEvent} {stored : String}
    (h : Reaches step (fun _ _ => True) (loaded storage) s) (hstep : s.step e = some s')
    (htext : stored ≠ "") (hother : ¬ s.RemovedBy stored e) :
    (s.storage.readCredential = some stored → s'.storage.readCredential = some stored) ∧
      (storage.Single → s.storage.Holds stored → s'.storage.Holds stored) := by
  have htidy := tidy_of_reaches h
  refine ⟨fun hread => ?_, fun hsingle hholds => ?_⟩
  · rw [htidy.storage_kept hstep htext hread hother]
    exact hread
  · have hread := readCredential_of_holds (single_of_reaches hsingle h) htext hholds
    rw [htidy.storage_kept hstep htext hread hother]
    exact hholds

/-- Two calls start with nothing stored; the first gets its 401, and "new" is entered and retried with
before the second gets its own. -/
def lateRefusal : List ClientEvent :=
  [.request true, .request true, .respond 0 401, .answer (some "new"), .resume 0]

theorem late_refusal_keeps_new :
    ∃ s s', runAll step (loaded ⟨none, none⟩) lateRefusal = some s ∧
      s.step (.respond 0 401) = some s' ∧ s'.storage.readCredential = some "new" := by
  have hrun : ∃ s s', runAll step (loaded ⟨none, none⟩) lateRefusal = some s ∧
      s.step (.respond 0 401) = some s' ∧ s.storage.readCredential = some "new" ∧
      s.inFlight[0]? = some ⟨none, false, true⟩ :=
    ⟨_, _, rfl, rfl, rfl, rfl⟩
  obtain ⟨s, s', hrun, hstep, hread, hrequest⟩ := hrun
  have hother : ¬ s.RemovedBy "new" (.respond 0 401) := by
    intro hremoved
    obtain ⟨-, request, hmem, hsent⟩ := hremoved
    rw [hrequest] at hmem
    cases hmem
    cases hsent
  have hreaches := Reaches.of_runAll (@Reaches.start _ _ step (fun _ _ => True) _)
    (fun _ _ _ => trivial) hrun
  exact ⟨s, s', hrun, hstep,
    (handling_keeps_other_credential hreaches hstep (by decide) hother).1 hread⟩

end ClientPage

end Portalis
