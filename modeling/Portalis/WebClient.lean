import Portalis.AuthStore

/-!
# Passwords in headers

A password is set as a JSON text and used as two header values, which the web client builds, the browser
normalizes and encodes, and the middleware reads back as ASCII.

* `delivered_eq_some`, `toStr_of_delivered`: which texts arrive, and as what.
* `let_through_iff`: exactly which passwords let their own requests through.
-/

namespace Portalis

open Text Http

/-! ### The web client -/

/-- The blanks that header values are trimmed of. -/
def isHttpBlank (c : Char) : Bool := c = ' ' || c = '\t' || c = '\n' || c = '\r'

def normalize (value : List Char) : List Char :=
  (value.dropWhile isHttpBlank).rdropWhile isHttpBlank

/-- The characters of a header value in the browser. -/
def isHeaderChar (c : Char) : Bool := c.toNat ≤ 255 && c ≠ '\x00' && c ≠ '\n' && c ≠ '\r'

def octetOf (c : Char) : UInt8 := UInt8.ofNat c.toNat

/-- The octets of a header value, unless the browser throws. -/
def headerOctets (value : List Char) : Option (List UInt8) :=
  if (normalize value).all isHeaderChar then some ((normalize value).map octetOf) else none

abbrev SentHeaders := List (String × List UInt8)

/-- `Headers.set`. -/
def setHeader (headers : SentHeaders) (name : String) (value : List Char) : Option SentHeaders :=
  (headerOctets value).map fun octets => headers.filter (·.1 ≠ name) ++ [(name, octets)]

/-- `authHeaders`: nothing for no credential or an empty one. -/
def authHeaders (credential : Option (List Char)) : List (String × List Char) :=
  match credential with
  | none => []
  | some [] => []
  | some credential =>
    [("authorization", "Bearer ".toList ++ credential), ("x-portalis-password", credential)]

def buildRequestHeaders (credential : Option (List Char)) (init : SentHeaders) :
    Option SentHeaders :=
  (setHeader init "content-type" "application/json".toList).bind fun headers =>
    (authHeaders credential).foldlM (fun headers h => setHeader headers h.1 h.2) headers

/-- What the server makes of the octets. -/
def receive (headers : SentHeaders) : Option (List (String × HeaderValue)) :=
  headers.mapM fun h => (HeaderValue.ofOctets? h.2).map fun v => (h.1, v)

/-- The request of the web client with this password, as the middleware gets it; the browser adds more
headers of its own. -/
def clientRequest (method : Method) (path : List Char) (peer : IpAddr)
    (more : List (String × HeaderValue)) (password : List Char) : Option (Request IpAddr) :=
  (buildRequestHeaders (some password) []).bind fun sent =>
    (receive sent).map fun headers => ⟨method, path, headers ++ more, some peer⟩

/-! ### What arrives -/

/-- The value that arrives at the server. -/
def delivered (value : List Char) : Option HeaderValue :=
  (headerOctets value).bind HeaderValue.ofOctets?

/-- The characters that a header value carries to the server. -/
def Carried (c : Char) : Prop := c.toNat ≤ 255 ∧ isValueOctet (octetOf c) = true

/-- Printable ASCII, and the tab. -/
def Printable (c : Char) : Prop := (32 ≤ c.toNat ∧ c.toNat < 127) ∨ c = '\t'

theorem toNat_octetOf {c : Char} (h : c.toNat ≤ 255) : (octetOf c).toNat = c.toNat := by
  rw [octetOf, UInt8.toNat_ofNat']
  omega

theorem charOf_octetOf {c : Char} (h : c.toNat ≤ 255) : charOf (octetOf c) = c := by
  rw [charOf, toNat_octetOf h, Char.ofNat_toNat]

theorem isVisible_octetOf {c : Char} (h : c.toNat ≤ 255) :
    isVisible (octetOf c) = true ↔ Printable c := by
  have hoctet := toNat_octetOf h
  have htab : octetOf c = 9 ↔ c = '\t' := by
    rw [← UInt8.toNat_inj, hoctet, ← Char.toNat_inj]
    rfl
  simp only [isVisible, Printable, Bool.or_eq_true, Bool.and_eq_true, decide_eq_true_eq,
    UInt8.le_iff_toNat_le, UInt8.lt_iff_toNat_lt, hoctet, htab]
  rfl

theorem isHeaderChar_of_carried {c : Char} (h : Carried c) : isHeaderChar c = true := by
  obtain ⟨hle, hvalue⟩ := h
  have hne : ∀ d : Char, isValueOctet (octetOf d) = false → c ≠ d := by
    rintro d hd rfl
    rw [hvalue] at hd
    cases hd
  simp [isHeaderChar, hle, hne '\x00' (by decide), hne '\n' (by decide), hne '\r' (by decide)]

/-- **Which texts arrive.** -/
theorem delivered_eq_some {value : List Char} {v : HeaderValue} :
    delivered value = some v ↔
      (∀ c ∈ normalize value, Carried c) ∧ v.octets = (normalize value).map octetOf := by
  unfold delivered headerOctets
  by_cases hall : (normalize value).all isHeaderChar = true
  · rw [if_pos hall, Option.bind_some, HeaderValue.ofOctets?_eq_some]
    refine and_congr_left fun _ => ?_
    have hle : ∀ c ∈ normalize value, c.toNat ≤ 255 := by
      intro c hc
      have hchar := List.all_eq_true.mp hall c hc
      simp only [isHeaderChar, Bool.and_eq_true, decide_eq_true_eq] at hchar
      exact hchar.1.1.1
    simp only [List.forall_mem_map]
    exact forall₂_congr fun c hc => (and_iff_right (hle c hc)).symm
  · rw [if_neg hall]
    refine iff_of_false nofun fun h => hall (List.all_eq_true.mpr fun c hc => ?_)
    exact isHeaderChar_of_carried (h.1 c hc)

/-- **What a text arrives as.** -/
theorem toStr_of_delivered {value : List Char} {v : HeaderValue} (h : delivered value = some v)
    {s : List Char} :
    v.toStr = some s ↔ (∀ c ∈ normalize value, Printable c) ∧ s = normalize value := by
  obtain ⟨hcarried, hoctets⟩ := delivered_eq_some.mp h
  have htext : (normalize value).map (charOf ∘ octetOf) = normalize value :=
    (List.map_congr_left fun c hc => charOf_octetOf (hcarried c hc).1).trans (List.map_id _)
  rw [HeaderValue.toStr_eq_some, hoctets, List.map_map, htext, List.forall_mem_map]
  refine and_congr (forall₂_congr fun c hc => isVisible_octetOf (hcarried c hc).1) ?_
  exact eq_comm

/-! ### The request of a password -/

section

variable {method : Method} {path : List Char} {peer : IpAddr}
  {more : List (String × HeaderValue)} {password : List Char} {request : Request IpAddr}

/-- The headers of a password that is not empty. -/
theorem buildRequestHeaders_of_ne (hne : password ≠ []) :
    buildRequestHeaders (some password) [] =
      (headerOctets "application/json".toList).bind fun content =>
        (headerOctets ("Bearer ".toList ++ password)).bind fun authorization =>
          (headerOctets password).map fun credential =>
            [("content-type", content), ("authorization", authorization),
              ("x-portalis-password", credential)] := by
  obtain ⟨c, cs, rfl⟩ := List.exists_cons_of_ne_nil hne
  unfold buildRequestHeaders
  simp only [authHeaders, setHeader, List.foldlM_cons, List.foldlM_nil]
  cases headerOctets "application/json".toList with
  | none => rfl
  | some content =>
    cases headerOctets ("Bearer ".toList ++ c :: cs) with
    | none => rfl
    | some authorization =>
      cases headerOctets (c :: cs) with
      | none => rfl
      | some credential => rfl

theorem clientRequest_eq_some (hne : password ≠ []) :
    clientRequest method path peer more password = some request ↔
      ∃ content authorization credential, delivered "application/json".toList = some content ∧
        delivered ("Bearer ".toList ++ password) = some authorization ∧
        delivered password = some credential ∧
        request = ⟨method, path, [("content-type", content), ("authorization", authorization),
          ("x-portalis-password", credential)] ++ more, some peer⟩ := by
  rw [clientRequest, buildRequestHeaders_of_ne hne]
  unfold delivered receive
  simp only [Option.bind_eq_some_iff, Option.map_eq_some_iff]
  constructor
  · rintro ⟨sent, ⟨o1, ho1, o2, ho2, o3, ho3, rfl⟩, headers, h5, rfl⟩
    simp only [List.mapM_cons, List.mapM_nil, Option.bind_eq_bind, Option.pure_def,
      Option.bind_eq_some_iff, Option.map_eq_some_iff, Option.some.injEq] at h5
    obtain ⟨-, ⟨content, hv1, rfl⟩, -, ⟨-, ⟨authorization, hv2, rfl⟩, -,
      ⟨-, ⟨credential, hv3, rfl⟩, -, rfl, rfl⟩, rfl⟩, rfl⟩ := h5
    exact ⟨content, authorization, credential, ⟨o1, ho1, hv1⟩, ⟨o2, ho2, hv2⟩, ⟨o3, ho3, hv3⟩, rfl⟩
  · rintro ⟨content, authorization, credential, ⟨o1, ho1, hv1⟩, ⟨o2, ho2, hv2⟩, ⟨o3, ho3, hv3⟩, rfl⟩
    refine ⟨_, ⟨o1, ho1, o2, ho2, o3, ho3, rfl⟩, _, ?_, rfl⟩
    simp [List.mapM_cons, hv1, hv2, hv3]

/-- The `Authorization` header, up to its trailing blanks. -/
theorem normalize_bearer (password : List Char) :
    normalize ("Bearer ".toList ++ password) =
      if password.rdropWhile isHttpBlank = [] then "Bearer".toList
      else "Bearer ".toList ++ password.rdropWhile isHttpBlank := by
  have hfront : ("Bearer ".toList ++ password).dropWhile isHttpBlank = "Bearer ".toList ++ password :=
    rfl
  rw [normalize, hfront, rdropWhile_append]
  rfl

/-- A text that starts with no blank. -/
theorem normalize_of_head {s : List Char} (h : ∀ c ∈ s.head?, isHttpBlank c = false) :
    normalize s = s.rdropWhile isHttpBlank := by
  cases s with
  | nil => rfl
  | cons c cs => rw [normalize, List.dropWhile_cons_of_neg (by simp [h c rfl])]

theorem isWhitespace_of_isHttpBlank {c : Char} (h : isHttpBlank c = true) : isWhitespace c = true := by
  simp only [isHttpBlank, Bool.or_eq_true, decide_eq_true_eq, or_assoc] at h
  rcases h with rfl | rfl | rfl | rfl <;> decide

/-- The setup token starts with no blank, so there is none before it. -/
theorem normalize_of_verifyToken {secret : Option (List Char)}
    (h : verifyToken secret (password.rdropWhile isHttpBlank) = true) :
    normalize password = password.rdropWhile isHttpBlank := by
  cases hkept : password.rdropWhile isHttpBlank with
  | nil =>
    have hblank := List.rdropWhile_eq_nil_iff.mp hkept
    rw [normalize, List.dropWhile_eq_nil_iff.mpr hblank]
    rfl
  | cons c rest =>
    rw [← hkept]
    refine normalize_of_head fun d hd => ?_
    -- the first character of the password is that of the token
    obtain ⟨blanks, hpassword⟩ := @List.rdropWhile_prefix _ isHttpBlank password
    rw [← hpassword, hkept] at hd
    cases hd
    unfold verifyToken at h
    cases hsecret : secret with
    | none =>
      rw [hsecret] at h
      cases h
    | some value =>
      rw [hsecret, hkept] at h
      have htrim : trim value = c :: rest := by simpa using h
      have hsolid : isWhitespace c = false := head_trim (by rw [htrim]; rfl)
      exact Bool.eq_false_iff.mpr fun hblank => by
        rw [isWhitespace_of_isHttpBlank hblank] at hsolid
        cases hsolid

/-- **Which credentials verify**: the one without its blanks, when it is printable. -/
theorem client_authenticated_iff {H : Type} {argon2 : Argon2 H}
    {decode : List Char → Option (List UInt8)} {access : Access} (hne : password ≠ [])
    (hrequest : clientRequest method path peer more password = some request) :
    authenticated argon2 decode access request = true ↔
      (∀ c ∈ normalize password, Printable c) ∧
        access.auth.verifyCredential argon2 access.secret (normalize password) = true := by
  obtain ⟨content, authorization, credential, -, hbearer, hplain, rfl⟩ :=
    (clientRequest_eq_some hne).mp hrequest
  have hauthorization : Request.text (⟨method, path, [("content-type", content),
      ("authorization", authorization), ("x-portalis-password", credential)] ++ more, some peer⟩ :
        Request IpAddr) "authorization" = authorization.toStr := rfl
  have hcredential : Request.text (⟨method, path, [("content-type", content),
      ("authorization", authorization), ("x-portalis-password", credential)] ++ more, some peer⟩ :
        Request IpAddr) "x-portalis-password" = credential.toStr := rfl
  have hvalue : ∀ value, authorization.toStr = some value → value = "Bearer".toList ∨
      value = "Bearer ".toList ++ password.rdropWhile isHttpBlank := by
    intro value hvalue
    rw [((toStr_of_delivered hbearer).mp hvalue).2, normalize_bearer]
    split
    · exact Or.inl rfl
    · exact Or.inr rfl
  simp only [authenticated, Bool.or_eq_true, Option.any_eq_true, or_assoc, bearer, basicPassword,
    hauthorization, hcredential, Option.bind_eq_some_iff]
  constructor
  · rintro (⟨token, ⟨value, htext, htoken⟩, hverify⟩ | ⟨value, htext, hverify⟩ |
      ⟨basic, ⟨value, htext, encoded, hencoded, -⟩, -⟩)
    · rcases hvalue value htext with rfl | rfl
      · cases htoken
      · cases htoken
        have htoken : verifyToken access.secret (password.rdropWhile isHttpBlank) = true := hverify
        have hnormal := normalize_of_verifyToken htoken
        obtain ⟨hprintable, hsent⟩ := (toStr_of_delivered hbearer).mp htext
        rw [← hsent] at hprintable
        rw [hnormal]
        refine ⟨fun c hc => hprintable c (List.mem_append_right _ hc), ?_⟩
        rw [AuthState.verifyCredential, htoken, Bool.true_or]
    · obtain ⟨hprintable, rfl⟩ := (toStr_of_delivered hplain).mp htext
      exact ⟨hprintable, hverify⟩
    · rcases hvalue value htext with rfl | rfl
      · cases hencoded
      · cases hencoded
  · rintro ⟨hprintable, hverify⟩
    exact Or.inr (Or.inl ⟨_, (toStr_of_delivered hplain).mpr ⟨hprintable, rfl⟩, hverify⟩)

/-! ### Setting a password and using it -/

/-- The browser sends the headers and the server takes them: up to its trailing blanks, the password has
only characters that a header value carries. -/
def Sendable (password : List Char) : Prop := ∀ c ∈ password.rdropWhile isHttpBlank, Carried c

theorem exists_delivered {value : List Char} :
    (∃ v, delivered value = some v) ↔ ∀ c ∈ normalize value, Carried c := by
  constructor
  · rintro ⟨v, hv⟩
    exact (delivered_eq_some.mp hv).1
  · intro h
    have hvalid : ∀ b ∈ (normalize value).map octetOf, isValueOctet b = true :=
      List.forall_mem_map.mpr fun c hc => (h c hc).2
    exact ⟨⟨_, hvalid⟩, delivered_eq_some.mpr ⟨h, rfl⟩⟩

/-- Nothing but blanks before what is kept. -/
theorem normalize_subset (password : List Char) :
    normalize password ⊆ password.rdropWhile isHttpBlank := by
  have hsplit := rdropWhile_append isHttpBlank (password.takeWhile isHttpBlank)
    (password.dropWhile isHttpBlank)
  rw [List.takeWhile_append_dropWhile] at hsplit
  rw [normalize]
  by_cases hnil : (password.dropWhile isHttpBlank).rdropWhile isHttpBlank = []
  · rw [hnil]
    exact List.nil_subset _
  · rw [hsplit, if_neg hnil]
    exact List.subset_append_right _ _

theorem carried_all {s : List Char}
    (h : (s.all fun c => c.toNat ≤ 255 && isValueOctet (octetOf c)) = true) :
    ∀ c ∈ s, Carried c := by
  intro c hc
  have hboth := List.all_eq_true.mp h c hc
  rw [Bool.and_eq_true, decide_eq_true_eq] at hboth
  exact hboth

theorem printable_all {s : List Char} (h : (s.all fun c => 32 ≤ c.toNat && c.toNat < 127) = true) :
    ∀ c ∈ s, Printable c := by
  intro c hc
  have hboth := List.all_eq_true.mp h c hc
  rw [Bool.and_eq_true, decide_eq_true_eq, decide_eq_true_eq] at hboth
  exact Or.inl hboth

theorem exists_clientRequest (hne : password ≠ []) :
    (∃ request, clientRequest method path peer more password = some request) ↔
      Sendable password := by
  have hbearer : (∀ c ∈ normalize ("Bearer ".toList ++ password), Carried c) ↔ Sendable password := by
    rw [normalize_bearer, Sendable]
    split
    · rename_i hnil
      rw [hnil]
      exact iff_of_true (carried_all (by decide)) nofun
    · rw [List.forall_mem_append]
      exact and_iff_right (carried_all (by decide))
  constructor
  · rintro ⟨request, hrequest⟩
    obtain ⟨content, authorization, credential, -, hsent, -⟩ := (clientRequest_eq_some hne).mp hrequest
    exact hbearer.mp (delivered_eq_some.mp hsent).1
  · intro h
    obtain ⟨authorization, hauthorization⟩ := exists_delivered.mpr (hbearer.mpr h)
    obtain ⟨credential, hcredential⟩ :=
      (@exists_delivered password).mpr fun c hc => h c (normalize_subset password hc)
    obtain ⟨content, hcontent⟩ := (@exists_delivered "application/json".toList).mpr
      (carried_all (by decide))
    exact ⟨_, (clientRequest_eq_some hne).mpr ⟨content, authorization, credential, hcontent,
      hauthorization, hcredential, rfl⟩⟩

/-- What is relied on of Argon2: a hash accepts exactly its password, and its text has no blank at either
end. -/
structure Argon2.Exact {H : Type} (argon2 : Argon2 H) : Prop where
  accepts : ∀ {password salt text}, argon2.hash password salt = some text →
    ∃ parsed, argon2.parse text = some parsed ∧
      ∀ candidate, argon2.verify candidate parsed = true ↔ candidate = password
  trimmed : ∀ {password salt text}, argon2.hash password salt = some text → trim text = text

/-- The state in memory is the one `set_password` left, or what a later load read back. -/
def Keeps (auth auth' : AuthState) (dir : AuthDir) : Prop :=
  auth = auth' ∨ ∃ generated faults after, faults.readHash = false ∧
    AuthState.loadOrInitialize dir generated faults = (.ok auth, after)

/-- A request of the web client with the password gets through. -/
def LetThrough {H : Type} (argon2 : Argon2 H) (decode : List Char → Option (List UInt8))
    (access : Access) (method : Method) (path : List Char) (peer : IpAddr)
    (more : List (String × HeaderValue)) (password : List Char) : Prop :=
  ∃ request, clientRequest method path peer more password = some request ∧
    authenticate argon2 decode access request = .ok ()

section

variable {H : Type} {argon2 : Argon2 H} {decode : List Char → Option (List UInt8)} {access : Access}
  {auth auth' : AuthState} {dir dir' : AuthDir} {salt : List UInt8} {faults : AuthFaults}

/-- A password that was set verifies, and no other one. -/
theorem verifyPassword_iff (hexact : argon2.Exact)
    (hset : Api.setPassword argon2 auth dir password salt faults = (.ok (), auth', dir'))
    (hkeeps : Keeps access.auth auth' dir') (candidate : List Char) :
    access.auth.hasPassword = true ∧
      (access.auth.verifyPassword argon2 candidate = true ↔ candidate = password) := by
  obtain ⟨-, salt', text, hhash, rfl, hfile⟩ := Api.setPassword_ok hset
  have hauth : access.auth = ⟨some text⟩ := by
    rcases hkeeps with hsame | ⟨generated, faults', after, hread, hload⟩
    · exact hsame
    · rcases (AuthState.loadOrInitialize_cases dir' generated faults').2 with ⟨error, herror⟩ | hok
      · rw [hload] at herror
        cases herror
      · rw [hload, hread, hfile, Option.map_some, hexact.trimmed hhash] at hok
        exact Except.ok.inj hok
  obtain ⟨parsed, hparsed, haccepts⟩ := hexact.accepts hhash
  rw [hauth]
  refine ⟨rfl, ?_⟩
  rw [AuthState.verifyPassword]
  simp only [hparsed]
  exact haccepts candidate

/-- **Which passwords let their own requests through.** -/
theorem let_through_iff (hexact : argon2.Exact)
    (hset : Api.setPassword argon2 auth dir password salt faults = (.ok (), auth', dir'))
    (hkeeps : Keeps access.auth auth' dir') :
    LetThrough argon2 decode access method path peer more password ↔
      Sendable password ∧ crossOrigin ⟨method, path, more, some peer⟩ = false ∧
        (isAsset ⟨method, path, more, some peer⟩ = true ∨ access.allowUnauthenticated = true ∨
          ((∀ c ∈ normalize password, Printable c) ∧ (normalize password = password ∨
            verifyToken access.secret (normalize password) = true))) := by
  have hne : password ≠ [] := by
    rintro rfl
    cases (Api.setPassword_ok hset).1
  have hpasses : ∀ request, clientRequest method path peer more password = some request →
      (authenticate argon2 decode access request = .ok () ↔
        crossOrigin ⟨method, path, more, some peer⟩ = false ∧
          (isAsset ⟨method, path, more, some peer⟩ = true ∨ access.allowUnauthenticated = true ∨
            ((∀ c ∈ normalize password, Printable c) ∧ (normalize password = password ∨
              verifyToken access.secret (normalize password) = true)))) := by
    intro request hrequest
    obtain ⟨hpassword, hverify⟩ := verifyPassword_iff hexact hset hkeeps (normalize password)
    have hcredential := @client_authenticated_iff method path peer more password request H argon2 decode
      access hne hrequest
    rw [AuthState.verifyCredential, Bool.or_eq_true, hverify, or_comm] at hcredential
    rw [authenticate_ok_iff, hcredential, hpassword]
    obtain ⟨content, authorization, credential, -, -, -, rfl⟩ := (clientRequest_eq_some hne).mp hrequest
    have hexempt : ∀ host, localAuthExempt (some peer) host true = false := fun _ => rfl
    rw [hexempt]
    simp only [Bool.false_eq_true, false_or]
    rfl
  constructor
  · rintro ⟨request, hrequest, hok⟩
    exact ⟨(exists_clientRequest hne).mp ⟨request, hrequest⟩, (hpasses request hrequest).mp hok⟩
  · rintro ⟨hsendable, hrest⟩
    obtain ⟨request, hrequest⟩ := (@exists_clientRequest method path peer more _ hne).mpr hsendable
    exact ⟨request, hrequest, (hpasses request hrequest).mpr hrest⟩

end

end

/-! ### One password that gets through, and one that does not -/

theorem hexArgon2_exact : AuthSystem.hexArgon2.Exact where
  accepts := by
    intro password salt text h
    cases h
    refine ⟨_, rfl, fun candidate => ?_⟩
    rw [AuthSystem.hexArgon2, decide_eq_true_eq]
    exact ⟨fun heq => (flatMap_hexDigits_inj heq).symm, fun heq => by rw [heq]⟩
  trimmed := by
    intro password salt text h
    cases h
    refine trim_of_solid fun c hc => ?_
    obtain ⟨d, -, hdigits⟩ := List.mem_flatMap.mp hc
    exact hexDigits_solid hdigits

/-- The state after setting a password on the first start. -/
def setUp (password : List Char) : Except ErrorResponse Unit × AuthState × AuthDir :=
  Api.setPassword AuthSystem.hexArgon2 ⟨none⟩ ⟨some "token".toList, none⟩ password [] .none

theorem let_through_ascii :
    LetThrough AuthSystem.hexArgon2 (fun _ => none)
      ⟨false, (setUp "correct horse".toList).2.1, some "token".toList⟩ .get
      "/api/v1/status".toList (.v4 0xC0000201#32) [] "correct horse".toList := by
  have hset : setUp "correct horse".toList = (.ok (), _, _) := rfl
  exact (let_through_iff hexArgon2_exact hset (Or.inl rfl)).mpr ⟨carried_all (by decide), by decide,
    Or.inr (Or.inr ⟨printable_all (by decide), Or.inl (by decide)⟩)⟩

/-- **A password that is not ASCII** locks its owner out. -/
theorem not_let_through_cyrillic :
    ¬ ∀ (password : List Char) (auth : AuthState) (dir : AuthDir),
      setUp password = (.ok (), auth, dir) → ∀ access : Access, access.auth = auth →
        ∀ method path peer, LetThrough AuthSystem.hexArgon2 (fun _ => none) access method path peer []
          password := by
  intro hthrough
  have hset : setUp "пароль-пароль".toList = (.ok (), _, _) := rfl
  obtain ⟨request, hrequest, -⟩ := hthrough _ _ _ hset
    ⟨false, (setUp "пароль-пароль".toList).2.1, none⟩ rfl .get "/api/v1/status".toList
    (.v4 0xC0000201#32)
  have hsendable := (exists_clientRequest (by decide)).mp ⟨request, hrequest⟩
  have hfirst := hsendable 'п' (by decide)
  exact absurd hfirst.1 (by decide)

end Portalis
