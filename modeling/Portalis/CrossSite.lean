import Portalis.Gate

/-!
# Requests that a page of another site sends

Two checks keep them out.  `is_loopback_host` is to accept only names of this host, whatever addresses a
name of an attacker resolves to; and `authenticate` is to refuse a write whose `Origin` is not the `Host` it
is sent to.

* `isLoopbackHost_iff`: what the first check accepts.  `loopback_only_iff`: when what it accepts is a name of
  this host.
* `rejected_iff_crossOrigin`: what the second one refuses.  `foreign_origin_rejected_iff`: when a write with
  an `Origin` that is not its own is refused.
-/

namespace Portalis

open Text Http

/-! ### The names of this host -/

def isLoopbackName (name : List Char) : Bool :=
  eqIgnoreAsciiCase name "localhost".toList || name = "127.0.0.1".toList

/-- A decimal number that is a port. -/
def isPort (text : List Char) : Bool := text ≠ [] && (parseDigits 65536 0 text).isSome

/-- Nothing, or a colon and a port. -/
def PortSuffix (rest : List Char) : Prop := rest = [] ∨ ∃ port, rest = ':' :: port ∧ isPort port = true

/-- The authorities of this host: one of its names, with a port or without; the bare `::1` has none. -/
def NamesLoopback (text : List Char) : Prop :=
  text = "::1".toList ∨ ∃ name rest, text = name ++ rest ∧
    (isLoopbackName name = true ∨ name = "[::1]".toList) ∧ PortSuffix rest

/-- A name of this host in brackets and what follows them, unless it is `[::1]` with a port or without. -/
def StraysAfterBracket (text : List Char) : Prop :=
  ∃ name rest, text = '[' :: (name ++ ']' :: rest) ∧ (isLoopbackName name = true ∨ name = "::1".toList) ∧
    ¬ (name = "::1".toList ∧ PortSuffix rest)

/-- `localhost` or `127.0.0.1`, the only colon, and what is no port. -/
def StraysAfterColon (text : List Char) : Prop :=
  ∃ name port, text = name ++ ':' :: port ∧ isLoopbackName name = true ∧ ':' ∉ port ∧ isPort port = false

theorem notMem_of_isLoopbackName {name : List Char} (h : isLoopbackName name = true) {c : Char}
    (hlower : toAsciiLowercase c = c) (hlocalhost : c ∉ "localhost".toList)
    (haddress : c ∉ "127.0.0.1".toList) : c ∉ name := by
  intro hmem
  rcases Bool.or_eq_true_iff.mp h with hname | hname
  · have hsame : name.map toAsciiLowercase = "localhost".toList.map toAsciiLowercase := of_decide_eq_true hname
    have hmap := List.mem_map_of_mem (f := toAsciiLowercase) hmem
    rw [hlower, hsame] at hmap
    exact hlocalhost hmap
  · rw [of_decide_eq_true hname] at hmem
    exact haddress hmem

theorem colon_notMem {name : List Char} (h : isLoopbackName name = true) : ':' ∉ name :=
  notMem_of_isLoopbackName h (by decide) (by decide) (by decide)

theorem bracket_notMem {name : List Char} (h : isLoopbackName name = true) : '[' ∉ name ∧ ']' ∉ name :=
  ⟨notMem_of_isLoopbackName h (by decide) (by decide) (by decide),
    notMem_of_isLoopbackName h (by decide) (by decide) (by decide)⟩

theorem isLoopbackName_nil : isLoopbackName [] = false := by decide

/-- A text that is accepted as it stands, before or after brackets and ports are taken off. -/
theorem accepts_iff {text : List Char} :
    (eqIgnoreAsciiCase text "localhost".toList || text = "127.0.0.1".toList || text = "::1".toList) = true ↔
      isLoopbackName text = true ∨ text = "::1".toList := by
  rw [isLoopbackName, Bool.or_eq_true, decide_eq_true_eq]

/-- What is between the brackets. -/
theorem accepts_bracketed_iff (value : List Char) :
    (isLoopbackName (((splitOnce ']' value).map (·.1)).getD ('[' :: value)) = true ∨
        ((splitOnce ']' value).map (·.1)).getD ('[' :: value) = "::1".toList) ↔
      ∃ name rest, '[' :: value = '[' :: (name ++ ']' :: rest) ∧
        (isLoopbackName name = true ∨ name = "::1".toList) := by
  cases hclose : splitOnce ']' value with
  | none =>
    refine iff_of_false (fun h => ?_) fun h => ?_
    · rcases h with h | h
      · exact (bracket_notMem h).1 List.mem_cons_self
      · cases h
    · obtain ⟨name, rest, hsplit, -⟩ := h
      cases hsplit
      exact splitOnce_eq_none.mp hclose (List.mem_append_right _ List.mem_cons_self)
  | some pieces =>
    obtain ⟨name, rest⟩ := pieces
    obtain ⟨hvalue, -⟩ := splitOnce_eq_some.mp hclose
    constructor
    · intro h
      exact ⟨name, rest, by rw [hvalue], h⟩
    · intro h
      obtain ⟨name', rest', hsplit, hname'⟩ := h
      have hnot : ']' ∉ name' := by
        rcases hname' with hname' | hname'
        · exact (bracket_notMem hname').2
        · rw [hname']
          decide
      have hsame : splitOnce ']' value = some (name', rest') :=
        splitOnce_eq_some.mpr ⟨(List.cons.inj hsplit).2, hnot⟩
      cases hclose.symm.trans hsame
      exact hname'

theorem count_colon {name port : List Char} (hname : isLoopbackName name = true) (hport : ':' ∉ port) :
    (name ++ ':' :: port).count ':' = 1 := by
  rw [List.count_append, List.count_cons_self, List.count_eq_zero_of_not_mem (colon_notMem hname),
    List.count_eq_zero_of_not_mem hport]

/-- What is before the only colon. -/
theorem accepts_beforeColon_iff {text : List Char} (hone : text.count ':' = 1) :
    (isLoopbackName (((splitOnce ':' text).map (·.1)).getD text) = true ∨
        ((splitOnce ':' text).map (·.1)).getD text = "::1".toList) ↔
      ∃ name port, text = name ++ ':' :: port ∧ isLoopbackName name = true ∧ ':' ∉ port := by
  have hmem : ':' ∈ text := List.count_pos_iff.mp (by omega)
  obtain ⟨name, port, hsplit, hname⟩ := List.eq_append_cons_of_mem hmem
  have hport : ':' ∉ port := by
    rw [hsplit, List.count_append, List.count_cons_self, List.count_eq_zero_of_not_mem hname] at hone
    exact List.count_eq_zero.mp (by omega)
  rw [hsplit, splitOnce_append hname]
  show isLoopbackName name = true ∨ name = "::1".toList ↔ _
  constructor
  · intro h
    rcases h with h | h
    · exact ⟨name, port, rfl, h, hport⟩
    · rw [h] at hname
      exact absurd (by decide) hname
  · intro h
    obtain ⟨name', port', hsame, hname', -⟩ := h
    have hfirst : splitOnce ':' (name ++ ':' :: port) = some (name', port') :=
      splitOnce_eq_some.mpr ⟨hsame, colon_notMem hname'⟩
    rw [splitOnce_append hname] at hfirst
    cases hfirst
    exact Or.inl hname'

/-- **What `is_loopback_host` accepts**: besides the names of this host, one of them in brackets with
anything after them, and one of them before the only colon. -/
theorem isLoopbackHost_iff (host : List Char) :
    isLoopbackHost host = true ↔
      trim host = "::1".toList ∨ isLoopbackName (trim host) = true ∨
        (∃ name rest, trim host = '[' :: (name ++ ']' :: rest) ∧
          (isLoopbackName name = true ∨ name = "::1".toList)) ∨
        ∃ name port, trim host = name ++ ':' :: port ∧ isLoopbackName name = true ∧ ':' ∉ port := by
  unfold isLoopbackHost
  generalize trim host = text
  dsimp only
  rw [accepts_iff]
  split
  · next value =>
    -- no other form starts with a bracket
    rw [accepts_bracketed_iff]
    refine ⟨fun h => Or.inr (Or.inr (Or.inl h)), fun h => ?_⟩
    rcases h with h | h | h | h
    · cases h
    · exact absurd List.mem_cons_self (bracket_notMem h).1
    · exact h
    · obtain ⟨name, port, hsplit, hname, -⟩ := h
      cases name with
      | nil => cases hsplit
      | cons c name =>
        cases hsplit
        exact absurd List.mem_cons_self (bracket_notMem hname).1
  · next hopen =>
    have hbracket : ¬ ∃ name rest, text = '[' :: (name ++ ']' :: rest) ∧
        (isLoopbackName name = true ∨ name = "::1".toList) := by
      intro h
      obtain ⟨name, rest, hsplit, -⟩ := h
      exact hopen _ hsplit
    by_cases hone : text.count ':' = 1
    · rw [if_pos hone, accepts_beforeColon_iff hone]
      refine ⟨fun h => Or.inr (Or.inr (Or.inr h)), fun h => ?_⟩
      rcases h with h | h | h | h
      · rw [h] at hone
        exact absurd hone (by decide)
      · rw [List.count_eq_zero_of_not_mem (colon_notMem h)] at hone
        cases hone
      · exact absurd h hbracket
      · exact h
    · rw [if_neg hone]
      constructor
      · intro h
        rcases h with h | h
        · exact Or.inr (Or.inl h)
        · exact Or.inl h
      · intro h
        rcases h with h | h | h | h
        · exact Or.inr h
        · exact Or.inl h
        · exact absurd h hbracket
        · obtain ⟨name, port, hsplit, hname, hport⟩ := h
          rw [hsplit] at hone
          exact absurd (count_colon hname hport) hone

/-- What strays after a bracket is no name of this host. -/
theorem not_namesLoopback_of_bracket {text : List Char} (h : StraysAfterBracket text) :
    ¬ NamesLoopback text := by
  intro hnames
  obtain ⟨name, rest, htext, hname, hstray⟩ := h
  have hclose : ']' ∉ name := by
    rcases hname with hname | hname
    · exact (bracket_notMem hname).2
    · rw [hname]
      decide
  rcases hnames with hnames | ⟨name', rest', hsplit, hname', hsuffix⟩
  · rw [htext] at hnames
    cases hnames
  · rw [htext] at hsplit
    rcases hname' with hname' | hname'
    · cases name' with
      | nil =>
        rw [isLoopbackName_nil] at hname'
        cases hname'
      | cons c name' =>
        have hfirst : '[' = c := (List.cons.inj hsplit).1
        exact (bracket_notMem hname').1 (hfirst ▸ List.mem_cons_self)
    · rw [hname'] at hsplit
      have hread : splitOnce ']' (name ++ ']' :: rest) = some ("::1".toList, rest') :=
        splitOnce_eq_some.mpr ⟨(List.cons.inj hsplit).2, by decide⟩
      rw [splitOnce_append hclose] at hread
      cases hread
      exact hstray ⟨rfl, hsuffix⟩

/-- What strays after the colon is no name of this host. -/
theorem not_namesLoopback_of_colon {text : List Char} (h : StraysAfterColon text) :
    ¬ NamesLoopback text := by
  intro hnames
  obtain ⟨name, port, htext, hname, -, hport⟩ := h
  have hread : splitOnce ':' text = some (name, port) :=
    splitOnce_eq_some.mpr ⟨htext, colon_notMem hname⟩
  rcases hnames with hnames | ⟨name', rest', hsplit, hname', hsuffix⟩
  · have hone : splitOnce ':' text = some ([], ":1".toList) :=
      splitOnce_eq_some.mpr ⟨hnames, List.not_mem_nil⟩
    rw [hread] at hone
    cases hone
    rw [isLoopbackName_nil] at hname
    cases hname
  · rcases hname' with hname' | hname'
    · rcases hsuffix with hnone | ⟨port', hrest, hport'⟩
      · rw [hnone, List.append_nil] at hsplit
        rw [← hsplit, htext] at hname'
        exact colon_notMem hname' (List.mem_append_right _ List.mem_cons_self)
      · rw [hrest] at hsplit
        have hsame : splitOnce ':' text = some (name', port') :=
          splitOnce_eq_some.mpr ⟨hsplit, colon_notMem hname'⟩
        rw [hread] at hsame
        cases hsame
        rw [hport] at hport'
        cases hport'
    · rw [htext, hname'] at hsplit
      cases name with
      | nil =>
        rw [isLoopbackName_nil] at hname
        cases hname
      | cons c name =>
        have hfirst : c = '[' := (List.cons.inj hsplit).1
        exact (bracket_notMem hname).1 (hfirst ▸ List.mem_cons_self)

/-- **When only names of this host are accepted**: when nothing strays after a bracket or a colon. -/
theorem loopback_only_iff (host : List Char) :
    (isLoopbackHost host = true → NamesLoopback (trim host)) ↔
      ¬ StraysAfterBracket (trim host) ∧ ¬ StraysAfterColon (trim host) := by
  constructor
  · intro honly
    constructor
    · intro hstray
      obtain ⟨name, rest, htext, hname, -⟩ := id hstray
      have haccepts : isLoopbackHost host = true :=
        (isLoopbackHost_iff host).mpr (Or.inr (Or.inr (Or.inl ⟨name, rest, htext, hname⟩)))
      exact not_namesLoopback_of_bracket hstray (honly haccepts)
    · intro hstray
      obtain ⟨name, port, htext, hname, hcolon, -⟩ := id hstray
      have haccepts : isLoopbackHost host = true :=
        (isLoopbackHost_iff host).mpr (Or.inr (Or.inr (Or.inr ⟨name, port, htext, hname, hcolon⟩)))
      exact not_namesLoopback_of_colon hstray (honly haccepts)
  · intro h haccepts
    obtain ⟨hbracket, hcolon⟩ := h
    rcases (isLoopbackHost_iff host).mp haccepts with hbare | hbare | hinside | hbefore
    · exact Or.inl hbare
    · exact Or.inr ⟨trim host, [], (List.append_nil _).symm, Or.inl hbare, Or.inl rfl⟩
    · obtain ⟨name, rest, htext, hname⟩ := hinside
      have hsix : name = "::1".toList ∧ PortSuffix rest := by
        by_contra hnot
        exact hbracket ⟨name, rest, htext, hname, hnot⟩
      refine Or.inr ⟨"[::1]".toList, rest, ?_, Or.inr rfl, hsix.2⟩
      rw [htext, hsix.1]
      rfl
    · obtain ⟨name, port, htext, hname, honce⟩ := hbefore
      have hport : isPort port = true := by
        by_contra hnot
        exact hcolon ⟨name, port, htext, hname, honce, Bool.eq_false_iff.mpr hnot⟩
      exact Or.inr ⟨name, ':' :: port, htext, Or.inl hname, Or.inr ⟨port, rfl, hport⟩⟩

/-- A name of another host after the bracket is not looked at. -/
theorem name_after_bracket :
    ¬ (isLoopbackHost "[::1]evil.example".toList = true →
      NamesLoopback (trim "[::1]evil.example".toList)) := by
  intro honly
  refine not_namesLoopback_of_bracket ?_ (honly (by decide))
  refine ⟨"::1".toList, "evil.example".toList, by decide, Or.inr rfl, ?_⟩
  intro h
  rcases h.2 with hnone | ⟨port, hport, -⟩
  · cases hnone
  · cases hport

/-! ### The `Origin` of a write -/

/-- A value that is a scheme and the `Host` of the request, octet for octet. -/
def ownsOrigin (request : Request IpAddr) (value : HeaderValue) : Bool :=
  (request.header "host").any fun host =>
    host.octets ≠ [] &&
      (value.octets = utf8 "http://" ++ host.octets || value.octets = utf8 "https://" ++ host.octets)

def crossOriginError : ErrorResponse := ⟨403, "cross-origin mutation rejected"⟩

/-- A write that carries an `Origin` that is not its own. -/
def ForeignWrite (request : Request IpAddr) : Prop :=
  isRead request.method = false ∧
    ∃ value, ("origin", value) ∈ request.headers ∧ ownsOrigin request value = false

/-- The first `Origin` is a text and not the request's own; and it is no bare scheme where the `Host` reads
as empty. -/
def FirstOriginForeign (request : Request IpAddr) : Prop :=
  ∃ value text, request.header "origin" = some value ∧ value.toStr = some text ∧
    ownsOrigin request value = false ∧
    ¬ ((request.text "host").getD [] = [] ∧ (text = "http://".toList ∨ text = "https://".toList))

theorem charOf_inj {a b : UInt8} : charOf a = charOf b ↔ a = b := by
  constructor
  · intro h
    have hvalid : ∀ c : UInt8, (charOf c).toNat = c.toNat := by
      intro c
      have hc := c.toNat_lt
      have hchar : c.toNat.isValidChar := Or.inl (by omega)
      rw [charOf, Char.toNat_ofNat, if_pos hchar]
    have hcode := congrArg Char.toNat h
    rw [hvalid, hvalid] at hcode
    exact UInt8.toNat_inj.mp hcode
  · intro h
    rw [h]

/-- Two values that read alike have the same octets. -/
theorem map_charOf_inj {a b : List UInt8} : a.map charOf = b.map charOf ↔ a = b :=
  (List.map_injective_iff.mpr fun _ _ h => charOf_inj.mp h).eq_iff

/-- A text of the `Host` is one of a value that is not empty. -/
theorem host_of_text {request : Request IpAddr} (h : (request.text "host").getD [] ≠ []) :
    ∃ host, request.header "host" = some host ∧ host.octets ≠ [] ∧
      (request.text "host").getD [] = host.octets.map charOf := by
  cases htext : request.text "host" with
  | none =>
    rw [htext] at h
    exact absurd rfl h
  | some text =>
    obtain ⟨host, hhost, hread⟩ := Option.bind_eq_some_iff.mp htext
    have hsame := (HeaderValue.toStr_eq_some.mp hread).2
    refine ⟨host, hhost, ?_, hsame.symm⟩
    intro hnil
    rw [hnil] at hsame
    rw [htext, ← hsame] at h
    exact absurd rfl h

/-- A value that reads as a scheme and the text of the `Host` is the request's own, unless that text is
empty. -/
theorem ownsOrigin_of_text {request : Request IpAddr} {value : HeaderValue} {scheme : String}
    (hscheme : scheme = "http://" ∨ scheme = "https://") (hhost : (request.text "host").getD [] ≠ [])
    (h : value.octets.map charOf = scheme.toList ++ (request.text "host").getD []) :
    ownsOrigin request value = true := by
  obtain ⟨host, hheader, hne, htext⟩ := host_of_text hhost
  have hread : (utf8 scheme).map charOf = scheme.toList := by
    rcases hscheme with hscheme | hscheme
    · rw [hscheme]
      decide
    · rw [hscheme]
      decide
  have hoctets : value.octets = utf8 scheme ++ host.octets := by
    rw [htext, ← hread, ← List.map_append] at h
    exact map_charOf_inj.mp h
  rw [ownsOrigin, hheader, Option.any_some, hoctets, Bool.and_eq_true, Bool.or_eq_true,
    decide_eq_true_eq, decide_eq_true_eq, decide_eq_true_eq]
  rcases hscheme with hscheme | hscheme
  · exact ⟨hne, Or.inl (by rw [hscheme])⟩
  · exact ⟨hne, Or.inr (by rw [hscheme])⟩

/-- A value that is the request's own reads as a scheme and the text of the `Host`. -/
theorem text_of_ownsOrigin {request : Request IpAddr} {value : HeaderValue} {text : List Char}
    (h : ownsOrigin request value = true) (htext : value.toStr = some text) :
    text = "http://".toList ++ (request.text "host").getD [] ∨
      text = "https://".toList ++ (request.text "host").getD [] := by
  obtain ⟨host, hheader, hown⟩ := (Option.any_eq_true _ _).mp h
  obtain ⟨hvisible, hread⟩ := HeaderValue.toStr_eq_some.mp htext
  rw [Bool.and_eq_true, Bool.or_eq_true, decide_eq_true_eq, decide_eq_true_eq, decide_eq_true_eq] at hown
  have hhost : ∀ scheme : String, value.octets = utf8 scheme ++ host.octets →
      (request.text "host").getD [] = host.octets.map charOf := by
    intro scheme hoctets
    have hall : ∀ b ∈ host.octets, isVisible b = true := by
      intro b hb
      exact hvisible b (hoctets ▸ List.mem_append_right _ hb)
    rw [Request.text, hheader, Option.bind_some, HeaderValue.toStr_eq_some.mpr ⟨hall, rfl⟩]
    rfl
  rcases hown.2 with hoctets | hoctets
  · left
    rw [← hread, hhost _ hoctets, hoctets, List.map_append]
    rfl
  · right
    rw [← hread, hhost _ hoctets, hoctets, List.map_append]
    rfl

/-- The check on the texts of the two headers. -/
theorem crossOrigin_text_iff {request : Request IpAddr} (hwrite : isRead request.method = false) :
    crossOrigin request = true ↔ ∃ value text, request.header "origin" = some value ∧
      value.toStr = some text ∧ ¬ (text = "http://".toList ++ (request.text "host").getD [] ∨
        text = "https://".toList ++ (request.text "host").getD []) := by
  rw [crossOrigin, hwrite]
  cases htext : request.text "origin" with
  | none =>
    constructor
    · intro h
      cases h
    · intro h
      obtain ⟨value, text, hheader, hread, -⟩ := h
      rw [Request.text, hheader, Option.bind_some, hread] at htext
      cases htext
  | some text =>
    obtain ⟨value, hheader, hread⟩ := Option.bind_eq_some_iff.mp htext
    rw [Bool.not_false, Bool.true_and, Bool.and_eq_true, decide_eq_true_eq, decide_eq_true_eq, ← not_or]
    constructor
    · intro h
      exact ⟨value, text, hheader, hread, h⟩
    · intro h
      obtain ⟨value', text', hheader', hread', hnot⟩ := h
      cases hheader.symm.trans hheader'
      cases hread.symm.trans hread'
      exact hnot

/-- **The writes that are of another origin**, as the middleware sees it. -/
theorem crossOrigin_iff {request : Request IpAddr} (hwrite : isRead request.method = false) :
    crossOrigin request = true ↔ FirstOriginForeign request := by
  rw [crossOrigin_text_iff hwrite]
  refine exists_congr fun value => exists_congr fun text => and_congr_right fun _ =>
    and_congr_right fun hread => ?_
  have hsame := (HeaderValue.toStr_eq_some.mp hread).2
  constructor
  · intro hnot
    constructor
    · by_contra hown
      exact hnot (text_of_ownsOrigin (Bool.of_not_eq_false hown) hread)
    · intro hbare
      rw [hbare.1, List.append_nil, List.append_nil] at hnot
      exact hnot hbare.2
  · intro h htext
    obtain ⟨hforeign, hbare⟩ := h
    by_cases hhost : (request.text "host").getD [] = []
    · rw [hhost, List.append_nil, List.append_nil] at htext
      exact hbare ⟨hhost, htext⟩
    · have hown : ownsOrigin request value = true := by
        rcases htext with htext | htext
        · exact ownsOrigin_of_text (Or.inl rfl) hhost (hsame.trans htext)
        · exact ownsOrigin_of_text (Or.inr rfl) hhost (hsame.trans htext)
      rw [hforeign] at hown
      cases hown

section

variable {H R S : Type} (argon2 : Argon2 H) (decode : List Char → Option (List UInt8))
  (assets : List Char → Option (List UInt8)) (access : S → Access)
  (run : Endpoint → Request IpAddr → S → R × S)

/-- The request got that answer and no handler ran. -/
def Rejected (request : Request IpAddr) (s : S) : Prop :=
  (serve argon2 decode assets access run request s).ran = none ∧
    (serve argon2 decode assets access run request s).reply = .refused crossOriginError

/-- **What is rejected**: what the middleware sees as of another origin, and nothing else. -/
theorem rejected_iff_crossOrigin (request : Request IpAddr) (s : S) :
    Rejected argon2 decode assets access run request s ↔ crossOrigin request = true := by
  unfold Rejected serve
  cases hcross : crossOrigin request with
  | true =>
    have hrefused : authenticate argon2 decode (access s) request = .error crossOriginError := by
      rw [authenticate, if_pos hcross]
      rfl
    rw [hrefused]
    exact iff_of_true ⟨rfl, rfl⟩ rfl
  | false =>
    refine iff_of_false ?_ Bool.false_ne_true
    intro h
    obtain ⟨-, hreply⟩ := h
    cases hauth : authenticate argon2 decode (access s) request with
    | error error =>
      rw [hauth] at hreply
      cases hreply
      -- the only other refusal has another status
      rw [authenticate, if_neg (by rw [hcross]; exact Bool.false_ne_true)] at hauth
      split at hauth
      · cases hauth
      · split at hauth
        · cases hauth
        · split at hauth
          · cases hauth
          · cases hauth
    | ok _ =>
      rw [hauth] at hreply
      dsimp only at hreply
      split at hreply
      · cases hreply
      · cases hreply
      · split at hreply
        · cases hreply
        · cases hreply

/-- **When a write with an `Origin` that is not its own is rejected**: when that is what the first `Origin`
says, in ASCII, and it is not a bare scheme. -/
theorem foreign_origin_rejected_iff (request : Request IpAddr) (s : S) (h : ForeignWrite request) :
    Rejected argon2 decode assets access run request s ↔ FirstOriginForeign request := by
  rw [rejected_iff_crossOrigin]
  exact crossOrigin_iff h.1

end

/-! ### Writes to a host without a password -/

namespace PasswordlessHost

def localhost : HeaderValue := ⟨utf8 "localhost", by decide +kernel⟩

def foreignOrigin : HeaderValue := ⟨utf8 "http://rebind.example", by decide +kernel⟩

/-- The same site under a name that is not ASCII. -/
def foreignUnicodeOrigin : HeaderValue := ⟨utf8 "http://rébind.example", by decide +kernel⟩

/-- A browser on the host puts the draft for a page with this origin. -/
def putDraft (origin : HeaderValue) : Request IpAddr :=
  ⟨.put, "/api/v1/draft".toList, [("host", localhost), ("origin", origin)], some (.v4 0x7F000001#32)⟩

def hasher : Argon2 Unit := ⟨fun _ => none, fun _ _ => false, fun _ => none, fun _ _ => none⟩

def PutRejected (origin : HeaderValue) : Prop :=
  Rejected hasher (fun _ => none) (fun _ => none) (fun _ => ⟨false, ⟨none⟩, none⟩) (fun _ _ s => ((), s))
    (putDraft origin) ()

theorem foreignWrite_putDraft {origin : HeaderValue} (h : ownsOrigin (putDraft origin) origin = false) :
    ForeignWrite (putDraft origin) :=
  ⟨rfl, origin, List.mem_cons_of_mem _ List.mem_cons_self, h⟩

theorem ascii_origin_rejected : PutRejected foreignOrigin ↔ FirstOriginForeign (putDraft foreignOrigin) :=
  foreign_origin_rejected_iff hasher (fun _ => none) (fun _ => none) _ _ (putDraft foreignOrigin) ()
    (foreignWrite_putDraft (by decide))

/-- **An `Origin` that is not ASCII** is as good as none. -/
theorem unicode_origin_admitted :
    ¬ (ForeignWrite (putDraft foreignUnicodeOrigin) → PutRejected foreignUnicodeOrigin) := by
  intro hrejected
  have hreply := (hrejected (foreignWrite_putDraft (by decide))).1
  have hran : (serve hasher (fun _ => none) (fun _ => none) (fun _ => ⟨false, ⟨none⟩, none⟩)
      (fun _ _ s => ((), s)) (putDraft foreignUnicodeOrigin) ()).ran = some .saveDraft := by decide
  rw [hran] at hreply
  cases hreply

end PasswordlessHost

end Portalis
