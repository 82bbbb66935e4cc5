import Mathlib

/-!
# Requests

The parts of an HTTP request a server decides on: its method, its path, and its headers, octet
strings under lower-case names in the order they came.  A table of routes maps a path and a method
to an endpoint.

* `toStr_eq_some`: which header values are texts.
* `Table.lookup_endpoint`: an endpoint is found only under a pattern of the table that matches the path.
-/

namespace Http

inductive Method
  | options
  | get
  | post
  | put
  | delete
  | head
  | trace
  | connect
  | patch
  | extension (name : String)
  deriving DecidableEq

/-! ### Header values -/

/-- The octets a header value may hold: no control character but the tab. -/
def isValueOctet (b : UInt8) : Bool := (32 ≤ b && b ≠ 127) || b = 9

structure HeaderValue where
  octets : List UInt8
  valid : ∀ b ∈ octets, isValueOctet b = true
  deriving DecidableEq

/-- Visible ASCII, the space and the tab. -/
def isVisible (b : UInt8) : Bool := (32 ≤ b && b < 127) || b = 9

def charOf (b : UInt8) : Char := Char.ofNat b.toNat

/-- `HeaderValue::to_str`. -/
def HeaderValue.toStr (self : HeaderValue) : Option (List Char) :=
  if self.octets.all isVisible then some (self.octets.map charOf) else none

theorem HeaderValue.toStr_eq_some {v : HeaderValue} {s : List Char} :
    v.toStr = some s ↔ (∀ b ∈ v.octets, isVisible b = true) ∧ v.octets.map charOf = s := by
  unfold toStr
  by_cases h : v.octets.all isVisible = true
  · rw [if_pos h, Option.some.injEq]
    exact ⟨fun heq => ⟨List.all_eq_true.mp h, heq⟩, fun hall => hall.2⟩
  · rw [if_neg h]
    simp only [reduceCtorEq, false_iff, not_and]
    exact fun hall => absurd (List.all_eq_true.mpr hall) h

/-- The value of these octets, unless one is not allowed. -/
def HeaderValue.ofOctets? (octets : List UInt8) : Option HeaderValue :=
  if h : ∀ b ∈ octets, isValueOctet b = true then some ⟨octets, h⟩ else none

theorem HeaderValue.ofOctets?_eq_some {octets : List UInt8} {v : HeaderValue} :
    ofOctets? octets = some v ↔ (∀ b ∈ octets, isValueOctet b = true) ∧ v.octets = octets := by
  unfold ofOctets?
  by_cases h : ∀ b ∈ octets, isValueOctet b = true
  · rw [dif_pos h, Option.some.injEq]
    constructor
    · rintro rfl
      exact ⟨h, rfl⟩
    · rintro ⟨-, rfl⟩
      rfl
  · rw [dif_neg h]
    exact ⟨nofun, fun hall => absurd hall.1 h⟩

/-! ### Requests -/

/-- A request, from a peer when the connection has one. -/
structure Request (Peer : Type) where
  method : Method
  path : List Char
  headers : List (String × HeaderValue)
  remote : Option Peer

namespace Request

variable {Peer : Type}

/-- `HeaderMap::get`: the first header of the name. -/
def header (self : Request Peer) (name : String) : Option HeaderValue :=
  (self.headers.find? fun h => h.1 = name).map (·.2)

/-- The first header of the name, when it is a text. -/
def text (self : Request Peer) (name : String) : Option (List Char) :=
  (self.header name).bind HeaderValue.toStr

end Request

/-! ### Routes -/

/-- A path as it stands, or a path and one more segment, which is not empty. -/
inductive Pattern
  | exact (path : String)
  | parameter (path : String)

def Pattern.text : Pattern → String
  | exact path => path
  | parameter path => path

def Pattern.accepts (path : List Char) : Pattern → Bool
  | exact p => path = p.toList
  | parameter p =>
    match p.toList.isPrefixOf? path with
    | none => false
    | some segment => segment ≠ [] && !segment.contains '/'

/-- A path that is accepted starts with the text of the pattern. -/
theorem Pattern.prefix_of_accepts {path : List Char} {p : Pattern} (h : p.accepts path = true) :
    p.text.toList <+: path := by
  cases p with
  | exact p =>
    have heq : path = p.toList := by simpa [accepts] using h
    rw [heq]
    exact List.prefix_refl _
  | parameter p =>
    rw [accepts] at h
    cases hrest : p.toList.isPrefixOf? path with
    | none =>
      rw [hrest] at h
      cases h
    | some segment =>
      exact ⟨segment, List.isPrefixOf?_eq_some_iff_append_eq.mp hrest⟩

/-- What a table answers for a path and a method. -/
inductive Routed (E : Type)
  | endpoint (e : E)
  | methodNotAllowed
  | fallback
  deriving DecidableEq

/-- The endpoints of each pattern, by method. -/
abbrev Table (E : Type) := List (Pattern × List (Method × E))

namespace Table

variable {E : Type}

/-- An endpoint for `GET` serves `HEAD` too. -/
def serves (method declared : Method) : Bool :=
  method = declared || (method = .head && declared = .get)

def lookup (table : Table E) (path : List Char) (method : Method) : Routed E :=
  match table.find? fun row => row.1.accepts path with
  | none => .fallback
  | some row =>
    match row.2.find? fun entry => serves method entry.1 with
    | none => .methodNotAllowed
    | some entry => .endpoint entry.2

/-- **An endpoint is found under a pattern of the table.** -/
theorem lookup_endpoint {table : Table E} {path : List Char} {method : Method} {e : E}
    (h : table.lookup path method = .endpoint e) :
    ∃ row ∈ table, row.1.text.toList <+: path ∧ ∃ entry ∈ row.2, entry.2 = e := by
  unfold lookup at h
  cases hrow : List.find? (fun row => row.1.accepts path) table with
  | none =>
    rw [hrow] at h
    cases h
  | some row =>
    rw [hrow] at h
    dsimp only at h
    cases hentry : row.2.find? fun entry => serves method entry.1 with
    | none =>
      rw [hentry] at h
      cases h
    | some entry =>
      rw [hentry] at h
      cases h
      have haccepts : row.1.accepts path = true := by simpa using List.find?_some hrow
      exact ⟨row, List.mem_of_find?_eq_some hrow, Pattern.prefix_of_accepts haccepts, entry,
        List.mem_of_find?_eq_some hentry, rfl⟩

end Table

end Http
