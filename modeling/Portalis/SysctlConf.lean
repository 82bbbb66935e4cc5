import Portalis.Text

/-!
# Files of kernel parameters

The lines of a sysctl.d file: a name and a value around the first equals sign, with blanks about them.  Lines
that start with `#` or `;` are comments, a line without an equals sign assigns nothing, and a hyphen before
the name only says that a failure may be passed over.  The parts of a name are separated by dots or by
slashes, whichever comes first in it.  A name with wildcards is a name of its own: what it says gives way to
an assignment to the very name.

* `valueOf_append`: the last assignment to a name counts.
-/

namespace SysctlConf

open Text

/-- The blanks of the format. -/
def isBlank (c : Char) : Bool := c = ' ' || c = '\t' || c = '\n' || c = '\r'

def strip (s : List Char) : List Char := stripBy isBlank s

/-- The name with slashes between its parts. -/
def normalize (name : List Char) : List Char :=
  if name.find? (fun c => c = '.' || c = '/') = some '.' then
    name.map fun c => if c = '.' then '/' else if c = '/' then '.' else c
  else name

def withoutHyphen : List Char → List Char
  | '-' :: name => name
  | name => name

/-- What a line assigns to what. -/
def assignment (line : List Char) : Option (List Char × List Char) :=
  let line := strip line
  if line.head? = some '#' ∨ line.head? = some ';' then none
  else (splitOnce '=' line).map fun (name, value) =>
    (normalize (strip (withoutHyphen name)), strip value)

/-- The value that the last assignment to a name gives it. -/
def valueOf (name : List Char) (lines : List (List Char)) : Option (List Char) :=
  (((lines.filterMap assignment).filter fun assigned => assigned.1 = name).getLast?).map (·.2)

/-- **Later lines go before earlier ones.** -/
theorem valueOf_append (name : List Char) (lines more : List (List Char)) :
    valueOf name (lines ++ more) = (valueOf name more).or (valueOf name lines) := by
  rw [valueOf, List.filterMap_append, List.filter_append, List.getLast?_append, Option.map_or]
  rfl

/-- Dots and slashes, blanks and a hyphen do not make another name. -/
example : valueOf "net/ipv4/ip_forward".toList
    ["net.ipv4.ip_forward=1".toList, "# net.ipv4.ip_forward=2".toList,
      " -net/ipv4/ip_forward = 0\r".toList] = some ['0'] := by
  decide

end SysctlConf
