import Portalis.Config

/-!
# The lines of `sshd_config`

The line syntax of `sshd_config(5)`: empty lines, comments, and directives.  A directive is a keyword and an
argument; between them are blanks or one equals sign, and the argument may be in double quotes.
`parse_ssh_ports` splits lines at blanks, and so it reads one of these forms.

* `portOfLine_text`: what the scan finds in a line of the syntax.
* `ssh_ports_iff`: when it finds exactly the ports that the `Port` lines name.
* `port_after_equals_sign`: a port that it misses.
-/

namespace Portalis

open Text

/-! ### Lines -/

/-- Blanks, or nothing. -/
structure Blanks where
  text : List Char
  blank : ∀ c ∈ text, isWhitespace c = true

inductive Separator
  | blanks (run : Blanks) (ne : run.text ≠ [])
  | equals (before after : Blanks)

def Separator.text : Separator → List Char
  | blanks run _ => run.text
  | equals before after => before.text ++ '=' :: after.text

/-- A word that has no double quote in it and does not start with an equals sign. -/
structure Word where
  text : List Char
  ne : text ≠ []
  solid : ∀ c ∈ text, isWhitespace c = false
  unquoted : '"' ∉ text
  unequal : text.head? ≠ some '='

inductive Argument
  | bare (word : Word)
  | quoted (value : List Char) (closed : '"' ∉ value)

def Argument.value : Argument → List Char
  | bare word => word.text
  | quoted value _ => value

def Argument.text : Argument → List Char
  | bare word => word.text
  | quoted value _ => '"' :: (value ++ ['"'])

/-- A keyword and its first argument; what may follow is apart from it. -/
structure Directive where
  indent : Blanks
  keyword : List Char
  separator : Separator
  argument : Argument
  rest : List Char
  keyword_ne : keyword ≠ []
  keyword_solid : ∀ c ∈ keyword, isWhitespace c = false
  keyword_unequal : '=' ∉ keyword
  keyword_head : keyword.head? ≠ some '#'
  rest_apart : ∀ c, rest.head? = some c → isWhitespace c = true

namespace Directive

def text (self : Directive) : List Char :=
  self.indent.text ++ (self.keyword ++ (self.separator.text ++ (self.argument.text ++ self.rest)))

/-- The port that a `Port` line names, when its argument is one. -/
def port? (self : Directive) : Option UInt16 :=
  if eqIgnoreAsciiCase self.keyword "port".toList then
    (parseUnsigned 65536 self.argument.value).map UInt16.ofNat
  else none

/-- The keyword and the argument are apart by blanks, and there are no quotes. -/
def isPlain (self : Directive) : Bool :=
  match self.separator, self.argument with
  | .blanks _ _, .bare _ => true
  | _, _ => false

end Directive

inductive SshdLine
  | empty (run : Blanks)
  | comment (indent : Blanks) (content : List Char)
  | directive (d : Directive)

def SshdLine.text : SshdLine → List Char
  | empty run => run.text
  | comment indent content => indent.text ++ '#' :: content
  | directive d => d.text

def directives (ls : List SshdLine) : List Directive :=
  ls.filterMap fun line =>
    match line with
    | .directive d => some d
    | _ => none

theorem mem_directives {ls : List SshdLine} {d : Directive} :
    d ∈ directives ls ↔ SshdLine.directive d ∈ ls := by
  rw [directives, List.mem_filterMap]
  constructor
  · intro h
    obtain ⟨line, hline, hd⟩ := h
    cases line with
    | empty run => cases hd
    | comment indent content => cases hd
    | directive other =>
      cases hd
      exact hline
  · intro h
    exact ⟨_, h, rfl⟩

/-! ### The scan of one line -/

theorem Blanks.dropWhile_append (self : Blanks) (s : List Char) :
    (self.text ++ s).dropWhile isWhitespace = s.dropWhile isWhitespace := by
  rw [List.dropWhile_append, List.dropWhile_eq_nil_iff.mpr self.blank]
  rfl

/-- A comment names no port. -/
theorem portOfLine_comment {line : List Char} (h : line.head? = some '#') : portOfLine line = none := by
  rw [portOfLine, if_pos h]

/-- A word with an equals sign in it is no `Port`. -/
theorem ne_port_of_equals (before after : List Char) :
    eqIgnoreAsciiCase (before ++ '=' :: after) "port".toList = false := by
  refine decide_eq_false fun h => ?_
  have hmem : toAsciiLowercase '=' ∈ (before ++ '=' :: after).map toAsciiLowercase :=
    List.mem_map_of_mem (List.mem_append_right _ List.mem_cons_self)
  rw [h] at hmem
  revert hmem
  decide

namespace Directive

/-- The scan drops the indentation. -/
theorem splitWhitespace_text (d : Directive) :
    splitWhitespace d.text =
      (d.keyword ++ (d.separator.text ++ (d.argument.text ++ d.rest)).takeWhile fun c => !isWhitespace c) ::
        splitWhitespace ((d.separator.text ++ (d.argument.text ++ d.rest)).dropWhile
          fun c => !isWhitespace c) := by
  rw [text, splitWhitespace_blanks d.indent.blank]
  exact splitWhitespace_append d.keyword_ne d.keyword_solid _

/-- The keyword and the fields after it, where blanks follow. -/
theorem splitWhitespace_of_blanks {d : Directive} {c : Char} {ws s : List Char}
    (hblank : ∀ b ∈ c :: ws, isWhitespace b = true)
    (h : d.separator.text ++ (d.argument.text ++ d.rest) = c :: (ws ++ s)) :
    splitWhitespace d.text = d.keyword :: splitWhitespace s := by
  have hc := hblank c List.mem_cons_self
  have hskip : splitWhitespace (c :: (ws ++ s)) = splitWhitespace s := splitWhitespace_blanks hblank s
  rw [splitWhitespace_text, h, List.takeWhile_cons, List.dropWhile_cons, hc, if_neg (by decide),
    if_neg (by decide), hskip, List.append_nil]

theorem head?_text (d : Directive) : (trim d.text).head? = d.keyword.head? := by
  rw [head?_trim, text, d.indent.dropWhile_append]
  cases hkeyword : d.keyword with
  | nil => exact absurd hkeyword d.keyword_ne
  | cons c rest =>
    have hc : isWhitespace c = false := d.keyword_solid c (hkeyword ▸ List.mem_cons_self)
    rw [List.cons_append, List.dropWhile_cons_of_neg (by simp [hc])]
    rfl

/-- A `Port` line is one whose first two fields say so. -/
theorem portOfLine_trim {d : Directive} {field : List Char} {fields : List (List Char)}
    (h : splitWhitespace d.text = field :: fields) :
    portOfLine (trim d.text) = fields.head?.bind fun value =>
      if eqIgnoreAsciiCase field "port".toList then (parseUnsigned 65536 value).map UInt16.ofNat
      else none := by
  have hhead : (trim d.text).head? ≠ some '#' := by
    rw [head?_text]
    exact d.keyword_head
  rw [portOfLine, if_neg hhead, splitWhitespace_trim]
  cases fields with
  | nil => simp only [h, List.head?_nil, Option.bind_none]
  | cons value rest => simp only [h, List.head?_cons, Option.bind_some]

/-- Where the second field starts with what no numeral starts with, there is no port. -/
theorem portOfLine_eq_none {d : Directive} {field : List Char} {c : Char} {s : List Char}
    (h : splitWhitespace d.text = field :: splitWhitespace (c :: s)) (hc : isWhitespace c = false)
    (hplus : c ≠ '+') (hdigit : decimalDigit? c = none) : portOfLine (trim d.text) = none := by
  have hvalue := splitWhitespace_append (List.cons_ne_nil c []) (List.forall_mem_singleton.mpr hc) s
  rw [List.singleton_append] at hvalue
  rw [hvalue] at h
  rw [portOfLine_trim h, List.head?_cons, Option.bind_some, List.singleton_append,
    parseUnsigned_eq_none hplus hdigit]
  split
  · rfl
  · rfl

/-- **What the scan finds in a directive**: its port, if blanks are all there is around the argument. -/
theorem portOfLine_text (d : Directive) :
    portOfLine (trim d.text) = if d.isPlain = true then d.port? else none := by
  cases hseparator : d.separator with
  | blanks run hne =>
    have hsplit : ∃ c ws, run.text = c :: ws := List.exists_cons_of_ne_nil hne
    obtain ⟨c, ws, hrun⟩ := hsplit
    have hblank : ∀ b ∈ c :: ws, isWhitespace b = true := hrun ▸ run.blank
    have hafter : d.separator.text ++ (d.argument.text ++ d.rest) =
        c :: (ws ++ (d.argument.text ++ d.rest)) := by
      rw [hseparator, Separator.text, hrun]
      rfl
    have hfields := splitWhitespace_of_blanks hblank hafter
    cases hargument : d.argument with
    | bare word =>
      have hplain : d.isPlain = true := by rw [isPlain, hseparator, hargument]
      have hend : (d.rest.takeWhile fun c => !isWhitespace c) = [] := by
        cases hrest : d.rest with
        | nil => rfl
        | cons b rest =>
          have hb := d.rest_apart b (by rw [hrest]; rfl)
          exact List.takeWhile_cons_of_neg (by simp [hb])
      rw [hargument, Argument.text, splitWhitespace_append word.ne word.solid, hend,
        List.append_nil] at hfields
      rw [portOfLine_trim hfields, if_pos hplain, port?, hargument]
      rfl
    | quoted value hclosed =>
      have hplain : d.isPlain = false := by rw [isPlain, hseparator, hargument]
      rw [hargument, Argument.text, List.cons_append] at hfields
      rw [portOfLine_eq_none hfields (by decide) (by decide) (by decide), hplain]
      rfl
  | equals before after =>
    have hplain : d.isPlain = false := by rw [isPlain, hseparator]
    have hafter : d.separator.text ++ (d.argument.text ++ d.rest) =
        before.text ++ '=' :: (after.text ++ (d.argument.text ++ d.rest)) := by
      rw [hseparator, Separator.text, List.append_assoc]
      rfl
    rw [hplain, if_neg Bool.false_ne_true]
    cases hbefore : before.text with
    | nil =>
      -- the equals sign is part of the first field
      have hfields := d.splitWhitespace_text
      rw [hafter, hbefore, List.nil_append, List.takeWhile_cons_of_pos (by decide)] at hfields
      rw [portOfLine_trim hfields, ne_port_of_equals]
      exact Option.bind_fun_none _
    | cons c ws =>
      have hblank : ∀ b ∈ c :: ws, isWhitespace b = true := hbefore ▸ before.blank
      rw [hbefore, List.cons_append] at hafter
      have hfields := splitWhitespace_of_blanks hblank hafter
      exact portOfLine_eq_none hfields (by decide) (by decide) (by decide)

end Directive

/-! ### The scan of a file -/

/-- **The ports that the scan finds**: 22, and those of the plain `Port` lines. -/
theorem mem_parseSshPorts_iff {sshdConfig : String} {ls : List SshdLine}
    (h : lines sshdConfig.toList = ls.map SshdLine.text) {port : UInt16} :
    port ∈ parseSshPorts sshdConfig ↔
      port = 22 ∨ ∃ d ∈ directives ls, d.isPlain = true ∧ d.port? = some port := by
  rw [mem_parseSshPorts, h]
  refine or_congr_right ?_
  constructor
  · intro hline
    obtain ⟨text, htext, hport⟩ := hline
    obtain ⟨line, hmem, rfl⟩ := List.mem_map.mp htext
    cases line with
    | empty run =>
      have hnil : trim run.text = [] := by
        rw [trim, List.dropWhile_eq_nil_iff.mpr run.blank]
        rfl
      rw [SshdLine.text, hnil] at hport
      cases hport
    | comment indent content =>
      have hhead : (trim (SshdLine.comment indent content).text).head? = some '#' := by
        rw [head?_trim, SshdLine.text, indent.dropWhile_append]
        rfl
      rw [portOfLine_comment hhead] at hport
      cases hport
    | directive d =>
      rw [SshdLine.text, d.portOfLine_text] at hport
      obtain ⟨hplain, hport⟩ := Option.ite_none_right_eq_some.mp hport
      exact ⟨d, mem_directives.mpr hmem, hplain, hport⟩
  · intro hd
    obtain ⟨d, hmem, hplain, hport⟩ := hd
    refine ⟨d.text, List.mem_map.mpr ⟨.directive d, mem_directives.mp hmem, rfl⟩, ?_⟩
    rw [d.portOfLine_text, if_pos hplain]
    exact hport

/-- **When the scan finds every port.**  Of a file in the line syntax it finds exactly 22 and the ports that
the `Port` lines name, if and only if each port that a `Port` line with an equals sign or with quotes names
is 22 or the port of a plain `Port` line. -/
theorem ssh_ports_iff {sshdConfig : String} {ls : List SshdLine}
    (h : lines sshdConfig.toList = ls.map SshdLine.text) :
    (∀ port, port ∈ parseSshPorts sshdConfig ↔
        port = 22 ∨ ∃ d ∈ directives ls, d.port? = some port) ↔
      ∀ d ∈ directives ls, d.isPlain = false → ∀ port, d.port? = some port →
        port = 22 ∨ ∃ other ∈ directives ls, other.isPlain = true ∧ other.port? = some port := by
  constructor
  · intro hall d hd _ port hport
    exact (mem_parseSshPorts_iff h).mp ((hall port).mpr (Or.inr ⟨d, hd, hport⟩))
  · intro hothers port
    rw [mem_parseSshPorts_iff h]
    constructor
    · intro hfound
      rcases hfound with h22 | ⟨d, hd, -, hport⟩
      · exact Or.inl h22
      · exact Or.inr ⟨d, hd, hport⟩
    · intro hnamed
      rcases hnamed with h22 | ⟨d, hd, hport⟩
      · exact Or.inl h22
      · cases hplain : d.isPlain with
        | true => exact Or.inr ⟨d, hd, hplain, hport⟩
        | false => exact hothers d hd hplain port hport

/-- One blank, and none. -/
def oneBlank : Blanks := ⟨[' '], by simp [isWhitespace]⟩

def noBlank : Blanks := ⟨[], List.forall_mem_nil _⟩

/-- A `Port` line for 2222. -/
def portLine (separator : Separator) : Directive where
  indent := noBlank
  keyword := "Port".toList
  separator := separator
  argument := .bare ⟨"2222".toList, by decide, by simp [isWhitespace], by decide, by decide⟩
  rest := []
  keyword_ne := by decide
  keyword_solid := by simp [isWhitespace]
  keyword_unequal := by decide
  keyword_head := by decide
  rest_apart c h := by cases h

def equalsLine : Directive := portLine (.equals noBlank noBlank)

def blankLine : Directive := portLine (.blanks oneBlank (List.cons_ne_nil _ _))

def bothForms : List SshdLine :=
  [.directive equalsLine, .comment noBlank " moved".toList, .directive blankLine]

theorem ssh_ports_of_both_forms :
    lines "Port=2222\n# moved\nPort 2222\n".toList = bothForms.map SshdLine.text ∧
      ∀ port, port ∈ parseSshPorts "Port=2222\n# moved\nPort 2222\n" ↔ port = 22 ∨
        ∃ d ∈ [equalsLine, blankLine], d.port? = some port := by
  have hlines : lines "Port=2222\n# moved\nPort 2222\n".toList = bothForms.map SshdLine.text := by decide
  refine ⟨hlines, (ssh_ports_iff hlines).mpr ?_⟩
  intro d hd _ port hport
  refine Or.inr ⟨blankLine, List.mem_cons_of_mem _ List.mem_cons_self, rfl, ?_⟩
  rcases List.mem_cons.mp hd with rfl | hd
  · exact hport
  · rw [List.mem_singleton.mp hd] at hport
    exact hport

/-- **A port that is missed.**  `Port=2222` is a directive for 2222, and the scan does not find it. -/
theorem port_after_equals_sign :
    ¬ ∀ (sshdConfig : String) (ls : List SshdLine),
      lines sshdConfig.toList = ls.map SshdLine.text →
        ∀ port, port ∈ parseSshPorts sshdConfig ↔
          port = 22 ∨ ∃ d ∈ directives ls, d.port? = some port := by
  intro hall
  have hfound := (hall "Port=2222\n" [.directive equalsLine] (by decide) 2222).mpr
    (Or.inr ⟨equalsLine, List.mem_cons_self, by decide⟩)
  revert hfound
  decide

end Portalis
