import Portalis.Text

/-!
# JSON texts

Values, the compact writer, a reader, and the access to objects that derived readers of records use.  The
writer escapes as little as the format allows; the reader takes white space between tokens, every escape,
and every number, whose digits it keeps.  An object keeps its members as they are written, and a name that
is looked up may be there once.

* `parseString_escape`: strings round-trip.  `parse_render`: values round-trip.
* `find_insert`: what one more member changes.
-/

open Text

namespace Json

/-! ### Numbers -/

def isWs (c : Char) : Bool := c = ' ' || c = '\n' || c = '\t' || c = '\r'

/-- The characters of `null`, `true`, `false` and of numbers, and all other letters and digits. -/
def isScalarChar (c : Char) : Bool := c.isAlphanum || c = '+' || c = '-' || c = '.'

def isDigits (text : List Char) : Bool := text ≠ [] && text.all Char.isDigit

def isExponent : List Char → Bool
  | [] => true
  | c :: text =>
    (c = 'e' || c = 'E') &&
      isDigits (if text.head? = some '+' || text.head? = some '-' then text.tail else text)

def isFraction (text : List Char) : Bool :=
  if text.head? = some '.' then
    text.tail.takeWhile Char.isDigit ≠ [] && isExponent (text.tail.dropWhile Char.isDigit)
  else isExponent text

/-- The whole part has no superfluous zeros in front. -/
def isUnsigned (text : List Char) : Bool :=
  let whole := text.takeWhile Char.isDigit
  whole ≠ [] && (whole.head? ≠ some '0' || whole.length = 1) &&
    isFraction (text.dropWhile Char.isDigit)

def isNumber (text : List Char) : Bool :=
  isUnsigned (if text.head? = some '-' then text.tail else text)

/-- A number, as it is written. -/
structure Number where
  text : List Char
  valid : isNumber text = true

section

theorem isScalarChar_of_isDigit {c : Char} (h : c.isDigit = true) : isScalarChar c = true := by
  simp [isScalarChar, Char.isAlphanum, h]

/-- One character that is accepted in front. -/
theorem all_of_tail {text : List Char} {c : Char} {P : Char → Bool} (hc : text.head? = some c)
    (hP : P c = true) (h : text.tail.all P = true) : text.all P = true := by
  cases text with
  | nil => rfl
  | cons d text =>
    cases hc
    rw [List.all_cons, hP]
    exact h

theorem all_of_dropWhile {text : List Char} {P Q : Char → Bool} (hPQ : ∀ c, P c = true → Q c = true)
    (h : (text.dropWhile P).all Q = true) : text.all Q = true := by
  rw [← List.takeWhile_append_dropWhile (p := P) (l := text), List.all_append, h, Bool.and_true,
    List.all_eq_true]
  intro c hc
  exact hPQ c (List.mem_takeWhile_imp hc)

theorem isDigits_scalar {text : List Char} (h : isDigits text = true) :
    text.all isScalarChar = true := by
  obtain ⟨-, hall⟩ := Bool.and_eq_true_iff.mp h
  rw [List.all_eq_true] at hall ⊢
  exact fun c hc => isScalarChar_of_isDigit (hall c hc)

theorem isExponent_scalar {text : List Char} (h : isExponent text = true) :
    text.all isScalarChar = true := by
  cases text with
  | nil => rfl
  | cons c text =>
    obtain ⟨hletter, hdigits⟩ := Bool.and_eq_true_iff.mp h
    have hc : isScalarChar c = true := by
      rcases Bool.or_eq_true_iff.mp hletter with hc | hc
      · rw [of_decide_eq_true hc]
        rfl
      · rw [of_decide_eq_true hc]
        rfl
    rw [List.all_cons, hc, Bool.true_and]
    split at hdigits
    · next hsign =>
      rcases Bool.or_eq_true_iff.mp hsign with hplus | hminus
      · exact all_of_tail (of_decide_eq_true hplus) rfl (isDigits_scalar hdigits)
      · exact all_of_tail (of_decide_eq_true hminus) rfl (isDigits_scalar hdigits)
    · exact isDigits_scalar hdigits

theorem isFraction_scalar {text : List Char} (h : isFraction text = true) :
    text.all isScalarChar = true := by
  unfold isFraction at h
  split at h
  · next hpoint =>
    obtain ⟨-, hexponent⟩ := Bool.and_eq_true_iff.mp h
    exact all_of_tail hpoint rfl
      (all_of_dropWhile (fun _ => isScalarChar_of_isDigit) (isExponent_scalar hexponent))
  · exact isExponent_scalar h

theorem isUnsigned_scalar {text : List Char} (h : isUnsigned text = true) :
    text.all isScalarChar = true := by
  obtain ⟨-, hfraction⟩ := Bool.and_eq_true_iff.mp h
  exact all_of_dropWhile (fun _ => isScalarChar_of_isDigit) (isFraction_scalar hfraction)

theorem Number.scalar (n : Number) : n.text.all isScalarChar = true := by
  have h := n.valid
  unfold isNumber at h
  split at h
  · next hminus => exact all_of_tail hminus rfl (isUnsigned_scalar h)
  · exact isUnsigned_scalar h

theorem Number.text_ne_nil (n : Number) : n.text ≠ [] := by
  intro hnil
  have h := n.valid
  rw [hnil] at h
  cases h

/-! #### Naturals -/

theorem isDigit_of_mem_toDigits {n : ℕ} {c : Char} (h : c ∈ Nat.toDigits 10 n) : c.isDigit = true :=
  Nat.isDigit_of_mem_toDigits (by decide) (le_refl 10) h

/-- Only zero is written with a zero in front. -/
theorem head?_toDigits (n : ℕ) (hn : n ≠ 0) : (Nat.toDigits 10 n).head? ≠ some '0' := by
  induction n using Nat.strong_induction_on with
  | _ n ih =>
    by_cases hlt : n < 10
    · rw [Nat.toDigits_of_lt_base hlt]
      interval_cases n <;> first | exact absurd rfl hn | decide
    · rw [Nat.toDigits_of_base_le (by decide) (Nat.le_of_not_lt hlt), List.head?_append]
      have hrest := ih (n / 10) (by omega) (by omega)
      cases hhead : (Nat.toDigits 10 (n / 10)).head? with
      | none => exact absurd (List.head?_eq_none_iff.mp hhead) Nat.toDigits_ne_nil
      | some c =>
        rw [hhead] at hrest
        exact hrest

theorem isNumber_toDigits (n : ℕ) : isNumber (Nat.toDigits 10 n) = true := by
  have hall : ∀ c ∈ Nat.toDigits 10 n, c.isDigit = true := fun c => isDigit_of_mem_toDigits
  have hunsigned : (Nat.toDigits 10 n).head? ≠ some '-' := by
    intro hminus
    have hdigit := hall '-' (List.mem_of_mem_head? hminus)
    revert hdigit
    decide
  have htake : (Nat.toDigits 10 n).takeWhile Char.isDigit = Nat.toDigits 10 n :=
    List.takeWhile_eq_self_iff.mpr hall
  have hdrop : (Nat.toDigits 10 n).dropWhile Char.isDigit = [] :=
    List.dropWhile_eq_nil_iff.mpr hall
  have hzero : (decide ((Nat.toDigits 10 n).head? ≠ some '0') ||
      decide ((Nat.toDigits 10 n).length = 1)) = true := by
    by_cases hn : n = 0
    · rw [hn]
      rfl
    · rw [decide_eq_true (head?_toDigits n hn)]
      rfl
  rw [isNumber, if_neg hunsigned]
  simp only [isUnsigned, htake, hdrop]
  rw [hzero, decide_eq_true Nat.toDigits_ne_nil]
  rfl

/-- A natural number, in decimal. -/
def Number.ofNat (n : ℕ) : Number := ⟨Nat.toDigits 10 n, isNumber_toDigits n⟩

/-- The natural number below `limit` that is written without sign, fraction and exponent. -/
def Number.toNat? (limit : ℕ) (n : Number) : Option ℕ := parseDigits limit 0 n.text

theorem le_ofDigitChars (text : List Char) (acc : ℕ) : acc ≤ Nat.ofDigitChars 10 text acc := by
  induction text generalizing acc with
  | nil => exact le_of_eq Nat.ofDigitChars_nil.symm
  | cons c text ih =>
    rw [Nat.ofDigitChars_cons]
    have hle := ih (10 * acc + (c.toNat - '0'.toNat))
    omega

theorem parseDigits_eq {limit : ℕ} {text : List Char} (hall : ∀ c ∈ text, c.isDigit = true) (acc : ℕ)
    (h : Nat.ofDigitChars 10 text acc < limit) :
    parseDigits limit acc text = some (Nat.ofDigitChars 10 text acc) := by
  induction text generalizing acc with
  | nil => rw [parseDigits, Nat.ofDigitChars_nil]
  | cons c text ih =>
    have hdigit : decimalDigit? c = some (c.toNat - 48) := by
      have hc := hall c List.mem_cons_self
      rw [Char.isDigit, Bool.and_eq_true_iff] at hc
      exact if_pos ⟨of_decide_eq_true hc.1, of_decide_eq_true hc.2⟩
    rw [Nat.ofDigitChars_cons] at h ⊢
    have hstep : acc * 10 + (c.toNat - 48) = 10 * acc + (c.toNat - '0'.toNat) := by
      rw [Nat.mul_comm]
      rfl
    have hle := le_ofDigitChars text (10 * acc + (c.toNat - '0'.toNat))
    simp only [parseDigits, hdigit, hstep]
    rw [if_pos (lt_of_le_of_lt hle h)]
    exact ih (fun d hd => hall d (List.mem_cons_of_mem c hd)) _ h

/-- **Naturals round-trip.** -/
theorem toNat?_ofNat {n limit : ℕ} (h : n < limit) : (Number.ofNat n).toNat? limit = some n := by
  have hvalue : Nat.ofDigitChars 10 (Nat.toDigits 10 n) 0 = n := Nat.ofDigitChars_ten_toDigits
  rw [Number.toNat?, Number.ofNat, parseDigits_eq (fun c => isDigit_of_mem_toDigits) 0 (by rwa [hvalue]),
    hvalue]

end

/-! ### Strings -/

def escapeChar (c : Char) : List Char :=
  if c = '\x22' then ['\\', '\x22']
  else if c = '\\' then ['\\', '\\']
  else if c = '\x08' then ['\\', 'b']
  else if c = '\x09' then ['\\', 't']
  else if c = '\x0a' then ['\\', 'n']
  else if c = '\x0c' then ['\\', 'f']
  else if c = '\x0d' then ['\\', 'r']
  else if c.toNat < 0x20 then '\\' :: 'u' :: hexDigits 4 c.toNat
  else [c]

def unescape (c : Char) : Option Char :=
  if c = '\x22' ∨ c = '\\' ∨ c = '/' then some c
  else if c = 'b' then some '\x08'
  else if c = 't' then some '\x09'
  else if c = 'n' then some '\x0a'
  else if c = 'f' then some '\x0c'
  else if c = 'r' then some '\x0d'
  else none

def isHighSurrogate (n : ℕ) : Bool := 0xD800 ≤ n && n < 0xDC00

def isLowSurrogate (n : ℕ) : Bool := 0xDC00 ≤ n && n < 0xE000

/-- One more character in front of what was read. -/
def push (c : Char) (read : List Char × List Char) : List Char × List Char := (c :: read.1, read.2)

/-- What is read up to the closing quote, and what comes after it. -/
def parseString : List Char → Option (List Char × List Char)
  | [] => none
  | c :: rest =>
    if c = '\x22' then some ([], rest)
    else if c = '\\' then
      match rest with
      | [] => none
      | e :: rest =>
        if e = 'u' then
          match rest with
          | a :: b :: c :: d :: rest =>
            match parseHex 0 [a, b, c, d] with
            | none => none
            | some n =>
              if isHighSurrogate n then
                match rest with
                | '\\' :: 'u' :: a :: b :: c :: d :: rest =>
                  match parseHex 0 [a, b, c, d] with
                  | none => none
                  | some low =>
                    if isLowSurrogate low then
                      (parseString rest).map
                        (push (Char.ofNat (0x10000 + (n - 0xD800) * 0x400 + (low - 0xDC00))))
                    else none
                | _ => none
              else if isLowSurrogate n then none
              else (parseString rest).map (push (Char.ofNat n))
          | _ => none
        else
          match unescape e with
          | none => none
          | some x => (parseString rest).map (push x)
    else if c.toNat < 0x20 then none
    else (parseString rest).map (push c)

theorem parseString_quote (rest : List Char) : parseString ('\x22' :: rest) = some ([], rest) := by
  rw [parseString.eq_def]
  exact if_pos rfl

/-- An escape of one letter. -/
theorem parseString_unescape {e x : Char} (hu : e ≠ 'u') (h : unescape e = some x) (rest : List Char) :
    parseString ('\\' :: e :: rest) = (parseString rest).map (push x) := by
  rw [parseString.eq_def]
  simp only [if_neg (show '\\' ≠ '\x22' by decide), if_pos, if_neg hu, h]

/-- A control character, escaped with four digits; it is no half of a surrogate pair. -/
theorem parseString_control {c : Char} (hcontrol : c.toNat < 0x20) (rest : List Char) :
    parseString ('\\' :: 'u' :: hexDigits 4 c.toNat ++ rest) = (parseString rest).map (push c) := by
  have hhex := parseHex_hexDigits 4 c.toNat 0
  have hmod : c.toNat % 16 ^ 4 = c.toNat := Nat.mod_eq_of_lt (by omega)
  have hhigh : isHighSurrogate c.toNat = false := by
    rw [isHighSurrogate, decide_eq_false (by omega)]
    rfl
  have hlow : isLowSurrogate c.toNat = false := by
    rw [isLowSurrogate, decide_eq_false (by omega)]
    rfl
  rw [hmod, Nat.zero_mul, Nat.zero_add] at hhex
  simp only [hexDigits] at hhex
  simp only [hexDigits, List.cons_append, List.nil_append]
  rw [parseString.eq_def]
  simp only [hhex, hhigh, hlow, Char.ofNat_toNat]
  rfl

/-- What is escaped is read as one character. -/
theorem parseString_escapeChar (c : Char) (rest : List Char) :
    parseString (escapeChar c ++ rest) = (parseString rest).map (push c) := by
  unfold escapeChar
  split
  · next h =>
    subst h
    exact parseString_unescape (by decide) rfl rest
  split
  · next h =>
    subst h
    exact parseString_unescape (by decide) rfl rest
  split
  · next h =>
    subst h
    exact parseString_unescape (by decide) rfl rest
  split
  · next h =>
    subst h
    exact parseString_unescape (by decide) rfl rest
  split
  · next h =>
    subst h
    exact parseString_unescape (by decide) rfl rest
  split
  · next h =>
    subst h
    exact parseString_unescape (by decide) rfl rest
  split
  · next h =>
    subst h
    exact parseString_unescape (by decide) rfl rest
  split
  · next hcontrol =>
    exact parseString_control hcontrol rest
  · next hquote hbackslash _ _ _ _ _ hprintable =>
    show parseString (c :: rest) = _
    rw [parseString.eq_def]
    simp only [if_neg hquote, if_neg hbackslash, if_neg hprintable]

/-- **Strings round-trip.** -/
theorem parseString_escape (text rest : List Char) :
    parseString (text.flatMap escapeChar ++ '\x22' :: rest) = some (text, rest) := by
  induction text with
  | nil => exact parseString_quote rest
  | cons c text ih =>
    rw [List.flatMap_cons, List.append_assoc, parseString_escapeChar, ih]
    rfl

end Json

/-! ### Values -/

inductive Json
  | null
  | bool (b : Bool)
  | number (n : Json.Number)
  | string (s : String)
  | array (elements : List Json)
  | object (members : List (String × Json))

namespace Json

def renderString (s : String) : List Char := '\x22' :: (s.toList.flatMap escapeChar ++ ['\x22'])

mutual

/-- The compact writer. -/
def render : Json → List Char
  | null => "null".toList
  | bool b => if b then "true".toList else "false".toList
  | number n => n.text
  | string s => renderString s
  | array elements => '[' :: (renderElements true elements ++ [']'])
  | object members => '\x7b' :: (renderMembers true members ++ ['\x7d'])

/-- The elements, with a comma before all but the first. -/
def renderElements (first : Bool) : List Json → List Char
  | [] => []
  | v :: vs => (if first then [] else [',']) ++ (render v ++ renderElements false vs)

def renderMembers (first : Bool) : List (String × Json) → List Char
  | [] => []
  | (key, v) :: ms =>
    (if first then [] else [',']) ++
      (renderString key ++ ':' :: (render v ++ renderMembers false ms))

end

/-! ### The reader -/

def skipWs (text : List Char) : List Char := text.dropWhile isWs

/-- A value without quotes and brackets. -/
def scalar (token : List Char) : Option Json :=
  if token = "null".toList then some null
  else if token = "true".toList then some (bool true)
  else if token = "false".toList then some (bool false)
  else if h : isNumber token = true then some (number ⟨token, h⟩)
  else none

/-- What comes after the comma, which all but the first need. -/
def skipComma (first : Bool) (text : List Char) : Option (List Char) :=
  if first then some text else if text.head? = some ',' then some text.tail else none

/-- A name and the colon after it. -/
def parseKey (text : List Char) : Option (String × List Char) :=
  if text.head? = some '\x22' then
    (parseString text.tail).bind fun (key, rest) =>
      if (skipWs rest).head? = some ':' then some (String.ofList key, (skipWs rest).tail) else none
  else none

mutual

/-- A value and what comes after it, with `fuel` for the calls on the way. -/
def parseValue : ℕ → List Char → Option (Json × List Char)
  | 0, _ => none
  | fuel + 1, text =>
    match skipWs text with
    | [] => none
    | c :: rest =>
      if c = '\x22' then
        (parseString rest).map fun (text, rest) => (string (String.ofList text), rest)
      else if c = '[' then
        (parseElements fuel true rest).map fun (elements, rest) => (array elements, rest)
      else if c = '\x7b' then
        (parseMembers fuel true rest).map fun (members, rest) => (object members, rest)
      else
        (scalar ((c :: rest).takeWhile isScalarChar)).map fun v =>
          (v, (c :: rest).dropWhile isScalarChar)

def parseElements : ℕ → Bool → List Char → Option (List Json × List Char)
  | 0, _, _ => none
  | fuel + 1, first, text =>
    let text := skipWs text
    if text.head? = some ']' then some ([], text.tail)
    else
      (skipComma first text).bind fun text =>
        (parseValue fuel text).bind fun (v, rest) =>
          (parseElements fuel false rest).map fun (vs, rest) => (v :: vs, rest)

def parseMembers : ℕ → Bool → List Char → Option (List (String × Json) × List Char)
  | 0, _, _ => none
  | fuel + 1, first, text =>
    let text := skipWs text
    if text.head? = some '\x7d' then some ([], text.tail)
    else
      (skipComma first text).bind fun text =>
        (parseKey (skipWs text)).bind fun (key, rest) =>
          (parseValue fuel rest).bind fun (v, rest) =>
            (parseMembers fuel false rest).map fun (ms, rest) => ((key, v) :: ms, rest)

end

/-- A text with one value in it and nothing else. -/
def parse (text : List Char) : Option Json :=
  (parseValue (2 * text.length + 2) text).bind fun (v, rest) =>
    if skipWs rest = [] then some v else none

/-! ### The round trip -/

/-- Nothing follows that could belong to a number or a name. -/
def Delimited (rest : List Char) : Prop := ∀ c, rest.head? = some c → isScalarChar c = false

theorem skipWs_of_head {c : Char} (text : List Char) (h : isWs c = false) :
    skipWs (c :: text) = c :: text :=
  List.dropWhile_cons_of_neg (by rw [h]; exact Bool.false_ne_true)

theorem takeWhile_token {token rest : List Char} (htoken : token.all isScalarChar = true)
    (hrest : Delimited rest) : (token ++ rest).takeWhile isScalarChar = token := by
  rw [List.takeWhile_append_of_pos (List.all_eq_true.mp htoken)]
  cases rest with
  | nil => rw [List.takeWhile_nil, List.append_nil]
  | cons c rest =>
    rw [List.takeWhile_cons_of_neg (by rw [hrest c rfl]; exact Bool.false_ne_true), List.append_nil]

theorem dropWhile_token {token rest : List Char} (htoken : token.all isScalarChar = true)
    (hrest : Delimited rest) : (token ++ rest).dropWhile isScalarChar = rest := by
  rw [List.dropWhile_append_of_pos (List.all_eq_true.mp htoken)]
  cases rest with
  | nil => rfl
  | cons c rest => exact List.dropWhile_cons_of_neg (by rw [hrest c rfl]; exact Bool.false_ne_true)

/-- A scalar character is neither white space nor a bracket nor a quote. -/
theorem plain_of_isScalarChar {c : Char} (h : isScalarChar c = true) :
    isWs c = false ∧ c ≠ '\x22' ∧ c ≠ '[' ∧ c ≠ ']' ∧ c ≠ '\x7b' := by
  have hne : ∀ d, isScalarChar d = false → c ≠ d := by
    intro d hd hcd
    rw [hcd, hd] at h
    cases h
  refine ⟨?_, hne _ rfl, hne _ rfl, hne _ rfl, hne _ rfl⟩
  simp only [isWs, decide_eq_false (hne ' ' rfl), decide_eq_false (hne '\n' rfl),
    decide_eq_false (hne '\t' rfl), decide_eq_false (hne '\r' rfl)]
  rfl

theorem parseValue_scalar {token rest : List Char} {v : Json} (hne : token ≠ [])
    (htoken : token.all isScalarChar = true) (hrest : Delimited rest) (hv : scalar token = some v)
    (fuel : ℕ) : parseValue (fuel + 1) (token ++ rest) = some (v, rest) := by
  have htake := takeWhile_token htoken hrest
  have hdrop := dropWhile_token htoken hrest
  cases token with
  | nil => exact absurd rfl hne
  | cons c token =>
    rw [List.all_cons, Bool.and_eq_true_iff] at htoken
    obtain ⟨hws, hquote, hopen, -, hbrace⟩ := plain_of_isScalarChar htoken.1
    rw [List.cons_append] at htake hdrop ⊢
    simp only [parseValue, skipWs_of_head (token ++ rest) hws, if_neg hquote, if_neg hopen,
      if_neg hbrace, htake, hdrop, hv]
    rfl

theorem scalar_number (n : Number) : scalar n.text = some (number n) := by
  have hne : ∀ token, isNumber token = false → n.text ≠ token := by
    intro token htoken hsame
    have h := n.valid
    rw [hsame, htoken] at h
    cases h
  rw [scalar, if_neg (hne _ rfl), if_neg (hne _ rfl), if_neg (hne _ rfl), dif_pos n.valid]

theorem parseString_renderString (s : String) (rest : List Char) :
    parseString (s.toList.flatMap escapeChar ++ ['\x22'] ++ rest) = some (s.toList, rest) := by
  rw [List.append_assoc]
  exact parseString_escape s.toList rest

/-- What a value starts with. -/
theorem render_eq_cons (v : Json) : ∃ c text, v.render = c :: text ∧ isWs c = false ∧ c ≠ ']' := by
  cases v with
  | null => exact ⟨_, _, rfl, rfl, by decide⟩
  | bool b =>
    cases b with
    | false => exact ⟨_, _, rfl, rfl, by decide⟩
    | true => exact ⟨_, _, rfl, rfl, by decide⟩
  | number n =>
    have hscalar := n.scalar
    rw [render]
    cases htext : n.text with
    | nil => exact absurd htext n.text_ne_nil
    | cons c text =>
      rw [htext, List.all_cons, Bool.and_eq_true_iff] at hscalar
      have hplain := plain_of_isScalarChar hscalar.1
      exact ⟨c, text, rfl, hplain.1, hplain.2.2.2.1⟩
  | string s =>
    rw [render]
    exact ⟨_, _, rfl, rfl, by decide⟩
  | array elements =>
    rw [render]
    exact ⟨_, _, rfl, rfl, by decide⟩
  | object members =>
    rw [render]
    exact ⟨_, _, rfl, rfl, by decide⟩

mutual

/-- The fuel that reading a value back takes. -/
def size : Json → ℕ
  | null => 1
  | bool _ => 1
  | number _ => 1
  | string _ => 1
  | array elements => 1 + sizeElements elements
  | object members => 1 + sizeMembers members

def sizeElements : List Json → ℕ
  | [] => 1
  | v :: vs => 1 + (size v + sizeElements vs)

def sizeMembers : List (String × Json) → ℕ
  | [] => 1
  | (_, v) :: ms => 1 + (size v + sizeMembers ms)

end

theorem delimited_cons {c : Char} (rest : List Char) (h : isScalarChar c = false) :
    Delimited (c :: rest) := by
  intro d hd
  cases hd
  exact h

theorem delimited_elements (vs : List Json) (rest : List Char) :
    Delimited (renderElements false vs ++ ']' :: rest) := by
  cases vs with
  | nil =>
    rw [renderElements]
    exact delimited_cons rest rfl
  | cons v vs =>
    rw [renderElements]
    exact delimited_cons _ rfl

theorem delimited_members (ms : List (String × Json)) (rest : List Char) :
    Delimited (renderMembers false ms ++ '\x7d' :: rest) := by
  cases ms with
  | nil =>
    rw [renderMembers]
    exact delimited_cons rest rfl
  | cons m ms =>
    rw [renderMembers]
    exact delimited_cons _ rfl

/-- A name is read back up to its colon. -/
theorem parseKey_renderString (key : String) (rest : List Char) :
    parseKey (skipWs (renderString key ++ ':' :: rest)) = some (key, rest) := by
  have hread := parseString_renderString key (':' :: rest)
  rw [renderString, List.cons_append, skipWs_of_head _ rfl, parseKey, if_pos (by rfl), List.tail_cons,
    hread, Option.bind_some]
  simp only [skipWs_of_head rest (show isWs ':' = false from rfl), String.ofList_toList]
  rfl

/-- The white space and the comma in front of an element. -/
theorem skipComma_element {first : Bool} {c close : Char} {text : List Char} (hws : isWs c = false)
    (hclose : c ≠ close) (hcomma : ',' ≠ close) :
    (skipWs ((if first then [] else [',']) ++ c :: text)).head? ≠ some close ∧
      skipComma first (skipWs ((if first then [] else [',']) ++ c :: text)) = some (c :: text) := by
  cases first with
  | true =>
    rw [if_pos rfl, List.nil_append, skipWs_of_head text hws]
    refine ⟨fun h => hclose (Option.some.inj h), rfl⟩
  | false =>
    rw [if_neg Bool.false_ne_true, List.singleton_append, skipWs_of_head _ rfl]
    refine ⟨fun h => hcomma (Option.some.inj h), rfl⟩

mutual

/-- A value is read back, whatever comes after it that is not part of it. -/
theorem parseValue_render (v : Json) (fuel : ℕ) (rest : List Char) (hfuel : size v ≤ fuel)
    (hrest : Delimited rest) : parseValue fuel (render v ++ rest) = some (v, rest) := by
  cases fuel with
  | zero =>
    have hpos : 0 < size v := by cases v <;> simp [size]
    omega
  | succ fuel =>
    cases v with
    | null =>
      rw [render]
      exact parseValue_scalar (by decide) rfl hrest rfl fuel
    | bool b =>
      rw [render]
      cases b with
      | false => exact parseValue_scalar (by decide) rfl hrest rfl fuel
      | true => exact parseValue_scalar (by decide) rfl hrest rfl fuel
    | number n =>
      rw [render]
      exact parseValue_scalar n.text_ne_nil n.scalar hrest (scalar_number n) fuel
    | string s =>
      have hread := parseString_renderString s rest
      rw [render, renderString, List.cons_append, parseValue, skipWs_of_head _ rfl]
      simp only [if_pos, hread]
      rw [Option.map_some, String.ofList_toList]
    | array elements =>
      have hsize : sizeElements elements ≤ fuel := by
        rw [size] at hfuel
        omega
      have hread := parseElements_render elements true fuel rest hsize
      rw [render, List.cons_append, parseValue, skipWs_of_head _ rfl]
      simp only [if_neg (show '[' ≠ '\x22' by decide), if_pos, List.append_assoc,
        List.singleton_append, hread]
      rfl
    | object members =>
      have hsize : sizeMembers members ≤ fuel := by
        rw [size] at hfuel
        omega
      have hread := parseMembers_render members true fuel rest hsize
      rw [render, List.cons_append, parseValue, skipWs_of_head _ rfl]
      simp only [if_neg (show '\x7b' ≠ '\x22' by decide), if_neg (show '\x7b' ≠ '[' by decide), if_pos,
        List.append_assoc, List.singleton_append, hread]
      rfl
termination_by structural v

theorem parseElements_render (vs : List Json) (first : Bool) (fuel : ℕ) (rest : List Char)
    (hfuel : sizeElements vs ≤ fuel) :
    parseElements fuel first (renderElements first vs ++ ']' :: rest) = some (vs, rest) := by
  cases fuel with
  | zero =>
    have hpos : 0 < sizeElements vs := by cases vs <;> simp [sizeElements]
    omega
  | succ fuel =>
    cases vs with
    | nil =>
      rw [renderElements, List.nil_append, parseElements]
      rfl
    | cons v vs =>
      rw [sizeElements] at hfuel
      have hvalue := parseValue_render v fuel (renderElements false vs ++ ']' :: rest) (by omega)
        (delimited_elements vs rest)
      have hmore := parseElements_render vs false fuel rest (by omega)
      obtain ⟨c, text, hhead, hws, hclose⟩ := render_eq_cons v
      rw [renderElements, List.append_assoc, List.append_assoc]
      rw [hhead, List.cons_append] at hvalue ⊢
      obtain ⟨hopen, hcomma⟩ := @skipComma_element first c ']'
        (text ++ (renderElements false vs ++ ']' :: rest)) hws hclose (by decide)
      rw [parseElements, if_neg hopen, hcomma, Option.bind_some, hvalue, Option.bind_some]
      simp only [hmore]
      rfl
termination_by structural vs

theorem parseMembers_render (ms : List (String × Json)) (first : Bool) (fuel : ℕ) (rest : List Char)
    (hfuel : sizeMembers ms ≤ fuel) :
    parseMembers fuel first (renderMembers first ms ++ '\x7d' :: rest) = some (ms, rest) := by
  cases fuel with
  | zero =>
    have hpos : 0 < sizeMembers ms := by
      cases ms with
      | nil => exact Nat.one_pos
      | cons m ms =>
        rw [sizeMembers]
        omega
    omega
  | succ fuel =>
    cases ms with
    | nil =>
      rw [renderMembers, List.nil_append, parseMembers]
      rfl
    | cons m ms =>
      obtain ⟨key, v⟩ := m
      rw [sizeMembers] at hfuel
      have hvalue := parseValue_render v fuel (renderMembers false ms ++ '\x7d' :: rest) (by omega)
        (delimited_members ms rest)
      have hmore := parseMembers_render ms false fuel rest (by omega)
      have hkey := parseKey_renderString key (render v ++ (renderMembers false ms ++ '\x7d' :: rest))
      have hform : renderMembers first ((key, v) :: ms) ++ '\x7d' :: rest =
          (if first then [] else [',']) ++ (renderString key ++
            ':' :: (render v ++ (renderMembers false ms ++ '\x7d' :: rest))) := by
        rw [renderMembers]
        simp only [List.append_assoc, List.cons_append]
      obtain ⟨hopen, hcomma⟩ := @skipComma_element first '\x22' '\x7d'
        (key.toList.flatMap escapeChar ++ ['\x22'] ++
          ':' :: (render v ++ (renderMembers false ms ++ '\x7d' :: rest))) rfl (by decide) (by decide)
      rw [hform]
      rw [renderString, List.cons_append] at hkey ⊢
      rw [parseMembers, if_neg hopen, hcomma, Option.bind_some, hkey, Option.bind_some]
      simp only [hvalue, Option.bind_some, hmore]
      rfl
termination_by structural ms

end

mutual

/-- Every character but the brackets is worth two calls. -/
theorem size_le (v : Json) : size v ≤ 2 * (render v).length := by
  cases v with
  | null => decide
  | bool b => cases b <;> decide
  | number n =>
    have hpos := List.length_pos_of_ne_nil n.text_ne_nil
    rw [size, render]
    omega
  | string s =>
    rw [size, render, renderString, List.length_cons]
    omega
  | array elements =>
    have hle := sizeElements_le elements true
    rw [if_pos rfl] at hle
    rw [size, render, List.length_cons, List.length_append, List.length_singleton]
    omega
  | object members =>
    have hle := sizeMembers_le members true
    rw [size, render, List.length_cons, List.length_append, List.length_singleton]
    omega
termination_by structural v

theorem sizeElements_le (vs : List Json) (first : Bool) :
    sizeElements vs ≤ 2 * (renderElements first vs).length + if first then 2 else 1 := by
  cases vs with
  | nil =>
    rw [sizeElements]
    split <;> omega
  | cons v vs =>
    have hhead := size_le v
    have htail := sizeElements_le vs false
    rw [if_neg Bool.false_ne_true] at htail
    rw [sizeElements, renderElements, List.length_append, List.length_append]
    cases first with
    | true =>
      rw [if_pos rfl, if_pos rfl]
      omega
    | false =>
      rw [if_neg Bool.false_ne_true, if_neg Bool.false_ne_true, List.length_singleton]
      omega
termination_by structural vs

theorem sizeMembers_le (ms : List (String × Json)) (first : Bool) :
    sizeMembers ms ≤ 2 * (renderMembers first ms).length + 1 := by
  cases ms with
  | nil =>
    rw [sizeMembers]
    omega
  | cons m ms =>
    obtain ⟨key, v⟩ := m
    have hhead := size_le v
    have htail := sizeMembers_le ms false
    rw [sizeMembers, renderMembers, List.length_append, List.length_append, List.length_cons,
      List.length_append]
    omega
termination_by structural ms

end

/-- **Values round-trip.** -/
theorem parse_render (v : Json) : parse (render v) = some v := by
  have hsize := size_le v
  have hread := parseValue_render v (2 * (render v).length + 2) [] (by omega) (fun c hc => (by cases hc))
  rw [List.append_nil] at hread
  rw [parse, hread]
  rfl

/-! ### Reading -/

def asBool : Json → Option Bool
  | bool b => some b
  | _ => none

def asString : Json → Option String
  | string s => some s
  | _ => none

def ofNat (n : ℕ) : Json := number (Number.ofNat n)

/-- An unsigned integer below `limit`. -/
def asNat (limit : ℕ) : Json → Option ℕ
  | number n => n.toNat? limit
  | _ => none

section

variable {α : Type} (decode : Json → Option α) (encode : α → Json)

def asOption : Json → Option (Option α)
  | null => some none
  | v => (decode v).map some

def ofOption : Option α → Json
  | none => null
  | some a => encode a

def asArray : Json → Option (List α)
  | array elements => elements.mapM decode
  | _ => none

/-- The name of a variant without content: the text, or an object with `null` for it. -/
def asVariant : Json → Option String
  | string s => some s
  | object [(name, null)] => some name
  | _ => none

theorem asBool_bool (b : Bool) : asBool (bool b) = some b := rfl

theorem asString_string (s : String) : asString (string s) = some s := rfl

theorem asNat_ofNat {n limit : ℕ} (h : n < limit) : asNat limit (ofNat n) = some n := toNat?_ofNat h

variable {decode encode}

theorem asOption_ofOption (h : ∀ a, decode (encode a) = some a) (hnull : ∀ a, encode a ≠ null)
    (a : Option α) : asOption decode (ofOption encode a) = some a := by
  cases a with
  | none => rfl
  | some a =>
    rw [ofOption, asOption, h a]
    · rfl
    · exact hnull a

theorem asArray_map (h : ∀ a, decode (encode a) = some a) (as : List α) :
    asArray decode (array (as.map encode)) = some as := by
  rw [asArray]
  induction as with
  | nil => rfl
  | cons a as ih =>
    rw [List.map_cons, List.mapM_cons, h a, Option.bind_eq_bind, Option.bind_some, ih]
    rfl

/-- An array with an element that is read as another. -/
theorem asArray_replace {v w : Json} (h : decode v = decode w) (before after : List Json) :
    asArray decode (array (before ++ v :: after)) = asArray decode (array (before ++ w :: after)) := by
  rw [asArray, asArray, List.mapM_append, List.mapM_append, List.mapM_cons, List.mapM_cons, h]

end

/-- A type that is written as a string. -/
structure TextCodec (α : Type) where
  print : α → String
  parse : String → Option α
  parse_print : ∀ a, parse (print a) = some a

namespace TextCodec

variable {α : Type} (codec : TextCodec α)

def toJson (a : α) : Json := string (codec.print a)

def ofJson (v : Json) : Option α := (asString v).bind codec.parse

theorem ofJson_toJson (a : α) : codec.ofJson (codec.toJson a) = some a := codec.parse_print a

end TextCodec

/-! #### Records -/

/-- The members of a record: an object, or an array of the first so many fields. -/
def entries (names : List String) : Json → Option (List (String × Json))
  | object members => some members
  | array elements =>
    if elements.length ≤ names.length then some (names.zip elements) else none
  | _ => none

theorem entries_object (names : List String) (members : List (String × Json)) :
    entries names (object members) = some members := rfl

/-- The member of that name, if there is one; it is an error if there are two. -/
def find (members : List (String × Json)) (key : String) : Option (Option Json) :=
  match members.filter fun m => m.1 = key with
  | [] => some none
  | [m] => some (some m.2)
  | _ => none

section

variable {α : Type}

/-- A field with a default. -/
def defaulted (members : List (String × Json)) (key : String) (decode : Json → Option α) (default : α) :
    Option α :=
  (find members key).bind fun found =>
    match found with
    | none => some default
    | some v => decode v

/-- A field without one. -/
def required (members : List (String × Json)) (key : String) (decode : Json → Option α) : Option α :=
  (find members key).bind fun found => found.bind decode

variable {members before after : List (String × Json)} {key : String} {v : Json}
  {decode : Json → Option α} {default : α}

theorem filter_key_eq_nil (h : key ∉ members.map (·.1)) :
    (members.filter fun m => m.1 = key) = [] := by
  rw [List.filter_eq_nil_iff]
  intro m hm hkey
  exact h (of_decide_eq_true hkey ▸ List.mem_map_of_mem hm)

/-- Among different names each is found. -/
theorem find_at (hnodup : (members.map (·.1)).Nodup) {i : ℕ} (h : members[i]? = some (key, v)) :
    find members key = some (some v) := by
  obtain ⟨before, after, hsplit⟩ := List.append_of_mem (List.mem_of_getElem? h)
  rw [hsplit, List.map_append, List.map_cons] at hnodup
  have hapart := List.nodup_middle.mp hnodup
  obtain ⟨hnew, -⟩ := List.nodup_cons.mp hapart
  rw [List.mem_append, not_or] at hnew
  rw [find, hsplit, List.filter_append, filter_key_eq_nil hnew.1, List.filter_cons_of_pos (by simp),
    filter_key_eq_nil hnew.2]
  rfl

theorem defaulted_at (hnodup : (members.map (·.1)).Nodup) (i : ℕ)
    (h : members[i]? = some (key, v)) : defaulted members key decode default = decode v := by
  rw [defaulted, find_at hnodup h, Option.bind_some]

theorem required_at (hnodup : (members.map (·.1)).Nodup) (i : ℕ) (h : members[i]? = some (key, v)) :
    required members key decode = decode v := by
  rw [required, find_at hnodup h, Option.bind_some, Option.bind_some]

/-- One field of a record that is read, and the rest of the record. -/
theorem defaulted_bind {β : Type} {a : α} (hnodup : (members.map (·.1)).Nodup) (i : ℕ)
    (h : members[i]? = some (key, v)) (hv : decode v = some a) (k : α → Option β) :
    (defaulted members key decode default >>= k) = k a := by
  rw [defaulted_at hnodup i h, hv]
  rfl

theorem required_bind {β : Type} {a : α} (hnodup : (members.map (·.1)).Nodup) (i : ℕ)
    (h : members[i]? = some (key, v)) (hv : decode v = some a) (k : α → Option β) :
    (required members key decode >>= k) = k a := by
  rw [required_at hnodup i h, hv]
  rfl

/-- A member of another name changes nothing. -/
theorem find_insert_of_ne {name : String} (h : name ≠ key) :
    find (before ++ (name, v) :: after) key = find (before ++ after) key := by
  rw [find, find, List.filter_append, List.filter_cons_of_neg (by simpa using h), List.filter_append]

theorem find_insert (h : key ∉ (before ++ after).map (·.1)) :
    find (before ++ (key, v) :: after) key = some (some v) ∧ find (before ++ after) key = some none := by
  have hnone := filter_key_eq_nil h
  refine ⟨?_, by rw [find, hnone]⟩
  rw [List.filter_append, List.append_eq_nil_iff] at hnone
  rw [find, List.filter_append, hnone.1, List.filter_cons_of_pos (by simp), hnone.2]
  rfl

theorem required_insert_of_ne {name : String} (h : name ≠ key) :
    required (before ++ (name, v) :: after) key decode = required (before ++ after) key decode := by
  rw [required, required, find_insert_of_ne h]

/-- The default, written out where there was nothing. -/
theorem defaulted_insert {name : String} (habsent : name ∉ (before ++ after).map (·.1))
    (h : name = key → decode v = some default) :
    defaulted (before ++ (name, v) :: after) key decode default =
      defaulted (before ++ after) key decode default := by
  by_cases hname : name = key
  · subst hname
    obtain ⟨hthere, hnot⟩ := @find_insert before after name v habsent
    rw [defaulted, defaulted, hthere, hnot]
    exact h rfl
  · rw [defaulted, defaulted, find_insert_of_ne hname]

/-- Whether a member is the only one of its name does not depend on its value. -/
theorem find_replace (before after : List (String × Json)) (name : String) :
    (∀ v, find (before ++ (name, v) :: after) name = none) ∨
      ∀ v, find (before ++ (name, v) :: after) name = some (some v) := by
  have hsplit : ∀ v : Json, (before ++ (name, v) :: after).filter (fun m => m.1 = name) =
      before.filter (fun m => m.1 = name) ++ (name, v) :: after.filter (fun m => m.1 = name) := by
    intro v
    rw [List.filter_append, List.filter_cons_of_pos (by simp)]
  simp only [find, hsplit]
  cases before.filter (fun m => m.1 = name) with
  | nil =>
    cases after.filter (fun m => m.1 = name) with
    | nil => exact Or.inr fun v => rfl
    | cons m ms => exact Or.inl fun v => rfl
  | cons m ms =>
    cases ms with
    | nil => exact Or.inl fun v => rfl
    | cons m' ms => exact Or.inl fun v => rfl

/-- A field whose values are read alike. -/
theorem defaulted_replace {w : Json} {name : String} (h : name = key → decode v = decode w) :
    defaulted (before ++ (name, v) :: after) key decode default =
      defaulted (before ++ (name, w) :: after) key decode default := by
  by_cases hname : name = key
  · subst hname
    rcases find_replace before after name with hnone | hthere
    · rw [defaulted, defaulted, hnone, hnone]
    · rw [defaulted, defaulted, hthere, hthere]
      exact h rfl
  · rw [defaulted, defaulted, find_insert_of_ne hname, find_insert_of_ne hname]

theorem required_replace {w : Json} {name : String} (h : name = key → decode v = decode w) :
    required (before ++ (name, v) :: after) key decode =
      required (before ++ (name, w) :: after) key decode := by
  by_cases hname : name = key
  · subst hname
    rcases find_replace before after name with hnone | hthere
    · rw [required, required, hnone, hnone]
    · rw [required, required, hthere, hthere]
      exact h rfl
  · rw [required, required, find_insert_of_ne hname, find_insert_of_ne hname]

end

end Json
