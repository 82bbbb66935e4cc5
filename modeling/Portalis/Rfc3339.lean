import Portalis.Instant
import Portalis.Text

/-!
# Reading instants

`parse_time` reads what `to_rfc3339` wrote.  The texts of UTC instants are read here: fields of fixed width
with their separators, a fraction of one to nine digits, and the offset.

* `readDigits_digits`: a numeral of fixed width is read back, whatever follows.
* `ofRfc3339_toRfc3339`: an instant is read back from its text, to the nanosecond.
-/

namespace Rfc3339

open Text Instant

/-! ### Numerals -/

/-- Exactly `n` decimal digits, and what follows. -/
def readDigits : ℕ → ℕ → List Char → Option (ℕ × List Char)
  | 0, acc, text => some (acc, text)
  | _ + 1, _, [] => none
  | n + 1, acc, c :: text => (decimalDigit? c).bind fun d => readDigits n (acc * 10 + d) text

/-- Decimal digits as far as they go: their value, their number, and what follows. -/
def readRun (acc count : ℕ) : List Char → ℕ × ℕ × List Char
  | [] => (acc, count, [])
  | c :: text =>
    match decimalDigit? c with
    | some d => readRun (acc * 10 + d) (count + 1) text
    | none => (acc, count, c :: text)

theorem decimalDigit?_digit : ∀ {d : ℕ}, d < 10 → decimalDigit? (digit d) = some d := by
  decide

/-- The leading digit and the others. -/
theorem leading_digit (n x acc : ℕ) :
    (acc * 10 + x / 10 ^ n % 10) * 10 ^ n + x % 10 ^ n = acc * 10 ^ (n + 1) + x % 10 ^ (n + 1) := by
  have hsplit : x % 10 ^ (n + 1) = x / 10 ^ n % 10 * 10 ^ n + x % 10 ^ n := by
    rw [pow_succ, Nat.mod_mul]
    ring
  rw [hsplit, pow_succ]
  ring

theorem readDigits_digits (n x acc : ℕ) (rest : List Char) :
    readDigits n acc (digits n x ++ rest) = some (acc * 10 ^ n + x % 10 ^ n, rest) := by
  induction n generalizing acc with
  | zero =>
    show some (acc, rest) = some (acc * 10 ^ 0 + x % 10 ^ 0, rest)
    rw [pow_zero, Nat.mul_one, Nat.mod_one, Nat.add_zero]
  | succ n ih =>
    have hdigit : x / 10 ^ n % 10 < 10 := by omega
    show (decimalDigit? (digit (x / 10 ^ n % 10))).bind
      (fun d => readDigits n (acc * 10 + d) (digits n x ++ rest)) = _
    rw [decimalDigit?_digit hdigit, Option.bind_some, ih, leading_digit]

theorem readDigits_of_lt {n x : ℕ} (h : x < 10 ^ n) (rest : List Char) :
    readDigits n 0 (digits n x ++ rest) = some (x, rest) := by
  rw [readDigits_digits, Nat.zero_mul, Nat.zero_add, Nat.mod_eq_of_lt h]

/-- A run of digits ends at the first other character. -/
theorem readRun_digits {n : ℕ} (x acc count : ℕ) {c : Char} (hc : decimalDigit? c = none)
    (rest : List Char) :
    readRun acc count (digits n x ++ c :: rest) =
      (acc * 10 ^ n + x % 10 ^ n, count + n, c :: rest) := by
  induction n generalizing acc count with
  | zero =>
    have hstop : readRun acc count (c :: rest) = (acc, count, c :: rest) := by
      simp only [readRun, hc]
    show readRun acc count (c :: rest) = _
    rw [hstop, pow_zero, Nat.mul_one, Nat.mod_one, Nat.add_zero, Nat.add_zero]
  | succ n ih =>
    have hdigit : x / 10 ^ n % 10 < 10 := by omega
    show readRun acc count (digit (x / 10 ^ n % 10) :: (digits n x ++ c :: rest)) = _
    rw [readRun, decimalDigit?_digit hdigit]
    show readRun (acc * 10 + x / 10 ^ n % 10) (count + 1) (digits n x ++ c :: rest) = _
    rw [ih, leading_digit, Nat.add_right_comm count 1 n, Nat.add_assoc count n 1]

/-! ### Fractions -/

/-- A fraction after a point, in nanoseconds; without a point it is zero. -/
def readFraction : List Char → Option (ℕ × List Char)
  | '.' :: text =>
    let (value, count, rest) := readRun 0 0 text
    if 1 ≤ count ∧ count ≤ 9 then some (value * 10 ^ (9 - count), rest) else none
  | text => some (0, text)

theorem readFraction_digits {k x : ℕ} (hpos : 1 ≤ k) (hle : k ≤ 9) (hx : x < 10 ^ k) {c : Char}
    (hc : decimalDigit? c = none) (rest : List Char) :
    readFraction ('.' :: (digits k x ++ c :: rest)) = some (x * 10 ^ (9 - k), c :: rest) := by
  have hrun := @readRun_digits k x 0 0 c hc rest
  rw [Nat.zero_mul, Nat.zero_add, Nat.zero_add, Nat.mod_eq_of_lt hx] at hrun
  rw [readFraction, hrun]
  exact if_pos ⟨hpos, hle⟩

theorem readFraction_fraction {nanos : ℕ} (h : nanos < 10 ^ 9) :
    readFraction (fraction nanos ++ utcOffset) = some (nanos, utcOffset) := by
  have hplus : decimalDigit? '+' = none := by decide
  by_cases hzero : nanos = 0
  · rw [hzero]
    rfl
  · obtain ⟨k, hle, hexact, hfraction⟩ := exists_fraction_eq hzero
    have hwhole : nanos / 10 ^ (9 - k) * 10 ^ (9 - k) = nanos :=
      Nat.div_mul_cancel (Nat.dvd_of_mod_eq_zero hexact)
    have hpos : 1 ≤ k := by
      rcases Nat.eq_zero_or_pos k with rfl | hpos
      · rw [Nat.div_eq_of_lt (by simpa using h), Nat.zero_mul] at hwhole
        omega
      · exact hpos
    have hlt : nanos / 10 ^ (9 - k) < 10 ^ k := by
      rw [Nat.div_lt_iff_lt_mul (Nat.pow_pos (by decide)), ← Nat.pow_add,
        show k + (9 - k) = 9 by omega]
      exact h
    rw [hfraction]
    show readFraction ('.' :: (digits k (nanos / 10 ^ (9 - k)) ++ utcOffset)) = _
    rw [show utcOffset = '+' :: ['0', '0', ':', '0', '0'] from rfl,
      readFraction_digits hpos hle hlt hplus, hwhole]

/-! ### Instants -/

/-- The given character, and what follows. -/
def expect (c : Char) : List Char → Option (List Char)
  | [] => none
  | d :: text => if d = c then some text else none

theorem expect_cons (c : Char) (text : List Char) : expect c (c :: text) = some text :=
  if_pos rfl

end Rfc3339

namespace DateTime

open Instant Rfc3339

/-- The instant with these fields, where there is one. -/
def ofFields (year month day hour minute second nanos : ℕ) : Option DateTime :=
  if h : year < 10000 ∧ (1 ≤ month ∧ month ≤ 12) ∧ (1 ≤ day ∧ day ≤ daysInMonth year month) ∧
      hour < 24 ∧ minute < 60 ∧ second < 60 ∧ nanos < 1000000000 then
    some ⟨year, month, day, hour, minute, second, nanos, h.1, h.2.1, h.2.2.1, h.2.2.2.1, h.2.2.2.2.1,
      h.2.2.2.2.2.1, h.2.2.2.2.2.2⟩
  else none

/-- `DateTime::parse_from_rfc3339`, on the texts of UTC instants. -/
def ofRfc3339 (text : String) : Option DateTime := do
  let (year, text) ← readDigits 4 0 text.toList
  let text ← expect '-' text
  let (month, text) ← readDigits 2 0 text
  let text ← expect '-' text
  let (day, text) ← readDigits 2 0 text
  let text ← expect 'T' text
  let (hour, text) ← readDigits 2 0 text
  let text ← expect ':' text
  let (minute, text) ← readDigits 2 0 text
  let text ← expect ':' text
  let (second, text) ← readDigits 2 0 text
  let (nanos, text) ← readFraction text
  if text = utcOffset then ofFields year month day hour minute second nanos else none

theorem ofFields_self (t : DateTime) :
    ofFields t.year t.month t.day t.hour t.minute t.second t.nanos = some t :=
  dif_pos ⟨t.year_lt, t.month_le, t.day_le, t.hour_lt, t.minute_lt, t.second_lt, t.nanos_lt⟩

/-- **Instants round-trip.** -/
theorem ofRfc3339_toRfc3339 (t : DateTime) : ofRfc3339 t.toRfc3339 = some t := by
  have hyear : t.year < 10 ^ 4 := by
    have h := t.year_lt
    omega
  have hmonth : t.month < 10 ^ 2 := by
    have h := t.month_le.2
    omega
  have hhour : t.hour < 10 ^ 2 := by
    have h := t.hour_lt
    omega
  have hminute : t.minute < 10 ^ 2 := by
    have h := t.minute_lt
    omega
  have hsecond : t.second < 10 ^ 2 := by
    have h := t.second_lt
    omega
  have hfields := t.ofFields_self
  simp only [ofRfc3339, toRfc3339, String.toList_ofList, rfc3339Chars, bind, Option.bind_some,
    readDigits_of_lt hyear, readDigits_of_lt hmonth, readDigits_of_lt t.day_lt,
    readDigits_of_lt hhour, readDigits_of_lt hminute, readDigits_of_lt hsecond, expect_cons,
    readFraction_fraction t.nanos_lt, if_true, hfields]

end DateTime
