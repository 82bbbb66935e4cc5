import Mathlib

/-!
# Instants and their text

UTC instants with nanosecond precision and four-digit years, and the RFC 3339 text a clock library
writes for them: fixed-width fields, then a fraction of 0, 3, 6 or 9 digits, the fewest that are exact,
then `+00:00`.

* `toRfc3339_lt_iff`: the text is in chronological order, byte by byte.  Widths are fixed up to the
  fraction; after it the plus sign sorts below the point, and both sort below the digits.
* `toZulu_lt_iff`: with `Z` for the offset and a fraction without trailing zeros it is not.
* `argmax_eq_some_iff_split`: the latest element of a list, the first of those that tie.
-/

namespace Instant

/-! ### Strings of one length -/

theorem append_lt_append_iff {as bs xs ys : List Char} (h : as.length = bs.length) :
    as ++ xs < bs ++ ys ↔ as < bs ∨ as = bs ∧ xs < ys := by
  induction as generalizing bs with
  | nil =>
    have hbs : bs = [] := by simpa using h.symm
    subst hbs
    simp
  | cons a as ih =>
    cases bs with
    | nil => simp at h
    | cons b bs =>
      simp only [List.length_cons, Nat.add_right_cancel_iff] at h
      simp only [List.cons_append, List.cons_lt_cons_iff, ih h, List.cons.injEq]
      tauto

/-! ### Decimal digits -/

def digit (d : ℕ) : Char := Char.ofNat (48 + d)

/-- The `n` decimal digits of `x`, most significant first; what does not fit is dropped. -/
def digits : ℕ → ℕ → List Char
  | 0, _ => []
  | n + 1, x => digit (x / 10 ^ n % 10) :: digits n x

@[simp] theorem digits_length (n x : ℕ) : (digits n x).length = n := by
  induction n with
  | zero => rfl
  | succ n ih => simp only [digits, List.length_cons, ih]

theorem digit_lt_iff {d e : ℕ} (hd : d < 10) (he : e < 10) : digit d < digit e ↔ d < e := by
  have hall : ∀ d < 10, ∀ e < 10, (digit d < digit e ↔ d < e) := by decide
  exact hall d hd e he

theorem digit_inj {d e : ℕ} (hd : d < 10) (he : e < 10) : digit d = digit e ↔ d = e := by
  have hall : ∀ d < 10, ∀ e < 10, (digit d = digit e ↔ d = e) := by decide
  exact hall d hd e he

theorem plus_lt_digit : ∀ {d : ℕ}, d < 10 → '+' < digit d := by
  decide

theorem digits_mod (n x : ℕ) : digits n (x % 10 ^ n) = digits n x := by
  have hgen : ∀ m n, n ≤ m → digits n (x % 10 ^ m) = digits n x := by
    intro m n
    induction n with
    | zero => intro _; rfl
    | succ n ih =>
      intro hn
      have hpow : (10 : ℕ) ^ m = 10 ^ n * 10 ^ (m - n) := by
        rw [← Nat.pow_add]
        congr 1
        omega
      have hten : (10 : ℕ) ^ (m - n) = 10 * 10 ^ (m - n - 1) := by
        rw [← Nat.pow_succ']
        congr 1
        omega
      rw [digits, digits, ih (by omega), hpow, Nat.mod_mul_right_div_self, hten,
        Nat.mod_mul_right_mod]
  exact hgen n n (le_refl n)

/-- **Numerals of one width are in numeric order.** -/
theorem digits_lt_iff {n : ℕ} : ∀ {x y : ℕ}, x < 10 ^ n → y < 10 ^ n →
    (digits n x < digits n y ↔ x < y) ∧ (digits n x = digits n y ↔ x = y) := by
  induction n with
  | zero =>
    intro x y hx hy
    have hx0 : x = 0 := by omega
    have hy0 : y = 0 := by omega
    subst hx0 hy0
    simp [digits]
  | succ n ih =>
    intro x y hx hy
    have hpos : 0 < 10 ^ n := by positivity
    have hquot : ∀ {z : ℕ}, z < 10 ^ (n + 1) → z / 10 ^ n < 10 := by
      intro z hz
      rw [Nat.div_lt_iff_lt_mul hpos, Nat.mul_comm]
      rwa [Nat.pow_succ] at hz
    have hlead : ∀ {z : ℕ}, z < 10 ^ (n + 1) → z / 10 ^ n % 10 = z / 10 ^ n :=
      fun hz => Nat.mod_eq_of_lt (hquot hz)
    obtain ⟨hlt, heq⟩ := ih (Nat.mod_lt x hpos) (Nat.mod_lt y hpos)
    rw [digits_mod, digits_mod] at hlt heq
    rw [digits, digits, List.cons_lt_cons_iff, List.cons.injEq, hlead hx, hlead hy,
      digit_lt_iff (hquot hx) (hquot hy), digit_inj (hquot hx) (hquot hy), hlt, heq]
    have hxd := Nat.div_add_mod x (10 ^ n)
    have hyd := Nat.div_add_mod y (10 ^ n)
    have hxm := Nat.mod_lt x hpos
    have hym := Nat.mod_lt y hpos
    constructor
    · constructor
      · rintro (h | ⟨h, h'⟩)
        · have hmul : 10 ^ n * (x / 10 ^ n + 1) ≤ 10 ^ n * (y / 10 ^ n) :=
            Nat.mul_le_mul_left _ h
          rw [Nat.mul_add] at hmul
          omega
        · rw [h] at hxd
          omega
      · intro h
        rcases Nat.lt_or_eq_of_le (Nat.div_le_div_right h.le : x / 10 ^ n ≤ y / 10 ^ n) with hq | hq
        · exact Or.inl hq
        · refine Or.inr ⟨hq, ?_⟩
          rw [hq] at hxd
          omega
    · constructor
      · rintro ⟨h, h'⟩
        rw [← hxd, ← hyd, h, h']
      · rintro rfl
        exact ⟨rfl, rfl⟩

/-- Digits of a wider numeral are the digits of its two halves. -/
theorem digits_add (m n x : ℕ) : digits (m + n) x = digits m (x / 10 ^ n) ++ digits n x := by
  induction m with
  | zero => simp [digits]
  | succ m ih =>
    rw [Nat.succ_add, digits, digits, ih, List.cons_append, Nat.div_div_eq_div_mul, ← Nat.pow_add,
      Nat.add_comm n m]

/-! ### Fractions -/

/-- What follows the seconds after the fraction: the offset of UTC. -/
def utcOffset : List Char := ['+', '0', '0', ':', '0', '0']

/-- The fraction of `nanos` nanoseconds, in the fewest of 0, 3, 6 or 9 digits that are exact. -/
def fraction (nanos : ℕ) : List Char :=
  if nanos = 0 then []
  else if nanos % 10 ^ 6 = 0 then '.' :: digits 3 (nanos / 10 ^ 6)
  else if nanos % 10 ^ 3 = 0 then '.' :: digits 6 (nanos / 10 ^ 3)
  else '.' :: digits 9 nanos

theorem exists_fraction_eq {nanos : ℕ} (h : nanos ≠ 0) :
    ∃ k ≤ 9, nanos % 10 ^ (9 - k) = 0 ∧
      fraction nanos = '.' :: digits k (nanos / 10 ^ (9 - k)) := by
  unfold fraction
  rw [if_neg h]
  split
  · exact ⟨3, by decide, by assumption, rfl⟩
  · split
    · exact ⟨6, by decide, by assumption, rfl⟩
    · exact ⟨9, by decide, Nat.mod_one _, by simp⟩

/-- Numerals that drop trailing zeros are in the order of the fractions they spell. -/
theorem scaled_lt {x y k l : ℕ} (hk : k ≤ 9) (hl : l ≤ 9) (hly : y % 10 ^ (9 - l) = 0)
    (hxy : x < y) (hy : y < 10 ^ 9) :
    digits k (x / 10 ^ (9 - k)) ++ utcOffset < digits l (y / 10 ^ (9 - l)) ++ utcOffset := by
  have hbound : ∀ {z m : ℕ}, z < 10 ^ 9 → m ≤ 9 → z / 10 ^ (9 - m) < 10 ^ m := by
    intro z m hz hm
    rw [Nat.div_lt_iff_lt_mul (by positivity), ← Nat.pow_add]
    rwa [show m + (9 - m) = 9 by omega]
  -- the leading digits of the longer numeral
  have hhead : ∀ {z m n : ℕ}, m ≤ n → n ≤ 9 → digits n (z / 10 ^ (9 - n)) =
      digits m (z / 10 ^ (9 - m)) ++ digits (n - m) (z / 10 ^ (9 - n)) := by
    intro z m n hmn hn
    have hdiv : z / 10 ^ (9 - n) / 10 ^ (n - m) = z / 10 ^ (9 - m) := by
      rw [Nat.div_div_eq_div_mul, ← Nat.pow_add]
      congr 2
      omega
    rw [← hdiv, ← digits_add, show m + (n - m) = n by omega]
  have hx : x < 10 ^ 9 := hxy.trans hy
  rcases Nat.lt_or_ge k l with hkl | hlk
  · rw [hhead hkl.le hl, List.append_assoc]
    have hle : x / 10 ^ (9 - k) ≤ y / 10 ^ (9 - k) := Nat.div_le_div_right hxy.le
    rcases Nat.lt_or_eq_of_le hle with hlt | heq
    · exact (append_lt_append_iff (by simp)).mpr
        (Or.inl ((digits_lt_iff (hbound hx hk) (hbound hy hk)).1.mpr hlt))
    · -- the shorter numeral has ended, and a digit sorts above the plus sign
      obtain ⟨n, hn⟩ : ∃ n, l - k = n + 1 := ⟨l - k - 1, by omega⟩
      rw [append_lt_append_iff (by simp), heq, hn, digits, utcOffset, List.cons_append,
        List.cons_lt_cons_iff]
      exact Or.inr ⟨rfl, Or.inl (plus_lt_digit (Nat.mod_lt _ (by decide)))⟩
  · have hlt : x / 10 ^ (9 - l) < y / 10 ^ (9 - l) :=
      (Nat.div_lt_iff_lt_mul (by positivity)).mpr (by
        rwa [Nat.div_mul_cancel (Nat.dvd_of_mod_eq_zero hly)])
    rw [hhead hlk hk, List.append_assoc]
    exact (append_lt_append_iff (by simp)).mpr
      (Or.inl ((digits_lt_iff (hbound hx hl) (hbound hy hl)).1.mpr hlt))

theorem fraction_lt_iff {x y : ℕ} (hx : x < 10 ^ 9) (hy : y < 10 ^ 9) :
    fraction x ++ utcOffset < fraction y ++ utcOffset ↔ x < y := by
  have hmono : ∀ {x y : ℕ}, x < y → y < 10 ^ 9 →
      fraction x ++ utcOffset < fraction y ++ utcOffset := by
    intro x y hxy hy
    obtain ⟨l, hl, hly, hfy⟩ := exists_fraction_eq (show y ≠ 0 by omega)
    rw [hfy]
    by_cases hx : x = 0
    · subst hx
      exact List.cons_lt_cons_iff.mpr (Or.inl (by decide))
    · obtain ⟨k, hk, -, hfx⟩ := exists_fraction_eq hx
      rw [hfx, List.cons_append, List.cons_append, List.cons_lt_cons_iff]
      exact Or.inr ⟨rfl, scaled_lt hk hl hly hxy hy⟩
  constructor
  · intro hlt
    rcases Nat.lt_trichotomy x y with h | rfl | h
    · exact h
    · exact absurd hlt (lt_irrefl _)
    · exact absurd hlt (lt_asymm (hmono h hx))
  · intro h
    exact hmono h hy

/-! ### Instants -/

def daysInMonth (year month : ℕ) : ℕ :=
  if month = 2 then (if year % 4 = 0 ∧ (year % 100 ≠ 0 ∨ year % 400 = 0) then 29 else 28)
  else if month = 4 ∨ month = 6 ∨ month = 9 ∨ month = 11 then 30 else 31

end Instant

open Instant in
/-- A UTC instant: a date with a four-digit year and a time of day. -/
structure DateTime where
  year : ℕ
  month : ℕ
  day : ℕ
  hour : ℕ
  minute : ℕ
  second : ℕ
  nanos : ℕ
  year_lt : year < 10000
  month_le : 1 ≤ month ∧ month ≤ 12
  day_le : 1 ≤ day ∧ day ≤ daysInMonth year month
  hour_lt : hour < 24
  minute_lt : minute < 60
  second_lt : second < 60
  nanos_lt : nanos < 1000000000
  deriving DecidableEq

namespace DateTime

open Instant

/-- The fields in the order in which they are compared. -/
def key (t : DateTime) : ℕ ×ₗ ℕ ×ₗ ℕ ×ₗ ℕ ×ₗ ℕ ×ₗ ℕ ×ₗ ℕ :=
  toLex (t.year, toLex (t.month, toLex (t.day, toLex (t.hour, toLex (t.minute,
    toLex (t.second, t.nanos))))))

theorem key_injective : Function.Injective key := by
  rintro ⟨⟩ ⟨⟩ h
  simp only [key, toLex_inj, Prod.mk.injEq] at h
  obtain ⟨rfl, rfl, rfl, rfl, rfl, rfl, rfl⟩ := h
  rfl

/-- Chronological order. -/
instance : LinearOrder DateTime := LinearOrder.lift' key key_injective

theorem lt_iff (a b : DateTime) : a < b ↔
    a.year < b.year ∨ a.year = b.year ∧ (a.month < b.month ∨ a.month = b.month ∧
      (a.day < b.day ∨ a.day = b.day ∧ (a.hour < b.hour ∨ a.hour = b.hour ∧
        (a.minute < b.minute ∨ a.minute = b.minute ∧ (a.second < b.second ∨
          a.second = b.second ∧ a.nanos < b.nanos))))) := by
  have hkey : a < b ↔ a.key < b.key := Iff.rfl
  rw [hkey]
  simp only [key, Prod.Lex.toLex_lt_toLex]

def rfc3339Chars (t : DateTime) : List Char :=
  digits 4 t.year ++ '-' :: (digits 2 t.month ++ '-' :: (digits 2 t.day ++ 'T' ::
    (digits 2 t.hour ++ ':' :: (digits 2 t.minute ++ ':' :: (digits 2 t.second ++
      (fraction t.nanos ++ utcOffset))))))

/-- `DateTime::to_rfc3339`. -/
def toRfc3339 (t : DateTime) : String := String.ofList t.rfc3339Chars

theorem day_lt (t : DateTime) : t.day < 10 ^ 2 := by
  have h := t.day_le.2
  have hdays : daysInMonth t.year t.month ≤ 31 := by
    unfold daysInMonth
    split_ifs <;> omega
  omega

/-- The fields of fixed width up to the seconds, and a rest. -/
def dateAndTime (t : DateTime) (rest : List Char) : List Char :=
  digits 4 t.year ++ '-' :: (digits 2 t.month ++ '-' :: (digits 2 t.day ++ 'T' ::
    (digits 2 t.hour ++ ':' :: (digits 2 t.minute ++ ':' :: (digits 2 t.second ++ rest)))))

/-- Texts whose rests are in the order of the fractions are in chronological order. -/
theorem dateAndTime_lt_iff {a b : DateTime} {xs ys : List Char} (h : xs < ys ↔ a.nanos < b.nanos) :
    a.dateAndTime xs < b.dateAndTime ys ↔ a < b := by
  have hfield : ∀ {n x y : ℕ} {xs ys : List Char}, x < 10 ^ n → y < 10 ^ n →
      (digits n x ++ xs < digits n y ++ ys ↔ x < y ∨ x = y ∧ xs < ys) := by
    intro n x y xs ys hx hy
    rw [append_lt_append_iff (by simp), (digits_lt_iff hx hy).1, (digits_lt_iff hx hy).2]
  have hsame : ∀ {c : Char} {xs ys : List Char}, c :: xs < c :: ys ↔ xs < ys := by
    intro c xs ys
    simp
  rw [lt_iff, dateAndTime, dateAndTime]
  rw [hfield a.year_lt b.year_lt, hsame,
    hfield (lt_of_le_of_lt a.month_le.2 (by decide)) (lt_of_le_of_lt b.month_le.2 (by decide)),
    hsame, hfield a.day_lt b.day_lt, hsame,
    hfield (a.hour_lt.trans (by decide)) (b.hour_lt.trans (by decide)), hsame,
    hfield (a.minute_lt.trans (by decide)) (b.minute_lt.trans (by decide)), hsame,
    hfield (a.second_lt.trans (by decide)) (b.second_lt.trans (by decide)), h]

/-- **The text is in chronological order.** -/
theorem toRfc3339_lt_iff (a b : DateTime) : a.toRfc3339 < b.toRfc3339 ↔ a < b := by
  rw [String.lt_iff_toList_lt, toRfc3339, toRfc3339, String.toList_ofList, String.toList_ofList]
  exact dateAndTime_lt_iff (fraction_lt_iff a.nanos_lt b.nanos_lt)

theorem toRfc3339_le_iff (a b : DateTime) : a.toRfc3339 ≤ b.toRfc3339 ↔ a ≤ b := by
  rw [← not_lt, toRfc3339_lt_iff, not_lt]

end DateTime

/-! ### Texts that end with a letter

The offset of UTC can be written as the letter `Z`, and the fraction without its trailing zeros.  The letter
sorts above the digits and the point, so that a text sorts above those whose numerals go on from its own. -/

namespace Instant

/-- The digits up to the last one that is not zero. -/
def dropTrailingZeros : List Char → List Char
  | [] => []
  | c :: cs =>
    match dropTrailingZeros cs with
    | [] => if c = '0' then [] else [c]
    | d :: ds => c :: d :: ds

/-- The fraction without trailing zeros; none when there is nothing else. -/
def trimmedFraction (nanos : ℕ) : List Char :=
  if nanos = 0 then [] else '.' :: dropTrailingZeros (digits 9 nanos)

/-- Trailing zeros do not matter for the order of numerals of one length. -/
theorem dropTrailingZeros_lt {as bs : List Char} (hlength : as.length = bs.length)
    (hdigits : ∀ c ∈ as, '0' ≤ c) (h : as < bs) : dropTrailingZeros as < dropTrailingZeros bs := by
  induction as generalizing bs with
  | nil =>
    cases bs with
    | nil => exact absurd h (lt_irrefl _)
    | cons b bs => cases hlength
  | cons a as ih =>
    cases bs with
    | nil => cases hlength
    | cons b bs =>
      have htail := ih (Nat.succ.inj hlength) fun c hc => hdigits c (List.mem_cons_of_mem a hc)
      rw [dropTrailingZeros, dropTrailingZeros]
      rcases List.cons_lt_cons_iff.mp h with hab | ⟨hab, hrest⟩
      · -- the greater digit is not zero, and stays
        have hb : b ≠ '0' := fun hzero => absurd hab (not_lt.mpr (hzero ▸ hdigits a List.mem_cons_self))
        have hhead : ∀ xs ys : List Char, a :: xs < b :: ys := fun xs ys =>
          List.cons_lt_cons_iff.mpr (Or.inl hab)
        have hnil : ∀ ys : List Char, ([] : List Char) < b :: ys := fun ys => List.nil_lt_cons b ys
        rw [if_neg hb]
        split
        · split
          · split
            · exact hnil _
            · exact hnil _
          · split
            · exact hhead _ _
            · exact hhead _ _
        · split
          · exact hhead _ _
          · exact hhead _ _
      · have hless := htail hrest
        cases hbs : dropTrailingZeros bs with
        | nil =>
          rw [hbs] at hless
          exact absurd hless (List.not_lt_nil _)
        | cons d ds =>
          rw [hbs] at hless
          rw [hab]
          cases has : dropTrailingZeros as with
          | nil =>
            dsimp only
            split
            · exact List.nil_lt_cons _ _
            · exact List.cons_lt_cons_iff.mpr (Or.inr ⟨rfl, List.nil_lt_cons _ _⟩)
          | cons c cs =>
            rw [has] at hless
            exact List.cons_lt_cons_iff.mpr (Or.inr ⟨rfl, hless⟩)

theorem zero_le_digit : ∀ {d : ℕ}, d < 10 → '0' ≤ digit d := by
  decide

theorem zero_le_of_mem_digits {n x : ℕ} {c : Char} (h : c ∈ digits n x) : '0' ≤ c := by
  induction n with
  | zero => cases h
  | succ n ih =>
    rcases List.mem_cons.mp h with hc | hc
    · rw [hc]
      exact zero_le_digit (Nat.mod_lt _ (by decide))
    · exact ih hc

theorem trimmedFraction_lt_iff {x y : ℕ} (hx : x < 10 ^ 9) (hy : y < 10 ^ 9) :
    trimmedFraction x < trimmedFraction y ↔ x < y := by
  have hmono : ∀ {x y : ℕ}, x < 10 ^ 9 → y < 10 ^ 9 → x < y →
      trimmedFraction x < trimmedFraction y := by
    intro x y hx hy hxy
    have hlt := (digits_lt_iff hx hy).1.mpr hxy
    rw [trimmedFraction, trimmedFraction, if_neg (by omega : y ≠ 0)]
    split
    · exact List.nil_lt_cons _ _
    · exact List.cons_lt_cons_iff.mpr (Or.inr ⟨rfl, dropTrailingZeros_lt
        (by rw [digits_length, digits_length]) (fun c hc => zero_le_of_mem_digits hc) hlt⟩)
  constructor
  · intro hlt
    rcases Nat.lt_trichotomy x y with h | h | h
    · exact h
    · rw [h] at hlt
      exact absurd hlt (lt_irrefl _)
    · exact absurd hlt (lt_asymm (hmono hy hx h))
  · intro h
    exact hmono hx hy h

/-- **A terminator that sorts above all else** puts a text above those it is a prefix of. -/
theorem append_lt_append_terminator {z : Char} {as bs : List Char} (has : ∀ c ∈ as, c < z)
    (hbs : ∀ c ∈ bs, c < z) :
    as ++ [z] < bs ++ [z] ↔ (as < bs ∧ ¬ as <+: bs) ∨ (bs < as ∧ bs <+: as) := by
  induction as generalizing bs with
  | nil =>
    cases bs with
    | nil => simp
    | cons b bs =>
      have hb := hbs b List.mem_cons_self
      rw [List.nil_append, List.cons_append, List.cons_lt_cons_iff]
      refine iff_of_false ?_ ?_
      · intro h
        rcases h with h | h
        · exact lt_asymm h hb
        · exact absurd h.1.symm hb.ne
      · intro h
        rcases h with h | h
        · exact h.2 List.nil_prefix
        · exact List.not_lt_nil _ h.1
  | cons a as ih =>
    have ha := has a List.mem_cons_self
    cases bs with
    | nil =>
      rw [List.nil_append, List.cons_append, List.cons_lt_cons_iff]
      exact iff_of_true (Or.inl ha) (Or.inr ⟨List.nil_lt_cons _ _, List.nil_prefix⟩)
    | cons b bs =>
      have hrest := ih (fun c hc => has c (List.mem_cons_of_mem a hc))
        fun c hc => hbs c (List.mem_cons_of_mem b hc)
      rw [List.cons_append, List.cons_append, List.cons_lt_cons_iff, List.cons_lt_cons_iff,
        List.cons_lt_cons_iff, List.cons_prefix_cons, List.cons_prefix_cons, hrest]
      by_cases hab : a = b
      · subst hab
        simp only [lt_self_iff_false, true_and, false_or]
      · have hba : ¬ b = a := fun h => hab h.symm
        simp only [hab, hba, false_and, or_false, not_false_eq_true, and_true, and_false]

end Instant

namespace DateTime

open Instant

/-- The text without its letter. -/
def numerals (t : DateTime) : List Char := t.dateAndTime (trimmedFraction t.nanos)

/-- The RFC 3339 text with the letter. -/
def toZulu (t : DateTime) : String := String.ofList (t.numerals ++ ['Z'])

theorem numerals_lt_iff (a b : DateTime) : a.numerals < b.numerals ↔ a < b :=
  dateAndTime_lt_iff (trimmedFraction_lt_iff a.nanos_lt b.nanos_lt)

theorem lt_of_mem_digits {n x : ℕ} {c : Char} (h : c ∈ digits n x) : c < 'Z' := by
  have hdigit : ∀ {d : ℕ}, d < 10 → digit d < 'Z' := by decide
  induction n with
  | zero => cases h
  | succ n ih =>
    rcases List.mem_cons.mp h with hc | hc
    · rw [hc]
      exact hdigit (Nat.mod_lt _ (by decide))
    · exact ih hc

/-- The text with the numeric offset is ASCII. -/
theorem toRfc3339_ascii (t : DateTime) : ∀ c ∈ t.toRfc3339.toList, c.toNat < 128 := by
  have hZ : ∀ c : Char, c < 'Z' → c.toNat < 128 := by
    intro c hc
    have hlt : c.toNat < 90 := UInt32.lt_iff_toNat_lt.mp hc
    omega
  have hnumber : ∀ n x : ℕ, ∀ c ∈ digits n x, c.toNat < 128 := fun n x c hc =>
    hZ c (lt_of_mem_digits hc)
  have hfraction : ∀ c ∈ fraction t.nanos, c.toNat < 128 := by
    unfold fraction
    split_ifs
    · exact List.forall_mem_nil _
    · exact List.forall_mem_cons.mpr ⟨by decide, hnumber _ _⟩
    · exact List.forall_mem_cons.mpr ⟨by decide, hnumber _ _⟩
    · exact List.forall_mem_cons.mpr ⟨by decide, hnumber _ _⟩
  have hoffset : ∀ c ∈ utcOffset, c.toNat < 128 := by simp [utcOffset]
  rw [toRfc3339, String.toList_ofList, rfc3339Chars]
  simp only [List.forall_mem_append, List.forall_mem_cons]
  exact ⟨hnumber _ _, by decide, hnumber _ _, by decide, hnumber _ _, by decide, hnumber _ _,
    by decide, hnumber _ _, by decide, hnumber _ _, hfraction, hoffset⟩

theorem dropTrailingZeros_subset (cs : List Char) : dropTrailingZeros cs ⊆ cs := by
  induction cs with
  | nil => exact List.Subset.refl _
  | cons c cs ih =>
    rw [dropTrailingZeros]
    split
    · split
      · exact List.nil_subset _
      · exact List.cons_subset_cons _ (List.nil_subset _)
    · next d ds hrest =>
      rw [hrest] at ih
      exact List.cons_subset_cons _ ih

theorem lt_of_mem_numerals {t : DateTime} {c : Char} (h : c ∈ t.numerals) : c < 'Z' := by
  have hfraction : ∀ c ∈ trimmedFraction t.nanos, c < 'Z' := by
    intro c hc
    unfold trimmedFraction at hc
    split at hc
    · cases hc
    · rcases List.mem_cons.mp hc with hpoint | hdigit
      · rw [hpoint]
        decide
      · exact lt_of_mem_digits (dropTrailingZeros_subset _ hdigit)
  have hnumber : ∀ n x : ℕ, ∀ d ∈ digits n x, d < 'Z' := fun n x d hd => lt_of_mem_digits hd
  have hall : ∀ d ∈ t.numerals, d < 'Z' := by
    simp only [numerals, dateAndTime, List.forall_mem_append, List.forall_mem_cons]
    exact ⟨hnumber _ _, by decide, hnumber _ _, by decide, hnumber _ _, by decide, hnumber _ _,
      by decide, hnumber _ _, by decide, hnumber _ _, hfraction⟩
  exact hall c h

/-- **The order of the texts**: chronological, but for an instant whose numerals go on from those of an
earlier one. -/
theorem toZulu_lt_iff (a b : DateTime) : a.toZulu < b.toZulu ↔
    (a < b ∧ ¬ a.numerals <+: b.numerals) ∨ (b < a ∧ b.numerals <+: a.numerals) := by
  rw [String.lt_iff_toList_lt, toZulu, toZulu, String.toList_ofList, String.toList_ofList,
    append_lt_append_terminator (fun _ hc => lt_of_mem_numerals hc) fun _ hc => lt_of_mem_numerals hc,
    numerals_lt_iff, numerals_lt_iff]

/-- The text of the later instant does not sort above only where it goes on from the earlier one. -/
theorem toZulu_le_iff_of_lt {a b : DateTime} (h : a < b) : b.toZulu ≤ a.toZulu ↔ a.numerals <+: b.numerals := by
  rw [← not_lt, toZulu_lt_iff]
  constructor
  · intro hnot
    by_contra hprefix
    exact hnot (Or.inl ⟨h, hprefix⟩)
  · intro hprefix hlt
    rcases hlt with hlt | hlt
    · exact hlt.2 hprefix
    · exact lt_asymm h hlt.1

theorem toZulu_inj {a b : DateTime} : a.toZulu = b.toZulu ↔ a = b := by
  constructor
  · intro h
    have hnot : ¬ a.toZulu < b.toZulu ∧ ¬ b.toZulu < a.toZulu := by
      rw [h]
      exact ⟨lt_irrefl _, lt_irrefl _⟩
    rw [toZulu_lt_iff, toZulu_lt_iff] at hnot
    rcases lt_trichotomy a b with hab | hab | hab
    · exact absurd hab fun hlt => by tauto
    · exact hab
    · exact absurd hab fun hlt => by tauto
  · intro h
    rw [h]

end DateTime

namespace Instant

/-! ### The latest of a list -/

variable {α τ : Type} [LinearOrder τ]

theorem argmax_append_cons {f : α → τ} {m : α} {after : List α} (hafter : ∀ x ∈ after, f x ≤ f m) :
    ∀ {before : List α}, (∀ x ∈ before, f x < f m) →
      (before ++ m :: after).argmax f = some m := by
  intro before
  induction before with
  | nil =>
    intro _
    rw [List.nil_append, List.argmax_cons]
    cases hmax : after.argmax f with
    | none => rfl
    | some c => exact if_neg (not_lt.mpr (hafter c (List.argmax_mem hmax)))
  | cons a before ih =>
    intro hbefore
    rw [List.cons_append, List.argmax_cons, ih fun x hx => hbefore x (List.mem_cons_of_mem a hx)]
    exact if_pos (hbefore a List.mem_cons_self)

/-- **The latest element** is later than all before it and not earlier than any after it. -/
theorem argmax_eq_some_iff_split (f : α → τ) (l : List α) (m : α) :
    l.argmax f = some m ↔ ∃ before after, l = before ++ m :: after ∧
      (∀ x ∈ before, f x < f m) ∧ ∀ x ∈ after, f x ≤ f m := by
  constructor
  · induction l with
    | nil => intro h; cases h
    | cons a l ih =>
      intro h
      rw [List.argmax_cons] at h
      cases hmax : l.argmax f with
      | none =>
        rw [hmax] at h
        cases h
        rw [List.argmax_eq_none.mp hmax]
        exact ⟨[], [], rfl, by simp, by simp⟩
      | some c =>
        rw [hmax] at h
        dsimp only at h
        split at h
        · rename_i hlt
          cases h
          obtain ⟨before, after, rfl, hbefore, hafter⟩ := ih hmax
          exact ⟨a :: before, after, rfl, List.forall_mem_cons.mpr ⟨hlt, hbefore⟩, hafter⟩
        · rename_i hle
          cases h
          refine ⟨[], l, rfl, by simp, fun x hx => ?_⟩
          exact (List.le_of_mem_argmax hx hmax).trans (not_lt.mp hle)
  · rintro ⟨before, after, rfl, hbefore, hafter⟩
    exact argmax_append_cons hafter hbefore

/-- A change that keeps the readings keeps which element is latest. -/
theorem argmax_map {f : α → τ} {g : α → α} (h : ∀ x, f (g x) = f x) (l : List α) :
    (l.map g).argmax f = (l.argmax f).map g := by
  induction l with
  | nil => rfl
  | cons a l ih =>
    rw [List.map_cons, List.argmax_cons, List.argmax_cons, ih]
    cases l.argmax f with
    | none => rfl
    | some c =>
      simp only [Option.map_some, h]
      split <;> rfl

end Instant
