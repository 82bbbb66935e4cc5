import Mathlib

/-!
# Text scanning

The string operations a line-oriented configuration reader uses, on lists of characters: splitting
into lines and into blank-separated fields, trimming, ASCII case-insensitive comparison, UTF-8, and
the decimal and hexadecimal numerals.  Blank means the Unicode property `White_Space`.

* `fromUtf8Lossy_utf8`: UTF-8 is read without loss.  `utf8_lt_utf8_iff`: ASCII texts are in the order of
  their octets.
* `dropInfix?_append`: where a pattern is first found.
* `parseHex_hexDigits`: the round trip of fixed-width hexadecimal numerals.
-/

namespace Text

/-- The characters with the Unicode property `White_Space`. -/
def isWhitespace (c : Char) : Bool :=
  let n := c.toNat
  (9 ≤ n && n ≤ 13) || n == 0x20 || n == 0x85 || n == 0xA0 || n == 0x1680 ||
    (0x2000 ≤ n && n ≤ 0x200A) || n == 0x2028 || n == 0x2029 || n == 0x202F || n == 0x205F ||
    n == 0x3000

/-- Drop the blanks at both ends. -/
def trim (s : List Char) : List Char :=
  ((s.dropWhile isWhitespace).reverse.dropWhile isWhitespace).reverse

/-- Dropping from the end of two lists, one after the other. -/
theorem rdropWhile_append {α : Type} (p : α → Bool) (l m : List α) :
    (l ++ m).rdropWhile p =
      if m.rdropWhile p = [] then l.rdropWhile p else l ++ m.rdropWhile p := by
  rw [List.rdropWhile, List.reverse_append, List.dropWhile_append]
  by_cases h : m.reverse.dropWhile p = []
  · rw [if_pos (List.isEmpty_iff.mpr h), if_pos (by rw [List.rdropWhile, h]; rfl)]
    rfl
  · have hkept : m.rdropWhile p ≠ [] := fun hnil => h (List.reverse_eq_nil_iff.mp hnil)
    rw [if_neg fun hempty => h (List.isEmpty_iff.mp hempty), if_neg hkept, List.reverse_append,
      List.reverse_reverse]
    rfl

/-- A trimmed text starts with no blank. -/
theorem head_trim {s : List Char} {c : Char} (h : (trim s).head? = some c) :
    isWhitespace c = false := by
  have hprefix : trim s <+: s.dropWhile isWhitespace := List.rdropWhile_prefix _ _
  have hhead : (s.dropWhile isWhitespace).head? = some c := by
    obtain ⟨rest, hrest⟩ := hprefix
    cases htrim : trim s with
    | nil =>
      rw [htrim] at h
      cases h
    | cons d ds =>
      rw [htrim] at h hrest
      rw [← hrest]
      exact h
  have hnot := List.head?_dropWhile_not isWhitespace s
  rw [hhead] at hnot
  exact hnot

/-- The head of a text after its leading blanks is the head of the trimmed text. -/
theorem head?_trim (s : List Char) : (trim s).head? = (s.dropWhile isWhitespace).head? := by
  have hnot := List.head?_dropWhile_not isWhitespace s
  show ((s.dropWhile isWhitespace).rdropWhile isWhitespace).head? = _
  cases hdrop : s.dropWhile isWhitespace with
  | nil => rfl
  | cons c rest =>
    rw [hdrop] at hnot
    have hc : isWhitespace c = false := hnot
    have hkept : List.rdropWhile isWhitespace [c] = [c] :=
      List.rdropWhile_eq_self_iff.mpr fun _ => by simp [hc]
    rw [← List.singleton_append, rdropWhile_append, hkept]
    split
    · rfl
    · rfl

/-- Nothing is trimmed of a text without blanks. -/
theorem trim_of_solid {s : List Char} (h : ∀ c ∈ s, isWhitespace c = false) : trim s = s := by
  have hfront : s.dropWhile isWhitespace = s := by
    cases s with
    | nil => rfl
    | cons c cs => exact List.dropWhile_cons_of_neg (by simp [h c List.mem_cons_self])
  have hback : s.rdropWhile isWhitespace = s :=
    List.rdropWhile_eq_self_iff.mpr fun hne => by simp [h _ (List.getLast_mem hne)]
  rw [trim, hfront]
  exact hback

/-- Drop one final carriage return. -/
def stripCarriageReturn (s : List Char) : List Char :=
  if s.getLast? = some '\r' then s.dropLast else s

/-- The lines of a text.  A line ends with a newline or a carriage return and a newline; the last
one needs no terminator, and then keeps its carriage return. -/
def lines (s : List Char) : List (List Char) :=
  let pieces := s.splitOn '\n'
  pieces.dropLast.map stripCarriageReturn ++ pieces.getLast?.toList.filter (· ≠ [])

/-- A blank at the end is trimmed. -/
theorem trim_append_blank (s : List Char) {c : Char} (hc : isWhitespace c = true) :
    trim (s ++ [c]) = trim s := by
  show ((s ++ [c]).dropWhile isWhitespace).rdropWhile isWhitespace =
    (s.dropWhile isWhitespace).rdropWhile isWhitespace
  rw [List.dropWhile_append]
  by_cases h : s.dropWhile isWhitespace = []
  · rw [if_pos (List.isEmpty_iff.mpr h), h, List.dropWhile_cons_of_pos hc]
    rfl
  · rw [if_neg fun hempty => h (List.isEmpty_iff.mp hempty), List.rdropWhile_concat_pos _ _ _ hc]

theorem trim_stripCarriageReturn (s : List Char) : trim (stripCarriageReturn s) = trim s := by
  unfold stripCarriageReturn
  split
  next h =>
    have hsplit : s = s.dropLast ++ ['\r'] := (List.dropLast_append_getLast? '\r' h).symm
    conv_rhs => rw [hsplit]
    exact (trim_append_blank s.dropLast (by decide)).symm
  next => rfl

/-- The lines as they are stored: what ends with a newline, and what follows the last one if that is
anything. -/
def rawLines (s : List Char) : List (List Char) :=
  let pieces := s.splitOn '\n'
  pieces.dropLast ++ pieces.getLast?.toList.filter (· ≠ [])

/-- Apart from blanks at their ends, `lines` gives the lines as they are stored. -/
theorem map_trim_lines (s : List Char) : (lines s).map trim = (rawLines s).map trim := by
  simp only [lines, rawLines, List.map_append, List.map_map]
  congr 1
  exact List.map_congr_left fun line _ => trim_stripCarriageReturn line

theorem rawLines_append_newline (s t : List Char) :
    rawLines (s ++ '\n' :: t) = s.splitOn '\n' ++ rawLines t := by
  have hsplit : (s ++ '\n' :: t).splitOn '\n' = s.splitOn '\n' ++ t.splitOn '\n' :=
    List.splitOnP_append_cons _ _ (by decide)
  have hne : t.splitOn '\n' ≠ [] := List.splitOn_ne_nil _ _
  simp only [rawLines]
  rw [hsplit, List.dropLast_append_of_ne_nil hne, List.append_assoc,
    List.getLast?_append_of_ne_nil _ hne]

/-- The last piece of a text is empty when the text is, or ends with a newline. -/
theorem getLast?_splitOn_eq_nil {s : List Char} (h : (s.splitOn '\n').getLast? = some []) :
    s = [] ∨ s.getLast? = some '\n' := by
  by_cases hmem : '\n' ∈ s
  · right
    -- the last newline
    obtain ⟨after, before, hsplit, hnot⟩ := List.eq_append_cons_of_mem (List.mem_reverse.mpr hmem)
    have hs : s = before.reverse ++ '\n' :: after.reverse := by
      rw [← List.reverse_reverse s, hsplit]
      simp
    have hpiece : after.reverse.splitOn '\n' = [after.reverse] :=
      List.splitOn_eq_singleton (by simpa using hnot)
    rw [hs, List.splitOn_append_cons_self, hpiece, List.getLast?_concat, Option.some.injEq] at h
    rw [hs, h, List.getLast?_concat]
  · left
    rw [List.splitOn_eq_singleton hmem, List.getLast?_singleton, Option.some.injEq] at h
    exact h

/-- A text that does not end with a newline is made up of its pieces. -/
theorem rawLines_of_open {s : List Char} (hne : s ≠ []) (hopen : s.getLast? ≠ some '\n') :
    rawLines s = s.splitOn '\n' := by
  have hpieces : s.splitOn '\n' ≠ [] := List.splitOn_ne_nil _ _
  obtain ⟨last, hlast⟩ : ∃ last, (s.splitOn '\n').getLast? = some last :=
    ⟨_, List.getLast?_eq_some_getLast hpieces⟩
  have hlastne : last ≠ [] := by
    intro hnil
    rw [hnil] at hlast
    rcases getLast?_splitOn_eq_nil hlast with hempty | hend
    · exact hne hempty
    · exact hopen hend
  simp only [rawLines, hlast]
  rw [Option.toList_some, List.filter_cons_of_pos (by simpa using hlastne), List.filter_nil]
  exact List.dropLast_append_getLast? last hlast
/-- The maximal blank-free pieces of a text. -/
def splitWhitespace (s : List Char) : List (List Char) :=
  (s.splitOnP isWhitespace).filter (· ≠ [])

/-- What comes before and after the first `c`. -/
def splitOnce (c : Char) (s : List Char) : Option (List Char × List Char) :=
  if c ∈ s then some (s.takeWhile (· ≠ c), (s.dropWhile (· ≠ c)).tail) else none

def toAsciiLowercase (c : Char) : Char :=
  if 'A' ≤ c ∧ c ≤ 'Z' then Char.ofNat (c.toNat + 32) else c

def eqIgnoreAsciiCase (s t : List Char) : Bool :=
  s.map toAsciiLowercase = t.map toAsciiLowercase

/-! ### Pieces -/

/-- Drop the characters of a kind at both ends. -/
def stripBy (p : Char → Bool) (s : List Char) : List Char := (s.dropWhile p).rdropWhile p

theorem mem_of_mem_stripBy {p : Char → Bool} {s : List Char} {c : Char} (h : c ∈ stripBy p s) : c ∈ s :=
  (List.dropWhile_sublist p).subset ((List.rdropWhile_prefix p _).subset h)

theorem stripBy_stripBy (p : Char → Bool) (s : List Char) :
    stripBy p (stripBy p s) = stripBy p s := by
  have hfront : (stripBy p s).dropWhile p = stripBy p s := by
    obtain ⟨rest, hrest⟩ : stripBy p s <+: s.dropWhile p := List.rdropWhile_prefix p _
    cases hstrip : stripBy p s with
    | nil => rfl
    | cons c cs =>
      have hnot := List.head?_dropWhile_not p s
      rw [← hrest, hstrip, List.cons_append, List.head?_cons] at hnot
      have hc : p c = false := hnot
      rw [List.dropWhile_cons_of_neg (by simp [hc])]
  show ((stripBy p s).dropWhile p).rdropWhile p = stripBy p s
  rw [hfront]
  exact List.rdropWhile_idempotent p _

/-- No piece holds a separator. -/
theorem not_of_mem_splitOnP {p : Char → Bool} {s piece : List Char} (h : piece ∈ s.splitOnP p) :
    ∀ c ∈ piece, p c = false := by
  induction s generalizing piece with
  | nil =>
    rw [List.splitOnP_nil, List.mem_singleton] at h
    rw [h]
    exact List.forall_mem_nil _
  | cons d s ih =>
    rw [List.splitOnP_cons_eq_if_modifyHead] at h
    by_cases hd : p d = true
    · rw [if_pos hd] at h
      rcases List.mem_cons.mp h with hempty | hlater
      · rw [hempty]
        exact List.forall_mem_nil _
      · exact ih hlater
    · obtain ⟨first, rest, hsplit⟩ := List.exists_cons_of_ne_nil (List.splitOnP_ne_nil p s)
      rw [if_neg hd, hsplit, List.modifyHead_cons] at h
      rw [hsplit] at ih
      rcases List.mem_cons.mp h with hfirst | hlater
      · rw [hfirst]
        exact List.forall_mem_cons.mpr ⟨by simpa using hd, ih List.mem_cons_self⟩
      · exact ih (List.mem_cons_of_mem first hlater)

/-- Separators that agree on a text split it alike. -/
theorem splitOnP_congr {p q : Char → Bool} {s : List Char} (h : ∀ c ∈ s, p c = q c) :
    s.splitOnP p = s.splitOnP q := by
  induction s with
  | nil => rfl
  | cons c s ih =>
    rw [List.splitOnP_cons_eq_if_modifyHead, List.splitOnP_cons_eq_if_modifyHead,
      h c List.mem_cons_self, ih fun d hd => h d (List.mem_cons_of_mem c hd)]

theorem mem_intercalate {sep : List Char} {pieces : List (List Char)} {c : Char}
    (h : c ∈ sep.intercalate pieces) : c ∈ sep ∨ ∃ piece ∈ pieces, c ∈ piece := by
  induction pieces with
  | nil => cases h
  | cons piece pieces ih =>
    by_cases hnil : pieces = []
    · rw [hnil, List.intercalate_singleton] at h
      exact Or.inr ⟨piece, List.mem_cons_self, h⟩
    · rw [List.intercalate_cons_of_ne_nil hnil, List.mem_append, List.mem_append] at h
      rcases h with (hpiece | hsep) | hlater
      · exact Or.inr ⟨piece, List.mem_cons_self, hpiece⟩
      · exact Or.inl hsep
      · rcases ih hlater with hsep | hlater
        · exact Or.inl hsep
        · obtain ⟨other, hmem, hc⟩ := hlater
          exact Or.inr ⟨other, List.mem_cons_of_mem piece hmem, hc⟩

/-! ### Fields -/

theorem splitWhitespace_append_blank (s : List Char) {c : Char} (hc : isWhitespace c = true)
    (t : List Char) : splitWhitespace (s ++ c :: t) = splitWhitespace s ++ splitWhitespace t := by
  rw [splitWhitespace, List.splitOnP_append_cons _ _ hc, List.filter_append]
  rfl

@[simp] theorem splitWhitespace_nil : splitWhitespace [] = [] := rfl

theorem splitWhitespace_blanks {ws : List Char} (hws : ∀ c ∈ ws, isWhitespace c = true) (s : List Char) :
    splitWhitespace (ws ++ s) = splitWhitespace s := by
  induction ws with
  | nil => rfl
  | cons c ws ih =>
    have hc := hws c List.mem_cons_self
    have hrest := ih fun d hd => hws d (List.mem_cons_of_mem c hd)
    rw [← hrest, List.cons_append]
    exact splitWhitespace_append_blank [] hc (ws ++ s)

theorem splitWhitespace_append_blanks (s : List Char) {ws : List Char}
    (hws : ∀ c ∈ ws, isWhitespace c = true) : splitWhitespace (s ++ ws) = splitWhitespace s := by
  cases ws with
  | nil => rw [List.append_nil]
  | cons c ws =>
    have hrest := splitWhitespace_blanks (fun d hd => hws d (List.mem_cons_of_mem c hd)) []
    rw [List.append_nil] at hrest
    rw [splitWhitespace_append_blank s (hws c List.mem_cons_self), hrest, splitWhitespace_nil,
      List.append_nil]

/-- The fields do not depend on the blanks at the ends. -/
theorem splitWhitespace_trim (s : List Char) : splitWhitespace (trim s) = splitWhitespace s := by
  have hblanks : ∀ c ∈ s.takeWhile isWhitespace, isWhitespace c = true :=
    fun c hc => List.mem_takeWhile_imp hc
  have hfront := splitWhitespace_blanks hblanks (s.dropWhile isWhitespace)
  rw [List.takeWhile_append_dropWhile] at hfront
  have hends : ∀ c ∈ (s.dropWhile isWhitespace).rtakeWhile isWhitespace, isWhitespace c = true :=
    fun c hc => List.mem_rtakeWhile_imp hc
  have hback := splitWhitespace_append_blanks ((s.dropWhile isWhitespace).rdropWhile isWhitespace) hends
  rw [List.rdropWhile_append_rtakeWhile] at hback
  exact hback.symm.trans hfront.symm

/-- **The first field** of a text that starts with one, and the others. -/
theorem splitWhitespace_append {word : List Char} (hne : word ≠ [])
    (hword : ∀ c ∈ word, isWhitespace c = false) (s : List Char) :
    splitWhitespace (word ++ s) = (word ++ s.takeWhile fun c => !isWhitespace c) ::
      splitWhitespace (s.dropWhile fun c => !isWhitespace c) := by
  have hfield : ∀ c ∈ word ++ s.takeWhile fun c => !isWhitespace c, isWhitespace c = false := by
    intro c hc
    rcases List.mem_append.mp hc with hc | hc
    · exact hword c hc
    · simpa using List.mem_takeWhile_imp hc
  have hfieldNe : word ++ (s.takeWhile fun c => !isWhitespace c) ≠ [] :=
    fun hnil => hne (List.append_eq_nil_iff.mp hnil).1
  have hone : splitWhitespace (word ++ s.takeWhile fun c => !isWhitespace c) =
      [word ++ s.takeWhile fun c => !isWhitespace c] := by
    rw [splitWhitespace, List.splitOnP_eq_singleton hfield]
    exact List.filter_cons_of_pos (decide_eq_true hfieldNe)
  have hsplit : s = (s.takeWhile fun c => !isWhitespace c) ++ s.dropWhile fun c => !isWhitespace c :=
    List.takeWhile_append_dropWhile.symm
  have hnot := List.head?_dropWhile_not (fun c => !isWhitespace c) s
  conv_lhs => rw [hsplit, ← List.append_assoc]
  cases hdrop : s.dropWhile fun c => !isWhitespace c with
  | nil => rw [List.append_nil, hone, splitWhitespace_nil]
  | cons c rest =>
    rw [hdrop] at hnot
    have hc : isWhitespace c = true := by simpa using hnot
    have hrest : splitWhitespace (c :: rest) = splitWhitespace rest :=
      splitWhitespace_append_blank [] hc rest
    rw [splitWhitespace_append_blank _ hc, hone, hrest, List.singleton_append]

theorem splitOnce_append {c : Char} {before after : List Char} (h : c ∉ before) :
    splitOnce c (before ++ c :: after) = some (before, after) := by
  have hkeep : ∀ d ∈ before, decide (d ≠ c) = true := by
    intro d hd
    exact decide_eq_true fun hdc => h (hdc ▸ hd)
  rw [splitOnce, if_pos (List.mem_append_right _ List.mem_cons_self),
    List.takeWhile_append_of_pos hkeep, List.dropWhile_append_of_pos hkeep,
    List.takeWhile_cons_of_neg (by simp), List.dropWhile_cons_of_neg (by simp), List.append_nil]
  rfl

theorem splitOnce_eq_some {c : Char} {s before after : List Char} :
    splitOnce c s = some (before, after) ↔ s = before ++ c :: after ∧ c ∉ before := by
  constructor
  · intro h
    have hmem : c ∈ s := by
      by_contra hnot
      rw [splitOnce, if_neg hnot] at h
      cases h
    obtain ⟨l, r, hsplit, hfirst⟩ := List.eq_append_cons_of_mem hmem
    rw [hsplit, splitOnce_append hfirst] at h
    cases h
    exact ⟨hsplit, hfirst⟩
  · intro h
    rw [h.1, splitOnce_append h.2]

theorem splitOnce_eq_none {c : Char} {s : List Char} : splitOnce c s = none ↔ c ∉ s := by
  rw [splitOnce]
  split
  · next hmem => exact ⟨fun h => (by cases h), fun hnot => absurd hmem hnot⟩
  · next hnot => exact ⟨fun _ => hnot, fun _ => rfl⟩

/-! ### UTF-8 -/

/-- The UTF-8 octets of a string. -/
def utf8 (s : String) : List UInt8 := s.toList.flatMap String.utf8EncodeChar

theorem utf8_append (s t : String) : utf8 (s ++ t) = utf8 s ++ utf8 t := by
  rw [utf8, String.toList_append, List.flatMap_append, utf8, utf8]

theorem utf8_inj {s t : String} : utf8 s = utf8 t ↔ s = t := by
  constructor
  · intro h
    have hbytes : s.toList.utf8Encode = t.toList.utf8Encode := congrArg List.toByteArray h
    rwa [String.utf8Encode_toList, String.utf8Encode_toList, String.toByteArray_inj] at hbytes
  · rintro rfl; rfl

/-- The string that octets are the UTF-8 of. -/
def ofUtf8? (bs : List UInt8) : Option String := String.fromUTF8? bs.toByteArray

theorem ofUtf8?_utf8 (s : String) : ofUtf8? (utf8 s) = some s := by
  have hbytes : (utf8 s).toByteArray = s.toByteArray :=
    String.utf8Encode_toList.symm ▸ rfl
  rw [ofUtf8?, hbytes]
  exact dif_pos s.isValidUTF8

/-- Octets that are read as a string are its octets. -/
theorem utf8_of_ofUtf8? {bs : List UInt8} {s : String} (h : ofUtf8? bs = some s) : utf8 s = bs := by
  unfold ofUtf8? String.fromUTF8? at h
  split at h
  · have hbytes : s.toByteArray = bs.toByteArray := by
      rw [← Option.some.inj h]
      rfl
    have hsame : (utf8 s).toByteArray = bs.toByteArray := String.utf8Encode_toList.trans hbytes
    exact List.toByteArray_inj.mp hsame
  · cases h

/-- The first character is read off its octets. -/
theorem utf8EncodeChar_append_inj {c d : Char} {bs cs : List UInt8}
    (h : String.utf8EncodeChar c ++ bs = String.utf8EncodeChar d ++ cs) : c = d ∧ bs = cs := by
  have hread := congrArg (fun l => ByteArray.utf8DecodeChar? (List.toByteArray l) 0) h
  rw [List.toByteArray_append, List.toByteArray_append, ByteArray.utf8DecodeChar?_utf8EncodeChar_append,
    ByteArray.utf8DecodeChar?_utf8EncodeChar_append, Option.some.injEq] at hread
  rw [hread] at h
  exact ⟨hread, List.append_cancel_left h⟩

/-- **The first octets of a text**, where they are read, are those of its first characters. -/
theorem toList_prefix_of_utf8 {s t : List Char}
    (h : s.flatMap String.utf8EncodeChar <+: t.flatMap String.utf8EncodeChar) : s <+: t := by
  induction s generalizing t with
  | nil => exact List.nil_prefix
  | cons c s ih =>
    obtain ⟨more, hmore⟩ := h
    cases t with
    | nil =>
      rw [List.flatMap_cons, List.append_assoc, List.flatMap_nil, List.append_eq_nil_iff] at hmore
      exact absurd hmore.1 String.utf8EncodeChar_ne_nil
    | cons d t =>
      rw [List.flatMap_cons, List.flatMap_cons, List.append_assoc] at hmore
      obtain ⟨rfl, hrest⟩ := utf8EncodeChar_append_inj hmore
      exact List.cons_prefix_cons.mpr ⟨rfl, ih ⟨more, hrest⟩⟩

/-- Only the NUL character has a zero octet. -/
theorem eq_nul_of_zero_mem_encode {c : Char} (h : (0 : UInt8) ∈ String.utf8EncodeChar c) :
    c = '\x00' := by
  have hne : ∀ n : ℕ, n % 256 ≠ 0 → (0 : UInt8) ≠ UInt8.ofNat n := by
    intro n hn heq
    have hval := congrArg UInt8.toNat heq
    simp only [UInt8.toNat_ofNat', UInt8.toNat_zero] at hval
    omega
  unfold String.utf8EncodeChar at h
  dsimp only at h
  split at h
  · have hzero := congrArg UInt8.toNat (List.mem_singleton.mp h)
    simp only [UInt8.toNat_ofNat', UInt8.toNat_zero] at hzero
    exact Char.ext (UInt32.toNat_inj.mp (by
      show c.val.toNat = 0
      omega))
  · exfalso
    split at h
    · simp only [List.mem_cons, List.not_mem_nil, or_false] at h
      rcases h with h | h <;> exact hne _ (by omega) h
    · split at h
      · simp only [List.mem_cons, List.not_mem_nil, or_false] at h
        rcases h with h | h | h <;> exact hne _ (by omega) h
      · simp only [List.mem_cons, List.not_mem_nil, or_false] at h
        rcases h with h | h | h | h <;> exact hne _ (by omega) h

theorem zero_notMem_utf8 {s : String} (h : '\x00' ∉ s.toList) : (0 : UInt8) ∉ utf8 s := by
  intro hmem
  obtain ⟨c, hc, hzero⟩ := List.mem_flatMap.mp hmem
  exact h (eq_nul_of_zero_mem_encode hzero ▸ hc)

theorem zero_mem_utf8 {s : String} (h : '\x00' ∈ s.toList) : (0 : UInt8) ∈ utf8 s :=
  List.mem_flatMap.mpr ⟨'\x00', h, by decide⟩

/-- The octet of an ASCII character is its number. -/
theorem utf8EncodeChar_of_ascii {c : Char} (h : c.toNat < 128) :
    String.utf8EncodeChar c = [UInt8.ofNat c.toNat] := by
  have hle : c.val.toNat ≤ 127 := Nat.le_of_lt_succ h
  rw [String.utf8EncodeChar, if_pos hle]
  rfl

/-- An ASCII text has one octet for each character. -/
theorem length_utf8_of_ascii {s : String} (h : ∀ c ∈ s.toList, c.toNat < 128) :
    (utf8 s).length = s.toList.length := by
  have hone : ∀ c ∈ s.toList, (String.utf8EncodeChar c).length = 1 := by
    intro c hc
    rw [utf8EncodeChar_of_ascii (h c hc), List.length_singleton]
  rw [utf8, List.length_flatMap, List.map_congr_left hone, List.map_const', List.sum_replicate]
  simp

/-- **ASCII texts are in the order of their octets.** -/
theorem utf8_lt_utf8_iff {s t : String} (hs : ∀ c ∈ s.toList, c.toNat < 128)
    (ht : ∀ c ∈ t.toList, c.toNat < 128) : utf8 s < utf8 t ↔ s < t := by
  have hnat : ∀ n < 128, (UInt8.ofNat n).toNat = n := by
    intro n hn
    rw [UInt8.toNat_ofNat']
    omega
  rw [String.lt_iff_toList_lt, utf8, utf8]
  generalize s.toList = cs at hs
  generalize t.toList = ds at ht
  induction cs generalizing ds with
  | nil =>
    cases ds with
    | nil => simp
    | cons d ds => simp [utf8EncodeChar_of_ascii (ht d List.mem_cons_self)]
  | cons c cs ih =>
    have hc : c.toNat < 128 := hs c List.mem_cons_self
    cases ds with
    | nil => simp
    | cons d ds =>
      have hd : d.toNat < 128 := ht d List.mem_cons_self
      have hlt : UInt8.ofNat c.toNat < UInt8.ofNat d.toNat ↔ c < d := by
        rw [UInt8.lt_iff_toNat_lt, hnat _ hc, hnat _ hd]
        exact UInt32.lt_iff_toNat_lt.symm
      have heq : UInt8.ofNat c.toNat = UInt8.ofNat d.toNat ↔ c = d := by
        rw [← UInt8.toNat_inj, hnat _ hc, hnat _ hd]
        exact ⟨fun h => Char.ext (UInt32.toNat_inj.mp h), fun h => h ▸ rfl⟩
      have htail := ih (fun e he => hs e (List.mem_cons_of_mem c he)) ds
        fun e he => ht e (List.mem_cons_of_mem d he)
      rw [List.flatMap_cons, List.flatMap_cons, utf8EncodeChar_of_ascii hc,
        utf8EncodeChar_of_ascii hd, List.singleton_append, List.singleton_append,
        List.cons_lt_cons_iff, List.cons_lt_cons_iff, hlt, heq]
      exact or_congr_right (and_congr_right fun _ => htail)

/-! ### Octets that need not be UTF-8 -/

def isContinuation (b : UInt8) : Bool := 0x80 ≤ b && b ≤ 0xBF

/-- `b` and `c` are the first two octets of a sequence of three or four. -/
def startsLong (b c : UInt8) : Bool :=
  (b == 0xE0 && 0xA0 ≤ c && c ≤ 0xBF) || (0xE1 ≤ b && b ≤ 0xEC && isContinuation c) ||
    (b == 0xED && 0x80 ≤ c && c ≤ 0x9F) || (0xEE ≤ b && b ≤ 0xEF && isContinuation c) ||
    (b == 0xF0 && 0x90 ≤ c && c ≤ 0xBF) || (0xF1 ≤ b && b ≤ 0xF3 && isContinuation c) ||
    (b == 0xF4 && 0x80 ≤ c && c ≤ 0x8F)

/-- How many octets one replacement character stands for, where no character is read: as many as could
have begun one. -/
def brokenLength : List UInt8 → ℕ
  | b :: c :: rest =>
    if startsLong b c then
      if 0xF0 ≤ b ∧ rest.head?.any isContinuation then 3 else 2
    else 1
  | _ => 1

def lossyChars : ℕ → List UInt8 → List Char
  | 0, _ => []
  | _ + 1, [] => []
  | fuel + 1, b :: bs =>
    match ByteArray.utf8DecodeChar? (b :: bs).toByteArray 0 with
    | some c => c :: lossyChars fuel ((b :: bs).drop c.utf8Size)
    | none => '\uFFFD' :: lossyChars fuel ((b :: bs).drop (brokenLength (b :: bs)))

/-- The text of octets, with the replacement character for what is no UTF-8. -/
def fromUtf8Lossy (bs : List UInt8) : String := String.ofList (lossyChars bs.length bs)

theorem lossyChars_encode (s : List Char) : ∀ fuel, (s.flatMap String.utf8EncodeChar).length ≤ fuel →
    lossyChars fuel (s.flatMap String.utf8EncodeChar) = s := by
  induction s with
  | nil =>
    intro fuel _
    cases fuel <;> rfl
  | cons c s ih =>
    intro fuel hfuel
    have hlength : (String.utf8EncodeChar c).length = c.utf8Size := String.length_utf8EncodeChar c
    have hsize : 0 < c.utf8Size := c.utf8Size_pos
    have hread := @ByteArray.utf8DecodeChar?_utf8EncodeChar_append
      (s.flatMap String.utf8EncodeChar).toByteArray c
    rw [← List.toByteArray_append] at hread
    rw [List.flatMap_cons, List.length_append] at hfuel
    rw [List.flatMap_cons]
    obtain ⟨fuel, rfl⟩ : ∃ n, fuel = n + 1 := ⟨fuel - 1, by omega⟩
    cases hcode : String.utf8EncodeChar c with
    | nil => exact absurd hcode String.utf8EncodeChar_ne_nil
    | cons b bs =>
      rw [hcode] at hread hlength hfuel
      rw [List.cons_append] at hread ⊢
      rw [lossyChars, hread]
      show c :: lossyChars fuel ((b :: bs ++ s.flatMap String.utf8EncodeChar).drop c.utf8Size) = c :: s
      rw [← hlength, List.drop_left, ih fuel (by omega)]

/-- **UTF-8 is read without loss.** -/
theorem fromUtf8Lossy_utf8 (s : String) : fromUtf8Lossy (utf8 s) = s := by
  rw [fromUtf8Lossy, utf8, lossyChars_encode s.toList _ (le_refl _), String.ofList_toList]

/-- What is read without a replacement character was UTF-8. -/
theorem encode_lossyChars : ∀ (fuel : ℕ) (bs : List UInt8), bs.length ≤ fuel →
    '\uFFFD' ∉ lossyChars fuel bs → (lossyChars fuel bs).flatMap String.utf8EncodeChar = bs := by
  intro fuel
  induction fuel with
  | zero =>
    intro bs hfuel _
    rw [List.length_eq_zero_iff.mp (Nat.le_zero.mp hfuel)]
    rfl
  | succ fuel ih =>
    intro bs hfuel hread
    cases bs with
    | nil => rfl
    | cons b bs =>
      rw [lossyChars] at hread ⊢
      cases hchar : ByteArray.utf8DecodeChar? (b :: bs).toByteArray 0 with
      | none =>
        rw [hchar] at hread
        exact absurd List.mem_cons_self hread
      | some c =>
        rw [hchar] at hread
        obtain ⟨rest, hrest⟩ := ByteArray.exists_of_utf8DecodeChar?_eq_some hchar
        have hsplit : b :: bs = String.utf8EncodeChar c ++ rest.data.toList := by
          have hlist := congrArg (fun a : ByteArray => a.data.toList) hrest
          simpa using hlist
        have hlength : (String.utf8EncodeChar c).length = c.utf8Size := String.length_utf8EncodeChar c
        have hdrop : (b :: bs).drop c.utf8Size = rest.data.toList := by
          rw [hsplit, ← hlength, List.drop_left]
        have hpos : 0 < c.utf8Size := c.utf8Size_pos
        have hshort : ((b :: bs).drop c.utf8Size).length ≤ fuel := by
          rw [List.length_drop]
          omega
        show String.utf8EncodeChar c ++
          (lossyChars fuel ((b :: bs).drop c.utf8Size)).flatMap String.utf8EncodeChar = b :: bs
        rw [ih _ hshort fun hmem => hread (List.mem_cons_of_mem c hmem), hdrop, ← hsplit]

theorem utf8_fromUtf8Lossy {bs : List UInt8} (h : '\uFFFD' ∉ (fromUtf8Lossy bs).toList) :
    utf8 (fromUtf8Lossy bs) = bs := by
  rw [fromUtf8Lossy, String.toList_ofList] at h
  rw [utf8, fromUtf8Lossy, String.toList_ofList]
  exact encode_lossyChars bs.length bs (le_refl _) h

/-! ### First occurrences -/

/-- **Where a pattern is first found** after a text that does not hold it, when no proper tail of the
pattern is a beginning of it. -/
theorem dropInfix?_append {α : Type} [BEq α] [LawfulBEq α] {pattern before : List α}
    (hborder : ∀ k, 0 < k → k < pattern.length → ¬ pattern.drop k <+: pattern)
    (hbefore : ¬ pattern <:+: before) (after : List α) :
    (before ++ (pattern ++ after)).dropInfix? pattern = some (before, after) := by
  refine List.dropInfix?_eq_some_iff.mpr ⟨⟨pattern, by rw [List.append_assoc], BEq.rfl⟩, ?_⟩
  intro p i s hsplit hi
  rw [eq_of_beq hi, List.append_assoc] at hsplit
  refine not_lt.mp fun hlt => ?_
  rcases List.append_eq_append_iff.mp hsplit with ⟨t, hp, -⟩ | ⟨t, hbef, hrest⟩
  · rw [hp, List.length_append] at hlt
    omega
  · have hp : pattern <+: t ++ (pattern ++ after) := hrest ▸ List.prefix_append pattern s
    have ht : t <+: t ++ (pattern ++ after) := List.prefix_append _ _
    rcases le_or_gt pattern.length t.length with hle | hgt
    · -- the occurrence ends before the pattern starts
      obtain ⟨u, hu⟩ := List.prefix_of_prefix_length_le hp ht hle
      exact hbefore ⟨p, u, by rw [List.append_assoc, hu, hbef]⟩
    · -- the two occurrences overlap
      obtain ⟨u, hu⟩ := List.prefix_of_prefix_length_le ht hp hgt.le
      have hdrop : pattern.drop t.length = u := by rw [← hu, List.drop_left]
      rw [hbef, List.length_append] at hlt
      refine hborder t.length (by omega) hgt ?_
      rw [← hu, List.append_assoc, List.append_cancel_left_eq, hu] at hrest
      rw [hdrop]
      refine List.prefix_of_prefix_length_le ⟨s, hrest⟩ (List.prefix_append pattern after) ?_
      rw [← hu, List.length_append]
      omega

/-! ### Decimal numerals -/

def decimalDigit? (c : Char) : Option ℕ :=
  if '0' ≤ c ∧ c ≤ '9' then some (c.toNat - 48) else none

/-- Read decimal digits after `acc`, failing on any other character and at `limit`. -/
def parseDigits (limit : ℕ) : ℕ → List Char → Option ℕ
  | acc, [] => some acc
  | acc, c :: cs =>
    match decimalDigit? c with
    | none => none
    | some d => if acc * 10 + d < limit then parseDigits limit (acc * 10 + d) cs else none

/-- An unsigned numeral below `limit`: digits, with at most one leading plus sign. -/
def parseUnsigned (limit : ℕ) : List Char → Option ℕ
  | [] => none
  | ['+'] => none
  | '+' :: cs => parseDigits limit 0 cs
  | cs => parseDigits limit 0 cs

/-- A numeral starts with a digit or a plus sign. -/
theorem parseUnsigned_eq_none {limit : ℕ} {c : Char} (hplus : c ≠ '+') (hdigit : decimalDigit? c = none)
    (s : List Char) : parseUnsigned limit (c :: s) = none := by
  have hdigits : parseDigits limit 0 (c :: s) = none := by rw [parseDigits, hdigit]
  unfold parseUnsigned
  split
  · rfl
  · rfl
  · next h => exact absurd (List.cons.inj h).1 hplus
  · exact hdigits
/-! ### Hexadecimal numerals -/

def hexDigit (d : ℕ) : Char :=
  if d < 10 then Char.ofNat (48 + d) else Char.ofNat (87 + d)

/-- The value of a hexadecimal digit, in either letter case. -/
def hexDigit? (c : Char) : Option ℕ :=
  if '0' ≤ c ∧ c ≤ '9' then some (c.toNat - 48)
  else if 'a' ≤ c ∧ c ≤ 'f' then some (c.toNat - 87)
  else if 'A' ≤ c ∧ c ≤ 'F' then some (c.toNat - 55)
  else none

/-- The `n` lower-case hexadecimal digits of `x`, most significant first. -/
def hexDigits : ℕ → ℕ → List Char
  | 0, _ => []
  | n + 1, x => hexDigit (x / 16 ^ n % 16) :: hexDigits n x

/-- The number a string of hexadecimal digits spells, after `acc`. -/
def parseHex : ℕ → List Char → Option ℕ
  | acc, [] => some acc
  | acc, c :: cs =>
    match hexDigit? c with
    | none => none
    | some d => parseHex (acc * 16 + d) cs

@[simp] theorem hexDigits_length (n x : ℕ) : (hexDigits n x).length = n := by
  induction n with
  | zero => rfl
  | succ n ih => simp only [hexDigits, List.length_cons, ih]

theorem hexDigit?_hexDigit : ∀ {d : ℕ}, d < 16 → hexDigit? (hexDigit d) = some d := by
  decide

theorem hexDigit_isHex : ∀ {d : ℕ}, d < 16 →
    hexDigit d ≠ ':' ∧ hexDigit d ≠ '-' ∧ hexDigit d ≠ '\x00' := by
  decide

/-- What every digit is, every character of a numeral is. -/
theorem forall_mem_hexDigits (P : Char → Prop) (h : ∀ {d : ℕ}, d < 16 → P (hexDigit d)) {n x : ℕ}
    {c : Char} (hc : c ∈ hexDigits n x) : P c := by
  induction n with
  | zero => simp [hexDigits] at hc
  | succ n ih =>
    rcases List.mem_cons.mp hc with rfl | hc
    · exact h (Nat.mod_lt _ (by decide))
    · exact ih hc

theorem hexDigits_ne_of_mem {n x : ℕ} {c : Char} (hc : c ∈ hexDigits n x) :
    c ≠ ':' ∧ c ≠ '-' ∧ c ≠ '\x00' :=
  forall_mem_hexDigits (fun c => c ≠ ':' ∧ c ≠ '-' ∧ c ≠ '\x00') hexDigit_isHex hc

theorem hexDigits_ascii {n x : ℕ} {c : Char} (hc : c ∈ hexDigits n x) : c.toNat < 128 :=
  forall_mem_hexDigits (fun c => c.toNat < 128) (by decide) hc

theorem hexDigits_solid {n x : ℕ} {c : Char} (hc : c ∈ hexDigits n x) : isWhitespace c = false :=
  forall_mem_hexDigits (fun c => isWhitespace c = false) (by decide) hc

/-- **Hexadecimal numerals round-trip**: reading back `n` digits appends them to what was read. -/
theorem parseHex_hexDigits (n x acc : ℕ) :
    parseHex acc (hexDigits n x) = some (acc * 16 ^ n + x % 16 ^ n) := by
  induction n generalizing acc with
  | zero => simp [hexDigits, parseHex, Nat.mod_one]
  | succ n ih =>
    have hd : hexDigit? (hexDigit (x / 16 ^ n % 16)) = some (x / 16 ^ n % 16) :=
      hexDigit?_hexDigit (Nat.mod_lt _ (by decide))
    rw [hexDigits, parseHex, hd]
    simp only [ih]
    rw [Nat.pow_succ, Nat.mod_mul]
    congr 1
    ring

theorem hexDigits_inj {n x y : ℕ} (hx : x < 16 ^ n) (hy : y < 16 ^ n)
    (h : hexDigits n x = hexDigits n y) : x = y := by
  have hread := congrArg (parseHex 0) h
  rw [parseHex_hexDigits, parseHex_hexDigits, Nat.mod_eq_of_lt hx, Nat.mod_eq_of_lt hy] at hread
  simpa using hread

/-- Texts of as many digits for each item spell the items. -/
theorem eq_of_flatMap_hexDigits {α : Type} {n : ℕ} {code : α → ℕ} (hcode : Function.Injective code)
    (hlt : ∀ a, code a < 16 ^ (n + 1)) {as bs : List α}
    (h : as.flatMap (fun a => hexDigits (n + 1) (code a)) =
      bs.flatMap fun b => hexDigits (n + 1) (code b)) : as = bs := by
  induction as generalizing bs with
  | nil =>
    cases bs with
    | nil => rfl
    | cons b bs => exact absurd h.symm (List.cons_ne_nil _ _)
  | cons a as ih =>
    cases bs with
    | nil => exact absurd h (List.cons_ne_nil _ _)
    | cons b bs =>
      rw [List.flatMap_cons, List.flatMap_cons] at h
      obtain ⟨hfirst, hrest⟩ :=
        List.append_inj h ((hexDigits_length _ _).trans (hexDigits_length _ _).symm)
      rw [hcode (hexDigits_inj (hlt a) (hlt b) hfirst), ih hrest]

theorem toNat_lt_hex (c : Char) : c.toNat < 16 ^ 6 := by
  have htop : c.toNat < 0x110000 := by
    rcases c.valid with h | ⟨-, h⟩
    · exact lt_trans h (by decide)
    · exact h
  omega

/-- **Six digits for each character spell a text.** -/
theorem flatMap_hexDigits_inj {s t : List Char}
    (h : s.flatMap (fun c => hexDigits 6 c.toNat) = t.flatMap fun c => hexDigits 6 c.toNat) :
    s = t :=
  eq_of_flatMap_hexDigits (fun _ _ => Char.toNat_inj.mp) toNat_lt_hex h

/-- Digits of a wider numeral are the digits of its two halves. -/
theorem hexDigits_add (m n x : ℕ) :
    hexDigits (m + n) x = hexDigits m (x / 16 ^ n) ++ hexDigits n x := by
  induction m with
  | zero => simp [hexDigits]
  | succ m ih =>
    rw [Nat.succ_add, hexDigits, hexDigits, ih, List.cons_append, Nat.div_div_eq_div_mul,
      ← Nat.pow_add, Nat.add_comm n m]

end Text
