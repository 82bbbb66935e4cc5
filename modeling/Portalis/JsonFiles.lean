import Portalis.Json

/-!
# JSON files

The writer that lays an object out over several lines, and files that hold only the first part of an object.

* `parse_pretty`: an object that is laid out is read back.
* `parse_appends`: what is read before the end of a text does not change when the text goes on.
* `parse_eq_none_of_cut`: an object that is cut off is not read.
* `textFormat`: so is its UTF-8, cut off after any octet.
-/

namespace Json

open Text

/-! ### The writer with line breaks -/

/-- The members of an object whose values are neither arrays nor objects. -/
def prettyMembers (first : Bool) : List (String × Json) → List Char
  | [] => []
  | (key, v) :: ms =>
    (if first then [] else [',']) ++ ('\n' :: ' ' :: ' ' ::
      (renderString key ++ ':' :: ' ' :: (render v ++ prettyMembers false ms)))

def pretty (ms : List (String × Json)) : List Char := '\x7b' :: (prettyMembers true ms ++ ['\n', '\x7d'])

theorem skipWs_cons {c : Char} (h : isWs c = true) (text : List Char) : skipWs (c :: text) = skipWs text := by
  rw [skipWs, List.dropWhile_cons, if_pos h, skipWs]

/-- White space before a value is skipped. -/
theorem parseValue_cons {c : Char} (h : isWs c = true) (fuel : ℕ) (text : List Char) :
    parseValue fuel (c :: text) = parseValue fuel text := by
  cases fuel with
  | zero => rfl
  | succ fuel => rw [parseValue, parseValue, skipWs_cons h]

theorem delimited_pretty (ms : List (String × Json)) (rest : List Char) :
    Delimited (prettyMembers false ms ++ '\n' :: '\x7d' :: rest) := by
  cases ms with
  | nil => exact delimited_cons _ rfl
  | cons m ms => exact delimited_cons _ rfl

theorem skipWs_renderString (key : String) (rest : List Char) :
    skipWs (renderString key ++ rest) = renderString key ++ rest :=
  skipWs_of_head _ rfl

/-- The line break and the comma in front of a name. -/
theorem skipComma_line (first : Bool) (key : String) (rest : List Char) :
    (skipWs ((if first then [] else [',']) ++ '\n' :: ' ' :: ' ' :: (renderString key ++ rest))).head? ≠
        some '\x7d' ∧
      ∃ after, skipComma first
          (skipWs ((if first then [] else [',']) ++ '\n' :: ' ' :: ' ' :: (renderString key ++ rest))) =
            some after ∧ skipWs after = renderString key ++ rest := by
  have hline : skipWs ('\n' :: ' ' :: ' ' :: (renderString key ++ rest)) = renderString key ++ rest := by
    rw [skipWs_cons rfl, skipWs_cons rfl, skipWs_cons rfl, skipWs_renderString]
  cases first with
  | true =>
    rw [if_pos rfl, List.nil_append, hline]
    refine ⟨?_, renderString key ++ rest, rfl, skipWs_renderString key rest⟩
    rw [renderString]
    simp
  | false =>
    rw [if_neg Bool.false_ne_true, List.singleton_append, skipWs_of_head _ rfl]
    exact ⟨by simp, _, rfl, hline⟩

theorem parseMembers_pretty (ms : List (String × Json)) (first : Bool) (fuel : ℕ) (rest : List Char)
    (hfuel : sizeMembers ms ≤ fuel) :
    parseMembers fuel first (prettyMembers first ms ++ '\n' :: '\x7d' :: rest) = some (ms, rest) := by
  induction ms generalizing first fuel with
  | nil =>
    rw [sizeMembers] at hfuel
    obtain ⟨fuel, rfl⟩ : ∃ n, fuel = n + 1 := ⟨fuel - 1, by omega⟩
    rfl
  | cons m ms ih =>
    obtain ⟨key, v⟩ := m
    rw [sizeMembers] at hfuel
    obtain ⟨fuel, rfl⟩ : ∃ n, fuel = n + 1 := ⟨fuel - 1, by omega⟩
    have hmore := ih false fuel (by omega)
    have hvalue := parseValue_render v fuel (prettyMembers false ms ++ '\n' :: '\x7d' :: rest) (by omega)
      (delimited_pretty ms rest)
    have hform : prettyMembers first ((key, v) :: ms) ++ '\n' :: '\x7d' :: rest =
        (if first then [] else [',']) ++ '\n' :: ' ' :: ' ' :: (renderString key ++
          ':' :: ' ' :: (render v ++ (prettyMembers false ms ++ '\n' :: '\x7d' :: rest))) := by
      rw [prettyMembers]
      simp only [List.append_assoc, List.cons_append]
    have hkey := parseKey_renderString key
      (' ' :: (render v ++ (prettyMembers false ms ++ '\n' :: '\x7d' :: rest)))
    rw [skipWs_renderString] at hkey
    obtain ⟨hopen, after, hcomma, hafter⟩ := skipComma_line first key
      (':' :: ' ' :: (render v ++ (prettyMembers false ms ++ '\n' :: '\x7d' :: rest)))
    rw [hform, parseMembers]
    dsimp only
    rw [if_neg hopen, hcomma, Option.bind_some, hafter, hkey, Option.bind_some]
    dsimp only
    rw [parseValue_cons rfl, hvalue, Option.bind_some]
    dsimp only
    rw [hmore]
    rfl

/-- The whole text is the object. -/
theorem parseValue_pretty (ms : List (String × Json)) (fuel : ℕ) (hfuel : sizeMembers ms ≤ fuel) :
    parseValue (fuel + 1) (pretty ms) = some (object ms, []) := by
  have hread := parseMembers_pretty ms true fuel [] hfuel
  rw [pretty, parseValue, skipWs_of_head _ rfl]
  dsimp only
  rw [if_neg (by decide), if_neg (by decide), if_pos rfl, hread]
  rfl

theorem length_le_pretty (ms : List (String × Json)) (first : Bool) :
    (renderMembers first ms).length ≤ (prettyMembers first ms).length := by
  induction ms generalizing first with
  | nil => exact le_refl _
  | cons m ms ih =>
    obtain ⟨key, v⟩ := m
    have hmore := ih false
    rw [renderMembers, prettyMembers]
    simp only [List.length_append, List.length_cons]
    omega

/-- **An object that is laid out is read back.** -/
theorem parse_pretty (ms : List (String × Json)) : parse (pretty ms) = some (object ms) := by
  have hsize := sizeMembers_le ms true
  have hlength := length_le_pretty ms true
  have htext : (pretty ms).length = (prettyMembers true ms).length + 3 := by
    rw [pretty, List.length_cons, List.length_append]
    rfl
  have hread := parseValue_pretty ms (2 * (pretty ms).length + 1) (by omega)
  rw [parse, hread]
  rfl

/-! ### Texts that go on -/

theorem map_push_append {more read rest text : List Char} {c : Char}
    (ih : ∀ {read rest : List Char}, parseString text = some (read, rest) →
      parseString (text ++ more) = some (read, rest ++ more))
    (h : (parseString text).map (push c) = some (read, rest)) :
    (parseString (text ++ more)).map (push c) = some (read, rest ++ more) := by
  obtain ⟨⟨read', rest'⟩, hread, hpush⟩ := Option.map_eq_some_iff.mp h
  rw [ih hread, Option.map_some]
  cases hpush
  rfl

theorem parseString_append {text more read rest : List Char} (h : parseString text = some (read, rest)) :
    parseString (text ++ more) = some (read, rest ++ more) := by
  induction text using parseString.induct generalizing read rest with
  | case1 => cases h
  | case2 text =>
    rw [parseString_quote] at h
    rw [List.cons_append, parseString_quote]
    cases h
    rfl
  | case6 a b c d n hfirst hhigh a' b' c' d' text low hsecond hlow hne ih =>
    rw [parseString.eq_def] at h ⊢
    simp only [List.cons_append, if_neg hne, hfirst, hhigh, hsecond, hlow, if_pos] at h ⊢
    exact map_push_append ih h
  | case10 a b c d text n hfirst hhigh hlow hne ih =>
    rw [parseString.eq_def] at h ⊢
    simp only [List.cons_append, if_neg hne, hfirst, hhigh, hlow, if_pos] at h ⊢
    exact map_push_append ih h
  | case13 e text hu x hunescape hne ih =>
    rw [parseString.eq_def] at h ⊢
    simp only [List.cons_append, if_neg hne, if_neg hu, hunescape, if_pos] at h ⊢
    exact map_push_append ih h
  | case15 c text hquote hslash hplain ih =>
    rw [parseString.eq_def] at h ⊢
    simp only [List.cons_append, if_neg hquote, if_neg hslash, if_neg hplain] at h ⊢
    exact map_push_append ih h
  | case3 hne =>
    rw [parseString.eq_def] at h
    simp only [if_neg hne, if_pos] at h
    cases h
  | _ =>
    -- what is not read
    rw [parseString.eq_def] at h
    simp_all

theorem skipWs_append {text : List Char} (h : skipWs text ≠ []) (more : List Char) :
    skipWs (text ++ more) = skipWs text ++ more := by
  induction text with
  | nil => exact absurd rfl h
  | cons c text ih =>
    unfold skipWs at h ih ⊢
    rw [List.cons_append, List.dropWhile_cons, List.dropWhile_cons]
    rw [List.dropWhile_cons] at h
    split
    · next hws =>
      rw [if_pos hws] at h
      exact ih h
    · rfl

theorem ne_nil_of_head? {text : List Char} {c : Char} (h : text.head? = some c) : text ≠ [] := by
  intro hnil
  rw [hnil] at h
  cases h

theorem head_tail_append {text : List Char} (h : text ≠ []) (more : List Char) :
    (text ++ more).head? = text.head? ∧ (text ++ more).tail = text.tail ++ more := by
  cases text with
  | nil => exact absurd rfl h
  | cons c text => exact ⟨rfl, rfl⟩

theorem parseKey_append {text rest more : List Char} {key : String}
    (h : parseKey text = some (key, rest)) : parseKey (text ++ more) = some (key, rest ++ more) := by
  unfold parseKey at h ⊢
  split at h
  · next hquote =>
    obtain ⟨hhead, htail⟩ := head_tail_append (ne_nil_of_head? hquote) more
    obtain ⟨⟨name, after⟩, hread, hcolon⟩ := Option.bind_eq_some_iff.mp h
    dsimp only at hcolon
    split at hcolon
    · next hcolon' =>
      have hafter := skipWs_append (ne_nil_of_head? hcolon') more
      obtain ⟨hhead', htail'⟩ := head_tail_append (ne_nil_of_head? hcolon') more
      rw [hhead, if_pos hquote, htail, parseString_append hread, Option.bind_some]
      dsimp only
      rw [hafter, hhead', if_pos hcolon', htail']
      cases hcolon
      rfl
    · cases hcolon
  · cases h

theorem takeWhile_append_of_rest {p : Char → Bool} {text : List Char} (h : text.dropWhile p ≠ [])
    (more : List Char) : (text ++ more).takeWhile p = text.takeWhile p ∧
      (text ++ more).dropWhile p = text.dropWhile p ++ more := by
  induction text with
  | nil => exact absurd rfl h
  | cons c text ih =>
    rw [List.dropWhile_cons] at h
    rw [List.cons_append, List.takeWhile_cons, List.takeWhile_cons, List.dropWhile_cons, List.dropWhile_cons]
    by_cases hc : p c = true
    · rw [if_pos hc] at h
      rw [if_pos hc, if_pos hc, if_pos hc, if_pos hc, (ih h).1, (ih h).2]
      exact ⟨rfl, rfl⟩
    · rw [if_neg hc, if_neg hc, if_neg hc, if_neg hc]
      exact ⟨rfl, rfl⟩

theorem skipComma_append {first : Bool} {text after : List Char} (h : skipComma first text = some after)
    (more : List Char) : skipComma first (text ++ more) = some (after ++ more) := by
  unfold skipComma at h ⊢
  cases first with
  | true =>
    cases h
    rfl
  | false =>
    rw [if_neg Bool.false_ne_true] at h ⊢
    split at h
    · next hcomma =>
      obtain ⟨hhead, htail⟩ := head_tail_append (ne_nil_of_head? hcomma) more
      rw [hhead, if_pos hcomma, htail]
      cases h
      rfl
    · cases h

/-- Elements and members end with a bracket. -/
theorem parseElements_nil (fuel : ℕ) : parseElements fuel false [] = none := by
  cases fuel with
  | zero => rfl
  | succ fuel => rfl

theorem parseMembers_nil (fuel : ℕ) : parseMembers fuel false [] = none := by
  cases fuel with
  | zero => rfl
  | succ fuel => rfl

theorem parseValue_nil (fuel : ℕ) : parseValue fuel [] = none := by
  cases fuel with
  | zero => rfl
  | succ fuel => rfl

/-- What is read of a text before its end is read of the text with more after it. -/
def ValueAppends (more : List Char) (fuel : ℕ) : Prop :=
  ∀ {fuel' : ℕ} {text rest : List Char} {v : Json}, fuel ≤ fuel' →
    parseValue fuel text = some (v, rest) → rest ≠ [] →
      parseValue fuel' (text ++ more) = some (v, rest ++ more)

def ElementsAppend (more : List Char) (fuel : ℕ) : Prop :=
  ∀ {fuel' : ℕ} {first : Bool} {text rest : List Char} {vs : List Json}, fuel ≤ fuel' →
    parseElements fuel first text = some (vs, rest) →
      parseElements fuel' first (text ++ more) = some (vs, rest ++ more)

def MembersAppend (more : List Char) (fuel : ℕ) : Prop :=
  ∀ {fuel' : ℕ} {first : Bool} {text rest : List Char} {ms : List (String × Json)}, fuel ≤ fuel' →
    parseMembers fuel first text = some (ms, rest) →
      parseMembers fuel' first (text ++ more) = some (ms, rest ++ more)

variable {more : List Char} {fuel : ℕ}

theorem valueAppends_succ (helements : ElementsAppend more fuel) (hmembers : MembersAppend more fuel) :
    ValueAppends more (fuel + 1) := by
  intro fuel' text rest v hfuel h hrest
  obtain ⟨fuel', rfl⟩ : ∃ n, fuel' = n + 1 := ⟨fuel' - 1, by omega⟩
  have hle : fuel ≤ fuel' := by omega
  rw [parseValue] at h ⊢
  cases htext : skipWs text with
  | nil =>
    rw [htext] at h
    cases h
  | cons c after =>
    rw [skipWs_append (by rw [htext]; exact List.cons_ne_nil _ _) more, htext, List.cons_append]
    rw [htext] at h
    dsimp only at h ⊢
    by_cases hquote : c = '\x22'
    · rw [if_pos hquote] at h ⊢
      obtain ⟨⟨read, after'⟩, hread, hpair⟩ := Option.map_eq_some_iff.mp h
      rw [parseString_append hread]
      cases hpair
      rfl
    rw [if_neg hquote] at h ⊢
    by_cases hbracket : c = '['
    · rw [if_pos hbracket] at h ⊢
      obtain ⟨⟨read, after'⟩, hread, hpair⟩ := Option.map_eq_some_iff.mp h
      rw [helements hle hread]
      cases hpair
      rfl
    rw [if_neg hbracket] at h ⊢
    by_cases hbrace : c = '\x7b'
    · rw [if_pos hbrace] at h ⊢
      obtain ⟨⟨read, after'⟩, hread, hpair⟩ := Option.map_eq_some_iff.mp h
      rw [hmembers hle hread]
      cases hpair
      rfl
    rw [if_neg hbrace] at h ⊢
    obtain ⟨read, hread, hpair⟩ := Option.map_eq_some_iff.mp h
    have hafter : (c :: after).dropWhile isScalarChar ≠ [] := by
      rw [(Prod.mk.inj hpair).2]
      exact hrest
    obtain ⟨htake, hdrop⟩ := takeWhile_append_of_rest hafter more
    rw [List.cons_append] at htake hdrop
    rw [htake, hdrop, hread, Option.map_some, (Prod.mk.inj hpair).1, (Prod.mk.inj hpair).2]

theorem elementsAppend_succ (hvalue : ValueAppends more fuel) (helements : ElementsAppend more fuel) :
    ElementsAppend more (fuel + 1) := by
  intro fuel' first text rest vs hfuel h
  obtain ⟨fuel', rfl⟩ : ∃ n, fuel' = n + 1 := ⟨fuel' - 1, by omega⟩
  have hle : fuel ≤ fuel' := by omega
  rw [parseElements] at h ⊢
  dsimp only at h ⊢
  have hne : skipWs text ≠ [] := by
    intro hnil
    rw [hnil, if_neg (by simp)] at h
    cases first with
    | true =>
      rw [skipComma, if_pos rfl, Option.bind_some, parseValue_nil] at h
      cases h
    | false => cases h
  obtain ⟨hhead, htail⟩ := head_tail_append hne more
  rw [skipWs_append hne more, hhead, htail]
  split at h
  · next hclose =>
    rw [if_pos hclose]
    cases h
    rfl
  · next hclose =>
    rw [if_neg hclose]
    obtain ⟨after, hcomma, h⟩ := Option.bind_eq_some_iff.mp h
    obtain ⟨⟨v, after'⟩, hread, h⟩ := Option.bind_eq_some_iff.mp h
    obtain ⟨⟨vs', rest'⟩, hmore, hpair⟩ := Option.map_eq_some_iff.mp h
    have hrest : after' ≠ [] := by
      intro hnil
      dsimp only at hmore
      rw [hnil, parseElements_nil] at hmore
      cases hmore
    rw [skipComma_append hcomma, Option.bind_some, hvalue hle hread hrest, Option.bind_some]
    dsimp only
    rw [helements hle hmore]
    cases hpair
    rfl

theorem membersAppend_succ (hvalue : ValueAppends more fuel) (hmembers : MembersAppend more fuel) :
    MembersAppend more (fuel + 1) := by
  intro fuel' first text rest ms hfuel h
  obtain ⟨fuel', rfl⟩ : ∃ n, fuel' = n + 1 := ⟨fuel' - 1, by omega⟩
  have hle : fuel ≤ fuel' := by omega
  rw [parseMembers] at h ⊢
  dsimp only at h ⊢
  have hne : skipWs text ≠ [] := by
    intro hnil
    rw [hnil, if_neg (by simp)] at h
    cases first with
    | true =>
      cases h
    | false => cases h
  obtain ⟨hhead, htail⟩ := head_tail_append hne more
  rw [skipWs_append hne more, hhead, htail]
  split at h
  · next hclose =>
    rw [if_pos hclose]
    cases h
    rfl
  · next hclose =>
    rw [if_neg hclose]
    obtain ⟨after, hcomma, h⟩ := Option.bind_eq_some_iff.mp h
    obtain ⟨⟨key, after'⟩, hkey, h⟩ := Option.bind_eq_some_iff.mp h
    obtain ⟨⟨v, after''⟩, hread, h⟩ := Option.bind_eq_some_iff.mp h
    obtain ⟨⟨ms', rest'⟩, hmore, hpair⟩ := Option.map_eq_some_iff.mp h
    have hafter : skipWs after ≠ [] := by
      intro hnil
      rw [hnil] at hkey
      cases hkey
    have hrest : after'' ≠ [] := by
      intro hnil
      dsimp only at hmore
      rw [hnil, parseMembers_nil] at hmore
      cases hmore
    rw [skipComma_append hcomma, Option.bind_some, skipWs_append hafter more, parseKey_append hkey,
      Option.bind_some]
    dsimp only at hread ⊢
    rw [hvalue hle hread hrest, Option.bind_some]
    dsimp only
    rw [hmembers hle hmore]
    cases hpair
    rfl

/-- **What is read before the end of a text** does not change when the text goes on. -/
theorem parse_appends (more : List Char) (fuel : ℕ) :
    ValueAppends more fuel ∧ ElementsAppend more fuel ∧ MembersAppend more fuel := by
  induction fuel with
  | zero =>
    refine ⟨?_, ?_, ?_⟩
    · intro fuel' text rest v _ h
      cases h
    · intro fuel' first text rest vs _ h
      cases h
    · intro fuel' first text rest ms _ h
      cases h
  | succ fuel ih =>
    obtain ⟨hvalue, helements, hmembers⟩ := ih
    exact ⟨valueAppends_succ helements hmembers, elementsAppend_succ hvalue helements,
      membersAppend_succ hvalue hmembers⟩

theorem parseValue_brace (fuel : ℕ) (text : List Char) :
    parseValue (fuel + 1) ('\x7b' :: text) =
      (parseMembers fuel true text).map fun (members, rest) => (object members, rest) := by
  rw [parseValue, skipWs_of_head _ rfl]
  dsimp only
  rw [if_neg (by decide), if_neg (by decide), if_pos rfl]

/-- **An object that is cut off is not read.** -/
theorem parse_eq_none_of_cut {text start : List Char} {fuel : ℕ} {v : Json}
    (h : parseValue (fuel + 1) ('\x7b' :: text) = some (v, [])) (hstart : start <+: '\x7b' :: text)
    (hcut : start ≠ '\x7b' :: text) : parse start = none := by
  obtain ⟨more, hmore⟩ := hstart
  cases start with
  | nil => rfl
  | cons c start =>
    obtain ⟨rfl, rfl⟩ := List.cons.inj hmore
    cases hread : parse ('\x7b' :: start) with
    | none => rfl
    | some w =>
      obtain ⟨⟨w', rest⟩, hvalue, -⟩ := Option.bind_eq_some_iff.mp hread
      rw [parseValue_brace] at h hvalue
      obtain ⟨⟨ms, rest'⟩, hwhole, hpair⟩ := Option.map_eq_some_iff.mp h
      obtain ⟨⟨ms', rest''⟩, hpart, -⟩ := Option.map_eq_some_iff.mp hvalue
      have hnone : rest' = [] := (Prod.mk.inj hpair).2
      have hsame := (parse_appends more _).2.2 (le_max_left (2 * ('\x7b' :: start).length + 1) fuel) hpart
      have hwhole' := (parse_appends [] fuel).2.2
        (le_max_right (2 * ('\x7b' :: start).length + 1) fuel) hwhole
      rw [List.append_nil] at hwhole'
      have hends := (Prod.mk.inj (Option.some.inj (hsame.symm.trans hwhole'))).2
      rw [hnone] at hends
      have hempty := (List.append_eq_nil_iff.mp hends).2
      have hall : start ++ more = start := by rw [hempty, List.append_nil]
      exact absurd (congrArg (List.cons '\x7b') hall.symm) hcut

/-- An object that is laid out and cut off. -/
theorem parse_cut_pretty {ms : List (String × Json)} {start : List Char} (hstart : start <+: pretty ms)
    (hcut : start ≠ pretty ms) : parse start = none :=
  parse_eq_none_of_cut (parseValue_pretty ms (sizeMembers ms) (le_refl _)) hstart hcut

/-- An object that is written compactly and cut off. -/
theorem parse_cut_render {ms : List (String × Json)} {start : List Char}
    (hstart : start <+: render (object ms)) (hcut : start ≠ render (object ms)) : parse start = none := by
  have hread := parseValue_render (object ms) (size (object ms) + 1) [] (Nat.le_succ _)
    (fun c hc => (by cases hc))
  rw [List.append_nil, render] at hread
  rw [render] at hstart hcut
  exact parse_eq_none_of_cut hread hstart hcut

end Json

/-! ### File formats -/

/-- What is written is read back, and not read at all when it is cut off. -/
structure FileFormat (α : Type) where
  write : α → List UInt8
  read : List UInt8 → Option α
  read_write : ∀ a, read (write a) = some a
  read_cut : ∀ {a start}, start <+: write a → start ≠ write a → read start = none

/-- The UTF-8 of a text format. -/
def textFormat {α : Type} (print : α → List Char) (parse : List Char → Option α)
    (hprint : ∀ a, parse (print a) = some a)
    (hcut : ∀ {a start}, start <+: print a → start ≠ print a → parse start = none) : FileFormat α where
  write a := Text.utf8 (String.ofList (print a))
  read bytes := (Text.ofUtf8? bytes).bind fun text => parse text.toList
  read_write := by
    intro a
    rw [Text.ofUtf8?_utf8, Option.bind_some, String.toList_ofList, hprint]
  read_cut := by
    intro a start hstart hne
    cases htext : Text.ofUtf8? start with
    | none => rfl
    | some text =>
      have hoctets := Text.utf8_of_ofUtf8? htext
      rw [Option.bind_some]
      refine @hcut a _ ?_ ?_
      · have hprefix : Text.utf8 text <+: Text.utf8 (String.ofList (print a)) := by rwa [hoctets]
        have hchars := Text.toList_prefix_of_utf8 hprefix
        rwa [String.toList_ofList] at hchars
      · intro hsame
        rw [← hoctets, ← hsame, String.ofList_toList] at hne
        exact hne rfl
