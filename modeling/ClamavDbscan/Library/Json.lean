import Mathlib.Data.List.Basic

/-
This file defines a JSON decoder for texts of characters and the rules for the texts it accepts.
-/

namespace Json

/-- A decoded string can contain surrogates, which come from escapes. -/
abbrev Text := List (Fin 0x110000)

/-- A number keeps its text. -/
inductive Value where
  | null
  | bool (value : Bool)
  | number (digits : List Char)
  | string (content : Text)
  | array (elements : List Value)
  | object (members : List (Text × Value))

/-- The last member with a key counts. -/
def Value.get (key : Text) : Value → Option Value
  | object members => (members.reverse.find? fun member => member.1 = key).map Prod.snd
  | _ => none

theorem toNat_lt (char : Char) : char.toNat < 0x110000 := by
  rcases char.valid with low | high
  · exact Nat.lt_trans low (by decide)
  · exact high.2

def pointOf (char : Char) : Fin 0x110000 := ⟨char.toNat, toNat_lt char⟩

def isSpace (char : Char) : Bool :=
  char == ' ' || char == '\t' || char == '\n' || char == '\r'

def skipSpace (input : List Char) : List Char := input.dropWhile isSpace

def hexDigit (char : Char) : Option (Fin 16) :=
  if '0' ≤ char ∧ char ≤ '9' then some (Fin.ofNat 16 (char.toNat - '0'.toNat))
  else if 'a' ≤ char ∧ char ≤ 'f' then some (Fin.ofNat 16 (char.toNat - 'a'.toNat + 10))
  else if 'A' ≤ char ∧ char ≤ 'F' then some (Fin.ofNat 16 (char.toNat - 'A'.toNat + 10))
  else none

/-- A digit is printed as this letter. -/
def hexLetter (digit : Nat) : Char := "0123456789abcdef".toList.getD digit '0'

/-- Four digits give a code unit. -/
def unitOf (first second third fourth : Char) : Option (Fin 0x110000) :=
  match hexDigit first, hexDigit second, hexDigit third, hexDigit fourth with
  | some a, some b, some c, some d =>
      some ⟨a.val * 4096 + b.val * 256 + c.val * 16 + d.val, by omega⟩
  | _, _, _, _ => none

/-- These letters stand for one character behind a backslash. -/
def shortEscape (letter : Char) : Option Char :=
  if letter = '"' then some '"'
  else if letter = '\\' then some '\\'
  else if letter = '/' then some '/'
  else if letter = 'b' then some '\x08'
  else if letter = 'f' then some '\x0c'
  else if letter = 'n' then some '\n'
  else if letter = 'r' then some '\r'
  else if letter = 't' then some '\t'
  else none

/-- A string ends at its quote, and control characters are not allowed in it. -/
def scanUnits : List Char → Option (Text × List Char)
  | [] => none
  | char :: rest =>
      if char = '"' then some ([], rest)
      else if char = '\\' then
        match rest with
        | [] => none
        | letter :: behind =>
            if letter = 'u' then
              match behind with
              | first :: second :: third :: fourth :: after =>
                  match unitOf first second third fourth with
                  | none => none
                  | some unit => (scanUnits after).map fun (units, left) => (unit :: units, left)
              | _ => none
            else
              match shortEscape letter with
              | none => none
              | some escaped =>
                  (scanUnits behind).map fun (units, left) => (pointOf escaped :: units, left)
      else if char.toNat < 0x20 then none
      else (scanUnits rest).map fun (units, left) => (pointOf char :: units, left)

/-- Two escaped surrogates give one code point. -/
def joinSurrogates : Text → Text
  | high :: low :: rest =>
      if h : (0xd800 ≤ high.val ∧ high.val ≤ 0xdbff) ∧ 0xdc00 ≤ low.val ∧ low.val ≤ 0xdfff then
        ⟨0x10000 + (high.val - 0xd800) * 0x400 + (low.val - 0xdc00), by omega⟩ ::
          joinSurrogates rest
      else high :: joinSurrogates (low :: rest)
  | rest => rest

def scanString (input : List Char) : Option (Text × List Char) :=
  (scanUnits input).map fun (units, left) => (joinSurrogates units, left)

/-- At least one digit is taken. -/
def takeDigits (input : List Char) : Option (List Char × List Char) :=
  if input.takeWhile Char.isDigit = [] then none
  else some (input.takeWhile Char.isDigit, input.dropWhile Char.isDigit)

/-- A whole number has no leading zero. -/
def takeWhole : List Char → Option (List Char × List Char)
  | '0' :: rest => some (['0'], rest)
  | input => takeDigits input

/-- A part without its digits is not part of the number. -/
def takeFraction : List Char → List Char × List Char
  | '.' :: rest =>
      match takeDigits rest with
      | some (digits, after) => ('.' :: digits, after)
      | none => ([], '.' :: rest)
  | input => ([], input)

def takeExponent (input : List Char) : List Char × List Char :=
  match input with
  | mark :: rest =>
      if mark = 'e' ∨ mark = 'E' then
        let (sign, digits) := match rest with
          | '+' :: behind => (['+'], behind)
          | '-' :: behind => (['-'], behind)
          | behind => ([], behind)
        match takeDigits digits with
        | some (exponent, after) => (mark :: sign ++ exponent, after)
        | none => ([], input)
      else ([], input)
  | [] => ([], [])

def scanNumber (input : List Char) : Option (Value × List Char) :=
  let (sign, unsigned) := match input with
    | '-' :: rest => (['-'], rest)
    | rest => ([], rest)
  (takeWhole unsigned).map fun (whole, behind) =>
    let (fraction, later) := takeFraction behind
    let (exponent, after) := takeExponent later
    (.number (sign ++ whole ++ fraction ++ exponent), after)

/-- A word stands for its value. -/
def words : List (List Char × Value) :=
  [("null".toList, .null), ("true".toList, .bool true), ("false".toList, .bool false),
    ("NaN".toList, .number "NaN".toList), ("Infinity".toList, .number "Infinity".toList),
    ("-Infinity".toList, .number "-Infinity".toList)]

def scanAtom (input : List Char) : Option (Value × List Char) :=
  match words.find? fun word => word.1.isPrefixOf input with
  | some (word, value) => some (value, input.drop word.length)
  | none => scanNumber input

mutual

/-- Every nested value takes at least one character, so the length of the text is enough fuel. -/
def parseValue : (fuel : Nat) → List Char → Option (Value × List Char)
  | 0, _ => none
  | _ + 1, [] => none
  | fuel + 1, first :: rest =>
      if first = '"' then (scanString rest).map fun (content, left) => (.string content, left)
      else if first = '\x7b' then
        match skipSpace rest with
        | '\x7d' :: left => some (.object [], left)
        | members => (parseMembers fuel members).map fun (members, left) => (.object members, left)
      else if first = '[' then
        match skipSpace rest with
        | ']' :: left => some (.array [], left)
        | elements =>
            (parseElements fuel elements).map fun (elements, left) => (.array elements, left)
      else scanAtom (first :: rest)

/-- A member has a string, a colon and a value, and a comma or the end follows it. -/
def parseMembers : (fuel : Nat) → List Char → Option (List (Text × Value) × List Char)
  | fuel + 1, '"' :: rest =>
      match scanString rest with
      | none => none
      | some (key, behind) =>
          match skipSpace behind with
          | ':' :: value =>
              match parseValue fuel (skipSpace value) with
              | none => none
              | some (value, behind) =>
                  match skipSpace behind with
                  | '\x7d' :: left => some ([(key, value)], left)
                  | ',' :: more =>
                      (parseMembers fuel (skipSpace more)).map fun (members, left) =>
                        ((key, value) :: members, left)
                  | _ => none
          | _ => none
  | _, _ => none

def parseElements : (fuel : Nat) → List Char → Option (List Value × List Char)
  | 0, _ => none
  | fuel + 1, input =>
      match parseValue fuel input with
      | none => none
      | some (value, behind) =>
          match skipSpace behind with
          | ']' :: left => some ([value], left)
          | ',' :: more =>
              (parseElements fuel (skipSpace more)).map fun (elements, left) =>
                (value :: elements, left)
          | _ => none

end

/-- A text is one value with white space around it, and it has no byte order mark. -/
def loads (text : List Char) : Option Value :=
  if text.head? = some '\ufeff' then none
  else
    match parseValue (text.length + 1) (skipSpace text) with
    | some (value, left) => if skipSpace left = [] then some value else none
    | none => none

/-- An escape text stands for these characters between the quotes of a string. -/
inductive Escaped : List Char → List Char → Prop
  | nil : Escaped [] []
  | plain {char : Char} {escape content : List Char} : char ≠ '"' → char ≠ '\\' →
      0x20 ≤ char.toNat → Escaped escape content → Escaped (char :: escape) (char :: content)
  | short {letter char : Char} {escape content : List Char} : shortEscape letter = some char →
      Escaped escape content → Escaped ('\\' :: letter :: escape) (char :: content)
  | unit {first second third fourth char : Char} {escape content : List Char} :
      unitOf first second third fourth = some (pointOf char) → Escaped escape content →
      Escaped ('\\' :: 'u' :: first :: second :: third :: fourth :: escape) (char :: content)

theorem Escaped.append {front back content behind : List Char} (left : Escaped front content)
    (right : Escaped back behind) : Escaped (front ++ back) (content ++ behind) := by
  induction left with
  | nil => exact right
  | plain notQuote notEscape large _ ih => exact .plain notQuote notEscape large ih
  | short known _ ih => exact .short known ih
  | unit known _ ih => exact .unit known ih

/-- Printable text without a quote and a backslash stands for itself. -/
theorem escaped_plain {word : List Char}
    (printable : ∀ char ∈ word, char ≠ '"' ∧ char ≠ '\\' ∧ 0x20 ≤ char.toNat) :
    Escaped word word := by
  induction word with
  | nil => exact .nil
  | cons char word ih =>
      obtain ⟨notQuote, notEscape, large⟩ := printable char List.mem_cons_self
      exact .plain notQuote notEscape large
        (ih fun other member => printable other (List.mem_cons_of_mem _ member))

/-- These letters behind a backslash stand for the character. -/
def readsEscape (letters : List Char) (char : Char) : Bool :=
  match letters with
  | [letter] => shortEscape letter == some char
  | ['u', first, second, third, fourth] => unitOf first second third fourth == some (pointOf char)
  | _ => false

theorem escaped_of_reads {letters : List Char} {char : Char}
    (reads : readsEscape letters char = true) : Escaped ('\\' :: letters) [char] := by
  unfold readsEscape at reads
  split at reads
  · exact .short (beq_iff_eq.mp reads) .nil
  · exact .unit (beq_iff_eq.mp reads) .nil
  · contradiction

/-- No character is a surrogate. -/
theorem joinSurrogates_chars (content : List Char) :
    joinSurrogates (content.map pointOf) = content.map pointOf := by
  induction content with
  | nil => rfl
  | cons char content ih =>
      cases content with
      | nil => rfl
      | cons next content =>
          have scalar : ¬ ((0xd800 ≤ (pointOf char).val ∧ (pointOf char).val ≤ 0xdbff) ∧
              0xdc00 ≤ (pointOf next).val ∧ (pointOf next).val ≤ 0xdfff) := by
            intro both
            have valid := next.valid
            change next.val.toNat < 0xd800 ∨ 0xdfff < next.val.toNat ∧ _ at valid
            have high : 0xdc00 ≤ next.val.toNat := both.2.1
            have low : next.val.toNat ≤ 0xdfff := both.2.2
            omega
          rw [List.map_cons, List.map_cons, joinSurrogates, dif_neg scalar, ← List.map_cons, ih]

theorem scanUnits_escaped {escape content : List Char} (escaped : Escaped escape content)
    (rest : List Char) : scanUnits (escape ++ '"' :: rest) = some (content.map pointOf, rest) := by
  induction escaped with
  | nil =>
      rw [List.nil_append, scanUnits.eq_def]
      rfl
  | plain notQuote notEscape large _ ih =>
      rw [List.cons_append, scanUnits.eq_def]
      dsimp only
      rw [if_neg notQuote, if_neg notEscape, if_neg (by omega), ih]
      rfl
  | @short letter char escape content known _ ih =>
      have notUnit : letter ≠ 'u' := by
        rintro rfl
        rw [show shortEscape 'u' = none by decide] at known
        contradiction
      rw [List.cons_append, List.cons_append, scanUnits.eq_def]
      dsimp only
      rw [if_neg (by decide), if_pos rfl, if_neg notUnit, known]
      dsimp only
      rw [ih]
      rfl
  | unit known _ ih =>
      simp only [List.cons_append]
      rw [scanUnits.eq_def]
      dsimp only
      rw [if_neg (by decide), if_pos rfl, if_pos rfl, known]
      dsimp only
      rw [ih]
      rfl

theorem scanString_escaped {escape content : List Char} (escaped : Escaped escape content)
    (rest : List Char) : scanString (escape ++ '"' :: rest) = some (content.map pointOf, rest) := by
  rw [scanString, scanUnits_escaped escaped, Option.map_some]
  dsimp only
  rw [joinSurrogates_chars]

theorem skipSpace_append {space : List Char} (white : ∀ char ∈ space, isSpace char = true)
    {first : Char} (solid : isSpace first = false) (rest : List Char) :
    skipSpace (space ++ first :: rest) = first :: rest := by
  rw [skipSpace, List.dropWhile_append_of_pos white]
  simp [solid]

/-- These characters begin a string, an object and an array. -/
def starts : List Char := ['"', '\x7b', '[']

theorem isSpace_starts : ∀ first ∈ starts, isSpace first = false := by
  intro first member
  simp only [starts, List.mem_cons, List.not_mem_nil, or_false] at member
  rcases member with rfl | rfl | rfl <;> rfl

/-- The decoder reads this value from the text, whatever follows it. -/
structure Parses (text : List Char) (value : Value) : Prop where
  head : ∃ first ∈ starts, ∃ rest, text = first :: rest
  parse : ∀ fuel, text.length < fuel → ∀ rest, parseValue fuel (text ++ rest) = some (value, rest)

/-- The text of the members ends with the brace behind them. -/
structure ParsesMembers (text : List Char) (members : List (Text × Value)) : Prop where
  head : ∃ rest, text = '"' :: rest
  parse : ∀ fuel, text.length < fuel → ∀ rest,
    parseMembers fuel (text ++ rest) = some (members, rest)

/-- The text of the elements ends with the bracket behind them. -/
structure ParsesElements (text : List Char) (elements : List Value) : Prop where
  head : ∃ first ∈ starts, ∃ rest, text = first :: rest
  parse : ∀ fuel, text.length < fuel → ∀ rest,
    parseElements fuel (text ++ rest) = some (elements, rest)

section Rules

variable {escape content text more space behind : List Char} {value : Value}
  {members : List (Text × Value)} {elements : List Value}

theorem Parses.skipSpace (parses : Parses text value) (white : ∀ char ∈ space, isSpace char = true)
    (rest : List Char) : Json.skipSpace (space ++ (text ++ rest)) = text ++ rest := by
  obtain ⟨first, member, others, rfl⟩ := parses.head
  exact skipSpace_append white (isSpace_starts first member) _

theorem parses_string (escaped : Escaped escape content) :
    Parses ('"' :: escape ++ ['"']) (.string (content.map pointOf)) := by
  refine ⟨⟨'"', by decide, escape ++ ['"'], rfl⟩, ?_⟩
  intro fuel large rest
  obtain ⟨fuel, rfl⟩ := Nat.exists_eq_succ_of_ne_zero (Nat.ne_of_gt (Nat.zero_lt_of_lt large))
  rw [List.append_assoc, List.cons_append, List.singleton_append, parseValue, if_pos rfl,
    scanString_escaped escaped]
  rfl

theorem parses_object (white : ∀ char ∈ space, isSpace char = true)
    (parses : ParsesMembers text members) :
    Parses ('\x7b' :: (space ++ text)) (.object members) := by
  refine ⟨⟨'\x7b', by decide, space ++ text, rfl⟩, ?_⟩
  intro fuel large rest
  obtain ⟨others, rfl⟩ := parses.head
  obtain ⟨fuel, rfl⟩ := Nat.exists_eq_succ_of_ne_zero (Nat.ne_of_gt (Nat.zero_lt_of_lt large))
  have skipped : skipSpace (space ++ ('"' :: others ++ rest)) = '"' :: others ++ rest :=
    skipSpace_append white (by decide) _
  rw [List.cons_append, List.append_assoc, parseValue, if_neg (by decide), if_pos rfl, skipped]
  have parsed := parses.parse fuel (by simp at large ⊢; omega) rest
  rw [List.cons_append] at parsed ⊢
  split
  · rename_i same
    exact absurd (List.cons_eq_cons.mp same).1 (by decide)
  · rw [parsed]
    rfl

theorem parses_empty : Parses ['[', ']'] (.array []) := by
  refine ⟨⟨'[', by decide, [']'], rfl⟩, ?_⟩
  intro fuel large rest
  obtain ⟨fuel, rfl⟩ := Nat.exists_eq_succ_of_ne_zero (Nat.ne_of_gt (Nat.zero_lt_of_lt large))
  simp [parseValue, skipSpace, isSpace]

theorem parses_array (parses : ParsesElements text elements) :
    Parses ('[' :: text) (.array elements) := by
  refine ⟨⟨'[', by decide, text, rfl⟩, ?_⟩
  intro fuel large rest
  obtain ⟨first, member, others, rfl⟩ := parses.head
  obtain ⟨fuel, rfl⟩ := Nat.exists_eq_succ_of_ne_zero (Nat.ne_of_gt (Nat.zero_lt_of_lt large))
  have skipped : skipSpace (first :: others ++ rest) = first :: others ++ rest :=
    skipSpace_append (fun _ member => absurd member List.not_mem_nil)
      (isSpace_starts first member) _
  have open_bracket : first ≠ ']' := by
    rintro rfl
    exact absurd member (by decide)
  have parsed := parses.parse fuel (by simp at large ⊢; omega) rest
  rw [List.cons_append, parseValue, if_neg (by decide), if_neg (by decide), if_pos rfl, skipped]
  rw [List.cons_append] at parsed ⊢
  split
  · rename_i same
    exact absurd (List.cons_eq_cons.mp same).1 open_bracket
  · rw [parsed]
    rfl

/-- The decoder reads a key and its value, and it comes to what stands behind them. -/
theorem parseMembers_member (fuel : Nat) (escaped : Escaped escape content)
    (parses : Parses text value) (white : ∀ char ∈ space, isSpace char = true)
    (large : text.length < fuel) (rest : List Char) :
    parseMembers (fuel + 1) ('"' :: escape ++ '"' :: ':' :: (space ++ (text ++ rest))) =
      match skipSpace rest with
      | '\x7d' :: left => some ([(content.map pointOf, value)], left)
      | ',' :: more =>
          (parseMembers fuel (skipSpace more)).map fun (members, left) =>
            ((content.map pointOf, value) :: members, left)
      | _ => none := by
  have colon : skipSpace (':' :: (space ++ (text ++ rest))) = ':' :: (space ++ (text ++ rest)) := rfl
  rw [List.cons_append, parseMembers, scanString_escaped escaped]
  dsimp only
  rw [colon]
  split
  · rename_i behind same
    obtain ⟨_, rfl⟩ := List.cons_eq_cons.mp same
    rw [parses.skipSpace white, parses.parse fuel large]
  · rename_i other
    exact absurd rfl (other _)

theorem parsesMembers_last (escaped : Escaped escape content) (parses : Parses text value)
    (white : ∀ char ∈ space, isSpace char = true) (ends : ∀ char ∈ behind, isSpace char = true) :
    ParsesMembers ('"' :: escape ++ '"' :: ':' :: (space ++ (text ++ (behind ++ ['\x7d']))))
      [(content.map pointOf, value)] := by
  refine ⟨⟨_, rfl⟩, ?_⟩
  intro fuel large rest
  obtain ⟨fuel, rfl⟩ := Nat.exists_eq_succ_of_ne_zero (Nat.ne_of_gt (Nat.zero_lt_of_lt large))
  have closed : skipSpace (behind ++ '\x7d' :: rest) = '\x7d' :: rest :=
    skipSpace_append ends (by decide) rest
  have member := parseMembers_member fuel escaped parses white (by simp at large; omega)
    (behind ++ '\x7d' :: rest)
  rw [closed] at member
  simpa using member

theorem parsesMembers_more (escaped : Escaped escape content) (parses : Parses text value)
    (white : ∀ char ∈ space, isSpace char = true) (ends : ∀ char ∈ behind, isSpace char = true)
    {gap : List Char} (spaced : ∀ char ∈ gap, isSpace char = true)
    (others : ParsesMembers more members) :
    ParsesMembers ('"' :: escape ++ '"' :: ':' :: (space ++ (text ++ (behind ++ ',' ::
      (gap ++ more))))) ((content.map pointOf, value) :: members) := by
  refine ⟨⟨_, rfl⟩, ?_⟩
  intro fuel large rest
  obtain ⟨fuel, rfl⟩ := Nat.exists_eq_succ_of_ne_zero (Nat.ne_of_gt (Nat.zero_lt_of_lt large))
  have comma : skipSpace (behind ++ ',' :: (gap ++ (more ++ rest))) = ',' :: (gap ++ (more ++ rest)) :=
    skipSpace_append ends (by decide) _
  have next : skipSpace (gap ++ (more ++ rest)) = more ++ rest := by
    obtain ⟨later, rfl⟩ := others.head
    exact skipSpace_append spaced (by decide) _
  have member := parseMembers_member fuel escaped parses white (by simp at large; omega)
    (behind ++ ',' :: (gap ++ (more ++ rest)))
  rw [comma] at member
  change _ = (parseMembers fuel (skipSpace (gap ++ (more ++ rest)))).map _ at member
  rw [next, others.parse fuel (by simp at large; omega)] at member
  simpa using member

/-- The decoder reads an element, and it comes to what stands behind it. -/
theorem parseElements_element (fuel : Nat) (parses : Parses text value)
    (large : text.length < fuel) (rest : List Char) :
    parseElements (fuel + 1) (text ++ rest) =
      match skipSpace rest with
      | ']' :: left => some ([value], left)
      | ',' :: more =>
          (parseElements fuel (skipSpace more)).map fun (elements, left) =>
            (value :: elements, left)
      | _ => none := by
  rw [parseElements, parses.parse fuel large]

theorem parsesElements_last (parses : Parses text value)
    (ends : ∀ char ∈ behind, isSpace char = true) :
    ParsesElements (text ++ (behind ++ [']'])) [value] := by
  obtain ⟨first, member, others, same⟩ := parses.head
  refine ⟨⟨first, member, _, by rw [same, List.cons_append]⟩, ?_⟩
  intro fuel large rest
  obtain ⟨fuel, rfl⟩ := Nat.exists_eq_succ_of_ne_zero (Nat.ne_of_gt (Nat.zero_lt_of_lt large))
  have closed : skipSpace (behind ++ ']' :: rest) = ']' :: rest :=
    skipSpace_append ends (by decide) rest
  have element := parseElements_element fuel parses (by simp at large; omega)
    (behind ++ ']' :: rest)
  rw [closed] at element
  simpa using element

theorem parsesElements_more (parses : Parses text value)
    (ends : ∀ char ∈ behind, isSpace char = true) (spaced : ∀ char ∈ space, isSpace char = true)
    (others : ParsesElements more elements) :
    ParsesElements (text ++ (behind ++ ',' :: (space ++ more))) (value :: elements) := by
  obtain ⟨first, member, later, same⟩ := parses.head
  refine ⟨⟨first, member, _, by rw [same, List.cons_append]⟩, ?_⟩
  intro fuel large rest
  obtain ⟨fuel, rfl⟩ := Nat.exists_eq_succ_of_ne_zero (Nat.ne_of_gt (Nat.zero_lt_of_lt large))
  have comma : skipSpace (behind ++ ',' :: (space ++ (more ++ rest))) =
      ',' :: (space ++ (more ++ rest)) := skipSpace_append ends (by decide) _
  have next : skipSpace (space ++ (more ++ rest)) = more ++ rest := by
    obtain ⟨head, known, tail, rfl⟩ := others.head
    exact skipSpace_append spaced (isSpace_starts head known) _
  have element := parseElements_element fuel parses (by simp at large; omega)
    (behind ++ ',' :: (space ++ (more ++ rest)))
  rw [comma] at element
  change _ = (parseElements fuel (skipSpace (space ++ (more ++ rest)))).map _ at element
  rw [next, others.parse fuel (by simp at large; omega)] at element
  simpa using element

/-- A text that is one value decodes to it. -/
theorem loads_parses (parses : Parses text value) : loads text = some value := by
  obtain ⟨first, member, others, same⟩ := parses.head
  have noMark : text.head? ≠ some '\ufeff' := by
    rw [same, List.head?_cons, ne_eq, Option.some.injEq]
    rintro rfl
    exact absurd member (by decide)
  have solid : skipSpace ([] ++ (text ++ [])) = text ++ [] :=
    parses.skipSpace (fun _ member => absurd member List.not_mem_nil) []
  have parsed := parses.parse (text.length + 1) (Nat.lt_succ_self _) []
  rw [List.nil_append, List.append_nil] at solid
  rw [List.append_nil] at parsed
  rw [loads, if_neg noMark, solid, parsed]
  rfl

end Rules

end Json
