import ClamavDbscan.Library.Bytes

/-
This file splits byte strings into UTF-8 characters and the stray bytes between them.
-/

namespace Utf8

/-- The bytes begin with the encoding of this character. -/
def decodeFirst (bytes : Bytes) : Option Char := bytes.toByteArray.utf8DecodeChar? 0

def encode (chars : List Char) : Bytes := chars.flatMap String.utf8EncodeChar

/-- A stray byte begins no encoding of a character. -/
inductive Piece where
  | char (char : Char)
  | stray (byte : UInt8)
  deriving DecidableEq

/-- A character takes its encoding, and a stray byte takes itself; the first bytes are skipped. -/
def pieces : (skip : Nat) → Bytes → List Piece
  | _, [] => []
  | skip + 1, _ :: rest => pieces skip rest
  | 0, byte :: rest =>
      match decodeFirst (byte :: rest) with
      | some char => .char char :: pieces (char.utf8Size - 1) rest
      | none => .stray byte :: pieces 0 rest

def split (bytes : Bytes) : List Piece := pieces 0 bytes

namespace Piece

def isChar : Piece → Bool
  | char _ => true
  | stray _ => false

/-- The replacement character stands for a stray byte. -/
def repaired : Piece → Char
  | char letter => letter
  | stray _ => '\ufffd'

end Piece

/-- Valid bytes have no stray byte. -/
def Valid (bytes : Bytes) : Prop := ∀ piece ∈ split bytes, piece.isChar = true

instance (bytes : Bytes) : Decidable (Valid bytes) := List.decidableBAll _ _

def repair (bytes : Bytes) : List Char := (split bytes).map Piece.repaired

/-- A strict decoder rejects stray bytes. -/
def decode (bytes : Bytes) : Option (List Char) :=
  if Valid bytes then some (repair bytes) else none

@[simp] theorem encode_cons (char : Char) (chars : List Char) :
    encode (char :: chars) = String.utf8EncodeChar char ++ encode chars := rfl

@[simp] theorem encode_append (front back : List Char) :
    encode (front ++ back) = encode front ++ encode back := List.flatMap_append

theorem decodeFirst_encode (char : Char) (rest : Bytes) :
    decodeFirst (String.utf8EncodeChar char ++ rest) = some char := by
  rw [decodeFirst, List.toByteArray_append]
  exact ByteArray.utf8DecodeChar?_utf8EncodeChar_append

theorem exists_of_decodeFirst {bytes : Bytes} {char : Char}
    (found : decodeFirst bytes = some char) :
    ∃ rest, bytes = String.utf8EncodeChar char ++ rest := by
  obtain ⟨after, same⟩ := ByteArray.exists_of_utf8DecodeChar?_eq_some found
  have list : after = after.data.toList.toByteArray := by
    apply ByteArray.ext
    simp
  rw [list, ← List.toByteArray_append, List.toByteArray_inj] at same
  exact ⟨_, same⟩

theorem pieces_eq_drop (skip : Nat) (bytes : Bytes) : pieces skip bytes = split (bytes.drop skip) := by
  induction skip generalizing bytes with
  | zero => rfl
  | succ skip ih =>
      cases bytes with
      | nil => rfl
      | cons byte rest => exact ih rest

@[simp] theorem split_nil : split [] = [] := rfl

@[simp] theorem split_encode (char : Char) (rest : Bytes) :
    split (String.utf8EncodeChar char ++ rest) = .char char :: split rest := by
  obtain ⟨byte, others, same⟩ : ∃ byte others, String.utf8EncodeChar char = byte :: others :=
    List.exists_cons_of_ne_nil String.utf8EncodeChar_ne_nil
  have length : others.length = char.utf8Size - 1 := by
    rw [← String.length_utf8EncodeChar, same]
    rfl
  have found := decodeFirst_encode char rest
  rw [same, List.cons_append] at found ⊢
  rw [split, pieces, found]
  dsimp only
  rw [pieces_eq_drop, ← length, List.drop_left]

theorem split_stray {byte : UInt8} {rest : Bytes} (stray : decodeFirst (byte :: rest) = none) :
    split (byte :: rest) = .stray byte :: split rest := by
  rw [split, pieces, stray]
  rfl

/-- A byte string is empty, or a character or a stray byte stands before a shorter one. -/
@[elab_as_elim]
theorem induction {motive : Bytes → Prop} (nil : motive [])
    (char : ∀ char rest, motive rest → motive (String.utf8EncodeChar char ++ rest))
    (stray : ∀ byte rest, decodeFirst (byte :: rest) = none → motive rest → motive (byte :: rest))
    (bytes : Bytes) : motive bytes := by
  induction size : bytes.length using Nat.strong_induction_on generalizing bytes with
  | _ size ih =>
      cases bytes with
      | nil => exact nil
      | cons byte rest =>
          cases found : decodeFirst (byte :: rest) with
          | none =>
              apply stray byte rest found
              exact ih rest.length (by rw [← size]; exact Nat.lt_succ_self _) rest rfl
          | some first =>
              obtain ⟨after, same⟩ := exists_of_decodeFirst found
              rw [same]
              apply char first after
              refine ih after.length ?_ after rfl
              have positive := first.utf8Size_pos
              rw [← size, same, List.length_append, String.length_utf8EncodeChar]
              omega

@[simp] theorem split_encode_append (chars : List Char) (rest : Bytes) :
    split (encode chars ++ rest) = chars.map .char ++ split rest := by
  induction chars with
  | nil => rfl
  | cons char chars ih =>
      rw [encode_cons, List.append_assoc, split_encode, ih]
      rfl

theorem split_chars (chars : List Char) : split (encode chars) = chars.map .char := by
  simpa using split_encode_append chars []

/-- Valid bytes are the encoding of some characters. -/
theorem valid_iff (bytes : Bytes) : Valid bytes ↔ ∃ chars, bytes = encode chars := by
  constructor
  · induction bytes using Utf8.induction with
    | nil => exact fun _ => ⟨[], rfl⟩
    | char char rest ih =>
        intro valid
        obtain ⟨chars, rfl⟩ := ih fun piece member =>
          valid piece (by rw [split_encode]; exact List.mem_cons_of_mem _ member)
        exact ⟨char :: chars, rfl⟩
    | stray byte rest stray _ =>
        intro valid
        have wrong := valid (.stray byte) (by rw [split_stray stray]; exact List.mem_cons_self)
        contradiction
  · rintro ⟨chars, rfl⟩ piece member
    rw [split_chars] at member
    obtain ⟨char, _, rfl⟩ := List.mem_map.mp member
    rfl

theorem repair_encode (chars : List Char) : repair (encode chars) = chars := by
  rw [repair, split_chars, List.map_map]
  exact List.map_id chars

theorem decode_encode (chars : List Char) : decode (encode chars) = some chars := by
  rw [decode, if_pos ((valid_iff _).mpr ⟨chars, rfl⟩), repair_encode]

/-- Only valid bytes are the encoding of their repaired characters. -/
theorem encode_repair_iff (bytes : Bytes) : encode (repair bytes) = bytes ↔ Valid bytes := by
  constructor
  · intro same
    exact (valid_iff bytes).mpr ⟨repair bytes, same.symm⟩
  · intro valid
    obtain ⟨chars, rfl⟩ := (valid_iff bytes).mp valid
    rw [repair_encode]

section Ascii

theorem encode_ascii {char : Char} (small : char.val.toNat < 128) :
    String.utf8EncodeChar char = [UInt8.ofNat char.val.toNat] := by
  rw [String.utf8EncodeChar]
  exact if_pos (by omega)

/-- Every byte of a longer encoding has its high bit set. -/
theorem encode_high {char : Char} (large : 128 ≤ char.val.toNat) {byte : UInt8}
    (member : byte ∈ String.utf8EncodeChar char) : 128 ≤ byte.toNat := by
  unfold String.utf8EncodeChar at member
  extract_lets code at member
  have size : code = char.val.toNat := rfl
  split at member
  · omega
  · split at member
    · simp only [List.mem_cons, List.not_mem_nil, or_false] at member
      obtain rfl | rfl := member <;> rw [UInt8.toNat_ofNat'] <;> omega
    · split at member
      · simp only [List.mem_cons, List.not_mem_nil, or_false] at member
        obtain rfl | rfl | rfl := member <;> rw [UInt8.toNat_ofNat'] <;> omega
      · simp only [List.mem_cons, List.not_mem_nil, or_false] at member
        obtain rfl | rfl | rfl | rfl := member <;> rw [UInt8.toNat_ofNat'] <;> omega

/-- A stray byte has its high bit set. -/
theorem high_of_stray {byte : UInt8} {rest : Bytes} (stray : decodeFirst (byte :: rest) = none) :
    128 ≤ byte.toNat := by
  by_contra small
  have value : (Char.ofUInt8 byte).val.toNat = byte.toNat := byte.toNat_toUInt32
  have encoded : String.utf8EncodeChar (Char.ofUInt8 byte) = [byte] := by
    rw [encode_ascii (by omega), value, UInt8.ofNat_toNat]
  have found := decodeFirst_encode (Char.ofUInt8 byte) rest
  rw [encoded, List.singleton_append, stray] at found
  contradiction

/-- A byte with a clear high bit separates what stands before it from what stands behind it. -/
theorem split_separator {byte : UInt8} (small : byte.toNat < 128) (front back : Bytes) :
    split (front ++ byte :: back) = split front ++ split (byte :: back) := by
  induction front using Utf8.induction with
  | nil => rfl
  | char char rest ih =>
      rw [List.append_assoc, split_encode, split_encode, ih]
      rfl
  | stray other rest stray ih =>
      have still : decodeFirst (other :: rest ++ byte :: back) = none := by
        by_contra some_char
        obtain ⟨char, found⟩ := Option.ne_none_iff_exists'.mp some_char
        obtain ⟨after, same⟩ := exists_of_decodeFirst found
        have large : 128 ≤ char.val.toNat := by
          by_contra ascii
          rw [encode_ascii (Nat.lt_of_not_le ascii), List.singleton_append, List.cons_append] at same
          have high := high_of_stray stray
          rw [(List.cons_eq_cons.mp same).1, UInt8.toNat_ofNat'] at high
          omega
        rcases List.append_eq_append_iff.mp same with ⟨more, inside, _⟩ | ⟨more, inside, _⟩
        · cases more with
          | nil =>
              rw [List.append_nil] at inside
              rw [← inside] at stray
              have decoded := decodeFirst_encode char []
              rw [List.append_nil, stray] at decoded
              contradiction
          | cons entry more =>
              rename_i rest_eq
              obtain ⟨rfl, _⟩ := List.cons_eq_cons.mp rest_eq
              have part : byte ∈ String.utf8EncodeChar char := by simp [inside]
              have high := encode_high large part
              omega
        · have decoded := decodeFirst_encode char more
          rw [← inside, stray] at decoded
          contradiction
      rw [List.cons_append] at still
      rw [List.cons_append, split_stray still, split_stray stray, ih]
      rfl

/-- The bytes in front of a character boundary are valid by themselves. -/
@[simp] theorem valid_encode_append (chars : List Char) (rest : Bytes) :
    Valid (encode chars ++ rest) ↔ Valid rest := by
  have letters : ∀ piece ∈ chars.map Piece.char, piece.isChar = true := by simp [Piece.isChar]
  simp only [Valid, split_encode_append, List.mem_append]
  constructor
  · intro valid piece member
    exact valid piece (.inr member)
  · rintro valid piece (member | member)
    · exact letters piece member
    · exact valid piece member

theorem valid_separator {byte : UInt8} (small : byte.toNat < 128) (front back : Bytes) :
    Valid (front ++ byte :: back) ↔ Valid front ∧ Valid (byte :: back) := by
  simp only [Valid, split_separator small, List.mem_append]
  constructor
  · intro valid
    exact ⟨fun piece member => valid piece (.inl member), fun piece member => valid piece (.inr member)⟩
  · rintro ⟨left, right⟩ piece (member | member)
    · exact left piece member
    · exact right piece member

/-- An escape keeps the bytes with a high bit and writes text from an ASCII character on for the
others. -/
structure EscapesAscii (escape : UInt8 → Bytes) : Prop where
  high : ∀ byte : UInt8, 128 ≤ byte.toNat → escape byte = [byte]
  low : ∀ byte : UInt8, byte.toNat < 128 →
    ∃ char chars, escape byte = encode (char :: chars) ∧ char.val.toNat < 128

namespace EscapesAscii

variable {escape : UInt8 → Bytes}

theorem flatMap_high (escapes : EscapesAscii escape) {bytes : Bytes}
    (large : ∀ byte ∈ bytes, 128 ≤ byte.toNat) : bytes.flatMap escape = bytes := by
  induction bytes with
  | nil => rfl
  | cons byte bytes ih =>
      rw [List.flatMap_cons, escapes.high byte (large byte List.mem_cons_self),
        ih fun other member => large other (List.mem_cons_of_mem _ member)]
      rfl

/-- High bytes at the start of an escaped text stand at the start of the text. -/
theorem prefix_high (escapes : EscapesAscii escape) {start bytes : Bytes}
    (large : ∀ byte ∈ start, 128 ≤ byte.toNat) (begins : start <+: bytes.flatMap escape) :
    start <+: bytes := by
  induction start generalizing bytes with
  | nil => exact List.nil_prefix
  | cons first start ih =>
      cases bytes with
      | nil => exact absurd (List.prefix_nil.mp begins) (List.cons_ne_nil _ _)
      | cons byte bytes =>
          have high := large first List.mem_cons_self
          rw [List.flatMap_cons] at begins
          by_cases small : byte.toNat < 128
          · obtain ⟨char, chars, written, ascii⟩ := escapes.low byte small
            rw [written, encode_cons, encode_ascii ascii] at begins
            have same : first = UInt8.ofNat char.val.toNat := (List.cons_prefix_cons.mp begins).1
            rw [same, UInt8.toNat_ofNat'] at high
            omega
          · rw [escapes.high byte (Nat.le_of_not_lt small)] at begins
            obtain ⟨rfl, others⟩ := List.cons_prefix_cons.mp begins
            rw [List.cons_prefix_cons]
            exact ⟨rfl, ih (fun entry member => large entry (List.mem_cons_of_mem _ member)) others⟩

/-- Only a valid text has a valid escape. -/
theorem valid (escapes : EscapesAscii escape) {bytes : Bytes}
    (written : Valid (bytes.flatMap escape)) : Valid bytes := by
  induction bytes using Utf8.induction with
  | nil => exact written
  | char char rest ih =>
      rw [List.flatMap_append] at written
      have single : encode [char] = String.utf8EncodeChar char := List.flatMap_singleton _ _
      rw [← single, valid_encode_append]
      apply ih
      by_cases small : char.val.toNat < 128
      · have value : (UInt8.ofNat char.val.toNat).toNat < 128 := by
          rw [UInt8.toNat_ofNat']
          omega
        obtain ⟨first, others, same, _⟩ := escapes.low _ value
        rw [encode_ascii small, List.flatMap_singleton, same, valid_encode_append] at written
        exact written
      · rw [escapes.flatMap_high fun byte => encode_high (Nat.le_of_not_lt small), ← single,
          valid_encode_append] at written
        exact written
  | stray byte rest stray _ =>
      have high := high_of_stray stray
      rw [List.flatMap_cons, escapes.high byte high, List.singleton_append] at written
      have still : decodeFirst (byte :: rest.flatMap escape) = none := by
        by_contra some_char
        obtain ⟨char, found⟩ := Option.ne_none_iff_exists'.mp some_char
        obtain ⟨after, same⟩ := exists_of_decodeFirst found
        obtain ⟨first, others, encoded⟩ : ∃ first others, String.utf8EncodeChar char = first :: others :=
          List.exists_cons_of_ne_nil String.utf8EncodeChar_ne_nil
        rw [encoded, List.cons_append] at same
        obtain ⟨rfl, tail⟩ := List.cons_eq_cons.mp same
        have large : 128 ≤ char.val.toNat := by
          by_contra small
          rw [encode_ascii (Nat.lt_of_not_le small)] at encoded
          rw [← (List.cons_eq_cons.mp encoded).1, UInt8.toNat_ofNat'] at high
          omega
        have begins : others <+: rest := by
          apply escapes.prefix_high _ ⟨after, tail.symm⟩
          intro entry member
          exact encode_high large (by rw [encoded]; exact List.mem_cons_of_mem _ member)
        obtain ⟨behind, rfl⟩ := begins
        have decoded := decodeFirst_encode char behind
        rw [encoded, List.cons_append, stray] at decoded
        contradiction
      have wrong := written (.stray byte) (by rw [split_stray still]; exact List.mem_cons_self)
      contradiction

end EscapesAscii

end Ascii

end Utf8
