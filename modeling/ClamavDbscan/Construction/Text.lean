import Mathlib.Data.List.DropRight

/-
This file defines the strings of the Python programs.
-/

namespace ClamavDbscan

/-- A Python string holds code points, and lone surrogates are among them. -/
abbrev CodePoint := Fin 0x110000

abbrev Str := List CodePoint

def codePoint (char : Char) : CodePoint :=
  ⟨char.toNat, by
    rcases char.valid with low | high
    · exact Nat.lt_trans low (by decide)
    · exact high.2⟩

/-- This function writes a string literal. -/
def text (literal : String) : Str := literal.toList.map codePoint

def newline : CodePoint := codePoint '\n'

def colon : CodePoint := codePoint ':'

def space : CodePoint := codePoint ' '

/-- These code points satisfy `str.isspace`, which is also the class `\s`. -/
def isSpace (point : CodePoint) : Bool :=
  let code := point.val
  (0x9 ≤ code && code ≤ 0xd) || (0x1c ≤ code && code ≤ 0x20) || code == 0x85 || code == 0xa0 ||
    code == 0x1680 || (0x2000 ≤ code && code ≤ 0x200a) || code == 0x2028 || code == 0x2029 ||
    code == 0x202f || code == 0x205f || code == 0x3000

/-- The strict encoder rejects these code points. -/
def isSurrogate (point : CodePoint) : Bool :=
  0xd800 ≤ point.val && point.val ≤ 0xdfff

/-- `str.rstrip` removes the white space at the end. -/
def rstrip (string : Str) : Str := string.rdropWhile isSpace

/-- `str.startswith` tests a prefix. -/
def startsWith (string start : Str) : Bool := start.isPrefixOf string

/-- A number prints in decimal. -/
def decimal (number : Int) : Str := text (toString number)

/-- `"\n".join` puts a newline between two lines. -/
def joinLines (lines : List Str) : Str := List.intercalate [newline] lines

end ClamavDbscan
