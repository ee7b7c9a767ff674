import ClassEngine.Text.Digits
import ClassEngine.Text.Printable

/-!
# Quoted text

A quoted text stands between two quote marks.  The mark itself and the backslash
are escaped, printable characters stand for themselves, and every other
character is written by its short name or by its number.
-/

namespace ClassEngine.Text

private def shortEscape? (c : Char) : Option Char :=
  match c.toNat with
  | 7 => some 'a'
  | 8 => some 'b'
  | 9 => some 't'
  | 10 => some 'n'
  | 11 => some 'v'
  | 12 => some 'f'
  | 13 => some 'r'
  | _ => none

def escapeChar (mark c : Char) : String :=
  if c = mark || c = '\\' then String.ofList ['\\', c]
  else if isPrintable c then String.singleton c
  else match shortEscape? c with
    | some letter => String.ofList ['\\', letter]
    | none =>
      if c.toNat < 0x80 then "\\x" ++ hexLower 2 c.toNat
      else if c.toNat < 0x10000 then "\\u" ++ hexLower 4 c.toNat
      else "\\U" ++ hexLower 8 c.toNat

def quote (text : String) : String :=
  "\"" ++ text.foldl (fun acc c => acc ++ escapeChar '"' c) "" ++ "\""

def quoteByte (b : UInt8) : String :=
  let mark := Char.ofNat 39
  String.singleton mark ++ escapeChar mark (Char.ofNat b.toNat) ++ String.singleton mark

end ClassEngine.Text
