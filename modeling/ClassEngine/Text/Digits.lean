/-!
# Fixed-width numbers in text

Hexadecimal numbers are padded with zeros and decimal columns with blanks; a
number wider than its field is written in full.
-/

namespace ClassEngine.Text

def padLeft (width : Nat) (fill : Char) (text : String) : String :=
  String.ofList (List.replicate (width - text.length) fill) ++ text

def hexLower (width n : Nat) : String :=
  padLeft width '0' (String.ofList (Nat.toDigits 16 n))

def hexUpper (width n : Nat) : String :=
  (hexLower width n).map Char.toUpper

def decimalColumn (width n : Nat) : String :=
  padLeft width ' ' (toString n)

end ClassEngine.Text
