/-!
# Splitting text

A text is cut at every separator; the pieces between two neighbouring separators
and at both ends may be empty, and a text without a separator is its own only
piece.
-/

namespace ClassEngine.Text

def splitChars (separator : Char) : List Char → List (List Char)
  | [] => [[]]
  | c :: rest =>
    if c = separator then [] :: splitChars separator rest
    else match splitChars separator rest with
      | [] => [[c]]
      | piece :: pieces => (c :: piece) :: pieces

def split (separator : Char) (text : String) : List String :=
  (splitChars separator text.toList).map String.ofList

theorem splitChars_ne_nil (separator : Char) (text : List Char) :
    splitChars separator text ≠ [] := by
  cases text with
  | nil => simp [splitChars]
  | cons c rest =>
    unfold splitChars
    split
    · simp
    · split <;> simp

def dropEnding? (ending text : String) : Option String :=
  let size := text.length - ending.length
  if text.toList.drop size = ending.toList then some (String.ofList (text.toList.take size))
  else none

end ClassEngine.Text
