import ClassEngine.Text.Split

/-!
# Paths

A path in lexical normal form is a list of names, rooted or relative.  Reading a
text drops empty names and `.`, and lets `..` cancel the name before it: leading
`..` stay in a relative path and vanish in a rooted one.
-/

namespace ClassEngine.Files

structure Pathname where
  rooted : Bool
  names : List String
  deriving DecidableEq, Repr

namespace Pathname

def keep (rooted : Bool) (kept : List String) (name : String) : List String :=
  if name = "" ∨ name = "." then kept
  else if name = ".." then
    match kept with
    | [] => if rooted then [] else [".."]
    | latest :: earlier => if latest = ".." then ".." :: kept else earlier
  else name :: kept

def isRooted (text : String) : Bool :=
  text.toList.head? = some '/'

def ofString (text : String) : Pathname :=
  let rooted := isRooted text
  ⟨rooted, ((Text.split '/' text).foldl (keep rooted) []).reverse⟩

def toString (p : Pathname) : String :=
  if p.rooted then "/" ++ "/".intercalate p.names
  else if p.names.isEmpty then "."
  else "/".intercalate p.names

end Pathname

def clean (text : String) : String :=
  (Pathname.ofString text).toString

/-- Leading empty texts are dropped before the rest is joined. -/
def join (texts : List String) : String :=
  match texts.dropWhile (· = "") with
  | [] => ""
  | given => clean ("/".intercalate given)

def extension (text : String) : String :=
  let lastName := text.toList.reverse.takeWhile (· ≠ '/')
  match lastName.span (· ≠ '.') with
  | (_, []) => ""
  | (after, dot :: _) => String.ofList (dot :: after.reverse)

def absolute (current text : String) : Pathname :=
  Pathname.ofString (if Pathname.isRooted text then text else join [current, text])

end ClassEngine.Files
