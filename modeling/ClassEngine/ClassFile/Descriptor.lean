import ClassEngine.Text.Quoted

/-!
# Field and method descriptors

A field descriptor names a type: one letter for a base type, `Lname;` for a
class, and a leading bracket for each array dimension.  A method descriptor
lists parameter types between parentheses and ends in the result type or `V`.
-/

namespace ClassEngine.ClassFile

inductive BaseType where
  | byte | char | double | float | int | long | short | boolean
  deriving DecidableEq, Repr

namespace BaseType

def letter : BaseType → Char
  | .byte => 'B'
  | .char => 'C'
  | .double => 'D'
  | .float => 'F'
  | .int => 'I'
  | .long => 'J'
  | .short => 'S'
  | .boolean => 'Z'

def ofLetter? : Char → Option BaseType
  | 'B' => some .byte
  | 'C' => some .char
  | 'D' => some .double
  | 'F' => some .float
  | 'I' => some .int
  | 'J' => some .long
  | 'S' => some .short
  | 'Z' => some .boolean
  | _ => none

end BaseType

inductive FieldType where
  | base (t : BaseType) (text : String)
  | object (className : String) (text : String)
  | array (element : FieldType) (text : String)
  deriving DecidableEq, Repr

namespace FieldType

def kind : FieldType → Char
  | .base t _ => t.letter
  | .object _ _ => 'L'
  | .array _ _ => '['

def text : FieldType → String
  | .base _ text | .object _ text | .array _ text => text

def render : FieldType → String
  | .base t _ => String.singleton t.letter
  | .object name _ => "L" ++ name ++ ";"
  | .array element _ => "[" ++ element.render

def isReference : FieldType → Bool
  | .base _ _ => false
  | .object _ _ | .array _ _ => true

def slots : FieldType → Nat
  | .base .long _ | .base .double _ => 2
  | _ => 1

def className : FieldType → String
  | .object name _ => name
  | _ => ""

def element? : FieldType → Option FieldType
  | .array element _ => some element
  | _ => none

def dimensions : FieldType → Nat
  | .array element _ => element.dimensions + 1
  | _ => 0

def innermost : FieldType → FieldType
  | .array element _ => element.innermost
  | t => t

end FieldType

inductive DescriptorError where
  | trailing (text : String)
  | unexpectedEnd (text : String)
  | unterminatedName (text : String)
  | tooManyDimensions (text : String)
  | unexpected (lead : UInt8) (text : String)
  | notAMethod (text : String)
  | unclosed (text : String)
  deriving DecidableEq, Repr

def DescriptorError.message : DescriptorError → String
  | .trailing text => s!"trailing characters in {Text.quote text}"
  | .unexpectedEnd text => s!"unexpected end of {Text.quote text}"
  | .unterminatedName text => s!"unterminated class name in {Text.quote text}"
  | .tooManyDimensions text => s!"too many array dimensions in {Text.quote text}"
  | .unexpected lead text => s!"unexpected {Text.quoteByte lead} in {Text.quote text}"
  | .notAMethod text => s!"{Text.quote text} is not a method descriptor"
  | .unclosed text => s!"missing ')' in {Text.quote text}"

def maxDimensions : Nat := 255

def leadByte (c : Char) : UInt8 :=
  (String.singleton c).toUTF8.toList.headD 0

/-- The text of characters up to those that are left of them. -/
def textBefore (cs after : List Char) : String :=
  String.ofList (cs.take (cs.length - after.length))

/-- The type at the start of the characters, and what follows it. -/
def FieldType.read (text : String) : List Char → Except DescriptorError (FieldType × List Char)
  | [] => .error (.unexpectedEnd text)
  | c :: rest =>
    match BaseType.ofLetter? c with
    | some t => .ok (.base t (String.singleton c), rest)
    | none =>
      if c = 'L' then
        match rest.takeWhile (· ≠ ';'), rest.dropWhile (· ≠ ';') with
        | first :: name, _ :: after =>
          .ok (.object (String.ofList (first :: name)) (textBefore (c :: rest) after), after)
        | _, _ => .error (.unterminatedName text)
      else if c = '[' then
        if maxDimensions < ((c :: rest).takeWhile (· = '[')).length then
          .error (.tooManyDimensions text)
        else do
          let (element, after) ← FieldType.read text rest
          return (.array element (textBefore (c :: rest) after), after)
      else .error (.unexpected (leadByte c) text)

def FieldType.parse (text : String) : Except DescriptorError FieldType := do
  match ← FieldType.read text text.toList with
  | (t, []) => return t
  | (_, _ :: _) => throw (.trailing text)

theorem FieldType.read_shorter {text : String} {cs rest : List Char} {t : FieldType}
    (h : FieldType.read text cs = .ok (t, rest)) : rest.length < cs.length := by
  induction cs generalizing t rest with
  | nil => simp [FieldType.read] at h
  | cons c cs ih =>
    unfold FieldType.read at h
    split at h
    · simp only [Except.ok.injEq, Prod.mk.injEq] at h
      simp [← h.2]
    · split at h
      · split at h
        · rename_i after _ hdrop
          simp only [Except.ok.injEq, Prod.mk.injEq] at h
          have hle := (List.dropWhile_suffix (l := cs) (· ≠ ';')).length_le
          rw [hdrop] at hle
          simp only [List.length_cons] at hle ⊢
          rw [← h.2]
          omega
        · simp at h
      · split at h
        · split at h
          · simp at h
          · cases hread : FieldType.read text cs with
            | error e => simp [hread, bind, Except.bind] at h
            | ok p =>
              obtain ⟨element, after⟩ := p
              simp only [hread, bind, Except.bind, pure, Except.pure, Except.ok.injEq,
                Prod.mk.injEq] at h
              have := ih hread
              simp only [List.length_cons]
              rw [← h.2]
              omega
        · simp at h

structure MethodDescriptor where
  params : List FieldType
  result? : Option FieldType
  /-- What the descriptor was read from. -/
  text : String
  deriving DecidableEq, Repr

namespace MethodDescriptor

def render (d : MethodDescriptor) : String :=
  "(" ++ String.join (d.params.map (·.render)) ++ ")" ++
    match d.result? with
    | some t => t.render
    | none => "V"

def argSlots (d : MethodDescriptor) : Nat :=
  d.params.foldr (fun type slots => type.slots + slots) 0

/-- The parameter types up to the closing parenthesis, and what follows it. -/
def readParams (text : String) (cs : List Char) :
    Except DescriptorError (List FieldType × List Char) :=
  match cs with
  | [] => .error (.unclosed text)
  | ')' :: rest => .ok ([], rest)
  | c :: rest =>
    match _hread : FieldType.read text (c :: rest) with
    | .error e => .error e
    | .ok (t, after) => do
      let (ts, rest) ← readParams text after
      return (t :: ts, rest)
termination_by cs.length
decreasing_by exact FieldType.read_shorter _hread

def parse (text : String) : Except DescriptorError MethodDescriptor :=
  match text.toList with
  | '(' :: body =>
    if text.utf8ByteSize < 3 then .error (.notAMethod text)
    else do
      match ← readParams text body with
      | (params, ['V']) => return ⟨params, none, text⟩
      | (_, 'V' :: _) => throw (.trailing text)
      | (params, rest) =>
        match ← FieldType.read text rest with
        | (t, []) => return ⟨params, some t, text⟩
        | (_, _ :: _) => throw (.trailing text)
  | _ => .error (.notAMethod text)

end MethodDescriptor

end ClassEngine.ClassFile
