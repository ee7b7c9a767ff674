import ClassEngine.ClassFile.Descriptor
import ClassEngine.Decimal.Written

/-!
# Values

A value is one entry of an operand stack, a local variable, a field or an array
element.  Booleans, bytes, chars and shorts are carried as ints.  A long or
double is one stack entry but takes two local variables, the second of which
holds `top`.  Each value has 64 bits, and code that mistakes its kind reads the
low bits as what it expects.
-/

namespace ClassEngine.Machine

/-- The address of an object; zero is the null reference. -/
structure Ref where
  address : UInt32
  deriving DecidableEq, Repr

def Ref.null : Ref := ⟨0⟩

inductive Kind where
  | top | int | long | float | double | ref | returnAddress
  deriving DecidableEq, Repr

namespace Kind

def name : Kind → String
  | .top => "top"
  | .int => "int"
  | .long => "long"
  | .float => "float"
  | .double => "double"
  | .ref => "ref"
  | .returnAddress => "returnAddress"

def all : List Kind := [.top, .int, .long, .float, .double, .ref, .returnAddress]

def nameOf (n : Nat) : String :=
  match all[n]? with
  | some k => k.name
  | none => s!"Kind({n})"

end Kind

inductive Value where
  | top
  | int (v : Int32)
  | long (v : Int64)
  | float (bits : UInt32)
  | double (bits : UInt64)
  | ref (r : Ref)
  | returnAddress (pc : UInt64)
  deriving DecidableEq, Repr

namespace Value

def null : Value := .ref .null

def ofBool (b : Bool) : Value := .int (if b then 1 else 0)

def kind : Value → Kind
  | .top => .top
  | .int _ => .int
  | .long _ => .long
  | .float _ => .float
  | .double _ => .double
  | .ref _ => .ref
  | .returnAddress _ => .returnAddress

def bits : Value → UInt64
  | .top => 0
  | .int v => v.toUInt32.toUInt64
  | .long v => v.toUInt64
  | .float b => b.toUInt64
  | .double b => b
  | .ref r => r.address.toUInt64
  | .returnAddress pc => pc

def asInt (v : Value) : Int32 := v.bits.toUInt32.toInt32

def asLong (v : Value) : Int64 := v.bits.toInt64

def asFloat (v : Value) : UInt32 := v.bits.toUInt32

def asDouble (v : Value) : UInt64 := v.bits

def asRef (v : Value) : Ref := ⟨v.bits.toUInt32⟩

def isNull (v : Value) : Bool := v = .null

def isWide : Value → Bool
  | .long _ | .double _ => true
  | _ => false

def render : Value → String
  | .top => "top"
  | .int v => toString v.toInt
  | .long v => toString v.toInt ++ "L"
  | .float b => Decimal.renderSingle b ++ "f"
  | .double b => Decimal.renderDouble b ++ "d"
  | .ref r => if r = .null then "null" else s!"@{r.address.toNat}"
  | .returnAddress pc => s!"ret:{pc.toNat}"

/-- The initial value of a variable whose descriptor starts with this character. -/
def zero (kind : Char) : Value :=
  match kind with
  | 'J' => .long 0
  | 'F' => .float 0
  | 'D' => .double 0
  | 'L' | '[' => .null
  | _ => .int 0

end Value

/-- The kind of the values that a type is carried by. -/
def kindOf : ClassFile.FieldType → Kind
  | .base .long _ => .long
  | .base .float _ => .float
  | .base .double _ => .double
  | .base _ _ => .int
  | .object _ _ | .array _ _ => .ref

end ClassEngine.Machine
