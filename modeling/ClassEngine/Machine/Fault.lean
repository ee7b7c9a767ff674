import ClassEngine.ClassFile.Error
import ClassEngine.Machine.Value

/-!
# Faults

A fault is why an operation of the machine failed.  It belongs to one or more
categories; a fault met by running code is raised as an exception of the guest
class of its first category that has one, and ends the run when it has none.
A defect is a condition that no well-formed code meets.
-/

namespace ClassEngine.Machine

open ClassFile

inductive Defect where
  | stackOverflow (method : String) (pc : Nat)
  | stackUnderflow (method : String) (pc : Nat)
  | localRange (slot : Nat) (method : String)
  | truncated (method : String) (pc : Nat)
  | branchOutside (target : Int) (method : String)
  | emptyTable (method : String) (pc : Nat) (high low : Int32)
  | negativePairs (method : String) (pc : Nat) (count : Int32)
  | wideSwap (method : String) (pc : Nat)
  | splitsWide (method : String) (pc : Nat)
  | wideOpcode (mnemonic method : String) (pc : Nat)
  | notAReturnAddress (kind : Kind) (method : String) (pc : Nat)
  | arrayType (code : Nat) (method : String) (pc : Nat)
  | notAnArray (className : String)
  | argumentCount (method : String) (wanted given : Nat)
  | missingArguments (method : String) (wanted available : Nat)
  | receiverKind (method : String) (kind : Kind)
  | argumentKind (method : String) (index : Nat) (kind wanted : Kind)
  | argumentSlots (method : String) (locals wanted : Nat)
  deriving DecidableEq, Repr

def Defect.message : Defect → String
  | .stackOverflow method pc => s!"operand stack overflow in {method} at pc {pc}"
  | .stackUnderflow method pc => s!"operand stack underflow in {method} at pc {pc}"
  | .localRange slot method => s!"local {slot} out of range in {method}"
  | .truncated method pc => s!"truncated instruction in {method} at pc {pc}"
  | .branchOutside target method => s!"branch to {target} outside {method}"
  | .emptyTable method pc high low =>
    s!"tableswitch in {method} at pc {pc}: high {high.toInt} < low {low.toInt}"
  | .negativePairs method pc count =>
    s!"lookupswitch in {method} at pc {pc}: {count.toInt} pairs"
  | .wideSwap method pc => s!"swap of a wide value in {method} at pc {pc}"
  | .splitsWide method pc => s!"stack shuffle splits a wide value in {method} at pc {pc}"
  | .wideOpcode mnemonic method pc => s!"wide {mnemonic} in {method} at pc {pc}"
  | .notAReturnAddress kind method pc =>
    s!"ret through {kind.name} local in {method} at pc {pc}"
  | .arrayType code method pc => s!"newarray type {code} in {method} at pc {pc}"
  | .notAnArray className => s!"{className} is not an array"
  | .argumentCount method wanted given => s!"{method} takes {wanted} arguments, got {given}"
  | .missingArguments method wanted available =>
    s!"{method} needs {wanted} arguments, stack has {available}"
  | .receiverKind method kind => s!"{method} receiver is {kind.name}"
  | .argumentKind method index kind wanted =>
    s!"{method} argument {index} is {kind.name}, want {wanted.name}"
  | .argumentSlots method locals wanted =>
    s!"{method} has {locals} locals for {wanted} argument slots"

inductive Category where
  | internal
  | unsupportedOpcode
  | initialization
  | initializerThrew
  | previouslyFailed
  | uncaught
  | classNotFound
  | noSuchField
  | noSuchMethod
  | abstractMethod
  | instantiation
  | unsatisfiedLink
  | linkage
  | nullPointer
  | indexOutOfBounds
  | negativeArraySize
  | arithmetic
  | classCast
  | arrayStore
  | stackOverflow
  deriving DecidableEq, Repr

def Category.heading : Category → String
  | .internal => "internal error"
  | .unsupportedOpcode => "unsupported opcode"
  | .initialization => "class initialization failed"
  | .initializerThrew => "class initialization failed: exception in static initializer"
  | .previouslyFailed => "class initialization failed: class previously failed to initialize"
  | .uncaught => "uncaught exception"
  | .classNotFound => "class not found"
  | .noSuchField => "no such field"
  | .noSuchMethod => "no such method"
  | .abstractMethod => "abstract method invoked"
  | .instantiation => "cannot instantiate"
  | .unsatisfiedLink => "native method not available"
  | .linkage => "linkage error"
  | .nullPointer => "null pointer access"
  | .indexOutOfBounds => "index out of bounds"
  | .negativeArraySize => "negative array size"
  | .arithmetic => "arithmetic error"
  | .classCast => "class cast"
  | .arrayStore => "array store"
  | .stackOverflow => "stack overflow"

/-- One line of a stack trace; line zero is an unknown line. -/
structure TraceElement where
  className : String
  method : String
  line : Nat
  pc : Nat
  deriving DecidableEq, Repr

def TraceElement.render (e : TraceElement) : String :=
  if 0 < e.line then s!"{e.className}.{e.method}(line {e.line})"
  else s!"{e.className}.{e.method}(pc {e.pc})"

structure Uncaught where
  ref : Ref
  className : String
  detail : String
  trace : List TraceElement
  deriving DecidableEq, Repr

def Uncaught.message (e : Uncaught) : String :=
  if e.detail = "" then s!"uncaught {e.className}" else s!"uncaught {e.className}: {e.detail}"

def Uncaught.stackTrace (e : Uncaught) : String :=
  e.message ++ String.join (e.trace.map fun element => "\n\tat " ++ element.render)

inductive Fault where
  | classNotFound (name : String)
  | misnamed (name declared : String)
  | unreadable (name reason : String)
  | malformed (name : String) (cause : ParseError)
  | badMember (name member : String) (cause : DescriptorError)
  | circular (name : String)
  | superclass (name : String) (cause : Fault)
  | superinterface (name : String) (cause : Fault)
  | cannotExtend (name super : String)
  | notAnInterface (name interface : String)
  | badConstant (cause : PoolError)
  | notLoadable (index : UInt16) (tag : Tag)
  | unsupportedConstant (tag : Tag)
  | noSuchField (field : String)
  | noSuchMethod (method : String)
  | incompatible (change : String)
  | notStatic (method : String)
  | constantValue (field : String) (cause : Fault)
  | initializerThrew (name : String) (cause : Fault)
  | previouslyFailed (name : String)
  | nullPointer (use? : Option String)
  | indexOutOfBounds (index : Int32) (length : Nat)
  | negativeArraySize (length : Int32)
  | divisionByZero
  | classCast (source target : String)
  | arrayStore (value array : String)
  | abstractMethod (method : String)
  | instantiation (className : String)
  | stackOverflow (frames : Nat)
  | unsatisfiedLink (method : String)
  | unsupportedOpcode (text method : String) (pc : Nat)
  | internal (defect : Defect)
  | cannotCreate (className message : String) (cause : Fault)
  | uncaught (e : Uncaught)
  deriving DecidableEq, Repr

namespace Fault

/-- Whether a fault, or one that it passes on, belongs to a category. -/
def belongs : Fault → Category → Bool
  | .classNotFound _, c | .misnamed _ _, c => c = .classNotFound
  | .unreadable _ _, c | .malformed _ _, c | .badMember _ _ _, c | .circular _, c
  | .cannotExtend _ _, c | .notAnInterface _ _, c | .badConstant _, c | .notLoadable _ _, c
  | .incompatible _, c | .notStatic _, c => c = .linkage
  | .superclass _ cause, c | .superinterface _ cause, c | .constantValue _ cause, c =>
    cause.belongs c
  | .unsupportedConstant _, c | .unsupportedOpcode _ _ _, c => c = .unsupportedOpcode
  | .noSuchField _, c => c = .noSuchField
  | .noSuchMethod _, c => c = .noSuchMethod
  | .initializerThrew _ cause, c =>
    c = .initializerThrew || c = .initialization || cause.belongs c
  | .previouslyFailed _, c => c = .previouslyFailed || c = .initialization
  | .nullPointer _, c => c = .nullPointer
  | .indexOutOfBounds _ _, c => c = .indexOutOfBounds
  | .negativeArraySize _, c => c = .negativeArraySize
  | .divisionByZero, c => c = .arithmetic
  | .classCast _ _, c => c = .classCast
  | .arrayStore _ _, c => c = .arrayStore
  | .abstractMethod _, c => c = .abstractMethod
  | .instantiation _, c => c = .instantiation
  | .stackOverflow _, c => c = .stackOverflow
  | .unsatisfiedLink _, c => c = .unsatisfiedLink
  | .internal _, c => c = .internal
  | .cannotCreate _ _ cause, c => c = .internal || cause.belongs c
  | .uncaught _, c => c = .uncaught

private def headed (c : Category) (detail : String) : String := c.heading ++ ": " ++ detail

def message : Fault → String
  | .classNotFound name => headed .classNotFound name
  | .misnamed name declared =>
    headed .classNotFound s!"{name}: class file declares {declared}"
  | .unreadable name reason => headed .linkage s!"reading {name}: {reason}"
  | .malformed name cause => headed .linkage s!"{name}: {cause.message}"
  | .badMember name member cause => headed .linkage s!"{name}.{member}: {cause.text}"
  | .circular name => headed .linkage s!"class circularity through {name}"
  | .superclass name cause => s!"superclass of {name}: {cause.message}"
  | .superinterface name cause => s!"superinterface of {name}: {cause.message}"
  | .cannotExtend name super => headed .linkage s!"{name} cannot extend {super}"
  | .notAnInterface name interface =>
    headed .linkage s!"{name} implements non-interface {interface}"
  | .badConstant cause => headed .linkage cause.text
  | .notLoadable index tag =>
    headed .linkage
      s!"{FaultKind.badConstant.heading}: #{index.toNat} ({tag.name}) is not loadable"
  | .unsupportedConstant tag => headed .unsupportedOpcode s!"loadable constant {tag.name}"
  | .noSuchField field => headed .noSuchField field
  | .noSuchMethod method => headed .noSuchMethod method
  | .incompatible change => headed .linkage s!"incompatible class change: {change}"
  | .notStatic method => headed .linkage s!"{method} is not static"
  | .constantValue field cause => s!"constant value of {field}: {cause.message}"
  | .initializerThrew name cause => headed .initializerThrew s!"{name}: {cause.message}"
  | .previouslyFailed name => headed .previouslyFailed name
  | .nullPointer none => Category.nullPointer.heading
  | .nullPointer (some use) => headed .nullPointer use
  | .indexOutOfBounds index length =>
    headed .indexOutOfBounds s!"index {index.toInt} out of bounds for length {length}"
  | .negativeArraySize length => headed .negativeArraySize (toString length.toInt)
  | .divisionByZero => headed .arithmetic "/ by zero"
  | .classCast source target => headed .classCast s!"{source} cannot be cast to {target}"
  | .arrayStore value array => headed .arrayStore s!"{value} into {array}"
  | .abstractMethod method => headed .abstractMethod method
  | .instantiation className => headed .instantiation className
  | .stackOverflow frames => headed .stackOverflow s!"{frames} frames"
  | .unsatisfiedLink method => headed .unsatisfiedLink method
  | .unsupportedOpcode text method pc =>
    headed .unsupportedOpcode s!"{text} in {method} at pc {pc}"
  | .internal defect => headed .internal defect.message
  | .cannotCreate className message cause =>
    headed .internal s!"cannot create {className} for {Text.quote message}: {cause.message}"
  | .uncaught e => e.message

/-- The exception that a fault carries to the caller, if any. -/
def uncaught? : Fault → Option Uncaught
  | .superclass _ cause | .superinterface _ cause | .constantValue _ cause
  | .initializerThrew _ cause | .cannotCreate _ _ cause => cause.uncaught?
  | .uncaught e => some e
  | _ => none

/-- The guest classes thrown for the categories, the most specific first. -/
def guestClasses : List (Category × String) := [
  (.initializerThrew, "java/lang/ExceptionInInitializerError"),
  (.previouslyFailed, "java/lang/NoClassDefFoundError"),
  (.classNotFound, "java/lang/NoClassDefFoundError"),
  (.noSuchField, "java/lang/NoSuchFieldError"),
  (.noSuchMethod, "java/lang/NoSuchMethodError"),
  (.abstractMethod, "java/lang/AbstractMethodError"),
  (.instantiation, "java/lang/InstantiationError"),
  (.unsatisfiedLink, "java/lang/UnsatisfiedLinkError"),
  (.linkage, "java/lang/LinkageError"),
  (.nullPointer, "java/lang/NullPointerException"),
  (.indexOutOfBounds, "java/lang/ArrayIndexOutOfBoundsException"),
  (.negativeArraySize, "java/lang/NegativeArraySizeException"),
  (.arithmetic, "java/lang/ArithmeticException"),
  (.classCast, "java/lang/ClassCastException"),
  (.arrayStore, "java/lang/ArrayStoreException"),
  (.stackOverflow, "java/lang/StackOverflowError")]

def detailFor (f : Fault) (c : Category) : String :=
  let heading := c.heading ++ ": "
  if f.message.startsWith heading then (f.message.drop heading.length).toString else f.message

/-- The guest class thrown in place of a fault and its detail message; none for
a fault that ends the run. -/
def guestException? (f : Fault) : Option (String × String) :=
  (guestClasses.find? fun (c, _) => f.belongs c).map fun (c, name) => (name, f.detailFor c)

end Fault

end ClassEngine.Machine
