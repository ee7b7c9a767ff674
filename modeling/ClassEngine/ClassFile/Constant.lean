/-!
# Constant pool entries

A constant is a literal, a text, or a reference that names other entries of the
same pool by index.  Floating-point literals are kept as the words stored in the
file.
-/

namespace ClassEngine.ClassFile

structure Tag where
  code : UInt8
  deriving DecidableEq, Repr, Hashable

namespace Tag

def utf8 : Tag := ⟨1⟩
def integer : Tag := ⟨3⟩
def float : Tag := ⟨4⟩
def long : Tag := ⟨5⟩
def double : Tag := ⟨6⟩
def classRef : Tag := ⟨7⟩
def string : Tag := ⟨8⟩
def fieldRef : Tag := ⟨9⟩
def methodRef : Tag := ⟨10⟩
def interfaceMethodRef : Tag := ⟨11⟩
def nameAndType : Tag := ⟨12⟩
def methodHandle : Tag := ⟨15⟩
def methodType : Tag := ⟨16⟩
def dynamic : Tag := ⟨17⟩
def invokeDynamic : Tag := ⟨18⟩
def module : Tag := ⟨19⟩
def package : Tag := ⟨20⟩

def name (t : Tag) : String :=
  match t.code.toNat with
  | 1 => "Utf8"
  | 3 => "Integer"
  | 4 => "Float"
  | 5 => "Long"
  | 6 => "Double"
  | 7 => "Class"
  | 8 => "String"
  | 9 => "Fieldref"
  | 10 => "Methodref"
  | 11 => "InterfaceMethodref"
  | 12 => "NameAndType"
  | 15 => "MethodHandle"
  | 16 => "MethodType"
  | 17 => "Dynamic"
  | 18 => "InvokeDynamic"
  | 19 => "Module"
  | 20 => "Package"
  | n => s!"Tag({n})"

end Tag

inductive MemberKind where
  | field
  | method
  | interfaceMethod
  deriving DecidableEq, Repr, Hashable

def MemberKind.tag : MemberKind → Tag
  | .field => .fieldRef
  | .method => .methodRef
  | .interfaceMethod => .interfaceMethodRef

inductive DynamicKind where
  | value
  | call
  deriving DecidableEq, Repr, Hashable

inductive UnitKind where
  | module
  | package
  deriving DecidableEq, Repr, Hashable

inductive Constant where
  | utf8 (text : String)
  | integer (value : Int32)
  | float (bits : UInt32)
  | long (value : Int64)
  | double (bits : UInt64)
  | classRef (name : UInt16)
  | string (text : UInt16)
  | member (kind : MemberKind) (owner nameAndType : UInt16)
  | nameAndType (name descriptor : UInt16)
  | methodHandle (kind : UInt8) (reference : UInt16)
  | methodType (descriptor : UInt16)
  | dynamic (kind : DynamicKind) (bootstrap nameAndType : UInt16)
  | unit (kind : UnitKind) (name : UInt16)
  deriving DecidableEq, Repr, Hashable

namespace Constant

def tag : Constant → Tag
  | .utf8 _ => .utf8
  | .integer _ => .integer
  | .float _ => .float
  | .long _ => .long
  | .double _ => .double
  | .classRef _ => .classRef
  | .string _ => .string
  | .member kind _ _ => kind.tag
  | .nameAndType _ _ => .nameAndType
  | .methodHandle _ _ => .methodHandle
  | .methodType _ => .methodType
  | .dynamic .value _ _ => .dynamic
  | .dynamic .call _ _ => .invokeDynamic
  | .unit .module _ => .module
  | .unit .package _ => .package

/-- Eight-byte constants take two slots of a pool; the second stays empty. -/
def isWide : Constant → Bool
  | .long _ | .double _ => true
  | _ => false

end Constant

end ClassEngine.ClassFile
