import ClassEngine.ClassFile.Descriptor
import ClassEngine.ClassFile.ModifiedUtf8
import ClassEngine.ClassFile.Pool

/-!
# Faults of class files

A file that cannot be read has one fault and the places that enclose it, written
from the outside in.
-/

namespace ClassEngine.ClassFile

/-- The part of a file in which a fault was found. -/
inductive Place where
  | thisClass
  | superClass
  | interface (index : Nat)
  | constant (index : Nat)
  | attributeName
  | attributeBody (name : String)
  | fieldAt (index : Nat)
  | field (name : String)
  | methodAt (index : Nat)
  | method (name : String)
  | methodBody (name descriptor : String)
  deriving DecidableEq, Repr

def Place.render : Place → String
  | .thisClass => "this_class"
  | .superClass => "super_class"
  | .interface index => s!"interface {index}"
  | .constant index => s!"constant #{index}"
  | .attributeName => "attribute name"
  | .attributeBody name => s!"attribute {name}"
  | .fieldAt index => s!"field {index}"
  | .field name => s!"field {name}"
  | .methodAt index => s!"method {index}"
  | .method name => s!"method {name}"
  | .methodBody name descriptor => s!"method {name}{descriptor}"

inductive FaultKind where
  | badMagic
  | unsupportedVersion
  | truncated
  | badConstant
  | badDescriptor
  | malformed
  deriving DecidableEq, Repr

def FaultKind.heading : FaultKind → String
  | .badMagic => "malformed class file: invalid magic number"
  | .unsupportedVersion => "malformed class file: unsupported version"
  | .truncated => "malformed class file: unexpected end of data"
  | .badConstant => "malformed class file: bad constant pool entry"
  | .badDescriptor => "malformed class file: bad descriptor"
  | .malformed => "malformed class file"

inductive ParseError where
  | badMagic (word : UInt32)
  | unsupportedVersion (major minor : UInt16)
  | truncated (wanted offset : Nat)
  | attributeOverrun (name : String) (length remaining : Nat)
  | emptyPool
  | unknownTag (tag : UInt8)
  | poolOverrun (index : Nat)
  | encoding (e : ModifiedUtf8.DecodeError)
  | pool (e : PoolError)
  | descriptor (e : DescriptorError)
  | noSuperclass (name : String)
  | trailing (count : Nat)
  | sourceFileLength (length : Nat)
  | constantValueLength (length : Nat)
  | missingCode (name descriptor : String)
  | codeLength (length : Nat)
  | handlerRange (index : Nat)
  | lineTableLength (length count : Nat)
  | codeTrailing (count : Nat)
  | exceptionsLength (length count : Nat)
  | within (place : Place) (cause : ParseError)
  deriving DecidableEq, Repr

namespace ParseError

def kind : ParseError → FaultKind
  | .badMagic _ => .badMagic
  | .unsupportedVersion _ _ => .unsupportedVersion
  | .truncated _ _ | .attributeOverrun _ _ _ => .truncated
  | .emptyPool | .unknownTag _ | .poolOverrun _ | .encoding _ | .pool _ => .badConstant
  | .descriptor _ => .badDescriptor
  | .noSuperclass _ | .trailing _ | .sourceFileLength _ | .constantValueLength _
  | .missingCode _ _ | .codeLength _ | .handlerRange _ | .lineTableLength _ _
  | .codeTrailing _ | .exceptionsLength _ _ => .malformed
  | .within _ cause => cause.kind

def detail : ParseError → String
  | .badMagic word => s!"got 0x{Text.hexUpper 8 word.toNat}"
  | .unsupportedVersion major minor => s!"{major.toNat}.{minor.toNat}"
  | .truncated wanted offset => s!"need {wanted} bytes at offset {offset}"
  | .attributeOverrun name length remaining =>
    s!"attribute {name} length {length} exceeds remaining {remaining} bytes"
  | .emptyPool => "constant pool count 0"
  | .unknownTag tag => s!"unknown tag {tag.toNat}"
  | .poolOverrun index => s!"8-byte constant #{index} overruns pool"
  | .encoding e => e.message
  | .pool e => e.message
  | .descriptor e => e.message
  | .noSuperclass name => s!"{name} has no superclass"
  | .trailing count => s!"{count} trailing bytes"
  | .sourceFileLength length => s!"SourceFile length {length}"
  | .constantValueLength length => s!"ConstantValue length {length}"
  | .missingCode name signature => s!"method {name}{signature} has no Code attribute"
  | .codeLength length => s!"code length {length}"
  | .handlerRange index => s!"exception handler {index} out of code range"
  | .lineTableLength length count => s!"LineNumberTable length {length} for {count} entries"
  | .codeTrailing count => s!"Code attribute has {count} trailing bytes"
  | .exceptionsLength length count => s!"Exceptions length {length} for {count} entries"
  | .within _ cause => cause.detail

def message : ParseError → String
  | .within place cause => place.render ++ ": " ++ cause.message
  | e => e.kind.heading ++ ": " ++ e.detail

end ParseError

def PoolError.text (e : PoolError) : String := ParseError.message (.pool e)

def DescriptorError.text (e : DescriptorError) : String := ParseError.message (.descriptor e)

end ClassEngine.ClassFile
