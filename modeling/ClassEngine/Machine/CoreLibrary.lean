import ClassEngine.ClassFile.Builder
import ClassEngine.Machine.Exceptions
import ClassEngine.Search.Source

/-!
# The core library

The classes that the machine itself needs: the root class, strings, and the
exceptions it raises.  The characters of a string are kept by the heap.
-/

namespace ClassEngine.Machine.CoreLibrary

open ClassFile
open Code (Assembler Opcode)
open Search (Memory)

def noArguments : String := "()V"

def withMessage : String := "(Ljava/lang/String;)V"

def stringDescriptor : String := "Ljava/lang/String;"

def addMethod (name descriptor : String) (maxStack maxLocals : UInt16) (code : Assembler) :
    Build Unit := do
  let m ← Builder.declareMethod Access.isPublic name descriptor
  Builder.addMethod { m with code := .assembly maxStack maxLocals, assembler := code }

/-- A constructor that passes its arguments on to that of the superclass. -/
def addConstructor (super descriptor : String) (limit : UInt16) (arguments : List Opcode) :
    Build Unit := do
  let m ← Builder.declareMethod Access.isPublic constructorName descriptor
  let target ← Builder.member .method super constructorName descriptor
  let code := ((({} : Assembler).emit arguments).emitUInt16 .invokespecial target).emit
    [.returnVoid]
  Builder.addMethod { m with code := .assembly limit limit, assembler := code }

def addDefaultConstructor (super : String) : Build Unit :=
  addConstructor super noArguments 1 [.aload0]

def finish (name super : String) (declarations : Build Unit) : List UInt8 :=
  match ((do declarations; Builder.bytes : Build _).run (Builder.start name super)).1 with
  | .ok bytes => bytes
  | .error _ => []

/-- Objects are equal when they are the same. -/
def rootClass : List UInt8 :=
  finish rootClassName "" do
    addMethod constructorName noArguments 0 1 (({} : Assembler).emit [.returnVoid])
    let (differ, a) := ({} : Assembler).newLabel "differ"
    let a := ((a.emit [.aload0, .aload1]).emitJump .ifAcmpne differ).emit [.iconst1, .ireturn]
    let a := (a.mark differ).toOption.getD a
    addMethod "equals" "(Ljava/lang/Object;)Z" 2 2 (a.emit [.iconst0, .ireturn])

def stringClass : List UInt8 :=
  finish Exec.stringClassName rootClassName do
    Builder.setFlags (Access.isPublic ||| Access.isFinal ||| Access.isSuper)
    addDefaultConstructor rootClassName

def throwableClass : List UInt8 :=
  finish throwableName rootClassName do
    Builder.addField Access.isPrivate messageFieldName stringDescriptor
    addDefaultConstructor rootClassName
    let m ← Builder.declareMethod Access.isPublic constructorName withMessage
    let super ← Builder.member .method rootClassName constructorName noArguments
    let message ← Builder.member .field throwableName messageFieldName stringDescriptor
    let code := ((({} : Assembler).emit [.aload0]).emitUInt16 .invokespecial super).emit
      [.aload0, .aload1]
    Builder.addMethod
      { m with
        code := .assembly 2 2
        assembler := (code.emitUInt16 .putfield message).emit [.returnVoid] }
    let getter ← Builder.declareMethod Access.isPublic "getMessage" "()Ljava/lang/String;"
    Builder.addMethod
      { getter with
        code := .assembly 1 1
        assembler := ((({} : Assembler).emit [.aload0]).emitUInt16 .getfield message).emit
          [.areturn] }

/-- An exception class with a default constructor and one that takes a message. -/
def exceptionClass (name super : String) : List UInt8 :=
  finish name super do
    addDefaultConstructor super
    addConstructor super withMessage 2 [.aload0, .aload1]

def exceptions : List (String × String) := [
  ("Exception", "Throwable"),
  ("RuntimeException", "Exception"),
  ("ArithmeticException", "RuntimeException"),
  ("NullPointerException", "RuntimeException"),
  ("IndexOutOfBoundsException", "RuntimeException"),
  ("ArrayIndexOutOfBoundsException", "IndexOutOfBoundsException"),
  ("NegativeArraySizeException", "RuntimeException"),
  ("ClassCastException", "RuntimeException"),
  ("ArrayStoreException", "RuntimeException"),
  ("IllegalArgumentException", "RuntimeException"),
  ("IllegalStateException", "RuntimeException"),
  ("Error", "Throwable"),
  ("VirtualMachineError", "Error"),
  ("StackOverflowError", "VirtualMachineError"),
  ("LinkageError", "Error"),
  ("NoClassDefFoundError", "LinkageError"),
  ("ClassFormatError", "LinkageError"),
  ("ClassCircularityError", "LinkageError"),
  ("ExceptionInInitializerError", "LinkageError"),
  ("UnsatisfiedLinkError", "LinkageError"),
  ("IncompatibleClassChangeError", "LinkageError"),
  ("NoSuchFieldError", "IncompatibleClassChangeError"),
  ("NoSuchMethodError", "IncompatibleClassChangeError"),
  ("AbstractMethodError", "IncompatibleClassChangeError"),
  ("InstantiationError", "IncompatibleClassChangeError")]

def classes : Memory :=
  let base := ((Memory.empty.add rootClassName (.ok rootClass)).add Exec.stringClassName
    (.ok stringClass)).add throwableName (.ok throwableClass)
  exceptions.foldl (fun m (name, super) =>
    let name := "java/lang/" ++ name
    m.add name (.ok (exceptionClass name ("java/lang/" ++ super)))) base

end ClassEngine.Machine.CoreLibrary
