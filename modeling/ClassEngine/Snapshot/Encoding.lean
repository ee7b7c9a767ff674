import ClassEngine.Cbor.Library
import ClassEngine.Digest.Sha256
import ClassEngine.Snapshot.Basic

/-!
# Encoding of snapshots

A snapshot is a record of records, each a map with small numbers as keys in increasing order.
Optional members that are empty are left out.
-/

namespace ClassEngine.Snapshot

open Cbor (Library Shape)

/-! ## Shapes -/

def constantShape : Shape :=
  .member 1 false .word <| .member 2 false .text <| .member 3 false .text .record

def fieldShape : Shape :=
  .member 1 false .word <| .member 2 false .text <| .member 3 false .text <|
    .member 4 true .text .record

def handlerShape : Shape :=
  .member 1 false .word <| .member 2 false .word <| .member 3 false .word <|
    .member 4 true .text .record

def lineShape : Shape := .member 1 false .word <| .member 2 false .word .record

def codeShape : Shape :=
  .member 1 false .word <| .member 2 false .word <| .member 3 false .bytes <|
    .member 4 true (.list handlerShape) <| .member 5 true (.list lineShape) .record

def methodShape : Shape :=
  .member 1 false .word <| .member 2 false .text <| .member 3 false .text <|
    .member 4 true (.pointer codeShape) <| .member 5 true (.list .text) .record

def classShape : Shape :=
  .member 1 false .word <| .member 2 false .word <| .member 3 false .word <|
    .member 4 false .text <| .member 5 true .text <| .member 6 true (.list .text) <|
    .member 7 true (.list constantShape) <| .member 8 true (.list fieldShape) <|
    .member 9 true (.list methodShape) <| .member 10 true .text .record

/-! ## Values -/

def Constant.value (c : Constant) : constantShape.Value := (c.index, c.tag, c.text, ())

def Constant.ofValue : constantShape.Value → Constant
  | (index, tag, text, _) => ⟨index, tag, text⟩

def Field.value (f : Field) : fieldShape.Value := (f.flags, f.name, f.descriptor, f.constant, ())

def Field.ofValue : fieldShape.Value → Field
  | (flags, name, descriptor, constant, _) => ⟨flags, name, descriptor, constant⟩

def Handler.value (h : Handler) : handlerShape.Value := (h.start, h.stop, h.target, h.catchType, ())

def Handler.ofValue : handlerShape.Value → Handler
  | (start, stop, target, catchType, _) => ⟨start, stop, target, catchType⟩

def Line.value (l : Line) : lineShape.Value := (l.start, l.line, ())

def Line.ofValue : lineShape.Value → Line
  | (start, line, _) => ⟨start, line⟩

def Code.value (c : Code) : codeShape.Value :=
  (c.maxStack, c.maxLocals, c.bytes?, c.handlers.map Handler.value, c.lines.map Line.value, ())

def Code.ofValue : codeShape.Value → Code
  | (maxStack, maxLocals, bytes?, handlers, lines, _) =>
    ⟨maxStack, maxLocals, bytes?, List.map Handler.ofValue handlers, List.map Line.ofValue lines⟩

def Method.value (m : Method) : methodShape.Value :=
  (m.flags, m.name, m.descriptor, m.code?.map Code.value, m.throws, ())

def Method.ofValue : methodShape.Value → Method
  | (flags, name, descriptor, code?, throws, _) =>
    ⟨flags, name, descriptor, Option.map Code.ofValue code?, throws⟩

def Class.value (c : Class) : classShape.Value :=
  (c.major, c.minor, c.flags, c.name, c.super, c.interfaces, c.constants.map Constant.value,
    c.fields.map Field.value, c.methods.map Method.value, c.sourceFile, ())

def Class.ofValue : classShape.Value → Class
  | (major, minor, flags, name, super, interfaces, constants, fields, methods, sourceFile, _) =>
    ⟨major, minor, flags, name, super, interfaces, List.map Constant.ofValue constants,
      List.map Field.ofValue fields, List.map Method.ofValue methods, sourceFile⟩

/-! ## Encoding -/

def Class.marshal (L : Library) (c : Class) : Option (List UInt8) := L.marshal classShape c.value

def unmarshal (L : Library) (bytes : List UInt8) : Option Class :=
  (L.unmarshal classShape bytes).map Class.ofValue

def Class.encode (c : Class) : List UInt8 := (c.marshal Cbor.standard).getD []

def Class.digest (c : Class) : List UInt8 := Digest.Sha256.hash c.encode

def decode? : List UInt8 → Option Class := unmarshal Cbor.standard

end ClassEngine.Snapshot
