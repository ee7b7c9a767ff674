import ClassEngine.Machine.Hierarchy

/-!
# Linking

Linking lays out the fields of a class behind those of its superclass and builds
its dispatch table: a copy of the superclass's table, with overridden slots
replaced and new methods added, and then the default methods of its
superinterfaces.
-/

namespace ClassEngine.Machine

open ClassFile (FieldType MethodDescriptor DescriptorError)

structure Declaration where
  name : String
  flags : UInt16
  sourceFile : String
  super? : Option ClassId
  interfaces : List ClassId
  fields : List (ClassFile.Field × FieldType)
  methods : List (ClassFile.Method × MethodDescriptor)
  pool : ClassFile.Pool

structure FieldLayout where
  fields : List Field
  layout : Array Field
  statics : Array Value

def FieldLayout.add (owner : ClassId) (ownerName : String) (l : FieldLayout)
    (f : ClassFile.Field × FieldType) : FieldLayout :=
  let slot := if f.1.isStatic then l.statics.size else l.layout.size
  let field : Field :=
    ⟨⟨owner, l.fields.length⟩, ownerName, f.1.name, f.1.descriptor, f.1.flags, f.2, slot,
      f.1.constantIndex⟩
  if field.isStatic then
    { l with fields := l.fields ++ [field], statics := l.statics.push field.zero }
  else { l with fields := l.fields ++ [field], layout := l.layout.push field }

def Declaration.layOut (d : Declaration) (id : ClassId) (inherited : Array Field) : FieldLayout :=
  d.fields.foldl (FieldLayout.add id d.name) ⟨[], inherited, #[]⟩

def Declaration.linkMethods (d : Declaration) (id : ClassId) : List Method :=
  d.methods.mapIdx fun i (m, signature) =>
    ⟨⟨id, i⟩, d.name, d.flags, m.name, m.descriptor, m.flags, signature, m.body?⟩

/-- A method of the class itself replaces the slot that it overrides. -/
def VTable.declare (t : VTable) (m : Method) : VTable :=
  if m.isVirtual then
    match t.slotOf? m.name m.descriptor with
    | some i =>
      if (t.slots[i]?).any m.overrides then t.set i m else t.add m
    | none => t.add m
  else t

/-- A method of a superinterface fills a missing slot, and a default method also
an abstract slot of another interface. -/
def VTable.inherit (t : VTable) (m : Method) : VTable :=
  if m.isVirtual then
    match t.slotOf? m.name m.descriptor with
    | some i =>
      if !m.isAbstract && (t.slots[i]?).any (fun old => old.isAbstract && old.ofInterface) then
        t.set i m
      else t
    | none => t.add m
  else t

def buildVTable (cs : Classes) (inherited : VTable) (methods : List Method)
    (superinterfaces : List ClassId) : VTable :=
  let own := methods.foldl VTable.declare inherited
  (superinterfaces.flatMap fun i => ((cs[i]?).map (·.methods)).getD []).foldl VTable.inherit own

/-- The linked class with the given number, and the initial values of its static fields. -/
def Declaration.link (d : Declaration) (cs : Classes) (id : ClassId) : Class × Array Value :=
  let parent? := d.super?.bind (cs[·]?)
  let laid := d.layOut id ((parent?.map (·.layout)).getD #[])
  let methods := d.linkMethods id
  let vtable := buildVTable cs ((parent?.map (·.vtable)).getD .empty) methods
    (cs.allInterfaces d.interfaces d.super?)
  ({ name := d.name
     flags := d.flags
     super? := d.super?
     interfaces := d.interfaces
     sourceFile := d.sourceFile
     fields := laid.fields
     methods
     vtable
     layout := laid.layout
     pool := d.pool
     array? := none }, laid.statics)

/-- The class of arrays with the given elements; it has the methods of the root class. -/
def linkArray (cs : Classes) (name : String) (root : ClassId) (shape : ArrayShape) : Class :=
  { name
    flags := ClassFile.Access.isPublic ||| ClassFile.Access.isFinal
    super? := some root
    interfaces := []
    sourceFile := ""
    fields := []
    methods := []
    vtable := ((cs[root]?).map (·.vtable)).getD .empty
    layout := #[]
    pool := ⟨#[]⟩
    array? := some shape }

end ClassEngine.Machine
