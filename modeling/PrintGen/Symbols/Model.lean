import PrintGen.Symbols.Ancestry
import PrintGen.Symbols.Declare
import PrintGen.Symbols.Lookup
import PrintGen.Text.Numeral
import PrintGen.Text.Split

/-!
# The model of a compilation

The symbol table together with what the names in it are bound to. Base classes are bound first,
then the attributes of fields, which depend on them through the question which types are attribute
classes. A fault ends the work; what was declared and bound before stays.
-/

namespace PrintGen.Symbols

open Syntax

/-- A symbol table with the base of each type that names one (nothing stands for a base outside the
compilation) and the classes of the field attributes in order of declaration. -/
structure Model where
  table : Table
  bases : List (TypePath × Option TypePath)
  classes : List (Option TypePath)

/-- What building a model comes to: the model as far as it got, the records made, and the fault
that ended the work, if any. -/
structure Built where
  model : Model
  trace : Trace
  fault : Option Fault

/-- Binds one name after the other until a fault. -/
def bindEach {α β : Type} (bind : α → Binding β) : List α → Findings → List β × Option Fault × Findings
  | [], findings => ([], none, findings)
  | a :: rest, findings =>
    match bind a findings with
    | .ok b findings =>
      let (bs, fault, findings) := bindEach bind rest findings
      (b :: bs, fault, findings)
    | .error fault findings => ([], some fault, findings)

/-- What the walk along base classes needs to know of a type in a table. -/
def lineageIn (table : Table) (bases : List (TypePath × Option TypePath)) (t : TypePath) :
    Option (Lineage TypePath) :=
  (table.entryOf? t).map fun e =>
    ⟨e.kind, (bases.lookup t).join, bases.lookup t = some none⟩

/-- Whether a type is an attribute class: the chain of its base classes leaves the compilation. -/
def isAttributeClass (table : Table) (bases : List (TypePath × Option TypePath)) (t : TypePath) :
    Bool :=
  leavesWithin (lineageIn table bases) (table.types.length + 1) t

namespace Model

/-- The base class of a type, if it is declared in the compilation. -/
def baseOf? (m : Model) (t : TypePath) : Option TypePath :=
  (m.bases.lookup t).join

/-- Whether a type has a base that is not declared in the compilation. -/
def hasExternalBase (m : Model) (t : TypePath) : Bool :=
  m.bases.lookup t = some none

def isAttributeClass (m : Model) (t : TypePath) : Bool :=
  Symbols.isAttributeClass m.table m.bases t

end Model

/-- The names of attributes in a table, in order of declaration. -/
def Table.attributes (table : Table) : List Reference :=
  table.fields.flatMap FieldEntry.attributes

def bindTable (table : Table) : Built :=
  let (bound, fault, findings) := bindEach (fun b => bindType table b.name) table.bases .none
  let bases := (table.bases.map BaseReference.type).zip bound
  match fault with
  | some fault => ⟨⟨table, bases, []⟩, findings.trace, some fault⟩
  | none =>
    let (classes, fault, findings) :=
      bindEach (bindAttribute table (isAttributeClass table bases)) table.attributes findings
    ⟨⟨table, bases, classes⟩, findings.trace, fault⟩

/-- Builds the model of a list of trees. -/
def build (trees : List SourceTree) : Built :=
  match declareTrees trees .empty with
  | .error fault table => ⟨⟨table, [], []⟩, [], some fault⟩
  | .ok () table =>
    let built := bindTable table
    match built.fault with
    | some _ => built
    | none =>
      let message := "Declared " ++ toString table.allTypes.length ++ " types from " ++
        toString trees.length ++ " syntax trees"
      { built with trace := built.trace ++ [⟨.debug, .declaring, message⟩] }

/-- A field together with the classes that its attributes are bound to. -/
structure BoundField where
  field : FieldEntry
  classes : List (Option TypePath)

/-- Deals out the classes to the fields whose attributes they belong to. An attribute that was not
reached has no class. -/
def dealClasses : List FieldEntry → List (Option TypePath) → List BoundField
  | [], _ => []
  | f :: rest, classes =>
    let n := f.attributes.length
    let own := classes.take n
    ⟨f, own ++ List.replicate (n - own.length) none⟩ :: dealClasses rest (classes.drop n)

namespace Model

/-- All fields with the classes of their attributes. -/
def fields (m : Model) : List BoundField :=
  dealClasses m.table.fields m.classes

def fieldsOf (m : Model) (t : TypePath) : List BoundField :=
  m.fields.filter fun f => f.field.owner = t

/-- The fields that a field declaration introduced. -/
def declaredFields (m : Model) (key : NodeKey) : List BoundField :=
  m.fields.filter fun f => f.field.origin = some key

/-- The type around a visited node. -/
def containingType? (m : Model) (tree : SourceTree) (owner : Option Node) : Option TypePath :=
  owner.bind fun node => m.table.typeOfNode? (tree.key node)

/-- The fields of a type that a generated method can print: those of an instance that have a
name. -/
def printableFields (m : Model) (t : TypePath) : List FieldEntry :=
  (m.table.fieldsOf t).filter fun f => f.nameable && !f.isStatic

end Model

/-- A segment of a metadata name: the name and the arity after the backtick. -/
def arityOf (text : List Char) : Except Fault (String × Int) :=
  match Text.cutAt '\x60' text with
  | (name, none) => .ok (String.ofList name, 0)
  | (name, some digits) =>
    match Text.integer (String.ofList digits) with
    | .ok arity => .ok (String.ofList name, arity)
    | .error .malformed => .error (.badArity (String.ofList digits))
    | .error (.tooLong count) => .error (.longInteger count)

/-- The type inside a container with the given name and arity; the arity may be any integer. -/
def Table.memberOfArity? (table : Table) (container : Entity) (name : String) (arity : Int) :
    Option TypePath :=
  if 0 ≤ arity then table.memberType? container ⟨name, arity.toNat⟩ else none

/-- Follows the nested parts of a metadata name. A part is only read if there is a type around
it. -/
def Table.nestedByName (table : Table) : Option TypePath → List (List Char) →
    Except Fault (Option TypePath)
  | none, _ => .ok none
  | some t, [] => .ok (some t)
  | some t, part :: rest => do
    let (name, arity) ← arityOf part
    table.nestedByName (table.memberOfArity? (.ofType t) name arity) rest

/-- Follows the namespace parts of a metadata name. -/
def Table.namespaceByName? (table : Table) (parts : List (List Char)) : Option Namespace :=
  parts.foldlM (fun n part =>
    let inner := Namespace.child n (String.ofList part)
    if table.hasNamespace inner then some inner else none) .global

def Table.typeByName (table : Table) (metadataName : String) : Except Fault (Option TypePath) :=
  match Text.splitOn '+' metadataName.toList with
  | [] => .ok none
  | outermost :: nested =>
    let parts := Text.splitOn '.' outermost
    match table.namespaceByName? parts.dropLast with
    | none => .ok none
    | some n => do
      let (name, arity) ← arityOf (parts.getLast?.getD [])
      table.nestedByName (table.memberOfArity? (.ofNamespace n) name arity) nested

end PrintGen.Symbols
