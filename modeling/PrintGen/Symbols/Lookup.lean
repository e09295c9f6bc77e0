import PrintGen.Symbols.Table
import PrintGen.Trace

/-!
# Looking names up

Which type a name refers to: enclosing types from the inside out, then every level of the scope
from the inside out, each with its namespace and after it its using directives. Names that are
ambiguous, or found as something else than a type, refer to nothing.

All lookups are told which types count. Types that do not count are passed over; they neither hide
other types nor make a name ambiguous.

The target of a using directive is looked up once, without the help of other directives, and kept;
a directive without a target is reported when it is first needed.
-/

namespace PrintGen.Symbols

open Syntax

/-- What is known while names are bound: the targets of the using directives met so far, and the
records made. -/
structure Findings where
  targets : List (Mark × Option Entity)
  trace : Trace

def Findings.none : Findings :=
  ⟨[], []⟩

/-- A step of binding names. -/
abbrev Binding := EStateM Fault Findings

def Binding.ofExcept {α : Type} : Except Fault α → Binding α
  | .ok a => pure a
  | .error fault => throw fault

def note (message : String) : Binding Unit :=
  modify fun f => { f with trace := f.trace ++ [⟨.debug, .binding, message⟩] }

/-- A type that counts. -/
def viable? (counts : TypePath → Bool) (t : Option TypePath) : Option TypePath :=
  t.filter counts

/-- The type of the given name nested in a type or in one of the types around it. -/
def enclosed? (table : Table) (counts : TypePath → Bool) (s : Segment) : TypePath → Option TypePath
  | .top home own => viable? counts (table.memberType? (.ofType (.top home own)) s)
  | .nested outer own =>
    (viable? counts (table.memberType? (.ofType (.nested outer own)) s)).or
      (enclosed? table counts s outer)

/-- What a segment stands for in the innermost namespace of a scope that has it. -/
def visible? (table : Table) (s : Segment) (scope : Scope) : Option Entity :=
  scope.findSome? fun frame => table.descend? (.ofNamespace frame.home) s

/-- The levels in which the target of a using directive is looked up: those around its own level,
or its own level if that is a file. -/
def targetScope : Scope → Scope
  | [] => []
  | frame :: outer => if frame.isFile then frame :: outer else outer

/-- Follows segments from a container inwards. -/
def descendAll? (table : Table) (start : Option Entity) (segments : List Segment) : Option Entity :=
  segments.foldl (fun container s => container.bind fun c => table.descend? c s) start

/-- The target of a using directive that stands in the innermost level of a scope. -/
def usingTarget? (table : Table) (scope : Scope) (name : QualifiedName) : Option Entity :=
  match name.segments with
  | [] => none
  | head :: rest =>
    let inGlobal := table.descend? (.ofNamespace .global) head
    let start :=
      if name.aliasName = some "global" then inGlobal
      else (visible? table head (targetScope scope)).or inGlobal
    descendAll? table start rest

/-- The target of a using directive, looked up if it is not known yet. -/
def targetOf (table : Table) (scope : Scope) (directive : Using) : Binding (Option Entity) := do
  match (← get).targets.lookup directive.mark with
  | some target => return target
  | none =>
    let name ← Binding.ofExcept (directive.tree.nameOf directive.target)
    let target := usingTarget? table scope name
    if target.isNone then
      let text ← Binding.ofExcept (directive.tree.text directive.target)
      note (directive.tree.path ++ ": using directive target '" ++ text ++ "' not found")
    modify fun f => { f with targets := f.targets ++ [(directive.mark, target)] }
    return target

/-- Whether an entity may be what an alias stands for: a type has to count. -/
def aliasCounts (counts : TypePath → Bool) : Option Entity → Bool
  | some (.ofType t) => counts t
  | _ => true

/-- The target of the first of these directives that may be meant. -/
def firstTarget (table : Table) (counts : TypePath → Bool) (scope : Scope) :
    List Using → Binding (Option (Option Entity))
  | [] => return none
  | directive :: rest => do
    let target ← targetOf table scope directive
    if aliasCounts counts target then return some target
    else firstTarget table counts scope rest

/-- The type that a directive without alias imports under a name: a member of a namespace, or for a
static directive a type nested in a type. -/
def imported? (table : Table) (s : Segment) (directive : Using) : Option Entity → Option TypePath
  | some (.ofNamespace n) =>
    if directive.isStatic then none else table.memberType? (.ofNamespace n) s
  | some (.ofType t) => if directive.isStatic then table.memberType? (.ofType t) s else none
  | none => none

/-- The distinct types that these directives import under a name, after those found already. -/
def importedTypes (table : Table) (counts : TypePath → Bool) (s : Segment) (scope : Scope) :
    List Using → List TypePath → Binding (List TypePath)
  | [], found => return found
  | directive :: rest, found => do
    let target ← targetOf table scope directive
    match viable? counts (imported? table s directive target) with
    | some t =>
      importedTypes table counts s scope rest (if found.contains t then found else found ++ [t])
    | none => importedTypes table counts s scope rest found

/-- What the using directives of the innermost level of a scope make of a name. The outer option
tells whether they decide it at all; an ambiguous name is decided to be nothing. -/
def inUsings (table : Table) (counts : TypePath → Bool) (s : Segment) (scope : Scope)
    (frame : Frame) : Binding (Option (Option Entity)) := do
  let usings := table.usingsOf frame
  let aliased ←
    if s.arity = 0 then
      firstTarget table counts scope (usings.filter fun u => u.aliasName = some s.name)
    else pure none
  match aliased with
  | some target => return some target
  | none =>
    let found ← importedTypes table counts s scope (usings.filter fun u => u.aliasName = none) []
    match found with
    | [] => return none
    | [t] => return some (some (.ofType t))
    | ts =>
      note ("'" ++ s.name ++ "' is imported from several namespaces: " ++ shownTypes ts)
      return some none

def Entity.type? : Option Entity → Option TypePath
  | some (.ofType t) => some t
  | _ => none

/-- Looks a simple type name up in the levels of a scope. -/
def typeInScope (table : Table) (counts : TypePath → Bool) (s : Segment) :
    Scope → Binding (Option TypePath)
  | [] => return none
  | frame :: outer =>
    match viable? counts (table.memberType? (.ofNamespace frame.home) s) with
    | some t => return some t
    | none => do
      match ← inUsings table counts s (frame :: outer) frame with
      | some decided => return Entity.type? decided
      | none => typeInScope table counts s outer

def simpleType (table : Table) (counts : TypePath → Bool) (s : Segment) (scope : Scope)
    (within : Option TypePath) : Binding (Option TypePath) :=
  match within.bind (enclosed? table counts s) with
  | some t => return some t
  | none => typeInScope table counts s scope

/-- Looks the first segment of a qualified name up in the levels of a scope. -/
def headInScope (table : Table) (s : Segment) : Scope → Binding (Option Entity)
  | [] => return none
  | frame :: outer =>
    match table.descend? (.ofNamespace frame.home) s with
    | some e => return some e
    | none => do
      match ← inUsings table (fun _ => true) s (frame :: outer) frame with
      | some decided => return decided
      | none => headInScope table s outer

/-- Looks the first segment of a qualified name up; every type counts. -/
def headEntity (table : Table) (s : Segment) (scope : Scope) (within : Option TypePath) :
    Binding (Option Entity) :=
  match within.bind (enclosed? table (fun _ => true) s) with
  | some t => return some (.ofType t)
  | none => headInScope table s scope

/-- What an alias before `::` stands for: the target of the first directive with that alias, from
the innermost level outwards. -/
def aliasEntity (table : Table) (aliasName : String) : Scope → Binding (Option Entity)
  | [] => return none
  | frame :: outer =>
    match (table.usingsOf frame).find? fun u => u.aliasName = some aliasName with
    | some directive => targetOf table (frame :: outer) directive
    | none => aliasEntity table aliasName outer

/-- Binds everything before the last segment of a qualified name. -/
def qualifierEntity (table : Table) (aliasName : Option String) (qualifier : List Segment)
    (scope : Scope) (within : Option TypePath) : Binding (Option Entity) :=
  match aliasName, qualifier with
  | some aliasName, _ => do
    let start ←
      if aliasName = "global" then pure (some (.ofNamespace .global))
      else aliasEntity table aliasName scope
    return descendAll? table start qualifier
  | none, [] => return none
  | none, head :: rest => do
    let start ← headEntity table head scope within
    return descendAll? table start rest

/-- Binds a name whose last segment is given apart. -/
def typeNamed (table : Table) (counts : TypePath → Bool) (aliasName : Option String)
    (qualifier : List Segment) (last : Segment) (scope : Scope) (within : Option TypePath) :
    Binding (Option TypePath) :=
  if aliasName.isNone && qualifier.isEmpty then simpleType table counts last scope within
  else do
    let container ← qualifierEntity table aliasName qualifier scope within
    return viable? counts (container.bind fun c => table.memberType? c last)

/-- An identifier without the mark of a verbatim one. -/
def withoutMark (name : String) : String :=
  match name.toList with
  | '@' :: rest => String.ofList rest
  | _ => name

/-- Binds a name that stands for a type, such as an entry of a base list. -/
def bindType (table : Table) (r : Reference) : Binding (Option TypePath) := do
  let name ← Binding.ofExcept (r.site.tree.nameOf r.site.node)
  match name.segments.getLast? with
  | none => return none
  | some last =>
    typeNamed table (fun _ => true) name.aliasName name.segments.dropLast
      ⟨withoutMark last.name, last.arity⟩ r.scope r.within

/-- The names under which an attribute class is looked for: as written and with the suffix, or for
a verbatim identifier just the identifier. -/
def attributeSpellings (name : String) : List String :=
  match name.toList with
  | '@' :: rest => [String.ofList rest]
  | _ => [name, name ++ "Attribute"]

/-- Binds the name of an attribute. Types count if they are attribute classes. If the spellings
lead to two different classes, the name is ambiguous. -/
def bindAttribute (table : Table) (isAttributeClass : TypePath → Bool) (r : Reference) :
    Binding (Option TypePath) := do
  let name ← Binding.ofExcept (r.site.tree.nameOf r.site.node)
  match name.segments.getLast? with
  | none => return none
  | some last =>
    let found ← (attributeSpellings last.name).mapM fun spelling =>
      typeNamed table isAttributeClass name.aliasName name.segments.dropLast ⟨spelling, last.arity⟩
        r.scope r.within
    match (found.filterMap id).eraseDups with
    | [] => return none
    | [t] => return some t
    | ts =>
      note (r.site.tree.path ++ ": attribute name '" ++ last.name ++ "' is ambiguous between " ++
        shownTypes ts)
      return none

end PrintGen.Symbols
