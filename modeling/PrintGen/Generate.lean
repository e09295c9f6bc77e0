import PrintGen.Diagnostic
import PrintGen.Emit

/-!
# The generation pass

Scanning, resolving, grouping, emitting and registering, in this order, over a list of source
trees. The result holds the fragments, the marker first, and the diagnostics.
-/

namespace PrintGen

open Syntax Symbols

structure Generated where
  fragments : List Fragment
  diagnostics : List Diagnostic

namespace Generated

def keys (g : Generated) : List String :=
  g.fragments.map Fragment.key

end Generated

def Symbols.Model.header (m : Model) (t : TypePath) : TypeHeader :=
  match m.table.entryOf? t with
  | some e => ⟨t, e.kind, e.parameters⟩
  | none => ⟨t, .classType, []⟩

def Symbols.Model.declarationsOf (m : Model) (t : TypePath) : List Site :=
  ((m.table.entryOf? t).map TypeEntry.declarations).getD []

/-- Registers the fragment for a type, or reports that there is none. -/
def settle (s : Settings) (done : Generated) (fragment : Option Fragment)
    (unsupported : Diagnostic) : Traced Generated :=
  match fragment with
  | some f => do
    let fragments ← register done.fragments f.key (some f.text)
    return { done with fragments }
  | none => do
    report .info .generating unsupported.text
    return if s.reportNested.truthy then
      { done with diagnostics := done.diagnostics ++ [unsupported] } else done

/-- Settles the group of marked fields of a type. -/
def settleFields (s : Settings) (m : Model) (stems : List (TypePath × String)) (done : Generated)
    (group : TypePath × List (ResolvedField TypePath)) : Traced Generated :=
  let t := group.1
  let fragment := (stems.lookup t).bind fun stem =>
    s.emitMethods (m.header t) (group.2.map ResolvedField.name) (fragmentKey stem methodsSuffix)
  settle s done fragment (.nestedType t (m.declarationsOf t) "Printable methods" none)

/-- Settles the stub of a type. Its method has the name that stubs were looked for by. -/
def settleStub (s : Settings) (m : Model) (stems : List (TypePath × String)) (done : Generated)
    (group : StubGroup TypePath) : Traced Generated :=
  let t := group.owner
  let fragment := (stems.lookup t).bind fun stem =>
    s.emitStub (m.header t) group (fragmentKey stem group.methodName)
  settle s done fragment
    (.nestedType t (m.declarationsOf t) (group.methodName ++ "()") group.site)

/-- Runs a generation pass over a list of trees. -/
def generate (s : Settings) (trees : List SourceTree) : Traced Generated := do
  let candidates ← Traced.ofExcept (scan trees s.stubName.string?)
  report .debug .generating ("Scanned " ++ toString trees.length ++ " trees: " ++
    toString candidates.fields.length ++ " field candidates, " ++
    toString candidates.stubs.length ++ " stub candidates")
  let resolver ← Resolver.ofTrees trees
  let fields ← resolver.resolveFields candidates.fields
  let groups := groupByOwner fields
  let stubs ← resolver.resolveStubs candidates.stubs
  let topLevel := (groups.map Prod.fst ++ stubs.map StubGroup.owner).filter TypePath.isTopLevel
  let stems := keyStems TypePath.name TypePath.metadataName topLevel
  let fragments ← register [] Marker.metadataName (some (.ofString Marker.source))
  let done ← groups.foldlM (settleFields s resolver.model stems) ⟨fragments, []⟩
  let done ← stubs.foldlM (settleStub s resolver.model stems) done
  report .debug .generating ("Generated " ++ toString done.fragments.length ++ " fragments, " ++
    toString done.diagnostics.length ++ " diagnostics")
  return done

/-- A source before it becomes a tree: its path, its text and what the grammar makes of it. -/
structure Source where
  path : String
  text : String
  parsed : Parsed

def Source.tree (source : Source) (index : Nat) : SourceTree :=
  ⟨.source index, source.path, source.text.toList, source.parsed.hasError, source.parsed.root⟩

/-- Adds a source to a list; one with the same path is replaced in its place. -/
def putSource (source : Source) : List Source → List Source
  | [] => [source]
  | other :: rest =>
    if other.path = source.path then source :: rest else other :: putSource source rest

/-- One source per path: the first position, the last content. -/
def distinctSources (sources : List Source) : List Source :=
  sources.foldl (fun done source => putSource source done) []

/-- Admits the sources one after the other and runs a generation pass over their trees. -/
def generateSources (s : Settings) (sources : List Source) : Traced Generated := do
  let trees := sources.mapIdx fun index source => source.tree index
  trees.forM (SourceTree.accept s.strict.truthy)
  generate s trees

end PrintGen
