import PrintGen.Symbols.Model

/-!
# Compilations

A fixed list of source trees with a model that is built by the first question asked. If building it
stops at a fault, the first question reports the fault; later questions are answered from the model
as far as it got.
-/

namespace PrintGen

open Syntax Symbols

/-- A list of source trees and, once a question was asked, their model. -/
structure Compilation where
  trees : List SourceTree
  model? : Option Model

namespace Compilation

def ofTrees (trees : List SourceTree) : Compilation :=
  ⟨trees, none⟩

/-- A compilation with further trees. The given one is left as it is. -/
def addTrees (c : Compilation) (trees : List SourceTree) : Compilation :=
  ofTrees (c.trees ++ trees)

/-- The model of a compilation, which is built if this is the first question. Also returns the
compilation that remembers it. -/
def model (c : Compilation) : Compilation × Traced Model :=
  match c.model? with
  | some m => (c, pure m)
  | none =>
    let built := build c.trees
    ({ c with model? := some built.model }, do
      modify (· ++ built.trace)
      match built.fault with
      | some fault => throw fault
      | none => return built.model)

end Compilation

end PrintGen
