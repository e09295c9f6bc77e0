import PrintGen.Proofs.Growth
import PrintGen.Marker
import PrintGen.Resolve

/-!
# The marker class

Whatever was declared before, declaring the marker source brings the marker class into the table,
and its metadata name leads to it. A resolver therefore always knows the marker class.
-/

namespace PrintGen.Marker

open Syntax Symbols

/-- The namespace of the marker class. -/
def home : Namespace :=
  .child .global "PrintableFields"

/-- The marker class. -/
def type : TypePath :=
  .top home ⟨"PrintableAttribute", 0⟩

/-! ## The two names in the source -/

/-- The source up to the marker class and what follows its header, in four parts. -/
theorem source_toList : source.toList =
    "using System;\n\nnamespace PrintableFields\n\x7b\n".toList ++
    ("    [AttributeUsage(AttributeTargets.Field, Inherited = false, AllowMultiple = false)]\n".toList ++
    ("    sealed class PrintableAttribute : Attribute\n    \x7b\n".toList ++
    "        public PrintableAttribute()\n        \x7b\n        \x7d\n    \x7d\n\x7d\n".toList)) := by
  have happend : ∀ a b c d : String, (a ++ b ++ c ++ d).toList =
      a.toList ++ (b.toList ++ (c.toList ++ d.toList)) := by
    intro a b c d
    rw [String.toList_append, String.toList_append, String.toList_append, List.append_assoc,
      List.append_assoc]
  exact happend _ _ _ _

/-- The marker source with its text in parts. -/
theorem tree_parts : tree = ⟨.marker, path,
    "using System;\n\nnamespace PrintableFields\n\x7b\n".toList ++
    ("    [AttributeUsage(AttributeTargets.Field, Inherited = false, AllowMultiple = false)]\n".toList ++
    ("    sealed class PrintableAttribute : Attribute\n    \x7b\n".toList ++
    "        public PrintableAttribute()\n        \x7b\n        \x7d\n    \x7d\n\x7d\n".toList)),
    false, root⟩ := by
  rw [← source_toList]
  rfl

theorem home_slice (rest : List Char) :
    Text.slice? ("using System;\n\nnamespace PrintableFields\n\x7b\n".toList ++ rest) 25 40 =
      some "PrintableFields".toList := by
  rfl

set_option maxRecDepth 2000 in
theorem type_slice (rest : List Char) :
    Text.slice? ("using System;\n\nnamespace PrintableFields\n\x7b\n".toList ++
    ("    [AttributeUsage(AttributeTargets.Field, Inherited = false, AllowMultiple = false)]\n".toList ++
    ("    sealed class PrintableAttribute : Attribute\n    \x7b\n".toList ++ rest))) 147 165 =
      some "PrintableAttribute".toList := by
  rfl

theorem text_of_slice {source : SourceTree} {node : Node} {name : String}
    (h : Text.slice? source.content node.start node.stop = some name.toList) :
    source.text node = .ok name := by
  rw [SourceTree.text, h]
  exact congrArg Except.ok String.ofList_toList

theorem tree_content : tree.content = source.toList := by
  have h : ∀ id path content hasError root,
      (SourceTree.mk id path content hasError root).content = content := fun _ _ _ _ _ => rfl
  exact h .marker path source.toList false root

/-- A tree with the text and the nodes of the marker source. -/
structure IsCopy (copy : SourceTree) : Prop where
  content : copy.content = source.toList
  root : copy.root = Marker.root

theorem tree_isCopy : IsCopy tree :=
  ⟨tree_content, rfl⟩

section

variable {copy : SourceTree} (hc : IsCopy copy)

include hc

theorem home_text (label : Option Label) :
    copy.text (identifier 25 40 label) = .ok "PrintableFields" := by
  apply text_of_slice
  rewrite [hc.content, source_toList]
  exact home_slice _

theorem type_text (label : Option Label) :
    copy.text (identifier 147 165 label) = .ok "PrintableAttribute" := by
  apply text_of_slice
  rewrite [hc.content, source_toList]
  exact type_slice _

end

/-! ## What the source declares -/

/-- Nodes that declare nothing leave the table as it is. -/
theorem declares_nothing {source : SourceTree} {scope : Scope} {within : Option TypePath}
    {table : Table} {nodes : List Node}
    (h : ∀ node ∈ nodes, isOpening node.kind = false ∧ isStorage node.kind = false) :
    Declares source scope within nodes table table := by
  induction nodes with
  | nil => exact .nil
  | cons node rest ih =>
    obtain ⟨ho, hs⟩ := h node (by simp)
    exact .skip ho (.inr hs) (ih fun n hn => h n (by simp [hn]))

section

variable {copy : SourceTree} (hc : IsCopy copy)

include hc

theorem home_segments (rest : List Node) :
    segmentsOf copy (node .namespaceDeclaration 15 247 none
      (token (.other "namespace") 15 24 :: identifier 25 40 (some .name) :: rest)) =
      .ok [⟨"PrintableFields", 0⟩] := by
  change (do
    let name ← (do
      let name ← copy.text (identifier 25 40 (some .name))
      return (⟨none, [⟨name, 0⟩]⟩ : QualifiedName))
    return name.segments) = _
  rw [home_text hc]
  rfl

theorem type_typeOf (scope : Scope) (attributes modifiers bases body : List Node) :
    typeOf copy (node (.typeDeclaration .classType) 47 245 none [
      node .attributeList 47 129 none attributes, node .modifier 134 140 none modifiers,
      token (.other "class") 141 146, identifier 147 165 (some .name),
      node .baseList 166 177 none bases,
      node .declarationList 182 245 (some (.other "body")) body]) scope none =
      .ok (.top scope.home ⟨"PrintableAttribute", 0⟩, []) := by
  change (do
    let name ← copy.text (identifier 147 165 (some .name))
    let parameters ← (.ok [] : Except Fault (List String))
    return (pathOf scope none ⟨name, parameters.length⟩, parameters)) = _
  rw [type_text hc]
  rfl

end

/-- The directive of the marker source. -/
def importNode : Node :=
  node .usingDirective 0 13 none [
    token (.other "using") 0 5, identifier 6 12 none, token (.other ";") 12 13]

/-- The base of the marker class, as it is written. -/
def baseName : Node :=
  identifier 168 177 none

/-- The scope of the class that a copy declares, and the table before it is declared. -/
def openedIn (copy : SourceTree) (table : Table) : Scope × Table :=
  let file := table.withFrame copy .global true
  Table.withScope copy [⟨"PrintableFields", 0⟩] [file.1]
    (file.2.withDirective copy importNode [file.1] (some (none, identifier 6 12 none)))

/-- A copy of the marker source declares one class without fields in the namespace of the marker
class. -/
theorem declaresCopy {copy : SourceTree} (hc : IsCopy copy) (table : Table) :
    ∃ node, node.typeKind?.getD .classType = .classType ∧ node.baseName? = some baseName ∧
      DeclaresTree copy table ((openedIn copy table).2.withType copy node .classType
        (openedIn copy table).1 type []) := by
  have himport : directiveOf copy importNode = .ok (some (none, identifier 6 12 none)) := rfl
  refine ⟨?_, ?_, ?_, ?_⟩
  rotate_left 3
  · rw [DeclaresTree, hc.root]
    refine .directive rfl himport (.block rfl (home_segments hc _) (.skip rfl (.inr rfl)
      (.type rfl (type_typeOf hc _ _ _ _ _) ?_ (.skip rfl (.inr rfl) .nil))) .nil)
    rw [openMembers]
    split
    · exact .nil
    · exact declares_nothing (by decide)
  · rfl
  · rfl

theorem declared {table last : Table} (h : DeclaresTree tree table last) :
    last.hasNamespace home = true ∧ last.hasType type = true ∧ last.fields = table.fields := by
  obtain ⟨node, -, -, hd⟩ := declaresCopy tree_isCopy table
  obtain rfl := h.unique hd
  have hhome : (openedIn tree table).2.hasNamespace home = true := by
    change (Table.withNamespace _ home).hasNamespace home = true
    rw [Table.withNamespace_has]
    simp
  refine ⟨?_, Table.withType_hasType _ _ _ _ _ _ _, ?_⟩
  · exact (Grows.withType _ _ _ _ _ _ _).namespaces home hhome
  · simp [Table.withType_fields, openedIn, Table.withFrame]

/-- The metadata name of the marker class leads to it. -/
theorem typeByName {table : Table} (hn : table.hasNamespace home = true)
    (ht : table.hasType type = true) : table.typeByName metadataName = .ok (some type) := by
  have hplus : Text.splitOn '+' metadataName.toList = [metadataName.toList] := by decide +kernel
  have hdot : Text.splitOn '.' metadataName.toList =
      ["PrintableFields".toList, "PrintableAttribute".toList] := by decide +kernel
  have harity : arityOf "PrintableAttribute".toList = .ok ("PrintableAttribute", 0) := by
    have hcut : Text.cutAt '\x60' "PrintableAttribute".toList =
        ("PrintableAttribute".toList, none) := by decide +kernel
    rw [arityOf, hcut]
    exact congrArg (fun name => Except.ok (name, 0)) String.ofList_toList
  have hhome : table.namespaceByName? ["PrintableFields".toList] = some home := by
    have hname : Namespace.child .global (String.ofList "PrintableFields".toList) = home := by
      rw [String.ofList_toList]
      rfl
    simp only [Table.namespaceByName?, List.foldlM_cons, List.foldlM_nil, hname, hn, if_true]
    rfl
  have hmember : table.memberOfArity? (.ofNamespace home) "PrintableAttribute" 0 = some type := by
    rw [Table.memberOfArity?, if_pos (Int.le_refl 0)]
    change table.type? type = some type
    rw [Table.type?, if_pos ht]
  have hparts : (Text.splitOn '.' metadataName.toList).dropLast = ["PrintableFields".toList] := by
    rw [hdot]
    rfl
  have hlast : (Text.splitOn '.' metadataName.toList).getLast?.getD [] =
      "PrintableAttribute".toList := by
    rw [hdot]
    rfl
  rw [Table.typeByName, hplus]
  simp only [hparts, hlast, hhome, harity]
  change table.nestedByName (table.memberOfArity? (.ofNamespace home) "PrintableAttribute" 0) [] = _
  rw [hmember]
  rfl

end PrintGen.Marker
