import PrintGen.Proofs.Events

/-!
# What the marker source adds to a table

The marker source makes five records: the level of its file, a directive without alias, its
namespace with its level, and the marker class. The class has a base that is written `Attribute`,
looked up in these two levels. A copy of the source in another tree makes the same records, with
marks of that tree.
-/

namespace PrintGen.Marker

open Syntax Symbols

/-! ## Copies -/

section

variable (copy : SourceTree) (table : Table)

/-- The level of the file of a copy. -/
def copyFile : Frame :=
  ⟨⟨copy.id, Table.rankIn copy.id table.frames⟩, .global, true⟩

/-- The level of the namespace in a copy. -/
def copyHome : Frame :=
  ⟨⟨copy.id, Table.rankIn copy.id (table.frames ++ [(copyFile copy table).mark])⟩, home, false⟩

/-- The directive of a copy, which has no alias. -/
def copyDirective : Using :=
  ⟨⟨copy.id, Table.rankIn copy.id (table.usings.map Using.mark)⟩, some (copyFile copy table).mark,
    copy, identifier 6 12 none, none, false⟩

/-- What a copy records before the class. -/
def copyOpening : List Event :=
  [.level (copyFile copy table).mark, .directive (copyDirective copy table), .home home,
    .level (copyHome copy table).mark]

/-- The base that the class in a copy names. -/
def copyBase : BaseReference :=
  ⟨type, ⟨⟨copy, baseName⟩, [copyHome copy table, copyFile copy table], none⟩⟩

/-- What is known of the declaration of the class in a copy. -/
structure IsCopyClass (d : Declaration) : Prop where
  path : d.path = type
  tree : d.tree = copy
  kind : d.kind = .classType
  parameters : d.parameters = []
  base : d.base? = some (copyBase copy table)

theorem openedIn_eq : openedIn copy table =
    ([copyHome copy table, copyFile copy table], table.after (copyOpening copy table)) := by
  have hframe : ∀ (known : Table) n, (known.withNamespace n).withFrame copy n false =
      (⟨⟨copy.id, Table.rankIn copy.id known.frames⟩, n, false⟩,
        (known.withNamespace n).record (.level ⟨copy.id, Table.rankIn copy.id known.frames⟩)) := by
    intro known n
    rw [Table.withFrame, Table.record, Table.withNamespace_frames]
  rw [openedIn, Table.withScope, Table.withScope, hframe]
  rfl

variable {copy table}

/-- **Declaring a copy makes these records.** -/
theorem copy_recorded (hc : IsCopy copy) {last : Table} (h : DeclaresTree copy table last) :
    ∃ d, IsCopyClass copy table d ∧
      last = table.after (copyOpening copy table ++ [.declaration d]) := by
  obtain ⟨node, hkind, hbase, hd⟩ := declaresCopy hc table
  rw [openedIn_eq] at hd
  let d : Declaration :=
    ⟨copy, node, .classType, [copyHome copy table, copyFile copy table], type, []⟩
  have hd_base : d.base? = some (copyBase copy table) := by
    rw [Declaration.base?, hbase]
    rfl
  refine ⟨d, ⟨rfl, rfl, hkind, rfl, hd_base⟩, ?_⟩
  rw [Table.after_append]
  exact h.unique hd

end

/-! ## The marker source -/

/-- The level of the marker file. -/
def fileFrame (table : Table) : Frame :=
  ⟨⟨tree.id, Table.rankIn tree.id table.frames⟩, .global, true⟩

/-- The level of the namespace of the marker class. -/
def homeFrame (table : Table) : Frame :=
  ⟨⟨tree.id, Table.rankIn tree.id (table.frames ++ [(fileFrame table).mark])⟩, home, false⟩

/-- The directive of the marker file, which has no alias. -/
def directive (table : Table) : Using :=
  ⟨⟨tree.id, Table.rankIn tree.id (table.usings.map Using.mark)⟩, some (fileFrame table).mark,
    tree, identifier 6 12 none, none, false⟩

/-- What is recorded before the marker class. -/
def opening (table : Table) : List Event :=
  [.level (fileFrame table).mark, .directive (directive table), .home home,
    .level (homeFrame table).mark]

/-- What is known of the declaration of the marker class. -/
structure IsClass (table : Table) (d : Declaration) : Prop where
  path : d.path = type
  tree : d.tree = Marker.tree
  kind : d.kind = .classType
  base : d.base? = some
    ⟨type, ⟨⟨Marker.tree, baseName⟩, [homeFrame table, fileFrame table], none⟩⟩

set_option maxRecDepth 2000 in
theorem base_text : tree.text baseName = .ok "Attribute" := by
  have hslice : ∀ rest, Text.slice? ("using System;\n\nnamespace PrintableFields\n\x7b\n".toList ++
      ("    [AttributeUsage(AttributeTargets.Field, Inherited = false, AllowMultiple = false)]\n".toList ++
      ("    sealed class PrintableAttribute : Attribute\n    \x7b\n".toList ++ rest))) 168 177 =
        some "Attribute".toList := fun rest => rfl
  apply text_of_slice
  rewrite [tree_content, source_toList]
  exact hslice _

/-- **Declaring the marker source makes these records.** -/
theorem recorded {table last : Table} (h : DeclaresTree tree table last) :
    ∃ d, IsClass table d ∧ last = table.after (opening table ++ [.declaration d]) := by
  obtain ⟨d, hd, hlast⟩ := copy_recorded tree_isCopy h
  exact ⟨d, ⟨hd.path, hd.tree, hd.kind, hd.base⟩, hlast⟩

end PrintGen.Marker
