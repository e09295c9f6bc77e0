import PrintGen.Proofs.Replay
import Mathlib.Data.List.Perm.Basic

/-!
# Tables that differ in order only

Two tables are alike if they answer every question that binding asks in the same way. Lists may be
in another order where order does not matter: several types imported under one name are ambiguous
in any order, but directives with an alias are tried one after the other. Tables that are alike
determine the same model, up to the order of its fields.
-/

namespace PrintGen.Symbols

open Syntax

/-- The global using directives. -/
def Table.globals (table : Table) : List Using :=
  table.usings.filter fun u => u.frame = none

/-- The using directives of a level. -/
def Table.locals (table : Table) (mark : Mark) : List Using :=
  table.usings.filter fun u => u.frame = some mark

theorem usingsOf_eq (table : Table) (frame : Frame) : table.usingsOf frame =
    table.locals frame.mark ++ if frame.isFile then table.globals else [] :=
  rfl

theorem Table.after_locals (table : Table) (es : List Event) (mark : Mark) :
    (table.after es).locals mark =
      table.locals mark ++ (es.filterMap Event.using?).filter fun u => u.frame = some mark := by
  rw [locals, after_usings, List.filter_append, locals]

theorem Table.after_globals (table : Table) (es : List Event) : (table.after es).globals =
    table.globals ++ (es.filterMap Event.using?).filter fun u => u.frame = none := by
  rw [globals, after_usings, List.filter_append, globals]

structure Alike (table other : Table) : Prop where
  distinct : table.paths.Nodup ∧ other.paths.Nodup
  kinds : ∀ t, table.kindOf? t = other.kindOf? t
  namespaces : ∀ n, table.hasNamespace n = other.hasNamespace n
  locals : ∀ mark, table.locals mark = other.locals mark
  globals : table.globals.Perm other.globals
  aliases : ∀ name, table.globals.filter (fun u => u.aliasName = some name) =
    other.globals.filter fun u => u.aliasName = some name
  bases : ∀ t, table.base? t = other.base? t
  nodes : ∀ key, table.typeOfNode? key = other.typeOfNode? key
  fields : table.fields.Perm other.fields

/-- The same records keep tables alike. -/
theorem Alike.after {table other : Table} (h : Alike table other) (es : List Event) :
    Alike (table.after es) (other.after es) where
  distinct := ⟨table.after_paths_nodup es h.distinct.1, other.after_paths_nodup es h.distinct.2⟩
  kinds t := kindOf?_after (h.kinds t) es
  namespaces n := by
    rw [Bool.eq_iff_iff, Table.after_hasNamespace, Table.after_hasNamespace, h.namespaces]
  locals mark := by rw [Table.after_locals, Table.after_locals, h.locals]
  globals := by
    rw [Table.after_globals, Table.after_globals]
    exact h.globals.append_right _
  aliases name := by
    rw [Table.after_globals, Table.after_globals, List.filter_append, List.filter_append,
      h.aliases]
  bases t := by rw [Table.after_base?, Table.after_base?, h.bases]
  nodes key := by rw [Table.after_typeOfNode?, Table.after_typeOfNode?, h.nodes]
  fields := by
    rw [Table.after_fields, Table.after_fields]
    exact h.fields.append_right _

/-! ## Lists in another order -/

theorem decision_perm {ts us : List TypePath} (h : ts.Perm us) : decision ts = decision us := by
  match ts, us, h with
  | [], us, h => rw [h.nil_eq]
  | [t], us, h => rw [List.perm_singleton.mp h.symm]
  | t :: u :: rest, us, h =>
    have hlength := h.length_eq
    match us, hlength with
    | t' :: u' :: rest', _ => rfl

/-! ## Lookups -/

theorem types_length_eq {table other : Table} (h : table.paths.Nodup) (h' : other.paths.Nodup)
    (hs : ∀ t, other.hasType t = table.hasType t) : other.types.length = table.types.length := by
  have hperm : other.paths.Perm table.paths := by
    rw [List.perm_ext_iff_of_nodup h' h]
    intro t
    rw [← Table.hasType_iff_mem, ← Table.hasType_iff_mem, hs]
  have hlength := hperm.length_eq
  rwa [Table.paths, Table.paths, List.length_map, List.length_map] at hlength

section

variable {table other : Table} (h : Alike table other)

include h

theorem Alike.hasType : table.hasType = other.hasType := by
  funext t
  rw [Bool.eq_iff_iff, Table.hasType_iff, Table.hasType_iff, h.kinds]

theorem Alike.count : table.types.length = other.types.length :=
  types_length_eq h.distinct.2 h.distinct.1 fun t => by rw [h.hasType]

theorem Alike.memberType? : table.memberType? = other.memberType? := by
  funext container s
  cases container with
  | ofNamespace n => simp only [Table.memberType?, Table.type?, h.hasType]
  | ofType t => simp only [Table.memberType?, Table.type?, h.hasType]

theorem Alike.descend? : table.descend? = other.descend? := by
  funext container s
  cases container with
  | ofNamespace n => simp only [Table.descend?, h.namespaces, h.memberType?]
  | ofType t => simp only [Table.descend?, h.memberType?]

theorem Alike.descendAll? : Symbols.descendAll? table = Symbols.descendAll? other := by
  funext start segments
  rw [Symbols.descendAll?, Symbols.descendAll?, h.descend?]

theorem Alike.enclosed? (counts : TypePath → Bool) (s : Segment) :
    Symbols.enclosed? table counts s = Symbols.enclosed? other counts s := by
  funext t
  induction t with
  | top home own => rw [Symbols.enclosed?, Symbols.enclosed?, h.memberType?]
  | nested outer own ih => rw [Symbols.enclosed?, Symbols.enclosed?, h.memberType?, ih]

theorem Alike.target : table.target = other.target := by
  funext scope u
  simp only [Table.target, usingTarget?, visible?, h.descend?, h.descendAll?]

theorem Alike.importedType? (counts : TypePath → Bool) (s : Segment) (scope : Scope) :
    table.importedType? counts s scope = other.importedType? counts s scope := by
  funext u
  rw [Table.importedType?, Table.importedType?, h.target]
  cases other.target scope u with
  | none => rfl
  | some e =>
    cases e with
    | ofNamespace n => simp only [imported?, h.memberType?]
    | ofType t => simp only [imported?, h.memberType?]

theorem Alike.usingsOf_perm (frame : Frame) :
    (table.usingsOf frame).Perm (other.usingsOf frame) := by
  rw [usingsOf_eq, usingsOf_eq, h.locals]
  split
  · exact h.globals.append_left _
  · exact .refl _

theorem Alike.usingsOf_aliased (frame : Frame) (name : String) :
    (table.usingsOf frame).filter (fun u => u.aliasName = some name) =
      (other.usingsOf frame).filter fun u => u.aliasName = some name := by
  rw [usingsOf_eq, usingsOf_eq, h.locals, List.filter_append, List.filter_append]
  split
  · rw [h.aliases]
  · rfl

theorem Alike.inUsings (counts : TypePath → Bool) (s : Segment) (scope : Scope) (frame : Frame) :
    table.inUsings counts s scope frame = other.inUsings counts s scope frame := by
  have hfirst : ∀ us, table.firstTarget counts scope us = other.firstTarget counts scope us := by
    intro us
    rw [Table.firstTarget, Table.firstTarget, h.target]
  have himported : (table.importedTypes counts s scope
      ((table.usingsOf frame).filter fun u => u.aliasName = none)).Perm
      (other.importedTypes counts s scope
        ((other.usingsOf frame).filter fun u => u.aliasName = none)) := by
    rw [Table.importedTypes, Table.importedTypes, h.importedType?]
    exact eraseDups_perm fun t =>
      (((h.usingsOf_perm frame).filter _).filterMap _).mem_iff
  rw [Table.inUsings, Table.inUsings, h.usingsOf_aliased, hfirst, decision_perm himported]

theorem Alike.typeInScope (counts : TypePath → Bool) (s : Segment) (scope : Scope) :
    table.typeInScope counts s scope = other.typeInScope counts s scope := by
  induction scope with
  | nil => rfl
  | cons frame outer ih =>
    rw [Table.typeInScope, Table.typeInScope, h.memberType?, h.inUsings, ih]

theorem Alike.headInScope (s : Segment) (scope : Scope) :
    table.headInScope s scope = other.headInScope s scope := by
  induction scope with
  | nil => rfl
  | cons frame outer ih =>
    rw [Table.headInScope, Table.headInScope, h.descend?, h.inUsings, ih]

theorem Alike.aliasEntity (name : String) (scope : Scope) :
    table.aliasEntity name scope = other.aliasEntity name scope := by
  induction scope with
  | nil => rfl
  | cons frame outer ih =>
    have hfind : (table.usingsOf frame).find? (fun u => u.aliasName = some name) =
        (other.usingsOf frame).find? fun u => u.aliasName = some name := by
      rw [← List.head?_filter, ← List.head?_filter, h.usingsOf_aliased]
    rw [Table.aliasEntity, Table.aliasEntity, hfind, h.target, ih]

theorem Alike.typeNamed (counts : TypePath → Bool) : table.typeNamed counts =
    other.typeNamed counts := by
  have hhead : ∀ s scope within,
      table.headEntity s scope within = other.headEntity s scope within := by
    intro s scope within
    rw [Table.headEntity, Table.headEntity, h.enclosed?, h.headInScope]
  have hqualifier : ∀ aliasName qualifier scope within,
      table.qualifierEntity aliasName qualifier scope within =
        other.qualifierEntity aliasName qualifier scope within := by
    intro aliasName qualifier scope within
    cases aliasName with
    | some aliasName =>
      rw [Table.qualifierEntity, Table.qualifierEntity, h.descendAll?, h.aliasEntity]
    | none =>
      cases qualifier with
      | nil => rfl
      | cons head rest =>
        rw [Table.qualifierEntity, Table.qualifierEntity, h.descendAll?, hhead]
  have hsimple : ∀ s scope within,
      table.simpleType counts s scope within = other.simpleType counts s scope within := by
    intro s scope within
    rw [Table.simpleType, Table.simpleType, h.enclosed?, h.typeInScope]
  funext aliasName qualifier last scope within
  rw [Table.typeNamed, Table.typeNamed, hsimple, hqualifier, h.memberType?]

/-- **Names are bound alike.** -/
theorem Alike.boundType : table.boundType = other.boundType := by
  funext r
  simp only [Table.boundType, h.typeNamed]

theorem Alike.boundAttribute : table.boundAttribute = other.boundAttribute := by
  funext counts r
  simp only [Table.boundAttribute, h.typeNamed]

end

/-! ## Models -/

theorem lookup_boundBases (table : Table) (t : TypePath) :
    table.boundBases.lookup t = (table.base? t).map fun b => table.boundType b.name :=
  lookup_map_type table.bases _ t

theorem dealClasses_map (fields : List FieldEntry) (bound : Reference → Option TypePath) :
    dealClasses fields ((fields.flatMap FieldEntry.attributes).map bound) =
      fields.map fun f => ⟨f, f.attributes.map bound⟩ := by
  induction fields with
  | nil => rfl
  | cons f rest ih =>
    have hlength : f.attributes.length = (f.attributes.map bound).length :=
      (List.length_map bound).symm
    rw [List.flatMap_cons, List.map_append, dealClasses, hlength, List.take_left,
      List.drop_left, ih, Nat.sub_self, List.replicate_zero, List.append_nil, List.map_cons]

theorem bound_fields (table : Table) : table.bound.fields = table.fields.map fun f =>
    ⟨f, f.attributes.map
      (table.boundAttribute (isAttributeClass table table.boundBases))⟩ :=
  dealClasses_map _ _

/-- Two models say the same of every type, and have the same fields with attributes of the same
classes, in some order. -/
structure SameModel (m other : Model) : Prop where
  kinds : ∀ t, m.table.kindOf? t = other.table.kindOf? t
  bases : ∀ t, m.baseOf? t = other.baseOf? t
  externals : ∀ t, m.hasExternalBase t = other.hasExternalBase t
  attributeClasses : ∀ t, m.isAttributeClass t = other.isAttributeClass t
  fields : m.fields.Perm other.fields

/-- **Tables that are alike determine the same model.** -/
theorem Alike.bound {table other : Table} (h : Alike table other) :
    SameModel table.bound other.bound := by
  have hlookup : ∀ t, table.boundBases.lookup t = other.boundBases.lookup t := by
    intro t
    rw [lookup_boundBases, lookup_boundBases, h.bases, h.boundType]
  have hlineage : lineageIn table table.boundBases = lineageIn other other.boundBases := by
    have hkind : ∀ (table : Table) t, lineageIn table table.boundBases t =
        (table.kindOf? t).map fun kind => ⟨kind, (table.boundBases.lookup t).join,
          table.boundBases.lookup t = some none⟩ := by
      intro table t
      rw [lineageIn, Table.kindOf?, Option.map_map]
      rfl
    funext t
    rw [hkind, hkind, h.kinds, hlookup]
  have hclass : isAttributeClass table table.boundBases =
      isAttributeClass other other.boundBases := by
    funext t
    rw [isAttributeClass, isAttributeClass, hlineage, h.count]
  refine ⟨h.kinds, ?_, ?_, ?_, ?_⟩
  · intro t
    exact congrArg Option.join (hlookup t)
  · intro t
    change decide (table.boundBases.lookup t = some none) = _
    rw [hlookup]
    rfl
  · exact fun t => congrFun hclass t
  · rw [bound_fields, bound_fields, hclass, h.boundAttribute]
    exact h.fields.map _

end PrintGen.Symbols
