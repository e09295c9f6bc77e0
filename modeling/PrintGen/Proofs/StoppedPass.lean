import PrintGen.Proofs.Containers
import PrintGen.Proofs.Resolution

/-!
# Passes that stop

A fault ends the declaration pass and leaves the table as far as it got. What is in such a table is
in order all the same: symbols are only added inside containers that exist, one at a time. So every
table that a compilation works with keeps its symbols in their containers, whether the pass returned
or not.
-/

namespace PrintGen

section

variable {ε σ α β : Type} {Q Q' : σ → Prop} {P : α → σ → Prop} {R : β → σ → Prop}

/-- What is known at the end of a run: something of the state in any case, and more if there is a
value. -/
def Ends (Q : σ → Prop) (P : α → σ → Prop) : EStateM.Result ε σ α → Prop
  | .ok a s => Q s ∧ P a s
  | .error _ s => Q s

namespace Ends

theorem pure {a : α} {s : σ} (hs : Q s) (ha : P a s) :
    Ends Q P ((Pure.pure a : EStateM ε σ α) s) :=
  ⟨hs, ha⟩

theorem bind {x : EStateM ε σ α} {f : α → EStateM ε σ β} {s : σ} (hx : Ends Q P (x s))
    (hf : ∀ a t, Q t → P a t → Ends Q R (f a t)) : Ends Q R ((x >>= f) s) := by
  simp only [Bind.bind, EStateM.bind]
  cases hr : x s with
  | ok a t =>
    rw [hr] at hx
    exact hf a t hx.1 hx.2
  | error e t =>
    rw [hr] at hx
    exact hx

theorem mono {P' : α → σ → Prop} {r : EStateM.Result ε σ α} (h : Ends Q P r)
    (hq : ∀ s, Q s → Q' s) (hp : ∀ a s, Q s → P a s → P' a s) : Ends Q' P' r := by
  cases r with
  | ok a s => exact ⟨hq s h.1, hp a s h.1 h.2⟩
  | error e s => exact hq s h

end Ends

end

namespace Symbols

open Syntax

/-! ## Steps that add no symbol -/

/-- However a step ends, the namespaces and the types are those from before. -/
def Quiet {α : Type} (x : Declare α) : Prop :=
  ∀ table, Ends (fun last => last.types = table.types ∧ last.namespaces = table.namespaces)
    (fun _ _ => True) (x table)

namespace Quiet

variable {α β : Type}

theorem pure (a : α) : Quiet (Pure.pure a : Declare α) :=
  fun _ => .pure ⟨rfl, rfl⟩ trivial

theorem ofExcept (v : Except Fault α) : Quiet (Declare.ofExcept v) := by
  intro table
  cases v with
  | ok a => exact ⟨⟨rfl, rfl⟩, trivial⟩
  | error e => exact ⟨rfl, rfl⟩

theorem of_modify {f : Table → Table} (ht : ∀ table, (f table).types = table.types)
    (hn : ∀ table, (f table).namespaces = table.namespaces) : Quiet (modify f : Declare PUnit) :=
  fun table => ⟨⟨ht table, hn table⟩, trivial⟩

theorem bind {x : Declare α} {f : α → Declare β} (hx : Quiet x) (hf : ∀ a, Quiet (f a)) :
    Quiet (x >>= f) := by
  intro table
  refine Ends.bind (hx table) fun a mid hmid _ => (hf a mid).mono ?_ fun _ _ _ _ => trivial
  exact fun last hlast => ⟨hlast.1.trans hmid.1, hlast.2.trans hmid.2⟩

theorem forM {f : α → Declare PUnit} (hf : ∀ a, Quiet (f a)) (as : List α) :
    Quiet (as.forM f) := by
  induction as with
  | nil => exact pure _
  | cons a rest ih =>
    rw [List.forM]
    exact bind (hf a) fun _ => ih

end Quiet

section

variable (tree : SourceTree) (node : Node) (scope : Scope) (owner : TypePath)

theorem addField_quiet (field : FieldEntry) : Quiet (addField field) :=
  .of_modify (fun _ => rfl) fun _ => rfl

theorem kindOf_quiet : Quiet (kindOf owner) :=
  fun _ => ⟨⟨rfl, rfl⟩, trivial⟩

theorem declareUsing_quiet : Quiet (declareUsing tree node scope) := by
  rw [declareUsing]
  simp only
  split
  · exact .pure _
  · refine .bind (.ofExcept _) fun found => ?_
    obtain ⟨aliasName, names⟩ := found
    cases names.getLast? with
    | none => exact .pure _
    | some target => exact .of_modify (fun _ => rfl) fun _ => rfl

theorem declareFields_quiet : Quiet (declareFields tree node scope owner) := by
  refine .bind (.ofExcept _) fun modifiers => .forM (fun declarator => ?_) _
  exact .bind (.ofExcept _) fun name => addField_quiet _

theorem declareBackingField_quiet : Quiet (declareBackingField tree node owner) := by
  refine .bind (.ofExcept _) fun modifiers => .bind (kindOf_quiet owner) fun kind => ?_
  split
  · exact .bind (.ofExcept _) fun name => addField_quiet _
  · exact .pure _

theorem declareEventFields_quiet : Quiet (declareEventFields tree node owner) := by
  refine .bind (.ofExcept _) fun modifiers => .bind (kindOf_quiet owner) fun kind => ?_
  split
  · refine .forM (fun declarator => ?_) _
    exact .bind (.ofExcept _) fun name => addField_quiet _
  · exact .pure _

end

/-! ## Steps that add symbols -/

/-- All symbols of a table are in their containers, and none from before is lost. -/
structure Advances (table last : Table) : Prop where
  stored : Stored last
  grows : Grows table last

theorem Advances.trans {table mid last : Table} (h : Advances table mid) (hl : Advances mid last) :
    Advances table last :=
  ⟨hl.stored, h.grows.trans hl.grows⟩

theorem Quiet.advances {α : Type} {x : Declare α} {table : Table} (h : Quiet x) (ht : Stored table) :
    Ends (Advances table) (fun _ _ => True) (x table) :=
  (h table).mono (fun _ hl => ⟨ht.of_eq hl.1 hl.2, .of_eq hl.1.symm hl.2.symm⟩)
    fun _ _ _ _ => trivial

section

variable {tree : SourceTree} {scope : Scope} {within : Option TypePath} {table : Table}

theorem enterNamespace_advances (node : Node) (ht : Stored table)
    (hs : table.hasNamespace scope.home = true) :
    Ends (Advances table) (fun inner last => last.hasNamespace inner.home = true)
      (enterNamespace tree node scope table) := by
  cases hn : segmentsOf tree node with
  | ok segments =>
    obtain ⟨hinner, hhome⟩ := ht.withScope tree segments hs
    rw [enterNamespace_ok.mpr ⟨segments, hn, rfl⟩]
    exact ⟨⟨hinner, Grows.withScope table tree scope segments⟩, hhome⟩
  | error fault =>
    have hstop : enterNamespace tree node scope table = .error fault table := by
      rw [segmentsOf] at hn
      rw [enterNamespace]
      cases hname : namespaceName? node with
      | none =>
        rw [hname] at hn
        cases hn
      | some nameNode =>
        simp only [hname] at hn ⊢
        cases hread : tree.nameOf nameNode with
        | ok name =>
          rw [hread] at hn
          cases hn
        | error fault' =>
          rw [hread] at hn
          cases hn
          rfl
    rw [hstop]
    exact ⟨ht, .refl table⟩

/-- A type declaration that cannot be read changes nothing. -/
theorem declareType_stops {node : Node} {kind : TypeKind} {fault : Fault}
    (h : typeOf tree node scope within = .error fault) :
    declareType tree node kind scope within table = .error fault table := by
  rw [typeOf] at h
  rw [declareType]
  cases hname : tree.declaredName node with
  | error e =>
    rw [hname] at h
    cases h
    rfl
  | ok name =>
    cases hparameters : tree.typeParameters node with
    | error e =>
      rw [hname, hparameters] at h
      cases h
      rfl
    | ok parameters =>
      rw [hname, hparameters] at h
      cases h

theorem declareType_advances (node : Node) (type : TypeKind) (ht : Stored table)
    (hs : table.hasNamespace scope.home = true)
    (hw : ∀ t, within = some t → table.hasType t = true) :
    Ends (Advances table) (fun t last => last.hasType t = true)
      (declareType tree node (node.typeKind?.getD type) scope within table) := by
  have hc : table.has (Entity.around scope.home within) = true := by
    cases within with
    | none => exact hs
    | some outer => exact hw outer rfl
  cases hread : typeOf tree node scope within with
  | ok found =>
    obtain ⟨t, parameters⟩ := found
    obtain ⟨name, -, -, rfl⟩ := typeOf_ok hread
    rw [declareType_ok.mpr ⟨parameters, hread, rfl⟩]
    refine ⟨⟨?_, Grows.withType _ _ _ _ _ _ _⟩, Table.withType_hasType _ _ _ _ _ _ _⟩
    exact ht.withType _ _ _ _ (by rwa [Entity.member_container]) (by rw [Entity.member_own])
  | error fault =>
    rw [declareType_stops hread]
    exact ⟨ht, .refl table⟩

end

mutual

/-- Declaring a node inside what exists keeps every symbol in its container, also if it stops. -/
theorem declareMember_advances (tree : SourceTree) : ∀ (node : Node) (scope : Scope)
    (within : Option TypePath) (table : Table), Stored table →
    table.hasNamespace scope.home = true → (∀ t, within = some t → table.hasType t = true) →
    Ends (Advances table) (fun inner last => last.hasNamespace inner.home = true)
      (declareMember tree scope within node table)
  | .mk kind named missing start stop label children => by
    intro scope within table ht hs hw
    -- A step that adds no symbol, and after which the scope is the same.
    have hquiet : ∀ {x : Declare PUnit}, Quiet x →
        Ends (Advances table) (fun inner last => last.hasNamespace (Scope.home inner) = true)
          ((do x; return scope) table) := fun hx =>
      .bind (hx.advances ht) fun _ last hl _ => .pure hl (hl.grows.namespaces _ hs)
    have hstorage : ∀ {declare : TypePath → Declare PUnit}, (∀ t, Quiet (declare t)) →
        Quiet (within.forM declare) := by
      intro declare h
      cases within with
      | none => exact .pure _
      | some t => exact h t
    cases kind with
    | usingDirective => exact hquiet (declareUsing_quiet _ _ _)
    | fieldDeclaration => exact hquiet (hstorage fun t => declareFields_quiet _ _ _ t)
    | propertyDeclaration => exact hquiet (hstorage fun t => declareBackingField_quiet _ _ t)
    | eventFieldDeclaration => exact hquiet (hstorage fun t => declareEventFields_quiet _ _ t)
    | namespaceDeclaration =>
      rw [declareMember]
      refine .bind (enterNamespace_advances _ ht hs) fun inner mid hmid hhome => ?_
      have hbody := declareBody_advances tree children inner none mid hmid.stored hhome (by simp)
      refine .bind (hbody.mono (fun _ hl => hmid.trans hl) fun _ _ _ h => h) fun _ last hl _ => ?_
      exact .pure hl (hl.grows.namespaces _ hs)
    | fileScopedNamespace =>
      rw [declareMember]
      refine .bind (enterNamespace_advances _ ht hs) fun inner mid hmid hhome => ?_
      have hbody := declareMembers_advances tree children inner none mid hmid.stored hhome (by simp)
      have hinner : Ends (Advances table) (fun _ last => last.hasNamespace inner.home = true)
          (declareMembers tree inner none children mid) :=
        hbody.mono (fun _ hl => hmid.trans hl) fun _ _ hl _ => hl.grows.namespaces _ hhome
      exact .bind hinner fun _ last hl hlast => .pure hl hlast
    | typeDeclaration type =>
      rw [declareMember]
      refine .bind (declareType_advances _ type ht hs hw) fun t mid hmid htype => ?_
      have hkind : Ends (Advances table) (fun _ last => last = mid) (kindOf t mid) := ⟨hmid, rfl⟩
      refine .bind hkind fun declared last _ hsame => ?_
      obtain rfl := hsame
      split
      · have hbody := declareBody_advances tree children scope (some t) last hmid.stored
          (hmid.grows.namespaces _ hs) fun u hu => by cases hu; exact htype
        refine .bind (hbody.mono (fun _ hl => hmid.trans hl) fun _ _ _ h => h) fun _ last hl _ => ?_
        exact .pure hl (hl.grows.namespaces _ hs)
      · exact .pure hmid (hmid.grows.namespaces _ hs)
    | wrapper w =>
      rw [declareMember]
      refine .bind (declareMembers_advances tree children scope within table ht hs hw)
        fun _ last hl _ => ?_
      exact .pure hl (hl.grows.namespaces _ hs)
    | _ =>
      simp only [declareMember]
      exact .pure ⟨ht, .refl table⟩ hs

/-- The same for sibling nodes. -/
theorem declareMembers_advances (tree : SourceTree) : ∀ (nodes : List Node) (scope : Scope)
    (within : Option TypePath) (table : Table), Stored table →
    table.hasNamespace scope.home = true → (∀ t, within = some t → table.hasType t = true) →
    Ends (Advances table) (fun _ _ => True) (declareMembers tree scope within nodes table)
  | [] => by
    intro scope within table ht hs hw
    rw [declareMembers]
    exact .pure ⟨ht, .refl table⟩ trivial
  | node :: rest => by
    intro scope within table ht hs hw
    rw [declareMembers]
    refine .bind (declareMember_advances tree node scope within table ht hs hw)
      fun inner mid hmid hhome => ?_
    have hrest := declareMembers_advances tree rest inner within mid hmid.stored hhome
      fun t he => hmid.grows.hasType (hw t he)
    exact hrest.mono (fun _ hl => hmid.trans hl) fun _ _ _ h => h

theorem declareBody_advances (tree : SourceTree) : ∀ (children : List Node) (scope : Scope)
    (within : Option TypePath) (table : Table), Stored table →
    table.hasNamespace scope.home = true → (∀ t, within = some t → table.hasType t = true) →
    Ends (Advances table) (fun _ _ => True) (declareBody tree scope within children table)
  | [] => by
    intro scope within table ht hs hw
    rw [declareBody]
    exact .pure ⟨ht, .refl table⟩ trivial
  | .mk kind named missing start stop label children :: rest => by
    intro scope within table ht hs hw
    rw [declareBody]
    split
    · exact declareMembers_advances tree children scope within table ht hs hw
    · exact declareBody_advances tree rest scope within table ht hs hw

end

theorem declareTrees_advances (trees : List SourceTree) {table : Table} (ht : Stored table) :
    Ends (Advances table) (fun _ _ => True) (declareTrees trees table) := by
  induction trees generalizing table with
  | nil => exact .pure ⟨ht, .refl table⟩ trivial
  | cons tree rest ih =>
    rw [declareTrees, List.forM]
    refine .bind (P := fun _ _ => True) ?_ fun _ mid hmid _ =>
      (ih hmid.stored).mono (fun _ hl => hmid.trans hl) fun _ _ _ h => h
    have hframe := ht.withFrame tree .global true
    have hmembers := declareMembers_advances tree tree.root.children
      [(table.withFrame tree .global true).1] none _ hframe rfl (by simp)
    exact hmembers.mono (fun _ hl => ⟨hl.stored, (Grows.withFrame _ _ _ _).trans hl.grows⟩)
      fun _ _ _ h => h

/-- **Every table of a compilation keeps its symbols in their containers**, also one that a fault
left unfinished. -/
theorem stored_declaredTable (trees : List SourceTree) : Stored (declaredTable trees) := by
  have hend := declareTrees_advances trees Stored.empty
  rw [declaredTable]
  cases hr : declareTrees trees .empty with
  | ok u table =>
    rw [hr] at hend
    exact hend.1.stored
  | error fault table =>
    rw [hr] at hend
    exact hend.stored

end Symbols

end PrintGen
