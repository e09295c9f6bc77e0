/-!
# Node kinds and labels

The grammar symbols that the analysis looks at, sorted by what they mean to it: type declarations
by their keyword, names by their shape, wrappers whose children belong to the enclosing scope. All
other symbols keep their grammar name.
-/

namespace PrintGen.Syntax

inductive TypeKind where
  | classType
  | structType
  | recordType
  | recordStructType
  | interfaceType
  | enumType
deriving DecidableEq, Repr

def TypeKind.keyword : TypeKind → String
  | .classType => "class"
  | .structType => "struct"
  | .recordType => "record"
  | .recordStructType => "record struct"
  | .interfaceType => "interface"
  | .enumType => "enum"

def TypeKind.all : List TypeKind :=
  [.classType, .structType, .recordType, .recordStructType, .interfaceType, .enumType]

/-- The shape of a node that writes a name. -/
inductive NameShape where
  | identifier
  | qualified
  | aliasQualified
  | generic
deriving DecidableEq, Repr

/-- A node whose children are declarations of the scope around it. -/
inductive Wrapper where
  | preprocIf
  | preprocElif
  | preprocElse
  | error
deriving DecidableEq, Repr

inductive Kind where
  | typeDeclaration (type : TypeKind)
  | name (shape : NameShape)
  | wrapper (wrapper : Wrapper)
  | usingDirective
  | namespaceDeclaration
  | fileScopedNamespace
  | fieldDeclaration
  | propertyDeclaration
  | eventFieldDeclaration
  | methodDeclaration
  | declarationList
  | enumMemberList
  | typeParameterList
  | typeParameter
  | typeArgumentList
  | parameterList
  | baseList
  | primaryConstructorBase
  | typeWrapper
  | nameEquals
  | attributeList
  | attributeUse
  | variableDeclaration
  | variableDeclarator
  | accessorList
  | accessorDeclaration
  | block
  | arrowClause
  | modifier
  | comment
  | structToken
  | staticToken
  | globalToken
  | equalsToken
  | other (symbol : String)
deriving DecidableEq, Repr

/-- The grammar names of the kinds that have one of their own. -/
def Kind.symbols : List (String × Kind) :=
  [("class_declaration", .typeDeclaration .classType),
   ("struct_declaration", .typeDeclaration .structType),
   ("record_declaration", .typeDeclaration .recordType),
   ("record_struct_declaration", .typeDeclaration .recordStructType),
   ("interface_declaration", .typeDeclaration .interfaceType),
   ("enum_declaration", .typeDeclaration .enumType),
   ("identifier", .name .identifier),
   ("qualified_name", .name .qualified),
   ("alias_qualified_name", .name .aliasQualified),
   ("generic_name", .name .generic),
   ("preproc_if", .wrapper .preprocIf),
   ("preproc_elif", .wrapper .preprocElif),
   ("preproc_else", .wrapper .preprocElse),
   ("ERROR", .wrapper .error),
   ("using_directive", .usingDirective),
   ("namespace_declaration", .namespaceDeclaration),
   ("file_scoped_namespace_declaration", .fileScopedNamespace),
   ("field_declaration", .fieldDeclaration),
   ("property_declaration", .propertyDeclaration),
   ("event_field_declaration", .eventFieldDeclaration),
   ("method_declaration", .methodDeclaration),
   ("declaration_list", .declarationList),
   ("enum_member_declaration_list", .enumMemberList),
   ("type_parameter_list", .typeParameterList),
   ("type_parameter", .typeParameter),
   ("type_argument_list", .typeArgumentList),
   ("parameter_list", .parameterList),
   ("base_list", .baseList),
   ("primary_constructor_base_type", .primaryConstructorBase),
   ("type", .typeWrapper),
   ("name_equals", .nameEquals),
   ("attribute_list", .attributeList),
   ("attribute", .attributeUse),
   ("variable_declaration", .variableDeclaration),
   ("variable_declarator", .variableDeclarator),
   ("accessor_list", .accessorList),
   ("accessor_declaration", .accessorDeclaration),
   ("block", .block),
   ("arrow_expression_clause", .arrowClause),
   ("modifier", .modifier),
   ("comment", .comment),
   ("struct", .structToken),
   ("static", .staticToken),
   ("global", .globalToken),
   ("=", .equalsToken)]

def Kind.ofSymbol (symbol : String) : Kind :=
  match Kind.symbols.find? fun entry => entry.1 = symbol with
  | some (_, kind) => kind
  | none => .other symbol

def Kind.symbol : Kind → String
  | .other symbol => symbol
  | kind =>
    match Kind.symbols.find? fun entry => entry.2 = kind with
    | some (symbol, _) => symbol
    | none => ""

def Kind.declaredType? : Kind → Option TypeKind
  | .typeDeclaration type => some type
  | _ => none

def Kind.isName : Kind → Bool
  | .name _ => true
  | _ => false

def Kind.isTypeDeclaration : Kind → Bool
  | .typeDeclaration _ => true
  | _ => false

/-- Whether a node of this kind holds the members of a declaration. -/
def Kind.isBody : Kind → Bool
  | .declarationList => true
  | .enumMemberList => true
  | _ => false

/-- The label under which a node is a child of its parent. -/
inductive Label where
  | name
  | qualifier
  | aliasName
  | parameters
  | returns
  | type
  | other (text : String)
deriving DecidableEq, Repr

def Label.ofText : String → Label
  | "name" => .name
  | "qualifier" => .qualifier
  | "alias" => .aliasName
  | "parameters" => .parameters
  | "returns" => .returns
  | "type" => .type
  | text => .other text

end PrintGen.Syntax
