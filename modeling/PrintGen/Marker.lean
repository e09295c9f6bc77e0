import PrintGen.Syntax.Tree

/-!
# The marker attribute

The attribute class that marks fields for printing. Its source takes part in every generation pass,
so that field attributes are bound to it like to any other class, and it is generated as well, so
that the project contains its definition.
-/

namespace PrintGen.Marker

open Syntax

/-- The metadata name of the marker class, which is also the key of its fragment. -/
def metadataName : String :=
  "PrintableFields.PrintableAttribute"

/-- The path that messages give for the marker source. -/
def path : String :=
  metadataName ++ ".cs"

def source : String :=
  "using System;\n\nnamespace PrintableFields\n\x7b\n" ++
  "    [AttributeUsage(AttributeTargets.Field, Inherited = false, AllowMultiple = false)]\n" ++
  "    sealed class PrintableAttribute : Attribute\n    \x7b\n" ++
  "        public PrintableAttribute()\n        \x7b\n        \x7d\n    \x7d\n\x7d\n"

/-- A node that the grammar names. -/
def node (kind : Kind) (start stop : Nat) (label : Option Label) (children : List Node) : Node :=
  .mk kind true false start stop label children

def identifier (start stop : Nat) (label : Option Label) : Node :=
  node (.name .identifier) start stop label []

def token (kind : Kind) (start stop : Nat) : Node :=
  .mk kind false false start stop none []

/-- The syntax tree of the marker source. -/
def root : Node :=
  node (.other "compilation_unit") 0 248 none [
    node .usingDirective 0 13 none [
      token (.other "using") 0 5,
      identifier 6 12 none,
      token (.other ";") 12 13],
    node .namespaceDeclaration 15 247 none [
      token (.other "namespace") 15 24,
      identifier 25 40 (some .name),
      node .declarationList 41 247 (some (.other "body")) [
        token (.other "\x7b") 41 42,
        node (.typeDeclaration .classType) 47 245 none [
          node .attributeList 47 129 none [
            token (.other "[") 47 48,
            node .attributeUse 48 128 none [
              identifier 48 62 (some .name),
              node (.other "attribute_argument_list") 62 128 none [
                token (.other "(") 62 63,
                node (.other "attribute_argument") 63 85 none [
                  node (.other "member_access_expression") 63 85 none [
                    identifier 63 79 (some (.other "expression")),
                    token (.other ".") 79 80,
                    identifier 80 85 (some .name)]],
                token (.other ",") 85 86,
                node (.other "attribute_argument") 87 104 none [
                  identifier 87 96 (some .name),
                  token .equalsToken 97 98,
                  node (.other "boolean_literal") 99 104 none [
                    token (.other "false") 99 104]],
                token (.other ",") 104 105,
                node (.other "attribute_argument") 106 127 none [
                  identifier 106 119 (some .name),
                  token .equalsToken 120 121,
                  node (.other "boolean_literal") 122 127 none [
                    token (.other "false") 122 127]],
                token (.other ")") 127 128]],
            token (.other "]") 128 129],
          node .modifier 134 140 none [
            token (.other "sealed") 134 140],
          token (.other "class") 141 146,
          identifier 147 165 (some .name),
          node .baseList 166 177 none [
            token (.other ":") 166 167,
            identifier 168 177 none],
          node .declarationList 182 245 (some (.other "body")) [
            token (.other "\x7b") 182 183,
            node (.other "constructor_declaration") 192 239 none [
              node .modifier 192 198 none [
                token (.other "public") 192 198],
              identifier 199 217 (some .name),
              node .parameterList 217 219 (some (.other "parameters")) [
                token (.other "(") 217 218,
                token (.other ")") 218 219],
              node .block 228 239 (some (.other "body")) [
                token (.other "\x7b") 228 229,
                token (.other "\x7d") 238 239]],
            token (.other "\x7d") 244 245]],
        token (.other "\x7d") 246 247]]]

def tree : SourceTree :=
  ⟨.marker, path, source.toList, false, root⟩

end PrintGen.Marker
