import DocTemplate.Template.Token

/-! Tokens written back as text: in the template's own directives, and as Mustache tags. -/

namespace DocTemplate.Token

def closeTag : String := "\x7b#end\x7d"

/-- The directive that opens the section `name`. -/
def openTag (name : String) : String := "\x7b#" ++ name ++ "\x7d"

/-- The directive that stands for the value at `path`. -/
def varTag (path : String) : String := "\x7b" ++ path ++ "\x7d"

/-- The text of a token in the template's own syntax. -/
def Kind.directiveText : Kind → String
  | .literal text => text
  | .var path => varTag path
  | .opening name => openTag name
  | .closing _ => closeTag

/-- The text of a token as a Mustache tag. A close without a name has no such tag and keeps its
directive. -/
def Kind.mustacheText : Kind → String
  | .literal text => text
  | .var path => varTag (varTag path)
  | .opening name => varTag (openTag name)
  | .closing (some name) => varTag (varTag ("/" ++ name))
  | .closing none => closeTag

/-- The tokens as a template in the template's own syntax. -/
def toDirectives (tokens : List Token) : String :=
  String.join (tokens.map fun t => t.kind.directiveText)

def toMustache (tokens : List Token) : String :=
  String.join (tokens.map fun t => t.kind.mustacheText)

end DocTemplate.Token
