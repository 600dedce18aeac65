import DocTemplate.Digest.Sha256
import DocTemplate.Template.Rendering

/-! Compiled templates: a text scanned, balanced and folded into a tree. -/

namespace DocTemplate

/-- A template ready for rendering, with the repairs that its nesting needed. The fingerprint and
the length in bytes are those of its text. -/
structure Template where
  root : Node
  tokens : List Token
  diagnostics : List Diagnostic
  fingerprint : String
  length : Nat
deriving Repr

namespace Template

def fingerprintOf (raw : String) : String := "sha256:" ++ Sha256.hexDigest raw

/-- Compiles a text. Every text is a template. -/
def compile (raw : String) : Template :=
  let balanced := Balanced.ofTokens (Token.scan raw)
  { root := Node.ofTokens balanced.tokens
    tokens := balanced.tokens
    diagnostics := balanced.diagnostics
    fingerprint := fingerprintOf raw
    length := raw.utf8ByteSize }

def isWellFormed (t : Template) : Bool := t.diagnostics.isEmpty

/-- The document that the template makes of the data. The repairs come first in its diagnostics. -/
def render (t : Template) (context : Value) : Outcome :=
  let outcome := t.root.render context
  { outcome with diagnostics := t.diagnostics ++ outcome.diagnostics }

end Template
end DocTemplate
