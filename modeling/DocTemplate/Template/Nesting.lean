import DocTemplate.Template.Diagnostic
import DocTemplate.Template.Export

/-! Balancing a token stream: every close gets the name of the section it closes, a close without a
section and an open beyond the depth limit become text, and sections left open are closed at the
end. Each of these repairs is reported. -/

namespace DocTemplate

/-- The deepest nesting of sections that is kept as structure. -/
def maxSectionDepth : Nat := 256

/-- An open section and the byte where its opening directive starts. -/
structure Nesting.Opened where
  name : String
  position : Nat
deriving DecidableEq, Repr

/-- The state between two tokens: the open sections, innermost first; the number of opens beyond
the limit that wait for their close; and the largest end of a token so far. -/
structure Nesting where
  opened : List Nesting.Opened
  demoted : Nat
  stop : Nat
deriving DecidableEq, Repr

/-- A token of the balanced stream, with the diagnostic of its repair if there was one. -/
structure Repair where
  token : Token
  diagnostic : Option Diagnostic
deriving DecidableEq, Repr

/-- A balanced token stream and the repairs that made it so. -/
structure Balanced where
  tokens : List Token
  diagnostics : List Diagnostic
deriving DecidableEq, Repr

namespace Nesting

def empty : Nesting := ⟨[], 0, 0⟩

def depth (n : Nesting) : Nat := n.opened.length

/-- The token that `t` becomes, and the nesting after it. -/
def push (n : Nesting) (t : Token) : Repair × Nesting :=
  let n := { n with stop := max n.stop t.stop }
  match t.kind with
  | .opening name =>
    if maxSectionDepth ≤ n.depth then
      let tag := Token.openTag name
      (⟨{ t with kind := .literal tag }, some (.unbalancedTag tag t.start)⟩,
        { n with demoted := n.demoted + 1 })
    else (⟨t, none⟩, { n with opened := ⟨name, t.start⟩ :: n.opened })
  | .closing _ =>
    match n.demoted, n.opened with
    | d + 1, _ => (⟨{ t with kind := .literal Token.closeTag }, none⟩, { n with demoted := d })
    | 0, section_ :: rest =>
      (⟨{ t with kind := .closing (some section_.name) }, none⟩, { n with opened := rest })
    | 0, [] =>
      (⟨{ t with kind := .literal Token.closeTag }, some (.unbalancedTag Token.closeTag t.start)⟩,
        n)
  | .literal _ | .var _ => (⟨t, none⟩, n)

/-- The tokens that a list becomes, and the nesting after it. -/
def pushAll (n : Nesting) : List Token → List Repair × Nesting
  | [] => ([], n)
  | t :: ts =>
    let (repair, n) := n.push t
    let (repairs, n) := n.pushAll ts
    (repair :: repairs, n)

/-- The close of length zero that ends a section left open. -/
def Opened.close (stop : Nat) (o : Opened) : Repair :=
  ⟨⟨.closing (some o.name), stop, 0⟩, some (.unbalancedTag o.name o.position)⟩

/-- The closes of all open sections, innermost first, at the end of the text. -/
def closeAll (n : Nesting) : List Repair := n.opened.map (Opened.close n.stop)

end Nesting

namespace Balanced

def ofRepairs (repairs : List Repair) : Balanced :=
  ⟨repairs.map Repair.token, repairs.filterMap Repair.diagnostic⟩

/-- Balances a token stream of any shape. -/
def ofTokens (tokens : List Token) : Balanced :=
  let (repairs, n) := Nesting.empty.pushAll tokens
  ofRepairs (repairs ++ n.closeAll)

/-- The number of opens in the stream. -/
def openCount (b : Balanced) : Nat :=
  b.tokens.countP fun t => t.kind matches .opening _

/-- The number of closes in the stream. -/
def closeCount (b : Balanced) : Nat :=
  b.tokens.countP fun t => t.kind matches .closing _

end Balanced
end DocTemplate
