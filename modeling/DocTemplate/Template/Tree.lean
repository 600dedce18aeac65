import DocTemplate.Template.Path
import DocTemplate.Template.Token

/-! The tree of a template: texts, variables and sections, folded from a token stream. -/

namespace DocTemplate

/-- A node of the tree. A variable or section carries the byte where its directive starts. -/
inductive Node where
  | text (s : String)
  | var (path : Path) (position : Nat)
  | sect (name : String) (path : Path) (position : Nat) (children : List Node)
deriving Repr

namespace Node

/-- The section around a whole template, which has no name. -/
def root (children : List Node) : Node := .sect "" ⟨[], false⟩ 0 children

/-- The section `name`, whose path is the name read as a path. -/
def ofName (name : String) (position : Nat) (children : List Node) : Node :=
  .sect name (Path.parse name) position children

/-- The children of a section; other nodes have none. -/
def children : Node → List Node
  | .sect _ _ _ children => children
  | .text _ | .var _ _ => []

mutual

/-- The number of nodes in a tree. -/
def size : Node → Nat
  | .text _ | .var _ _ => 1
  | .sect _ _ _ children => sizes children + 1

/-- The number of nodes in a list of trees. -/
def sizes : List Node → Nat
  | [] => 0
  | n :: ns => n.size + sizes ns

end

theorem sizes_append (as bs : List Node) : sizes (as ++ bs) = sizes as + sizes bs := by
  induction as with
  | nil => simp [sizes]
  | cons n ns ih => simp [sizes, ih, Nat.add_assoc]

theorem size_eq (n : Node) : n.size = sizes n.children + 1 := by
  cases n <;> simp [size, children, sizes]

/-- The nodes of the pending trees, each node before its children. -/
def walkAll : List Node → List Node
  | [] => []
  | n :: pending => n :: walkAll (n.children ++ pending)
termination_by pending => sizes pending
decreasing_by simp [sizes, sizes_append, size_eq]

/-- The node and all its descendants in document order. -/
def walk (n : Node) : List Node := walkAll [n]

/-! ### Folding a token stream -/

/-- A section whose close is still to come, with its children so far, last first. -/
structure Frame where
  name : String
  position : Nat
  children : List Node
deriving Repr

/-- The state of the fold: the open sections, innermost first, and the nodes outside all of them,
last first. -/
structure Builder where
  frames : List Frame
  top : List Node
deriving Repr

/-- Adds text after the nodes so far, which stand last first. Text joins text. -/
def addText (s : String) : List Node → List Node
  | .text before :: nodes => .text (before ++ s) :: nodes
  | nodes => .text s :: nodes

namespace Builder

def empty : Builder := ⟨[], []⟩

/-- Changes the nodes of the innermost open section. -/
def modify (b : Builder) (f : List Node → List Node) : Builder :=
  match b.frames with
  | [] => { b with top := f b.top }
  | frame :: frames => { b with frames := { frame with children := f frame.children } :: frames }

/-- Closes the innermost open section. A close outside all sections changes nothing. -/
def close (b : Builder) : Builder :=
  match b.frames with
  | [] => b
  | frame :: frames =>
    modify ⟨frames, b.top⟩ (ofName frame.name frame.position frame.children.reverse :: ·)

def push (b : Builder) (t : Token) : Builder :=
  match t.kind with
  | .literal s => if s.isEmpty then b else b.modify (addText s)
  | .var path => b.modify (.var (Path.parse path) t.start :: ·)
  | .opening name => { b with frames := ⟨name, t.start, []⟩ :: b.frames }
  | .closing _ => b.close

/-- Closes sections from the innermost outwards, as many as the list has elements. -/
def closeAll (b : Builder) : List Frame → Builder
  | [] => b
  | _ :: frames => b.close.closeAll frames

/-- The finished tree; sections that are still open end here. -/
def finish (b : Builder) : Node := root (b.closeAll b.frames).top.reverse

end Builder

def ofTokens (tokens : List Token) : Node := (tokens.foldl Builder.push .empty).finish

end Node
end DocTemplate
