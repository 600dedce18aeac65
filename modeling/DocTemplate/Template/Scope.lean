import DocTemplate.Data.Resolve
import DocTemplate.Template.Path

/-! The values that a directive can see: those of the sections around it, innermost first, and those
of the document.

Inside a loop the words `index` and `item` name the number of the iteration and the current element.
The element's fields are also found under the last part of the section's own name. -/

namespace DocTemplate

/-- What a section binds besides its value. An iteration counts from zero. -/
inductive Scope.Binding where
  | block
  | iteration (sect : String) (index : Nat)
deriving DecidableEq, Repr

/-- A value in scope and how it came there. -/
structure Scope.Frame where
  value : Value
  binding : Scope.Binding
deriving Repr

/-- The data of the document, and the frames of the sections around a point, innermost first. -/
structure Scope where
  root : Value
  inner : List Scope.Frame
deriving Repr

namespace Scope

/-- The word for the number of the iteration, counted from one. -/
def indexWord : String := "index"

def itemWord : String := "item"

/-- The part of a section name after its last dot. -/
def lastPart (name : String) : String :=
  String.ofList ((Text.splitOn '.' name.toList).getLastD [])

/-- The rest of a path that addresses the current element of a loop by name. -/
def elementPath? (sect : String) (p : Path) : Option Path :=
  (p.stripHead? itemWord).or (p.stripHead? (lastPart sect))

/-- The value of a path among the names that one iteration binds. -/
def iterationValue? (sect : String) (index : Nat) (element : Value) (p : Path) : Option Value :=
  if p.segments = [indexWord] then some (.number (.int (index + 1)))
  else if p.segments = [itemWord] then some element
  else (elementPath? sect p).bind fun rest => element.resolve? rest.segments

/-- The value of a path in one frame. The fields of its value come before the names of a loop. -/
def Frame.lookup? (f : Frame) (p : Path) : Option Value :=
  match f.value.resolve? p.segments with
  | some v => some v
  | none =>
    match f.binding with
    | .block => none
    | .iteration sect index => iterationValue? sect index f.value p

def ofRoot (root : Value) : Scope := ⟨root, []⟩

def push (s : Scope) (f : Frame) : Scope := { s with inner := f :: s.inner }

/-- Leaves the innermost section. The document's data stays. -/
def pop (s : Scope) : Scope := { s with inner := s.inner.tail }

/-- The number of frames, that of the document included. -/
def depth (s : Scope) : Nat := s.inner.length + 1

/-- All frames, innermost first. -/
def frames (s : Scope) : List Frame := s.inner ++ [⟨s.root, .block⟩]

/-- The value of a path: an anchored one is looked up in the document's data, and any other in the
frames from the innermost outwards. -/
def lookup? (s : Scope) (p : Path) : Option Value :=
  if p.anchored then s.root.resolve? p.segments
  else s.frames.findSome? fun f => f.lookup? p

/-- The frames of a loop over a sequence, one for each element. -/
def iterations (sect : String) (index : Nat) : List Value → List Frame
  | [] => []
  | v :: vs => ⟨v, .iteration sect index⟩ :: iterations sect (index + 1) vs

/-- One pass over the body of a section, with a frame of its own or in the scope as it is. -/
abbrev Pass := Option Frame

/-- The passes over the body of a section whose name is bound to a value. -/
def passesOver (sect : String) (v : Value) : List Pass :=
  if v.isTruthy then
    match v with
    | .sequence items => (iterations sect 0 items).map some
    | .mapping _ => [some ⟨v, .block⟩]
    | _ => [none]
  else []

/-- The passes over the body of the section `sect` at `p`. A path without segments is the scope
itself, or the document if it is anchored. -/
def passes (s : Scope) (sect : String) (p : Path) : List Pass :=
  if p.isEmpty then
    if p.anchored then [some ⟨s.root, .block⟩] else [none]
  else
    match s.lookup? p with
    | some v => passesOver sect v
    | none => []

end Scope
end DocTemplate
