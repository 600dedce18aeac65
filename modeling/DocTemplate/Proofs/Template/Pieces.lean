import DocTemplate.Proofs.Rendering.Emission
import DocTemplate.Proofs.Template.Fold

/-! The pieces of a token stream: its directives, and the characters of its texts one by one. A
document does not show where the stream cuts a text in two nor where a directive stands in the
template, so streams with the same pieces write the same documents. -/

namespace DocTemplate

open Token

/-- A directive, or one character of a text. -/
inductive Piece where
  | char (c : Char)
  | tag (kind : Token.Kind)
deriving DecidableEq, Repr

namespace Piece

def ofKind : Token.Kind → List Piece
  | .literal text => text.toList.map .char
  | kind => [.tag kind]

def ofTokens (ts : List Token) : List Piece := ts.flatMap fun t => ofKind t.kind

@[simp] theorem ofTokens_nil : ofTokens [] = [] := rfl

@[simp] theorem ofTokens_cons (t : Token) (ts : List Token) :
    ofTokens (t :: ts) = ofKind t.kind ++ ofTokens ts := List.flatMap_cons

/-- The piece as a token of its own. -/
def token : Piece → Token
  | .char c => ⟨.literal (String.singleton c), 0, 0⟩
  | .tag kind => ⟨kind, 0, 0⟩

end Piece

/-! ### Trees without places -/

namespace Node

mutual

/-- The tree with all positions at the start of the template. -/
def unplaced : Node → Node
  | .text s => .text s
  | .var path _ => .var path 0
  | .sect name path _ children => .sect name path 0 (unplacedAll children)

def unplacedAll : List Node → List Node
  | [] => []
  | n :: ns => n.unplaced :: unplacedAll ns

end

theorem unplacedAll_eq_map (ns : List Node) : unplacedAll ns = ns.map unplaced := by
  induction ns with
  | nil => rfl
  | cons n ns ih => rw [unplacedAll, ih, List.map_cons]

theorem reverse_unplacedAll (ns : List Node) :
    (unplacedAll ns).reverse = unplacedAll ns.reverse := by
  rw [unplacedAll_eq_map, unplacedAll_eq_map, List.map_reverse]

theorem place_unplacedAll (n : Node) (ns : List Node) :
    place n.unplaced (unplacedAll ns) = unplacedAll (place n ns) := by
  cases n with
  | var | sect => rfl
  | text s =>
    cases ns with
    | nil => rfl
    | cons m ns => cases m <;> rfl

theorem unplaced_ofName (name : String) (position : Nat) (children : List Node) :
    (ofName name position children.reverse).unplaced =
      ofName name 0 (unplacedAll children).reverse := by
  rw [reverse_unplacedAll]
  rfl

namespace Builder

def unplaced (b : Builder) : Builder :=
  ⟨b.frames.map fun frame => ⟨frame.name, 0, unplacedAll frame.children⟩, unplacedAll b.top⟩

theorem modify_unplaced (n : Node) (b : Builder) :
    b.unplaced.modify (place n.unplaced) = (b.modify (place n)).unplaced := by
  obtain ⟨frames, top⟩ := b
  cases frames with
  | nil => simp only [unplaced, modify, List.map_nil, place_unplacedAll]
  | cons frame frames => simp only [unplaced, modify, List.map_cons, place_unplacedAll]

theorem push_unplaced (b : Builder) (t : Token) :
    b.unplaced.push ⟨t.kind, 0, 0⟩ = (b.push t).unplaced := by
  obtain ⟨kind, start, length⟩ := t
  cases kind with
  | literal s =>
    rw [push_literal, push_literal]
    split
    · rfl
    · exact modify_unplaced (.text s) b
  | var path => exact modify_unplaced (.var (Path.parse path) start) b
  | opening name => rfl
  | closing name =>
    obtain ⟨frames, top⟩ := b
    cases frames with
    | nil => rfl
    | cons frame frames =>
      rw [push_closing, push_closing, close_cons, ← modify_unplaced, unplaced_ofName]
      rfl

/-! ### The fold of the pieces -/

/-- The characters of a text, pushed one after another, make the node of the text. -/
theorem foldl_push_chars (b : Builder) (cs : List Char) :
    ((cs.map Piece.char).map Piece.token).foldl push b =
      b.push ⟨.literal (String.ofList cs), 0, 0⟩ := by
  induction cs generalizing b with
  | nil => rfl
  | cons c cs ih =>
    have hText : String.ofList (c :: cs) = String.singleton c ++ String.ofList cs := by
      apply String.toList_inj.mp
      simp
    rw [List.map_cons, List.map_cons, List.foldl_cons, ih, hText]
    exact b.push_push_literal _ _ 0 0 0 0 0 0

theorem foldl_push_ofKind (b : Builder) (kind : Token.Kind) :
    ((Piece.ofKind kind).map Piece.token).foldl push b = b.push ⟨kind, 0, 0⟩ := by
  cases kind with
  | literal text => rw [Piece.ofKind, foldl_push_chars, String.ofList_toList]
  | var | opening | closing => rfl

theorem foldl_push_pieces (b : Builder) (ts : List Token) :
    ((Piece.ofTokens ts).map Piece.token).foldl push b.unplaced = (ts.foldl push b).unplaced := by
  induction ts generalizing b with
  | nil => rfl
  | cons t ts ih =>
    rw [Piece.ofTokens_cons, List.map_append, List.foldl_append, foldl_push_ofKind, push_unplaced,
      ih, List.foldl_cons]

end Builder

end Node

/-! ### What is written -/

theorem Outcome.output_join {os os' : List Outcome}
    (h : os.map Outcome.output = os'.map Outcome.output) :
    (join os).output = (join os').output := by
  induction os generalizing os' with
  | nil =>
    obtain rfl : os' = [] := List.map_eq_nil_iff.mp h.symm
    rfl
  | cons o os ih =>
    cases os' with
    | nil => simp at h
    | cons o' os' =>
      obtain ⟨hHead, hTail⟩ := List.cons.inj h
      rw [join, join, output_append, output_append, hHead, ih hTail]

namespace Node

mutual

/-- Positions stand in diagnostics alone. -/
theorem output_emit_unplaced (s : Scope) (depth : Nat) :
    (n : Node) → (n.unplaced.emit s depth).output = (n.emit s depth).output
  | .text _ => rfl
  | .var path position => by
    rw [unplaced, emit, emit]
    split
    · rfl
    · cases s.lookup? path <;> rfl
  | .sect name path position children => by
    rw [unplaced, emit, emit]
    split
    · rfl
    · refine Outcome.output_join ?_
      rw [List.map_map, List.map_map]
      exact List.map_congr_left fun pass _ =>
        output_emitAll_unplaced (s.enter pass) (depth + 1) children

theorem output_emitAll_unplaced (s : Scope) (depth : Nat) :
    (ns : List Node) → (emitAll s depth (unplacedAll ns)).output = (emitAll s depth ns).output
  | [] => rfl
  | n :: ns => by
    rw [unplacedAll, emitAll, emitAll, Outcome.output_append, Outcome.output_append,
      output_emit_unplaced s depth n, output_emitAll_unplaced s depth ns]

end

/-- The tree without places is made of the pieces. -/
theorem unplacedAll_children_ofTokens {limit : Nat} {ts : List Token}
    (h : Balanced.IsNested limit [] ts) :
    unplacedAll (ofTokens ts).children =
      (((Piece.ofTokens ts).map Piece.token).foldl Builder.push .empty).top.reverse := by
  have hFold := Builder.foldl_push_pieces .empty ts
  have hEmpty : Builder.empty.unplaced = .empty := rfl
  rw [hEmpty] at hFold
  rw [hFold, ofTokens_eq_root h, root, children, ← reverse_unplacedAll]
  rfl

theorem output_render_of_pieces {limit limit' : Nat} {ts ts' : List Token}
    (h : Balanced.IsNested limit [] ts) (h' : Balanced.IsNested limit' [] ts')
    (hPieces : Piece.ofTokens ts = Piece.ofTokens ts') (context : Value) :
    ((ofTokens ts).render context).output = ((ofTokens ts').render context).output := by
  have hTree : unplacedAll (ofTokens ts).children = unplacedAll (ofTokens ts').children := by
    rw [unplacedAll_children_ofTokens h, unplacedAll_children_ofTokens h', hPieces]
  rw [render_eq_emitAll, render_eq_emitAll, ← output_emitAll_unplaced, hTree,
    output_emitAll_unplaced]

end Node
end DocTemplate
