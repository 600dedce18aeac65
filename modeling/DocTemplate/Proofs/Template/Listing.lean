import DocTemplate.Proofs.Template.Fixpoint
import DocTemplate.Proofs.Template.Origin

/-! What a tree holds, in the order of the document. Folding a token stream of any shape drops only
the closes that come when nothing is open, and it adds only the ends of the sections left open. The
frames of the fold are read from the outermost inwards, each as a section whose end is to come. So
the text and the directives of a stream can be read back from its tree. -/

namespace DocTemplate

open Token Matching

namespace Matching

/-- A close that comes when no open waits for one. -/
def isStray (stack : List Bracket) (t : Token) : Bool :=
  match t.kind, stack with
  | .closing _, [] => true
  | _, _ => false

/-- The tokens without the stray closes, when the opens in `stack` come before them. -/
def withoutStrays (stack : List Bracket) : List Token → List Token
  | [] => []
  | t :: ts =>
    if isStray stack t then withoutStrays (step stack t) ts
    else t :: withoutStrays (step stack t) ts

end Matching

namespace Node.Builder

theorem length_frames_modify (b : Builder) (f : List Node → List Node) :
    (b.modify f).frames.length = b.frames.length := by
  simpa using congrArg List.length (b.frames_modify f)

theorem length_frames_close (b : Builder) : b.close.frames.length = b.frames.length - 1 := by
  obtain ⟨frames, top⟩ := b
  cases frames with
  | nil => rfl
  | cons frame frames =>
    rw [close_cons, length_frames_modify, List.length_cons, Nat.add_sub_cancel]

/-- The fold has a frame for each open that waits for its close. -/
theorem length_frames_push {b : Builder} {stack : List Bracket}
    (h : b.frames.length = stack.length) (t : Token) :
    (b.push t).frames.length = (step stack t).length := by
  obtain ⟨kind, start, length⟩ := t
  cases kind with
  | literal s =>
    rw [push_literal]
    split
    · exact h
    · exact (length_frames_modify b _).trans h
  | var path => exact (length_frames_modify b _).trans h
  | opening name => exact congrArg (· + 1) h
  | closing name =>
    rw [push_closing, length_frames_close, h]
    exact List.length_tail.symm

theorem length_frames_foldl {b : Builder} {stack : List Bracket}
    (h : b.frames.length = stack.length) (ts : List Token) :
    (ts.foldl push b).frames.length = (ts.foldl step stack).length := by
  induction ts generalizing b stack with
  | nil => exact h
  | cons t ts ih => exact ih (length_frames_push h t)

/-- `closeAll` only counts its list: what it closes are the frames of the fold itself. -/
theorem closeAll_eq_iterate (b : Builder) (fs : List Frame) :
    b.closeAll fs = close^[fs.length] b := by
  induction fs generalizing b with
  | nil => rfl
  | cons f fs ih => exact ih b.close

theorem frames_closeAll (b : Builder) : (b.closeAll b.frames).frames = [] := by
  have hClosed : ∀ (count : Nat) (b : Builder),
      (close^[count] b).frames.length = b.frames.length - count := by
    intro count
    induction count with
    | zero => exact fun b => rfl
    | succ count ih =>
      intro b
      rw [Function.iterate_succ_apply, ih, length_frames_close, Nat.sub_sub, Nat.add_comm]
  rw [closeAll_eq_iterate, ← List.length_eq_zero_iff, hClosed, Nat.sub_self]

end Node.Builder

/-- A way to list what a tree holds. Text may be listed in pieces. -/
structure Listing (α : Type) where
  text : String → List α
  var : Path → Nat → List α
  opening : String → Path → Nat → List α
  closing : List α
  text_append : ∀ s u, text (s ++ u) = text s ++ text u

namespace Listing

variable {α : Type}

mutual

def node (l : Listing α) : Node → List α
  | .text s => l.text s
  | .var path position => l.var path position
  | .sect name path position children =>
    l.opening name path position ++ nodes l children ++ l.closing

def nodes (l : Listing α) : List Node → List α
  | [] => []
  | n :: ns => node l n ++ nodes l ns

end

def token (l : Listing α) (t : Token) : List α :=
  match t.kind with
  | .literal s => l.text s
  | .var path => l.var (Path.parse path) t.start
  | .opening name => l.opening name (Path.parse name) t.start
  | .closing _ => l.closing

/-- The open sections, the outermost first. -/
def frames (l : Listing α) : List Node.Frame → List α
  | [] => []
  | f :: fs =>
    frames l fs ++ (l.opening f.name (Path.parse f.name) f.position ++ l.nodes f.children.reverse)

def builder (l : Listing α) (b : Node.Builder) : List α :=
  l.nodes b.top.reverse ++ l.frames b.frames

def ends (l : Listing α) (count : Nat) : List α := (List.replicate count l.closing).flatten

variable (l : Listing α)

theorem text_empty : l.text "" = [] := by
  have hTwice := l.text_append "" ""
  rw [String.append_empty] at hTwice
  simpa using hTwice

theorem nodes_append (as bs : List Node) : l.nodes (as ++ bs) = l.nodes as ++ l.nodes bs := by
  induction as with
  | nil => rw [nodes, List.nil_append, List.nil_append]
  | cons n ns ih => rw [List.cons_append, nodes, nodes, ih, List.append_assoc]

theorem nodes_reverse_cons (n : Node) (ns : List Node) :
    l.nodes (n :: ns).reverse = l.nodes ns.reverse ++ l.node n := by
  rw [List.reverse_cons, nodes_append, nodes, nodes, List.append_nil]

/-- A placed node is listed last, be it a node of its own or the end of a text node. -/
theorem nodes_reverse_place (n : Node) (ns : List Node) :
    l.nodes (n.place ns).reverse = l.nodes ns.reverse ++ l.node n := by
  rcases Node.place_cases n ns with ⟨hOwn, -⟩ | ⟨s, before, rest, rfl, rfl⟩
  · rw [hOwn, nodes_reverse_cons]
  · show l.nodes (Node.text (before ++ s) :: rest).reverse = _
    rw [nodes_reverse_cons, nodes_reverse_cons, node, node, node, text_append, List.append_assoc]

/-! ### What one token adds -/

theorem builder_modify (b : Node.Builder) (n : Node) :
    l.builder (b.modify n.place) = l.builder b ++ l.node n := by
  obtain ⟨fs, top⟩ := b
  cases fs with
  | nil =>
    rw [Node.Builder.modify_nil, builder, builder, nodes_reverse_place, frames, List.append_nil,
      List.append_nil]
  | cons f fs =>
    show l.nodes top.reverse ++ l.frames ({ f with children := n.place f.children } :: fs) = _
    rw [builder, frames, frames, nodes_reverse_place]
    simp only [List.append_assoc]

theorem builder_close (f : Node.Frame) (fs : List Node.Frame) (top : List Node) :
    l.builder (Node.Builder.close ⟨f :: fs, top⟩) = l.builder ⟨f :: fs, top⟩ ++ l.closing := by
  rw [Node.Builder.close_cons, builder_modify, Node.ofName, node, builder, builder, frames]
  simp only [List.append_assoc]

theorem builder_push {b : Node.Builder} {stack : List Bracket}
    (h : b.frames.length = stack.length) (t : Token) :
    l.builder (b.push t) = l.builder b ++ (if isStray stack t then [] else l.token t) := by
  obtain ⟨kind, start, length⟩ := t
  cases kind with
  | literal s =>
    show _ = l.builder b ++ l.text s
    rw [Node.Builder.push_literal]
    split
    -- Empty text makes no node, and there is nothing of it to list.
    · next hEmpty =>
      rw [String.isEmpty_iff.mp hEmpty, text_empty, List.append_nil]
    · exact l.builder_modify b (.text s)
  | var path => exact l.builder_modify b (.var (Path.parse path) start)
  | opening name =>
    show l.nodes b.top.reverse ++ (l.frames b.frames ++ (_ ++ l.nodes [].reverse)) = _
    rw [List.reverse_nil, nodes, List.append_nil, ← List.append_assoc]
    rfl
  | closing name =>
    obtain ⟨fs, top⟩ := b
    cases fs with
    | nil =>
      -- The close is stray, and the fold passes it over.
      obtain rfl := List.length_eq_zero_iff.mp h.symm
      exact (List.append_nil _).symm
    | cons f fs =>
      obtain ⟨bracket, stack, rfl⟩ := List.exists_cons_of_length_eq_add_one h.symm
      exact l.builder_close f fs top

/-! ### What a stream adds -/

theorem builder_foldl {b : Node.Builder} {stack : List Bracket}
    (h : b.frames.length = stack.length) (ts : List Token) :
    l.builder (ts.foldl Node.Builder.push b) =
      l.builder b ++ (withoutStrays stack ts).flatMap l.token := by
  induction ts generalizing b stack with
  | nil => exact (List.append_nil _).symm
  | cons t ts ih =>
    have hListed := ih (Node.Builder.length_frames_push h t)
    rw [List.foldl_cons, hListed, l.builder_push h t, withoutStrays, List.append_assoc]
    split
    · rw [List.nil_append]
    · rw [List.flatMap_cons]

/-- The sections that the stream leaves open end, the innermost first. -/
theorem builder_closeAll {b : Node.Builder} {fs : List Node.Frame}
    (h : b.frames.length = fs.length) :
    l.builder (b.closeAll fs) = l.builder b ++ l.ends fs.length := by
  induction fs generalizing b with
  | nil => exact (List.append_nil _).symm
  | cons f fs ih =>
    have hLess : b.close.frames.length = fs.length := by
      rw [Node.Builder.length_frames_close, h, List.length_cons, Nat.add_sub_cancel]
    have hListed := ih hLess
    obtain ⟨waiting, top⟩ := b
    obtain ⟨g, gs, rfl⟩ := List.exists_cons_of_length_eq_add_one h
    rw [Node.Builder.closeAll, hListed, builder_close, List.append_assoc]
    rfl

theorem nodes_ofTokens (ts : List Token) :
    l.nodes (Node.ofTokens ts).children =
      (withoutStrays [] ts).flatMap l.token ++ l.ends (unmatched ts).length := by
  have hEmpty : Node.Builder.empty.frames.length = ([] : List Bracket).length := rfl
  have hListed := l.builder_foldl hEmpty ts
  have hFrames := Node.Builder.length_frames_foldl hEmpty ts
  have hClosed := l.builder_closeAll (b := ts.foldl Node.Builder.push .empty) rfl
  have hStart : l.builder .empty = [] := rfl
  rw [builder, Node.Builder.frames_closeAll, frames, List.append_nil, hListed, hStart,
    List.nil_append, hFrames] at hClosed
  exact hClosed

/-! ### The text of a tree, and its directives -/

/-- The text that a tree stands for, with a close for each section. -/
def writing : Listing Char where
  text := String.toList
  var path _ := (varTag path.text).toList
  opening name _ _ := (openTag name).toList
  closing := closeTag.toList
  text_append _ _ := String.toList_append

/-- The variables and sections, each section without what stands in it. -/
def marking : Listing Node where
  text _ := []
  var path position := [.var path position]
  opening name path position := [.sect name path position []]
  closing := []
  text_append _ _ := rfl

theorem token_writing (t : Token) : writing.token t = t.kind.directiveText.toList := by
  obtain ⟨kind, start, length⟩ := t
  cases kind with
  | var path =>
    show (varTag (Path.parse path).text).toList = _
    rw [Path.text_parse]
    rfl
  | literal | opening | closing => rfl

theorem flatMap_token_writing (ts : List Token) :
    ts.flatMap writing.token = (toDirectives ts).toList := by
  induction ts with
  | nil => rw [toDirectives_nil]; rfl
  | cons t ts ih =>
    rw [List.flatMap_cons, token_writing, ih, toDirectives_cons, String.toList_append]

theorem ends_writing (count : Nat) : writing.ends count = (closeTags count).toList := by
  induction count with
  | zero => rfl
  | succ count ih =>
    rw [closeTags, String.toList_append, ← ih]
    rfl

theorem ends_marking (count : Nat) : marking.ends count = [] := by
  rw [ends]
  show (List.replicate count []).flatten = []
  simp

end Listing

namespace Node

/-- Writes nodes back as the text of a template. -/
def write (ns : List Node) : String := String.ofList (Listing.writing.nodes ns)

/-- The variables and sections of a tree in document order, each section without its children. -/
def directives (ns : List Node) : List Node := Listing.marking.nodes ns

/-- The node that a token begins. Text and closes begin none. -/
def begun? (t : Token) : Option Node :=
  match t.kind with
  | .var path => some (.var (Path.parse path) t.start)
  | .opening name => some (ofName name t.start [])
  | .literal _ | .closing _ => none

theorem token_marking (t : Token) : Listing.marking.token t = (begun? t).toList := by
  obtain ⟨kind, start, length⟩ := t
  cases kind <;> rfl

theorem write_ofTokens (ts : List Token) :
    write (ofTokens ts).children =
      toDirectives (withoutStrays [] ts) ++ closeTags (unmatched ts).length := by
  rw [write, Listing.nodes_ofTokens, Listing.flatMap_token_writing, Listing.ends_writing,
    ← String.toList_append, String.ofList_toList]

theorem begun?_eq_none_of_isStray {stack : List Bracket} {t : Token} (h : isStray stack t = true) :
    begun? t = none := by
  obtain ⟨kind, start, length⟩ := t
  cases kind with
  | closing name => rfl
  | literal | var | opening => simp [isStray] at h

theorem flatMap_token_marking (stack : List Bracket) (ts : List Token) :
    (withoutStrays stack ts).flatMap Listing.marking.token = ts.filterMap begun? := by
  induction ts generalizing stack with
  | nil => rfl
  | cons t ts ih =>
    rw [withoutStrays]
    split
    · next hStray => rw [ih, List.filterMap_cons_none (begun?_eq_none_of_isStray hStray)]
    · rw [List.flatMap_cons, ih, token_marking, List.filterMap_cons]
      cases begun? t <;> rfl

theorem directives_ofTokens (ts : List Token) :
    directives (ofTokens ts).children = ts.filterMap begun? := by
  rw [directives, Listing.nodes_ofTokens, Listing.ends_marking, List.append_nil,
    flatMap_token_marking]

/-! ### Text nodes -/

mutual

/-- No text node in the tree is empty or next to another one. -/
def Merged : Node → Prop
  | .text s => s ≠ ""
  | .var _ _ => True
  | .sect _ _ _ children => MergedAll children

def MergedAll : List Node → Prop
  | [] => True
  | n :: ns => n.Merged ∧ (∀ m ∈ ns.head?, Apart n m) ∧ MergedAll ns

end

theorem mergedAll_iff {ns : List Node} :
    MergedAll ns ↔ (∀ n ∈ ns, n.Merged) ∧ ns.IsChain Apart := by
  induction ns with
  | nil => simp [MergedAll]
  | cons n ns ih =>
    rw [MergedAll, ih, List.forall_mem_cons, List.isChain_cons]
    tauto

theorem MergedAll.reverse {ns : List Node} (h : MergedAll ns) : MergedAll ns.reverse := by
  obtain ⟨hEach, hChain⟩ := mergedAll_iff.mp h
  refine mergedAll_iff.mpr ⟨fun n hn => hEach n (List.mem_reverse.mp hn), ?_⟩
  rw [List.isChain_reverse]
  exact hChain.imp fun m n hApart hBoth => hApart hBoth.symm

theorem MergedAll.place {ns : List Node} (h : MergedAll ns) {n : Node} (hNode : n.Merged) :
    MergedAll (n.place ns) := by
  rcases place_cases n ns with ⟨hOwn, hApart⟩ | ⟨s, before, rest, rfl, rfl⟩
  · rw [hOwn]
    exact ⟨hNode, hApart, h⟩
  · obtain ⟨hBefore, hApart, hRest⟩ := h
    exact ⟨fun hEmpty => hBefore (String.append_eq_empty_iff.mp hEmpty).1, hApart, hRest⟩

theorem keeps_merged : Keeps MergedAll Merged (fun _ _ => True) where
  nil := trivial
  place h hNode := h.place hNode
  close _ h := h.reverse

theorem merged_ofTokens (ts : List Token) : (ofTokens ts).Merged := by
  have hMakes : ∀ t ∈ ts, Makes Merged (fun _ _ => True) t := fun t _ => by
    obtain ⟨kind, start, length⟩ := t
    cases kind with
    | literal s => exact id
    | var | opening | closing => exact trivial
  have hChildren := (keeps_merged.ofTokens hMakes).reverse
  rwa [List.reverse_reverse] at hChildren

/-- A tree keeps what its stream says. Written back it is the stream without its stray closes, with
a close at the end for each section left open; its variables and sections are those of the stream,
at their places and with their names read as paths; and its text is in as few nodes as can be. -/
theorem ofTokens_lossless (ts : List Token) :
    write (ofTokens ts).children =
        toDirectives (withoutStrays [] ts) ++ closeTags (unmatched ts).length ∧
      (ofTokens ts).Merged ∧ directives (ofTokens ts).children = ts.filterMap begun? ∧
      (ofTokens ts).Each (fun path _ => path.IsRead) (fun name path _ => path = Path.parse name) ∧
      ∀ name, (Path.parse name).text = name := by
  refine ⟨write_ofTokens ts, merged_ofTokens ts, directives_ofTokens ts, ⟨rfl, ?_⟩, Path.text_parse⟩
  refine eachAll_ofTokens fun t _ => ?_
  obtain ⟨kind, start, length⟩ := t
  cases kind with
  | var path => exact Path.isRead_parse path
  | opening name => exact rfl
  | literal | closing => exact trivial

end Node
end DocTemplate
