import DocTemplate.Proofs.Template.Fold
import DocTemplate.Proofs.Template.Repair

/-! Where the nodes of a folded tree come from. Each variable and each section stems from a token of
the stream: its path is the token's name read as a path, and its position is where the token starts.
This holds of streams of any shape. A path that was read from a name is written as that name. -/

namespace DocTemplate

/-! ### Paths written as they were read -/

/-- The parts of a text are those of the library's split. -/
theorem Text.splitOn_eq (separator : Char) (cs : List Char) :
    splitOn separator cs = cs.splitOn separator := by
  induction cs with
  | nil => rfl
  | cons c cs ih =>
    obtain ⟨part, parts, hParts⟩ := List.exists_cons_of_ne_nil (splitOn_ne_nil separator cs)
    rw [hParts] at ih
    show _ = List.splitOnP _ (c :: cs)
    rw [List.splitOnP_cons_eq_if_modifyHead, ← List.splitOn, ← ih, splitOn, hParts]
    by_cases h : c = separator
    · rw [if_pos h, if_pos (beq_iff_eq.mpr h)]
    · rw [if_neg h, if_neg (by simpa using h)]
      rfl

namespace Path

theorem intercalate_segmentsOf (cs : List Char) :
    ".".intercalate (segmentsOf cs) = String.ofList cs := by
  cases cs with
  | nil => rfl
  | cons c cs =>
    show ".".intercalate ((Text.splitOn '.' (c :: cs)).map String.ofList) = _
    rw [Text.splitOn_eq, ← String.toList_inj, String.toList_intercalate, List.map_map]
    simp [Function.comp_def, List.intercalate_splitOn]

theorem text_parse (name : String) : (parse name).text = name := by
  rw [parse, ← String.toList_inj]
  split
  · next cs hDot =>
    rw [text, if_pos rfl, intercalate_segmentsOf, hDot]
    simp
  · rw [text, if_neg (by simp), intercalate_segmentsOf]
    simp

/-- A path as it is read from some text. -/
def IsRead (p : Path) : Prop := parse p.text = p

theorem isRead_parse (name : String) : (parse name).IsRead := by
  rw [IsRead, text_parse]

end Path

namespace Node

variable {vars : Path → Nat → Prop} {sects : String → Path → Nat → Prop}

mutual

/-- All variables in a tree satisfy `vars` and all its sections `sects`. -/
def Each (vars : Path → Nat → Prop) (sects : String → Path → Nat → Prop) : Node → Prop
  | .text _ => True
  | .var path position => vars path position
  | .sect name path position children => sects name path position ∧ EachAll vars sects children

def EachAll (vars : Path → Nat → Prop) (sects : String → Path → Nat → Prop) : List Node → Prop
  | [] => True
  | n :: ns => n.Each vars sects ∧ EachAll vars sects ns

end

theorem eachAll_iff {ns : List Node} : EachAll vars sects ns ↔ ∀ n ∈ ns, n.Each vars sects := by
  induction ns with
  | nil => simp [EachAll]
  | cons n ns ih => rw [EachAll, ih, List.forall_mem_cons]

theorem EachAll.reverse {ns : List Node} (h : EachAll vars sects ns) :
    EachAll vars sects ns.reverse :=
  eachAll_iff.mpr fun n hn => eachAll_iff.mp h n (List.mem_reverse.mp hn)

theorem EachAll.place {ns : List Node} (h : EachAll vars sects ns) {n : Node}
    (hNode : n.Each vars sects) : EachAll vars sects (n.place ns) := by
  rcases place_cases n ns with ⟨hOwn, -⟩ | ⟨s, before, rest, rfl, rfl⟩
  · rw [hOwn]
    exact ⟨hNode, h⟩
  · exact ⟨trivial, h.2⟩

/-! ### Folding adds nothing of its own -/

/-- A property of nodes, which stand last first, that placing a node and closing a section keep.
`opened` is what a section satisfies from its open on. -/
structure Keeps (nodes : List Node → Prop) (node : Node → Prop) (opened : String → Nat → Prop) :
    Prop where
  nil : nodes []
  place : ∀ {ns n}, nodes ns → node n → nodes (place n ns)
  close : ∀ {name position ns}, opened name position → nodes ns →
    node (ofName name position ns.reverse)

/-- The nodes so far and the sections that are still open have the property. -/
structure Builder.Has (nodes : List Node → Prop) (opened : String → Nat → Prop) (b : Builder) :
    Prop where
  top : nodes b.top
  frames : ∀ f ∈ b.frames, opened f.name f.position ∧ nodes f.children

/-- What a token makes has the property. Empty text makes no node. -/
def Makes (node : Node → Prop) (opened : String → Nat → Prop) (t : Token) : Prop :=
  match t.kind with
  | .literal s => s ≠ "" → node (.text s)
  | .var path => node (.var (Path.parse path) t.start)
  | .opening name => opened name t.start
  | .closing _ => True

section Keeps

variable {nodes : List Node → Prop} {node : Node → Prop} {opened : String → Nat → Prop}

theorem Keeps.modify (h : Keeps nodes node opened) {b : Builder} (hb : b.Has nodes opened)
    {n : Node} (hNode : node n) : (b.modify (Node.place n)).Has nodes opened := by
  obtain ⟨frames, top⟩ := b
  obtain ⟨hTop, hFrames⟩ := hb
  cases frames with
  | nil => exact ⟨h.place hTop hNode, hFrames⟩
  | cons frame frames =>
    obtain ⟨⟨hHead, hChildren⟩, hOuter⟩ := List.forall_mem_cons.mp hFrames
    exact ⟨hTop, List.forall_mem_cons.mpr ⟨⟨hHead, h.place hChildren hNode⟩, hOuter⟩⟩

theorem Keeps.closed (h : Keeps nodes node opened) {b : Builder} (hb : b.Has nodes opened) :
    b.close.Has nodes opened := by
  obtain ⟨frames, top⟩ := b
  obtain ⟨hTop, hFrames⟩ := hb
  cases frames with
  | nil => exact ⟨hTop, hFrames⟩
  | cons frame frames =>
    obtain ⟨⟨hHead, hChildren⟩, hOuter⟩ := List.forall_mem_cons.mp hFrames
    have hRest : (⟨frames, top⟩ : Builder).Has nodes opened := ⟨hTop, hOuter⟩
    rw [Builder.close_cons]
    exact h.modify hRest (h.close hHead hChildren)

theorem Keeps.closeAll (h : Keeps nodes node opened) {b : Builder} (hb : b.Has nodes opened)
    (frames : List Frame) : (b.closeAll frames).Has nodes opened := by
  induction frames generalizing b with
  | nil => exact hb
  | cons frame frames ih => exact ih (h.closed hb)

theorem Keeps.push (h : Keeps nodes node opened) {b : Builder} (hb : b.Has nodes opened)
    {t : Token} (ht : Makes node opened t) : (b.push t).Has nodes opened := by
  obtain ⟨kind, start, length⟩ := t
  cases kind with
  | literal s =>
    rw [Builder.push_literal]
    split
    · exact hb
    · next hShown => exact h.modify hb (ht (by simpa using hShown))
  | var path => exact h.modify hb (n := .var (Path.parse path) start) ht
  | opening name => exact ⟨hb.top, List.forall_mem_cons.mpr ⟨⟨ht, h.nil⟩, hb.frames⟩⟩
  | closing name => exact h.closed hb

theorem Keeps.foldl (h : Keeps nodes node opened) {b : Builder} (hb : b.Has nodes opened)
    {ts : List Token} (hTokens : ∀ t ∈ ts, Makes node opened t) :
    (ts.foldl Builder.push b).Has nodes opened := by
  induction ts generalizing b with
  | nil => exact hb
  | cons t ts ih =>
    obtain ⟨hHead, hTail⟩ := List.forall_mem_cons.mp hTokens
    exact ih (h.push hb hHead) hTail

theorem Keeps.ofTokens (h : Keeps nodes node opened) {ts : List Token}
    (hTokens : ∀ t ∈ ts, Makes node opened t) : nodes (ofTokens ts).children.reverse := by
  have hEmpty : Builder.empty.Has nodes opened := ⟨h.nil, by simp [Builder.empty]⟩
  have hFolded := h.foldl hEmpty hTokens
  rw [Node.ofTokens, Builder.finish, root, children, List.reverse_reverse]
  exact (h.closeAll hFolded _).top

end Keeps

theorem keeps_each : Keeps (EachAll vars sects) (Each vars sects)
    (fun name position => sects name (Path.parse name) position) where
  nil := trivial
  place h hNode := h.place hNode
  close hOpened h := ⟨hOpened, h.reverse⟩

/-- What a token makes of the predicates. A literal and a close make no node of their own. -/
def Stems (vars : Path → Nat → Prop) (sects : String → Path → Nat → Prop) (t : Token) : Prop :=
  match t.kind with
  | .var path => vars (Path.parse path) t.start
  | .opening name => sects name (Path.parse name) t.start
  | .literal _ | .closing _ => True

theorem Stems.makes {t : Token} (h : Stems vars sects t) :
    Makes (Each vars sects) (fun name position => sects name (Path.parse name) position) t := by
  obtain ⟨kind, start, length⟩ := t
  cases kind with
  | literal s => exact fun _ => trivial
  | var | opening | closing => exact h

theorem eachAll_ofTokens {ts : List Token} (h : ∀ t ∈ ts, Stems vars sects t) :
    EachAll vars sects (ofTokens ts).children := by
  have hReversed := keeps_each.ofTokens fun t ht => (h t ht).makes
  rw [← List.reverse_reverse (ofTokens ts).children]
  exact hReversed.reverse

/-! ### Balancing adds nothing of its own -/

theorem Stems.repaired {n : Nesting} {t : Token} {result : Repair × Nesting}
    (hRule : Nesting.Rule n t result) (h : Stems vars sects t) :
    Stems vars sects result.1.token := by
  cases hRule with
  | literal | var | open_ => exact h
  | demote | closeDemoted | close | orphan => trivial

theorem stems_pushAll (n : Nesting) {ts : List Token} (h : ∀ t ∈ ts, Stems vars sects t) :
    ∀ t ∈ (n.pushAll ts).1.map Repair.token, Stems vars sects t := by
  induction ts generalizing n with
  | nil => simp [Nesting.pushAll]
  | cons t ts ih =>
    obtain ⟨hHead, hTail⟩ := List.forall_mem_cons.mp h
    rw [Nesting.pushAll_cons, List.map_cons, List.forall_mem_cons]
    exact ⟨hHead.repaired (Nesting.rule_push n t), ih _ hTail⟩

theorem stems_balanced {ts : List Token} (h : ∀ t ∈ ts, Stems vars sects t) :
    ∀ t ∈ (Balanced.ofTokens ts).tokens, Stems vars sects t := by
  intro t ht
  rw [Nesting.tokens_ofTokens] at ht
  rcases List.mem_append.mp ht with hPushed | hClosed
  · exact stems_pushAll .empty h t hPushed
  · obtain ⟨r, hr, rfl⟩ := List.mem_map.mp hClosed
    obtain ⟨o, -, rfl⟩ := List.mem_map.mp hr
    trivial

end Node

/-- What the directives of a text make of the predicates holds of all nodes of its tree. -/
theorem Template.eachAll_compile {vars : Path → Nat → Prop} {sects : String → Path → Nat → Prop}
    {raw : String} (h : ∀ t ∈ Token.scan raw, Node.Stems vars sects t) :
    Node.EachAll vars sects (compile raw).root.children :=
  Node.eachAll_ofTokens (Node.stems_balanced h)

end DocTemplate
