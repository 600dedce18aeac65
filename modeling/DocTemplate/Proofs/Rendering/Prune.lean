import DocTemplate.Proofs.Rendering.Visit
import DocTemplate.Proofs.Template.Depth
import DocTemplate.Proofs.Template.Scan
import Mathlib.Logic.Function.Iterate

/-! The two depth limits. Compiling nests no node in more sections than rendering enters, so
rendering cuts nothing off a compiled template. A tree that is built by hand may be of any height:
of such a tree rendering makes what it would make, without any limit, of the tree pruned at the
limit. -/

namespace DocTemplate

namespace Node

/-! ### Nodes inside sections -/

/-- The node `m` is among the trees `ns`, inside `k` of their sections. -/
inductive Occurs : List Node → Nat → Node → Prop
  | here (n : Node) (ns : List Node) : Occurs (n :: ns) 0 n
  | later {n : Node} {ns : List Node} {k : Nat} {m : Node} (h : Occurs ns k m) :
    Occurs (n :: ns) k m
  | inside {name : String} {path : Path} {position : Nat} {children ns : List Node} {k : Nat}
    {m : Node} (h : Occurs children k m) :
    Occurs (.sect name path position children :: ns) (k + 1) m

theorem Occurs.add_height_le {ns : List Node} {k : Nat} {m : Node} (h : Occurs ns k m) :
    k + m.height ≤ heights ns := by
  induction h with
  | here =>
    rw [heights]
    omega
  | later _ ih =>
    rw [heights]
    omega
  | inside _ ih =>
    rw [heights, height]
    omega

/-! ### Pruned trees -/

/-- A tree without a depth limit in which a stub may stand for a section. -/
inductive Pruned where
  | text (s : String)
  | var (path : Path) (position : Nat)
  | sect (name : String) (path : Path) (position : Nat) (children : List Pruned)
  | stub (name : String) (position : Nat)

mutual

/-- The outcome that a pruned tree adds. A stub writes nothing and is reported each time. -/
def Pruned.emit (s : Scope) : Pruned → Outcome
  | .text t => ⟨t, []⟩
  | .var path position => (Node.var path position).emit s 0
  | .sect name path _ children =>
    .join ((s.passes name path).map fun pass => Pruned.emitAll (s.enter pass) children)
  | .stub name position => ⟨"", [.unbalancedTag (Token.openTag name) position]⟩

def Pruned.emitAll (s : Scope) : List Pruned → Outcome
  | [] => .nothing
  | n :: ns => n.emit s ++ Pruned.emitAll s ns

end

mutual

/-- The tree with stubs for its sections inside `room` others. -/
def prune (room : Nat) : Node → Pruned
  | .text s => .text s
  | .var path position => .var path position
  | .sect name path position children =>
    match room with
    | 0 => .stub name position
    | room + 1 => .sect name path position (pruneAll room children)

def pruneAll (room : Nat) : List Node → List Pruned
  | [] => []
  | n :: ns => n.prune room :: pruneAll room ns

end

mutual

theorem emit_eq_emit_prune (s : Scope) {depth room : Nat} (h : depth + room = maxSectionDepth) :
    (n : Node) → n.emit s depth = (n.prune room).emit s
  | .text t => by rw [emit, prune, Pruned.emit]
  | .var path position => by rw [prune, Pruned.emit, emit, emit]
  | .sect name path position children => by
    cases room with
    | zero => rw [emit, if_pos (by omega), prune, Pruned.emit]
    | succ room =>
      -- One level down the depth is one more and the room one less.
      rw [emit, if_neg (by omega), prune, Pruned.emit]
      refine congrArg Outcome.join (List.map_congr_left fun pass _ => ?_)
      exact emitAll_eq_emitAll_pruneAll (s.enter pass) (by omega) children

theorem emitAll_eq_emitAll_pruneAll (s : Scope) {depth room : Nat}
    (h : depth + room = maxSectionDepth) :
    (ns : List Node) → emitAll s depth ns = Pruned.emitAll s (pruneAll room ns)
  | [] => by rw [emitAll, pruneAll, Pruned.emitAll]
  | n :: ns => by
    rw [emitAll, pruneAll, Pruned.emitAll, emit_eq_emit_prune s h n,
      emitAll_eq_emitAll_pruneAll s h ns]

end

end Node

theorem Rendering.Visits.occurs {r r' : Rendering} {ns : List Node} {k : Nat} {m : Node}
    (h : Visits r ns k r' m) : Node.Occurs ns k m := by
  induction h with
  | here => exact .here _ _
  | later _ ih => exact .later ih
  | inside _ _ _ ih => exact .inside ih

namespace Template

theorem add_height_le_of_occurs {raw : String} {k : Nat} {m : Node}
    (h : Node.Occurs (compile raw).root.children k m) : k + m.height ≤ maxSectionDepth :=
  Nat.le_trans h.add_height_le
    (Node.heights_ofTokens (Balanced.isNested_ofTokens (Token.scan raw)))

/-- Compiling and rendering have one depth limit. No node of a compiled template is beyond it, and
so its rendering enters every section that it visits and reports variables only. No rendering of any
tree goes beyond it: the outcome is that of the tree with stubs for the sections at the limit. -/
theorem depth_limits_agree :
    (∀ raw : String,
      (∀ k m, Node.Occurs (compile raw).root.children k m → k ≤ maxSectionDepth) ∧
      ∀ context : Value,
        (∀ k r name path position children,
          (Rendering.start context).Visits (compile raw).root.children k r
            (.sect name path position children) → r.depth < maxSectionDepth) ∧
        ∀ d ∈ ((compile raw).root.render context).diagnostics, d.kind = .missingVariable) ∧
    ∀ (n : Node) (context : Value),
      (∀ k r m, (Rendering.start context).Visits n.children k r m →
        r.depth = k ∧ k ≤ maxSectionDepth) ∧
      n.render context =
        Node.Pruned.emitAll (.ofRoot context) (Node.pruneAll maxSectionDepth n.children) := by
  have hDepth : ∀ {ns : List Node} {context : Value} {k : Nat} {r : Rendering} {m : Node},
      (Rendering.start context).Visits ns k r m → r.depth = k ∧ k ≤ maxSectionDepth := by
    intro ns context k r m hVisit
    have hStart := hVisit.depth (Nat.zero_le maxSectionDepth)
    rwa [show (Rendering.start context).depth + k = k from Nat.zero_add k] at hStart
  refine ⟨fun raw => ⟨fun k m hOccurs => ?_,
    fun context => ⟨?_, kind_diagnostics_render raw context⟩⟩,
    fun n context => ⟨fun k r m => hDepth, ?_⟩⟩
  · have hFits := add_height_le_of_occurs hOccurs
    omega
  · intro k r name path position children hVisit
    have hFits := add_height_le_of_occurs hVisit.occurs
    rw [Node.height] at hFits
    rw [(hDepth hVisit).1]
    omega
  · rw [Node.render_eq_emitAll]
    exact Node.emitAll_eq_emitAll_pruneAll _ (Nat.zero_add _) _

/-- A section in a compiled template, and a tree of 257 sections in one another, the last of which
is a stub for rendering. -/
theorem depth_limits_agree_at_the_limit :
    let raw := "\x7b#b\x7d\x7bx\x7d\x7b#end\x7d"
    let x := Node.var (Path.parse "x") 4
    let start := Rendering.start (.mapping (.ofList [("a", .bool true), ("b", .bool true)]))
    let inside := start.atPass [x] [] none
    let root := (compile raw).root
    let tower := (fun ns => [Node.ofName "a" 7 ns])^[maxSectionDepth + 1] [.text "deep"]
    (Node.Occurs root.children 1 x ∧ 1 ≤ maxSectionDepth) ∧
    (start.Visits root.children 0 start (.ofName "b" 0 [x]) ∧ start.depth < maxSectionDepth) ∧
    (start.Visits root.children 1 inside x ∧ inside.depth = 1) ∧
    .missingVariable "x" 4 ∈ (root.render start.scope.root).diagnostics ∧
    (∀ d ∈ (root.render start.scope.root).diagnostics, d.kind = .missingVariable) ∧
    (Node.root tower).render start.scope.root = ⟨"", [.unbalancedTag "\x7b#a\x7d" 7]⟩ := by
  intro raw x start inside root tower
  obtain ⟨hCompiled, hTrees⟩ := depth_limits_agree
  have hScan : Token.scan raw =
      [⟨.opening "b", 0, 4⟩, ⟨.var "x", 4, 3⟩, ⟨.closing none, 7, 6⟩] :=
    Token.scan_eq (by decide) (by decide)
  have hRoot : root = .root [.ofName "b" 0 [x]] := by
    show Node.ofTokens (Balanced.ofTokens (Token.scan raw)).tokens = _
    rw [hScan]
    rfl
  have hOccurs : Node.Occurs root.children 1 x := by
    rw [hRoot]
    exact .inside (.here _ _)
  have hSection : start.Visits root.children 0 start (.ofName "b" 0 [x]) := by
    rw [hRoot]
    exact .here _ _ _
  have hVisit : start.Visits root.children 1 inside x := by
    rw [hRoot]
    exact .inside (by decide) rfl (.here _ _ _)
  have hMissing : .missingVariable "x" 4 ∈ (root.render start.scope.root).diagnostics := by
    rw [hRoot]
    decide
  obtain ⟨hWithin, hRendered⟩ := hCompiled raw
  obtain ⟨hEntered, hKinds⟩ := hRendered start.scope.root
  refine ⟨⟨hOccurs, hWithin 1 x hOccurs⟩, ⟨hSection, hEntered 0 start _ _ _ _ hSection⟩,
    ⟨hVisit, ((hTrees root _).1 1 inside x hVisit).1⟩, hMissing, hKinds, ?_⟩
  rw [(hTrees (.root tower) _).2]
  decide +kernel

end Template
end DocTemplate
