import DocTemplate.Proofs.Rendering.Simulation
import DocTemplate.Proofs.Template.Concat
import DocTemplate.Proofs.Template.Depth

/-! A section around a text. If all sections of the text begin and end in it, then the section around
it is one node whose children are the tree of the text, and the document is what the value under the
section's name makes of that tree: nothing, one pass, or one pass for each element. -/

namespace DocTemplate

open Token

/-! ### Texts whose sections begin and end in them -/

namespace Token

/-- The number of open sections after one more token, unless the token is a close outside all
sections or an open inside `limit` of them. -/
def depthAfter? (limit depth : Nat) (t : Token) : Option Nat :=
  match t.kind with
  | .opening _ => if depth < limit then some (depth + 1) else none
  | .closing _ => if 0 < depth then some (depth - 1) else none
  | .literal _ | .var _ => some depth

theorem depthAfter?_opening {limit depth next : Nat} {name : String} {start length : Nat} :
    depthAfter? limit depth ⟨.opening name, start, length⟩ = some next ↔
      depth < limit ∧ next = depth + 1 := by
  simp [depthAfter?, eq_comm]

theorem depthAfter?_closing {limit depth next : Nat} {name : Option String} {start length : Nat} :
    depthAfter? limit depth ⟨.closing name, start, length⟩ = some next ↔ depth = next + 1 := by
  simp only [depthAfter?, Option.ite_none_right_eq_some, Option.some.injEq]
  omega

/-- Every close in the stream has its open before it, every open its close after it, and no more
than `limit` sections are open at once. -/
def IsClosed (limit : Nat) (ts : List Token) : Prop := ts.foldlM (depthAfter? limit) 0 = some 0

instance (limit : Nat) (ts : List Token) : Decidable (IsClosed limit ts) :=
  inferInstanceAs (Decidable (ts.foldlM (depthAfter? limit) 0 = some 0))

theorem foldlM_depthAfter?_shift (limit depth k : Nat) (ts : List Token) :
    (ts.map (shift k)).foldlM (depthAfter? limit) depth = ts.foldlM (depthAfter? limit) depth := by
  rw [List.foldlM_map]
  rfl

/-- The tokens of a section around a text are those of its tags and, further on, of the text. -/
theorem scan_section {name : String} (h : (Kind.opening name).IsDirective) (body : String) :
    scan (openTag name ++ body ++ closeTag) =
      ⟨.opening name, 0, (openTag name).utf8ByteSize⟩ ::
        ((scan body).map (shift (openTag name).utf8ByteSize) ++
          endTags ((openTag name).utf8ByteSize + body.utf8ByteSize) 1) := by
  have hTag : (openTag name).utf8ByteSize = (Kind.opening name).directiveText.utf8ByteSize := rfl
  have hText : toDirectives ((scan body).map (shift (openTag name).utf8ByteSize)) = body := by
    rw [toDirectives_shift, toDirectives_scan]
  have hBody := (canonical_scan body).shift (openTag name).utf8ByteSize
  have hInner := hBody.append (canonical_endTags _ 1) head_endTags
  rw [hText, Nat.zero_add] at hInner
  rw [← scan_toDirectives (h.canonical_cons hTag (by rwa [Nat.zero_add])), toDirectives_cons,
    toDirectives_append, hText, String.append_assoc]
  rfl

end Token

/-! ### Balancing inside an open section -/

namespace Nesting

/-- The state inside the sections `outer`, which are open around all that the state has seen. -/
def inside (outer : List Opened) (n : Nesting) : Nesting := { n with opened := n.opened ++ outer }

theorem depth_inside (outer : List Opened) (n : Nesting) :
    (n.inside outer).depth = n.depth + outer.length := List.length_append

/-- A token that keeps within the limit and ends nothing that was not begun needs no repair, and it
is treated alike inside other sections, which stay open. -/
theorem Rule.inside {limit depth : Nat} {n : Nesting} {t : Token} {result : Repair × Nesting}
    (h : Rule n t result) (hNext : depthAfter? limit n.depth t = some depth)
    (hNone : n.demoted = 0) (outer : List Opened)
    (hLimit : limit + outer.length ≤ maxSectionDepth) :
    Rule (n.inside outer) t (result.1, result.2.inside outer) ∧
      result.1.diagnostic = none ∧ result.2.demoted = 0 ∧ result.2.depth = depth := by
  cases h with
  | literal text start length =>
    exact ⟨.literal text start length, rfl, hNone, Option.some.inj hNext⟩
  | var path start length => exact ⟨.var path start length, rfl, hNone, Option.some.inj hNext⟩
  | open_ name start length room =>
    obtain ⟨hRoom, hDeeper⟩ := depthAfter?_opening.mp hNext
    refine ⟨.open_ name start length ?_, rfl, hNone, hDeeper.symm⟩
    rw [depth_inside]
    omega
  -- No open is beyond the limit, so none is demoted and no close belongs to one that was.
  | demote name start length full =>
    obtain ⟨hRoom, -⟩ := depthAfter?_opening.mp hNext
    omega
  | closeDemoted name start length d waiting => omega
  | close name start length o rest none_waiting innermost =>
    have hOuter := depthAfter?_closing.mp hNext
    rw [Nesting.depth, innermost, List.length_cons] at hOuter
    refine ⟨.close name start length o (rest ++ outer) none_waiting ?_, rfl, hNone,
      Nat.succ.inj hOuter⟩
    rw [Nesting.inside, innermost, List.cons_append]
  | orphan name start length none_waiting outside =>
    have hOuter := depthAfter?_closing.mp hNext
    rw [Nesting.depth, outside] at hOuter
    contradiction

theorem pushAll_inside {limit depth : Nat} {n : Nesting} {ts : List Token}
    (h : ts.foldlM (depthAfter? limit) n.depth = some depth) (hNone : n.demoted = 0)
    (outer : List Opened) (hLimit : limit + outer.length ≤ maxSectionDepth) :
    (n.inside outer).pushAll ts = ((n.pushAll ts).1, (n.pushAll ts).2.inside outer) ∧
      (∀ r ∈ (n.pushAll ts).1, r.diagnostic = none) ∧
      (n.pushAll ts).2.demoted = 0 ∧ (n.pushAll ts).2.depth = depth := by
  induction ts generalizing n with
  | nil => exact ⟨rfl, by simp, hNone, Option.some.inj h⟩
  | cons t ts ih =>
    rw [List.foldlM_cons] at h
    obtain ⟨next, hNext, hRest⟩ := Option.bind_eq_some_iff.mp h
    obtain ⟨hRule, hSilent, hDemoted, hDepth⟩ :=
      (rule_push n t).inside hNext hNone outer hLimit
    rw [← hDepth] at hRest
    obtain ⟨hRun, hSilents, hLast⟩ := ih hRest hDemoted
    refine ⟨?_, List.forall_mem_cons.mpr ⟨hSilent, hSilents⟩, hLast⟩
    rw [pushAll_cons, pushAll_cons, hRule.push_eq, hRun]

end Nesting

namespace Balanced

open Nesting

/-- Balancing a closed stream repairs nothing but the names of its closes. -/
theorem ofTokens_closed {limit : Nat} {ts : List Token} (h : IsClosed limit ts)
    (hLimit : limit ≤ maxSectionDepth) :
    ofTokens ts = ofRepairs (Nesting.empty.pushAll ts).1 ∧ (ofTokens ts).diagnostics = [] ∧
      (after ts).opened = [] ∧ (after ts).demoted = 0 := by
  have hRun : ts.foldlM (depthAfter? limit) Nesting.empty.depth = some 0 := h
  obtain ⟨-, hSilent, hDemoted, hDepth⟩ := pushAll_inside hRun rfl [] hLimit
  have hOpened : (after ts).opened = [] := List.length_eq_zero_iff.mp hDepth
  have hSame : ofTokens ts = ofRepairs (Nesting.empty.pushAll ts).1 := by
    rw [ofTokens_eq, closeAll, hOpened, List.map_nil, List.append_nil]
  refine ⟨hSame, ?_, hOpened, hDemoted⟩
  rw [hSame]
  exact List.filterMap_eq_nil_iff.mpr hSilent

/-- A closed stream with an open before it and a close after it is balanced as it is by itself, and
the close gets the name of the open. -/
theorem ofTokens_section {limit : Nat} {ts : List Token} (h : IsClosed limit ts)
    (hLimit : limit < maxSectionDepth) (name : String) (k stop : Nat) :
    ofTokens (⟨.opening name, 0, k⟩ :: (ts.map (Token.shift k) ++ endTags stop 1)) =
      ⟨[⟨.opening name, 0, k⟩], []⟩ ++ ((ofTokens ts).shift k ++
        ⟨[⟨.closing (some name), stop, closeTag.utf8ByteSize⟩], []⟩) := by
  obtain ⟨hSame, -, hOpened, hDemoted⟩ := ofTokens_closed h (Nat.le_of_lt hLimit)
  -- The three parts of the run: the open, the stream inside the section, and the close.
  have hOpen : Nesting.empty.push ⟨.opening name, 0, k⟩ =
      (⟨⟨.opening name, 0, k⟩, none⟩, (Nesting.empty.shift k).inside [⟨name, 0⟩]) := by
    simp [push, Nesting.empty, depth, Nesting.shift, Nesting.inside, Token.stop, maxSectionDepth]
  have hShift : (ts.map (Token.shift k)).foldlM (depthAfter? limit)
      (Nesting.empty.shift k).depth = some 0 := by
    rw [foldlM_depthAfter?_shift, depth_shift]
    exact h
  have hLast : ((after ts).shift k).inside [⟨name, 0⟩] = ⟨[⟨name, 0⟩], 0, (after ts).stop + k⟩ := by
    rw [Nesting.inside, Nesting.shift, hOpened, hDemoted]
    rfl
  have hInside : ((Nesting.empty.shift k).inside [⟨name, 0⟩]).pushAll (ts.map (Token.shift k)) =
      ((Nesting.empty.pushAll ts).1.map (Repair.shift k),
        ⟨[⟨name, 0⟩], 0, (after ts).stop + k⟩) := by
    obtain ⟨hRun, -⟩ := pushAll_inside hShift rfl [⟨name, 0⟩] hLimit
    rw [hRun, pushAll_shift, ← hLast]
    rfl
  have hRun : Nesting.empty.pushAll
      (⟨.opening name, 0, k⟩ :: (ts.map (Token.shift k) ++ endTags stop 1)) =
        ([⟨⟨.opening name, 0, k⟩, none⟩] ++ ((Nesting.empty.pushAll ts).1.map (Repair.shift k) ++
            [⟨⟨.closing (some name), stop, closeTag.utf8ByteSize⟩, none⟩]),
          ⟨[], 0, max ((after ts).stop + k) (stop + closeTag.utf8ByteSize)⟩) := by
    rw [pushAll_cons, hOpen, pushAll_append, hInside]
    rfl
  rw [ofTokens_eq, after, hRun, hSame, closeAll, List.map_nil, List.append_nil, ofRepairs_append,
    ofRepairs_append, ofRepairs_shift]
  rfl

end Balanced

/-! ### The tree and the document of a section -/

namespace Template

theorem render_of_diagnostics {raw : String} (h : (compile raw).diagnostics = [])
    (context : Value) : (compile raw).render context = (compile raw).root.render context := by
  rw [render, h]
  rfl

theorem isEmpty_parse_of_ne_dot {name : String} (hName : (Kind.opening name).IsDirective)
    (hDot : name ≠ ".") : (Path.parse name).isEmpty = false := by
  refine Bool.eq_false_iff.mpr fun hEmpty => ?_
  rcases Path.isEmpty_parse_iff.mp hEmpty with rfl | hOnlyDot
  · exact hName.1.1 rfl
  · exact hDot hOnlyDot

section Wrapped

variable {name body : String} (hName : (Kind.opening name).IsDirective)
  (hBody : IsClosed (maxSectionDepth - 1) (scan body))
include hName hBody

theorem diagnostics_compile_section :
    (compile (openTag name ++ body ++ closeTag)).diagnostics = [] ∧
      (compile body).diagnostics = [] := by
  have hLimit : maxSectionDepth - 1 < maxSectionDepth := by decide
  obtain ⟨-, hSilent, -⟩ := Balanced.ofTokens_closed hBody (Nat.le_of_lt hLimit)
  refine ⟨?_, hSilent⟩
  rw [compile, scan_section hName, Balanced.ofTokens_section hBody hLimit]
  show [] ++ ((Balanced.ofTokens (scan body)).diagnostics.map _ ++ []) = []
  rw [hSilent]
  rfl

theorem root_compile_section :
    (compile (openTag name ++ body ++ closeTag)).root =
      .root [.ofName name 0
        (Node.shiftAll (openTag name).utf8ByteSize (compile body).root.children)] := by
  have hLimit : maxSectionDepth - 1 < maxSectionDepth := by decide
  have hNested := Balanced.isNested_ofTokens (scan body)
  rw [compile, scan_section hName, Balanced.ofTokens_section hBody hLimit, compile,
    ← Node.children_ofTokens_shift hNested]
  exact Node.ofTokens_section (hNested.shift _) name 0 _ _ _ _

/-- A section adds to the document what its body makes of each of its passes. -/
theorem render_section_eq_join (context : Value) :
    (compile (openTag name ++ body ++ closeTag)).render context =
      .join (((Scope.ofRoot context).passes name (Path.parse name)).map fun pass =>
        ((compile body).root.renderIn ((Scope.ofRoot context).enter pass)).shift
          (openTag name).utf8ByteSize) := by
  obtain ⟨hWhole, -⟩ := diagnostics_compile_section hName hBody
  have hRoot := root_compile_section hName hBody
  have hHeights := Node.heights_ofTokens
    (Balanced.isNested_ofTokens (scan (openTag name ++ body ++ closeTag)))
  rw [show Node.ofTokens _ = _ from hRoot, Node.root, Node.children, Node.heights_le_iff] at hHeights
  -- The tree with the section around it is within the limit, so the children leave one level free.
  have hRoom := hHeights _ List.mem_cons_self
  rw [Node.ofName, Node.height] at hRoom
  rw [render_of_diagnostics hWhole, Node.render_eq_emitAll, hRoot, Node.root, Node.children,
    Node.emitAll_singleton, Node.ofName, Node.emit, if_neg (by decide)]
  refine congrArg Outcome.join (List.map_congr_left fun pass _ => ?_)
  rw [Node.renderIn_eq_emitAll, ← Node.emitAll_shift]
  exact Node.emitAll_depth _ _ (by omega) (by omega)

theorem render_body_eq_renderIn (context : Value) :
    (compile body).render context = (compile body).root.renderIn (.ofRoot context) :=
  render_of_diagnostics (diagnostics_compile_section hName hBody).2 context

/-- The document is in scope inside its own section as it is outside. -/
theorem render_section_dot (context : Value) (hDot : name = ".") :
    (compile (openTag name ++ body ++ closeTag)).render context =
      ((compile body).render context).shift (openTag name).utf8ByteSize := by
  have hPasses : (Scope.ofRoot context).passes name (Path.parse name) =
      [some ⟨context, .block⟩] := by
    rw [hDot]
    rfl
  rw [render_section_eq_join hName hBody, hPasses, List.map_singleton, Outcome.join_singleton,
    render_body_eq_renderIn hName hBody]
  exact congrArg (Outcome.shift _) (Node.renderIn_push_root _ context)

variable (context : Value) (hDot : name ≠ ".")
include hDot

theorem render_section_of_none
    (h : context.resolve? (Path.parse name).segments = none) :
    (compile (openTag name ++ body ++ closeTag)).render context = .nothing := by
  rw [render_section_eq_join hName hBody,
    Scope.passes_ofRoot context (isEmpty_parse_of_ne_dot hName hDot), h]
  rfl

theorem render_section_of_some {v : Value}
    (h : context.resolve? (Path.parse name).segments = some v) :
    (compile (openTag name ++ body ++ closeTag)).render context =
      .join ((Scope.passesOver name v).map fun pass =>
        ((compile body).root.renderIn ((Scope.ofRoot context).enter pass)).shift
          (openTag name).utf8ByteSize) := by
  rw [render_section_eq_join hName hBody,
    Scope.passes_ofRoot context (isEmpty_parse_of_ne_dot hName hDot), h]
  rfl

end Wrapped

/-- The document of a section. A falsy value leaves it empty, a sequence repeats the body with a
frame for each element, and a mapping puts its fields in scope. Any other value, and the document
itself, shows the body as it is outside the section. -/
theorem render_section (name body : String) (context : Value)
    (hName : (Kind.opening name).IsDirective)
    (hBody : IsClosed (maxSectionDepth - 1) (scan body)) :
    let whole := (compile (openTag name ++ body ++ closeTag)).render context
    let bound := context.resolve? (Path.parse name).segments
    let own := ((compile body).render context).shift (openTag name).utf8ByteSize
    let inside := fun f : Scope.Frame =>
      ((compile body).root.renderIn ((Scope.ofRoot context).push f)).shift
        (openTag name).utf8ByteSize
    whole.unbalancedTags = [] ∧
      (name = "." → whole = own) ∧
      (name ≠ "." →
        (bound = none → whole = .nothing) ∧
        (∀ v, bound = some v → v.IsFalsy → whole = .nothing) ∧
        (∀ items, bound = some (.sequence items) →
          whole = .join (items.mapIdx fun i v => inside ⟨v, .iteration name i⟩)) ∧
        (∀ fields, bound = some (.mapping fields) → fields ≠ .nil →
          whole = inside ⟨.mapping fields, .block⟩) ∧
        (∀ v, bound = some v → v.IsScalar → ¬v.IsFalsy → whole = own)) := by
  intro whole bound own inside
  refine ⟨?_, render_section_dot hName hBody context, fun hDot => ?_⟩
  · show ((compile _).render context).unbalancedTags = []
    rw [render_of_diagnostics (diagnostics_compile_section hName hBody).1]
    exact unbalancedTags_render _ context
  · refine ⟨render_section_of_none hName hBody context hDot, fun v hv hFalsy => ?_,
      fun items hv => ?_, fun fields hv hFields => ?_, fun v hv hScalar hTruthy => ?_⟩
    · refine (render_section_of_some hName hBody context hDot hv).trans ?_
      rw [Scope.passesOver_of_isFalsy hFalsy]
      rfl
    · refine (render_section_of_some hName hBody context hDot hv).trans ?_
      rw [Scope.passesOver_sequence, List.map_map, Scope.map_iterations]
      simp only [Nat.zero_add]
      rfl
    · refine (render_section_of_some hName hBody context hDot hv).trans ?_
      rw [Scope.passesOver_mapping, if_neg (mt FieldsAfter.isEmpty_iff.mp hFields)]
      exact Outcome.join_singleton _
    · have hShown : v.isTruthy = true := by
        rwa [← Bool.not_eq_false, Value.isTruthy_eq_false_iff]
      refine (render_section_of_some hName hBody context hDot hv).trans ?_
      rw [Scope.passesOver_of_isScalar hScalar, if_pos hShown]
      refine (Outcome.join_singleton _).trans ?_
      exact congrArg (Outcome.shift _) (render_body_eq_renderIn hName hBody context).symm

/-- A loop over two elements around a section that only the second one shows. -/
theorem render_section_rows :
    let body := "\x7bindex\x7d\x7b#y\x7d\x7by\x7d\x7bz\x7d\x7b#end\x7d"
    let context := Value.mapping (.ofList
      [("rows", .sequence [.bool true, .mapping (.ofList [("y", .string "é")])])])
    (Kind.opening "rows").IsDirective ∧ IsClosed (maxSectionDepth - 1) (scan body) ∧
      (compile (openTag "rows" ++ body ++ closeTag)).render context =
        ⟨"12é", [.missingVariable "z" 21]⟩ := by
  intro body context
  have hName : (Kind.opening "rows").IsDirective := by
    decide
  have hScan : scan body = [⟨.var "index", 0, 7⟩, ⟨.opening "y", 7, 4⟩, ⟨.var "y", 11, 3⟩,
      ⟨.var "z", 14, 3⟩, ⟨.closing none, 17, 6⟩] := by
    refine Eq.trans (congrArg scan ?_) (scan_toDirectives ?_)
    · decide
    · decide
  have hBody : IsClosed (maxSectionDepth - 1) (scan body) := by
    rw [hScan]
    decide
  obtain ⟨-, -, hBound⟩ := render_section "rows" body context hName hBody
  obtain ⟨-, -, hLoop, -⟩ := hBound (by decide)
  refine ⟨hName, hBody, (hLoop _ rfl).trans ?_⟩
  simp only [compile, hScan]
  decide

end Template
end DocTemplate
