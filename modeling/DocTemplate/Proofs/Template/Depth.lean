import DocTemplate.Proofs.Rendering.Emission
import DocTemplate.Proofs.Template.Fold
import DocTemplate.Template.Compiled

/-! The depth limit is the compiler's work. The tree of a balanced stream is no higher than the
stream is nested, so the renderer, which has the same limit, never meets it in a compiled tree: what
such a tree adds to a document does not depend on the depth where it stands. -/

namespace DocTemplate

namespace Node

mutual

/-- The number of sections inside one another in a tree. -/
def height : Node → Nat
  | .text _ | .var _ _ => 0
  | .sect _ _ _ children => heights children + 1

def heights : List Node → Nat
  | [] => 0
  | n :: ns => max n.height (heights ns)

end

theorem heights_le_iff {limit : Nat} {ns : List Node} :
    heights ns ≤ limit ↔ ∀ n ∈ ns, n.height ≤ limit := by
  induction ns with
  | nil => simp [heights]
  | cons n ns ih => rw [heights, Nat.max_le, ih, List.forall_mem_cons]

theorem heights_reverse (ns : List Node) : heights ns.reverse = heights ns := by
  refine Nat.le_antisymm (heights_le_iff.mpr fun n hn => ?_) (heights_le_iff.mpr fun n hn => ?_)
  · exact heights_le_iff.mp (Nat.le_refl _) n (List.mem_reverse.mp hn)
  · exact heights_le_iff.mp (Nat.le_refl _) n (List.mem_reverse.mpr hn)

theorem heights_place (n : Node) (ns : List Node) :
    heights (place n ns) = max n.height (heights ns) := by
  rcases place_cases n ns with ⟨hOwn, -⟩ | ⟨s, before, rest, rfl, rfl⟩
  · rw [hOwn]
    rfl
  · show max 0 (heights rest) = max 0 (max 0 (heights rest))
    omega

/-! ### Folding keeps to the limit -/

/-- Each open section has room for its children below the limit. -/
def FramesFit (limit : Nat) : List Frame → Prop
  | [] => True
  | f :: fs => heights f.children + fs.length + 1 ≤ limit ∧ FramesFit limit fs

structure Builder.Fits (limit : Nat) (b : Builder) : Prop where
  top : heights b.top ≤ limit
  frames : FramesFit limit b.frames

theorem Builder.Fits.modify {limit : Nat} {b : Builder} (h : b.Fits limit) {n : Node}
    (hRoom : n.height + b.frames.length ≤ limit) : (b.modify (place n)).Fits limit := by
  obtain ⟨frames, top⟩ := b
  obtain ⟨hTop, hFrames⟩ := h
  cases frames with
  | nil =>
    refine ⟨?_, hFrames⟩
    rw [modify_nil, heights_place]
    exact Nat.max_le.mpr ⟨hRoom, hTop⟩
  | cons frame frames =>
    obtain ⟨hHere, hOuter⟩ := hFrames
    refine ⟨hTop, ?_, hOuter⟩
    rw [List.length_cons] at hRoom
    rw [heights_place]
    omega

theorem Builder.Fits.push {limit : Nat} {b : Builder} (h : b.Fits limit) {t : Token}
    {names : List String} (hRead : Balanced.read? (b.frames.map Frame.name) t = some names)
    (hRoom : names.length ≤ limit) : (b.push t).Fits limit := by
  obtain ⟨kind, start, length⟩ := t
  cases kind with
  | literal s =>
    cases hRead
    rw [List.length_map] at hRoom
    rw [push_literal]
    split
    · exact h
    · refine h.modify ?_
      rwa [height, Nat.zero_add]
  | var path =>
    cases hRead
    rw [List.length_map] at hRoom
    rw [push_var]
    refine h.modify ?_
    rwa [height, Nat.zero_add]
  | opening name =>
    cases hRead
    rw [List.length_cons, List.length_map] at hRoom
    refine ⟨h.top, ?_, h.frames⟩
    rw [heights]
    omega
  | closing name =>
    obtain ⟨frames, top⟩ := b
    cases frames with
    | nil => exact h
    | cons frame frames =>
      obtain ⟨hTop, hHere, hOuter⟩ := h
      -- The section that ends has been within the limit with its frame, and so it is without it.
      have hRest : (⟨frames, top⟩ : Builder).Fits limit := ⟨hTop, hOuter⟩
      rw [push_closing, close_cons]
      refine hRest.modify ?_
      rw [ofName, height, heights_reverse]
      show heights frame.children + 1 + frames.length ≤ limit
      omega

theorem Builder.Fits.foldl {limit : Nat} {b : Builder} (h : b.Fits limit) {ts : List Token}
    (hNested : Balanced.IsNested limit (b.frames.map Frame.name) ts) :
    (ts.foldl Builder.push b).Fits limit := by
  induction ts generalizing b with
  | nil => exact h
  | cons t ts ih =>
    obtain ⟨names, hRead, hRoom, hRest⟩ := hNested
    refine ih (h.push hRead hRoom) ?_
    rwa [names_push hRead]

theorem heights_ofTokens {limit : Nat} {ts : List Token} (h : Balanced.IsNested limit [] ts) :
    heights (ofTokens ts).children ≤ limit := by
  have hEmpty : Builder.empty.Fits limit := ⟨Nat.zero_le limit, trivial⟩
  rw [ofTokens_eq_root h, root, children, heights_reverse]
  exact (hEmpty.foldl h).top

/-! ### Trees that fit render alike at any depth -/

mutual

theorem emit_depth (s : Scope) {depth depth' : Nat} : (n : Node) →
    depth + n.height ≤ maxSectionDepth → depth' + n.height ≤ maxSectionDepth →
      n.emit s depth = n.emit s depth'
  | .text t, _, _ => by rw [emit, emit]
  | .var path position, _, _ => by rw [emit, emit]
  | .sect name path position children, h, h' => by
    rw [height] at h h'
    -- At either depth there is room for the section and, one level down, for its children.
    rw [emit, emit, if_neg (by omega), if_neg (by omega)]
    refine congrArg Outcome.join (List.map_congr_left fun pass _ => ?_)
    exact emitAll_depth (s.enter pass) children (by omega) (by omega)

theorem emitAll_depth (s : Scope) {depth depth' : Nat} : (ns : List Node) →
    depth + heights ns ≤ maxSectionDepth → depth' + heights ns ≤ maxSectionDepth →
      emitAll s depth ns = emitAll s depth' ns
  | [], _, _ => by rw [emitAll, emitAll]
  | n :: ns, h, h' => by
    rw [heights] at h h'
    have hHead : n.emit s depth = n.emit s depth' := emit_depth s n (by omega) (by omega)
    have hTail : emitAll s depth ns = emitAll s depth' ns :=
      emitAll_depth s ns (by omega) (by omega)
    rw [emitAll, emitAll, hHead, hTail]

end

mutual

theorem unbalancedTags_emit (s : Scope) (depth : Nat) : (n : Node) →
    depth + n.height ≤ maxSectionDepth → (n.emit s depth).unbalancedTags = []
  | .text t, _ => by
    rw [emit]
    rfl
  | .var path position, _ => by
    rw [emit]
    split
    · rfl
    · cases s.lookup? path <;> rfl
  | .sect name path position children, h => by
    rw [height] at h
    rw [emit, if_neg (by omega)]
    refine Outcome.unbalancedTags_join (List.forall_mem_map.mpr fun pass _ => ?_)
    exact unbalancedTags_emitAll (s.enter pass) (depth + 1) children (by omega)

theorem unbalancedTags_emitAll (s : Scope) (depth : Nat) : (ns : List Node) →
    depth + heights ns ≤ maxSectionDepth → (emitAll s depth ns).unbalancedTags = []
  | [], _ => by
    rw [emitAll]
    rfl
  | n :: ns, h => by
    rw [heights] at h
    have hHead := unbalancedTags_emit s depth n (by omega)
    have hTail := unbalancedTags_emitAll s depth ns (by omega)
    rw [emitAll, Outcome.unbalancedTags_append, hHead, hTail, List.append_nil]

end

end Node

namespace Template

/-- The renderer reports no section of a compiled template as too deep. -/
theorem unbalancedTags_render (raw : String) (context : Value) :
    ((compile raw).root.render context).unbalancedTags = [] := by
  have hHeights := Node.heights_ofTokens (Balanced.isNested_ofTokens (Token.scan raw))
  rw [Node.render_eq_emitAll]
  exact Node.unbalancedTags_emitAll _ 0 _ (by rwa [Nat.zero_add])

theorem kind_diagnostics_render (raw : String) (context : Value) :
    ∀ d ∈ ((compile raw).root.render context).diagnostics, d.kind = .missingVariable := by
  intro d hd
  cases hKind : d.kind with
  | missingVariable => rfl
  | unbalancedTag =>
    have hTag : d ∈ ((compile raw).root.render context).unbalancedTags :=
      List.mem_filter.mpr ⟨hd, beq_iff_eq.mpr hKind⟩
    rw [unbalancedTags_render] at hTag
    contradiction

end Template
end DocTemplate
