import DocTemplate.Proofs.Rendering.Visit
import DocTemplate.Proofs.Template.Repair

/-! Falling back to the sections around. A frame gives values to paths by four rules, and a path to
which it gives none is looked up in the frames around it, down to the document's data. So entering a
section hides values but takes none away, leaving it brings back what was there, and what the
document itself defines is found everywhere. -/

namespace DocTemplate

namespace Path

/-- Only a path of two segments or more has a head to strip. -/
theorem stripHead?_eq_some_iff {p q : Path} {head : String} :
    p.stripHead? head = some q ↔
      ∃ rest, rest ≠ [] ∧ p.segments = head :: rest ∧ q = ofSegments rest := by
  obtain ⟨segments, anchored⟩ := p
  match segments with
  | [] => simp [stripHead?]
  | [first] =>
    simp only [stripHead?, List.cons.injEq, reduceCtorEq, false_iff]
    rintro ⟨rest, hne, ⟨-, rfl⟩, -⟩
    exact hne rfl
  | first :: second :: rest =>
    simp only [stripHead?]
    constructor
    · intro h
      split at h
      · next hHead => exact ⟨second :: rest, by simp, by rw [hHead], (Option.some.inj h).symm⟩
      · contradiction
    · rintro ⟨others, -, hSegments, rfl⟩
      obtain ⟨rfl, rfl⟩ := List.cons.inj hSegments
      rw [if_pos rfl]

end Path

namespace Scope

open DocTemplate.Path

/-! ### The rules of a frame -/

/-- The element of a loop goes by the word `item` and by the last part of the section's name. -/
theorem elementPath?_eq_some_iff {sect : String} {p q : Path} :
    elementPath? sect p = some q ↔ ∃ word rest, (word = itemWord ∨ word = lastPart sect) ∧
      rest ≠ [] ∧ p.segments = word :: rest ∧ q = ofSegments rest := by
  rw [elementPath?, Option.or_eq_some_iff]
  constructor
  · rintro (hItem | ⟨-, hLast⟩)
    · obtain ⟨rest, h⟩ := stripHead?_eq_some_iff.mp hItem
      exact ⟨itemWord, rest, .inl rfl, h⟩
    · obtain ⟨rest, h⟩ := stripHead?_eq_some_iff.mp hLast
      exact ⟨lastPart sect, rest, .inr rfl, h⟩
  · rintro ⟨word, rest, rfl | rfl, h⟩
    · exact .inl (stripHead?_eq_some_iff.mpr ⟨rest, h⟩)
    · cases hItem : p.stripHead? itemWord with
      | none => exact .inr ⟨rfl, stripHead?_eq_some_iff.mpr ⟨rest, h⟩⟩
      | some q' =>
        -- The path begins with both words, so they are the same word.
        obtain ⟨rest', -, hSegments, rfl⟩ := stripHead?_eq_some_iff.mp hItem
        obtain ⟨-, hOther, rfl⟩ := h
        rw [hSegments] at hOther
        rw [(List.cons.inj hOther).2]
        exact .inl rfl

/-- The rules by which a frame gives a value to a path: a field of the frame's value and, in a loop,
the number of the iteration, its element, and a field of the element under a name of the element. -/
inductive Frame.Gives : Frame → Path → Value → Prop
  | field {f : Frame} {p : Path} {v : Value} (found : f.value.resolve? p.segments = some v) :
    Gives f p v
  | index {element : Value} {sect : String} {index : Nat} {p : Path}
    (word : p.segments = [indexWord]) :
    Gives ⟨element, .iteration sect index⟩ p (.number (.int (index + 1)))
  | item {element : Value} {sect : String} {index : Nat} {p : Path}
    (word : p.segments = [itemWord]) : Gives ⟨element, .iteration sect index⟩ p element
  | member {element : Value} {sect : String} {index : Nat} {p : Path} {v : Value} {word : String}
    {rest : List String} (name : word = itemWord ∨ word = lastPart sect) (more : rest ≠ [])
    (segments : p.segments = word :: rest) (found : element.resolve? rest = some v) :
    Gives ⟨element, .iteration sect index⟩ p v

theorem Frame.gives_of_lookup? {f : Frame} {p : Path} {v : Value} (h : f.lookup? p = some v) :
    f.Gives p v := by
  obtain ⟨value, binding⟩ := f
  rw [Frame.lookup?] at h
  split at h
  · next found => exact .field (found.trans h)
  · cases binding with
    | block => contradiction
    | iteration sect index =>
      simp only [iterationValue?] at h
      split at h
      · next word =>
        rw [← Option.some.inj h]
        exact .index word
      · split at h
        · next word =>
          rw [← Option.some.inj h]
          exact .item word
        · obtain ⟨q, hPath, found⟩ := Option.bind_eq_some_iff.mp h
          obtain ⟨word, rest, name, more, segments, rfl⟩ := elementPath?_eq_some_iff.mp hPath
          exact .member name more segments found

theorem Frame.isSome_lookup?_of_iterationValue? {element : Value} {sect : String} {index : Nat}
    {p : Path} (h : (iterationValue? sect index element p).isSome) :
    ((⟨element, .iteration sect index⟩ : Frame).lookup? p).isSome := by
  rw [Frame.lookup?]
  split
  · rfl
  · exact h

/-- What the element has at a path is bound to a name of the element followed by that path. -/
theorem iterationValue?_member {element v : Value} {sect word : String} {index : Nat} {p : Path}
    {rest : List String} (name : word = itemWord ∨ word = lastPart sect) (more : rest ≠ [])
    (segments : p.segments = word :: rest) (found : element.resolve? rest = some v) :
    iterationValue? sect index element p = some v := by
  rw [iterationValue?, if_neg (by simp [segments, more]), if_neg (by simp [segments, more]),
    elementPath?_eq_some_iff.mpr ⟨_, _, name, more, segments, rfl⟩, Option.bind_some]
  exact found

theorem Frame.Gives.isSome {f : Frame} {p : Path} {v : Value} (h : f.Gives p v) :
    (f.lookup? p).isSome := by
  cases h with
  | field found => rw [Frame.lookup?, found]; rfl
  | index word =>
    refine isSome_lookup?_of_iterationValue? ?_
    rw [iterationValue?, if_pos word]
    rfl
  | item word =>
    refine isSome_lookup?_of_iterationValue? ?_
    rw [iterationValue?, if_neg (by rw [word]; decide), if_pos word]
    rfl
  | member name more segments found =>
    refine isSome_lookup?_of_iterationValue? ?_
    rw [iterationValue?_member name more segments found]
    rfl

theorem Frame.lookup?_eq_none_iff {f : Frame} {p : Path} :
    f.lookup? p = none ↔ ∀ v, ¬f.Gives p v := by
  constructor
  · intro h v hGives
    have hSome := hGives.isSome
    rw [h] at hSome
    contradiction
  · intro h
    cases hFound : f.lookup? p with
    | none => rfl
    | some v => exact absurd (Frame.gives_of_lookup? hFound) (h v)

/-! ### Entering and leaving -/

theorem isSome_lookup?_push {s : Scope} {p : Path} (h : (s.lookup? p).isSome) (f : Frame) :
    ((s.push f).lookup? p).isSome := by
  cases hAnchored : p.anchored with
  | true =>
    rw [lookup?_anchored _ hAnchored] at h ⊢
    exact h
  | false =>
    rw [lookup?_push _ _ hAnchored, Option.isSome_or, h, Bool.or_true]

theorem lookup?_push_of_not_gives {s : Scope} {f : Frame} {p : Path} (h : ∀ v, ¬f.Gives p v) :
    (s.push f).lookup? p = s.lookup? p := by
  cases hAnchored : p.anchored with
  | true =>
    rw [lookup?_anchored _ hAnchored, lookup?_anchored _ hAnchored]
    rfl
  | false => rw [lookup?_push _ _ hAnchored, Frame.lookup?_eq_none_iff.mpr h, Option.none_or]

theorem pop_push (s : Scope) (f : Frame) : (s.push f).pop = s := rfl

/-- What the document defines is found in every scope over it. -/
theorem isSome_lookup?_of_root {s : Scope} {p : Path} (h : (s.root.resolve? p.segments).isSome) :
    (s.lookup? p).isSome := by
  obtain ⟨root, inner⟩ := s
  induction inner with
  | nil =>
    show ((ofRoot root).lookup? p).isSome
    rwa [lookup?_ofRoot]
  | cons f inner ih => exact isSome_lookup?_push (s := ⟨root, inner⟩) (ih h) f

/-- The scopes over a document: sections are entered with any frames and left, also more often than
they were entered. -/
inductive Over (root : Value) : Scope → Prop
  | start : Over root (ofRoot root)
  | push {s : Scope} (h : Over root s) (f : Frame) : Over root (s.push f)
  | pop {s : Scope} (h : Over root s) : Over root s.pop

theorem Over.root_eq {root : Value} {s : Scope} (h : Over root s) : s.root = root := by
  induction h with
  | start => rfl
  | push _ f ih => exact ih
  | pop _ ih => exact ih

/-- Leaving all sections, and then leaving more, ends at the document. -/
theorem iterate_pop (root : Value) (inner : List Frame) (n : Nat) :
    pop^[n] ⟨root, inner⟩ = ⟨root, inner.drop n⟩ := by
  induction n generalizing inner with
  | zero => rfl
  | succ n ih =>
    rw [Function.iterate_succ_apply]
    show pop^[n] ⟨root, inner.tail⟩ = _
    rw [ih, List.drop_tail]

theorem Over.iterate_pop_eq {root : Value} {s : Scope} (h : Over root s) {n : Nat}
    (hDepth : s.depth ≤ n + 1) : Scope.pop^[n] s = ofRoot root := by
  obtain ⟨root', inner⟩ := s
  obtain rfl : root' = root := h.root_eq
  have hLength : inner.length ≤ n := by simpa [depth] using hDepth
  rw [iterate_pop, List.drop_eq_nil_of_le hLength, ofRoot]

end Scope

/-! ### Variables of the document -/

/-- The paths of a compiled template are written in it as they were read. -/
theorem Template.isRead_compile (raw : String) :
    Node.EachAll (fun path _ => path.IsRead) (fun _ path _ => path.IsRead)
      (compile raw).root.children := by
  refine Node.eachAll_ofTokens fun t _ => ?_
  obtain ⟨kind, start, length⟩ := t
  cases kind with
  | literal | closing => trivial
  | var path => exact Path.isRead_parse path
  | opening name => exact Path.isRead_parse name

/-- Scopes over a document fall back to the scopes around them and at last to the document, and so
no variable that the document defines is ever reported as missing. -/
theorem Scope.lookup?_fallback (root : Value) :
    (∀ s, Over root s → ∀ p : Path,
      (p.anchored = true → s.lookup? p = root.resolve? p.segments) ∧
      (∀ f, (s.lookup? p).isSome → ((s.push f).lookup? p).isSome) ∧
      (∀ f : Frame, (∀ v, ¬f.Gives p v) → (s.push f).lookup? p = s.lookup? p) ∧
      (∀ f, (s.push f).pop.lookup? p = s.lookup? p) ∧
      ∀ n, s.depth ≤ n + 1 → pop^[n] s = ofRoot root) ∧
    (∀ (n : Node) (k : Nat) (r : Rendering) (path : Path) (position : Nat),
      (Rendering.start root).Visits n.children k r (.var path position) →
        (root.resolve? path.segments).isSome → r.reported? (.var path position) = none) ∧
    ∀ (raw : String), ∀ d ∈ ((Template.compile raw).render root).diagnostics,
      d.kind = .missingVariable → root.resolve? (Path.parse d.path).segments = none := by
  have hDefined : ∀ {n : Node} {k : Nat} {r : Rendering} {m : Node} {path : Path},
      (Rendering.start root).Visits n.children k r m →
        (root.resolve? path.segments).isSome → (r.scope.lookup? path).isSome := by
    intro n k r m path hVisit hRoot
    refine isSome_lookup?_of_root ?_
    rwa [hVisit.root]
  refine ⟨fun s h p => ⟨fun hAnchored => ?_, fun f hSome => isSome_lookup?_push hSome f,
    fun f => lookup?_push_of_not_gives, fun f => by rw [pop_push], fun n => h.iterate_pop_eq⟩,
    fun n k r path position hVisit hRoot => ?_, fun raw d hd hKind => ?_⟩
  · rw [lookup?_anchored _ hAnchored, h.root_eq]
  · rw [Rendering.reported?, hDefined hVisit hRoot, Bool.or_true, if_pos rfl]
  · rcases List.mem_append.mp hd with hRepair | hData
    · rw [Template.kind_diagnostics_compile raw d hRepair] at hKind
      contradiction
    · obtain ⟨k, r, m, hVisit, hReport⟩ := Node.mem_diagnostics_render.mp hData
      obtain ⟨path, position, rfl, rfl, hMissing⟩ :=
        Rendering.reported?_eq_missingVariable hReport hKind
      have hRead : Path.parse path.text = path := hVisit.each (Template.isRead_compile raw)
      show root.resolve? (Path.parse path.text).segments = none
      rw [hRead]
      by_contra hRoot
      have hFound := hDefined hVisit (Option.isSome_iff_ne_none.mpr hRoot)
      rw [hMissing] at hFound
      contradiction

/-- The second pass of a loop whose elements know nothing of the document's total, in a scope that
was left more often than entered. -/
theorem Scope.lookup?_fallback_in_loop :
    let items := [.mapping (.ofList [("sku", .string "é")]), .null]
    let root := Value.mapping (.ofList [("items", .sequence items), ("total", .number (.int 2))])
    let first : Frame := ⟨.mapping (.ofList [("sku", .string "é")]), .iteration "items" 0⟩
    let second : Frame := ⟨.null, .iteration "items" 1⟩
    let s := ((ofRoot root).push first).pop.pop
    let p := Path.parse "total"
    let n := Node.root [.ofName "items" 0 [.var p 8, .var (Path.parse "sku") 15]]
    let raw := "\x7b#items\x7d\x7btotal\x7d\x7bsku\x7d\x7b#end\x7d"
    Over root s ∧ (s.push second).lookup? (Path.parse ".total") = some (.number (.int 2)) ∧
      ((s.push second).lookup? p).isSome ∧ (s.push second).lookup? p = s.lookup? p ∧
      (s.push second).pop.lookup? p = s.lookup? p ∧ pop^[3] s = ofRoot root ∧
      (∃ k r, (Rendering.start root).Visits n.children k r (.var p 8) ∧
        r.scope.inner = [second] ∧ r.reported? (.var p 8) = none) ∧
      .missingVariable "sku" 15 ∈ ((Template.compile raw).render root).diagnostics ∧
      root.resolve? (Path.parse "sku").segments = none := by
  intro items root first second s p n raw
  have hOver : Over root s := ((Over.start.push first).pop).pop
  obtain ⟨hScopes, hVisits, hTemplates⟩ := lookup?_fallback root
  obtain ⟨-, hFound, hHidden, hLeft, hBottom⟩ := hScopes s hOver p
  have hAnchored := (hScopes (s.push second) (hOver.push second) (Path.parse ".total")).1 rfl
  have hVisit : (Rendering.start root).Visits n.children 1
      ((Rendering.start root).atPass [.var p 8, .var (Path.parse "sku") 15] [some first]
        (some second)) (.var p 8) :=
    .inside (by decide) rfl (.here _ _ _)
  have hScan : Token.scan raw =
      [⟨.opening "items", 0, 8⟩, ⟨.var "total", 8, 7⟩, ⟨.var "sku", 15, 5⟩,
        ⟨.closing none, 20, 6⟩] :=
    Token.scan_eq (by decide) (by decide)
  have hMissing :
      .missingVariable "sku" 15 ∈ ((Template.compile raw).render root).diagnostics := by
    have hRoot : (Template.compile raw).root = n := by
      show Node.ofTokens (Balanced.ofTokens (Token.scan raw)).tokens = _
      rw [hScan]
      rfl
    refine List.mem_append_right _ ?_
    rw [hRoot]
    decide
  refine ⟨hOver, hAnchored, hFound second (by decide), hHidden second ?_, hLeft second,
    hBottom 3 (by decide), ⟨1, _, hVisit, rfl, hVisits n 1 _ p 8 hVisit (by decide)⟩, hMissing,
    hTemplates raw _ hMissing rfl⟩
  exact Frame.lookup?_eq_none_iff.mp (by decide)

end DocTemplate
