import DocTemplate.Template.Compiled
import DocTemplate.Proofs.Data.Fields
import DocTemplate.Proofs.Rendering.Simulation
import DocTemplate.Proofs.Template.Scan

/-! Data that a template does not refer to. The document's data is in scope everywhere, but every
look-up in it begins with the first segment of some path of the tree. Two mappings that differ in
one key, which is the first segment of no path, therefore lead to the same frames in every section,
the frames of the data itself apart, and so to the same document. -/

namespace DocTemplate

namespace FieldsAfter

variable {α : Type} {before : Option String}

/-- The fields after a key, in the place of that key. -/
def inPlace {key : String} (h : Follows before key) :
    FieldsAfter α (some key) → FieldsAfter α before
  | nil => nil
  | cons k hk v rest => cons k (h.trans_lt (follows_some.mp hk)) v rest

/-- The fields with other keys. -/
def erase (key : String) {before : Option String} : FieldsAfter α before → FieldsAfter α before
  | nil => nil
  | cons k hk v rest => if k = key then rest.inPlace hk else cons k hk v (rest.erase key)

theorem get?_inPlace {key : String} (h : Follows before key) (k : String)
    (fields : FieldsAfter α (some key)) : (fields.inPlace h).get? k = fields.get? k := by
  cases fields <;> rfl

theorem get?_erase {key k : String} (hk : k ≠ key) (fields : FieldsAfter α before) :
    (fields.erase key).get? k = fields.get? k := by
  induction fields with
  | nil => rfl
  | cons other hOther v rest ih =>
    rw [erase, get?]
    split
    · next hSame =>
      subst hSame
      rw [get?_inPlace, if_neg hk.symm]
    · rw [get?, ih]

end FieldsAfter

namespace Fields

/-- The same value, or none, under every key but one. -/
def AgreeOff (key : String) (fs gs : Fields) : Prop :=
  ∀ k, k ≠ key → fs.get? k = gs.get? k

theorem agreeOff_put (key : String) (v : Value) (fields : Fields) :
    AgreeOff key (fields.put key v) fields := by
  intro k hk
  rw [FieldsAfter.get?_put, if_neg hk.symm]

theorem agreeOff_erase (key : String) (fields : Fields) :
    AgreeOff key (fields.erase key) fields :=
  fun _ hk => FieldsAfter.get?_erase hk fields

end Fields

/-- A path that does not begin with `key`. A path without segments begins with no key. -/
def Path.Avoids (key : String) (p : Path) : Prop := p.segments.head? ≠ some key

instance (key : String) (p : Path) : Decidable (p.Avoids key) :=
  inferInstanceAs (Decidable (p.segments.head? ≠ some key))

theorem Value.resolve?_agreeOff {key : String} {fs gs : Fields} (h : Fields.AgreeOff key fs gs)
    {p : Path} (hPath : p.Avoids key) (hSegments : p.isEmpty = false) :
    (Value.mapping fs).resolve? p.segments = (Value.mapping gs).resolve? p.segments := by
  obtain ⟨segments, anchored⟩ := p
  cases segments with
  | nil => simp [Path.isEmpty] at hSegments
  | cons segment segments =>
    have hSegment : segment ≠ key := fun hEq => hPath (congrArg some hEq)
    rw [resolve?_cons, resolve?_cons, member?, member?, h segment hSegment]

namespace Scope

/-- The same frame, or the document's data as it is in two renderings. -/
inductive Frame.AgreeOff (key : String) : Frame → Frame → Prop
  | same (f : Frame) : AgreeOff key f f
  | document {fs gs : Fields} (h : Fields.AgreeOff key fs gs) :
    AgreeOff key ⟨.mapping fs, .block⟩ ⟨.mapping gs, .block⟩

structure AgreeOff (key : String) (s s' : Scope) : Prop where
  root : Frame.AgreeOff key ⟨s.root, .block⟩ ⟨s'.root, .block⟩
  inner : List.Forall₂ (Frame.AgreeOff key) s.inner s'.inner

variable {key : String}

theorem Frame.AgreeOff.lookup? {f g : Frame} (h : f.AgreeOff key g) {p : Path}
    (hPath : p.Avoids key) (hSegments : p.isEmpty = false) : f.lookup? p = g.lookup? p := by
  cases h with
  | same => rfl
  | document hFields =>
    rw [lookup?_block, lookup?_block, Value.resolve?_agreeOff hFields hPath hSegments]

theorem findSome?_agreeOff {fs gs : List Frame} (h : List.Forall₂ (Frame.AgreeOff key) fs gs)
    {p : Path} (hPath : p.Avoids key) (hSegments : p.isEmpty = false) :
    (fs.findSome? fun f => f.lookup? p) = gs.findSome? fun g => g.lookup? p := by
  induction h with
  | nil => rfl
  | cons hHead _ ih =>
    rw [List.findSome?_cons, List.findSome?_cons, hHead.lookup? hPath hSegments, ih]

theorem AgreeOff.lookup? {s s' : Scope} (h : AgreeOff key s s') {p : Path}
    (hPath : p.Avoids key) (hSegments : p.isEmpty = false) : s.lookup? p = s'.lookup? p := by
  rw [Scope.lookup?, Scope.lookup?]
  split
  · have hRoot := h.root.lookup? hPath hSegments
    rwa [Frame.lookup?_block, Frame.lookup?_block] at hRoot
  · exact findSome?_agreeOff (List.rel_append h.inner (.cons h.root .nil)) hPath hSegments

theorem AgreeOff.push {s s' : Scope} (h : AgreeOff key s s') {f g : Frame}
    (hFrame : f.AgreeOff key g) : AgreeOff key (s.push f) (s'.push g) :=
  ⟨h.root, .cons hFrame h.inner⟩

theorem AgreeOff.enter {s s' : Scope} (h : AgreeOff key s s') (pass : Pass) :
    AgreeOff key (s.enter pass) (s'.enter pass) := by
  cases pass with
  | none => exact h
  | some f => exact h.push (.same f)

/-- A section whose name has a value has the same passes in both scopes. Only the section of the
document itself is passed with two different frames. -/
theorem AgreeOff.passes {s s' : Scope} (h : AgreeOff key s s') (name : String) {path : Path}
    (hPath : path.Avoids key) :
    List.Forall₂ (fun pass pass' => AgreeOff key (s.enter pass) (s'.enter pass'))
      (s.passes name path) (s'.passes name path) := by
  rw [Scope.passes, Scope.passes]
  split
  · split
    · exact .cons (h.push h.root) .nil
    · exact .cons h .nil
  · next hSegments =>
    rw [h.lookup? hPath (by simpa using hSegments)]
    exact List.forall₂_same.mpr fun pass _ => h.enter pass

theorem AgreeOff.simulation : Simulation (Path.Avoids key) (AgreeOff key) Eq where
  refl _ := rfl
  append ha hb := by rw [ha, hb]
  var h path position depth hPath := by
    rw [Node.emit, Node.emit]
    split
    · rfl
    · next hSegments => rw [h.lookup? hPath (by simpa using hSegments)]
  passes h name _ hPath := h.passes name hPath

end Scope

theorem Node.render_agreeOff {key : String} {fs gs : Fields} (h : Fields.AgreeOff key fs gs)
    {n : Node} (hPaths : AllWithin (Path.Avoids key) n.children) :
    n.render (.mapping fs) = n.render (.mapping gs) := by
  have hScope : Scope.AgreeOff key (.ofRoot (.mapping fs)) (.ofRoot (.mapping gs)) :=
    ⟨.document h, .nil⟩
  rw [render_eq_emitAll, render_eq_emitAll]
  exact Scope.AgreeOff.simulation.emitAll hScope 0 n.children hPaths

/-- A key that no path of a template begins with can be bound to any value, removed, or both, and
the document stays the same. -/
theorem Template.render_of_unreferenced {t : Template} {key : String}
    (h : Node.AllWithin (Path.Avoids key) t.root.children) (fields : Fields) :
    (∀ v, t.render (.mapping (fields.put key v)) = t.render (.mapping fields)) ∧
      t.render (.mapping (fields.erase key)) = t.render (.mapping fields) ∧
      ∀ gs, Fields.AgreeOff key gs fields →
        t.render (.mapping gs) = t.render (.mapping fields) := by
  have hRender : ∀ gs, Fields.AgreeOff key gs fields →
      t.render (.mapping gs) = t.render (.mapping fields) := fun gs hAgree => by
    rw [render, render, Node.render_agreeOff hAgree h]
  exact ⟨fun v => hRender _ (Fields.agreeOff_put key v fields),
    hRender _ (Fields.agreeOff_erase key fields), hRender⟩

/-- The key as a later segment, under the names that a loop gives its element, and a section that
brings the document back into scope inside the loop. -/
theorem Template.render_of_unreferenced_later_segment :
    let raw := "\x7b#r\x7d\x7br.k\x7d\x7bitem.k\x7d\x7b#.\x7d\x7bx\x7d\x7b#end\x7d\x7b#end\x7d"
    let t := compile raw
    let row := Value.mapping (.ofList [("k", .number (.int 1))])
    let fields : Fields := .ofList [("r", .sequence [row]), ("x", .string "é")]
    Node.AllWithin (Path.Avoids "k") t.root.children ∧
      (t.render (.mapping fields)).output = "11é" ∧
      (∀ v, t.render (.mapping (fields.put "k" v)) = t.render (.mapping fields)) ∧
      t.render (.mapping ((fields.put "k" (.bool true)).erase "k")) =
        t.render (.mapping (fields.put "k" (.bool true))) := by
  intro raw t row fields
  have hScan : Token.scan raw =
      [⟨.opening "r", 0, 4⟩, ⟨.var "r.k", 4, 5⟩, ⟨.var "item.k", 9, 8⟩, ⟨.opening ".", 17, 4⟩,
        ⟨.var "x", 21, 3⟩, ⟨.closing none, 24, 6⟩, ⟨.closing none, 30, 6⟩] :=
    Token.scan_eq (by decide) (by decide)
  have hRoot : t.root = .root [.ofName "r" 0 [.var (Path.parse "r.k") 4,
      .var (Path.parse "item.k") 9, .ofName "." 17 [.var (Path.parse "x") 21]]] := by
    show Node.ofTokens (Balanced.ofTokens (Token.scan raw)).tokens = _
    rw [hScan]
    rfl
  have hPaths : Node.AllWithin (Path.Avoids "k") t.root.children := by
    have hNames : ∀ name ∈ ["r", "r.k", "item.k", ".", "x"],
        (Path.parse name).Avoids "k" := by
      decide
    rw [hRoot]
    exact ⟨⟨hNames "r" (by simp), hNames "r.k" (by simp), hNames "item.k" (by simp),
      ⟨hNames "." (by simp), hNames "x" (by simp), trivial⟩, trivial⟩, trivial⟩
  refine ⟨hPaths, ?_, (render_of_unreferenced hPaths fields).1,
    (render_of_unreferenced hPaths (fields.put "k" (.bool true))).2.1⟩
  show (t.root.render (.mapping fields)).output = "11é"
  rw [hRoot]
  decide

end DocTemplate
