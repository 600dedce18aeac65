import DocTemplate.Template.Compiled
import DocTemplate.Proofs.Rendering.Simulation

/-! Diagnostics tell the shape of the data and nothing else. Two values are similar if they hold the
same keys and as many elements all the way down and their scalars are shown or hidden alike. Similar
data lead every template through the same sections to the same variables, found or missing, so that
the same is reported whatever the scalars say. -/

namespace DocTemplate

namespace Value

/-- The same structure, with scalars that are true alike in the places of scalars. -/
inductive Similar : Value → Value → Prop
  | scalar {v w : Value} (left : v.IsScalar) (right : w.IsScalar)
    (truthy : v.isTruthy = w.isTruthy) : Similar v w
  | sequence {vs ws : List Value} (length : vs.length = ws.length)
    (items : ∀ (i : Nat) (v w : Value), vs[i]? = some v → ws[i]? = some w → Similar v w) :
    Similar (.sequence vs) (.sequence ws)
  | mapping {fs gs : Fields}
    (keys : ∀ key, (fs.get? key).isSome = (gs.get? key).isSome)
    (fields : ∀ (key : String) (v w : Value), fs.get? key = some v →
      gs.get? key = some w → Similar v w) :
    Similar (.mapping fs) (.mapping gs)

/-! ### What similar values have in common -/

theorem isEmpty_of_keys {fs gs : Fields}
    (h : ∀ key, (fs.get? key).isSome = (gs.get? key).isSome) : fs.isEmpty = gs.isEmpty := by
  cases fs with
  | nil =>
    cases gs with
    | nil => rfl
    | cons key _ w gs => simpa [FieldsAfter.get?] using h key
  | cons key _ v fs =>
    cases gs with
    | nil => simpa [FieldsAfter.get?] using h key
    | cons => rfl

theorem Similar.isTruthy {v w : Value} (h : Similar v w) : v.isTruthy = w.isTruthy := by
  cases h with
  | scalar _ _ truthy => exact truthy
  | sequence length _ =>
    rw [Value.isTruthy, Value.isTruthy, Bool.not_inj_iff, Bool.eq_iff_iff,
      List.isEmpty_iff_length_eq_zero, List.isEmpty_iff_length_eq_zero, length]
  | mapping keys _ => rw [Value.isTruthy, Value.isTruthy, isEmpty_of_keys keys]

theorem member?_of_isScalar {v : Value} (h : v.IsScalar) (segment : String) :
    v.member? segment = none := by
  cases v with
  | null | bool | number | string => rfl
  | sequence | mapping => exact h.elim

theorem Similar.forall₂ {vs ws : List Value} (h : Similar (.sequence vs) (.sequence ws)) :
    List.Forall₂ Similar vs ws := by
  cases h with
  | scalar left => exact left.elim
  | sequence length items =>
    refine List.forall₂_iff_get.mpr ⟨length, fun i hv hw => items i _ _ ?_ ?_⟩
    · exact List.getElem?_eq_getElem hv
    · exact List.getElem?_eq_getElem hw

/-- Similar values where both are found, and found in both or in neither. -/
theorem rel_of_isSome {v w : Option Value} (hSome : v.isSome = w.isSome)
    (h : ∀ a b, v = some a → w = some b → Similar a b) : Option.Rel Similar v w := by
  cases v with
  | none =>
    cases w with
    | none => exact .none
    | some b => simp at hSome
  | some a =>
    cases w with
    | none => simp at hSome
    | some b => exact .some (h a b rfl rfl)

theorem rel_cases {v w : Option Value} (h : Option.Rel Similar v w) :
    (v = none ∧ w = none) ∨ ∃ a b, v = some a ∧ w = some b ∧ Similar a b := by
  cases h with
  | none => exact .inl ⟨rfl, rfl⟩
  | some hSimilar => exact .inr ⟨_, _, rfl, rfl, hSimilar⟩

theorem rel_bind {v w : Option Value} {f g : Value → Option Value} (h : Option.Rel Similar v w)
    (hNext : ∀ a b, Similar a b → Option.Rel Similar (f a) (g b)) :
    Option.Rel Similar (v.bind f) (w.bind g) := by
  cases h with
  | none => exact .none
  | some hSimilar => exact hNext _ _ hSimilar

theorem Similar.member? {v w : Value} (h : Similar v w) (segment : String) :
    Option.Rel Similar (v.member? segment) (w.member? segment) := by
  cases h with
  | scalar left right _ =>
    rw [member?_of_isScalar left, member?_of_isScalar right]
    exact .none
  | mapping keys fields => exact rel_of_isSome (keys segment) (fields segment)
  | sequence length items =>
    rw [Value.member?, Value.member?]
    cases index? segment with
    | none => exact .none
    | some i =>
      refine rel_of_isSome ?_ (items i)
      rw [Bool.eq_iff_iff]
      simp [length]

theorem Similar.resolve? {v w : Value} (h : Similar v w) (segments : List String) :
    Option.Rel Similar (v.resolve? segments) (w.resolve? segments) := by
  induction segments generalizing v w with
  | nil => exact .some h
  | cons segment segments ih =>
    rw [resolve?_cons, resolve?_cons]
    exact rel_bind (h.member? segment) fun a b hMember => ih hMember

end Value

/-! ### Similar scopes -/

namespace Scope

open Value

/-- Frames that came about in the same way, with similar values. -/
structure Frame.Similar (f g : Frame) : Prop where
  value : f.value.Similar g.value
  binding : f.binding = g.binding

structure Similar (s s' : Scope) : Prop where
  root : s.root.Similar s'.root
  inner : List.Forall₂ Frame.Similar s.inner s'.inner

theorem similar_iterationValue? {v w : Value} (h : v.Similar w) (sect : String) (index : Nat)
    (p : Path) :
    Option.Rel Value.Similar (iterationValue? sect index v p) (iterationValue? sect index w p) := by
  rw [iterationValue?, iterationValue?]
  split
  · exact .some (.scalar trivial trivial rfl)
  · split
    · exact .some h
    · cases elementPath? sect p with
      | none => exact .none
      | some rest => exact h.resolve? rest.segments

theorem Frame.Similar.lookup? {f g : Frame} (h : f.Similar g) (p : Path) :
    Option.Rel Value.Similar (f.lookup? p) (g.lookup? p) := by
  obtain ⟨v, binding⟩ := f
  obtain ⟨w, binding'⟩ := g
  obtain ⟨hValue, hBinding⟩ := h
  obtain rfl : binding = binding' := hBinding
  have hField : Option.Rel Value.Similar (v.resolve? p.segments) (w.resolve? p.segments) :=
    hValue.resolve? p.segments
  rw [Frame.lookup?, Frame.lookup?]
  rcases rel_cases hField with ⟨hv, hw⟩ | ⟨a, b, hv, hw, hSimilar⟩
  · -- A field in neither value, so that the words of a loop come next.
    rw [hv, hw]
    cases binding with
    | block => exact .none
    | iteration sect index => exact similar_iterationValue? hValue sect index p
  · rw [hv, hw]
    exact .some hSimilar

theorem similar_findSome? {fs gs : List Frame} (h : List.Forall₂ Frame.Similar fs gs) (p : Path) :
    Option.Rel Value.Similar (fs.findSome? fun f => f.lookup? p)
      (gs.findSome? fun g => g.lookup? p) := by
  induction h with
  | nil => exact .none
  | @cons f g fs gs hHead _ ih =>
    rw [List.findSome?_cons, List.findSome?_cons]
    rcases rel_cases (hHead.lookup? p) with ⟨hf, hg⟩ | ⟨a, b, hf, hg, hSimilar⟩
    · rw [hf, hg]
      exact ih
    · rw [hf, hg]
      exact .some hSimilar

theorem Similar.frames {s s' : Scope} (h : Similar s s') :
    List.Forall₂ Frame.Similar s.frames s'.frames := by
  have hRoot : Frame.Similar ⟨s.root, .block⟩ ⟨s'.root, .block⟩ := ⟨h.root, rfl⟩
  exact List.rel_append h.inner (.cons hRoot .nil)

theorem Similar.lookup? {s s' : Scope} (h : Similar s s') (p : Path) :
    Option.Rel Value.Similar (s.lookup? p) (s'.lookup? p) := by
  rw [Scope.lookup?, Scope.lookup?]
  split
  · exact h.root.resolve? p.segments
  · exact similar_findSome? h.frames p

theorem Similar.push {s s' : Scope} (h : Similar s s') {f g : Frame} (hFrame : f.Similar g) :
    Similar (s.push f) (s'.push g) :=
  ⟨h.root, .cons hFrame h.inner⟩

theorem similar_iterations {vs ws : List Value} (h : List.Forall₂ Value.Similar vs ws)
    (sect : String) (index : Nat) :
    List.Forall₂ Frame.Similar (iterations sect index vs) (iterations sect index ws) := by
  induction h generalizing index with
  | nil => exact .nil
  | cons hHead _ ih => exact .cons ⟨hHead, rfl⟩ (ih (index + 1))

/-- Passes that enter similar frames, or no frame. -/
theorem similar_passesOver {v w : Value} (h : v.Similar w) (sect : String) :
    List.Forall₂ (Option.Rel Frame.Similar) (passesOver sect v) (passesOver sect w) := by
  have hTruthy := h.isTruthy
  cases h with
  | scalar left right _ =>
    rw [passesOver_of_isScalar left, passesOver_of_isScalar right, hTruthy]
    split
    · exact .cons .none .nil
    · exact .nil
  | sequence length items =>
    rw [passesOver_sequence, passesOver_sequence]
    refine List.forall₂_map_left_iff.mpr (List.forall₂_map_right_iff.mpr ?_)
    have hItems := (Value.Similar.sequence length items).forall₂
    exact (similar_iterations hItems sect 0).imp fun _ _ => .some
  | mapping keys fields =>
    rw [passesOver_mapping, passesOver_mapping, isEmpty_of_keys keys]
    split
    · exact .nil
    · exact .cons (.some ⟨.mapping keys fields, rfl⟩) .nil

theorem Similar.passes {s s' : Scope} (h : Similar s s') (name : String) (path : Path) :
    List.Forall₂ (Option.Rel Frame.Similar) (s.passes name path) (s'.passes name path) := by
  rw [Scope.passes, Scope.passes]
  split
  · split
    · exact .cons (.some ⟨h.root, rfl⟩) .nil
    · exact .cons .none .nil
  · rcases rel_cases (h.lookup? path) with ⟨hv, hw⟩ | ⟨a, b, hv, hw, hSimilar⟩
    · rw [hv, hw]
      exact .nil
    · rw [hv, hw]
      exact similar_passesOver hSimilar name

theorem Similar.enter {s s' : Scope} (h : Similar s s') {pass pass' : Pass}
    (hPass : Option.Rel Frame.Similar pass pass') : Similar (s.enter pass) (s'.enter pass') := by
  cases hPass with
  | none => exact h
  | some hFrame => exact h.push hFrame

/-- The two renderings go in step, and what they report is the same. -/
theorem Similar.simulation :
    Simulation (fun _ => True) Similar fun o o' => o.diagnostics = o'.diagnostics where
  refl _ := rfl
  append ha hb := by rw [Outcome.diagnostics_append, Outcome.diagnostics_append, ha, hb]
  var {s s'} h path position depth _ := by
    rw [Node.emit, Node.emit]
    split
    · rfl
    · -- What is written may differ, but a value is found in both or reported missing in both.
      rcases rel_cases (h.lookup? path) with ⟨hv, hw⟩ | ⟨a, b, hv, hw, -⟩
      · rw [hv, hw]
      · rw [hv, hw]
  passes h name path _ := (h.passes name path).imp fun _ _ hPass => h.enter hPass

end Scope

theorem Node.diagnostics_render {c c' : Value} (h : c.Similar c') (n : Node) :
    (n.render c).diagnostics = (n.render c').diagnostics := by
  rw [render_eq_emitAll, render_eq_emitAll]
  exact Scope.Similar.simulation.emitAll ⟨h, .nil⟩ 0 n.children
    (allWithin_of_forall (fun _ => trivial) n.children)

/-! ### Other texts in the same places -/

namespace Value

mutual

/-- The value with `f s` for each of its strings `s`; keys stay. -/
def mapStrings (f : String → String) : Value → Value
  | .null => .null
  | .bool b => .bool b
  | .number n => .number n
  | .string s => .string (f s)
  | .sequence items => .sequence (mapStringsItems f items)
  | .mapping fields => .mapping (mapStringsFields f fields)

def mapStringsItems (f : String → String) : List Value → List Value
  | [] => []
  | v :: vs => v.mapStrings f :: mapStringsItems f vs

def mapStringsFields (f : String → String) {before : Option String} :
    FieldsAfter Value before → FieldsAfter Value before
  | .nil => .nil
  | .cons key follows v fields => .cons key follows (v.mapStrings f) (mapStringsFields f fields)

end

theorem mapStringsItems_eq_map (f : String → String) (items : List Value) :
    mapStringsItems f items = items.map (mapStrings f) := by
  induction items with
  | nil => rfl
  | cons v vs ih => rw [mapStringsItems, List.map_cons, ih]

theorem get?_mapStringsFields (f : String → String) (key : String) {before : Option String}
    (fields : FieldsAfter Value before) :
    (mapStringsFields f fields).get? key = (fields.get? key).map (mapStrings f) := by
  induction fields with
  | nil => rfl
  | cons k _ v fields ih =>
    rw [mapStringsFields, FieldsAfter.get?, FieldsAfter.get?]
    split
    · rfl
    · exact ih

mutual

/-- Strings in the places of strings, empty where they were empty, are similar data. -/
theorem similar_mapStrings {f : String → String} (h : ∀ s, (f s).isEmpty = s.isEmpty) :
    (v : Value) → (v.mapStrings f).Similar v
  | .null | .bool _ | .number _ => by
    rw [mapStrings]
    exact .scalar trivial trivial rfl
  | .string s => by
    rw [mapStrings]
    refine .scalar trivial trivial ?_
    rw [isTruthy, isTruthy, h s]
  | .sequence items => by
    have hItems := similar_mapStringsItems h items
    rw [mapStrings, mapStringsItems_eq_map]
    refine .sequence (List.length_map _) fun i v w hv hw => ?_
    rw [List.getElem?_map, hw, Option.map_some, Option.some.injEq] at hv
    subst hv
    exact hItems w (List.mem_of_getElem? hw)
  | .mapping fields => by
    have hFields := similar_mapStringsFields h fields
    rw [mapStrings]
    refine .mapping (fun key => ?_) fun key v w hv hw => ?_
    · rw [get?_mapStringsFields, Option.isSome_map]
    · rw [get?_mapStringsFields, hw, Option.map_some, Option.some.injEq] at hv
      subst hv
      exact hFields key w hw

theorem similar_mapStringsItems {f : String → String} (h : ∀ s, (f s).isEmpty = s.isEmpty) :
    (items : List Value) → ∀ v ∈ items, (v.mapStrings f).Similar v
  | [], _, hv => absurd hv (by simp)
  | w :: ws, v, hv => by
    rcases List.mem_cons.mp hv with hHead | hTail
    · rw [hHead]
      exact similar_mapStrings h w
    · exact similar_mapStringsItems h ws v hTail

theorem similar_mapStringsFields {f : String → String} (h : ∀ s, (f s).isEmpty = s.isEmpty)
    {before : Option String} : (fields : FieldsAfter Value before) → ∀ key v,
      fields.get? key = some v → (v.mapStrings f).Similar v
  | .nil, _, _, hv => by contradiction
  | .cons k _ w fields, key, v, hv => by
    rw [FieldsAfter.get?] at hv
    split at hv
    · rw [← Option.some.inj hv]
      exact similar_mapStrings h w
    · exact similar_mapStringsFields h fields key v hv

end

end Value

/-- Similar data, and any strings in the place of the data's strings, give the same diagnostics in
every tree and every template. What is written into the document is never read as a directive. -/
theorem Template.diagnostics_render_of_similar {c c' : Value} (h : c.Similar c') :
    (∀ n : Node, (n.render c).diagnostics = (n.render c').diagnostics) ∧
      (∀ raw : String,
        ((compile raw).render c).diagnostics = ((compile raw).render c').diagnostics) ∧
      ∀ f : String → String, (∀ s, (f s).isEmpty = s.isEmpty) → ∀ n : Node,
        (n.render (c.mapStrings f)).diagnostics = (n.render c).diagnostics := by
  refine ⟨Node.diagnostics_render h, fun raw => ?_, fun f hf n => ?_⟩
  · rw [render, render]
    exact congrArg ((compile raw).diagnostics ++ ·) (Node.diagnostics_render h (compile raw).root)
  · exact Node.diagnostics_render (Value.similar_mapStrings hf c) n

/-- Directive text among the data, in a string to write and in the elements of a loop. -/
theorem Template.diagnostics_render_of_directive_text :
    let c := Value.mapping (.ofList
      [("a", .string "\x7bx\x7d"), ("rows", .sequence [.number (.int 1), .string "\x7b#b\x7d"])])
    let c' := Value.mapping (.ofList
      [("a", .string "\x7b#end\x7d"), ("rows", .sequence [.bool true, .string "b"])])
    let n := Node.root [.ofName "rows" 0 [.var (Path.parse "a") 7, .var (Path.parse "x") 10]]
    c.Similar c' ∧ (n.render c).diagnostics = (n.render c').diagnostics ∧
      (n.render c).output = "\x7bx\x7d\x7bx\x7d" ∧
      (n.render c).diagnostics = [.missingVariable "x" 10, .missingVariable "x" 10] ∧
      (n.render (c.mapStrings fun s => if s.isEmpty then s else "\x7b#end\x7d")).diagnostics =
        (n.render c).diagnostics := by
  intro c c' n
  have hRows : (Value.sequence [.number (.int 1), .string "\x7b#b\x7d"]).Similar
      (.sequence [.bool true, .string "b"]) := by
    refine .sequence rfl fun i v w hv hw => ?_
    match i with
    | 0 => cases hv; cases hw; exact .scalar trivial trivial rfl
    | 1 => cases hv; cases hw; exact .scalar trivial trivial (by decide)
    | i + 2 => simp at hv
  have hLookUp : ∀ (v w : Value) (key : String),
      (FieldsAfter.ofList [("a", v), ("rows", w)]).get? key =
        if "a" = key then some v else if "rows" = key then some w else none :=
    fun _ _ _ => rfl
  have hSimilar : c.Similar c' := by
    refine .mapping (fun key => ?_) fun key v w hv hw => ?_
    · rw [hLookUp, hLookUp]
      split
      · rfl
      · split <;> rfl
    · rw [hLookUp] at hv hw
      split at hv
      · next ha =>
        rw [if_pos ha] at hw
        cases hv; cases hw
        exact .scalar trivial trivial (by decide)
      · next ha =>
        rw [if_neg ha] at hw
        split at hv
        · next hr =>
          rw [if_pos hr] at hw
          cases hv; cases hw
          exact hRows
        · contradiction
  obtain ⟨hTree, -, hStrings⟩ := diagnostics_render_of_similar hSimilar
  refine ⟨hSimilar, hTree n, ?_, ?_, hStrings _ (fun s => ?_) n⟩
  · decide
  · decide
  · cases hs : s.isEmpty with
    | true => rw [if_pos rfl, hs]
    | false => rw [if_neg (by decide)]; decide

end DocTemplate
