import DocTemplate.Proofs.Rendering.Emission
import DocTemplate.Proofs.Rendering.Scope
import Mathlib.Data.List.Forall2

/-! Two renderings of one tree side by side. If the scopes are related at the start, and related
scopes give related outcomes for each variable and related passes for each section, then the trees'
outcomes are related. Scopes in which every path has the same value are such a relation. -/

namespace DocTemplate

namespace Node

mutual

/-- The paths of the variables and sections in the tree are all among `paths`. -/
def Within (paths : Path → Prop) : Node → Prop
  | .text _ => True
  | .var path _ => paths path
  | .sect _ path _ children => paths path ∧ AllWithin paths children

def AllWithin (paths : Path → Prop) : List Node → Prop
  | [] => True
  | n :: ns => n.Within paths ∧ AllWithin paths ns

end

mutual

theorem within_of_forall {paths : Path → Prop} (h : ∀ p, paths p) : (n : Node) → n.Within paths
  | .text _ => trivial
  | .var path _ => h path
  | .sect _ path _ children => ⟨h path, allWithin_of_forall h children⟩

theorem allWithin_of_forall {paths : Path → Prop} (h : ∀ p, paths p) :
    (ns : List Node) → AllWithin paths ns
  | [] => trivial
  | n :: ns => ⟨within_of_forall h n, allWithin_of_forall h ns⟩

end

end Node

/-- Scopes related by `R` make of each variable and each section with a path among `paths` outcomes
related by `Q`. -/
structure Simulation (paths : Path → Prop) (R : Scope → Scope → Prop)
    (Q : Outcome → Outcome → Prop) : Prop where
  refl : ∀ o, Q o o
  append : ∀ {a a' b b' : Outcome}, Q a a' → Q b b' → Q (a ++ b) (a' ++ b')
  var : ∀ {s s' : Scope}, R s s' → ∀ (path : Path) (position depth : Nat), paths path →
    Q ((Node.var path position).emit s depth) ((Node.var path position).emit s' depth)
  passes : ∀ {s s' : Scope}, R s s' → ∀ (name : String) (path : Path), paths path →
    List.Forall₂ (fun pass pass' => R (s.enter pass) (s'.enter pass'))
      (s.passes name path) (s'.passes name path)

namespace Simulation

open Node Outcome

variable {paths : Path → Prop} {R : Scope → Scope → Prop} {Q : Outcome → Outcome → Prop}

theorem join (h : Simulation paths R Q) {os os' : List Outcome} (hEach : List.Forall₂ Q os os') :
    Q (.join os) (.join os') := by
  induction hEach with
  | nil => exact h.refl _
  | cons hHead _ ih => exact h.append hHead ih

mutual

theorem emit (h : Simulation paths R Q) {s s' : Scope} (hScope : R s s') (depth : Nat) :
    (n : Node) → n.Within paths → Q (n.emit s depth) (n.emit s' depth)
  | .text t, _ => by
    rw [Node.emit, Node.emit]
    exact h.refl _
  | .var path position, hPath => h.var hScope path position depth hPath
  | .sect name path position children, hTree => by
    rw [Node.emit, Node.emit]
    split
    · exact h.refl _
    · refine h.join (List.forall₂_map_left_iff.mpr (List.forall₂_map_right_iff.mpr ?_))
      refine (h.passes hScope name path hTree.1).imp fun pass pass' hPass => ?_
      exact emitAll h hPass (depth + 1) children hTree.2

theorem emitAll (h : Simulation paths R Q) {s s' : Scope} (hScope : R s s') (depth : Nat) :
    (ns : List Node) → AllWithin paths ns → Q (emitAll s depth ns) (emitAll s' depth ns)
  | [], _ => by
    rw [Node.emitAll, Node.emitAll]
    exact h.refl _
  | n :: ns, hTree => by
    rw [Node.emitAll, Node.emitAll]
    exact h.append (emit h hScope depth n hTree.1) (emitAll h hScope depth ns hTree.2)

end

end Simulation

/-! ### Scopes in which every path has the same value -/

namespace Scope

/-- The same document, and for each path the same value. -/
structure Alike (s s' : Scope) : Prop where
  root : s.root = s'.root
  lookup? : ∀ p, s.lookup? p = s'.lookup? p

theorem Alike.passes {s s' : Scope} (h : Alike s s') (name : String) (path : Path) :
    s.passes name path = s'.passes name path := by
  rw [Scope.passes, Scope.passes, h.root, h.lookup? path]

theorem Alike.enter {s s' : Scope} (h : Alike s s') (pass : Pass) :
    Alike (s.enter pass) (s'.enter pass) := by
  cases pass with
  | none => exact h
  | some f =>
    refine ⟨h.root, fun p => ?_⟩
    show (s.push f).lookup? p = (s'.push f).lookup? p
    cases hAnchored : p.anchored with
    | true =>
      rw [lookup?_anchored _ hAnchored, lookup?_anchored _ hAnchored]
      exact congrArg (fun root => root.resolve? p.segments) h.root
    | false => rw [lookup?_push _ _ hAnchored, lookup?_push _ _ hAnchored, h.lookup? p]

theorem Alike.simulation : Simulation (fun _ => True) Alike Eq where
  refl _ := rfl
  append ha hb := by rw [ha, hb]
  var h path position depth _ := by rw [Node.emit, Node.emit, h.lookup? path]
  passes h name path _ := by
    rw [h.passes name path]
    exact List.forall₂_same.mpr fun pass _ => h.enter pass

/-- The document inside itself: its fields are found in the inner frame or, just the same, in the
outer one. -/
theorem alike_push_root (root : Value) :
    Alike ((ofRoot root).push ⟨root, .block⟩) (ofRoot root) := by
  refine ⟨rfl, fun p => ?_⟩
  cases hAnchored : p.anchored with
  | true => rw [lookup?_anchored _ hAnchored, lookup?_anchored _ hAnchored]; rfl
  | false =>
    rw [lookup?_push _ _ hAnchored, lookup?_ofRoot, Frame.lookup?_block, Option.or_self]

end Scope

theorem Node.emitAll_alike {s s' : Scope} (h : s.Alike s') (depth : Nat) (ns : List Node) :
    emitAll s depth ns = emitAll s' depth ns :=
  Scope.Alike.simulation.emitAll h depth ns (allWithin_of_forall (fun _ => trivial) ns)

theorem Node.renderIn_push_root (n : Node) (root : Value) :
    n.renderIn ((Scope.ofRoot root).push ⟨root, .block⟩) = n.renderIn (.ofRoot root) := by
  rw [renderIn_eq_emitAll, renderIn_eq_emitAll]
  exact emitAll_alike (Scope.alike_push_root root) 0 n.children

end DocTemplate
