import DocTemplate.Proofs.Rendering.Emission
import DocTemplate.Proofs.Template.Fold
import DocTemplate.Proofs.Template.Scan

/-! Text moved to a later place. A text that stands `k` bytes further on has the same tokens,
repairs, tree and outcome, with `k` added to every position. -/

namespace DocTemplate

def Diagnostic.shift (k : Nat) (d : Diagnostic) : Diagnostic := { d with position := d.position + k }

def Token.shift (k : Nat) (t : Token) : Token := { t with start := t.start + k }

def Repair.shift (k : Nat) (r : Repair) : Repair :=
  ⟨r.token.shift k, r.diagnostic.map (Diagnostic.shift k)⟩

def Outcome.shift (k : Nat) (o : Outcome) : Outcome :=
  { o with diagnostics := o.diagnostics.map (Diagnostic.shift k) }

/-! ### Tokens -/

namespace Token

theorem stop_shift (k : Nat) (t : Token) : (t.shift k).stop = t.stop + k :=
  Nat.add_right_comm t.start k t.length

theorem toDirectives_shift (k : Nat) (ts : List Token) :
    toDirectives (ts.map (shift k)) = toDirectives ts := by
  rw [toDirectives, List.map_map]
  rfl

theorem Canonical.shift {position : Nat} {ts : List Token} (h : Canonical position ts) (k : Nat) :
    Canonical (position + k) (ts.map (shift k)) := by
  induction ts generalizing position with
  | nil => exact Canonical.nil _
  | cons t ts ih =>
    obtain ⟨rfl, hLength, hKind, hHead, hTail⟩ := canonical_cons.mp h
    refine canonical_cons.mpr ⟨rfl, hLength, hKind, fun u hu => ?_, ?_⟩
    · rw [List.head?_map] at hu
      obtain ⟨v, hv, rfl⟩ := Option.map_eq_some_iff.mp hu
      exact hHead v hv
    · rw [stop_shift]
      exact ih hTail

end Token

/-! ### Repairs -/

namespace Nesting

def Opened.shift (k : Nat) (o : Opened) : Opened := { o with position := o.position + k }

def shift (k : Nat) (n : Nesting) : Nesting :=
  ⟨n.opened.map (Opened.shift k), n.demoted, n.stop + k⟩

theorem depth_shift (k : Nat) (n : Nesting) : (n.shift k).depth = n.depth := List.length_map _

theorem reach_shift (k : Nat) (n : Nesting) (start length : Nat) :
    (n.shift k).reach (start + k + length) = (n.reach (start + length)).shift k := by
  simp only [reach, shift, Nat.add_right_comm start k length, Nat.add_max_add_right]

/-- The rules leave no choice. -/
theorem Rule.push_eq {n : Nesting} {t : Token} {result : Repair × Nesting} (h : Rule n t result) :
    n.push t = result := by
  obtain ⟨opened, demoted, stop⟩ := n
  cases h with
  | literal | var => rfl
  | open_ name start length room => exact if_neg (Nat.not_le.mpr room)
  | demote name start length full => exact if_pos full
  | closeDemoted name start length d waiting =>
    obtain rfl : demoted = d + 1 := waiting
    rfl
  | close name start length o rest none_waiting innermost =>
    obtain rfl : demoted = 0 := none_waiting
    obtain rfl : opened = o :: rest := innermost
    rfl
  | orphan name start length none_waiting outside =>
    obtain rfl : demoted = 0 := none_waiting
    obtain rfl : opened = [] := outside
    rfl

/-- The rule for a token in a state is the rule for the moved token in the moved state. -/
theorem Rule.shift {n : Nesting} {t : Token} {result : Repair × Nesting} (h : Rule n t result)
    (k : Nat) : Rule (n.shift k) (t.shift k) (result.1.shift k, result.2.shift k) := by
  cases h with
  | literal text start length =>
    have hRule := Rule.literal (n := n.shift k) text (start + k) length
    rwa [reach_shift] at hRule
  | var path start length =>
    have hRule := Rule.var (n := n.shift k) path (start + k) length
    rwa [reach_shift] at hRule
  | open_ name start length room =>
    have hRule := Rule.open_ (n := n.shift k) name (start + k) length (by rwa [depth_shift])
    rwa [reach_shift] at hRule
  | demote name start length full =>
    have hRule := Rule.demote (n := n.shift k) name (start + k) length (by rwa [depth_shift])
    rwa [reach_shift] at hRule
  | closeDemoted name start length d waiting =>
    have hRule := Rule.closeDemoted (n := n.shift k) name (start + k) length d waiting
    rwa [reach_shift] at hRule
  | close name start length o rest none_waiting innermost =>
    have hRule := Rule.close (n := n.shift k) name (start + k) length (o.shift k)
      (rest.map (Opened.shift k)) none_waiting (by rw [Nesting.shift, innermost, List.map_cons])
    rwa [reach_shift] at hRule
  | orphan name start length none_waiting outside =>
    have hRule := Rule.orphan (n := n.shift k) name (start + k) length none_waiting
      (by rw [Nesting.shift, outside, List.map_nil])
    rwa [reach_shift] at hRule

theorem push_shift (k : Nat) (n : Nesting) (t : Token) :
    (n.shift k).push (t.shift k) = ((n.push t).1.shift k, (n.push t).2.shift k) :=
  ((rule_push n t).shift k).push_eq

theorem pushAll_shift (k : Nat) (n : Nesting) (ts : List Token) :
    (n.shift k).pushAll (ts.map (Token.shift k)) =
      ((n.pushAll ts).1.map (Repair.shift k), (n.pushAll ts).2.shift k) := by
  induction ts generalizing n with
  | nil => rfl
  | cons t ts ih =>
    rw [List.map_cons, pushAll_cons, pushAll_cons, push_shift, ih]
    rfl

theorem closeAll_shift (k : Nat) (n : Nesting) :
    (n.shift k).closeAll = n.closeAll.map (Repair.shift k) := by
  rw [closeAll, closeAll, List.map_map]
  exact List.map_map

end Nesting

theorem Balanced.IsNested.shift {limit : Nat} {names : List String} {ts : List Token}
    (h : IsNested limit names ts) (k : Nat) : IsNested limit names (ts.map (Token.shift k)) := by
  induction ts generalizing names with
  | nil => exact h
  | cons t ts ih =>
    obtain ⟨names', hRead, hRoom, hRest⟩ := h
    exact ⟨names', hRead, hRoom, ih hRest⟩

/-! ### Trees -/

namespace Node

mutual

def shift (k : Nat) : Node → Node
  | .text s => .text s
  | .var path position => .var path (position + k)
  | .sect name path position children => .sect name path (position + k) (shiftAll k children)

def shiftAll (k : Nat) : List Node → List Node
  | [] => []
  | n :: ns => n.shift k :: shiftAll k ns

end

theorem shiftAll_eq_map (k : Nat) (ns : List Node) : shiftAll k ns = ns.map (shift k) := by
  induction ns with
  | nil => rfl
  | cons n ns ih => rw [shiftAll, ih, List.map_cons]

theorem reverse_shiftAll (k : Nat) (ns : List Node) :
    (shiftAll k ns).reverse = shiftAll k ns.reverse := by
  rw [shiftAll_eq_map, shiftAll_eq_map, List.map_reverse]

theorem place_shiftAll (k : Nat) (n : Node) (ns : List Node) :
    place (n.shift k) (shiftAll k ns) = shiftAll k (place n ns) := by
  cases n with
  | var | sect => rfl
  | text s =>
    cases ns with
    | nil => rfl
    | cons m ns => cases m <;> rfl

def Frame.shift (k : Nat) (f : Frame) : Frame :=
  { f with position := f.position + k, children := shiftAll k f.children }

namespace Builder

def shift (k : Nat) (b : Builder) : Builder := ⟨b.frames.map (Frame.shift k), shiftAll k b.top⟩

theorem modify_shift (k : Nat) (n : Node) (b : Builder) :
    (b.shift k).modify (place (n.shift k)) = (b.modify (place n)).shift k := by
  obtain ⟨frames, top⟩ := b
  cases frames with
  | nil => simp only [shift, modify, List.map_nil, place_shiftAll]
  | cons frame frames => simp only [shift, modify, List.map_cons, Frame.shift, place_shiftAll]

theorem shift_ofName (k : Nat) (name : String) (position : Nat) (children : List Node) :
    (ofName name position children.reverse).shift k =
      ofName name (position + k) (shiftAll k children).reverse := by
  rw [ofName, Node.shift, ← reverse_shiftAll]
  rfl

theorem push_shift (k : Nat) (b : Builder) (t : Token) :
    (b.shift k).push (t.shift k) = (b.push t).shift k := by
  obtain ⟨kind, start, length⟩ := t
  cases kind with
  | literal s =>
    rw [push_literal, Token.shift, push_literal]
    split
    · rfl
    · exact modify_shift k (.text s) b
  | var path => exact modify_shift k (.var (Path.parse path) start) b
  | opening name => rfl
  | closing name =>
    obtain ⟨frames, top⟩ := b
    cases frames with
    | nil => rfl
    | cons frame frames =>
      rw [push_closing, close_cons, ← modify_shift, shift_ofName]
      rfl

theorem foldl_push_shift (k : Nat) (b : Builder) (ts : List Token) :
    (ts.map (Token.shift k)).foldl push (b.shift k) = (ts.foldl push b).shift k := by
  induction ts generalizing b with
  | nil => rfl
  | cons t ts ih => rw [List.map_cons, List.foldl_cons, List.foldl_cons, push_shift, ih]

end Builder

theorem children_ofTokens_shift {limit : Nat} {ts : List Token}
    (h : Balanced.IsNested limit [] ts) (k : Nat) :
    (ofTokens (ts.map (Token.shift k))).children = shiftAll k (ofTokens ts).children := by
  have hFold := Builder.foldl_push_shift k .empty ts
  rw [ofTokens_eq_root h, ofTokens_eq_root (h.shift k), root, root, children, children,
    ← reverse_shiftAll]
  exact congrArg (fun b : Builder => b.top.reverse) hFold

end Node

/-! ### Outcomes -/

namespace Outcome

theorem shift_append (k : Nat) (a b : Outcome) : (a ++ b).shift k = a.shift k ++ b.shift k := by
  show (⟨_, (a.diagnostics ++ b.diagnostics).map _⟩ : Outcome) = _
  rw [List.map_append]
  rfl

theorem shift_join (k : Nat) (os : List Outcome) : (join os).shift k = join (os.map (shift k)) := by
  induction os with
  | nil => rfl
  | cons o os ih => rw [join, shift_append, ih, List.map_cons, join]

theorem missingVariables_shift (k : Nat) (o : Outcome) :
    (o.shift k).missingVariables = o.missingVariables.map (Diagnostic.shift k) := by
  rw [missingVariables, missingVariables, shift, List.filter_map]
  rfl

end Outcome

namespace Node

mutual

theorem emit_shift (k : Nat) (s : Scope) (depth : Nat) :
    (n : Node) → (n.shift k).emit s depth = (n.emit s depth).shift k
  | .text t => by
    rw [shift, emit]
    rfl
  | .var path position => by
    rw [shift, emit, emit]
    split
    · rfl
    · cases s.lookup? path <;> rfl
  | .sect name path position children => by
    rw [shift, emit, emit]
    split
    · rfl
    · rw [Outcome.shift_join, List.map_map]
      refine congrArg Outcome.join (List.map_congr_left fun pass _ => ?_)
      exact emitAll_shift k (s.enter pass) (depth + 1) children

theorem emitAll_shift (k : Nat) (s : Scope) (depth : Nat) :
    (ns : List Node) → emitAll s depth (shiftAll k ns) = (emitAll s depth ns).shift k
  | [] => by
    rw [shiftAll, emitAll]
    rfl
  | n :: ns => by
    rw [shiftAll, emitAll, emitAll, emit_shift k s depth n, emitAll_shift k s depth ns,
      Outcome.shift_append]

end

end Node
end DocTemplate
