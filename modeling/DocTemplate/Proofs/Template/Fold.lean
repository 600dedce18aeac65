import DocTemplate.Template.Tree
import DocTemplate.Proofs.Template.Balance

/-! Folding a balanced stream into a tree. The fold has a frame for each section that the stream has
open, so it ends without frames, and the nodes outside all sections are the tree. Nodes that were
there before, and a section around all that is folded, change nothing about the fold itself. -/

namespace DocTemplate

open Token

namespace Node

/-- Adds a node after the nodes so far, which stand last first. Text joins text. -/
def place : Node → List Node → List Node
  | .text s => addText s
  | .var path position => (.var path position :: ·)
  | .sect name path position children => (.sect name path position children :: ·)

def isText : Node → Bool
  | .text _ => true
  | .var _ _ | .sect _ _ _ _ => false

/-- The two nodes are not both text. -/
def Apart (m n : Node) : Prop := ¬(m.isText = true ∧ n.isText = true)

/-- A placed node stands for itself, unless it is text that comes after text. -/
theorem place_cases (n : Node) (ns : List Node) :
    (place n ns = n :: ns ∧ ∀ m ∈ ns.head?, Apart n m) ∨
      ∃ s before rest, n = .text s ∧ ns = .text before :: rest := by
  cases n with
  | var | sect => exact .inl ⟨rfl, fun m _ hBoth => Bool.noConfusion hBoth.1⟩
  | text s =>
    cases ns with
    | nil => exact .inl ⟨rfl, by simp⟩
    | cons m ns =>
      cases m with
      | var | sect => exact .inl ⟨rfl, by simp [Apart, isText]⟩
      | text before => exact .inr ⟨s, before, ns, rfl, rfl⟩

/-! ### What one token does -/

namespace Builder

theorem push_literal (b : Builder) (s : String) (start length : Nat) :
    b.push ⟨.literal s, start, length⟩ = if s.isEmpty then b else b.modify (place (.text s)) := rfl

theorem push_var (b : Builder) (path : String) (start length : Nat) :
    b.push ⟨.var path, start, length⟩ = b.modify (place (.var (Path.parse path) start)) := rfl

theorem push_closing (b : Builder) (name : Option String) (start length : Nat) :
    b.push ⟨.closing name, start, length⟩ = b.close := rfl

theorem modify_nil (top : List Node) (f : List Node → List Node) :
    (⟨[], top⟩ : Builder).modify f = ⟨[], f top⟩ := rfl

theorem close_cons (frame : Frame) (frames : List Frame) (top : List Node) :
    (⟨frame :: frames, top⟩ : Builder).close =
      (⟨frames, top⟩ : Builder).modify
        (place (ofName frame.name frame.position frame.children.reverse)) := rfl

theorem modify_modify (b : Builder) (f g : List Node → List Node) :
    (b.modify f).modify g = b.modify (g ∘ f) := by
  obtain ⟨frames, top⟩ := b
  cases frames <;> rfl

theorem frames_modify (b : Builder) (f : List Node → List Node) :
    (b.modify f).frames.map Frame.name = b.frames.map Frame.name := by
  obtain ⟨frames, top⟩ := b
  cases frames <;> rfl

end Builder

/-! ### Text in two pieces -/

theorem addText_addText (s u : String) (ns : List Node) :
    addText u (addText s ns) = addText (s ++ u) ns := by
  cases ns with
  | nil => rfl
  | cons n ns =>
    cases n with
    | text before => simp only [addText, String.append_assoc]
    | var | sect => rfl

/-- Two pieces of text make the same node as one. -/
theorem Builder.push_push_literal (b : Builder) (s u : String) (start length start' length' : Nat)
    (start'' length'' : Nat) :
    (b.push ⟨.literal s, start, length⟩).push ⟨.literal u, start', length'⟩ =
      b.push ⟨.literal (s ++ u), start'', length''⟩ := by
  have hShown : ∀ v : String, v ≠ "" → ¬v.isEmpty = true := fun v hv => by simpa using hv
  have hEmpty : "".isEmpty = true := rfl
  rw [push_literal, push_literal, push_literal]
  by_cases hs : s = ""
  · rw [hs, if_pos hEmpty, String.empty_append]
  · by_cases hu : u = ""
    · rw [hu, if_pos hEmpty, String.append_empty]
    · have hBoth : s ++ u ≠ "" := fun h => hs (String.append_eq_empty_iff.mp h).1
      rw [if_neg (hShown u hu), if_neg (hShown s hs), if_neg (hShown _ hBoth), modify_modify]
      exact congrArg b.modify (funext fun ns => addText_addText s u ns)

/-! ### The open sections -/

/-- The fold has a frame for each section that the reader of the stream has open. -/
theorem Builder.names_push {b : Builder} {t : Token} {names : List String}
    (h : Balanced.read? (b.frames.map Frame.name) t = some names) :
    (b.push t).frames.map Frame.name = names := by
  obtain ⟨kind, start, length⟩ := t
  cases kind with
  | literal s =>
    rw [push_literal]
    cases h
    split
    · rfl
    · exact frames_modify b _
  | var path =>
    cases h
    exact frames_modify b _
  | opening name =>
    cases h
    rfl
  | closing name =>
    obtain ⟨frames, top⟩ := b
    cases frames with
    | nil => cases name <;> simp [Balanced.read?] at h
    | cons frame frames =>
      rw [push_closing, close_cons, frames_modify]
      cases name with
      | none => simp [Balanced.read?] at h
      | some name =>
        simp only [Balanced.read?, List.map_cons] at h
        split at h
        · exact Option.some.inj h
        · contradiction

theorem Builder.frames_foldl {limit : Nat} {b : Builder} {ts : List Token}
    (h : Balanced.IsNested limit (b.frames.map Frame.name) ts) :
    (ts.foldl push b).frames = [] := by
  induction ts generalizing b with
  | nil => exact List.map_eq_nil_iff.mp h
  | cons t ts ih =>
    obtain ⟨names, hRead, -, hRest⟩ := h
    rw [List.foldl_cons]
    refine ih ?_
    rwa [names_push hRead]

/-- A balanced stream leaves nothing open, so the nodes outside all sections are the whole tree. -/
theorem ofTokens_eq_root {limit : Nat} {ts : List Token} (h : Balanced.IsNested limit [] ts) :
    ofTokens ts = root (ts.foldl Builder.push .empty).top.reverse := by
  have hFrames : (ts.foldl Builder.push .empty).frames = [] := Builder.frames_foldl h
  rw [ofTokens, Builder.finish, hFrames]
  rfl

theorem place_foldr_place (n : Node) (ns before : List Node) :
    place n (ns.foldr place before) = (place n ns).foldr place before := by
  cases n with
  | var | sect => rfl
  | text s =>
    cases ns with
    | nil => rfl
    | cons m ns =>
      cases m with
      | text u => exact addText_addText u s _
      | var | sect => rfl

/-! ### What stands around a stream -/

namespace Builder

/-- A change to the state that the sections opened after it do not see. -/
structure Around (change : Builder → Builder) : Prop where
  modify : ∀ b n, (change b).modify (place n) = change (b.modify (place n))
  opened : ∀ frame b, change ⟨frame :: b.frames, b.top⟩ =
    ⟨frame :: (change b).frames, (change b).top⟩

variable {change : Builder → Builder}

theorem Around.push (h : Around change) {b : Builder} {t : Token} {names : List String}
    (hRead : Balanced.read? (b.frames.map Frame.name) t = some names) :
    (change b).push t = change (b.push t) := by
  obtain ⟨kind, start, length⟩ := t
  cases kind with
  | literal s =>
    rw [push_literal, push_literal]
    split
    · rfl
    · exact h.modify b _
  | var path => exact h.modify b (.var (Path.parse path) start)
  | opening name => exact (h.opened ⟨name, start, []⟩ b).symm
  | closing name =>
    obtain ⟨frames, top⟩ := b
    cases frames with
    -- A close here would end what stands around the stream, but the stream has no such close.
    | nil => cases name <;> simp [Balanced.read?] at hRead
    | cons frame frames =>
      have hOpened := h.opened frame ⟨frames, top⟩
      rw [hOpened, push_closing, close_cons]
      exact h.modify ⟨frames, top⟩ _

theorem Around.foldl (h : Around change) {limit : Nat} {b : Builder} {ts : List Token}
    (hNested : Balanced.IsNested limit (b.frames.map Frame.name) ts) :
    ts.foldl Builder.push (change b) = change (ts.foldl Builder.push b) := by
  induction ts generalizing b with
  | nil => rfl
  | cons t ts ih =>
    obtain ⟨names, hRead, -, hRest⟩ := hNested
    rw [List.foldl_cons, List.foldl_cons, h.push hRead]
    refine ih ?_
    rwa [names_push hRead]

/-- The fold with the nodes `before` in place from the start. -/
def onto (before : List Node) (b : Builder) : Builder := ⟨b.frames, b.top.foldr place before⟩

theorem around_onto (before : List Node) : Around (onto before) where
  modify b n := by
    obtain ⟨frames, top⟩ := b
    cases frames with
    | nil => simp only [onto, modify_nil, place_foldr_place]
    | cons frame frames => rfl
  opened _ _ := rfl

/-- The fold inside a section that is open around all of it. -/
def within (f : Frame) (b : Builder) : Builder :=
  ⟨b.frames ++ [{ f with children := b.top }], []⟩

theorem around_within (f : Frame) : Around (within f) where
  modify b n := by
    obtain ⟨frames, top⟩ := b
    cases frames <;> rfl
  opened _ _ := rfl

end Builder

theorem ofTokens_section {limit : Nat} {ts : List Token} (h : Balanced.IsNested limit [] ts)
    (name : String) (start length : Nat) (closed : Option String) (start' length' : Nat) :
    ofTokens (⟨.opening name, start, length⟩ :: (ts ++ [⟨.closing closed, start', length'⟩])) =
      root [ofName name start (ofTokens ts).children] := by
  have hFrames : (ts.foldl Builder.push .empty).frames = [] := Builder.frames_foldl h
  have hOpen : Builder.empty.push ⟨.opening name, start, length⟩ =
      Builder.empty.within ⟨name, start, []⟩ := rfl
  rw [ofTokens_eq_root h, ofTokens, List.foldl_cons, List.foldl_append, hOpen,
    (Builder.around_within _).foldl h]
  generalize ts.foldl Builder.push .empty = b at hFrames
  obtain ⟨frames, top⟩ := b
  obtain rfl : frames = [] := hFrames
  rfl

end Node
end DocTemplate
