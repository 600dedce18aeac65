import DocTemplate.Proofs.Template.Listing
import DocTemplate.Proofs.Template.Unrepaired

/-! Sections that are left open. The fold of a tree ends them by itself, and balancing ends them
with closes of its own at the end of the stream. If nothing else about a stream needs repair, that
is if each close has an open waiting for it and no open is beyond the limit, both ways lead to the
same tree. -/

namespace DocTemplate

open Token Matching

namespace Matching

/-- A stream whose closes all have an open waiting for them and whose opens are all within the
limit. It may leave sections open. -/
structure IsOpenEnded (ts : List Token) : Prop where
  closes : ∀ i, (h : i < ts.length) → isStray (unmatched (ts.take i)) ts[i] = false
  depth : ∀ i ≤ ts.length, (unmatched (ts.take i)).length ≤ maxSectionDepth

instance (ts : List Token) : Decidable (IsOpenEnded ts) :=
  decidable_of_iff ((∀ i, (h : i < ts.length) → isStray (unmatched (ts.take i)) ts[i] = false) ∧
      ∀ i ≤ ts.length, (unmatched (ts.take i)).length ≤ maxSectionDepth)
    ⟨fun ⟨hCloses, hDepth⟩ => ⟨hCloses, hDepth⟩, fun h => ⟨h.closes, h.depth⟩⟩

theorem diagnostic_repair {stack : List Bracket} {t : Token}
    (hKept : ∀ b ∈ stack, b.isKept = true) (hStray : isStray stack t = false)
    (hRoom : (step stack t).length ≤ maxSectionDepth) : (repair stack t).diagnostic = none := by
  obtain ⟨kind, start, length⟩ := t
  cases kind with
  | literal | var => rfl
  | opening name =>
    have hBelow : ¬maxSectionDepth ≤ stack.length := Nat.not_le.mpr hRoom
    simp only [repair, if_neg hBelow]
  | closing name =>
    cases stack with
    | nil => contradiction
    | cons b rest => simp only [repair, if_pos (hKept b List.mem_cons_self)]

variable {ts : List Token}

/-- Balancing names the closes, adds those for the open sections, and does nothing else. -/
theorem IsOpenEnded.tokens (h : IsOpenEnded ts) :
    (Balanced.ofTokens ts).tokens =
      (ts.mapIdx fun i t => nameClose (unmatched (ts.take i)) t) ++
        (endings ts).map Repair.token := by
  have hNamed : (ts.mapIdx fun i t => repair (unmatched (ts.take i)) t).map Repair.token =
      ts.mapIdx fun i t => nameClose (unmatched (ts.take i)) t := by
    refine List.ext_getElem (by simp) fun i hi _ => ?_
    rw [List.length_map, List.length_mapIdx] at hi
    have hKept := (forall_isKept_iff (ts.take i)).mpr (h.depth i hi.le)
    have hRoom := h.depth (i + 1) hi
    rw [List.take_succ_eq_append_getElem hi, unmatched, List.foldl_append] at hRoom
    rw [List.getElem_map, List.getElem_mapIdx, List.getElem_mapIdx]
    exact token_repair hKept (diagnostic_repair hKept (h.closes i hi) hRoom)
  rw [ofTokens_eq_repairs, Balanced.ofRepairs, List.map_append, hNamed]

/-- No open is beyond the limit, so each of them gets a close. -/
theorem IsOpenEnded.length_endings (h : IsOpenEnded ts) :
    (endings ts).length = (unmatched ts).length := by
  have hKept : ∀ b ∈ unmatched ts, b.isKept = true := by
    rw [forall_isKept_iff, ← List.take_length (l := ts)]
    exact h.depth ts.length le_rfl
  rw [endings, List.filter_eq_self.mpr hKept, List.length_map]

end Matching

namespace Node

/-! ### Two ways to end a section -/

theorem Builder.push_nameClose (b : Builder) (stack : List Bracket) (t : Token) :
    b.push (nameClose stack t) = b.push t := by
  obtain ⟨kind, start, length⟩ := t
  cases kind with
  | closing name => cases stack <;> rfl
  | literal | var | opening => rfl

theorem Builder.foldl_push_nameClose (b : Builder) (stack : Nat → List Bracket) (ts : List Token) :
    (ts.mapIdx fun i t => nameClose (stack i) t).foldl push b = ts.foldl push b := by
  induction ts generalizing b stack with
  | nil => rfl
  | cons t ts ih =>
    rw [List.mapIdx_cons, List.foldl_cons, List.foldl_cons, push_nameClose]
    exact ih (b.push t) fun i => stack (i + 1)

theorem Builder.finish_iterate_close (b : Builder) :
    (close^[b.frames.length] b).finish = b.finish := by
  rw [← closeAll_eq_iterate, finish, frames_closeAll]
  rfl

/-- A tree is the same whether the fold ends the sections that are left open or the stream is
balanced before it is folded. -/
theorem ofTokens_balanced {ts : List Token} (h : IsOpenEnded ts) :
    ofTokens (Balanced.ofTokens ts).tokens = ofTokens ts := by
  have hEmpty : Builder.empty.frames.length = ([] : List Bracket).length := rfl
  have hFrames : (ts.foldl Builder.push .empty).frames.length = (unmatched ts).length :=
    Builder.length_frames_foldl hEmpty ts
  have hEndings : ∀ t ∈ (endings ts).map Repair.token, ∃ name, t.kind = .closing name := by
    intro t ht
    obtain ⟨r, hr, rfl⟩ := List.mem_map.mp ht
    obtain ⟨b, -, rfl⟩ := List.mem_map.mp hr
    exact ⟨some b.name, rfl⟩
  -- The closes that are added are as many as the frames that are left, and end them one by one.
  rw [h.tokens, ofTokens, List.foldl_append, Builder.foldl_push_nameClose,
    Builder.foldl_push_closings _ hEndings, List.length_map, h.length_endings, ← hFrames,
    Builder.finish_iterate_close]
  rfl

/-- Two sections left open in one another, after one that is closed under a wrong name, with text
in two pieces. -/
theorem ofTokens_balanced_left_open :
    let ts : List Token := [⟨.opening "a", 0, 4⟩, ⟨.literal "x", 4, 1⟩, ⟨.literal "é", 5, 2⟩,
      ⟨.opening "b", 7, 4⟩, ⟨.closing (some "c"), 11, 6⟩, ⟨.opening ".d", 17, 5⟩,
      ⟨.var "v", 22, 3⟩]
    IsOpenEnded ts ∧ ofTokens (Balanced.ofTokens ts).tokens = ofTokens ts ∧
      ofTokens ts = root [.ofName "a" 0 [.text "xé", .ofName "b" 7 [],
        .ofName ".d" 17 [.var (Path.parse "v") 22]]] := by
  intro ts
  have hOpenEnded : IsOpenEnded ts := by
    decide
  exact ⟨hOpenEnded, ofTokens_balanced hOpenEnded, rfl⟩

end Node
end DocTemplate
