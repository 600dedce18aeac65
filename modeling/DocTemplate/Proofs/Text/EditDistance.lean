import DocTemplate.Template.Suggestion
import Mathlib.Order.Bounds.Basic
import Mathlib.Order.MinMax

/-! The edit distance is the least number of edits. An edit inserts, deletes or replaces one
character anywhere in a text. A recursion on both texts gives the least number of edits from one to
the other, and the rows of the computation hold its values for all beginnings of the two texts. The
recursion takes characters from the front and the rows grow at the end, so they are compared on the
reversed texts. -/

namespace DocTemplate.Text

/-- One character is inserted, deleted or replaced. -/
inductive Edit : List Char → List Char → Prop
  | insert (before after : List Char) (c : Char) : Edit (before ++ after) (before ++ c :: after)
  | delete (before after : List Char) (c : Char) : Edit (before ++ c :: after) (before ++ after)
  | replace (before after : List Char) (c d : Char) :
    Edit (before ++ c :: after) (before ++ d :: after)

/-- A number of edits, one after another. -/
inductive Edits : Nat → List Char → List Char → Prop
  | none (s : List Char) : Edits 0 s s
  | more {n : Nat} {s t u : List Char} (edits : Edits n s t) (last : Edit t u) : Edits (n + 1) s u

theorem Edit.cons {s t : List Char} (h : Edit s t) (c : Char) : Edit (c :: s) (c :: t) := by
  cases h with
  | insert before after d => exact .insert (c :: before) after d
  | delete before after d => exact .delete (c :: before) after d
  | replace before after d e => exact .replace (c :: before) after d e

theorem Edit.reverse {s t : List Char} (h : Edit s t) : Edit s.reverse t.reverse := by
  cases h with
  | insert before after c => simpa using Edit.insert after.reverse before.reverse c
  | delete before after c => simpa using Edit.delete after.reverse before.reverse c
  | replace before after c d => simpa using Edit.replace after.reverse before.reverse c d

namespace Edits

variable {n m : Nat} {s t u : List Char}

theorem cons (h : Edits n s t) (c : Char) : Edits n (c :: s) (c :: t) := by
  induction h with
  | none s => exact .none (c :: s)
  | more _ last ih => exact ih.more (last.cons c)

theorem reverse (h : Edits n s t) : Edits n s.reverse t.reverse := by
  induction h with
  | none s => exact .none s.reverse
  | more _ last ih => exact ih.more last.reverse

theorem reverse_iff : Edits n s.reverse t.reverse ↔ Edits n s t :=
  ⟨fun h => by simpa using h.reverse, reverse⟩

theorem trans (h : Edits n s t) (h' : Edits m t u) : Edits (n + m) s u := by
  induction h' with
  | none => exact h
  | more _ last ih => exact (ih h).more last

theorem insert_cons (h : Edits n s t) (d : Char) : Edits (n + 1) s (d :: t) :=
  h.more (.insert [] t d)

theorem delete_cons (h : Edits n s t) (c : Char) : Edits (n + 1) (c :: s) t := by
  rw [Nat.add_comm]
  exact ((Edits.none (c :: s)).more (.delete [] s c)).trans h

theorem replace_cons (h : Edits n s t) (c d : Char) : Edits (n + 1) (c :: s) (d :: t) :=
  (h.cons c).more (.replace [] t c d)

end Edits

/-! ### The least number of edits by recursion -/

/-- The first characters are both given up, which costs nothing if they are equal, or one of them
is. -/
def leastEdits : List Char → List Char → Nat
  | [], t => t.length
  | _ :: s, [] => s.length + 1
  | c :: s, d :: t =>
    min (min (leastEdits (c :: s) t + 1) (leastEdits s (d :: t) + 1))
      (if c = d then leastEdits s t else leastEdits s t + 1)
termination_by s t => s.length + t.length

@[simp] theorem leastEdits_nil (t : List Char) : leastEdits [] t = t.length := by
  rw [leastEdits]

@[simp] theorem leastEdits_nil_right (s : List Char) : leastEdits s [] = s.length := by
  cases s <;> simp [leastEdits]

theorem leastEdits_cons_cons (c d : Char) (s t : List Char) :
    leastEdits (c :: s) (d :: t) =
      min (min (leastEdits (c :: s) t + 1) (leastEdits s (d :: t) + 1))
        (if c = d then leastEdits s t else leastEdits s t + 1) := by
  rw [leastEdits]

theorem leastEdits_self (s : List Char) : leastEdits s s = 0 := by
  induction s with
  | nil => rw [leastEdits_nil, List.length_nil]
  | cons c s ih => rw [leastEdits_cons_cons, if_pos rfl, ih, Nat.min_zero]

/-- So many edits lead from one text to the other. -/
theorem edits_leastEdits (s t : List Char) : Edits (leastEdits s t) s t := by
  fun_induction leastEdits s t with
  | case1 t =>
    induction t with
    | nil => exact .none []
    | cons d t ih => exact ih.insert_cons d
  | case2 c s =>
    suffices h : Edits s.length s [] from h.delete_cons c
    induction s with
    | nil => exact .none []
    | cons d s ih => exact ih.delete_cons d
  | case3 c s d t hInsert hDelete hBoth =>
    -- The least of three numbers is one of them, and each has its edits.
    refine min_rec' (Edits · _ _) (min_rec' (Edits · _ _) ?_ ?_) ?_
    · exact hInsert.insert_cons d
    · exact hDelete.delete_cons c
    · split
      · next hSame => exact hSame ▸ hBoth.cons c
      · exact hBoth.replace_cons c d

/-! ### No fewer edits lead there -/

theorem leastEdits_cons_right_le (c : Char) (s t : List Char) :
    leastEdits s (c :: t) ≤ leastEdits s t + 1 := by
  cases s with
  | nil => simp
  | cons a s => rw [leastEdits_cons_cons]; omega

theorem leastEdits_cons_left_le (c : Char) (s t : List Char) :
    leastEdits (c :: s) t ≤ leastEdits s t + 1 := by
  cases t with
  | nil => simp
  | cons d t => rw [leastEdits_cons_cons]; omega

theorem leastEdits_le_cons_right (c : Char) (s t : List Char) :
    leastEdits s t ≤ leastEdits s (c :: t) + 1 := by
  induction s with
  | nil => simp only [leastEdits_nil, List.length_cons]; omega
  | cons a s ih =>
    have hGiveUp := leastEdits_cons_left_le a s t
    rw [leastEdits_cons_cons]
    split <;> omega

theorem leastEdits_replace_le (c d : Char) (s t : List Char) :
    leastEdits s (d :: t) ≤ leastEdits s (c :: t) + 1 := by
  induction s with
  | nil => simp
  | cons a s ih =>
    rw [leastEdits_cons_cons, leastEdits_cons_cons]
    split <;> split <;> omega

theorem leastEdits_cons_right_mono {t u : List Char}
    (h : ∀ s, leastEdits s u ≤ leastEdits s t + 1) (c : Char) (s : List Char) :
    leastEdits s (c :: u) ≤ leastEdits s (c :: t) + 1 := by
  induction s with
  | nil => simpa using h []
  | cons a s ih =>
    have hBoth := h s
    have hInsert := h (a :: s)
    rw [leastEdits_cons_cons, leastEdits_cons_cons]
    split <;> omega

/-- One edit more makes at most one more, wherever it is. -/
theorem Edit.leastEdits_le {t u : List Char} (h : Edit t u) (s : List Char) :
    leastEdits s u ≤ leastEdits s t + 1 := by
  have hAt : ∀ {before t u : List Char}, (∀ s, leastEdits s u ≤ leastEdits s t + 1) →
      ∀ s, leastEdits s (before ++ u) ≤ leastEdits s (before ++ t) + 1 := by
    intro before t u h
    induction before with
    | nil => exact h
    | cons c before ih => exact leastEdits_cons_right_mono ih c
  cases h with
  | insert before after c => exact hAt (fun s => leastEdits_cons_right_le c s after) s
  | delete before after c => exact hAt (fun s => leastEdits_le_cons_right c s after) s
  | replace before after c d => exact hAt (fun s => leastEdits_replace_le c d s after) s

theorem Edits.leastEdits_le {n : Nat} {s t : List Char} (h : Edits n s t) :
    leastEdits s t ≤ n := by
  induction h with
  | none s => exact (leastEdits_self s).le
  | more _ last ih => exact (last.leastEdits_le _).trans (Nat.succ_le_succ ih)

/-! ### Rows of distances -/

/-- The distances of a text to what grows out of another by the given characters. Both texts are
reversed, so that they grow at the front. -/
def growing (read target : List Char) : List Char → List Nat
  | [] => []
  | d :: ds => leastEdits read (d :: target) :: growing read (d :: target) ds

/-- The row of a reversed text: its distances to all beginnings of `target`. -/
def row (target read : List Char) : List Nat := leastEdits read [] :: growing read [] target

theorem growing_nil (target ds : List Char) :
    growing [] target ds = List.range' (target.length + 1) ds.length := by
  induction ds generalizing target with
  | nil => rfl
  | cons d ds ih => rw [growing, ih, leastEdits_nil, List.length_cons, List.length_cons,
      List.range'_succ]

theorem row_nil (target : List Char) : row target [] = List.range (target.length + 1) := by
  rw [row, growing_nil, leastEdits_nil, List.range_eq_range', List.range'_succ, List.length_nil]

theorem distances_growing (c : Char) (read target ds : List Char) :
    distances c (leastEdits (c :: read) target) (leastEdits read target) ds
      (growing read target ds) = growing (c :: read) target ds := by
  induction ds generalizing target with
  | nil => rfl
  | cons d ds ih => rw [growing, growing, distances, ← leastEdits_cons_cons, ih]

/-- One more character makes the row of the longer text. -/
theorem nextDistances_row (target read : List Char) (c : Char) :
    nextDistances target (row target read) c = row target (c :: read) := by
  have hFirst : leastEdits (c :: read) [] = leastEdits read [] + 1 := by simp
  rw [row, row, nextDistances, ← hFirst, distances_growing]

theorem foldl_nextDistances (target source read : List Char) :
    source.foldl (nextDistances target) (row target read) =
      row target (source.reverse ++ read) := by
  induction source generalizing read with
  | nil => rfl
  | cons c source ih =>
    rw [List.foldl_cons, nextDistances_row, ih, List.reverse_cons, List.append_assoc]
    rfl

theorem getLastD_growing (read target ds : List Char) :
    (growing read target ds).getLastD (leastEdits read target) =
      leastEdits read (ds.reverse ++ target) := by
  induction ds generalizing target with
  | nil => rfl
  | cons d ds ih =>
    rw [growing, List.getLastD_cons, ih, List.reverse_cons, List.append_assoc]
    rfl

theorem editDistance_eq (source target : List Char) :
    editDistance source target = leastEdits source.reverse target.reverse := by
  rw [editDistance, ← row_nil, foldl_nextDistances, List.append_nil, row, List.getLastD_cons,
    getLastD_growing, List.append_nil]

/-- The edit distance is the least number of edits that lead from one text to the other. -/
theorem isLeast_editDistance (source target : List Char) :
    IsLeast {n | Edits n source target} (editDistance source target) := by
  rw [editDistance_eq]
  constructor
  · exact Edits.reverse_iff.mp (edits_leastEdits _ _)
  · exact fun n h => (Edits.reverse h).leastEdits_le

end DocTemplate.Text
