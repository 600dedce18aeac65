import DocTemplate.Template.Nesting

/-! Matching opens and closes on one stack of any height. Each close belongs to the nearest open
before it that has no close yet. `Nesting`, which keeps a stack of bounded height and a count of the
opens beyond it, repairs a token stream as this matching tells. -/

namespace DocTemplate

/-- An open without a close so far, and the number of opens that had no close when it came. -/
structure Bracket where
  name : String
  position : Nat
  around : Nat
deriving DecidableEq, Repr

/-- Whether the open is within the depth limit and so begins a section. -/
def Bracket.isKept (b : Bracket) : Bool := b.around < maxSectionDepth

def Bracket.opened (b : Bracket) : Nesting.Opened := ⟨b.name, b.position⟩

namespace Matching

/-- The opens without a close after one more token, innermost first. -/
def step (stack : List Bracket) (t : Token) : List Bracket :=
  match t.kind with
  | .opening name => ⟨name, t.start, stack.length⟩ :: stack
  | .closing _ => stack.tail
  | .literal _ | .var _ => stack

/-- The opens without a close in a token stream, innermost first. -/
def unmatched (ts : List Token) : List Bracket := ts.foldl step []

/-- What becomes of a token that comes when the opens in `stack` have no close. -/
def repair (stack : List Bracket) (t : Token) : Repair :=
  match t.kind, stack with
  | .literal _, _ | .var _, _ => ⟨t, none⟩
  | .opening name, stack =>
    if maxSectionDepth ≤ stack.length then
      ⟨{ t with kind := .literal (Token.openTag name) },
        some (.unbalancedTag (Token.openTag name) t.start)⟩
    else ⟨t, none⟩
  | .closing _, [] =>
    ⟨{ t with kind := .literal Token.closeTag },
      some (.unbalancedTag Token.closeTag t.start)⟩
  | .closing _, b :: _ =>
    if b.isKept then ⟨{ t with kind := .closing (some b.name) }, none⟩
    else ⟨{ t with kind := .literal Token.closeTag }, none⟩

/-- The largest end of a token. -/
def lastStop (ts : List Token) : Nat := (ts.map Token.stop).foldl max 0

/-- The closes of length zero for the sections that have none, innermost first. -/
def endings (ts : List Token) : List Repair :=
  ((unmatched ts).filter Bracket.isKept).map fun b =>
    ⟨⟨.closing (some b.name), lastStop ts, 0⟩, some (.unbalancedTag b.name b.position)⟩

end Matching

namespace Nesting

open Matching

/-! ### What one token does -/

/-- The nesting with `stop` counted among the ends of its tokens. -/
def reach (n : Nesting) (stop : Nat) : Nesting := { n with stop := max n.stop stop }

/-- The rules of a push, one for each way to treat a token. -/
inductive Rule (n : Nesting) : Token → Repair × Nesting → Prop
  | literal (text : String) (start length : Nat) :
    Rule n ⟨.literal text, start, length⟩
      (⟨⟨.literal text, start, length⟩, none⟩, n.reach (start + length))
  | var (path : String) (start length : Nat) :
    Rule n ⟨.var path, start, length⟩
      (⟨⟨.var path, start, length⟩, none⟩, n.reach (start + length))
  | open_ (name : String) (start length : Nat) (room : n.depth < maxSectionDepth) :
    Rule n ⟨.opening name, start, length⟩ (⟨⟨.opening name, start, length⟩, none⟩,
      { n.reach (start + length) with opened := ⟨name, start⟩ :: n.opened })
  | demote (name : String) (start length : Nat) (full : maxSectionDepth ≤ n.depth) :
    Rule n ⟨.opening name, start, length⟩
      (⟨⟨.literal (Token.openTag name), start, length⟩,
        some (.unbalancedTag (Token.openTag name) start)⟩,
      { n.reach (start + length) with demoted := n.demoted + 1 })
  | closeDemoted (name : Option String) (start length d : Nat) (waiting : n.demoted = d + 1) :
    Rule n ⟨.closing name, start, length⟩ (⟨⟨.literal Token.closeTag, start, length⟩, none⟩,
      { n.reach (start + length) with demoted := d })
  | close (name : Option String) (start length : Nat) (o : Opened) (rest : List Opened)
    (none_waiting : n.demoted = 0) (innermost : n.opened = o :: rest) :
    Rule n ⟨.closing name, start, length⟩ (⟨⟨.closing (some o.name), start, length⟩, none⟩,
      { n.reach (start + length) with opened := rest })
  | orphan (name : Option String) (start length : Nat) (none_waiting : n.demoted = 0)
    (outside : n.opened = []) :
    Rule n ⟨.closing name, start, length⟩
      (⟨⟨.literal Token.closeTag, start, length⟩, some (.unbalancedTag Token.closeTag start)⟩,
      n.reach (start + length))

theorem rule_push (n : Nesting) (t : Token) : Rule n t (n.push t) := by
  obtain ⟨kind, start, length⟩ := t
  cases kind with
  | literal text => exact .literal text start length
  | var path => exact .var path start length
  | opening name =>
    by_cases full : maxSectionDepth ≤ n.depth
    · have h : n.push ⟨.opening name, start, length⟩ = _ := if_pos full
      rw [h]
      exact .demote name start length full
    · have h : n.push ⟨.opening name, start, length⟩ = _ := if_neg full
      rw [h]
      exact .open_ name start length (Nat.not_le.mp full)
  | closing name =>
    obtain ⟨opened, demoted, stop⟩ := n
    cases demoted with
    | succ d => exact .closeDemoted name start length d rfl
    | zero =>
      cases opened with
      | nil => exact .orphan name start length rfl rfl
      | cons o rest => exact .close name start length o rest rfl rfl

/-! ### Runs -/

@[simp] theorem pushAll_nil (n : Nesting) : n.pushAll [] = ([], n) := rfl

@[simp] theorem pushAll_cons (n : Nesting) (t : Token) (ts : List Token) :
    n.pushAll (t :: ts) =
      ((n.push t).1 :: ((n.push t).2.pushAll ts).1, ((n.push t).2.pushAll ts).2) := rfl

theorem pushAll_append (n : Nesting) (as bs : List Token) :
    n.pushAll (as ++ bs) =
      ((n.pushAll as).1 ++ ((n.pushAll as).2.pushAll bs).1, ((n.pushAll as).2.pushAll bs).2) := by
  induction as generalizing n with
  | nil => rfl
  | cons t ts ih => rw [List.cons_append, pushAll_cons, pushAll_cons, ih]; rfl

/-- The nesting after a whole token stream. -/
def after (ts : List Token) : Nesting := (Nesting.empty.pushAll ts).2

theorem ofTokens_eq (ts : List Token) :
    Balanced.ofTokens ts =
      Balanced.ofRepairs ((Nesting.empty.pushAll ts).1 ++ (after ts).closeAll) := rfl

/-! ### The bounded stack and the unbounded one -/

/-- The nesting after the tokens that left `stack`: the outermost opens up to the limit are its
sections, and the others, all inside them, are those it counts. -/
structure Agrees (n : Nesting) (stack : List Bracket) : Prop where
  opened : n.opened = (stack.drop (stack.length - maxSectionDepth)).map Bracket.opened
  demoted : n.demoted = stack.length - maxSectionDepth
  around : ∀ b rest, b :: rest <:+ stack → b.around = rest.length

theorem Agrees.empty : Agrees .empty [] where
  opened := by simp [Nesting.empty]
  demoted := by simp [Nesting.empty]
  around b rest h := absurd (List.suffix_nil.mp h) (by simp)

theorem Agrees.depth {n : Nesting} {stack : List Bracket} (h : Agrees n stack) :
    n.depth = min stack.length maxSectionDepth := by
  rw [Nesting.depth, h.opened, List.length_map, List.length_drop]
  omega

theorem around_tail {b : Bracket} {rest : List Bracket}
    (h : ∀ c cs, c :: cs <:+ b :: rest → c.around = cs.length) :
    ∀ c cs, c :: cs <:+ rest → c.around = cs.length :=
  fun c cs hSuffix => h c cs (hSuffix.trans (List.suffix_cons b rest))

theorem around_cons {b : Bracket} {rest : List Bracket}
    (h : ∀ c cs, c :: cs <:+ rest → c.around = cs.length) (hb : b.around = rest.length) :
    ∀ c cs, c :: cs <:+ b :: rest → c.around = cs.length := by
  intro c cs hSuffix
  rcases List.suffix_cons_iff.mp hSuffix with hEq | hInner
  · cases hEq
    exact hb
  · exact h c cs hInner

/-- One token is repaired alike, and the two states agree after it. -/
theorem Agrees.rule {n : Nesting} {stack : List Bracket} (h : Agrees n stack) {t : Token}
    {result : Repair × Nesting} (hRule : Rule n t result) :
    result.1 = repair stack t ∧ Agrees result.2 (step stack t) := by
  have hDepth := h.depth
  obtain ⟨hOpened, hDemoted, hAround⟩ := h
  cases hRule with
  | literal => exact ⟨rfl, hOpened, hDemoted, hAround⟩
  | var => exact ⟨rfl, hOpened, hDemoted, hAround⟩
  | open_ name start length room =>
    have hNew := around_cons (b := ⟨name, start, stack.length⟩) hAround rfl
    have hDrop : stack.length - maxSectionDepth = 0 := by omega
    have hDrop' : stack.length + 1 - maxSectionDepth = 0 := by omega
    refine ⟨(if_neg (by omega)).symm, ?_, ?_, hNew⟩
    · simp [step, hOpened, hDrop, hDrop', Bracket.opened]
    · simp [step, reach, hDemoted, hDrop, hDrop']
  | demote name start length full =>
    have hNew := around_cons (b := ⟨name, start, stack.length⟩) hAround rfl
    have hDrop : stack.length + 1 - maxSectionDepth = stack.length - maxSectionDepth + 1 := by
      omega
    refine ⟨(if_pos (by omega)).symm, ?_, ?_, hNew⟩
    · simp [step, reach, hOpened, hDrop]
    · simp [step, hDemoted, hDrop]
  | closeDemoted name start length d waiting =>
    cases stack with
    | nil => simp [waiting] at hDemoted
    | cons b rest =>
      have hHeight : b.around = rest.length := hAround b rest List.suffix_rfl
      rw [List.length_cons] at hOpened hDemoted
      -- Some open is beyond the limit, and so the innermost one is.
      have hDrop : rest.length + 1 - maxSectionDepth = rest.length - maxSectionDepth + 1 := by
        omega
      have hKept : b.isKept = false := by
        simp only [Bracket.isKept, hHeight, decide_eq_false_iff_not]
        omega
      rw [hDrop, List.drop_succ_cons] at hOpened
      refine ⟨by simp [repair, hKept], hOpened, ?_, around_tail hAround⟩
      simp only [step, List.tail_cons]
      omega
  | close name start length o opened none_waiting innermost =>
    cases stack with
    | nil => simp [innermost] at hOpened
    | cons b rest =>
      have hHeight : b.around = rest.length := hAround b rest List.suffix_rfl
      rw [List.length_cons] at hOpened hDemoted
      -- No open is beyond the limit, and so the two stacks hold the same opens.
      have hDrop : rest.length + 1 - maxSectionDepth = 0 := by omega
      have hDrop' : rest.length - maxSectionDepth = 0 := by omega
      have hKept : b.isKept = true := by
        simp only [Bracket.isKept, hHeight, decide_eq_true_eq]
        omega
      rw [hDrop, List.drop_zero, List.map_cons, innermost, List.cons.injEq] at hOpened
      obtain ⟨rfl, rfl⟩ := hOpened
      refine ⟨by simp [repair, hKept, Bracket.opened], ?_, ?_, around_tail hAround⟩
      · simp [step, hDrop']
      · simp [step, reach, none_waiting, hDrop']
  | orphan name start length none_waiting outside =>
    have hDrop : stack.length - maxSectionDepth = 0 := by omega
    have hNil : stack = [] := by simpa [outside, hDrop, eq_comm] using hOpened
    subst hNil
    exact ⟨rfl, hOpened, hDemoted, hAround⟩

/-- A run repairs each token as the opens without a close before it tell. -/
theorem Agrees.pushAll {n : Nesting} {stack : List Bracket} (h : Agrees n stack)
    (ts : List Token) :
    (n.pushAll ts).1 = ts.mapIdx (fun i t => repair ((ts.take i).foldl step stack) t) ∧
      Agrees (n.pushAll ts).2 (ts.foldl step stack) := by
  induction ts generalizing n stack with
  | nil => exact ⟨rfl, h⟩
  | cons t ts ih =>
    obtain ⟨hRepair, hNext⟩ := h.rule (rule_push n t)
    obtain ⟨hRepairs, hLast⟩ := ih hNext
    refine ⟨?_, hLast⟩
    rw [pushAll_cons, List.mapIdx_cons, hRepair, hRepairs]
    rfl

theorem agrees_after (ts : List Token) : Agrees (after ts) (unmatched ts) :=
  (Agrees.empty.pushAll ts).2

/-! ### The end of the stream -/

theorem Rule.stop {n : Nesting} {t : Token} {result : Repair × Nesting} (h : Rule n t result) :
    result.2.stop = max n.stop t.stop := by
  cases h <;> rfl

theorem pushAll_stop (n : Nesting) (ts : List Token) :
    (n.pushAll ts).2.stop = (ts.map Token.stop).foldl max n.stop := by
  induction ts generalizing n with
  | nil => rfl
  | cons t ts ih => rw [pushAll_cons, ih, (rule_push n t).stop]; rfl

/-- The opens within the limit are the outermost ones. -/
theorem filter_isKept {stack : List Bracket}
    (h : ∀ b rest, b :: rest <:+ stack → b.around = rest.length) :
    stack.filter Bracket.isKept = stack.drop (stack.length - maxSectionDepth) := by
  induction stack with
  | nil => rw [List.filter_nil, List.drop_nil]
  | cons b rest ih =>
    have hHeight := h b rest List.suffix_rfl
    have hRest := ih (around_tail h)
    rw [List.length_cons]
    by_cases hLow : rest.length < maxSectionDepth
    · have hKept : b.isKept = true := by simpa [Bracket.isKept, hHeight] using hLow
      rw [List.filter_cons_of_pos hKept, hRest, Nat.sub_eq_zero_of_le (by omega),
        Nat.sub_eq_zero_of_le (by omega), List.drop_zero, List.drop_zero]
    · have hKept : ¬b.isKept = true := by simpa [Bracket.isKept, hHeight] using hLow
      rw [List.filter_cons_of_neg hKept, hRest, Nat.sub_add_comm (by omega), List.drop_succ_cons]

theorem closeAll_eq_endings (ts : List Token) : (after ts).closeAll = endings ts := by
  have h := agrees_after ts
  have hStop : (after ts).stop = lastStop ts := pushAll_stop .empty ts
  rw [closeAll, endings, h.opened, filter_isKept h.around, hStop, List.map_map]
  rfl

end Nesting

/-- Balancing does to each token what the matching tells, and then closes the sections without a
close. -/
theorem Matching.ofTokens_eq_repairs (ts : List Token) :
    Balanced.ofTokens ts = Balanced.ofRepairs
      (ts.mapIdx (fun i t => repair (unmatched (ts.take i)) t) ++ endings ts) := by
  rw [Nesting.ofTokens_eq, Nesting.closeAll_eq_endings, (Nesting.Agrees.empty.pushAll ts).1]
  rfl

end DocTemplate
