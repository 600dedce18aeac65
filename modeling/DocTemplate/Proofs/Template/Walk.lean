import DocTemplate.Template.Tree

/-! The walk of a tree. A loop over a stack of pending trees takes the last one, visits it and
pushes its children, the last of them first. What is pending always stands for the rest of the
recursive pre-order, which gets shorter by one node in each round. So the loop ends on every tree,
and it comes to each place in the tree once: to a node before its children and to a tree before its
right neighbours. -/

namespace DocTemplate

universe u

namespace Node

/-! ### The recursive pre-order -/

mutual

/-- A tree and then the nodes of its children, from the first child to the last. -/
def preorder : Node → List Node
  | .text s => [.text s]
  | .var path position => [.var path position]
  | .sect name path position children =>
    .sect name path position children :: preorders children

def preorders : List Node → List Node
  | [] => []
  | n :: ns => n.preorder ++ preorders ns

end

theorem preorder_eq (n : Node) : n.preorder = n :: preorders n.children := by
  cases n <;> rfl

theorem preorders_append (as bs : List Node) :
    preorders (as ++ bs) = preorders as ++ preorders bs := by
  induction as with
  | nil => rfl
  | cons n ns ih => rw [List.cons_append, preorders, preorders, ih, List.append_assoc]

theorem preorders_eq_flatMap (ns : List Node) : preorders ns = ns.flatMap preorder := by
  induction ns with
  | nil => rfl
  | cons n ns ih => rw [preorders, ih, List.flatMap_cons]

mutual

theorem length_preorder : (n : Node) → n.preorder.length = n.size
  | .text s => rfl
  | .var path position => rfl
  | .sect name path position children => by
    rw [preorder, size, List.length_cons, length_preorders children]

theorem length_preorders : (ns : List Node) → (preorders ns).length = sizes ns
  | [] => rfl
  | n :: ns => by
    rw [preorders, sizes, List.length_append, length_preorder n, length_preorders ns]

end

theorem walkAll_eq_preorders (ns : List Node) : walkAll ns = preorders ns := by
  induction ns using walkAll.induct with
  | case1 => rw [walkAll, preorders]
  | case2 n pending ih =>
    rw [walkAll, ih, preorders_append, preorders, preorder_eq, List.cons_append]

theorem walk_eq_preorder (n : Node) : n.walk = n.preorder := by
  rw [walk, walkAll_eq_preorders, preorders, preorders, List.append_nil]

/-- A walk goes through a node and then through the walks of its children. -/
theorem walk_eq (n : Node) : n.walk = n :: n.children.flatMap walk := by
  rw [funext walk_eq_preorder, preorder_eq, preorders_eq_flatMap]

/-! ### The loop -/

/-- A walk under way: the trees that are still to come, the next one last, and what the visits so
far have made. -/
structure Walk (σ : Type u) where
  pending : Array Node
  made : σ

namespace Walk

variable {σ : Type u} (visit : σ → Node → σ)

def start (n : Node) (s : σ) : Walk σ := ⟨#[n], s⟩

/-- One round: the last tree is taken off and visited, and its children are pushed in reverse
order. There is a round as long as a tree is pending. -/
def round? (w : Walk σ) : Option (Walk σ) :=
  w.pending.back?.map fun n => ⟨w.pending.pop ++ n.children.reverse.toArray, visit w.made n⟩

/-- The walk after a number of rounds, if there are as many. -/
def after? : Nat → Walk σ → Option (Walk σ)
  | 0, w => some w
  | k + 1, w => (w.round? visit).bind (after? k)

/-- The nodes that the recursive pre-order of the pending trees has, from the next tree on. -/
def remaining (w : Walk σ) : List Node := preorders w.pending.toList.reverse

theorem remaining_start (n : Node) (s : σ) : (start n s).remaining = n.preorder := by
  show preorders [n] = _
  rw [preorders, preorders, List.append_nil]

/-- The children come next, in place of their parent: they are pushed in reverse order, and the
stack is read from its end. -/
theorem remaining_push (rest : Array Node) (n : Node) (s s' : σ) :
    (Walk.mk (rest.push n) s).remaining =
      n :: (Walk.mk (rest ++ n.children.reverse.toArray) s').remaining := by
  rw [remaining, remaining, Array.toList_push, Array.toList_append, List.reverse_concat,
    List.reverse_append, List.reverse_reverse, preorders, preorders_append, preorder_eq,
    List.cons_append]

/-- Either nothing is pending, or a round visits the first node that remains. -/
theorem round?_cases (w : Walk σ) :
    (w.pending = #[] ∧ w.round? visit = none ∧ w.remaining = []) ∨
      ∃ n w', w.round? visit = some w' ∧ w.remaining = n :: w'.remaining ∧
        w'.made = visit w.made n := by
  obtain ⟨pending, s⟩ := w
  by_cases hPending : pending.size = 0
  · obtain rfl := Array.eq_empty_of_size_eq_zero hPending
    exact .inl ⟨rfl, rfl, rfl⟩
  · obtain ⟨rest, n, rfl⟩ := Array.eq_push_of_size_ne_zero hPending
    refine .inr ⟨n, ⟨rest ++ n.children.reverse.toArray, visit s n⟩, ?_, remaining_push .., rfl⟩
    simp [round?]

/-- Rounds visit the nodes that remain one by one. -/
theorem after?_of_remaining {w : Walk σ} {visited ns : List Node}
    (h : w.remaining = visited ++ ns) :
    ∃ w', w.after? visit visited.length = some w' ∧ w'.remaining = ns ∧
      w'.made = visited.foldl visit w.made := by
  induction visited generalizing w with
  | nil => exact ⟨w, rfl, h, rfl⟩
  | cons n visited ih =>
    rcases round?_cases visit w with ⟨-, -, hNone⟩ | ⟨m, w₁, hRound, hFirst, hMade⟩
    · rw [hNone] at h
      contradiction
    · rw [hFirst] at h
      obtain ⟨rfl, hRemaining⟩ := List.cons.inj h
      obtain ⟨w₂, hAfter, hRest, hAll⟩ := ih hRemaining
      refine ⟨w₂, ?_, hRest, ?_⟩
      · rw [List.length_cons, after?, hRound]
        exact hAfter
      · rw [hAll, hMade, List.foldl_cons]

/-- The loop ends once it has visited what remains. -/
theorem after?_length_remaining (w : Walk σ) :
    w.after? visit w.remaining.length = some ⟨#[], w.remaining.foldl visit w.made⟩ := by
  obtain ⟨w', hAfter, hRemaining, hMade⟩ :=
    after?_of_remaining visit (List.append_nil w.remaining).symm
  rcases round?_cases visit w' with ⟨hPending, -, -⟩ | ⟨n, w'', -, hFirst, -⟩
  · rw [hAfter, ← hMade, ← hPending]
  · rw [hRemaining] at hFirst
    contradiction

end Walk

/-! ### The places in a tree -/

/-- The node to which a way leads down from the top of a tree. Each number picks a child. -/
def along? : Node → List Nat → Option Node
  | n, [] => some n
  | n, i :: way => n.children[i]?.bind fun child => child.along? way

mutual

/-- The ways to the nodes of a tree, in the order of a walk. -/
def ways : Node → List (List Nat)
  | .text _ | .var _ _ => [[]]
  | .sect _ _ _ children => [] :: waysFrom 0 children

/-- The ways into the children of a node from child `i` on. -/
def waysFrom (i : Nat) : List Node → List (List Nat)
  | [] => []
  | n :: ns => n.ways.map (i :: ·) ++ waysFrom (i + 1) ns

end

theorem ways_eq (n : Node) : n.ways = [] :: waysFrom 0 n.children := by
  cases n <;> rfl

theorem exists_of_mem_waysFrom {i : Nat} {ns : List Node} {way : List Nat}
    (h : way ∈ waysFrom i ns) : ∃ j rest, way = j :: rest ∧ i ≤ j := by
  induction ns generalizing i with
  | nil => contradiction
  | cons n ns ih =>
    rw [waysFrom, List.mem_append] at h
    rcases h with hHere | hLater
    · obtain ⟨rest, -, rfl⟩ := List.mem_map.mp hHere
      exact ⟨i, rest, rfl, Nat.le_refl i⟩
    · obtain ⟨j, rest, rfl, hj⟩ := ih hLater
      exact ⟨j, rest, rfl, by omega⟩

theorem cons_mem_waysFrom {i j : Nat} {ns : List Node} {way : List Nat} :
    (i + j) :: way ∈ waysFrom i ns ↔ ∃ n, ns[j]? = some n ∧ way ∈ n.ways := by
  induction ns generalizing i j with
  | nil => simp [waysFrom]
  | cons n ns ih =>
    rw [waysFrom, List.mem_append, List.mem_map]
    cases j with
    | zero =>
      -- The ways after those through the first child start with greater numbers.
      have hLater : i :: way ∉ waysFrom (i + 1) ns := by
        intro h
        obtain ⟨j, rest, hWay, hj⟩ := exists_of_mem_waysFrom h
        have hStep := (List.cons.inj hWay).1
        omega
      simp [hLater]
    | succ j =>
      rw [← Nat.add_assoc, Nat.add_right_comm, ih]
      simp [show i ≠ i + 1 + j by omega]

/-- The ways of a tree are those that lead to a node. -/
theorem mem_ways {n : Node} {way : List Nat} : way ∈ n.ways ↔ (n.along? way).isSome := by
  induction way generalizing n with
  | nil => simp [ways_eq, along?]
  | cons i way ih =>
    have hChildren : i :: way ∈ waysFrom 0 n.children ↔
        ∃ child, n.children[i]? = some child ∧ way ∈ child.ways := by
      rw [← cons_mem_waysFrom (i := 0), Nat.zero_add]
    rw [ways_eq, List.mem_cons, hChildren, along?]
    cases n.children[i]? with
    | none => simp
    | some child => simp [ih]

mutual

/-- A walk goes from left to right: the ways are in the order of the first number that differs, and
a way comes before those that go on from it. -/
theorem pairwise_ways : (n : Node) → n.ways.Pairwise (· < ·)
  | .text s => List.pairwise_singleton _ _
  | .var path position => List.pairwise_singleton _ _
  | .sect name path position children => by
    rw [ways, List.pairwise_cons]
    refine ⟨fun way h => ?_, pairwise_waysFrom 0 children⟩
    obtain ⟨j, rest, rfl, -⟩ := exists_of_mem_waysFrom h
    exact List.nil_lt_cons j rest

theorem pairwise_waysFrom (i : Nat) : (ns : List Node) → (waysFrom i ns).Pairwise (· < ·)
  | [] => List.Pairwise.nil
  | n :: ns => by
    rw [waysFrom, List.pairwise_append, List.pairwise_map]
    refine ⟨(pairwise_ways n).imp fun h => List.cons_lt_cons_iff.mpr (.inr ⟨rfl, h⟩),
      pairwise_waysFrom (i + 1) ns, fun a ha b hb => ?_⟩
    obtain ⟨way, -, rfl⟩ := List.mem_map.mp ha
    obtain ⟨j, rest, rfl, hj⟩ := exists_of_mem_waysFrom hb
    exact List.cons_lt_cons_iff.mpr (.inl hj)

end

example : (root [.text "a", .ofName "s" 1 [.text "b"], .text "c"]).ways =
    [[], [0], [1], [1, 0], [2]] := rfl

mutual

theorem map_along?_ways : (n : Node) → n.ways.map n.along? = n.preorder.map some
  | .text s => rfl
  | .var path position => rfl
  | .sect name path position children => by
    rw [ways, preorder, List.map_cons, List.map_cons, map_along?_waysFrom 0 children List.drop_zero]
    rfl

theorem map_along?_waysFrom {n : Node} (i : Nat) : (ns : List Node) → n.children.drop i = ns →
    (waysFrom i ns).map n.along? = (preorders ns).map some
  | [], _ => rfl
  | m :: ns, h => by
    have hHere : n.children[i]? = some m := by
      rw [← List.head?_drop, h]
      rfl
    have hLater : n.children.drop (i + 1) = ns := by
      rw [← List.tail_drop, h]
      rfl
    have hWays : (m.ways.map (i :: ·)).map n.along? = m.ways.map m.along? := by
      rw [List.map_map]
      refine List.map_congr_left fun way _ => ?_
      rw [Function.comp_apply, along?, hHere]
      rfl
    rw [waysFrom, preorders, List.map_append, List.map_append, hWays, map_along?_ways m,
      map_along?_waysFrom (i + 1) ns hLater]

end

/-- The loop over the pending trees ends on every tree, whatever the visits do: after as many rounds
as the tree has nodes nothing is pending, and the nodes of the walk have been visited in turn. The
walk is the recursive pre-order, a node and then the walks of its children from the first to the
last. It comes to the end of each way down the tree once, and to the ways in their order. -/
theorem walk_preorder (n : Node) :
    (∀ {σ : Type u} (visit : σ → Node → σ) (s : σ),
      (Walk.start n s).after? visit n.size = some ⟨#[], n.walk.foldl visit s⟩) ∧
    n.walk = n.preorder ∧
    n.walk = n :: n.children.flatMap walk ∧
    n.walk.map some = n.ways.map n.along? ∧
    n.ways.Pairwise (· < ·) ∧
    ∀ way, way ∈ n.ways ↔ (n.along? way).isSome := by
  refine ⟨fun visit s => ?_, walk_eq_preorder n, walk_eq n, ?_, pairwise_ways n,
    fun way => mem_ways⟩
  · have hRun := Walk.after?_length_remaining visit (Walk.start n s)
    rwa [Walk.remaining_start, length_preorder, ← walk_eq_preorder] at hRun
  · rw [walk_eq_preorder, map_along?_ways]

end Node
end DocTemplate
