import DocTemplate.Proofs.Text.EditDistance
import DocTemplate.Proofs.Text.Names
import DocTemplate.Template.Suggestion

/-! The suggestions for a path are the best among the known paths within the limit. These stand in
one ranking, by their distance and at one distance by the order of their bytes, and the suggestions
are its beginning. So whatever is left out comes after all that is suggested. -/

namespace DocTemplate.Suggestion

variable {target p q : String} {context : Value}

/-! ### Ranks -/

/-- The distance of a path from what was written. -/
def distanceTo (target path : String) : Nat := Text.editDistance target.toList path.toList

/-- The path `p` is a better suggestion than `q`. -/
def Nearer (target p q : String) : Prop :=
  distanceTo target p < distanceTo target q ∨
    distanceTo target p = distanceTo target q ∧ Text.bytes p < Text.bytes q

/-- What may be suggested: another known path that at most half as many edits make of the target as
the target has bytes. -/
structure Admissible (target : String) (context : Value) (path : String) : Prop where
  known : path ∈ context.knownPaths
  other : path ≠ target
  near : distanceTo target path ≤ target.utf8ByteSize / 2

theorem Nearer.ne (h : Nearer target p q) : p ≠ q := by
  rintro rfl
  rcases h with hLess | ⟨-, hLess⟩
  · exact Nat.lt_irrefl _ hLess
  · exact List.lt_irrefl _ hLess

theorem precedes_iff {a b : Suggestion} :
    precedes a b ↔ a.distance < b.distance ∨ a.distance = b.distance ∧ a.path ≤ b.path := by
  simp [precedes]

theorem precedes_trans (a b c : Suggestion) (h : precedes a b) (h' : precedes b c) :
    precedes a c := by
  rw [precedes_iff] at h h' ⊢
  rcases h with hLess | ⟨hSame, hPath⟩ <;> rcases h' with hLess' | ⟨hSame', hPath'⟩
  · exact .inl (hLess.trans hLess')
  · exact .inl (hSame' ▸ hLess)
  · exact .inl (hSame ▸ hLess')
  · exact .inr ⟨hSame.trans hSame', hPath.trans hPath'⟩

theorem precedes_total (a b : Suggestion) : (precedes a b || precedes b a) = true := by
  rw [Bool.or_eq_true, precedes_iff, precedes_iff]
  rcases lt_trichotomy a.distance b.distance with hLess | hSame | hMore
  · exact .inl (.inl hLess)
  · rcases le_total a.path b.path with hPath | hPath
    · exact .inl (.inr ⟨hSame, hPath⟩)
    · exact .inr (.inr ⟨hSame.symm, hPath⟩)
  · exact .inr (.inl hMore)

theorem limit_eq (target : String) : limit target = target.utf8ByteSize / 2 := by
  rw [limit, thresholdPercent]
  omega

/-! ### The ranking -/

theorem mem_ranked {s : Suggestion} :
    s ∈ ranked target context ↔
      (s.path ∈ context.knownPaths ∧ s.path ≠ target) ∧ s.distance = distanceTo target s.path := by
  obtain ⟨path, distance⟩ := s
  simp only [ranked, List.mem_mergeSort, List.mem_map, List.mem_filter, decide_eq_true_eq]
  constructor
  · rintro ⟨known, hKnown, hSame⟩
    obtain ⟨rfl, rfl⟩ := Suggestion.mk.inj hSame
    exact ⟨hKnown, rfl⟩
  · rintro ⟨hKnown, rfl⟩
    exact ⟨path, hKnown, rfl⟩

theorem nodup_ranked (target : String) (context : Value) :
    ((ranked target context).map path).Nodup := by
  have hKnown : context.knownPaths.Nodup := (Names.pairwise_ofList _).imp ne_of_lt
  rw [ranked, ((List.mergeSort_perm _ _).map path).nodup_iff, List.map_map]
  exact (List.map_id _).symm ▸ hKnown.filter _

/-- Two paths of the ranking differ, so one of them is nearer, and it comes first. -/
theorem pairwise_ranked (target : String) (context : Value) :
    (ranked target context).Pairwise fun a b => Nearer target a.path b.path := by
  have hSorted : (ranked target context).Pairwise (precedes · ·) :=
    List.pairwise_mergeSort precedes_trans precedes_total _
  have hDistinct := nodup_ranked target context
  rw [List.Nodup, List.pairwise_map] at hDistinct
  refine (hSorted.and hDistinct).imp_of_mem fun {a b} ha hb ⟨hOrder, hOther⟩ => ?_
  rw [precedes_iff, (mem_ranked.mp ha).2, (mem_ranked.mp hb).2] at hOrder
  rcases hOrder with hLess | ⟨hSame, hPath⟩
  · exact .inl hLess
  · exact .inr ⟨hSame, Text.bytes_lt_iff.mpr (lt_of_le_of_ne hPath hOther)⟩

/-- All that may be suggested, the best first. -/
def ranking (target : String) (context : Value) : List String :=
  ((ranked target context).filter fun s => s.distance ≤ limit target).map path

theorem nearest_eq (target : String) (context : Value) :
    nearest target context = (ranking target context).take maxCount := by
  rw [nearest, ranking, List.map_take]

theorem mem_ranking : p ∈ ranking target context ↔ Admissible target context p := by
  simp only [ranking, List.mem_map, List.mem_filter, mem_ranked, limit_eq, decide_eq_true_eq]
  constructor
  · rintro ⟨s, ⟨⟨⟨hKnown, hOther⟩, hDistance⟩, hNear⟩, rfl⟩
    exact ⟨hKnown, hOther, hDistance ▸ hNear⟩
  · rintro ⟨hKnown, hOther, hNear⟩
    exact ⟨⟨p, distanceTo target p⟩, ⟨⟨⟨hKnown, hOther⟩, rfl⟩, hNear⟩, rfl⟩

theorem pairwise_ranking (target : String) (context : Value) :
    (ranking target context).Pairwise (Nearer target) := by
  rw [ranking, List.pairwise_map]
  exact (pairwise_ranked target context).filter _

/-- What stands in the ranking and not in its beginning comes after all in the beginning. -/
theorem nearer_of_not_mem_take {n : Nat} (hp : p ∈ (ranking target context).take n)
    (hq : q ∈ ranking target context) (hLeft : q ∉ (ranking target context).take n) :
    Nearer target p q := by
  have hSplit := pairwise_ranking target context
  rw [← List.take_append_drop n (ranking target context)] at hSplit hq
  have hRest := (List.mem_append.mp hq).resolve_left hLeft
  exact (List.pairwise_append.mp hSplit).2.2 p hp q hRest

/-- There are at most three suggestions, all different, and the better ones come first. Each may be
suggested, each that may be suggested and is not comes after all of them, and if there are fewer
than three, none is left out. Distances are least numbers of edits. -/
theorem nearest_optimal (target : String) (context : Value) :
    let found := nearest target context
    found.length ≤ 3 ∧ found.Nodup ∧
    (∀ p ∈ found, p ∈ context.knownPaths ∧ p ≠ target ∧
      distanceTo target p ≤ target.utf8ByteSize / 2) ∧
    found.Pairwise (Nearer target) ∧
    (∀ q, Admissible target context q → q ∉ found → ∀ p ∈ found, Nearer target p q) ∧
    (found.length < 3 → ∀ q, Admissible target context q → q ∈ found) ∧
    ∀ p, IsLeast {n | Text.Edits n target.toList p.toList} (distanceTo target p) := by
  intro found
  have hFound : found = (ranking target context).take maxCount := nearest_eq target context
  have hOrder : found.Pairwise (Nearer target) :=
    hFound ▸ (pairwise_ranking target context).sublist (List.take_sublist _ _)
  refine ⟨?_, hOrder.imp Nearer.ne, fun p hp => ?_, hOrder, fun q hq hLeft p hp => ?_,
    fun hFew q hq => ?_, fun p => Text.isLeast_editDistance _ _⟩
  · rw [hFound]
    exact List.length_take_le _ _
  · have hAdmissible := mem_ranking.mp (List.mem_of_mem_take (hFound ▸ hp))
    exact ⟨hAdmissible.known, hAdmissible.other, hAdmissible.near⟩
  · rw [hFound] at hp hLeft
    exact nearer_of_not_mem_take hp (mem_ranking.mpr hq) hLeft
  · rw [hFound, List.length_take, min_lt_iff] at hFew
    have hAll := hFew.resolve_left (Nat.lt_irrefl 3)
    have hWhole : found = ranking target context :=
      hFound.trans (List.take_of_length_le (Nat.le_of_lt hAll))
    exact hWhole ▸ mem_ranking.mpr hq

/-- Four paths at one distance from a target of two characters and three bytes, and one that is
farther than the limit. -/
theorem nearest_optimal_ties :
    let value (keys : List String) := Value.mapping (.ofList (keys.map (·, .null)))
    (nearest "né" (value ["na", "nb", "ne", "nz", "xyz"]) = ["na", "nb", "ne"] ∧
      Nearer "né" "ne" "nz") ∧
    ("xyz" ∉ nearest "né" (value ["nz", "xyz"]) ∧ "nz" ∈ nearest "né" (value ["nz", "xyz"])) := by
  intro value
  have hFour : nearest "né" (value ["na", "nb", "ne", "nz", "xyz"]) = ["na", "nb", "ne"] := by
    rw [nearest, ranked, List.mergeSort_of_pairwise (by decide +kernel)]
    decide +kernel
  have hOne : nearest "né" (value ["nz", "xyz"]) = ["nz"] := by
    rw [nearest, ranked, List.mergeSort_of_pairwise (by decide +kernel)]
    decide +kernel
  obtain ⟨-, -, -, -, hBetter, -⟩ :=
    nearest_optimal "né" (value ["na", "nb", "ne", "nz", "xyz"])
  obtain ⟨-, -, -, -, -, hFew, -⟩ := nearest_optimal "né" (value ["nz", "xyz"])
  refine ⟨⟨hFour, ?_⟩, ?_, ?_⟩
  · exact hBetter "nz" ⟨by decide +kernel, by decide, by decide⟩ (by rw [hFour]; decide) "ne"
      (by rw [hFour]; decide)
  · rw [hOne]
    decide
  · exact hFew (by rw [hOne]; decide) "nz" ⟨by decide +kernel, by decide, by decide⟩

end DocTemplate.Suggestion
