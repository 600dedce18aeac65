import DocTemplate.Proofs.Cache.Calls
import Mathlib.Data.List.Induction
import Mathlib.Data.Set.Card
import Mathlib.Order.Interval.Finset.Nat

/-! A cache and the operations that were made on it one after another from its beginning. The
operations alone tell which names are there, with which texts, how often a look-up was a hit, and
which calls gave the same object. -/

namespace DocTemplate.Cache

open Template

/-- What is done to a cache: a call, or removing everything. -/
inductive Operation where
  | call (call : Call)
  | clear
deriving DecidableEq, Repr

/-- The entry in a reply, if there is one. -/
def Reply.object? {α : Type} : Reply α → Option α
  | found entry => entry
  | given entry => some entry
  | removed _ => none

namespace Operation

def run (c : Cache) : Operation → Cache
  | .call request => (request.run c).2
  | .clear => c.clear

/-- The object that the operation obtains from a cache. -/
def obtained? (c : Cache) : Operation → Option Object
  | .call request => (request.run c).1.object?
  | .clear => none

/-- The text that the operation puts under a name. -/
def supply? : Operation → Option (String × String)
  | .call request => request.supply?
  | .clear => none

/-- The operation removes the name. -/
def Removes (name : String) (op : Operation) : Prop := op = .call (.invalidate name) ∨ op = .clear

/-- The operation puts a text under the name or removes it. -/
def Touches (name : String) (op : Operation) : Prop :=
  (∃ raw, op.supply? = some (name, raw)) ∨ op.Removes name

/-- The operation looks a name up and counts whether it found what it wanted. -/
def IsLookup : Operation → Prop
  | .call (.get _) | .call (.getOrCompile ..) => True
  | .call (.insert ..) | .call (.invalidate _) | .clear => False

end Operation

open Operation

/-- The cache after operations on an empty one. -/
def after (ops : List Operation) : Cache := ops.foldl run .empty

theorem after_concat (ops : List Operation) (op : Operation) :
    after (ops ++ [op]) = op.run (after ops) := by
  rw [after, List.foldl_append, List.foldl_cons, List.foldl_nil, after]

/-- The texts that the operations supply, with their names. -/
def supplied (ops : List Operation) : List (String × String) := ops.filterMap supply?

theorem supplied_append (before later : List Operation) :
    supplied (before ++ later) = supplied before ++ supplied later :=
  List.filterMap_append

/-! ### Histories -/

/-- One of the operations satisfies `P` with those before it, and none after it touches the name. -/
def Last (P : List Operation → Operation → Prop) (name : String) (ops : List Operation) : Prop :=
  ∃ before op later, ops = before ++ op :: later ∧ P before op ∧ ∀ o ∈ later, ¬o.Touches name

theorem concat_eq_split_iff {ops before later : List Operation} {op first : Operation} :
    ops ++ [op] = before ++ first :: later ↔
      (ops = before ∧ op = first ∧ later = []) ∨
        ∃ rest, ops = before ++ first :: rest ∧ later = rest ++ [op] := by
  constructor
  · intro h
    rcases List.eq_nil_or_concat' later with rfl | ⟨rest, final, rfl⟩
    · obtain ⟨hBefore, hOp⟩ := List.append_inj' h rfl
      exact .inl ⟨hBefore, List.singleton_inj.mp hOp, rfl⟩
    · rw [← List.cons_append, ← List.append_assoc] at h
      obtain ⟨hBefore, hOp⟩ := List.append_inj' h rfl
      exact .inr ⟨rest, hBefore, by rw [hOp]⟩
  · rintro (⟨rfl, rfl, rfl⟩ | ⟨rest, rfl, rfl⟩)
    · rfl
    · simp

theorem last_concat {P : List Operation → Operation → Prop} {name : String} {ops : List Operation}
    {op : Operation} :
    Last P name (ops ++ [op]) ↔ P ops op ∨ ¬op.Touches name ∧ Last P name ops := by
  constructor
  · rintro ⟨before, first, later, hSplit, hP, hLater⟩
    rcases concat_eq_split_iff.mp hSplit with ⟨rfl, rfl, -⟩ | ⟨rest, hOps, rfl⟩
    · exact .inl hP
    · exact .inr ⟨hLater op (by simp), before, first, rest, hOps, hP,
        fun o hMem => hLater o (List.mem_append_left _ hMem)⟩
  · rintro (hP | ⟨hTouches, before, first, later, rfl, hP, hLater⟩)
    · exact ⟨ops, op, [], rfl, hP, by simp⟩
    · refine ⟨before, first, later ++ [op], by simp, hP, fun o hMem => ?_⟩
      rcases List.mem_append.mp hMem with hOld | hNew
      · exact hLater o hOld
      · rwa [List.mem_singleton.mp hNew]

/-- The latest operation that put a text under the name put this one, and the name was not removed
after it. -/
def Current (ops : List Operation) (name raw : String) : Prop :=
  Last (fun _ op => op.supply? = some (name, raw)) name ops

/-- The same, and the operation obtained this object. -/
def Holds (ops : List Operation) (name raw : String) (object : Object) : Prop :=
  Last (fun before op => op.supply? = some (name, raw) ∧ op.obtained? (after before) = some object)
    name ops

/-- One of the operations obtained the object. -/
def Obtained (ops : List Operation) (object : Object) : Prop :=
  ∃ before op later, ops = before ++ op :: later ∧ op.obtained? (after before) = some object

/-- A look-up finds what it wants: the name, and for a call that compiles on demand the text too. -/
def Hits (before : List Operation) : Operation → Prop
  | .call (.get name) => ∃ raw, Current before name raw
  | .call (.getOrCompile name raw) => Current before name raw
  | .call (.insert ..) | .call (.invalidate _) | .clear => False

/-- The text of the object that an operation obtains: the one that it supplies, or the one under the
name that it looks up. -/
def TextOf (before : List Operation) (op : Operation) (raw : String) : Prop :=
  ∃ name, op.supply? = some (name, raw) ∨ op = .call (.get name) ∧ Current before name raw

theorem obtained_concat {ops : List Operation} {op : Operation} {object : Object} :
    Obtained (ops ++ [op]) object ↔
      Obtained ops object ∨ op.obtained? (after ops) = some object := by
  constructor
  · rintro ⟨before, first, later, hSplit, hObject⟩
    rcases concat_eq_split_iff.mp hSplit with ⟨rfl, rfl, -⟩ | ⟨rest, hOps, -⟩
    · exact .inr hObject
    · exact .inl ⟨before, first, rest, hOps, hObject⟩
  · rintro (⟨before, first, later, rfl, hObject⟩ | hObject)
    · exact ⟨before, first, later ++ [op], by simp, hObject⟩
    · exact ⟨ops, op, [], rfl, hObject⟩

theorem Holds.current {ops : List Operation} {name raw : String} {object : Object}
    (h : Holds ops name raw object) : Current ops name raw := by
  obtain ⟨before, op, later, hSplit, ⟨hSupply, -⟩, hLater⟩ := h
  exact ⟨before, op, later, hSplit, hSupply, hLater⟩

theorem Holds.obtained {ops : List Operation} {name raw : String} {object : Object}
    (h : Holds ops name raw object) : Obtained ops object := by
  obtain ⟨before, op, later, hSplit, ⟨-, hObject⟩, -⟩ := h
  exact ⟨before, op, later, hSplit, hObject⟩

/-! ### The object under a name -/

section

variable {c : Cache} {op : Operation} {name raw : String}

/-- What an operation puts under a name is the object that it obtains. -/
theorem find?_run_of_supply (h : op.supply? = some (name, raw)) :
    (op.run c).find? name = op.obtained? c := by
  rcases op with (_ | ⟨name', raw'⟩ | ⟨name', raw'⟩ | _) | _
  · cases h
  · obtain ⟨rfl, rfl⟩ := Prod.mk.inj (Option.some.inj h)
    exact (find?_insert c name' raw' name').trans (if_pos rfl)
  · obtain ⟨rfl, rfl⟩ := Prod.mk.inj (Option.some.inj h)
    show (c.getOrCompile name' raw').2.find? name' = some (c.getOrCompile name' raw').1
    cases hWanted : c.wanted? name' raw' with
    | some object =>
      rw [getOrCompile_of_wanted hWanted]
      exact (wanted?_eq_some_iff.mp hWanted).1
    | none =>
      rw [getOrCompile_of_not_wanted hWanted, find?_insert, if_pos rfl]
      rfl
  · cases h
  · cases h

theorem find?_run_of_removes (h : op.Removes name) : (op.run c).find? name = none := by
  rcases h with rfl | rfl
  · exact (find?_invalidate c name name).trans (if_pos rfl)
  · rfl

theorem find?_run_of_not_touches (h : ¬op.Touches name) :
    (op.run c).find? name = c.find? name := by
  obtain ⟨hSupply, hRemoves⟩ := not_or.mp h
  rcases op with (name' | ⟨name', raw'⟩ | ⟨name', raw'⟩ | name') | _
  · exact find?_get c name' name
  · have hName : name ≠ name' := fun hName => hSupply ⟨raw', by rw [hName]; rfl⟩
    exact (find?_insert c name' raw' name).trans (if_neg hName)
  · have hName : name ≠ name' := fun hName => hSupply ⟨raw', by rw [hName]; rfl⟩
    show (c.getOrCompile name' raw').2.find? name = _
    cases hWanted : c.wanted? name' raw' with
    | some object =>
      rw [getOrCompile_of_wanted hWanted]
      rfl
    | none =>
      rw [getOrCompile_of_not_wanted hWanted, find?_insert, if_neg hName]
      rfl
  · have hName : name ≠ name' := fun hName => hRemoves (.inl (by rw [hName]))
    exact (find?_invalidate c name' name).trans (if_neg hName)
  · exact absurd (.inr rfl) hRemoves

theorem supply?_of_removes (h : op.Removes name) : op.supply? = none := by
  rcases h with rfl | rfl <;> rfl

end

/-- The object under a name is the one that the latest operation to put a text there obtained. -/
theorem find?_after_iff {ops : List Operation} {name : String} {object : Object} :
    (after ops).find? name = some object ↔ ∃ raw, Holds ops name raw object := by
  induction ops using List.reverseRecOn with
  | nil => simp [Holds, Last, after, find?, empty]
  | append_singleton ops op ih =>
    simp only [after_concat, Holds, last_concat, exists_or, exists_and_left]
    by_cases hTouches : op.Touches name
    · rcases hTouches with ⟨raw, hSupply⟩ | hRemoves
      · simp [find?_run_of_supply hSupply, hSupply, Touches]
      · simp [find?_run_of_removes hRemoves, supply?_of_removes hRemoves, Touches, hRemoves]
    · rw [find?_run_of_not_touches hTouches, ih]
      have hSupply : ∀ raw, op.supply? ≠ some (name, raw) :=
        fun raw h => hTouches (.inl ⟨raw, h⟩)
      simp [hTouches, hSupply, Holds]

/-- A current text has its object. -/
theorem Current.exists_holds {ops : List Operation} {name raw : String}
    (h : Current ops name raw) : ∃ object, Holds ops name raw object := by
  obtain ⟨before, op, later, hSplit, hSupply, hLater⟩ := h
  have hObject : ∃ object, op.obtained? (after before) = some object := by
    rcases op with (_ | _ | _ | _) | _
    all_goals first | exact ⟨_, rfl⟩ | cases hSupply
  obtain ⟨object, hObject⟩ := hObject
  exact ⟨object, before, op, later, hSplit, ⟨hSupply, hObject⟩, hLater⟩

theorem isSome_find?_after_iff {ops : List Operation} {name : String} :
    ((after ops).find? name).isSome ↔ ∃ raw, Current ops name raw := by
  rw [Option.isSome_iff_exists]
  constructor
  · rintro ⟨object, hFound⟩
    obtain ⟨raw, hHolds⟩ := find?_after_iff.mp hFound
    exact ⟨raw, hHolds.current⟩
  · rintro ⟨raw, hCurrent⟩
    obtain ⟨object, hHolds⟩ := hCurrent.exists_holds
    exact ⟨object, find?_after_iff.mpr ⟨raw, hHolds⟩⟩

/-! ### Texts -/

theorem faithful_after {ops : List Operation}
    (hDistinct : NoCollision ((supplied ops).map Prod.snd)) :
    Faithful (supplied ops) (after ops).contents := by
  induction ops using List.reverseRecOn with
  | nil =>
    intro name t hFound
    cases hFound
  | append_singleton ops op ih =>
    have hOld : supplied ops ⊆ supplied (ops ++ [op]) := by
      rw [supplied_append]
      exact List.subset_append_left _ _
    have hBefore := (ih (hDistinct.mono (List.map_subset _ hOld))).mono hOld
    rw [after_concat]
    cases op with
    | call request =>
      have hSupply : ∀ s, request.supply? = some s → s ∈ supplied (ops ++ [.call request]) := by
        intro s hText
        refine List.mem_filterMap.mpr ⟨.call request, by simp, hText⟩
      have hRun := congrArg Prod.snd (Call.run_contents hBefore hSupply hDistinct)
      show Faithful _ (request.run (after ops)).2.contents
      rw [show (request.run (after ops)).2.contents = _ from hRun]
      exact Call.faithful_onContents hBefore hSupply
    | clear =>
      intro name t hFound
      cases hFound

/-- An operation that supplies a text obtains an object of that text. -/
theorem template_of_supply {before : List Operation} {op : Operation} {name raw : String}
    {object : Object} (hDistinct : NoCollision ((supplied (before ++ [op])).map Prod.snd))
    (hSupply : op.supply? = some (name, raw))
    (hObject : op.obtained? (after before) = some object) : object.template = compile raw := by
  have hMem : (name, raw) ∈ supplied (before ++ [op]) :=
    List.mem_filterMap.mpr ⟨op, by simp, hSupply⟩
  have hOld : supplied before ⊆ supplied (before ++ [op]) := by
    rw [supplied_append]
    exact List.subset_append_left _ _
  have hFaithful := (faithful_after (hDistinct.mono (List.map_subset _ hOld))).mono hOld
  rcases op with (_ | ⟨name', raw'⟩ | ⟨name', raw'⟩ | _) | _
  · cases hSupply
  · obtain ⟨rfl, rfl⟩ := Prod.mk.inj (Option.some.inj hSupply)
    rw [← Option.some.inj hObject]
    rfl
  · obtain ⟨rfl, rfl⟩ := Prod.mk.inj (Option.some.inj hSupply)
    rw [← Option.some.inj hObject]
    cases hWanted : (after before).wanted? name' raw' with
    | some found =>
      rw [getOrCompile_of_wanted hWanted]
      exact template_of_wanted hFaithful hMem hDistinct hWanted
    | none =>
      rw [getOrCompile_of_not_wanted hWanted]
      rfl
  · cases hSupply
  · cases hSupply

theorem NoCollision.of_append {before later : List Operation}
    (h : NoCollision ((supplied (before ++ later)).map Prod.snd)) :
    NoCollision ((supplied before).map Prod.snd) := by
  refine h.mono (List.map_subset _ ?_)
  rw [supplied_append]
  exact List.subset_append_left _ _

theorem template_of_holds {ops : List Operation} {name raw : String} {object : Object}
    (hDistinct : NoCollision ((supplied ops).map Prod.snd)) (h : Holds ops name raw object) :
    object.template = compile raw := by
  obtain ⟨before, op, later, rfl, ⟨hSupply, hObject⟩, -⟩ := h
  rw [List.append_cons] at hDistinct
  exact template_of_supply (NoCollision.of_append hDistinct) hSupply hObject

/-- A text is current just when its look-up finds an object. -/
theorem wanted?_after_isSome_iff {ops : List Operation} {op : Operation} {name raw : String}
    (hDistinct : NoCollision ((supplied (ops ++ [op])).map Prod.snd))
    (hSupply : op.supply? = some (name, raw)) :
    ((after ops).wanted? name raw).isSome ↔ Current ops name raw := by
  have hBefore : NoCollision ((supplied ops).map Prod.snd) := NoCollision.of_append hDistinct
  rw [Option.isSome_iff_exists]
  constructor
  · rintro ⟨object, hWanted⟩
    obtain ⟨hFound, hText⟩ := wanted?_eq_some_iff.mp hWanted
    obtain ⟨other, hHolds⟩ := find?_after_iff.mp hFound
    rw [template_of_holds hBefore hHolds] at hText
    have hOther : other ∈ (supplied (ops ++ [op])).map Prod.snd := by
      obtain ⟨before, first, later, rfl, hFirst, -⟩ := hHolds.current
      exact List.mem_map_of_mem (List.mem_filterMap.mpr ⟨first, by simp, hFirst⟩)
    have hRaw : raw ∈ (supplied (ops ++ [op])).map Prod.snd :=
      List.mem_map_of_mem (List.mem_filterMap.mpr ⟨op, by simp, hSupply⟩)
    rw [← hDistinct other hOther raw hRaw hText]
    exact hHolds.current
  · intro hCurrent
    obtain ⟨object, hHolds⟩ := hCurrent.exists_holds
    refine ⟨object, wanted?_eq_some_iff.mpr ⟨find?_after_iff.mpr ⟨raw, hHolds⟩, ?_⟩⟩
    rw [template_of_holds hBefore hHolds]
    rfl

/-! ### Objects -/

/-- An operation obtains an object that is there, or makes the next one. -/
theorem found_or_made {c : Cache} {op : Operation} {object : Object}
    (h : op.obtained? c = some object) :
    ((∃ name, c.find? name = some object) ∧ (op.run c).made = c.made) ∨
      object.serial = c.made ∧ (op.run c).made = c.made + 1 := by
  rcases op with (name | ⟨name, raw⟩ | ⟨name, raw⟩ | name) | _
  · refine .inl ⟨⟨name, (fst_get c name).symm.trans h⟩, ?_⟩
    show (c.get name).2.made = c.made
    rw [get]
    split <;> rfl
  · rw [← Option.some.inj h]
    exact .inr ⟨rfl, rfl⟩
  · rw [← Option.some.inj h]
    show ((∃ name', _ = some (c.getOrCompile name raw).1) ∧ (c.getOrCompile name raw).2.made = _) ∨
      (c.getOrCompile name raw).1.serial = _ ∧ (c.getOrCompile name raw).2.made = _
    cases hWanted : c.wanted? name raw with
    | some found =>
      rw [getOrCompile_of_wanted hWanted]
      exact .inl ⟨⟨name, (wanted?_eq_some_iff.mp hWanted).1⟩, rfl⟩
    | none =>
      rw [getOrCompile_of_not_wanted hWanted]
      exact .inr ⟨rfl, rfl⟩
  · cases h
  · cases h

theorem made_le_made_run (c : Cache) (op : Operation) : c.made ≤ (op.run c).made := by
  cases h : op.obtained? c with
  | some object =>
    rcases found_or_made h with ⟨-, hMade⟩ | ⟨-, hMade⟩ <;> omega
  | none =>
    rcases op with (name | _ | _ | _) | _
    · show _ ≤ (c.get name).2.made
      rw [get]
      split <;> exact Nat.le_refl _
    · cases h
    · cases h
    · exact Nat.le_refl _
    · exact Nat.le_refl _

theorem serial_lt_made {ops : List Operation} {object : Object} (h : Obtained ops object) :
    object.serial < (after ops).made := by
  induction ops using List.reverseRecOn with
  | nil =>
    obtain ⟨before, op, later, hSplit, -⟩ := h
    simp at hSplit
  | append_singleton ops op ih =>
    rw [after_concat]
    rcases obtained_concat.mp h with hOld | hNew
    · exact (ih hOld).trans_le (made_le_made_run _ op)
    · rcases found_or_made hNew with ⟨⟨name, hFound⟩, hMade⟩ | ⟨hSerial, hMade⟩
      · obtain ⟨raw, hHolds⟩ := find?_after_iff.mp hFound
        exact (ih hHolds.obtained).trans_le hMade.ge
      · omega

/-- What an operation obtains was obtained before, or has a number that no other object had. -/
theorem obtained_or_fresh {ops : List Operation} {op : Operation} {object : Object}
    (h : op.obtained? (after ops) = some object) :
    Obtained ops object ∨ ∀ other, Obtained ops other → other.serial ≠ object.serial := by
  rcases found_or_made h with ⟨⟨name, hFound⟩, -⟩ | ⟨hSerial, -⟩
  · obtain ⟨raw, hHolds⟩ := find?_after_iff.mp hFound
    exact .inl hHolds.obtained
  · refine .inr fun other hOther hSame => ?_
    have hBound := serial_lt_made hOther
    omega

/-- Two objects with one number are the same object. -/
theorem eq_of_serial_eq {ops : List Operation} {a b : Object} (hA : Obtained ops a)
    (hB : Obtained ops b) (hSerial : a.serial = b.serial) : a = b := by
  induction ops using List.reverseRecOn with
  | nil =>
    obtain ⟨before, op, later, hSplit, -⟩ := hA
    simp at hSplit
  | append_singleton ops op ih =>
    rcases obtained_concat.mp hA with hA | hA <;> rcases obtained_concat.mp hB with hB | hB
    · exact ih hA hB
    · rcases obtained_or_fresh hB with hOld | hFresh
      · exact ih hA hOld
      · exact absurd hSerial (hFresh a hA)
    · rcases obtained_or_fresh hA with hOld | hFresh
      · exact ih hOld hB
      · exact absurd hSerial.symm (hFresh b hB)
    · exact Option.some.inj (hA.symm.trans hB)

/-! ### Counts -/

/-- The places in a history that come after the last removal of everything and whose operation
satisfies `P` with those before it. -/
def places (P : List Operation → Operation → Prop) (ops : List Operation) : Set Nat :=
  {i | ∃ op, ops[i]? = some op ∧ .clear ∉ ops.drop i ∧ P (ops.take i) op}

/-- The number of those places. -/
noncomputable def tally (P : List Operation → Operation → Prop) (ops : List Operation) : Nat :=
  (places P ops).ncard

section

variable {P : List Operation → Operation → Prop} {ops : List Operation} {op : Operation}

theorem lt_length_of_mem_places {i : Nat} (h : i ∈ places P ops) : i < ops.length := by
  obtain ⟨op, hOp, -⟩ := h
  exact (List.getElem?_eq_some_iff.mp hOp).1

theorem finite_places : (places P ops).Finite :=
  (Set.finite_Iio ops.length).subset fun _ h => lt_length_of_mem_places h

theorem places_concat_clear : places P (ops ++ [.clear]) = ∅ := by
  refine Set.eq_empty_iff_forall_notMem.mpr fun i h => ?_
  have hLength := lt_length_of_mem_places h
  obtain ⟨op, -, hClear, -⟩ := h
  rw [List.length_append, List.length_singleton] at hLength
  rw [List.drop_append_of_le_length (by omega)] at hClear
  exact hClear (by simp)

theorem mem_places_concat (hOp : op ≠ .clear) {i : Nat} :
    i ∈ places P (ops ++ [op]) ↔ i ∈ places P ops ∨ i = ops.length ∧ P ops op := by
  rcases lt_trichotomy i ops.length with hLess | rfl | hMore
  · simp [places, List.getElem?_append_left hLess, hLess.ne, List.drop_append_of_le_length hLess.le,
      List.take_append_of_le_length hLess.le, hOp.symm]
  · simp [places, hOp.symm]
  · constructor
    · intro h
      have hLength := lt_length_of_mem_places h
      rw [List.length_append, List.length_singleton] at hLength
      omega
    · rintro (h | ⟨hEq, -⟩)
      · exact absurd (lt_length_of_mem_places h) hMore.not_gt
      · exact absurd hEq hMore.ne'

theorem tally_nil : tally P [] = 0 := by simp [tally, places]

theorem tally_concat_clear : tally P (ops ++ [.clear]) = 0 := by
  rw [tally, places_concat_clear, Set.ncard_empty]

theorem tally_concat_of (hOp : op ≠ .clear) (hP : P ops op) :
    tally P (ops ++ [op]) = tally P ops + 1 := by
  have hPlaces : places P (ops ++ [op]) = Insert.insert ops.length (places P ops) := by
    ext i
    rw [mem_places_concat hOp, Set.mem_insert_iff, or_comm, and_iff_left hP]
  rw [tally, hPlaces, Set.ncard_insert_of_notMem
    (fun h => (lt_length_of_mem_places h).false) finite_places, tally]

theorem tally_concat_of_not (hOp : op ≠ .clear) (hP : ¬P ops op) :
    tally P (ops ++ [op]) = tally P ops := by
  have hPlaces : places P (ops ++ [op]) = places P ops := by
    ext i
    rw [mem_places_concat hOp, or_iff_left fun h => hP h.2]
  rw [tally, hPlaces, tally]

end

/-- A look-up counts as a hit or as a miss, and nothing else counts. -/
theorem counts_run {ops : List Operation} {op : Operation}
    (hDistinct : NoCollision ((supplied (ops ++ [op])).map Prod.snd)) (hOp : op ≠ .clear) :
    (op.IsLookup ∧ Hits ops op ∧
      (op.run (after ops)).hits = (after ops).hits + 1 ∧
        (op.run (after ops)).misses = (after ops).misses) ∨
      (op.IsLookup ∧ ¬Hits ops op ∧ (op.run (after ops)).hits = (after ops).hits ∧
        (op.run (after ops)).misses = (after ops).misses + 1) ∨
      (¬op.IsLookup ∧ ¬Hits ops op ∧ (op.run (after ops)).hits = (after ops).hits ∧
        (op.run (after ops)).misses = (after ops).misses) := by
  rcases op with (name | ⟨name, raw⟩ | ⟨name, raw⟩ | name) | _
  · have hHits : Hits ops (.call (.get name)) ↔ ((after ops).find? name).isSome :=
      isSome_find?_after_iff.symm
    rw [hHits]
    simp only [run, Call.run, get]
    cases (after ops).find? name with
    | some object => exact .inl ⟨trivial, rfl, rfl, rfl⟩
    | none => exact .inr (.inl ⟨trivial, by simp, rfl, rfl⟩)
  · exact .inr (.inr ⟨id, id, rfl, rfl⟩)
  · have hHits : Hits ops (.call (.getOrCompile name raw)) ↔
        ((after ops).wanted? name raw).isSome := (wanted?_after_isSome_iff hDistinct rfl).symm
    rw [hHits]
    simp only [run, Call.run]
    cases hWanted : (after ops).wanted? name raw with
    | some object =>
      rw [getOrCompile_of_wanted hWanted]
      exact .inl ⟨trivial, rfl, rfl, rfl⟩
    | none =>
      rw [getOrCompile_of_not_wanted hWanted]
      exact .inr (.inl ⟨trivial, by simp, rfl, rfl⟩)
  · exact .inr (.inr ⟨id, id, rfl, rfl⟩)
  · exact absurd rfl hOp

theorem counts_after {ops : List Operation}
    (hDistinct : NoCollision ((supplied ops).map Prod.snd)) :
    (after ops).hits = tally Hits ops ∧
      (after ops).hits + (after ops).misses = tally (fun _ op => op.IsLookup) ops := by
  induction ops using List.reverseRecOn with
  | nil =>
    rw [tally_nil, tally_nil]
    exact ⟨rfl, rfl⟩
  | append_singleton ops op ih =>
    obtain ⟨hHits, hAll⟩ := ih (NoCollision.of_append hDistinct)
    by_cases hOp : op = .clear
    · subst hOp
      rw [tally_concat_clear, tally_concat_clear, after_concat]
      exact ⟨rfl, rfl⟩
    · rw [after_concat]
      rcases counts_run hDistinct hOp with ⟨hLookup, hHit, h⟩ | ⟨hLookup, hHit, h⟩ |
        ⟨hLookup, hHit, h⟩
      · rw [tally_concat_of hOp hHit, tally_concat_of hOp hLookup]
        omega
      · rw [tally_concat_of_not hOp hHit, tally_concat_of hOp hLookup]
        omega
      · rw [tally_concat_of_not hOp hHit, tally_concat_of_not hOp hLookup]
        omega

/-! ### The number of names -/

theorem nodup_names (ops : List Operation) : ((after ops).entries.map Prod.fst).Nodup := by
  induction ops using List.reverseRecOn with
  | nil => exact List.nodup_nil
  | append_singleton ops op ih =>
    have hWithout : ∀ name, ((without name (after ops).entries).map Prod.fst).Nodup := fun name =>
      ih.sublist (List.filter_sublist.map Prod.fst)
    have hInsert : ∀ (c : Cache) (name raw : String), c.entries = (after ops).entries →
        ((c.insert name raw).2.entries.map Prod.fst).Nodup := by
      intro c name raw hEntries
      show (name :: (without name c.entries).map Prod.fst).Nodup
      rw [hEntries]
      refine List.nodup_cons.mpr ⟨?_, hWithout name⟩
      simp [without]
    rw [after_concat]
    rcases op with (name | ⟨name, raw⟩ | ⟨name, raw⟩ | name) | _
    · show ((after ops).get name).2.entries.map Prod.fst |>.Nodup
      rw [get]
      split <;> exact ih
    · exact hInsert _ name raw rfl
    · show ((after ops).getOrCompile name raw).2.entries.map Prod.fst |>.Nodup
      cases hWanted : (after ops).wanted? name raw with
      | some object =>
        rw [getOrCompile_of_wanted hWanted]
        exact ih
      | none =>
        rw [getOrCompile_of_not_wanted hWanted]
        exact hInsert _ name raw rfl
    · exact hWithout name
    · exact List.nodup_nil

theorem mem_names_iff {c : Cache} {name : String} :
    name ∈ c.entries.map Prod.fst ↔ (c.find? name).isSome := by
  rw [find?]
  induction c.entries with
  | nil => simp
  | cons entry entries ih =>
    obtain ⟨key, object⟩ := entry
    rw [List.map_cons, List.mem_cons, lookup_cons, ih]
    split
    · next hName => simp [hName]
    · next hName => simp [hName]

theorem size_after (ops : List Operation) :
    (after ops).size = Set.ncard {name | ∃ raw, Current ops name raw} := by
  have hNames : {name | ∃ raw, Current ops name raw} =
      (((after ops).entries.map Prod.fst).toFinset : Set String) := by
    ext name
    rw [List.coe_toFinset, Set.mem_ofPred_eq, Set.mem_ofPred_eq, mem_names_iff,
      isSome_find?_after_iff]
  rw [hNames, Set.ncard_coe_finset, List.toFinset_card_of_nodup (nodup_names ops), List.length_map,
    size]

/-! ### What operations obtain -/

section

variable {before : List Operation} {op : Operation} {name raw : String}

/-- A look-up that hits obtains the object that is there, and one of a name alone obtains it if it
is. -/
theorem obtained?_of_hit (hDistinct : NoCollision ((supplied (before ++ [op])).map Prod.snd))
    (h : op = .call (.get name) ∨ op = .call (.getOrCompile name raw) ∧ Current before name raw) :
    op.obtained? (after before) = (after before).find? name := by
  rcases h with rfl | ⟨rfl, hCurrent⟩
  · exact fst_get (after before) name
  · have hSome := (wanted?_after_isSome_iff hDistinct rfl).mpr hCurrent
    obtain ⟨object, hWanted⟩ := Option.isSome_iff_exists.mp hSome
    show some ((after before).getOrCompile name raw).1 = _
    rw [getOrCompile_of_wanted hWanted, (wanted?_eq_some_iff.mp hWanted).1]

/-- A compilation obtains an object with a number that no other object had. -/
theorem obtained?_of_compiled (hDistinct : NoCollision ((supplied (before ++ [op])).map Prod.snd))
    (h : op = .call (.insert name raw) ∨
      op = .call (.getOrCompile name raw) ∧ ¬Current before name raw) :
    ∃ object, op.obtained? (after before) = some object ∧
      ∀ other, Obtained before other → other.serial ≠ object.serial := by
  refine ⟨⟨(after before).made, compile raw⟩, ?_, fun other hOther => (serial_lt_made hOther).ne⟩
  rcases h with rfl | ⟨rfl, hCurrent⟩
  · rfl
  · have hNone : (after before).wanted? name raw = none := by
      rw [← Option.not_isSome_iff_eq_none, wanted?_after_isSome_iff hDistinct rfl]
      exact hCurrent
    show some ((after before).getOrCompile name raw).1 = _
    rw [getOrCompile_of_not_wanted hNone]
    rfl

theorem exists_textOf {object : Object}
    (hDistinct : NoCollision ((supplied (before ++ [op])).map Prod.snd))
    (h : op.obtained? (after before) = some object) :
    ∃ raw, TextOf before op raw ∧ object.template = compile raw := by
  rcases op with (name | ⟨name, raw⟩ | ⟨name, raw⟩ | name) | _
  · obtain ⟨raw, hHolds⟩ := find?_after_iff.mp ((fst_get (after before) name).symm.trans h)
    exact ⟨raw, ⟨name, .inr ⟨rfl, hHolds.current⟩⟩,
      template_of_holds (NoCollision.of_append hDistinct) hHolds⟩
  · exact ⟨raw, ⟨name, .inl rfl⟩, template_of_supply hDistinct rfl h⟩
  · exact ⟨raw, ⟨name, .inl rfl⟩, template_of_supply hDistinct rfl h⟩
  · cases h
  · cases h

end

/-- The operations on a cache tell what is in it. A name is there when an operation put a text there
and none removed it since, with the object that the latest of those operations obtained, which was
compiled from its text. The counts are those of the look-ups since everything was last removed. A
look-up that hits gives the object that is there, and a compilation gives one that was never seen.
What was once obtained stays the template of its text. -/
theorem after_history (ops : List Operation)
    (hDistinct : NoCollision ((supplied ops).map Prod.snd)) :
    (∀ name, ((after ops).find? name).isSome ↔ ∃ raw, Current ops name raw) ∧
    (∀ name raw, Current ops name raw → ∃ object, (after ops).find? name = some object ∧
      Holds ops name raw object ∧ object.template = compile raw) ∧
    (after ops).size = Set.ncard {name | ∃ raw, Current ops name raw} ∧
    (after ops).hits + (after ops).misses = tally (fun _ op => op.IsLookup) ops ∧
    (after ops).hits = tally Hits ops ∧
    ∀ before op later, ops = before ++ op :: later →
      (∀ name raw, op = .call (.get name) ∨
          op = .call (.getOrCompile name raw) ∧ Current before name raw →
        op.obtained? (after before) = (after before).find? name) ∧
      (∀ name raw, op = .call (.insert name raw) ∨
          op = .call (.getOrCompile name raw) ∧ ¬Current before name raw →
        ∃ object, op.obtained? (after before) = some object ∧
          ∀ other, Obtained before other → other.serial ≠ object.serial) ∧
      ∀ object, op.obtained? (after before) = some object →
        ∃ raw, TextOf before op raw ∧ ∀ other, Obtained ops other →
          other.serial = object.serial →
            ∀ context, other.template.render context = (compile raw).render context := by
  obtain ⟨hHits, hLookups⟩ := counts_after hDistinct
  refine ⟨fun name => isSome_find?_after_iff, fun name raw hCurrent => ?_, size_after ops, hLookups,
    hHits, fun before op later hSplit => ?_⟩
  · obtain ⟨object, hHolds⟩ := hCurrent.exists_holds
    exact ⟨object, find?_after_iff.mpr ⟨raw, hHolds⟩, hHolds, template_of_holds hDistinct hHolds⟩
  · subst hSplit
    have hHere : NoCollision ((supplied (before ++ [op])).map Prod.snd) := by
      rw [List.append_cons] at hDistinct
      exact NoCollision.of_append hDistinct
    refine ⟨fun name raw => obtained?_of_hit hHere, fun name raw => obtained?_of_compiled hHere,
      fun object hObject => ?_⟩
    obtain ⟨raw, hText, hTemplate⟩ := exists_textOf hHere hObject
    refine ⟨raw, hText, fun other hOther hSerial context => ?_⟩
    have hSame : other = object :=
      eq_of_serial_eq hOther ⟨before, op, later, rfl, hObject⟩ hSerial
    rw [hSame, hTemplate]

/-- A changed text, a removal of everything, and a look-up of a name from before it. The object
that the first operation obtained still is the template of its text. -/
theorem after_history_changed_text :
    let change : Operation := .call (.getOrCompile "a" "\x7by\x7d")
    let later : List Operation := [.clear, .call (.getOrCompile "b" "\x7bx\x7d"),
      .call (.get "a"), .call (.getOrCompile "b" "\x7bx\x7d")]
    let first : List Operation := [.call (.insert "a" "\x7bx\x7d")]
    let ops := first ++ change :: later
    NoCollision ((supplied ops).map Prod.snd) ∧ (¬∃ raw, Current ops "a" raw) ∧
      Set.ncard {name | ∃ raw, Current ops name raw} = 1 ∧
      tally (fun _ op => op.IsLookup) ops = 3 ∧ tally Hits ops = 1 ∧
      (∃ object, change.obtained? (after first) = some object ∧
        ∀ other, Obtained first other → other.serial ≠ object.serial) ∧
      ∀ other, Obtained ops other → other.serial = 0 → ∀ context,
        other.template.render context = (compile "\x7bx\x7d").render context := by
  intro change later first ops
  have hTexts : fingerprintOf "\x7bx\x7d" ≠ fingerprintOf "\x7by\x7d" := by decide +kernel
  have hDistinct : NoCollision ((supplied ops).map Prod.snd) := .of_pair hTexts (by decide)
  have hAfter : (((after ops).find? "a").isSome, (after ops).size, (after ops).hits,
      (after ops).misses) = (false, 1, 1, 2) := by decide +kernel
  simp only [Prod.mk.injEq] at hAfter
  obtain ⟨hGone, hOne, hHit, hMissed⟩ := hAfter
  obtain ⟨hPresent, -, hSize, hLookups, hHits, hSplit⟩ := after_history ops hDistinct
  have hSmall : NoCollision ((supplied (first ++ [change])).map Prod.snd) :=
    .of_pair hTexts (by decide)
  have hNew : ¬Current first "a" "\x7by\x7d" := by
    rw [← wanted?_after_isSome_iff hSmall rfl]
    intro hSome
    obtain ⟨object, hWanted⟩ := Option.isSome_iff_exists.mp hSome
    obtain ⟨hFound, hText⟩ := wanted?_eq_some_iff.mp hWanted
    have hObject : (⟨0, compile "\x7bx\x7d"⟩ : Object) = object := Option.some.inj hFound
    subst hObject
    exact hTexts hText
  have hFirst := (hSplit [] (.call (.insert "a" "\x7bx\x7d")) (change :: later) rfl).2.2 _ rfl
  obtain ⟨raw, ⟨name, hText | ⟨hGet, -⟩⟩, hRender⟩ := hFirst
  · obtain ⟨-, rfl⟩ := Prod.mk.inj (Option.some.inj hText)
    refine ⟨hDistinct, ?_, ?_, ?_, ?_, ?_, hRender⟩
    · rw [← hPresent, hGone]
      simp
    · rw [← hSize, hOne]
    · rw [← hLookups, hHit, hMissed]
    · rw [← hHits, hHit]
    · exact (hSplit first change later rfl).2.1 "a" "\x7by\x7d" (.inr ⟨rfl, hNew⟩)
  · cases hGet

end DocTemplate.Cache
