import DocTemplate.Template.Cache
import Mathlib.Logic.Function.Basic

/-! Calls on a cache and what they do to its contents, which are the templates under its names
without regard to the objects that hold them. As long as no two texts share a fingerprint, a call
that compiles on demand does to the contents what an insertion does: the object that it finds was
compiled from the text that it was given. -/

namespace DocTemplate

/-- No two of the texts have one fingerprint. -/
def Template.NoCollision (texts : List String) : Prop :=
  ∀ a ∈ texts, ∀ b ∈ texts, fingerprintOf a = fingerprintOf b → a = b

theorem Template.NoCollision.mono {texts others : List String} (h : NoCollision texts)
    (hSubset : others ⊆ texts) : NoCollision others :=
  fun a ha b hb => h a (hSubset ha) b (hSubset hb)

theorem Template.NoCollision.of_pair {a b : String} (h : fingerprintOf a ≠ fingerprintOf b)
    {texts : List String} (hTexts : ∀ text ∈ texts, text = a ∨ text = b) : NoCollision texts := by
  intro s hs t ht hSame
  rcases hTexts s hs with rfl | rfl <;> rcases hTexts t ht with rfl | rfl
  · rfl
  · exact absurd hSame h
  · exact absurd hSame.symm h
  · rfl

namespace Cache

open Template

/-! ### Entries -/

theorem lookup_cons (key : String) (object : Object) (entries : List (String × Object))
    (other : String) :
    ((key, object) :: entries).lookup other =
      if other = key then some object else entries.lookup other := by
  rw [List.lookup_cons]
  by_cases hOther : other = key
  · rw [if_pos hOther, hOther, beq_self_eq_true]
  · rw [if_neg hOther, beq_false_of_ne hOther]

theorem lookup_without (name other : String) (entries : List (String × Object)) :
    (without name entries).lookup other = if other = name then none else entries.lookup other := by
  induction entries with
  | nil => simp [without]
  | cons entry entries ih =>
    obtain ⟨key, object⟩ := entry
    rw [without] at ih ⊢
    by_cases hKey : key = name
    · subst hKey
      rw [List.filter_cons_of_neg (by simp), ih, lookup_cons]
      split <;> rfl
    · rw [List.filter_cons_of_pos (by simpa using hKey), lookup_cons, lookup_cons, ih]
      by_cases hOther : other = key
      · rw [if_pos hOther, if_neg (hOther ▸ hKey), if_pos hOther]
      · rw [if_neg hOther, if_neg hOther]

theorem find?_insert (c : Cache) (name raw other : String) :
    (c.insert name raw).2.find? other =
      if other = name then some ⟨c.made, compile raw⟩ else c.find? other := by
  show ((name, _) :: without name c.entries).lookup other = _
  rw [lookup_cons, lookup_without]
  by_cases hOther : other = name
  · rw [if_pos hOther, if_pos hOther]
  · rw [if_neg hOther, if_neg hOther, if_neg hOther]
    rfl

theorem find?_invalidate (c : Cache) (name other : String) :
    (c.invalidate name).2.find? other = if other = name then none else c.find? other :=
  lookup_without name other c.entries

theorem find?_get (c : Cache) (name other : String) :
    (c.get name).2.find? other = c.find? other := by
  rw [get]
  split <;> rfl

theorem fst_get (c : Cache) (name : String) : (c.get name).1 = c.find? name := by
  rw [get]
  split
  · next hFound => rw [hFound]
  · next hFound => rw [hFound]

/-! ### Look-ups of a text -/

/-- The object under a name, if its fingerprint is that of a text. -/
def wanted? (c : Cache) (name raw : String) : Option Object :=
  (c.find? name).filter fun object => object.template.fingerprint = fingerprintOf raw

theorem wanted?_eq_some_iff {c : Cache} {name raw : String} {object : Object} :
    c.wanted? name raw = some object ↔
      c.find? name = some object ∧ object.template.fingerprint = fingerprintOf raw := by
  rw [wanted?, Option.filter_eq_some_iff, decide_eq_true_iff]

theorem getOrCompile_of_wanted {c : Cache} {name raw : String} {object : Object}
    (h : c.wanted? name raw = some object) : c.getOrCompile name raw = (object, c.countHit) := by
  obtain ⟨hFound, hText⟩ := wanted?_eq_some_iff.mp h
  rw [getOrCompile, hFound]
  exact if_pos hText

theorem getOrCompile_of_not_wanted {c : Cache} {name raw : String}
    (h : c.wanted? name raw = none) : c.getOrCompile name raw = c.countMiss.insert name raw := by
  rw [getOrCompile]
  split
  · next object hFound =>
    refine if_neg fun hText => ?_
    have hWanted := wanted?_eq_some_iff.mpr ⟨hFound, hText⟩
    rw [h] at hWanted
    contradiction
  · rfl

/-! ### Contents -/

/-- The template under a name. -/
def contents (c : Cache) (name : String) : Option Template := (c.find? name).map Object.template

theorem contents_countHit (c : Cache) : c.countHit.contents = c.contents := rfl

theorem contents_countMiss (c : Cache) : c.countMiss.contents = c.contents := rfl

theorem contents_get (c : Cache) (name : String) : (c.get name).2.contents = c.contents := by
  funext other
  rw [contents, find?_get, contents]

theorem contents_insert (c : Cache) (name raw : String) :
    (c.insert name raw).2.contents = Function.update c.contents name (some (compile raw)) := by
  funext other
  rw [contents, find?_insert, Function.update_apply]
  by_cases hOther : other = name
  · rw [if_pos hOther, if_pos hOther]
    rfl
  · rw [if_neg hOther, if_neg hOther, contents]

theorem contents_invalidate (c : Cache) (name : String) :
    (c.invalidate name).2.contents = Function.update c.contents name none := by
  funext other
  rw [contents, find?_invalidate, Function.update_apply]
  by_cases hOther : other = name
  · rw [if_pos hOther, if_pos hOther]
    rfl
  · rw [if_neg hOther, if_neg hOther, contents]

/-- Every template in the contents was compiled from a text that was supplied for its name. -/
def Faithful (supplied : List (String × String)) (m : String → Option Template) : Prop :=
  ∀ name t, m name = some t → ∃ raw, (name, raw) ∈ supplied ∧ t = compile raw

theorem Faithful.mono {supplied others : List (String × String)} {m : String → Option Template}
    (h : Faithful supplied m) (hSubset : supplied ⊆ others) : Faithful others m := by
  intro name t hFound
  obtain ⟨raw, hMem, rfl⟩ := h name t hFound
  exact ⟨raw, hSubset hMem, rfl⟩

/-- An object with the fingerprint of a text holds the template of that text. -/
theorem template_of_wanted {supplied : List (String × String)} {c : Cache} {name raw : String}
    {object : Object} (hFaithful : Faithful supplied c.contents) (hMem : (name, raw) ∈ supplied)
    (hDistinct : NoCollision (supplied.map Prod.snd)) (h : c.wanted? name raw = some object) :
    object.template = compile raw := by
  obtain ⟨hFound, hText⟩ := wanted?_eq_some_iff.mp h
  obtain ⟨other, hOther, hTemplate⟩ :=
    hFaithful name object.template (by rw [contents, hFound]; rfl)
  rw [hTemplate] at hText ⊢
  have hRaw : other = raw :=
    hDistinct other (List.mem_map_of_mem hOther) raw (List.mem_map_of_mem hMem) hText
  rw [hRaw]

/-! ### Calls -/

/-- What a call gives back: the entry under a name if there is one, an entry in any case, or whether
there was one to remove. -/
inductive Reply (α : Type) where
  | found (entry : Option α)
  | given (entry : α)
  | removed (present : Bool)
deriving DecidableEq, Repr

def Reply.map {α β : Type} (f : α → β) : Reply α → Reply β
  | found entry => found (entry.map f)
  | given entry => given (f entry)
  | removed present => removed present

/-- A call on a cache that several clients may make at the same time. -/
inductive Call where
  | get (name : String)
  | insert (name raw : String)
  | getOrCompile (name raw : String)
  | invalidate (name : String)
deriving DecidableEq, Repr

namespace Call

/-- The call from its beginning to its end, with nothing in between. -/
def run (c : Cache) : Call → Reply Object × Cache
  | get name => (.found (c.get name).1, (c.get name).2)
  | insert name raw => (.given (c.insert name raw).1, (c.insert name raw).2)
  | getOrCompile name raw => (.given (c.getOrCompile name raw).1, (c.getOrCompile name raw).2)
  | invalidate name => (.removed (c.invalidate name).1, (c.invalidate name).2)

/-- The text that the call supplies, with its name. -/
def supply? : Call → Option (String × String)
  | insert name raw | getOrCompile name raw => some (name, raw)
  | get _ | invalidate _ => none

/-- The call on contents alone. Compiling on demand is insertion here. -/
def onContents (m : String → Option Template) : Call → Reply Template × (String → Option Template)
  | get name => (.found (m name), m)
  | insert name raw | getOrCompile name raw =>
    (.given (compile raw), Function.update m name (some (compile raw)))
  | invalidate name => (.removed (m name).isSome, Function.update m name none)

theorem faithful_onContents {supplied : List (String × String)} {m : String → Option Template}
    {call : Call} (hFaithful : Faithful supplied m)
    (hSupply : ∀ s, call.supply? = some s → s ∈ supplied) :
    Faithful supplied (call.onContents m).2 := by
  have hUpdate : ∀ name raw, (name, raw) ∈ supplied →
      Faithful supplied (Function.update m name (some (compile raw))) := by
    intro name raw hMem other t hFound
    rw [Function.update_apply] at hFound
    split at hFound
    · next hOther =>
      subst hOther
      exact ⟨raw, hMem, (Option.some.inj hFound).symm⟩
    · exact hFaithful other t hFound
  cases call with
  | get name => exact hFaithful
  | insert name raw => exact hUpdate name raw (hSupply _ rfl)
  | getOrCompile name raw => exact hUpdate name raw (hSupply _ rfl)
  | invalidate name =>
    intro other t hFound
    simp only [onContents, Function.update_apply] at hFound
    split at hFound
    · contradiction
    · exact hFaithful other t hFound

/-- Finding the object of a text leaves the contents as an insertion of that text would. -/
theorem update_of_wanted {supplied : List (String × String)} {c : Cache} {name raw : String}
    {object : Object} (hFaithful : Faithful supplied c.contents) (hMem : (name, raw) ∈ supplied)
    (hDistinct : NoCollision (supplied.map Prod.snd)) (h : c.wanted? name raw = some object) :
    Function.update c.contents name (some (compile raw)) = c.contents := by
  rw [← template_of_wanted hFaithful hMem hDistinct h]
  refine Function.update_eq_self_iff.mpr ?_
  rw [contents, (wanted?_eq_some_iff.mp h).1]
  rfl

/-- A call does to the contents what its rule says, whichever objects hold them. -/
theorem run_contents {supplied : List (String × String)} {c : Cache} {call : Call}
    (hFaithful : Faithful supplied c.contents)
    (hSupply : ∀ s, call.supply? = some s → s ∈ supplied)
    (hDistinct : NoCollision (supplied.map Prod.snd)) :
    ((call.run c).1.map Object.template, (call.run c).2.contents) = call.onContents c.contents := by
  cases call with
  | get name =>
    simp only [run, onContents, Reply.map, fst_get, contents_get]
    rfl
  | insert name raw =>
    simp only [run, onContents, contents_insert]
    rfl
  | getOrCompile name raw =>
    have hMem := hSupply _ rfl
    simp only [run, onContents, Reply.map]
    cases hWanted : c.wanted? name raw with
    | some object =>
      rw [getOrCompile_of_wanted hWanted, contents_countHit,
        update_of_wanted hFaithful hMem hDistinct hWanted,
        template_of_wanted hFaithful hMem hDistinct hWanted]
    | none =>
      rw [getOrCompile_of_not_wanted hWanted, contents_insert, contents_countMiss]
      rfl
  | invalidate name =>
    simp only [run, onContents, contents_invalidate, Reply.map]
    rw [contents, Option.isSome_map]
    rfl

end Call
end Cache
end DocTemplate
