import DocTemplate.Proofs.Cache.Calls

/-! A cache shared by any number of clients, whose calls overlap. Each access to the entries is one
step, and a call that compiles on demand makes two of them if its look-up misses; others may change
the entries in between. Still the calls have a sequential order: each of them takes effect at its
last access. -/

namespace DocTemplate.Cache

open Template

/-! ### The accesses of a call -/

/-- What is left of a call: all of it, or the insertion after a look-up that missed. -/
inductive Task where
  | whole (call : Call)
  | insertion (name raw : String)
deriving DecidableEq, Repr

namespace Task

/-- The call that the task is left of. -/
def call : Task → Call
  | whole call => call
  | insertion name raw => .getOrCompile name raw

/-- One access to the entries: what is then left of the call, or its reply. -/
def access (c : Cache) : Task → (Task ⊕ Reply Object) × Cache
  | whole (.getOrCompile name raw) =>
    match c.wanted? name raw with
    | some object => (.inr (.given object), c.countHit)
    | none => (.inl (.insertion name raw), c.countMiss)
  | whole call => (.inr (call.run c).1, (call.run c).2)
  | insertion name raw => (.inr (.given (c.insert name raw).1), (c.insert name raw).2)

/-- With no other client in between, the accesses of a call make up the call. -/
theorem access_whole (c : Cache) (call : Call) :
    (whole call).access c = (.inr (call.run c).1, (call.run c).2) ∨
      ∃ rest c', (whole call).access c = (.inl rest, c') ∧
        rest.access c' = (.inr (call.run c).1, (call.run c).2) := by
  cases call with
  | get name => exact .inl rfl
  | insert name raw => exact .inl rfl
  | invalidate name => exact .inl rfl
  | getOrCompile name raw =>
    simp only [access, Call.run]
    cases hWanted : c.wanted? name raw with
    | some object => exact .inl (by rw [getOrCompile_of_wanted hWanted])
    | none =>
      refine .inr ⟨.insertion name raw, c.countMiss, rfl, ?_⟩
      rw [getOrCompile_of_not_wanted hWanted]

section

variable {supplied : List (String × String)} {c c' : Cache} {task : Task}

/-- An access that does not end its call leaves the contents alone. -/
theorem access_inl {rest : Task} (h : task.access c = (.inl rest, c')) :
    rest.call = task.call ∧ c'.contents = c.contents := by
  rcases task with call | ⟨name, raw⟩
  · cases call with
    | getOrCompile name raw =>
      simp only [access] at h
      split at h
      · cases h
      · obtain ⟨hRest, rfl⟩ := Prod.mk.inj h
        rw [← Sum.inl.inj hRest]
        exact ⟨rfl, contents_countMiss c⟩
    | _ => cases h
  · cases h

/-- At the access that ends a call, the call as a whole takes effect on the contents. -/
theorem access_inr {reply : Reply Object} (hFaithful : Faithful supplied c.contents)
    (hSupply : ∀ s, task.call.supply? = some s → s ∈ supplied)
    (hDistinct : NoCollision (supplied.map Prod.snd)) (h : task.access c = (.inr reply, c')) :
    (reply.map Object.template, c'.contents) = task.call.onContents c.contents := by
  have hWhole : ∀ call : Call, task = whole call → (call.run c).1 = reply → (call.run c).2 = c' →
      (reply.map Object.template, c'.contents) = task.call.onContents c.contents := by
    rintro call rfl rfl rfl
    exact Call.run_contents hFaithful hSupply hDistinct
  rcases task with call | ⟨name, raw⟩
  · cases call with
    | getOrCompile name raw =>
      simp only [access] at h
      split at h
      · next object hWanted =>
        obtain ⟨hReply, rfl⟩ := Prod.mk.inj h
        refine hWhole _ rfl ?_ ?_
        · rw [← Sum.inr.inj hReply, Call.run, getOrCompile_of_wanted hWanted]
        · rw [Call.run, getOrCompile_of_wanted hWanted]
      · cases h
    | _ =>
      obtain ⟨hReply, hCache⟩ := Prod.mk.inj h
      exact hWhole _ rfl (Sum.inr.inj hReply) hCache
  · obtain ⟨hReply, rfl⟩ := Prod.mk.inj h
    rw [← Sum.inr.inj hReply, contents_insert]
    rfl

end

end Task

/-! ### Clients -/

/-- A call that has its reply, with its client and the time at which it started. -/
structure Effect (ι : Type) where
  client : ι
  start : Nat
  call : Call
  reply : Reply Object
deriving Repr

/-- How far a client is: between two calls, in one, or with a reply that it has not taken back. -/
inductive Stage (ι : Type) where
  | idle
  | busy (start : Nat) (task : Task)
  | replied (effect : Effect ι)

/-- A cache and its clients. The clock counts the steps, and the calls that have finished stand with
the times at which they did, the latest first. -/
structure Shared (ι : Type) where
  cache : Cache
  clock : Nat
  stage : ι → Stage ι
  finished : List (Effect ι × Nat)

/-- What happens next: a client starts a call, or makes the next step of the one that it is in. -/
inductive Action (ι : Type) where
  | start (client : ι) (call : Call)
  | proceed (client : ι)

/-- The texts that a schedule supplies, with their names. -/
def Action.supplied {ι : Type} (schedule : List (Action ι)) : List (String × String) :=
  schedule.filterMap fun
    | .start _ call => call.supply?
    | .proceed _ => none

namespace Shared

variable {ι : Type}

/-- A new cache, and no client in a call. -/
def new : Shared ι := ⟨.empty, 0, fun _ => .idle, []⟩

/-- The call has its reply: it has finished, or only has to take the reply back. -/
def Replied (s : Shared ι) (e : Effect ι) : Prop :=
  (∃ stop, (e, stop) ∈ s.finished) ∨ s.stage e.client = .replied e

/-- The first call finished before the second one started. -/
def Precedes (s : Shared ι) (a b : Effect ι) : Prop :=
  ∃ stop, (a, stop) ∈ s.finished ∧ stop < b.start

section

variable [DecidableEq ι]

/-- The next tick of the clock, at which a client comes to a stage. -/
def advance (s : Shared ι) (i : ι) (stage : Stage ι) : Shared ι :=
  { s with clock := s.clock + 1, stage := Function.update s.stage i stage }

/-- One step. A client in a call cannot start another one, and one in no call has no next step. -/
def step (s : Shared ι) : Action ι → Shared ι
  | .start i call =>
    match s.stage i with
    | .idle => s.advance i (.busy s.clock (.whole call))
    | .busy .. | .replied _ => s
  | .proceed i =>
    match s.stage i with
    | .idle => s
    | .busy start task =>
      match task.access s.cache with
      | (.inl rest, cache) => { s.advance i (.busy start rest) with cache := cache }
      | (.inr reply, cache) =>
        { s.advance i (.replied ⟨i, start, task.call, reply⟩) with cache := cache }
    | .replied effect => { s.advance i .idle with finished := (effect, s.clock) :: s.finished }

def run (s : Shared ι) (schedule : List (Action ι)) : Shared ι := schedule.foldl step s

end

end Shared

/-! ### A sequential order -/

/-- Calls one after another: their replies and the cache at the end. -/
def Call.runAll (c : Cache) : List Call → List (Reply Object) × Cache
  | [] => ([], c)
  | call :: calls =>
    ((call.run c).1 :: (Call.runAll (call.run c).2 calls).1, (Call.runAll (call.run c).2 calls).2)

theorem Call.runAll_concat (c : Cache) (calls : List Call) (call : Call) :
    Call.runAll c (calls ++ [call]) =
      ((Call.runAll c calls).1 ++ [(call.run (Call.runAll c calls).2).1],
        (call.run (Call.runAll c calls).2).2) := by
  induction calls generalizing c with
  | nil => rfl
  | cons first calls ih =>
    simp only [List.cons_append, runAll, ih]

/-- The order is one in which the calls that have their replies could have been made one after
another. It has each of them once, none after one that started when it had finished, and in it they
give the same replies and leave the same contents, the objects apart. -/
structure Shared.Linearizes {ι : Type} (s : Shared ι) (order : List (Effect ι)) : Prop where
  nodup : order.Nodup
  mem_iff : ∀ e, e ∈ order ↔ s.Replied e
  respects : order.Pairwise fun a b => ¬s.Precedes b a
  replies : (Call.runAll .empty (order.map Effect.call)).1.map (Reply.map Object.template) =
    order.map fun e => e.reply.map Object.template
  contents : (Call.runAll .empty (order.map Effect.call)).2.contents = s.cache.contents

/-- A call that compiles on demand gave the template of its text, and one that only looks a name up
gave a template of a text that was supplied for that name. -/
def Effect.Genuine {ι : Type} (supplied : List (String × String)) (e : Effect ι) : Prop :=
  (∀ name raw, e.call = .getOrCompile name raw →
    e.reply.map Object.template = .given (compile raw)) ∧
  ∀ name t, e.call = .get name → e.reply.map Object.template = .found (some t) →
    ∃ raw, (name, raw) ∈ supplied ∧ t = compile raw

theorem Effect.genuine_of_onContents {ι : Type} {supplied : List (String × String)}
    {m : String → Option Template} {e : Effect ι} (hFaithful : Faithful supplied m)
    (h : e.reply.map Object.template = (e.call.onContents m).1) : e.Genuine supplied := by
  constructor
  · intro name raw hCall
    rw [h, hCall]
    rfl
  · intro name t hCall hReply
    rw [h, hCall] at hReply
    exact hFaithful name t (Reply.found.inj hReply)

/-- What the next steps need of a client's stage: a call under way started in the past, with a text
that was supplied, and is none of those that have their replies. -/
def Stage.Fits {ι : Type} (supplied : List (String × String)) (clock : Nat)
    (order : List (Effect ι)) (i : ι) : Stage ι → Prop
  | .idle => True
  | .busy start task =>
    start < clock ∧ (∀ p, task.call.supply? = some p → p ∈ supplied) ∧
      ∀ e ∈ order, e.client = i → e.start ≠ start
  | .replied e => e.client = i

section

variable {ι : Type} {supplied : List (String × String)} {clock : Nat} {order : List (Effect ι)}
  {i : ι} {stage : Stage ι}

theorem Stage.Fits.tick (h : stage.Fits supplied clock order i) :
    stage.Fits supplied (clock + 1) order i := by
  cases stage with
  | idle => trivial
  | busy start task => exact ⟨Nat.lt_succ_of_lt h.1, h.2⟩
  | replied e => exact h

theorem Stage.Fits.append {e : Effect ι} (h : stage.Fits supplied clock order i)
    (hOther : e.client ≠ i) : stage.Fits supplied clock (order ++ [e]) i := by
  cases stage with
  | idle => trivial
  | busy start task =>
    refine ⟨h.1, h.2.1, fun e' hMem hClient => ?_⟩
    rcases List.mem_append.mp hMem with hOld | hNew
    · exact h.2.2 e' hOld hClient
    · rw [List.mem_singleton.mp hNew] at hClient
      exact absurd hClient hOther
  | replied e' => exact h

end

namespace Shared

variable {ι : Type} {supplied : List (String × String)} {s : Shared ι} {order : List (Effect ι)}

/-- The order accounts for a state that was reached with the supplied texts. -/
structure Explains (supplied : List (String × String)) (s : Shared ι) (order : List (Effect ι)) :
    Prop where
  linearizes : s.Linearizes order
  faithful : Faithful supplied s.cache.contents
  genuine : ∀ e ∈ order, e.Genuine supplied
  past : ∀ e ∈ order, e.start < s.clock
  fits : ∀ i, (s.stage i).Fits supplied s.clock order i

theorem explains_new : Explains supplied (new : Shared ι) [] where
  linearizes :=
    { nodup := List.nodup_nil
      mem_iff := by simp [Replied, new]
      respects := List.Pairwise.nil
      replies := rfl
      contents := rfl }
  faithful := by
    intro name t hFound
    cases hFound
  genuine := by simp
  past := by simp
  fits := fun i => trivial

variable [DecidableEq ι]

theorem fits_advance {i : ι} {stage : Stage ι} {order' : List (Effect ι)}
    (hOthers : ∀ j ≠ i, (s.stage j).Fits supplied (s.clock + 1) order' j)
    (hStage : stage.Fits supplied (s.clock + 1) order' i) (j : ι) :
    ((s.advance i stage).stage j).Fits supplied (s.clock + 1) order' j := by
  show (Function.update s.stage i stage j).Fits _ _ _ _
  rw [Function.update_apply]
  split
  · next hClient => rwa [hClient]
  · next hClient => exact hOthers j hClient

/-- A step at which no call gets its reply needs no place in the order. -/
theorem Explains.quiet {i : ι} {stage : Stage ι} {c : Cache} (h : Explains supplied s order)
    (hContents : c.contents = s.cache.contents) (hBefore : ∀ e, s.stage i ≠ .replied e)
    (hAfter : ∀ e, stage ≠ .replied e) (hStage : stage.Fits supplied (s.clock + 1) order i) :
    Explains supplied { s.advance i stage with cache := c } order where
  linearizes :=
    { nodup := h.linearizes.nodup
      mem_iff := by
        intro e
        rw [h.linearizes.mem_iff e]
        refine or_congr_right ?_
        show _ ↔ Function.update s.stage i stage e.client = .replied e
        rw [Function.update_apply]
        split
        · next hClient =>
          rw [hClient]
          exact iff_of_false (hBefore e) (hAfter e)
        · exact Iff.rfl
      respects := h.linearizes.respects
      replies := h.linearizes.replies
      contents := h.linearizes.contents.trans hContents.symm }
  faithful := by
    show Faithful supplied c.contents
    rw [hContents]
    exact h.faithful
  genuine := h.genuine
  past := fun e hMem => Nat.lt_succ_of_lt (h.past e hMem)
  fits := fits_advance (fun j _ => (h.fits j).tick) hStage

/-- A call that gets its reply comes last in the order. No call that finished before is after it. -/
theorem Linearizes.append {e : Effect ι} {cache d : Cache} (h : s.Linearizes order)
    (hFresh : e ∉ order) (hBusy : ∀ e', s.stage e.client ≠ .replied e')
    (hBefore : d = (Call.runAll .empty (order.map Effect.call)).2)
    (hReply : e.reply.map Object.template = (e.call.run d).1.map Object.template)
    (hContents : cache.contents = (e.call.run d).2.contents) :
    { s.advance e.client (.replied e) with cache := cache }.Linearizes (order ++ [e]) where
  nodup := by
    refine List.nodup_append.mpr ⟨h.nodup, by simp, ?_⟩
    rintro a hOld b hMem rfl
    rw [List.mem_singleton.mp hMem] at hOld
    exact hFresh hOld
  mem_iff := by
    intro e'
    rw [List.mem_append, List.mem_singleton, h.mem_iff e']
    show _ ↔ (∃ stop, (e', stop) ∈ s.finished) ∨
      Function.update s.stage e.client (.replied e) e'.client = .replied e'
    rw [Replied, Function.update_apply]
    split
    · next hOwn =>
      rw [hOwn, Stage.replied.injEq, eq_comm (a := e)]
      simp [hBusy]
    · next hOwn =>
      have hOther : e' ≠ e := fun hEq => hOwn (by rw [hEq])
      simp [hOther]
  respects := by
    refine List.pairwise_append.mpr ⟨h.respects, List.pairwise_singleton _ e, ?_⟩
    rintro a - b hMem ⟨stop, hStop, -⟩
    rw [List.mem_singleton.mp hMem] at hStop
    exact hFresh ((h.mem_iff e).mpr (.inl ⟨stop, hStop⟩))
  replies := by
    rw [List.map_append, List.map_singleton, Call.runAll_concat, ← hBefore, List.map_append,
      h.replies, List.map_singleton, List.map_append, List.map_singleton, hReply]
  contents := by
    rw [List.map_append, List.map_singleton, Call.runAll_concat, ← hBefore]
    exact hContents.symm

theorem Explains.reply {task : Task} {e : Effect ι} {cache : Cache} (h : Explains supplied s order)
    (hDistinct : NoCollision (supplied.map Prod.snd))
    (hBusy : s.stage e.client = .busy e.start task) (hCall : e.call = task.call)
    (hAccess : task.access s.cache = (.inr e.reply, cache)) :
    Explains supplied { s.advance e.client (.replied e) with cache := cache } (order ++ [e]) := by
  have hFits := h.fits e.client
  rw [hBusy] at hFits
  obtain ⟨hPast, hSupply, hNew⟩ := hFits
  -- Both here and in the order so far, the call meets the same contents.
  have hHere := Task.access_inr h.faithful hSupply hDistinct hAccess
  rw [← hCall] at hSupply hHere
  have hBefore : Faithful supplied (Call.runAll .empty (order.map Effect.call)).2.contents := by
    rw [h.linearizes.contents]
    exact h.faithful
  have hAlone := Call.run_contents hBefore hSupply hDistinct
  rw [h.linearizes.contents, ← hHere, Prod.ext_iff] at hAlone
  rw [Prod.ext_iff] at hHere
  have hGenuine : e.Genuine supplied := Effect.genuine_of_onContents h.faithful hHere.1
  refine ⟨?_, ?_, ?_, ?_, ?_⟩
  · exact h.linearizes.append (fun hMem => hNew e hMem rfl rfl) (by simp [hBusy]) rfl
      hAlone.1.symm hAlone.2.symm
  · show Faithful supplied cache.contents
    rw [show cache.contents = _ from hHere.2]
    exact Call.faithful_onContents h.faithful hSupply
  · simpa [or_imp, forall_and] using ⟨h.genuine, hGenuine⟩
  · intro e' hMem
    refine Nat.lt_succ_of_lt ?_
    rcases List.mem_append.mp hMem with hOld | hLast
    · exact h.past e' hOld
    · rwa [List.mem_singleton.mp hLast]
  · exact fits_advance (fun j hOther => (h.fits j).tick.append hOther.symm) rfl

/-- A reply that is taken back was given before, so that the order stays. -/
theorem Explains.finish {i : ι} {e : Effect ι} (h : Explains supplied s order)
    (hReplied : s.stage i = .replied e) :
    Explains supplied { s.advance i .idle with finished := (e, s.clock) :: s.finished } order where
  linearizes :=
    { nodup := h.linearizes.nodup
      mem_iff := by
        intro e'
        have hClient : e.client = i := by
          have hFits := h.fits i
          rw [hReplied] at hFits
          exact hFits
        rw [h.linearizes.mem_iff e']
        show _ ↔ (∃ stop, (e', stop) ∈ (e, s.clock) :: s.finished) ∨
          Function.update s.stage i .idle e'.client = .replied e'
        rw [Replied, Function.update_apply]
        split
        · next hOwn =>
          rw [hOwn, hReplied, Stage.replied.injEq, eq_comm (a := e)]
          simp [exists_or, or_comm]
        · next hOwn =>
          have hOther : e' ≠ e := fun hEq => hOwn (hEq ▸ hClient)
          simp [hOther]
      respects := by
        refine h.linearizes.respects.imp_of_mem fun {a b} hA _ hBefore => ?_
        rintro ⟨stop, hMem, hStop⟩
        rcases List.mem_cons.mp hMem with hNow | hEarlier
        · -- It finishes now, and all calls in the order started before.
          have hPast := h.past a hA
          rw [(Prod.mk.inj hNow).2] at hStop
          exact absurd hStop (Nat.lt_asymm hPast)
        · exact hBefore ⟨stop, hEarlier, hStop⟩
      replies := h.linearizes.replies
      contents := h.linearizes.contents }
  faithful := h.faithful
  genuine := h.genuine
  past := fun e' hMem => Nat.lt_succ_of_lt (h.past e' hMem)
  fits := fits_advance (fun j _ => (h.fits j).tick) trivial

theorem Explains.step (h : Explains supplied s order)
    (hDistinct : NoCollision (supplied.map Prod.snd)) {action : Action ι}
    (hSupply : Action.supplied [action] ⊆ supplied) :
    ∃ order', Explains supplied (s.step action) order' := by
  cases action with
  | start i call =>
    simp only [Shared.step]
    cases hStage : s.stage i with
    | idle =>
      refine ⟨order, h.quiet (c := s.cache) rfl (by simp [hStage]) (by simp) ?_⟩
      refine ⟨Nat.lt_succ_self _, fun p hText => hSupply ?_, fun e hMem _ hStart => ?_⟩
      · exact List.mem_filterMap.mpr ⟨_, List.mem_singleton_self _, hText⟩
      · exact absurd (h.past e hMem) (by omega)
    | busy start task => exact ⟨order, h⟩
    | replied e => exact ⟨order, h⟩
  | proceed i =>
    simp only [Shared.step]
    cases hStage : s.stage i with
    | idle => exact ⟨order, h⟩
    | busy start task =>
      dsimp only
      split
      · next rest cache hAccess =>
        obtain ⟨hRest, hContents⟩ := Task.access_inl hAccess
        have hFits := h.fits i
        rw [hStage] at hFits
        refine ⟨order, h.quiet hContents (by simp [hStage]) (by simp) ?_⟩
        refine ⟨Nat.lt_succ_of_lt hFits.1, ?_, hFits.2.2⟩
        rw [hRest]
        exact hFits.2.1
      · next reply cache hAccess =>
        exact ⟨_, h.reply (e := ⟨i, start, task.call, reply⟩) hDistinct hStage rfl hAccess⟩
    | replied e => exact ⟨order, h.finish hStage⟩

theorem Explains.run (h : Explains supplied s order)
    (hDistinct : NoCollision (supplied.map Prod.snd)) {schedule : List (Action ι)}
    (hSupply : Action.supplied schedule ⊆ supplied) :
    ∃ order', Explains supplied (s.run schedule) order' := by
  induction schedule generalizing s order with
  | nil => exact ⟨order, h⟩
  | cons action schedule ih =>
    have hParts : Action.supplied (action :: schedule) =
        Action.supplied [action] ++ Action.supplied schedule :=
      List.filterMap_append (l := [action])
    rw [hParts, List.append_subset] at hSupply
    obtain ⟨order', hStep⟩ := h.step hDistinct hSupply.1
    exact ih hStep hSupply.2

end Shared

/-- Whatever the clients do and however their accesses follow each other, the calls have a
sequential order. A call that compiles on demand gives the template of its text, and a look-up gives
only templates of texts that were supplied for its name. -/
theorem linearizable {ι : Type} [DecidableEq ι] (schedule : List (Action ι))
    (hDistinct : NoCollision ((Action.supplied schedule).map Prod.snd)) :
    (∃ order, (Shared.new.run schedule).Linearizes order) ∧
      ∀ e, (Shared.new.run schedule).Replied e → e.Genuine (Action.supplied schedule) := by
  obtain ⟨order, h⟩ := Shared.explains_new.run hDistinct (List.Subset.refl _)
  exact ⟨⟨order, h.linearizes⟩, fun e hReplied =>
    h.genuine e ((h.linearizes.mem_iff e).mpr hReplied)⟩

/-- Two clients miss the same name at once. The first one's template is removed before the second
one inserts its own, which is what the first then finds. -/
theorem linearizable_crossed_misses :
    let schedule : List (Action Nat) :=
      [.start 0 (.getOrCompile "a" "\x7bx\x7d"), .start 1 (.getOrCompile "a" "\x7by\x7d"),
        .proceed 0, .proceed 1, .proceed 0, .start 2 (.invalidate "a"), .proceed 2, .proceed 1,
        .proceed 0, .proceed 1, .proceed 2, .start 0 (.get "a"), .proceed 0, .proceed 0]
    let s := Shared.new.run schedule
    let last : Effect Nat := ⟨0, 11, .get "a", .found (some ⟨1, compile "\x7by\x7d"⟩)⟩
    NoCollision ((Action.supplied schedule).map Prod.snd) ∧ (∃ order, s.Linearizes order) ∧
      (last, 13) ∈ s.finished ∧ last.Genuine (Action.supplied schedule) := by
  intro schedule s last
  have hTexts : fingerprintOf "\x7bx\x7d" ≠ fingerprintOf "\x7by\x7d" := by decide +kernel
  have hDistinct : NoCollision ((Action.supplied schedule).map Prod.snd) :=
    .of_pair hTexts (by decide)
  obtain ⟨hOrder, hGenuine⟩ := linearizable schedule hDistinct
  have hLast : (last, 13) ∈ s.finished := .head _
  exact ⟨hDistinct, hOrder, hLast, hGenuine last (.inl ⟨13, hLast⟩)⟩

end DocTemplate.Cache
