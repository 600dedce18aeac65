import DocTemplate.Proofs.Template.Repair
import Mathlib.Data.List.Nodup
import Mathlib.Data.List.Perm.Subperm

/-! The places of tokens in their text. The directive of a token stands where the token starts, no
two tokens start at one byte, and balancing reports no token twice, because each repair is about the
token that was read or about one open before it that is open no more. -/

namespace DocTemplate

/-- The text has `part` from byte `position` on. -/
def Text.StandsAt (text : String) (position : Nat) (part : String) : Prop :=
  ∃ before after, text = before ++ part ++ after ∧ before.utf8ByteSize = position

namespace Token

theorem Contiguous.start_eq {position : Nat} {as bs : List Token} {t : Token}
    (h : Contiguous position (as ++ t :: bs)) :
    t.start = position + (toDirectives as).utf8ByteSize := by
  induction as generalizing position with
  | nil =>
    rw [toDirectives_nil, String.utf8ByteSize_empty]
    exact h.1
  | cons u as ih =>
    obtain ⟨rfl, hLength, hSpans⟩ := h
    rw [ih hSpans, toDirectives_cons, String.utf8ByteSize_append, ← hLength, Token.stop,
      Nat.add_assoc]

theorem Contiguous.standsAt {ts : List Token} (h : Contiguous 0 ts) {t : Token} (ht : t ∈ ts) :
    Text.StandsAt (toDirectives ts) t.start t.kind.directiveText := by
  obtain ⟨as, bs, rfl⟩ := List.append_of_mem ht
  refine ⟨toDirectives as, toDirectives bs, ?_, ?_⟩
  · rw [toDirectives_append, toDirectives_cons, String.append_assoc]
  · rw [h.start_eq, Nat.zero_add]

theorem standsAt_scan {raw : String} {t : Token} (h : t ∈ scan raw) :
    Text.StandsAt raw t.start t.kind.directiveText := by
  have hStands := (canonical_scan raw).contiguous.standsAt h
  rwa [toDirectives_scan] at hStands

theorem Canonical.starts_increase {position : Nat} {ts : List Token} (h : Canonical position ts) :
    (ts.map Token.start).Pairwise (· < ·) := by
  induction ts generalizing position with
  | nil => exact .nil
  | cons t ts ih =>
    have hLength := h.length_ne_zero t List.mem_cons_self
    obtain ⟨-, -, -, -, hTail⟩ := canonical_cons.mp h
    refine List.pairwise_cons.mpr ⟨List.forall_mem_map.mpr fun u hu => ?_, ih hTail⟩
    have hAfter := hTail.contiguous.le_start u hu
    rw [Token.stop] at hAfter
    omega

theorem nodup_starts_scan (raw : String) : ((scan raw).map Token.start).Nodup :=
  (canonical_scan raw).starts_increase.imp Nat.ne_of_lt

/-- Tokens that start at different bytes are told apart by where they start. -/
theorem eq_of_start_eq {as bs as' bs' : List Token} {t t' : Token}
    (h : ((as ++ t :: bs).map Token.start).Nodup) (hSplit : as ++ t :: bs = as' ++ t' :: bs')
    (hStart : t.start = t'.start) : as = as' ∧ t = t' := by
  rw [List.map_append, List.map_cons, List.nodup_middle, List.nodup_cons, List.mem_append,
    not_or, hStart] at h
  have hNot : ∀ us : List Token, t'.start ∉ us.map Token.start → t' ∉ us :=
    fun us hStarts hMem => hStarts (List.mem_map_of_mem hMem)
  obtain ⟨hFront, hToken, -⟩ :=
    (List.append_cons_inj_of_notMem (hNot _ h.1.1) (hNot _ h.1.2)).mp hSplit
  exact ⟨hFront, hToken⟩

end Token

namespace Nesting

/-! ### No token is reported twice -/

/-- The repair of a token is about the token, and then the token begins no section. -/
theorem Rule.positions {n : Nesting} {t : Token} {result : Repair × Nesting}
    (h : Rule n t result) :
    List.Sublist ((result.1.diagnostic.map Diagnostic.position).toList ++
      result.2.opened.map Opened.position) (t.start :: n.opened.map Opened.position) := by
  cases h with
  | literal | var | closeDemoted => exact List.sublist_cons_self _ _
  | open_ | demote => exact List.Sublist.refl _
  | close name start length o rest none_waiting innermost =>
    rw [innermost]
    exact (List.sublist_cons_self _ _).trans (List.sublist_cons_self _ _)
  | orphan => exact List.Sublist.refl _

/-- What is reported and what is open at the end are different tokens of the stream or were open at
the start. -/
theorem positions_pushAll (n : Nesting) (ts : List Token) :
    List.Subperm (((n.pushAll ts).1.filterMap Repair.diagnostic).map Diagnostic.position ++
        (n.pushAll ts).2.opened.map Opened.position)
      (ts.map Token.start ++ n.opened.map Opened.position) := by
  induction ts generalizing n with
  | nil => exact List.Subperm.refl _
  | cons t ts ih =>
    have hToken := (rule_push n t).positions.subperm
    have hRest := ih (n.push t).2
    have hReports : ((n.pushAll (t :: ts)).1.filterMap Repair.diagnostic).map Diagnostic.position =
        ((n.push t).1.diagnostic.map Diagnostic.position).toList ++
          (((n.push t).2.pushAll ts).1.filterMap Repair.diagnostic).map Diagnostic.position := by
      rw [pushAll_cons, List.filterMap_cons]
      cases (n.push t).1.diagnostic <;> rfl
    rw [hReports, List.append_assoc]
    -- The bound for the rest ends with what is open after the token, which the token bounds.
    refine ((List.Subperm.refl _).append hRest).trans ?_
    refine (List.perm_append_comm_assoc _ _ _).subperm.trans ?_
    exact ((List.Subperm.refl _).append hToken).trans List.perm_middle.subperm

end Nesting

/-- No two repairs of a template are about the same byte. -/
theorem Template.nodup_positions_compile (raw : String) :
    ((compile raw).diagnostics.map Diagnostic.position).Nodup := by
  have hPositions := Nesting.positions_pushAll .empty (Token.scan raw)
  have hOpened : (Nesting.empty.pushAll (Token.scan raw)).2 = Nesting.after (Token.scan raw) := rfl
  obtain ⟨starts, hPerm, hStarts⟩ := hPositions
  rw [Nesting.empty, List.map_nil, List.append_nil] at hStarts
  have hNodup := hPerm.nodup_iff.mp ((Token.nodup_starts_scan raw).sublist hStarts)
  rw [hOpened] at hNodup
  show ((Balanced.ofTokens (Token.scan raw)).diagnostics.map Diagnostic.position).Nodup
  rw [Nesting.diagnostics_ofTokens, List.map_append, List.map_map]
  exact hNodup

end DocTemplate
