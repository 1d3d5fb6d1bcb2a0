import BlockTrace.Proofs.Expression.Lockstep
import BlockTrace.Proofs.Expression.Places
import Mathlib

/-! A fault is decided by the text up to it. Nothing that comes after the next character can change
what is wrong or where it is. -/
namespace BlockTrace.Expression
open Text (Cursor)

/-- The places have the same offset, and the texts go on alike up to the offset `k`. -/
structure Shares (k : Nat) (c c' : Cursor) : Prop where
  offset : c.offset = c'.offset
  rest : c.rest.take (k - c.offset) = c'.rest.take (k - c.offset)

section Shares
variable {k : Nat} {c c' : Cursor} {p : Char → Bool}

/-- A run that ends within what two texts share is a run of both. -/
private theorem takeWhile_of_take_eq {s s' : List Char} {n : Nat} (h : s.take n = s'.take n)
    (hn : (s.takeWhile p).length < n) : s.takeWhile p = s'.takeWhile p := by
  induction s generalizing s' n with
  | nil =>
    rw [List.take_nil, eq_comm, List.take_eq_nil_iff] at h
    rw [h.resolve_left (Nat.ne_of_gt hn)]
  | cons first s ih =>
    obtain ⟨n, rfl⟩ := Nat.exists_eq_add_one_of_ne_zero (Nat.ne_of_gt (Nat.zero_lt_of_lt hn))
    cases s' with
    | nil => cases h
    | cons first' s' =>
      obtain ⟨rfl, hs⟩ := List.cons.inj h
      by_cases hp : p first
      · rw [List.takeWhile_cons_of_pos hp, List.length_cons] at hn
        rw [List.takeWhile_cons_of_pos hp, List.takeWhile_cons_of_pos hp,
          ih hs (Nat.lt_of_succ_lt_succ hn)]
      · rw [List.takeWhile_cons_of_neg hp, List.takeWhile_cons_of_neg hp]

theorem Shares.pass {u : List Char} {d d' : Cursor} (h : Shares k c c') (hu : c.Passes u d)
    (hu' : c'.Passes u d') : Shares k d d' where
  offset := by rw [hu.offset, hu'.offset, h.offset]
  rest := by
    have hr := h.rest
    rw [hu.rest, hu'.rest, List.take_append, List.take_append, Nat.sub_sub, ← hu.offset] at hr
    exact List.append_cancel_left hr

theorem Shares.takeWhile (h : Shares k c c') (hk : ¬ k ≤ (c.takeWhile p).2.offset) :
    (c.takeWhile p).1 = (c'.takeWhile p).1 ∧ Shares k (c.takeWhile p).2 (c'.takeWhile p).2 := by
  have hl : c.offset + (c.rest.takeWhile p).length < k := Nat.lt_of_not_le hk
  have hrun : (c.takeWhile p).1 = (c'.takeWhile p).1 := takeWhile_of_take_eq h.rest (by omega)
  have hu' := Cursor.Passes.takeWhile p c'
  rw [← hrun] at hu'
  exact ⟨hrun, h.pass (.takeWhile p c) hu'⟩

theorem Shares.head? (h : Shares k c c') (hk : ¬ k ≤ c.offset) :
    c.rest.head? = c'.rest.head? := by
  have hr := congrArg List.head? h.rest
  rwa [List.head?_take, List.head?_take, if_neg (by omega), if_neg (by omega)] at hr

/-- Readings of texts that begin alike stay in step up to the last character that is shared. -/
theorem inStep_of_shares (vars : Variables) (k : Nat) :
    InStep vars vars (k ≤ ·) Eq (Shares k) where
  far_mono := fun hm h => Nat.le_trans h hm
  level_succ := congrArg (· + 1)
  offset := Shares.offset
  skip := fun h hk =>
    have hs := (h.takeWhile hk).2
    ⟨hs, hs.head? hk⟩
  mark := fun h hr hr' _ => h.pass (u := [_]) ⟨hr, rfl⟩ ⟨hr', rfl⟩
  number := fun h _ _ _ hk => h.takeWhile hk
  name := fun h _ _ _ hk =>
    have hn := h.takeWhile hk
    ⟨hn.1, hn.2, rfl⟩

end Shares

theorem Fault.Alike.eq {fault fault' : Fault} (h : fault.Alike Eq fault') : fault = fault' := by
  obtain ⟨hcause, rfl, rfl⟩ := h
  cases hcause with
  | unexpectedCharacter found h => rw [h]
  | trailingInput h => rw [h]
  | _ => rfl

/-- The text up to the end of a fault, and one character more, decides the fault: every text that
begins with the same characters has the same one. -/
theorem fault_decided_by_text_before {vars : Variables} {t u : List Char} {fault : Fault}
    (h : evaluate vars t = .error fault)
    (hu : u.take (fault.span.stop + 1) = t.take (fault.span.stop + 1)) :
    evaluate vars u = .error fault := by
  have hs : Shares (fault.span.stop + 1) (Cursor.start t) (Cursor.start u) := ⟨rfl, hu.symm⟩
  have hg := (inStep_of_shares vars (fault.span.stop + 1)).gives_evaluate hs
  rw [h] at hg
  obtain ⟨fault', hf, ha⟩ := hg (Nat.not_succ_le_self _)
  rw [ha.eq, hf]

/-- The name is unknown as soon as the blank after it is read. The group that stays open behind it
and the operand that is zero are not met; and without the blank the name would be another one. -/
theorem unknown_name_hides_the_rest :
    evaluate ∅ "2 * (ab % 0".toList = .error ⟨.unknownVariable "ab", ⟨5, 2⟩⟩ ∧
    "2 * (ab )) $".toList.take 8 = "2 * (ab % 0".toList.take 8 ∧
    evaluate ∅ "2 * (ab )) $".toList = .error ⟨.unknownVariable "ab", ⟨5, 2⟩⟩ ∧
    evaluate ∅ "2 * (abc".toList ≠ .error ⟨.unknownVariable "ab", ⟨5, 2⟩⟩ := by
  obtain ⟨h, hn⟩ :
      evaluate ∅ "2 * (ab % 0".toList = .error ⟨.unknownVariable "ab", ⟨5, 2⟩⟩ ∧
      evaluate ∅ "2 * (abc".toList = .error ⟨.unknownVariable "abc", ⟨5, 3⟩⟩ :=
    ⟨by cbv, by cbv⟩
  have hu : "2 * (ab )) $".toList.take 8 = "2 * (ab % 0".toList.take 8 := by
    decide
  refine ⟨h, hu, fault_decided_by_text_before h hu, ?_⟩
  rw [hn]
  decide

end BlockTrace.Expression
