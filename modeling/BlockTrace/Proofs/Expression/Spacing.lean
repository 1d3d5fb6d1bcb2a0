import BlockTrace.Proofs.Expression.Lockstep
import BlockTrace.Proofs.Expression.Places
import Mathlib

/-! Only the tokens of a text count. Texts with the same tokens have the same value or fail for the
same cause, whatever blanks stand between the tokens and around them. -/
namespace BlockTrace.Expression
open Text (Cursor)

def Cause.SameKind (a b : Cause) : Prop :=
  a.Alike (fun _ _ => True) b

/-- What stands unread has the same tokens. -/
def SameTokens (c c' : Cursor) : Prop :=
  tokens c.rest = tokens c'.rest

section SameTokens
variable {c c' : Cursor}

theorem head?_skipBlanks (c : Cursor) :
    c.skipBlanks.rest.head? = (tokens c.rest).head?.bind fun token => token.letters.head? := by
  obtain ⟨hr, ht⟩ | ⟨first, rest, hr, ⟨hd, ht⟩ | ⟨hs, ht⟩ | ⟨hm, ht⟩⟩ := tokens_cases c
  · simp [hr, ht]
  · simp [hr, ht, Token.letters, Cursor.takeWhile, hd]
  · simp [hr, ht, Token.letters, Cursor.takeWhile, isNameRest_of_isNameStart hs]
  · simp [hr, ht, Token.letters]

theorem SameTokens.skipBlanks (h : SameTokens c c') : SameTokens c.skipBlanks c'.skipBlanks := by
  rw [SameTokens, tokens_skipBlanks, tokens_skipBlanks]
  exact h

theorem SameTokens.mark {m : Char} {r r' : List Char} (h : SameTokens c c') (hr : c.rest = m :: r)
    (hr' : c'.rest = m :: r') (hm : isMark m) : tokens r = tokens r' := by
  rw [SameTokens, hr, hr', tokens_mark hm, tokens_mark hm] at h
  exact (List.cons.inj h).2

theorem tokens_at_digit {first : Char} {rest : List Char} (hr : c.rest = first :: rest)
    (hd : first.isDigit) :
    tokens c.rest = .number (c.takeWhile Char.isDigit).1 ::
      tokens (c.takeWhile Char.isDigit).2.rest := by
  have hc := skipBlanks_of_head hr (isBlank_of_isDigit hd)
  have ht := tokens_of_digit (hc.symm ▸ hr) hd
  rwa [hc] at ht

theorem tokens_at_nameStart {first : Char} {rest : List Char} (hr : c.rest = first :: rest)
    (hs : isNameStart first) :
    tokens c.rest = .name (c.takeWhile isNameRest).1 ::
      tokens (c.takeWhile isNameRest).2.rest := by
  have hc := skipBlanks_of_head hr (isBlank_of_isNameStart hs)
  have ht := tokens_of_nameStart (hc.symm ▸ hr) hs
  rwa [hc] at ht

/-- A run that is a token on both sides is the same, and so is what follows. -/
theorem SameTokens.run {p : Char → Bool} {token : List Char → Token}
    (hi : Function.Injective token) (h : SameTokens c c')
    (ht : tokens c.rest = token (c.takeWhile p).1 :: tokens (c.takeWhile p).2.rest)
    (ht' : tokens c'.rest = token (c'.takeWhile p).1 :: tokens (c'.takeWhile p).2.rest) :
    (c.takeWhile p).1 = (c'.takeWhile p).1 ∧ SameTokens (c.takeWhile p).2 (c'.takeWhile p).2 := by
  obtain ⟨hn, hr⟩ := List.cons.inj (ht.symm.trans (h.trans ht'))
  exact ⟨hi hn, hr⟩

/-- Places with the same tokens ahead stay in step to the end, at whatever offsets they are. -/
theorem inStep_of_sameTokens (vars : Variables) :
    InStep vars vars (fun _ => False) (fun _ _ => True) SameTokens where
  far_mono := fun _ h => h
  level_succ := fun _ => trivial
  offset := fun _ => trivial
  skip := fun {c c'} h _ => ⟨h.skipBlanks, by rw [head?_skipBlanks c, head?_skipBlanks c', h]⟩
  mark := fun h hr hr' hm => h.mark hr hr' hm
  number := fun h hr hr' hd _ =>
    h.run (fun _ _ => Token.number.inj) (tokens_at_digit hr hd) (tokens_at_digit hr' hd)
  name := fun h hr hr' hs _ =>
    have hn := h.run (fun _ _ => Token.name.inj) (tokens_at_nameStart hr hs)
      (tokens_at_nameStart hr' hs)
    ⟨hn.1, hn.2, rfl⟩

end SameTokens

/-- The tokens of a text decide its evaluation: another text with the same tokens has the same value,
or fails for the same cause, with the same name or character in it. -/
theorem tokens_decide_evaluation (vars : Variables) {t u : List Char} (h : tokens t = tokens u) :
    (∃ v, evaluate vars t = .ok v ∧ evaluate vars u = .ok v) ∨
    ∃ fault fault', evaluate vars t = .error fault ∧ evaluate vars u = .error fault' ∧
      fault.cause.SameKind fault'.cause := by
  have hs : SameTokens (Cursor.start t) (Cursor.start u) := h
  have hg := (inStep_of_sameTokens vars).gives_evaluate hs
  cases ht : evaluate vars t with
  | ok v =>
    rw [ht] at hg
    exact .inl ⟨v, rfl, hg fun _ => id⟩
  | error fault =>
    rw [ht] at hg
    obtain ⟨fault', hu, ha⟩ := hg id
    cases ha with
    | between hcause _ _ => exact .inr ⟨_, _, rfl, hu, hcause⟩

/-- The blanks move the character that is wrong, and it is still the same one. -/
theorem wrong_character_moves_with_blanks :
    tokens "x1*\t2-$".toList = tokens "\u3000x1 * 2 - $ ".toList ∧
    ∃ fault fault', evaluate ((∅ : Variables).insert "x1" 3) "x1*\t2-$".toList = .error fault ∧
      evaluate ((∅ : Variables).insert "x1" 3) "\u3000x1 * 2 - $ ".toList = .error fault' ∧
      fault.cause.SameKind fault'.cause ∧ fault.cause ≠ fault'.cause := by
  obtain ⟨h, ht, hu⟩ : tokens "x1*\t2-$".toList = tokens "\u3000x1 * 2 - $ ".toList ∧
      evaluate ((∅ : Variables).insert "x1" 3) "x1*\t2-$".toList =
        .error ⟨.unexpectedCharacter '$' 6, ⟨6, 1⟩⟩ ∧
      evaluate ((∅ : Variables).insert "x1" 3) "\u3000x1 * 2 - $ ".toList =
        .error ⟨.unexpectedCharacter '$' 10, ⟨10, 1⟩⟩ :=
    ⟨by cbv, by cbv, by cbv⟩
  refine ⟨h, ?_⟩
  obtain ⟨v, hv, -⟩ | ⟨fault, fault', hf, hf', hk⟩ :=
    tokens_decide_evaluation ((∅ : Variables).insert "x1" 3) h
  · cases ht.symm.trans hv
  · cases ht.symm.trans hf
    cases hu.symm.trans hf'
    exact ⟨_, _, ht, hu, hk, by decide⟩

end BlockTrace.Expression
