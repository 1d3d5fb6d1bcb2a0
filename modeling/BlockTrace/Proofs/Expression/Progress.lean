import BlockTrace.Proofs.Expression.Reader
import Mathlib

/-! The reading of a text goes forward. Its offset always tells which characters are unread and
never falls, no part of a routine is come to again without a character being read, and so every
text is read to a result in a number of steps that is bounded by its length. -/
namespace BlockTrace.Text

/-- The characters that are unread at `c` are those of the text that follow its offset. -/
structure Cursor.InPlace (text : List Char) (c : Cursor) : Prop where
  rest : c.rest = text.drop c.offset
  offset : c.offset ≤ text.length

section InPlace
variable {text u : List Char} {c d : Cursor}

private theorem Cursor.inPlace_start (text : List Char) : (Cursor.start text).InPlace text :=
  ⟨rfl, Nat.zero_le _⟩

theorem Cursor.InPlace.pass (h : c.InPlace text) (hu : c.Passes u d) : d.InPlace text := by
  have hr : text.drop c.offset = u ++ d.rest := h.rest.symm.trans hu.rest
  constructor
  · rw [hu.offset, ← List.drop_drop, hr, List.drop_left]
  · have hl := congrArg List.length hr
    have hc := h.offset
    rw [List.length_drop, List.length_append] at hl
    rw [hu.offset]
    omega

theorem Cursor.Passes.next? {first : Char} (h : c.next? = some (first, d)) :
    c.Passes [first] d := by
  unfold Cursor.next? at h
  split at h
  · cases h
  next hc =>
    cases h
    exact ⟨hc, rfl⟩

end InPlace

end BlockTrace.Text

namespace BlockTrace.Expression
open Text (Cursor)

namespace Reader

/-- Where in the routines the reader is. Only by reading does it come to a higher number, or again to
the same one. -/
@[simp]
def part : Reader → Nat
  | due .expression _ _ => 10
  | due .term _ _ => 9
  | operand _ _ _ _ => 8
  | due .factor _ _ => 7
  | number _ _ _ => 6
  | name _ _ _ _ => 5
  | product _ _ _ => 4
  | sum _ _ _ => 3
  | closing _ _ _ _ => 2
  | ending _ _ => 1
  | stopped _ _ => 0

private theorem part_le (r : Reader) : r.part ≤ 10 := by
  cases r with
  | due phrase c k => cases phrase <;> simp
  | _ => simp

/-- How many steps the reader can take at most: for every unread character one at each part. -/
def weight (r : Reader) : Nat :=
  11 * r.cursor.rest.length + r.part

/-- One character is read, or none, and then the reader comes to a later part. -/
inductive Moves (r s : Reader) : Prop
  | stays : s.cursor = r.cursor → s.part < r.part → Moves r s
  | reads (first : Char) : r.cursor.Passes [first] s.cursor → Moves r s

end Reader

open Reader (Moves)

section Steps
variable {vars : Variables} {r s : Reader} {phrase : Phrase} {c d : Cursor} {value : Int32}

/-- The highest part at which the reader can be behind a phrase. -/
@[simp]
def Phrase.behind : Phrase → Nat
  | expression => 2
  | term => 3
  | factor => 4

@[simp]
theorem cursor_give (k : Pending phrase) (value : Int32) (c : Cursor) :
    (k.give value c).cursor = c := by
  cases k with
  | operand op left start k =>
    rw [Pending.give]
    split <;> rfl
  | _ => rfl

private theorem part_give_le (k : Pending phrase) (value : Int32) (c : Cursor) :
    (k.give value c).part ≤ phrase.behind := by
  cases k with
  | operand op left start k =>
    rw [Pending.give]
    split
    · simp
    · simp
  | _ => simp [Pending.give]

theorem moves_give (k : Pending phrase) (hr : r.cursor = c) (hp : phrase.behind < r.part) :
    Moves r (k.give value c) :=
  .stays ((cursor_give k value c).trans hr.symm) (Nat.lt_of_le_of_lt (part_give_le k value c) hp)

theorem moves_of_accept? {α : Type} {f : Char → Option α} {a : α} (hr : r.cursor = c)
    (h : c.accept? f = some (a, d)) (hs : s.cursor = d) : Moves r s := by
  obtain ⟨first, -, hrest, hoffset⟩ := accept?_eq_some_iff.1 h
  subst hr hs
  exact .reads first ⟨hrest, hoffset⟩

theorem moves_of_next? {first : Char} (hr : r.cursor = c) (h : c.next? = some (first, d))
    (hs : s.cursor = d) : Moves r s := by
  subst hr hs
  exact .reads first (.next? h)

theorem moves_onward {p : Char → Bool} {more : Char → Cursor → Reader} (hr : r.cursor = c)
    (hm : ∀ first d, (more first d).cursor = d) (hs : Moves r s) :
    Moves r (Reader.onward p c more s) := by
  cases hn : c.nextIf? p with
  | none => rwa [Reader.onward_of_none hn]
  | some found =>
    rw [Reader.onward_of_some hn]
    exact moves_of_accept? hr hn (hm _ _)

private theorem moves_operandAt (c : Cursor) (k : Pending .factor) :
    Moves (.due .factor c k) (Reader.operandAt c k) := by
  unfold Reader.operandAt
  split
  · exact .stays rfl (by simp)
  next first d hn =>
    split
    · exact moves_of_next? rfl hn rfl
    · split
      · exact .stays rfl (by simp)
      · split
        · exact .stays rfl (by simp)
        · exact .stays rfl (by simp)

private theorem moves_closeAt (start : Nat) (value : Int32) (c : Cursor) (k : Pending .factor) :
    Moves (.closing start value c k) (Reader.closeAt start value c k) := by
  unfold Reader.closeAt
  split
  · exact .stays rfl (by simp)
  next mark d hn =>
    split
    · exact moves_of_next? rfl hn (cursor_give k value d)
    · exact moves_of_next? rfl hn rfl

/-- All that a step can do. -/
theorem moves_of_step (h : r.step vars = some s) : Moves r s := by
  cases r with
  | due phrase c k =>
    cases phrase with
    | expression =>
      obtain rfl := Option.some.inj h
      exact .stays rfl (by simp)
    | term =>
      obtain rfl := Option.some.inj h
      exact .stays rfl (by simp)
    | factor =>
      obtain rfl := Option.some.inj h
      exact moves_onward rfl (fun _ _ => rfl) (moves_operandAt c k)
  | operand op left c k =>
    obtain rfl := Option.some.inj h
    exact moves_onward rfl (fun _ _ => rfl) (.stays rfl (by simp))
  | number digits c k =>
    obtain rfl := Option.some.inj h
    exact moves_onward rfl (fun _ _ => rfl) (moves_give k rfl (by simp))
  | name start letters c k =>
    obtain rfl := Option.some.inj h
    refine moves_onward rfl (fun _ _ => rfl) ?_
    split
    · exact moves_give k rfl (by simp)
    · exact .stays rfl (by simp)
  | product value c k =>
    obtain rfl := Option.some.inj h
    refine moves_onward rfl (fun _ _ => rfl) ?_
    split
    next op d ha => exact moves_of_accept? rfl ha rfl
    · exact moves_give k rfl (by simp)
  | sum value c k =>
    obtain rfl := Option.some.inj h
    refine moves_onward rfl (fun _ _ => rfl) ?_
    split
    next op d ha => exact moves_of_accept? rfl ha rfl
    · exact moves_give k rfl (by simp)
  | closing start value c k =>
    obtain rfl := Option.some.inj h
    exact moves_onward rfl (fun _ _ => rfl) (moves_closeAt start value c k)
  | ending value c =>
    obtain rfl := Option.some.inj h
    refine moves_onward rfl (fun _ _ => rfl) ?_
    split
    · exact .stays rfl (by simp)
    · exact .stays rfl (by simp)
  | stopped result c => cases h

private theorem Reader.Moves.passes (h : Moves r s) : ∃ u, r.cursor.Passes u s.cursor := by
  cases h with
  | stays hc _ => exact ⟨[], hc ▸ .refl _⟩
  | reads first hp => exact ⟨[first], hp⟩

private theorem Reader.Moves.weight_lt (h : Moves r s) : s.weight < r.weight := by
  cases h with
  | stays hc hp =>
    rw [weight, weight, hc]
    exact Nat.add_lt_add_left hp _
  | reads first hp =>
    -- Behind a character the reader may be at any part again; the character outweighs them all.
    have hr := congrArg List.length hp.rest
    have hl := s.part_le
    rw [List.length_append, List.length_singleton] at hr
    rw [weight, weight]
    omega

end Steps

section Runs
variable {vars : Variables} {m n : Nat} {r s t : Reader}

theorem passes_of_run (h : Reader.run vars n r = some s) : ∃ u, r.cursor.Passes u s.cursor := by
  induction n generalizing r with
  | zero =>
    obtain rfl := Option.some.inj h
    exact ⟨[], .refl _⟩
  | succ n ih =>
    obtain ⟨q, hq, hn⟩ := Option.bind_eq_some_iff.1 h
    obtain ⟨u, hu⟩ := (moves_of_step hq).passes
    obtain ⟨w, hw⟩ := ih hn
    exact ⟨u ++ w, hu.trans hw⟩

/-- Every step takes away from the weight. -/
theorem weight_of_run (h : Reader.run vars n r = some s) : s.weight + n ≤ r.weight := by
  induction n generalizing r with
  | zero =>
    obtain rfl := Option.some.inj h
    exact Nat.le_refl _
  | succ n ih =>
    obtain ⟨q, hq, hn⟩ := Option.bind_eq_some_iff.1 h
    have hs := (moves_of_step hq).weight_lt
    have hw := ih hn
    omega

/-- What a reader does later, it does from where it was before. -/
theorem run_between (hmn : m ≤ n) (hm : Reader.run vars m r = some s)
    (hn : Reader.run vars n r = some t) : Reader.run vars (n - m) s = some t := by
  obtain ⟨j, rfl⟩ := Nat.exists_eq_add_of_le hmn
  rw [Reader.run_add, hm, Option.bind_some] at hn
  rwa [Nat.add_sub_cancel_left]

private theorem shorter_of_run (hn : 0 < n) (h : Reader.run vars n r = some s)
    (hp : r.part = s.part) :
    s.cursor.rest.length < r.cursor.rest.length := by
  have hw := weight_of_run h
  rw [Reader.weight, Reader.weight, hp] at hw
  omega

end Runs

section Consumption
variable {vars : Variables} {phrase : Phrase} {c d : Cursor} {v : Int32}

private theorem shorter_of_routine (h : phrase.routine vars c = .ok (v, d)) :
    d.rest.length < c.rest.length := by
  cases phrase with
  | expression =>
    obtain ⟨r, -, rfl⟩ := reading_of_plain (x := expression vars c) h
    exact r.shorter
  | term =>
    obtain ⟨r, -, rfl⟩ := reading_of_plain (x := term vars c) h
    exact r.shorter
  | factor =>
    obtain ⟨r, -, rfl⟩ := reading_of_plain (x := factor vars c) h
    exact r.shorter

/-- A routine that gives a value has read something. -/
theorem passes_of_routine (h : phrase.routine vars c = .ok (v, d)) :
    ∃ u, u ≠ [] ∧ c.Passes u d := by
  -- A routine does not see what is pending, so any will do.
  obtain ⟨k⟩ : Nonempty (Pending phrase) := by
    cases phrase with
    | expression => exact ⟨.whole⟩
    | term => exact ⟨.firstTerm .whole⟩
    | factor => exact ⟨.firstFactor (.firstTerm .whole)⟩
  have ha := arrives_due vars c k
  rw [h] at ha
  obtain ⟨n, hn⟩ := ha
  obtain ⟨u, hu⟩ := passes_of_run hn
  rw [cursor_give] at hu
  refine ⟨u, ?_, hu⟩
  rintro rfl
  exact Nat.ne_of_gt (shorter_of_routine h) (congrArg List.length hu.rest)

end Consumption

/-- How the reading of a text goes, from before its first character to the result. -/
structure GoesForward (vars : Variables) (text : List Char) : Prop where
  -- At every point the unread characters are those that the offset says.
  inPlace : ∀ n r, Reader.run vars n (.start text) = some r → r.cursor.InPlace text
  -- The offset never falls.
  neverBack : ∀ m n r s, m ≤ n → Reader.run vars m (.start text) = some r →
    Reader.run vars n (.start text) = some s → r.cursor.offset ≤ s.cursor.offset
  -- Between two visits to one part of the routines, such as two rounds of a loop or an
  -- expression and one in parentheses within it, something is read.
  shortens : ∀ m n r s, m < n → Reader.run vars m (.start text) = some r →
    Reader.run vars n (.start text) = some s → r.part = s.part →
      s.cursor.rest.length < r.cursor.rest.length
  -- After a bounded number of steps the result is there.
  stops : ∃ n ≤ 11 * text.length + 10, ∃ d,
    Reader.run vars n (.start text) = some (.stopped (evaluate vars text) d)
  -- A phrase that is begun ends where its routine ends, or the reader stops at its fault.
  phrases : ∀ phrase c k, Arrives vars (.due phrase c k) k.give (phrase.routine vars c)
  -- The same of the two loops over operators.
  loops : (∀ w c k, Arrives vars (.sum w c k) k.give (plain (sum vars w c))) ∧
    ∀ w c k, Arrives vars (.product w c k) k.give (plain (product vars w c))
  -- Whatever moves a cursor leaves it in place.
  cursors : ∀ c : Cursor, c.InPlace text → c.skipBlanks.InPlace text ∧
    (∀ p, (c.takeWhile p).2.InPlace text) ∧ ∀ first d, c.next? = some (first, d) → d.InPlace text
  -- So does a routine that gives a value, and it reads at least one character.
  routines : ∀ (phrase : Phrase) c v d, phrase.routine vars c = .ok (v, d) →
    c.offset < d.offset ∧ (c.InPlace text → d.InPlace text)

/-- The reading of every text goes forward to its end. -/
theorem reading_goes_forward (vars : Variables) (text : List Char) : GoesForward vars text where
  inPlace := by
    intro n r h
    obtain ⟨u, hu⟩ := passes_of_run h
    exact (Text.Cursor.inPlace_start text).pass hu
  neverBack := by
    intro m n r s hmn hm hn
    obtain ⟨u, hu⟩ := passes_of_run (run_between hmn hm hn)
    rw [hu.offset]
    exact Nat.le_add_right _ _
  shortens := by
    intro m n r s hmn hm hn
    exact shorter_of_run (Nat.sub_pos_of_lt hmn) (run_between (Nat.le_of_lt hmn) hm hn)
  stops := by
    obtain ⟨d, n, hn⟩ := reaches_evaluate vars text
    have hw := weight_of_run hn
    exact ⟨n, Nat.le_trans (Nat.le_add_left _ _) hw, d, hn⟩
  phrases := fun _ c k => arrives_due vars c k
  loops := ⟨(arrives_of_plain vars).2.1, (arrives_of_plain vars).2.2.2.1⟩
  cursors := fun c h => ⟨h.pass (.skipBlanks c), fun p => h.pass (.takeWhile p c),
    fun first d hn => h.pass (.next? hn)⟩
  routines := by
    intro phrase c v d h
    obtain ⟨u, hne, hu⟩ := passes_of_routine h
    refine ⟨?_, fun hc => hc.pass hu⟩
    rw [hu.offset]
    exact Nat.lt_add_of_pos_right (List.length_pos_iff.2 hne)

end BlockTrace.Expression
