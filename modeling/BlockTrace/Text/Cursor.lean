import BlockTrace.Text.Blank

/-! A place in a text: what is unread, and how many characters were read before it. -/
namespace BlockTrace.Text

structure Cursor where
  rest : List Char
  offset : Nat
  deriving DecidableEq, Repr

namespace Cursor

def start (text : List Char) : Cursor :=
  ⟨text, 0⟩

/-- Reads all characters that satisfy `p`, up to the first that does not. -/
def takeWhile (p : Char → Bool) (c : Cursor) : List Char × Cursor :=
  (c.rest.takeWhile p, ⟨c.rest.dropWhile p, c.offset + (c.rest.takeWhile p).length⟩)

def skipBlanks (c : Cursor) : Cursor :=
  (c.takeWhile isBlank).2

def next? (c : Cursor) : Option (Char × Cursor) :=
  match c.rest with
  | [] => none
  | first :: rest => some (first, ⟨rest, c.offset + 1⟩)

/-- Reads one character if `f` has a meaning for it. -/
def accept? {α : Type} (f : Char → Option α) (c : Cursor) : Option (α × Cursor) :=
  match c.next? with
  | none => none
  | some (first, rest) => (f first).map fun a => (a, rest)

theorem next?_shorter {c d : Cursor} {ch : Char} (h : c.next? = some (ch, d)) :
    d.rest.length < c.rest.length := by
  unfold next? at h
  split at h
  · simp at h
  next first rest hr =>
    obtain ⟨_, rfl⟩ := Prod.mk.injEq .. ▸ Option.some.injEq .. ▸ h
    simp [hr]

theorem accept?_shorter {α : Type} {f : Char → Option α} {c d : Cursor} {a : α}
    (h : c.accept? f = some (a, d)) : d.rest.length < c.rest.length := by
  unfold accept? at h
  split at h
  · simp at h
  next first rest hn =>
    obtain ⟨_, _, he⟩ := Option.map_eq_some_iff.1 h
    obtain ⟨_, rfl⟩ := Prod.mk.injEq .. ▸ he
    exact next?_shorter hn

theorem length_dropWhile_le (p : Char → Bool) (s : List Char) :
    (s.dropWhile p).length ≤ s.length :=
  (List.dropWhile_sublist p).length_le

theorem skipBlanks_le (c : Cursor) : c.skipBlanks.rest.length ≤ c.rest.length :=
  length_dropWhile_le isBlank c.rest

/-- A run that starts with a character of the class is not empty. -/
theorem takeWhile_shorter {p : Char → Bool} {c : Cursor} {first : Char} {rest : List Char}
    (hr : c.rest = first :: rest) (hp : p first) :
    (c.takeWhile p).2.rest.length < c.rest.length := by
  simp only [takeWhile, hr, List.dropWhile_cons, hp, if_true, List.length_cons]
  exact Nat.lt_succ_of_le (length_dropWhile_le p rest)

end Cursor

end BlockTrace.Text
