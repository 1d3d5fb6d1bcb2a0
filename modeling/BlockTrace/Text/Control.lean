/-! Texts without what only a terminal understands: control characters, and the sequences that an
escape character starts. -/
namespace BlockTrace.Text

/-- Where a text stands with respect to the sequence that was last started. -/
inductive Sequence
  -- No sequence is open.
  | outside
  -- The escape character has been read.
  | started
  -- A sequence without parameters waits for its last character.
  | short
  -- A control sequence waits for its last character, a letter or the like.
  | control
  -- A device control string has begun, and the next characters say which.
  | device
  -- The parameters of a device control string.
  | deviceParameters
  -- The characters between these parameters and the contents.
  | deviceSelector
  -- Contents that last up to the byte `9c`.
  | contents
  -- A command to the operating system, which lasts up to a bell.
  | command
  deriving DecidableEq, Repr

def isLayout (c : Char) : Bool :=
  c = '\t' || c = '\n' || c = '\x0c' || c = '\r'

def isControl (c : Char) : Bool :=
  c.toNat < 0x20 || c = '\x7f'

def isPlain (c : Char) : Bool :=
  isLayout c || !isControl c

namespace Sequence

def ofIntroducer (c : Char) : Sequence :=
  if c.toNat < 0x30 then short
  else if 0x7f < c.toNat then started
  else
    match c with
    | '[' => control
    | ']' => command
    | 'P' => device
    | 'X' => contents
    | '^' => contents
    | '_' => contents
    | _ => outside

def read (s : Sequence) (c : Char) : Sequence :=
  match s with
  | outside => outside
  | started => ofIntroducer c
  | short => if 0x30 ≤ c.toNat ∧ c.toNat < 0x7f then outside else short
  | control => if 0x40 ≤ c.toNat ∧ c.toNat < 0x7f then outside else control
  | device =>
    if c.toNat < 0x30 then deviceSelector
    else if c.toNat < 0x40 then deviceParameters
    else if c.toNat < 0x7f then contents
    else device
  | deviceParameters =>
    if c.toNat < 0x30 then deviceSelector
    else if c.toNat < 0x3c then deviceParameters
    else if c.toNat < 0x7f then contents
    else deviceParameters
  | deviceSelector => if 0x30 ≤ c.toNat ∧ c.toNat < 0x7f then contents else deviceSelector
  | contents => if 0x9c ∈ String.utf8EncodeChar c then outside else contents
  | command => command

/-- What a character does to a sequence. Two control characters cancel every sequence, and the
escape character starts a new one. -/
def next (s : Sequence) (c : Char) : Sequence :=
  if c = '\x18' ∨ c = '\x1a' then outside
  else if c = '\x1b' then started
  else if isControl c then if s = command ∧ c = '\x07' then outside else s
  else s.read c

/-- Whether a character shows. The layout shows also within a sequence, but not in the contents of
a string. -/
def shows (s : Sequence) (c : Char) : Bool :=
  match s with
  | outside => isPlain c
  | started => isLayout c
  | short => isLayout c
  | control => isLayout c
  | _ => false

end Sequence

/-- A scan of a text. A sequence with layout in it is `paused`: the text shows again up to the next
control character, and a character beyond ASCII puts an end to the sequence. -/
structure Scan where
  sequence : Sequence
  paused : Bool
  deriving DecidableEq, Repr

namespace Scan

def shows (s : Scan) (c : Char) : Bool :=
  if s.paused then isPlain c else s.sequence.shows c

def next (s : Scan) (c : Char) : Scan :=
  if s.paused ∧ isPlain c then if c.toNat < 0x80 then s else ⟨.outside, false⟩
  else ⟨s.sequence.next c, s.sequence ≠ .outside ∧ s.sequence.shows c⟩

def shown : Scan → List Char → List Char
  | _, [] => []
  | s, c :: rest => if s.shows c then c :: shown (s.next c) rest else shown (s.next c) rest

end Scan

/-- A text without control characters and sequences. One that is still open at the end is dropped
with it. -/
def plain (text : String) : String :=
  String.ofList (Scan.shown ⟨.outside, false⟩ text.toList)

end BlockTrace.Text
