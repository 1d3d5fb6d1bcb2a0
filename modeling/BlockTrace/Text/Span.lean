/-! Stretches of a text, counted in characters. -/
namespace BlockTrace.Text

structure Span where
  start : Nat
  length : Nat
  deriving DecidableEq, Repr

namespace Span

def single (start : Nat) : Span :=
  ⟨start, 1⟩

/-- From `start` up to, not including, `stop`. -/
def between (start stop : Nat) : Span :=
  ⟨start, stop - start⟩

def stop (span : Span) : Nat :=
  span.start + span.length

def shift (span : Span) (offset : Nat) : Span :=
  ⟨span.start + offset, span.length⟩

end Span

end BlockTrace.Text
