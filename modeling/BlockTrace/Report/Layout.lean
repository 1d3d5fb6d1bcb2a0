import BlockTrace.Text.Blank
import BlockTrace.Text.Lines
import BlockTrace.Text.Span

/-! A coloured report that points at a stretch of one line of a text. -/
namespace BlockTrace.Report
open Text (Span)

inductive Colour
  | heading
  | frame
  | margin
  | source
  | mark
  | name
  | symbol
  deriving DecidableEq, Repr

def Colour.code : Colour → String
  | heading => "31"
  | frame => "38;5;246"
  | margin => "38;5;240"
  | source => "38;5;249"
  | mark => "91"
  | name => "93"
  | symbol => "96"

def Colour.paint (colour : Colour) (text : String) : String :=
  "\x1b[" ++ colour.code ++ "m" ++ text ++ "\x1b[0m"

def blanks (n : Nat) : String :=
  String.ofList (List.replicate n ' ')

def bars (n : Nat) : String :=
  String.ofList (List.replicate n '─')

/-- A line of the text, with its number from 1 and the place in it of the offset looked for. -/
structure Location where
  number : Nat
  column : Nat
  line : List Char
  deriving DecidableEq, Repr

/-- Finds `offset` in lines that hold their own breaks. An offset behind all of them belongs to the
last one. -/
def locateIn (number offset : Nat) : List (List Char) → Location
  | [] => ⟨number, offset, []⟩
  | [line] => ⟨number, offset, line⟩
  | line :: next :: more =>
    if offset < line.length then ⟨number, offset, line⟩
    else locateIn (number + 1) (offset - line.length) (next :: more)

def locate (text : List Char) (offset : Nat) : Location :=
  locateIn 1 offset (Text.lines text)

structure Notice where
  code : String
  title : String
  -- What the text is called.
  name : String
  text : List Char
  span : Span
  label : String
  deriving DecidableEq, Repr

namespace Notice

/-- The characters of a line, those of the span in the colour of the mark. Every blank shows as a
space. -/
def sourceLine (line : List Char) (first stop : Nat) : String :=
  String.join <| (Text.trimRight line).zipIdx.map fun (c, i) =>
    let colour := if first ≤ i ∧ i < stop then Colour.mark else Colour.source
    colour.paint (if Text.isBlank c then " " else c.toString)

/-- The marks under the span: a bar for an empty one, else a line with a stem in the middle. -/
def underline (first stop : Nat) : String :=
  if first = stop then Colour.mark.paint "│" ++ " "
  else
    let marks := (List.range (stop - first)).map fun i =>
      Colour.mark.paint (if first + i = (first + stop) / 2 then "┬" else "─")
    String.join marks ++ "  "

def arrow (first stop : Nat) : String :=
  let length := if first = stop then 1 else stop + 1 - (first + stop) / 2
  Colour.mark.paint "╰" ++ String.join (List.replicate length (Colour.mark.paint "─"))

def rows (r : Notice) : List String :=
  let place := locate r.text r.span.start
  let number := toString place.number
  let first := place.column
  let stop := first + r.span.length
  let indent := blanks (number.length + 2)
  let margin := " " ++ Colour.margin.paint (blanks (number.length + 1) ++ "│") ++ " "
  [ Colour.heading.paint ("[" ++ r.code ++ "] Error:") ++ " " ++ r.title,
    indent ++ Colour.frame.paint "╭" ++ Colour.frame.paint "─" ++ Colour.frame.paint "[" ++
      " " ++ r.name ++ ":" ++ number ++ ":" ++ toString (first + 1) ++ " " ++
      Colour.frame.paint "]",
    indent ++ Colour.frame.paint "│",
    " " ++ Colour.frame.paint (number ++ " │") ++ " " ++ sourceLine place.line first stop,
    margin ++ blanks first ++ underline first stop,
    margin ++ blanks ((first + stop) / 2) ++ arrow first stop ++ " " ++ r.label,
    Colour.frame.paint (bars (number.length + 2) ++ "╯") ]

/-- The report as a text, in which every row ends with a line break. -/
def render (r : Notice) : String :=
  String.join (r.rows.map (· ++ "\n"))

end Notice

end BlockTrace.Report
