import BlockTrace.Text.Visible

/-! Quoted characters and strings, in which every hidden character is spelled out. -/
namespace BlockTrace.Text

/-- How `c` stands between two quotes `mark`. -/
def spelled (mark c : Char) : List Char :=
  if c = mark then ['\\', c]
  else
    match c with
    | '\x00' => ['\\', '0']
    | '\t' => ['\\', 't']
    | '\r' => ['\\', 'r']
    | '\n' => ['\\', 'n']
    | '\\' => ['\\', '\\']
    | _ =>
      if isVisible c then [c]
      else ['\\', 'u', '\x7b'] ++ Nat.toDigits 16 c.toNat ++ ['\x7d']

def quotedChar (c : Char) : String :=
  String.ofList ('\'' :: spelled '\'' c ++ ['\''])

def quoted (text : String) : String :=
  String.ofList ('"' :: text.toList.flatMap (spelled '"') ++ ['"'])

end BlockTrace.Text
