import BlockTrace.Json.Value

/-! Writing of JSON values. -/
namespace BlockTrace.Json

def escaped (c : Char) : List Char :=
  match c with
  | '"' => ['\\', '"']
  | '\\' => ['\\', '\\']
  | '\x08' => ['\\', 'b']
  | '\x0c' => ['\\', 'f']
  | '\n' => ['\\', 'n']
  | '\r' => ['\\', 'r']
  | '\t' => ['\\', 't']
  | _ =>
    if c.toNat < 0x20 then
      ['\\', 'u', '0', '0', Nat.digitChar (c.toNat / 16), Nat.digitChar (c.toNat % 16)]
    else [c]

def writeString (s : String) : List Char :=
  '"' :: s.toList.flatMap escaped ++ ['"']

mutual

/-- Writes a value without blanks. -/
def write : Value → List Char
  | .null => "null".toList
  | .bool true => "true".toList
  | .bool false => "false".toList
  | .integer n => (toString n).toList
  | .double x => (doubleLayout.render x).toList
  | .string s => writeString s
  | .array items => '[' :: writeItems items ++ [']']
  | .object members => '\x7b' :: writeMembers members ++ ['\x7d']

def writeItems : List Value → List Char
  | [] => []
  | [item] => write item
  | item :: next :: more => write item ++ ',' :: writeItems (next :: more)

def writeMembers : List (String × Value) → List Char
  | [] => []
  | [(name, value)] => writeString name ++ ':' :: write value
  | (name, value) :: next :: more =>
    writeString name ++ ':' :: write value ++ ',' :: writeMembers (next :: more)

end

/-- Writes an array of strings, each on a line of its own. -/
def writeLines : List String → List Char
  | [] => ['[', ']']
  | first :: rest =>
    let line (s : String) := '\n' :: ' ' :: ' ' :: writeString s
    '[' :: line first ++ rest.flatMap (fun s => ',' :: line s) ++ ['\n', ']']

end BlockTrace.Json
