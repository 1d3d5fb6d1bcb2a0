import BlockTrace.Json.Number

/-! Reading of JSON values. Arrays and objects are read by two loops that know nothing of what
their items and members are. -/
namespace BlockTrace.Json

section
variable {ε α σ : Type}

/-- Reads the items of an array after the first; those so far are `seen`, last first. A comma or
the closing bracket comes next. -/
def moreItems (lift : Fault → ε) (item : Reader ε α) (bound : Nat) (seen : List α)
    (text : List Char) (h : text.length ≤ bound) : Except ε (Parsed (List α) bound) :=
  match hs : skipSpace text with
  | [] => .error (lift .truncated)
  | c :: rest =>
    have hr : rest.length < text.length :=
      skipSpace_shorter hs
    if c = ']' then .ok ⟨seen.reverse, rest, by omega⟩
    else if c = ',' then
      match skipSpace rest with
      | [] => .error (lift .truncated)
      | ']' :: _ => .error (lift .malformed)
      | _ :: _ =>
        match item rest with
        | .error fault => .error fault
        | .ok ⟨value, after, ha⟩ =>
          moreItems lift item bound (value :: seen) after (by omega)
    else .error (lift .malformed)
termination_by text.length

def items (lift : Fault → ε) (item : Reader ε α) : Reader ε (List α) := fun text =>
  match hs : skipSpace text with
  | [] => .error (lift .truncated)
  | ']' :: rest => .ok ⟨[], rest, skipSpace_shorter hs⟩
  | _ :: _ =>
    match item text with
    | .error fault => .error fault
    | .ok ⟨value, after, ha⟩ => moreItems lift item text.length [value] after (by omega)

def colon : Reader Fault Unit := fun text =>
  match hs : skipSpace text with
  | [] => .error .truncated
  | c :: rest =>
    if c = ':' then .ok ⟨(), rest, skipSpace_shorter hs⟩
    else .error .malformed

/-- Reads a member and the members after it. At the front of `text`, behind the opening quote,
stands the name; `member` reads the colon and the value, and turns one state into the next. -/
def membersFrom (lift : Fault → ε) (member : σ → String → Reader ε σ) (bound : Nat) (state : σ)
    (text : List Char) (h : text.length ≤ bound) : Except ε (Parsed σ bound) :=
  match string text with
  | .error fault => .error (lift fault)
  | .ok ⟨name, afterName, hn⟩ =>
    match member state name afterName with
    | .error fault => .error fault
    | .ok ⟨next, afterValue, hv⟩ =>
      match hs : skipSpace afterValue with
      | [] => .error (lift .truncated)
      | c :: rest =>
        have hr : rest.length < afterValue.length :=
          skipSpace_shorter hs
        if c = '\x7d' then .ok ⟨next, rest, by omega⟩
        else if c = ',' then
          match ht : skipSpace rest with
          | [] => .error (lift .truncated)
          | d :: more =>
            have hm : more.length < rest.length :=
              skipSpace_shorter ht
            if d = '"' then membersFrom lift member bound next more (by omega)
            else .error (lift .malformed)
        else .error (lift .malformed)
termination_by text.length

def members (lift : Fault → ε) (member : σ → String → Reader ε σ) (state : σ) : Reader ε σ :=
  fun text =>
    match hs : skipSpace text with
    | [] => .error (lift .truncated)
    | c :: rest =>
      have hr : rest.length < text.length :=
        skipSpace_shorter hs
      if c = '\x7d' then .ok ⟨state, rest, hr⟩
      else if c = '"' then membersFrom lift member text.length state rest (by omega)
      else .error (lift .malformed)

end

/-- Reads a value that starts with `c` and is no array and no object. -/
def scalar (c : Char) : (rest : List Char) → Except Fault (Parsed Value (rest.length + 1)) :=
  fun rest =>
    let word (letters : String) (value : Value) : Except Fault (Parsed Value (rest.length + 1)) :=
      (expect letters.toList rest).map fun r => ⟨value, r.1, Nat.lt_succ_of_le r.2⟩
    match c with
    | 'n' => word "ull" .null
    | 't' => word "rue" (.bool true)
    | 'f' => word "alse" (.bool false)
    | '"' => (string rest).map fun r => (r.map .string).relax
    | '-' => (number true rest).map Parsed.relax
    | _ => if c.isDigit then number false (c :: rest) else .error .malformed

/-- Reads a value; `nested` reads the values inside an array or object, if there may be any. -/
def valueWith (nested : Option (Reader Fault Value)) : Reader Fault Value := fun text =>
  match hs : skipSpace text with
  | [] => .error .truncated
  | c :: rest =>
    have hr : rest.length < text.length :=
      skipSpace_shorter hs
    if c = '[' then
      match nested with
      | none => .error .malformed
      | some inner => (items id inner rest).map fun r => (r.map .array).past hr
    else if c = '\x7b' then
      match nested with
      | none => .error .malformed
      | some inner =>
        let member (seen : List (String × Value)) (name : String) :
            Reader Fault (List (String × Value)) := fun text => do
          let mark ← colon text
          let value ← inner mark.rest
          return (value.map fun v => (name, v) :: seen).past mark.shorter
        (members id member [] rest).map fun r =>
          (r.map fun seen => .object seen.reverse).past hr
    else (scalar c rest).map fun r => r.widen hr

/-- Reads a value in which at most `depth` arrays and objects stand inside one another. -/
def value : (depth : Nat) → Reader Fault Value
  | 0 => valueWith none
  | depth + 1 => valueWith (some (value depth))

def nestingLimit : Nat :=
  127

def parse (text : List Char) : Except Fault Value := do
  let document ← value nestingLimit text
  if skipSpace document.rest = [] then return document.value else .error .malformed

end BlockTrace.Json
