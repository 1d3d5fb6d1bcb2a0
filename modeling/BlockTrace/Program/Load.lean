import BlockTrace.Json.Reader
import BlockTrace.Program.Shape

/-! Programs from text. The text is read once from left to right and the first problem is the one
reported. The blocks of the outermost list have their parameters checked where they stand; their
other members are kept until the block is complete. -/
namespace BlockTrace.Program
open Json (Parsed Reader Value skipSpace)

inductive LoadFault
  | json (fault : Json.Fault)
  | shape (fault : ShapeFault)
  deriving DecidableEq, Repr

/-- The fault of a value of another type than wanted. What is inside an array or object does not
matter, but any other value is read to its end first. -/
def mismatch (wanted : Wanted) (first : Char) (rest : List Char) : LoadFault :=
  if first = '[' then .shape (.wrongType .sequence wanted)
  else if first = '\x7b' then .shape (.wrongType .map wanted)
  else
    match Json.scalar first rest with
    | .ok r => .shape (.wrongType r.value.found wanted)
    | .error fault => .json fault

/-- Reads a value that starts with `opening`; `inside` reads what follows it. -/
def opened {α : Type} (opening : Char) (wanted : Wanted) (inside : Reader LoadFault α) :
    Reader LoadFault α := fun text =>
  match hs : skipSpace text with
  | [] => .error (.json .truncated)
  | c :: rest =>
    if c = opening then
      (inside rest).map fun r => r.past (Json.skipSpace_shorter hs)
    else .error (mismatch wanted c rest)

def afterColon {α : Type} (inside : Reader LoadFault α) : Reader LoadFault α := fun text =>
  match Json.colon text with
  | .error fault => .error (.json fault)
  | .ok ⟨(), rest, h⟩ => (inside rest).map fun r => r.past h

def readString : Reader LoadFault String :=
  opened '"' .string fun text => (Json.string text).mapError .json

/-- Reads a value that is kept for later; it stands inside two others. -/
def readKept : Reader LoadFault Value := fun text =>
  (Json.value (Json.nestingLimit - 2) text).mapError .json

def readParameter (p : Parameters) (name : String) : Reader LoadFault Parameters :=
  afterColon fun text =>
    (readString text).map fun r => r.map fun value => ⟨p.entries.insert name value⟩

def readParameters : Reader LoadFault Parameters :=
  opened '\x7b' .map (Json.members .json readParameter {})

/-- What is known of a block before its end: its parameters, if they were given, and the other
members, last first. -/
structure Draft where
  parameters : Option Parameters := none
  kept : List (String × Value) := []

/-- Reads a member of a block. Parameters that are given twice are refused before their value. -/
def readMember (draft : Draft) (name : String) : Reader LoadFault Draft :=
  if name = "parameters" then
    match draft.parameters with
    | some _ => fun _ => .error (.shape (.duplicateField "parameters"))
    | none => afterColon fun text =>
        (readParameters text).map fun r => r.map fun p => { draft with parameters := some p }
  else afterColon fun text =>
    (readKept text).map fun r => r.map fun value =>
      { draft with kept := (name, value) :: draft.kept }

def readBlock : Reader LoadFault Block :=
  opened '\x7b' .block fun text => do
    let draft ← Json.members .json readMember {} text
    let p := draft.value.parameters.getD {}
    let block ← (blockOfMembers p draft.value.kept.reverse).mapError .shape
    return draft.map fun _ => block

def readProgram : Reader LoadFault (List Block) :=
  opened '[' .sequence (Json.items .json readBlock)

def load (text : List Char) : Except LoadFault (List Block) := do
  let program ← readProgram text
  if skipSpace program.rest = [] then return program.value else .error (.json .malformed)

end BlockTrace.Program
