import BlockTrace.Json.Value
import BlockTrace.Program.Block
import BlockTrace.Text.Quoted

/-! Programs from JSON values: what shape a value must have, and what is wrong with one that has
another. -/
namespace BlockTrace.Program
open Json (Found Value)

inductive Wanted
  | sequence
  | block
  | map
  | string
  | kind
  deriving DecidableEq, Repr

inductive ShapeFault
  | wrongType (found : Found) (wanted : Wanted)
  | unknownKind (name : String)
  | kindOutOfRange (index : Nat)
  | duplicateField (name : String)
  | missingKind
  deriving DecidableEq, Repr

def describe : Found → String
  | .null => "null"
  | .bool true => "boolean `true`"
  | .bool false => "boolean `false`"
  | .integer n => "integer `" ++ toString n ++ "`"
  | .double x => "floating point `" ++ Json.doubleLayout.render x ++ "`"
  | .string s => "string " ++ Text.quoted s
  | .sequence => "sequence"
  | .map => "map"

def Wanted.describe : Wanted → String
  | sequence => "a sequence"
  | block => "struct Block"
  | map => "a map"
  | string => "a string"
  | kind => "variant identifier"

def ShapeFault.message : ShapeFault → String
  | wrongType found wanted =>
    "invalid type: " ++ Program.describe found ++ ", expected " ++ wanted.describe
  | unknownKind name =>
    let names := Kind.all.map fun kind => "`" ++ kind.name ++ "`"
    "unknown variant `" ++ name ++ "`, expected one of " ++ ", ".intercalate names
  | kindOutOfRange index =>
    "invalid value: integer `" ++ toString index ++ "`, expected variant index 0 <= i < 8"
  | duplicateField name => "duplicate field `" ++ name ++ "`"
  | missingKind => "missing field `kind`"

/-- A kind is given by its name or by its index. -/
def kindOf : Value → Except ShapeFault Kind
  | .string name =>
    match Kind.ofName? name with
    | some kind => .ok kind
    | none => .error (.unknownKind name)
  | .integer (.ofNat index) =>
    match Kind.ofIndex? index with
    | some kind => .ok kind
    | none => .error (.kindOutOfRange index)
  | other => .error (.wrongType other.found .kind)

/-- Finds the kind among the members of a block, when `seen` was found before. The kind of the
first such member is settled before a second one is refused. -/
def findKind (seen : Option Kind) : List (String × Value) → Except ShapeFault Kind
  | [] =>
    match seen with
    | some kind => .ok kind
    | none => .error .missingKind
  | (name, value) :: rest =>
    if name = "kind" then
      match seen with
      | some _ => .error (.duplicateField "kind")
      | none => do findKind (some (← kindOf value)) rest
    else findKind seen rest

def stringOf : Value → Except ShapeFault String
  | .string s => .ok s
  | other => .error (.wrongType other.found .string)

/-- Adds members to parameters; of two with the same name the later one counts. -/
def addParameters (p : Parameters) : List (String × Value) → Except ShapeFault Parameters
  | [] => .ok p
  | (name, value) :: rest => do
    let text ← stringOf value
    addParameters ⟨p.entries.insert name text⟩ rest

def parametersOf : Value → Except ShapeFault Parameters
  | .object members => addParameters {} members
  | other => .error (.wrongType other.found .map)

def findParameters (seen : Option Parameters) :
    List (String × Value) → Except ShapeFault Parameters
  | [] => .ok (seen.getD {})
  | (name, value) :: rest =>
    if name = "parameters" then
      match seen with
      | some _ => .error (.duplicateField "parameters")
      | none => do findParameters (some (← parametersOf value)) rest
    else findParameters seen rest

/-- The members in which blocks of a kind keep their lists of blocks. -/
def Kind.childFields : Kind → List String
  | ifThen => ["body"]
  | ifElse => ["then_branch", "else_branch"]
  | whileLoop => ["body"]
  | _ => []

/-- Puts a block together; a list that is not given is empty. -/
def assemble (kind : Kind) (p : Parameters) (children : List (String × List Block)) : Block :=
  let list (field : String) := (children.lookup field).getD []
  match kind with
  | .declareVars => .declareVars p
  | .assign => .assign p
  | .arithmetic => .arithmetic p
  | .ifThen => .ifThen p (list "body")
  | .ifElse => .ifElse p (list "then_branch") (list "else_branch")
  | .whileLoop => .whileLoop p (list "body")
  | .declareArray => .declareArray p
  | .arrayAccess => .arrayAccess p

mutual

/-- A block from its parameters and its other members: first the kind is found, then the lists
that it has are decoded in the order of the members. -/
def blockOfMembers (p : Parameters) (members : List (String × Value)) :
    Except ShapeFault Block := do
  let kind ← findKind none members
  let children ← childrenOf kind.childFields [] members
  return assemble kind p children
termination_by (sizeOf members, 1)

/-- Decodes the members that are among `fields`, when the lists in `seen` were found before. -/
def childrenOf (fields : List String) (seen : List (String × List Block)) :
    List (String × Value) → Except ShapeFault (List (String × List Block))
  | [] => .ok seen
  | (name, value) :: rest =>
    if name ∈ fields then
      if (seen.lookup name).isSome then .error (.duplicateField name)
      else do
        let blocks ← blocksOf value
        childrenOf fields ((name, blocks) :: seen) rest
    else childrenOf fields seen rest
termination_by members => (sizeOf members, 0)

def blocksOf : Value → Except ShapeFault (List Block)
  | .array items => blocksOfItems items
  | other => .error (.wrongType other.found .sequence)
termination_by value => (sizeOf value, 0)

def blocksOfItems : List Value → Except ShapeFault (List Block)
  | [] => .ok []
  | item :: rest => do
    let block ← blockOf item
    let blocks ← blocksOfItems rest
    return block :: blocks
termination_by items => (sizeOf items, 0)

def blockOf : Value → Except ShapeFault Block
  | .object members => do
    let p ← findParameters none members
    blockOfMembers p members
  | other => .error (.wrongType other.found .block)
termination_by value => (sizeOf value, 0)

end

end BlockTrace.Program
