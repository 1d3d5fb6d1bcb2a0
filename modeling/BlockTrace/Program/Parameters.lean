import BlockTrace.Text.Numeral
import Std.Data.ExtTreeMap

/-! The named texts that a block carries. -/
namespace BlockTrace.Program

inductive Key
  | names
  | varName
  | expression
  | condition
  | name
  | size
  | arrayName
  | index
  | operation
  | value
  deriving DecidableEq, Repr

namespace Key

def all : List Key :=
  [names, varName, expression, condition, name, size, arrayName, index, operation, value]

def spelling : Key → String
  | names => "names"
  | varName => "varName"
  | expression => "expression"
  | condition => "condition"
  | name => "name"
  | size => "size"
  | arrayName => "arrayName"
  | index => "index"
  | operation => "operation"
  | value => "value"

def description : Key → String
  | names => "variable names"
  | varName => "variable name"
  | expression => "expression"
  | condition => "condition"
  | name => "array name"
  | size => "array size"
  | arrayName => "array name"
  | index => "array index"
  | operation => "operation"
  | value => "value"

end Key

/-- Texts by name. A block may carry names that no block reads. -/
@[ext]
structure Parameters where
  entries : Std.ExtTreeMap String String := ∅
  deriving DecidableEq

namespace Parameters

/-- The entries of a list; of two with the same name the later one counts. -/
def ofList (pairs : List (String × String)) : Parameters :=
  ⟨pairs.foldl (fun entries pair => entries.insert pair.1 pair.2) ∅⟩

def toList (p : Parameters) : List (String × String) :=
  p.entries.toList

def get? (p : Parameters) (key : Key) : Option String :=
  p.entries[key.spelling]?

def insert (p : Parameters) (key : Key) (value : String) : Parameters :=
  ⟨p.entries.insert key.spelling value⟩

/-- The parameter as an integer of 32 bits, if it is there and is one. -/
def integer? (p : Parameters) (key : Key) : Option Int32 :=
  (p.get? key).bind fun text => (Text.readSigned text.toList).toOption

end Parameters

end BlockTrace.Program
