import BlockTrace.Json.Writer
import BlockTrace.Program.Block

/-! Programs as JSON: one object for each block, with its kind, its parameters and the lists of
blocks that the kind has. -/
namespace BlockTrace.Program
open Json (Value)

def Parameters.toJson (p : Parameters) : Value :=
  .object (p.toList.map fun (name, text) => (name, .string text))

namespace Block

/-- The members that every block has. -/
def header (kind : Kind) (p : Parameters) : List (String × Value) :=
  [("kind", .string kind.name), ("parameters", p.toJson)]

mutual

def toJson : Block → Value
  | declareVars p => .object (header .declareVars p)
  | assign p => .object (header .assign p)
  | arithmetic p => .object (header .arithmetic p)
  | ifThen p body => .object (header .ifThen p ++ [("body", .array (allToJson body))])
  | ifElse p thenBranch elseBranch =>
    .object (header .ifElse p ++
      [("then_branch", .array (allToJson thenBranch)),
       ("else_branch", .array (allToJson elseBranch))])
  | whileLoop p body => .object (header .whileLoop p ++ [("body", .array (allToJson body))])
  | declareArray p => .object (header .declareArray p)
  | arrayAccess p => .object (header .arrayAccess p)

def allToJson : List Block → List Value
  | [] => []
  | block :: rest => toJson block :: allToJson rest

end

end Block

def save (program : List Block) : String :=
  String.ofList (Json.write (.array (Block.allToJson program)))

end BlockTrace.Program
