import BlockTrace.Program.Parameters

/-! Programs are lists of blocks; the control blocks hold lists of their own. -/
namespace BlockTrace.Program

/-- What a block does, without its parameters and children. -/
inductive Kind
  | declareVars
  | assign
  | arithmetic
  | ifThen
  | ifElse
  | whileLoop
  | declareArray
  | arrayAccess
  deriving DecidableEq, Repr

namespace Kind

/-- The kinds in the order of their indices. -/
def all : List Kind :=
  [declareVars, assign, arithmetic, ifThen, ifElse, whileLoop, declareArray, arrayAccess]

def name : Kind → String
  | declareVars => "DeclareVars"
  | assign => "Assign"
  | arithmetic => "ArithmeticEval"
  | ifThen => "If"
  | ifElse => "IfElse"
  | whileLoop => "While"
  | declareArray => "DeclareArray"
  | arrayAccess => "ArrayAccess"

def ofName? (name : String) : Option Kind :=
  all.find? fun kind => kind.name = name

def ofIndex? (index : Nat) : Option Kind :=
  all[index]?

end Kind

inductive Block
  | declareVars (parameters : Parameters)
  | assign (parameters : Parameters)
  | arithmetic (parameters : Parameters)
  | ifThen (parameters : Parameters) (body : List Block)
  | ifElse (parameters : Parameters) (thenBranch elseBranch : List Block)
  | whileLoop (parameters : Parameters) (body : List Block)
  | declareArray (parameters : Parameters)
  | arrayAccess (parameters : Parameters)

namespace Block

def kind : Block → Kind
  | declareVars _ => .declareVars
  | assign _ => .assign
  | arithmetic _ => .arithmetic
  | ifThen .. => .ifThen
  | ifElse .. => .ifElse
  | whileLoop .. => .whileLoop
  | declareArray _ => .declareArray
  | arrayAccess _ => .arrayAccess

def parameters : Block → Parameters
  | declareVars p => p
  | assign p => p
  | arithmetic p => p
  | ifThen p _ => p
  | ifElse p _ _ => p
  | whileLoop p _ => p
  | declareArray p => p
  | arrayAccess p => p

mutual

/-- The kinds of a block and of all blocks in it, in the order in which they stand. -/
def kinds : Block → List Kind
  | ifThen _ body => .ifThen :: kindsAll body
  | ifElse _ thenBranch elseBranch => .ifElse :: (kindsAll thenBranch ++ kindsAll elseBranch)
  | whileLoop _ body => .whileLoop :: kindsAll body
  | declareVars _ => [.declareVars]
  | assign _ => [.assign]
  | arithmetic _ => [.arithmetic]
  | declareArray _ => [.declareArray]
  | arrayAccess _ => [.arrayAccess]

def kindsAll : List Block → List Kind
  | [] => []
  | block :: rest => kinds block ++ kindsAll rest

end

def declareNames (names : String) : Block :=
  declareVars (Parameters.ofList [("names", names)])

def assignTo (target expression : String) : Block :=
  assign (Parameters.ofList [("varName", target), ("expression", expression)])

def evaluate (expression : String) : Block :=
  arithmetic (Parameters.ofList [("expression", expression)])

def when (condition : String) (body : List Block) : Block :=
  ifThen (Parameters.ofList [("condition", condition)]) body

def choose (condition : String) (thenBranch elseBranch : List Block) : Block :=
  ifElse (Parameters.ofList [("condition", condition)]) thenBranch elseBranch

def loop (condition : String) (body : List Block) : Block :=
  whileLoop (Parameters.ofList [("condition", condition)]) body

def declareSized (name size : String) : Block :=
  declareArray (Parameters.ofList [("name", name), ("size", size)])

def getAt (name index : String) : Block :=
  arrayAccess (Parameters.ofList [("arrayName", name), ("index", index), ("operation", "get")])

def setAt (name index value : String) : Block :=
  arrayAccess (Parameters.ofList
    [("arrayName", name), ("index", index), ("operation", "set"), ("value", value)])

end Block

end BlockTrace.Program
