import Abacus.Number.Literal
import Abacus.Number.Printer

/-!
What can go wrong: with the text of a line, with its evaluation, and with a tree or an environment that no
text can lead to.
-/

namespace Abacus

/-- Why a text is not a line. Each error knows its column; columns count characters from 1. -/
inductive InputError where
  /-- No token begins like this. `kind` is the kind of token that was being read, if it was decided. -/
  | token (text kind : String) (column : Int)
  | unexpected (column : Int) (expected found : String)
  | operator (column : Int) (sign : String) (unary : Bool)
  /-- A bracket without its partner; the text of the other side is empty. -/
  | bracket (column : Int) (left right : String)
  | emptyExpression (column : Int) (close : String)
deriving DecidableEq

namespace InputError

def column : InputError → Int
  | .token _ _ column => column
  | .unexpected column _ _ => column
  | .operator column _ _ => column
  | .bracket column _ _ => column
  | .emptyExpression column _ => column

def message : InputError → String
  | .token text kind column =>
    "invalid " ++ (if kind = "" then "" else kind ++ " ") ++ "token at column "
      ++ column.repr ++ ": " ++ text
  | .unexpected column expected found =>
    column.repr ++ ": expected " ++ expected ++ ", found " ++ found
  | .operator column sign unary =>
    column.repr ++ ": unknown " ++ (if unary then "unary" else "binary") ++ " operator "
      ++ Text.quoteString sign
  | .bracket column left right =>
    column.repr ++ (if left = "" then ": close bracket " ++ right ++ " with no open bracket"
      else ": open bracket " ++ left ++ " with no close bracket")
  | .emptyExpression column close =>
    column.repr ++ ": no expression"
      ++ (if close = "" then "" else " up to " ++ Text.quoteString close)

end InputError

/-- Why a line has no value. -/
inductive EvalError where
  | undefinedVariable (name : String)
  | undefinedFunction (name : String)
  | arity (function : String) (takes given : Int)
  | zeroDivision (op : String)
  | domain (op : String) (x y : Option Number)
deriving DecidableEq

namespace EvalError

def operand : Option Number → String
  | none => "?"
  | some x => "(" ++ x.operandText ++ ")"

def message : EvalError → String
  | .undefinedVariable name => "undefined variable: " ++ Text.quoteString name
  | .undefinedFunction name => "undefined function: " ++ Text.quoteString name
  | .arity function takes given =>
    "cannot call " ++ function ++ " with " ++ given.repr ++ " arguments (it takes "
      ++ takes.repr ++ ")"
  | .zeroDivision op => if op = "%" then "remainder by zero" else "division by zero"
  | .domain op x y =>
    operand x ++ " " ++ op ++ " " ++ operand y ++ " outside domain of " ++ op

end EvalError

/-- A use that breaks a rule of the library, as opposed to a line that is wrong. To evaluate a line read from a
text leads to none in an environment that only such lines have changed. -/
inductive Fault where
  | unreadFailed
  | unknownOption
  | setInUse
  | evaluationInUse
  | inconsistentStack (values : Nat)
  | invalidNumber (text : String) (cause : LiteralError)
  | noLiteralTable
  | invalidNode (kind : String)
  /-- A node that cannot be written, and what was written before it. -/
  | unprintableNode (kind : String) (written : String)
  | notArithmetic (kind : String)
  | definitionEvaluated
  | definitionInlined
  /-- A subtree, or an environment, that has to be there is missing. -/
  | missing
  | parameterIndex (index : Int) (length : Nat)
  | noShortText
deriving DecidableEq

namespace Fault

def message : Fault → String
  | .unreadFailed => "unread failed"
  | .unknownOption => "calc: unknown option type"
  | .setInUse => "calc: Set on in-use environment"
  | .evaluationInUse => "calc: Eval during Eval"
  | .inconsistentStack values =>
    "calc: inconsistent stack: " ++ values.repr ++ " items (bad AST?)"
  | .invalidNumber text cause => "calc: invalid number: " ++ text ++ " (" ++ cause.message ++ ")"
  | .noLiteralTable => "assignment to entry in nil map"
  | .invalidNode kind => "calc: invalid AST node " ++ kind
  | .unprintableNode kind written => "calc: invalid node kind " ++ kind ++ " after writing " ++ written
  | .notArithmetic kind => "calc: arith on " ++ kind
  | .definitionEvaluated => "calc: eval on nodeDef"
  | .definitionInlined => "calc: inline on nodeDef"
  | .missing => "runtime error: invalid memory address or nil pointer dereference"
  | .parameterIndex index length =>
    if index < 0 then "runtime error: index out of range [" ++ index.repr ++ "]"
    else "runtime error: index out of range [" ++ index.repr ++ "] with length " ++ length.repr
  | .noShortText => "underflow"

end Fault

def Number.print (x : Number) : Except Fault String :=
  if x.hasShortText then .ok x.shortText else .error .noShortText

/-- How an operation ends early: with an error of its input, or with a fault of its use. -/
inductive Stop where
  | error (e : EvalError)
  | fault (f : Fault)
deriving DecidableEq

end Abacus
