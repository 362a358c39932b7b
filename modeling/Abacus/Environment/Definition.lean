import Abacus.Environment.Basic

/-!
Definitions of functions.

A call in the body of a definition is replaced by the body of the called function, with the arguments in the
place of its parameters. Since the bodies of the functions that exist call nothing, nor does the
new one, and what a function means does not change when another is defined later.
-/

namespace Abacus.Environment

/-- What a name alone stands for if it is no variable but a function. -/
def inlineName (env : Environment) (name : String) : Except Stop (Option Tree) :=
  match env.vars.find? name, env.functions.find? name with
  | none, some f =>
    if f.params.isEmpty then .ok (some f.body)
    else .error (.error (.arity name f.params.length 0))
  | _, _ => .ok none

mutual

/-- Replaces the calls in a tree. A name that is no variable is a call if it is a function. -/
def inline (env : Environment) : Tree → Except Stop Tree
  | .ident name => return (← inlineName env name).getD (.ident name)
  | .call function args =>
    match env.functions.find? function with
    | none => .error (.error (.undefinedFunction function))
    | some f =>
      if args.length = f.params.length then do
        let args ← inlineAll env args
        (f.body.substitute (some args)).mapError .fault
      else .error (.error (.arity function f.params.length args.length))
  | .define _ _ _ => .error (.fault .definitionInlined)
  | .absent => .ok .absent
  | .number text => .ok (.number text)
  | .param index name => .ok (.param index name)
  | .assign name value => return .assign name (← inline env value)
  | .unary op operand => return .unary op (← inline env operand)
  | .binary op left right => return .binary op (← inline env left) (← inline env right)
  | .malformed code left right => return .malformed code (← inline env left) (← inline env right)
  | .extended node name args left right =>
    match node with
    | .ident ident => return (← inlineName env ident).getD (.extended node name args left right)
    | .call _ _ => inline env node
    | _ => return .extended (← inline env node) name args (← inline env left) (← inline env right)

def inlineAll (env : Environment) : List Tree → Except Stop (List Tree)
  | [] => .ok []
  | t :: rest => return (← inline env t) :: (← inlineAll env rest)

end

/-- The function that a definition makes in an environment. -/
def define (env : Environment) (name : String) (params : List String) (body : Tree) :
    Except Stop Func := do
  return { name, params, body := ← inline env body }

end Abacus.Environment
