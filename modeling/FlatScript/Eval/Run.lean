import FlatScript.Builtin
import FlatScript.Eval.Operator
import FlatScript.Frame

/-!
# Evaluation

Evaluation walks a tree in a frame and against a host.  It ends with a value, it fails, or it runs
out of fuel; in each case the frame and the host are what they have become by then.

One layer of evaluation, `Node.evalWith`, is written in terms of an evaluator for the parts of a
tree and for the bodies of called functions.  `Node.eval` closes the circle: fuel bounds how deep
layers nest and how often each loop repeats.  A fact that a layer passes on from its parts to the
whole therefore holds of evaluation, by induction on the fuel.
-/

namespace FlatScript

/-- Why an action stops short of a result. -/
inductive Halt (ε : Type) where
  /-- It failed. -/
  | failed (error : ε)
  /-- It had too little fuel to go on. -/
  | outOfFuel
  deriving DecidableEq

/-- What an evaluation works on. -/
structure State (σ : Type) where
  frame : Frame
  host : σ

/-- A step of an evaluation against a host of type `σ`. -/
abbrev EvalM (σ : Type) := EStateM (Halt EvalError) (State σ)

namespace EvalM

variable {σ α : Type}

/-- Fails. -/
def fail (error : EvalError) : EvalM σ α :=
  throw (.failed error)

/-- The result of a pure computation, or its failure. -/
def ofExcept : Except EvalError α → EvalM σ α
  | .ok a => pure a
  | .error error => fail error

/-- The frame. -/
def frame : EvalM σ Frame := do
  return (← get).frame

/-- Changes the frame. -/
def modifyFrame (change : Frame → Frame) : EvalM σ Unit :=
  modify fun state => { state with frame := change state.frame }

/-- Acts on the host. -/
def onHost (action : HostM σ α) : EvalM σ α := fun state =>
  match action state.host with
  | .ok a host => .ok a { state with host := host }
  | .error error host => .error (.failed (.host error)) { state with host := host }

/-- Acts in a frame of its own, which is the result; the frame outside stays as it is. -/
def inFrame (inner : Frame) (action : EvalM σ α) : EvalM σ Frame := fun state =>
  match action { state with frame := inner } with
  | .ok _ after => .ok after.frame { state with host := after.host }
  | .error halt after => .error halt { state with host := after.host }

/-- Repeats an action while a test succeeds, up to the given number of times. -/
def repeatWhile (test : EvalM σ Bool) (action : EvalM σ Value) : Nat → EvalM σ Value
  | 0 => throw .outOfFuel
  | fuel + 1 => do
    if ← test then
      let _ ← action
      repeatWhile test action fuel
    else
      return .none

end EvalM

namespace Node

variable {σ : Type}

section Layer

variable (eval : Node → EvalM σ Value)

/-- The truth of a predicate, which has to be a truth value. -/
def testWith (predicate : Node) : EvalM σ Bool := do
  match ← eval predicate with
  | .bool value => return value
  | value => EvalM.fail (.typeMismatch (.condition value.type))

/-- The values of trees, from left to right. -/
def evalAllWith : List Node → EvalM σ (List Value)
  | [] => return []
  | node :: nodes => do
    let value ← eval node
    let values ← evalAllWith nodes
    return value :: values

/-- Runs statements one after the other.  A return statement among them does not end the run. -/
def runAllWith : List Node → EvalM σ Value
  | [] => return .none
  | node :: nodes => do
    let _ ← eval node
    runAllWith nodes

/-- Runs a branch: its body, if its predicate is true. -/
def runBranchWith (branch : Branch Node) : EvalM σ Value := do
  if ← testWith eval branch.predicate then
    let _ ← eval branch.body
  return .none

/-- Runs the first branch whose predicate is true, and the last branch if there is none.  Running
the branch evaluates its predicate once more. -/
def runChoiceWith (last : Branch Node) : List (Branch Node) → EvalM σ Value
  | [] => runBranchWith eval last
  | branch :: branches => do
    if ← testWith eval branch.predicate then runBranchWith eval branch
    else runChoiceWith last branches

/-- Calls a declared function: its body runs in a frame that holds the arguments only. -/
def callWith (declaration : Declaration Node) (args : List Value) : EvalM σ Value := do
  let frame ← EvalM.inFrame (Frame.ofCall declaration.params args) (eval declaration.body)
  return frame.returned

/-- One layer of evaluation. -/
def evalWith (builtins : Builtins σ) (fuel : Nat) : Node → EvalM σ Value
  | .integer value => return .int value
  | .string value => return .str value
  | .bool value => return .bool value
  | .void => return .none
  | .binary lhs op rhs => do
    let left ← eval lhs
    let right ← eval rhs
    EvalM.ofExcept (op.applyBinary left right)
  | .unary op arg => do
    let value ← eval arg
    EvalM.ofExcept (op.applyUnary value)
  | .read name => do
    match (← EvalM.frame).vars[name]? with
    | some value => return value
    | none => EvalM.fail (.undefinedVariable name)
  | .assign name value => do
    let result ← eval value
    EvalM.modifyFrame (·.assign name result)
    return .none
  | .block body => runAllWith eval body
  | .program body => runAllWith eval body
  | .guarded branch => runBranchWith eval branch
  | .choice first others last => runChoiceWith eval last (first :: others)
  | .declare declaration => do
    EvalM.modifyFrame (·.declare declaration)
    return .none
  | .call name args => do
    match builtins[name]? with
    | some builtin =>
      let values ← evalAllWith eval args
      EvalM.onHost (builtin.run values)
    | none =>
      match (← EvalM.frame).functions[name]? with
      | some declaration =>
        let values ← evalAllWith eval args
        callWith eval declaration values
      | none => EvalM.fail (.undefinedFunction name)
  | .ret value => do
    let result ← eval value
    EvalM.modifyFrame (·.setPending result)
    return result
  | .loop condition body => EvalM.repeatWhile (testWith eval condition) (eval body) fuel

end Layer

/-- Evaluates a tree.  Fuel bounds how deep the evaluation nests and how often each loop repeats. -/
def eval (builtins : Builtins σ) : Nat → Node → EvalM σ Value
  | 0, _ => throw .outOfFuel
  | fuel + 1, node => evalWith (eval builtins fuel) builtins fuel node

/-- Evaluates a tree in a frame of its own, which is the result. -/
def runFresh (builtins : Builtins σ) (fuel : Nat) (program : Node) :
    EStateM (Halt EvalError) σ Frame := fun host =>
  match program.eval builtins fuel ⟨{}, host⟩ with
  | .ok _ state => .ok state.frame state.host
  | .error halt state => .error halt state.host

end Node

end FlatScript
