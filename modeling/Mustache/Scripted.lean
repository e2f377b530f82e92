import Mustache.Render.State

/-! Lambdas with fixed scripts, and a host that runs them: each counts its own calls, and one may
raise the flag that cancels a render. -/
namespace Mustache

inductive Behavior
  | constant (text : String)
  | echo
  | wrap (before after : String)
  | upper
  | replicate (times : Nat)
  | fail (message : String)
  | failAfter (calls : Nat) (message : String)
  | cancel (text : String)
  | count (before after : String)
  deriving DecidableEq, Inhabited

/-- A behavior together with the label that its calls are reported under. -/
structure Script where
  label : String
  behavior : Behavior
  deriving DecidableEq, Inhabited

/-- The labels of the calls made so far, one for each, and the flag. -/
structure ScriptedState where
  calls : List Lambda
  cancelled : Bool
  deriving DecidableEq, Inhabited

/-- No calls yet, and the flag down. -/
def ScriptedState.start : ScriptedState := ⟨[], false⟩

/-- What a behavior answers to an argument, at its `nth` call. -/
def Behavior.answer (argument : String) (nth : Nat) : Behavior → Except String String
  | constant text => .ok text
  | echo => .ok argument
  | wrap before after => .ok (before ++ argument ++ after)
  | upper => .ok (String.ofList (argument.toList.map Char.toUpper))
  | replicate times => .ok (String.join (List.replicate times argument))
  | fail message => .error message
  | failAfter calls message => if calls < nth then .error message else .ok argument
  | cancel text => .ok text
  | count before after => .ok (before ++ Nat.repr nth ++ after)

/-- Whether a call raises the flag. -/
def Behavior.cancels : Behavior → Bool
  | cancel _ => true
  | constant _ | echo | wrap _ _ | upper | replicate _ | fail _ | failAfter _ _ | count _ _ => false

/-- Runs a call: a lambda is the place of its script in the list. -/
def runScript (scripts : List Script) (lambda : Lambda) (argument : String)
    (state : ScriptedState) : Except String String × ScriptedState :=
  let calls := lambda :: state.calls
  match scripts[lambda.id]? with
  | none => (.error "", ⟨calls, state.cancelled⟩)
  | some script =>
    (script.behavior.answer argument (calls.count lambda),
      ⟨calls, state.cancelled || script.behavior.cancels⟩)

/-- A host for scripts. Its flag cancels a render only where it is attached. -/
def scriptedHost (scripts : List Script) (attached : Bool) : Host ScriptedState where
  invoke := runScript scripts
  cancelled state := attached && state.cancelled

end Mustache
