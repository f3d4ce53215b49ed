/-!
# Values

What expressions evaluate to. Functions, classes and instances are references into a store; two of
them are equal if they refer to the same object.
-/
namespace Lox

abbrev ScopeId := Nat
abbrev FunctionId := Nat
abbrev ClassId := Nat
abbrev InstanceId := Nat

inductive Value where
  | nil
  | bool (value : Bool)
  | number (value : Float)
  | string (text : String)
  | functionRef (id : FunctionId)
  | classRef (id : ClassId)
  | instanceRef (id : InstanceId)
  deriving Repr, Inhabited

namespace Value

/-- Everything but `nil` and `false` counts as true. -/
def isTruthy : Value → Bool
  | nil => false
  | bool value => value
  | _ => true

/-- Values of different kinds are never equal; numbers compare as doubles, so a value that is not
a number differs from itself. -/
def equals : Value → Value → Bool
  | nil, nil => true
  | bool a, bool b => a == b
  | number a, number b => a == b
  | string a, string b => a == b
  | functionRef a, functionRef b => a == b
  | classRef a, classRef b => a == b
  | instanceRef a, instanceRef b => a == b
  | _, _ => false

end Value
end Lox
