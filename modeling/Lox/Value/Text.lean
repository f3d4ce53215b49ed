import Lox.Number.Text
import Lox.Store

/-!
# Texts of values

What `print` writes for a value, and the longer description that shows what an object is made of.
-/
namespace Lox

/-- Numbers are written with their shortest digits, whole ones without a fraction. An exponent is
written below a thousandth and from ten millions on; the digits before it then have a fraction. -/
def Value.numberStyle : Number.Style where
  infinity := "Infinity"
  tie := .upward
  signedZero := true
  allDigits _ := false
  positional exponent := -3 ≤ exponent ∧ exponent < 7
  wholeFraction := false
  mark := "E"
  plus := ""
  mantissaFraction := true

/-- A text in quotes, as it stands in a description. -/
def quoted (text : String) : String := "\"" ++ text ++ "\""

/-- The names in alphabetical order, in quotes and brackets. -/
def quotedNames (names : List String) : String :=
  "[" ++ ", ".intercalate ((names.mergeSort (· ≤ ·)).map quoted) ++ "]"

/-- A description: a heading and the fields of an object in braces. -/
def described (heading : String) (fields : List (String × String)) : String :=
  heading ++ " \x7b " ++ ", ".intercalate (fields.map fun (name, value) => name ++ ": " ++ value) ++
    " \x7d"

namespace FunctionObject

def name (function : FunctionObject) : String := function.declaration.name.text

def description (function : FunctionObject) : String :=
  described "LoxFunction"
    [("name", quoted function.name), ("arity", toString function.declaration.arity),
      ("is_initializer", toString function.isInitializer)]

end FunctionObject

namespace Store

def functionName (store : Store) (id : FunctionId) : String :=
  (store.functions[id]?.map (·.name)).getD ""

def className (store : Store) (id : ClassId) : String :=
  (store.classes[id]?.map (·.name)).getD ""

/-- The name of the class of an instance. -/
def instanceClassName (store : Store) (id : InstanceId) : String :=
  (store.instances[id]?.map fun o => store.className o.classId).getD ""

def describeClass (store : Store) (classObject : ClassObject) : String :=
  let superclass :=
    match classObject.superclass with
    | some superclass => "Some(" ++ quoted (store.className superclass) ++ ")"
    | none => "None"
  described "LoxClass"
    [("name", quoted classObject.name), ("superclass", superclass),
      ("methods", quotedNames classObject.methods.names)]

def describeInstance (store : Store) (instanceObject : InstanceObject) : String :=
  described "LoxInstance"
    [("class", quoted (store.className instanceObject.classId)),
      ("fields", quotedNames instanceObject.fields.names)]

/-- What `print` writes. -/
def display (store : Store) : Value → String
  | .nil => "nil"
  | .bool value => if value then "true" else "false"
  | .number value => Value.numberStyle.write value
  | .string text => text
  | .functionRef id => "<fn " ++ store.functionName id ++ ">"
  | .classRef id => store.className id
  | .instanceRef id => store.instanceClassName id ++ " instance"

/-- What a function, a class or an instance is made of; other values have no description. -/
def describe? (store : Store) : Value → Option String
  | .functionRef id => store.functions[id]?.map fun f => "Function(" ++ f.description ++ ")"
  | .classRef id => store.classes[id]?.map fun c => "Class(" ++ store.describeClass c ++ ")"
  | .instanceRef id => store.instances[id]?.map store.describeInstance
  | _ => none

/-- The number of arguments that a function or a class takes. -/
def arity? (store : Store) : Value → Option Nat
  | .functionRef id => store.functions[id]?.map (·.declaration.arity)
  | .classRef id => store.classes[id]?.map fun _ => store.classArity id
  | _ => none

end Store
end Lox
