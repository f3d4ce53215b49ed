/-!
# Faults

What cannot happen if each pass keeps its promises to the next: a read outside of the tokens, a
distance that leads past the outermost scope, a missing object. A fault ends a run at once and is
not an error of the program text.
-/
namespace Lox

/-- A broken promise between the passes. -/
inductive Fault where
  /-- The token after the last one is asked for. -/
  | pastLastToken
  /-- The token before the first one is asked for. -/
  | beforeFirstToken
  /-- A recorded distance leads past the outermost scope. -/
  | noSuchScope
  /-- There is no class under `super` at the recorded distance. -/
  | noSuperclass
  /-- There is no instance under `this` next to `super`. -/
  | noReceiver
  /-- A value refers to an object that the store does not have. -/
  | noSuchObject
  deriving DecidableEq, Repr

end Lox
