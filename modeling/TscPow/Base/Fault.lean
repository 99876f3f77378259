import TscPow.Base.Except

/-!
# Outcomes of a C++ computation

A modelled function that the source can leave other than by returning has results in `Except Fault`. The three ways out are kept apart, so that a statement that a function returns says that none of them is taken.
-/

/-- Why a computation did not return a value: a thrown exception, a failed assertion, or behaviour the language leaves undefined (a null dereference, a read outside an object, an uninitialised value, a signed overflow, a stack that is used up). -/
inductive Fault
  | exception (what : String)
  | assertion
  | undefined
deriving DecidableEq, Repr
