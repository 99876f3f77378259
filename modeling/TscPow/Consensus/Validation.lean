import TscPow.Base.Fault

/-!
# Outcomes of validation

`CValidationState` (`consensus/validation.h`): a failed check leaves a ban score, a reject code and a reject reason. A validation function of the source either succeeds, rejects in this way, or is left by an exception or a failed assertion. Debug messages go to the log only and are not kept.
-/

namespace TscPow

def REJECT_INVALID : Nat := 0x10
def REJECT_OBSOLETE : Nat := 0x11
def REJECT_NONSTANDARD : Nat := 0x40
def REJECT_CHECKPOINT : Nat := 0x43

/-- The state after `CValidationState::DoS` or `Invalid`; `Invalid` is a ban score of zero. -/
structure Reject where
  nDoS : Nat
  chRejectCode : Nat
  strRejectReason : String
  corruptionPossible : Bool := false
deriving DecidableEq, Repr

inductive Failure
  | invalid (reject : Reject)
  | fault (fault : Fault)
deriving DecidableEq, Repr

abbrev Validation := Except Failure

def rule (c : Prop) [Decidable c] (reject : Reject) : Validation Unit :=
  Except.require c (.invalid reject)

theorem rule_eq_ok_iff {c : Prop} [Decidable c] {reject : Reject} {u : Unit} :
    rule c reject = .ok u ↔ c :=
  Except.require_eq_ok_iff

@[simp] theorem rule_pos {c : Prop} [Decidable c] {reject : Reject} (h : c) :
    rule c reject = .ok () := Except.require_pos h

theorem rule_ne_error {c : Prop} [Decidable c] {reject reject' : Reject}
    (h : reject.strRejectReason ≠ reject'.strRejectReason) :
    rule c reject ≠ .error (.invalid reject') :=
  Except.require_ne_error fun heq => h (congrArg Reject.strRejectReason (Failure.invalid.inj heq))

def asserts (c : Prop) [Decidable c] : Validation Unit := Except.require c (.fault .assertion)

theorem asserts_eq_ok_iff {c : Prop} [Decidable c] {u : Unit} : asserts c = .ok u ↔ c :=
  Except.require_eq_ok_iff

/-- A computation inside a validation function that may be left by a fault. -/
def orFault {α : Type} (x : Except Fault α) : Validation α := x.mapError .fault

theorem orFault_eq_ok_iff {α : Type} {x : Except Fault α} {a : α} : orFault x = .ok a ↔ x = .ok a := by
  cases x <;> simp [orFault, Except.mapError]

def valueOr {α : Type} (o : Option α) (failure : Failure) : Validation α := o.elim (.error failure) .ok

theorem valueOr_eq_ok_iff {α : Type} {o : Option α} {failure : Failure} {a : α} :
    valueOr o failure = .ok a ↔ o = some a := by
  cases o <;> simp [valueOr]

@[simp] theorem orFault_ok {α : Type} (a : α) : orFault (.ok a) = .ok a := rfl

end TscPow
