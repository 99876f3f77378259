import Mathlib

/-!
# Histories of a store with pending writes

Values are added under keys; an added value is pending until it is committed, and is lost when the pending values are cleared first. `latest` says of a history which value a key has: the one of the latest addition that was neither cleared before it was committed nor deleted later. Run forward, it is enough to keep one pending and one committed value for a key (`value_foldl_act`).
-/

namespace WriteBack

inductive Action (κ α : Type)
  | add (key : κ) (value : α)
  | get (key : κ)
  | delete (keys : List κ)
  | commit
  | clear
deriving DecidableEq

variable {κ α : Type} [DecidableEq κ] {k : κ} {a : α}

/-- What is pending before these actions is cleared before it is committed. -/
def cleared : List (Action κ α) → Bool
  | [] => false
  | .commit :: _ => false
  | .clear :: _ => true
  | .add _ _ :: later => cleared later
  | .get _ :: later => cleared later
  | .delete _ :: later => cleared later

def deleted (k : κ) : List (Action κ α) → Bool
  | [] => false
  | .delete keys :: later => decide (k ∈ keys) || deleted k later
  | .add _ _ :: later => deleted k later
  | .get _ :: later => deleted k later
  | .commit :: later => deleted k later
  | .clear :: later => deleted k later

/-- The value of the latest addition for the key that was neither cleared before it was committed nor deleted later. -/
def latest (k : κ) : List (Action κ α) → Option α
  | [] => none
  | .add key value :: later =>
    (latest k later).or
      (if key = k ∧ cleared later = false ∧ deleted k later = false then some value else none)
  | .get _ :: later => latest k later
  | .delete _ :: later => latest k later
  | .commit :: later => latest k later
  | .clear :: later => latest k later

/-- An addition is made only for a key that has no value, or has the same value already. -/
def AddsWhenFree (history : List (Action κ α)) : Prop :=
  ∀ before k a after, history = before ++ .add k a :: after → latest k before = none ∨
    latest k before = some a

theorem AddsWhenFree.left {before after : List (Action κ α)} (h : AddsWhenFree (before ++ after)) :
    AddsWhenFree before := by
  intro earlier k a rest hsplit
  apply h earlier k a (rest ++ after)
  rw [hsplit, List.append_assoc, List.cons_append]

theorem AddsWhenFree.nil : AddsWhenFree ([] : List (Action κ α)) := by
  intro before k a after hsplit
  simp at hsplit

theorem AddsWhenFree.concat {history : List (Action κ α)} {action : Action κ α} (h : AddsWhenFree history)
    (hlast : ∀ k a, action = .add k a → latest k history = none ∨ latest k history = some a) :
    AddsWhenFree (history ++ [action]) := by
  intro before k a after hsplit
  rcases List.eq_nil_or_concat after with rfl | ⟨after, last, rfl⟩
  · obtain ⟨rfl, haction⟩ := List.append_inj' hsplit rfl
    exact hlast k a (List.singleton_inj.mp haction)
  · rw [List.concat_eq_append, ← List.cons_append, ← List.append_assoc] at hsplit
    exact h before k a after (List.append_inj' hsplit rfl).1

/-! ### One key, run forward -/

/-- The pending and the committed value of a key. -/
structure Cell (α : Type) where
  pending : Option α
  committed : Option α

namespace Cell

def empty : Cell α := ⟨none, none⟩

def value (c : Cell α) : Option α := c.pending.or c.committed

def act (k : κ) (c : Cell α) : Action κ α → Cell α
  | .add key value => if key = k then { c with pending := some value } else c
  | .get _ => c
  | .delete keys => if k ∈ keys then empty else c
  | .commit => ⟨none, c.value⟩
  | .clear => { c with pending := none }

theorem value_foldl_act (history : List (Action κ α)) (c : Cell α) :
    (history.foldl (act k) c).value = (latest k history).or
      ((if cleared history || deleted k history then none else c.pending).or
        (if deleted k history then none else c.committed)) := by
  induction history generalizing c with
  | nil => simp [latest, cleared, deleted, value]
  | cons action later ih =>
    rw [List.foldl_cons, ih]
    cases action with
    | add key a =>
      by_cases hkey : key = k <;> cases hcleared : cleared later <;> cases hdeleted : deleted k later <;>
        simp [latest, cleared, deleted, act, hkey, hcleared, hdeleted]
    | get key => rfl
    | delete keys => by_cases hmem : k ∈ keys <;> simp [latest, cleared, deleted, act, hmem, empty]
    | commit => cases hdeleted : deleted k later <;> simp [latest, cleared, deleted, act, hdeleted, value]
    | clear => cases hdeleted : deleted k later <;> simp [latest, cleared, deleted, act, hdeleted]

def after (k : κ) (history : List (Action κ α)) : Cell α := history.foldl (act k) empty

theorem value_after (history : List (Action κ α)) : (after k history).value = latest k history := by
  rw [after, value_foldl_act]
  simp [empty]

theorem after_concat (history : List (Action κ α)) (action : Action κ α) :
    after k (history ++ [action]) = (after k history).act k action := by
  rw [after, List.foldl_concat]
  rfl

end Cell

end WriteBack
