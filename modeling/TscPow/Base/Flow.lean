import Mathlib

/-!
# Moving amounts between parties

A list of moves, each with a party and an amount. What a party gets (or gives) is the total of the moves it is the party of. Summed up over a list of parties that has every party of the moves once, the totals are the total of all amounts; so parties that exchange amounts with each other hold as much after the exchange as before.
-/

namespace Flow

variable {ι τ M : Type} [DecidableEq ι]

section

variable [AddCommMonoid M]

def total (party : τ → ι) (amount : τ → M) (moves : List τ) (i : ι) : M :=
  (moves.map fun t => if party t = i then amount t else 0).sum

@[simp] theorem total_nil (party : τ → ι) (amount : τ → M) (i : ι) : total party amount [] i = 0 := rfl

@[simp] theorem total_cons (party : τ → ι) (amount : τ → M) (t : τ) (moves : List τ) (i : ι) :
    total party amount (t :: moves) i =
      (if party t = i then amount t else 0) + total party amount moves i := by
  rw [total, List.map_cons, List.sum_cons, ← total]

theorem sum_map_ite {parties : List ι} (hnodup : parties.Nodup) {i : ι} (hi : i ∈ parties) (m : M) :
    (parties.map fun j => if i = j then m else 0).sum = m := by
  induction parties with
  | nil => cases hi
  | cons j parties ih =>
    obtain ⟨hj, hnodup⟩ := List.nodup_cons.mp hnodup
    rw [List.map_cons, List.sum_cons]
    by_cases hij : i = j
    · have hzero : (parties.map fun k => if i = k then m else 0).sum = 0 := by
        apply List.sum_eq_zero
        intro x hx
        obtain ⟨k, hk, rfl⟩ := List.mem_map.mp hx
        apply if_neg
        intro hik
        exact hj (hij ▸ hik ▸ hk)
      rw [if_pos hij, hzero, add_zero]
    · rw [if_neg hij, zero_add, ih hnodup ((List.mem_cons.mp hi).resolve_left hij)]

theorem sum_total {parties : List ι} (hnodup : parties.Nodup) {party : τ → ι} (amount : τ → M)
    {moves : List τ} (hparties : ∀ t ∈ moves, party t ∈ parties) :
    (parties.map (total party amount moves)).sum = (moves.map amount).sum := by
  induction moves with
  | nil =>
    apply List.sum_eq_zero
    intro x hx
    obtain ⟨i, _, rfl⟩ := List.mem_map.mp hx
    rfl
  | cons t moves ih =>
    rw [List.forall_mem_cons] at hparties
    have hsplit : total party amount (t :: moves) = fun i =>
        (if party t = i then amount t else 0) + total party amount moves i := by
      funext i
      exact total_cons party amount t moves i
    rw [hsplit, List.sum_map_add, sum_map_ite hnodup hparties.1, ih hparties.2, List.map_cons,
      List.sum_cons]

end

theorem sum_conserved {parties : List ι} (hnodup : parties.Nodup) {giver receiver : τ → ι}
    {amount : τ → Nat} {moves : List τ} (hgivers : ∀ t ∈ moves, giver t ∈ parties)
    (hreceivers : ∀ t ∈ moves, receiver t ∈ parties) {before after : ι → Nat}
    (h : ∀ i ∈ parties,
      after i + total giver amount moves i = before i + total receiver amount moves i) :
    (parties.map after).sum = (parties.map before).sum := by
  have hsum : (parties.map fun i => after i + total giver amount moves i).sum =
      (parties.map fun i => before i + total receiver amount moves i).sum := by
    rw [List.map_congr_left h]
  rw [List.sum_map_add, List.sum_map_add, sum_total hnodup amount hgivers,
    sum_total hnodup amount hreceivers] at hsum
  exact Nat.add_right_cancel hsum

end Flow
