import Mathlib

/-!
# Sums over the values of a map

A map is a finite set of keys with a value for each key. A counter that is kept beside the map is a sum over its values; this is the rule for replacing a value. For adding a key and for taking one out, `Finset.sum_insert` and `Finset.add_sum_erase` do.
-/

namespace Tally

variable {ι α M : Type} [DecidableEq ι] [AddCommMonoid M] (f : α → M) (value : ι → α)
  {keys : Finset ι} {i : ι}

theorem sum_update (hi : i ∈ keys) (a : α) :
    ∑ j ∈ keys, f (Function.update value i a j) + f (value i) = ∑ j ∈ keys, f (value j) + f a := by
  have hrest : ∑ j ∈ keys.erase i, f (Function.update value i a j) = ∑ j ∈ keys.erase i, f (value j) := by
    refine Finset.sum_congr rfl fun j hj => ?_
    rw [Function.update_of_ne (Finset.ne_of_mem_erase hj)]
  rw [← Finset.add_sum_erase _ _ hi, ← Finset.add_sum_erase _ (fun j => f (value j)) hi, hrest,
    Function.update_self]
  abel

end Tally
