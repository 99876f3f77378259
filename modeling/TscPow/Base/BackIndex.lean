import Mathlib

/-!
# Lists with back-indices

A list has a slot for each of a set of keys, and every key remembers the position of its slot. A key is added at the end. A key is removed by moving the last slot to its position. Both keep the positions right (`Indexed.push`, `Indexed.swapRemove`).
-/

namespace BackIndex

variable {κ ν : Type}

/-- The list has exactly one slot for each live key, at the position that the key remembers. -/
structure Indexed (live : Set κ) (value : κ → ν) (slots : List (ν × κ)) (position : κ → Nat) : Prop where
  slot : ∀ i v k, slots[i]? = some (v, k) → k ∈ live ∧ v = value k ∧ position k = i
  back : ∀ k ∈ live, slots[position k]? = some (value k, k)

variable {live : Set κ} {value value' : κ → ν} {slots : List (ν × κ)} {position : κ → Nat} {k : κ}

theorem indexed_nil (value : κ → ν) (position : κ → Nat) : Indexed ∅ value [] position :=
  ⟨fun _ _ _ h => by simp at h, fun _ h => absurd h (Set.notMem_empty _)⟩

theorem Indexed.slots_eq_nil_iff (h : Indexed live value slots position) : slots = [] ↔ live = ∅ := by
  constructor
  · rintro rfl
    refine Set.eq_empty_of_forall_notMem fun k hk => ?_
    have hback := h.back k hk
    simp at hback
  · rintro rfl
    refine List.eq_nil_iff_forall_not_mem.mpr fun x hx => ?_
    obtain ⟨i, hi⟩ := List.mem_iff_getElem?.mp hx
    exact (h.slot i x.1 x.2 hi).1

theorem Indexed.congr (h : Indexed live value slots position)
    (hvalue : ∀ k ∈ live, value' k = value k) : Indexed live value' slots position := by
  refine ⟨fun i v k hi => ?_, fun k hk => ?_⟩
  · obtain ⟨hk, hv, hposition⟩ := h.slot i v k hi
    exact ⟨hk, hv.trans (hvalue k hk).symm, hposition⟩
  · rw [hvalue k hk]
    exact h.back k hk

variable [DecidableEq κ]

theorem Indexed.push (h : Indexed live value slots position) (hk : k ∉ live) :
    Indexed (insert k live) value (slots ++ [(value k, k)])
      (Function.update position k slots.length) := by
  have hne : ∀ x ∈ live, x ≠ k := fun x hx heq => hk (heq ▸ hx)
  refine ⟨fun i v x hi => ?_, fun x hx => ?_⟩
  · rcases Nat.lt_trichotomy i slots.length with hlt | rfl | hgt
    · rw [List.getElem?_append_left hlt] at hi
      obtain ⟨hx, hv, hposition⟩ := h.slot i v x hi
      exact ⟨Set.mem_insert_of_mem k hx, hv, by rw [Function.update_of_ne (hne x hx), hposition]⟩
    · rw [List.getElem?_concat_length] at hi
      obtain ⟨rfl, rfl⟩ := Prod.mk.inj (Option.some.inj hi)
      exact ⟨Set.mem_insert _ _, rfl, Function.update_self _ _ _⟩
    · rw [List.getElem?_eq_none (by rw [List.length_append, List.length_singleton]; omega)] at hi
      cases hi
  · rcases Set.mem_insert_iff.mp hx with rfl | hx
    · rw [Function.update_self, List.getElem?_concat_length]
    · have hback := h.back x hx
      rw [Function.update_of_ne (hne x hx),
        List.getElem?_append_left (List.getElem?_eq_some_iff.mp hback).1]
      exact hback

theorem Indexed.swapRemove (h : Indexed live value slots position) (hk : k ∈ live) {last : ν × κ}
    (hlast : slots.getLast? = some last) :
    Indexed (live \ {k}) value (slots.set (position k) last).dropLast
      (Function.update position last.2 (position k)) := by
  have hend : slots[slots.length - 1]? = some last := by rw [← List.getLast?_eq_getElem?, hlast]
  obtain ⟨hlastLive, hlastValue, hlastPosition⟩ := h.slot _ last.1 last.2 hend
  have hback := h.back k hk
  have hlt := (List.getElem?_eq_some_iff.mp hback).1
  -- the keys of two slots differ
  have hsame : ∀ x ∈ live, position x = position k → x = k := by
    intro x hx heq
    have hx' := h.back x hx
    rw [heq, hback] at hx'
    exact (Prod.mk.inj (Option.some.inj hx')).2.symm
  have hget : ∀ i, i < slots.length - 1 → (slots.set (position k) last).dropLast[i]? =
      if position k = i then some last else slots[i]? := by
    intro i hi
    rw [List.getElem?_dropLast, List.length_set, if_pos hi, List.getElem?_set]
    simp only [hlt, if_true]
  refine ⟨fun i v x hi => ?_, fun x hx => ?_⟩
  · have hi' : i < slots.length - 1 := by
      have hlength := (List.getElem?_eq_some_iff.mp hi).1
      rwa [List.length_dropLast, List.length_set] at hlength
    rw [hget i hi'] at hi
    split at hi
    · rename_i heq
      obtain rfl := Option.some.inj hi
      refine ⟨⟨hlastLive, ?_⟩, hlastValue, by rw [Function.update_self, heq]⟩
      rintro rfl
      dsimp only at hlastPosition
      omega
    · rename_i hne
      obtain ⟨hx, hv, hposition⟩ := h.slot i v x hi
      refine ⟨⟨hx, ?_⟩, hv, ?_⟩
      · rintro rfl
        exact hne hposition
      · rw [Function.update_of_ne, hposition]
        rintro rfl
        omega
  · obtain ⟨hx, hxk⟩ := hx
    have hxback := h.back x hx
    have hxlt := (List.getElem?_eq_some_iff.mp hxback).1
    by_cases hxlast : x = last.2
    · subst hxlast
      have hposition : position k < slots.length - 1 := by
        rcases Nat.lt_or_ge (position k) (slots.length - 1) with hlt' | hge
        · exact hlt'
        · exact absurd (hsame _ hx (by omega)) hxk
      rw [Function.update_self, hget _ hposition, if_pos rfl, ← hlastValue]
    · have hposition : position x < slots.length - 1 := by
        rcases Nat.lt_or_ge (position x) (slots.length - 1) with hlt' | hge
        · exact hlt'
        · have heq : position x = slots.length - 1 := by omega
          rw [heq, hend] at hxback
          exact absurd (congrArg Prod.snd (Option.some.inj hxback)).symm hxlast
      rw [Function.update_of_ne hxlast, hget _ hposition, if_neg fun heq => hxk (hsame x hx heq.symm)]
      exact hxback

end BackIndex
