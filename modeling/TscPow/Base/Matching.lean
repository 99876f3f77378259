import Mathlib

/-!
# Ordered matchings

An assignment of the elements of one list to later and later elements of another. A scan through the second list that gives each element of the first the next one it goes with finds an assignment if there is any: the first possible choice leaves the most to the others.
-/

namespace List

variable {α β : Type} {R : α → β → Prop} {a : α} {b : β} {l₁ : List α} {l₂ : List β}

/-- The assignment keeps the order, and so no two elements have the same image. -/
def Matches (R : α → β → Prop) (l₁ : List α) (l₂ : List β) : Prop :=
  ∃ f : Fin l₁.length → Fin l₂.length, StrictMono f ∧ ∀ i, R (l₁.get i) (l₂.get (f i))

theorem matches_iff_sublistForall₂ : Matches R l₁ l₂ ↔ SublistForall₂ R l₁ l₂ := by
  rw [sublistForall₂_iff]
  constructor
  · intro ⟨f, hmono, hR⟩
    refine ⟨List.ofFn fun i => l₂.get (f i), ?_, ?_⟩
    · rw [forall₂_iff_get]
      refine ⟨by simp, ?_⟩
      intro i h₁ h₂
      simpa using hR ⟨i, h₁⟩
    · rw [sublist_iff_exists_fin_orderEmbedding_get_eq]
      refine ⟨(Fin.castOrderIso (by simp)).toOrderEmbedding.trans
        (OrderEmbedding.ofStrictMono f hmono), ?_⟩
      intro i
      rw [get_ofFn]
      rfl
  · intro ⟨l, hall, hsub⟩
    obtain ⟨hlength, hR⟩ := forall₂_iff_get.mp hall
    obtain ⟨f, hf⟩ := sublist_iff_exists_fin_orderEmbedding_get_eq.mp hsub
    refine ⟨fun i => f (Fin.cast hlength i), fun i j hij => f.strictMono (by simpa using hij), ?_⟩
    intro i
    rw [← hf]
    exact hR i i.2 (hlength ▸ i.2)

theorem matches_nil : Matches R [] l₂ := matches_iff_sublistForall₂.mpr .nil

theorem Matches.length_le (h : Matches R l₁ l₂) : l₁.length ≤ l₂.length := by
  obtain ⟨f, hmono, -⟩ := h
  simpa using Fintype.card_le_of_injective f hmono.injective

theorem Matches.of_cons (h : Matches R (a :: l₁) l₂) : Matches R l₁ l₂ := by
  obtain ⟨f, hmono, hR⟩ := h
  exact ⟨fun i => f i.succ, fun i j hij => hmono (Fin.succ_lt_succ_iff.mpr hij), fun i => hR i.succ⟩

theorem matches_cons_of_pos (h : R a b) : Matches R (a :: l₁) (b :: l₂) ↔ Matches R l₁ l₂ := by
  constructor
  · intro hm
    cases matches_iff_sublistForall₂.mp hm with
    | cons _ hrest => exact matches_iff_sublistForall₂.mpr hrest
    -- the first element was given a later one, which the others then do without
    | cons_right hrest => exact (matches_iff_sublistForall₂.mpr hrest).of_cons
  · intro hm
    exact matches_iff_sublistForall₂.mpr (.cons h (matches_iff_sublistForall₂.mp hm))

theorem matches_cons_of_neg (h : ¬ R a b) : Matches R (a :: l₁) (b :: l₂) ↔ Matches R (a :: l₁) l₂ := by
  rw [matches_iff_sublistForall₂, matches_iff_sublistForall₂]
  constructor
  · intro hm
    cases hm with
    | cons hR _ => exact absurd hR h
    | cons_right hrest => exact hrest
  · exact .cons_right

end List
