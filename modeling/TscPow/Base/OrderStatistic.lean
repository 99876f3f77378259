import Mathlib

/-!
# Order statistics of a list

The element of rank `k` of a list is bounded from below by counting: it is at least `m` exactly when at most `k` elements are below `m` (`le_nth_iff`). A window of the latest values therefore has a median that never falls when the value pushed in is not below it.
-/

namespace OrderStatistic

variable {α : Type} [LinearOrder α]

def nth (l : List α) (k : Nat) (d : α) : α := (l.insertionSort (· ≤ ·)).getD k d

theorem le_getElem_iff_of_sorted {l : List α} (hsorted : l.Pairwise (· ≤ ·)) {k : Nat}
    (hk : k < l.length) (m : α) :
    m ≤ l[k] ↔ l.countP (· < m) ≤ k := by
  induction l generalizing k with
  | nil => simp at hk
  | cons a l ih =>
    obtain ⟨ha, hl⟩ := List.pairwise_cons.mp hsorted
    by_cases ham : a < m
    · rw [List.countP_cons_of_pos (by simpa using ham)]
      cases k with
      | zero => simpa using ham
      | succ k =>
        rw [List.getElem_cons_succ, ih hl (by simpa using hk)]
        omega
    · -- no element is below `m`
      have hall : ∀ b ∈ a :: l, m ≤ b := fun b hb =>
        (List.mem_cons.mp hb).elim (fun h => h ▸ not_lt.mp ham) fun h => (not_lt.mp ham).trans (ha b h)
      have hcount : (a :: l).countP (· < m) = 0 := List.countP_eq_zero.mpr fun b hb => by
        simpa using hall b hb
      rw [hcount]
      exact iff_of_true (hall _ (List.getElem_mem hk)) (Nat.zero_le k)

theorem le_nth_iff {l : List α} {k : Nat} (hk : k < l.length) (m d : α) :
    m ≤ nth l k d ↔ l.countP (· < m) ≤ k := by
  have hperm := List.perm_insertionSort (· ≤ ·) l
  have hk' : k < (l.insertionSort (· ≤ ·)).length := hperm.length_eq ▸ hk
  rw [nth, List.getD_eq_getElem _ _ hk',
    le_getElem_iff_of_sorted (List.pairwise_insertionSort _ l) hk', hperm.countP_eq]

def median (l : List α) (d : α) : α := nth l (l.length / 2) d

theorem median_le_median_push {l : List α} {span : Nat} {t d : α} (hne : l ≠ []) (hspan : l.length ≤ span)
    (ht : median l d ≤ t) : median l d ≤ median ((t :: l).take span) d := by
  have hpos := List.length_pos_of_ne_nil hne
  set m := median l d with hm
  have hcount : l.countP (· < m) ≤ l.length / 2 := (le_nth_iff (by omega) m d).mp le_rfl
  have hpush : ((t :: l).take span).countP (· < m) ≤ l.countP (· < m) := by
    calc ((t :: l).take span).countP (· < m)
      _ ≤ (t :: l).countP (· < m) := (List.take_sublist span _).countP_le
      _ = l.countP (· < m) := List.countP_cons_of_neg (by simpa using ht)
  have hlength : ((t :: l).take span).length = min span (l.length + 1) := by
    rw [List.length_take, List.length_cons]
  rw [median, le_nth_iff (by omega)]
  omega

end OrderStatistic
