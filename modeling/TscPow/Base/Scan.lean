import Mathlib

/-!
# Scans of an ordered key space

A cursor over values in the order of their keys is put at the first key that is not below a start, and moves on while the values satisfy a condition. If the condition holds from the start on up to some key, and nowhere else, then the scan is a filter (`scan_eq_filter`). In the lexicographic order this is the case for the keys that begin with the start (`prefix_of_le_of_le`).
-/

namespace Scan

variable {α κ : Type} [LinearOrder κ] {key : α → κ} {start : κ} {values : List α} {p : α → Bool} {a : α}

theorem takeWhile_eq_filter (hclosed : values.Pairwise fun a b => p b → p a) :
    values.takeWhile p = values.filter p := by
  induction values with
  | nil => rfl
  | cons b rest ih =>
    obtain ⟨hb, hrest⟩ := List.pairwise_cons.mp hclosed
    rw [List.takeWhile_cons, List.filter_cons]
    split
    · rw [ih hrest]
    · rename_i hp
      exact (List.filter_eq_nil_iff.mpr fun a ha hpa => hp (hb a ha hpa)).symm

def seek (key : α → κ) (start : κ) (values : List α) : List α :=
  values.dropWhile fun b => decide (key b < start)

theorem seek_eq_filter (hsorted : values.Pairwise fun a b => key a ≤ key b) :
    seek key start values = values.filter fun b => decide (start ≤ key b) := by
  induction values with
  | nil => rfl
  | cons b rest ih =>
    obtain ⟨hb, hrest⟩ := List.pairwise_cons.mp hsorted
    rw [seek, List.dropWhile_cons]
    split
    · rename_i hlt
      rw [← seek, ih hrest, List.filter_cons_of_neg (by simpa using hlt)]
    · rename_i hlt
      have hle : start ≤ key b := not_lt.mp fun h => hlt (decide_eq_true h)
      refine (List.filter_eq_self.mpr (List.forall_mem_cons.mpr ⟨?_, ?_⟩)).symm
      · exact decide_eq_true hle
      · intro a ha
        exact decide_eq_true (hle.trans (hb a ha))

theorem mem_seek_iff (hsorted : values.Pairwise fun a b => key a ≤ key b) :
    a ∈ seek key start values ↔ a ∈ values ∧ start ≤ key a := by
  rw [seek_eq_filter hsorted, List.mem_filter, decide_eq_true_eq]

theorem scan_eq_filter (hsorted : values.Pairwise fun a b => key a ≤ key b)
    (hstart : ∀ a, p a → start ≤ key a)
    (hclosed : ∀ a b, start ≤ key a → key a ≤ key b → p b → p a) :
    (seek key start values).takeWhile p = values.filter p := by
  have hsought : (seek key start values).Pairwise fun a b => key a ≤ key b :=
    hsorted.sublist (List.dropWhile_sublist _)
  rw [takeWhile_eq_filter, seek_eq_filter hsorted, List.filter_filter]
  · refine List.filter_congr fun a _ => ?_
    cases hp : p a with
    | false => rfl
    | true => exact decide_eq_true (hstart a hp)
  · refine hsought.imp_of_mem ?_
    intro b c hb _ hle
    exact hclosed b c ((mem_seek_iff hsorted).mp hb).2 hle

theorem mem_scan_iff (hsorted : values.Pairwise fun a b => key a ≤ key b)
    (hstart : ∀ a, p a → start ≤ key a)
    (hclosed : ∀ a b, start ≤ key a → key a ≤ key b → p b → p a) :
    a ∈ (seek key start values).takeWhile p ↔ a ∈ values ∧ p a := by
  rw [scan_eq_filter hsorted hstart hclosed, List.mem_filter]

theorem prefix_of_le_of_le {word between rest : List κ} (hle : word ≤ between)
    (hext : between ≤ word ++ rest) : word <+: between := by
  induction word generalizing between with
  | nil => exact List.nil_prefix
  | cons first word ih =>
    cases between with
    | nil => exact absurd List.Lex.nil hle.not_gt
    | cons second between =>
      have hfirst : first ≤ second := not_lt.mp fun h => hle.not_gt (List.Lex.rel h)
      have hsecond : second ≤ first := not_lt.mp fun h => hext.not_gt (List.Lex.rel h)
      obtain rfl := le_antisymm hfirst hsecond
      have htail : word ≤ between := not_lt.mp fun h => hle.not_gt (List.Lex.cons h)
      have hrest : between ≤ word ++ rest := not_lt.mp fun h => hext.not_gt (List.Lex.cons h)
      exact List.cons_prefix_cons.mpr ⟨rfl, ih htail hrest⟩

theorem le_of_prefix {word long : List κ} (h : word <+: long) : word ≤ long := by
  obtain ⟨rest, rfl⟩ := h
  induction word with
  | nil => exact not_lt.mp (List.not_lt_nil rest)
  | cons first word ih => exact List.cons_le_cons first ih

end Scan
