import Mathlib

/-!
# Undo logs

A state that keeps a log of its changes, the latest first, goes back to an earlier point by undoing the changes made since. `Extends` says that one state comes from another by logged changes whose undoing gives the first back, up to a relation that the changes do not see through. It composes, so a long computation can be taken back as soon as each of its steps can.
-/

namespace Journal

variable {σ χ : Type*} (undo : σ → χ → σ) (log : σ → List χ) (r : σ → σ → Prop)

def since (savepoint : Nat) (s : σ) : List χ := (log s).take ((log s).length - savepoint)

/-- Undoes the changes made since the log had `savepoint` entries. -/
def takeBack (savepoint : Nat) (s : σ) : σ := (since log savepoint s).foldl undo s

/-- The log of `t` has changes on top of the log of `s`, and undoing them leads back to `s`. -/
def Extends (s t : σ) : Prop := ∃ cs, log t = cs ++ log s ∧ r (cs.foldl undo t) s

variable {undo log r} {s t u : σ}

theorem Extends.of_rel (hlog : log t = log s) (h : r t s) : Extends undo log r s t := ⟨[], hlog, h⟩

theorem Extends.change {c : χ} (hlog : log t = c :: log s) (h : r (undo t c) s) :
    Extends undo log r s t := ⟨[c], hlog, h⟩

theorem rel_foldl (hundo : ∀ s t c, r s t → r (undo s c) (undo t c)) (h : r s t) (cs : List χ) :
    r (cs.foldl undo s) (cs.foldl undo t) := by
  induction cs generalizing s t with
  | nil => exact h
  | cons c cs ih => exact ih (hundo s t c h)

theorem Extends.trans [IsTrans σ r] (hundo : ∀ s t c, r s t → r (undo s c) (undo t c))
    (h : Extends undo log r s t) (h' : Extends undo log r t u) : Extends undo log r s u := by
  obtain ⟨cs, hlog, hs⟩ := h
  obtain ⟨cs', hlog', ht⟩ := h'
  refine ⟨cs' ++ cs, by rw [hlog', hlog, List.append_assoc], ?_⟩
  rw [List.foldl_append]
  exact IsTrans.trans _ _ _ (rel_foldl hundo ht cs) hs

theorem since_of_append {cs : List χ} (hlog : log t = cs ++ log s) : since log (log s).length t = cs := by
  rw [since, hlog, List.length_append, Nat.add_sub_cancel, List.take_left]

theorem Extends.takeBack (h : Extends undo log r s t) : r (takeBack undo log (log s).length t) s := by
  obtain ⟨cs, hlog, hs⟩ := h
  rwa [Journal.takeBack, since_of_append hlog]

end Journal
