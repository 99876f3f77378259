import Mathlib

/-!
# Reasoning about fallible computations

Inversion rules for `Except`: what the success of a sequence, of a guard and of a fold says about its parts. A proof about a function written in `do` notation takes it apart with these rules, one statement at a time, and never unfolds `bind`.
-/

namespace Except

variable {ε α β σ : Type}

theorem bind_eq_ok_iff {x : Except ε α} {f : α → Except ε β} {b : β} :
    x >>= f = .ok b ↔ ∃ a, x = .ok a ∧ f a = .ok b := by
  cases x with
  | error e => simp [bind, Except.bind]
  | ok a => simp [bind, Except.bind]

theorem pure_eq_ok_iff {a b : α} : (pure a : Except ε α) = .ok b ↔ a = b := by
  simp [pure, Except.pure]

theorem map_eq_ok_iff {x : Except ε α} {f : α → β} {b : β} :
    (f <$> x : Except ε β) = .ok b ↔ ∃ a, x = .ok a ∧ f a = b := by
  cases x with
  | error e => simp [Functor.map, Except.map]
  | ok a => simp [Functor.map, Except.map]

theorem ok_bind (a : α) (f : α → Except ε β) : (.ok a : Except ε α) >>= f = f a := rfl

theorem error_bind (e : ε) (f : α → Except ε β) : (.error e : Except ε α) >>= f = .error e := rfl

theorem exists_of_isOk {x : Except ε α} (h : x.isOk = true) : ∃ a, x = .ok a := by
  cases x with
  | error e => simp [Except.isOk, Except.toBool] at h
  | ok a => exact ⟨a, rfl⟩

def require (c : Prop) [Decidable c] (e : ε) : Except ε Unit := if c then .ok () else .error e

theorem require_eq_ok_iff {c : Prop} [Decidable c] {e : ε} {u : Unit} : require c e = .ok u ↔ c := by
  rw [require]
  split <;> simp_all

@[simp] theorem require_pos {c : Prop} [Decidable c] {e : ε} (h : c) : require c e = .ok () := if_pos h

theorem bind_ne_error {x : Except ε α} {f : α → Except ε β} {e : ε} (hx : x ≠ .error e)
    (hf : ∀ a, f a ≠ .error e) :
    x >>= f ≠ .error e := by
  cases x with
  | error e' => exact fun h => hx (congrArg Except.error (Except.error.inj h))
  | ok a => exact hf a

theorem pure_ne_error {a : α} {e : ε} : (pure a : Except ε α) ≠ .error e := nofun

theorem require_ne_error {c : Prop} [Decidable c] {e e' : ε} (h : e ≠ e') : require c e ≠ .error e' := by
  rw [require]
  split
  · nofun
  · exact fun heq => h (Except.error.inj heq)

theorem forM_eq_ok_iff {f : α → Except ε Unit} {as : List α} :
    as.forM f = .ok () ↔ ∀ a ∈ as, f a = .ok () := by
  induction as with
  | nil => exact iff_of_true rfl (by simp)
  | cons a as ih =>
    rw [List.forall_mem_cons, ← ih]
    change (f a >>= fun _ => as.forM f) = .ok () ↔ _
    rw [bind_eq_ok_iff]
    exact ⟨fun ⟨_, ha, hrest⟩ => ⟨ha, hrest⟩, fun ⟨ha, hrest⟩ => ⟨(), ha, hrest⟩⟩

theorem mapM_eq_ok_of_forall {f : α → Except ε β} {g : α → β} {as : List α}
    (h : ∀ a ∈ as, f a = .ok (g a)) : as.mapM f = .ok (as.map g) := by
  induction as with
  | nil => rfl
  | cons a as ih =>
    obtain ⟨ha, has⟩ := List.forall_mem_cons.mp h
    rw [List.mapM_cons, ha, ih has]
    rfl

/-! ### Folds -/

variable {f : σ → α → Except ε σ}

theorem foldlM_cons_eq_ok_iff {a : α} {as : List α} {s t : σ} :
    (a :: as).foldlM f s = .ok t ↔ ∃ s', f s a = .ok s' ∧ as.foldlM f s' = .ok t := by
  rw [List.foldlM_cons, bind_eq_ok_iff]

theorem foldlM_append_eq_ok_iff {as bs : List α} {s t : σ} :
    (as ++ bs).foldlM f s = .ok t ↔ ∃ s', as.foldlM f s = .ok s' ∧ bs.foldlM f s' = .ok t := by
  rw [List.foldlM_append, bind_eq_ok_iff]

theorem foldlM_congr {g : σ → α → Except ε σ} {as : List α} (h : ∀ a ∈ as, ∀ s, f s a = g s a)
    (s : σ) : as.foldlM f s = as.foldlM g s := by
  induction as generalizing s with
  | nil => rfl
  | cons a as ih =>
    have hrest : (fun s' => as.foldlM f s') = fun s' => as.foldlM g s' := by
      funext s'
      exact ih (fun b hb => h b (List.mem_cons_of_mem _ hb)) s'
    rw [List.foldlM_cons, List.foldlM_cons, h a List.mem_cons_self, hrest]

theorem foldlM_step {as : List α} {s t : σ} {i : Nat} {a : α} (hfold : as.foldlM f s = .ok t)
    (hi : as[i]? = some a) :
    ∃ s' s'', (as.take i).foldlM f s = .ok s' ∧ f s' a = .ok s'' ∧
      (as.drop (i + 1)).foldlM f s'' = .ok t := by
  obtain ⟨hlt, ha⟩ := List.getElem?_eq_some_iff.mp hi
  rw [← List.take_append_drop i as, foldlM_append_eq_ok_iff] at hfold
  obtain ⟨s', hprefix, hrest⟩ := hfold
  rw [List.drop_eq_getElem_cons hlt, ha, foldlM_cons_eq_ok_iff] at hrest
  obtain ⟨s'', hstep, hrest⟩ := hrest
  exact ⟨s', s'', hprefix, hstep, hrest⟩

theorem foldlM_invariant {P : σ → Prop} {as : List α} {s t : σ} (hfold : as.foldlM f s = .ok t) (hs : P s)
    (hstep : ∀ s a s', a ∈ as → P s → f s a = .ok s' → P s') : P t := by
  induction as generalizing s with
  | nil =>
    rw [List.foldlM_nil, pure_eq_ok_iff] at hfold
    rwa [← hfold]
  | cons a as ih =>
    obtain ⟨s', ha, hrest⟩ := foldlM_cons_eq_ok_iff.mp hfold
    exact ih hrest (hstep s a s' (by simp) hs ha) fun s a s' hmem => hstep s a s' (by simp [hmem])

theorem foldlM_ne_error {e : ε} (hstep : ∀ s a, f s a ≠ .error e) (as : List α) (s : σ) :
    as.foldlM f s ≠ .error e := by
  induction as generalizing s with
  | nil => exact pure_ne_error
  | cons a as ih =>
    rw [List.foldlM_cons]
    exact bind_ne_error (hstep s a) ih

/-- `Reverts undo R s as t`: `undo` applied to the records `as`, the latest first, leads from every state that stands for `t` to one that stands for `s`. -/
def Reverts {τ : Type} (undo : τ → α → Except ε τ) (R : σ → τ → Prop) (s : σ) (as : List α)
    (t : σ) : Prop :=
  ∀ w, R t w → ∃ w', as.reverse.foldlM undo w = .ok w' ∧ R s w'

theorem Reverts.nil {τ : Type} {undo : τ → α → Except ε τ} {R : σ → τ → Prop} {s : σ} :
    Reverts undo R s [] s :=
  fun w hw => ⟨w, rfl, hw⟩

theorem Reverts.concat {τ : Type} {undo : τ → α → Except ε τ} {R : σ → τ → Prop} {s t u : σ}
    {as : List α} {a : α} (h : Reverts undo R s as t)
    (hstep : ∀ w, R u w → ∃ w', undo w a = .ok w' ∧ R t w') : Reverts undo R s (as ++ [a]) u := by
  intro w hw
  obtain ⟨w₁, hundo, hw₁⟩ := hstep w hw
  obtain ⟨w₂, hrest, hw₂⟩ := h w₁ hw₁
  refine ⟨w₂, ?_, hw₂⟩
  rw [List.reverse_concat, foldlM_cons_eq_ok_iff]
  exact ⟨w₁, hundo, hrest⟩

theorem exists_foldlM_iff {P : α → Prop} (hstep : ∀ s a, (∃ s', f s a = .ok s') ↔ P a) {as : List α}
    {s : σ} :
    (∃ t, as.foldlM f s = .ok t) ↔ ∀ a ∈ as, P a := by
  induction as generalizing s with
  | nil => exact iff_of_true ⟨s, rfl⟩ (by simp)
  | cons a as ih =>
    simp only [foldlM_cons_eq_ok_iff, List.forall_mem_cons]
    constructor
    · rintro ⟨t, s', ha, hrest⟩
      exact ⟨(hstep s a).mp ⟨s', ha⟩, ih.mp ⟨t, hrest⟩⟩
    · rintro ⟨ha, hrest⟩
      obtain ⟨s', hs'⟩ := (hstep s a).mpr ha
      obtain ⟨t, ht⟩ := (ih (s := s')).mpr hrest
      exact ⟨t, s', hs', ht⟩

/-! ### Stricter computations -/

/-- `Relaxes x y`: whenever `y` succeeds, `x` succeeds with the same value. -/
def Relaxes (x y : Except ε α) : Prop := ∀ a, y = .ok a → x = .ok a

namespace Relaxes

variable {x y : Except ε α}

theorem refl (x : Except ε α) : Relaxes x x := fun _ h => h

theorem bind {g h : α → Except ε β} (hxy : Relaxes x y) (hgh : ∀ a, Relaxes (g a) (h a)) :
    Relaxes (x >>= g) (y >>= h) := by
  intro b hb
  obtain ⟨a, ha, hb⟩ := bind_eq_ok_iff.mp hb
  exact bind_eq_ok_iff.mpr ⟨a, hxy a ha, hgh a b hb⟩

theorem require {c d : Prop} [Decidable c] [Decidable d] {e e' : ε} (h : d → c) :
    Relaxes (Except.require c e) (Except.require d e') := by
  intro u hu
  exact require_eq_ok_iff.mpr (h (require_eq_ok_iff.mp hu))

theorem mapError {ε' : Type} (g : ε → ε') (hxy : Relaxes x y) :
    Relaxes (x.mapError g) (y.mapError g) := by
  intro a ha
  cases y with
  | error e => cases ha
  | ok b =>
    rw [hxy b rfl]
    exact ha

end Relaxes

end Except
