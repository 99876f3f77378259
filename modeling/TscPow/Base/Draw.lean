import Mathlib

/-!
# Drawing without replacement

`draw l is` takes elements out of `l` one after another, each at a position counted in what the earlier draws have left. Which elements come out is decided by positions alone (`draw_eq_positions`), so two draws from a list without repetitions take the same elements exactly when they take the same positions.
-/

namespace Draw

variable {α β : Type}

def draw : List α → List Nat → Option (List α)
  | _, [] => some []
  | l, i :: is => l[i]?.bind fun a => (draw (l.eraseIdx i) is).map (a :: ·)

theorem draw_cons_eq_some_iff {l : List α} {i : Nat} {is : List Nat} {drawn : List α} :
    draw l (i :: is) = some drawn ↔
      ∃ a rest, l[i]? = some a ∧ draw (l.eraseIdx i) is = some rest ∧ drawn = a :: rest := by
  simp only [draw, Option.bind_eq_some_iff, Option.map_eq_some_iff]
  grind

theorem draw_map (f : α → β) (l : List α) (is : List Nat) :
    draw (l.map f) is = (draw l is).map (List.map f) := by
  induction is generalizing l with
  | nil => rfl
  | cons i is ih =>
    rw [draw, draw, List.getElem?_map, List.eraseIdx_map, ih]
    cases l[i]? <;> cases draw (l.eraseIdx i) is <;> simp

theorem length_of_draw {l : List α} {is : List Nat} {drawn : List α} (hdraw : draw l is = some drawn) :
    drawn.length = is.length := by
  induction is generalizing l drawn with
  | nil => simp_all [draw]
  | cons i is ih =>
    obtain ⟨a, rest, -, hrest, rfl⟩ := draw_cons_eq_some_iff.mp hdraw
    rw [List.length_cons, List.length_cons, ih hrest]

theorem draw_subperm {l : List α} {is : List Nat} {drawn : List α} (hdraw : draw l is = some drawn) :
    drawn.Subperm l := by
  induction is generalizing l drawn with
  | nil =>
    obtain rfl : [] = drawn := by simpa [draw] using hdraw
    exact List.nil_subperm
  | cons i is ih =>
    obtain ⟨a, rest, ha, hrest, rfl⟩ := draw_cons_eq_some_iff.mp hdraw
    obtain ⟨hi, rfl⟩ := List.getElem?_eq_some_iff.mp ha
    exact ((List.subperm_cons _).mpr (ih hrest)).trans (List.getElem_cons_eraseIdx_perm hi).subperm

theorem nodup_of_draw {l : List α} {is : List Nat} {drawn : List α} (hnodup : l.Nodup)
    (hdraw : draw l is = some drawn) :
    drawn.Nodup := by
  obtain ⟨l', hperm, hsub⟩ := draw_subperm hdraw
  exact hperm.nodup_iff.mp (hsub.nodup hnodup)

theorem exists_draw {l : List α} {is : List Nat} (hroom : ∀ i ∈ is, i + is.length ≤ l.length) :
    ∃ drawn, draw l is = some drawn := by
  induction is generalizing l with
  | nil => exact ⟨[], rfl⟩
  | cons i is ih =>
    have hi := hroom i (by simp)
    rw [List.length_cons] at hi
    have hlt : i < l.length := by omega
    have hrest : ∀ j ∈ is, j + is.length ≤ (l.eraseIdx i).length := by
      intro j hj
      have := hroom j (by simp [hj])
      rw [List.length_cons] at this
      rw [List.length_eraseIdx_of_lt hlt]
      omega
    obtain ⟨rest, hdraw⟩ := ih hrest
    exact ⟨l[i] :: rest, draw_cons_eq_some_iff.mpr ⟨l[i], rest, List.getElem?_eq_getElem hlt, hdraw, rfl⟩⟩

/-! ### Positions -/

def positions (n : Nat) (is : List Nat) : Option (List (Fin n)) := draw (List.finRange n) is

theorem draw_eq_positions (l : List α) (is : List Nat) :
    draw l is = (positions l.length is).map (List.map l.get) := by
  rw [positions, ← draw_map, List.map_get_finRange]

theorem mem_draw_iff {l : List α} (hnodup : l.Nodup) {is : List Nat} {drawn : List α}
    {ps : List (Fin l.length)} (hdraw : draw l is = some drawn)
    (hps : positions l.length is = some ps) (p : Fin l.length) :
    l.get p ∈ drawn ↔ p ∈ ps := by
  rw [draw_eq_positions, hps, Option.map_some, Option.some.injEq] at hdraw
  rw [← hdraw]
  exact List.mem_map_of_injective (List.nodup_iff_injective_get.mp hnodup)

/-- Both draws are possible and take the same positions out of `n`. -/
def SamePositions (n : Nat) (is js : List Nat) : Prop :=
  ∃ ps qs, positions n is = some ps ∧ positions n js = some qs ∧ ∀ p, p ∈ ps ↔ p ∈ qs

instance (n : Nat) (is js : List Nat) : Decidable (SamePositions n is js) :=
  match h : positions n is, h' : positions n js with
  | some ps, some qs =>
    decidable_of_iff (∀ p, p ∈ ps ↔ p ∈ qs)
      ⟨fun hsame => ⟨ps, qs, h, h', hsame⟩, fun ⟨_, _, hps, hqs, hsame⟩ => by
        cases h.symm.trans hps
        cases h'.symm.trans hqs
        exact hsame⟩
  | none, _ => isFalse fun ⟨_, _, hps, _⟩ => by cases h.symm.trans hps
  | _, none => isFalse fun ⟨_, _, _, hqs, _⟩ => by cases h'.symm.trans hqs

theorem same_elements_iff {l : List α} (hnodup : l.Nodup) {n : Nat} (hlen : l.length = n)
    {is js : List Nat} {drawn drawn' : List α} (hdraw : draw l is = some drawn)
    (hdraw' : draw l js = some drawn') :
    (∀ a, a ∈ drawn ↔ a ∈ drawn') ↔ SamePositions n is js := by
  subst hlen
  obtain ⟨ps, hps, -⟩ : ∃ ps, positions l.length is = some ps ∧ ps.map l.get = drawn := by
    simpa [draw_eq_positions l is] using hdraw
  obtain ⟨qs, hqs, -⟩ : ∃ qs, positions l.length js = some qs ∧ qs.map l.get = drawn' := by
    simpa [draw_eq_positions l js] using hdraw'
  constructor
  · intro hsame
    refine ⟨ps, qs, hps, hqs, fun p => ?_⟩
    rw [← mem_draw_iff hnodup hdraw hps, ← mem_draw_iff hnodup hdraw' hqs]
    exact hsame (l.get p)
  · rintro ⟨ps', qs', hps', hqs', hsame⟩ a
    by_cases ha : a ∈ l
    · obtain ⟨p, rfl⟩ := List.get_of_mem ha
      rw [mem_draw_iff hnodup hdraw hps', mem_draw_iff hnodup hdraw' hqs']
      exact hsame p
    · exact iff_of_false (fun h => ha ((draw_subperm hdraw).subset h)) fun h =>
        ha ((draw_subperm hdraw').subset h)

end Draw
