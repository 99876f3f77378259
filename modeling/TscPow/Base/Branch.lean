import Mathlib

/-!
# Branches of a tree of keyed nodes

Every node names its parent by the parent's key. A branch is a list of nodes from a root upwards, each naming the one before it. If no two nodes share a key, the last node of a branch determines the branch; so two branches agree up to the point where they part and have no node in common above it (`Branch.split`).
-/

namespace KeyedTree

variable {α κ : Type}

def last (root : α) (branch : List α) : α := branch.getLast?.getD root

@[simp] theorem last_nil (root : α) : last root [] = root := rfl

@[simp] theorem last_snoc (root a : α) (branch : List α) : last root (branch ++ [a]) = a := by
  rw [last, List.getLast?_concat, Option.getD_some]

theorem last_mem (root : α) (branch : List α) : last root branch ∈ root :: branch := by
  rcases List.eq_nil_or_concat branch with rfl | ⟨branch, a, rfl⟩
  · exact List.mem_cons_self
  · rw [List.concat_eq_append, last_snoc]
    simp

/-- The branches that a list of nodes makes on top of a root. -/
inductive Branch (key parent : α → κ) (root : α) (nodes : List α) : List α → Prop
  | nil : Branch key parent root nodes []
  | snoc {branch : List α} {a : α} (h : Branch key parent root nodes branch) (ha : a ∈ nodes)
      (hparent : parent a = key (last root branch)) : Branch key parent root nodes (branch ++ [a])

namespace Branch

variable {key parent : α → κ} {root a b : α} {nodes nodes' branch branch' : List α}

theorem snoc_iff : Branch key parent root nodes (branch ++ [a]) ↔
    Branch key parent root nodes branch ∧ a ∈ nodes ∧ parent a = key (last root branch) := by
  constructor
  · intro h
    generalize hlist : branch ++ [a] = list at h
    cases h with
    | nil => simp at hlist
    | snoc h ha hparent =>
      obtain ⟨rfl, hlast⟩ := List.append_inj' hlist rfl
      cases hlast
      exact ⟨h, ha, hparent⟩
  · rintro ⟨h, ha, hparent⟩
    exact h.snoc ha hparent

theorem of_append (h : Branch key parent root nodes (branch ++ branch')) :
    Branch key parent root nodes branch := by
  induction branch' using List.reverseRecOn with
  | nil => rwa [List.append_nil] at h
  | append_singleton branch' a ih =>
    rw [← List.append_assoc, snoc_iff] at h
    exact ih h.1

theorem subset (h : Branch key parent root nodes branch) : branch ⊆ nodes := by
  induction h with
  | nil => exact List.nil_subset _
  | snoc _ ha _ ih => exact List.append_subset.mpr ⟨ih, by simpa using ha⟩

theorem last_mem_nodes (h : Branch key parent root nodes branch) : last root branch ∈ root :: nodes :=
  List.cons_subset_cons root h.subset (last_mem root branch)

theorem mono (h : Branch key parent root nodes branch) (hsub : nodes ⊆ nodes') :
    Branch key parent root nodes' branch := by
  induction h with
  | nil => exact .nil
  | snoc _ ha hparent ih => exact ih.snoc (hsub ha) hparent

theorem length_eq (height : α → Nat) (hroot : height root = 0)
    (hstep : ∀ a ∈ nodes, ∀ b ∈ root :: nodes, parent a = key b → height a = height b + 1)
    (h : Branch key parent root nodes branch) : branch.length = height (last root branch) := by
  induction h with
  | nil => exact hroot.symm
  | snoc h ha hparent ih =>
    rw [List.length_append, List.length_singleton, ih, last_snoc,
      hstep _ ha _ h.last_mem_nodes hparent]

/-! ### Distinct keys -/

theorem eq_of_key (hdistinct : ((root :: nodes).map key).Nodup) (ha : a ∈ root :: nodes)
    (hb : b ∈ root :: nodes) (hkey : key a = key b) : a = b :=
  List.inj_on_of_nodup_map hdistinct ha hb hkey

theorem root_not_mem (hdistinct : ((root :: nodes).map key).Nodup) : root ∉ nodes := by
  intro h
  rw [List.map_cons, List.nodup_cons] at hdistinct
  exact hdistinct.1 (List.mem_map_of_mem h)

theorem eq_of_last (hdistinct : ((root :: nodes).map key).Nodup) (h : Branch key parent root nodes branch)
    (h' : Branch key parent root nodes branch') (hlast : last root branch = last root branch') :
    branch = branch' := by
  induction h generalizing branch' with
  | nil =>
    cases h' with
    | nil => rfl
    | snoc _ ha _ =>
      rw [last_nil, last_snoc] at hlast
      exact absurd (hlast ▸ ha) (root_not_mem hdistinct)
  | snoc h ha hparent ih =>
    cases h' with
    | nil =>
      rw [last_nil, last_snoc] at hlast
      exact absurd (hlast ▸ ha) (root_not_mem hdistinct)
    | snoc h' _ hparent' =>
      rw [last_snoc, last_snoc] at hlast
      subst hlast
      rw [ih h' (eq_of_key hdistinct h.last_mem_nodes h'.last_mem_nodes (hparent.symm.trans hparent'))]

theorem split (hdistinct : ((root :: nodes).map key).Nodup) (h : Branch key parent root nodes branch)
    (h' : Branch key parent root nodes branch') :
    ∃ common rest rest', branch = common ++ rest ∧ branch' = common ++ rest' ∧ ∀ a ∈ rest',
      a ∉ root :: branch := by
  induction h' with
  | nil => exact ⟨[], branch, [], rfl, rfl, by simp⟩
  | snoc h' ha hparent ih =>
    rename_i branch' a
    by_cases hmem : a ∈ branch
    · -- the first branch runs through the node, so it starts with the whole second one
      obtain ⟨below, above, rfl⟩ := List.append_of_mem hmem
      have hsplit : Branch key parent root nodes ((below ++ [a]) ++ above) := by simpa using h
      have hbelow := hsplit.of_append
      have hsame : below ++ [a] = branch' ++ [a] :=
        eq_of_last hdistinct hbelow (h'.snoc ha hparent) (by simp)
      exact ⟨branch' ++ [a], above, [], by rw [← hsame]; simp, by simp, by simp⟩
    · obtain ⟨common, rest, rest', hbranch, hbranch', hrest⟩ := ih
      refine ⟨common, rest, rest' ++ [a], hbranch, by rw [hbranch', List.append_assoc], ?_⟩
      intro c hc
      rw [List.mem_append, List.mem_singleton] at hc
      rcases hc with hc | rfl
      · exact hrest c hc
      · rw [List.mem_cons, not_or]
        exact ⟨fun hroot => root_not_mem hdistinct (hroot ▸ ha), hmem⟩

theorem of_new (hdistinct : ((root :: (nodes ++ [b])).map key).Nodup)
    (hrooted : ∀ a ∈ nodes, ∃ branch, Branch key parent root nodes (branch ++ [a]))
    (hparent : parent b ∈ (root :: nodes).map key) (h : Branch key parent root (nodes ++ [b]) branch) :
    Branch key parent root nodes branch ∨
      ∃ below, Branch key parent root nodes below ∧ parent b = key (last root below) ∧
        branch = below ++ [b] := by
  have hnew : key b ∉ (root :: nodes).map key := by
    rw [← List.cons_append, List.map_append, List.nodup_append] at hdistinct
    exact fun hmem => hdistinct.2.2 _ hmem _ (by simp) rfl
  -- no node names the new one as its parent
  have hleaf : ∀ a ∈ nodes ++ [b], parent a ≠ key b := by
    intro a ha hkey
    rw [List.mem_append, List.mem_singleton] at ha
    rcases ha with ha | rfl
    · obtain ⟨below, hbelow⟩ := hrooted a ha
      obtain ⟨hbelow, -, hnamed⟩ := snoc_iff.mp hbelow
      exact hnew (hkey ▸ hnamed ▸ List.mem_map_of_mem hbelow.last_mem_nodes)
    · exact hnew (hkey ▸ hparent)
  induction h with
  | nil => exact .inl .nil
  | snoc h ha hnamed ih =>
    rcases ih with ih | ⟨below, -, -, rfl⟩
    · rw [List.mem_append, List.mem_singleton] at ha
      rcases ha with ha | rfl
      · exact .inl (ih.snoc ha hnamed)
      · exact .inr ⟨_, ih, hnamed, rfl⟩
    · rw [last_snoc] at hnamed
      exact absurd hnamed (hleaf _ ha)

end Branch

end KeyedTree
