import Mathlib

/-!
# Trees built level by level

The nodes of a level are hashed in pairs, and a last node without a neighbour is paired with itself, until one node is left, the root. `getElem?_level_succ` and `length_level` say what the levels consist of; a node above a position is found from the one below and its sibling (`getElem?_level_sibling`). Different leaves can have the same root, for `[a, b, c]` gives the same second level as `[a, b, c, c]`. They cannot if the hash is injective, no leaf is a hash, and no two siblings over complete blocks are equal (`eq_of_root_eq`).
-/

namespace LevelTree

variable {α : Type} (hash : α → α → α)

def pairUp : List α → List α
  | [] => []
  | [a] => [hash a a]
  | a :: b :: nodes => hash a b :: pairUp nodes

theorem length_pairUp (nodes : List α) : (pairUp hash nodes).length = (nodes.length + 1) / 2 := by
  induction nodes using pairUp.induct with
  | case1 => simp [pairUp]
  | case2 a => simp [pairUp]
  | case3 a b nodes ih =>
    rw [pairUp, List.length_cons, ih, List.length_cons, List.length_cons]
    omega

theorem getElem?_pairUp (nodes : List α) (i : Nat) :
    (pairUp hash nodes)[i]? = nodes[2 * i]?.map fun a => hash a (nodes[2 * i + 1]?.getD a) := by
  induction nodes using pairUp.induct generalizing i with
  | case1 => rfl
  | case2 a =>
    cases i with
    | zero => rfl
    | succ i => rfl
  | case3 a b nodes ih =>
    cases i with
    | zero => rfl
    | succ i => exact ih i

def level (leaves : List α) (k : Nat) : List α := (pairUp hash)^[k] leaves

def root : List α → Option α
  | [] => none
  | [a] => some a
  | a :: b :: nodes => root (pairUp hash (a :: b :: nodes))
termination_by nodes => nodes.length
decreasing_by
  rw [length_pairUp, List.length_cons, List.length_cons]
  omega

theorem root_pairUp {nodes : List α} (h : 2 ≤ nodes.length) :
    root hash (pairUp hash nodes) = root hash nodes := by
  match nodes with
  | a :: b :: nodes => rw [root.eq_3]

variable (leaves : List α)

theorem level_succ (k : Nat) : level hash leaves (k + 1) = pairUp hash (level hash leaves k) :=
  Function.iterate_succ_apply' _ _ _

theorem getElem?_level_succ (k i : Nat) :
    (level hash leaves (k + 1))[i]? = (level hash leaves k)[2 * i]?.map fun a => hash a
    ((level hash leaves k)[2 * i + 1]?.getD a) := by
  rw [level_succ, getElem?_pairUp]

theorem length_level (k : Nat) : (level hash leaves k).length = (leaves.length + 2 ^ k - 1) / 2 ^ k := by
  have hpos : ∀ k : Nat, 0 < 2 ^ k := fun k => Nat.two_pow_pos k
  induction k with
  | zero => rw [pow_zero, Nat.div_one, Nat.add_sub_cancel]; rfl
  | succ k ih =>
    have hsum : leaves.length + 2 ^ (k + 1) - 1 = leaves.length + 2 ^ k - 1 + 2 ^ k := by
      have hk := hpos k
      rw [pow_succ]
      omega
    rw [level_succ, length_pairUp, ih, hsum, pow_succ, ← Nat.div_div_eq_div_mul,
      Nat.add_div_right _ (hpos k)]

theorem length_level_of_dvd {k count : Nat} (hdvd : 2 ^ k ∣ count) (hle : leaves.length ≤ count)
    (hlt : count < leaves.length + 2 ^ k) :
    (level hash leaves k).length = count / 2 ^ k := by
  obtain ⟨q, rfl⟩ := hdvd
  have hpos := Nat.two_pow_pos k
  rw [length_level, Nat.mul_div_cancel_left q hpos]
  apply Nat.div_eq_of_lt_le
  · rw [Nat.mul_comm]
    omega
  · rw [Nat.succ_mul, Nat.mul_comm]
    omega

variable {leaves}

theorem root_eq_of_length_le {d : Nat} (hle : leaves.length ≤ 2 ^ d) (hlt : 2 ^ d < 2 * leaves.length) :
    root hash leaves = (level hash leaves d)[0]? := by
  induction d generalizing leaves with
  | zero =>
    rw [pow_zero] at hle hlt
    obtain ⟨a, rfl⟩ := List.length_eq_one_iff.mp (show leaves.length = 1 by omega)
    rw [root.eq_2]
    rfl
  | succ d ih =>
    have hpos := Nat.two_pow_pos d
    rw [pow_succ] at hle hlt
    have hlength := length_pairUp hash leaves
    rw [← root_pairUp hash (by omega), ih (by omega) (by omega), level, level,
      Function.iterate_succ_apply]

/-! ### Siblings -/

variable (leaves)

def sibling (pos k : Nat) : Option α :=
  if pos / 2 ^ k % 2 = 1 then (level hash leaves k)[pos / 2 ^ k - 1]?
  else (level hash leaves k)[pos / 2 ^ k + 1]?.or (level hash leaves k)[pos / 2 ^ k]?

variable {leaves} {pos k : Nat} {a b : α}

theorem getElem?_level_sibling (ha : (level hash leaves k)[pos / 2 ^ k]? = some a)
    (hb : sibling hash leaves pos k = some b) :
    (level hash leaves (k + 1))[pos / 2 ^ (k + 1)]? = some
    (if pos / 2 ^ k % 2 = 1 then hash b a else hash a b) := by
  rw [getElem?_level_succ, pow_succ, ← Nat.div_div_eq_div_mul]
  rw [sibling] at hb
  generalize pos / 2 ^ k = i at ha hb
  split at hb
  · rename_i hodd
    have hi : 2 * (i / 2) = i - 1 ∧ 2 * (i / 2) + 1 = i := by omega
    rw [if_pos hodd, hi.2, hi.1, hb, ha]
    rfl
  · rename_i heven
    have hi : 2 * (i / 2) = i := by omega
    rw [if_neg heven, hi, ha, Option.map_some]
    rw [ha] at hb
    cases hnext : (level hash leaves k)[i + 1]? with
    | none =>
      rw [hnext] at hb
      obtain rfl := Option.some.inj hb
      rfl
    | some b' =>
      rw [hnext] at hb
      obtain rfl := Option.some.inj hb
      rfl

/-- Two siblings over complete blocks among the first leaves are equal. -/
def EqualSiblings (leaves : List α) (count : Nat) : Prop :=
  ∃ k i, (2 * i + 2) * 2 ^ k ≤ count ∧ (level hash leaves k)[2 * i]? = (level hash leaves k)[2 * i + 1]?

/-! ### Leaves from the root -/

/-- A node of a height over a block of leaves, below which no two siblings over complete blocks are equal. -/
inductive Sound : Nat → List α → α → Prop
  | leaf (a : α) : Sound 0 [a] a
  | single {k : Nat} {block : List α} {a : α} : Sound k block a → Sound (k + 1) block (hash a a)
  | node {k : Nat} {left right : List α} {a b : α} : Sound k left a → Sound k right b →
      left.length = 2 ^ k → (right.length = 2 ^ k → a ≠ b) →
    Sound (k + 1) (left ++ right) (hash a b)

variable {hash}

theorem Sound.block_eq (hinjective : Function.Injective2 hash) {block block' : List α}
    (h : Sound hash k block a) (h' : Sound hash k block' a) :
    block = block' := by
  induction h generalizing block' with
  | leaf a =>
    cases h' with
    | leaf => rfl
  | single h ih =>
    generalize hroot : hash _ _ = root at h'
    cases h' with
    | single h' =>
      obtain ⟨rfl, -⟩ := hinjective hroot
      exact ih h'
    | node hleft hright hlength hne =>
      -- a node paired with itself is not one over two blocks: these would be equal and complete
      obtain ⟨rfl, rfl⟩ := hinjective hroot
      obtain rfl := ih hleft
      obtain rfl := ih hright
      exact absurd rfl (hne hlength)
  | node hleft hright hlength hne ihleft ihright =>
    generalize hroot : hash _ _ = root at h'
    cases h' with
    | single h' =>
      obtain ⟨rfl, rfl⟩ := hinjective hroot
      obtain rfl := ihleft h'
      obtain rfl := ihright h'
      exact absurd rfl (hne hlength)
    | node hleft' hright' hlength' hne' =>
      obtain ⟨rfl, rfl⟩ := hinjective hroot
      rw [ihleft hleft', ihright hright']

theorem Sound.height_eq (hinjective : Function.Injective2 hash) {k' : Nat} {block block' : List α}
    (h : Sound hash k block a) (h' : Sound hash k' block' a)
    (hleaf : ∀ x ∈ block, ∀ b c, x ≠ hash b c) (hleaf' : ∀ x ∈ block', ∀ b c, x ≠ hash b c) :
    k = k' := by
  induction h generalizing k' block' with
  | leaf a =>
    have hne := hleaf a List.mem_cons_self
    cases h' with
    | leaf => rfl
    | single => exact absurd rfl (hne _ _)
    | node => exact absurd rfl (hne _ _)
  | single h ih =>
    generalize hroot : hash _ _ = root at h'
    cases h' with
    | leaf => exact absurd hroot.symm (hleaf' _ List.mem_cons_self _ _)
    | single h' =>
      obtain ⟨rfl, -⟩ := hinjective hroot
      rw [ih h' hleaf hleaf']
    | node hleft =>
      obtain ⟨rfl, -⟩ := hinjective hroot
      rw [ih hleft hleaf fun x hx => hleaf' x (List.mem_append_left _ hx)]
  | node hleft _ _ _ ih =>
    have hleft' := fun x hx => hleaf x (List.mem_append_left _ hx)
    generalize hroot : hash _ _ = root at h'
    cases h' with
    | leaf => exact absurd hroot.symm (hleaf' _ List.mem_cons_self _ _)
    | single h' =>
      obtain ⟨rfl, -⟩ := hinjective hroot
      rw [ih h' hleft' hleaf']
    | node hleft =>
      obtain ⟨rfl, -⟩ := hinjective hroot
      rw [ih hleft hleft' fun x hx => hleaf' x (List.mem_append_left _ hx)]

def block (leaves : List α) (k i : Nat) : List α := (leaves.drop (i * 2 ^ k)).take (2 ^ k)

theorem length_block (leaves : List α) (k i : Nat) :
    (block leaves k i).length = min (2 ^ k) (leaves.length - i * 2 ^ k) := by
  rw [block, List.length_take, List.length_drop]

theorem block_succ (leaves : List α) (k i : Nat) :
    block leaves (k + 1) i = block leaves k (2 * i) ++ block leaves k (2 * i + 1) := by
  have hstart : i * 2 ^ (k + 1) = 2 * i * 2 ^ k := by ring
  have hnext : (2 * i + 1) * 2 ^ k = 2 * i * 2 ^ k + 2 ^ k := by ring
  rw [block, block, block, hstart, hnext, pow_succ, Nat.mul_two, List.take_add, List.drop_drop]

theorem block_zero {i : Nat} (ha : leaves[i]? = some a) : block leaves 0 i = [a] := by
  obtain ⟨hi, rfl⟩ := List.getElem?_eq_some_iff.mp ha
  rw [block, pow_zero, Nat.mul_one, List.drop_eq_getElem_cons hi]
  rfl

theorem block_all (hle : leaves.length ≤ 2 ^ k) : block leaves k 0 = leaves := by
  rw [block, Nat.zero_mul, List.drop_zero, List.take_of_length_le hle]

theorem block_map {β : Type} (f : α → β) (leaves : List α) (k i : Nat) :
    block (leaves.map f) k i = (block leaves k i).map f := by
  rw [block, block, List.map_take, List.map_drop]

theorem exists_sound (h : ¬ EqualSiblings hash leaves leaves.length) {i : Nat}
    (hi : i * 2 ^ k < leaves.length) :
    ∃ a, (level hash leaves k)[i]? = some a ∧ Sound hash k (block leaves k i) a := by
  induction k generalizing i with
  | zero =>
    rw [pow_zero, Nat.mul_one] at hi
    have hget := List.getElem?_eq_getElem hi
    refine ⟨leaves[i], hget, ?_⟩
    rw [block_zero hget]
    exact .leaf _
  | succ k ih =>
    have hpow : i * 2 ^ (k + 1) = 2 * i * 2 ^ k := by ring
    have hnext : (2 * i + 1) * 2 ^ k = 2 * i * 2 ^ k + 2 ^ k := by ring
    rw [hpow] at hi
    obtain ⟨a, ha, hleft⟩ := ih hi
    rw [getElem?_level_succ, ha, Option.map_some, block_succ]
    by_cases hright : (2 * i + 1) * 2 ^ k < leaves.length
    · obtain ⟨b, hb, hright'⟩ := ih hright
      have hlength : (block leaves k (2 * i)).length = 2 ^ k := by
        rw [length_block]
        omega
      rw [hb, Option.getD_some]
      refine ⟨_, rfl, .node hleft hright' hlength ?_⟩
      rintro hcomplete rfl
      refine h ⟨k, i, ?_, ha.trans hb.symm⟩
      have hend : (2 * i + 2) * 2 ^ k = (2 * i + 1) * 2 ^ k + 2 ^ k := by ring
      rw [length_block] at hcomplete
      omega
    · have hnone : (level hash leaves k)[2 * i + 1]? = none := by
        have hpos := Nat.two_pow_pos k
        have hend : 2 ^ k * (2 * i + 1 + 1) = (2 * i + 1) * 2 ^ k + 2 ^ k := by ring
        have hlt : (leaves.length + 2 ^ k - 1) / 2 ^ k < 2 * i + 1 + 1 := Nat.div_lt_of_lt_mul (by omega)
        rw [List.getElem?_eq_none_iff, length_level]
        exact Nat.le_of_lt_succ hlt
      have hempty : block leaves k (2 * i + 1) = [] := by
        rw [block, List.drop_eq_nil_of_le (not_lt.mp hright), List.take_nil]
      rw [hnone, hempty, List.append_nil]
      exact ⟨_, rfl, .single hleft⟩

theorem exists_height (hne : leaves ≠ []) : ∃ d, leaves.length ≤ 2 ^ d ∧ 2 ^ d < 2 * leaves.length := by
  have hpos := List.length_pos_iff.mpr hne
  refine ⟨Nat.clog 2 leaves.length, Nat.le_pow_clog Nat.one_lt_two _, ?_⟩
  rcases Nat.lt_or_ge 1 leaves.length with hlt | hle
  · have hpred := Nat.pow_pred_clog_lt_self Nat.one_lt_two hlt
    have hclog := Nat.clog_pos Nat.one_lt_two hlt
    have hpow : 2 ^ Nat.clog 2 leaves.length = 2 ^ (Nat.clog 2 leaves.length).pred * 2 := by
      rw [← pow_succ, ← Nat.succ_eq_add_one, Nat.succ_pred_eq_of_pos hclog]
    omega
  · rw [Nat.clog_of_right_le_one hle]
    omega

theorem exists_sound_root (h : ¬ EqualSiblings hash leaves leaves.length) (hne : leaves ≠ []) :
    ∃ d a, root hash leaves = some a ∧ Sound hash d leaves a := by
  obtain ⟨d, hle, hlt⟩ := exists_height hne
  have hpos := List.length_pos_iff.mpr hne
  have hstart : 0 * 2 ^ d < leaves.length := by omega
  obtain ⟨a, ha, hsound⟩ := exists_sound h hstart
  rw [block_all hle] at hsound
  exact ⟨d, a, (root_eq_of_length_le hash hle hlt).trans ha, hsound⟩

theorem eq_of_root_eq (hinjective : Function.Injective2 hash) {leaves' : List α} (hne : leaves ≠ [])
    (hne' : leaves' ≠ []) (hleaf : ∀ x ∈ leaves, ∀ b c, x ≠ hash b c)
    (hleaf' : ∀ x ∈ leaves', ∀ b c, x ≠ hash b c) (h : ¬ EqualSiblings hash leaves leaves.length)
    (h' : ¬ EqualSiblings hash leaves' leaves'.length)
    (hroot : root hash leaves = root hash leaves') : leaves = leaves' := by
  obtain ⟨d, a, ha, hsound⟩ := exists_sound_root h hne
  obtain ⟨d', a', ha', hsound'⟩ := exists_sound_root h' hne'
  rw [ha, ha'] at hroot
  obtain rfl := Option.some.inj hroot
  obtain rfl := hsound.height_eq hinjective hsound' hleaf hleaf'
  exact hsound.block_eq hinjective hsound'

/-! ### Counting blocks -/

theorem add_pow_div {e count k : Nat} (hdvd : 2 ^ e ∣ count) (hle : e ≤ k) :
    (count + 2 ^ e) / 2 ^ k = count / 2 ^ k + if 2 ^ k ∣ count + 2 ^ e then 1 else 0 := by
  obtain ⟨q, rfl⟩ := hdvd
  obtain ⟨j, rfl⟩ := Nat.exists_eq_add_of_le hle
  have hpos := Nat.two_pow_pos e
  have hsum : 2 ^ e * q + 2 ^ e = 2 ^ e * (q + 1) := by ring
  simp only [hsum, pow_add, Nat.mul_div_mul_left _ _ hpos, Nat.succ_div, Nat.mul_dvd_mul_iff_left hpos]

theorem testBit_iff {n k : Nat} : n.testBit k = true ↔ n / 2 ^ k % 2 = 1 := by
  rw [Nat.testBit_eq_decide_div_mod_eq, decide_eq_true_iff]

theorem dvd_succ_of_testBit {n k : Nat} (hdvd : 2 ^ k ∣ n) (hbit : ¬ n.testBit k = true) :
    2 ^ (k + 1) ∣ n := by
  obtain ⟨q, rfl⟩ := hdvd
  rw [testBit_iff, Nat.mul_div_cancel_left q (Nat.two_pow_pos k)] at hbit
  rw [pow_succ]
  exact Nat.mul_dvd_mul_left _ (by omega)

end LevelTree
