import TscPow.Base.Fault
import TscPow.Base.LevelTree

/-!
# Merkle roots and branches

`MerkleComputation` (`consensus/merkle.cpp`) keeps no levels. It goes through the leaves once, with one hash for each bit of their count: where the bit is set, the root of the last complete block of that size. A leaf that carries over combines such roots, and a sweep at the end pairs the last node of each odd level with itself, as if leaves had been added up to the next power of two. So `inner` always holds nodes of the tree that is built level by level (`Processed`, `Swept`), and the branch that is collected on the way holds their siblings.

The values are of any type, for the calculation only compares and hashes them. `default` stands for the null hash.
-/

namespace TscPow

open LevelTree

variable {α : Type}

/-- Whether `pbranch` is given, and `branchpos`. -/
structure MerkleRequest where
  pbranch : Bool
  branchpos : Nat

def MerkleRequest.Asks (req : MerkleRequest) (leaves : List α) : Prop :=
  req.pbranch = true ∧ req.branchpos < leaves.length

structure MerkleCarry (α : Type) where
  h : α
  matchh : Bool
  mutated : Bool
  branch : List α

/-- The variables of the loop over the leaves. The match level is `none` for -1. -/
structure MerkleState (α : Type) where
  count : Nat
  inner : Nat → α
  matchlevel : Option Nat
  mutated : Bool
  branch : List α

structure MerkleResult (α : Type) where
  root : α
  mutated : Bool
  branch : List α

namespace MerkleState

variable [DecidableEq α] (hash : α → α → α) (req : MerkleRequest)

/-- The body of both inner loops. Only the first of them compares. -/
def combine (compares : Bool) (s : MerkleState α) (level : Nat) (c : MerkleCarry α) : MerkleCarry α where
  h := hash (s.inner level) c.h
  matchh := c.matchh || req.pbranch && s.matchlevel == some level
  mutated := c.mutated || compares && s.inner level == c.h
  branch :=
    if !req.pbranch then c.branch
    else if c.matchh then c.branch ++ [s.inner level]
    else if s.matchlevel == some level then c.branch ++ [c.h]
    else c.branch

/-- An inner loop, up to the first bit of `count` that is set. A shift by 32 is undefined. -/
def propagate (compares : Bool) (s : MerkleState α) (count : Nat) :
    Nat → Nat → MerkleCarry α → Except Fault (Nat × MerkleCarry α)
  | 0, _, _ => .error .undefined
  | rounds + 1, level, c =>
    if count.testBit level then .ok (level, c)
    else propagate compares s count rounds (level + 1) (s.combine hash req compares level c)

def addLeaf (s : MerkleState α) (leaf : α) : Except Fault (MerkleState α) := do
  let count := (s.count + 1) % 2 ^ 32
  let (level, c) ← s.propagate hash req true count 32 0
    ⟨leaf, decide (s.count = req.branchpos), s.mutated, s.branch⟩
  return {
    count := count
    inner := Function.update s.inner level c.h
    matchlevel := if c.matchh then some level else s.matchlevel
    mutated := c.mutated
    branch := c.branch }

/-- The loop that skips the bits that are not set. -/
def skip (count : Nat) : Nat → Nat → Except Fault Nat
  | 0, _ => .error .undefined
  | rounds + 1, level => if count.testBit level then .ok level else skip count rounds (level + 1)

/-- The sweep. The level rises in every round. -/
def sweep (s : MerkleState α) : Nat → Nat → Nat → MerkleCarry α → Except Fault (MerkleCarry α)
  | 0, _, _, _ => .error .undefined
  | rounds + 1, count, level, c =>
    if count = 2 ^ level then .ok c
    else do
      let doubled : MerkleCarry α :=
        { c with
          h := hash c.h c.h
          branch := if req.pbranch && c.matchh then c.branch ++ [c.h] else c.branch }
      let count := (count + 2 ^ level) % 2 ^ 32
      let (level, c) ← s.propagate hash req false count (32 - (level + 1)) (level + 1) doubled
      sweep s rounds count level c

end MerkleState

section Code

variable [DecidableEq α] [Inhabited α] (hash : α → α → α)

def merkleComputation (leaves : List α) (req : MerkleRequest) : Except Fault (MerkleResult α) :=
  if leaves.length = 0 then .ok ⟨default, false, []⟩
  else do
    let s ← leaves.foldlM (MerkleState.addLeaf hash req) ⟨0, fun _ => default, none, false, []⟩
    let level ← MerkleState.skip s.count 32 0
    let c ← s.sweep hash req 32 s.count level
      ⟨s.inner level, s.matchlevel == some level, s.mutated, s.branch⟩
    return ⟨c.h, c.mutated, c.branch⟩

/-- `ComputeMerkleRoot`, with the flag. -/
def computeMerkleRoot (leaves : List α) : Except Fault (α × Bool) := do
  let r ← merkleComputation hash leaves ⟨false, 2 ^ 32 - 1⟩
  return (r.root, r.mutated)

def computeMerkleBranch (leaves : List α) (position : Nat) : Except Fault (List α) := do
  let r ← merkleComputation hash leaves ⟨true, position⟩
  return r.branch

omit [DecidableEq α] [Inhabited α] in
def computeMerkleRootFromBranch : α → List α → Nat → α
  | h, [], _ => h
  | h, node :: vMerkleBranch, nIndex =>
    computeMerkleRootFromBranch (if nIndex % 2 = 1 then hash node h else hash h node) vMerkleBranch
      (nIndex / 2)

end Code

/-! ### The branch of a position -/

/-- The siblings of the nodes above a position, below a level. -/
def IsMerkleBranch (hash : α → α → α) (leaves : List α) (pos k : Nat) (branch : List α) : Prop :=
  branch.map some = (List.range k).map (sibling hash leaves pos)

/-- Either the position has not been reached, or it is in the block of the match level. -/
inductive Traced (hash : α → α → α) (leaves : List α) (pos count : Nat) (matchlevel : Option Nat)
    (branch : List α) : Prop
  | ahead : count ≤ pos → matchlevel = none → branch = [] → Traced hash leaves pos count matchlevel branch
  | within (m : Nat) : matchlevel = some m → count.testBit m = true →
      pos / 2 ^ m + 1 = count / 2 ^ m → IsMerkleBranch hash leaves pos m branch →
    Traced hash leaves pos count matchlevel branch

/-- The same while a node of level `k` is carried to `count`: the position may also be in its block. The blocks of `before` from level `low` on are still there. -/
inductive CarryTraced (hash : α → α → α) (leaves : List α) (pos before count low k : Nat)
    (matchlevel : Option Nat) (c : MerkleCarry α) : Prop
  | ahead : c.matchh = false → count ≤ pos → matchlevel = none → c.branch = [] →
      CarryTraced hash leaves pos before count low k matchlevel c
  | within (m : Nat) : c.matchh = false → low ≤ m → matchlevel = some m → before.testBit m = true →
      pos / 2 ^ m + 1 = before / 2 ^ m →
    IsMerkleBranch hash leaves pos m c.branch →
      CarryTraced hash leaves pos before count low k matchlevel c
  | carried : c.matchh = true → pos / 2 ^ k + 1 = count / 2 ^ k →
      IsMerkleBranch hash leaves pos k c.branch →
    CarryTraced hash leaves pos before count low k matchlevel c

variable {hash : α → α → α} {leaves : List α} {pos : Nat}

theorem IsMerkleBranch.concat {k : Nat} {branch : List α} {a : α}
    (h : IsMerkleBranch hash leaves pos k branch) (ha : sibling hash leaves pos k = some a) :
    IsMerkleBranch hash leaves pos (k + 1) (branch ++ [a]) := by
  rw [IsMerkleBranch] at h ⊢
  rw [List.map_append, h, List.range_succ, List.map_append, List.map_singleton, List.map_singleton, ha]

/-! ### Going up -/

/-- Where a bit of the count is set, `inner` has the root of the last complete block of that size. -/
def Frontier (hash : α → α → α) (leaves : List α) (inner : Nat → α) (count low : Nat) : Prop :=
  ∀ k, low ≤ k → count.testBit k = true → (level hash leaves k)[count / 2 ^ k - 1]? = some (inner k)

/-- An inner loop that has gone from level `start` to level `k`, after a block of size `2 ^ e` was added. -/
structure Climbing (hash : α → α → α) (leaves : List α) (req : MerkleRequest)
    (matchlevel : Option Nat) (compares : Bool) (before e start : Nat) (mutated : Bool) (k : Nat)
    (c : MerkleCarry α) : Prop where
  start_le : start ≤ k
  dvd : 2 ^ k ∣ before + 2 ^ e
  node : (level hash leaves k)[(before + 2 ^ e) / 2 ^ k - 1]? = some c.h
  mutated_iff : c.mutated = true ↔ mutated = true ∨ compares = true ∧ ∃ j, start ≤ j ∧ j < k ∧
    (level hash leaves j)[(before + 2 ^ e) / 2 ^ j - 2]? =
      (level hash leaves j)[(before + 2 ^ e) / 2 ^ j - 1]?
  traced : req.Asks leaves →
    CarryTraced hash leaves req.branchpos before (before + 2 ^ e) k k matchlevel c

theorem exists_pair {before e k : Nat} (he : 2 ^ e ∣ before) (hek : e ≤ k)
    (hdvd : 2 ^ k ∣ before + 2 ^ e) (hbit : ¬ (before + 2 ^ e).testBit k = true) :
    ∃ j, before / 2 ^ k = 2 * j + 1 ∧ (before + 2 ^ e) / 2 ^ k = 2 * j + 2 ∧
      (before + 2 ^ e) / 2 ^ (k + 1) = j + 1 := by
  have hdiv := add_pow_div he hek
  rw [if_pos hdvd] at hdiv
  rw [testBit_iff] at hbit
  refine ⟨before / 2 ^ k / 2, by omega, by omega, ?_⟩
  rw [pow_succ, ← Nat.div_div_eq_div_mul]
  omega

theorem add_pow_div_of_testBit {before e k j : Nat} (he : 2 ^ e ∣ before) (hek : e ≤ k)
    (hbit : (before + 2 ^ e).testBit k = true) (hkj : k < j) :
    (before + 2 ^ e) / 2 ^ j = before / 2 ^ j := by
  rw [add_pow_div he (by omega), if_neg, Nat.add_zero]
  intro hdvd
  rw [testBit_iff] at hbit
  obtain ⟨q, hq⟩ := (Nat.pow_dvd_pow 2 hkj).trans hdvd
  rw [hq, Nat.pow_succ, Nat.mul_assoc, Nat.mul_div_cancel_left _ (Nat.two_pow_pos k)] at hbit
  omega

section Climb

variable {req : MerkleRequest} {s : MerkleState α} {compares mutated : Bool}
  {before e start k : Nat} {c : MerkleCarry α}

theorem CarryTraced.settle (he : 2 ^ e ∣ before) (hek : e ≤ k) (hdvd : 2 ^ k ∣ before + 2 ^ e)
    (hbit : (before + 2 ^ e).testBit k = true) {matchlevel : Option Nat}
    (h : CarryTraced hash leaves pos before (before + 2 ^ e) k k matchlevel c) :
    CarryTraced hash leaves pos (before + 2 ^ e) (before + 2 ^ e) (k + 1) k matchlevel c := by
  cases h with
  | ahead hmatchh hpos hnone hbranch => exact .ahead hmatchh hpos hnone hbranch
  | within m hmatchh hm hlevel hset hindex hpath =>
    have hdiv := add_pow_div he hek
    rw [if_pos hdvd] at hdiv
    rw [testBit_iff] at hbit hset
    have hlt : k < m := by
      rcases Nat.eq_or_lt_of_le hm with rfl | hlt
      · omega
      · exact hlt
    have hsame := add_pow_div_of_testBit he hek (testBit_iff.mpr hbit) hlt
    refine .within m hmatchh hlt hlevel ?_ ?_ hpath
    · rw [testBit_iff, hsame]
      exact hset
    · rw [hsame]
      exact hindex
  | carried hmatchh hindex hpath => exact .carried hmatchh hindex hpath

theorem Frontier.add_pow (he : 2 ^ e ∣ before) (hek : e ≤ k)
    (hbit : (before + 2 ^ e).testBit k = true) {inner : Nat → α} {low : Nat} (hlow : low ≤ k + 1)
    (h : Frontier hash leaves inner before low) :
    Frontier hash leaves inner (before + 2 ^ e) (k + 1) := by
  intro j hj hset
  have hsame := add_pow_div_of_testBit he hek hbit hj
  rw [testBit_iff, hsame] at hset
  rw [hsame]
  exact h j (hlow.trans hj) (testBit_iff.mpr hset)

theorem Frontier.update {count : Nat} {inner : Nat → α} {a : α} (hdvd : 2 ^ k ∣ count)
    (hnode : (level hash leaves k)[count / 2 ^ k - 1]? = some a)
    (h : Frontier hash leaves inner count (k + 1)) :
    Frontier hash leaves (Function.update inner k a) count 0 := by
  intro j _ hset
  rcases Nat.lt_trichotomy j k with hlt | rfl | hgt
  · obtain ⟨q, rfl⟩ := (Nat.pow_dvd_pow 2 (Nat.succ_le_of_lt hlt)).trans hdvd
    rw [testBit_iff, pow_succ, Nat.mul_assoc, Nat.mul_div_cancel_left _ (Nat.two_pow_pos j)] at hset
    omega
  · rw [Function.update_self]
    exact hnode
  · rw [Function.update_of_ne hgt.ne']
    exact h j hgt hset

variable [DecidableEq α]

theorem CarryTraced.combine (hpbranch : req.pbranch = true) (he : 2 ^ e ∣ before) (hek : e ≤ k)
    (hdvd : 2 ^ k ∣ before + 2 ^ e) (hbit : ¬ (before + 2 ^ e).testBit k = true)
    (hinner : (level hash leaves k)[before / 2 ^ k - 1]? = some (s.inner k))
    (hnode : (level hash leaves k)[(before + 2 ^ e) / 2 ^ k - 1]? = some c.h)
    (h : CarryTraced hash leaves pos before (before + 2 ^ e) k k s.matchlevel c) :
    CarryTraced hash leaves pos before (before + 2 ^ e) (k + 1) (k + 1) s.matchlevel
      (s.combine hash req compares k c) := by
  obtain ⟨j, hbefore, hcount, hnext⟩ := exists_pair he hek hdvd hbit
  have hup : pos / 2 ^ (k + 1) = pos / 2 ^ k / 2 := by rw [pow_succ, Nat.div_div_eq_div_mul]
  rw [hbefore] at hinner
  rw [hcount] at hnode
  cases h with
  | ahead hmatchh hpos hnone hbranch =>
    refine .ahead ?_ hpos hnone ?_
    · simp [MerkleState.combine, hmatchh, hnone]
    · simp [MerkleState.combine, hmatchh, hnone, hbranch]
  | within m hmatchh hm hlevel hset hindex hpath =>
    rcases Nat.eq_or_lt_of_le hm with rfl | hlt
    · have hsibling : sibling hash leaves pos k = some c.h := by
        have hpos : pos / 2 ^ k = 2 * j := by omega
        have heven : ¬ 2 * j % 2 = 1 := by omega
        have hsub : 2 * j + 2 - 1 = 2 * j + 1 := rfl
        rw [hsub] at hnode
        rw [sibling, hpos, if_neg heven, hnode]
        rfl
      refine .carried ?_ ?_ ?_
      · simp [MerkleState.combine, hpbranch, hlevel]
      · rw [hnext, hup]
        omega
      · have hbranch : (s.combine hash req compares k c).branch = c.branch ++ [c.h] := by
          simp [MerkleState.combine, hpbranch, hmatchh, hlevel]
        rw [hbranch]
        exact hpath.concat hsibling
    · have hne : ¬ m = k := by omega
      refine .within m ?_ hlt hlevel hset hindex ?_
      · simp [MerkleState.combine, hmatchh, hlevel, hne]
      · have hbranch : (s.combine hash req compares k c).branch = c.branch := by
          simp [MerkleState.combine, hmatchh, hlevel, hne]
        rw [hbranch]
        exact hpath
  | carried hmatchh hindex hpath =>
    have hsibling : sibling hash leaves pos k = some (s.inner k) := by
      have hpos : pos / 2 ^ k = 2 * j + 1 := by omega
      have hodd : (2 * j + 1) % 2 = 1 := by omega
      rw [sibling, hpos, if_pos hodd]
      exact hinner
    refine .carried ?_ ?_ ?_
    · simp [MerkleState.combine, hmatchh]
    · rw [hnext, hup]
      omega
    · have hbranch : (s.combine hash req compares k c).branch = c.branch ++ [s.inner k] := by
        simp [MerkleState.combine, hpbranch, hmatchh]
      rw [hbranch]
      exact hpath.concat hsibling

theorem Climbing.combine (he : 2 ^ e ∣ before) (hek : e ≤ start)
    (hfrontier : Frontier hash leaves s.inner before start)
    (h : Climbing hash leaves req s.matchlevel compares before e start mutated k c)
    (hbit : ¬ (before + 2 ^ e).testBit k = true) :
    Climbing hash leaves req s.matchlevel compares before e start mutated (k + 1)
      (s.combine hash req compares k c) := by
  obtain ⟨hstart, hdvd, hnode, hmutated, htraced⟩ := h
  obtain ⟨j, hbefore, hcount, hnext⟩ := exists_pair he (hek.trans hstart) hdvd hbit
  have hinner : (level hash leaves k)[before / 2 ^ k - 1]? = some (s.inner k) := by
    apply hfrontier k hstart
    rw [testBit_iff]
    omega
  refine ⟨by omega, dvd_succ_of_testBit hdvd hbit, ?_, ?_, ?_⟩
  · rw [hbefore] at hinner
    rw [hcount] at hnode
    have hleft : (level hash leaves k)[2 * j]? = some (s.inner k) := hinner
    have hright : (level hash leaves k)[2 * j + 1]? = some c.h := hnode
    rw [hnext, Nat.add_sub_cancel, getElem?_level_succ, hleft, hright]
    rfl
  · have hequal : s.inner k = c.h ↔
        (level hash leaves k)[(before + 2 ^ e) / 2 ^ k - 2]? =
          (level hash leaves k)[(before + 2 ^ e) / 2 ^ k - 1]? := by
      have hindex : (before + 2 ^ e) / 2 ^ k - 2 = before / 2 ^ k - 1 := by omega
      rw [hnode, hindex, hinner, Option.some_inj]
    have hflag : (s.combine hash req compares k c).mutated = true ↔
        c.mutated = true ∨ compares = true ∧ s.inner k = c.h := by
      simp [MerkleState.combine]
    rw [hflag, hmutated, hequal, or_assoc, ← and_or_left]
    apply or_congr Iff.rfl
    apply and_congr Iff.rfl
    constructor
    · rintro (⟨i, hi, hik, heq⟩ | heq)
      · exact ⟨i, hi, by omega, heq⟩
      · exact ⟨k, hstart, by omega, heq⟩
    · rintro ⟨i, hi, hik, heq⟩
      rcases Nat.lt_succ_iff_lt_or_eq.mp hik with hlt | rfl
      · exact Or.inl ⟨i, hi, hlt, heq⟩
      · exact Or.inr heq
  · intro hasks
    exact (htraced hasks).combine hasks.1 he (hek.trans hstart) hdvd hbit hinner hnode

theorem Climbing.propagate (he : 2 ^ e ∣ before) (hek : e ≤ start)
    (hfrontier : Frontier hash leaves s.inner before start) (rounds : Nat) :
    ∀ (k : Nat) (c : MerkleCarry α), Climbing hash leaves req s.matchlevel compares before e start
      mutated k c → before + 2 ^ e < 2 ^ (k + rounds) →
      ∃ k' c', s.propagate hash req compares (before + 2 ^ e) rounds k c = .ok (k', c') ∧
        Climbing hash leaves req s.matchlevel compares before e start mutated k' c' ∧
          (before + 2 ^ e).testBit k' = true := by
  induction rounds with
  | zero =>
    intro k c h hlt
    have hpos := Nat.two_pow_pos e
    exact absurd (Nat.le_of_dvd (by omega) h.dvd) hlt.not_ge
  | succ rounds ih =>
    intro k c h hlt
    rw [MerkleState.propagate]
    split
    · rename_i hbit
      exact ⟨k, c, rfl, h, hbit⟩
    · rename_i hbit
      apply ih (k + 1) _ (h.combine he hek hfrontier hbit)
      rwa [Nat.add_right_comm]

end Climb

/-! ### The leaves -/

section Leaves

variable [DecidableEq α] {req : MerkleRequest} {s : MerkleState α}

/-- What the loop keeps: the state belongs to the leaves so far. -/
structure Processed (hash : α → α → α) (leaves : List α) (req : MerkleRequest) (s : MerkleState α) :
    Prop where
  frontier : Frontier hash leaves s.inner s.count 0
  mutated_iff : s.mutated = true ↔ EqualSiblings hash leaves s.count
  traced : req.Asks leaves → Traced hash leaves req.branchpos s.count s.matchlevel s.branch

omit [DecidableEq α] in
theorem equalSiblings_succ {count k : Nat} (hdvd : 2 ^ k ∣ count + 1)
    (hbit : (count + 1).testBit k = true) :
    EqualSiblings hash leaves (count + 1) ↔ EqualSiblings hash leaves count ∨
      ∃ j, j < k ∧ (level hash leaves j)[(count + 1) / 2 ^ j - 2]? =
        (level hash leaves j)[(count + 1) / 2 ^ j - 1]? := by
  constructor
  · rintro ⟨j, i, hle, heq⟩
    rcases Nat.lt_succ_iff_lt_or_eq.mp (Nat.lt_succ_of_le hle) with hlt | hend
    · exact Or.inl ⟨j, i, by omega, heq⟩
    · refine Or.inr ⟨j, ?_, ?_⟩
      · by_contra hkj
        -- otherwise a multiple of `2 ^ (k + 1)` would have bit `k`
        obtain ⟨q, hq⟩ := Nat.pow_dvd_pow 2 (not_lt.mp hkj)
        rw [testBit_iff, ← hend, hq] at hbit
        have hproduct : (2 * i + 2) * (2 ^ k * q) = 2 ^ k * (2 * ((i + 1) * q)) := by ring
        rw [hproduct, Nat.mul_div_cancel_left _ (Nat.two_pow_pos k)] at hbit
        omega
      · rw [← hend, Nat.mul_div_cancel _ (Nat.two_pow_pos j)]
        exact heq
  · rintro (⟨j, i, hle, heq⟩ | ⟨j, hjk, heq⟩)
    · exact ⟨j, i, by omega, heq⟩
    · obtain ⟨q, hq⟩ := (Nat.pow_dvd_pow 2 (Nat.succ_le_of_lt hjk)).trans hdvd
      have hproduct : count + 1 = 2 * q * 2 ^ j := by
        rw [hq, pow_succ]
        ring
      have hpos : 0 < q := by
        by_contra hzero
        obtain rfl : q = 0 := by omega
        omega
      rw [hproduct, Nat.mul_div_cancel _ (Nat.two_pow_pos j)] at heq
      refine ⟨j, q - 1, ?_, ?_⟩
      · have hindex : 2 * (q - 1) + 2 = 2 * q := by omega
        rw [hindex, hproduct]
      · have hleft : 2 * (q - 1) = 2 * q - 2 := by omega
        have hright : 2 * (q - 1) + 1 = 2 * q - 1 := by omega
        rw [hright, hleft]
        exact heq

omit [DecidableEq α] in
theorem Traced.leaf {count : Nat} {matchlevel : Option Nat} {branch : List α}
    (h : Traced hash leaves pos count matchlevel branch) (leaf : α) (mutated : Bool) :
    CarryTraced hash leaves pos count (count + 2 ^ 0) 0 0 matchlevel
      ⟨leaf, decide (count = pos), mutated, branch⟩ := by
  cases h with
  | ahead hpos hnone hbranch =>
    by_cases heq : count = pos
    · refine .carried (decide_eq_true heq) ?_ ?_
      · rw [heq, pow_zero, Nat.div_one, Nat.div_one]
      · rw [hbranch]
        rfl
    · refine .ahead (decide_eq_false heq) ?_ hnone hbranch
      rw [pow_zero]
      omega
  | within m hlevel hset hindex hpath =>
    refine .within m (decide_eq_false ?_) (Nat.zero_le m) hlevel hset hindex hpath
    rintro rfl
    omega

theorem Processed.addLeaf (h : Processed hash leaves req s) {leaf : α}
    (hleaf : leaves[s.count]? = some leaf) (hcount : s.count + 1 < 2 ^ 32) :
    ∃ s', s.addLeaf hash req leaf = .ok s' ∧ s'.count = s.count + 1 ∧ Processed hash leaves req s' := by
  have hclimbing :
      Climbing hash leaves req s.matchlevel true s.count 0 0 s.mutated 0
        ⟨leaf, decide (s.count = req.branchpos), s.mutated, s.branch⟩ := by
    refine ⟨le_rfl, ?_, ?_, ?_, fun hasks => (h.traced hasks).leaf leaf s.mutated⟩
    · exact one_dvd _
    · rw [pow_zero, Nat.div_one, Nat.add_sub_cancel]
      exact hleaf
    · refine (or_iff_left ?_).symm
      rintro ⟨-, j, -, hj, -⟩
      exact absurd hj (Nat.not_lt_zero j)
  obtain ⟨k, c, hok, hclimbed, hbit⟩ :=
    Climbing.propagate (one_dvd _) le_rfl h.frontier 32 0 _ hclimbing hcount
  have hdvd := hclimbed.dvd
  have hmutated := hclimbed.mutated_iff
  rw [pow_zero] at hok hdvd hbit hmutated
  refine ⟨⟨s.count + 1, Function.update s.inner k c.h, if c.matchh then some k
    else s.matchlevel, c.mutated, c.branch⟩, ?_, rfl, ?_⟩
  · rw [MerkleState.addLeaf, Nat.mod_eq_of_lt hcount, hok]
    rfl
  · refine ⟨?_, ?_, ?_⟩
    · have habove := h.frontier.add_pow (one_dvd _) (Nat.zero_le k) hbit (Nat.zero_le _)
      exact habove.update hclimbed.dvd hclimbed.node
    · refine hmutated.trans (Iff.trans ?_ (equalSiblings_succ hdvd hbit).symm)
      rw [h.mutated_iff]
      simp
    · intro hasks
      cases (hclimbed.traced hasks).settle (one_dvd _) (Nat.zero_le k) hclimbed.dvd hbit with
      | ahead hmatchh hpos hnone hbranch =>
        refine .ahead hpos ?_ hbranch
        rw [if_neg (by simp [hmatchh]), hnone]
      | within m hmatchh hm hlevel hset hindex hpath =>
        refine .within m ?_ hset hindex hpath
        rw [if_neg (by simp [hmatchh]), hlevel]
      | carried hmatchh hindex hpath => exact .within k (if_pos hmatchh) hbit hindex hpath

theorem Processed.foldlM (hlength : leaves.length < 2 ^ 32) (rest : List α) :
    ∀ s : MerkleState α, Processed hash leaves req s → leaves.drop s.count = rest →
      s.count ≤ leaves.length →
      ∃ s', rest.foldlM (MerkleState.addLeaf hash req) s = .ok s' ∧ s'.count = leaves.length ∧
        Processed hash leaves req s' := by
  induction rest with
  | nil =>
    intro s h hdrop hle
    refine ⟨s, rfl, ?_, h⟩
    exact Nat.le_antisymm hle (List.drop_eq_nil_iff.mp hdrop)
  | cons leaf rest ih =>
    intro s h hdrop hle
    have hlt : s.count < leaves.length := by
      by_contra hge
      rw [List.drop_eq_nil_of_le (not_lt.mp hge)] at hdrop
      cases hdrop
    rw [List.drop_eq_getElem_cons hlt] at hdrop
    obtain ⟨hhead, htail⟩ := List.cons.inj hdrop
    have hleaf : leaves[s.count]? = some leaf := by rw [List.getElem?_eq_getElem hlt, hhead]
    obtain ⟨s₁, hok, hcount, h₁⟩ := h.addLeaf hleaf (by omega)
    rw [← hcount] at htail
    obtain ⟨s', hok', hrest⟩ := ih s₁ h₁ htail (by omega)
    refine ⟨s', ?_, hrest⟩
    rw [List.foldlM_cons, hok]
    exact hok'

omit [DecidableEq α] in
theorem processed_start (hash : α → α → α) (leaves : List α) (req : MerkleRequest)
    (inner : Nat → α) : Processed hash leaves req ⟨0, inner, none, false, []⟩ := by
  refine ⟨?_, ?_, fun _ => .ahead (Nat.zero_le _) rfl rfl⟩
  · intro k _ hset
    simp at hset
  · refine iff_of_false Bool.false_ne_true ?_
    rintro ⟨k, i, hle, -⟩
    have hpos : 0 < (2 * i + 2) * 2 ^ k := Nat.mul_pos (by omega) (Nat.two_pow_pos k)
    exact absurd hle hpos.not_ge

end Leaves

/-! ### The sweep -/

section Sweep

variable [DecidableEq α] {req : MerkleRequest} {s : MerkleState α} {count k : Nat} {c : MerkleCarry α}

theorem exists_skip (hcount : 0 < count) (rounds : Nat) : ∀ k, 2 ^ k ∣ count → count < 2 ^ (k + rounds) →
    ∃ k', MerkleState.skip count rounds k = .ok k' ∧ 2 ^ k' ∣ count ∧ count.testBit k' = true := by
  induction rounds with
  | zero =>
    intro k hdvd hlt
    exact absurd (Nat.le_of_dvd hcount hdvd) hlt.not_ge
  | succ rounds ih =>
    intro k hdvd hlt
    rw [MerkleState.skip]
    split
    · rename_i hbit
      exact ⟨k, rfl, hdvd, hbit⟩
    · rename_i hbit
      apply ih (k + 1) (dvd_succ_of_testBit hdvd hbit)
      rwa [Nat.add_right_comm]

/-- What the sweep keeps: the count is that of the leaves, rounded up to whole blocks of the level, and `h` is the last node of the level. -/
structure Swept (hash : α → α → α) (leaves : List α) (req : MerkleRequest) (s : MerkleState α)
    (count k : Nat) (c : MerkleCarry α) : Prop where
  dvd : 2 ^ k ∣ count
  testBit : count.testBit k = true
  le : leaves.length ≤ count
  lt : count < leaves.length + 2 ^ k
  bound : count < 2 * leaves.length
  frontier : Frontier hash leaves s.inner count (k + 1)
  node : (level hash leaves k)[count / 2 ^ k - 1]? = some c.h
  mutated : c.mutated = s.mutated
  traced : req.Asks leaves → CarryTraced hash leaves req.branchpos count count (k + 1) k s.matchlevel c

omit [DecidableEq α] in
theorem Swept.doubled (h : Swept hash leaves req s count k c) :
    Climbing hash leaves req s.matchlevel false count k (k + 1) s.mutated (k + 1)
      { c with
        h := hash c.h c.h
        branch := if req.pbranch && c.matchh then c.branch ++ [c.h] else c.branch } := by
  have hlength := length_level_of_dvd hash leaves h.dvd h.le h.lt
  have hbit := testBit_iff.mp h.testBit
  obtain ⟨j, hj⟩ : ∃ j, count / 2 ^ k = 2 * j + 1 := ⟨count / 2 ^ k / 2, by omega⟩
  have hnode := h.node
  have hdiv := add_pow_div h.dvd le_rfl
  rw [if_pos (h.dvd.add (dvd_refl _))] at hdiv
  have hnext : (count + 2 ^ k) / 2 ^ (k + 1) = j + 1 := by
    rw [pow_succ, ← Nat.div_div_eq_div_mul]
    omega
  rw [hj, Nat.add_sub_cancel] at hnode
  have hnone : (level hash leaves k)[2 * j + 1]? = none := by
    rw [List.getElem?_eq_none_iff]
    omega
  refine ⟨le_rfl, ?_, ?_, ?_, ?_⟩
  · apply dvd_succ_of_testBit (h.dvd.add (dvd_refl _))
    rw [testBit_iff]
    omega
  · rw [hnext, Nat.add_sub_cancel, getElem?_level_succ, hnode, hnone]
    rfl
  · refine (iff_of_eq (congrArg (· = true) h.mutated)).trans (or_iff_left ?_).symm
    exact fun hcompares => Bool.false_ne_true hcompares.1
  · intro hasks
    have hup : req.branchpos / 2 ^ (k + 1) = req.branchpos / 2 ^ k / 2 := by
      rw [pow_succ, Nat.div_div_eq_div_mul]
    cases h.traced hasks with
    | ahead hmatchh hahead hnone hbranch => exact absurd hasks.2 (h.le.trans hahead).not_gt
    | within m hmatchh hm hlevel hset hindex hpath =>
      refine .within m hmatchh hm hlevel hset hindex ?_
      rw [if_neg (by simp [hmatchh])]
      exact hpath
    | carried hmatchh hindex hpath =>
      refine .carried hmatchh ?_ ?_
      · rw [hnext, hup]
        omega
      · have hsibling : sibling hash leaves req.branchpos k = some c.h := by
          have hbranchpos : req.branchpos / 2 ^ k = 2 * j := by omega
          have heven : ¬ 2 * j % 2 = 1 := by omega
          rw [sibling, hbranchpos, if_neg heven, hnone, hnode]
          rfl
        rw [if_pos (by simp [hasks.1, hmatchh])]
        exact hpath.concat hsibling

theorem Swept.round (hlength : leaves.length < 2 ^ 31) (h : Swept hash leaves req s count k c)
    (htop : count ≠ 2 ^ k) :
    ∃ k' c', s.propagate hash req false (count + 2 ^ k) (32 - (k + 1)) (k + 1)
        { c with
          h := hash c.h c.h
          branch := if req.pbranch && c.matchh then c.branch ++ [c.h] else c.branch } = .ok (k', c') ∧
      k < k' ∧ count + 2 ^ k < 2 ^ 32 ∧ Swept hash leaves req s (count + 2 ^ k) k' c' := by
  have hbound := h.bound
  have hlt := h.lt
  have hle := h.le
  -- three blocks of the level, so there are leaves in the third
  have hthree : 3 * 2 ^ k ≤ count := by
    obtain ⟨q, rfl⟩ := h.dvd
    have hbit := testBit_iff.mp h.testBit
    rw [Nat.mul_div_cancel_left q (Nat.two_pow_pos k)] at hbit
    have hone : q ≠ 1 := by
      rintro rfl
      exact htop (Nat.mul_one _)
    rw [Nat.mul_comm]
    exact Nat.mul_le_mul_left _ (by omega)
  have hcount : count + 2 ^ k < 2 ^ 32 := by omega
  have hk : k + 1 ≤ 32 := by
    by_contra hge
    have hpow : 2 ^ 32 ≤ 2 ^ k := Nat.pow_le_pow_right (by decide) (by omega)
    omega
  have hrounds : count + 2 ^ k < 2 ^ (k + 1 + (32 - (k + 1))) := by rwa [Nat.add_sub_cancel' hk]
  obtain ⟨k', c', hok, hclimbed, hbit⟩ :=
    Climbing.propagate h.dvd (Nat.le_succ k) h.frontier _ (k + 1) _ h.doubled hrounds
  have hstart := hclimbed.start_le
  have hpow : 2 ^ (k + 1) ≤ 2 ^ k' := Nat.pow_le_pow_right (by decide) hstart
  rw [pow_succ] at hpow
  refine ⟨k', c', hok, hstart, hcount, ?_⟩
  refine ⟨hclimbed.dvd, hbit, by omega, by omega, by omega, ?_, hclimbed.node, ?_, ?_⟩
  · exact h.frontier.add_pow h.dvd (by omega) hbit (by omega)
  · rw [Bool.eq_iff_iff, hclimbed.mutated_iff]
    simp
  · exact fun hasks => (hclimbed.traced hasks).settle h.dvd (by omega) hclimbed.dvd hbit

theorem Swept.sweep (hlength : leaves.length < 2 ^ 31) (rounds : Nat) :
    ∀ count k (c : MerkleCarry α), Swept hash leaves req s count k c → 32 ≤ k + rounds →
      ∃ d c', s.sweep hash req rounds count k c = .ok c' ∧ c'.mutated = s.mutated ∧
        leaves.length ≤ 2 ^ d ∧ 2 ^ d < 2 * leaves.length ∧
        (level hash leaves d)[0]? = some c'.h ∧
        (req.Asks leaves → IsMerkleBranch hash leaves req.branchpos d c'.branch) := by
  induction rounds with
  | zero =>
    intro count k c h hrounds
    have hpow : 2 ^ 32 ≤ 2 ^ k := Nat.pow_le_pow_right (by decide) hrounds
    have hbit := testBit_iff.mp h.testBit
    have hle : 2 ^ k ≤ count := by
      by_contra hlt
      rw [Nat.div_eq_of_lt (not_le.mp hlt)] at hbit
      omega
    have hbound := h.bound
    omega
  | succ rounds ih =>
    intro count k c h hrounds
    rw [MerkleState.sweep]
    split
    · rename_i htop
      have hle := h.le
      have hbound := h.bound
      have hnode := h.node
      rw [htop] at hle hbound
      rw [htop, Nat.div_self (Nat.two_pow_pos k)] at hnode
      refine ⟨k, c, rfl, h.mutated, hle, hbound, hnode, ?_⟩
      intro hasks
      cases h.traced hasks with
      | ahead _ hahead => exact absurd hasks.2 (h.le.trans hahead).not_gt
      | within m _ hm _ hset =>
        -- the top has no bit above it
        rw [testBit_iff, htop, Nat.div_eq_of_lt (Nat.pow_lt_pow_right Nat.one_lt_two hm)] at hset
        omega
      | carried _ _ hpath => exact hpath
    · rename_i htop
      obtain ⟨k', c', hok, hk, hcount, hswept⟩ := h.round hlength htop
      obtain ⟨d, c'', hok', hrest⟩ := ih (count + 2 ^ k) k' c' hswept (by omega)
      refine ⟨d, c'', ?_, hrest⟩
      dsimp only
      rw [Nat.mod_eq_of_lt hcount, hok]
      exact hok'

end Sweep

/-! ### The root, the flag and the branch -/

section Results

variable [DecidableEq α] [Inhabited α]

theorem exists_merkleComputation (hash : α → α → α) {leaves : List α} (hne : leaves ≠ [])
    (hlength : leaves.length < 2 ^ 31) (req : MerkleRequest) :
    ∃ d r, merkleComputation hash leaves req = .ok r ∧
      (r.mutated = true ↔ EqualSiblings hash leaves leaves.length) ∧ leaves.length ≤ 2 ^ d ∧
      2 ^ d < 2 * leaves.length ∧ (level hash leaves d)[0]? = some r.root ∧
        (req.Asks leaves → IsMerkleBranch hash leaves req.branchpos d r.branch) := by
  have hpositive := List.length_pos_iff.mpr hne
  obtain ⟨s, hleaves, hcount, hprocessed⟩ :=
    Processed.foldlM (by omega) leaves _ (processed_start hash leaves req fun _ => default)
      List.drop_zero (Nat.zero_le _)
  obtain ⟨k, hskip, hdvd, hbit⟩ := exists_skip (show 0 < s.count by omega) 32 0 (one_dvd _) (by omega)
  have hswept :
      Swept hash leaves req s s.count k
        ⟨s.inner k, s.matchlevel == some k, s.mutated, s.branch⟩ := by
    have hpow := Nat.two_pow_pos k
    refine ⟨hdvd, hbit, hcount.ge, by omega, by omega,
      fun j _ hset => hprocessed.frontier j (Nat.zero_le j) hset,
      hprocessed.frontier k (Nat.zero_le k) hbit, rfl, ?_⟩
    intro hasks
    cases hprocessed.traced hasks with
    | ahead hahead => exact absurd hasks.2 (hcount.ge.trans hahead).not_gt
    | within m hlevel hset hindex hpath =>
      rcases Nat.lt_trichotomy m k with hlt | rfl | hgt
      · obtain ⟨q, hq⟩ := (Nat.pow_dvd_pow 2 (Nat.succ_le_of_lt hlt)).trans hdvd
        rw [testBit_iff, hq, pow_succ, Nat.mul_assoc,
          Nat.mul_div_cancel_left _ (Nat.two_pow_pos m)] at hset
        omega
      · exact .carried (by simp [hlevel]) hindex hpath
      · exact .within m (by simp [hlevel, hgt.ne']) hgt hlevel hset hindex hpath
  obtain ⟨d, c, hsweep, hmutated, hle, hlt, hroot, hbranch⟩ :=
    Swept.sweep hlength 32 s.count k _ hswept (by omega)
  refine ⟨d, ⟨c.h, c.mutated, c.branch⟩, ?_, ?_, hle, hlt, hroot, hbranch⟩
  · rw [merkleComputation, if_neg hpositive.ne', hleaves, Except.ok_bind, hskip, Except.ok_bind, hsweep]
    rfl
  · rw [← hcount, ← hprocessed.mutated_iff, ← hmutated]

/-- The root is that of the tree built level by level, and the flag tells whether two siblings over complete blocks of leaves are equal. -/
theorem merkleComputation_eq_levels (hash : α → α → α) (leaves : List α) (req : MerkleRequest)
    (hne : leaves ≠ []) (hlength : leaves.length < 2 ^ 31) :
    ∃ r, merkleComputation hash leaves req = .ok r ∧ root hash leaves = some r.root ∧
      (r.mutated = true ↔ ∃ k i, (2 * i + 2) * 2 ^ k ≤ leaves.length ∧
        (level hash leaves k)[2 * i]? = (level hash leaves k)[2 * i + 1]?) := by
  obtain ⟨d, r, hok, hmutated, hle, hlt, hroot, -⟩ := exists_merkleComputation hash hne hlength req
  exact ⟨r, hok, (root_eq_of_length_le hash hle hlt).trans hroot, hmutated⟩

/-- Five leaves, the last two of which are equal, but no siblings. -/
theorem merkleComputation_eq_levels_five :
    ∃ r, merkleComputation Nat.pair [0, 1, 2, 3, 3] ⟨false, 0⟩ = .ok r ∧
      root Nat.pair [0, 1, 2, 3, 3] = some r.root ∧ r.mutated = false := by
  obtain ⟨r, hok, hroot, -⟩ :=
    merkleComputation_eq_levels Nat.pair [0, 1, 2, 3, 3] ⟨false, 0⟩ (by decide) (by decide)
  have hmutated :
      (merkleComputation Nat.pair [0, 1, 2, 3, 3] ⟨false, 0⟩).toOption.map MerkleResult.mutated =
        some false := by decide +kernel
  rw [hok] at hmutated
  exact ⟨r, hok, hroot, Option.some.inj hmutated⟩

omit [DecidableEq α] [Inhabited α] in
theorem getElem?_computeMerkleRootFromBranch {pos : Nat} (branch : List α) :
    ∀ (k : Nat) (h : α), (level hash leaves k)[pos / 2 ^ k]? = some h →
    branch.map some = (List.range' k branch.length).map (sibling hash leaves pos) →
    (level hash leaves (k + branch.length))[pos / 2 ^ (k + branch.length)]? = some
    (computeMerkleRootFromBranch hash h branch (pos / 2 ^ k)) := by
  induction branch with
  | nil => exact fun k h hnode _ => hnode
  | cons node branch ih =>
    intro k h hnode hbranch
    rw [List.length_cons, List.range'_succ, List.map_cons, List.map_cons] at hbranch
    obtain ⟨hsibling, hrest⟩ := List.cons.inj hbranch
    have hup := ih (k + 1) _ (getElem?_level_sibling hash hnode hsibling.symm) hrest
    have hhalf : pos / 2 ^ k / 2 = pos / 2 ^ (k + 1) := by rw [pow_succ, Nat.div_div_eq_div_mul]
    rw [computeMerkleRootFromBranch, hhalf, ← hup, List.length_cons, Nat.add_right_comm, Nat.add_assoc]

/-- The branch of a position leads from its leaf to the root. -/
theorem computeMerkleRootFromBranch_eq_root (hash : α → α → α) (leaves : List α)
    (hlength : leaves.length < 2 ^ 31) (pos : Nat) (hpos : pos < leaves.length) :
    ∃ branch mutated, computeMerkleBranch hash leaves pos = .ok branch ∧
      computeMerkleRoot hash leaves =
        .ok (computeMerkleRootFromBranch hash (leaves.get ⟨pos, hpos⟩) branch pos, mutated) := by
  have hne : leaves ≠ [] := List.ne_nil_of_length_pos (by omega)
  obtain ⟨d, r, hok, -, hle, hlt, -, hbranch⟩ := exists_merkleComputation hash hne hlength ⟨true, pos⟩
  obtain ⟨d', r', hok', -, hle', hlt', hroot', -⟩ :=
    exists_merkleComputation hash hne hlength ⟨false, 2 ^ 32 - 1⟩
  have hpath := hbranch ⟨rfl, hpos⟩
  have hd : r.branch.length = d := by
    rw [← List.length_map some, hpath, List.length_map, List.length_range]
  have hzero : pos / 2 ^ d = 0 := Nat.div_eq_of_lt (by omega)
  have hnode : (level hash leaves 0)[pos / 2 ^ 0]? = some (leaves.get ⟨pos, hpos⟩) := by
    rw [pow_zero, Nat.div_one]
    exact List.getElem?_eq_getElem hpos
  have htop :=
    getElem?_computeMerkleRootFromBranch r.branch 0 _ hnode
      (by rw [hpath, hd, List.range_eq_range'])
  rw [Nat.zero_add, hd, hzero, pow_zero, Nat.div_one, ← root_eq_of_length_le hash hle hlt,
    root_eq_of_length_le hash hle' hlt', hroot'] at htop
  refine ⟨r.branch, r'.mutated, ?_, ?_⟩
  · rw [computeMerkleBranch, hok]
    rfl
  · rw [computeMerkleRoot, hok', ← Option.some.inj htop]
    rfl

/-- The fifth of five leaves, which is paired with itself twice. -/
theorem computeMerkleRootFromBranch_eq_root_five :
    ∃ branch mutated, computeMerkleBranch Nat.pair [0, 1, 2, 3, 4] 4 = .ok branch ∧ branch.length = 3 ∧
      computeMerkleRoot Nat.pair [0, 1, 2, 3, 4] =
        .ok (computeMerkleRootFromBranch Nat.pair 4 branch 4, mutated) := by
  obtain ⟨branch, mutated, hbranch, hroot⟩ :=
    computeMerkleRootFromBranch_eq_root Nat.pair [0, 1, 2, 3, 4] (by decide) 4 (by decide)
  have hthree : (computeMerkleBranch Nat.pair [0, 1, 2, 3, 4] 4).toOption.map List.length =
      some 3 := by decide +kernel
  rw [hbranch] at hthree
  exact ⟨branch, mutated, hbranch, Option.some.inj hthree, hroot⟩

/-- If the flag is not set, then the root determines the leaves. -/
theorem eq_of_computeMerkleRoot_eq (hash : α → α → α) (hinjective : Function.Injective2 hash)
    (leaves leaves' : List α) (hne : leaves ≠ []) (hne' : leaves' ≠ [])
    (hlength : leaves.length < 2 ^ 31) (hlength' : leaves'.length < 2 ^ 31)
    (hleaf : ∀ x ∈ leaves, ∀ a b, x ≠ hash a b) (hleaf' : ∀ x ∈ leaves', ∀ a b, x ≠ hash a b)
    (r : α) (h : computeMerkleRoot hash leaves = .ok (r, false))
    (h' : computeMerkleRoot hash leaves' = .ok (r, false)) : leaves = leaves' := by
  have hread : ∀ {leaves : List α}, leaves ≠ [] → leaves.length < 2 ^ 31 →
    computeMerkleRoot hash leaves = .ok (r, false) →
      root hash leaves = some r ∧ ¬ EqualSiblings hash leaves leaves.length := by
    intro leaves hne hlength h
    obtain ⟨d, result, hok, hmutated, hle, hlt, hroot, -⟩ :=
      exists_merkleComputation hash hne hlength ⟨false, 2 ^ 32 - 1⟩
    rw [computeMerkleRoot, hok] at h
    obtain ⟨rfl, hflag⟩ := Prod.mk.inj (Except.ok.inj h)
    refine ⟨(root_eq_of_length_le hash hle hlt).trans hroot, fun hequal => ?_⟩
    rw [← hmutated, hflag] at hequal
    exact Bool.false_ne_true hequal
  obtain ⟨hroot, hequal⟩ := hread hne hlength h
  obtain ⟨hroot', hequal'⟩ := hread hne' hlength' h'
  exact eq_of_root_eq hinjective hne hne' hleaf hleaf' hequal hequal' (hroot.trans hroot'.symm)

/-- An injective hash with odd values, for even leaves. -/
theorem eq_of_computeMerkleRoot_eq_three :
    ∃ r, computeMerkleRoot (fun a b => 2 * Nat.pair a b + 1) [0, 2, 4] = .ok (r, false) ∧
      computeMerkleRoot (fun a b => 2 * Nat.pair a b + 1) ((List.range 3).map (2 * ·)) =
        .ok (r, false) ∧ [0, 2, 4] = (List.range 3).map (2 * ·) := by
  have hinjective : Function.Injective2 fun a b : Nat => 2 * Nat.pair a b + 1 := by
    intro a a' b b' heq
    have hpair : Nat.pair a b = Nat.pair a' b' := Nat.eq_of_mul_eq_mul_left (by decide) (Nat.succ.inj heq)
    exact Nat.pair_eq_pair.mp hpair
  have hleaf : ∀ x : Nat, x % 2 = 0 → ∀ a b, x ≠ 2 * Nat.pair a b + 1 := by
    intro x hx a b
    omega
  have heven : ∀ x ∈ [0, 2, 4], x % 2 = 0 := by decide
  have heven' : ∀ x ∈ (List.range 3).map (2 * ·), x % 2 = 0 := by decide
  refine ⟨_, rfl, rfl, ?_⟩
  exact eq_of_computeMerkleRoot_eq _ hinjective [0, 2, 4] _ (by decide) (by decide) (by decide)
    (by decide) (fun x hx => hleaf x (heven x hx))
    (fun x hx => hleaf x (heven' x hx)) _ rfl rfl

end Results

end TscPow
