import TscPow.Base.OrderStatistic
import TscPow.Chain.Accept

/-!
# Time along the chains of the tree

The comments of `BlockStatus` promise that an accepted header is later than the median of its predecessors and not in the future. The guards for it in `ContextualCheckBlockHeader` and `AcceptBlock` first ask whether the block is a proof-of-stake block, which no block is, so they are never reached. In a run in which every header that enters the tree meets the two guards, the median time of every chain is monotone and a final transaction stays final.
-/

namespace TscPow

/-! ### Monotone medians -/

namespace BlockIndex

theorem getMedianTimePast_eq (i : BlockIndex) :
    i.getMedianTimePast = OrderStatistic.median i.recentTimes 0 := rfl

theorem recentTimes_child (i : BlockIndex) (header : BlockHeader) :
    (i.child header).recentTimes = (header.getBlockTime :: i.recentTimes).take medianTimeSpan := by
  simp [recentTimes, child, medianTimeSpan, List.take_take]

theorem getMedianTimePast_le_child {i : BlockIndex} {header : BlockHeader}
    (hlater : i.getMedianTimePast < header.getBlockTime) :
    i.getMedianTimePast ≤ (i.child header).getMedianTimePast := by
  rw [getMedianTimePast_eq, getMedianTimePast_eq, recentTimes_child]
  refine OrderStatistic.median_le_median_push ?_ ?_ hlater.le
  · simp [recentTimes, medianTimeSpan]
  · rw [recentTimes, List.length_map]
    exact List.length_take_le _ _

theorem eq_child_of_pprev {i parent : BlockIndex} (h : i.pprev = some parent) :
    i = parent.child i.header := by
  obtain ⟨header, _ | ⟨p, ancestors⟩⟩ := i
  · cases h
  · cases h
    rfl

/-- `i` lies on the chain that ends in `j`. -/
inductive OnChain (i : BlockIndex) : BlockIndex → Prop where
  | refl : OnChain i i
  | child {j : BlockIndex} (header : BlockHeader) : OnChain i j → OnChain i (j.child header)

theorem OnChain.nHeight_le {i j : BlockIndex} (h : OnChain i j) : i.nHeight ≤ j.nHeight := by
  induction h with
  | refl => exact le_rfl
  | child header _ ih => exact ih.trans (Nat.le_succ _)

theorem OnChain.trans {i j k : BlockIndex} (h : OnChain i j) (h' : OnChain j k) : OnChain i k := by
  induction h' with
  | refl => exact h
  | child header _ ih => exact .child header ih

theorem OnChain.getAncestor_eq {i j : BlockIndex} (h : OnChain i j) {height : Int}
    (hle : height ≤ i.nHeight) :
    j.getAncestor height = i.getAncestor height := by
  induction h with
  | refl => rfl
  | @child j header h ih =>
    rw [← ih]
    rcases lt_or_ge height 0 with hneg | hpos
    · rw [getAncestor, getAncestor, if_pos (Or.inl hneg), if_pos (Or.inl hneg)]
    · obtain ⟨n, rfl⟩ := Int.eq_ofNat_of_zero_le hpos
      have hlower := h.nHeight_le
      exact getAncestor_child (by omega)

theorem nHeight_eq_of_getAncestor {i j : BlockIndex} {height : Int}
    (h : j.getAncestor height = some i) : (i.nHeight : Int) = height := by
  rcases lt_or_ge height 0 with hneg | hpos
  · rw [getAncestor, if_pos (Or.inl hneg)] at h
    cases h
  · obtain ⟨n, rfl⟩ := Int.eq_ofNat_of_zero_le hpos
    exact congrArg Int.ofNat (nHeight_of_getAncestor h)

theorem onChain_of_getAncestor {i j : BlockIndex} {height : Int}
    (h : j.getAncestor height = some i) : i.OnChain j := by
  have hheight := nHeight_eq_of_getAncestor h
  obtain ⟨header, ancestors⟩ := j
  induction ancestors generalizing header with
  | nil =>
    have hzero : height = 0 := by
      rw [getAncestor] at h
      split at h
      · cases h
      · rename_i hrange
        change ¬ (height < 0 ∨ height > 0) at hrange
        omega
    subst hzero
    cases h
    exact .refl
  | cons parent ancestors ih =>
    rcases lt_trichotomy i.nHeight (ancestors.length + 1) with hlt | heq | hgt
    · refine .child header (ih parent ?_)
      rw [← hheight] at h ⊢
      exact (getAncestor_child (i := ⟨parent, ancestors⟩) (Nat.le_of_lt_succ hlt)).symm.trans h
    · have hself := getAncestor_self ⟨header, parent :: ancestors⟩
      rw [← hheight, heq] at h
      cases hself.symm.trans h
      exact .refl
    · rw [getAncestor, if_pos (Or.inr ?_)] at h
      · cases h
      · change height > (ancestors.length + 1 : Nat)
        omega

theorem OnChain.of_nHeight_le {i j k : BlockIndex} (hi : i.OnChain k) (hj : j.OnChain k)
    (hle : i.nHeight ≤ j.nHeight) : i.OnChain j := by
  have hancestor : j.getAncestor i.nHeight = some i := by
    rw [← hj.getAncestor_eq (by omega), hi.getAncestor_eq le_rfl, getAncestor_self]
  exact onChain_of_getAncestor hancestor

theorem OnChain.eq_of_nHeight_eq {i j : BlockIndex} (h : i.OnChain j)
    (heq : i.nHeight = j.nHeight) : i = j := by
  have hself := getAncestor_self j
  rw [← heq, h.getAncestor_eq le_rfl, getAncestor_self] at hself
  exact Option.some.inj hself

end BlockIndex

theorem isFinalTx_mono {tx : Tx} {h h' t t' : Int} (hheight : h ≤ h') (htime : t ≤ t')
    (hfinal : isFinalTx tx h t = true) :
    isFinalTx tx h' t' = true := by
  simp only [isFinalTx, Bool.or_eq_true, decide_eq_true_eq] at hfinal ⊢
  rcases hfinal with (hzero | hlock) | hsequence
  · exact .inl (.inl hzero)
  · refine .inl (.inr (hlock.trans_le ?_))
    by_cases hthreshold : (tx.nLockTime.toNat : Int) < LOCKTIME_THRESHOLD
    · rw [if_pos hthreshold, if_pos hthreshold]
      exact hheight
    · rw [if_neg hthreshold, if_neg hthreshold]
      exact htime
  · exact .inr hsequence

/-! ### Runs -/

/-- The tree, with the adjusted time at which each header entered it. -/
structure TimedTree where
  tree : BlockTree
  acceptedAt : Uint256 → Option Int

/-- A call of `AcceptBlockHeader` or `AcceptBlock`. -/
inductive Delivery where
  | ofHeader (ctx : AcceptContext) (block : BlockHeader)
  | ofBlock (ctx : AcceptContext) (block : Block)

namespace Delivery

def ctx : Delivery → AcceptContext
  | .ofHeader ctx _ => ctx
  | .ofBlock ctx _ => ctx

def blockHeader : Delivery → BlockHeader
  | .ofHeader _ block => block
  | .ofBlock _ block => block.header

def accept (env : Env) (tree : BlockTree) : Delivery → BlockTree
  | .ofHeader ctx block => (acceptBlockHeader env ctx tree block).1
  | .ofBlock ctx block => (acceptBlock env ctx tree block).1

theorem accepted (env : Env) (tree : BlockTree) (d : Delivery) :
    Accepted env d.ctx tree d.blockHeader (d.accept env tree) := by
  cases d with
  | ofHeader ctx block => exact accepted_acceptBlockHeader env ctx tree block
  | ofBlock ctx block => exact accepted_acceptBlock env ctx tree block

end Delivery

namespace TimedTree

def start (env : Env) (header : BlockHeader) : TimedTree :=
  ⟨BlockTree.genesis env.hashing header, fun _ => none⟩

def deliver (env : Env) (s : TimedTree) (d : Delivery) : TimedTree where
  tree := d.accept env s.tree
  acceptedAt hash :=
    if (s.tree.indexOf hash).isNone && ((d.accept env s.tree).indexOf hash).isSome then
      some d.ctx.nAdjustedTime
    else s.acceptedAt hash

/-- The two time rules for a header: later than the median of its predecessors, and at most the allowed drift ahead of the clock. -/
def OnTime (parent : BlockIndex) (header : BlockHeader) (nAdjustedTime : Int) : Prop :=
  parent.getMedianTimePast < header.getBlockTime ∧ header.getBlockTime ≤ futureDrift nAdjustedTime

/-- A header that is new and passes the checks of `AcceptBlockHeader` meets the two rules, although nothing enforces them. -/
def GuardsMet (env : Env) (s : TimedTree) (d : Delivery) : Prop :=
  ∀ prev, s.tree.indexOf (env.hashing.blockHash d.blockHeader) = none →
    (d.accept env s.tree).indexOf (env.hashing.blockHash d.blockHeader) ≠ none →
      checkNewHeader env d.ctx s.tree d.blockHeader = .ok prev →
        OnTime prev.index d.blockHeader d.ctx.nAdjustedTime

def Step (env : Env) (s t : TimedTree) : Prop := ∃ d, s.GuardsMet env d ∧ t = s.deliver env d

/-- Every accepted block but the genesis block was on time when it entered the tree. -/
def Timely (s : TimedTree) : Prop :=
  ∀ hash i parent, s.tree.indexOf hash = some i → i.pprev = some parent →
    ∃ nAdjustedTime, s.acceptedAt hash = some nAdjustedTime ∧ OnTime parent i.header nAdjustedTime

/-- The tree has the genesis block and is closed under parents. -/
structure Closed (env : Env) (s : TimedTree) : Prop where
  genesis : s.tree.indexOf env.params.hashGenesisBlock ≠ none
  parent : ∀ hash i parent, s.tree.indexOf hash = some i → i.pprev = some parent →
    ∃ hash', s.tree.indexOf hash' = some parent

section

variable {env : Env} {s t : TimedTree} {d : Delivery} {i j parent : BlockIndex} {hash : Uint256}

/-- A delivery changes no path, or adds the child of a known entry at the time of the delivery. -/
theorem deliver_cases (hclosed : s.Closed env) (d : Delivery) :
    (s.deliver env d).tree.indexOf = s.tree.indexOf ∧ (s.deliver env d).acceptedAt = s.acceptedAt ∨
      ∃ prev, s.tree.indexOf (env.hashing.blockHash d.blockHeader) = none ∧
        checkNewHeader env d.ctx s.tree d.blockHeader = .ok prev ∧
        (∀ hash, (s.deliver env d).tree.indexOf hash =
          if hash = env.hashing.blockHash d.blockHeader then some (prev.index.child d.blockHeader)
            else s.tree.indexOf hash) ∧
        ∀ hash, (s.deliver env d).acceptedAt hash =
          if hash = env.hashing.blockHash d.blockHeader then some d.ctx.nAdjustedTime
          else s.acceptedAt hash := by
  cases d.accepted env s.tree with
  | unchanged hindex =>
    refine .inl ⟨funext hindex, funext fun hash => ?_⟩
    simp only [deliver, hindex]
    cases s.tree.indexOf hash <;> rfl
  | added hnew hindex hchecked =>
    right
    have hne : env.hashing.blockHash d.blockHeader ≠ env.params.hashGenesisBlock :=
      fun h => hclosed.genesis (h ▸ hnew)
    obtain ⟨prev, hprev⟩ := hchecked.resolve_left hne
    rw [(newIndex_of_checkNewHeader hprev).2] at hindex
    refine ⟨prev, hnew, hprev, hindex, fun hash => ?_⟩
    simp only [deliver, hindex]
    by_cases h : hash = env.hashing.blockHash d.blockHeader
    · subst h
      simp [hnew]
    · cases s.tree.indexOf hash <;> simp [h]

theorem indexOf_of_checkNewHeader {tree : BlockTree} {ctx : AcceptContext} {block : BlockHeader}
    {prev : IndexEntry} (hprev : checkNewHeader env ctx tree block = .ok prev) :
    tree.indexOf block.hashPrevBlock = some prev.index := by
  rw [BlockTree.indexOf, (newIndex_of_checkNewHeader hprev).1]
  rfl

theorem Closed.deliver (hclosed : s.Closed env) (d : Delivery) : (s.deliver env d).Closed env := by
  rcases deliver_cases hclosed d with ⟨hindex, -⟩ | ⟨prev, hnew, hprev, hindex, -⟩
  · exact ⟨hindex ▸ hclosed.genesis, fun hash i parent hi => by
      rw [hindex] at hi ⊢
      exact hclosed.parent hash i parent hi⟩
  · have hold : ∀ hash i, s.tree.indexOf hash = some i →
        (s.deliver env d).tree.indexOf hash = some i := by
      intro hash i hi
      rw [hindex, if_neg (fun h => by rw [h, hnew] at hi; cases hi), hi]
    refine ⟨?_, fun hash i parent hi hparent => ?_⟩
    · obtain ⟨i, hi⟩ := Option.ne_none_iff_exists'.mp hclosed.genesis
      rw [hold _ i hi]
      exact Option.some_ne_none i
    · rw [hindex] at hi
      split at hi
      · cases hi
        cases hparent
        exact ⟨_, hold _ _ (indexOf_of_checkNewHeader hprev)⟩
      · obtain ⟨hash', hhash'⟩ := hclosed.parent hash i parent hi hparent
        exact ⟨hash', hold hash' parent hhash'⟩

theorem timely_deliver_iff (hclosed : s.Closed env) (htimely : s.Timely) (d : Delivery) :
    (s.deliver env d).Timely ↔ s.GuardsMet env d := by
  rcases deliver_cases hclosed d with ⟨hindex, hat⟩ | ⟨prev, hnew, hprev, hindex, hat⟩
  · refine iff_of_true ?_ ?_
    · rw [Timely, hindex, hat]
      exact htimely
    · intro prev hnone hsome _
      have : (d.accept env s.tree).indexOf = s.tree.indexOf := hindex
      exact absurd hnone (this ▸ hsome)
  · constructor
    · intro htimely' prev' _ _ hprev'
      obtain rfl : prev = prev' := Except.ok.inj (hprev.symm.trans hprev')
      obtain ⟨nAdjustedTime, htime, honTime⟩ :=
        htimely' (env.hashing.blockHash d.blockHeader) (prev.index.child d.blockHeader)
        prev.index (by rw [hindex, if_pos rfl]) rfl
      rw [hat, if_pos rfl] at htime
      cases htime
      exact honTime
    · intro hguards hash i parent hi hparent
      have honTime := hguards prev hnew (by
        rw [show (d.accept env s.tree).indexOf _ = _ from hindex _, if_pos rfl]
        exact Option.some_ne_none _) hprev
      rw [hindex] at hi
      rw [hat]
      split at hi
      · cases hi
        cases hparent
        exact ⟨d.ctx.nAdjustedTime, if_pos ‹_›, honTime⟩
      · rw [if_neg ‹_›]
        exact htimely hash i parent hi hparent

/-! ### Consequences of a timely tree -/

theorem Timely.getMedianTimePast_le (htimely : s.Timely) (hi : s.tree.indexOf hash = some i)
    (hparent : i.pprev = some parent) :
    parent.getMedianTimePast ≤ i.getMedianTimePast := by
  obtain ⟨_, -, hlater, -⟩ := htimely hash i parent hi hparent
  rw [BlockIndex.eq_child_of_pprev hparent]
  exact BlockIndex.getMedianTimePast_le_child hlater

theorem Timely.getMedianTimePast_le_of_onChain (hclosed : s.Closed env) (htimely : s.Timely)
    (honChain : i.OnChain j) (hj : s.tree.indexOf hash = some j) :
    i.getMedianTimePast ≤ j.getMedianTimePast := by
  induction honChain generalizing hash with
  | refl => exact le_rfl
  | @child k header _ ih =>
    obtain ⟨hash', hk⟩ := hclosed.parent hash _ k hj rfl
    exact (ih hk).trans (htimely.getMedianTimePast_le hj rfl)

theorem Timely.isFinalTx_of_onChain (hclosed : s.Closed env) (htimely : s.Timely)
    {later : BlockHeader} {tx : Tx} (honChain : i.OnChain j)
    (hj : s.tree.indexOf hash = some (j.child later))
    (hfinal : isFinalTx tx (i.nHeight + 1) i.getMedianTimePast = true) :
    isFinalTx tx (j.nHeight + 1) j.getMedianTimePast = true := by
  obtain ⟨hash', hj'⟩ := hclosed.parent hash _ j hj rfl
  have hheight : (i.nHeight : Int) + 1 ≤ j.nHeight + 1 := by
    have := honChain.nHeight_le
    omega
  exact isFinalTx_mono hheight (htimely.getMedianTimePast_le_of_onChain hclosed honChain hj') hfinal

/-! ### Every run -/

theorem closed_start {header : BlockHeader}
    (hgenesis : env.hashing.blockHash header = env.params.hashGenesisBlock) :
    (start env header).Closed env := by
  refine ⟨by simp [start, BlockTree.genesis, BlockTree.indexOf, hgenesis],
    fun hash i parent hi hparent => ?_⟩
  simp only [start, BlockTree.genesis, BlockTree.indexOf, Function.update_apply] at hi
  split at hi <;> cases hi
  cases hparent

theorem timely_start (env : Env) (header : BlockHeader) : (start env header).Timely := by
  intro hash i parent hi hparent
  simp only [start, BlockTree.genesis, BlockTree.indexOf, Function.update_apply] at hi
  split at hi <;> cases hi
  cases hparent

/-- In every run from the genesis block in which the headers that enter the tree meet the guards, every accepted block is on time, the median time does not fall from a parent to its child, and finality lasts. In every state of such a run a delivery keeps the blocks on time only if it meets the guards. -/
theorem timely_of_steps {header : BlockHeader}
    (hgenesis : env.hashing.blockHash header = env.params.hashGenesisBlock)
    (hrun : Relation.ReflTransGen (Step env) (start env header) s) :
    s.Timely ∧
      (∀ hash i parent, s.tree.indexOf hash = some i → i.pprev = some parent →
        parent.getMedianTimePast ≤ i.getMedianTimePast) ∧
      (∀ hash (i j : BlockIndex) (later : BlockHeader) (tx : Tx), i.OnChain j →
        s.tree.indexOf hash = some (j.child later) →
        isFinalTx tx (i.nHeight + 1) i.getMedianTimePast = true →
          isFinalTx tx (j.nHeight + 1) j.getMedianTimePast = true) ∧
      ∀ d, (s.deliver env d).Timely ↔ s.GuardsMet env d := by
  have hinv : s.Closed env ∧ s.Timely := by
    induction hrun with
    | refl => exact ⟨closed_start hgenesis, timely_start env header⟩
    | tail _ hstep ih =>
      obtain ⟨d, hguards, rfl⟩ := hstep
      exact ⟨ih.1.deliver d, (timely_deliver_iff ih.1 ih.2 d).mpr hguards⟩
  obtain ⟨hclosed, htimely⟩ := hinv
  refine ⟨htimely, fun hash i parent hi hparent => htimely.getMedianTimePast_le hi hparent, ?_,
    timely_deliver_iff hclosed htimely⟩
  intro hash i j later tx honChain hj hfinal
  exact htimely.isFinalTx_of_onChain hclosed honChain hj hfinal

end

end TimedTree

/-! ### Two runs on a sample network -/

namespace TimeSample

def network : Env where
  hashing :=
    ⟨fun tx => Uint256.ofNat tx.nLockTime.toNat, fun header => Uint256.ofNat header.nTime.toNat,
      fun _ => (Uint256.ofNat 0, false)⟩
  interpreter := ⟨fun _ => false, fun _ _ _ _ => none, fun _ _ _ => 0⟩
  params := { mainParams with hashGenesisBlock := Uint256.ofNat 100 }
  csvActive _ := true
  segwitActive _ := false

def header (prev nTime : Nat) : BlockHeader :=
  { (default : BlockHeader) with
    nVersion := 4, hashPrevBlock := Uint256.ofNat prev, nTime := BitVec.ofNat 32 nTime,
      nBits := 0x1f00ffff }

def ctx : AcceptContext where
  nAdjustedTime := 110
  tip := ⟨header 0 100, []⟩
  checkpoints := []
  nMinimumChainWork := 0
  limits := Limits.ofBlockSize 2000000
  fRequested := false
  witnessHash _ := []

def start : TimedTree := TimedTree.start network (header 0 100)

end TimeSample

open TimeSample in
theorem timely_of_steps_timeSample :
    let s := start.deliver network (.ofHeader ctx (header 100 105))
    Relation.ReflTransGen (TimedTree.Step network) start s ∧
      s.tree.indexOf (Uint256.ofNat 105) = some ⟨header 100 105, [header 0 100]⟩ ∧ s.Timely := by
  have hguards : start.GuardsMet network (.ofHeader ctx (header 100 105)) := by
    intro prev _ _ hprev
    have hgenesis : start.tree.indexOf (Uint256.ofNat 100) = some ⟨header 0 100, []⟩ := by decide +kernel
    have hindex := Option.some.inj (hgenesis.symm.trans (TimedTree.indexOf_of_checkNewHeader hprev))
    rw [← hindex, TimedTree.OnTime]
    decide +kernel
  have hrun : Relation.ReflTransGen (TimedTree.Step network) start _ := .single ⟨_, hguards, rfl⟩
  exact ⟨hrun, by decide +kernel, (TimedTree.timely_of_steps (by decide +kernel) hrun).1⟩

open TimeSample in
/-- Headers of times 50 and 40 are accepted one after the other on top of a genesis block of time 100: neither is later than the median of its predecessors, and the median falls to 50. -/
theorem median_falls :
    let s := (start.deliver network (.ofHeader ctx (header 100 50))).deliver network
      (.ofHeader ctx (header 50 40))
    s.tree.indexOf (Uint256.ofNat 50) = some ⟨header 100 50, [header 0 100]⟩ ∧
      s.tree.indexOf (Uint256.ofNat 40) = some ⟨header 50 40, [header 100 50, header 0 100]⟩ ∧
        ¬ s.Timely ∧
          (⟨header 100 50, [header 0 100]⟩ : BlockIndex).getMedianTimePast = 100 ∧
            (⟨header 50 40, [header 100 50, header 0 100]⟩ : BlockIndex).getMedianTimePast = 50 := by
  intro s
  have hearly : s.tree.indexOf (Uint256.ofNat 50) = some ⟨header 100 50, [header 0 100]⟩ := by
    decide +kernel
  refine ⟨hearly, by decide +kernel, fun htimely => ?_, by decide +kernel, by decide +kernel⟩
  obtain ⟨_, -, hlater, -⟩ := htimely _ _ _ hearly rfl
  exact absurd hlater (by decide +kernel)

end TscPow
