import TscPow.Base.Branch
import TscPow.Node.ProcessNewBlock

/-!
# Choosing the active chain

`ReceivedBlockTransactions`, `FindMostWorkChain` and `ActivateBestChain` (`validation.cpp`) decide which of the stored branches is active: the one with the most work, the first received among equals. Together with them `ProcessNewBlock` is a function of the node and the block. `ActivateBestChain` gives up its lock now and then while it connects a long branch and then goes on with the same one; those pauses are not represented.
-/

namespace TscPow

abbrev chainTip (genesis : Block) (above : List Block) : Block := KeyedTree.last genesis above

def chainIndex (genesis : Block) (above : List Block) : BlockIndex :=
  above.foldl (fun i block => i.child block.header) ⟨genesis.header, []⟩

namespace TipState

def tip (s : TipState) : Block := chainTip s.genesis s.above

def index (s : TipState) : BlockIndex := chainIndex s.genesis s.above

end TipState

/-- A node with what chooses its tip. `sequence` lists the blocks that have `nChainTx`, that is their data and that of all their ancestors, by `nSequenceId`. -/
structure ChainNode extends Node where
  sequence : List Uint256
  setBlockIndexCandidates : List Uint256
  mapBlocksUnlinked : List (Uint256 × Uint256)

namespace ChainNode

variable (n : NodeEnv)

def tipHash (s : ChainNode) : Uint256 := n.hash s.active.tip

def chainWork (s : ChainNode) (hash : Uint256) : Nat := (s.tree.indexOf hash).elim 0 BlockIndex.nChainWork

/-- `CBlockIndexWorkComparator`. Two different blocks in the sequence never have the same number, so pointers are not compared. -/
def worse (s : ChainNode) (a b : Uint256) : Bool :=
  decide (s.chainWork a < s.chainWork b) ||
    s.chainWork a == s.chainWork b && decide (s.sequence.idxOf b < s.sequence.idxOf a)

/-! ### A block gets its data -/

/-- The blocks in `mapBlocksUnlinked` that wait for a parent. -/
def waitingFor (s : ChainNode) (pindex : Uint256) : List Uint256 :=
  (s.mapBlocksUnlinked.filter (·.1 = pindex)).map Prod.snd

/-- A block is numbered and becomes a candidate unless it is worse than the tip; nothing waits for it any more. -/
def link (s : ChainNode) (pindex : Uint256) : ChainNode :=
  let numbered := { s with sequence := s.sequence ++ [pindex] }
  { numbered with
    setBlockIndexCandidates :=
      if numbered.worse pindex (s.tipHash n) then s.setBlockIndexCandidates
      else s.setBlockIndexCandidates ++ [pindex]
    mapBlocksUnlinked := s.mapBlocksUnlinked.filter (·.1 ≠ pindex) }

theorem length_unlinked (s : ChainNode) (pindex : Uint256) :
    s.mapBlocksUnlinked.length =
      (s.waitingFor pindex).length + (s.link n pindex).mapBlocksUnlinked.length := by
  rw [waitingFor, List.length_map, List.length_eq_length_filter_add fun p => decide (p.1 = pindex)]
  simp only [link, ne_eq, decide_not]

/-- The queue of `ReceivedBlockTransactions`: after a block come those that waited for it. -/
def linkQueue (s : ChainNode) : List Uint256 → ChainNode
  | [] => s
  | pindex :: queue => (s.link n pindex).linkQueue (queue ++ s.waitingFor pindex)
termination_by queue => queue.length + s.mapBlocksUnlinked.length
decreasing_by
  rw [length_unlinked n s pindex, List.length_append, List.length_cons]
  omega

/-- `ReceivedBlockTransactions`, for the block under a hash whose entry has its data now. -/
def receivedBlock (s : ChainNode) (hash : Uint256) : ChainNode :=
  match (s.tree.indexOf hash).bind BlockIndex.pprev with
  | none => s.linkQueue n [hash]
  | some prev =>
    let prevHash := n.env.hashing.blockHash prev.header
    if prevHash ∈ s.sequence then s.linkQueue n [hash]
    else if (s.tree.mapBlockIndex prevHash).any (·.isValid BLOCK_VALID_TREE) then
      { s with mapBlocksUnlinked := s.mapBlocksUnlinked ++ [(prevHash, hash)] }
    else s

/-! ### The best candidate -/

def better (s : ChainNode) (best : Option Uint256) (hash : Uint256) : Option Uint256 :=
  some (best.elim hash fun b => if s.worse b hash then hash else b)

/-- The last element of `setBlockIndexCandidates` in its order. -/
def bestCandidate (s : ChainNode) : Option Uint256 := s.setBlockIndexCandidates.foldl s.better none

/-- The blocks from the one under a hash down to the active chain, without the block where they meet. -/
def branch (s : ChainNode) (hash : Uint256) : List Uint256 :=
  (s.tree.indexOf hash).elim [] fun i =>
    ((i.header :: i.ancestors).map n.env.hashing.blockHash).takeWhile fun h =>
      decide (h ∉ s.activeHashes n)

def failedChain (s : ChainNode) (hash : Uint256) : Bool :=
  (s.tree.mapBlockIndex hash).any IndexEntry.failed

/-- A block of a branch that cannot be connected: it or an ancestor failed, or its data is missing. -/
def unusable (s : ChainNode) (hash : Uint256) : Bool := s.failedChain hash || !s.tree.hasData hash

/-- `FindMostWorkChain` drops the candidate and the blocks of its branch down to the unusable one. -/
def dropBranch (s : ChainNode) (best test : Uint256) : ChainNode :=
  let dropped := (s.branch n best).takeWhile (· ≠ test)
  let s := { s with
    setBlockIndexCandidates := s.setBlockIndexCandidates.filter fun h =>
      h ≠ best ∧ h ∉ dropped ∧ h ≠ test }
  if s.failedChain test then
    { s with
      tree := dropped.foldl (fun tree h => tree.modify h fun e => { e with failedChild := true }) s.tree }
  else { s with mapBlocksUnlinked := s.mapBlocksUnlinked ++ (dropped ++ [test]).tail.zip dropped }

theorem mem_of_foldl_better {s : ChainNode} {candidates : List Uint256} {start : Option Uint256}
    {best : Uint256} (h : candidates.foldl s.better start = some best) :
    start = some best ∨ best ∈ candidates := by
  induction candidates generalizing start with
  | nil => exact .inl h
  | cons hash candidates ih =>
    rcases ih h with h | h
    · rw [better, Option.some.injEq] at h
      cases start with
      | none => exact .inr (h ▸ List.mem_cons_self)
      | some b =>
        rw [Option.elim_some] at h
        split at h
        · exact .inr (h ▸ List.mem_cons_self)
        · exact .inl (congrArg some h)
    · exact .inr (List.mem_cons_of_mem _ h)

theorem mem_of_bestCandidate {s : ChainNode} {best : Uint256} (h : s.bestCandidate = some best) :
    best ∈ s.setBlockIndexCandidates :=
  (mem_of_foldl_better h).resolve_left (by simp)

theorem candidates_dropBranch (s : ChainNode) (best test : Uint256) :
    (s.dropBranch n best test).setBlockIndexCandidates =
      s.setBlockIndexCandidates.filter fun h => h ≠ best ∧
        h ∉ (s.branch n best).takeWhile (· ≠ test) ∧ h ≠ test := by
  rw [dropBranch]
  split <;> rfl

def findMostWorkChain (s : ChainNode) : ChainNode × Option Uint256 :=
  match _hbest : s.bestCandidate with
  | none => (s, none)
  | some best =>
    match (s.branch n best).find? s.unusable with
    | none => (s, some best)
    | some test => (s.dropBranch n best test).findMostWorkChain
termination_by s.setBlockIndexCandidates.length
decreasing_by
  rw [candidates_dropBranch]
  exact List.length_filter_lt_length_iff_exists.mpr ⟨best, mem_of_bestCandidate (by assumption), by simp⟩

/-! ### Moving the tip -/

def pruneBlockIndexCandidates (s : ChainNode) : ChainNode :=
  { s with setBlockIndexCandidates := s.setBlockIndexCandidates.filter fun h => !s.worse h (s.tipHash n) }

def invalidBlockFound (s : ChainNode) (hash : Uint256) : ChainNode :=
  { s with
    tree := { s.tree.modify hash fun e => { e with failedValid := true } with
      failedBlocks := s.tree.failedBlocks ++ (s.tree.indexOf hash).toList }
    setBlockIndexCandidates := s.setBlockIndexCandidates.filter (· ≠ hash) }

/-- How `ConnectTip` ends: the block is the new tip, it breaks a rule, or its data cannot be read. -/
inductive Connected where
  | connected
  | invalid
  | aborted
deriving DecidableEq

/-- `ConnectTip`, with the candidates pruned after a success. -/
def connectTip (s : ChainNode) (hash : Uint256) : Except Fault (ChainNode × Connected) :=
  match s.data hash with
  | none => .ok (s, .aborted)
  | some block =>
    if n.connectable s.active.chain block then do
      let active ← s.active.move n.tickets (.connect block)
      return (({ s with active } : ChainNode).pruneBlockIndexCandidates n, .connected)
    else .ok (s.invalidBlockFound hash, .invalid)

def connectBranch (s : ChainNode) : List Uint256 → Except Fault (ChainNode × Connected)
  | [] => .ok (s, .connected)
  | hash :: rest => do
    match ← s.connectTip n hash with
    | (s, .connected) => s.connectBranch rest
    | (s, result) => return (s, result)

def disconnectTips (s : ChainNode) : Nat → Except Fault ChainNode
  | 0 => .ok s
  | k + 1 => do
    let active ← s.active.move n.tickets .disconnect
    ({ s with active } : ChainNode).disconnectTips k

/-- How many blocks of the active chain lie above `FindFork`. -/
def aboveFork (s : ChainNode) (hash : Uint256) : Nat :=
  (s.tree.indexOf hash).elim 0 fun i => s.active.height - (i.nHeight - (s.branch n hash).length)

/-- `ActivateBestChain`. A further round follows only after a block was found invalid, which takes a candidate away. -/
def activateBestChain (s : ChainNode) : Nat → Except Fault (ChainNode × Bool)
  | 0 => .ok (s, true)
  | rounds + 1 =>
    match s.findMostWorkChain n with
    | (s, none) => .ok (s, true)
    | (s, some best) =>
      if best = s.tipHash n then .ok (s, true)
      else do
        let forked ← s.disconnectTips n (s.aboveFork n best)
        match ← forked.connectBranch n (s.branch n best).reverse with
        | (s, .connected) => return (s, true)
        | (s, .invalid) => s.activateBestChain rounds
        | (s, .aborted) => return (s, false)

/-- `ProcessNewBlock`, with its verdict. -/
def processNewBlock (ctx : AcceptContext) (s : ChainNode) (block : Block) :
    Except Fault (ChainNode × Bool) := do
  let (node, verdict) ← s.toNode.processNewBlock n { ctx with tip := s.active.index } block
  let stored : ChainNode := { s with toNode := node }
  if verdict then
    let stored := if !s.tree.hasData (n.hash block) && node.tree.hasData (n.hash block) then
      stored.receivedBlock n (n.hash block) else stored
    stored.activateBestChain n (stored.setBlockIndexCandidates.length + 1)
  else return (stored, false)

end ChainNode

end TscPow
