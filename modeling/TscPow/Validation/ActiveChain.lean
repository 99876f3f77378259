import TscPow.Chain.Accept
import TscPow.Validation.Money

/-!
# Chains of accepted blocks

The chain that a node builds from the genesis block up, one block at a time: the block names the tip as its parent and its hash is new, as the block index requires, it passes `CheckBlock` and `ContextualCheckBlock`, and `ConnectBlock` turns the state of the tip into the state of the new one. A statement about accepted chains is a statement about every `ActiveChain`.
-/

namespace TscPow

/-- The active chain and what `ConnectBlock` has left at its tip: the unspent coins, the contract state, the block size in force and the recorded money supply. -/
structure ChainState (World : Type) where
  genesis : Block
  above : List Block
  view : CoinsView
  world : World
  dgpMaxBlockSize : Nat
  nMoneySupply : Nat

namespace ChainState

variable {World : Type}

def chain (s : ChainState World) : List Block := s.genesis :: s.above

def height (s : ChainState World) : Nat := s.above.length

def tip (s : ChainState World) : BlockIndex :=
  s.above.foldl (fun i block => i.child block.header) ⟨s.genesis.header, []⟩

def connectInput (s : ChainState World) (fScriptChecks scriptCheckThreads : Bool) (block : Block) :
    ConnectInput World where
  block
  pindex := s.tip.child block.header
  view := s.view
  world := s.world
  dgpMaxBlockSize := s.dgpMaxBlockSize
  nMoneySupply := s.nMoneySupply
  fJustCheck := false
  fScriptChecks
  scriptCheckThreads
  phashBlock := true

variable (env : Env) (contracts : Contracts World)

def connected (s : ChainState World) (x : ConnectInput World) (out : ConnectOutput World) :
    ChainState World where
  genesis := s.genesis
  above := s.above ++ [x.block]
  view := out.view
  world := out.world
  dgpMaxBlockSize := (x.limits contracts).dgpMaxBlockSize
  nMoneySupply := out.nMoneySupply

/-- `CheckBlock`, `ContextualCheckBlock` and `ConnectBlock` for a block on top of the tip. -/
def accept (ctx : AcceptContext) (fScriptChecks scriptCheckThreads : Bool) (s : ChainState World)
    (block : Block) :
    Validation (ChainState World) := do
  checkNewBlock env ctx block (s.tip.child block.header)
  let x := s.connectInput fScriptChecks scriptCheckThreads block
  let out ← connectBlock env contracts x
  return s.connected contracts x out

/-- The state with the genesis block alone. Its outputs are never spendable. -/
structure Start (s : ChainState World) : Prop where
  genesis : env.hashing.blockHash s.genesis.header = env.params.hashGenesisBlock
  above : s.above = []
  coins : ∀ o, s.view.coin o = none
  bestBlock : s.view.bestBlock = env.params.hashGenesisBlock
  nMoneySupply : s.nMoneySupply = 0

/-- One more block is accepted. The clock, the limits for `CheckBlock` and the way scripts are checked may differ from block to block. -/
structure Extends (s : ChainState World) (block : Block) (t : ChainState World) : Prop where
  parent : block.hashPrevBlock = env.hashing.blockHash s.tip.header
  fresh : ∀ b ∈ s.chain, env.hashing.blockHash block.header ≠ env.hashing.blockHash b.header
  accepted : ∃ ctx fScriptChecks scriptCheckThreads,
    s.accept env contracts ctx fScriptChecks scriptCheckThreads block = .ok t

inductive Reachable : ChainState World → Prop
  | start {s : ChainState World} (h : s.Start env) : Reachable s
  | extend {s t : ChainState World} {block : Block} (hs : Reachable s)
      (h : s.Extends env contracts block t) : Reachable t

end ChainState

structure ActiveChain {World : Type} (env : Env) (contracts : Contracts World) where
  state : ChainState World
  reachable : state.Reachable env contracts

/-! ### What acceptance says about a block -/

section

variable {World : Type} {env : Env} {contracts : Contracts World} {s t : ChainState World} {block : Block}

theorem vout_ne_nil_of_checkTransaction {interpreter : Interpreter} {limits : Limits} {tx : Tx}
    {fCheckDuplicateInputs : Bool}
    (h : checkTransaction interpreter limits tx fCheckDuplicateInputs = .ok ()) : tx.vout ≠ [] := by
  simp only [checkTransaction, Except.bind_eq_ok_iff, rule_eq_ok_iff] at h
  obtain ⟨-, -, -, hvout, -⟩ := h
  exact hvout

namespace ChainState

theorem Extends.above_eq (h : s.Extends env contracts block t) :
    t.genesis = s.genesis ∧ t.above = s.above ++ [block] := by
  obtain ⟨ctx, fScriptChecks, scriptCheckThreads, hok⟩ := h.accepted
  simp only [accept, Except.bind_eq_ok_iff, Except.pure_eq_ok_iff] at hok
  obtain ⟨-, -, out, -, rfl⟩ := hok
  exact ⟨rfl, rfl⟩

theorem Extends.checkBlock (h : s.Extends env contracts block t) :
    ∃ limits, checkBlock env limits block true true = .ok () := by
  obtain ⟨ctx, fScriptChecks, scriptCheckThreads, hok⟩ := h.accepted
  simp only [accept, checkNewBlock, Except.bind_eq_ok_iff] at hok
  obtain ⟨⟨⟩, ⟨⟨⟩, hcheck, -⟩, -⟩ := hok
  exact ⟨ctx.limits, hcheck⟩

theorem Reachable.genesis (h : s.Reachable env contracts) :
    env.hashing.blockHash s.genesis.header = env.params.hashGenesisBlock := by
  induction h with
  | start h => exact h.genesis
  | extend _ hext ih => rwa [hext.above_eq.1]

theorem Reachable.ne_genesis (h : s.Reachable env contracts) (hext : s.Extends env contracts block t) :
    env.hashing.blockHash block.header ≠ env.params.hashGenesisBlock := by
  rw [← h.genesis]
  exact hext.fresh _ List.mem_cons_self

theorem Reachable.checkBlock (h : s.Reachable env contracts) :
    ∀ b ∈ s.above, ∃ limits, checkBlock env limits b true true = .ok () := by
  induction h with
  | start h => simp [h.above]
  | extend _ hext ih =>
    intro b hb
    rw [hext.above_eq.2, List.mem_append, List.mem_singleton] at hb
    rcases hb with hb | rfl
    · exact ih b hb
    · exact hext.checkBlock

theorem Reachable.vout_ne_nil (h : s.Reachable env contracts) {b : Block} (hb : b ∈ s.above)
    {tx : Tx} (htx : tx ∈ b.vtx) :
    tx.vout ≠ [] := by
  obtain ⟨limits, hcheck⟩ := h.checkBlock b hb
  exact vout_ne_nil_of_checkTransaction (checkTransaction_of_checkBlock hcheck htx)

theorem nHeight_tip (s : ChainState World) : s.tip.nHeight = s.height := by
  have hfold : ∀ (blocks : List Block) (i : BlockIndex),
      (blocks.foldl (fun i block => i.child block.header) i).nHeight = i.nHeight + blocks.length := by
    intro blocks
    induction blocks with
    | nil => intro i; rfl
    | cons b blocks ih =>
      intro i
      rw [List.foldl_cons, ih, BlockIndex.nHeight_child, List.length_cons]
      omega
  exact (hfold s.above _).trans (Nat.zero_add _)

end ChainState

end

end TscPow
