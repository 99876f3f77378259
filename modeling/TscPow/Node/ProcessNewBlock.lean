import TscPow.Chain.Accept
import TscPow.Ticket.Signatures

/-!
# A node receiving blocks

`ProcessNewBlock` (`validation.cpp`) checks the signatures of the lucky tickets against the active tip and the global pool, then runs `CheckBlock` and `AcceptBlock`. `ActivateBestChain` afterwards connects stored blocks on top of the tip and disconnects the tip; which branch it prefers is left open, so every order of such tip changes is a run. The verdict of `ConnectBlock` enters as a parameter.
-/

namespace TscPow

/-- The network rules, key recovery, and what the ticket pool takes from the node. `connectable` is the verdict of `ConnectBlock` for a block on top of a chain. -/
structure NodeEnv where
  env : Env
  extractDestination : Script → Destination
  readBlockFromDisk : Block → Bool
  recover : Recover
  connectable : List Block → Block → Bool

namespace NodeEnv

def tickets (n : NodeEnv) : TicketEnv := ⟨n.env.hashing, n.extractDestination, n.readBlockFromDisk⟩

def hash (n : NodeEnv) (block : Block) : Uint256 := n.env.hashing.blockHash block.header

/-- The hashes of the headers below an entry, the parent's first. -/
def parentHashes (n : NodeEnv) (i : BlockIndex) : List Uint256 := i.ancestors.map n.env.hashing.blockHash

end NodeEnv

/-- The block tree, the block data on disk, and the active chain with the ticket pool. `delivered` marks the hashes whose data came through `ProcessNewBlock` in the run; the code does not keep it. -/
structure Node where
  tree : BlockTree
  data : Uint256 → Option Block
  active : TipState
  delivered : Uint256 → Bool

namespace Node

variable (n : NodeEnv)

/-- The hashes of the active chain, from the tip down. -/
def activeHashes (s : Node) : List Uint256 := (s.active.chain.map n.hash).reverse

/-- The effect of `AcceptBlock` on the node: a new block is written to disk. -/
def store (s : Node) (block : Block) : BlockTree × Validation (Uint256 × Bool) →
    Except Fault (Node × Bool)
  | (tree, .ok (hash, true)) =>
    .ok ({ s with
      tree
      data := Function.update s.data hash (some block)
      delivered := Function.update s.delivered hash true }, true)
  | (tree, .ok (_, false)) => .ok ({ s with tree }, true)
  | (tree, .error (.invalid _)) => .ok ({ s with tree }, false)
  | (_, .error (.fault fault)) => .error fault

/-- `ProcessNewBlock` up to `ActivateBestChain`, with its verdict. -/
def processNewBlock (ctx : AcceptContext) (s : Node) (block : Block) : Except Fault (Node × Bool) := do
  let signed ← checkLuckySignatures n.tickets n.recover s.active block
  if signed then
    match checkBlock n.env ctx.limits block true true with
    | .ok () => s.store block (acceptBlock n.env ctx s.tree block)
    | .error (.invalid _) => return (s, false)
    | .error (.fault fault) => .error fault
  else return (s, false)

/-- What can happen to a node: a block or a header arrives, or `ActivateBestChain` connects the block under a hash or disconnects the tip. -/
inductive Event where
  | process (ctx : AcceptContext) (block : Block)
  | header (ctx : AcceptContext) (block : BlockHeader)
  | connect (hash : Uint256)
  | disconnect

/-- `ConnectTip`, for an entry whose parent is the active tip and whose data is there. -/
def connectTip (s : Node) (hash : Uint256) : Except Fault Node :=
  match s.tree.indexOf hash, s.data hash with
  | some i, some block =>
    if n.parentHashes i = s.activeHashes n ∧ n.connectable s.active.chain block then do
      let active ← s.active.move n.tickets (.connect block)
      return { s with active }
    else .ok s
  | _, _ => .ok s

def step (s : Node) : Event → Except Fault Node
  | .process ctx block => do
    let (t, _) ← s.processNewBlock n ctx block
    return t
  | .header ctx block => .ok { s with tree := (acceptBlockHeader n.env ctx s.tree block).1 }
  | .connect hash => s.connectTip n hash
  | .disconnect => do
    let active ← s.active.move n.tickets .disconnect
    return { s with active }

/-! ### What a step can do -/

section

variable {n} {s t : Node} {ctx : AcceptContext} {block : Block}

theorem active_of_updateTip {env : TicketEnv} {a b : TipState} (h : a.updateTip env = .ok b) :
    b.genesis = a.genesis ∧ b.above = a.above := by
  rw [TipState.updateTip] at h
  split at h
  · obtain ⟨pool, -, hb⟩ := Except.bind_eq_ok_iff.mp h
    cases hb
    exact ⟨rfl, rfl⟩
  · cases h
    exact ⟨rfl, rfl⟩

theorem processNewBlock_of_checked (ctx : AcceptContext)
    (hsigned : checkLuckySignatures n.tickets n.recover s.active block = .ok true)
    (hblock : checkBlock n.env ctx.limits block true true = .ok ()) :
    s.processNewBlock n ctx block = s.store block (acceptBlock n.env ctx s.tree block) := by
  rw [processNewBlock, hsigned, Except.ok_bind, if_pos rfl]
  simp only [hblock]

theorem processNewBlock_cases {verdict : Bool} (h : s.processNewBlock n ctx block = .ok (t, verdict)) :
    (t = s ∨ t = { s with tree := (acceptBlock n.env ctx s.tree block).1 } ∧
        ∀ hash, (acceptBlock n.env ctx s.tree block).1.hasData hash = s.tree.hasData hash) ∨
      checkLuckySignatures n.tickets n.recover s.active block = .ok true ∧
        s.tree.hasData (n.hash block) = false ∧
        t = { s with
          tree := (acceptBlock n.env ctx s.tree block).1
          data := Function.update s.data (n.hash block) (some block)
          delivered := Function.update s.delivered (n.hash block) true } ∧
        ∀ hash, t.tree.hasData hash = if hash = n.hash block then true else s.tree.hasData hash := by
  rw [processNewBlock, Except.bind_eq_ok_iff] at h
  obtain ⟨signed, hsigned, h⟩ := h
  cases signed with
  | false =>
    cases h
    exact .inl (.inl rfl)
  | true =>
    rw [if_pos rfl] at h
    split at h
    · rcases hasData_acceptBlock n.env ctx s.tree block with ⟨hdata, hnew⟩ | ⟨hresult, hnone, hdata⟩
      · left
        right
        generalize acceptBlock n.env ctx s.tree block = call at h hdata hnew ⊢
        obtain ⟨tree, failure | ⟨hash, fNewBlock⟩⟩ := call
        · cases failure <;> cases h
          exact ⟨rfl, hdata⟩
        · cases fNewBlock with
          | true => exact absurd rfl (hnew hash)
          | false =>
            cases h
            exact ⟨rfl, hdata⟩
      · right
        generalize acceptBlock n.env ctx s.tree block = call at h hresult hdata ⊢
        obtain ⟨tree, result⟩ := call
        obtain rfl : result = _ := hresult
        cases h
        exact ⟨hsigned, hnone, rfl, hdata⟩
    · cases h
      exact .inl (.inl rfl)
    · cases h

theorem connectTip_cases {hash : Uint256} (h : s.connectTip n hash = .ok t) :
    t = s ∨ ∃ i block active, s.tree.indexOf hash = some i ∧ s.data hash = some block ∧
      n.parentHashes i = s.activeHashes n ∧ t = { s with active } ∧
        active.genesis = s.active.genesis ∧ active.above = s.active.above ++ [block] := by
  rw [connectTip] at h
  split at h
  · rename_i i block hi hblock
    split at h
    · rename_i hchild
      obtain ⟨active, hmove, ht⟩ := Except.bind_eq_ok_iff.mp h
      cases ht
      obtain ⟨hgenesis, habove⟩ := active_of_updateTip hmove
      exact .inr ⟨i, block, active, hi, hblock, hchild.1, rfl, hgenesis, habove⟩
    · cases h
      exact .inl rfl
  · cases h
    exact .inl rfl

theorem disconnect_cases (h : s.step n .disconnect = .ok t) :
    ∃ active, t = { s with active } ∧ active.genesis = s.active.genesis ∧
      active.above = s.active.above.dropLast := by
  rw [step, Except.bind_eq_ok_iff] at h
  obtain ⟨active, hmove, ht⟩ := h
  cases ht
  rw [TipState.move] at hmove
  split at hmove
  · cases hmove
  · obtain ⟨hgenesis, habove⟩ := active_of_updateTip hmove
    exact ⟨active, rfl, hgenesis, habove⟩

end

end Node

end TscPow
