import TscPow.Ticket.Latency

/-!
# Waiting for the block tree

With `-txindex`, `LoadTicketpool` does not start the replay before the height of the active chain is the number of entries of `mapBlockIndex` less one. Entries are never removed from that map, and it has one for every header the node has accepted: a stale block or a header without its block keeps the two numbers apart. The loop then waits forever.
-/

namespace TscPow

/-- The active chain, from the genesis block on, and the entries of `mapBlockIndex` by hash. -/
structure HeaderTree (hashing : Hashing) where
  chainActive : List Block
  mapBlockIndex : AList fun _ : Uint256 => BlockHeader
  active_ne_nil : chainActive ≠ []
  nodup_active : (chainActive.map fun block => hashing.blockHash block.toBlockHeader).Nodup
  indexed : ∀ block ∈ chainActive, mapBlockIndex.lookup (hashing.blockHash block.toBlockHeader) =
    some block.toBlockHeader

namespace HeaderTree

section

variable {hashing : Hashing}

def height (tree : HeaderTree hashing) : Nat := tree.chainActive.length - 1

def size (tree : HeaderTree hashing) : Nat := tree.mapBlockIndex.entries.length

/-- The waiting loop of `LoadTicketpool`, for at most `rounds` rounds in which the tree does not change. -/
def waitForTree (tree : HeaderTree hashing) (times : Nat) : Nat → Option Nat
  | 0 => if times = tree.size - 1 then some times else none
  | rounds + 1 => if times = tree.size - 1 then some times else tree.waitForTree tree.height rounds

/-- `LoadTicketpool` once the best chain is active, for at most `rounds` rounds of the waiting loop. `fTxIndex` is the flag of the database, `txindex` the option. -/
def loadTicketpool (tree : HeaderTree hashing) (env : TicketEnv) (fTxIndex txindex : Bool)
    (rounds : Nat) : Option (Except Fault TicketPool) := do
  let times ← if !fTxIndex || !txindex then some tree.height else tree.waitForTree tree.height rounds
  return TscPow.loadTicketpool env tree.chainActive times

def Linear (tree : HeaderTree hashing) : Prop :=
  ∀ hash ∈ tree.mapBlockIndex, ∃ block ∈ tree.chainActive, hashing.blockHash block.toBlockHeader = hash

theorem height_lt (tree : HeaderTree hashing) : tree.height < tree.chainActive.length := by
  have := List.length_pos_iff.mpr tree.active_ne_nil
  rw [height]
  omega

theorem waitForTree_eq_some_iff (tree : HeaderTree hashing) (rounds times : Nat) :
    tree.waitForTree tree.height rounds = some times ↔ times = tree.height ∧
      tree.height = tree.size - 1 := by
  induction rounds with
  | zero =>
    rw [waitForTree]
    split <;> simp_all [eq_comm]
  | succ rounds ih =>
    rw [waitForTree]
    split
    · simp_all [eq_comm]
    · exact ih

theorem height_eq_iff (tree : HeaderTree hashing) : tree.height = tree.size - 1 ↔ tree.Linear := by
  have hsub : (tree.chainActive.map fun block => hashing.blockHash block.toBlockHeader) ⊆
      tree.mapBlockIndex.keys := by
    intro hash hhash
    obtain ⟨block, hblock, rfl⟩ := List.mem_map.mp hhash
    rw [← AList.mem_keys, ← AList.lookup_isSome, tree.indexed block hblock]
    rfl
  have hsubperm := tree.nodup_active.subperm hsub
  have hkeys : tree.mapBlockIndex.keys.length = tree.size := List.length_map _
  have hle := hsubperm.length_le
  rw [List.length_map, hkeys] at hle
  have hpos := tree.height_lt
  have hlength : tree.height = tree.size - 1 ↔ tree.size ≤ tree.chainActive.length := by
    rw [height] at hpos ⊢
    omega
  rw [hlength]
  constructor
  · intro hge hash hhash
    have hperm := hsubperm.perm_of_length_le (by rw [List.length_map, hkeys]; exact hge)
    exact List.mem_map.mp (hperm.mem_iff.mpr (AList.mem_keys.mp hhash))
  · intro hlinear
    have hkeys_sub : tree.mapBlockIndex.keys ⊆ tree.chainActive.map fun block =>
        hashing.blockHash block.toBlockHeader :=
      fun hash hhash => List.mem_map.mpr (hlinear hash (AList.mem_keys.mpr hhash))
    have hge := (tree.mapBlockIndex.keys_nodup.subperm hkeys_sub).length_le
    rwa [List.length_map, hkeys] at hge

theorem loadTicketpool_eq_some_iff (tree : HeaderTree hashing) (env : TicketEnv)
    (fTxIndex txindex : Bool) (rounds : Nat) {result : Except Fault TicketPool} :
    tree.loadTicketpool env fTxIndex txindex rounds = some result ↔
      (fTxIndex = true → txindex = true → tree.Linear) ∧
        TscPow.loadTicketpool env tree.chainActive tree.height = result := by
  rw [loadTicketpool]
  by_cases hindex : fTxIndex = true ∧ txindex = true
  · simp only [hindex, Bool.not_true, Bool.or_self, Bool.false_eq_true, if_false,
      Option.bind_eq_bind, Option.bind_eq_some_iff, waitForTree_eq_some_iff, height_eq_iff]
    simp
  · have hskip : (!fTxIndex || !txindex) = true := by
      cases fTxIndex <;> cases txindex <;> simp_all
    have hvacuous : fTxIndex = true → txindex = true → tree.Linear := fun h₁ h₂ => absurd ⟨h₁, h₂⟩ hindex
    rw [if_pos hskip, and_iff_right hvacuous]
    exact Option.some_inj

/-- Loading the pool over a tree that does not change returns exactly when the transaction index is off or every entry of the tree is on the active chain, and the blocks of the chain that are replayed are loadable. What it returns is the replay up to the tip; if all blocks can be read, its last block is the one `TICKETPOOL_HEIGHT_LATENCY` below the tip. -/
theorem exists_loadTicketpool_tree_iff (env : TicketEnv) (tree : HeaderTree hashing)
    (fTxIndex txindex : Bool) :
    ((∃ rounds pool, tree.loadTicketpool env fTxIndex txindex rounds = some (.ok pool)) ↔
      (fTxIndex = true → txindex = true → tree.Linear) ∧
        ∀ j b, 0 < j → j + TICKETPOOL_HEIGHT_LATENCY ≤ tree.height → tree.chainActive[j]? = some b →
          env.readBlockFromDisk b → Loadable b j) ∧
    ∀ rounds pool, tree.loadTicketpool env fTxIndex txindex rounds = some (.ok pool) →
      TscPow.loadTicketpool env tree.chainActive tree.height = .ok pool ∧
        ((∀ b ∈ tree.chainActive, env.readBlockFromDisk b) →
          pool.load_height = tree.height - TICKETPOOL_HEIGHT_LATENCY) := by
  rw [← exists_loadTicketpool_iff env tree.height_lt]
  simp only [loadTicketpool_eq_some_iff]
  refine ⟨?_, ?_⟩
  · constructor
    · rintro ⟨-, pool, hlinear, hpool⟩
      exact ⟨hlinear, pool, hpool⟩
    · rintro ⟨hlinear, pool, hpool⟩
      exact ⟨0, pool, hlinear, hpool⟩
  · rintro - pool ⟨-, hpool⟩
    exact ⟨hpool, fun hreads => load_height_eq hreads tree.height_lt hpool⟩

end

namespace Fork

open TicketSample

def entries (stale : List Nat) : AList fun _ : Uint256 => BlockHeader :=
  (((chain 2 2).map Block.toBlockHeader ++ stale.map fun time =>
    (block time 0 []).toBlockHeader).map fun header =>
    (⟨hashing.blockHash header, header⟩ : Σ _ : Uint256, BlockHeader)).toAList

def tree (stale : List Nat)
    (hindexed : ∀ block ∈ chain 2 2,
      (entries stale).lookup (hashing.blockHash block.toBlockHeader) = some block.toBlockHeader) :
    HeaderTree hashing := ⟨chain 2 2, entries stale, by decide, by decide +kernel, hindexed⟩

def linear : HeaderTree hashing := tree [] (by decide +kernel)

def forked : HeaderTree hashing := tree [9] (by decide +kernel)

end Fork

open TicketSample Fork in
theorem exists_loadTicketpool_tree_iff_linear :
    ∃ rounds pool, linear.loadTicketpool env true true rounds = some (.ok pool) := by
  refine (exists_loadTicketpool_tree_iff env linear true true).1.mpr ⟨fun _ _ => ?_, ?_⟩
  · rw [← height_eq_iff]
    decide +kernel
  · intro j b hj hle
    have hheight : linear.height = 2 := rfl
    rw [hheight, TICKETPOOL_HEIGHT_LATENCY] at hle
    omega

open TicketSample Fork in
/-- A header that is not on the active chain keeps `LoadTicketpool` waiting, however long. -/
theorem stale_header_waits : forked.height = 2 ∧ forked.size = 4 ∧
    ∀ rounds, forked.loadTicketpool env true true rounds = none := by
  refine ⟨by decide +kernel, by decide +kernel, fun rounds => ?_⟩
  rw [Option.eq_none_iff_forall_ne_some]
  intro result hresult
  have hlinear := ((loadTicketpool_eq_some_iff forked env true true rounds).mp hresult).1 rfl rfl
  rw [← height_eq_iff] at hlinear
  revert hlinear
  decide +kernel

end HeaderTree

end TscPow
