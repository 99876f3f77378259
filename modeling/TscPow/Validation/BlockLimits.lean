import TscPow.Chain.Accept
import TscPow.Contract.Dgp
import TscPow.Validation.PlainChain

/-!
# The limits that `CheckBlock` reads

`CheckBlock` opens with the remark that its checks are independent of context. Two of them, and the size check of `CheckTransaction`, compare with globals that `updateBlockSizeParams` sets, and it is called by `ConnectBlock` and `VerifyDB` with the block size of the governance contracts at the block they are at. `ConnectBlock` says of its own copy of the size check that it was moved there because it depends on these values; the check in `CheckBlock` has stayed.

So the verdict on a block depends on what the node has connected or verified before, and `AcceptBlock` marks the block as failed for good on the strength of it. It does not depend on it for exactly those blocks that are within the least limits that governance can set or beyond the greatest, or that break a rule on their transactions.
-/

namespace TscPow

/-! ### The calls that write the limits -/

/-- A call that sets the block size: `ConnectBlock` for the block of an index entry, or one round of the loop of `VerifyDB`, with the governance contracts as they are at that time. -/
inductive SizeCall
  | connectBlock (tscDGP : TscDGP) (pindex : BlockIndex)
  | verifyDB (tscDGP : TscDGP) (pindex : BlockIndex)

namespace SizeCall

def sizeBlockDGP : SizeCall → Except Fault Nat
  | connectBlock tscDGP pindex => tscDGP.getBlockSize (pindex.nHeight + 1)
  | verifyDB tscDGP pindex => tscDGP.getBlockSize pindex.nHeight

/-- The new `dgpMaxBlockSize`. -/
def run (dgpMaxBlockSize : Nat) (call : SizeCall) : Except Fault Nat := do
  let sizeBlockDGP ← call.sizeBlockDGP
  return if sizeBlockDGP ≠ 0 then sizeBlockDGP else dgpMaxBlockSize

end SizeCall

/-- The block size after a history of calls, from its value in `consensus.cpp`. -/
def sizeAfter (calls : List SizeCall) : Except Fault Nat := calls.foldlM SizeCall.run 2000000

theorem limits_of_run {World : Type} {contracts : Contracts World} {x : ConnectInput World}
    {d : World → TscDGP} {g : Governance} (hdgp : contracts.dgp = TscDGP.dgp d)
    (hg : (d x.world).connectGovernance x.pindex = .ok g) {size : Nat}
    (hrun : SizeCall.run x.dgpMaxBlockSize (.connectBlock (d x.world) x.pindex) = .ok size) :
    x.limits contracts = Limits.ofBlockSize size := by
  have hheight : ((x.pindex.nHeight : Int) + 1).toNat = x.pindex.nHeight + 1 := by omega
  have hsize : (d x.world).getBlockSize (x.pindex.nHeight + 1) = .ok g.blockSize := by
    simp only [TscDGP.connectGovernance, TscDGP.governance, Except.bind_eq_ok_iff,
      Except.pure_eq_ok_iff] at hg
    obtain ⟨schedule, -, size, hsize, price, -, limit, -, rfl⟩ := hg
    exact hsize
  rw [TscDGP.connectGovernance, ← hheight] at hg
  simp only [SizeCall.run, SizeCall.sizeBlockDGP, hsize, Except.ok_bind, Except.pure_eq_ok_iff] at hrun
  rw [ConnectInput.limits, hdgp, TscDGP.dgp, hg, ← hrun]

theorem getBlockSize_bounds {d : TscDGP} {h size : Nat} (hsize : d.getBlockSize h = .ok size) :
    MIN_BLOCK_SIZE_DGP ≤ size ∧ size ≤ MAX_BLOCK_SIZE_DGP := by
  simp only [TscDGP.getBlockSize, Except.bind_eq_ok_iff, Except.pure_eq_ok_iff] at hsize
  obtain ⟨value, -, rfl⟩ := hsize
  rw [TscDGP.inBounds]
  split
  · rename_i hbounds
    exact ⟨hbounds.2, hbounds.1⟩
  · decide

theorem SizeCall.run_bounds {size size' : Nat} {call : SizeCall} (h : call.run size = .ok size') :
    MIN_BLOCK_SIZE_DGP ≤ size' ∧ size' ≤ MAX_BLOCK_SIZE_DGP := by
  simp only [run, Except.bind_eq_ok_iff, Except.pure_eq_ok_iff] at h
  obtain ⟨read, hread, rfl⟩ := h
  have hbounds : MIN_BLOCK_SIZE_DGP ≤ read ∧ read ≤ MAX_BLOCK_SIZE_DGP := by
    cases call with
    | connectBlock tscDGP pindex => exact getBlockSize_bounds hread
    | verifyDB tscDGP pindex => exact getBlockSize_bounds hread
  have hpos : read ≠ 0 := by
    intro hzero
    exact absurd (hzero ▸ hbounds.1) (by decide)
  rw [if_pos hpos]
  exact hbounds

theorem sizeAfter_bounds {calls : List SizeCall} {size : Nat} (h : sizeAfter calls = .ok size) :
    MIN_BLOCK_SIZE_DGP ≤ size ∧ size ≤ MAX_BLOCK_SIZE_DGP := by
  apply Except.foldlM_invariant
    (P := fun size => MIN_BLOCK_SIZE_DGP ≤ size ∧ size ≤ MAX_BLOCK_SIZE_DGP) h (by decide)
  intro _ _ _ _ _ hrun
  exact SizeCall.run_bounds hrun

/-- A block-size contract with one instance, in force from the start, that sets the given size. -/
def governedSize (size : Nat) : TscDGP where
  dgpevm := false
  storage addr key :=
    if addr = BlockSizeDGP then
      if key = 1000 then some (0, 1) else if key = 2000 then some (1000, 0)
      else if key = 2001 then some (1001, 0x500) else none
    else if addr = 0x500 ∧ key = 1000 then some (0, BitVec.ofNat 256 size)
    else none
  sha3 u := u + 1000
  performByteCode _ _ _ := []
  tipHeight := 0
  stack := 100

/-- A history that leaves the given size: one block, connected when the contract sets that size. -/
def connectedAt (size : Nat) : List SizeCall := [.connectBlock (governedSize size) default]

theorem sizeAfter_least : sizeAfter (connectedAt MIN_BLOCK_SIZE_DGP) = .ok MIN_BLOCK_SIZE_DGP := by
  decide +kernel

theorem sizeAfter_greatest :
    sizeAfter (connectedAt MAX_BLOCK_SIZE_DGP) = .ok MAX_BLOCK_SIZE_DGP := by decide +kernel

/-! ### Where `CheckBlock` reads them -/

section

variable (env : Env) (block : Block)

/-- The checks of `CheckBlock` on the header and the Merkle root. -/
def checkRoot (fCheckPOW fCheckMerkleRoot : Bool) : Validation Unit := do
  checkBlockHeader env block.header fCheckPOW
  rule (fCheckMerkleRoot → block.hashMerkleRoot = (blockMerkleRoot env block.vtx).1)
    ⟨100, REJECT_INVALID, "bad-txnmrklroot", true⟩
  rule (fCheckMerkleRoot → !(blockMerkleRoot env block.vtx).2)
    ⟨100, REJECT_INVALID, "bad-txns-duplicate", true⟩

/-- The checks of `CheckBlock` on the transactions, between the limits on size and on signature operations. -/
def checkVtx (limits : Limits) : Validation Unit := do
  rule (∃ tx ∈ block.vtx.head?, tx.isCoinBase) ⟨100, REJECT_INVALID, "bad-cb-missing", false⟩
  rule (∀ tx ∈ block.vtx.tail, !tx.isCoinBase) ⟨100, REJECT_INVALID, "bad-cb-multiple", false⟩
  rule (∀ tx ∈ block.vtx.head?, !(tx.hasOpSpend || tx.hasCreateOrCall))
    ⟨100, REJECT_INVALID, "bad-cb-contract", false⟩
  let _ ← block.vtx.foldlM (checkBlockTx env limits) false
  pure ()

def Block.sigOps : Nat := (block.vtx.map getLegacySigOpCount).sum * WITNESS_SCALE_FACTOR % 2 ^ 32

theorem checkBlock_eq_parts (limits : Limits) (fCheckPOW fCheckMerkleRoot : Bool) :
    checkBlock env limits block fCheckPOW fCheckMerkleRoot = (do
      checkRoot env block fCheckPOW fCheckMerkleRoot
      rule (block.vtx ≠ [] ∧ block.vtx.length ≤ limits.dgpMaxBlockSize ∧
        block.strippedSize ≤ limits.dgpMaxBlockSize)
        ⟨100, REJECT_INVALID, "bad-blk-length", false⟩
      checkVtx env block limits
      rule (block.sigOps ≤ limits.dgpMaxBlockSigOps) ⟨100, REJECT_INVALID, "bad-blk-sigops", false⟩) := by
  simp only [checkBlock, checkRoot, checkVtx, bind_assoc, pure_bind]
  rfl

end

section

variable {env : Env} {block : Block}

theorem length_vtx_le_strippedSize (block : Block) : block.vtx.length ≤ block.strippedSize := by
  have hsum : block.vtx.length ≤ (block.vtx.map Tx.strippedSize).sum := by
    have hle := List.card_nsmul_le_sum (block.vtx.map Tx.strippedSize) 1 (by
      intro size hsize
      obtain ⟨tx, -, rfl⟩ := List.mem_map.mp hsize
      rw [Tx.strippedSize]
      omega)
    simpa using hle
  rw [Block.strippedSize]
  omega

theorem strippedSize_le_of_mem {tx : Tx} (htx : tx ∈ block.vtx) :
    tx.strippedSize ≤ block.strippedSize := by
  have hle := List.single_le_sum (l := block.vtx.map Tx.strippedSize)
    (fun _ _ => Nat.zero_le _) _ (List.mem_map_of_mem htx)
  rw [Block.strippedSize]
  omega

theorem checkVtx_of_strippedSize_le {size : Nat} (hmax : size ≤ MAX_BLOCK_SIZE_DGP)
    (hsize : block.strippedSize ≤ size) :
    checkVtx env block (Limits.ofBlockSize size) =
      checkVtx env block (Limits.ofBlockSize MAX_BLOCK_SIZE_DGP) := by
  have htx : ∀ tx ∈ block.vtx, ∀ lastWasContract,
    checkBlockTx env (Limits.ofBlockSize size) lastWasContract tx =
      checkBlockTx env (Limits.ofBlockSize MAX_BLOCK_SIZE_DGP) lastWasContract tx := by
    intro tx htx lastWasContract
    have hle := strippedSize_le_of_mem htx
    have hweight :
        tx.strippedSize * WITNESS_SCALE_FACTOR ≤ (Limits.ofBlockSize size).dgpMaxBlockWeight := by
      rw [MAX_BLOCK_SIZE_DGP] at hmax
      change tx.strippedSize * 4 ≤ 4 * size % 2 ^ 32
      omega
    have hweight' : tx.strippedSize * WITNESS_SCALE_FACTOR ≤
        (Limits.ofBlockSize MAX_BLOCK_SIZE_DGP).dgpMaxBlockWeight := by
      rw [MAX_BLOCK_SIZE_DGP] at hmax
      change tx.strippedSize * 4 ≤ 4 * 32000000 % 2 ^ 32
      omega
    simp only [checkBlockTx, checkTransaction, hweight, hweight']
  have hloop : block.vtx.foldlM (checkBlockTx env (Limits.ofBlockSize size)) false =
      block.vtx.foldlM (checkBlockTx env (Limits.ofBlockSize MAX_BLOCK_SIZE_DGP)) false :=
    Except.foldlM_congr htx false
  rw [checkVtx, hloop, checkVtx]

theorem checkBlock_ofBlockSize {size : Nat} (hmax : size ≤ MAX_BLOCK_SIZE_DGP)
    (fCheckPOW fCheckMerkleRoot : Bool) :
    checkBlock env (Limits.ofBlockSize size) block fCheckPOW fCheckMerkleRoot = (do
      checkRoot env block fCheckPOW fCheckMerkleRoot
      if block.vtx ≠ [] ∧ block.strippedSize ≤ size then do
        checkVtx env block (Limits.ofBlockSize MAX_BLOCK_SIZE_DGP)
        rule (block.sigOps ≤ size / 25) ⟨100, REJECT_INVALID, "bad-blk-sigops", false⟩
      else .error (.invalid ⟨100, REJECT_INVALID, "bad-blk-length", false⟩)) := by
  have hlength := length_vtx_le_strippedSize block
  have hsigops : (Limits.ofBlockSize size).dgpMaxBlockSigOps = size / 25 := by
    rw [MAX_BLOCK_SIZE_DGP] at hmax
    change 4 * size % 2 ^ 32 / 100 = size / 25
    omega
  rw [checkBlock_eq_parts, hsigops]
  by_cases hfits : block.vtx ≠ [] ∧ block.strippedSize ≤ size
  · have hrule : block.vtx ≠ [] ∧ block.vtx.length ≤ (Limits.ofBlockSize size).dgpMaxBlockSize ∧
        block.strippedSize ≤ (Limits.ofBlockSize size).dgpMaxBlockSize :=
          ⟨hfits.1, hlength.trans hfits.2, hfits.2⟩
    simp only [rule, Except.require, if_pos hrule, if_pos hfits, Except.ok_bind,
      checkVtx_of_strippedSize_le hmax hfits.2]
  · have hrule : ¬ (block.vtx ≠ [] ∧ block.vtx.length ≤ (Limits.ofBlockSize size).dgpMaxBlockSize ∧
        block.strippedSize ≤ (Limits.ofBlockSize size).dgpMaxBlockSize) := by
      intro hrule
      exact hfits ⟨hrule.1, hrule.2.2⟩
    simp only [rule, Except.require, if_neg hrule, if_neg hfits, Except.error_bind]

end

/-! ### The verdict and the history -/

/-- What a check leaves of a failure: whether `AcceptBlock` marks the block for it as failed. -/
def Failure.marks : Failure → Bool
  | .invalid reject => !reject.corruptionPossible
  | .fault _ => false

/-- The verdict on a block is the same after any two histories: `CheckBlock` passes it after both or neither, and `AcceptBlock` with it takes the block after both or neither and leaves the same tree, with the same flags. The reason for a refusal may be another one. -/
def ContextFree (env : Env) (block : Block) : Prop :=
  ∀ calls calls' size size', sizeAfter calls = .ok size → sizeAfter calls' = .ok size' →
    (∀ fCheckPOW fCheckMerkleRoot,
      checkBlock env (Limits.ofBlockSize size) block fCheckPOW fCheckMerkleRoot = .ok () ↔
      checkBlock env (Limits.ofBlockSize size') block fCheckPOW fCheckMerkleRoot = .ok ()) ∧
    ∀ (ctx : AcceptContext) tree,
      let accepted := acceptBlock env { ctx with limits := Limits.ofBlockSize size } tree block
      let accepted' := acceptBlock env { ctx with limits := Limits.ofBlockSize size' } tree block
      accepted.1 = accepted'.1 ∧ accepted.2.toOption = accepted'.2.toOption

/-- The block is empty, or larger than every size that governance can set, or in breach of a rule on its transactions, or has more signature operations than every limit allows, or is within the least limits. -/
def Block.OutsideLimits (env : Env) (block : Block) : Prop :=
  block.vtx = [] ∨ MAX_BLOCK_SIZE_DGP < block.strippedSize ∨
    checkVtx env block (Limits.ofBlockSize MAX_BLOCK_SIZE_DGP) ≠ .ok () ∨
      MAX_BLOCK_SIZE_DGP / 25 < block.sigOps ∨
      block.strippedSize ≤ MIN_BLOCK_SIZE_DGP ∧ block.sigOps ≤ MIN_BLOCK_SIZE_DGP / 25

/-- The rules of `CheckBlock` that depend on the block size, and those between them. -/
def Block.FitsSize (env : Env) (block : Block) (size : Nat) : Prop :=
  (block.vtx ≠ [] ∧ block.strippedSize ≤ size) ∧
    checkVtx env block (Limits.ofBlockSize MAX_BLOCK_SIZE_DGP) = .ok () ∧
    block.sigOps ≤ size / 25

section

variable {env : Env} {block : Block} {size size' : Nat}

theorem Block.FitsSize.mono (hfits : block.FitsSize env size) (hle : size ≤ size') :
    block.FitsSize env size' :=
  ⟨⟨hfits.1.1, hfits.1.2.trans hle⟩, hfits.2.1, hfits.2.2.trans (Nat.div_le_div_right hle)⟩

theorem outsideLimits_iff_fits :
    block.OutsideLimits env ↔
      (block.FitsSize env MAX_BLOCK_SIZE_DGP → block.FitsSize env MIN_BLOCK_SIZE_DGP) := by
  have hmax : MIN_BLOCK_SIZE_DGP ≤ MAX_BLOCK_SIZE_DGP := by decide
  constructor
  · rintro (hempty | hlarge | hfails | hmany | hleast) hfits
    · exact absurd hempty hfits.1.1
    · exact absurd hfits.1.2 (Nat.not_le.mpr hlarge)
    · exact absurd hfits.2.1 hfails
    · exact absurd hfits.2.2 (Nat.not_le.mpr hmany)
    · exact ⟨⟨hfits.1.1, hleast.1⟩, hfits.2.1, hleast.2⟩
  · intro hsame
    by_cases hfits : block.FitsSize env MAX_BLOCK_SIZE_DGP
    · have hleast := hsame hfits
      exact .inr (.inr (.inr (.inr ⟨hleast.1.2, hleast.2.2⟩)))
    · simp only [Block.FitsSize, not_and_or, not_not, not_le] at hfits
      rcases hfits with (hempty | hlarge) | hfails | hmany
      · exact .inl hempty
      · exact .inr (.inl hlarge)
      · exact .inr (.inr (.inl hfails))
      · exact .inr (.inr (.inr (.inl hmany)))

theorem marks_of_checkVtx {limits : Limits} {failure : Failure}
    (h : checkVtx env block limits = .error failure) : failure.marks = true := by
  by_contra hmarks
  have hclean (reject : Reject) (hreject : reject.corruptionPossible = false) :
      .invalid reject ≠ failure := by
    rintro rfl
    simp [Failure.marks, hreject] at hmarks
  have hrule (c : Prop) [Decidable c] (reject : Reject) (hreject : reject.corruptionPossible = false) :
      rule c reject ≠ .error failure := Except.require_ne_error (hclean reject hreject)
  have htx (last : Bool) (tx : Tx) : checkBlockTx env limits last tx ≠ .error failure := by
    unfold checkBlockTx
    refine Except.bind_ne_error (checkTransaction_ne_error fun reject _ => hclean reject) fun _ => ?_
    exact Except.bind_ne_error (hrule _ _ rfl) fun _ => Except.pure_ne_error
  revert h
  unfold checkVtx
  refine Except.bind_ne_error (hrule _ _ rfl) fun _ => ?_
  refine Except.bind_ne_error (hrule _ _ rfl) fun _ => ?_
  refine Except.bind_ne_error (hrule _ _ rfl) fun _ => ?_
  exact Except.bind_ne_error (Except.foldlM_ne_error htx _ _) fun _ => Except.pure_ne_error

theorem verdict_of_checkRoot {fCheckPOW fCheckMerkleRoot : Bool}
    (hroot : checkRoot env block fCheckPOW fCheckMerkleRoot = .ok ())
    (hmax : size ≤ MAX_BLOCK_SIZE_DGP) [Decidable (block.FitsSize env size)] :
    (checkBlock env (Limits.ofBlockSize size) block fCheckPOW fCheckMerkleRoot).mapError Failure.marks =
      if block.FitsSize env size then .ok () else .error true := by
  rw [checkBlock_ofBlockSize hmax, hroot, Except.ok_bind]
  by_cases hsize : block.vtx ≠ [] ∧ block.strippedSize ≤ size
  · rw [if_pos hsize]
    cases hvtx : checkVtx env block (Limits.ofBlockSize MAX_BLOCK_SIZE_DGP) with
    | error failure =>
      rw [if_neg (fun hfits => by cases hvtx.symm.trans hfits.2.1), Except.error_bind,
        Except.mapError, marks_of_checkVtx hvtx]
    | ok u =>
      by_cases hsigops : block.sigOps ≤ size / 25
      · rw [if_pos ⟨hsize, hvtx, hsigops⟩, Except.ok_bind, rule_pos hsigops]
        rfl
      · rw [if_neg (fun hfits => hsigops hfits.2.2), Except.ok_bind, rule, Except.require, if_neg hsigops]
        rfl
  · rw [if_neg hsize, if_neg (fun hfits => hsize hfits.1)]
    rfl

/-- For a block outside the range of limits, every size within it leads to the same verdict. -/
theorem verdict_of_outsideLimits (houtside : block.OutsideLimits env) (hmin : MIN_BLOCK_SIZE_DGP ≤ size)
    (hmax : size ≤ MAX_BLOCK_SIZE_DGP) (fCheckPOW fCheckMerkleRoot : Bool) :
    (checkBlock env (Limits.ofBlockSize size) block fCheckPOW fCheckMerkleRoot).mapError Failure.marks =
      (checkBlock env (Limits.ofBlockSize MAX_BLOCK_SIZE_DGP) block fCheckPOW
        fCheckMerkleRoot).mapError Failure.marks := by
  classical
  cases hroot : checkRoot env block fCheckPOW fCheckMerkleRoot with
  | error failure =>
    rw [checkBlock_ofBlockSize hmax, checkBlock_ofBlockSize le_rfl, hroot, Except.error_bind,
      Except.error_bind]
  | ok u =>
    have hiff : block.FitsSize env size ↔ block.FitsSize env MAX_BLOCK_SIZE_DGP :=
      ⟨fun hfits => hfits.mono hmax, fun hfits => (outsideLimits_iff_fits.mp houtside hfits).mono hmin⟩
    rw [verdict_of_checkRoot hroot hmax, verdict_of_checkRoot hroot le_rfl]
    simp only [hiff]

theorem checkBlock_iff_of_verdict {x y : Validation Unit}
    (h : x.mapError Failure.marks = y.mapError Failure.marks) :
    x = .ok () ↔ y = .ok () := by
  cases x <;> cases y <;> simp_all [Except.mapError]

theorem checkNewBlock_of_verdict (ctx : AcceptContext) {limits limits' : Limits}
    (h : (checkBlock env limits block true true).mapError Failure.marks =
      (checkBlock env limits' block true true).mapError Failure.marks)
    (pindex : BlockIndex) :
    (checkNewBlock env { ctx with limits := limits } block pindex).mapError Failure.marks =
      (checkNewBlock env { ctx with limits := limits' } block pindex).mapError Failure.marks := by
  rw [checkNewBlock, checkNewBlock]
  revert h
  cases checkBlock env limits block true true <;> cases checkBlock env limits' block true true <;>
    simp +contextual [Except.mapError, Except.ok_bind, Except.error_bind]
  rfl

theorem acceptBlock_of_verdict {ctx : AcceptContext} {limits limits' : Limits}
    (h : (checkBlock env limits block true true).mapError Failure.marks =
      (checkBlock env limits' block true true).mapError Failure.marks)
    (tree : BlockTree) :
    (acceptBlock env { ctx with limits := limits } tree block).1 =
    (acceptBlock env { ctx with limits := limits' } tree block).1 ∧
      (acceptBlock env { ctx with limits := limits } tree block).2.toOption =
        (acceptBlock env { ctx with limits := limits' } tree block).2.toOption := by
  have hheader : acceptBlockHeader env { ctx with limits := limits } tree block.header =
      acceptBlockHeader env { ctx with limits := limits' } tree block.header := rfl
  rw [acceptBlock, acceptBlock, hheader]
  obtain ⟨tree', header⟩ := acceptBlockHeader env { ctx with limits := limits' } tree block.header
  cases header with
  | error failure => exact ⟨rfl, rfl⟩
  | ok hash =>
    dsimp only
    cases tree'.mapBlockIndex hash with
    | none => exact ⟨rfl, rfl⟩
    | some e =>
      have haccepted : checkAcceptedBlock { ctx with limits := limits } tree' block e.index =
          checkAcceptedBlock { ctx with limits := limits' } tree' block e.index := rfl
      have hskips : skipsBlock { ctx with limits := limits } e =
          skipsBlock { ctx with limits := limits' } e := rfl
      dsimp only
      rw [haccepted, hskips]
      have hverdict := checkNewBlock_of_verdict ctx h e.index
      cases checkAcceptedBlock { ctx with limits := limits' } tree' block e.index with
      | error failure => exact ⟨rfl, rfl⟩
      | ok u =>
        dsimp only
        split
        · exact ⟨rfl, rfl⟩
        · revert hverdict
          rcases checkNewBlock env { ctx with limits := limits } block e.index with
            (reject | fault) | u <;>
            rcases checkNewBlock env { ctx with limits := limits' } block e.index with
              (reject' | fault') | u' <;>
            simp +contextual [Except.mapError, Failure.marks, Except.toOption]
          -- two rejections, which mark the block or do not
          intro hsame
          split <;> split <;> simp_all

theorem outsideLimits_of_checkBlock
    (h : checkBlock env (Limits.ofBlockSize MIN_BLOCK_SIZE_DGP) block false false = .ok () ↔
      checkBlock env (Limits.ofBlockSize MAX_BLOCK_SIZE_DGP) block false false = .ok ()) :
        block.OutsideLimits env := by
  classical
  have hroot : checkRoot env block false false = .ok () := by
    simp only [checkRoot, checkBlockHeader, Except.bind_eq_ok_iff, rule_eq_ok_iff]
    exact ⟨(), by simp, (), by simp, by simp⟩
  have hpasses {size : Nat} (hmax : size ≤ MAX_BLOCK_SIZE_DGP) :
      checkBlock env (Limits.ofBlockSize size) block false false = .ok () ↔ block.FitsSize env size := by
    have hverdict := verdict_of_checkRoot hroot hmax
    split at hverdict
    · rename_i hfits
      exact iff_of_true ((checkBlock_iff_of_verdict (y := .ok ()) hverdict).mpr rfl) hfits
    · rename_i hfits
      refine iff_of_false (fun hok => ?_) hfits
      rw [hok] at hverdict
      cases hverdict
  rw [hpasses (by decide), hpasses le_rfl] at h
  exact outsideLimits_iff_fits.mpr h.mpr

end

/-- The verdict on a block does not depend on what the node has connected or verified before exactly if the block lies outside the range of limits that governance can set. -/
theorem contextFree_iff_outsideLimits (env : Env) (block : Block) : ContextFree env block ↔
    block.OutsideLimits env := by
  constructor
  · intro hfree
    obtain ⟨hcheck, -⟩ := hfree _ _ _ _ sizeAfter_least sizeAfter_greatest
    exact outsideLimits_of_checkBlock (hcheck false false)
  · intro houtside calls calls' size size' hsize hsize'
    obtain ⟨hmin, hmax⟩ := sizeAfter_bounds hsize
    obtain ⟨hmin', hmax'⟩ := sizeAfter_bounds hsize'
    have hverdict (fCheckPOW fCheckMerkleRoot : Bool) :=
      (verdict_of_outsideLimits houtside hmin hmax fCheckPOW fCheckMerkleRoot).trans
        (verdict_of_outsideLimits houtside hmin' hmax' fCheckPOW fCheckMerkleRoot).symm
    exact ⟨fun fCheckPOW fCheckMerkleRoot =>
      checkBlock_iff_of_verdict (hverdict fCheckPOW fCheckMerkleRoot),
      fun ctx tree => acceptBlock_of_verdict (hverdict true true) tree⟩

/-! ### A block with many signature operations -/

namespace ManySigOps

open PlainChain

def coinbase : Tx where
  nVersion := 2
  vin := [⟨⟨Uint256.ofNat 0, 0xffffffff⟩, Script.pushInt64 1 ++ [0], SEQUENCE_FINAL, []⟩]
  vout := List.replicate 8 ⟨0, List.replicate 60 0xae⟩
  nLockTime := 0

def first : Block := block (fun _ => coinbase) 1

def tree : BlockTree := BlockTree.genesis ValveRun.network.hashing (ValveRun.header 0)

/-- `BLOCK_HAVE_DATA` and `BLOCK_FAILED_VALID` of the block after `AcceptBlock`, with the limits of a block size. -/
def flags (size : Nat) : Option (Bool × Bool) :=
  ((acceptBlock ValveRun.network { ctx with limits := Limits.ofBlockSize size } tree
    first).1.mapBlockIndex
    (ValveRun.network.hashing.blockHash first.header)).map fun e => (e.haveData, e.failedValid)

end ManySigOps

open ManySigOps in
/-- A node that has connected nothing takes the block; one that has connected a block when governance set the least size marks it as failed. -/
theorem verdict_depends_on_history :
    sizeAfter [] = .ok 2000000 ∧ flags 2000000 = some (true, false) ∧
      sizeAfter (connectedAt MIN_BLOCK_SIZE_DGP) = .ok MIN_BLOCK_SIZE_DGP ∧
        flags MIN_BLOCK_SIZE_DGP = some (false, true) ∧
        ¬ ContextFree ValveRun.network first := by
  have haccepted : flags 2000000 = some (true, false) := by decide +kernel
  have hfailed : flags MIN_BLOCK_SIZE_DGP = some (false, true) := by decide +kernel
  refine ⟨rfl, haccepted, sizeAfter_least, hfailed, ?_⟩
  intro hfree
  obtain ⟨-, hsame⟩ := hfree [] _ _ _ rfl sizeAfter_least
  rw [flags, (hsame PlainChain.ctx tree).1] at haccepted
  cases hfailed.symm.trans haccepted

end TscPow
