import TscPow.Mempool.TxMempool

/-!
# The orders of the memory pool

The indices of the pool are kept by comparison functions (`txmempool.h`, `miner.h`), which avoid divisions by comparing products. Each of them is the order of a rank, in which a fee rate is a fraction. For the two by which the miner chooses, the rank ends with the hash of the transaction, so that different entries have different ranks. `CompareTxMemPoolEntryByDescendantScore` compares the times of entries with equal scores by `>=`, so that entries can come before each other, and every entry before itself.

The products are exact here. In the source they are computed in `double`.
-/

namespace TscPow

/-- An entry with the smallest gas price of its contract outputs. -/
structure PricedEntry extends CTxMemPoolEntry where
  nMinGasPrice : Amount

/-- `CTxMemPoolModifiedEntry`, with the entry that its iterator points to. -/
structure CTxMemPoolModifiedEntry where
  iter : PricedEntry
  nSizeWithAncestors : Nat
  nModFeesWithAncestors : Amount
  nSigOpCostWithAncestors : Int

variable (txHash : Tx → Uint256)

def compareTxMemPoolEntryByAncestorFee (a b : CTxMemPoolEntry) : Bool :=
  let f1 := a.withAncestors.2.2.1 * b.withAncestors.2.1
  let f2 := a.withAncestors.2.1 * b.withAncestors.2.2.1
  if f1 = f2 then decide (txHash a.tx < txHash b.tx) else decide (f1 > f2)

def compareTxMemPoolEntryByAncestorFeeOrGasPrice (a b : PricedEntry) : Bool :=
  let fAHasCreateOrCall := a.tx.hasCreateOrCall
  let fBHasCreateOrCall := b.tx.hasCreateOrCall
  if fAHasCreateOrCall || fBHasCreateOrCall then
    if fAHasCreateOrCall != fBHasCreateOrCall then !fAHasCreateOrCall
    else if a.withAncestors.1 ≠ b.withAncestors.1 then decide (a.withAncestors.1 < b.withAncestors.1)
    else if a.nMinGasPrice ≠ b.nMinGasPrice then decide (a.nMinGasPrice > b.nMinGasPrice)
    else if a.nTxSize ≠ b.nTxSize then decide (a.nTxSize < b.nTxSize)
    else decide (txHash a.tx < txHash b.tx)
  else compareTxMemPoolEntryByAncestorFee txHash a.toCTxMemPoolEntry b.toCTxMemPoolEntry

def compareModifiedEntry (a b : CTxMemPoolModifiedEntry) : Bool :=
  let fAHasCreateOrCall := a.iter.tx.hasCreateOrCall
  let fBHasCreateOrCall := b.iter.tx.hasCreateOrCall
  if fAHasCreateOrCall || fBHasCreateOrCall then
    if fAHasCreateOrCall != fBHasCreateOrCall then !fAHasCreateOrCall
    else if a.nSizeWithAncestors = a.iter.nTxSize ∧ b.nSizeWithAncestors ≠ b.iter.nTxSize then true
    else if b.nSizeWithAncestors = b.iter.nTxSize ∧ a.nSizeWithAncestors ≠ a.iter.nTxSize then false
    else if a.iter.nMinGasPrice ≠ b.iter.nMinGasPrice then
      decide (a.iter.nMinGasPrice > b.iter.nMinGasPrice)
    else if a.iter.nTxSize ≠ b.iter.nTxSize then decide (a.iter.nTxSize < b.iter.nTxSize)
    else decide (txHash a.iter.tx < txHash b.iter.tx)
  else
    let f1 := a.nModFeesWithAncestors * b.nSizeWithAncestors
    let f2 := b.nModFeesWithAncestors * a.nSizeWithAncestors
    if f1 = f2 then decide (txHash a.iter.tx < txHash b.iter.tx) else decide (f1 > f2)

def useDescendantScore (a : CTxMemPoolEntry) : Bool :=
  let f1 := a.getModifiedFee * a.withDescendants.2.1
  let f2 := a.withDescendants.2.2 * (a.nTxSize : Int)
  decide (f2 > f1)

def compareTxMemPoolEntryByDescendantScore (a b : CTxMemPoolEntry) : Bool :=
  let aModFee := if useDescendantScore a then a.withDescendants.2.2 else a.getModifiedFee
  let aSize : Int := if useDescendantScore a then a.withDescendants.2.1 else a.nTxSize
  let bModFee := if useDescendantScore b then b.withDescendants.2.2 else b.getModifiedFee
  let bSize : Int := if useDescendantScore b then b.withDescendants.2.1 else b.nTxSize
  let f1 := aModFee * bSize
  let f2 := aSize * bModFee
  if f1 = f2 then decide (a.nTime ≥ b.nTime) else decide (f1 < f2)

/-! ### Fee rates -/

def feeRate (fee size : Int) : ℚ := fee / size

section Rates

variable {fee fee' size size' : Int}

theorem feeRate_lt_iff (hsize : 0 < size) (hsize' : 0 < size') :
    feeRate fee size < feeRate fee' size' ↔ fee * size' < size * fee' := by
  rw [feeRate, feeRate, div_lt_div_iff₀ (by exact_mod_cast hsize) (by exact_mod_cast hsize'),
    mul_comm size fee']
  exact_mod_cast Iff.rfl

theorem feeRate_eq_iff (hsize : 0 < size) (hsize' : 0 < size') :
    feeRate fee size = feeRate fee' size' ↔ fee * size' = size * fee' := by
  rw [feeRate, feeRate, div_eq_div_iff (by exact_mod_cast hsize.ne') (by exact_mod_cast hsize'.ne'),
    mul_comm size fee']
  exact_mod_cast Iff.rfl

end Rates

theorem stage_iff {κ : Type} [LinearOrder κ] (x y : κ) (rest : Bool) :
    (if x ≠ y then decide (x < y) else rest) = true ↔ x < y ∨ x = y ∧ rest = true := by
  by_cases h : x = y
  · simp [h]
  · simp [h]

/-! ### The orders of the miner -/

/-- A transaction without contract outputs is ranked by its fee rate and its hash. -/
abbrev OrdinaryRank := ℚᵒᵈ ×ₗ Uint256

/-- Others follow, ranked by a first value, their gas price, their size and their hash. -/
abbrev MinerRank (κ : Type) := OrdinaryRank ⊕ₗ (κ ×ₗ Amountᵒᵈ ×ₗ Nat ×ₗ Uint256)

/-- The rank of an entry of the pool: among contract transactions, the number of ancestors comes first. -/
def PricedEntry.rank (e : PricedEntry) : MinerRank Int :=
  if e.tx.hasCreateOrCall then
    Sum.inrₗ (toLex
      (e.withAncestors.1, toLex (OrderDual.toDual e.nMinGasPrice, toLex (e.nTxSize, txHash e.tx))))
  else Sum.inlₗ
    (toLex (OrderDual.toDual (feeRate e.withAncestors.2.2.1 e.withAncestors.2.1), txHash e.tx))

/-- The rank of a modified entry: among contract transactions, those with all ancestors in the block come first. -/
def CTxMemPoolModifiedEntry.rank (e : CTxMemPoolModifiedEntry) : MinerRank Bool :=
  if e.iter.tx.hasCreateOrCall then
    Sum.inrₗ (toLex (decide (e.nSizeWithAncestors ≠ e.iter.nTxSize),
      toLex (OrderDual.toDual e.iter.nMinGasPrice, toLex (e.iter.nTxSize, txHash e.iter.tx))))
  else Sum.inlₗ
    (toLex (OrderDual.toDual (feeRate e.nModFeesWithAncestors e.nSizeWithAncestors),
      txHash e.iter.tx))

section Ranks

variable {txHash}

theorem ordinaryRank_lt_iff (fee fee' : Amount) {size size' : Int} (hsize : 0 < size)
    (hsize' : 0 < size') (hash hash' : Uint256) :
    (toLex (OrderDual.toDual (feeRate fee size), hash) : OrdinaryRank) < toLex
    (OrderDual.toDual (feeRate fee' size'), hash') ↔
      (if fee * size' = size * fee' then decide (hash < hash')
        else decide (fee * size' > size * fee')) = true := by
  rw [Prod.Lex.toLex_lt_toLex, OrderDual.toDual_lt_toDual, EmbeddingLike.apply_eq_iff_eq,
    feeRate_lt_iff hsize' hsize, feeRate_eq_iff hsize hsize']
  have hcross : fee' * size < size' * fee ↔ size * fee' < fee * size' := by
    rw [mul_comm fee', mul_comm size']
  dsimp only
  rw [hcross]
  split
  · rename_i heq
    simp [heq]
  · rename_i hne
    simp [hne]

theorem contractRank_lt_iff {κ : Type} [LinearOrder κ] (first first' : κ)
    (gasPrice gasPrice' : Amount) (size size' : Nat) (hash hash' : Uint256) :
    toLex (first, toLex (OrderDual.toDual gasPrice, toLex (size, hash))) <
      toLex (first', toLex (OrderDual.toDual gasPrice', toLex (size', hash'))) ↔
      first < first' ∨ first = first' ∧ (if gasPrice ≠ gasPrice' then decide (gasPrice > gasPrice')
        else if size ≠ size' then decide (size < size') else decide (hash < hash')) = true := by
  have hprice :
    ∀ rest : Bool, (if gasPrice ≠ gasPrice' then decide (gasPrice > gasPrice') else rest) = true ↔
      gasPrice' < gasPrice ∨ gasPrice = gasPrice' ∧ rest = true := by
    intro rest
    simpa only [ne_comm, eq_comm] using stage_iff gasPrice' gasPrice rest
  rw [Prod.Lex.toLex_lt_toLex, Prod.Lex.toLex_lt_toLex, Prod.Lex.toLex_lt_toLex, hprice, stage_iff,
    decide_eq_true_iff]
  rfl

theorem compare_iff_rank_lt {a b : PricedEntry} (ha : 0 < a.withAncestors.2.1)
    (hb : 0 < b.withAncestors.2.1) :
    compareTxMemPoolEntryByAncestorFeeOrGasPrice txHash a b = true ↔ a.rank txHash < b.rank txHash := by
  rw [compareTxMemPoolEntryByAncestorFeeOrGasPrice, PricedEntry.rank, PricedEntry.rank]
  cases a.tx.hasCreateOrCall with
  | false =>
    cases b.tx.hasCreateOrCall with
    | false => exact (Sum.Lex.inl_lt_inl_iff.trans (ordinaryRank_lt_iff _ _ ha hb _ _)).symm
    | true => exact iff_of_true rfl (Sum.Lex.inl_lt_inr _ _)
  | true =>
    cases b.tx.hasCreateOrCall with
    | false => exact iff_of_false Bool.false_ne_true Sum.Lex.not_inr_lt_inl
    | true =>
      refine Iff.trans ?_ (Sum.Lex.inr_lt_inr_iff.trans (contractRank_lt_iff _ _ _ _ _ _ _ _)).symm
      exact stage_iff _ _ _

theorem compareModifiedEntry_iff_rank_lt {a b : CTxMemPoolModifiedEntry}
    (ha : 0 < a.nSizeWithAncestors) (hb : 0 < b.nSizeWithAncestors) :
    compareModifiedEntry txHash a b = true ↔ a.rank txHash < b.rank txHash := by
  rw [compareModifiedEntry, CTxMemPoolModifiedEntry.rank, CTxMemPoolModifiedEntry.rank]
  cases a.iter.tx.hasCreateOrCall with
  | false =>
    cases b.iter.tx.hasCreateOrCall with
    | false =>
      have hrank :=
        ordinaryRank_lt_iff a.nModFeesWithAncestors b.nModFeesWithAncestors (Int.natCast_pos.mpr ha)
          (Int.natCast_pos.mpr hb)
        (txHash a.iter.tx) (txHash b.iter.tx)
      rw [mul_comm (a.nSizeWithAncestors : Int)] at hrank
      exact (Sum.Lex.inl_lt_inl_iff.trans hrank).symm
    | true => exact iff_of_true rfl (Sum.Lex.inl_lt_inr _ _)
  | true =>
    cases b.iter.tx.hasCreateOrCall with
    | false => exact iff_of_false Bool.false_ne_true Sum.Lex.not_inr_lt_inl
    | true =>
      refine Iff.trans ?_ (Sum.Lex.inr_lt_inr_iff.trans (contractRank_lt_iff _ _ _ _ _ _ _ _)).symm
      by_cases hpending : a.nSizeWithAncestors = a.iter.nTxSize
      · by_cases hpending' : b.nSizeWithAncestors = b.iter.nTxSize
        · simp [hpending, hpending']
        · simp [hpending, hpending']
      · by_cases hpending' : b.nSizeWithAncestors = b.iter.nTxSize
        · simp [hpending, hpending']
        · simp [hpending, hpending']

theorem txHash_eq_of_rank_eq {a b : PricedEntry} (h : a.rank txHash = b.rank txHash) :
    txHash a.tx = txHash b.tx := by
  rw [PricedEntry.rank, PricedEntry.rank] at h
  split at h
  · split at h
    · exact congrArg (fun r => (ofLex (ofLex (ofLex r).2).2).2) (Sum.inr.inj h)
    · exact absurd h Sum.inr_ne_inl
  · split at h
    · exact absurd h Sum.inl_ne_inr
    · exact congrArg (fun r => (ofLex r).2) (Sum.inl.inj h)

theorem txHash_eq_of_modified_rank_eq {a b : CTxMemPoolModifiedEntry}
    (h : a.rank txHash = b.rank txHash) : txHash a.iter.tx = txHash b.iter.tx := by
  rw [CTxMemPoolModifiedEntry.rank, CTxMemPoolModifiedEntry.rank] at h
  split at h
  · split at h
    · exact congrArg (fun r => (ofLex (ofLex (ofLex r).2).2).2) (Sum.inr.inj h)
    · exact absurd h Sum.inr_ne_inl
  · split at h
    · exact absurd h Sum.inl_ne_inr
    · exact congrArg (fun r => (ofLex r).2) (Sum.inl.inj h)

end Ranks

/-- A comparison that orders all values of a kind, as far as they have different names. -/
structure StrictTotalOn {α ν : Type} (valid : α → Prop) (name : α → ν) (less : α → α → Bool) : Prop where
  irrefl : ∀ a, valid a → less a a = false
  trans : ∀ a b c, valid a → valid b → valid c → less a b = true → less b c = true → less a c = true
  total : ∀ a b, valid a → valid b → name a ≠ name b → less a b = true ∨ less b a = true

theorem StrictTotalOn.of_rank {α ν ρ : Type} [LinearOrder ρ] {valid : α → Prop} {name : α → ν}
    {less : α → α → Bool} (rank : α → ρ)
    (hless : ∀ a b, valid a → valid b → (less a b = true ↔ rank a < rank b))
    (hname : ∀ a b, rank a = rank b → name a = name b) :
    StrictTotalOn valid name less where
  irrefl a ha := by
    rw [← Bool.not_eq_true, hless a a ha ha]
    exact lt_irrefl _
  trans a b c ha hb hc hab hbc := by
    rw [hless a b ha hb] at hab
    rw [hless b c hb hc] at hbc
    rw [hless a c ha hc]
    exact hab.trans hbc
  total a b ha hb hne := by
    rw [hless a b ha hb, hless b a hb ha]
    exact lt_or_gt_of_ne fun heq => hne (hname a b heq)

/-- The orders by which the miner chooses are strict and total, for entries with positive sizes and different hashes. -/
theorem minerOrders_strictTotalOn (txHash : Tx → Uint256) :
    StrictTotalOn (fun e : PricedEntry => 0 < e.withAncestors.2.1)
      (fun e => txHash e.tx) (compareTxMemPoolEntryByAncestorFeeOrGasPrice txHash) ∧
      StrictTotalOn (fun e : CTxMemPoolModifiedEntry => 0 < e.nSizeWithAncestors)
        (fun e => txHash e.iter.tx) (compareModifiedEntry txHash) := by
  constructor
  · exact .of_rank (PricedEntry.rank txHash) (fun a b => compare_iff_rank_lt) fun a b =>
      txHash_eq_of_rank_eq
  · exact .of_rank (CTxMemPoolModifiedEntry.rank txHash)
      (fun a b => compareModifiedEntry_iff_rank_lt) fun a b => txHash_eq_of_modified_rank_eq

/-! ### The order of eviction -/

/-- The larger one of the fee rates of an entry, alone and with its descendants. -/
def CTxMemPoolEntry.descendantScore (e : CTxMemPoolEntry) : ℚ :=
  max (feeRate e.getModifiedFee e.nTxSize) (feeRate e.withDescendants.2.2 e.withDescendants.2.1)

section Eviction

variable {a b c : CTxMemPoolEntry}

theorem feeRate_useDescendantScore (ha : 0 < a.withDescendants.2.1) :
    feeRate (if useDescendantScore a then a.withDescendants.2.2 else a.getModifiedFee)
      (if useDescendantScore a then a.withDescendants.2.1 else a.nTxSize) =
      a.descendantScore := by
  have hsize : (0 : Int) < a.nTxSize := Int.natCast_pos.mpr a.nTxSize_pos
  have huse : useDescendantScore a = true ↔
      feeRate a.getModifiedFee a.nTxSize < feeRate a.withDescendants.2.2 a.withDescendants.2.1 := by
    rw [feeRate_lt_iff hsize ha, useDescendantScore, decide_eq_true_iff, mul_comm (a.nTxSize : Int)]
  rw [CTxMemPoolEntry.descendantScore]
  split
  · rename_i h
    exact (max_eq_right (huse.mp h).le).symm
  · rename_i h
    exact (max_eq_left (not_lt.mp (huse.not.mp h))).symm

theorem compareByDescendantScore_iff (ha : 0 < a.withDescendants.2.1) (hb : 0 < b.withDescendants.2.1) :
    compareTxMemPoolEntryByDescendantScore a b = true ↔
      a.descendantScore < b.descendantScore ∨ a.descendantScore = b.descendantScore ∧
        b.nTime ≤ a.nTime := by
  have hpositive : ∀ e : CTxMemPoolEntry, 0 < e.withDescendants.2.1 →
      (0 : Int) < if useDescendantScore e then e.withDescendants.2.1 else e.nTxSize := by
    intro e he
    split
    · exact he
    · exact Int.natCast_pos.mpr e.nTxSize_pos
  rw [← feeRate_useDescendantScore ha, ← feeRate_useDescendantScore hb,
    feeRate_lt_iff (hpositive a ha) (hpositive b hb), feeRate_eq_iff (hpositive a ha) (hpositive b hb)]
  have htie : ∀ f1 f2 : Int, (if f1 = f2 then decide (a.nTime ≥ b.nTime) else decide (f1 < f2)) =
      true ↔ f1 < f2 ∨ f1 = f2 ∧ b.nTime ≤ a.nTime := by
    intro f1 f2
    split
    · rename_i heq
      simp [heq]
    · rename_i hne
      simp [hne]
  exact htie _ _

/-- The comparison is transitive, also where it does not tell, and what it puts first has the smallest score. Two entries do not both come before the other exactly if they differ in score or time. -/
theorem compareByDescendantScore_strict_iff (a b c : CTxMemPoolEntry)
    (ha : 0 < a.withDescendants.2.1) (hb : 0 < b.withDescendants.2.1) (hc : 0 < c.withDescendants.2.1) :
    (¬ (compareTxMemPoolEntryByDescendantScore a b = true ∧
      compareTxMemPoolEntryByDescendantScore b a = true) ↔
        a.descendantScore ≠ b.descendantScore ∨ a.nTime ≠ b.nTime) ∧
      (compareTxMemPoolEntryByDescendantScore a b = true →
        compareTxMemPoolEntryByDescendantScore b c = true →
        compareTxMemPoolEntryByDescendantScore a c = true) ∧
      (compareTxMemPoolEntryByDescendantScore a b = false ∧
        compareTxMemPoolEntryByDescendantScore b a = false →
        compareTxMemPoolEntryByDescendantScore b c = false ∧
          compareTxMemPoolEntryByDescendantScore c b = false →
        compareTxMemPoolEntryByDescendantScore a c = false ∧
          compareTxMemPoolEntryByDescendantScore c a = false) ∧
      (compareTxMemPoolEntryByDescendantScore a b = true ∨
        compareTxMemPoolEntryByDescendantScore b a = false →
          a.descendantScore ≤ b.descendantScore) := by
  have hab := compareByDescendantScore_iff ha hb
  have hba := compareByDescendantScore_iff hb ha
  have hbc := compareByDescendantScore_iff hb hc
  have hac := compareByDescendantScore_iff ha hc
  refine ⟨?_, ?_, ?_, ?_⟩
  · rw [hab, hba]
    constructor
    · intro hnot
      by_contra hsame
      obtain ⟨hscore, htime⟩ := not_or.mp hsame
      rw [not_not] at hscore htime
      exact hnot ⟨Or.inr ⟨hscore, htime.ge⟩, Or.inr ⟨hscore.symm, htime.le⟩⟩
    · rintro hdiffer ⟨hlt | ⟨heq, hle⟩, hlt' | ⟨heq', hle'⟩⟩
      · exact lt_asymm hlt hlt'
      · exact hlt.ne' heq'
      · exact hlt'.ne' heq
      · exact hdiffer.elim (fun h => h heq) fun h => h (le_antisymm hle' hle)
  · rw [hab, hbc, hac]
    rintro (hlt | ⟨heq, hle⟩) (hlt' | ⟨heq', hle'⟩)
    · exact Or.inl (hlt.trans hlt')
    · exact Or.inl (heq' ▸ hlt)
    · exact Or.inl (heq ▸ hlt')
    · exact Or.inr ⟨heq.trans heq', hle'.trans hle⟩
  · -- the comparison always tells
    rintro ⟨hnot, hnot'⟩
    rw [← Bool.not_eq_true, hab, not_or, not_lt] at hnot
    rw [← Bool.not_eq_true, hba, not_or, not_lt] at hnot'
    have hscore := le_antisymm hnot'.1 hnot.1
    rcases le_total a.nTime b.nTime with htime | htime
    · exact absurd ⟨hscore.symm, htime⟩ hnot'.2
    · exact absurd ⟨hscore, htime⟩ hnot.2
  · rw [← Bool.not_eq_true, hab, hba, not_or, not_lt]
    rintro ((hlt | ⟨heq, -⟩) | ⟨hle, -⟩)
    · exact hlt.le
    · exact heq.le
    · exact hle

def loneEntry (fee : Amount) (nTime : Int) : CTxMemPoolEntry :=
  .new ⟨2, [], [], 0⟩ fee ⟨100, hundred_pos⟩ nTime false 0

/-- Of two entries with the same fee rate, the later one comes first. -/
theorem compareByDescendantScore_strict_later :
    ¬ (compareTxMemPoolEntryByDescendantScore (loneEntry 500 8) (loneEntry 500 7) = true ∧
        compareTxMemPoolEntryByDescendantScore (loneEntry 500 7) (loneEntry 500 8) = true) ∧
      compareTxMemPoolEntryByDescendantScore (loneEntry 500 8) (loneEntry 600 9) = true := by
  obtain ⟨hstrict, htrans, -, -⟩ :=
    compareByDescendantScore_strict_iff (loneEntry 500 8) (loneEntry 500 7) (loneEntry 600 9)
      (by decide) (by decide) (by decide)
  exact ⟨hstrict.mpr (Or.inr (by decide)), htrans (by decide) (by decide)⟩

/-- An entry comes before itself, and entries that came in the same second come before each other. -/
theorem compareByDescendantScore_reflexive :
    compareTxMemPoolEntryByDescendantScore (loneEntry 500 7) (loneEntry 500 7) = true ∧
      compareTxMemPoolEntryByDescendantScore { loneEntry 500 7 with tx := ⟨1, [], [], 0⟩ }
        (loneEntry 500 7) = true ∧
      compareTxMemPoolEntryByDescendantScore (loneEntry 500 7) { loneEntry 500 7 with
        tx := ⟨1, [], [], 0⟩ } = true := by
  refine ⟨?_, ?_, ?_⟩
  · decide
  · decide
  · decide

end Eviction

end TscPow
