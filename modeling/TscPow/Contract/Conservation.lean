import TscPow.Base.Flow
import TscPow.Contract.Condensing

/-!
# Condensing conserves value

The transaction that condenses a list of transfers spends the coins of the addresses involved and pays each of them what its coin was worth, plus what it received, minus what it sent. The amounts are computed with 256 bits and paid out with 64; the results are about transfers for which no amount leaves the range of the latter.

An address brings in one coin: the sender of the transaction the output that is being executed, every other address the coin that the state has for it. A coin counts if it is alive, and also if it is not alive and its address is not one to be deleted: this is the coin of a contract that destroyed itself during the execution.
-/

namespace TscPow

namespace CondensingTX

variable (s : TscState) (qtx : TscTransaction)

/-! ### Which coin an address brings in -/

def involves (a : Address) (ti : TransferInfo) : Bool := ti.sender == a || ti.receiver == a

/-- The coin of an address, for some transfers. The output being executed is the coin of its sender, if the sender sends at all; where the state has a coin for the sender too, the first transfer decides. -/
def coinAmong (transfers : List TransferInfo) (a : Address) : Option Vin :=
  if a = qtx.sender ∧ qtx.value > 0 ∧
      (if (s.vin a).isSome then (transfers.find? (involves a)).any (·.sender == a)
        else transfers.any (·.sender == a)) = true then some (ownVin qtx)
  else s.vin a

def coinOf (a : Address) : Option Vin := coinAmong s qtx s.transfers a

/-- The coin of an address, if it can be spent. -/
def spendable (a : Address) : Option Vin :=
  (coinOf s qtx a).filter fun v => decide (v.value > 0) && (v.alive || !checkDeleteAddress s a)

def coinValue (a : Address) : Nat := ((spendable s qtx a).map fun v => v.value.toNat).getD 0

/-- What an address received and what it sent, over the integers. -/
def received (a : Address) : Nat :=
  Flow.total TransferInfo.receiver (fun ti => ti.value.toNat) s.transfers a

def sent (a : Address) : Nat := Flow.total TransferInfo.sender (fun ti => ti.value.toNat) s.transfers a

def newBalance (a : Address) : Nat := coinValue s qtx a + received s a - sent s a

def paid : List Address := (involved s).filter fun a => decide (0 < newBalance s qtx a)

section Selection

variable {s qtx} {a : Address} {ti : TransferInfo} {transfers : List TransferInfo}
  {vins : Address → Option Vin}

/-- What one round of `selectionVin` does to the entry of an address: an entry stays. -/
def selectEntry (s : TscState) (qtx : TscTransaction) (a : Address) (entry : Option Vin)
    (ti : TransferInfo) : Option Vin :=
  let entry := if ti.sender = a then
    entry.or (if a = qtx.sender ∧ qtx.value > 0 then some (ownVin qtx) else s.vin a) else entry
  if ti.receiver = a then entry.or (s.vin a) else entry

theorem update_of_isNone_apply (w : Address → Option Vin) (b : Address) (x : Option Vin) :
    (if (w b).isSome then w else Function.update w b x) a = if b = a then (w a).or x else w a := by
  by_cases hb : b = a
  · subst hb
    rw [if_pos rfl]
    cases hw : w b with
    | none => simp
    | some v => simp [hw]
  · rw [if_neg hb]
    split
    · rfl
    · rw [Function.update_of_ne (Ne.symm hb)]

theorem selectVin_apply (vins : Address → Option Vin) :
    selectVin s qtx vins ti a = selectEntry s qtx a (vins a) ti := by
  have hfirst : (if (vins ti.sender).isSome then vins
      else if ti.sender = qtx.sender ∧ qtx.value > 0 then
        Function.update vins ti.sender (some (ownVin qtx))
      else Function.update vins ti.sender (s.vin ti.sender)) =
      if (vins ti.sender).isSome then vins
      else Function.update vins ti.sender (if ti.sender = qtx.sender ∧ qtx.value > 0 then
        some (ownVin qtx) else s.vin ti.sender) := by
    split_ifs <;> rfl
  unfold selectVin selectEntry
  simp only [hfirst]
  refine (update_of_isNone_apply _ ti.receiver (s.vin ti.receiver)).trans ?_
  rw [update_of_isNone_apply]
  by_cases hsender : ti.sender = a
  · subst hsender
    by_cases hreceiver : ti.receiver = ti.sender
    · rw [hreceiver]
    · simp only [if_neg hreceiver]
  · by_cases hreceiver : ti.receiver = a
    · subst hreceiver
      simp only [if_neg hsender]
    · simp only [if_neg hsender, if_neg hreceiver]

theorem foldl_selectVin_apply (vins : Address → Option Vin) :
    transfers.foldl (selectVin s qtx) vins a = transfers.foldl (selectEntry s qtx a) (vins a) := by
  induction transfers generalizing vins with
  | nil => rfl
  | cons ti transfers ih => rw [List.foldl_cons, List.foldl_cons, ih, selectVin_apply]

theorem foldl_selectEntry_some (v : Vin) : transfers.foldl (selectEntry s qtx a) (some v) = some v := by
  induction transfers with
  | nil => rfl
  | cons ti transfers ih =>
    have hstep : selectEntry s qtx a (some v) ti = some v := by
      unfold selectEntry
      simp
    rw [List.foldl_cons, hstep, ih]

theorem foldl_selectEntry_none :
    transfers.foldl (selectEntry s qtx a) none = if transfers.any (involves a) then
      coinAmong s qtx transfers a else none := by
  induction transfers with
  | nil => rfl
  | cons ti transfers ih =>
    rw [List.foldl_cons, List.any_cons]
    by_cases hsender : ti.sender = a
    · have hinvolved : involves a ti = true := by simp [involves, hsender]
      have hstep : selectEntry s qtx a none ti = if a = qtx.sender ∧ qtx.value > 0 then
          some (ownVin qtx) else s.vin a := by
        unfold selectEntry
        rw [if_pos hsender, Option.none_or]
        split_ifs with hreceiver hown <;> simp
      rw [hstep, hinvolved, Bool.true_or, if_pos rfl]
      by_cases hown : a = qtx.sender ∧ qtx.value > 0
      · rw [if_pos hown, foldl_selectEntry_some]
        unfold coinAmong
        rw [if_pos]
        refine ⟨hown.1, hown.2, ?_⟩
        rw [List.find?_cons_of_pos hinvolved]
        simp [hsender]
      · have hstored : coinAmong s qtx (ti :: transfers) a = s.vin a := if_neg fun h => hown ⟨h.1, h.2.1⟩
        have hrest : coinAmong s qtx transfers a = s.vin a := if_neg fun h => hown ⟨h.1, h.2.1⟩
        rw [if_neg hown, hstored]
        cases hvin : s.vin a with
        | none =>
          rw [ih, hrest, hvin]
          split_ifs <;> rfl
        | some v => exact foldl_selectEntry_some v
    · by_cases hreceiver : ti.receiver = a
      · have hinvolved : involves a ti = true := by simp [involves, hreceiver]
        have hstep : selectEntry s qtx a none ti = s.vin a := by
          unfold selectEntry
          rw [if_neg hsender, if_pos hreceiver, Option.none_or]
        rw [hstep, hinvolved, Bool.true_or, if_pos rfl]
        cases hvin : s.vin a with
        | none =>
          have hsame : coinAmong s qtx (ti :: transfers) a = coinAmong s qtx transfers a := by
            unfold coinAmong
            simp [hvin, hsender]
          rw [ih, hsame]
          split
          · rfl
          · rename_i hnone
            have hsends : transfers.any (·.sender == a) = false := by
              rw [Bool.not_eq_true, List.any_eq_false] at hnone
              rw [List.any_eq_false]
              intro t ht hsends
              exact hnone t ht (by rw [involves, hsends, Bool.true_or])
            unfold coinAmong
            simp [hvin, hsends]
        | some v =>
          rw [foldl_selectEntry_some]
          unfold coinAmong
          rw [hvin, Option.isSome_some, if_pos rfl, List.find?_cons_of_pos hinvolved]
          simp [hsender]
      · have hinvolved : involves a ti = false := by simp [involves, hsender, hreceiver]
        have hstep : selectEntry s qtx a none ti = none := by
          unfold selectEntry
          rw [if_neg hsender, if_neg hreceiver]
        have hsame : coinAmong s qtx (ti :: transfers) a = coinAmong s qtx transfers a := by
          unfold coinAmong
          rw [List.find?_cons_of_neg (by rw [hinvolved]; exact Bool.false_ne_true), List.any_cons]
          simp [hsender]
        rw [hstep, ih, hinvolved, Bool.false_or, hsame]

theorem mem_involved : a ∈ involved s ↔ s.transfers.any (involves a) = true := by
  unfold involved involves
  rw [(List.perm_insertionSort _ _).mem_iff, List.mem_dedup, List.mem_flatMap, List.any_eq_true]
  simp only [List.mem_cons, List.not_mem_nil, or_false, Bool.or_eq_true, beq_iff_eq, @eq_comm _ a]

theorem selectionVin_eq_coinOf (ha : a ∈ involved s) : selectionVin s qtx a = coinOf s qtx a := by
  rw [selectionVin, foldl_selectVin_apply, foldl_selectEntry_none, if_pos (mem_involved.mp ha), coinOf]

theorem toNat_broughtIn (ha : a ∈ involved s) : (broughtIn s qtx a).toNat = coinValue s qtx a := by
  unfold broughtIn coinValue spendable
  rw [selectionVin_eq_coinOf ha]
  cases coinOf s qtx a with
  | none =>
    dsimp only
    split <;> rfl
  | some v =>
    have hcond : ((some v).isSome && v.alive || !v.alive && !checkDeleteAddress s a) =
        (v.alive || !checkDeleteAddress s a) := by
      cases v.alive <;> simp
    simp only [Option.getD_some, hcond]
    cases hspend : (v.alive || !checkDeleteAddress s a) with
    | false => simp [Option.filter, hspend]
    | true =>
      by_cases hpos : 0#256 < v.value
      · simp [Option.filter, hspend, hpos]
      · have hzero : v.value = 0 := BitVec.le_zero_iff.mp (BitVec.not_lt.mp hpos)
        simp [Option.filter, hzero]

theorem createVins_eq : createVins s qtx =
    ((involved s).filterMap (spendable s qtx)).map fun v =>
      ⟨⟨v.hash, v.nVout⟩, [OP_SPEND], SEQUENCE_FINAL, []⟩ := by
  rw [createVins, List.map_filterMap]
  apply List.filterMap_congr
  intro a ha
  rw [selectionVin_eq_coinOf ha, spendable]
  cases coinOf s qtx a with
  | none => rfl
  | some v => cases halive : v.alive <;> simp [Option.filter, halive]

end Selection

/-! ### Balances -/

section Balances

variable {s qtx} {a : Address} {transfers : List TransferInfo}

theorem addPlusMinus_apply (info : Address → U256 × U256) (ti : TransferInfo) :
    addPlusMinus info ti a =
      ((info a).1 + (if ti.receiver = a then ti.value else 0),
        (info a).2 + (if ti.sender = a then ti.value else 0)) := by
  unfold addPlusMinus
  by_cases hreceiver : ti.receiver = a
  · subst hreceiver
    rw [Function.update_self, if_pos rfl]
    by_cases hsender : ti.sender = ti.receiver
    · rw [if_pos hsender, hsender, Function.update_self]
    · rw [if_neg hsender, Function.update_of_ne (Ne.symm hsender), add_zero]
  · rw [Function.update_of_ne (Ne.symm hreceiver), if_neg hreceiver, add_zero]
    by_cases hsender : ti.sender = a
    · subst hsender
      rw [Function.update_self, if_pos rfl]
    · rw [Function.update_of_ne (Ne.symm hsender), if_neg hsender, add_zero]

theorem ofNat_total_cons (party : TransferInfo → Address) (ti : TransferInfo)
    (transfers : List TransferInfo) :
    BitVec.ofNat 256 (Flow.total party (fun ti => ti.value.toNat) (ti :: transfers) a) =
      (if party ti = a then ti.value else 0) + BitVec.ofNat 256
      (Flow.total party (fun ti => ti.value.toNat) transfers a) := by
  rw [Flow.total_cons, BitVec.ofNat_add]
  congr 1
  split
  · rw [BitVec.ofNat_toNat, BitVec.setWidth_eq]
  · rfl

theorem foldl_addPlusMinus (info : Address → U256 × U256) :
    transfers.foldl addPlusMinus info a =
      ((info a).1 +
        BitVec.ofNat 256 (Flow.total TransferInfo.receiver (fun ti => ti.value.toNat) transfers a),
        (info a).2 + BitVec.ofNat 256
          (Flow.total TransferInfo.sender (fun ti => ti.value.toNat) transfers a)) := by
  induction transfers generalizing info with
  | nil => simp
  | cons ti transfers ih =>
    rw [List.foldl_cons, ih, addPlusMinus_apply, ofNat_total_cons, ofNat_total_cons,
      BitVec.add_assoc, BitVec.add_assoc]

variable (s qtx) in
/-- No amount exceeds the range of a `CAmount`. -/
def InRange : Prop := ∀ a ∈ involved s, coinValue s qtx a + received s a < 2 ^ 63 ∧ sent s a < 2 ^ 63

theorem calculatePlusAndMinus_apply :
    calculatePlusAndMinus s a = (BitVec.ofNat 256 (received s a), BitVec.ofNat 256 (sent s a)) := by
  rw [calculatePlusAndMinus, foldl_addPlusMinus]
  simp [received, sent]

theorem InRange.newBalance_lt (h : InRange s qtx) (ha : a ∈ involved s) : newBalance s qtx a < 2 ^ 63 :=
  (Nat.sub_le _ _).trans_lt (h a ha).1

theorem InRange.toNat_balance (h : InRange s qtx) (ha : a ∈ involved s) :
    (broughtIn s qtx a + (calculatePlusAndMinus s a).1).toNat = coinValue s qtx a + received s a ∧
      (calculatePlusAndMinus s a).2.toNat = sent s a := by
  obtain ⟨hplus, hminus⟩ := h a ha
  have hcoin : (broughtIn s qtx a).toNat = coinValue s qtx a := toNat_broughtIn ha
  have hreceived : received s a % 2 ^ 256 = received s a := Nat.mod_eq_of_lt (by omega)
  have hsent : sent s a % 2 ^ 256 = sent s a := Nat.mod_eq_of_lt (by omega)
  rw [calculatePlusAndMinus_apply, BitVec.toNat_add, BitVec.toNat_ofNat, BitVec.toNat_ofNat, hcoin,
    hreceived, hsent]
  exact ⟨Nat.mod_eq_of_lt (by omega), rfl⟩

theorem InRange.newBalances_eq (h : InRange s qtx) {addresses : List Address}
    (hsub : ∀ a ∈ addresses, a ∈ involved s) (hok : (newBalances s qtx addresses).2 = true) :
    (newBalances s qtx addresses).1 = addresses.map
    (fun a => (a, BitVec.ofNat 256 (newBalance s qtx a))) ∧
      ∀ a ∈ addresses, sent s a ≤ coinValue s qtx a + received s a := by
  induction addresses with
  | nil => exact ⟨rfl, by simp⟩
  | cons a addresses ih =>
    rw [List.forall_mem_cons] at hsub
    obtain ⟨hplus, hminus⟩ := h.toNat_balance hsub.1
    rw [newBalances] at hok ⊢
    split at hok
    · cases hok
    · rename_i hle
      obtain ⟨hrest, hcovered⟩ := ih hsub.2 hok
      have hcover : sent s a ≤ coinValue s qtx a + received s a := by
        rw [BitVec.not_lt, BitVec.le_def, hplus, hminus] at hle
        exact hle
      have hbalance : broughtIn s qtx a + (calculatePlusAndMinus s a).1 - (calculatePlusAndMinus s a).2 =
          BitVec.ofNat 256 (newBalance s qtx a) := by
        have hlt := h.newBalance_lt hsub.1
        apply BitVec.eq_of_toNat_eq
        rw [BitVec.toNat_sub_of_le (BitVec.not_lt.mp hle), hplus, hminus, BitVec.toNat_ofNat,
          Nat.mod_eq_of_lt (by omega)]
        rfl
      rw [if_neg hle, List.map_cons, hrest, hbalance]
      exact ⟨rfl, List.forall_mem_cons.mpr ⟨hcover, hcovered⟩⟩

theorem voutFrom_eq {count : Nat} {balances : List (Address × U256)}
    (h : (voutFrom s count balances).2 = false) :
    (voutFrom s count balances).1 = (balances.filter fun b => decide (b.2 > 0)).map
    (fun b => (b.1, ⟨b.2.toAmount, outScript s b.1⟩)) ∧
      (count ≤ MAX_CONTRACT_VOUTS →
        count + (voutFrom s count balances).1.length ≤ MAX_CONTRACT_VOUTS) := by
  induction balances generalizing count with
  | nil => exact ⟨rfl, fun hcount => hcount⟩
  | cons b balances ih =>
    obtain ⟨a, balance⟩ := b
    rw [voutFrom] at h ⊢
    dsimp only at h ⊢
    by_cases hpos : balance > 0
    · rw [if_pos hpos] at h ⊢
      split at h
      · cases h
      · rename_i hroom
        obtain ⟨hrest, hlength⟩ := ih h
        have hkept : ((a, balance) :: balances).filter (fun b => decide (b.2 > 0)) =
            (a, balance) :: balances.filter (fun b => decide (b.2 > 0)) := by
          rw [List.filter_cons, if_pos (decide_eq_true hpos)]
        rw [if_neg hroom, hkept, List.map_cons, ← hrest]
        refine ⟨rfl, fun _ => ?_⟩
        have hlength := hlength (by omega)
        rw [List.length_cons]
        omega
    · rw [if_neg hpos] at h ⊢
      split at h
      · cases h
      · rename_i hroom
        obtain ⟨hrest, hlength⟩ := ih h
        have hkept : ((a, balance) :: balances).filter (fun b => decide (b.2 > 0)) =
            balances.filter (fun b => decide (b.2 > 0)) := by
          rw [List.filter_cons, if_neg (by rw [decide_eq_true_iff]; exact hpos)]
        rw [if_neg hroom, hkept]
        exact ⟨hrest, hlength⟩

theorem toAmount_ofNat {n : Nat} (hn : n < 2 ^ 63) : U256.toAmount (BitVec.ofNat 256 n) = (n : Int) := by
  have hvalue : ((BitVec.ofNat 256 n).setWidth 64).toNat = n := by
    rw [BitVec.toNat_setWidth, BitVec.toNat_ofNat]
    omega
  rw [U256.toAmount, BitVec.toInt_eq_toNat_of_lt (by rw [hvalue]; omega), hvalue]

theorem InRange.vout_eq (h : InRange s qtx) (hok : (createNewBalances s qtx).2 = true)
    (hover : (voutFrom s 0 (createNewBalances s qtx).1).2 = false) :
    (voutFrom s 0 (createNewBalances s qtx).1).1 = (paid s qtx).map fun a =>
    (a, ⟨(newBalance s qtx a : Int), outScript s a⟩) := by
  have hbalances := (h.newBalances_eq (fun a ha => ha) hok).1
  rw [(voutFrom_eq hover).1, createNewBalances, hbalances, List.filter_map, List.map_map, paid]
  have hfilter :
    (involved s).filter ((fun b : Address × U256 => decide (b.2 > 0)) ∘ fun a =>
      (a, BitVec.ofNat 256 (newBalance s qtx a))) =
      (involved s).filter fun a => decide (0 < newBalance s qtx a) := by
    apply List.filter_congr
    intro a ha
    have hlt := h.newBalance_lt ha
    have hvalue : (BitVec.ofNat 256 (newBalance s qtx a)).toNat = newBalance s qtx a := by
      rw [BitVec.toNat_ofNat]
      omega
    have hpos : BitVec.ofNat 256 (newBalance s qtx a) > 0 ↔ 0 < newBalance s qtx a := by
      rw [gt_iff_lt, BitVec.lt_def, hvalue]
      rfl
    simp only [Function.comp_apply, hpos]
  rw [hfilter]
  apply List.map_congr_left
  intro a ha
  have hlt := h.newBalance_lt (List.mem_of_mem_filter ha)
  rw [Function.comp_apply, toAmount_ofNat hlt]

theorem nodup_involved : (involved s).Nodup :=
  (List.perm_insertionSort _ _).nodup_iff.mpr (List.nodup_dedup _)

theorem mem_involved_of_transfer {ti : TransferInfo} (hti : ti ∈ s.transfers) :
    ti.sender ∈ involved s ∧ ti.receiver ∈ involved s := by
  rw [mem_involved, mem_involved, List.any_eq_true, List.any_eq_true]
  exact ⟨⟨ti, hti, by simp [involves]⟩, ⟨ti, hti, by simp [involves]⟩⟩

theorem sum_newBalance (hcovered : ∀ a ∈ involved s, sent s a ≤ coinValue s qtx a + received s a) :
    ((involved s).map (newBalance s qtx)).sum = ((involved s).map (coinValue s qtx)).sum := by
  apply Flow.sum_conserved nodup_involved (fun ti hti => (mem_involved_of_transfer hti).1)
    fun ti hti => (mem_involved_of_transfer hti).2
  intro a ha
  exact Nat.sub_add_cancel (hcovered a ha)

theorem sum_paid :
    ((paid s qtx).map (newBalance s qtx)).sum = ((involved s).map (newBalance s qtx)).sum := by
  unfold paid
  induction involved s with
  | nil => rfl
  | cons a addresses ih =>
    by_cases hpos : 0 < newBalance s qtx a
    · rw [List.filter_cons, if_pos (decide_eq_true hpos), List.map_cons, List.map_cons,
        List.sum_cons, List.sum_cons, ih]
    · rw [List.filter_cons, if_neg (by rw [decide_eq_true_iff]; exact hpos), List.map_cons,
        List.sum_cons, ih, Nat.eq_zero_of_not_pos hpos, zero_add]

theorem sum_spendable :
    (((involved s).filterMap (spendable s qtx)).map fun v => v.value.toNat).sum =
      ((involved s).map (coinValue s qtx)).sum := by
  induction involved s with
  | nil => rfl
  | cons a addresses ih =>
    rw [List.map_cons, List.sum_cons, coinValue]
    cases hcoin : spendable s qtx a with
    | none =>
      rw [List.filterMap_cons_none hcoin, ih]
      exact (zero_add _).symm
    | some v =>
      rw [List.filterMap_cons_some hcoin, List.map_cons, List.sum_cons, ih]
      rfl

theorem pos_of_spendable {v : Vin} (h : spendable s qtx a = some v) : 0 < v.value.toNat := by
  have hvalue := (Option.filter_eq_some_iff.mp h).2
  rw [Bool.and_eq_true, decide_eq_true_iff] at hvalue
  exact hvalue.1

theorem paid_eq_nil_iff (hcovered : ∀ a ∈ involved s, sent s a ≤ coinValue s qtx a + received s a) :
    paid s qtx = [] ↔ (involved s).filterMap (spendable s qtx) = [] := by
  have hsum := sum_paid.trans ((sum_newBalance hcovered).trans sum_spendable.symm)
  constructor
  · intro hnil
    rw [hnil] at hsum
    rw [List.eq_nil_iff_forall_not_mem]
    intro v hv
    obtain ⟨a, _, hcoin⟩ := List.mem_filterMap.mp hv
    have hzero := List.sum_eq_zero_iff.mp hsum.symm v.value.toNat (List.mem_map_of_mem hv)
    exact (pos_of_spendable hcoin).ne' hzero
  · intro hnil
    rw [hnil] at hsum
    rw [List.eq_nil_iff_forall_not_mem]
    intro a ha
    have hzero := List.sum_eq_zero_iff.mp hsum (newBalance s qtx a) (List.mem_map_of_mem ha)
    have hpos := of_decide_eq_true (List.mem_filter.mp ha).2
    exact hpos.ne' hzero

/-- The inputs and the outputs of a condensing transaction; the empty transaction has none. -/
def Condensed.vin (c : Condensed) : List TxIn := (c.tx.map Tx.vin).getD []

def Condensed.vout (c : Condensed) : List TxOut := (c.tx.map Tx.vout).getD []

theorem InRange.createCondensingTX_eq (h : InRange s qtx) (hok : (createNewBalances s qtx).2 = true)
    (hover : (createCondensingTX s qtx).voutOverflow = false) :
    (createCondensingTX s qtx).vin = ((involved s).filterMap (spendable s qtx)).map
    (fun v => ⟨⟨v.hash, v.nVout⟩, [OP_SPEND], SEQUENCE_FINAL, []⟩) ∧
      (createCondensingTX s qtx).vout = (paid s qtx).map
      (fun a => ⟨(newBalance s qtx a : Int), outScript s a⟩) ∧
      (createCondensingTX s qtx).balances = (involved s).map
      (fun a => (a, BitVec.ofNat 256 (newBalance s qtx a))) ∧
      (createCondensingTX s qtx).nVouts = (fun a => BitVec.ofNat 32 (((paid s qtx).idxOf? a).getD 0)) ∧
      (paid s qtx).length ≤ MAX_CONTRACT_VOUTS := by
  obtain ⟨hbalances, hcovered⟩ := h.newBalances_eq (fun a ha => ha) hok
  have hunfold : createCondensingTX s qtx =
      { tx := if (createVins s qtx).isEmpty ||
        (voutFrom s 0 (createNewBalances s qtx).1).1.isEmpty then none
          else some ⟨2, createVins s qtx, (voutFrom s 0 (createNewBalances s qtx).1).1.map Prod.snd, 0⟩
        balances := (createNewBalances s qtx).1
        nVouts := fun a => BitVec.ofNat 32
          ((((voutFrom s 0 (createNewBalances s qtx).1).1.map Prod.fst).idxOf? a).getD 0)
        voutOverflow := (voutFrom s 0 (createNewBalances s qtx).1).2 } := by
    rw [createCondensingTX, if_pos hok]
  rw [hunfold] at hover ⊢
  have hvout := h.vout_eq hok hover
  have hlength := (voutFrom_eq hover).2 (Nat.zero_le _)
  rw [hvout, List.length_map, Nat.zero_add] at hlength
  have hempty : (paid s qtx).isEmpty = ((involved s).filterMap (spendable s qtx)).isEmpty := by
    rw [Bool.eq_iff_iff, List.isEmpty_iff, List.isEmpty_iff]
    exact paid_eq_nil_iff hcovered
  have hfst :
      ((paid s qtx).map fun a =>
        (a, (⟨(newBalance s qtx a : Int), outScript s a⟩ : TxOut))).map Prod.fst = paid s qtx := by
    rw [List.map_map]
    exact List.map_id _
  have hsnd :
    ((paid s qtx).map fun a =>
      (a, (⟨(newBalance s qtx a : Int), outScript s a⟩ : TxOut))).map Prod.snd =
      (paid s qtx).map fun a => ⟨(newBalance s qtx a : Int), outScript s a⟩ := by
    rw [List.map_map]
    rfl
  simp only [hvout, createVins_eq, List.isEmpty_map, hempty, Bool.or_self, hfst, hsnd,
    Condensed.vin, Condensed.vout]
  refine ⟨?_, ?_, hbalances, trivial, hlength⟩
  · split
    · rename_i hnil
      rw [List.isEmpty_iff.mp hnil]
      rfl
    · rfl
  · split
    · rename_i hnil
      rw [List.isEmpty_iff.mp (hempty.trans hnil)]
      rfl
    · rfl

theorem lookup_map_pair {addresses : List Address} (f : Address → U256) (a : Address) :
    (addresses.map fun b => (b, f b)).lookup a = if a ∈ addresses then some (f a) else none := by
  induction addresses with
  | nil => rfl
  | cons b addresses ih =>
    rw [List.map_cons, List.lookup_cons, ih]
    by_cases hab : a = b
    · simp [hab]
    · rw [beq_false_of_ne hab]
      simp [hab]

theorem InRange.createVin_eq (h : InRange s qtx) (hok : (createNewBalances s qtx).2 = true)
    (hover : (createCondensingTX s qtx).voutOverflow = false) (txHash : Tx → Uint256) (a : Address) :
    createVin qtx txHash (createCondensingTX s qtx) a =
      if a ∈ involved s ∧ a ≠ qtx.sender then
        if 0 < newBalance s qtx a then
          some ⟨((createCondensingTX s qtx).tx.map txHash).getD (.ofNat 0),
            BitVec.ofNat 32 (((paid s qtx).idxOf? a).getD 0),
            BitVec.ofNat 256 (newBalance s qtx a), true⟩
        else some ⟨((createCondensingTX s qtx).tx.map txHash).getD (.ofNat 0), 0, 0, false⟩
      else none := by
  obtain ⟨_, _, hbalances, hnVouts, _⟩ := h.createCondensingTX_eq hok hover
  unfold createVin
  rw [hbalances, hnVouts, lookup_map_pair]
  by_cases hsender : a = qtx.sender
  · rw [if_pos hsender, if_neg (fun hinvolved => hinvolved.2 hsender)]
  · rw [if_neg hsender]
    by_cases ha : a ∈ involved s
    · have hlt := h.newBalance_lt ha
      have hpos : BitVec.ofNat 256 (newBalance s qtx a) > 0 ↔ 0 < newBalance s qtx a := by
        rw [gt_iff_lt, BitVec.lt_def, BitVec.toNat_ofNat, Nat.mod_eq_of_lt (by omega)]
        rfl
      rw [if_pos ha, if_pos ⟨ha, hsender⟩, Option.map_some]
      simp only [hpos]
      split <;> rfl
    · rw [if_neg ha, if_neg (fun hinvolved => ha hinvolved.1)]
      rfl

theorem getElem?_idxOf_paid (hlength : (paid s qtx).length ≤ MAX_CONTRACT_VOUTS) (ha : a ∈ paid s qtx) :
    (paid s qtx)[(BitVec.ofNat 32 (((paid s qtx).idxOf? a).getD 0)).toNat]? = some a := by
  have hidx := List.idxOf_lt_length_of_mem ha
  have hfound : ((paid s qtx).idxOf? a).getD 0 = (paid s qtx).idxOf a := by
    obtain ⟨i, hi⟩ := Option.isSome_iff_exists.mp (List.isSome_idxOf?.mpr ha)
    rw [List.idxOf_eq_getD_idxOf?, hi, Option.getD_some, Option.getD_some]
  have hsmall : (paid s qtx).idxOf a < 2 ^ 32 := by
    unfold MAX_CONTRACT_VOUTS at hlength
    omega
  rw [hfound, BitVec.toNat_ofNat, Nat.mod_eq_of_lt hsmall, List.getElem?_eq_getElem hidx,
    List.getElem_idxOf]

end Balances

/-! ### Conservation -/

/-- The condensing transaction spends the coins of the addresses involved and pays out as much, to each address the new balance; the coins recorded for the addresses other than the sender are these outputs. -/
theorem createCondensingTX_conserves (txHash : Tx → Uint256) (hok : (createNewBalances s qtx).2 = true)
    (hover : (createCondensingTX s qtx).voutOverflow = false) (hrange : InRange s qtx) :
    let c := createCondensingTX s qtx
    let coins := (involved s).filterMap (spendable s qtx)
    c.vin = coins.map (fun v => ⟨⟨v.hash, v.nVout⟩, [OP_SPEND], SEQUENCE_FINAL, []⟩) ∧
      (c.vout.map TxOut.nValue).sum = ((coins.map fun v => v.value.toNat).sum : Nat) ∧
      c.vout = (paid s qtx).map (fun a => ⟨(newBalance s qtx a : Int), outScript s a⟩) ∧
      (∀ a ∈ involved s, newBalance s qtx a + sent s a = coinValue s qtx a + received s a) ∧
      (∀ a ∈ involved s, a ≠ qtx.sender → ∃ v, createVin qtx txHash c a = some v ∧
        v.value.toNat = newBalance s qtx a ∧
        (v.alive = true ↔ a ∈ paid s qtx) ∧
        (a ∈ paid s qtx → (c.tx.map txHash) = some v.hash ∧ (paid s qtx)[v.nVout.toNat]? = some a)) ∧
      ∀ a, a ∉ involved s ∨ a = qtx.sender → createVin qtx txHash c a = none := by
  intro c coins
  obtain ⟨hvin, hvout, _, _, hlength⟩ := hrange.createCondensingTX_eq hok hover
  have hcovered := (hrange.newBalances_eq (fun a ha => ha) hok).2
  refine ⟨hvin, ?_, hvout, ?_, ?_, ?_⟩
  · have hvalues : (c.vout.map TxOut.nValue) = ((paid s qtx).map (newBalance s qtx)).map Nat.cast := by
      rw [hvout, List.map_map, List.map_map]
      rfl
    rw [hvalues, ← Nat.cast_list_sum, sum_paid, sum_newBalance hcovered, sum_spendable]
  · intro a ha
    exact Nat.sub_add_cancel (hcovered a ha)
  · intro a ha hsender
    have hrecord := hrange.createVin_eq hok hover txHash a
    rw [if_pos ⟨ha, hsender⟩] at hrecord
    by_cases hpos : 0 < newBalance s qtx a
    · have hpaid : a ∈ paid s qtx := List.mem_filter.mpr ⟨ha, decide_eq_true hpos⟩
      have hlt := hrange.newBalance_lt ha
      rw [if_pos hpos] at hrecord
      refine ⟨_, hrecord, ?_, iff_of_true rfl hpaid, fun _ => ⟨?_, getElem?_idxOf_paid hlength hpaid⟩⟩
      · rw [BitVec.toNat_ofNat, Nat.mod_eq_of_lt (by omega)]
      · -- the address has an output, so there is a transaction
        cases htx : c.tx with
        | none =>
          have hnil : c.vout = [] := by rw [Condensed.vout, htx]; rfl
          rw [hvout, List.map_eq_nil_iff] at hnil
          rw [hnil] at hpaid
          cases hpaid
        | some tx => rfl
    · have hpaid : a ∉ paid s qtx := by
        intro hpaid
        exact hpos (of_decide_eq_true (List.mem_filter.mp hpaid).2)
      rw [if_neg hpos] at hrecord
      exact ⟨_, hrecord, (Nat.eq_zero_of_not_pos hpos).symm, iff_of_false Bool.false_ne_true hpaid,
        fun h => absurd h hpaid⟩
  · intro a ha
    rw [hrange.createVin_eq hok hover txHash a, if_neg]
    intro hrecorded
    exact ha.elim (fun hnot => hnot hrecorded.1) hrecorded.2

namespace DestroyedContract

def call : TscTransaction := ⟨9, false, 1, 2000, 0, 0, .evmDefault, .ofNat 4, 1⟩

/-- The contract at 1 has destroyed itself during the call and left what it had to the address 2, of which 500 coins went on to the address 3. -/
def state : TscState :=
  { TscState.empty with
    cacheUTXO := fun a => if a = 1 then some ⟨.ofNat 5, 0, 13000, false⟩ else none
    transfers := [⟨9, 1, 2000⟩, ⟨1, 2, 15000⟩, ⟨2, 3, 500⟩]
    deleteAddresses := [9, 7] }

def txHash (_ : Tx) : Uint256 := .ofNat 6

theorem createNewBalances_state : (createNewBalances state call).2 = true := by decide

theorem voutOverflow_state : (createCondensingTX state call).voutOverflow = false := by decide

theorem inRange_state : InRange state call := by
  have hinvolved : involved state = [1, 2, 3, 9] := by decide
  have hvalues : [1, 2, 3, 9].map (fun a => (coinValue state call a, received state a, sent state a)) =
      [(13000, 2000, 15000), (0, 15000, 500), (0, 500, 0), (2000, 0, 2000)] := by decide
  simp only [List.map_cons, List.map_nil, List.cons.injEq, Prod.mk.injEq] at hvalues
  intro a ha
  rw [hinvolved] at ha
  simp only [List.mem_cons, List.not_mem_nil, or_false] at ha
  rcases ha with rfl | rfl | rfl | rfl
  all_goals omega

end DestroyedContract

open DestroyedContract in
theorem createCondensingTX_conserves_destroyed :
    (createNewBalances state call).2 = true ∧ (createCondensingTX state call).voutOverflow = false ∧
      InRange state call ∧
      ((createCondensingTX state call).vout.map TxOut.nValue).sum = 15000 := by
  have hcoins :
      (((involved state).filterMap (spendable state call)).map fun v => v.value.toNat).sum =
        15000 := by decide
  have hsum :=
    (createCondensingTX_conserves state call txHash createNewBalances_state voutOverflow_state
      inRange_state).2.1
  rw [hcoins] at hsum
  exact ⟨createNewBalances_state, voutOverflow_state, inRange_state, hsum⟩

open DestroyedContract in
/-- The coin of the destroyed contract is an input though it is not alive. -/
theorem dead_coin_condensed :
    (createNewBalances state call).2 = true ∧ (createCondensingTX state call).voutOverflow = false ∧
      InRange state call ∧
      ∃ v, coinOf state call 1 = some v ∧ v.alive = false ∧
        (⟨⟨v.hash, v.nVout⟩, [OP_SPEND], SEQUENCE_FINAL, []⟩ : TxIn) ∈
        (createCondensingTX state call).vin := by
  refine ⟨createNewBalances_state, voutOverflow_state, inRange_state, ⟨.ofNat 5, 0, 13000, false⟩,
    by decide, rfl, by decide⟩

end CondensingTX

end TscPow
