import TscPow.Primitives.VarInt
import TscPow.Validation.Coins

/-!
# Coins in the database

`Coin::Serialize` (`coins.h`) and `TxInUndoSerializer` (`undo.h`) pack the height and the two flags of a coin into one number and write its output in a compressed form (`compressor.cpp`). The height is a bit field of thirty bits. `Coin::Serialize` puts the sum into a `uint32_t`; in `TxInUndoSerializer` it is written as it is, with the unsigned type that `g++` gives to it in a template. So both records hold the same number, and every height survives.
-/

namespace TscPow

open Reader

/-! ### Amounts -/

/-- The loop of `CompressAmount`: at most `k` zeros are taken off the end of `n`. -/
def stripZeros : Nat → Nat → Nat × Nat
  | 0, n => (n, 0)
  | k + 1, n => if n % 10 = 0 then ((stripZeros k (n / 10)).1, (stripZeros k (n / 10)).2 + 1) else (n, 0)

def compressAmount (n : Nat) : Nat :=
  if n = 0 then 0
  else
    let (n, e) := stripZeros 9 n
    if e < 9 then 1 + (n / 10 * 9 + n % 10 - 1) * 10 + e else 1 + (n - 1) * 10 + 9

def decompressAmount (x : Nat) : Nat :=
  if x = 0 then 0
  else
    let e := (x - 1) % 10
    let x := (x - 1) / 10
    (if e < 9 then x / 9 * 10 + (x % 9 + 1) else x + 1) * 10 ^ e

theorem stripZeros_spec (k : Nat) {n : Nat} (hn : 0 < n) :
    (stripZeros k n).1 * 10 ^ (stripZeros k n).2 = n ∧ 0 < (stripZeros k n).1 ∧ (stripZeros k n).2 ≤ k ∧
      ((stripZeros k n).2 < k → (stripZeros k n).1 % 10 ≠ 0) := by
  induction k generalizing n with
  | zero => exact ⟨Nat.mul_one n, hn, le_rfl, fun h => absurd h (Nat.lt_irrefl 0)⟩
  | succ k ih =>
    rw [stripZeros]
    split
    · rename_i hzero
      obtain ⟨hvalue, hpos, hle, hlast⟩ := @ih (n / 10) (by omega)
      refine ⟨?_, hpos, Nat.succ_le_succ hle, fun h => hlast (Nat.lt_of_succ_lt_succ h)⟩
      rw [pow_succ, ← Nat.mul_assoc, hvalue]
      omega
    · rename_i hdigit
      exact ⟨Nat.mul_one n, hn, Nat.zero_le _, fun _ => hdigit⟩

theorem decompressAmount_compressAmount (n : Nat) :
    decompressAmount (compressAmount n) = n ∧ compressAmount n ≤ 10 * n := by
  rcases Nat.eq_zero_or_pos n with rfl | hn
  · exact ⟨rfl, le_rfl⟩
  obtain ⟨hvalue, hpos, hle, hlast⟩ := stripZeros_spec 9 hn
  rw [compressAmount, if_neg hn.ne']
  generalize stripZeros 9 n = s at hvalue hpos hle hlast
  obtain ⟨m, e⟩ := s
  dsimp only at hvalue hpos hle hlast ⊢
  have hm : m ≤ n := by
    rw [← hvalue]
    exact Nat.le_mul_of_pos_right m (Nat.pow_pos (by decide))
  split
  · rename_i he
    have hdigit := hlast he
    have hx : (1 + (m / 10 * 9 + m % 10 - 1) * 10 + e - 1) % 10 = e ∧
        (1 + (m / 10 * 9 + m % 10 - 1) * 10 + e - 1) / 10 = m / 10 * 9 + m % 10 - 1 := by omega
    refine ⟨?_, ?_⟩
    · rw [decompressAmount, if_neg (by omega)]
      dsimp only
      rw [hx.1, hx.2, if_pos he]
      have hback :
          (m / 10 * 9 + m % 10 - 1) / 9 * 10 + ((m / 10 * 9 + m % 10 - 1) % 9 + 1) = m := by omega
      rw [hback, hvalue]
    · omega
  · rename_i he
    have he : e = 9 := by omega
    have hx : (1 + (m - 1) * 10 + 9 - 1) % 10 = 9 ∧ (1 + (m - 1) * 10 + 9 - 1) / 10 = m - 1 := by omega
    refine ⟨?_, by omega⟩
    rw [decompressAmount, if_neg (by omega)]
    dsimp only
    rw [hx.1, hx.2, if_neg (by omega), Nat.sub_add_cancel hpos, ← he, hvalue]

/-! ### Scripts -/

/-- What `CPubKey` knows of the curve: which uncompressed keys are points, and the key that a compressed one stands for. -/
structure PubKeyCodec where
  isFullyValid : List Byte → Bool
  decompress : List Byte → Option (List Byte)
  /-- Decompressing a valid key that was compressed gives the key back. -/
  inverts : ∀ x y : List Byte, ∀ last : Byte, x.length = 32 → y.length = 31 →
    isFullyValid (0x04 :: (x ++ (y ++ [last]))) = true →
    decompress ((0x02 ||| last &&& 1) :: x) = some (0x04 :: (x ++ (y ++ [last])))

namespace ScriptCompressor

variable (codec : PubKeyCodec)

/-- The scripts of `Decompress`. -/
def toKeyID (hash : List Byte) : Script := [0x76, 0xa9, 20] ++ (hash ++ [0x88, 0xac])

def toScriptID (hash : List Byte) : Script := [0xa9, 20] ++ (hash ++ [0x87])

def toPubKey (pubkey : List Byte) : Script := [BitVec.ofNat 8 pubkey.length] ++ (pubkey ++ [0xac])

/-- The `n` bytes after the first `i`, if the script is what `make` makes of them. -/
def payload (make : List Byte → Script) (i n : Nat) (script : Script) : Option (List Byte) :=
  let bytes := (script.drop i).take n
  if bytes.length = n ∧ script = make bytes then some bytes else none

/-- `IsToKeyID`, `IsToScriptID` and the two forms of `IsToPubKey`. -/
def isToKeyID (script : Script) : Option (List Byte) := payload toKeyID 3 20 script

def isToScriptID (script : Script) : Option (List Byte) := payload toScriptID 2 20 script

def isToPubKey (script : Script) : Option (List Byte) :=
  ((payload toPubKey 1 33 script).filter fun pubkey => pubkey.head? == some 0x02 || pubkey.head? ==
    some 0x03).or
    ((payload toPubKey 1 65 script).filter fun pubkey =>
      pubkey.head? == some 0x04 && codec.isFullyValid pubkey)

/-- `Compress`. -/
def compress (script : Script) : Option (List Byte) :=
  match isToKeyID script with
  | some keyID => some (0x00 :: keyID)
  | none =>
    match isToScriptID script with
    | some scriptID => some (0x01 :: scriptID)
    | none => (isToPubKey codec script).map fun pubkey =>
      (if pubkey.headD 0 = 0x04 then 0x04 ||| pubkey.getD 64 0 &&& 1 else pubkey.headD 0) ::
        (pubkey.drop 1).take 32

def getSpecialSize (nSize : Nat) : Nat := if nSize ≤ 1 then 20 else if nSize ≤ 5 then 32 else 0

/-- `Decompress`; the script stays empty if the key is not one. -/
def decompress (nSize : Nat) (bytes : List Byte) : Script :=
  match nSize with
  | 0 => toKeyID bytes
  | 1 => toScriptID bytes
  | 2 => toPubKey (0x02 :: bytes)
  | 3 => toPubKey (0x03 :: bytes)
  | 4 => ((codec.decompress (0x02 :: bytes)).map toPubKey).getD []
  | 5 => ((codec.decompress (0x03 :: bytes)).map toPubKey).getD []
  | _ => []

def nSpecialScripts : Nat := 6

def serialize (script : Script) : List Byte :=
  match compress codec script with
  | some compr => compr
  | none => writeVarInt false (script.length + nSpecialScripts : Nat) ++ script

def unserialize : Reader Byte Script := do
  let nSize ← readVarInt (2 ^ 32 - 1)
  if nSize < nSpecialScripts then
    let vch ← Reader.take (getSpecialSize nSize)
    return decompress codec nSize vch
  else if nSize - nSpecialScripts > Script.MAX_SCRIPT_SIZE then
    let _ ← Reader.take (nSize - nSpecialScripts)
    return [0x6a]
  else Reader.take (nSize - nSpecialScripts)

theorem of_payload {make : List Byte → Script} {i n : Nat} {script : Script} {bytes : List Byte}
    (h : payload make i n script = some bytes) :
    bytes.length = n ∧ script = make bytes := by
  rw [payload] at h
  split at h
  · rename_i hmake
    cases h
    exact hmake
  · cases h

theorem reads_special {nSize : Byte} {bytes : List Byte} {script : Script}
    (hsize : nSize.toNat < nSpecialScripts) (hlength : bytes.length = getSpecialSize nSize.toNat)
    (hscript : decompress codec nSize.toNat bytes = script) :
    Reads (unserialize codec) (nSize :: bytes) script := by
  have hdigit : writeVarInt false nSize.toNat = [nSize] := by
    rw [writeVarInt, if_pos (by rw [nSpecialScripts] at hsize; omega)]
    apply congrArg (fun b => [b])
    apply BitVec.eq_of_toNat_eq
    rw [toNat_digit, if_neg Bool.false_ne_true]
    rw [nSpecialScripts] at hsize
    omega
  have hnum := @reads_varInt (2 ^ 32 - 1) nSize.toNat (by omega)
  rw [hdigit] at hnum
  refine hnum.bind ?_
  rw [if_pos hsize, ← hlength, ← hscript]
  exact (Reads.take bytes).map _

theorem and_one (b : Byte) : b &&& 1 = 0 ∨ b &&& 1 = 1 := by
  decide +revert

theorem exists_coordinates {rest : List Byte} (h : rest.length = 64) :
    ∃ x y : List Byte, ∃ last : Byte, rest = x ++ (y ++ [last]) ∧ x.length = 32 ∧ y.length = 31 := by
  obtain hnil | ⟨front, last, rfl⟩ := List.eq_nil_or_concat' rest
  · rw [hnil] at h
    cases h
  · have hfront : front.length = 63 := by simpa using h
    refine ⟨front.take 32, front.drop 32, last, ?_, by simp [hfront], by simp [hfront]⟩
    rw [← List.append_assoc, List.take_append_drop]

theorem getD_last {first last : Byte} {x y : List Byte} (hx : x.length = 32) (hy : y.length = 31) :
    (first :: (x ++ (y ++ [last]))).getD 64 0 = last := by
  rw [List.getD_cons_succ, List.getD_append_right _ _ _ _ (by omega),
    List.getD_append_right _ _ _ _ (by omega), hx, hy]
  rfl

theorem reads_pubKey {script : Script} {pubkey : List Byte} (h : isToPubKey codec script = some pubkey) :
    Reads (unserialize codec)
      ((if pubkey.headD 0 = 0x04 then 0x04 ||| pubkey.getD 64 0 &&& 1 else pubkey.headD 0) ::
        (pubkey.drop 1).take 32) script := by
  rw [isToPubKey, Option.or_eq_some_iff] at h
  rcases h with h | ⟨-, h⟩
  · obtain ⟨h, hhead⟩ := Option.filter_eq_some_iff.mp h
    obtain ⟨hlength, rfl⟩ := of_payload h
    obtain ⟨first, rest, rfl⟩ := List.exists_cons_of_length_eq_add_one hlength
    have hrest : rest.length = 32 := by simpa using hlength
    have htake : rest.take 32 = rest := List.take_of_length_le hrest.le
    rw [List.head?_cons, Bool.or_eq_true, beq_iff_eq, beq_iff_eq, Option.some.injEq,
      Option.some.injEq] at hhead
    rw [List.headD_cons, List.drop_one, List.tail_cons, htake]
    rcases hhead with rfl | rfl
    · rw [if_neg (by decide)]
      exact reads_special codec (by decide) hrest rfl
    · rw [if_neg (by decide)]
      exact reads_special codec (by decide) hrest rfl
  · obtain ⟨h, hhead⟩ := Option.filter_eq_some_iff.mp h
    obtain ⟨hlength, rfl⟩ := of_payload h
    obtain ⟨first, rest, rfl⟩ := List.exists_cons_of_length_eq_add_one hlength
    obtain ⟨x, y, last, rfl, hx, hy⟩ := exists_coordinates (by simpa using hlength)
    rw [List.head?_cons, Bool.and_eq_true, beq_iff_eq, Option.some.injEq] at hhead
    obtain ⟨rfl, hvalid⟩ := hhead
    have hinverts := codec.inverts x y last hx hy hvalid
    rw [List.headD_cons, if_pos rfl, getD_last hx hy, List.drop_one, List.tail_cons, List.take_left' hx]
    rcases and_one last with heven | hodd
    · rw [heven] at hinverts ⊢
      refine reads_special codec (by decide) hx ?_
      change ((codec.decompress (0x02 :: x)).map toPubKey).getD [] = _
      rw [show codec.decompress (0x02 :: x) = _ from hinverts]
      rfl
    · rw [hodd] at hinverts ⊢
      refine reads_special codec (by decide) hx ?_
      change ((codec.decompress (0x03 :: x)).map toPubKey).getD [] = _
      rw [show codec.decompress (0x03 :: x) = _ from hinverts]
      rfl

theorem reads_script {script : Script} (hlength : script.length ≤ Script.MAX_SCRIPT_SIZE) :
    Reads (unserialize codec) (serialize codec script) script := by
  rw [serialize, compress]
  cases hkey : isToKeyID script with
  | some keyID =>
    obtain ⟨hbytes, hscript⟩ := of_payload hkey
    exact reads_special codec (by decide) hbytes hscript.symm
  | none =>
    cases hid : isToScriptID script with
    | some scriptID =>
      obtain ⟨hbytes, hscript⟩ := of_payload hid
      exact reads_special codec (by decide) hbytes hscript.symm
    | none =>
      cases hpubkey : isToPubKey codec script with
      | some pubkey => exact reads_pubKey codec hpubkey
      | none =>
        rw [Script.MAX_SCRIPT_SIZE] at hlength
        have hnum :=
          @reads_varInt (2 ^ 32 - 1) (script.length + nSpecialScripts)
            (by rw [nSpecialScripts]; omega)
        refine hnum.bind ?_
        rw [if_neg (by omega), Nat.add_sub_cancel, if_neg (by rw [Script.MAX_SCRIPT_SIZE]; omega)]
        exact Reads.take script

end ScriptCompressor

/-! ### Coins -/

variable (codec : PubKeyCodec)

namespace TxOutCompressor

def serialize (out : TxOut) : List Byte :=
  writeVarInt false (compressAmount out.nValue.toNat) ++ ScriptCompressor.serialize codec out.scriptPubKey

def unserialize : Reader Byte TxOut := do
  let nVal ← readVarInt (2 ^ 64 - 1)
  let scriptPubKey ← ScriptCompressor.unserialize codec
  return ⟨decompressAmount nVal, scriptPubKey⟩

end TxOutCompressor

namespace Coin

def flags (coin : Coin) : Nat := (if coin.fCoinBase then 1 else 0) + if coin.fCoinStake then 2 else 0

/-- The sum of the shifted height and the flags, in 32 bits. -/
def packed (coin : Coin) : Nat := (4 * coin.nHeight + coin.flags) % 2 ^ 32

/-- `Coin::Serialize`. -/
def serialize (coin : Coin) : List Byte :=
  writeVarInt false coin.packed ++ TxOutCompressor.serialize codec coin.out

def unserialize : Reader Byte Coin := do
  let code ← readVarInt (2 ^ 32 - 1)
  let out ← TxOutCompressor.unserialize codec
  return ⟨out, code % 2 == 1, code / 2 % 2 == 1, code / 4⟩

/-- `TxInUndoSerializer`. -/
def serializeUndo (coin : Coin) : List Byte :=
  writeVarInt false coin.packed ++
    ((if coin.nHeight > 0 then [0] else []) ++ TxOutCompressor.serialize codec coin.out)

/-- The number that older versions wrote for coins with a height. -/
def readVersionDummy (nHeight : Nat) : Reader Byte Unit :=
  if nHeight > 0 then (do let _ ← readVarInt (2 ^ 31 - 1)) else pure ()

/-- `TxInUndoDeserializer`. -/
def unserializeUndo : Reader Byte Coin := do
  let nCode ← readVarInt (2 ^ 32 - 1)
  readVersionDummy (nCode / 4)
  let out ← TxOutCompressor.unserialize codec
  return ⟨out, nCode % 2 == 1, nCode / 2 % 2 == 1, nCode / 4⟩

/-- A coin as validation stores it. -/
structure Stored (coin : Coin) : Prop where
  nonneg : 0 ≤ coin.out.nValue
  money : coin.out.nValue ≤ MAX_MONEY
  script : coin.out.scriptPubKey.length ≤ Script.MAX_SCRIPT_SIZE
  nHeight : coin.nHeight < 2 ^ 30

end Coin

variable {codec} {coin : Coin}

theorem reads_txOutCompressed {out : TxOut} (hnonneg : 0 ≤ out.nValue) (hmoney : out.nValue ≤ MAX_MONEY)
    (hscript : out.scriptPubKey.length ≤ Script.MAX_SCRIPT_SIZE) :
    Reads (TxOutCompressor.unserialize codec) (TxOutCompressor.serialize codec out) out := by
  obtain ⟨hinverse, hle⟩ := decompressAmount_compressAmount out.nValue.toNat
  have hmax : out.nValue.toNat ≤ 2 ^ 60 := Int.toNat_le.mpr (hmoney.trans (by decide))
  have hread : Reads (TxOutCompressor.unserialize codec) (TxOutCompressor.serialize codec out)
      ⟨decompressAmount (compressAmount out.nValue.toNat), out.scriptPubKey⟩ :=
    (reads_varInt (by omega)).bind ((ScriptCompressor.reads_script codec hscript).map _)
  rwa [hinverse, Int.toNat_of_nonneg hnonneg] at hread

namespace Coin

theorem flags_lt (coin : Coin) : coin.flags < 4 := by
  rw [flags]
  split <;> split <;> decide

theorem unpack (coin : Coin) (out : TxOut) :
    (⟨out, (4 * coin.nHeight + coin.flags) % 2 == 1, (4 * coin.nHeight + coin.flags) / 2 % 2 == 1,
      (4 * coin.nHeight + coin.flags) / 4⟩ : Coin) =
      { coin with out } := by
  obtain ⟨_, fCoinBase, fCoinStake, nHeight⟩ := coin
  cases fCoinBase <;> cases fCoinStake <;> simp [flags] <;> omega

theorem Stored.reads_out (h : coin.Stored) :
    Reads (TxOutCompressor.unserialize codec) (TxOutCompressor.serialize codec coin.out) coin.out :=
  reads_txOutCompressed h.nonneg h.money h.script

theorem Stored.packed_eq (h : coin.Stored) : coin.packed = 4 * coin.nHeight + coin.flags := by
  have hheight := h.nHeight
  have hflags := coin.flags_lt
  exact Nat.mod_eq_of_lt (by omega)

theorem reads_packed (coin : Coin) :
    Reads (readVarInt (2 ^ 32 - 1)) (writeVarInt false coin.packed) coin.packed :=
  reads_varInt (Nat.le_sub_one_of_lt (Nat.mod_lt _ (by decide)))

theorem Stored.reads (h : coin.Stored) : Reads (unserialize codec) (coin.serialize codec) coin := by
  have hread : Reads (unserialize codec) (coin.serialize codec)
      ⟨coin.out, coin.packed % 2 == 1, coin.packed / 2 % 2 == 1, coin.packed / 4⟩ :=
    (reads_packed coin).bind (h.reads_out.map _)
  rwa [h.packed_eq, unpack] at hread

theorem reads_versionDummy (nHeight : Nat) :
    Reads (readVersionDummy nHeight) (if nHeight > 0 then [0] else []) () := by
  rw [readVersionDummy]
  split
  · have hzero : writeVarInt false (0 : Nat) = [0] := by
      rw [writeVarInt]
      rfl
    rw [← hzero]
    exact (@reads_varInt (2 ^ 31 - 1) 0 (by omega)).map _
  · exact Reads.pure ()

theorem Stored.reads_undo (h : coin.Stored) :
    Reads (unserializeUndo codec) (coin.serializeUndo codec) coin := by
  have hflags := coin.flags_lt
  have hback : coin.packed / 4 = coin.nHeight := by
    rw [h.packed_eq]
    omega
  have hread : Reads (unserializeUndo codec) (coin.serializeUndo codec)
      ⟨coin.out, coin.packed % 2 == 1, coin.packed / 2 % 2 == 1, coin.packed / 4⟩ := by
    refine (reads_packed coin).bind ?_
    rw [hback]
    exact (reads_versionDummy coin.nHeight).bind (h.reads_out.map _)
  rwa [h.packed_eq, unpack] at hread

end Coin

/-- A stored coin is read back from its record in the database and from its undo record, and nothing after the record is read. -/
theorem coin_survives (codec : PubKeyCodec) (coin : Coin) (h : coin.Stored) :
    Reads (Coin.unserialize codec) (coin.serialize codec) coin ∧
      Reads (Coin.unserializeUndo codec) (coin.serializeUndo codec) coin :=
  ⟨h.reads, h.reads_undo⟩

namespace CoinStreamSample

def curve : PubKeyCodec where
  isFullyValid key :=
    key == 0x04 :: ((key.drop 1).take 32 ++ (List.replicate 31 0 ++ [key.getD 64 0 &&& 1]))
  decompress key := some (0x04 :: (key.drop 1 ++ (List.replicate 31 0 ++ [key.headD 0 &&& 1])))
  inverts := by
    intro x y last hx hy hvalid
    rw [beq_iff_eq, ScriptCompressor.getD_last hx hy, List.drop_one, List.tail_cons,
      List.take_left' hx] at hvalid
    have hparity : ∀ b : Byte, (0x02 ||| b &&& 1) &&& 1 = b &&& 1 := by decide
    rw [hvalid, List.headD_cons, hparity]
    rfl

def minted (nHeight : Nat) : Coin := ⟨⟨50000, [0x51]⟩, true, false, nHeight⟩

theorem stored_minted (nHeight : Nat) (h : nHeight < 2 ^ 30) : (minted nHeight).Stored where
  nonneg := show (0 : Int) ≤ 50000 by decide
  money := show (50000 : Int) ≤ MAX_MONEY by decide
  script := show 1 ≤ Script.MAX_SCRIPT_SIZE by decide
  nHeight := h

end CoinStreamSample

open CoinStreamSample in
/-- The greatest height. -/
theorem coin_survives_minted : (minted (2 ^ 30 - 1)).Stored ∧
    Reads (Coin.unserializeUndo curve) ((minted (2 ^ 30 - 1)).serializeUndo curve)
      (minted (2 ^ 30 - 1)) :=
  have h := stored_minted (2 ^ 30 - 1) (by decide)
  ⟨h, (coin_survives curve (minted (2 ^ 30 - 1)) h).2⟩

end TscPow
