import TscPow.Primitives.Stream

/-!
# Variable-length integers

`WriteVarInt`, `GetSizeOfVarInt` and `ReadVarInt` (`serialize.h`). The digits are those of base 128, most significant first, with one subtracted at every digit but the last. So each number has one form, and every form that can be read is that of a number. `writeVarInt` and `readVarInt` are in terms of numbers; for the unsigned types there are the loops on machine words as well, with the array into which the digits are put.
-/

namespace TscPow

open Reader

/-! ### Numbers -/

/-- `WriteVarInt` of an integer of any type; the digits that are followed by others have their high bit set. -/
def writeVarInt (more : Bool) (n : Int) : List Byte :=
  let digit := BitVec.ofInt 8 (n % 128 + if more then 128 else 0)
  if n ≤ 0x7f then [digit] else writeVarInt true (n / 128 - 1) ++ [digit]
termination_by n.toNat
decreasing_by omega

/-- The loop of `ReadVarInt` for a type with the greatest value `max`. -/
def readDigits (max n : Nat) : List Byte → Option (Nat × List Byte)
  | [] => none
  | chData :: input =>
    if n > max / 128 then none
    else
      let n := n * 128 + chData.toNat % 128
      if 128 ≤ chData.toNat then if n = max then none else readDigits max (n + 1) input
      else some (n, input)

def readVarInt (max : Nat) : Reader Byte Nat := readDigits max 0

theorem toNat_digit {n : Int} (more : Bool) :
    (BitVec.ofInt 8 (n % 128 + if more then 128 else 0)).toNat = (n % 128).toNat + if more then 128
      else 0 := by
  rw [BitVec.toNat_ofInt]
  split <;> omega

theorem readDigits_more {max : Nat} {n : Nat} (hn : n < max) (rest : List Byte) :
    readDigits max 0 (writeVarInt true n ++ rest) = readDigits max (n + 1) rest := by
  induction n using Nat.strong_induction_on generalizing rest with
  | _ n ih =>
    rw [writeVarInt]
    split
    · rw [List.singleton_append, readDigits, if_neg (Nat.not_lt_zero _)]
      dsimp only
      rw [toNat_digit, if_pos rfl, if_pos (by omega), if_neg (by omega)]
      congr 1
      omega
    · have hcast : (n : Int) / 128 - 1 = ((n / 128 - 1 : Nat) : Int) := by omega
      rw [List.append_assoc, hcast, ih _ (by omega) (by omega), List.singleton_append, readDigits,
        if_neg (by omega)]
      dsimp only
      rw [toNat_digit, if_pos rfl, if_pos (by omega), if_neg (by omega)]
      congr 1
      omega

theorem reads_varInt {max n : Nat} (hn : n ≤ max) : Reads (readVarInt max) (writeVarInt false n) n := by
  intro rest
  change readDigits max 0 _ = _
  rw [writeVarInt]
  split
  · rw [List.singleton_append, readDigits, if_neg (Nat.not_lt_zero _)]
    dsimp only
    rw [toNat_digit, if_neg Bool.false_ne_true, if_neg (by omega)]
    congr 2
    omega
  · have hcast : (n : Int) / 128 - 1 = ((n / 128 - 1 : Nat) : Int) := by omega
    rw [List.append_assoc, hcast, readDigits_more (by omega), List.singleton_append, readDigits,
      if_neg (by omega)]
    dsimp only
    rw [toNat_digit, if_neg Bool.false_ne_true, if_neg (by omega)]
    congr 2
    omega

/-! ### What was read -/

/-- The digits that come before, if `n` is what has been read so far: none, or those of the number below. -/
def precedingDigits : Nat → List Byte
  | 0 => []
  | n + 1 => writeVarInt true n

theorem precedingDigits_concat (n low : Nat) (hlow : low < 128) (more : Bool) :
    precedingDigits n ++ [BitVec.ofNat 8 (low + if more then 128 else 0)] =
      writeVarInt more (n * 128 + low : Nat) := by
  have hdigit : BitVec.ofInt 8 (((n * 128 + low : Nat) : Int) % 128 + if more then 128 else 0) =
      BitVec.ofNat 8 (low + if more then 128 else 0) := by
    apply BitVec.eq_of_toNat_eq
    rw [toNat_digit, BitVec.toNat_ofNat]
    split <;> omega
  rw [writeVarInt, hdigit]
  cases n with
  | zero =>
    have hone : ((0 * 128 + low : Nat) : Int) ≤ 0x7f := by omega
    rw [if_pos hone, precedingDigits, List.nil_append]
  | succ n =>
    have hmany : ¬ (((n + 1) * 128 + low : Nat) : Int) ≤ 0x7f := by omega
    have hrest : (((n + 1) * 128 + low : Nat) : Int) / 128 - 1 = n := by omega
    rw [if_neg hmany, hrest, precedingDigits]

theorem precedingDigits_append_of_readDigits {max n result : Nat} {input rest : List Byte}
    (h : readDigits max n input = some (result, rest)) :
    precedingDigits n ++ input = writeVarInt false result ++ rest := by
  induction input generalizing n with
  | nil => cases h
  | cons chData input ih =>
    have hbyte := chData.isLt
    have hlow : chData.toNat % 128 < 128 := Nat.mod_lt _ (by decide)
    have hconcat := precedingDigits_concat n _ hlow
    rw [readDigits] at h
    split at h
    · cases h
    · dsimp only at h
      split at h
      · rename_i hmore
        have hdigit : BitVec.ofNat 8 (chData.toNat % 128 + if true then 128 else 0) = chData := by
          apply BitVec.eq_of_toNat_eq
          rw [BitVec.toNat_ofNat, if_pos rfl]
          omega
        have hnext := hconcat true
        rw [hdigit] at hnext
        split at h
        · cases h
        · rw [← ih h, precedingDigits, ← hnext, List.append_assoc, List.singleton_append]
      · rename_i hlast
        have hdigit : BitVec.ofNat 8 (chData.toNat % 128 + if false then 128 else 0) = chData := by
          apply BitVec.eq_of_toNat_eq
          rw [BitVec.toNat_ofNat, if_neg Bool.false_ne_true]
          omega
        have hnext := hconcat false
        rw [hdigit] at hnext
        cases h
        rw [← hnext, List.append_assoc, List.singleton_append]

/-! ### Machine words -/

section

variable {w : Nat}

/-- The loop of `WriteVarInt` over the places of `tmp`, least significant digit first; `none` is a place past the end. -/
def fillTmp : (room : Nat) → (more : Bool) → BitVec w → Option (List Byte)
  | 0, _, _ => none
  | room + 1, more, n =>
    let digit : Byte := (n &&& 0x7f).setWidth 8 ||| if more then 0x80 else 0
    if n.toNat ≤ 0x7f then some [digit] else (fillTmp room true ((n >>> 7) - 1)).map (digit :: ·)

/-- `WriteVarInt` for an unsigned type of `w` bits. -/
def writeVarIntWord (n : BitVec w) : Option (List Byte) :=
  (fillTmp ((w + 6) / 7) false n).map List.reverse

theorem toNat_shift_sub_one {n : BitVec w} (hn : 128 ≤ n.toNat) :
    ((n >>> 7) - 1).toNat = n.toNat / 128 - 1 := by
  have hlt := n.isLt
  have hone : (1 : BitVec w).toNat = 1 := (BitVec.toNat_ofNat 1 w).trans (Nat.mod_eq_of_lt (by omega))
  rw [BitVec.toNat_sub_of_le, BitVec.toNat_ushiftRight, Nat.shiftRight_eq_div_pow, hone]
  rw [BitVec.le_def, BitVec.toNat_ushiftRight, Nat.shiftRight_eq_div_pow, hone]
  omega

def getSizeOfVarInt (n : BitVec w) : Nat := if n.toNat ≤ 0x7f then 1
    else getSizeOfVarInt ((n >>> 7) - 1) + 1
termination_by n.toNat
decreasing_by
  rw [toNat_shift_sub_one (by omega)]
  omega

/-- The loop of `ReadVarInt`. -/
def readDigitsWord (n : BitVec w) : List Byte → Option (BitVec w × List Byte)
  | [] => none
  | chData :: is =>
    if n > BitVec.allOnes w >>> 7 then none
    else
      let n := (n <<< 7) ||| (chData &&& 0x7f).setWidth w
      if chData &&& 0x80 ≠ 0 then if n = BitVec.allOnes w then none else readDigitsWord (n + 1) is
      else some (n, is)

def readVarIntWord (is : List Byte) : Option (BitVec w × List Byte) := readDigitsWord 0 is

/-! ### Words and numbers -/

theorem toNat_digitWord (n : BitVec w) (more : Bool) (hw : 8 ≤ w) :
    (n &&& 0x7f).setWidth 8 ||| (if more then 0x80 else 0) = BitVec.ofInt 8
    ((n.toNat : Int) % 128 + if more then 128 else 0) := by
  have hpow : 2 ^ 8 ≤ 2 ^ w := Nat.pow_le_pow_right (by decide) hw
  have hmask : (0x7f : BitVec w).toNat = 2 ^ 7 - 1 :=
    (BitVec.toNat_ofNat 0x7f w).trans (Nat.mod_eq_of_lt (by omega))
  have hlow : ((n &&& 0x7f).setWidth 8).toNat = n.toNat % 128 := by
    rw [BitVec.toNat_setWidth, BitVec.toNat_and, hmask, Nat.and_two_pow_sub_one_eq_mod]
    omega
  apply BitVec.eq_of_toNat_eq
  rw [toNat_digit, BitVec.toNat_or, hlow]
  cases more with
  | false =>
    rw [if_neg Bool.false_ne_true, if_neg Bool.false_ne_true, show (0 : Byte).toNat = 0 from rfl,
      Nat.or_zero]
    omega
  | true =>
    rw [if_pos rfl, if_pos rfl, show (0x80 : Byte).toNat = 2 ^ 7 * 1 from rfl,
      Nat.or_comm, ← Nat.two_pow_add_eq_or_of_lt (Nat.mod_lt _ (by decide))]
    omega

theorem fillTmp_eq {room : Nat} (more : Bool) {n : BitVec w} (hw : 8 ≤ w) (hpos : 0 < room)
    (hroom : n.toNat < 128 ^ room) :
    fillTmp room more n = some (writeVarInt more n.toNat).reverse ∧
      (writeVarInt more n.toNat).length = getSizeOfVarInt n := by
  induction room generalizing more n with
  | zero => cases hpos
  | succ room ih =>
    rw [fillTmp, writeVarInt, getSizeOfVarInt, toNat_digitWord n more hw]
    by_cases hsmall : n.toNat ≤ 0x7f
    · have hcast : (n.toNat : Int) ≤ 0x7f := by omega
      rw [if_pos hsmall, if_pos hsmall, if_pos hcast]
      exact ⟨rfl, rfl⟩
    · have hcast : ¬ (n.toNat : Int) ≤ 0x7f := by omega
      have hnext : ((n >>> 7) - 1).toNat = n.toNat / 128 - 1 := toNat_shift_sub_one (by omega)
      have hrest : (n.toNat : Int) / 128 - 1 = ((n.toNat / 128 - 1 : Nat) : Int) := by omega
      have hless : ((n >>> 7) - 1).toNat < 128 ^ room := by
        rw [pow_succ] at hroom
        omega
      have hpos' : 0 < room := by
        rcases Nat.eq_zero_or_pos room with rfl | hpos'
        · omega
        · exact hpos'
      obtain ⟨hfill, hlength⟩ := ih true hpos' hless
      rw [if_neg hsmall, if_neg hsmall, if_neg hcast, hrest, ← hnext, hfill, Option.map_some,
        List.reverse_append, List.length_append, hlength]
      exact ⟨rfl, rfl⟩

theorem writeVarIntWord_eq {n : BitVec w} (hw : 8 ≤ w) :
    writeVarIntWord n = some (writeVarInt false n.toNat) ∧
      (writeVarInt false n.toNat).length = getSizeOfVarInt n := by
  have hroom : n.toNat < 128 ^ ((w + 6) / 7) := by
    rw [show 128 = 2 ^ 7 from rfl, ← pow_mul]
    exact n.isLt.trans_le (Nat.pow_le_pow_right (by decide) (by omega))
  obtain ⟨hfill, hlength⟩ := fillTmp_eq false hw (by omega) hroom
  rw [writeVarIntWord, hfill, Option.map_some, List.reverse_reverse]
  exact ⟨rfl, hlength⟩

theorem toNat_or_low {n : BitVec w} (hw : 8 ≤ w) (hn : n.toNat ≤ (2 ^ w - 1) / 128) (chData : Byte) :
    ((n <<< 7) ||| (chData &&& 0x7f).setWidth w).toNat = n.toNat * 128 + chData.toNat % 128 := by
  have hpow : 2 ^ 8 ≤ 2 ^ w := Nat.pow_le_pow_right (by decide) hw
  have hdvd : 2 ^ 7 ∣ 2 ^ w := Nat.pow_dvd_pow 2 (by omega)
  have hlow : ((chData &&& 0x7f).setWidth w).toNat = chData.toNat % 128 := by
    rw [BitVec.toNat_setWidth, BitVec.toNat_and, show (0x7f : Byte).toNat = 2 ^ 7 - 1 from rfl,
      Nat.and_two_pow_sub_one_eq_mod]
    exact Nat.mod_eq_of_lt (by omega)
  have hhigh : (n <<< 7).toNat = 2 ^ 7 * n.toNat := by
    rw [BitVec.toNat_shiftLeft, Nat.shiftLeft_eq, Nat.mul_comm]
    exact Nat.mod_eq_of_lt (by omega)
  rw [BitVec.toNat_or, hlow, hhigh, ← Nat.two_pow_add_eq_or_of_lt (Nat.mod_lt _ (by decide)),
    Nat.mul_comm]

theorem and_0x80_ne_zero_iff (chData : Byte) : chData &&& 0x80 ≠ 0 ↔ 128 ≤ chData.toNat := by
  revert chData
  decide

theorem readDigitsWord_eq (hw : 8 ≤ w) (n : BitVec w) (is : List Byte) :
    (readDigitsWord n is).map (Prod.map BitVec.toNat id) = readDigits (2 ^ w - 1) n.toNat is := by
  induction is generalizing n with
  | nil => rfl
  | cons chData is ih =>
    have hguard : n > BitVec.allOnes w >>> 7 ↔ n.toNat > (2 ^ w - 1) / 128 := by
      rw [gt_iff_lt, BitVec.lt_def, BitVec.toNat_ushiftRight, BitVec.toNat_allOnes,
        Nat.shiftRight_eq_div_pow]
    rw [readDigitsWord, readDigits]
    by_cases hlarge : n.toNat > (2 ^ w - 1) / 128
    · rw [if_pos (hguard.mpr hlarge), if_pos hlarge]
      rfl
    · rw [if_neg (fun h => hlarge (hguard.mp h)), if_neg hlarge]
      have hvalue := toNat_or_low hw (Nat.not_lt.mp hlarge) chData
      dsimp only
      rw [← hvalue]
      generalize (n <<< 7) ||| (chData &&& 0x7f).setWidth w = m
      by_cases hmore : chData &&& 0x80 ≠ 0
      · rw [if_pos hmore, if_pos ((and_0x80_ne_zero_iff chData).mp hmore)]
        by_cases hmax : m = BitVec.allOnes w
        · rw [if_pos hmax, if_pos (by rw [hmax, BitVec.toNat_allOnes])]
          rfl
        · have hbelow : m.toNat ≠ 2 ^ w - 1 :=
            fun h => hmax (BitVec.eq_of_toNat_eq (h.trans BitVec.toNat_allOnes.symm))
          have hone : (1 : BitVec w).toNat = 1 :=
            (BitVec.toNat_ofNat 1 w).trans (Nat.mod_eq_of_lt (Nat.one_lt_two_pow (by omega)))
          have hnext : (m + 1).toNat = m.toNat + 1 := by
            have hlt := m.isLt
            rw [BitVec.toNat_add, hone]
            exact Nat.mod_eq_of_lt (by omega)
          rw [if_neg hmax, if_neg hbelow, ih, hnext]
      · rw [if_neg hmore, if_neg (fun h => hmore ((and_0x80_ne_zero_iff chData).mpr h))]
        rfl

end

/-- For an unsigned type of any number of bytes: what is written stays within `tmp`, has the size that `GetSizeOfVarInt` gives, and is read back; and what is read is what is written for the result. -/
theorem varInt_bijective (k : Nat) :
    (∀ n : BitVec (8 * (k + 1)), ∃ bytes, writeVarIntWord n = some bytes ∧
      bytes.length = getSizeOfVarInt n ∧
      ∀ rest, readVarIntWord (bytes ++ rest) = some (n, rest)) ∧
    ∀ (n : BitVec (8 * (k + 1))) (input rest : List Byte), readVarIntWord input = some (n, rest) →
      ∃ bytes, writeVarIntWord n = some bytes ∧ input = bytes ++ rest := by
  have hw : 8 ≤ 8 * (k + 1) := by omega
  have hzero : (0 : BitVec (8 * (k + 1))).toNat = 0 := by simp
  refine ⟨fun n => ?_, fun n input rest hread => ?_⟩
  · obtain ⟨hwrite, hlength⟩ := writeVarIntWord_eq (n := n) hw
    refine ⟨_, hwrite, hlength, fun rest => ?_⟩
    have hword := readDigitsWord_eq hw 0 (writeVarInt false n.toNat ++ rest)
    have hreads : readDigits (2 ^ (8 * (k + 1)) - 1) 0 (writeVarInt false n.toNat ++ rest) =
        some (n.toNat, rest) :=
      reads_varInt (Nat.le_sub_one_of_lt n.isLt) rest
    rw [hzero, hreads] at hword
    obtain ⟨⟨m, rest'⟩, hread, heq⟩ := Option.map_eq_some_iff.mp hword
    obtain ⟨hm, rfl⟩ := Prod.mk.inj heq
    rw [readVarIntWord, hread, BitVec.eq_of_toNat_eq hm]
    rfl
  · have hword := readDigitsWord_eq hw 0 input
    rw [hzero, show readDigitsWord 0 input = some (n, rest) from hread] at hword
    exact ⟨_, (writeVarIntWord_eq hw).1, precedingDigits_append_of_readDigits hword.symm⟩

end TscPow
