import TscPow.Primitives.VarInt
import TscPow.Script.Interpreter
import TscPow.Script.Standard

/-!
# Script numbers

`CScriptNum` (`script/script.h`): integers as bytes, least significant first, with the sign in the highest bit of the last byte. `serializeNum`, `setVch` and `vchToUint64` are in terms of numbers; here are the loops on 64-bit words, with shifts, and what they compute. Every number has one minimal form, which is the one that `serialize` gives and the only one that the constructor accepts if it is asked for minimal forms.
-/

namespace TscPow

namespace Script

/-! ### Magnitudes -/

theorem getLast?_magnitudeBytes_ne_zero {fuel n : Nat} (hn : n < 256 ^ fuel) :
    (magnitudeBytes fuel n).getLast? ≠ some 0 := by
  induction fuel generalizing n with
  | zero => simp [magnitudeBytes]
  | succ fuel ih =>
    rw [magnitudeBytes]
    split
    · simp
    · rename_i hpos
      have hrest : n / 256 < 256 ^ fuel := Nat.div_lt_of_lt_mul (by rw [← Nat.pow_succ']; exact hn)
      rw [List.getLast?_cons]
      cases hlast : (magnitudeBytes fuel (n / 256)).getLast? with
      | some last =>
        rw [Option.getD_some, ← hlast]
        exact ih hrest
      | none =>
        -- the only digit is the number itself
        have hvalue := value_magnitudeBytes hrest
        rw [List.getLast?_eq_none_iff.mp hlast, Limbs.value_nil] at hvalue
        rw [Option.getD_none, Ne, Option.some_inj, ← BitVec.toNat_inj, BitVec.toNat_ofNat]
        change n % 256 ≠ 0
        omega

theorem magnitudeBytes_value {fuel : Nat} {bytes : List Byte} (hlength : bytes.length ≤ fuel)
    (hlast : bytes.getLast? ≠ some 0) :
    magnitudeBytes fuel (Limbs.value bytes) = bytes := by
  induction bytes generalizing fuel with
  | nil => cases fuel <;> rfl
  | cons b bytes ih =>
    obtain ⟨fuel, rfl⟩ : ∃ k, fuel = k + 1 := ⟨fuel - 1, by rw [List.length_cons] at hlength; omega⟩
    have hb := b.isLt
    have hvalue : Limbs.value (b :: bytes) = b.toNat + 256 * Limbs.value bytes := Limbs.value_cons b bytes
    have hrest : bytes.getLast? ≠ some 0 := by
      cases bytes with
      | nil => simp
      | cons c bytes => rwa [List.getLast?_cons_cons] at hlast
    have ih := ih (Nat.le_of_succ_le_succ hlength) hrest
    have hpos : Limbs.value (b :: bytes) ≠ 0 := by
      intro hzero
      have hbytes : Limbs.value bytes = 0 := by omega
      have hnil : bytes = [] := by
        rw [← ih, hbytes]
        cases fuel <;> rfl
      apply hlast
      rw [hnil, List.getLast?_singleton, Option.some_inj, ← BitVec.toNat_inj]
      change b.toNat = 0
      omega
    rw [magnitudeBytes, if_neg hpos, hvalue]
    refine List.cons_eq_cons.mpr ⟨?_, ?_⟩
    · apply BitVec.eq_of_toNat_eq
      rw [BitVec.toNat_ofNat]
      omega
    · rw [show (b.toNat + 256 * Limbs.value bytes) / 256 = Limbs.value bytes by omega]
      exact ih

/-! ### Signs -/

theorem and_0x7f_ne_zero_iff (b : Byte) : b &&& 0x7f ≠ 0 ↔ b.toNat % 128 ≠ 0 := by
  revert b
  decide

theorem toNat_or_0x80 (b : Byte) : (b ||| 0x80).toNat = b.toNat % 128 + 128 := by
  revert b
  decide

def signByte (neg : Bool) : Byte := if neg then 0x80 else 0

def signed (neg : Bool) (n : Nat) : Int := if neg then -(n : Int) else n

theorem value_concat (init : List Byte) (b : Byte) :
    Limbs.value (init ++ [b]) = Limbs.value init + 2 ^ (8 * init.length) * b.toNat := by
  rw [Limbs.value_append, Limbs.value_cons, Limbs.value_nil, Nat.mul_zero, Nat.add_zero]

theorem setVch_concat (init : List Byte) (b : Byte) :
    setVch (init ++ [b]) = signed (decide (128 ≤ b.toNat))
      (Limbs.value init + 2 ^ (8 * init.length) * (b.toNat % 128)) := by
  have hb := b.isLt
  rw [setVch, List.getLast?_concat, Option.any_some, value_concat, List.length_append,
    List.length_singleton, Nat.add_sub_cancel]
  by_cases hsign : 128 ≤ b.toNat
  · have hbit : (b &&& 0x80 != 0) = true := bne_iff_ne.mpr ((and_0x80_ne_zero_iff b).mpr hsign)
    have hlow : b.toNat = b.toNat % 128 + 128 := by omega
    have hpow : (256 : Int) ^ init.length = 2 ^ (8 * init.length) := by rw [pow_mul]; rfl
    rw [hbit, if_pos rfl, decide_eq_true hsign, signed, if_pos rfl, hpow]
    conv_lhs => rw [hlow]
    push_cast
    ring
  · have hbit : (b &&& 0x80 != 0) = false := by
      rw [← Bool.not_eq_true, bne_iff_ne, and_0x80_ne_zero_iff]
      exact hsign
    have hlow : b.toNat % 128 = b.toNat := by omega
    rw [hbit, if_neg Bool.false_ne_true, decide_eq_false hsign, signed, if_neg Bool.false_ne_true, hlow]

theorem serializeNum_signed {init : List Byte} {top : Byte} (neg : Bool) (hlength : init.length < 8)
    (htop : top ≠ 0) :
    serializeNum (signed neg (Limbs.value (init ++ [top]))) =
      if 128 ≤ top.toNat then init ++ [top] ++ [signByte neg]
      else init ++ [if neg then top ||| 0x80 else top] := by
  have hbytes : magnitudeBytes 8 (Limbs.value (init ++ [top])) = init ++ [top] := by
    refine magnitudeBytes_value ?_ ?_
    · rw [List.length_append, List.length_singleton]
      exact hlength
    · rw [List.getLast?_concat, Ne, Option.some_inj]
      exact htop
  have hpos : 0 < Limbs.value (init ++ [top]) := by
    rw [Nat.pos_iff_ne_zero]
    intro hzero
    rw [hzero] at hbytes
    exact absurd hbytes.symm (by simp [magnitudeBytes])
  have habs : (signed neg (Limbs.value (init ++ [top]))).natAbs = Limbs.value (init ++ [top]) := by
    cases neg <;> simp [signed]
  have hneg : signed neg (Limbs.value (init ++ [top])) < 0 ↔ neg = true := by
    cases neg <;> simp [signed, hpos]
  rw [serializeNum, habs, hbytes, List.getLast?_concat]
  dsimp only
  rw [List.dropLast_concat]
  simp only [and_0x80_ne_zero_iff, hneg, signByte]
  split
  · rfl
  · cases neg <;> rfl

/-! ### Minimal forms -/

theorem isMinimalNum_concat_iff (init : List Byte) (b : Byte) :
    isMinimalNum (init ++ [b]) = true ↔ b.toNat % 128 ≠ 0 ∨ ∃ front top, init = front ++ [top] ∧
      128 ≤ top.toNat := by
  rw [isMinimalNum, List.getLast?_concat, Option.all_some, List.dropLast_concat, Bool.or_eq_true,
    bne_iff_ne, and_0x7f_ne_zero_iff]
  refine or_congr Iff.rfl ?_
  rcases List.eq_nil_or_concat init with rfl | ⟨front, top, rfl⟩
  · simp
  · rw [List.concat_eq_append, List.getLast?_concat, Option.any_some, bne_iff_ne, and_0x80_ne_zero_iff]
    constructor
    · intro htop
      exact ⟨front, top, rfl, htop⟩
    · rintro ⟨front', top', heq, htop⟩
      obtain ⟨-, rfl⟩ := List.append_inj' heq rfl |>.imp id fun h => List.singleton_inj.mp h
      exact htop

theorem serializeNum_setVch {vch : List Byte} (hlength : vch.length ≤ 8)
    (hminimal : isMinimalNum vch = true) : serializeNum (setVch vch) = vch := by
  rcases List.eq_nil_or_concat vch with rfl | ⟨init, b, rfl⟩
  · rfl
  rw [List.concat_eq_append] at *
  rw [List.length_append, List.length_singleton] at hlength
  have hb := b.isLt
  rw [setVch_concat]
  by_cases hlow : b.toNat % 128 = 0
  · obtain ⟨front, top, rfl, htop⟩ :=
      ((isMinimalNum_concat_iff init b).mp hminimal).resolve_left (not_not.mpr hlow)
    have hne : top ≠ 0 := by
      rintro rfl
      exact absurd htop (by decide)
    have hsign : signByte (decide (128 ≤ b.toNat)) = b := by
      apply BitVec.eq_of_toNat_eq
      by_cases h : 128 ≤ b.toNat
      · rw [decide_eq_true h]
        change 128 = b.toNat
        omega
      · rw [decide_eq_false h]
        change 0 = b.toNat
        omega
    rw [List.length_append, List.length_singleton] at hlength
    rw [hlow, Nat.mul_zero, Nat.add_zero, serializeNum_signed _ (by omega) hne, if_pos htop, hsign]
  · have htop : (BitVec.ofNat 8 (b.toNat % 128)).toNat = b.toNat % 128 := by
      rw [BitVec.toNat_ofNat]
      omega
    have hne : BitVec.ofNat 8 (b.toNat % 128) ≠ 0 := by
      rw [Ne, ← BitVec.toNat_inj, htop]
      exact hlow
    have hlast :
        (if decide (128 ≤ b.toNat) then BitVec.ofNat 8 (b.toNat % 128) ||| 0x80
          else BitVec.ofNat 8 (b.toNat % 128)) = b := by
      apply BitVec.eq_of_toNat_eq
      by_cases h : 128 ≤ b.toNat
      · rw [if_pos (decide_eq_true h), toNat_or_0x80, htop]
        omega
      · rw [if_neg (by simpa using h), htop]
        omega
    have hvalue := value_concat init (BitVec.ofNat 8 (b.toNat % 128))
    rw [htop] at hvalue
    rw [← hvalue, serializeNum_signed _ (by omega) hne, if_neg (by omega), hlast]

theorem exists_signed {z : Int} (hz : z ≠ 0) (hsize : z.natAbs < 2 ^ 64) :
    ∃ (neg : Bool) (init : List Byte) (top : Byte), init.length < 8 ∧ top ≠ 0 ∧
      z = signed neg (Limbs.value (init ++ [top])) := by
  have hvalue : Limbs.value (magnitudeBytes 8 z.natAbs) = z.natAbs :=
    value_magnitudeBytes (hsize.trans_eq (by norm_num))
  have hlast : (magnitudeBytes 8 z.natAbs).getLast? ≠ some 0 :=
    getLast?_magnitudeBytes_ne_zero (hsize.trans_eq (by norm_num))
  have hlength := length_magnitudeBytes_le 8 z.natAbs
  rcases List.eq_nil_or_concat (magnitudeBytes 8 z.natAbs) with hnil | ⟨init, top, hconcat⟩
  · rw [hnil, Limbs.value_nil] at hvalue
    omega
  · rw [List.concat_eq_append] at hconcat
    rw [hconcat] at hvalue hlast hlength
    rw [List.getLast?_concat, Ne, Option.some_inj] at hlast
    rw [List.length_append, List.length_singleton] at hlength
    refine ⟨decide (z < 0), init, top, hlength, hlast, ?_⟩
    rw [hvalue, signed]
    by_cases hneg : z < 0
    · rw [if_pos (decide_eq_true hneg)]
      omega
    · rw [if_neg (by simpa using hneg)]
      omega

theorem serializeNum_minimal {z : Int} (hsize : z.natAbs < 2 ^ 64) :
    setVch (serializeNum z) = z ∧ isMinimalNum (serializeNum z) = true := by
  rcases eq_or_ne z 0 with rfl | hz
  · exact ⟨rfl, rfl⟩
  obtain ⟨neg, init, top, hlength, htop, rfl⟩ := exists_signed hz hsize
  rw [serializeNum_signed neg hlength htop]
  split
  · rename_i hlarge
    have hsign : decide (128 ≤ (signByte neg).toNat) = neg := by cases neg <;> rfl
    have hlow : (signByte neg).toNat % 128 = 0 := by cases neg <;> rfl
    refine ⟨?_, (isMinimalNum_concat_iff _ _).mpr (.inr ⟨init, top, rfl, hlarge⟩)⟩
    rw [setVch_concat, hsign, hlow, Nat.mul_zero, Nat.add_zero]
  · rename_i hsmall
    have hpos : top.toNat ≠ 0 := fun h => htop (BitVec.eq_of_toNat_eq h)
    have hlow : (if neg then top ||| 0x80 else top).toNat % 128 = top.toNat := by
      cases neg with
      | false =>
        rw [if_neg Bool.false_ne_true]
        omega
      | true =>
        rw [if_pos rfl, toNat_or_0x80]
        omega
    have hsign : decide (128 ≤ (if neg then top ||| 0x80 else top).toNat) = neg := by
      cases neg with
      | false =>
        rw [if_neg Bool.false_ne_true]
        exact decide_eq_false hsmall
      | true =>
        rw [if_pos rfl, toNat_or_0x80]
        exact decide_eq_true (by omega)
    refine ⟨?_, (isMinimalNum_concat_iff _ _).mpr (.inl (by rw [hlow]; exact hpos))⟩
    rw [setVch_concat, hsign, hlow, value_concat]

/-! ### Words -/

/-- The loop of `serialize` over the bytes of `absvalue`. -/
def pushBytes (absvalue : BitVec 64) : List Byte :=
  if absvalue = 0 then [] else (absvalue &&& 0xff).setWidth 8 :: pushBytes (absvalue >>> 8)
termination_by absvalue.toNat
decreasing_by
  have hpos : absvalue.toNat ≠ 0 := fun h => ‹¬absvalue = 0› (BitVec.eq_of_toNat_eq h)
  rw [BitVec.toNat_ushiftRight, Nat.shiftRight_eq_div_pow]
  omega

/-- `CScriptNum::serialize`. -/
def serializeWord (value : BitVec 64) : List Byte :=
  if value = 0 then []
  else
    let neg := value.slt 0
    let absvalue := if neg then -value else value
    let result := pushBytes absvalue
    match result.getLast? with
    | none => []
    | some back =>
      if back &&& 0x80 ≠ 0 then result ++ [if neg then 0x80 else 0]
      else if neg then result.dropLast ++ [back ||| 0x80]
      else result

/-- The loop of `set_vch` and `vch_to_uint64` from byte `i` on. -/
def orBytes (result : BitVec 64) (i : Nat) : List Byte → BitVec 64
  | [] => result
  | b :: vch => orBytes (result ||| (b.setWidth 64 <<< (8 * i))) (i + 1) vch

/-- `CScriptNum::set_vch`. -/
def setVchWord (vch : List Byte) : BitVec 64 :=
  match vch.getLast? with
  | none => 0
  | some back =>
    let result := orBytes 0 0 vch
    if back &&& 0x80 ≠ 0 then -(result &&& ~~~((0x80 : BitVec 64) <<< (8 * (vch.length - 1)))) else result

/-- `CScriptNum::vch_to_uint64`; `none` is its exception. -/
def vchToUint64Word (vch : List Byte) : Option (BitVec 64) :=
  if vch.length > 8 then none
  else
    match vch.getLast? with
    | none => some 0
    | some back => if back &&& 0x80 ≠ 0 then none else some (orBytes 0 0 vch)

/-! ### Words and numbers -/

theorem pushBytes_eq (fuel : Nat) (absvalue : BitVec 64) (hfuel : absvalue.toNat < 256 ^ fuel) :
    pushBytes absvalue = magnitudeBytes fuel absvalue.toNat := by
  induction fuel generalizing absvalue with
  | zero =>
    have hzero : absvalue = 0 := BitVec.eq_of_toNat_eq (Nat.lt_one_iff.mp hfuel)
    rw [pushBytes, if_pos hzero, magnitudeBytes]
  | succ fuel ih =>
    rw [pushBytes, magnitudeBytes]
    by_cases hzero : absvalue = 0
    · rw [if_pos hzero, if_pos (by rw [hzero]; rfl)]
    · have hpos : absvalue.toNat ≠ 0 := fun h => hzero (BitVec.eq_of_toNat_eq h)
      have hnext : (absvalue >>> 8).toNat = absvalue.toNat / 256 := by
        rw [BitVec.toNat_ushiftRight, Nat.shiftRight_eq_div_pow]
      have hbyte : (absvalue &&& 0xff).setWidth 8 = BitVec.ofNat 8 absvalue.toNat := by
        apply BitVec.eq_of_toNat_eq
        rw [BitVec.toNat_setWidth, BitVec.toNat_and, BitVec.toNat_ofNat,
          show (0xff : BitVec 64).toNat = 2 ^ 8 - 1 from rfl, Nat.and_two_pow_sub_one_eq_mod, Nat.mod_mod]
      have hless : (absvalue >>> 8).toNat < 256 ^ fuel := by
        rw [hnext]
        exact Nat.div_lt_of_lt_mul (by rw [← Nat.pow_succ']; exact hfuel)
      rw [if_neg hzero, if_neg hpos, hbyte, ih _ hless, hnext]

theorem serializeWord_eq (value : BitVec 64) : serializeWord value = serializeNum value.toInt := by
  have hneg : value.slt 0 = decide (value.toInt < 0) := rfl
  have habs : (if decide (value.toInt < 0) then -value else value).toNat = value.toInt.natAbs := by
    have hlt := value.isLt
    by_cases h : value.toInt < 0
    · rw [if_pos (decide_eq_true h), BitVec.toNat_neg]
      rw [BitVec.toInt_eq_toNat_cond] at h ⊢
      split at h <;> omega
    · rw [if_neg (by simpa using h)]
      rw [BitVec.toInt_eq_toNat_cond] at h ⊢
      split at h <;> omega
  rw [serializeWord]
  by_cases hzero : value = 0
  · rw [if_pos hzero, hzero]
    rfl
  · rw [if_neg hzero]
    dsimp only
    have hbytes := pushBytes_eq 8 (if decide (value.toInt < 0) then -value else value) (BitVec.isLt _)
    rw [hneg, hbytes, habs, serializeNum]
    cases (magnitudeBytes 8 value.toInt.natAbs).getLast? with
    | none => rfl
    | some last => simp only [decide_eq_true_eq]

theorem toNat_orBytes {result : BitVec 64} {i : Nat} {vch : List Byte}
    (hresult : result.toNat < 2 ^ (8 * i)) (hlength : i + vch.length ≤ 8) :
    (orBytes result i vch).toNat = result.toNat + 2 ^ (8 * i) * Limbs.value vch := by
  induction vch generalizing result i with
  | nil => rw [orBytes, Limbs.value_nil, Nat.mul_zero, Nat.add_zero]
  | cons b vch ih =>
    rw [List.length_cons] at hlength
    have hb := b.isLt
    have hpow : 2 ^ (8 * (i + 1)) = 2 ^ (8 * i) * 2 ^ 8 := by rw [Nat.mul_succ, pow_add]
    have hfit : 2 ^ (8 * (i + 1)) ≤ 2 ^ 64 := Nat.pow_le_pow_right (by decide) (by omega)
    have hstep : 2 ^ (8 * i) * (b.toNat + 1) ≤ 2 ^ (8 * i) * 2 ^ 8 := Nat.mul_le_mul_left _ hb
    rw [Nat.mul_succ] at hstep
    have hshift : (b.setWidth 64 <<< (8 * i)).toNat = 2 ^ (8 * i) * b.toNat := by
      have hwide : b.toNat % 2 ^ 64 = b.toNat := Nat.mod_eq_of_lt (by omega)
      rw [BitVec.toNat_shiftLeft, BitVec.toNat_setWidth, hwide, Nat.shiftLeft_eq, Nat.mul_comm]
      exact Nat.mod_eq_of_lt (by omega)
    have hor : (result ||| (b.setWidth 64 <<< (8 * i))).toNat = result.toNat + 2 ^ (8 * i) * b.toNat := by
      rw [BitVec.toNat_or, hshift, Nat.or_comm, ← Nat.two_pow_add_eq_or_of_lt hresult, Nat.add_comm]
    rw [orBytes, ih (by omega) (by omega), hor, Limbs.value_cons, hpow]
    ring

theorem toNat_and_not_bit {x : BitVec 64} {j n : Nat} (hj : j < 64) (hn : n < 2 ^ j)
    (hx : x.toNat = n + 2 ^ j) :
    (x &&& ~~~(BitVec.twoPow 64 j)).toNat = n := by
  have hlt : 2 ^ j < 2 ^ 64 := Nat.pow_lt_pow_right (by decide) hj
  have hsplit : x = BitVec.twoPow 64 j ||| BitVec.ofNat 64 n := by
    apply BitVec.eq_of_toNat_eq
    rw [hx, BitVec.toNat_or, BitVec.toNat_twoPow_of_lt hj, BitVec.toNat_ofNat,
      Nat.mod_eq_of_lt (hn.trans hlt),
        Nat.add_comm, ← Nat.mul_one (2 ^ j), ← Nat.two_pow_add_eq_or_of_lt hn]
  have hclear : x &&& ~~~(BitVec.twoPow 64 j) = BitVec.ofNat 64 n := by
    rw [hsplit]
    apply BitVec.eq_of_getLsbD_eq
    intro i hi
    rw [BitVec.getLsbD_and, BitVec.getLsbD_or, BitVec.getLsbD_not, BitVec.getLsbD_twoPow,
      BitVec.getLsbD_ofNat]
    by_cases hij : j = i
    · have hbit : n.testBit i = false := by
        rw [← hij]
        exact Nat.testBit_lt_two_pow hn
      simp [hij, hbit, hi]
    · simp [hij, hi]
  rw [hclear, BitVec.toNat_ofNat, Nat.mod_eq_of_lt (hn.trans hlt)]

theorem toInt_setVchWord {vch : List Byte} (hlength : vch.length ≤ 8) :
    (setVchWord vch).toInt = setVch vch := by
  rcases List.eq_nil_or_concat vch with rfl | ⟨init, b, rfl⟩
  · rfl
  rw [List.concat_eq_append] at *
  rw [List.length_append, List.length_singleton] at hlength
  have hb := b.isLt
  have hinit : Limbs.value init < 2 ^ (8 * init.length) := Limbs.value_lt init
  have hpow : 2 ^ (8 * init.length + 7) = 2 ^ (8 * init.length) * 128 := pow_add _ _ _
  have hfit : 2 ^ (8 * init.length + 7) ≤ 2 ^ 63 := Nat.pow_le_pow_right (by decide) (by omega)
  have hresult :
      (orBytes 0 0 (init ++ [b])).toNat = Limbs.value init + 2 ^ (8 * init.length) * b.toNat := by
    rw [toNat_orBytes (by decide) (by rw [List.length_append, List.length_singleton]; omega),
      value_concat]
    simp
  have hlow : Limbs.value init + 2 ^ (8 * init.length) * (b.toNat % 128) < 2 ^ (8 * init.length + 7) := by
    have hstep : 2 ^ (8 * init.length) * (b.toNat % 128 + 1) ≤ 2 ^ (8 * init.length) * 128 :=
      Nat.mul_le_mul_left _ (Nat.mod_lt _ (by decide))
    rw [Nat.mul_succ] at hstep
    omega
  rw [setVchWord, List.getLast?_concat, setVch_concat, List.length_append, List.length_singleton,
    Nat.add_sub_cancel]
  dsimp only
  by_cases hsign : 128 ≤ b.toNat
  · have hmask : (0x80 : BitVec 64) <<< (8 * init.length) = BitVec.twoPow 64 (8 * init.length + 7) := by
      apply BitVec.eq_of_toNat_eq
      rw [BitVec.toNat_twoPow_of_lt (by omega), BitVec.toNat_shiftLeft, Nat.shiftLeft_eq, hpow,
        Nat.mul_comm]
      exact Nat.mod_eq_of_lt (by rw [show (0x80 : BitVec 64).toNat = 128 from rfl]; omega)
    have hx : (orBytes 0 0 (init ++ [b])).toNat =
        Limbs.value init + 2 ^ (8 * init.length) * (b.toNat % 128) + 2 ^ (8 * init.length + 7) := by
      rw [hresult, hpow, Nat.add_assoc, ← Nat.mul_add]
      congr 2
      omega
    have hclear := toNat_and_not_bit (by omega) hlow hx
    rw [if_pos ((and_0x80_ne_zero_iff b).mpr hsign), hmask, decide_eq_true hsign, signed, if_pos rfl]
    rw [BitVec.toInt_eq_toNat_cond, BitVec.toNat_neg, hclear]
    generalize Limbs.value init + 2 ^ (8 * init.length) * (b.toNat % 128) = n at hlow
    have hn : n < 2 ^ 63 := hlow.trans_le hfit
    split <;> omega
  · have hn : Limbs.value init + 2 ^ (8 * init.length) * b.toNat < 2 ^ 63 := by
      rw [Nat.mod_eq_of_lt (by omega)] at hlow
      exact hlow.trans_le hfit
    rw [if_neg (fun h => hsign ((and_0x80_ne_zero_iff b).mp h)), decide_eq_false hsign, signed,
      if_neg Bool.false_ne_true, BitVec.toInt_eq_toNat_cond, hresult, if_pos (by omega),
        Nat.mod_eq_of_lt (by omega)]

theorem toNat_vchToUint64Word (vch : List Byte) :
    (vchToUint64Word vch).map BitVec.toNat = vchToUint64 vch := by
  rw [vchToUint64Word, vchToUint64]
  by_cases hlong : vch.length > 8
  · rw [if_pos hlong, if_pos hlong]
    rfl
  · rw [if_neg hlong, if_neg hlong]
    rcases List.eq_nil_or_concat vch with rfl | ⟨init, b, rfl⟩
    · rfl
    rw [List.concat_eq_append] at *
    rw [List.getLast?_concat, Option.any_some]
    dsimp only
    by_cases hsign : b &&& 0x80 ≠ 0
    · rw [if_pos hsign, if_pos (bne_iff_ne.mpr hsign)]
      rfl
    · rw [if_neg hsign, if_neg (fun h => hsign (bne_iff_ne.mp h)), Option.map_some,
        toNat_orBytes (by decide) (by omega)]
      simp

/-! ### One minimal form -/

def signBitSet (vch : List Byte) : Bool := vch.getLast?.any fun b => b &&& 0x80 != 0

theorem natAbs_toInt_lt (value : BitVec 64) : value.toInt.natAbs < 2 ^ 64 := by
  have h₁ := BitVec.le_toInt value
  have h₂ := BitVec.toInt_lt (x := value)
  omega

theorem length_serializeNum_of_lt {z : Int} (hz : z.natAbs < 2 ^ 63) : (serializeNum z).length ≤ 8 := by
  rcases eq_or_ne z 0 with rfl | hzero
  · decide
  obtain ⟨neg, init, top, hlength, htop, rfl⟩ := exists_signed hzero (by omega)
  have habs : (signed neg (Limbs.value (init ++ [top]))).natAbs = Limbs.value (init ++ [top]) := by
    cases neg <;> simp [signed]
  rw [habs, value_concat] at hz
  rw [serializeNum_signed neg hlength htop]
  split
  · rename_i hlarge
    have hpow : 2 ^ (8 * init.length + 7) = 2 ^ (8 * init.length) * 128 := pow_add _ _ _
    have hle : 2 ^ (8 * init.length) * 128 ≤ 2 ^ (8 * init.length) * top.toNat :=
      Nat.mul_le_mul_left _ hlarge
    have hlt : 8 * init.length + 7 < 63 := (Nat.pow_lt_pow_iff_right (by decide : 1 < 2)).mp (by omega)
    simp only [List.length_append, List.length_singleton]
    omega
  · rw [List.length_append, List.length_singleton]
    exact hlength

theorem setVchWord_serializeWord {value : BitVec 64} (hvalue : value ≠ BitVec.intMin 64) :
    setVchWord (serializeWord value) = value := by
  have hsmall : value.toInt.natAbs < 2 ^ 63 := by
    have h₁ := BitVec.le_toInt value
    have h₂ := BitVec.toInt_lt (x := value)
    have hne : value.toInt ≠ -2 ^ 63 := fun h => hvalue (BitVec.eq_of_toInt_eq h)
    omega
  apply BitVec.eq_of_toInt_eq
  rw [serializeWord_eq, toInt_setVchWord (length_serializeNum_of_lt hsmall)]
  exact (serializeNum_minimal (natAbs_toInt_lt value)).1

theorem isMinimalNum_iff {vch : List Byte} (hlength : vch.length ≤ 8) : isMinimalNum vch = true ↔
    serializeNum (setVch vch) = vch := by
  refine ⟨serializeNum_setVch hlength, fun h => ?_⟩
  have hsize := natAbs_toInt_lt (setVchWord vch)
  rw [toInt_setVchWord hlength] at hsize
  rw [← h]
  exact (serializeNum_minimal hsize).2

/-- Every number but the smallest survives being written. An item of at most eight bytes passes the test of the constructor if and only if it is what is written for the number that it stands for. `vch_to_uint64` gives the same number as `set_vch` where the sign bit is clear, and throws for any other item. -/
theorem scriptNum_one_minimal_form :
    (∀ value : BitVec 64, value ≠ BitVec.intMin 64 → setVchWord (serializeWord value) = value) ∧
    (∀ vch : List Byte, vch.length ≤ 8 →
      ((scriptNum vch true 8).isSome ↔ serializeWord (setVchWord vch) = vch)) ∧
    (∀ vch : List Byte, vch.length ≤ 8 → signBitSet vch = false →
      vchToUint64Word vch = some (setVchWord vch) ∧ 0 ≤ (setVchWord vch).toInt) ∧
    ∀ vch : List Byte, ¬ (vch.length ≤ 8 ∧ signBitSet vch = false) → vchToUint64Word vch = none := by
  refine ⟨fun value => setVchWord_serializeWord, fun vch hlength => ?_, fun vch hlength hsign => ?_,
    fun vch hother => ?_⟩
  · rw [scriptNum, if_neg (by omega), Bool.true_and, serializeWord_eq,
      toInt_setVchWord hlength, ← isMinimalNum_iff hlength]
    cases isMinimalNum vch <;> simp
  · rcases List.eq_nil_or_concat vch with rfl | ⟨init, b, rfl⟩
    · exact ⟨rfl, by decide⟩
    rw [List.concat_eq_append] at *
    rw [signBitSet, List.getLast?_concat, Option.any_some, bne_eq_false_iff_eq] at hsign
    have hclear : ¬ b &&& 0x80 ≠ 0 := not_not.mpr hsign
    rw [toInt_setVchWord hlength, setVch_concat, vchToUint64Word, setVchWord, List.getLast?_concat,
      if_neg (by omega)]
    dsimp only
    rw [if_neg hclear, if_neg hclear, decide_eq_false
      (fun h => hclear ((and_0x80_ne_zero_iff b).mpr h)), signed, if_neg Bool.false_ne_true]
    exact ⟨rfl, Int.natCast_nonneg _⟩
  · rw [← Option.map_eq_none_iff (f := BitVec.toNat), toNat_vchToUint64Word, vchToUint64]
    by_cases hlong : vch.length > 8
    · rw [if_pos hlong]
    · have hsign : signBitSet vch = true := by
        rw [← Bool.not_eq_false]
        exact fun h => hother ⟨Nat.not_lt.mp hlong, h⟩
      rw [signBitSet] at hsign
      rw [if_neg hlong, if_pos hsign]

end Script

end TscPow
