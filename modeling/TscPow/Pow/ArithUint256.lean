import TscPow.Primitives.Uint256

/-!
# `arith_uint256`

The operators of `base_uint` (`arith_uint256.h`, `arith_uint256.cpp`) that the proof-of-work code uses, on 32-bit words exactly as the source stores them. Each is an instance of a loop of `Limbs`, and each comes with the number it computes; the rest of the development reads an `arith_uint256` only through `toNat`.
-/

namespace TscPow

/-- `base_uint<BITS>`, with `WIDTH = BITS / 32` words, least significant first. -/
@[ext] structure BaseUint (WIDTH : Nat) where
  pn : List (BitVec 32)
  length_pn : pn.length = WIDTH
deriving DecidableEq

/-- `arith_uint256`. -/
abbrev ArithUint256 := BaseUint 8

namespace BaseUint

variable {WIDTH : Nat}

def toNat (a : BaseUint WIDTH) : Nat := Limbs.value a.pn

theorem toNat_lt (a : BaseUint WIDTH) : a.toNat < 2 ^ (32 * WIDTH) := by
  have h := Limbs.value_lt a.pn
  rwa [a.length_pn] at h

theorem toNat_inj {a b : BaseUint WIDTH} (h : a.toNat = b.toNat) : a = b :=
  BaseUint.ext (Limbs.value_inj (by decide) (a.length_pn.trans b.length_pn.symm) h)

def ofNat (WIDTH n : Nat) : BaseUint WIDTH where
  pn := Limbs.ofNat WIDTH n
  length_pn := by simp [Limbs.ofNat]

theorem toNat_ofNat (n : Nat) (hn : n < 2 ^ (32 * WIDTH)) : (ofNat WIDTH n).toNat = n := by
  rw [toNat, ofNat, Limbs.value_ofNat, Nat.mod_eq_of_lt hn]

def ofUInt64 (b : BitVec 64) : BaseUint WIDTH where
  pn := (List.range WIDTH).map fun i => if i = 0 then b.setWidth 32
    else if i = 1 then (b >>> 32).setWidth 32 else 0
  length_pn := by simp

theorem toNat_ofUInt64 (b : BitVec 64) (hWIDTH : 2 ≤ WIDTH) :
    (ofUInt64 b : BaseUint WIDTH).toNat = b.toNat := by
  obtain ⟨n, rfl⟩ := Nat.exists_eq_add_of_le' hWIDTH
  have hb := b.isLt
  have hpn : (ofUInt64 b : BaseUint (n + 2)).pn =
      b.setWidth 32 :: (b >>> 32).setWidth 32 :: List.replicate n 0#32 := by
    simp [ofUInt64, List.range_succ_eq_map, Function.comp_def, List.map_const']
  rw [toNat, hpn, Limbs.value_cons, Limbs.value_cons, Limbs.value_replicate_zero, BitVec.toNat_setWidth,
    BitVec.toNat_setWidth, BitVec.toNat_ushiftRight, Nat.shiftRight_eq_div_pow]
  omega

def shiftLeft (a : BaseUint WIDTH) (shift : Nat) : BaseUint WIDTH where
  pn := Limbs.shiftLeft a.pn shift
  length_pn := by rw [Limbs.length_shiftLeft, a.length_pn]

theorem toNat_shiftLeft (a : BaseUint WIDTH) (shift : Nat) :
    (a.shiftLeft shift).toNat = a.toNat * 2 ^ shift % 2 ^ (32 * WIDTH) := by
  rw [toNat, shiftLeft, Limbs.value_shiftLeft (by decide), a.length_pn, toNat]

def shiftRight (a : BaseUint WIDTH) (shift : Nat) : BaseUint WIDTH where
  pn := Limbs.shiftRight a.pn shift
  length_pn := by rw [Limbs.length_shiftRight, a.length_pn]

theorem toNat_shiftRight (a : BaseUint WIDTH) (shift : Nat) :
    (a.shiftRight shift).toNat = a.toNat / 2 ^ shift :=
  Limbs.value_shiftRight (by decide) a.pn shift

def mulU32 (a : BaseUint WIDTH) (b32 : BitVec 32) : BaseUint WIDTH where
  pn := Limbs.mulWord b32 a.pn
  length_pn := by rw [Limbs.mulWord, Limbs.length_propagate, List.length_map, a.length_pn]

theorem toNat_mulU32 (a : BaseUint WIDTH) (b32 : BitVec 32) :
    (a.mulU32 b32).toNat = a.toNat * b32.toNat % 2 ^ (32 * WIDTH) := by
  rw [toNat, mulU32, Limbs.value_mulWord, a.length_pn, Nat.mul_comm, toNat]

/-- `operator/=`; `none` is the `uint_error` thrown on a zero divisor. -/
def div (a b : BaseUint WIDTH) : Option (BaseUint WIDTH) :=
  match h : Limbs.div a.pn b.pn with
  | none => none
  | some quotient => some ⟨quotient, by rw [Limbs.length_div h, a.length_pn]⟩

theorem toNat_div (a b : BaseUint WIDTH) (hb : b.toNat ≠ 0) :
    ∃ quotient, a.div b = some quotient ∧ quotient.toNat = a.toNat / b.toNat := by
  obtain ⟨quotient, hdiv, hvalue⟩ :=
    Limbs.value_div (by decide) a.pn b.pn (by rw [a.length_pn, b.length_pn]) hb
  refine ⟨⟨quotient, by rw [Limbs.length_div hdiv, a.length_pn]⟩, ?_, hvalue⟩
  rw [div]
  split
  · rename_i hnone
    rw [hnone] at hdiv
    cases hdiv
  · rename_i other hsome
    rw [hsome] at hdiv
    cases hdiv
    rfl

def compareTo (a b : BaseUint WIDTH) : Ordering := Limbs.compare a.pn b.pn

theorem compareTo_eq (a b : BaseUint WIDTH) : a.compareTo b = compare a.toNat b.toNat :=
  Limbs.compare_eq a.pn b.pn (by rw [a.length_pn, b.length_pn])

instance : LT (BaseUint WIDTH) := ⟨fun a b => a.compareTo b = .lt⟩

instance : LE (BaseUint WIDTH) := ⟨fun a b => a.compareTo b ≠ .gt⟩

instance (a b : BaseUint WIDTH) : Decidable (a < b) := inferInstanceAs (Decidable (a.compareTo b = .lt))

instance (a b : BaseUint WIDTH) : Decidable (a ≤ b) := inferInstanceAs (Decidable (a.compareTo b ≠ .gt))

theorem lt_iff (a b : BaseUint WIDTH) : a < b ↔ a.toNat < b.toNat := by
  change a.compareTo b = .lt ↔ _
  rw [compareTo_eq, Nat.compare_eq_lt]

theorem le_iff (a b : BaseUint WIDTH) : a ≤ b ↔ a.toNat ≤ b.toNat := by
  change a.compareTo b ≠ .gt ↔ _
  rw [compareTo_eq, Ne, Nat.compare_eq_gt, Nat.not_lt]

/-- `EqualTo(uint64_t)`: the upper words are zero and the lower two agree. -/
def equalTo (a : BaseUint WIDTH) (b : BitVec 64) : Bool :=
  (a.pn.drop 2).all (· == 0) && Limbs.word a.pn 1 == (b >>> 32).setWidth 32 && Limbs.word a.pn 0 ==
    b.setWidth 32

theorem equalTo_zero_iff (a : BaseUint WIDTH) : a.equalTo 0 = true ↔ a.toNat = 0 := by
  obtain ⟨pn, hpn⟩ := a
  have hall (xs : List (BitVec 32)) : xs.all (· == 0) = true ↔ Limbs.value xs = 0 := by
    induction xs with
    | nil => simp
    | cons x xs ih =>
      rw [List.all_cons, Bool.and_eq_true, ih, Limbs.value_cons, beq_iff_eq, ← BitVec.toNat_inj]
      simp
  match pn with
  | [] => simp [equalTo, toNat, Limbs.word]
  | [x] =>
    simp [equalTo, toNat, Limbs.word, ← BitVec.toNat_inj]
  | x :: y :: xs =>
    simp only [equalTo, toNat, Limbs.word, List.drop_succ_cons, List.drop_zero, Bool.and_eq_true,
      hall, Limbs.value_cons]
    simp [← BitVec.toNat_inj, and_comm]

def bits (a : BaseUint WIDTH) : Nat := Limbs.bits a.pn

theorem bits_eq (a : BaseUint WIDTH) : a.bits = a.toNat.size := Limbs.bits_eq_size (by decide) a.pn

def getLow64 (a : BaseUint WIDTH) : BitVec 64 :=
  (Limbs.word a.pn 0).setWidth 64 ||| ((Limbs.word a.pn 1).setWidth 64 <<< 32)

theorem toNat_getLow64 (a : BaseUint WIDTH) : a.getLow64.toNat = a.toNat % 2 ^ 64 := by
  apply Nat.eq_of_testBit_eq
  intro n
  rw [BitVec.testBit_toNat, getLow64, BitVec.getLsbD_or, BitVec.getLsbD_setWidth,
    BitVec.getLsbD_shiftLeft, BitVec.getLsbD_setWidth, Nat.testBit_mod_two_pow, toNat,
      Limbs.testBit_value (by decide)]
  rcases Nat.lt_or_ge n 32 with hn | hn
  · simp [hn, show n < 64 by omega, Nat.div_eq_of_lt hn, Nat.mod_eq_of_lt hn]
  · rcases Nat.lt_or_ge n 64 with hn' | hn'
    · have hdiv : n / 32 = 1 := by omega
      have hmod : n % 32 = n - 32 := by omega
      simp [hn', hdiv, hmod, show ¬ n < 32 by omega, BitVec.getLsbD_of_ge (Limbs.word a.pn 0) n hn,
        show n - 32 < 64 by omega]
    · simp [show ¬ n < 64 by omega]

end BaseUint

/-- `ReadLE32` at word `x` of a blob. -/
def readLE32 (a : Uint256) (x : Nat) : BitVec 32 := Limbs.group 4 a.data x

def uintToArith256 (a : Uint256) : ArithUint256 where
  pn := (List.range 8).map (readLE32 a)
  length_pn := by simp

@[simp] theorem toNat_uintToArith256 (a : Uint256) : (uintToArith256 a).toNat = a.toNat :=
  Limbs.value_group 4 8 a.data a.length_data

end TscPow
