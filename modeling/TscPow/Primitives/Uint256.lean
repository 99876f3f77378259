import TscPow.Base.Limbs

/-!
# Opaque 256-bit blobs

`uint256` (`uint256.h`) is thirty-two bytes without arithmetic: it is compared byte by byte from `data[0]` on, printed in hexadecimal from `data[31]` down, and read as a number, least significant byte first, only through `UintToArith256`.
-/

namespace TscPow

/-- `uint256`: a `base_blob<256>`. -/
@[ext] structure Uint256 where
  data : List (BitVec 8)
  length_data : data.length = 32
deriving DecidableEq

namespace Uint256

/-- The blob whose little-endian reading is `n` modulo `2 ^ 256`. -/
def ofNat (n : Nat) : Uint256 where
  data := Limbs.ofNat 32 n
  length_data := by simp [Limbs.ofNat]

instance : Inhabited Uint256 := ⟨ofNat 0⟩

def isNull (a : Uint256) : Bool := a.data.all (· == 0)

def toNat (a : Uint256) : Nat := Limbs.value a.data

theorem toNat_ofNat {n : Nat} (hn : n < 2 ^ 256) : (ofNat n).toNat = n := by
  rw [toNat, ofNat, Limbs.value_ofNat, Nat.mod_eq_of_lt hn]

/-- `operator<`: `memcmp` from `data[0]` on. -/
instance : LinearOrder Uint256 :=
  LinearOrder.lift' (fun a => a.data.map BitVec.toNat) fun _ _ h =>
    Uint256.ext ((List.map_injective_iff.mpr fun _ _ => BitVec.eq_of_toNat_eq) h)

/-- The digits of `GetHex`, from the high half of `data[31]` to the low half of `data[0]`. -/
def getHex (a : Uint256) : List Nat := a.data.reverse.flatMap fun b => [b.toNat / 16, b.toNat % 16]

theorem length_getHex (a : Uint256) : a.getHex.length = 64 := by
  rw [getHex, List.length_flatMap]
  simp only [List.length_cons, List.length_nil, List.map_const', List.sum_replicate,
    List.length_reverse, a.length_data]
  rfl

end Uint256

end TscPow
