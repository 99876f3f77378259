import TscPow.Script.ScriptNum

/-!
# Strict encoding of signatures

`IsValidSignatureEncoding` (`script/interpreter.cpp`), with and without the hash type, and with every read of the vector checked against its size. `Der` has the encodings that the function is meant to recognise, made from numbers: what is accepted is what these give, up to the bounds on the total length.
-/

namespace TscPow

/-! ### Distinguished encodings -/

namespace Der

/-- Two's complement, most significant octet first, in as few octets as leave the sign bit clear. -/
def integerOctets (n : Nat) : List Byte := (Limbs.ofNat (n.size / 8 + 1) n).reverse

/-- The short form up to 127, above it the number of octets and the octets. -/
def lengthOctets (n : Nat) : List Byte :=
  if n < 128 then [BitVec.ofNat 8 n]
  else BitVec.ofNat 8 (128 + (n.size + 7) / 8) :: (Limbs.ofNat ((n.size + 7) / 8) n).reverse

def element (tag : Byte) (contents : List Byte) : List Byte :=
  tag :: lengthOctets contents.length ++ contents

def integer (n : Nat) : List Byte := element 0x02 (integerOctets n)

def sequence (elements : List (List Byte)) : List Byte := element 0x30 elements.flatten

/-- Octets of a number that is not negative, none of which can be left out. -/
def Shortest : List Byte → Prop
  | [] => False
  | [b] => b.toNat < 128
  | b :: c :: _ => b.toNat < 128 ∧ (b.toNat ≠ 0 ∨ 128 ≤ c.toNat)

theorem size_div_eight_eq_zero_iff (n : Nat) : n.size / 8 = 0 ↔ n < 128 := by
  rw [Nat.div_eq_zero_iff_lt (by decide), Nat.lt_succ_iff, Nat.size_le]

theorem size_div_eight_eq_succ_iff (n k : Nat) :
    n.size / 8 = k + 1 ↔ 2 ^ (8 * k + 7) ≤ n ∧ n < 2 ^ (8 * k + 15) := by
  rw [← Nat.lt_size, ← Nat.size_le]
  omega

theorem add_mul_lt_iff {v p : Nat} (hv : v < p) (d m : Nat) : v + p * d < p * m ↔ d < m := by
  rw [Nat.mul_comm p m, ← Nat.div_lt_iff_lt_mul (by omega), Nat.add_mul_div_left _ _ (by omega),
    Nat.div_eq_of_lt hv, Nat.zero_add]

theorem shortest_iff_size {octets : List Byte} {k : Nat} (hlength : octets.length = k + 1) :
    Shortest octets ↔ (Limbs.value octets.reverse).size / 8 = k := by
  match octets, hlength with
  | [b], hlength =>
    obtain rfl : k = 0 := (Nat.succ_injective hlength).symm
    rw [Shortest, size_div_eight_eq_zero_iff, List.reverse_singleton, Limbs.value_cons,
      Limbs.value_nil, Nat.mul_zero, Nat.add_zero]
  | b :: c :: rest, hlength =>
    obtain rfl : k = rest.length + 1 := (Nat.succ_injective hlength).symm
    have hb := b.isLt
    have hc := c.isLt
    have hv := Limbs.value_lt rest.reverse
    rw [List.length_reverse] at hv
    -- the two leading octets together, on top of the others
    have hvalue : Limbs.value (b :: c :: rest).reverse =
        Limbs.value rest.reverse + 2 ^ (8 * rest.length) * (c.toNat + 256 * b.toNat) := by
      rw [List.reverse_cons, List.reverse_cons, Script.value_concat, Script.value_concat,
        List.length_append, List.length_reverse, List.length_singleton]
      ring
    have hlow : 2 ^ (8 * rest.length + 7) = 2 ^ (8 * rest.length) * 128 := pow_add 2 _ 7
    have hhigh : 2 ^ (8 * rest.length + 15) = 2 ^ (8 * rest.length) * 32768 := pow_add 2 _ 15
    have hlow' := add_mul_lt_iff hv (c.toNat + 256 * b.toNat) 128
    have hhigh' := add_mul_lt_iff hv (c.toNat + 256 * b.toNat) 32768
    rw [Shortest, size_div_eight_eq_succ_iff, hvalue, hlow, hhigh]
    omega

theorem length_integerOctets (n : Nat) : (integerOctets n).length = n.size / 8 + 1 := by
  rw [integerOctets, List.length_reverse, Limbs.ofNat, List.length_map, List.length_range]

theorem value_integerOctets (n : Nat) : Limbs.value (integerOctets n).reverse = n := by
  rw [integerOctets, List.reverse_reverse, Limbs.value_ofNat]
  exact Nat.mod_eq_of_lt (Nat.size_le.mp (by omega))

theorem shortest_iff (octets : List Byte) : Shortest octets ↔ ∃ n, octets = integerOctets n := by
  constructor
  · intro h
    obtain ⟨k, hk⟩ : ∃ k, octets.length = k + 1 := by
      cases octets with
      | nil => exact h.elim
      | cons b rest => exact ⟨rest.length, rfl⟩
    refine ⟨Limbs.value octets.reverse, ?_⟩
    rw [integerOctets, (shortest_iff_size hk).mp h, ← hk, ← List.length_reverse,
      Limbs.ofNat_value (by decide), List.reverse_reverse]
  · rintro ⟨n, rfl⟩
    rw [shortest_iff_size (length_integerOctets n), value_integerOctets]

theorem element_short (tag : Byte) {contents : List Byte} (h : contents.length < 128) :
    element tag contents = tag :: BitVec.ofNat 8 contents.length :: contents := by
  rw [element, lengthOctets, if_pos h]
  rfl

end Der

/-! ### The check -/

/-- The checks of one of the two integers, which starts at `i`; `none` if a read is outside the vector. -/
def integerAt (sig : List Byte) (i len : Nat) : Option Bool := do
  if (← sig[i]?) ≠ 0x02 then return false
  if len = 0 then return false
  if (← sig[i + 2]?) &&& 0x80 ≠ 0 then return false
  if len > 1 then
    if (← sig[i + 2]?) = 0 then
      if (← sig[i + 3]?) &&& 0x80 = 0 then return false
  return true

/-- `IsValidSignatureEncoding`; `none` if a read is outside the vector. -/
def isValidSignatureEncodingChecked (sig : List Byte) (haveHashType : Bool) : Option Bool := do
  if sig.length < 9 then return false
  if sig.length > 73 then return false
  if (← sig[0]?) ≠ 0x30 then return false
  if (← sig[1]?).toNat ≠ sig.length - (if haveHashType then 3 else 2) then return false
  let lenR := (← sig[3]?).toNat
  if 5 + lenR ≥ sig.length then return false
  let lenS := (← sig[5 + lenR]?).toNat
  if lenR + lenS + (if haveHashType then 7 else 6) ≠ sig.length then return false
  if !(← integerAt sig 2 lenR) then return false
  integerAt sig (lenR + 4) lenS

instance (octets : List Byte) : Decidable (Der.Shortest octets) :=
  match octets with
  | [] => .isFalse id
  | [b] => inferInstanceAs (Decidable (b.toNat < 128))
  | b :: c :: _ => inferInstanceAs (Decidable (b.toNat < 128 ∧ (b.toNat ≠ 0 ∨ 128 ≤ c.toNat)))

theorem and_0x80_eq_zero_iff (b : Byte) : b &&& 0x80#8 = 0#8 ↔ b.toNat < 128 := by
  rw [← Nat.not_le, ← and_0x80_ne_zero_iff]
  exact not_not.symm

theorem integerAt_append (front : List Byte) (tag length : Byte) (octets rest : List Byte) :
    integerAt (front ++ tag :: length :: (octets ++ rest)) front.length octets.length =
      some (decide (tag = 0x02 ∧ Der.Shortest octets)) := by
  have hread (k : Nat) : (front ++ tag :: length :: (octets ++ rest))[front.length + k]? =
      (tag :: length :: (octets ++ rest))[k]? := by
    rw [List.getElem?_append_right (by omega), Nat.add_sub_cancel_left]
  have hread0 := hread 0
  rw [Nat.add_zero] at hread0
  rw [integerAt, hread0, hread 2, hread 3]
  by_cases htag : tag = 0x02#8
  · match octets with
    | [] => simp [Der.Shortest]
    | [b] => by_cases hsign : b.toNat < 128 <;> simp [htag, hsign, Der.Shortest, and_0x80_eq_zero_iff]
    | b :: c :: octets =>
      have hzero : b = 0#8 ↔ b.toNat = 0 := BitVec.toNat_inj.symm
      by_cases hsign : b.toNat < 128 <;> by_cases hpad : b.toNat = 0 <;>
        by_cases hnext : c.toNat < 128 <;>
        simp [htag, hsign, hpad, hnext, hzero, Der.Shortest, and_0x80_eq_zero_iff] <;> omega
  · simp [htag]

theorem isValidSignatureEncodingChecked_cons {b0 b1 b2 b3 : Byte} {rest sig : List Byte}
    (hsig : sig = b0 :: b1 :: b2 :: b3 :: rest) (hmin : 9 ≤ sig.length) (hmax : sig.length ≤ 73)
    (haveHashType : Bool) :
    isValidSignatureEncodingChecked sig haveHashType =
      if b0 ≠ 0x30 then some false
      else if b1.toNat ≠ sig.length - (if haveHashType then 3 else 2) then some false
      else if 5 + b3.toNat ≥ sig.length then some false
      else
        sig[5 + b3.toNat]?.bind fun l =>
          if b3.toNat + l.toNat + (if haveHashType then 7 else 6) ≠ sig.length then some false
          else (integerAt sig 2 b3.toNat).bind fun validR => if !validR then some false
            else integerAt sig (b3.toNat + 4) l.toNat := by
  rw [isValidSignatureEncodingChecked, if_neg (by omega), if_neg (by omega)]
  subst hsig
  rfl

theorem getElem?_lenS {b0 b1 b2 b3 t l : Byte} {R more sig : List Byte}
    (hsig : sig = b0 :: b1 :: b2 :: b3 :: (R ++ t :: l :: more)) (hR : R.length = b3.toNat) :
    sig[5 + b3.toNat]? = some l := by
  rw [hsig, ← hR, Nat.add_comm]
  change (R ++ t :: l :: more)[R.length + 1]? = some l
  rw [List.getElem?_append_right (Nat.le_add_right _ _), Nat.add_sub_cancel_left]
  rfl

theorem isValidSignatureEncodingChecked_append {b0 b1 b2 b3 t l : Byte}
    {R S hashType sig : List Byte} {haveHashType : Bool}
    (hsig : sig = b0 :: b1 :: b2 :: b3 :: (R ++ t :: l :: (S ++ hashType)))
    (hR : R.length = b3.toNat) (hS : S.length = l.toNat)
    (hhash : hashType.length = if haveHashType then 1 else 0) (hmin : 9 ≤ sig.length)
    (hmax : sig.length ≤ 73) :
    isValidSignatureEncodingChecked sig haveHashType =
      some (decide (b0 = 0x30 ∧ b1.toNat = R.length + S.length + 4 ∧ (b2 = 0x02 ∧ Der.Shortest R) ∧
        t = 0x02 ∧ Der.Shortest S)) := by
  have hlength : sig.length = R.length + S.length + 6 + hashType.length := by
    rw [hsig]
    simp only [List.length_cons, List.length_append]
    omega
  have hlenS := getElem?_lenS hsig hR
  have hintR : integerAt sig 2 b3.toNat = some (decide (b2 = 0x02 ∧ Der.Shortest R)) := by
    rw [hsig, ← hR]
    exact integerAt_append [b0, b1] b2 b3 R _
  have hintS : integerAt sig (b3.toNat + 4) l.toNat = some (decide (t = 0x02 ∧ Der.Shortest S)) := by
    rw [hsig, ← hR, ← hS]
    exact integerAt_append (b0 :: b1 :: b2 :: b3 :: R) t l S hashType
  have htotal : b3.toNat + l.toNat + (if haveHashType then 7 else 6) = sig.length := by
    cases haveHashType <;> simp only [Bool.false_eq_true, if_false, if_true] at hhash ⊢ <;> omega
  have hrest : sig.length - (if haveHashType then 3 else 2) = R.length + S.length + 4 := by
    cases haveHashType <;> simp only [Bool.false_eq_true, if_false, if_true] at hhash ⊢ <;> omega
  rw [isValidSignatureEncodingChecked_cons hsig hmin hmax, hrest,
    if_neg (show ¬ 5 + b3.toNat ≥ sig.length by omega), hlenS, Option.bind_some,
    if_neg (not_not.mpr htotal), hintR, Option.bind_some, hintS]
  by_cases h0 : b0 = 0x30
  · by_cases h1 : b1.toNat = R.length + S.length + 4
    · by_cases hvalidR : b2 = 0x02 ∧ Der.Shortest R
      · rw [if_neg (not_not.mpr h0), if_neg (not_not.mpr h1), decide_eq_true hvalidR]
        simp only [h0, h1, hvalidR, true_and]
        rfl
      · rw [if_neg (not_not.mpr h0), if_neg (not_not.mpr h1), decide_eq_false hvalidR]
        exact congrArg some (decide_eq_false fun h => hvalidR h.2.2.1).symm
    · rw [if_neg (not_not.mpr h0), if_pos h1, decide_eq_false (fun h => h1 h.2.1)]
  · rw [if_pos h0, decide_eq_false (fun h => h0 h.1)]

/-! ### What is accepted -/

namespace Der

def signature (r s : Nat) : List Byte := sequence [integer r, integer s]

theorem integer_short {n : Nat} (h : (integerOctets n).length < 128) :
    integer n = 0x02 :: BitVec.ofNat 8 (integerOctets n).length :: integerOctets n := element_short _ h

theorem length_element (tag : Byte) (contents : List Byte) :
    contents.length + 2 ≤ (element tag contents).length := by
  have hlength : 1 ≤ (lengthOctets contents.length).length := by
    rw [lengthOctets]
    split
    · exact le_rfl
    · exact Nat.le_add_left _ _
  rw [element, List.cons_append, List.length_cons, List.length_append]
  omega

theorem flatten_integers (r s : Nat) : [integer r, integer s].flatten = integer r ++ integer s := by
  rw [List.flatten_cons, List.flatten_singleton]

theorem length_signature (r s : Nat) :
    (integerOctets r).length + (integerOctets s).length + 6 ≤ (signature r s).length := by
  have hr : (integerOctets r).length + 2 ≤ (integer r).length := length_element 0x02 _
  have hs : (integerOctets s).length + 2 ≤ (integer s).length := length_element 0x02 _
  have hcontents := length_element 0x30 (integer r ++ integer s)
  rw [List.length_append] at hcontents
  rw [signature, sequence, flatten_integers]
  omega

theorem signature_short {r s : Nat} (h : (integerOctets r).length + (integerOctets s).length + 4 < 128) :
    signature r s = 0x30 :: BitVec.ofNat 8 ((integerOctets r).length + (integerOctets s).length + 4) ::
      0x02 :: BitVec.ofNat 8 (integerOctets r).length ::
        (integerOctets r ++ 0x02 :: BitVec.ofNat 8 (integerOctets s).length ::
          integerOctets s) := by
  have hr := integer_short (n := r) (by omega)
  have hs := integer_short (n := s) (by omega)
  have hlength :
      (integer r ++ integer s).length = (integerOctets r).length + (integerOctets s).length +
        4 := by
    rw [hr, hs, List.length_append, List.length_cons, List.length_cons, List.length_cons,
      List.length_cons]
    omega
  rw [signature, sequence, flatten_integers, element_short _ (hlength.trans_lt h), hlength, hr, hs]
  rfl

end Der

theorem toNat_ofNat_length {octets : List Byte} (h : octets.length < 128) :
    (BitVec.ofNat 8 octets.length).toNat = octets.length := by
  rw [BitVec.toNat_ofNat]
  exact Nat.mod_eq_of_lt (by omega)

theorem isValidSignatureEncodingChecked_signature {r s : Nat} {hashType sig : List Byte}
    {haveHashType : Bool} (hhash : hashType.length = if haveHashType then 1 else 0)
    (hsig : sig = Der.signature r s ++ hashType) (hmin : 9 ≤ sig.length) (hmax : sig.length ≤ 73) :
    isValidSignatureEncodingChecked sig haveHashType = some true := by
  have hlength : sig.length = (Der.signature r s).length + hashType.length := by
    rw [hsig, List.length_append]
  have hoctets := Der.length_signature r s
  have hshort :=
    Der.signature_short
      (show (Der.integerOctets r).length + (Der.integerOctets s).length + 4 < 128 by omega)
  have hr := toNat_ofNat_length (show (Der.integerOctets r).length < 128 by omega)
  have hs := toNat_ofNat_length (show (Der.integerOctets s).length < 128 by omega)
  rw [hshort] at hsig
  simp only [List.cons_append, List.append_assoc] at hsig
  rw [isValidSignatureEncodingChecked_append hsig hr.symm hs.symm hhash hmin hmax, Option.some_inj,
    decide_eq_true_iff]
  refine ⟨rfl, ?_, ⟨rfl, (Der.shortest_iff _).mpr ⟨r, rfl⟩⟩, rfl, (Der.shortest_iff _).mpr ⟨s, rfl⟩⟩
  rw [BitVec.toNat_ofNat]
  exact Nat.mod_eq_of_lt (by omega)

theorem exists_isValidSignatureEncodingChecked (sig : List Byte) (haveHashType : Bool) :
    ∃ valid, isValidSignatureEncodingChecked sig haveHashType = some valid ∧
      (valid = true → 9 ≤ sig.length ∧ sig.length ≤ 73 ∧
        ∃ r s hashType, hashType.length = (if haveHashType then 1 else 0) ∧
          sig = Der.signature r s ++ hashType) := by
  by_cases hmin : sig.length < 9
  · exact ⟨false, if_pos hmin, fun h => absurd h Bool.false_ne_true⟩
  by_cases hmax : 73 < sig.length
  · exact ⟨false, (if_neg hmin).trans (if_pos hmax), fun h => absurd h Bool.false_ne_true⟩
  rw [Nat.not_lt] at hmin hmax
  obtain ⟨b0, b1, b2, b3, rest, hsig⟩ : ∃ b0 b1 b2 b3 rest, sig = b0 :: b1 :: b2 :: b3 :: rest := by
    match sig, hmin with
    | b0 :: b1 :: b2 :: b3 :: rest, _ => exact ⟨b0, b1, b2, b3, rest, rfl⟩
  have hlength := congrArg List.length hsig
  simp only [List.length_cons] at hlength
  by_cases hin : 5 + b3.toNat ≥ sig.length
  · refine ⟨false, ?_, fun h => absurd h Bool.false_ne_true⟩
    rw [isValidSignatureEncodingChecked_cons hsig hmin hmax, if_pos hin, ite_self, ite_self]
  -- the part of the vector before the length of S is there
  obtain ⟨R, t, l, more, hrest, hR⟩ : ∃ R t l more, rest = R ++ t :: l :: more ∧ R.length = b3.toNat := by
    obtain ⟨t, l, more, hdrop⟩ : ∃ t l more, rest.drop b3.toNat = t :: l :: more := by
      have hleft : (rest.drop b3.toNat).length = rest.length - b3.toNat := List.length_drop
      match rest.drop b3.toNat, hleft with
      | t :: l :: more, _ => exact ⟨t, l, more, rfl⟩
      | [_], hleft => rw [List.length_singleton] at hleft; omega
      | [], hleft => rw [List.length_nil] at hleft; omega
    exact ⟨rest.take b3.toNat, t, l, more, by rw [← hdrop, List.take_append_drop],
      by rw [List.length_take]; omega⟩
  rw [hrest] at hsig hlength
  rw [List.length_append, List.length_cons, List.length_cons] at hlength
  by_cases htotal : b3.toNat + l.toNat + (if haveHashType then 7 else 6) = sig.length
  · obtain ⟨S, hashType, hmore, hS⟩ : ∃ S hashType, more = S ++ hashType ∧ S.length = l.toNat :=
      ⟨more.take l.toNat, more.drop l.toNat, (List.take_append_drop _ _).symm, by
        rw [List.length_take]
        split at htotal <;> omega⟩
    have hhash : hashType.length = if haveHashType then 1 else 0 := by
      rw [hmore, List.length_append] at hlength
      split at htotal
      · rw [if_pos ‹_›]
        omega
      · rw [if_neg ‹_›]
        omega
    rw [hmore] at hsig
    refine ⟨_, isValidSignatureEncodingChecked_append hsig hR hS hhash hmin hmax, ?_⟩
    rw [decide_eq_true_iff]
    rintro ⟨rfl, h1, ⟨rfl, hshortR⟩, rfl, hshortS⟩
    obtain ⟨r, rfl⟩ := (Der.shortest_iff R).mp hshortR
    obtain ⟨s, rfl⟩ := (Der.shortest_iff S).mp hshortS
    refine ⟨hmin, hmax, r, s, hashType, hhash, ?_⟩
    rw [hsig, Der.signature_short (by omega), ← h1, hR, hS, BitVec.ofNat_toNat, BitVec.ofNat_toNat,
      BitVec.ofNat_toNat]
    simp
  · refine ⟨false, ?_, fun h => absurd h Bool.false_ne_true⟩
    rw [isValidSignatureEncodingChecked_cons hsig hmin hmax, if_neg hin, getElem?_lenS hsig hR,
      Option.bind_some, if_pos htotal, ite_self, ite_self]

/-- A signature passes if and only if it is the distinguished encoding of two numbers, with one more byte if the hash type is part of it. -/
theorem isValidSignatureEncoding_iff_der (sig : List Byte) (haveHashType : Bool) :
    ∃ valid, isValidSignatureEncodingChecked sig haveHashType = some valid ∧
      (valid = true ↔ 9 ≤ sig.length ∧ sig.length ≤ 73 ∧
        ∃ r s hashType, hashType.length = (if haveHashType then 1 else 0) ∧
          sig = Der.signature r s ++ hashType) := by
  obtain ⟨valid, hvalid, hform⟩ := exists_isValidSignatureEncodingChecked sig haveHashType
  refine ⟨valid, hvalid, hform, ?_⟩
  rintro ⟨hmin, hmax, r, s, hashType, hhash, hsig⟩
  rw [isValidSignatureEncodingChecked_signature hhash hsig hmin hmax, Option.some_inj] at hvalid
  exact hvalid.symm

/-! ### The form that the interpreter uses -/

theorem getElem?_eq_getD {sig : List Byte} {i : Nat} (hi : i < sig.length) :
    sig[i]? = some (sig.getD i 0) := by
  rw [List.getD_eq_getElem?_getD, List.getElem?_eq_getElem hi]
  rfl

theorem integerAt_getD {sig : List Byte} {i len : Nat} (hin : i + 1 + len < sig.length) :
    integerAt sig i len =
      some (sig.getD i 0 == 0x02 && len != 0 && sig.getD (i + 2) 0 &&& 0x80 == 0 &&
        !(decide (len > 1) && sig.getD (i + 2) 0 == 0 && sig.getD (i + 3) 0 &&& 0x80 == 0)) := by
  rw [integerAt, getElem?_eq_getD (show i < sig.length by omega)]
  generalize sig.getD i 0 = tag
  by_cases hzero : len = 0
  · by_cases htag : tag = 0x02#8 <;> simp [hzero, htag]
  rw [getElem?_eq_getD (show i + 2 < sig.length by omega)]
  generalize sig.getD (i + 2) 0 = b
  by_cases hone : len = 1
  · by_cases htag : tag = 0x02#8 <;> by_cases hsign : b &&& 0x80#8 = 0#8 <;> simp [hone, htag, hsign]
  rw [getElem?_eq_getD (show i + 3 < sig.length by omega)]
  generalize sig.getD (i + 3) 0 = c
  have hmore : 1 < len := by omega
  by_cases htag : tag = 0x02#8 <;> by_cases hsign : b &&& 0x80#8 = 0#8 <;>
    by_cases hpad : b = 0#8 <;> by_cases hnext : c &&& 0x80#8 = 0#8 <;>
    simp [hzero, hmore, htag, hsign, hpad, hnext]

theorem ite_not_some (validR validS : Bool) :
    (if (!validR) = true then some false else some validS) = some (validR && validS) := by
  cases validR <;> rfl

theorem isValidSignatureEncodingChecked_true (sig : List Byte) :
    isValidSignatureEncodingChecked sig true = some (isValidSignatureEncoding sig) := by
  have hread {i : Nat} (hi : i < sig.length) := getElem?_eq_getD hi
  have hinteger {i len : Nat} (hin : i + 1 + len < sig.length) := integerAt_getD hin
  rw [isValidSignatureEncodingChecked, isValidSignatureEncoding]
  -- from here on only the bytes at the places that are read matter
  generalize hbyte : (fun i => sig.getD i 0) = byte
  have hbyte (i : Nat) : sig.getD i 0 = byte i := congrFun hbyte i
  simp only [hbyte] at hread hinteger ⊢
  by_cases hmin : sig.length < 9
  · simp [hmin, Nat.not_le.mpr hmin]
  by_cases hmax : 73 < sig.length
  · simp [hmin, hmax, Nat.not_le.mpr hmax]
  rw [if_neg hmin, if_neg (by omega), hread (show 0 < sig.length by omega),
    hread (show 1 < sig.length by omega), hread (show 3 < sig.length by omega)]
  by_cases h0 : byte 0 = 0x30#8
  · by_cases h1 : (byte 1).toNat = sig.length - 3
    · by_cases hin : 5 + (byte 3).toNat < sig.length
      · simp only [Option.bind_eq_bind, Option.bind_some, Option.pure_def]
        rw [hread hin, Option.bind_some]
        by_cases htotal : (byte 3).toNat + (byte (5 + (byte 3).toNat)).toNat + 7 = sig.length
        · rw [hinteger (show 2 + 1 + (byte 3).toNat < sig.length by omega),
            hinteger (show (byte 3).toNat + 4 + 1 + (byte (5 + (byte 3).toNat)).toNat <
              sig.length by omega)]
          rw [Option.bind_some, ite_not_some]
          simp [h0, h1, hin, Nat.not_le.mpr hin, htotal, Nat.not_lt.mp hmin, Nat.not_lt.mp hmax,
            Bool.and_assoc]
        · simp [h0, h1, hin, htotal]
      · simp [h0, h1, hin, Nat.not_lt.mp hin]
    · simp [h0, h1]
  · simp [h0]

end TscPow
