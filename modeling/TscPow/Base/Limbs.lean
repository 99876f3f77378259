import Mathlib

/-!
# Numbers as lists of machine words

Fixed-width arithmetic on little-endian lists of `w`-bit words: the carry loop behind addition and multiplication by a word, increment and negation, comparison from the most significant word, shifts by an arbitrary number of bits, the position of the highest set bit, and shift-subtract division. Each operation comes with one lemma that says which number it computes, so that a user reasons about `value` and never about words. Arithmetic is specified modulo `2 ^ (w * length)`; operations on single bits are specified through `Nat.testBit`.
-/

namespace Limbs

variable {w : Nat}

/-- The number a list of words denotes, least significant word first. -/
def value (xs : List (BitVec w)) : Nat :=
  Nat.ofDigits (2 ^ w) (xs.map BitVec.toNat)

@[simp] theorem value_nil : value ([] : List (BitVec w)) = 0 := rfl

@[simp] theorem value_cons (x : BitVec w) (xs : List (BitVec w)) :
    value (x :: xs) = x.toNat + 2 ^ w * value xs := by
  simp [value, Nat.ofDigits_cons]

theorem value_append (xs ys : List (BitVec w)) :
    value (xs ++ ys) = value xs + 2 ^ (w * xs.length) * value ys := by
  simp [value, Nat.ofDigits_append, pow_mul]

theorem value_lt (xs : List (BitVec w)) : value xs < 2 ^ (w * xs.length) := by
  induction xs with
  | nil => simp
  | cons x xs ih =>
    have hx := x.isLt
    have hstep : 2 ^ w * (value xs + 1) ≤ 2 ^ w * 2 ^ (w * xs.length) := Nat.mul_le_mul_left _ ih
    rw [value_cons, List.length_cons, Nat.mul_succ, Nat.add_comm (w * xs.length), pow_add]
    rw [Nat.mul_succ] at hstep
    omega

@[simp] theorem value_replicate_zero (n : Nat) : value (List.replicate n 0#w) = 0 := by
  induction n with
  | zero => rfl
  | succ n ih => simp [List.replicate_succ, ih]

def ofNat (width n : Nat) : List (BitVec w) :=
  (List.range width).map fun i => BitVec.ofNat w (n / 2 ^ (w * i))

theorem value_ofNat (width n : Nat) : value (ofNat width n : List (BitVec w)) = n % 2 ^ (w * width) := by
  induction width generalizing n with
  | zero => simp [ofNat, Nat.mod_one]
  | succ width ih =>
    have hrest : ((fun i => BitVec.ofNat w (n / 2 ^ (w * i))) ∘ Nat.succ) =
        fun i => BitVec.ofNat w (n / 2 ^ w / 2 ^ (w * i)) := by
      funext i
      rw [Function.comp_apply, Nat.div_div_eq_div_mul, ← pow_add, Nat.mul_succ, Nat.add_comm w]
    have ih : value ((List.range width).map fun i => BitVec.ofNat w (n / 2 ^ w / 2 ^ (w * i))) =
        _ := ih (n / 2 ^ w)
    rw [ofNat, List.range_succ_eq_map, List.map_cons, List.map_map, value_cons, hrest, ih, Nat.mul_succ,
      Nat.add_comm (w * width), pow_add, Nat.mod_mul]
    simp

theorem value_inj (hw : 0 < w) {xs ys : List (BitVec w)} (hlength : xs.length = ys.length)
    (h : value xs = value ys) : xs = ys := by
  have hdigit : ∀ zs : List (BitVec w), ∀ d ∈ zs.map BitVec.toNat, d < 2 ^ w := by
    intro zs d hd
    obtain ⟨z, -, rfl⟩ := List.mem_map.mp hd
    exact z.isLt
  have hmap := Nat.ofDigits_inj_of_len_eq (Nat.one_lt_two_pow hw.ne') (by simpa using hlength)
    (hdigit xs) (hdigit ys) h
  exact List.map_injective_iff.mpr (fun _ _ => BitVec.eq_of_toNat_eq) hmap

theorem ofNat_value (hw : 0 < w) (xs : List (BitVec w)) : ofNat xs.length (value xs) = xs := by
  apply value_inj hw
  · simp [ofNat]
  · rw [value_ofNat, Nat.mod_eq_of_lt (value_lt xs)]

theorem reverse_lt_of_value_lt (xs ys : List (BitVec w)) (hlength : xs.length = ys.length)
    (h : value xs < value ys) (r s : List Nat) :
    (xs.reverse.map BitVec.toNat) ++ r < (ys.reverse.map BitVec.toNat) ++ s := by
  induction xs using List.reverseRecOn generalizing ys with
  | nil =>
    obtain rfl := List.eq_nil_of_length_eq_zero hlength.symm
    exact absurd h (lt_irrefl _)
  | append_singleton xs x ih =>
    rcases List.eq_nil_or_concat' ys with rfl | ⟨ys, y, rfl⟩
    · simp at hlength
    · have hlength : xs.length = ys.length := by simpa using hlength
      rw [value_append, value_append, value_cons, value_cons, value_nil, hlength, Nat.mul_zero,
        Nat.add_zero, Nat.add_zero] at h
      rw [List.reverse_append, List.reverse_append, List.map_append, List.map_append]
      have hy := value_lt ys
      rcases lt_trichotomy x.toNat y.toNat with hlt | heq | hgt
      · exact List.Lex.rel hlt
      · rw [BitVec.eq_of_toNat_eq heq] at h ⊢
        exact List.Lex.cons (ih ys hlength (Nat.lt_of_add_lt_add_right h))
      · have := Nat.mul_le_mul_left (2 ^ (w * ys.length)) hgt
        rw [Nat.mul_succ] at this
        omega

def word (xs : List (BitVec w)) (i : Nat) : BitVec w := xs.getD i 0

theorem testBit_value (hw : 0 < w) (xs : List (BitVec w)) (n : Nat) :
    (value xs).testBit n = (word xs (n / w)).getLsbD (n % w) := by
  induction xs generalizing n with
  | nil => simp [word]
  | cons x xs ih =>
    rw [value_cons, Nat.add_comm, Nat.testBit_two_pow_mul_add _ x.isLt]
    by_cases hn : n < w
    · simp [hn, word, Nat.div_eq_of_lt hn, Nat.mod_eq_of_lt hn, BitVec.testBit_toNat]
    · have hdiv : n / w = (n - w) / w + 1 := by
        rw [← Nat.add_div_right _ hw, Nat.sub_add_cancel (by omega)]
      have hmod : n % w = (n - w) % w := by
        rw [Nat.mod_eq_sub_mod (by omega)]
      rw [if_neg hn, ih, hdiv, hmod]
      simp [word]

/-! ### Carry propagation -/

/-- One pass of a carry loop over column sums, with an accumulator twice as wide as a word: each column keeps the low word and hands the high word on. The last carry is dropped. -/
def propagate (w : Nat) : Nat → List Nat → List (BitVec w)
  | _, [] => []
  | carry, column :: columns =>
    let n := (carry + column) % 2 ^ (2 * w)
    BitVec.ofNat w n :: propagate w (n / 2 ^ w) columns

@[simp] theorem length_propagate (carry : Nat) (columns : List Nat) :
    (propagate w carry columns).length = columns.length := by
  induction columns generalizing carry with
  | nil => rfl
  | cons column columns ih => simp [propagate, ih]

/-- The carry loop computes the column sum modulo the width of the result. The accumulator does not overflow as long as every column leaves room for a carry. -/
theorem value_propagate (carry : Nat) (columns : List Nat) (hcarry : carry < 2 ^ w)
    (hcolumns : ∀ column ∈ columns, column + 2 ^ w ≤ 2 ^ (2 * w)) :
    value (propagate w carry columns) =
      (carry + Nat.ofDigits (2 ^ w) columns) % 2 ^ (w * columns.length) := by
  induction columns generalizing carry with
  | nil => simp [propagate, Nat.mod_one]
  | cons column columns ih =>
    have hfit : carry + column < 2 ^ (2 * w) := by
      have := hcolumns column (by simp)
      omega
    have hnext : (carry + column) / 2 ^ w < 2 ^ w := by
      rw [Nat.div_lt_iff_lt_mul (Nat.two_pow_pos w), ← pow_add, ← two_mul]
      exact hfit
    have hrest := ih ((carry + column) / 2 ^ w) hnext fun c hc => hcolumns c (by simp [hc])
    have hlow : (carry + (column + 2 ^ w * Nat.ofDigits (2 ^ w) columns)) % 2 ^ w =
        (carry + column) % 2 ^ w := by
      rw [← Nat.add_assoc, Nat.add_mul_mod_self_left]
    have hhigh : (carry + (column + 2 ^ w * Nat.ofDigits (2 ^ w) columns)) / 2 ^ w =
        (carry + column) / 2 ^ w + Nat.ofDigits (2 ^ w) columns := by
      rw [← Nat.add_assoc, Nat.add_mul_div_left _ _ (Nat.two_pow_pos w)]
    simp only [propagate, Nat.mod_eq_of_lt hfit, value_cons, BitVec.toNat_ofNat, hrest]
    rw [List.length_cons, Nat.mul_succ, Nat.add_comm (w * columns.length), pow_add, Nat.mod_mul,
      Nat.ofDigits_cons, hlow, hhigh]

def mulWord (b : BitVec w) (xs : List (BitVec w)) : List (BitVec w) :=
  propagate w 0 (xs.map fun x => b.toNat * x.toNat)

theorem value_mulWord (b : BitVec w) (xs : List (BitVec w)) :
    value (mulWord b xs) = b.toNat * value xs % 2 ^ (w * xs.length) := by
  have hcolumns : ∀ column ∈ xs.map (fun x => b.toNat * x.toNat), column + 2 ^ w ≤ 2 ^ (2 * w) := by
    simp only [List.mem_map, forall_exists_index, and_imp, forall_apply_eq_imp_iff₂]
    intro x _
    have hprod : b.toNat * x.toNat ≤ (2 ^ w - 1) * 2 ^ w :=
      Nat.mul_le_mul (Nat.le_sub_one_of_lt b.isLt) x.isLt.le
    have hsplit : (2 ^ w - 1) * 2 ^ w + 2 ^ w = 2 ^ (2 * w) := by
      rw [← Nat.succ_mul, Nat.succ_eq_add_one, Nat.sub_add_cancel (Nat.one_le_two_pow), ← pow_add,
        two_mul]
    omega
  have hsum : Nat.ofDigits (2 ^ w) (xs.map fun x => b.toNat * x.toNat) = b.toNat * value xs := by
    induction xs with
    | nil => simp
    | cons x xs ih =>
      rw [List.map_cons, Nat.ofDigits_cons, ih fun c hc => hcolumns c (by simp_all), value_cons]
      ring
  rw [mulWord, value_propagate 0 _ (Nat.two_pow_pos w) hcolumns, hsum]
  simp

def add (xs ys : List (BitVec w)) : List (BitVec w) :=
  propagate w 0 (List.zipWith (fun x y => x.toNat + y.toNat) xs ys)

private theorem ofDigits_zipWith_add (xs ys : List (BitVec w)) (hlength : xs.length = ys.length) :
    Nat.ofDigits (2 ^ w) (List.zipWith (fun x y => x.toNat + y.toNat) xs ys) = value xs + value ys := by
  induction xs generalizing ys with
  | nil => simp [List.length_eq_zero_iff.mp hlength.symm]
  | cons x xs ih =>
    cases ys with
    | nil => simp at hlength
    | cons y ys =>
      rw [List.zipWith_cons_cons, Nat.ofDigits_cons, ih ys (by simpa using hlength), value_cons,
        value_cons]
      ring

theorem value_add (hw : 0 < w) (xs ys : List (BitVec w)) (hlength : xs.length = ys.length) :
    value (add xs ys) = (value xs + value ys) % 2 ^ (w * xs.length) := by
  have hcolumns : ∀ column ∈ List.zipWith (fun x y : BitVec w => x.toNat + y.toNat) xs ys,
      column + 2 ^ w ≤ 2 ^ (2 * w) := by
    intro column hcolumn
    rw [← List.map_uncurry_zip_eq_zipWith, List.mem_map] at hcolumn
    obtain ⟨⟨x, y⟩, -, rfl⟩ := hcolumn
    have hx := x.isLt
    have hy := y.isLt
    obtain ⟨k, hk⟩ : ∃ k, 2 ^ w = 2 * (k + 1) := by
      obtain ⟨v, rfl⟩ : ∃ v, w = v + 1 := ⟨w - 1, by omega⟩
      exact ⟨2 ^ v - 1, by rw [Nat.sub_add_cancel Nat.one_le_two_pow, pow_succ']⟩
    rw [Function.uncurry_apply_pair, two_mul w, pow_add]
    rw [hk] at hx hy ⊢
    nlinarith
  rw [add, value_propagate 0 _ (Nat.two_pow_pos w) hcolumns, ofDigits_zipWith_add xs ys hlength,
    List.length_zipWith, hlength, min_self, Nat.zero_add]

def increment : List (BitVec w) → List (BitVec w)
  | [] => []
  | x :: xs => if x + 1 = 0 then (x + 1) :: increment xs else (x + 1) :: xs

@[simp] theorem length_increment (xs : List (BitVec w)) : (increment xs).length = xs.length := by
  induction xs with
  | nil => rfl
  | cons x xs ih =>
    rw [increment]
    split <;> simp [ih]

theorem value_increment (hw : 0 < w) (xs : List (BitVec w)) :
    value (increment xs) = (value xs + 1) % 2 ^ (w * xs.length) := by
  induction xs with
  | nil => simp [increment]
  | cons x xs ih =>
    have hone : (1 : Nat) < 2 ^ w := Nat.one_lt_two_pow (by omega)
    have hsum : (x + 1).toNat = (x.toNat + 1) % 2 ^ w := by
      rw [BitVec.toNat_add]
      simp [Nat.mod_eq_of_lt hone]
    have hx := x.isLt
    have hmod : (x.toNat + 2 ^ w * value xs + 1) % 2 ^ w = (x.toNat + 1) % 2 ^ w := by
      rw [Nat.add_right_comm, Nat.add_mul_mod_self_left]
    have hdiv : (x.toNat + 2 ^ w * value xs + 1) / 2 ^ w = (x.toNat + 1) / 2 ^ w + value xs := by
      rw [Nat.add_right_comm, Nat.add_mul_div_left _ _ (Nat.two_pow_pos w)]
    rw [increment, value_cons, List.length_cons, Nat.mul_succ, Nat.add_comm (w * xs.length), pow_add,
      Nat.mod_mul, hmod, hdiv]
    by_cases hwrap : x + 1 = 0
    · have hfull : x.toNat + 1 = 2 ^ w := by
        have hzero : (x.toNat + 1) % 2 ^ w = 0 := by rw [← hsum, hwrap]; rfl
        obtain ⟨c, hc⟩ := Nat.dvd_of_mod_eq_zero hzero
        have : c = 1 := by
          rcases c with - | - | c
          · omega
          · rfl
          · nlinarith
        rw [hc, this, Nat.mul_one]
      rw [if_pos hwrap, value_cons, ih, hsum, hfull, Nat.div_self (Nat.two_pow_pos w), Nat.add_comm 1]
    · have hfit : x.toNat + 1 < 2 ^ w := by
        by_contra hge
        apply hwrap
        apply BitVec.eq_of_toNat_eq
        rw [hsum, show x.toNat + 1 = 2 ^ w by omega, Nat.mod_self]
        rfl
      rw [if_neg hwrap, value_cons, hsum, Nat.div_eq_of_lt hfit, Nat.zero_add,
        Nat.mod_eq_of_lt (value_lt xs)]

def neg (xs : List (BitVec w)) : List (BitVec w) := increment (xs.map fun x => ~~~x)

@[simp] theorem length_neg (xs : List (BitVec w)) : (neg xs).length = xs.length := by simp [neg]

theorem value_complement (xs : List (BitVec w)) :
    value (xs.map fun x => ~~~x) + value xs + 1 = 2 ^ (w * xs.length) := by
  induction xs with
  | nil => simp
  | cons x xs ih =>
    have hx := x.isLt
    rw [List.map_cons, value_cons, value_cons, BitVec.toNat_not, List.length_cons, Nat.mul_succ,
      Nat.add_comm (w * xs.length), pow_add, ← ih]
    have hpos := Nat.two_pow_pos w
    generalize 2 ^ w = b at *
    have hb : b - 1 - x.toNat + x.toNat + 1 = b := by omega
    calc b - 1 - x.toNat + b * value (xs.map fun x => ~~~x) + (x.toNat + b * value xs) + 1
        = (b - 1 - x.toNat + x.toNat + 1) + b * (value (xs.map fun x => ~~~x) + value xs) := by ring
      _ = b * (value (xs.map fun x => ~~~x) + value xs + 1) := by rw [hb]; ring

theorem value_neg (hw : 0 < w) (xs : List (BitVec w)) :
    value (neg xs) = (2 ^ (w * xs.length) - value xs) % 2 ^ (w * xs.length) := by
  have hcomplement := value_complement xs
  rw [neg, value_increment hw, List.length_map]
  congr 1
  omega

def sub (xs ys : List (BitVec w)) : List (BitVec w) := add xs (neg ys)

@[simp] theorem length_add (xs ys : List (BitVec w)) (hlength : xs.length = ys.length) :
    (add xs ys).length = xs.length := by
  simp [add, hlength]

theorem value_sub (hw : 0 < w) (xs ys : List (BitVec w)) (hlength : xs.length = ys.length)
    (hle : value ys ≤ value xs) : value (sub xs ys) = value xs - value ys := by
  have hxs := value_lt xs
  rw [sub, value_add hw xs (neg ys) (by simpa using hlength), value_neg hw, ← hlength, Nat.add_mod_mod,
    show value xs + (2 ^ (w * xs.length) - value ys) = value xs - value ys + 2 ^ (w * xs.length) by
      rw [hlength] at *
      have := value_lt ys
      omega,
    Nat.add_mod_right, Nat.mod_eq_of_lt (by omega)]

/-! ### Comparison -/

/-- Comparison from the most significant word down: the high words decide, the low word breaks the tie. -/
def compare : List (BitVec w) → List (BitVec w) → Ordering
  | x :: xs, y :: ys => (compare xs ys).then (Ord.compare x.toNat y.toNat)
  | _, _ => .eq

theorem compare_eq (xs ys : List (BitVec w)) (hlength : xs.length = ys.length) :
    compare xs ys = Ord.compare (value xs) (value ys) := by
  induction xs generalizing ys with
  | nil => simp [List.length_eq_zero_iff.mp hlength.symm, compare]
  | cons x xs ih =>
    cases ys with
    | nil => simp at hlength
    | cons y ys =>
      have hx := x.isLt
      have hy := y.isLt
      rw [compare, ih ys (by simpa using hlength), value_cons, value_cons]
      rcases Nat.lt_trichotomy (value xs) (value ys) with hlt | heq | hgt
      · have hmul : 2 ^ w * (value xs + 1) ≤ 2 ^ w * value ys := Nat.mul_le_mul_left _ hlt
        have hvalue : x.toNat + 2 ^ w * value xs < y.toNat + 2 ^ w * value ys := by
          rw [Nat.mul_succ] at hmul
          omega
        rw [Nat.compare_eq_lt.mpr hlt, Nat.compare_eq_lt.mpr hvalue]
        rfl
      · rw [heq, Nat.compare_eq_eq.mpr rfl, Ordering.eq_then]
        simp [Nat.compare_eq_ite_lt]
      · have hmul : 2 ^ w * (value ys + 1) ≤ 2 ^ w * value xs := Nat.mul_le_mul_left _ hgt
        have hvalue : y.toNat + 2 ^ w * value ys < x.toNat + 2 ^ w * value xs := by
          rw [Nat.mul_succ] at hmul
          omega
        rw [Nat.compare_eq_gt.mpr hgt, Nat.compare_eq_gt.mpr hvalue]
        rfl

/-! ### Shifts -/

private theorem word_ofRange (n : Nat) (f : Nat → BitVec w) (i : Nat) :
    word ((List.range n).map f) i = if i < n then f i else 0 := by
  by_cases hi : i < n <;> simp [word, hi]

/-- Left shift by `shift` bits. Word `j` of the result joins the low part of the word `shift / w` places below it with the bits that spill over from the next lower one. -/
def shiftLeft (xs : List (BitVec w)) (shift : Nat) : List (BitVec w) :=
  let k := shift / w
  let s := shift % w
  (List.range xs.length).map fun j =>
    (if k + 1 ≤ j ∧ s ≠ 0 then word xs (j - (k + 1)) >>> (w - s) else 0) |||
      (if k ≤ j then word xs (j - k) <<< s else 0)

def shiftRight (xs : List (BitVec w)) (shift : Nat) : List (BitVec w) :=
  let k := shift / w
  let s := shift % w
  (List.range xs.length).map fun j =>
    (if j + k + 1 < xs.length ∧ s ≠ 0 then word xs (j + k + 1) <<< (w - s) else 0) |||
      (if j + k < xs.length then word xs (j + k) >>> s else 0)

@[simp] theorem length_shiftLeft (xs : List (BitVec w)) (shift : Nat) :
    (shiftLeft xs shift).length = xs.length := by simp [shiftLeft]

@[simp] theorem length_shiftRight (xs : List (BitVec w)) (shift : Nat) :
    (shiftRight xs shift).length = xs.length := by simp [shiftRight]

private theorem exists_word_bit (hw : 0 < w) (n : Nat) :
    ∃ q r, r < w ∧ n = w * q + r ∧ n / w = q ∧ n % w = r :=
  ⟨n / w, n % w, Nat.mod_lt _ hw, (Nat.div_add_mod n w).symm, rfl, rfl⟩

private theorem testBit_value_mul_add (xs : List (BitVec w)) (q r : Nat) (hr : r < w) :
    (value xs).testBit (w * q + r) = (word xs q).getLsbD r := by
  rw [testBit_value (by omega), Nat.mul_add_div (by omega), Nat.div_eq_of_lt hr, Nat.add_zero,
    Nat.mul_add_mod, Nat.mod_eq_of_lt hr]

private theorem mul_add_lt_mul_iff {q r n : Nat} (hr : r < w) : w * q + r < w * n ↔ q < n := by
  constructor
  · intro h
    by_contra hge
    have := Nat.mul_le_mul_left w (Nat.le_of_not_lt hge)
    omega
  · intro h
    have := Nat.mul_le_mul_left w (Nat.succ_le_of_lt h)
    rw [Nat.mul_succ] at this
    omega

theorem value_shiftLeft (hw : 0 < w) (xs : List (BitVec w)) (shift : Nat) :
    value (shiftLeft xs shift) = value xs * 2 ^ shift % 2 ^ (w * xs.length) := by
  apply Nat.eq_of_testBit_eq
  intro n
  obtain ⟨q, r, hr, hn, -, -⟩ := exists_word_bit hw n
  obtain ⟨k, s, hs, hshift, hk, hs'⟩ := exists_word_bit hw shift
  subst hn
  rw [testBit_value_mul_add _ _ _ hr, shiftLeft, hk, hs', word_ofRange, Nat.testBit_mod_two_pow,
    Nat.testBit_mul_two_pow, decide_eq_decide.mpr (mul_add_lt_mul_iff hr), hshift]
  by_cases hq : q < xs.length
  · rw [if_pos hq, BitVec.getLsbD_or, decide_eq_true hq, Bool.true_and]
    by_cases hrs : s ≤ r
    · -- the bit comes from the word `k` places below
      by_cases hkq : k ≤ q
      · obtain ⟨d, rfl⟩ := Nat.exists_eq_add_of_le hkq
        have hpos : w * (k + d) + r - (w * k + s) = w * d + (r - s) := by
          rw [Nat.mul_add]
          omega
        have hle : w * k + s ≤ w * (k + d) + r := by rw [Nat.mul_add]; omega
        have hspill :
            (if k + 1 ≤ k + d ∧ s ≠ 0 then word xs (k + d - (k + 1)) >>> (w - s) else 0).getLsbD r =
              false := by
          split
          · rw [BitVec.getLsbD_ushiftRight]
            exact BitVec.getLsbD_of_ge _ _ (by omega)
          · simp
        rw [hspill, if_pos hkq, hpos, testBit_value_mul_add _ _ _ (by omega), decide_eq_true hle,
          BitVec.getLsbD_shiftLeft, Nat.add_sub_cancel_left]
        simp only [hr, decide_true, Nat.not_lt.mpr hrs, decide_false, Bool.not_false, Bool.true_and,
          Bool.false_or]
      · have hlt : w * q + r < w * k + s := by
          have := Nat.mul_le_mul_left w (Nat.succ_le_of_lt (Nat.lt_of_not_le hkq))
          rw [Nat.mul_succ] at this
          omega
        rw [if_neg (by omega), if_neg hkq, decide_eq_false (by omega)]
        simp
    · -- the bit spills over from the word below that one
      by_cases hkq : k + 1 ≤ q
      · obtain ⟨d, rfl⟩ := Nat.exists_eq_add_of_le hkq
        have hpos : w * (k + 1 + d) + r - (w * k + s) = w * d + (w - s + r) := by
          rw [Nat.mul_add, Nat.mul_add, Nat.mul_one]
          omega
        have hle : w * k + s ≤ w * (k + 1 + d) + r := by rw [Nat.mul_add, Nat.mul_add]; omega
        rw [if_pos ⟨hkq, by omega⟩, if_pos (by omega), hpos, testBit_value_mul_add _ _ _ (by omega),
          decide_eq_true hle]
        simp [BitVec.getLsbD_shiftLeft, BitVec.getLsbD_ushiftRight, Nat.lt_of_not_le hrs]
      · have hlt : w * q + r < w * k + s := by
          have := Nat.mul_le_mul_left w (Nat.le_of_lt_succ (Nat.lt_of_not_le hkq))
          omega
        rw [if_neg (by omega), decide_eq_false (by omega)]
        split <;> simp [BitVec.getLsbD_shiftLeft, Nat.lt_of_not_le hrs]
  · simp [hq]

private theorem word_of_length_le {xs : List (BitVec w)} {i : Nat} (hi : xs.length ≤ i) : word xs i = 0 :=
  List.getD_eq_default _ _ hi

theorem value_shiftRight (hw : 0 < w) (xs : List (BitVec w)) (shift : Nat) :
    value (shiftRight xs shift) = value xs / 2 ^ shift := by
  apply Nat.eq_of_testBit_eq
  intro n
  obtain ⟨q, r, hr, hn, -, -⟩ := exists_word_bit hw n
  obtain ⟨k, s, hs, hshift, hk, hs'⟩ := exists_word_bit hw shift
  subst hn
  rw [testBit_value_mul_add _ _ _ hr, shiftRight, hk, hs', word_ofRange, Nat.testBit_div_two_pow, hshift]
  by_cases hrs : r + s < w
  · -- the bit comes from the word `k` places above
    have hpos : w * q + r + (w * k + s) = w * (q + k) + (r + s) := by ring
    rw [hpos, testBit_value_mul_add _ _ _ hrs]
    by_cases hq : q + k < xs.length
    · have hspill :
          (if q + k + 1 < xs.length ∧ s ≠ 0 then word xs (q + k + 1) <<< (w - s) else 0).getLsbD r =
            false := by
        split
        · simp [BitVec.getLsbD_shiftLeft, show r < w - s by omega]
        · simp
      rw [if_pos (by omega), BitVec.getLsbD_or, hspill, if_pos hq, BitVec.getLsbD_ushiftRight,
        Nat.add_comm s]
      simp
    · rw [word_of_length_le (Nat.le_of_not_lt hq)]
      split <;> simp [show ¬ q + k + 1 < xs.length by omega]
  · -- the bit is handed down by the word above that one
    have hpos : w * q + r + (w * k + s) = w * (q + k + 1) + (r + s - w) := by
      rw [Nat.mul_add, Nat.mul_add]
      omega
    rw [hpos, testBit_value_mul_add _ _ _ (by omega)]
    by_cases hq : q + k + 1 < xs.length
    · have hmain : (if q + k < xs.length then word xs (q + k) >>> s else 0).getLsbD r = false := by
        split
        · rw [BitVec.getLsbD_ushiftRight]
          exact BitVec.getLsbD_of_ge _ _ (by omega)
        · simp
      rw [if_pos (by omega), BitVec.getLsbD_or, hmain, if_pos ⟨hq, by omega⟩, BitVec.getLsbD_shiftLeft]
      simp [hr, show w - s ≤ r by omega, show r - (w - s) = r + s - w by omega]
    · rw [word_of_length_le (Nat.le_of_not_lt hq)]
      have hmain : (if q + k < xs.length then word xs (q + k) >>> s else 0).getLsbD r = false := by
        split
        · rw [BitVec.getLsbD_ushiftRight]
          exact BitVec.getLsbD_of_ge _ _ (by omega)
        · simp
      split
      · rw [BitVec.getLsbD_or, hmain, if_neg (by omega)]
        simp
      · simp

/-! ### The highest set bit -/

def highestBit (x : BitVec w) : Nat → Nat
  | 0 => 1
  | n + 1 => if x.getLsbD (n + 1) then n + 2 else highestBit x n

def bits : List (BitVec w) → Nat
  | [] => 0
  | x :: xs =>
    if bits xs ≠ 0 then w + bits xs
    else if x = 0 then 0 else highestBit x (w - 1)

private theorem highestBit_spec (x : BitVec w) (n : Nat) (hx : x ≠ 0)
    (hhigh : ∀ m, n < m → x.getLsbD m = false) :
    highestBit x n = x.toNat.size := by
  have hlt (n : Nat) (hhigh : ∀ m, n < m → x.getLsbD m = false) : x.toNat < 2 ^ (n + 1) := by
    apply Nat.lt_pow_two_of_testBit
    intro m hm
    rw [BitVec.testBit_toNat]
    exact hhigh m (by omega)
  induction n with
  | zero =>
    have hone : x.toNat = 1 := by
      have hpos : x.toNat ≠ 0 := fun h => hx (BitVec.eq_of_toNat_eq (by simpa using h))
      have := hlt 0 hhigh
      omega
    rw [hone, highestBit, Nat.size_one]
  | succ n ih =>
    rw [highestBit]
    by_cases hbit : x.getLsbD (n + 1)
    · have hge : 2 ^ (n + 1) ≤ x.toNat := Nat.ge_two_pow_of_testBit (by rwa [BitVec.testBit_toNat])
      rw [if_pos hbit]
      exact le_antisymm (Nat.lt_size.mpr hge) (Nat.size_le.mpr (hlt (n + 1) hhigh))
    · rw [if_neg hbit]
      apply ih
      intro m hm
      by_cases hmn : m = n + 1
      · rw [hmn]
        simpa using hbit
      · exact hhigh m (by omega)

theorem bits_eq_size (hw : 0 < w) (xs : List (BitVec w)) : bits xs = (value xs).size := by
  induction xs with
  | nil => simp [bits]
  | cons x xs ih =>
    have hx := x.isLt
    rw [bits, ih, value_cons]
    by_cases hhigh : value xs = 0
    · rw [hhigh, Nat.size_zero, if_neg (by simp), Nat.mul_zero, Nat.add_zero]
      by_cases hzero : x = 0
      · simp [hzero]
      · rw [if_neg hzero, highestBit_spec x _ hzero fun m hm => BitVec.getLsbD_of_ge _ _ (by omega)]
    · have hpos : 0 < (value xs).size := Nat.size_pos.mpr (by omega)
      rw [if_pos (by omega)]
      apply le_antisymm
      · obtain ⟨n, hn⟩ : ∃ n, (value xs).size = n + 1 := ⟨_, (Nat.sub_add_cancel hpos).symm⟩
        have hge : 2 ^ n ≤ value xs := Nat.lt_size.mp (by omega)
        rw [hn, ← Nat.add_assoc, Nat.succ_le_iff, Nat.lt_size, pow_add]
        have := Nat.mul_le_mul_left (2 ^ w) hge
        omega
      · have hlt : value xs + 1 ≤ 2 ^ (value xs).size := Nat.lt_size_self _
        rw [Nat.size_le, pow_add]
        have := Nat.mul_le_mul_left (2 ^ w) hlt
        rw [Nat.mul_succ] at this
        omega

/-! ### Regrouping into wider words -/

def group (g : Nat) (xs : List (BitVec w)) (i : Nat) : BitVec (w * g) :=
  BitVec.ofNat (w * g) (value ((xs.drop (g * i)).take g))

theorem value_group (g n : Nat) (xs : List (BitVec w)) (hlength : xs.length = g * n) :
    value ((List.range n).map (group g xs)) = value xs := by
  induction n generalizing xs with
  | zero => simp [List.length_eq_zero_iff.mp (by simpa using hlength)]
  | succ n ih =>
    rw [Nat.mul_succ] at hlength
    have hhead : (xs.take g).length = g := by rw [List.length_take]; omega
    have htail :
        (List.range n).map (group g xs ∘ Nat.succ) = (List.range n).map (group g (xs.drop g)) := by
      apply List.map_congr_left
      intro i _
      rw [Function.comp_apply, group, group, List.drop_drop, Nat.mul_succ, Nat.add_comm g]
    have hlt := value_lt (xs.take g)
    rw [hhead] at hlt
    have hfirst : (group g xs 0).toNat = value (xs.take g) := by
      simp [group, Nat.mod_eq_of_lt hlt]
    rw [List.range_succ_eq_map, List.map_cons, List.map_map, value_cons, htail,
      ih (xs.drop g) (by rw [List.length_drop]; omega), hfirst]
    conv_rhs => rw [← List.take_append_drop g xs, value_append, hhead]

/-! ### Setting one bit -/

def setBit (xs : List (BitVec w)) (n : Nat) : List (BitVec w) :=
  xs.set (n / w) (word xs (n / w) ||| (1#w <<< (n % w)))

@[simp] theorem length_setBit (xs : List (BitVec w)) (n : Nat) : (setBit xs n).length = xs.length := by
  simp [setBit]

theorem value_setBit (hw : 0 < w) (xs : List (BitVec w)) (n : Nat) (hn : n < w * xs.length)
    (hlow : 2 ^ (n + 1) ∣ value xs) : value (setBit xs n) = value xs + 2 ^ n := by
  obtain ⟨q, r, hr, hn', hq, hr'⟩ := exists_word_bit hw n
  have hqlen : q < xs.length := by
    rw [hn'] at hn
    exact (mul_add_lt_mul_iff hr).mp hn
  have hor : value (setBit xs n) = value xs ||| 2 ^ n := by
    apply Nat.eq_of_testBit_eq
    intro m
    obtain ⟨q', r', hr'', hm, -, -⟩ := exists_word_bit hw m
    rw [Nat.testBit_or, Nat.testBit_two_pow, hm, testBit_value_mul_add _ _ _ hr'',
      testBit_value_mul_add _ _ _ hr'', setBit, hq, hr', hn']
    by_cases hqq : q = q'
    · subst hqq
      have hword : word (xs.set q (word xs q ||| 1#w <<< r)) q = word xs q ||| 1#w <<< r := by
        simp [word, hqlen]
      rw [hword, BitVec.getLsbD_or, BitVec.getLsbD_shiftLeft]
      congr 1
      by_cases hrr : r = r'
      · simp [hrr, hr'', hw]
      · simp [hr'', hrr]
        omega
    · have hword : word (xs.set q (word xs q ||| 1#w <<< r)) q' = word xs q' := by
        simp [word, List.getElem?_set_ne hqq]
      have hne : w * q + r ≠ w * q' + r' := by
        intro heq
        apply hqq
        have h1 : (w * q + r) / w = q := by rw [Nat.mul_add_div hw, Nat.div_eq_of_lt hr, Nat.add_zero]
        have h2 : (w * q' + r') / w = q' := by
          rw [Nat.mul_add_div hw, Nat.div_eq_of_lt hr'', Nat.add_zero]
        rw [← h1, ← h2, heq]
      simp [hword, hne]
  obtain ⟨c, hc⟩ := hlow
  rw [hor, hc, ← Nat.two_pow_add_eq_or_of_lt (Nat.pow_lt_pow_right (by omega) (Nat.lt_succ_self n))]

/-! ### Shift-subtract division -/

/-- The rounds of a long division: each compares the running remainder with the aligned divisor, subtracts and sets a quotient bit if it fits, and shifts the divisor back by one. The counter runs over the quotient bits still to be decided. -/
def divLoop : Nat → List (BitVec w) → List (BitVec w) → List (BitVec w) → List (BitVec w)
  | 0, _, _, quotient => quotient
  | shift + 1, num, den, quotient =>
    if (compare num den).isGE then divLoop shift (sub num den) (shiftRight den 1) (setBit quotient shift)
    else divLoop shift num (shiftRight den 1) quotient

def div (num den : List (BitVec w)) : Option (List (BitVec w)) :=
  let numBits := bits num
  let denBits := bits den
  let zero := List.replicate num.length 0#w
  if denBits = 0 then none
  else if denBits > numBits then some zero
  else
    let shift := numBits - denBits
    some (divLoop (shift + 1) num (shiftLeft den shift) zero)

private theorem length_divLoop (rounds : Nat) (num den quotient : List (BitVec w)) :
    (divLoop rounds num den quotient).length = quotient.length := by
  induction rounds generalizing num den quotient with
  | zero => rfl
  | succ shift ih =>
    rw [divLoop]
    split <;> simp [ih]

theorem length_div {num den quotient : List (BitVec w)} (hdiv : div num den = some quotient) :
    quotient.length = num.length := by
  simp only [div] at hdiv
  split at hdiv
  · cases hdiv
  · split at hdiv <;> cases hdiv <;> simp [length_divLoop]

private theorem isGE_compare_iff {xs ys : List (BitVec w)} (hlength : xs.length = ys.length) :
    (compare xs ys).isGE = true ↔ value ys ≤ value xs := by
  rw [compare_eq _ _ hlength, Nat.isGE_compare]

/-- The loop invariant: the divisor is `d` aligned with the next quotient bit, the remainder is below the aligned divisor's double, and the quotient has no bit set below the round counter. -/
theorem value_divLoop (hw : 0 < w) (d rounds : Nat) (num den quotient : List (BitVec w))
    (hden : ∀ shift, rounds = shift + 1 → value den = d * 2 ^ shift)
    (hnum : value num < d * 2 ^ rounds) (hquotient : 2 ^ rounds ∣ value quotient)
    (hlength : num.length = den.length) (hroom : rounds ≤ w * quotient.length) :
    value (divLoop rounds num den quotient) = value quotient + value num / d := by
  induction rounds generalizing num den quotient with
  | zero => rw [divLoop, Nat.div_eq_of_lt (by simpa using hnum), Nat.add_zero]
  | succ shift ih =>
    have hvalue : value den = d * 2 ^ shift := hden shift rfl
    have hnext : ∀ shift', shift = shift' + 1 → value (shiftRight den 1) = d * 2 ^ shift' := by
      intro shift' hshift
      rw [value_shiftRight hw, hvalue, hshift, pow_succ, ← Nat.mul_assoc, pow_one,
        Nat.mul_div_cancel _ (by decide)]
    have hdouble : d * 2 ^ (shift + 1) = d * 2 ^ shift + d * 2 ^ shift := by rw [pow_succ]; ring
    rw [divLoop]
    by_cases hge : value den ≤ value num
    · have hsub : value (sub num den) = value num - d * 2 ^ shift := by
        rw [value_sub hw _ _ hlength hge, hvalue]
      have hset : value (setBit quotient shift) = value quotient + 2 ^ shift :=
        value_setBit hw _ _ (by omega) hquotient
      have hd : 0 < d := by
        rcases Nat.eq_zero_or_pos d with rfl | hd
        · simp at hnum
        · exact hd
      rw [if_pos ((isGE_compare_iff hlength).mpr hge), ih _ _ _ hnext (by omega), hsub, hset]
      · have hsplit : value num / d = (value num - d * 2 ^ shift) / d + 2 ^ shift := by
          rw [← Nat.add_mul_div_left _ _ hd, Nat.sub_add_cancel (by omega)]
        omega
      · rw [hset]
        exact Nat.dvd_add ((pow_dvd_pow 2 (Nat.le_succ shift)).trans hquotient) (dvd_refl _)
      · rw [sub, length_add _ _ (by simpa using hlength), length_shiftRight, hlength]
      · rw [length_setBit]
        omega
    · rw [if_neg (by rw [isGE_compare_iff hlength]; exact hge)]
      exact ih _ _ _ hnext (by omega) ((pow_dvd_pow 2 (Nat.le_succ shift)).trans hquotient)
        (by rw [length_shiftRight, hlength]) (by omega)

theorem value_div (hw : 0 < w) (num den : List (BitVec w)) (hlength : num.length = den.length)
    (hden : value den ≠ 0) :
    ∃ quotient, div num den = some quotient ∧ value quotient = value num / value den := by
  have hnumLt : value num < 2 ^ (value num).size := Nat.lt_size_self _
  have hdenLt : value den < 2 ^ (value den).size := Nat.lt_size_self _
  obtain ⟨n, hn⟩ : ∃ n, (value den).size = n + 1 :=
    ⟨_, (Nat.sub_add_cancel (Nat.size_pos.mpr (Nat.pos_of_ne_zero hden))).symm⟩
  have hdenGe : 2 ^ n ≤ value den := Nat.lt_size.mp (by omega)
  have hroom : (value num).size ≤ w * num.length := Nat.size_le.mpr (value_lt num)
  rw [div, bits_eq_size hw, bits_eq_size hw, hn]
  simp only [Nat.add_eq_zero_iff, one_ne_zero, and_false, if_false]
  by_cases hgt : n + 1 > (value num).size
  · refine ⟨_, if_pos hgt, ?_⟩
    have hsmall : value num < value den := by
      have := Nat.pow_le_pow_right (show 0 < 2 by decide) (show (value num).size ≤ n by omega)
      omega
    rw [value_replicate_zero, Nat.div_eq_of_lt hsmall]
  · obtain ⟨shift, hshift⟩ := Nat.exists_eq_add_of_le (Nat.le_of_not_lt hgt)
    have haligned : value (shiftLeft den shift) = value den * 2 ^ shift := by
      rw [value_shiftLeft hw, Nat.mod_eq_of_lt]
      calc value den * 2 ^ shift < 2 ^ (n + 1) * 2 ^ shift := by
            rw [hn] at hdenLt
            exact Nat.mul_lt_mul_of_pos_right hdenLt (Nat.two_pow_pos _)
        _ = 2 ^ (value num).size := by rw [hshift, ← pow_add]
        _ ≤ 2 ^ (w * den.length) := Nat.pow_le_pow_right (by decide) (hlength ▸ hroom)
    have hbound : value num < value den * 2 ^ (shift + 1) := by
      calc value num < 2 ^ (n + 1 + shift) := hshift ▸ hnumLt
        _ = 2 ^ n * 2 ^ (shift + 1) := by rw [← pow_add]; congr 1; omega
        _ ≤ value den * 2 ^ (shift + 1) := Nat.mul_le_mul_right _ hdenGe
    refine ⟨_, if_neg hgt, ?_⟩
    rw [show (value num).size - (n + 1) = shift by omega,
      value_divLoop hw (value den) (shift + 1) _ _ _ ?_ hbound (by simp) (by simpa using hlength)
        (by rw [List.length_replicate]; omega)]
    · simp
    · intro shift' hs
      rw [haligned, Nat.add_right_cancel hs]

/-! ### Most significant word first -/

theorem foldl_words {m n : Nat} (u : BitVec m) (hm : m ≤ w * n) {k : Nat} (hk : k ≤ n) :
    ((List.range k).map fun i => (u >>> (w * (n - 1 - i))).setWidth w).foldl
    (fun (a : BitVec m) b => a <<< w ||| b.setWidth m) 0 = u >>> (w * (n - k)) := by
  induction k with
  | zero => simp [BitVec.ushiftRight_eq_zero hm]
  | succ k ih =>
    have hshift : w * (n - k) = w * (n - 1 - k) + w := by
      rw [← Nat.mul_succ]
      congr 1
      omega
    have hlast : n - (k + 1) = n - 1 - k := by omega
    rw [List.range_succ, List.map_append, List.foldl_append, ih (by omega), hlast]
    apply BitVec.eq_of_getLsbD_eq
    intro j hj
    rw [List.map_singleton, List.foldl_cons, List.foldl_nil, BitVec.getLsbD_or,
      BitVec.getLsbD_shiftLeft, BitVec.getLsbD_ushiftRight, BitVec.getLsbD_setWidth,
        BitVec.getLsbD_setWidth, BitVec.getLsbD_ushiftRight, hshift]
    by_cases hlow : j < w
    · simp [hj, hlow]
    · have hhigh : w * (n - 1 - k) + w + (j - w) = w * (n - 1 - k) + j := by omega
      simp [hj, hlow, hhigh]

end Limbs
