import TscPow.Primitives.Stream

/-!
# Requests for the transactions of a block

`BlockTransactionsRequest` (`blockencodings.h`) names transactions of a block by their positions, written as differences. The reader first takes the differences off the stream and then adds them up in a 16-bit offset. The sum is checked before the offset moves past it, so an index of 65535 takes the offset back to zero, and what follows starts again from there.
-/

namespace TscPow

open Reader

structure BlockTransactionsRequest where
  blockhash : Uint256
  indexes : List (BitVec 16)
deriving DecidableEq

namespace BlockTransactionsRequest

/-- What is written for the indexes that follow `previous`: a subtraction of `int`s, stored in 64 bits. -/
def differences : Option (BitVec 16) → List (BitVec 16) → List Nat
  | _, [] => []
  | previous, index :: indexes =>
    (((index.toNat : Int) - (previous.elim 0 (·.toNat + 1) : Nat)) % 2 ^ 64).toNat :: differences
    (some index) indexes

def serialize (r : BlockTransactionsRequest) : List Byte :=
  r.blockhash.data ++
    (writeCompactSize r.indexes.length ++ (differences none r.indexes).flatMap writeCompactSize)

def readIndex : Reader Byte (BitVec 16) := do
  let index ← readCompactSize
  if index > 0xffff then failure else return BitVec.ofNat 16 index

/-- The block and the differences, as they stand in the stream. The vector grows by at most a thousand entries at a time, which bounds the memory and not what is read. -/
def readFields : Reader Byte (Uint256 × List (BitVec 16)) := do
  let blockhash ← readUint256
  let indexes_size ← readCompactSize
  let indexes ← Reader.replicate readIndex indexes_size
  return (blockhash, indexes)

/-- The second loop: the sum is taken in 64 bits for the check, and in 16 bits for the offset. -/
def addOffsets : BitVec 16 → List (BitVec 16) → Option (List (BitVec 16))
  | _, [] => some []
  | offset, index :: indexes =>
    if index.toNat + offset.toNat > 0xffff then none
    else (addOffsets (index + offset + 1) indexes).map ((index + offset) :: ·)

def unserialize : Reader Byte BlockTransactionsRequest := do
  let (blockhash, indexes) ← readFields
  let indexes ← StateT.lift (addOffsets 0 indexes)
  return ⟨blockhash, indexes⟩

/-- Counted from `base`, only the last of the differences may lead to 65535. -/
def MaxIsLast : Nat → List (BitVec 16) → Prop
  | _, [] => True
  | _, [_] => True
  | base, d :: d' :: ds => base + d.toNat ≠ 0xffff ∧ MaxIsLast (base + d.toNat + 1) (d' :: ds)

/-! ### Adding up -/

theorem addOffsets_cons {offset index : BitVec 16} {indexes out : List (BitVec 16)}
    (h : addOffsets offset (index :: indexes) = some out) :
    index.toNat + offset.toNat ≤ 0xffff ∧ ∃ rest,
      addOffsets (index + offset + 1) indexes = some rest ∧ out = (index + offset) :: rest := by
  rw [addOffsets] at h
  split at h
  · cases h
  · rename_i hle
    obtain ⟨rest, hrest, rfl⟩ := Option.map_eq_some_iff.mp h
    exact ⟨by omega, rest, hrest, rfl⟩

theorem toNat_offset {index offset : BitVec 16} (hle : index.toNat + offset.toNat ≤ 0xffff) :
    (index + offset).toNat = offset.toNat + index.toNat := by
  rw [BitVec.toNat_add]
  omega

theorem toNat_nextOffset {index offset : BitVec 16} (hle : index.toNat + offset.toNat ≤ 0xffff)
    (hne : offset.toNat + index.toNat ≠ 0xffff) :
    (index + offset + 1).toNat = offset.toNat + index.toNat + 1 := by
  rw [BitVec.toNat_add, toNat_offset hle]
  change (_ + 1) % 65536 = _
  omega

theorem addOffsets_injective {offset : BitVec 16} {xs ys out : List (BitVec 16)}
    (hx : addOffsets offset xs = some out) (hy : addOffsets offset ys = some out) : xs = ys := by
  induction xs generalizing offset ys out with
  | nil =>
    cases hx
    cases ys with
    | nil => rfl
    | cons y ys =>
      obtain ⟨-, rest, -, hout⟩ := addOffsets_cons hy
      cases hout
  | cons x xs ih =>
    obtain ⟨-, rest, hrest, rfl⟩ := addOffsets_cons hx
    cases ys with
    | nil => cases hy
    | cons y ys =>
      obtain ⟨-, rest', hrest', hout⟩ := addOffsets_cons hy
      obtain ⟨hhead, rfl⟩ := List.cons.inj hout
      have hxy : x = y := add_right_cancel hhead
      subst hxy
      rw [ih hrest hrest']

theorem sorted_of_maxIsLast {offset : BitVec 16} {ds out : List (BitVec 16)}
    (h : addOffsets offset ds = some out) (hmax : MaxIsLast offset.toNat ds) :
    out.Pairwise (· < ·) ∧ ∀ index ∈ out, offset.toNat ≤ index.toNat := by
  induction ds generalizing offset out with
  | nil =>
    cases h
    exact ⟨List.Pairwise.nil, by simp⟩
  | cons d ds ih =>
    obtain ⟨hle, rest, hrest, rfl⟩ := addOffsets_cons h
    have hindex := toNat_offset hle
    cases ds with
    | nil =>
      cases hrest
      refine ⟨List.pairwise_singleton _ _, ?_⟩
      intro index hmem
      rw [List.mem_singleton.mp hmem]
      omega
    | cons d' ds =>
      have hnext := toNat_nextOffset hle hmax.1
      obtain ⟨hsorted, hleast⟩ := ih hrest (by rw [hnext]; exact hmax.2)
      refine ⟨List.pairwise_cons.mpr ⟨?_, hsorted⟩, List.forall_mem_cons.mpr ⟨by omega, ?_⟩⟩
      · intro index hmem
        have := hleast index hmem
        rw [BitVec.lt_def]
        omega
      · intro index hmem
        have := hleast index hmem
        omega

theorem maxIsLast_of_sorted {offset : BitVec 16} {ds out : List (BitVec 16)}
    (h : addOffsets offset ds = some out) (hsorted : out.Pairwise (· < ·)) :
    MaxIsLast offset.toNat ds := by
  induction ds generalizing offset out with
  | nil => trivial
  | cons d ds ih =>
    obtain ⟨hle, rest, hrest, rfl⟩ := addOffsets_cons h
    have hindex := toNat_offset hle
    cases ds with
    | nil => trivial
    | cons d' ds =>
      obtain ⟨hfirst, hsorted⟩ := List.pairwise_cons.mp hsorted
      have hne : offset.toNat + d.toNat ≠ 0xffff := by
        intro hmax
        -- nothing is above the greatest index
        obtain ⟨-, rest', -, rfl⟩ := addOffsets_cons hrest
        have hlt := BitVec.lt_def.mp (hfirst _ List.mem_cons_self)
        have := (d' + (d + offset + 1)).isLt
        omega
      refine ⟨hne, ?_⟩
      rw [← toNat_nextOffset hle hne]
      exact ih hrest hsorted

/-! ### Writing and reading back -/

theorem length_differences (previous : Option (BitVec 16)) (indexes : List (BitVec 16)) :
    (differences previous indexes).length = indexes.length := by
  induction indexes generalizing previous with
  | nil => rfl
  | cons index indexes ih => rw [differences, List.length_cons, List.length_cons, ih]

def offsetAfter (previous : Option (BitVec 16)) : BitVec 16 := previous.elim 0 (· + 1)

theorem toNat_offsetAfter {previous : Option (BitVec 16)} {index : BitVec 16}
    (h : ∀ p ∈ previous, p < index) :
    (offsetAfter previous).toNat = previous.elim 0 (·.toNat + 1) ∧
    (offsetAfter previous).toNat ≤ index.toNat := by
  cases previous with
  | none => exact ⟨rfl, Nat.zero_le _⟩
  | some p =>
    have hlt := BitVec.lt_def.mp (h p rfl)
    have hbound := index.isLt
    have hvalue : (p + 1).toNat = p.toNat + 1 := by
      rw [BitVec.toNat_add]
      change (_ + 1) % 65536 = _
      omega
    exact ⟨hvalue, hvalue.trans_le hlt⟩

theorem differences_sorted (previous : Option (BitVec 16)) {indexes : List (BitVec 16)}
    (hprevious : ∀ p ∈ previous, ∀ index ∈ indexes, p < index) (hsorted : indexes.Pairwise (· < ·)) :
    (∀ d ∈ differences previous indexes, d ≤ 0xffff) ∧
      addOffsets (offsetAfter previous) ((differences previous indexes).map (BitVec.ofNat 16)) =
        some indexes := by
  induction indexes generalizing previous with
  | nil => exact ⟨by simp [differences], rfl⟩
  | cons index indexes ih =>
    obtain ⟨hfirst, hsorted⟩ := List.pairwise_cons.mp hsorted
    obtain ⟨hoffset, hle⟩ := toNat_offsetAfter fun p hp => hprevious p hp index List.mem_cons_self
    have hbound := index.isLt
    have hdiff : (((index.toNat : Int) - (previous.elim 0 (·.toNat + 1) : Nat)) % 2 ^ 64).toNat =
        index.toNat - (offsetAfter previous).toNat := by
      rw [← hoffset]
      omega
    have hword : (BitVec.ofNat 16 (index.toNat - (offsetAfter previous).toNat)).toNat =
        index.toNat - (offsetAfter previous).toNat := by
      rw [BitVec.toNat_ofNat]
      omega
    have hindex : BitVec.ofNat 16 (index.toNat - (offsetAfter previous).toNat) +
        offsetAfter previous = index := by
      apply BitVec.eq_of_toNat_eq
      rw [BitVec.toNat_add, hword]
      omega
    obtain ⟨hsmall, hrest⟩ := ih (some index) (fun p hp => by cases hp; exact hfirst) hsorted
    rw [differences, hdiff]
    refine ⟨List.forall_mem_cons.mpr ⟨by omega, hsmall⟩, ?_⟩
    rw [List.map_cons, addOffsets, if_neg (by omega), hindex]
    change (addOffsets (offsetAfter (some index)) _).map _ = _
    rw [hrest]
    rfl

theorem reads_index {d : Nat} (hd : d ≤ 0xffff) :
    Reads readIndex (writeCompactSize d) (BitVec.ofNat 16 d) := by
  rw [← List.append_nil (writeCompactSize d)]
  refine (reads_compactSize (hd.trans (by decide))).bind ?_
  rw [if_neg (by omega)]
  exact Reads.pure _

theorem length_le_of_sorted {indexes : List (BitVec 16)} (hsorted : indexes.Pairwise (· < ·)) :
    indexes.length ≤ MAX_SIZE := by
  have hnodup : (indexes.map BitVec.toFin).Nodup := by
    refine List.Nodup.map (fun _ _ => BitVec.eq_of_toFin_eq) (hsorted.imp ?_)
    intro a b hlt heq
    exact absurd (heq ▸ BitVec.lt_def.mp hlt) (lt_irrefl _)
  have hcard := hnodup.length_le_card
  rw [List.length_map, Fintype.card_fin] at hcard
  exact hcard.trans (by decide)

theorem reads_request {r : BlockTransactionsRequest} (hsorted : r.indexes.Pairwise (· < ·)) :
    Reads unserialize r.serialize r := by
  obtain ⟨hsmall, hoffsets⟩ := differences_sorted none (by simp) hsorted
  have hvector := Reads.replicate fun d hd => reads_index (hsmall d hd)
  rw [length_differences] at hvector
  have hfields :
      Reads readFields r.serialize
        (r.blockhash, (differences none r.indexes).map (BitVec.ofNat 16)) :=
    (reads_uint256 r.blockhash).bind
      ((reads_compactSize (length_le_of_sorted hsorted)).bind (hvector.map _))
  intro rest
  refine run_bind_eq_some.mpr ⟨_, _, hfields rest, run_bind_eq_some.mpr ⟨r.indexes, rest, ?_, rfl⟩⟩
  change (addOffsets (offsetAfter none) _).bind _ = _
  rw [hoffsets]
  rfl

/-! ### What was accepted -/

theorem undoes_readIndex : Undoes readIndex fun index => writeCompactSize index.toNat := by
  intro input index rest h
  obtain ⟨n, mid, hn, hcheck⟩ := run_bind_eq_some.mp h
  obtain ⟨-, hinput⟩ := eq_of_readCompactSize hn
  split at hcheck
  · cases hcheck
  · rename_i hle
    cases hcheck
    have hvalue : (BitVec.ofNat 16 n).toNat = n := by
      rw [BitVec.toNat_ofNat]
      omega
    dsimp only
    rwa [hvalue]

theorem undoes_readFields : Undoes readFields fun fields =>
    fields.1.data ++ (writeCompactSize fields.2.length ++ fields.2.flatMap fun index =>
      writeCompactSize index.toNat) := by
  intro input fields rest h
  obtain ⟨blockhash, mid, hhash, hmore⟩ := run_bind_eq_some.mp h
  obtain ⟨indexes_size, mid', hsize, hmore⟩ := run_bind_eq_some.mp hmore
  obtain ⟨indexes, mid'', hindexes, hpure⟩ := run_bind_eq_some.mp hmore
  cases hpure
  obtain ⟨-, rfl⟩ := eq_of_readCompactSize hsize
  obtain ⟨rfl, rfl⟩ := undoes_readIndex.replicate hindexes
  rw [eq_of_readUint256 hhash, List.append_assoc, List.append_assoc]

theorem exists_fields_of_unserialize {input rest : List Byte} {r : BlockTransactionsRequest}
    (h : unserialize.run input = some (r, rest)) :
    ∃ ds, readFields.run input = some ((r.blockhash, ds), rest) ∧ addOffsets 0 ds = some r.indexes := by
  obtain ⟨⟨blockhash, ds⟩, mid, hfields, hmore⟩ := run_bind_eq_some.mp h
  obtain ⟨indexes, mid', hlift, hpure⟩ := run_bind_eq_some.mp hmore
  cases hpure
  obtain ⟨out, hout, heq⟩ := Option.bind_eq_some_iff.mp hlift
  cases heq
  exact ⟨ds, hfields, hout⟩

/-- A request that was read has its indexes in order exactly if no difference but the last led to 65535. Requests in order are read back as they were written, and the bytes used up are determined by the request. -/
theorem unserialize_increasing_iff (input : List Byte) (r : BlockTransactionsRequest) (rest : List Byte) :
    (unserialize.run input = some (r, rest) →
      ∃ ds, readFields.run input = some ((r.blockhash, ds), rest) ∧
        (r.indexes.Pairwise (· < ·) ↔ MaxIsLast 0 ds)) ∧
    (r.indexes.Pairwise (· < ·) → Reads unserialize r.serialize r) ∧
    ∀ input' rest', unserialize.run input = some (r, rest) → unserialize.run input' = some (r, rest') →
      ∃ bytes, input = bytes ++ rest ∧ input' = bytes ++ rest' := by
  refine ⟨?_, reads_request, ?_⟩
  · intro h
    obtain ⟨ds, hfields, hoffsets⟩ := exists_fields_of_unserialize h
    exact ⟨ds, hfields, maxIsLast_of_sorted hoffsets, fun hmax => (sorted_of_maxIsLast hoffsets hmax).1⟩
  · intro input' rest' h h'
    obtain ⟨ds, hfields, hoffsets⟩ := exists_fields_of_unserialize h
    obtain ⟨ds', hfields', hoffsets'⟩ := exists_fields_of_unserialize h'
    obtain rfl := addOffsets_injective hoffsets hoffsets'
    exact ⟨_, undoes_readFields hfields, undoes_readFields hfields'⟩

/-- Two differences, 65535 and 0: the second index is below the first. -/
theorem unserialize_restarts :
    ∃ r, unserialize.run ((Uint256.ofNat 0).data ++ [2, 253, 255, 255, 0]) = some (r, []) ∧
      r.indexes = [65535, 0] ∧
      ¬ r.indexes.Pairwise (· < ·) :=
  ⟨⟨Uint256.ofNat 0, [65535, 0]⟩, by decide +kernel, rfl, by decide⟩

end BlockTransactionsRequest

end TscPow
