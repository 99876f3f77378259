import TscPow.Consensus.Merkle

/-!
# Partial Merkle trees

`CPartialMerkleTree` (`merkleblock.cpp`) stores a Merkle tree from the root down, as far as there are matched transactions below: a bit for each node it visits, and a hash for each node below which it does not go. The reader goes through the same nodes, for the bits tell it where to go and the number of transactions tells it which nodes there are. What the builder stored leads the reader to the same nodes again, so that it finds the root and the matches (`traverse_spec`). Whatever else it is given to read, the hash of each node it went through is determined by the root (`reported_of_level`), if the hash is injective. A failure is reported by the null hash, here `default`, which is therefore no root to rely on.

Positions are not reduced to 32 bits, because they stay below the number of transactions.
-/

namespace TscPow

open LevelTree

structure PartialMerkleTree (α : Type) where
  nTransactions : Nat
  vBits : List Bool
  vHash : List α
  fBad : Bool
deriving DecidableEq

/-- The variables that `TraverseAndExtract` changes. -/
structure Extraction (α : Type) where
  nBitsUsed : Nat
  nHashUsed : Nat
  vMatch : List α
  vnIndex : List Nat
  fBad : Bool

namespace PartialMerkleTree

variable {α : Type}

def calcTreeWidth (nTransactions height : Nat) : Nat :=
  (nTransactions + 2 ^ height - 1) % 2 ^ 32 / 2 ^ height

/-- `while (CalcTreeWidth(nHeight) > 1) nHeight++`, as long as `1 << nHeight` is an `int`. -/
def calcHeight (nTransactions : Nat) : (rounds : Nat) → Nat → Except Fault Nat
  | 0, _ => .error .undefined
  | rounds + 1, nHeight => if calcTreeWidth nTransactions nHeight > 1 then
      calcHeight nTransactions rounds (nHeight + 1) else .ok nHeight

/-- `CalcHash`. -/
def calcHash (hash : α → α → α) (nTransactions : Nat) (vTxid : List α) :
    (height pos : Nat) → Except Fault α
  | 0, pos => do
    Except.require (vTxid.length ≠ 0) .assertion
    vTxid[pos]?.elim (.error .undefined) .ok
  | height + 1, pos => do
    Except.require (vTxid.length ≠ 0) .assertion
    let left ← calcHash hash nTransactions vTxid height (2 * pos)
    let right ← if 2 * pos + 1 < calcTreeWidth nTransactions height then
      calcHash hash nTransactions vTxid height (2 * pos + 1) else .ok left
    return hash left right

def orMatch (vMatch : List Bool) (fParentOfMatch : Bool) (p : Nat) : Except Fault Bool :=
  vMatch[p]?.elim (.error .undefined) fun b => .ok (fParentOfMatch || b)

/-- The loop that finds out whether a transaction below a node is matched. -/
def parentOfMatch (nTransactions : Nat) (vMatch : List Bool) (height pos : Nat) : Except Fault Bool :=
  (List.range' (pos * 2 ^ height)
    (min ((pos + 1) * 2 ^ height) nTransactions - pos * 2 ^ height)).foldlM (orMatch vMatch) false

def traverseAndBuild (hash : α → α → α) (vTxid : List α) (vMatch : List Bool) :
    (height pos : Nat) → PartialMerkleTree α → Except Fault (PartialMerkleTree α)
  | 0, pos, t => do
    let fParentOfMatch ← parentOfMatch t.nTransactions vMatch 0 pos
    let node ← calcHash hash t.nTransactions vTxid 0 pos
    return { t with vBits := t.vBits ++ [fParentOfMatch], vHash := t.vHash ++ [node] }
  | height + 1, pos, t => do
    let fParentOfMatch ← parentOfMatch t.nTransactions vMatch (height + 1) pos
    if fParentOfMatch then
      let t ← traverseAndBuild hash vTxid vMatch height (2 * pos)
        { t with vBits := t.vBits ++ [fParentOfMatch] }
      if 2 * pos + 1 < calcTreeWidth t.nTransactions height then
        traverseAndBuild hash vTxid vMatch height (2 * pos + 1) t
      else return t
    else
      let node ← calcHash hash t.nTransactions vTxid (height + 1) pos
      return { t with vBits := t.vBits ++ [fParentOfMatch], vHash := t.vHash ++ [node] }

def build (hash : α → α → α) (vTxid : List α) (vMatch : List Bool) :
    Except Fault (PartialMerkleTree α) := do
  let nHeight ← calcHeight (vTxid.length % 2 ^ 32) 31 0
  traverseAndBuild hash vTxid vMatch nHeight 0 ⟨vTxid.length % 2 ^ 32, [], [], false⟩

variable [DecidableEq α] [Inhabited α]

omit [DecidableEq α] in
/-- The next hash, which is a matched transaction if `matched`. -/
def readHash (t : PartialMerkleTree α) (matched : Bool) (pos : Nat) (s : Extraction α) :
    α × Extraction α :=
  match t.vHash[s.nHashUsed]? with
  | none => (default, { s with fBad := true })
  | some node =>
    if matched then
      (node, { s with
        nHashUsed := s.nHashUsed + 1, vMatch := s.vMatch ++ [node], vnIndex := s.vnIndex ++ [pos] })
    else (node, { s with nHashUsed := s.nHashUsed + 1 })

def traverseAndExtract (hash : α → α → α) (t : PartialMerkleTree α) :
    (height pos : Nat) → Extraction α → α × Extraction α
  | 0, pos, s =>
    match t.vBits[s.nBitsUsed]? with
    | none => (default, { s with fBad := true })
    | some fParentOfMatch => t.readHash fParentOfMatch pos { s with nBitsUsed := s.nBitsUsed + 1 }
  | height + 1, pos, s =>
    match t.vBits[s.nBitsUsed]? with
    | none => (default, { s with fBad := true })
    | some false => t.readHash false pos { s with nBitsUsed := s.nBitsUsed + 1 }
    | some true =>
      let left := traverseAndExtract hash t height (2 * pos) { s with nBitsUsed := s.nBitsUsed + 1 }
      if 2 * pos + 1 < calcTreeWidth t.nTransactions height then
        let right := traverseAndExtract hash t height (2 * pos + 1) left.2
        (hash left.1 right.1, { right.2 with fBad := right.2.fBad || right.1 == left.1 })
      else (hash left.1 left.1, left.2)

/-- The most transactions that a block of the size can have. -/
def maxTransactions (dgpMaxBlockSize : BitVec 32) : Nat := (dgpMaxBlockSize * 4).toNat / 240

/-- `ExtractMatches`: the root, `vMatch` and `vnIndex`. The matches that were there before are dropped, but not the positions. -/
def extractMatches (hash : α → α → α) (dgpMaxBlockSize : BitVec 32) (t : PartialMerkleTree α)
    (vnIndex : List Nat) : Except Fault (α × List α × List Nat) :=
  if t.nTransactions = 0 ∨ t.nTransactions > maxTransactions dgpMaxBlockSize ∨
    t.vHash.length > t.nTransactions ∨ t.vBits.length < t.vHash.length then
    .ok (default, [], vnIndex)
  else do
    let nHeight ← calcHeight t.nTransactions 31 0
    let (hashMerkleRoot, s) := traverseAndExtract hash t nHeight 0 ⟨0, 0, [], vnIndex, t.fBad⟩
    if s.fBad ∨ (s.nBitsUsed + 7) / 8 ≠ (t.vBits.length + 7) / 8 ∨ s.nHashUsed ≠ t.vHash.length then
      return (default, s.vMatch, s.vnIndex)
    else return (hashMerkleRoot, s.vMatch, s.vnIndex)

/-! ### The tree -/

section Levels

omit [DecidableEq α] [Inhabited α]

variable {hash : α → α → α} {vTxid : List α}

theorem lt_length_level_iff {k i : Nat} : i < (level hash vTxid k).length ↔ i * 2 ^ k < vTxid.length := by
  have hpos := Nat.two_pow_pos k
  rw [length_level, Nat.lt_iff_add_one_le, Nat.le_div_iff_mul_le hpos, Nat.succ_mul]
  omega

theorem calcTreeWidth_eq (hsize : vTxid.length ≤ 2 ^ 30) {height : Nat} (hheight : height ≤ 30) :
    calcTreeWidth vTxid.length height = (level hash vTxid height).length := by
  have hpow : 2 ^ height ≤ 2 ^ 30 := Nat.pow_le_pow_right (by decide) hheight
  rw [calcTreeWidth, length_level, Nat.mod_eq_of_lt]
  omega

theorem level_succ_cases {k i : Nat} {a : α} (ha : (level hash vTxid (k + 1))[i]? = some a) :
    ∃ l, (level hash vTxid k)[2 * i]? = some l ∧
      ((∃ r, (level hash vTxid k)[2 * i + 1]? = some r ∧ a = hash l r) ∨
        (level hash vTxid k)[2 * i + 1]? = none ∧ a = hash l l) := by
  rw [getElem?_level_succ] at ha
  obtain ⟨l, hl, rfl⟩ := Option.map_eq_some_iff.mp ha
  refine ⟨l, hl, ?_⟩
  cases (level hash vTxid k)[2 * i + 1]? with
  | none => exact .inr ⟨rfl, rfl⟩
  | some r => exact .inl ⟨r, rfl, rfl⟩

theorem calcHash_eq (hsize : vTxid.length ≤ 2 ^ 30) {height pos : Nat} (hheight : height ≤ 30)
    {a : α} (ha : (level hash vTxid height)[pos]? = some a) :
    calcHash hash vTxid.length vTxid height pos = .ok a := by
  have hne : ∀ {height pos : Nat} {a : α}, (level hash vTxid height)[pos]? = some a →
      vTxid.length ≠ 0 := by
    intro height pos a ha
    have hlt := lt_length_level_iff.mp (List.getElem?_eq_some_iff.mp ha).1
    omega
  induction height generalizing pos a with
  | zero =>
    rw [calcHash, Except.require_pos (hne ha), Except.ok_bind]
    change vTxid[pos]? = some a at ha
    rw [ha]
    rfl
  | succ height ih =>
    rw [calcHash, Except.require_pos (hne ha), Except.ok_bind, calcTreeWidth_eq hsize (by omega)]
    obtain ⟨l, hl, ⟨r, hr, rfl⟩ | ⟨hr, rfl⟩⟩ := level_succ_cases ha
    · rw [ih (by omega) hl, Except.ok_bind, if_pos (List.getElem?_eq_some_iff.mp hr).1, ih (by omega) hr]
      rfl
    · rw [ih (by omega) hl, Except.ok_bind, if_neg (not_lt.mpr (List.getElem?_eq_none_iff.mp hr))]
      rfl

theorem exists_calcHeight {n : Nat} (hpos : 0 < n) (hsize : n ≤ 2 ^ 30) :
    ∃ d, calcHeight n 31 0 = .ok d ∧ n ≤ 2 ^ d ∧ 2 ^ d < 2 * n ∧ d ≤ 30 := by
  have hloop : ∀ rounds h, rounds + h = 31 → 2 ^ h < 2 * n → ∃ d, calcHeight n rounds h = .ok d ∧
      n ≤ 2 ^ d ∧ 2 ^ d < 2 * n ∧ d ≤ 30 := by
    intro rounds
    induction rounds with
    | zero =>
      intro h hrounds hlt
      rw [show h = 31 by omega] at hlt
      omega
    | succ rounds ih =>
      intro h hrounds hlt
      have hpow : 2 ^ h ≤ 2 ^ 30 := Nat.pow_le_pow_right (by decide) (by omega)
      have hwidth : calcTreeWidth n h > 1 ↔ 2 ^ h < n := by
        rw [calcTreeWidth, Nat.mod_eq_of_lt (by omega), gt_iff_lt, Nat.lt_iff_add_one_le,
          Nat.le_div_iff_mul_le (Nat.two_pow_pos h)]
        omega
      rw [calcHeight]
      split
      · rename_i hwide
        refine ih (h + 1) (by omega) ?_
        rw [pow_succ]
        have := hwidth.mp hwide
        omega
      · rename_i hnarrow
        exact ⟨h, rfl, not_lt.mp (mt hwidth.mpr hnarrow), hlt, by omega⟩
  exact hloop 31 0 rfl (by omega)

end Levels

/-! ### Matches -/

section Matches

omit [DecidableEq α] [Inhabited α]

def entries (vTxid : List α) (vMatch : List Bool) : List ((α × Nat) × Bool) := vTxid.zipIdx.zip vMatch

def selected (entries : List ((α × Nat) × Bool)) : List (α × Nat) :=
  (entries.filter Prod.snd).map Prod.fst

theorem selected_append (xs ys : List ((α × Nat) × Bool)) :
    selected (xs ++ ys) = selected xs ++ selected ys := by
  rw [selected, List.filter_append, List.map_append, selected, selected]

theorem selected_eq_nil {xs : List ((α × Nat) × Bool)} (h : xs.any Prod.snd = false) :
    selected xs = [] := by
  rw [List.any_eq_false] at h
  rw [selected, List.filter_eq_nil_iff.mpr h, List.map_nil]

variable {vTxid : List α} {vMatch : List Bool}

theorem foldlM_orMatch (lo count : Nat) (found : Bool) (h : lo + count ≤ vMatch.length) :
    (List.range' lo count).foldlM (orMatch vMatch) found = .ok
    (found || ((vMatch.drop lo).take count).any id) := by
  induction count generalizing lo found with
  | zero => simp [pure, Except.pure]
  | succ count ih =>
    have hlo : lo < vMatch.length := by omega
    have hstep : orMatch vMatch found lo = .ok (found || vMatch[lo]) := by
      rw [orMatch, List.getElem?_eq_getElem hlo]
      rfl
    rw [List.range'_succ, List.foldlM_cons, hstep, Except.ok_bind, ih (lo + 1) _ (by omega),
      List.drop_eq_getElem_cons hlo, List.take_succ_cons, List.any_cons, Bool.or_assoc]
    rfl

theorem parentOfMatch_eq (hlength : vMatch.length = vTxid.length) {height pos : Nat}
    (hpos : pos * 2 ^ height < vTxid.length) :
    parentOfMatch vTxid.length vMatch height pos =
      .ok ((block (entries vTxid vMatch) height pos).any Prod.snd) := by
  have hsnd : (entries vTxid vMatch).map Prod.snd = vMatch :=
    List.map_snd_zip (by rw [List.length_zipIdx, hlength])
  have hany :
      (block (entries vTxid vMatch) height pos).any Prod.snd =
        (block vMatch height pos).any id := by
    nth_rewrite 2 [← hsnd]
    rw [block_map, List.any_map]
    rfl
  have hcount : min ((pos + 1) * 2 ^ height) vTxid.length - pos * 2 ^ height =
      min (2 ^ height) (vMatch.drop (pos * 2 ^ height)).length := by
    rw [List.length_drop, hlength, Nat.succ_mul]
    generalize pos * 2 ^ height = start, 2 ^ height = size at hpos ⊢
    omega
  rw [parentOfMatch, foldlM_orMatch _ _ _ (by rw [hlength]; omega), hany, hcount, block, Bool.false_or]
  congr 2
  exact (List.take_eq_take_min ..).symm

end Matches

/-! ### Reading what was built -/

section Traverse

variable {hash : α → α → α} {vTxid : List α} {vMatch : List Bool}

omit [DecidableEq α] [Inhabited α] in
theorem getElem?_of_prefix_cons {b : α} {bs l : List α} {i : Nat} (h : b :: bs <+: l.drop i) :
    l[i]? = some b ∧ bs <+: l.drop (i + 1) := by
  obtain ⟨rest, hrest⟩ := h
  constructor
  · calc
      l[i]? = (l.drop i)[0]? := by rw [List.getElem?_drop, Nat.add_zero]
      _ = some b := by rw [← hrest]; rfl
  · rw [← List.drop_drop, ← hrest]
    exact List.prefix_append ..

omit [DecidableEq α] [Inhabited α] in
theorem prefix_drop_of_append {as bs l : List α} {i : Nat} (h : as ++ bs <+: l.drop i) :
    as <+: l.drop i ∧ bs <+: l.drop (i + as.length) := by
  obtain ⟨rest, hrest⟩ := h
  rw [List.append_assoc] at hrest
  refine ⟨⟨_, hrest⟩, ?_⟩
  rw [← List.drop_drop, ← hrest, List.drop_left]
  exact List.prefix_append ..

omit [DecidableEq α] [Inhabited α] in
def advance (s : Extraction α) (bits hashes : Nat) (found : List (α × Nat)) : Extraction α :=
  ⟨s.nBitsUsed + bits, s.nHashUsed + hashes, s.vMatch ++ found.map Prod.fst,
    s.vnIndex ++ found.map Prod.snd, s.fBad⟩

/-- The builder stores so many bits and hashes, from which the reader finds the node and the matches below it. -/
structure Stored (hash : α → α → α) (vTxid : List α) (vMatch : List Bool) (height pos : Nat)
    (node : α) (bits : List Bool) (hashes : List α) : Prop where
  built : ∀ t, t.nTransactions = vTxid.length →
    traverseAndBuild hash vTxid vMatch height pos t =
      .ok { t with vBits := t.vBits ++ bits, vHash := t.vHash ++ hashes }
  hashes_le_bits : hashes.length ≤ bits.length
  hashes_le : hashes.length ≤ (block vTxid height pos).length
  read : ∀ t s, t.nTransactions = vTxid.length → bits <+: t.vBits.drop s.nBitsUsed →
    hashes <+: t.vHash.drop s.nHashUsed →
    traverseAndExtract hash t height pos s =
      (node, advance s bits.length hashes.length
        (selected (block (entries vTxid vMatch) height pos)))

/-- No two nodes that are hashed together are equal. -/
def DistinctSiblings (hash : α → α → α) (vTxid : List α) : Prop :=
  ∀ k i a, (level hash vTxid k)[2 * i]? = some a → (level hash vTxid k)[2 * i + 1]? ≠ some a

omit [DecidableEq α] in
theorem readHash_eq {t : PartialMerkleTree α} {s : Extraction α} {node : α}
    (h : t.vHash[s.nHashUsed]? = some node) (pos : Nat) (matched : Bool) :
    t.readHash matched pos s = (node, advance s 0 1 (if matched then [(node, pos)] else [])) := by
  rw [readHash, h]
  cases matched with
  | false => simp [advance]
  | true => simp [advance]

theorem stored_leaf (hlength : vMatch.length = vTxid.length) (hsize : vTxid.length ≤ 2 ^ 30)
    {pos : Nat} {a : α} (ha : vTxid[pos]? = some a) :
    ∃ bits hashes, Stored hash vTxid vMatch 0 pos a bits hashes := by
  have hpos := (List.getElem?_eq_some_iff.mp ha).1
  obtain ⟨b, hb⟩ : ∃ b, vMatch[pos]? = some b := ⟨_, List.getElem?_eq_getElem (hlength ▸ hpos)⟩
  have hentry : block (entries vTxid vMatch) 0 pos = [((a, pos), b)] := by
    refine block_zero ?_
    rw [entries, List.getElem?_zip_eq_some, List.getElem?_zipIdx, ha]
    exact ⟨by simp, hb⟩
  have hparent : parentOfMatch vTxid.length vMatch 0 pos = .ok b := by
    rw [parentOfMatch_eq hlength (by simpa using hpos), hentry]
    simp
  refine ⟨[b], [a], ?_, le_rfl, ?_, ?_⟩
  · intro t ht
    rw [traverseAndBuild, ht, hparent, Except.ok_bind, calcHash_eq hsize (Nat.zero_le _) ha]
    rfl
  · rw [block_zero ha]
  · intro t s _ hbits hhashes
    rw [traverseAndExtract, (getElem?_of_prefix_cons hbits).1]
    refine (readHash_eq (s := { s with nBitsUsed := s.nBitsUsed + 1 })
      (getElem?_of_prefix_cons hhashes).1 pos b).trans ?_
    rw [hentry]
    cases b with
    | false => simp [advance, selected]
    | true => simp [advance, selected]

theorem stored_unmatched (hlength : vMatch.length = vTxid.length) (hsize : vTxid.length ≤ 2 ^ 30)
    {height pos : Nat} (hheight : height + 1 ≤ 30) {a : α}
    (ha : (level hash vTxid (height + 1))[pos]? = some a)
    (hmatch : (block (entries vTxid vMatch) (height + 1) pos).any Prod.snd = false) :
    Stored hash vTxid vMatch (height + 1) pos a [false] [a] := by
  have hpos := lt_length_level_iff.mp (List.getElem?_eq_some_iff.mp ha).1
  have hpow := Nat.two_pow_pos (height + 1)
  refine ⟨?_, le_rfl, ?_, ?_⟩
  · intro t ht
    rw [traverseAndBuild, ht, parentOfMatch_eq hlength hpos, hmatch, Except.ok_bind,
      if_neg Bool.false_ne_true, calcHash_eq hsize hheight ha]
    rfl
  · rw [length_block, List.length_singleton]
    omega
  · intro t s _ hbits hhashes
    rw [traverseAndExtract, (getElem?_of_prefix_cons hbits).1]
    refine (readHash_eq (s := { s with nBitsUsed := s.nBitsUsed + 1 })
      (getElem?_of_prefix_cons hhashes).1 pos false).trans ?_
    rw [selected_eq_nil hmatch]
    simp [advance]

theorem block_eq_nil {β : Type} {l : List β} {k i : Nat} (h : l.length ≤ i * 2 ^ k) :
    block l k i = [] := by
  rw [block, List.drop_eq_nil_of_le h, List.take_nil]

theorem stored_both (hlength : vMatch.length = vTxid.length) (hsize : vTxid.length ≤ 2 ^ 30)
    (hdistinct : DistinctSiblings hash vTxid) {height pos : Nat} (hheight : height + 1 ≤ 30)
    {l r : α} (hl : (level hash vTxid height)[2 * pos]? = some l)
    (hr : (level hash vTxid height)[2 * pos + 1]? = some r)
    (hpos : pos * 2 ^ (height + 1) < vTxid.length)
    (hmatch : (block (entries vTxid vMatch) (height + 1) pos).any Prod.snd = true)
    {lbits rbits : List Bool} {lhashes rhashes : List α}
    (hleft : Stored hash vTxid vMatch height (2 * pos) l lbits lhashes)
    (hright : Stored hash vTxid vMatch height (2 * pos + 1) r rbits rhashes) :
    Stored hash vTxid vMatch (height + 1) pos (hash l r) (true :: (lbits ++ rbits))
      (lhashes ++ rhashes) := by
  have hwidth : 2 * pos + 1 < calcTreeWidth vTxid.length height := by
    rw [calcTreeWidth_eq hsize (by omega)]
    exact (List.getElem?_eq_some_iff.mp hr).1
  have hne : r ≠ l := by
    rintro rfl
    exact hdistinct height pos r hl hr
  refine ⟨?_, ?_, ?_, ?_⟩
  · rintro ⟨_, vBits, vHash, fBad⟩ rfl
    dsimp only
    rw [traverseAndBuild, parentOfMatch_eq hlength hpos, hmatch, Except.ok_bind, if_pos rfl,
      hleft.built _ rfl, Except.ok_bind, if_pos hwidth, hright.built _ rfl]
    simp
  · have := hleft.hashes_le_bits
    have := hright.hashes_le_bits
    simp only [List.length_cons, List.length_append]
    omega
  · rw [block_succ, List.length_append, List.length_append]
    exact Nat.add_le_add hleft.hashes_le hright.hashes_le
  · intro t s ht hbits hhashes
    obtain ⟨hbit, hbits⟩ := getElem?_of_prefix_cons hbits
    obtain ⟨hlbits, hrbits⟩ := prefix_drop_of_append hbits
    obtain ⟨hlhashes, hrhashes⟩ := prefix_drop_of_append hhashes
    have hl := hleft.read t { s with nBitsUsed := s.nBitsUsed + 1 } ht hlbits hlhashes
    have hr :=
      fun found =>
        hright.read t
          (advance { s with nBitsUsed := s.nBitsUsed + 1 } lbits.length lhashes.length found) ht
            hrbits hrhashes
    rw [traverseAndExtract, hbit]
    dsimp only
    rw [ht, if_pos hwidth, hl]
    dsimp only
    rw [hr, block_succ, selected_append]
    simp [advance, hne, Nat.add_assoc, Nat.add_comm 1]

theorem stored_single (hlength : vMatch.length = vTxid.length) (hsize : vTxid.length ≤ 2 ^ 30)
    {height pos : Nat} (hheight : height + 1 ≤ 30) {l : α}
    (hr : (level hash vTxid height)[2 * pos + 1]? = none)
    (hpos : pos * 2 ^ (height + 1) < vTxid.length)
    (hmatch : (block (entries vTxid vMatch) (height + 1) pos).any Prod.snd = true)
    {lbits : List Bool} {lhashes : List α}
    (hleft : Stored hash vTxid vMatch height (2 * pos) l lbits lhashes) :
    Stored hash vTxid vMatch (height + 1) pos (hash l l) (true :: lbits) lhashes := by
  have hnone := List.getElem?_eq_none_iff.mp hr
  have hwidth : ¬ 2 * pos + 1 < calcTreeWidth vTxid.length height := by
    rw [calcTreeWidth_eq hsize (by omega)]
    exact not_lt.mpr hnone
  have hend : vTxid.length ≤ (2 * pos + 1) * 2 ^ height :=
    not_lt.mp (mt lt_length_level_iff.mpr (not_lt.mpr hnone))
  have hentries : (entries vTxid vMatch).length = vTxid.length := by simp [entries, hlength]
  refine ⟨?_, hleft.hashes_le_bits.trans (Nat.le_succ _), ?_, ?_⟩
  · rintro ⟨_, vBits, vHash, fBad⟩ rfl
    dsimp only
    rw [traverseAndBuild, parentOfMatch_eq hlength hpos, hmatch, Except.ok_bind, if_pos rfl,
      hleft.built _ rfl, Except.ok_bind, if_neg hwidth]
    simp [pure, Except.pure]
  · rw [block_succ, block_eq_nil hend, List.append_nil]
    exact hleft.hashes_le
  · intro t s ht hbits hhashes
    obtain ⟨hbit, hlbits⟩ := getElem?_of_prefix_cons hbits
    have hl := hleft.read t { s with nBitsUsed := s.nBitsUsed + 1 } ht hlbits hhashes
    rw [traverseAndExtract, hbit]
    dsimp only
    rw [ht, if_neg hwidth, hl, block_succ, block_eq_nil (hentries.le.trans hend), List.append_nil]
    simp [advance, Nat.add_assoc, Nat.add_comm 1]

theorem exists_stored (hlength : vMatch.length = vTxid.length) (hsize : vTxid.length ≤ 2 ^ 30)
    (hdistinct : DistinctSiblings hash vTxid) {height : Nat} (hheight : height ≤ 30) {pos : Nat}
    {a : α} (ha : (level hash vTxid height)[pos]? = some a) :
    ∃ bits hashes, Stored hash vTxid vMatch height pos a bits hashes := by
  induction height generalizing pos a with
  | zero => exact stored_leaf hlength hsize ha
  | succ height ih =>
    have hpos := lt_length_level_iff.mp (List.getElem?_eq_some_iff.mp ha).1
    cases hmatch : (block (entries vTxid vMatch) (height + 1) pos).any Prod.snd with
    | false => exact ⟨_, _, stored_unmatched hlength hsize hheight ha hmatch⟩
    | true =>
      obtain ⟨l, hl, ⟨r, hr, rfl⟩ | ⟨hr, rfl⟩⟩ := level_succ_cases ha
      · obtain ⟨lbits, lhashes, hleft⟩ := ih (by omega) hl
        obtain ⟨rbits, rhashes, hright⟩ := ih (by omega) hr
        exact ⟨_, _, stored_both hlength hsize hdistinct hheight hl hr hpos hmatch hleft hright⟩
      · obtain ⟨lbits, lhashes, hleft⟩ := ih (by omega) hl
        exact ⟨_, _, stored_single hlength hsize hheight hr hpos hmatch hleft⟩

/-! ### Reading anything -/

/-- Every transaction that was reported on the way from one state to the other is in the list, at the position that was reported. -/
def Reported (vTxid : List α) (s s' : Extraction α) : Prop :=
  ∃ found : List (α × Nat), s'.vMatch = s.vMatch ++ found.map Prod.fst ∧
    s'.vnIndex = s.vnIndex ++ found.map Prod.snd ∧ ∀ f ∈ found, vTxid[f.2]? = some f.1

omit [DecidableEq α] [Inhabited α] in
theorem reported_of_eq {s s' : Extraction α} (hmatch : s'.vMatch = s.vMatch)
    (hindex : s'.vnIndex = s.vnIndex) : Reported vTxid s s' :=
  ⟨[], by simp [hmatch], by simp [hindex], by simp⟩

omit [DecidableEq α] [Inhabited α] in
theorem Reported.trans {s s' s'' : Extraction α} (h : Reported vTxid s s')
    (h' : Reported vTxid s' s'') : Reported vTxid s s'' := by
  obtain ⟨found, hmatch, hindex, hfound⟩ := h
  obtain ⟨found', hmatch', hindex', hfound'⟩ := h'
  refine ⟨found ++ found', ?_, ?_, List.forall_mem_append.mpr ⟨hfound, hfound'⟩⟩
  · rw [hmatch', hmatch, List.map_append, List.append_assoc]
  · rw [hindex', hindex, List.map_append, List.append_assoc]

omit [DecidableEq α] in
theorem reported_readHash (t : PartialMerkleTree α) {matched : Bool} {pos : Nat} (s : Extraction α)
    (h : matched = true → vTxid[pos]? = some (t.readHash matched pos s).1) :
    Reported vTxid s (t.readHash matched pos s).2 := by
  cases hnode : t.vHash[s.nHashUsed]? with
  | none =>
    rw [readHash, hnode]
    exact reported_of_eq rfl rfl
  | some node =>
    rw [readHash_eq hnode] at h ⊢
    cases matched with
    | false => exact ⟨[], rfl, rfl, by simp⟩
    | true => exact ⟨[(node, pos)], rfl, rfl, by simpa using h rfl⟩

theorem reported_of_level (hinjective : Function.Injective2 hash) (hsize : vTxid.length ≤ 2 ^ 30)
    {t : PartialMerkleTree α} (ht : t.nTransactions = vTxid.length) {height : Nat}
    (hheight : height ≤ 30) {pos : Nat} (s : Extraction α)
    (h : (level hash vTxid height)[pos]? = some (traverseAndExtract hash t height pos s).1) :
    Reported vTxid s (traverseAndExtract hash t height pos s).2 := by
  induction height generalizing pos s with
  | zero =>
    rw [traverseAndExtract] at h ⊢
    cases hbit : t.vBits[s.nBitsUsed]? with
    | none => exact reported_of_eq rfl rfl
    | some fParentOfMatch =>
      rw [hbit] at h
      exact (reported_of_eq rfl rfl).trans
        (reported_readHash t { s with nBitsUsed := s.nBitsUsed + 1 } fun _ => h)
  | succ height ih =>
    rw [traverseAndExtract] at h ⊢
    cases hbit : t.vBits[s.nBitsUsed]? with
    | none => exact reported_of_eq rfl rfl
    | some fParentOfMatch =>
      rw [hbit] at h
      cases fParentOfMatch with
      | false =>
        exact (reported_of_eq rfl rfl).trans
          (reported_readHash t { s with nBitsUsed := s.nBitsUsed + 1 } nofun)
      | true =>
        dsimp only at h ⊢
        rw [ht, calcTreeWidth_eq hsize (by omega)] at h ⊢
        have hstart : Reported vTxid s { s with nBitsUsed := s.nBitsUsed + 1 } := reported_of_eq rfl rfl
        obtain ⟨l, hl, ⟨r, hr, hnode⟩ | ⟨hr, hnode⟩⟩ := level_succ_cases h
        · rw [if_pos (List.getElem?_eq_some_iff.mp hr).1] at hnode ⊢
          obtain ⟨rfl, rfl⟩ := hinjective hnode
          exact ((hstart.trans (ih (by omega) _ hl)).trans (ih (by omega) _ hr)).trans
            (reported_of_eq rfl rfl)
        · rw [if_neg (not_lt.mpr (List.getElem?_eq_none_iff.mp hr))] at hnode ⊢
          obtain ⟨rfl, -⟩ := hinjective hnode
          exact hstart.trans (ih (by omega) _ hl)

end Traverse

/-! ### The whole tree -/

section Results

variable {hash : α → α → α} {vTxid : List α} {vMatch : List Bool} {dgpMaxBlockSize : BitVec 32}

theorem maxTransactions_le (dgpMaxBlockSize : BitVec 32) : maxTransactions dgpMaxBlockSize ≤ 2 ^ 30 := by
  have hbound := (dgpMaxBlockSize * 4).isLt
  rw [maxTransactions]
  omega

theorem exists_root (hash : α → α → α) (hne : vTxid ≠ []) (hsize : vTxid.length ≤ 2 ^ 30) {d : Nat}
    (hle : vTxid.length ≤ 2 ^ d) (hlt : 2 ^ d < 2 * vTxid.length) :
    ∃ root mutated, computeMerkleRoot hash vTxid = .ok (root, mutated) ∧
      (level hash vTxid d)[0]? = some root := by
  obtain ⟨d', r, hok, -, hle', hlt', hroot, -⟩ :=
    exists_merkleComputation hash hne (show vTxid.length < 2 ^ 31 by omega) ⟨false, 2 ^ 32 - 1⟩
  refine ⟨r.root, r.mutated, ?_, ?_⟩
  · rw [computeMerkleRoot, hok]
    rfl
  · rw [← root_eq_of_length_le hash hle hlt, root_eq_of_length_le hash hle' hlt', hroot]

theorem exists_extractMatches_build (hne : vTxid ≠ [])
    (hmax : vTxid.length ≤ maxTransactions dgpMaxBlockSize)
    (hdistinct : DistinctSiblings hash vTxid) (hlength : vMatch.length = vTxid.length)
    (vnIndex : List Nat) :
    ∃ t root mutated, build hash vTxid vMatch = .ok t ∧
      computeMerkleRoot hash vTxid = .ok (root, mutated) ∧
      extractMatches hash dgpMaxBlockSize t vnIndex =
        .ok (root, (selected (entries vTxid vMatch)).map Prod.fst,
          vnIndex ++ (selected (entries vTxid vMatch)).map Prod.snd) := by
  have hpos := List.length_pos_iff.mpr hne
  have hsize := hmax.trans (maxTransactions_le dgpMaxBlockSize)
  obtain ⟨d, hheight, hle, hlt, hd⟩ := exists_calcHeight hpos hsize
  obtain ⟨root, mutated, hroot, htop⟩ := exists_root hash hne hsize hle hlt
  obtain ⟨bits, hashes, hstored⟩ := exists_stored hlength hsize hdistinct hd htop
  have hhashes := hstored.hashes_le
  rw [block_all hle] at hhashes
  have hentries : (entries vTxid vMatch).length ≤ 2 ^ d := by simpa [entries, hlength] using hle
  have hmod : vTxid.length % 2 ^ 32 = vTxid.length := Nat.mod_eq_of_lt (by omega)
  refine ⟨⟨vTxid.length, bits, hashes, false⟩, root, mutated, ?_, hroot, ?_⟩
  · rw [build, hmod, hheight, Except.ok_bind, hstored.built _ rfl]
    rfl
  · have hread := hstored.read ⟨vTxid.length, bits, hashes, false⟩ ⟨0, 0, [], vnIndex, false⟩ rfl
      (List.prefix_refl _) (List.prefix_refl _)
    rw [block_all hentries] at hread
    have hbits := hstored.hashes_le_bits
    rw [extractMatches, if_neg (by dsimp only; omega)]
    dsimp only
    rw [hheight, Except.ok_bind, hread]
    simp [advance, pure, Except.pure]

theorem reported_of_extractMatches (hinjective : Function.Injective2 hash) {t : PartialMerkleTree α}
    (ht : t.nTransactions = vTxid.length) {vnIndex : List Nat} {root : α} {mutated : Bool}
    {found : List α} {vnIndex' : List Nat}
    (hroot : computeMerkleRoot hash vTxid = .ok (root, mutated)) (hnull : root ≠ default)
    (h : extractMatches hash dgpMaxBlockSize t vnIndex = .ok (root, found, vnIndex')) :
    ∃ positions, vnIndex' = vnIndex ++ positions ∧
      List.Forall₂ (fun txid pos => vTxid[pos]? = some txid) found positions := by
  rw [extractMatches] at h
  split at h
  · obtain ⟨rfl, -⟩ := Prod.mk.inj (Except.ok.inj h)
    exact absurd rfl hnull
  · rename_i hchecks
    simp only [not_or, ht, not_lt] at hchecks
    obtain ⟨hpos, hmax, -, -⟩ := hchecks
    have hsize := hmax.trans (maxTransactions_le dgpMaxBlockSize)
    have hne : vTxid ≠ [] := List.ne_nil_of_length_pos (Nat.pos_of_ne_zero hpos)
    obtain ⟨d, hheight, hle, hlt, hd⟩ := exists_calcHeight (Nat.pos_of_ne_zero hpos) hsize
    obtain ⟨root', mutated', hroot', htop⟩ := exists_root hash hne hsize hle hlt
    rw [hroot] at hroot'
    obtain ⟨rfl, rfl⟩ := Prod.mk.inj (Except.ok.inj hroot')
    rw [ht, hheight, Except.ok_bind] at h
    dsimp only at h
    split at h
    · obtain ⟨rfl, -⟩ := Prod.mk.inj (Except.ok.inj h)
      exact absurd rfl hnull
    · obtain ⟨rfl, hfound⟩ := Prod.mk.inj (Except.ok.inj h)
      obtain ⟨rfl, rfl⟩ := Prod.mk.inj hfound
      obtain ⟨pairs, hmatch, hindex, hpairs⟩ := reported_of_level hinjective hsize ht hd _ htop
      refine ⟨pairs.map Prod.snd, hindex, ?_⟩
      rw [hmatch, List.nil_append, List.forall₂_map_left_iff, List.forall₂_map_right_iff]
      exact List.forall₂_same.mpr hpairs

/-- A tree that was built gives back the root, and the matches with their positions. If the hash is injective and a tree, whatever it is, gives the root of a list of its length, its matches are in the list at their positions. -/
theorem extractMatches_complete_and_sound (hash : α → α → α) (dgpMaxBlockSize : BitVec 32)
    (vTxid : List α) :
    (vTxid ≠ [] → vTxid.length ≤ maxTransactions dgpMaxBlockSize → DistinctSiblings hash vTxid →
      ∀ vMatch : List Bool, vMatch.length = vTxid.length → ∀ vnIndex, ∃ t root mutated,
        build hash vTxid vMatch = .ok t ∧ computeMerkleRoot hash vTxid = .ok (root, mutated) ∧
        extractMatches hash dgpMaxBlockSize t vnIndex =
          .ok (root, (selected (entries vTxid vMatch)).map Prod.fst,
            vnIndex ++ (selected (entries vTxid vMatch)).map Prod.snd)) ∧
    (Function.Injective2 hash → ∀ t : PartialMerkleTree α, t.nTransactions = vTxid.length →
      ∀ vnIndex root mutated found vnIndex', computeMerkleRoot hash vTxid = .ok (root, mutated) →
        root ≠ default →
        extractMatches hash dgpMaxBlockSize t vnIndex = .ok (root, found, vnIndex') →
          ∃ positions, vnIndex' = vnIndex ++ positions ∧
            List.Forall₂ (fun txid pos => vTxid[pos]? = some txid) found positions) := by
  constructor
  · intro hne hmax hdistinct vMatch hlength vnIndex
    exact exists_extractMatches_build hne hmax hdistinct hlength vnIndex
  · intro hinjective t ht vnIndex root mutated found vnIndex' hroot hnull h
    exact reported_of_extractMatches hinjective ht hroot hnull h

def oddPair (a b : Nat) : Nat := 2 * Nat.pair a b + 1

theorem oddPair_injective : Function.Injective2 oddPair := by
  intro a a' b b' heq
  have hpair : Nat.pair a b = Nat.pair a' b' := Nat.eq_of_mul_eq_mul_left (by decide) (Nat.succ.inj heq)
  exact Nat.pair_eq_pair.mp hpair

theorem distinctSiblings_three : DistinctSiblings oddPair [2, 4, 6] := by
  intro k i a hleft hright
  have hlt := lt_length_level_iff.mp (List.getElem?_eq_some_iff.mp hright).1
  change (2 * i + 1) * 2 ^ k < 3 at hlt
  match k with
  | 0 =>
    obtain rfl : i = 0 := by omega
    exact absurd (hleft.trans hright.symm) (by decide)
  | 1 =>
    obtain rfl : i = 0 := by omega
    exact absurd (hleft.trans hright.symm) (by decide)
  | k + 2 =>
    rw [pow_add] at hlt
    have := Nat.two_pow_pos k
    nlinarith

/-- The last two of three transactions, and a tree with the last one that came from elsewhere. -/
theorem extractMatches_complete_and_sound_three :
    (∃ t root mutated, build oddPair [2, 4, 6] [false, true, true] = .ok t ∧
      computeMerkleRoot oddPair [2, 4, 6] = .ok (root, mutated) ∧
      extractMatches oddPair 2000000 t [] = .ok (root, [4, 6], [1, 2])) ∧
    ∃ positions, [2] = [] ++ positions ∧
      List.Forall₂ (fun txid pos => [2, 4, 6][pos]? = some txid) [6] positions := by
  obtain ⟨hcomplete, hsound⟩ := extractMatches_complete_and_sound oddPair 2000000 [2, 4, 6]
  refine ⟨hcomplete (by decide) (by decide) distinctSiblings_three [false, true, true] rfl [], ?_⟩
  exact hsound oddPair_injective ⟨3, [true, false, true, true], [oddPair 2 4, 6], false⟩ rfl []
    (oddPair (oddPair 2 4) (oddPair 6 6)) false [6] [2] rfl (by decide) rfl

/-- A block without transactions, and a tree with too many bits for a list whose root is the null hash. -/
theorem extractMatches_null :
    build oddPair [] [] = .error .assertion ∧ computeMerkleRoot oddPair [0] = .ok (0, false) ∧
      extractMatches oddPair 2000000 ⟨1, List.replicate 16 true, [5], false⟩ [] =
        .ok (0, [5], [0]) := ⟨rfl, rfl, rfl⟩

end Results

end PartialMerkleTree

end TscPow
