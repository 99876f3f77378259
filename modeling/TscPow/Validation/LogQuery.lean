import TscPow.Validation.HeightIndex

/-!
# Log queries by height

`ReadHeightIndex` (`txdb.cpp`) puts a cursor at the first key of the lowest height and collects the transactions of the entries up to the first one that is too high or has too few confirmations. The heights are in big endian, so the keys are in the order of the heights, and what comes after the first such entry is no better. The heights that `ConnectBlock` writes are those of blocks, which are not negative as an `int`.
-/

namespace TscPow

namespace CBlockTreeDB

def getHashes (e : DBEntry) : Option (List Uint256) :=
  match e.value with
  | .hashes hash => some hash
  | _ => none

/-- The arguments of `ReadHeightIndex`, with the height of the active chain. -/
structure LogQuery where
  low : BitVec 32
  high : BitVec 32
  minconf : BitVec 32
  addresses : List Address
  chainHeight : Int

namespace LogQuery

variable (q : LogQuery)

def Rejected : Prop :=
  q.high.toInt < q.low.toInt ∧ q.high.toInt > -1 ∨ q.high.toInt = 0 ∧ q.low.toInt = 0 ∨
    q.high.toInt < -1 ∨ q.low.toInt < 0

instance : Decidable q.Rejected := inferInstanceAs (Decidable (_ ∨ _))

def Stops (nextHeight : Int) : Prop :=
  q.high.toInt > -1 ∧ nextHeight > q.high.toInt ∨ q.minconf.toInt > 0 ∧
    q.chainHeight - nextHeight < q.minconf.toInt

instance (nextHeight : Int) : Decidable (q.Stops nextHeight) := inferInstanceAs (Decidable (_ ∨ _))

def Passes (address : Address) : Prop := q.addresses = [] ∨ address ∈ q.addresses

instance (address : Address) : Decidable (q.Passes address) := inferInstanceAs (Decidable (_ ∨ _))

/-- The loop, with `curheight` and `blocksOfHashes`. -/
def readLoop : List DBEntry → Int → List (List Uint256) → Int × List (List Uint256)
  | [], curheight, blocksOfHashes => (curheight, blocksOfHashes)
  | e :: rest, curheight, blocksOfHashes =>
    match getKey e with
    | none => (curheight, blocksOfHashes)
    | some (first, second) =>
      if first ≠ DB_HEIGHTINDEX ∨ q.Stops second.height.toInt then (curheight, blocksOfHashes)
      else if q.Passes second.address then
        match getHashes e with
        | none => (second.height.toInt, blocksOfHashes)
        | some hashesTx => readLoop rest second.height.toInt (blocksOfHashes ++ [hashesTx])
      else readLoop rest second.height.toInt blocksOfHashes

def readHeightIndex (db : CBlockTreeDB) (blocksOfHashes : List (List Uint256)) :
    Int × List (List Uint256) :=
  if q.Rejected then (-1, blocksOfHashes)
  else q.readLoop (db.seek (DB_HEIGHTINDEX :: writeUInt32be q.low)) 0 blocksOfHashes

end LogQuery

/-- A database whose height index was written by `WriteHeightIndex` for heights of blocks. -/
inductive HeightsWritten : CBlockTreeDB → Prop where
  | none {db : CBlockTreeDB} : (∀ e ∈ db, ∀ key, e.key ≠ .heightIndex key) → HeightsWritten db
  | write {db : CBlockTreeDB} (nHeight : BitVec 32) (address : Address)
      (hash : List Uint256) : HeightsWritten db → 0 ≤ nHeight.toInt →
      HeightsWritten (db.writeHeightIndex ⟨nHeight, address⟩ hash)

/-- The height of an entry of the height index. -/
def heightOf (e : DBEntry) : Int :=
  match e.key with
  | .heightIndex key => key.height.toInt
  | _ => 0

namespace LogQuery

variable (q : LogQuery)

/-- The entry is in the range and has enough confirmations. -/
def InRange (e : DBEntry) : Bool :=
  match e.key with
  | .heightIndex key => decide (q.low.toInt ≤ key.height.toInt ∧ ¬ q.Stops key.height.toInt)
  | _ => false

def selected (e : DBEntry) : Option (List Uint256) :=
  match e.key with
  | .heightIndex key => if q.Passes key.address then getHashes e else none
  | _ => none

end LogQuery

/-! ### The order of the heights -/

theorem toInt_of_nonneg {n : BitVec 32} (h : 0 ≤ n.toInt) : n.toInt = n.toNat := by
  rw [BitVec.toInt_eq_toNat_cond] at h ⊢
  split
  · rfl
  · omega

theorem heightKey_lt {m n : BitVec 32} (h : m.toNat < n.toNat) (r s : List Byte) :
    (DB_HEIGHTINDEX :: (writeUInt32be m ++ r)).map BitVec.toNat <
    (DB_HEIGHTINDEX :: (writeUInt32be n ++ s)).map BitVec.toNat := by
  have hvalue (k : BitVec 32) : Limbs.value (writeBitVec k) = k.toNat := by
    rw [writeBitVec, writeUInt, Limbs.value_ofNat]
    exact Nat.mod_eq_of_lt k.isLt
  have hlt :=
    Limbs.reverse_lt_of_value_lt (writeBitVec m) (writeBitVec n)
      (by simp [writeBitVec, length_writeUInt])
    (by rwa [hvalue, hvalue]) (r.map BitVec.toNat) (s.map BitVec.toNat)
  rw [List.map_cons, List.map_cons, List.map_append, List.map_append]
  exact List.Lex.cons hlt

theorem height_le_of_slice_le {e e' : DBEntry} {key key' : CHeightTxIndexKey}
    (he : e.key = .heightIndex key) (he' : e'.key = .heightIndex key') (hle : e.slice ≤ e'.slice) :
    key.height.toNat ≤ key'.height.toNat := by
  by_contra hlt
  rw [DBEntry.slice, DBEntry.slice, he, he'] at hle
  exact absurd
    (heightKey_lt (not_le.mp hlt) (writeBytes key'.address.asBytes)
      (writeBytes key.address.asBytes)) hle.not_gt

theorem heightIndex_between {e e' : DBEntry} {key' : CHeightTxIndexKey} {low : BitVec 32}
    (he' : e'.key = .heightIndex key')
    (hstart : (DB_HEIGHTINDEX :: writeUInt32be low).map BitVec.toNat ≤ e.slice)
    (hle : e.slice ≤ e'.slice) :
    ∃ key, e.key = .heightIndex key ∧ low.toNat ≤ key.height.toNat := by
  have hhead : e.key.serialize.head? = some DB_HEIGHTINDEX := by
    rw [DBEntry.slice, DBEntry.slice, he'] at hle
    rw [DBEntry.slice] at hstart
    cases hbytes : e.key.serialize with
    | nil =>
      rw [hbytes] at hstart
      exact absurd List.Lex.nil hstart.not_gt
    | cons byte rest =>
      rw [hbytes] at hle hstart
      have hge : DB_HEIGHTINDEX.toNat ≤ byte.toNat := not_lt.mp fun h => hstart.not_gt (List.Lex.rel h)
      have hle : byte.toNat ≤ DB_HEIGHTINDEX.toNat := not_lt.mp fun h => hle.not_gt (List.Lex.rel h)
      rw [List.head?_cons, BitVec.eq_of_toNat_eq (le_antisymm hle hge)]
  obtain ⟨key, hkey⟩ := eq_heightIndex_of_head hhead
  refine ⟨key, hkey, ?_⟩
  by_contra hlt
  have hkeys := heightKey_lt (not_le.mp hlt) (writeBytes key.address.asBytes) []
  rw [List.append_nil] at hkeys
  rw [DBEntry.slice, hkey] at hstart
  exact absurd hkeys hstart.not_gt

/-! ### Written databases -/

theorem HeightsWritten.entry {db : CBlockTreeDB} (h : HeightsWritten db) {e : DBEntry} (he : e ∈ db)
    {key : CHeightTxIndexKey} (hkey : e.key = .heightIndex key) :
    0 ≤ key.height.toInt ∧ ∃ hash, getHashes e = some hash := by
  induction h with
  | none hnone => exact absurd hkey (hnone e he key)
  | write nHeight address hash _ hheight ih =>
    obtain rfl | ⟨he, -⟩ := KeyedSet.mem_replace.mp he
    · cases hkey
      exact ⟨hheight, hash, rfl⟩
    · exact ih he

/-! ### The loop -/

namespace LogQuery

variable {q : LogQuery} {db : CBlockTreeDB}

theorem inRange_iff {e : DBEntry} :
    q.InRange e = true ↔ ∃ key, e.key = .heightIndex key ∧ q.low.toInt ≤ key.height.toInt ∧
      ¬ q.Stops key.height.toInt := by
  rw [InRange]
  split
  case h_1 key hkey =>
    rw [hkey, decide_eq_true_eq]
    exact ⟨fun h => ⟨key, rfl, h⟩, fun ⟨_, heq, h⟩ => DBKey.heightIndex.inj heq ▸ h⟩
  case h_2 hkey => exact iff_of_false Bool.false_ne_true fun ⟨key, heq, _⟩ => hkey key heq

theorem readLoop_eq {entries : List DBEntry}
    (hentries : ∀ e ∈ entries, ∀ key, e.key = .heightIndex key → q.low.toInt ≤ key.height.toInt ∧
      ∃ hash, getHashes e = some hash)
    (curheight : Int) (blocksOfHashes : List (List Uint256)) :
    q.readLoop entries curheight blocksOfHashes =
      ((entries.takeWhile q.InRange).foldl (fun _ e => heightOf e) curheight,
        blocksOfHashes ++ (entries.takeWhile q.InRange).filterMap q.selected) := by
  induction entries generalizing curheight blocksOfHashes with
  | nil => simp [readLoop]
  | cons e rest ih =>
    obtain ⟨hhead, htail⟩ := List.forall_mem_cons.mp hentries
    rw [readLoop, List.takeWhile_cons]
    by_cases hin : q.InRange e = true
    · obtain ⟨key, hkey, -, hstops⟩ := inRange_iff.mp hin
      obtain ⟨-, hash, hhash⟩ := hhead key hkey
      have hget : getKey e = some (DB_HEIGHTINDEX, key) := by
        rw [← getKey_heightIndex key e.value, ← hkey]
      have hheight : heightOf e = key.height.toInt := by rw [heightOf, hkey]
      rw [hget, if_pos hin, List.foldl_cons, List.filterMap_cons, hheight, selected, hkey]
      dsimp only
      rw [if_neg (by simp [hstops])]
      split
      · rw [hhash]
        dsimp only
        rw [ih htail, List.append_assoc, List.singleton_append]
      · exact ih htail _ _
    · rw [if_neg hin, List.foldl_nil, List.filterMap_nil, List.append_nil]
      split
      case h_1 => rfl
      case h_2 first second hget =>
        refine if_pos (not_not.mp fun hnot => hin ?_)
        obtain ⟨hfirst, hstops⟩ := not_or.mp hnot
        rw [not_not.mp hfirst] at hget
        have hkey := key_of_getKey hget
        exact inRange_iff.mpr ⟨second, hkey, (hhead second hkey).1, hstops⟩

/-! ### The query -/

theorem stops_mono {m n : Int} (hle : m ≤ n) (h : ¬ q.Stops n) : ¬ q.Stops m := by
  rw [Stops] at h ⊢
  omega

theorem low_nonneg (hq : ¬ q.Rejected) : 0 ≤ q.low.toInt := by
  rw [Rejected] at hq
  omega

theorem scan_eq (hq : ¬ q.Rejected) :
    (db.seek (DB_HEIGHTINDEX :: writeUInt32be q.low)).takeWhile q.InRange =
      db.byKey.filter q.InRange := by
  have hlow := low_nonneg hq
  have hlownat := toInt_of_nonneg hlow
  refine Scan.scan_eq_filter db.pairwise_byKey ?_ ?_
  · intro a ha
    obtain ⟨key, hkey, hle, -⟩ := inRange_iff.mp ha
    have hnat := toInt_of_nonneg (hlow.trans hle)
    rw [DBEntry.slice, hkey]
    rcases Nat.lt_or_ge q.low.toNat key.height.toNat with hlt | hge
    · have hkeys := heightKey_lt hlt [] (writeBytes key.address.asBytes)
      rw [List.append_nil] at hkeys
      exact hkeys.le
    · have heq : q.low = key.height := BitVec.eq_of_toNat_eq (by omega)
      rw [heq]
      exact Scan.le_of_prefix
        ⟨(writeBytes key.address.asBytes).map BitVec.toNat, by rw [← List.map_append]; rfl⟩
  · intro a b hstart hle hb
    obtain ⟨key', hkey', hle', hstops⟩ := inRange_iff.mp hb
    obtain ⟨key, hkey, hheight⟩ := heightIndex_between hkey' hstart hle
    have horder := height_le_of_slice_le hkey hkey' hle
    have hnat' := toInt_of_nonneg (hlow.trans hle')
    have hnat : key.height.toInt = key.height.toNat := by
      rw [BitVec.toInt_eq_toNat_cond] at hnat' ⊢
      split at hnat'
      · exact if_pos (by omega)
      · omega
    exact inRange_iff.mpr ⟨key, hkey, by omega, stops_mono (by omega) hstops⟩

theorem pairwise_height (h : HeightsWritten db) :
    (db.byKey.filter q.InRange).Pairwise fun a b => heightOf a ≤ heightOf b := by
  refine (db.pairwise_byKey.sublist List.filter_sublist).imp_of_mem ?_
  intro a b ha hb hle
  rw [List.mem_filter, KeyedSet.mem_byKey] at ha hb
  obtain ⟨key, hkey, -⟩ := inRange_iff.mp ha.2
  obtain ⟨key', hkey', -⟩ := inRange_iff.mp hb.2
  have hnat := toInt_of_nonneg (h.entry ha.1 hkey).1
  have hnat' := toInt_of_nonneg (h.entry hb.1 hkey').1
  have horder := height_le_of_slice_le hkey hkey' hle
  rw [heightOf, heightOf, hkey, hkey']
  dsimp only
  omega

theorem last_height {l : List DBEntry} (hsorted : l.Pairwise fun a b => heightOf a ≤ heightOf b)
    (curheight : Int) :
    (∀ e ∈ l, heightOf e ≤ l.foldl (fun _ e => heightOf e) curheight) ∧
      (l = [] ∧ l.foldl (fun _ e => heightOf e) curheight = curheight ∨ ∃ e ∈ l,
        heightOf e = l.foldl (fun _ e => heightOf e) curheight) := by
  rcases List.eq_nil_or_concat' l with rfl | ⟨front, e, rfl⟩
  · exact ⟨by simp, .inl ⟨rfl, rfl⟩⟩
  · obtain ⟨-, -, hlast⟩ := List.pairwise_append.mp hsorted
    rw [List.foldl_append]
    refine ⟨?_, .inr ⟨e, by simp, rfl⟩⟩
    intro e' he'
    rcases List.mem_append.mp he' with hfront | heq
    · exact hlast e' hfront e List.mem_cons_self
    · rw [List.mem_singleton.mp heq]
      rfl

/-- A query that is not rejected appends, in the order of the heights, what is recorded for the entries of the range that have enough confirmations and pass the filter, and returns the greatest height of the range, or 0. -/
theorem readHeightIndex_exact (db : CBlockTreeDB) (h : HeightsWritten db) (q : LogQuery)
    (hq : ¬ q.Rejected) (blocksOfHashes : List (List Uint256)) :
    (q.readHeightIndex db blocksOfHashes).2 = blocksOfHashes ++
    (db.byKey.filter q.InRange).filterMap q.selected ∧
    (db.byKey.filter q.InRange).Pairwise (fun a b => heightOf a ≤ heightOf b) ∧
    (∀ e ∈ db, q.InRange e = true → heightOf e ≤ (q.readHeightIndex db blocksOfHashes).1) ∧
    ((∃ e ∈ db, q.InRange e = true ∧ heightOf e = (q.readHeightIndex db blocksOfHashes).1) ∨
      (∀ e ∈ db, q.InRange e = false) ∧ (q.readHeightIndex db blocksOfHashes).1 = 0) := by
  have hmem : ∀ e, e ∈ db.byKey.filter q.InRange ↔ e ∈ db ∧ q.InRange e = true := by
    intro e
    rw [List.mem_filter, KeyedSet.mem_byKey]
  have hread : q.readHeightIndex db blocksOfHashes =
    ((db.byKey.filter q.InRange).foldl (fun _ e => heightOf e) 0,
      blocksOfHashes ++ (db.byKey.filter q.InRange).filterMap q.selected) := by
    rw [readHeightIndex, if_neg hq, readLoop_eq, scan_eq hq]
    intro e he key hkey
    obtain ⟨he, hstart⟩ := (Scan.mem_seek_iff db.pairwise_byKey).mp he
    obtain ⟨hheight, hhash⟩ := h.entry (KeyedSet.mem_byKey.mp he) hkey
    obtain ⟨key', hkey', hle⟩ := heightIndex_between hkey hstart le_rfl
    obtain rfl := DBKey.heightIndex.inj (hkey.symm.trans hkey')
    rw [toInt_of_nonneg hheight, toInt_of_nonneg (low_nonneg hq)]
    exact ⟨Int.ofNat_le.mpr hle, hhash⟩
  obtain ⟨hgreatest, hlast⟩ := last_height (@pairwise_height q db h) 0
  rw [hread]
  refine ⟨rfl, pairwise_height h, fun e he hin => hgreatest e ((hmem e).mpr ⟨he, hin⟩), ?_⟩
  rcases hlast with ⟨hnil, hzero⟩ | ⟨e, he, heq⟩
  · refine .inr ⟨?_, hzero⟩
    intro e he
    exact Bool.eq_false_iff.mpr (List.filter_eq_nil_iff.mp hnil e (KeyedSet.mem_byKey.mpr he))
  · exact .inl ⟨e, ((hmem e).mp he).1, ((hmem e).mp he).2, heq⟩

def logged : CBlockTreeDB :=
  writeHeightIndex (writeHeightIndex KeyedSet.empty ⟨3, 7⟩ [Uint256.ofNat 1]) ⟨5, 7⟩
    [Uint256.ofNat 2]

def asked : LogQuery := ⟨2, 4, 0, [7], 9⟩

theorem readHeightIndex_exact_asked : ¬ asked.Rejected ∧ HeightsWritten logged ∧
    (asked.readHeightIndex logged []).2 = [] ++
    (logged.byKey.filter asked.InRange).filterMap asked.selected := by
  have hwritten : HeightsWritten logged :=
    .write 5 7 _ (.write 3 7 _ (.none fun _ he => by cases he) (by decide)) (by decide)
  exact ⟨by decide, hwritten, (readHeightIndex_exact logged hwritten asked (by decide) []).1⟩

end LogQuery

end CBlockTreeDB

end TscPow
