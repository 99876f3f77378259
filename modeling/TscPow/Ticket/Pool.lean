import TscPow.Base.Draw
import TscPow.Base.Except
import TscPow.Base.Fault
import TscPow.Base.KeyedSet
import TscPow.Consensus.Params
import TscPow.Contract.Results
import TscPow.Primitives.Block

/-!
# The ticket pool

`ticketpool.h` and `ticketpool.cpp`. A ticket is bought by a transaction whose first output starts with `OP_BUYTICKET`; the pool holds the tickets under the hashes of their transactions. `getLuckyIndex` turns the hash of a block and a seed into five positions of the pool, and the tickets there are drawn one after another.

Reading outside an array, or through a null block index, is `Fault.undefined`; the exception of `ticketAt` is `Fault.exception`.
-/

namespace TscPow

/-! ### Tickets -/

/-- `CTxDestination`, the content of a `CBitcoinAddress`. -/
inductive Destination where
  | noDestination
  | keyID (id : Address)
  | scriptID (id : Address)
deriving DecidableEq

def Destination.script : Destination → Script
  | .noDestination => []
  | .keyID id => payToPubkeyHash id
  | .scriptID id => [0xa9, 0x14] ++ id.asBytes ++ [0x87]

/-- A ticket. Tickets are only made for blocks of the active chain, so the height is a natural number. -/
structure Ticket where
  ticketHeight : Nat
  ticketTxHash : Uint256
  ticketPrice : Amount
  ticketAddress : Destination
deriving DecidableEq

/-- What the pool takes from the rest of the node: hashing, `ExtractDestination`, and whether `ReadBlockFromDisk` finds a block of the chain. -/
structure TicketEnv where
  hashing : Hashing
  extractDestination : Script → Destination
  readBlockFromDisk : Block → Bool

/-- `Ticket(tx, height)` for a transaction that buys a ticket. The second output is read without a size check. -/
def Ticket.ofTx (env : TicketEnv) (tx : Tx) (height : Nat) : Except Fault Ticket :=
  match tx.vout with
  | price :: address :: _ =>
    .ok ⟨height, env.hashing.txHash tx, price.nValue, env.extractDestination address.scriptPubKey⟩
  | _ => .error .undefined

/-! ### The pool -/

/-- `ticketpool_set`: unique by transaction hash; the order of insertion is the order among equal heights. -/
abbrev TicketSet := KeyedSet Ticket.ticketTxHash

namespace TicketSet

def ticketPush (pool : TicketSet) (ticket : Ticket) : TicketSet := KeyedSet.insert pool ticket

def ticketDel (pool : TicketSet) (ticket : Ticket) : TicketSet := KeyedSet.erase pool ticket.ticketTxHash

def ticketDelByHeight (pool : TicketSet) (height : Nat) : TicketSet :=
  KeyedSet.filter pool (·.ticketHeight ≠ height)

def getTicketByHeight (pool : TicketSet) (height : Nat) : List Ticket :=
  pool.toList.filter (·.ticketHeight = height)

/-- `ticketAt`. Its special case for a negative height cannot occur. -/
def ticketAt (pool : TicketSet) (index : Nat) : Except Fault Ticket :=
  match pool.byKey[index]? with
  | none => .error (.exception "ticket index error")
  | some ticket => .ok ticket

/-- The loop that the miner, block processing and the pool update share: `ticketAt`, then `ticketDel` from the same copy of the pool. -/
def drawTickets (pool : TicketSet) : List Nat → Except Fault (List Ticket)
  | [] => .ok []
  | index :: rest => do
    let ticket ← pool.ticketAt index
    let tickets ← drawTickets (pool.ticketDel ticket) rest
    return ticket :: tickets

theorem drawTickets_eq (pool : TicketSet) (indices : List Nat) :
    pool.drawTickets indices =
      match Draw.draw pool.byKey indices with
      | none => .error (.exception "ticket index error")
      | some tickets => .ok tickets := by
  induction indices generalizing pool with
  | nil => rfl
  | cons index rest ih =>
    rw [drawTickets, ticketAt, Draw.draw]
    cases hat : pool.byKey[index]? with
    | none => rfl
    | some ticket =>
      have hdel : (pool.ticketDel ticket).byKey = pool.byKey.eraseIdx index := KeyedSet.byKey_erase hat
      change (drawTickets (pool.ticketDel ticket) rest >>= fun tickets => pure (ticket :: tickets)) = _
      rw [ih, hdel]
      cases Draw.draw (pool.byKey.eraseIdx index) rest <;> rfl

theorem drawTickets_eq_ok_iff {pool : TicketSet} {indices : List Nat} {tickets : List Ticket} :
    pool.drawTickets indices = .ok tickets ↔ Draw.draw pool.byKey indices = some tickets := by
  rw [drawTickets_eq]
  cases Draw.draw pool.byKey indices <;> simp

end TicketSet

/-! ### Deleting tickets -/

section Delete

variable {t u : Ticket} {tickets : TicketSet} {drawn : List Ticket}

theorem mem_foldl_ticketDel : t ∈ drawn.foldl TicketSet.ticketDel tickets ↔
    t ∈ tickets ∧ ∀ u ∈ drawn, t.ticketTxHash ≠ u.ticketTxHash := by
  induction drawn generalizing tickets with
  | nil => simp
  | cons u drawn ih =>
    rw [List.foldl_cons, ih, TicketSet.ticketDel, KeyedSet.mem_erase, List.forall_mem_cons,
      and_assoc]

theorem mem_foldl_ticketDel_of_subset (hsub : ∀ u ∈ drawn, u ∈ tickets) :
    u ∈ drawn.foldl TicketSet.ticketDel tickets ↔ u ∈ tickets ∧ u ∉ drawn := by
  rw [mem_foldl_ticketDel]
  refine and_congr_right fun hu => ⟨fun hall hmem => hall u hmem rfl, ?_⟩
  intro hnot v hv hhash
  rw [KeyedSet.eq_of_key_eq hu (hsub v hv) hhash] at hnot
  exact hnot hv

theorem size_foldl_ticketDel (hnodup : drawn.Nodup) (hsub : ∀ u ∈ drawn, u ∈ tickets) :
    (drawn.foldl TicketSet.ticketDel tickets).size + drawn.length = tickets.size := by
  induction drawn generalizing tickets with
  | nil => rfl
  | cons u drawn ih =>
    rw [List.nodup_cons] at hnodup
    have hu := hsub u List.mem_cons_self
    have hrest : ∀ v ∈ drawn, v ∈ tickets.ticketDel u := by
      intro v hv
      have hv' := hsub v (List.mem_cons_of_mem _ hv)
      refine KeyedSet.mem_erase.mpr ⟨hv', fun hhash => ?_⟩
      rw [KeyedSet.eq_of_key_eq hv' hu hhash] at hv
      exact hnodup.1 hv
    have hone : (tickets.ticketDel u).size + 1 = tickets.size := KeyedSet.size_erase hu
    have hind := ih hnodup.2 hrest
    rw [List.foldl_cons, List.length_cons]
    omega

end Delete

/-! ### Lucky positions -/

/-- `chainActive[height]`, for the active chain as the list of its blocks from the genesis block on. -/
def chainAt (chain : List Block) (height : Int) : Option Block :=
  if height < 0 then none else chain[height.toNat]?

/-- `sscanf` of `%x` on the four characters that start `4 * k + seed` characters before position 63. -/
def luckyData (digits : List Nat) (seed : Int) (k : Nat) : Nat :=
  ((digits.drop (63 - seed - 4 * k).toNat).take 4).foldl (fun value digit => 16 * value + digit) 0

/-- The remainder of the seed, as the `int` that `getLuckyIndex` takes. -/
def seedResidue (seed : BitVec 32) : Int := seed.toInt.tmod 24

/-- The seeds for which `getLuckyIndex` stays inside the digits of the hash and the zero byte after them. -/
def SeedInRange (seed : BitVec 32) : Prop := -2 ≤ seedResidue seed

instance : DecidablePred SeedInRange := fun _ => inferInstanceAs (Decidable (_ ≤ _))

def luckyIndices (digits : List Nat) (seed : Int) (size : Nat) : List Nat :=
  if size > 5 then [1, 2, 3, 4, 5].map fun k => luckyData digits seed k % (size - 5) else []

/-- `getLuckyIndex`. It reads the size of the global pool. -/
def getLuckyIndex (hashing : Hashing) (chain : List Block) (size height : Nat) (seed : BitVec 32) :
    Except Fault (List Nat) :=
  match chainAt chain (height - TICKETPOOL_HEIGHT_LATENCY) with
  | none => .error .undefined
  | some block =>
    if SeedInRange seed then
      .ok (luckyIndices (hashing.blockHash block.toBlockHeader).getHex (seedResidue seed) size)
    else .error .undefined

/-- `getLuckyIndex` followed by the draws from a copy of the global pool. -/
def luckyTickets (hashing : Hashing) (chain : List Block) (pool : TicketSet) (height : Nat)
    (seed : BitVec 32) :
    Except Fault (List Ticket) := do
  let indices ← getLuckyIndex hashing chain pool.size height seed
  pool.drawTickets indices

section Lucky

variable {hashing : Hashing} {chain : List Block} {pool : TicketSet} {height : Nat} {seed : BitVec 32}

theorem getLuckyIndex_eq_ok_iff {size : Nat} {indices : List Nat} :
    getLuckyIndex hashing chain size height seed = .ok indices ↔
      SeedInRange seed ∧ ∃ block, chainAt chain (height - TICKETPOOL_HEIGHT_LATENCY) = some block ∧
        indices = luckyIndices (hashing.blockHash block.toBlockHeader).getHex (seedResidue seed)
          size := by
  rw [getLuckyIndex]
  cases chainAt chain (height - TICKETPOOL_HEIGHT_LATENCY) with
  | none => simp
  | some block =>
    by_cases hseed : SeedInRange seed
    · simp [hseed, eq_comm]
    · simp [hseed]

theorem length_luckyIndices (digits : List Nat) (seed : Int) (size : Nat) :
    (luckyIndices digits seed size).length = if size > 5 then 5 else 0 := by
  rw [luckyIndices]
  split <;> rfl

theorem luckyIndices_room (digits : List Nat) (seed : Int) (size : Nat) :
    ∀ i ∈ luckyIndices digits seed size, i + (luckyIndices digits seed size).length ≤ size := by
  intro i hi
  rw [luckyIndices] at hi ⊢
  split at hi
  case isTrue hsize =>
    obtain ⟨k, -, rfl⟩ := List.mem_map.mp hi
    rw [if_pos hsize]
    have hlt : luckyData digits seed k % (size - 5) < size - 5 := Nat.mod_lt _ (by omega)
    simp only [List.map_cons, List.map_nil, List.length_cons, List.length_nil]
    omega
  case isFalse => simp at hi

theorem exists_drawTickets (digits : List Nat) (seed : Int) (pool : TicketSet) :
    ∃ tickets, pool.drawTickets (luckyIndices digits seed pool.size) = .ok tickets := by
  simp only [TicketSet.drawTickets_eq_ok_iff]
  refine Draw.exists_draw ?_
  rw [KeyedSet.length_byKey]
  exact luckyIndices_room digits seed pool.size

theorem luckyTickets_eq_ok_iff {anchor : Block} {tickets : List Ticket}
    (hanchor : chainAt chain (height - TICKETPOOL_HEIGHT_LATENCY) = some anchor) :
    luckyTickets hashing chain pool height seed = .ok tickets ↔
      SeedInRange seed ∧ Draw.draw pool.byKey
        (luckyIndices (hashing.blockHash anchor.toBlockHeader).getHex (seedResidue seed)
          pool.size) = some tickets := by
  simp [luckyTickets, Except.bind_eq_ok_iff, getLuckyIndex_eq_ok_iff, hanchor,
    TicketSet.drawTickets_eq_ok_iff]

theorem draw_of_luckyTickets {tickets : List Ticket}
    (hlucky : luckyTickets hashing chain pool height seed = .ok tickets) :
    ∃ indices, Draw.draw pool.byKey indices = some tickets := by
  simp only [luckyTickets, Except.bind_eq_ok_iff, TicketSet.drawTickets_eq_ok_iff] at hlucky
  obtain ⟨indices, -, hdraw⟩ := hlucky
  exact ⟨indices, hdraw⟩

theorem nodup_luckyTickets {tickets : List Ticket}
    (hlucky : luckyTickets hashing chain pool height seed = .ok tickets) :
    tickets.Nodup := by
  obtain ⟨_, hdraw⟩ := draw_of_luckyTickets hlucky
  exact Draw.nodup_of_draw (KeyedSet.nodup_byKey _) hdraw

theorem mem_of_luckyTickets {tickets : List Ticket}
    (hlucky : luckyTickets hashing chain pool height seed = .ok tickets) {t : Ticket}
    (ht : t ∈ tickets) : t ∈ pool := by
  obtain ⟨_, hdraw⟩ := draw_of_luckyTickets hlucky
  exact KeyedSet.mem_byKey.mp ((Draw.draw_subperm hdraw).subset ht)

theorem length_luckyTickets {tickets : List Ticket}
    (hlucky : luckyTickets hashing chain pool height seed = .ok tickets) :
    tickets.length = if pool.size > 5 then 5 else 0 := by
  simp only [luckyTickets, Except.bind_eq_ok_iff, getLuckyIndex_eq_ok_iff,
    TicketSet.drawTickets_eq_ok_iff] at hlucky
  obtain ⟨indices, ⟨-, block, -, rfl⟩, hdraw⟩ := hlucky
  rw [Draw.length_of_draw hdraw, length_luckyIndices]

theorem exists_luckyTickets_iff (hashing : Hashing) (pool : TicketSet) :
    (∃ tickets, luckyTickets hashing chain pool height seed = .ok tickets) ↔
      SeedInRange seed ∧ ∃ block, chainAt chain (height - TICKETPOOL_HEIGHT_LATENCY) = some block := by
  simp only [luckyTickets, Except.bind_eq_ok_iff, getLuckyIndex_eq_ok_iff]
  constructor
  · rintro ⟨tickets, indices, ⟨hseed, block, hblock, -⟩, -⟩
    exact ⟨hseed, block, hblock⟩
  · rintro ⟨hseed, block, hblock⟩
    obtain ⟨tickets, hdraw⟩ :=
      exists_drawTickets (hashing.blockHash block.toBlockHeader).getHex (seedResidue seed) pool
    exact ⟨tickets, _, ⟨hseed, block, hblock, rfl⟩, hdraw⟩

/-- The five draws from a pool of more than five tickets take five different ones, and deleting them takes exactly these out. -/
theorem five_draws {indices : List Nat} (hsize : 5 < pool.size)
    (hindices : getLuckyIndex hashing chain pool.size height seed = .ok indices) :
    ∃ tickets, pool.drawTickets indices = .ok tickets ∧ tickets.length = 5 ∧ tickets.Nodup ∧
      (∀ t ∈ tickets, t ∈ pool) ∧
      (tickets.foldl TicketSet.ticketDel pool).size + 5 = pool.size ∧
      ∀ t, t ∈ tickets.foldl TicketSet.ticketDel pool ↔ t ∈ pool ∧ t ∉ tickets := by
  obtain ⟨-, block, -, rfl⟩ := getLuckyIndex_eq_ok_iff.mp hindices
  obtain ⟨tickets, hdraw⟩ :=
    exists_drawTickets (hashing.blockHash block.toBlockHeader).getHex (seedResidue seed) pool
  have hlucky : luckyTickets hashing chain pool height seed = .ok tickets := by
    rw [luckyTickets, hindices]
    exact hdraw
  have hlength : tickets.length = 5 := (length_luckyTickets hlucky).trans (if_pos hsize)
  have hnodup := nodup_luckyTickets hlucky
  have hsub : ∀ t ∈ tickets, t ∈ pool := fun t ht => mem_of_luckyTickets hlucky ht
  refine ⟨tickets, hdraw, hlength, hnodup, hsub, ?_, fun t => mem_foldl_ticketDel_of_subset hsub⟩
  rw [← size_foldl_ticketDel hnodup hsub, hlength]

end Lucky

namespace SevenTickets

def hashing : Hashing where
  txHash _ := Uint256.ofNat 0
  blockHash _ := Uint256.ofNat 0x5000300040002000100
  merkleRoot _ := (Uint256.ofNat 0, false)

def pool : TicketSet :=
  ((List.range 7).map fun n => ⟨1, Uint256.ofNat n, 0, .noDestination⟩).foldl TicketSet.ticketPush
    KeyedSet.empty

def chain : List Block := [{ (default : BlockHeader) with vtx := [] }]

end SevenTickets

theorem five_draws_seven :
    getLuckyIndex SevenTickets.hashing SevenTickets.chain 7 TICKETPOOL_HEIGHT_LATENCY 1 =
      .ok [1, 0, 0, 1, 1] ∧
      ∃ tickets, SevenTickets.pool.drawTickets [1, 0, 0, 1, 1] = .ok tickets ∧ tickets.length = 5 ∧
        tickets.Nodup ∧
        (∀ t ∈ tickets, t ∈ SevenTickets.pool) ∧
        (tickets.foldl TicketSet.ticketDel SevenTickets.pool).size + 5 = 7 ∧
        ∀ t, t ∈ tickets.foldl TicketSet.ticketDel SevenTickets.pool ↔ t ∈ SevenTickets.pool ∧
          t ∉ tickets := by
  have hsize : SevenTickets.pool.size = 7 := by decide +kernel
  have hindices :
      getLuckyIndex SevenTickets.hashing SevenTickets.chain 7 TICKETPOOL_HEIGHT_LATENCY 1 =
        .ok [1, 0, 0, 1, 1] := by
    decide +kernel
  refine ⟨hindices, ?_⟩
  rw [← hsize] at hindices ⊢
  exact five_draws (by rw [hsize]; decide) hindices

/-! ### The characters that are read -/

/-- The positions of the four characters that `getLuckyIndex` copies from the hex string for its `k`th number. -/
def luckyWindow (seed : BitVec 32) (k : Nat) : List Int :=
  (List.range 4).map fun i : Nat => 63 - seedResidue seed - 4 * k + i

theorem mem_luckyWindow {seed : BitVec 32} {k : Nat} {p : Int} :
    p ∈ luckyWindow seed k ↔ 63 - seedResidue seed - 4 * k ≤ p ∧ p < 67 - seedResidue seed - 4 * k := by
  rw [luckyWindow, List.mem_map]
  constructor
  · intro h
    obtain ⟨i, hi, rfl⟩ := h
    have hi := List.mem_range.mp hi
    omega
  · intro h
    refine ⟨(p - (63 - seedResidue seed - 4 * k)).toNat, List.mem_range.mpr ?_, ?_⟩
    · omega
    · omega

/-- The five numbers come from characters of the string alone, no character is used twice, and the positions are those of the remainder of the seed. -/
structure ReadsHash (digits : List Nat) (seed : BitVec 32) : Prop where
  inside : ∀ k ∈ [1, 2, 3, 4, 5], ∀ p ∈ luckyWindow seed k, 0 ≤ p ∧ p < digits.length
  disjoint : [1, 2, 3, 4, 5].Pairwise fun k l => (luckyWindow seed k).Disjoint (luckyWindow seed l)
  residue : ∀ k ∈ [1, 2, 3, 4, 5], luckyWindow seed k = luckyWindow (seed % 24) k
  value : ∀ k ∈ [1, 2, 3, 4, 5], luckyData digits (seedResidue seed) k =
    ((luckyWindow seed k).map fun p => digits.getD p.toNat 0).foldl
      (fun value digit => 16 * value + digit) 0

theorem seedResidue_of_lt {seed : BitVec 32} (h : seed.toNat < 2 ^ 31) :
    seedResidue seed = (seed.toNat % 24 : Nat) := by
  rw [seedResidue, BitVec.toInt_eq_toNat_of_lt (by omega)]
  rfl

theorem toNat_umod_seed (seed : BitVec 32) : (seed % 24).toNat = seed.toNat % 24 := by
  rw [BitVec.toNat_umod]
  rfl

theorem seedResidue_mod (seed : BitVec 32) : seedResidue (seed % 24) = (seed.toNat % 24 : Nat) := by
  rw [seedResidue_of_lt (by rw [toNat_umod_seed]; omega), toNat_umod_seed, Nat.mod_mod]

theorem seedResidue_nonpos {seed : BitVec 32} (h : 2 ^ 31 ≤ seed.toNat) :
    seedResidue seed = -((2 ^ 32 - seed.toNat) % 24 : Nat) := by
  have hlt := seed.isLt
  have hint : seed.toInt = -((2 ^ 32 - seed.toNat : Nat) : Int) := by
    rw [BitVec.toInt_eq_toNat_cond, if_neg (by omega)]
    omega
  rw [seedResidue, hint, Int.neg_tmod]
  rfl

theorem luckyWindow_eq_iff {seed seed' : BitVec 32} {k : Nat} :
    luckyWindow seed k = luckyWindow seed' k ↔ seedResidue seed = seedResidue seed' := by
  constructor
  · intro h
    have hhead := congrArg (fun window => window.headD 0) h
    change 63 - seedResidue seed - 4 * (k : Int) + ((0 : Nat) : Int) =
      63 - seedResidue seed' - 4 * (k : Int) + ((0 : Nat) : Int) at hhead
    omega
  · intro h
    rw [luckyWindow, h]
    rfl

theorem luckyData_eq_window {digits : List Nat} {seed : BitVec 32} {k : Nat}
    (hinside : ∀ p ∈ luckyWindow seed k, 0 ≤ p ∧ p < digits.length) :
    luckyData digits (seedResidue seed) k =
      ((luckyWindow seed k).map fun p => digits.getD p.toNat 0).foldl
      (fun value digit => 16 * value + digit) 0 := by
  have hfirst := hinside (63 - seedResidue seed - 4 * k) (mem_luckyWindow.mpr ⟨le_rfl, by omega⟩)
  have hlast := hinside (66 - seedResidue seed - 4 * k) (mem_luckyWindow.mpr ⟨by omega, by omega⟩)
  obtain ⟨start, hstart⟩ := Int.eq_ofNat_of_zero_le hfirst.1
  have hchars : (digits.drop start).take 4 = (luckyWindow seed k).map fun p => digits.getD p.toNat 0 := by
    apply List.ext_getElem
    · rw [List.length_take, List.length_drop, List.length_map, luckyWindow, List.length_map,
        List.length_range]
      omega
    · intro i hi _
      rw [List.length_take] at hi
      simp only [luckyWindow, List.getElem_take, List.getElem_drop, List.getElem_map, List.getElem_range]
      have hpos : (63 - seedResidue seed - 4 * (k : Int) + (i : Nat)).toNat = start + i := by
        rw [hstart]
        omega
      rw [hpos, List.getD_eq_getElem _ _ (by omega)]
  rw [luckyData, hstart, Int.toNat_natCast, hchars]

/-- `getLuckyIndex` takes the unsigned seed of the header as an `int`: it reads the hash alone exactly for the seeds below `2 ^ 31`. -/
theorem readsHash_iff (hash : Uint256) (seed : BitVec 32) : ReadsHash hash.getHex seed ↔
    seed.toNat < 2 ^ 31 := by
  constructor
  · intro h
    by_contra hhigh
    have hlt := seed.isLt
    have heq := luckyWindow_eq_iff.mp (h.residue 1 (by decide))
    rw [seedResidue_mod, seedResidue_nonpos (by omega)] at heq
    omega
  · intro h
    have hresidue := seedResidue_of_lt h
    have hmod : seed.toNat % 24 < 24 := Nat.mod_lt _ (by decide)
    have hinside : ∀ k ∈ [1, 2, 3, 4, 5], ∀ p ∈ luckyWindow seed k, 0 ≤ p ∧ p < hash.getHex.length := by
      intro k hk p hp
      have hk : 1 ≤ k ∧ k ≤ 5 := by
        simp only [List.mem_cons, List.not_mem_nil, or_false] at hk
        omega
      rw [mem_luckyWindow, hresidue] at hp
      rw [Uint256.length_getHex]
      omega
    refine ⟨hinside, ?_, ?_, fun k hk => luckyData_eq_window (hinside k hk)⟩
    · apply List.Pairwise.imp (R := (· < ·)) ?_ (by decide)
      intro k l hkl p hk hl
      rw [mem_luckyWindow] at hk hl
      omega
    · intro k _
      rw [luckyWindow_eq_iff, seedResidue_mod, hresidue]

/-- With this seed the first number is read from position 67 on. -/
theorem not_readsHash : ¬ ReadsHash (Uint256.ofNat 0).getHex 0x80000000 := by
  intro h
  exact absurd (h.inside 1 (by decide) 67 (by decide)) (by decide)

end TscPow
