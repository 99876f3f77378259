import TscPow.Ticket.Latency

/-!
# The pool across tip changes

`UpdateTip` calls `updateTicketpool` after every change of the active tip, for a connected block and, on a disconnection, for the block below it. Connections keep the pool equal to the one `LoadTicketpool` would build. A disconnection leaves the pool as it is, or deletes tickets of the new tip's height: what the update of the old tip did is not undone (the source has a `todo` there). The pool stays right exactly when that update had changed no ticket.
-/

namespace TscPow

/-- The active chain, from its genesis block upwards, and the global ticket pool. -/
structure TipState where
  genesis : Block
  above : List Block
  pool : TicketPool
deriving DecidableEq

namespace TipState

def chain (s : TipState) : List Block := s.genesis :: s.above

def height (s : TipState) : Nat := s.above.length

/-- The last lines of `UpdateTip`, once the tip is set and the pool is loaded. -/
def updateTip (env : TicketEnv) (s : TipState) : Except Fault TipState :=
  if s.height > TICKETPOOL_HEIGHT_LATENCY then do
    let pool ← updateTicketpool env s.chain s.pool s.height
    return { s with pool }
  else .ok s

def extend (s : TipState) (block : Block) : TipState := { s with above := s.above ++ [block] }

def retract (s : TipState) : TipState := { s with above := s.above.dropLast }

@[simp] theorem height_extend (s : TipState) (block : Block) :
    (s.extend block).height = s.height + 1 := by
  simp [height, extend]

@[simp] theorem height_retract (s : TipState) : s.retract.height = s.height - 1 := by
  simp [height, retract]

@[simp] theorem pool_extend (s : TipState) (block : Block) : (s.extend block).pool = s.pool := rfl

@[simp] theorem pool_retract (s : TipState) : s.retract.pool = s.pool := rfl

/-- `ConnectTip` extends the chain; `DisconnectTip` goes back to `pprev`, which the genesis block lacks. -/
inductive Move where
  | connect (block : Block)
  | disconnect

def move (env : TicketEnv) (s : TipState) : Move → Except Fault TipState
  | .connect block => updateTip env (s.extend block)
  | .disconnect => if s.above = [] then .error .undefined else updateTip env s.retract

/-- The global pool holds the tickets that `LoadTicketpool` would find on the active chain. -/
def InSync (env : TicketEnv) (s : TipState) : Prop :=
  ∃ pool, loadTicketpool env s.chain s.height = .ok pool ∧ ∀ t, t ∈ pool.ticket_pool ↔
    t ∈ s.pool.ticket_pool

/-- The tip may be disconnected: the pool's updates do not reach up to the block below, and the update for the tip had left the set of tickets as it was. -/
def TipIdle (env : TicketEnv) (s : TipState) : Prop :=
  ∃ before after, loadTicketpool env s.chain (s.height - 1) = .ok before ∧
    loadTicketpool env s.chain s.height = .ok after ∧ ∀ t, t ∈ before.ticket_pool ↔ t ∈ after.ticket_pool

/-- The reorganisation stays above the blocks whose tickets the pool has. -/
def Shallow (s : TipState) : Prop := s.pool.load_height = 0 ∨ s.pool.load_height + 1 < s.height

def MoveAllowed (env : TicketEnv) (s : TipState) : Move → Prop
  | .connect _ => True
  | .disconnect => s.Shallow ∧ s.TipIdle env

def Step (env : TicketEnv) (s t : TipState) : Prop := ∃ m, s.MoveAllowed env m ∧ s.move env m = .ok t

/-! ### Updates that change nothing -/

section

variable {env : TicketEnv} {blocks : List Block} {pool pool' : TicketPool} {i h k : Nat} {s t : TipState}

theorem updateTicketpool_of_done (hdone : i ≤ pool.load_height + TICKETPOOL_HEIGHT_LATENCY)
    (hi : pool.load_height < i) :
    updateTicketpool env blocks pool i = .ok pool := by
  rw [updateTicketpool, updateBranches, if_pos (by omega), if_neg (by omega)]

theorem eq_of_update_of_load_height_eq (hupdate : updateTicketpool env blocks pool i = .ok pool')
    (heq : pool'.load_height = pool.load_height) (hi : pool.load_height < i) : pool' = pool := by
  rw [updateTicketpool, updateBranches] at hupdate
  split at hupdate
  · rw [if_neg (by omega)] at hupdate
    exact (Except.ok.inj hupdate).symm
  · split at hupdate
    · cases hupdate
    · split at hupdate
      · obtain ⟨tickets, -, hpool⟩ := Except.bind_eq_ok_iff.mp hupdate
        cases hpool
        dsimp only at heq
        omega
      · exact (Except.ok.inj hupdate).symm

theorem loadTicketpool_of_covered (hload : loadTicketpool env blocks h = .ok pool) (hk : k ≤ h)
    (hcover : pool.load_height + TICKETPOOL_HEIGHT_LATENCY ≤ k) :
    loadTicketpool env blocks k = .ok pool := by
  induction h with
  | zero =>
    obtain rfl : k = 0 := by omega
    exact hload
  | succ h ih =>
    rcases Nat.lt_or_ge h k with hlt | hge
    · obtain rfl : k = h + 1 := by omega
      exact hload
    · rw [loadTicketpool_succ, Except.bind_eq_ok_iff] at hload
      obtain ⟨before, hbefore, hupdate⟩ := hload
      have hle := load_height_le hbefore
      obtain rfl : pool = before := by
        rcases load_height_of_update hupdate with heq | ⟨-, heq⟩
        · exact eq_of_update_of_load_height_eq hupdate heq (by omega)
        · omega
      exact ih hbefore hge

theorem loadTicketpool_below_latency (hload : loadTicketpool env blocks h = .ok pool) (hle : h ≤ k)
    (hk : k ≤ TICKETPOOL_HEIGHT_LATENCY) : loadTicketpool env blocks k = .ok pool := by
  induction k, hle using Nat.le_induction with
  | base => exact hload
  | succ k hle ih =>
    have hpool := ih (by omega)
    have := load_height_le hpool
    rw [loadTicketpool_succ, hpool]
    exact updateTicketpool_of_le_latency hk (by omega)

/-! ### What the pool tracks -/

/-- The highest height whose update the pool reflects. -/
def horizon (s : TipState) : Nat := max s.height (s.pool.load_height + TICKETPOOL_HEIGHT_LATENCY)

/-- The pool is the one loaded for the horizon, and no update between the tip and the horizon changed its tickets. -/
structure Tracked (env : TicketEnv) (s : TipState) : Prop where
  load_le : s.pool.load_height ≤ s.height
  loaded : loadTicketpool env s.chain s.horizon = .ok s.pool
  same : ∀ k, s.height ≤ k → k ≤ s.horizon →
    ∃ pool, loadTicketpool env s.chain k = .ok pool ∧ ∀ t, t ∈ pool.ticket_pool ↔ t ∈ s.pool.ticket_pool

theorem Tracked.inSync (htracked : s.Tracked env) : s.InSync env :=
  htracked.same s.height le_rfl (Nat.le_max_left _ _)

theorem tracked_of_load (hload : loadTicketpool env s.chain s.height = .ok s.pool) : s.Tracked env := by
  have hle := load_height_le hload
  have hall : ∀ k, s.height ≤ k → k ≤ s.horizon → loadTicketpool env s.chain k = .ok s.pool := by
    intro k hk hkh
    rw [horizon] at hkh
    rcases Nat.eq_or_lt_of_le hk with rfl | hlt
    · exact hload
    · exact loadTicketpool_below_latency hload hk (by omega)
  exact ⟨by omega, hall _ (Nat.le_max_left _ _) le_rfl,
    fun k hk hkh => ⟨s.pool, hall k hk hkh, fun _ => Iff.rfl⟩⟩

theorem Tracked.loaded_of_due (htracked : s.Tracked env)
    (hdue : s.pool.load_height + TICKETPOOL_HEIGHT_LATENCY ≤ s.height) :
    loadTicketpool env s.chain s.height = .ok s.pool := by
  have := htracked.loaded
  rwa [horizon, Nat.max_eq_left hdue] at this

theorem updateTip_eq (hlt : s.pool.load_height < s.height) :
    updateTip env s = updateTicketpool env s.chain s.pool s.height >>= fun pool =>
      pure { s with pool } := by
  rw [updateTip]
  split
  · rfl
  · rw [updateTicketpool_of_le_latency (by omega) hlt]
    rfl

/-! ### Connections -/

theorem getElem?_chain_extend (s : TipState) (block : Block) {j : Nat} (hj : j ≤ s.height) :
    (s.extend block).chain[j]? = s.chain[j]? := by
  rw [chain, chain, extend, ← List.cons_append, List.getElem?_append_left (Nat.lt_succ_of_le hj)]

theorem loadTicketpool_extend (s : TipState) (block : Block)
    (hk : k ≤ s.height + TICKETPOOL_HEIGHT_LATENCY) :
    loadTicketpool env (s.extend block).chain k = loadTicketpool env s.chain k :=
  loadTicketpool_congr fun _ hj => getElem?_chain_extend s block (by omega)

theorem move_connect_eq (s : TipState) (block : Block)
    (hload : loadTicketpool env s.chain s.height = .ok s.pool) :
    s.move env (.connect block) =
      loadTicketpool env (s.extend block).chain (s.height + 1) >>= fun pool =>
        pure { s.extend block with pool } := by
  have hle := load_height_le hload
  rw [move, updateTip_eq (by rw [pool_extend, height_extend]; omega), loadTicketpool_succ,
    loadTicketpool_extend s block (by omega),
    hload, height_extend, pool_extend]
  rfl

theorem loaded_connect {block : Block} (hload : loadTicketpool env s.chain s.height = .ok s.pool)
    (hmove : s.move env (.connect block) = .ok t) : loadTicketpool env t.chain t.height = .ok t.pool := by
  rw [move_connect_eq s block hload, Except.bind_eq_ok_iff] at hmove
  obtain ⟨pool, hpool, ht⟩ := hmove
  cases ht
  change loadTicketpool env _ (s.extend block).height = _
  rw [height_extend]
  exact hpool

theorem Tracked.extend_of_covered (htracked : s.Tracked env) (block : Block)
    (hcovered : s.height < s.pool.load_height + TICKETPOOL_HEIGHT_LATENCY) :
    (s.extend block).Tracked env := by
  have hle := htracked.load_le
  have hhorizon : (s.extend block).horizon = s.horizon := by
    rw [horizon, horizon, height_extend, pool_extend]
    omega
  have hbound : s.horizon ≤ s.height + TICKETPOOL_HEIGHT_LATENCY := by
    rw [horizon]
    omega
  refine ⟨by rw [pool_extend, height_extend]; omega, ?_, ?_⟩
  · rw [hhorizon, loadTicketpool_extend s block hbound]
    exact htracked.loaded
  · intro k hk hkh
    rw [height_extend] at hk
    rw [hhorizon] at hkh
    rw [loadTicketpool_extend s block (by omega)]
    exact htracked.same k (by omega) hkh

theorem Tracked.connect {block : Block} (htracked : s.Tracked env)
    (hmove : s.move env (.connect block) = .ok t) :
    t.Tracked env := by
  have hle := htracked.load_le
  rw [move, updateTip_eq (by rw [pool_extend, height_extend]; omega), height_extend, pool_extend,
    Except.bind_eq_ok_iff] at hmove
  obtain ⟨pool, hupdate, ht⟩ := hmove
  rcases Nat.lt_or_ge s.height (s.pool.load_height + TICKETPOOL_HEIGHT_LATENCY) with hcovered | hdue
  · rw [updateTicketpool_of_done (by omega) (by omega)] at hupdate
    obtain rfl : s.pool = pool := Except.ok.inj hupdate
    obtain rfl : s.extend block = t := Except.ok.inj ht
    exact htracked.extend_of_covered block hcovered
  · -- the update is the one that loading makes at this height
    obtain rfl : { s.extend block with pool } = t := Except.ok.inj ht
    refine tracked_of_load ?_
    change loadTicketpool env (s.extend block).chain (s.extend block).height = .ok pool
    rw [height_extend, loadTicketpool_succ, loadTicketpool_extend s block (by omega),
      htracked.loaded_of_due hdue]
    exact hupdate

/-! ### Disconnections -/

theorem getElem?_chain_retract (s : TipState) {j : Nat} (hj : j ≤ s.height - 1) :
    s.retract.chain[j]? = s.chain[j]? := by
  cases j with
  | zero => rfl
  | succ j =>
    rw [height] at hj
    rw [chain, chain, retract, List.getElem?_cons_succ, List.getElem?_cons_succ,
      List.getElem?_dropLast, if_pos (by omega)]

theorem loadTicketpool_retract (s : TipState) (hk : k ≤ s.height - 1 + TICKETPOOL_HEIGHT_LATENCY) :
    loadTicketpool env s.retract.chain k = loadTicketpool env s.chain k :=
  loadTicketpool_congr fun _ hj => getElem?_chain_retract s (by omega)

theorem Tracked.updateTicketpool_retract (htracked : s.Tracked env)
    (hlt : s.pool.load_height + 1 < s.height) :
    updateTicketpool env s.retract.chain s.pool (s.height - 1) = .ok s.pool := by
  rcases Nat.lt_or_ge (s.pool.load_height + TICKETPOOL_HEIGHT_LATENCY) (s.height - 1) with hlag | hdone
  · -- the blocks above the loaded height could not be read; they cannot be read now either
    have hloaded := htracked.loaded_of_due (by omega)
    have hbelow := loadTicketpool_of_covered hloaded (k := s.height - 2) (by omega) (by omega)
    have htip := loadTicketpool_of_covered hloaded (k := s.height - 2 + 1) (by omega) (by omega)
    rw [loadTicketpool_succ, hbelow, show s.height - 2 + 1 = s.height - 1 by omega] at htip
    rw [updateTicketpool_congr fun j hj => getElem?_chain_retract s (by omega)]
    exact htip
  · exact updateTicketpool_of_done hdone (by omega)

theorem Tracked.disconnect_eq (htracked : s.Tracked env) (hshallow : s.Shallow) (habove : s.above ≠ []) :
    s.move env .disconnect = .ok s.retract := by
  rw [move, if_neg habove, updateTip, height_retract, pool_retract]
  split
  case isTrue =>
    have hlt : s.pool.load_height + 1 < s.height := by
      rcases hshallow with hzero | hlt <;> omega
    rw [htracked.updateTicketpool_retract hlt]
    rfl
  case isFalse => rfl

theorem Tracked.retract (htracked : s.Tracked env) (hshallow : s.Shallow) (habove : s.above ≠ [])
    (hidle : s.TipIdle env) : s.retract.Tracked env := by
  have hpos : 0 < s.height := List.length_pos_of_ne_nil habove
  have hload : s.pool.load_height ≤ s.height - 1 := by
    rcases hshallow with hzero | hlt <;> omega
  have hhorizon :
      s.retract.horizon = max (s.height - 1) (s.pool.load_height + TICKETPOOL_HEIGHT_LATENCY) := by
    rw [horizon, height_retract, pool_retract]
  have hle : s.retract.horizon ≤ s.horizon := by
    rw [hhorizon, horizon]
    omega
  have hbound : s.retract.horizon ≤ s.height - 1 + TICKETPOOL_HEIGHT_LATENCY := by omega
  refine ⟨by rw [height_retract, pool_retract]; exact hload, ?_, ?_⟩
  · rw [loadTicketpool_retract s hbound, pool_retract]
    exact loadTicketpool_of_covered htracked.loaded hle (by omega)
  · intro k hk hkh
    rw [height_retract] at hk
    rw [loadTicketpool_retract s (hkh.trans hbound)]
    rcases Nat.lt_or_ge k s.height with hlt | hge
    · obtain rfl : k = s.height - 1 := by omega
      obtain ⟨before, after, hbefore, hafter, hmem⟩ := hidle
      obtain ⟨pool, hpool, hsame⟩ := htracked.inSync
      obtain rfl : pool = after := Except.ok.inj (hpool.symm.trans hafter)
      exact ⟨before, hbefore, fun t => (hmem t).trans (hsame t)⟩
    · exact htracked.same k hge (hkh.trans hle)

/-- After a shallow disconnection the pool is right exactly when the update for the old tip had changed no ticket. -/
theorem Tracked.inSync_retract_iff (htracked : s.Tracked env) : s.retract.InSync env ↔ s.TipIdle env := by
  obtain ⟨after, hafter, hsame⟩ := htracked.inSync
  rw [InSync, TipIdle, height_retract, loadTicketpool_retract s (by omega), pool_retract]
  constructor
  · rintro ⟨before, hbefore, hmem⟩
    exact ⟨before, after, hbefore, hafter, fun t => (hmem t).trans (hsame t).symm⟩
  · rintro ⟨before, after', hbefore, hafter', hmem⟩
    obtain rfl : after = after' := Except.ok.inj (hafter.symm.trans hafter')
    exact ⟨before, hbefore, fun t => (hmem t).trans (hsame t)⟩

/-! ### Runs -/

theorem Tracked.step (htracked : s.Tracked env) (hstep : s.Step env t) : t.Tracked env := by
  obtain ⟨m, hallowed, hmove⟩ := hstep
  cases m with
  | connect block => exact htracked.connect hmove
  | disconnect =>
    obtain ⟨hshallow, hidle⟩ := hallowed
    have habove : s.above ≠ [] := fun hnil => by simp [move, hnil] at hmove
    obtain rfl : s.retract = t :=
      Except.ok.inj ((htracked.disconnect_eq hshallow habove).symm.trans hmove)
    exact htracked.retract hshallow habove hidle

/-- In every run of tip changes whose disconnections are shallow and meet an idle tip, the pool holds what loading would find. From every state of such a run a shallow disconnection keeps that only if the tip is idle. -/
theorem inSync_of_steps {s₀ : TipState} (hload : loadTicketpool env s₀.chain s₀.height = .ok s₀.pool)
    (hrun : Relation.ReflTransGen (Step env) s₀ s) :
    s.InSync env ∧
      (s.Shallow → s.above ≠ [] → ∃ t, s.move env .disconnect = .ok t ∧
        (t.InSync env ↔ s.TipIdle env)) := by
  have htracked : s.Tracked env := by
    induction hrun with
    | refl => exact tracked_of_load hload
    | tail _ hstep ih => exact ih.step hstep
  exact ⟨htracked.inSync, fun hshallow habove =>
    ⟨s.retract, htracked.disconnect_eq hshallow habove, htracked.inSync_retract_iff⟩⟩

end

end TipState

/-! ### Two runs on sample chains -/

namespace TicketSample

def tip (height : Nat) : TipState where
  genesis := block 0 0 []
  above := (chain 2 height).tail
  pool := (loadTicketpool env (chain 2 height) height).toOption.getD TicketPool.new

def otherBranch : List Block := (List.range 66).map fun n => block (500 + n) 0 []

def reorganisation : List TipState.Move := List.replicate 65 .disconnect ++ otherBranch.map .connect

end TicketSample

open TicketSample in
theorem inSync_of_steps_ticketSample :
    loadTicketpool env (tip 65).chain (tip 65).height = .ok (tip 65).pool ∧
      Relation.ReflTransGen (TipState.Step env) (tip 65) (tip 66).retract ∧
        (tip 66).retract.InSync env := by
  have hload : loadTicketpool env (tip 65).chain (tip 65).height = .ok (tip 65).pool := by decide +kernel
  have hconnect : (tip 65).Step env (tip 66) := ⟨.connect (block 66 0 []), trivial, by decide +kernel⟩
  have hidle : (tip 66).TipIdle env := by
    refine ⟨(tip 65).pool, (tip 66).pool, by decide +kernel, by decide +kernel, fun t => ?_⟩
    rw [show (tip 65).pool.ticket_pool = (tip 66).pool.ticket_pool by decide +kernel]
  have hdisconnect : (tip 66).Step env (tip 66).retract :=
    ⟨.disconnect, ⟨.inr (by decide +kernel), hidle⟩, by decide +kernel⟩
  have hrun := (Relation.ReflTransGen.single hconnect).tail hdisconnect
  exact ⟨hload, hrun, (TipState.inSync_of_steps hload hrun).1⟩

open TicketSample in
/-- After a reorganisation that replaces block one, its seven tickets are still in the pool. -/
theorem reorganisation_keeps_tickets :
    ∃ s, reorganisation.foldlM (TipState.move env) (tip 65) = .ok s ∧ s.above = otherBranch ∧
      s.pool.ticket_pool.size = 7 ∧ ¬ s.InSync env := by
  refine ⟨⟨block 0 0 [], otherBranch, ⟨(tip 65).pool.ticket_pool, 2⟩⟩, by decide +kernel, rfl,
    by decide +kernel, ?_⟩
  rintro ⟨pool, hload, hsame⟩
  have hempty : loadTicketpool env (block 0 0 [] :: otherBranch) 66 = .ok ⟨KeyedSet.empty, 2⟩ := by
    decide +kernel
  obtain rfl : ⟨KeyedSet.empty, 2⟩ = pool := Except.ok.inj (hempty.symm.trans hload)
  have hmem : (⟨1, Uint256.ofNat 0, TICKET_PRICE * COIN, .keyID 0⟩ : Ticket) ∈
      (tip 65).pool.ticket_pool.toList := by
    decide +kernel
  exact KeyedSet.not_mem_empty ((hsame _).mpr hmem)

end TscPow
