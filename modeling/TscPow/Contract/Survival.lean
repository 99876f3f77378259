import TscPow.Contract.Execute

/-!
# Contracts that outlive an execution

At the end of an execution the sender, the author and every plain target of a call are deleted, whatever they are by then. A contract survives if none of the addresses noted for deletion has code at that point. The sender and the author are noted without a look at their accounts, and the author is whatever the miner pays.
-/

namespace TscPow

namespace TscState

variable {env : EvmEnv} {b : Behaviour} {qtx : TscTransaction} {s t : TscState} {a : Address}

/-- Accounts are made only at addresses that have none and are not to be deleted. -/
def freshWatch : Watch := ⟨fun s a => s.account a = none ∧ a ∉ s.deleteAddresses, fun _ _ => True⟩

theorem NotedCodeless.charged (h : NotedCodeless (s.endow env qtx)) :
    NotedCodeless (s.charged env qtx) := by
  have hsub : NotedCodeless ((s.endow env qtx).subBalance qtx.sender (BitVec.ofNat 256 qtx.gasCost)) := by
    rw [subBalance]
    split
    · exact h
    · exact h.of_code (deleteAddresses_addBalance _ _ _) (code_addBalance rfl _ _)
  exact hsub.incNonce qtx.sender

theorem deleteAddresses_charged (env : EvmEnv) (qtx : TscTransaction) (s : TscState) :
    (s.charged env qtx).deleteAddresses = (s.endow env qtx).deleteAddresses := by
  rw [TscState.charged, deleteAddresses_incNonce, subBalance]
  split
  · rfl
  · exact deleteAddresses_addBalance _ _ _

theorem deleteAddresses_created (env : EvmEnv) (qtx : TscTransaction) (s : TscState) :
    (s.created env qtx).deleteAddresses = (s.endow env qtx).deleteAddresses := by
  rw [← deleteAddresses_charged]
  simp only [TscState.created]
  split
  · rw [deleteAddresses_incNonce, deleteAddresses_addBalance]
  · rw [deleteAddresses_addBalance]

theorem account_created_ne_none (env : EvmEnv) (qtx : TscTransaction) (s : TscState) :
    (s.created env qtx).account (env.createTscAddress qtx.hashWith qtx.nVout) ≠ none := by
  have hnew : (s.charged env qtx).newAddress = 0 := (logged_charged env qtx s).newAddress
  have hadd : ((s.charged env qtx).addBalance (env.createTscAddress qtx.hashWith qtx.nVout) 0).1.account
      (env.createTscAddress qtx.hashWith qtx.nVout) ≠ none := by
    rw [account_addBalance hnew, if_pos rfl]
    exact Option.some_ne_none _
  simp only [TscState.created]
  split
  · exact fun hnone => hadd ((Logged.incNonce _ _).account_eq_none hnone)
  · exact hadd

theorem mem_deleteAddresses_endow : a ∈ (s.endow env qtx).deleteAddresses ↔
    a ∈ qtx.sender :: env.author :: s.deleteAddresses := by
  simp only [endow, prepare, deleteAddresses_addBalance]

/-- The virtual machine logs what it does, none of the addresses it notes has code, and after an exception the accounts are those of the savepoint. -/
theorem logged_go (hnew : s.newAddress = 0) (hfresh : qtx.isCreation = true → qtx.Fresh env s)
    (hinit : (s.prepare env qtx).initialized env b qtx = true)
    (hruns : ((s.prepare env qtx).start env b qtx).runs = true)
    (halong : b.frame.Along env freshWatch ((s.prepare env qtx).start env b qtx).self
      ((s.prepare env qtx).start env b qtx).entered)
    (hnoted : NotedCodeless (s.endow env qtx)) :
    Logged (s.charged env qtx) (((s.prepare env qtx).start env b qtx).go env b qtx).state ∧
      NotedCodeless (((s.prepare env qtx).start env b qtx).go env b qtx).state ∧
        ((((s.prepare env qtx).start env b qtx).go env b qtx).excepted = true →
          Same (((s.prepare env qtx).start env b qtx).go env b qtx).state (s.charged env qtx)) := by
  have hrule : Frame.Rule env freshWatch fun s t => Logged s t ∧
      (NotedCodeless s → NotedCodeless t) := NotedCodeless.rule fun _ _ h => h
  have hzero : (s.charged env qtx).newAddress = 0 := (logged_charged env qtx s).newAddress
  cases hcreation : qtx.isCreation with
  | false =>
    rw [start_of_call hcreation hruns] at halong ⊢
    have henter := Logged.enterCall hzero qtx.sender qtx.receiveAddress (BitVec.ofNat 256 qtx.value)
    obtain ⟨hlogged, hkept⟩ := hrule.run b.frame (henter.newAddress.trans hzero) halong
    have hran := henter.trans hlogged
    have hcodeless := hkept (hnoted.charged.enterCall hzero)
    simp only [Started.go, hcreation]
    split
    case h_1 t halt hrun =>
      rw [hrun] at hran hcodeless
      exact ⟨hran, hcodeless, fun h => absurd h Bool.false_ne_true⟩
    case h_2 t hrun =>
      rw [hrun] at hran
      exact ⟨hran.rollback, hnoted.charged.rollback hran, fun _ => hran.same_rollback⟩
  | true =>
    have hnonce : (s.prepare env qtx).getNonce qtx.sender = 0 := by
      simp only [initialized, Bool.and_eq_true, beq_iff_eq] at hinit
      exact hinit.1.2
    have hfresh := hfresh hcreation
    have hne : env.createTscAddress qtx.hashWith qtx.nVout ≠ qtx.sender :=
      fun heq => hfresh.unnoted (heq ▸ List.mem_cons_self)
    have hnone := account_charged_eq_none env hnew hfresh.unused hne
    rw [start_of_create hcreation hnew hfresh hnonce] at halong ⊢
    have hcreated := logged_created env qtx s
    obtain ⟨hlogged, hkept⟩ := hrule.run b.frame (hcreated.newAddress.trans hzero) halong
    have hran := hcreated.trans hlogged
    have hcodeless := hkept (hnoted.charged.of_code
      ((deleteAddresses_created env qtx s).trans (deleteAddresses_charged env qtx s).symm)
        (code_created env qtx s))
    simp only [Started.go, hcreation, if_true]
    split
    case h_1 t halt hrun =>
      rw [hrun] at hran hcodeless hlogged
      have hsome : t.account (env.createTscAddress qtx.hashWith qtx.nVout) ≠ none :=
        fun ht => account_created_ne_none env qtx s (hlogged.account_eq_none ht)
      obtain ⟨account, ht⟩ := Option.ne_none_iff_exists'.mp hsome
      have hcode : t.code (env.createTscAddress qtx.hashWith qtx.nVout) = [] := by
        rw [hlogged.code (account_created_ne_none env qtx s), code_created, code_of_account_eq_none hnone]
      refine ⟨hran.setNewCode hnone ht (by simpa [TscState.code, ht] using hcode) halt.output,
        fun a ha => ?_,
        fun h => absurd h Bool.false_ne_true⟩
      -- the new contract was not noted before, and has had an account ever since
      have hne : a ≠ env.createTscAddress qtx.hashWith qtx.nVout := by
        rintro rfl
        rcases hlogged.unused _ ha with hin | hout
        · rw [deleteAddresses_created, mem_deleteAddresses_endow] at hin
          exact hfresh.unnoted hin
        · exact account_created_ne_none env qtx s hout
      rw [code_setNewCode, if_neg hne]
      exact hcodeless a ha
    case h_2 t hrun =>
      rw [hrun] at hran
      exact ⟨hran.rollback, hnoted.charged.rollback hran, fun _ => hran.same_rollback⟩

/-! ### From the machine to the trie -/

/-- Between executions nothing is cached and no address is reserved. -/
def Idle (s : TscState) : Prop := (∀ a, s.cache a = none) ∧ s.newAddress = 0

/-- The accounts are sound, and those of the trie still have their code. -/
def Grounded (s : TscState) : Prop :=
  Sound s ∧ ∀ a account stored, s.account a = some account → s.trie a = some stored →
    account.code = stored.code

theorem Idle.grounded (h : Idle s) : Grounded s := by
  have haccount : ∀ a account, s.account a = some account → ∃ stored, s.trie a = some stored ∧
      account = Account.ofStored stored := by
    intro a account ha
    rw [TscState.account, h.1 a, Option.none_or, Option.map_eq_some_iff] at ha
    obtain ⟨stored, hstored, rfl⟩ := ha
    exact ⟨stored, hstored, rfl⟩
  refine ⟨fun a account ha => ?_, fun a account stored ha hstored => ?_⟩
  · obtain ⟨stored, hstored, rfl⟩ := haccount a account ha
    exact ⟨rfl, fun _ => ⟨stored, hstored, fun _ => rfl⟩⟩
  · obtain ⟨stored', hstored', rfl⟩ := haccount a account ha
    rw [hstored, Option.some.injEq] at hstored'
    rw [hstored']
    rfl

theorem Grounded.logged (hs : Grounded s) (h : Logged s t) : Grounded t := by
  refine ⟨(h.sound hs.1).1, fun a account stored ha hstored => ?_⟩
  rw [h.trie] at hstored
  have hsome : s.account a ≠ none := by
    rw [TscState.account, hstored]
    cases s.cache a <;> simp
  obtain ⟨account', ha'⟩ := Option.ne_none_iff_exists'.mp hsome
  obtain ⟨account'', ht, -, hcode⟩ := h.keeps a account' ha'
  rw [ha, Option.some.injEq] at ht
  rw [ht, hcode]
  exact hs.2 a account' stored ha' hstored

theorem Grounded.endow (hs : Grounded s) (hnew : s.newAddress = 0) : Grounded (s.endow env qtx) := by
  have hadd := hs.logged (.addBalance hnew qtx.sender (BitVec.ofNat 256 (qtx.value + qtx.gasCost)))
  exact hadd

/-- There is a contract with this code at the address, for `commit` to write. -/
def Holds (s : TscState) (a : Address) (code : List Byte) : Prop :=
  ∃ account, s.account a = some account ∧ account.isAlive = true ∧ account.Tracks (s.trie a) ∧
    account.code = code ∧
    ∀ stored, s.trie a = some stored → stored.code = code

theorem Grounded.holds (hs : Grounded s) (hcode : s.code a ≠ []) : Holds s a (s.code a) := by
  have hsome : s.account a ≠ none := fun hnone => hcode (code_of_account_eq_none hnone)
  obtain ⟨account, ha⟩ := Option.ne_none_iff_exists'.mp hsome
  have hacode : account.code = s.code a := by
    rw [TscState.code, ha]
    rfl
  exact ⟨account, ha, (hs.1 a account ha).1, (hs.1 a account ha).2, hacode,
    fun stored h => (hs.2 a account stored ha h).symm.trans hacode⟩

theorem Holds.congr {code : List Byte} (h : Holds s a code) (htrie : t.trie = s.trie)
    (haccount : t.account a = s.account a) :
    Holds t a code := by
  obtain ⟨account, ha, hlive, htracks, hcode, hstored⟩ := h
  exact ⟨account, haccount.trans ha, hlive, htrie ▸ htracks, hcode, htrie ▸ hstored⟩

theorem Holds.foldl_kill {code : List Byte} (h : Holds s a code) {as : List Address} (ha : a ∉ as) :
    Holds (as.foldl kill s) a code :=
  h.congr (foldl_kill_frame s as).1 (by rw [account_foldl_kill, if_neg ha])

theorem Holds.commit {code : List Byte} (h : Holds s a code) (hcode : code ≠ []) (removeEmpty : Bool) :
    ∃ stored, (s.commit removeEmpty).trie a = some stored ∧ stored.code = code := by
  obtain ⟨account, ha, hlive, htracks, rfl, hstored⟩ := h
  have hfull : account.isEmpty = false := by simp [Account.isEmpty, hcode]
  obtain ⟨stored, htrie, rfl | ⟨hkept, -⟩⟩ := trie_commit ha hlive hfull htracks removeEmpty
  · exact ⟨_, htrie, rfl⟩
  · exact ⟨stored, htrie, hstored stored hkept⟩

theorem Holds.recover {code : List Byte} (h : Holds s a code) (hcode : code ≠ [])
    (hnoted : a ∉ s.deleteAddresses) (htrie : s.trie a ≠ none) (ctx : ExecContext) :
    ∃ stored, (s.recover ctx .Committed).trie a = some stored ∧ stored.code = code := by
  rw [TscState.recover]
  split
  · exact (h.foldl_kill hnoted).commit hcode true
  · obtain ⟨stored, hstored⟩ := Option.ne_none_iff_exists'.mp htrie
    obtain ⟨account, -, -, -, -, hsame⟩ := h
    exact ⟨stored, hstored, hsame stored hstored⟩

/-! ### Survival -/

/-- What the virtual machine leaves, if it gets to run. -/
def ended (env : EvmEnv) (b : Behaviour) (qtx : TscTransaction) (s : TscState) : Option Ended :=
  if (s.prepare env qtx).initialized env b qtx && ((s.prepare env qtx).start env b qtx).runs then
    some (((s.prepare env qtx).start env b qtx).go env b qtx)
  else none

def suicides (env : EvmEnv) (b : Behaviour) (qtx : TscTransaction) (s : TscState) : List Address :=
  ((s.ended env b qtx).map Ended.suicides).getD []

/-- The contract that stands at an address when the execution is over: the one from before or, unless the execution is given up because of its outputs, the one that the virtual machine leaves. -/
def contract (env : EvmEnv) (b : Behaviour) (qtx : TscTransaction) (s : TscState) (a : Address) :
    List Byte :=
  match s.ended env b qtx with
  | none => s.code a
  | some e =>
    if !e.excepted &&
      (CondensingTX.createCondensingTX (e.finalize env qtx).deleteAccounts qtx).voutOverflow then
        s.code a else e.state.code a

/-- Every contract of before, and every one that is there at the end of the run, is in the trie with its code afterwards, unless it has destroyed itself. -/
def Survives (ctx : ExecContext) (env : EvmEnv) (b : Behaviour) (qtx : TscTransaction)
    (s : TscState) : Prop :=
  ∀ a ∉ s.suicides env b qtx, ∀ code ≠ [], s.code a = code ∨ s.contract env b qtx a = code →
    ∃ stored, (s.execute ctx env .Committed b qtx).1.trie a = some stored ∧ stored.code = code

/-- None of the addresses noted from the start has code, and accounts are made only where there are none and none is to be deleted. -/
structure Spared (env : EvmEnv) (b : Behaviour) (qtx : TscTransaction) (s : TscState) : Prop where
  noted : ∀ a ∈ qtx.sender :: env.author :: s.deleteAddresses, s.code a = []
  fresh : qtx.isCreation = true → qtx.Fresh env s
  along : ((s.prepare env qtx).start env b qtx).runs = true →
    b.frame.Along env freshWatch ((s.prepare env qtx).start env b qtx).self
      ((s.prepare env qtx).start env b qtx).entered

theorem code_endow (env : EvmEnv) (qtx : TscTransaction) (hnew : s.newAddress = 0) (a : Address) :
    (s.endow env qtx).code a = s.code a :=
  code_addBalance hnew _ _ a

theorem Spared.notedCodeless (h : Spared env b qtx s) (hnew : s.newAddress = 0) :
    NotedCodeless (s.endow env qtx) := by
  intro a ha
  rw [code_endow env qtx hnew]
  exact h.noted a (mem_deleteAddresses_endow.mp ha)

/-- The state after `finalize`, before anything is killed. -/
def paidOut (env : EvmEnv) (qtx : TscTransaction) (e : Ended) : TscState :=
  ((e.state.addBalance qtx.sender (BitVec.ofNat 256 (e.gasLeft * qtx.gasPrice))).1.addBalance env.author
    (BitVec.ofNat 256 ((qtx.gas - e.gasLeft) * qtx.gasPrice))).1

theorem finalize_eq (e : Ended) : e.finalize env qtx = e.suicides.foldl kill (paidOut env qtx e) := rfl

theorem Logged.paidOut (env : EvmEnv) (qtx : TscTransaction) {e : Ended}
    (hnew : e.state.newAddress = 0) : Logged e.state (paidOut env qtx e) := by
  have hsender := Logged.addBalance hnew qtx.sender (BitVec.ofNat 256 (e.gasLeft * qtx.gasPrice))
  exact hsender.trans (.addBalance (hsender.newAddress.trans hnew) _ _)

theorem code_paidOut {e : Ended} (hnew : e.state.newAddress = 0) (a : Address) :
    (paidOut env qtx e).code a = e.state.code a := by
  have hsender := Logged.addBalance hnew qtx.sender (BitVec.ofNat 256 (e.gasLeft * qtx.gasPrice))
  rw [TscState.paidOut, code_addBalance (hsender.newAddress.trans hnew), code_addBalance hnew]

theorem NotedCodeless.paidOut {e : Ended} (h : NotedCodeless e.state) (hnew : e.state.newAddress = 0) :
    NotedCodeless (paidOut env qtx e) :=
  h.of_code ((deleteAddresses_addBalance _ _ _).trans (deleteAddresses_addBalance _ _ _))
    (code_paidOut hnew)

theorem Logged.code_of_ne_nil (h : Logged s t) (hcode : s.code a ≠ []) : t.code a = s.code a :=
  h.code fun hnone => hcode (code_of_account_eq_none hnone)

theorem code_charged (hnew : s.newAddress = 0) (hcode : s.code a ≠ []) :
    (s.charged env qtx).code a = s.code a := by
  rw [← code_endow env qtx hnew] at hcode
  rw [(logged_charged env qtx s).code_of_ne_nil hcode, code_endow env qtx hnew]

theorem logged_entered (hnew : s.newAddress = 0) (hfresh : qtx.isCreation = true → qtx.Fresh env s)
    (hinit : (s.prepare env qtx).initialized env b qtx = true) :
    Logged (s.charged env qtx) ((s.prepare env qtx).start env b qtx).entered ∧
      ((s.prepare env qtx).start env b qtx).saved.savepoint = (s.charged env qtx).savepoint := by
  have hzero : (s.charged env qtx).newAddress = 0 := (logged_charged env qtx s).newAddress
  cases hcreation : qtx.isCreation with
  | false =>
    rw [prepare_of_call hcreation]
    simp only [start, hcreation, Bool.false_eq_true, if_false]
    refine ⟨?_, rfl⟩
    split
    · split
      · exact .addBalance hzero qtx.receiveAddress 0
      · exact .refl _
    · exact .enterCall hzero _ _ _
  | true =>
    have hnonce : (s.prepare env qtx).getNonce qtx.sender = 0 := by
      simp only [initialized, Bool.and_eq_true, beq_iff_eq] at hinit
      exact hinit.1.2
    rw [start_of_create hcreation hnew (hfresh hcreation) hnonce]
    exact ⟨logged_created env qtx s, rfl⟩

theorem holds_rollback (hidle : Idle s) (hnoted : NotedCodeless (s.endow env qtx))
    (h : Logged (s.charged env qtx) t) (hcode : s.code a ≠ []) :
    Holds (t.rollback (s.charged env qtx).savepoint) a (s.code a) ∧
      a ∉ (t.rollback (s.charged env qtx).savepoint).deleteAddresses := by
  have hcharged : (s.charged env qtx).code a = s.code a := code_charged hidle.2 hcode
  have hgrounded : Grounded (s.charged env qtx) :=
    (hidle.grounded.endow hidle.2).logged (logged_charged env qtx s)
  have hback : (t.rollback (s.charged env qtx).savepoint).code a = s.code a :=
    (h.same_rollback.code a).trans hcharged
  have hcodeless := hnoted.charged.rollback h
  constructor
  · rw [← hback]
    exact (hgrounded.logged h.rollback).holds (hback ▸ hcode)
  · intro ha
    exact hcode (hback ▸ hcodeless a ha)

theorem Idle.trie_ne_none (hidle : Idle s) (hcode : s.code a ≠ []) : s.trie a ≠ none := by
  intro htrie
  refine hcode (code_of_account_eq_none ?_)
  rw [account, hidle.1 a, htrie]
  rfl

theorem survives_of_not_initialized (hidle : Idle s) (h : Spared env b qtx s) (ctx : ExecContext)
    (hinit : (s.prepare env qtx).initialized env b qtx = false) : Survives ctx env b qtx s := by
  intro a _ code hne hcode
  have hsame : s.code a = code := by simpa [contract, ended, hinit] using hcode
  subst hsame
  have hendow : (s.endow env qtx).code a = s.code a := code_endow env qtx hidle.2 a
  have hholds : Holds (s.endow env qtx) a (s.code a) :=
    hendow ▸ (hidle.grounded.endow hidle.2).holds (hendow ▸ hne)
  have hnoted : a ∉ (s.prepare env qtx).deleteAddresses :=
    fun ha => hne (hendow ▸ h.notedCodeless hidle.2 a ha)
  have htrie : (s.prepare env qtx).trie a ≠ none := by
    have hadd := Logged.addBalance hidle.2 qtx.sender (BitVec.ofNat 256 (qtx.value + qtx.gasCost))
    change (s.addBalance qtx.sender (BitVec.ofNat 256 (qtx.value + qtx.gasCost))).1.trie a ≠ none
    rw [hadd.trie]
    exact hidle.trie_ne_none hne
  have hprepare : Holds (s.prepare env qtx) a (s.code a) := hholds.congr rfl rfl
  obtain ⟨stored, hstored, hcode⟩ := hprepare.recover hne hnoted htrie ctx
  refine ⟨stored, ?_, hcode⟩
  simpa [execute, hinit, release] using hstored

theorem trie_charged (hnew : s.newAddress = 0) : (s.charged env qtx).trie = s.trie := by
  have hadd := Logged.addBalance hnew qtx.sender (BitVec.ofNat 256 (qtx.value + qtx.gasCost))
  exact (logged_charged env qtx s).trie.trans hadd.trie

theorem survives_of_not_runs (hidle : Idle s) (h : Spared env b qtx s) (ctx : ExecContext)
    (hinit : (s.prepare env qtx).initialized env b qtx = true)
    (hruns : ((s.prepare env qtx).start env b qtx).runs = false) :
    Survives ctx env b qtx s := by
  intro a _ code hne hcode
  have hsame : s.code a = code := by simpa [contract, ended, hruns] using hcode
  subst hsame
  obtain ⟨hentered, hsaved⟩ := logged_entered hidle.2 h.fresh hinit
  obtain ⟨hholds, hnoted⟩ := holds_rollback hidle (h.notedCodeless hidle.2) hentered hne
  have htrie :
      (((s.prepare env qtx).start env b qtx).entered.rollback
        (s.charged env qtx).savepoint).trie a ≠ none := by
    rw [hentered.rollback.trie, trie_charged hidle.2]
    exact hidle.trie_ne_none hne
  obtain ⟨stored, hstored, hcode⟩ := hholds.recover hne hnoted htrie ctx
  refine ⟨stored, ?_, hcode⟩
  simpa [execute, hinit, hruns, release, hsaved] using hstored

theorem holds_deleteAccounts {e : Ended} (hgrounded : Grounded e.state)
    (hnew : e.state.newAddress = 0) (hnoted : NotedCodeless e.state) (ha : a ∉ e.suicides)
    (hcode : e.state.code a ≠ []) :
    Holds (e.finalize env qtx).deleteAccounts a (e.state.code a) := by
  have hpaid : (paidOut env qtx e).code a = e.state.code a := code_paidOut hnew a
  have hkilled : a ∉ (e.suicides.foldl kill (paidOut env qtx e)).deleteAddresses := by
    rw [(foldl_kill_frame _ _).2.2.2.2.2]
    exact fun hmem => hcode (hpaid ▸ hnoted.paidOut hnew a hmem)
  have hholds : Holds (paidOut env qtx e) a (e.state.code a) :=
    hpaid ▸ (hgrounded.logged (.paidOut env qtx hnew)).holds (hpaid ▸ hcode)
  exact (hholds.foldl_kill ha).foldl_kill hkilled

theorem holds_rollback_deleteAccounts {e : Ended} (hidle : Idle s)
    (hnoted : NotedCodeless (s.endow env qtx)) (h : Logged (s.charged env qtx) e.state)
    (hcodeless : NotedCodeless e.state) (ha : a ∉ e.suicides) (hcode : s.code a ≠ []) :
    Holds ((e.finalize env qtx).deleteAccounts.rollback (s.charged env qtx).savepoint) a (s.code a) ∧
      a ∉ ((e.finalize env qtx).deleteAccounts.rollback (s.charged env qtx).savepoint).deleteAddresses ∧
        ((e.finalize env qtx).deleteAccounts.rollback (s.charged env qtx).savepoint).trie = s.trie := by
  have hnew : e.state.newAddress = 0 := h.newAddress.trans (logged_charged env qtx s).newAddress
  have hpaid := h.trans (.paidOut env qtx hnew)
  have hpaidcode : (paidOut env qtx e).code a = s.code a := by
    rw [code_paidOut hnew, h.code_of_ne_nil (by rwa [code_charged hidle.2 hcode]),
      code_charged hidle.2 hcode]
  obtain ⟨htrie, hlog, -, -, -, hdelete⟩ := foldl_kill_frame (paidOut env qtx e) e.suicides
  obtain ⟨htrie', hlog', -, -, -, hdelete'⟩ :=
    foldl_kill_frame (e.finalize env qtx) (e.finalize env qtx).deleteAddresses
  rw [← finalize_eq] at htrie hlog hdelete
  have hkilled : a ∉ (e.finalize env qtx).deleteAddresses := by
    rw [hdelete]
    exact fun hmem => hcode (hpaidcode ▸ hcodeless.paidOut hnew a hmem)
  have haccount : (e.finalize env qtx).deleteAccounts.account a = (paidOut env qtx e).account a := by
    rw [deleteAccounts, account_foldl_kill, if_neg hkilled, finalize_eq, account_foldl_kill, if_neg ha]
  obtain ⟨hholds, -⟩ := holds_rollback hidle hnoted hpaid hcode
  have hback : ((e.finalize env qtx).deleteAccounts.rollback (s.charged env qtx).savepoint).trie =
      (e.finalize env qtx).deleteAccounts.trie :=
    (undo_frame _ _).1
  have hbackdelete :
    ((e.finalize env qtx).deleteAccounts.rollback (s.charged env qtx).savepoint).deleteAddresses =
      (e.finalize env qtx).deleteAccounts.deleteAddresses := (undo_frame _ _).2.2.2.2.2
  refine ⟨hholds.congr ?_
    (account_rollback_congr (htrie'.trans htrie) (hlog'.trans hlog) haccount _), ?_, ?_⟩
  · rw [hback, hpaid.rollback.trie, ← hpaid.trie]
    exact htrie'.trans htrie
  · rw [hbackdelete]
    exact fun hmem => hkilled (hdelete' ▸ hmem)
  · rw [hback]
    exact (htrie'.trans htrie).trans (hpaid.trie.trans (trie_charged hidle.2))

theorem survives_of_runs (hidle : Idle s) (h : Spared env b qtx s) (ctx : ExecContext)
    (hinit : (s.prepare env qtx).initialized env b qtx = true)
    (hruns : ((s.prepare env qtx).start env b qtx).runs = true) :
    Survives ctx env b qtx s := by
  obtain ⟨hlogged, hcodeless, -⟩ :=
    logged_go hidle.2 h.fresh hinit hruns (h.along hruns) (h.notedCodeless hidle.2)
  have hsaved := (logged_entered hidle.2 h.fresh hinit).2
  have hgrounded : Grounded (s.charged env qtx) :=
    (hidle.grounded.endow hidle.2).logged (logged_charged env qtx s)
  have hended : s.ended env b qtx = some (((s.prepare env qtx).start env b qtx).go env b qtx) := by
    simp [ended, hinit, hruns]
  have hexecute : s.execute ctx env .Committed b qtx =
      (((s.prepare env qtx).start env b qtx).go env b qtx).settle ctx env qtx
        (s.charged env qtx).savepoint := by
    simp [execute, hinit, hruns, hsaved]
  intro a ha code hne hcode
  rw [suicides, hended] at ha
  rw [contract, hended] at hcode
  rw [hexecute]
  generalize ((s.prepare env qtx).start env b qtx).go env b qtx = e at hlogged hcodeless ha hcode
  have hnew : e.state.newAddress = 0 := hlogged.newAddress.trans (logged_charged env qtx s).newAddress
  -- a contract of before is still there when the machine is done
  have hkept : s.code a = code → e.state.code a = code := by
    rintro rfl
    rw [hlogged.code_of_ne_nil (by rwa [code_charged hidle.2 hne]), code_charged hidle.2 hne]
  have hholds : e.state.code a = code → Holds (e.finalize env qtx).deleteAccounts a code := by
    rintro rfl
    exact holds_deleteAccounts (hgrounded.logged hlogged) hnew hcodeless ha hne
  simp only [Ended.settle]
  cases hexcepted : e.excepted with
  | true =>
    simp only [hexcepted, Bool.not_true, Bool.false_and, Bool.false_eq_true, if_false] at hcode
    exact ((hholds (hcode.elim hkept id)).congr
      (t := (e.finalize env qtx).deleteAccounts.commitUTXO) rfl rfl).commit hne _
  | false =>
    cases hoverflow :
      (CondensingTX.createCondensingTX (e.finalize env qtx).deleteAccounts qtx).voutOverflow with
    | true =>
      simp only [hexcepted, hoverflow, Bool.not_false, Bool.and_self, if_true, or_self] at hcode
      subst hcode
      obtain ⟨hback, hnoted, htrie⟩ :=
        holds_rollback_deleteAccounts hidle (h.notedCodeless hidle.2) hlogged hcodeless ha hne
      exact hback.recover hne hnoted (htrie ▸ hidle.trie_ne_none hne) ctx
    | false =>
      simp only [hoverflow, Bool.and_false, Bool.false_eq_true, if_false] at hcode
      exact ((hholds (hcode.elim hkept id)).congr
        (t := ((e.finalize env qtx).deleteAccounts.updateUTXO _).commitUTXO) rfl rfl).commit hne _

theorem Spared.survives (h : Spared env b qtx s) (hidle : Idle s) (ctx : ExecContext) :
    Survives ctx env b qtx s := by
  cases hinit : (s.prepare env qtx).initialized env b qtx with
  | false => exact survives_of_not_initialized hidle h ctx hinit
  | true =>
    cases hruns : ((s.prepare env qtx).start env b qtx).runs with
    | false => exact survives_of_not_runs hidle h ctx hinit hruns
    | true => exact survives_of_runs hidle h ctx hinit hruns

theorem idle_recover (ctx : ExecContext) (p : Permanence) (s : TscState) :
    Idle (s.recover ctx p).release := by
  simp only [recover]
  split <;> exact ⟨fun _ => rfl, rfl⟩

theorem idle_execute (ctx : ExecContext) (p : Permanence) (env : EvmEnv) (b : Behaviour)
    (qtx : TscTransaction) (s : TscState) :
    Idle (s.execute ctx env p b qtx).1 := by
  simp only [execute]
  split
  · exact idle_recover ctx p _
  · split
    · exact idle_recover ctx p _
    · cases p with
      | Reverted => exact ⟨fun _ => rfl, rfl⟩
      | Committed =>
        simp only [Ended.settle]
        split
        · exact ⟨fun _ => rfl, rfl⟩
        · split
          · exact idle_recover ctx .Committed _
          · exact ⟨fun _ => rfl, rfl⟩

end TscState

/-! ### The blocks of a run -/

open TscState

/-- The executions that the loop of `performByteCode` makes, each with the state it starts from. -/
def executions (ctx : ExecContext) (env : EvmEnv) :
    List (Behaviour × TscTransaction) → TscState → List (TscState × Behaviour × TscTransaction)
  | [], _ => []
  | (b, qtx) :: rest, s =>
    if qtx.version ≠ .evmDefault then []
    else if !qtx.isCreation && !s.addressInUse qtx.receiveAddress then executions ctx env rest s
    else (s, b, qtx) :: executions ctx env rest (s.execute ctx env .Committed b qtx).1

theorem idle_of_mem_executions (ctx : ExecContext) (env : EvmEnv)
    (txs : List (Behaviour × TscTransaction)) {s : TscState} (hs : Idle s) :
    (∀ e ∈ executions ctx env txs s, Idle e.1) ∧ Idle (performTxs ctx env .Committed txs s).1 := by
  induction txs generalizing s with
  | nil => exact ⟨by simp [executions], hs⟩
  | cons tx rest ih =>
    obtain ⟨b, qtx⟩ := tx
    simp only [executions, performTxs]
    split
    · exact ⟨by simp, hs⟩
    · split
      · exact ih hs
      · have hrest := ih (idle_execute ctx .Committed env b qtx s)
        refine ⟨fun e he => ?_, hrest.2⟩
        rcases List.mem_cons.mp he with rfl | he
        · exact hs
        · exact hrest.1 e he

/-- A block to be executed: the height of the chain it is put on, its gas limit, and what the virtual machine does with its contract transactions. -/
structure BlockExecution where
  block : Block
  height : Nat
  blockGasLimit : Nat
  txs : List (Behaviour × TscTransaction)

namespace BlockExecution

variable (engine : Engine) (txHash : Tx → Uint256) (params : Params)

def env (x : BlockExecution) : EvmEnv := buildEVMEnvironment engine x.height x.blockGasLimit x.block

def ctx (x : BlockExecution) : ExecContext := ⟨txHash, x.height, params⟩

/-- `performByteCode` with `Permanence::Committed`. -/
def perform (x : BlockExecution) (s : TscState) : TscState :=
  (performByteCode (x.ctx txHash params) (x.env engine) .Committed x.txs s).1

/-- The executions of a sequence of blocks, each with its block and the state it starts from. -/
def trace : List BlockExecution → TscState → List (BlockExecution × TscState × Behaviour × TscTransaction)
  | [], _ => []
  | x :: xs, s => (executions (x.ctx txHash params) (x.env engine) x.txs s).map (x, ·) ++
      trace xs (x.perform engine txHash params s)

theorem idle_perform {x : BlockExecution} {s : TscState} (hs : Idle s) :
    Idle (x.perform engine txHash params s) := by
  have hidle := (idle_of_mem_executions (x.ctx txHash params) (x.env engine) x.txs hs).2
  simp only [perform, performByteCode]
  split
  · exact hidle
  · exact hidle

variable {engine txHash params} in
/-- In a run of blocks whose executions are all spared, no execution destroys a contract. -/
theorem survives_of_spared {xs : List BlockExecution} {s : TscState} (hs : Idle s)
    (h : ∀ e ∈ trace engine txHash params xs s, Spared (e.1.env engine) e.2.2.1 e.2.2.2 e.2.1) :
    ∀ e ∈ trace engine txHash params xs s,
      Survives (e.1.ctx txHash params) (e.1.env engine) e.2.2.1 e.2.2.2 e.2.1 := by
  induction xs generalizing s with
  | nil => exact fun e he => absurd he (List.not_mem_nil)
  | cons x xs ih =>
    intro e he
    have hspared := h e he
    rw [trace] at h he
    rcases List.mem_append.mp he with hin | hin
    · obtain ⟨e', he', rfl⟩ := List.mem_map.mp hin
      exact hspared.survives ((idle_of_mem_executions _ _ _ hs).1 e' he') _
    · exact ih (idle_perform engine txHash params hs) (fun e he => h e (List.mem_append_right _ he)) e hin

end BlockExecution

/-! ### A miner that pays a contract -/

namespace PaidContract

def engine : Engine where
  hash160 _ := 0
  createTscAddress _ _ := 0
  contractAddress _ _ := 0
  isPrecompiled _ := false
  EIP158ForkBlock := 0

def state : TscState :=
  { TscState.empty with trie := fun a => if a = 1 ∨ a = 2 then some ⟨1, 0, [0]⟩ else none }

def call : Behaviour × TscTransaction :=
  (⟨21000, false, false, .stop [], 79000⟩, ⟨5, false, 2, 0, 100000, 40, .evmDefault, .ofNat 0, 0⟩)

def block (author : Address) : BlockExecution where
  block := { (default : BlockHeader) with vtx := [⟨1, [], [⟨0, payToPubkeyHash author⟩], 0⟩] }
  height := 200000
  blockGasLimit := 40000000
  txs := [call]

def txHash (_ : Tx) : Uint256 := .ofNat 1

theorem trace_block (author : Address) :
    BlockExecution.trace engine txHash mainParams [block author] state =
      [(block author, state, call)] := by
  rfl

theorem idle_state : Idle state := ⟨fun _ => rfl, rfl⟩

end PaidContract

open PaidContract in
theorem survives_of_spared_call :
    (block 7, state, call) ∈ BlockExecution.trace engine txHash mainParams [block 7] state ∧
      ∀ e ∈ BlockExecution.trace engine txHash mainParams [block 7] state,
        Survives (e.1.ctx txHash mainParams) (e.1.env engine) e.2.2.1 e.2.2.2 e.2.1 := by
  have htrace := trace_block 7
  refine ⟨by rw [htrace]; exact List.mem_singleton_self _,
    BlockExecution.survives_of_spared idle_state fun e he => ?_⟩
  rw [htrace, List.mem_singleton] at he
  subst he
  have hauthor : ((block 7).env engine).author = 7 := by decide
  refine ⟨?_, fun h => absurd h (by decide), fun _ => trivial⟩
  intro a ha
  change a ∈ [(5 : Address), ((block 7).env engine).author] at ha
  rw [hauthor] at ha
  rcases List.mem_pair.mp ha with rfl | rfl
  · decide
  · decide

open PaidContract in
/-- The coinbase of the block pays the address of a contract as a key hash. The contract has nothing to do with the call in the block, and is gone after it. -/
theorem contract_of_author_destroyed :
    Idle state ∧ state.code 1 = [0] ∧
      BlockExecution.trace engine txHash mainParams [block 1] state = [(block 1, state, call)] ∧
      state.suicides ((block 1).env engine) call.1 call.2 = [] ∧
        ((block 1).perform engine txHash mainParams state).trie 1 = none ∧
        ¬ Survives ((block 1).ctx txHash mainParams) ((block 1).env engine) call.1 call.2 state := by
  refine ⟨idle_state, by decide, trace_block 1, by decide, by decide, fun h => ?_⟩
  have hgone :
      (state.execute ((block 1).ctx txHash mainParams) ((block 1).env engine) .Committed call.1
        call.2).1.trie 1 = none := by decide
  obtain ⟨stored, hstored, -⟩ := h 1 (by decide) [0] (by decide) (.inl (by decide))
  rw [hgone] at hstored
  cases hstored

end TscPow
