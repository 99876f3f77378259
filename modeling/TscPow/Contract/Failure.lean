import TscPow.Contract.Refunds
import TscPow.Contract.Survival

/-!
# Executions that fail

An execution fails in one of three ways: it throws before or without running any code, the code ends in an exception of the virtual machine, or the transaction that condenses its transfers has too many outputs. The first and the last throw the caches away. After an exception of the virtual machine the caches are written out, as after a success, when the accounts of the sender, the author and the plain addresses noted so far have been deleted and their coins marked dead.

All three leave the accounts as they were, and hand the coins of the contract output back to the sender. The coins that the state keeps for contracts stay too, except for those of the deleted addresses: a plain address that a contract has paid has one until the address is noted.
-/

namespace TscPow

theorem Account.isEmpty_eq_of_content {x y : Account} (h : x.content = y.content) :
    x.isEmpty = y.isEmpty := by
  simp only [content, stored, Prod.mk.injEq, StoredAccount.mk.injEq] at h
  rw [isEmpty, isEmpty, h.2.1, h.2.2.1, h.2.2.2]

namespace TscState

variable {env : EvmEnv} {b : Behaviour} {qtx : TscTransaction} {s t u : TscState} {a : Address}

/-! ### What an execution does not write -/

/-- The tries and the cached coins are the same, and the addresses that have been noted for deletion have no account in the trie. -/
structure Unwritten (s t : TscState) : Prop where
  trie : t.trie = s.trie
  stateUTXO : t.stateUTXO = s.stateUTXO
  cacheUTXO : t.cacheUTXO = s.cacheUTXO
  kept : ∀ a ∈ s.deleteAddresses, a ∈ t.deleteAddresses
  noted : ∀ a ∈ t.deleteAddresses, a ∈ s.deleteAddresses ∨ s.trie a = none

theorem Unwritten.of_frame (h : t.trie = s.trie ∧ t.stateUTXO = s.stateUTXO ∧ t.cacheUTXO = s.cacheUTXO)
    (hdelete : t.deleteAddresses = s.deleteAddresses) : Unwritten s t :=
  ⟨h.1, h.2.1, h.2.2, fun _ ha => hdelete ▸ ha, fun _ ha => .inl (hdelete ▸ ha)⟩

theorem Unwritten.refl (s : TscState) : Unwritten s s := .of_frame ⟨rfl, rfl, rfl⟩ rfl

theorem Unwritten.trans (h : Unwritten s t) (h' : Unwritten t u) : Unwritten s u where
  trie := h'.trie.trans h.trie
  stateUTXO := h'.stateUTXO.trans h.stateUTXO
  cacheUTXO := h'.cacheUTXO.trans h.cacheUTXO
  kept a ha := h'.kept a (h.kept a ha)
  noted a ha := by
    rcases h'.noted a ha with ht | ht
    · exact h.noted a ht
    · exact .inr (h.trie ▸ ht)

theorem Unwritten.addBalance (s : TscState) (id : Address) (amount : U256) :
    Unwritten s (s.addBalance id amount).1 := by
  refine .of_frame ?_ (deleteAddresses_addBalance s id amount)
  rw [TscState.addBalance]
  split
  · split <;> split <;> exact ⟨rfl, rfl, rfl⟩
  · split <;> split <;> exact ⟨rfl, rfl, rfl⟩

theorem Unwritten.subBalance (s : TscState) (a : Address) (value : U256) :
    Unwritten s (s.subBalance a value) := by
  rw [TscState.subBalance]
  split
  · exact .refl s
  · exact .addBalance s a _

theorem Unwritten.transferBalance (s : TscState) (sender receiver : Address) (value : U256) :
    Unwritten s (s.transferBalance sender receiver value).1 := by
  have hadd := (Unwritten.subBalance s sender value).trans (.addBalance _ receiver value)
  simp only [TscState.transferBalance]
  split
  · exact ⟨hadd.trie, hadd.stateUTXO, hadd.cacheUTXO, hadd.kept, hadd.noted⟩
  · exact hadd

theorem Unwritten.incNonce (s : TscState) (a : Address) : Unwritten s (s.incNonce a) := by
  refine .of_frame ?_ (deleteAddresses_incNonce s a)
  rw [TscState.incNonce]
  split <;> exact ⟨rfl, rfl, rfl⟩

theorem Unwritten.setNewCode (s : TscState) (a : Address) (code : List Byte) :
    Unwritten s (s.setNewCode a code) :=
  .of_frame ⟨rfl, rfl, rfl⟩ rfl

theorem Unwritten.rollback (s : TscState) (savepoint : Nat) : Unwritten s (s.rollback savepoint) := by
  obtain ⟨htrie, hstate, hcache, -, -, hdelete⟩ := undo_frame s (Journal.since changeLog savepoint s)
  exact .of_frame ⟨htrie, hstate, hcache⟩ hdelete

theorem trie_of_account_eq_none (h : s.account a = none) : s.trie a = none := by
  rw [account, Option.or_eq_none_iff, Option.map_eq_none_iff] at h
  exact h.2

theorem Unwritten.noteUnused (s : TscState) (a : Address) : Unwritten s (s.noteUnused a) := by
  rw [TscState.noteUnused]
  split
  · exact .refl s
  · rename_i hunused
    refine ⟨rfl, rfl, rfl, fun b hb => List.mem_cons_of_mem a hb, fun b hb => ?_⟩
    rcases List.mem_cons.mp hb with rfl | hb
    · rw [addressInUse, Option.isSome_iff_ne_none, not_not] at hunused
      exact .inr (trie_of_account_eq_none hunused)
    · exact .inl hb

theorem Unwritten.enterCall (s : TscState) (self receiver : Address) (value : U256) :
    Unwritten s (s.enterCall self receiver value) :=
  (Unwritten.noteUnused s receiver).trans (.transferBalance _ _ _ _)

theorem Unwritten.enterCreate (env : EvmEnv) (s : TscState) (self : Address) :
    Unwritten s (s.enterCreate env self).1 := by
  have htransfer :=
    (Unwritten.incNonce s self).trans
      (.transferBalance _ self (env.contractAddress self (s.getNonce self)) 0)
  simp only [TscState.enterCreate]
  split
  · exact htransfer.trans (.incNonce _ _)
  · exact htransfer

theorem Unwritten.run (env : EvmEnv) (f : Frame) (self : Address) (s : TscState) :
    Unwritten s (f.run env self s).1 := by
  induction f generalizing self s with
  | stop output => exact .refl s
  | throw => exact .refl s
  | suicide target => exact (Unwritten.noteUnused s target).trans (.transferBalance _ _ _ _)
  | call kind target value body rest ihbody ihrest =>
    simp only [Frame.run]
    split
    · exact ihrest self s
    · have hcall := Unwritten.enterCall s self (kind.receiver self target) value
      split
      · have hran := hcall.trans (ihbody (kind.receiver self target) _)
        generalize body.run env (kind.receiver self target)
          (s.enterCall self (kind.receiver self target) value) = r at hran ⊢
        obtain ⟨t, _ | halt⟩ := r
        · exact (hran.trans (.rollback t _)).trans (ihrest self _)
        · exact hran.trans (ihrest self _)
      · exact hcall.trans (ihrest self _)
  | lacksGas target rest ihrest =>
    simp only [Frame.run]
    split
    · exact (Unwritten.addBalance s target 0).trans (ihrest self _)
    · exact ihrest self s
  | create hasInit body rest ihbody ihrest =>
    simp only [Frame.run]
    have hcreate := Unwritten.enterCreate env s self
    split
    · have hran := hcreate.trans (ihbody (s.enterCreate env self).2 _)
      generalize body.run env (s.enterCreate env self).2 (s.enterCreate env self).1 = r at hran ⊢
      obtain ⟨t, _ | halt⟩ := r
      · exact (hran.trans (.rollback t _)).trans (ihrest self _)
      · exact (hran.trans (.setNewCode t _ _)).trans (ihrest self _)
    · split
      · exact (hcreate.trans (.setNewCode _ _ _)).trans (ihrest self _)
      · exact hcreate.trans (ihrest self _)

theorem prepare_frame (env : EvmEnv) (qtx : TscTransaction) (s : TscState) :
    (s.prepare env qtx).trie = s.trie ∧ (s.prepare env qtx).stateUTXO = s.stateUTXO := by
  have hadd := Unwritten.addBalance s qtx.sender (BitVec.ofNat 256 (qtx.value + qtx.gasCost))
  exact ⟨hadd.trie, hadd.stateUTXO⟩

theorem Unwritten.prepare (env : EvmEnv) (qtx : TscTransaction) (s : TscState)
    (hsender : s.trie qtx.sender = none) (hauthor : s.trie env.author = none) :
    Unwritten s (s.prepare env qtx) := by
  have hadd := Unwritten.addBalance s qtx.sender (BitVec.ofNat 256 (qtx.value + qtx.gasCost))
  refine ⟨hadd.trie, hadd.stateUTXO, hadd.cacheUTXO,
    fun a ha => List.mem_cons_of_mem _ (List.mem_cons_of_mem _ (hadd.kept a ha)), fun a ha => ?_⟩
  simp only [TscState.prepare, List.mem_cons] at ha
  rcases ha with rfl | rfl | ha
  · exact .inr hsender
  · exact .inr hauthor
  · exact hadd.noted a ha

theorem Unwritten.start (env : EvmEnv) (b : Behaviour) (qtx : TscTransaction) (s : TscState) :
    Unwritten s (s.start env b qtx).entered := by
  have hpaid := Unwritten.subBalance s qtx.sender (BitVec.ofNat 256 qtx.gasCost)
  simp only [TscState.start]
  split
  · have hcreate := hpaid.trans (.enterCreate env _ qtx.sender)
    dsimp only
    split
    · exact hcreate.trans (.setNewCode _ _ _)
    · exact hcreate
  · have hnonce := hpaid.trans (.incNonce _ qtx.sender)
    dsimp only
    split
    · split
      · exact hnonce.trans (.addBalance _ _ _)
      · exact hnonce
    · exact hnonce.trans (.enterCall _ _ _ _)

theorem Unwritten.go (env : EvmEnv) (b : Behaviour) (qtx : TscTransaction) (st : Started) :
    Unwritten st.entered (st.go env b qtx).state := by
  have hrun := Unwritten.run env b.frame st.self st.entered
  simp only [Started.go]
  generalize b.frame.run env st.self st.entered = r at hrun ⊢
  obtain ⟨t, _ | halt⟩ := r
  · exact hrun.trans (.rollback t _)
  · dsimp only
    split
    · exact hrun.trans (.setNewCode _ _ _)
    · exact hrun

theorem Unwritten.paidOut (env : EvmEnv) (qtx : TscTransaction) (e : Ended) :
    Unwritten e.state (paidOut env qtx e) :=
  (Unwritten.addBalance e.state qtx.sender (BitVec.ofNat 256 (e.gasLeft * qtx.gasPrice))).trans
    (.addBalance _ env.author (BitVec.ofNat 256 ((qtx.gas - e.gasLeft) * qtx.gasPrice)))

/-! ### Writing out what has been deleted -/

theorem stateUTXO_kill (s : TscState) (a b : Address) :
    (s.kill b).commitUTXO.stateUTXO a = if a = b then none else s.commitUTXO.stateUTXO a := by
  by_cases hab : a = b
  · subst hab
    rw [if_pos rfl]
    simp only [commitUTXO, kill, vin]
    cases hcache : s.cacheUTXO a <;> cases hstate : s.stateUTXO a <;> simp [hcache]
  · rw [if_neg hab]
    simp only [commitUTXO, kill]
    cases s.vin b with
    | none => rfl
    | some v => simp [hab]

theorem stateUTXO_foldl_kill (s : TscState) (as : List Address) (a : Address) :
    (as.foldl kill s).commitUTXO.stateUTXO a = if a ∈ as then none else s.commitUTXO.stateUTXO a := by
  induction as generalizing s with
  | nil => simp
  | cons b as ih =>
    rw [List.foldl_cons, ih, stateUTXO_kill]
    by_cases hab : a = b
    · simp [hab]
    · simp [hab]

theorem trie_commit_kill (s : TscState) (removeEmpty : Bool) (a b : Address) :
    ((s.kill b).commit removeEmpty).trie a = if a = b then none else (s.commit removeEmpty).trie a := by
  by_cases hab : a = b
  · subst hab
    rw [if_pos rfl]
    cases haccount : s.account a with
    | none =>
      have hcache : s.cache a = none := (Option.or_eq_none_iff.mp haccount).1
      have htrie : s.trie a = none := trie_of_account_eq_none haccount
      cases removeEmpty <;> simp [commit, kill, removeEmptyAccounts, haccount, hcache, htrie]
    | some account => cases removeEmpty <;>
        simp [commit, kill, removeEmptyAccounts, haccount, Account.kill, Account.isDirty]
  · rw [if_neg hab]
    cases haccount : s.account b with
    | none => cases removeEmpty <;> simp [commit, kill, removeEmptyAccounts, haccount]
    | some account => cases removeEmpty <;> simp [commit, kill, removeEmptyAccounts, haccount, hab]

theorem trie_commit_foldl_kill (s : TscState) (removeEmpty : Bool) (as : List Address) (a : Address) :
    ((as.foldl kill s).commit removeEmpty).trie a = if a ∈ as then none else
    (s.commit removeEmpty).trie a := by
  induction as generalizing s with
  | nil => simp
  | cons b as ih =>
    rw [List.foldl_cons, ih, trie_commit_kill]
    by_cases hab : a = b
    · simp [hab]
    · simp [hab]

theorem commit_deleteAccounts (s : TscState) (removeEmpty : Bool) :
    let t := (s.deleteAccounts.commitUTXO.commit removeEmpty).release
    (∀ a, t.trie a = if a ∈ s.deleteAddresses then none else (s.commit removeEmpty).trie a) ∧
      (∀ a, t.stateUTXO a = if a ∈ s.deleteAddresses then none else s.commitUTXO.stateUTXO a) ∧
        t.deleteAddresses = s.deleteAddresses := by
  have hdelete := (foldl_kill_frame s s.deleteAddresses).2.2.2.2.2
  have htrie : (s.deleteAccounts.commitUTXO.commit removeEmpty).trie =
      (s.deleteAccounts.commit removeEmpty).trie := by
    cases removeEmpty <;> rfl
  have hstate : (s.deleteAccounts.commitUTXO.commit removeEmpty).stateUTXO =
      s.deleteAccounts.commitUTXO.stateUTXO := by
    cases removeEmpty <;> rfl
  refine ⟨fun a => ?_, fun a => ?_, ?_⟩
  · exact (congrFun htrie a).trans (trie_commit_foldl_kill s removeEmpty s.deleteAddresses a)
  · exact (congrFun hstate a).trans (stateUTXO_foldl_kill s s.deleteAddresses a)
  · cases removeEmpty <;> exact hdelete

/-- Neither the deletions nor the rollback of an execution that is given up at its end reach the tries. -/
theorem frame_given_up (env : EvmEnv) (qtx : TscTransaction) (e : Ended) (savepoint : Nat) :
    let t := (e.finalize env qtx).deleteAccounts.rollback savepoint
    t.trie = (paidOut env qtx e).trie ∧ t.stateUTXO = (paidOut env qtx e).stateUTXO ∧
      t.deleteAddresses = (paidOut env qtx e).deleteAddresses := by
  obtain ⟨htrie, -, hstate, -, -, hdelete⟩ := foldl_kill_frame (paidOut env qtx e) e.suicides
  rw [← finalize_eq] at htrie hstate hdelete
  obtain ⟨htrie', -, hstate', -, -, hdelete'⟩ :=
    foldl_kill_frame (e.finalize env qtx) (e.finalize env qtx).deleteAddresses
  have hback :=
    undo_frame (e.finalize env qtx).deleteAccounts
      (Journal.since changeLog savepoint (e.finalize env qtx).deleteAccounts)
  exact ⟨hback.1.trans (htrie'.trans htrie), hback.2.1.trans (hstate'.trans hstate),
    hback.2.2.2.2.2.trans (hdelete'.trans hdelete)⟩

/-- The account at an address is what it was. An empty account counts as unchanged again, or it would be removed. -/
def RolledBack (s t : TscState) (a : Address) : Prop :=
  (t.account a).map Account.content = (s.account a).map Account.content ∧
    ∀ account, t.account a = some account → account.isEmpty = true → account.isUnchanged = true

theorem RolledBack.trie_commit (h : RolledBack s t a) (hidle : Idle s) (htrie : t.trie = s.trie)
    (removeEmpty : Bool) :
    (t.commit removeEmpty).trie a = s.trie a := by
  have hkept : (if removeEmpty then t.removeEmptyAccounts else t).trie = t.trie := by
    split <;> rfl
  cases hcache : t.cache a with
  | none =>
    have hnone : (if removeEmpty then t.removeEmptyAccounts else t).cache a = none := by
      split
      · simp [removeEmptyAccounts, hcache]
      · exact hcache
    simp only [commit, hnone, hkept, htrie]
  | some account =>
    have haccount : t.account a = some account := by rw [TscState.account, hcache, Option.some_or]
    obtain ⟨hcontent, hempty⟩ := h
    rw [haccount, TscState.account, hidle.1 a, Option.none_or, Option.map_some, eq_comm,
      Option.map_map, Option.map_eq_some_iff] at hcontent
    obtain ⟨stored, hstored, hcontent⟩ := hcontent
    simp only [Function.comp_apply, Account.content, Account.ofStored, Account.stored,
      Prod.mk.injEq] at hcontent
    have hsame : (if removeEmpty then t.removeEmptyAccounts else t).cache a = some account := by
      split
      · simp only [removeEmptyAccounts, hcache, Option.map_some]
        rw [if_neg]
        intro hremoved
        rw [Bool.and_eq_true, Account.isDirty, Bool.not_eq_true'] at hremoved
        rw [hempty account haccount hremoved.2] at hremoved
        cases hremoved.1
      · exact hcache
    simp only [commit, hsame, hkept, htrie]
    cases account.isDirty with
    | false => simp
    | true => simp [← hcontent.1, hstored, Account.stored, ← hcontent.2]

/-! ### The three ways to fail -/

/-- Between executions nothing is cached, no address is reserved, and the addresses to be deleted have no account. -/
structure Settled (s : TscState) : Prop where
  idle : Idle s
  cacheUTXO : ∀ a, s.cacheUTXO a = none
  noted : ∀ a ∈ s.deleteAddresses, s.trie a = none

def vmExcepted (env : EvmEnv) (b : Behaviour) (qtx : TscTransaction) (s : TscState) : Bool :=
  (s.ended env b qtx).any Ended.excepted

def failed (env : EvmEnv) (b : Behaviour) (qtx : TscTransaction) (s : TscState) : Bool :=
  match s.ended env b qtx with
  | none => true
  | some e =>
    e.excepted ||
      (CondensingTX.createCondensingTX (e.finalize env qtx).deleteAccounts qtx).voutOverflow

theorem recover_of_le {ctx : ExecContext} (hheight : ctx.params.nFixUTXOCacheHFHeight ≤ ctx.height)
    (p : Permanence) (s : TscState) :
    s.recover ctx p = s.clearCaches :=
  if_neg fun h => not_le.mpr h.1 hheight

theorem suicides_go_of_excepted {st : Started} (h : (st.go env b qtx).excepted = true) :
    (st.go env b qtx).suicides = [] := by
  simp only [Started.go] at h ⊢
  split at h
  · cases h
  · rfl

theorem execute_cases {ctx : ExecContext} (hheight : ctx.params.nFixUTXOCacheHFHeight ≤ ctx.height)
    (env : EvmEnv) (b : Behaviour) (qtx : TscTransaction) (s : TscState) :
    (s.ended env b qtx = none ∧ ∃ t, Unwritten (s.prepare env qtx) t ∧
        s.execute ctx env .Committed b qtx = (t.clearCaches.release, ⟨true, qtx.gas, none⟩)) ∨
      ∃ e savepoint, s.ended env b qtx = some e ∧ Unwritten (s.prepare env qtx) e.state ∧
        (e.excepted = true → e.suicides = []) ∧
        s.execute ctx env .Committed b qtx = e.settle ctx env qtx savepoint := by
  cases hinit : (s.prepare env qtx).initialized env b qtx with
  | false =>
    refine .inl ⟨by simp [ended, hinit], s.prepare env qtx, .refl _, ?_⟩
    simp [execute, hinit, recover_of_le hheight]
  | true =>
    have hstart := Unwritten.start env b qtx (s.prepare env qtx)
    cases hruns : ((s.prepare env qtx).start env b qtx).runs with
    | false =>
      refine .inl ⟨by simp [ended, hruns], _,
        hstart.trans (.rollback _ ((s.prepare env qtx).start env b qtx).saved.savepoint), ?_⟩
      simp [execute, hinit, hruns, recover_of_le hheight]
    | true =>
      refine .inr ⟨((s.prepare env qtx).start env b qtx).go env b qtx,
        ((s.prepare env qtx).start env b qtx).saved.savepoint,
        by simp [ended, hinit, hruns], hstart.trans (.go env b qtx _), suicides_go_of_excepted, ?_⟩
      simp [execute, hinit, hruns]

theorem Settled.trie_of_mem (hs : Settled s) (h : Unwritten s t) (ha : a ∈ t.deleteAddresses) :
    s.trie a = none :=
  (h.noted a ha).elim (hs.noted a) id

end TscState

theorem valueTransfers_of_excepted (acc : ByteCodeExecResult) (qtx : TscTransaction) (gasUsed : Nat) :
    ∃ acc', processResult acc qtx ⟨true, gasUsed, none⟩ = some acc' ∧
      acc'.valueTransfers = acc.valueTransfers ++ if qtx.value > 0 then [refundTx qtx] else [] := by
  refine ⟨_, rfl, ?_⟩
  simp

theorem valueTransfers_of_voutLimit (acc : ByteCodeExecResult) {qtx : TscTransaction}
    (hfits : qtx.GasFits) :
    ∃ acc', processResult acc qtx ⟨false, qtx.gas, voutLimitTx qtx⟩ = some acc' ∧
      acc'.valueTransfers = acc.valueTransfers ++ if qtx.value > 0 then [refundTx qtx] else [] := by
  have hgas := hfits.gas
  have hprice := hfits.gasPrice
  unfold INT64_MAX at hgas hprice
  have hlimit : ¬ (qtx.gas ≥ 2 ^ 64 ∨ qtx.gas ≥ 2 ^ 64 ∨ qtx.gasPrice ≥ 2 ^ 64) := by omega
  have hzero : Int.bmod (((qtx.gas : Int) - (qtx.gas % 2 ^ 64 : Nat)) * qtx.gasPrice) (2 ^ 64) = 0 := by
    rw [Nat.mod_eq_of_lt (by omega), sub_self, zero_mul]
    rfl
  have htransfer : (voutLimitTx qtx).toList = if qtx.value > 0 then [refundTx qtx] else [] := by
    rw [voutLimitTx]
    split <;> rfl
  refine ⟨{ acc with
      usedGas := (acc.usedGas + qtx.gas % 2 ^ 64) % 2 ^ 64
      valueTransfers := acc.valueTransfers ++ [] ++ (voutLimitTx qtx).toList },
    ?_, by rw [List.append_nil, htransfer]⟩
  rw [processResult]
  simp only [Bool.false_eq_true, if_false, hlimit, hzero, lt_self_iff_false, gt_iff_lt]

namespace TscState

variable {env : EvmEnv} {b : Behaviour} {qtx : TscTransaction} {s : TscState} {ctx : ExecContext}

/-- An execution that is given up leaves both tries alone. -/
theorem execute_of_given_up (hheight : ctx.params.nFixUTXOCacheHFHeight ≤ ctx.height)
    (hfailed : s.failed env b qtx = true) (hquiet : s.vmExcepted env b qtx = false) :
    let r := s.execute ctx env .Committed b qtx
    r.1.trie = s.trie ∧ r.1.stateUTXO = s.stateUTXO ∧
      (r.2 = ⟨true, qtx.gas, none⟩ ∨ r.2 = ⟨false, qtx.gas, voutLimitTx qtx⟩) := by
  intro r
  obtain ⟨htrie, hstate⟩ := prepare_frame env qtx s
  rcases execute_cases hheight env b qtx s with ⟨-, t, ht, hr⟩ | ⟨e, savepoint, hended, he, -, hr⟩
  · have hr : r = (t.clearCaches.release, ⟨true, qtx.gas, none⟩) := hr
    rw [hr]
    exact ⟨ht.trie.trans htrie, ht.stateUTXO.trans hstate, .inl rfl⟩
  · have hexcepted : e.excepted = false := by rwa [vmExcepted, hended] at hquiet
    rw [failed, hended] at hfailed
    dsimp only at hfailed
    rw [hexcepted, Bool.false_or] at hfailed
    have hr : r = (((e.finalize env qtx).deleteAccounts.rollback savepoint).clearCaches.release,
        ⟨false, qtx.gas, voutLimitTx qtx⟩) := by
      rw [show r = e.settle ctx env qtx savepoint from hr, Ended.settle,
        if_neg (by rw [hexcepted]; exact Bool.false_ne_true),
        if_pos hfailed, recover_of_le hheight]
    obtain ⟨htrie', hstate', -⟩ := frame_given_up env qtx e savepoint
    have hwritten := he.trans (.paidOut env qtx e)
    rw [hr]
    exact ⟨htrie'.trans (hwritten.trie.trans htrie),
      hstate'.trans (hwritten.stateUTXO.trans hstate), .inr rfl⟩

/-- After an exception of the virtual machine the caches are written out, with the noted addresses deleted. -/
theorem execute_of_vmExcepted (hs : Settled s) (hheight : ctx.params.nFixUTXOCacheHFHeight ≤ ctx.height)
    (hexcepted : s.vmExcepted env b qtx = true) (hsender : s.trie qtx.sender = none)
    (hauthor : s.trie env.author = none)
    (hrolled : ∀ e, s.ended env b qtx = some e → ∀ a, a ≠ qtx.sender → a ≠ env.author →
      RolledBack s (e.finalize env qtx) a) :
    let r := s.execute ctx env .Committed b qtx
    r.1.trie = s.trie ∧ (∀ a, r.1.stateUTXO a = if a ∈ r.1.deleteAddresses then none else s.stateUTXO a) ∧
      (∀ a ∈ r.1.deleteAddresses, s.trie a = none) ∧ ∃ gasUsed, r.2 = ⟨true, gasUsed, none⟩ := by
  intro r
  rcases execute_cases hheight env b qtx s with ⟨hended, -⟩ | ⟨e, savepoint, hended, he, hsuicides, hr⟩
  · rw [vmExcepted, hended] at hexcepted
    cases hexcepted
  have hwritten := ((Unwritten.prepare env qtx s hsender hauthor).trans he).trans (.paidOut env qtx e)
  have hexcepted : e.excepted = true := by rwa [vmExcepted, hended] at hexcepted
  have hfinal : e.finalize env qtx = paidOut env qtx e := by
    rw [finalize_eq, hsuicides hexcepted]
    rfl
  have hr : r = (((paidOut env qtx e).deleteAccounts.commitUTXO.commit env.eip158).release,
      ⟨true, qtx.gas - e.gasLeft, none⟩) := by
    rw [show r = e.settle ctx env qtx savepoint from hr, Ended.settle, if_pos hexcepted, hfinal]
  obtain ⟨htrie, hstate, hdelete⟩ := commit_deleteAccounts (paidOut env qtx e) env.eip158
  rw [hr]
  refine ⟨funext fun a => ?_, fun a => ?_, fun a ha => hs.trie_of_mem hwritten (hdelete ▸ ha), _, rfl⟩
  · rw [htrie]
    split
    · rename_i ha
      exact (hs.trie_of_mem hwritten ha).symm
    · rename_i ha
      have hnoted : ∀ a ∈ (s.prepare env qtx).deleteAddresses, a ∈ (paidOut env qtx e).deleteAddresses :=
        fun a ha => (he.trans (.paidOut env qtx e)).kept a ha
      have hne : a ≠ qtx.sender ∧ a ≠ env.author := by
        constructor
        · rintro rfl
          exact ha (hnoted _ List.mem_cons_self)
        · rintro rfl
          exact ha (hnoted _ (List.mem_cons_of_mem _ List.mem_cons_self))
      exact (hfinal ▸ hrolled e hended a hne.1 hne.2).trie_commit hs.idle hwritten.trie env.eip158
  · have hkept : (paidOut env qtx e).commitUTXO.stateUTXO a = s.stateUTXO a := by
      simp only [commitUTXO, hwritten.cacheUTXO, hs.cacheUTXO a, hwritten.stateUTXO]
    rw [hstate, hdelete, hkept]

/-- What is written out lacks the accounts of the noted addresses, whatever happens to the coins. -/
theorem settled_commit (s : TscState) {t : TscState} (removeEmpty : Bool)
    (htrie : t.trie = s.deleteAccounts.trie) (hcache : t.cache = s.deleteAccounts.cache)
    (hnoted : t.deleteAddresses = s.deleteAccounts.deleteAddresses) :
    Settled (t.commitUTXO.commit removeEmpty).release := by
  have hcommit : (t.commitUTXO.commit removeEmpty).trie =
      (s.deleteAccounts.commit removeEmpty).trie := by
    cases removeEmpty <;> simp [commit, commitUTXO, removeEmptyAccounts, htrie, hcache]
  have hkept : (t.commitUTXO.commit removeEmpty).deleteAddresses = s.deleteAddresses := by
    rw [← (foldl_kill_frame s s.deleteAddresses).2.2.2.2.2]
    cases removeEmpty <;> exact hnoted
  refine ⟨⟨fun _ => rfl, rfl⟩, fun _ => by cases removeEmpty <;> rfl, fun a ha => ?_⟩
  have hmem : a ∈ s.deleteAddresses := hkept ▸ ha
  exact (congrFun hcommit a).trans ((trie_commit_foldl_kill s removeEmpty _ a).trans (if_pos hmem))

/-- Every execution leaves nothing cached, and no account at an address that is noted. -/
theorem Settled.execute (hs : Settled s) (hheight : ctx.params.nFixUTXOCacheHFHeight ≤ ctx.height)
    (hsender : s.trie qtx.sender = none) (hauthor : s.trie env.author = none) :
    Settled (s.execute ctx env .Committed b qtx).1 := by
  have hprepare := Unwritten.prepare env qtx s hsender hauthor
  rcases execute_cases hheight env b qtx s with ⟨-, t, ht, hr⟩ | ⟨e, savepoint, -, he, -, hr⟩
  · have hwritten := hprepare.trans ht
    rw [hr]
    exact ⟨⟨fun _ => rfl, rfl⟩, fun _ => rfl,
      fun a ha => (congrFun hwritten.trie a).trans (hs.trie_of_mem hwritten ha)⟩
  · rw [hr, Ended.settle]
    split
    · exact settled_commit (e.finalize env qtx) env.eip158 rfl rfl rfl
    · dsimp only
      split
      · obtain ⟨htrie, -, hdelete'⟩ := frame_given_up env qtx e savepoint
        have hwritten := (hprepare.trans he).trans (.paidOut env qtx e)
        rw [recover_of_le hheight]
        refine ⟨⟨fun _ => rfl, rfl⟩, fun _ => rfl, fun a ha => ?_⟩
        exact (congrFun (htrie.trans hwritten.trie) a).trans (hs.trie_of_mem hwritten (hdelete' ▸ ha))
      · exact settled_commit (e.finalize env qtx) env.eip158 rfl rfl rfl

/-- In a block whose transactions come from plain addresses, every execution starts from a settled state if the first does. -/
theorem settled_of_mem_executions (hheight : ctx.params.nFixUTXOCacheHFHeight ≤ ctx.height)
    (txs : List (Behaviour × TscTransaction)) (hs : Settled s)
    (hplain : ∀ e ∈ executions ctx env txs s, e.1.trie e.2.2.sender = none ∧ e.1.trie env.author = none) :
    ∀ e ∈ executions ctx env txs s, Settled e.1 := by
  induction txs generalizing s with
  | nil => simp [executions]
  | cons tx rest ih =>
    obtain ⟨b, qtx⟩ := tx
    simp only [executions] at hplain ⊢
    split at hplain
    · rename_i hversion
      simp [hversion]
    · rename_i hversion
      rw [if_neg hversion]
      split at hplain
      · rename_i hunused
        rw [if_pos hunused]
        exact ih hs hplain
      · rename_i hunused
        rw [if_neg hunused]
        obtain ⟨hfirst, hrest⟩ := List.forall_mem_cons.mp hplain
        exact List.forall_mem_cons.mpr ⟨hs, ih (hs.execute hheight hfirst.1 hfirst.2) hrest⟩

/-- A failed execution leaves the accounts as they were and returns the coins. Of the coins that the state keeps only those of addresses to be deleted go, and only after an exception of the virtual machine. -/
theorem execute_of_failed (hheight : ctx.params.nFixUTXOCacheHFHeight ≤ ctx.height) (hfits : qtx.GasFits)
    (hfailed : s.failed env b qtx = true)
    (hrolled : s.vmExcepted env b qtx = true → Settled s ∧ s.trie qtx.sender = none ∧
      s.trie env.author = none ∧
      ∀ e, s.ended env b qtx = some e → ∀ a, a ≠ qtx.sender → a ≠ env.author →
        RolledBack s (e.finalize env qtx) a) :
    let r := s.execute ctx env .Committed b qtx
    r.1.trie = s.trie ∧
      (∀ a, r.1.stateUTXO a = if s.vmExcepted env b qtx = true ∧ a ∈ r.1.deleteAddresses then none
        else s.stateUTXO a) ∧
      (s.vmExcepted env b qtx = true → ∀ a ∈ r.1.deleteAddresses, s.trie a = none) ∧
      ∀ acc, ∃ acc', processResult acc qtx r.2 = some acc' ∧
        acc'.valueTransfers = acc.valueTransfers ++ if qtx.value > 0 then [refundTx qtx] else [] := by
  intro r
  cases hexcepted : s.vmExcepted env b qtx with
  | true =>
    obtain ⟨hs, hsender, hauthor, hrolled⟩ := hrolled hexcepted
    obtain ⟨htrie, hstate, hnoted, gasUsed, hresult⟩ :=
      execute_of_vmExcepted hs hheight hexcepted hsender hauthor hrolled
    refine ⟨htrie, fun a => ?_, fun _ => hnoted, fun acc => ?_⟩
    · rw [hstate a]
      simp [r]
    · rw [show r.2 = ⟨true, gasUsed, none⟩ from hresult]
      exact valueTransfers_of_excepted acc qtx gasUsed
  | false =>
    obtain ⟨htrie, hstate, hresult⟩ := execute_of_given_up hheight hfailed hexcepted
    refine ⟨htrie, fun a => ?_, nofun, fun acc => ?_⟩
    · rw [if_neg fun h => Bool.false_ne_true h.1]
      exact congrFun hstate a
    · rcases hresult with hresult | hresult
      · rw [show r.2 = ⟨true, qtx.gas, none⟩ from hresult]
        exact valueTransfers_of_excepted acc qtx _
      · rw [show r.2 = ⟨false, qtx.gas, voutLimitTx qtx⟩ from hresult]
        exact valueTransfers_of_voutLimit acc hfits

/-- A run that makes accounts only where there are none is rolled back by an exception. Nothing is said of empty accounts in the trie, which there are none of since they are removed. -/
theorem Spared.rolledBack (h : Spared env b qtx s) (hidle : Idle s)
    (hfull : ∀ a stored, s.trie a = some stored → (Account.ofStored stored).isEmpty = false)
    {e : Ended} (hended : s.ended env b qtx = some e) (hexcepted : e.excepted = true) {a : Address}
    (hsender : a ≠ qtx.sender) (hauthor : a ≠ env.author) :
    RolledBack s (e.finalize env qtx) a := by
  unfold ended at hended
  split at hended
  · rename_i hran
    rw [Bool.and_eq_true] at hran
    cases hended
    obtain ⟨hlogged, _, hsame⟩ :=
      logged_go hidle.2 h.fresh hran.1 hran.2 (h.along hran.2) (h.notedCodeless hidle.2)
    have hnew : (((s.prepare env qtx).start env b qtx).go env b qtx).state.newAddress = 0 :=
      hlogged.newAddress.trans (logged_charged env qtx s).newAddress
    generalize hgo : ((s.prepare env qtx).start env b qtx).go env b qtx = e at *
    have hfinal : (e.finalize env qtx).account a = e.state.account a := by
      rw [finalize_eq, ← hgo, suicides_go_of_excepted (hgo ▸ hexcepted), hgo, List.foldl_nil, paidOut,
        account_addBalance ((Logged.addBalance hnew _ _).newAddress.trans hnew), if_neg hauthor,
          account_addBalance hnew, if_neg hsender]
    have hcontent : (e.state.account a).map Account.content = (s.account a).map Account.content := by
      rw [(hsame hexcepted).2 a, account_charged_of_ne env hidle.2 hsender]
    rw [RolledBack, hfinal]
    refine ⟨hcontent, fun account haccount hempty => ?_⟩
    rw [haccount, TscState.account, hidle.1 a, Option.none_or, Option.map_map, Option.map_some,
      eq_comm, Option.map_eq_some_iff] at hcontent
    obtain ⟨stored, hstored, hcontent⟩ := hcontent
    have hfull := hfull a stored hstored
    rw [Account.isEmpty_eq_of_content hcontent, hempty] at hfull
    cases hfull
  · cases hended

end TscState

/-! ### A sender that a contract has paid -/

namespace FailedCall

open TscState

def env : EvmEnv := (PaidContract.block 7).env PaidContract.engine

def ctx : ExecContext := (PaidContract.block 7).ctx PaidContract.txHash mainParams

def funded : TscState :=
  { TscState.empty with
    trie := fun a => if a = 1 then some ⟨1, 10, [0]⟩ else none
    stateUTXO := fun a => if a = 1 then some ⟨.ofNat 3, 0, 10, true⟩ else none }

def payout : Behaviour × TscTransaction :=
  (⟨21000, false, false, .call .call 5 4 (.stop []) (.stop []), 60000⟩,
    ⟨9, false, 1, 0, 100000, 40, .evmDefault, .ofNat 8, 0⟩)

def state : TscState :=
  { TscState.empty with
    trie := fun a => if a = 1 then some ⟨1, 6, [0]⟩ else none
    stateUTXO := fun a => if a = 1 then some ⟨.ofNat 1, 0, 6, true⟩
      else if a = 5 then some ⟨.ofNat 1, 1, 4, true⟩ else none }

def failing : Behaviour × TscTransaction :=
  (⟨21000, false, false, .throw, 0⟩, ⟨5, false, 1, 100, 100000, 40, .evmDefault, .ofNat 9, 0⟩)

theorem settled_state : Settled state :=
  ⟨⟨fun _ => rfl, rfl⟩, fun _ => rfl, fun _ ha => absurd ha List.not_mem_nil⟩

theorem gasFits_failing : failing.2.GasFits := ⟨by decide, by decide, by decide⟩

theorem spared_failing : Spared env failing.1 failing.2 state := by
  refine ⟨fun a ha => ?_, fun h => absurd h (by decide), fun _ => trivial⟩
  have hnoted : a ∈ [(5 : Address), 7] := ha
  rcases List.mem_pair.mp hnoted with rfl | rfl
  · decide
  · decide

theorem rolledBack_failing : ∀ e, state.ended env failing.1 failing.2 = some e → e.excepted = true →
    ∀ a, a ≠ failing.2.sender → a ≠ env.author →
    RolledBack state (e.finalize env failing.2) a := by
  intro e hended hexcepted a hsender hauthor
  refine spared_failing.rolledBack settled_state.idle (fun b stored hstored => ?_) hended hexcepted
    hsender hauthor
  have hcontract : b = 1 := by
    by_contra hne
    change (if b = 1 then some _ else none) = some stored at hstored
    rw [if_neg hne] at hstored
    cases hstored
  subst hcontract
  cases hstored
  decide

end FailedCall

open FailedCall TscState in
theorem execute_of_failed_call :
    failed env failing.1 failing.2 state = true ∧
      (state.execute ctx env .Committed failing.1 failing.2).1.trie = state.trie ∧
      ∀ acc, ∃ acc',
        processResult acc failing.2 (state.execute ctx env .Committed failing.1 failing.2).2 =
          some acc' ∧
        acc'.valueTransfers = acc.valueTransfers ++ [refundTx failing.2] := by
  have hfailed : failed env failing.1 failing.2 state = true := by decide
  have hheight : ctx.params.nFixUTXOCacheHFHeight ≤ ctx.height := by decide
  have h := execute_of_failed hheight gasFits_failing hfailed fun hexcepted =>
    ⟨settled_state, by decide, by decide,
    fun e hended => rolledBack_failing e hended (by rwa [vmExcepted, hended] at hexcepted)⟩
  exact ⟨hfailed, h.1, h.2.2.2⟩

open FailedCall TscState in
/-- The state has a coin for the sender, which a contract has paid, and the failed call removes it. -/
theorem coin_of_sender_removed :
    let paid := (funded.execute ctx env .Committed payout.1 payout.2).1
    [1, 5].map (fun a => (paid.trie a, paid.stateUTXO a)) = [1, 5].map
    (fun a => (state.trie a, state.stateUTXO a)) ∧ Settled state ∧
    ctx.params.nFixUTXOCacheHFHeight ≤ ctx.height ∧ state.trie failing.2.sender = none ∧
    state.trie env.author = none ∧
      vmExcepted env failing.1 failing.2 state = true ∧
      (∀ e, state.ended env failing.1 failing.2 = some e → e.excepted = true →
        ∀ a, a ≠ failing.2.sender → a ≠ env.author →
        RolledBack state (e.finalize env failing.2) a) ∧
      (state.execute ctx env .Committed failing.1 failing.2).1.stateUTXO ≠ state.stateUTXO := by
  refine ⟨by decide, settled_state, by decide, by decide, by decide, by decide, rolledBack_failing,
    fun hsame => ?_⟩
  have hkept := congrFun hsame 5
  have hgone : (state.execute ctx env .Committed failing.1 failing.2).1.stateUTXO 5 = none := by decide
  rw [hgone] at hkept
  cases hkept

end TscPow
