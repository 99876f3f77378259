import TscPow.Base.Journal
import TscPow.Contract.Results

/-!
# Accounts, coins of contracts, and the journal

`State` of `libethereum` with the parts that `TscState` (`tsc/tscstate.cpp`) adds: the coin of every contract, and the list of transfers of the running transaction. Changes are made in a cache over the stored accounts and logged, so that `rollback` can undo those since a savepoint. The transfers, the addresses to delete and the address reserved for a new contract are not logged and survive a rollback.

The storage of contracts is left out, and code stands for its hash.
-/

namespace TscPow

abbrev U256 := BitVec 256

/-! ### Accounts -/

/-- `Account`, as it sits in the cache. -/
structure Account where
  isAlive : Bool
  isUnchanged : Bool
  nonce : U256
  balance : U256
  code : List Byte
deriving DecidableEq

/-- An account in the trie, where only living ones are. -/
structure StoredAccount where
  nonce : U256
  balance : U256
  code : List Byte
deriving DecidableEq

namespace Account

def new (nonce balance : U256) : Account := ⟨true, false, nonce, balance, []⟩

/-- `Account()`, what `m_cache[address]` makes of a missing entry. -/
def dead : Account := ⟨false, false, 0, 0, []⟩

def ofStored (a : StoredAccount) : Account := ⟨true, true, a.nonce, a.balance, a.code⟩

def stored (a : Account) : StoredAccount := ⟨a.nonce, a.balance, a.code⟩

def isDirty (a : Account) : Bool := !a.isUnchanged

def isEmpty (a : Account) : Bool := a.nonce == 0 && a.balance == 0 && a.code.isEmpty

def addBalance (value : U256) (a : Account) : Account :=
  { a with balance := a.balance + value, isUnchanged := false }

def incNonce (a : Account) : Account := { a with nonce := a.nonce + 1, isUnchanged := false }

def decNonce (a : Account) : Account := { a with nonce := a.nonce - 1, isUnchanged := false }

def setNewCode (code : List Byte) (a : Account) : Account := { a with code }

def resetCode (a : Account) : Account := { a with code := [] }

def untouch (a : Account) : Account := { a with isUnchanged := true }

def kill (_ : Account) : Account := ⟨false, false, 0, 0, []⟩

def content (a : Account) : Bool × StoredAccount := (a.isAlive, a.stored)

/-- An account that counts as unchanged is the one in the trie. Of an empty one there it is only known that it is there: undoing a touch makes whatever it has become count as unchanged. -/
def Tracks (entry : Option StoredAccount) (a : Account) : Prop :=
  a.isUnchanged = true → ∃ stored, entry = some stored ∧
    ((ofStored stored).isEmpty = false → a.stored = stored)

theorem tracks_of_isUnchanged_eq_false {entry : Option StoredAccount} {a : Account}
    (h : a.isUnchanged = false) : a.Tracks entry := by
  intro h'
  rw [h] at h'
  cases h'

end Account

/-! ### The state -/

inductive Change where
  | balance (address : Address) (value : U256)
  | nonce (address : Address)
  | create (address : Address)
  | newCode (address : Address)
  | touch (address : Address)
deriving DecidableEq

/-- Only empty accounts of the trie are logged as touched, and only accounts outside it get new code. -/
def Change.Fits (trie : Address → Option StoredAccount) : Change → Prop
  | .touch a => ∃ stored, trie a = some stored ∧ (Account.ofStored stored).isEmpty = true
  | .newCode a => trie a = none
  | .balance .. | .nonce _ | .create _ => True

structure Vin where
  hash : Uint256
  nVout : BitVec 32
  value : U256
  alive : Bool
deriving DecidableEq

structure TransferInfo where
  sender : Address
  receiver : Address
  value : U256
deriving DecidableEq

/-- `TscState`, with `deleteAddresses` of the seal engine. -/
structure TscState where
  trie : Address → Option StoredAccount
  cache : Address → Option Account
  changeLog : List Change
  stateUTXO : Address → Option Vin
  cacheUTXO : Address → Option Vin
  transfers : List TransferInfo
  newAddress : Address
  deleteAddresses : List Address

namespace TscState

def empty : TscState where
  trie _ := none
  cache _ := none
  changeLog := []
  stateUTXO _ := none
  cacheUTXO _ := none
  transfers := []
  newAddress := 0
  deleteAddresses := []

def account (s : TscState) (a : Address) : Option Account :=
  (s.cache a).or ((s.trie a).map Account.ofStored)

def addressInUse (s : TscState) (a : Address) : Bool := (s.account a).isSome

def balance (s : TscState) (a : Address) : U256 := ((s.account a).map Account.balance).getD 0

def getNonce (s : TscState) (a : Address) : U256 := ((s.account a).map Account.nonce).getD 0

def code (s : TscState) (a : Address) : List Byte := ((s.account a).map Account.code).getD []

def addressHasCode (s : TscState) (a : Address) : Bool := !(s.code a).isEmpty

def vin (s : TscState) (a : Address) : Option Vin := (s.cacheUTXO a).or (s.stateUTXO a)

/-- Changes an account in the cache. `account` has loaded it before, if there is one. -/
def modify (s : TscState) (a : Address) (f : Account → Account) : TscState :=
  { s with cache := Function.update s.cache a (some (f ((s.account a).getD .dead))) }

def log (s : TscState) (c : Change) : TscState := { s with changeLog := c :: s.changeLog }

def createAccount (s : TscState) (a : Address) (account : Account) : TscState :=
  { s with cache := Function.update s.cache a (some account) }.log (.create a)

/-- `addBalance`, with the address that receives the amount: for an account that does not exist, `const_cast` puts the reserved address in the place of the argument. -/
def addBalance (s : TscState) (id : Address) (amount : U256) : TscState × Address :=
  let logged (s : TscState) (id : Address) := if amount ≠ 0 then s.log (.balance id amount) else s
  match s.account id with
  | some a =>
    let s := if !a.isDirty && a.isEmpty then s.log (.touch id) else s
    (logged (s.modify id (·.addBalance amount)) id, id)
  | none =>
    if !s.addressInUse s.newAddress && s.newAddress != 0 then
      (logged ({ s with newAddress := 0 }.createAccount s.newAddress (.new 0 amount)) s.newAddress,
        s.newAddress)
    else (logged (s.createAccount id (.new 0 amount)) id, id)

/-- `subBalance`. Its guard against `NotEnoughCash` never fires: the callers have compared the balance. -/
def subBalance (s : TscState) (a : Address) (value : U256) : TscState :=
  if value = 0 then s else (s.addBalance a (-value)).1

/-- `transferBalance`, with the address that received the value. -/
def transferBalance (s : TscState) (sender receiver : Address) (value : U256) : TscState × Address :=
  let paid := (s.subBalance sender value).addBalance receiver value
  (if value > 0 then { paid.1 with transfers := paid.1.transfers ++ [⟨sender, paid.2, value⟩] }
    else paid.1, paid.2)

def incNonce (s : TscState) (a : Address) : TscState :=
  match s.account a with
  | some _ => (s.modify a Account.incNonce).log (.nonce a)
  | none => s.createAccount a (.new 1 0)

def setNewCode (s : TscState) (a : Address) (code : List Byte) : TscState :=
  (s.modify a (·.setNewCode code)).log (.newCode a)

/-- `kill`, which is also the body of the loop of `deleteAccounts`. -/
def kill (s : TscState) (a : Address) : TscState :=
  { s with
    cache := match s.account a with
      | some account => Function.update s.cache a (some account.kill)
      | none => s.cache
    cacheUTXO := match s.vin a with
      | some v => Function.update s.cacheUTXO a (some { v with alive := false })
      | none => s.cacheUTXO }

def deleteAccounts (s : TscState) : TscState := s.deleteAddresses.foldl kill s

/-- Notes an address for deletion that is about to receive a transfer and has no account. -/
def noteUnused (s : TscState) (a : Address) : TscState :=
  if s.addressInUse a then s else { s with deleteAddresses := a :: s.deleteAddresses }

/-! ### Going back and writing out -/

/-- One round of the loop of `rollback`. -/
def undo (s : TscState) : Change → TscState
  | .balance a value => s.modify a (·.addBalance (-value))
  | .nonce a => s.modify a Account.decNonce
  | .create a => { s with cache := Function.update s.cache a none }
  | .newCode a => s.modify a Account.resetCode
  | .touch a => s.modify a Account.untouch

def savepoint (s : TscState) : Nat := s.changeLog.length

def rollback (s : TscState) (savepoint : Nat) : TscState :=
  { Journal.takeBack undo changeLog savepoint s with
    changeLog := s.changeLog.drop (s.changeLog.length - savepoint) }

def clearCaches (s : TscState) : TscState := { s with cache := fun _ => none, cacheUTXO := fun _ => none }

/-- `tsc::commit`, and the clearing of the cache after it. -/
def commitUTXO (s : TscState) : TscState :=
  { s with
    stateUTXO := fun a => match s.cacheUTXO a with
      | some v => if v.alive then some v else none
      | none => s.stateUTXO a
    cacheUTXO := fun _ => none }

def removeEmptyAccounts (s : TscState) : TscState :=
  { s with
    cache := fun a => (s.cache a).map fun account =>
      if account.isDirty && account.isEmpty then account.kill else account }

def commit (s : TscState) (removeEmpty : Bool) : TscState :=
  let s := if removeEmpty then s.removeEmptyAccounts else s
  { s with
    trie := fun a => match s.cache a with
      | some account => if account.isDirty then if account.isAlive then some account.stored
          else none else s.trie a
      | none => s.trie a
    cache := fun _ => none
    changeLog := [] }

/-! ### What the operations do to accounts -/

section

variable {s t u : TscState} {a b id : Address} {f : Account → Account} {amount value : U256}

@[simp] theorem account_log (s : TscState) (c : Change) : (s.log c).account a = s.account a := rfl

theorem account_modify (s : TscState) (a b : Address) (f : Account → Account) :
    (s.modify a f).account b = if b = a then some (f ((s.account a).getD .dead)) else s.account b := by
  by_cases h : b = a
  · simp [account, modify, h]
  · simp [account, modify, h]

theorem account_createAccount (s : TscState) (a b : Address) (account : Account) :
    (s.createAccount a account).account b = if b = a then some account else s.account b := by
  by_cases h : b = a
  · simp [TscState.account, createAccount, log, h]
  · simp [TscState.account, createAccount, log, h]

/-- The same accounts, whether or not they count as changed. -/
def Same (s t : TscState) : Prop :=
  s.trie = t.trie ∧ ∀ a, (s.account a).map Account.content = (t.account a).map Account.content

theorem Same.refl (s : TscState) : Same s s := ⟨rfl, fun _ => rfl⟩

instance : IsTrans TscState Same := ⟨fun _ _ _ h h' => ⟨h.1.trans h'.1, fun a => (h.2 a).trans (h'.2 a)⟩⟩

theorem Same.modify (h : Same s t)
    (hf : ∀ x y : Account, x.content = y.content → (f x).content = (f y).content) (a : Address) :
    Same (s.modify a f) (t.modify a f) := by
  refine ⟨h.1, fun b => ?_⟩
  rw [account_modify, account_modify]
  split
  · have hcontent := h.2 a
    cases hs : s.account a <;> cases ht : t.account a <;>
      simp only [hs, ht, Option.map_some, Option.map_none, reduceCtorEq,
      Option.some.injEq] at hcontent
    · rfl
    · exact congrArg some (hf _ _ hcontent)
  · exact h.2 b

theorem same_modify {account : Account} (ha : s.account a = some account)
    (hf : (f account).content = account.content) :
    Same (s.modify a f) s := by
  refine ⟨rfl, fun b => ?_⟩
  rw [account_modify]
  split
  case isTrue h => rw [h, ha, Option.getD_some, Option.map_some, Option.map_some, hf]
  case isFalse => rfl

theorem Same.undo (h : Same s t) (c : Change) : Same (s.undo c) (t.undo c) := by
  have hcontent : ∀ x y : Account, x.content = y.content → x.isAlive = y.isAlive ∧
      x.nonce = y.nonce ∧ x.balance = y.balance ∧ x.code = y.code := by
    intro x y hxy
    simpa [Account.content, Account.stored] using hxy
  cases c with
  | balance a value =>
    refine h.modify (fun x y hxy => ?_) a
    obtain ⟨hlive, hnonce, hbalance, hcode⟩ := hcontent x y hxy
    simp [Account.content, Account.stored, Account.addBalance, hlive, hnonce, hbalance, hcode]
  | nonce a =>
    refine h.modify (fun x y hxy => ?_) a
    obtain ⟨hlive, hnonce, hbalance, hcode⟩ := hcontent x y hxy
    simp [Account.content, Account.stored, Account.decNonce, hlive, hnonce, hbalance, hcode]
  | newCode a =>
    refine h.modify (fun x y hxy => ?_) a
    obtain ⟨hlive, hnonce, hbalance, hcode⟩ := hcontent x y hxy
    simp [Account.content, Account.stored, Account.resetCode, hlive, hnonce, hbalance]
  | touch a => exact h.modify (f := Account.untouch) (fun x y hxy => hxy) a
  | create a =>
    refine ⟨h.1, fun b => ?_⟩
    by_cases hb : b = a
    · simp [TscState.undo, account, hb, h.1]
    · have := h.2 b
      simpa [TscState.undo, account, hb] using this

/-- Every account is alive, and agrees with the trie if it counts as unchanged. -/
def Sound (s : TscState) : Prop := ∀ a account, s.account a = some account →
    account.isAlive = true ∧ account.Tracks (s.trie a)

/-- The second state has come from the first by account operations: it has logged what it changed, no account of the first has lost its code, and the addresses noted for deletion had no account. -/
structure Logged (s t : TscState) : Prop where
  trie : t.trie = s.trie
  stateUTXO : t.stateUTXO = s.stateUTXO
  cacheUTXO : t.cacheUTXO = s.cacheUTXO
  newAddress : t.newAddress = s.newAddress
  journal : Journal.Extends undo changeLog Same s t
  sound : Sound s → Sound t ∧ ∃ cs, t.changeLog = cs ++ s.changeLog ∧ ∀ c ∈ cs, c.Fits s.trie
  keeps : ∀ a account, s.account a = some account →
    ∃ account', t.account a = some account' ∧ account'.isAlive = account.isAlive ∧
      account'.code = account.code
  noted : ∀ a ∈ s.deleteAddresses, a ∈ t.deleteAddresses
  unused : ∀ a ∈ t.deleteAddresses, a ∈ s.deleteAddresses ∨ s.account a = none

theorem Logged.refl (s : TscState) : Logged s s where
  trie := rfl
  stateUTXO := rfl
  cacheUTXO := rfl
  newAddress := rfl
  journal := .of_rel rfl (Same.refl s)
  sound h := ⟨h, [], rfl, by simp⟩
  keeps _ account h := ⟨account, h, rfl, rfl⟩
  noted _ h := h
  unused _ h := .inl h

theorem Logged.account_eq_none (h : Logged s t) (ha : t.account a = none) : s.account a = none := by
  cases hs : s.account a with
  | none => rfl
  | some account =>
    obtain ⟨account', ht, -⟩ := h.keeps a account hs
    rw [ha] at ht
    cases ht

theorem Logged.trans (h : Logged s t) (h' : Logged t u) : Logged s u where
  trie := h'.trie.trans h.trie
  stateUTXO := h'.stateUTXO.trans h.stateUTXO
  cacheUTXO := h'.cacheUTXO.trans h.cacheUTXO
  newAddress := h'.newAddress.trans h.newAddress
  journal := h.journal.trans (fun _ _ c hst => hst.undo c) h'.journal
  sound hs := by
    obtain ⟨ht, cs, hlog, hfits⟩ := h.sound hs
    obtain ⟨hu, cs', hlog', hfits'⟩ := h'.sound ht
    refine ⟨hu, cs' ++ cs, by rw [hlog', hlog, List.append_assoc], fun c hc => ?_⟩
    rw [h.trie] at hfits'
    exact (List.mem_append.mp hc).elim (hfits' c) (hfits c)
  keeps a account hs := by
    obtain ⟨account', ht, hlive, hcode⟩ := h.keeps a account hs
    obtain ⟨account'', hu, hlive', hcode'⟩ := h'.keeps a account' ht
    exact ⟨account'', hu, hlive'.trans hlive, hcode'.trans hcode⟩
  noted a ha := h'.noted a (h.noted a ha)
  unused a ha := by
    rcases h'.unused a ha with ht | ht
    · exact h.unused a ht
    · exact .inr (h.account_eq_none ht)

theorem Logged.of_account (htrie : t.trie = s.trie) (hstate : t.stateUTXO = s.stateUTXO)
    (hcache : t.cacheUTXO = s.cacheUTXO) (hnew : t.newAddress = s.newAddress)
    (hdelete : t.deleteAddresses = s.deleteAddresses) (hjournal : Journal.Extends undo changeLog Same s t)
    (hsound : Sound s → Sound t ∧ ∃ cs, t.changeLog = cs ++ s.changeLog ∧ ∀ c ∈ cs, c.Fits s.trie)
    (hkeeps : ∀ a account, s.account a = some account →
      ∃ account', t.account a = some account' ∧ account'.isAlive = account.isAlive ∧
        account'.code = account.code) :
    Logged s t where
  trie := htrie
  stateUTXO := hstate
  cacheUTXO := hcache
  newAddress := hnew
  journal := hjournal
  sound := hsound
  keeps := hkeeps
  noted a ha := by rwa [hdelete]
  unused a ha := by rw [hdelete] at ha; exact .inl ha

theorem Sound.modify (hs : Sound s) {account : Account} (ha : s.account a = some account)
    (hf : ∀ x, (f x).isAlive = x.isAlive ∧ (f x).code = x.code ∧ (f x).isUnchanged = false) :
    Sound (s.modify a f) := by
  intro b account' hb
  rw [account_modify] at hb
  split at hb
  case isTrue h =>
    rw [ha, Option.getD_some, Option.some.injEq] at hb
    subst hb
    exact ⟨(hf account).1.trans (hs a account ha).1,
      Account.tracks_of_isUnchanged_eq_false (hf account).2.2⟩
  case isFalse => exact hs b account' hb

theorem keeps_modify
    (hf : ∀ x, (f x).isAlive = x.isAlive ∧ (f x).code = x.code ∧ (f x).isUnchanged = false)
    (b : Address) (account : Account) (hb : s.account b = some account) :
    ∃ account', (s.modify a f).account b = some account' ∧
      account'.isAlive = account.isAlive ∧ account'.code = account.code := by
  rw [account_modify]
  split
  case isTrue h =>
    rw [← h, hb]
    exact ⟨_, rfl, (hf account).1, (hf account).2.1⟩
  case isFalse => exact ⟨account, hb, rfl, rfl⟩

theorem Logged.modify {account : Account} {c : Change} (ha : s.account a = some account)
    (hc : c.Fits s.trie)
    (hf : ∀ x, (f x).isAlive = x.isAlive ∧ (f x).code = x.code ∧ (f x).isUnchanged = false)
    {g : Account → Account} (hundo : ∀ u : TscState, u.undo c = u.modify a g)
    (hback : (g (f account)).content = account.content) :
    Logged s ((s.modify a f).log c) := by
  refine .of_account rfl rfl rfl rfl rfl (.change rfl ?_)
    (fun hs => ⟨hs.modify ha hf, [c], rfl, by simpa using hc⟩)
    fun b account hb => keeps_modify hf b account hb
  refine ⟨by rw [hundo]; rfl, fun b => ?_⟩
  rw [hundo, account_modify, account_log, account_log, account_modify, account_modify]
  by_cases h : b = a
  · simp [h, ha, hback]
  · simp [h]

theorem Logged.modify_same {account : Account} (ha : s.account a = some account)
    (hf : ∀ x, (f x).isAlive = x.isAlive ∧ (f x).code = x.code ∧ (f x).isUnchanged = false)
    (hback : (f account).content = account.content) :
    Logged s (s.modify a f) :=
  .of_account rfl rfl rfl rfl rfl (.of_rel rfl (same_modify ha hback))
    (fun hs => ⟨hs.modify ha hf, [], rfl, by simp⟩)
    fun b account hb => keeps_modify hf b account hb

theorem Logged.log_touch {account : Account} (ha : s.account a = some account)
    (hclean : account.isDirty = false) (hempty : account.isEmpty = true) :
    Logged s (s.log (.touch a)) := by
  refine .of_account rfl rfl rfl rfl rfl
    (.change rfl (same_modify (s := s.log _) (f := Account.untouch) ha rfl)) (fun hs => ?_)
    fun _ account hb => ⟨account, hb, rfl, rfl⟩
  obtain ⟨stored, htrie, hstored⟩ := (hs a account ha).2 (by simpa [Account.isDirty] using hclean)
  refine ⟨hs, [.touch a], rfl, fun c hc => ?_⟩
  rw [List.mem_singleton.mp hc]
  refine ⟨stored, htrie, ?_⟩
  by_contra hfull
  rw [← hstored (Bool.eq_false_iff.mpr hfull)] at hfull
  exact hfull hempty

theorem Logged.createAccount (ha : s.account a = none) {account : Account}
    (hlive : account.isAlive = true) (hdirty : account.isUnchanged = false) {t : TscState}
    (ht : t = s.createAccount a account ∨ ∃ value,
      t = (s.createAccount a account).log (.balance a value)) : Logged s t := by
  rw [TscState.account, Option.or_eq_none_iff] at ha
  have hother : ∀ b account', s.account b = some account' → t.account b = some account' := by
    intro b account' hb
    have h : b ≠ a := by
      rintro rfl
      rw [TscState.account, ha.1, ha.2] at hb
      cases hb
    rcases ht with rfl | ⟨value, rfl⟩ <;> simp [account_createAccount, h, hb]
  have hkeeps : ∀ b account', s.account b = some account' → ∃ account'', t.account b = some account'' ∧
      account''.isAlive = account'.isAlive ∧ account''.code = account'.code :=
    fun b account' hb => ⟨account', hother b account' hb, rfl, rfl⟩
  have hsound : Sound s → Sound (s.createAccount a account) := by
    intro hs b account' hb
    rw [account_createAccount] at hb
    split at hb
    · cases hb
      exact ⟨hlive, Account.tracks_of_isUnchanged_eq_false hdirty⟩
    · exact hs b account' hb
  -- undoing the creation leaves what the trie has, which is nothing
  rcases ht with rfl | ⟨value, rfl⟩
  · refine .of_account rfl rfl rfl rfl rfl ⟨[.create a], rfl, rfl, fun b => ?_⟩
      (fun hs => ⟨hsound hs, [.create a], rfl, by simp [Change.Fits]⟩) hkeeps
    by_cases h : b = a <;> simp [h, undo, TscState.createAccount, TscState.account, log, ha.1, ha.2]
  · refine .of_account rfl rfl rfl rfl rfl ⟨[.balance a value, .create a], rfl, rfl, fun b => ?_⟩
      (fun hs => ⟨hsound hs, [.balance a value, .create a], rfl, by simp [Change.Fits]⟩) hkeeps
    by_cases h : b = a <;>
      simp [h, undo, TscState.modify, TscState.createAccount, TscState.account, log, ha.1, ha.2]

theorem Logged.addAmount {account : Account} (ha : s.account a = some account) (amount : U256) :
    Logged s (if amount ≠ 0 then (s.modify a (·.addBalance amount)).log (.balance a amount)
      else s.modify a (·.addBalance amount)) := by
  split
  · refine .modify ha trivial (fun x => ⟨rfl, rfl, rfl⟩) (g := fun x => x.addBalance (-amount))
      (fun u => rfl) ?_
    simp [Account.content, Account.stored, Account.addBalance]
  · rename_i hzero
    refine .modify_same ha (fun x => ⟨rfl, rfl, rfl⟩) ?_
    simp [Account.content, Account.stored, Account.addBalance, not_not.mp hzero]

theorem addBalance_of_some {account : Account} (ha : s.account id = some account) (amount : U256) :
    s.addBalance id amount =
      let s := if !account.isDirty && account.isEmpty then s.log (.touch id) else s
      (if amount ≠ 0 then (s.modify id (·.addBalance amount)).log (.balance id amount)
        else s.modify id (·.addBalance amount), id) := by
  rw [addBalance, ha]

theorem addBalance_of_none (ha : s.account id = none) (hnew : s.newAddress = 0) (amount : U256) :
    s.addBalance id amount =
      (if amount ≠ 0 then (s.createAccount id (.new 0 amount)).log (.balance id amount)
        else s.createAccount id (.new 0 amount), id) := by
  rw [addBalance, ha, hnew]
  simp

theorem addBalance_snd (hnew : s.newAddress = 0) (id : Address) (amount : U256) :
    (s.addBalance id amount).2 = id := by
  cases ha : s.account id with
  | some account => rw [addBalance_of_some ha]
  | none => rw [addBalance_of_none ha hnew]

theorem Logged.addBalance (hnew : s.newAddress = 0) (id : Address) (amount : U256) :
    Logged s (s.addBalance id amount).1 := by
  cases ha : s.account id with
  | some account =>
    rw [addBalance_of_some ha]
    split
    case isTrue htouch =>
      rw [Bool.and_eq_true, Bool.not_eq_true'] at htouch
      exact (Logged.log_touch ha htouch.1 htouch.2).trans (.addAmount (s := s.log _) ha amount)
    case isFalse => exact .addAmount ha amount
  | none =>
    rw [addBalance_of_none ha hnew]
    split
    · exact .createAccount ha rfl rfl (.inr ⟨amount, rfl⟩)
    · exact .createAccount ha rfl rfl (.inl rfl)

theorem account_addBalance (hnew : s.newAddress = 0) (id : Address) (amount : U256) (b : Address) :
    (s.addBalance id amount).1.account b =
      if b = id then some (((s.account id).map (Account.addBalance amount)).getD (.new 0 amount))
      else s.account b := by
  cases ha : s.account id with
  | some account =>
    rw [addBalance_of_some ha]
    split <;> split <;> simp [account_modify, ha]
  | none =>
    rw [addBalance_of_none ha hnew]
    split <;> simp [account_createAccount]

@[simp] theorem transfers_addBalance (s : TscState) (id : Address) (amount : U256) :
    (s.addBalance id amount).1.transfers = s.transfers := by
  rw [addBalance]
  split
  · split <;> split <;> rfl
  · split <;> split <;> rfl

theorem Logged.subBalance (hnew : s.newAddress = 0) (a : Address) (value : U256) :
    Logged s (s.subBalance a value) := by
  rw [TscState.subBalance]
  split
  · exact .refl s
  · exact .addBalance hnew a (-value)

theorem Logged.push (h : Logged s t) (transfers : List TransferInfo) : Logged s { t with transfers } where
  trie := h.trie
  stateUTXO := h.stateUTXO
  cacheUTXO := h.cacheUTXO
  newAddress := h.newAddress
  journal := by
    obtain ⟨cs, hlog, hsame⟩ := h.journal
    have hundo : ∀ (cs : List Change) (t : TscState),
        cs.foldl undo { t with transfers } = { cs.foldl undo t with transfers } := by
      intro cs
      induction cs with
      | nil => exact fun _ => rfl
      | cons c cs ih =>
        intro t
        rw [List.foldl_cons, List.foldl_cons, ← ih]
        cases c <;> rfl
    exact ⟨cs, hlog, by rw [hundo]; exact hsame⟩
  sound := h.sound
  keeps := h.keeps
  noted := h.noted
  unused := h.unused

theorem transferBalance_snd (hnew : s.newAddress = 0) (sender receiver : Address) (value : U256) :
    (s.transferBalance sender receiver value).2 = receiver :=
  addBalance_snd ((Logged.subBalance hnew sender value).newAddress.trans hnew) receiver value

theorem Logged.transferBalance (hnew : s.newAddress = 0) (sender receiver : Address) (value : U256) :
    Logged s (s.transferBalance sender receiver value).1 := by
  have hsub := Logged.subBalance hnew sender value
  have hadd := hsub.trans (.addBalance (hsub.newAddress.trans hnew) receiver value)
  simp only [TscState.transferBalance]
  split
  · exact hadd.push _
  · exact hadd

theorem account_transferBalance (s : TscState) (sender receiver : Address) (value : U256) (b : Address) :
    (s.transferBalance sender receiver value).1.account b =
      ((s.subBalance sender value).addBalance receiver value).1.account b := by
  simp only [transferBalance]
  split <;> rfl

theorem Logged.incNonce (s : TscState) (a : Address) : Logged s (s.incNonce a) := by
  rw [TscState.incNonce]
  split
  · rename_i account ha
    refine .modify ha trivial (fun x => ⟨rfl, rfl, rfl⟩) (g := Account.decNonce) (fun u => rfl) ?_
    simp [Account.content, Account.stored, Account.incNonce, Account.decNonce]
  · rename_i ha
    exact .createAccount ha rfl rfl (.inl rfl)

theorem Logged.noteUnused (s : TscState) (a : Address) : Logged s (s.noteUnused a) := by
  rw [TscState.noteUnused]
  split
  · exact .refl s
  · rename_i hunused
    refine ⟨rfl, rfl, rfl, rfl, .of_rel rfl (Same.refl s), fun hs => ⟨hs, [], rfl, by simp⟩,
      fun b account hb => ⟨account, hb, rfl, rfl⟩,
      fun b hb => List.mem_cons_of_mem _ hb, fun b hb => ?_⟩
    rcases List.mem_cons.mp hb with rfl | hb
    · exact .inr (by simpa [addressInUse] using hunused)
    · exact .inl hb

theorem undo_frame (s : TscState) (cs : List Change) :
    (cs.foldl undo s).trie = s.trie ∧ (cs.foldl undo s).stateUTXO = s.stateUTXO ∧
    (cs.foldl undo s).cacheUTXO = s.cacheUTXO ∧
      (cs.foldl undo s).newAddress = s.newAddress ∧ (cs.foldl undo s).transfers = s.transfers ∧
        (cs.foldl undo s).deleteAddresses = s.deleteAddresses := by
  induction cs generalizing s with
  | nil => exact ⟨rfl, rfl, rfl, rfl, rfl, rfl⟩
  | cons c cs ih =>
    obtain ⟨htrie, hstate, hcache, hnew, htransfers, hdelete⟩ := ih (s.undo c)
    rw [List.foldl_cons, htrie, hstate, hcache, hnew, htransfers, hdelete]
    cases c <;> exact ⟨rfl, rfl, rfl, rfl, rfl, rfl⟩

theorem tracks_undo {c : Change} (hc : c.Fits s.trie)
    (hs : ∀ a account, s.account a = some account → account.Tracks (s.trie a)) :
    ∀ a account, (s.undo c).account a = some account → account.Tracks (s.trie a) := by
  intro b account hb
  cases c with
  | balance a value =>
    rw [undo, account_modify] at hb
    split at hb
    · cases hb
      exact Account.tracks_of_isUnchanged_eq_false rfl
    · exact hs b account hb
  | nonce a =>
    rw [undo, account_modify] at hb
    split at hb
    · cases hb
      exact Account.tracks_of_isUnchanged_eq_false rfl
    · exact hs b account hb
  | create a =>
    by_cases h : b = a
    · -- what is left is the account in the trie
      simp only [undo, TscState.account, h, Function.update_self, Option.none_or,
        Option.map_eq_some_iff] at hb
      obtain ⟨stored, htrie, rfl⟩ := hb
      exact fun _ => ⟨stored, h ▸ htrie, fun _ => rfl⟩
    · exact hs b account (by simpa [undo, TscState.account, h] using hb)
  | newCode a =>
    rw [undo, account_modify] at hb
    split at hb
    case isTrue h =>
      cases hb
      -- an account outside the trie never counts as unchanged
      refine fun hclean => ?_
      cases ha : s.account a with
      | none => simp [ha, Account.resetCode, Account.dead] at hclean
      | some account' =>
        obtain ⟨stored, htrie, -⟩ := hs a account' ha (by simpa [ha, Account.resetCode] using hclean)
        rw [hc] at htrie
        cases htrie
    case isFalse => exact hs b account hb
  | touch a =>
    obtain ⟨stored, htrie, hempty⟩ := hc
    rw [undo, account_modify] at hb
    split at hb
    case isTrue h =>
      refine fun _ => ⟨stored, h ▸ htrie, fun hfull => ?_⟩
      rw [hempty] at hfull
      cases hfull
    case isFalse => exact hs b account hb

theorem tracks_foldl_undo {cs : List Change} (hcs : ∀ c ∈ cs, c.Fits s.trie)
    (hs : ∀ a account, s.account a = some account → account.Tracks (s.trie a)) :
    ∀ a account, (cs.foldl undo s).account a = some account → account.Tracks (s.trie a) := by
  induction cs generalizing s with
  | nil => exact hs
  | cons c cs ih =>
    have htrie : (s.undo c).trie = s.trie := (undo_frame s [c]).1
    have hc := hcs c List.mem_cons_self
    rw [← htrie]
    exact ih (fun c' hc' => htrie ▸ hcs c' (List.mem_cons_of_mem c hc')) (htrie ▸ tracks_undo hc hs)

theorem Logged.same_rollback (h : Logged s t) : Same (t.rollback s.savepoint) s := h.journal.takeBack

theorem Logged.rollback (h : Logged s t) : Logged s (t.rollback s.savepoint) := by
  obtain ⟨htrie, hstate, hcache, hnew, -, hdelete⟩ := undo_frame t (Journal.since changeLog s.savepoint t)
  have hlog : (t.rollback s.savepoint).changeLog = s.changeLog := by
    obtain ⟨cs, hlog, -⟩ := h.journal
    simp [TscState.rollback, savepoint, hlog]
  have hsame := h.same_rollback
  refine ⟨htrie.trans h.trie, hstate.trans h.stateUTXO, hcache.trans h.cacheUTXO,
    hnew.trans h.newAddress, .of_rel hlog hsame,
    fun hs => ⟨fun a account ha => ?_, [], hlog, by simp⟩, fun a account ha => ?_, fun a ha => ?_,
      fun a ha => ?_⟩
  · have hcontent := hsame.2 a
    rw [ha, Option.map_some, eq_comm, Option.map_eq_some_iff] at hcontent
    obtain ⟨account', ha', hcontent⟩ := hcontent
    refine ⟨(congrArg Prod.fst hcontent).symm.trans (hs a account' ha').1, ?_⟩
    obtain ⟨ht, cs, hlog, hfits⟩ := h.sound hs
    have htracks := tracks_foldl_undo (h.trie ▸ hfits) (fun b account hb => (ht b account hb).2) a account
    rw [← Journal.since_of_append hlog] at htracks
    change account.Tracks ((Journal.takeBack undo changeLog s.savepoint t).trie a)
    rw [Journal.takeBack, htrie]
    exact htracks ha
  · have hcontent := hsame.2 a
    rw [ha, Option.map_some, Option.map_eq_some_iff] at hcontent
    obtain ⟨account', ha', hcontent⟩ := hcontent
    simp only [Account.content, Account.stored, Prod.mk.injEq, StoredAccount.mk.injEq] at hcontent
    exact ⟨account', ha', hcontent.1, hcontent.2.2.2⟩
  · change a ∈ (Journal.takeBack undo changeLog s.savepoint t).deleteAddresses
    rw [Journal.takeBack, hdelete]
    exact h.noted a ha
  · change a ∈ (Journal.takeBack undo changeLog s.savepoint t).deleteAddresses at ha
    rw [Journal.takeBack, hdelete] at ha
    exact h.unused a ha

theorem Logged.setNewCode {account : Account} (h : Logged s t) (hs : s.account a = none)
    (ha : t.account a = some account) (hcode : account.code = []) (code : List Byte) :
    Logged s (t.setNewCode a code) where
  trie := h.trie
  stateUTXO := h.stateUTXO
  cacheUTXO := h.cacheUTXO
  newAddress := h.newAddress
  journal := by
    refine h.journal.trans (fun _ _ c hst => hst.undo c) (.change rfl ⟨rfl, fun b => ?_⟩)
    by_cases hb : b = a
    · simp [undo, TscState.setNewCode, account_modify, hb, ha, Account.content, Account.stored,
        Account.setNewCode, Account.resetCode, hcode]
    · simp [undo, TscState.setNewCode, account_modify, hb]
  sound hsound := by
    obtain ⟨ht, cs, hlog, hfits⟩ := h.sound hsound
    have htrie : s.trie a = none := by
      rw [TscState.account, Option.or_eq_none_iff, Option.map_eq_none_iff] at hs
      exact hs.2
    refine ⟨fun b account' hb => ?_, .newCode a :: cs, by rw [List.cons_append, ← hlog]; rfl, ?_⟩
    · rw [TscState.setNewCode, account_log, account_modify] at hb
      split at hb
      case isTrue hba =>
        rw [ha, Option.getD_some, Option.some.injEq] at hb
        subst hb
        refine ⟨(ht a account ha).1, fun hclean => ?_⟩
        obtain ⟨stored, hstored, -⟩ := (ht a account ha).2 hclean
        rw [h.trie, htrie] at hstored
        cases hstored
      case isFalse => exact ht b account' hb
    · simpa [Change.Fits, htrie] using hfits
  keeps b account' hb := by
    have hne : b ≠ a := by
      rintro rfl
      rw [hs] at hb
      cases hb
    rw [TscState.setNewCode, account_log, account_modify, if_neg hne]
    exact h.keeps b account' hb
  noted := h.noted
  unused := h.unused

theorem account_undo_congr (htrie : s.trie a = t.trie a) (h : s.account a = t.account a) (c : Change) :
    (s.undo c).account a = (t.undo c).account a := by
  have hmodify : ∀ (b : Address) (f : Account → Account),
      (s.modify b f).account a = (t.modify b f).account a := by
    intro b f
    rw [account_modify, account_modify]
    by_cases hab : a = b
    · rw [if_pos hab, if_pos hab, ← hab, h]
    · rw [if_neg hab, if_neg hab, h]
  cases c with
  | balance b value => exact hmodify b _
  | nonce b => exact hmodify b _
  | newCode b => exact hmodify b _
  | touch b => exact hmodify b _
  | create b =>
    by_cases hab : a = b
    · simp [undo, account, hab ▸ htrie, hab]
    · simpa [undo, account, hab] using h

theorem account_rollback_congr (htrie : s.trie = t.trie) (hlog : s.changeLog = t.changeLog)
    (h : s.account a = t.account a) (savepoint : Nat) :
    (s.rollback savepoint).account a = (t.rollback savepoint).account a := by
  have hundo : ∀ (cs : List Change) (s t : TscState), s.trie = t.trie → s.account a = t.account a →
      (cs.foldl undo s).account a = (cs.foldl undo t).account a := by
    intro cs
    induction cs with
    | nil => exact fun _ _ _ h => h
    | cons c cs ih =>
      intro s t htrie h
      refine ih _ _ ?_ (account_undo_congr (congrFun htrie a) h c)
      rw [show (s.undo c).trie = s.trie from (undo_frame s [c]).1,
        show (t.undo c).trie = t.trie from (undo_frame t [c]).1, htrie]
  change (Journal.takeBack undo changeLog savepoint s).account a =
    (Journal.takeBack undo changeLog savepoint t).account a
  rw [Journal.takeBack, Journal.takeBack, Journal.since, Journal.since, hlog]
  exact hundo _ s t htrie h

/-! ### The reserved address -/

def reserve (s : TscState) (newAddress : Address) : TscState := { s with newAddress }

@[simp] theorem account_reserve (s : TscState) (newAddress a : Address) :
    (s.reserve newAddress).account a = s.account a := rfl

theorem addBalance_reserve {newAddress : Address} (hid : s.account id = none)
    (hfree : s.account newAddress = none) (hne : newAddress ≠ 0) (hnew : s.newAddress = 0)
    (amount : U256) :
    (s.reserve newAddress).addBalance id amount = s.addBalance newAddress amount := by
  have hredirect :
      (!(s.reserve newAddress).addressInUse (s.reserve newAddress).newAddress &&
        (s.reserve newAddress).newAddress != 0) = true := by
    change (!(s.account newAddress).isSome && newAddress != 0) = true
    rw [hfree, bne_iff_ne.mpr hne]
    rfl
  rw [addBalance_of_none hfree hnew, addBalance, account_reserve, hid]
  simp only [hredirect, if_true]
  cases s
  cases hnew
  rfl

theorem incNonce_reserve (s : TscState) (newAddress a : Address) :
    (s.reserve newAddress).incNonce a = (s.incNonce a).reserve newAddress := by
  rw [incNonce, incNonce, account_reserve]
  cases s.account a <;> rfl

theorem subBalance_reserve (ha : s.account a ≠ none) (newAddress : Address) (value : U256) :
    (s.reserve newAddress).subBalance a value = (s.subBalance a value).reserve newAddress := by
  obtain ⟨account, ha⟩ := Option.ne_none_iff_exists'.mp ha
  rw [subBalance, subBalance]
  split
  · rfl
  · rw [addBalance_of_some ha, addBalance_of_some (s := s.reserve newAddress) ha]
    split <;> split <;> rfl

theorem transferBalance_zero (s : TscState) (sender receiver : Address) :
    s.transferBalance sender receiver 0 = s.addBalance receiver 0 := by
  simp [transferBalance, subBalance]

/-! ### Code and balances -/

theorem Same.code (h : Same s t) (a : Address) : s.code a = t.code a := by
  have hcontent := congrArg (Option.map fun c : Bool × StoredAccount => c.2.code) (h.2 a)
  rw [Option.map_map, Option.map_map] at hcontent
  exact congrArg (Option.getD · []) hcontent

theorem code_of_account_eq_none (ha : s.account a = none) : s.code a = [] := by rw [code, ha]; rfl

theorem Logged.code (h : Logged s t) (ha : s.account a ≠ none) : t.code a = s.code a := by
  obtain ⟨account, ha⟩ := Option.ne_none_iff_exists'.mp ha
  obtain ⟨account', ha', -, hcode⟩ := h.keeps a account ha
  rw [TscState.code, TscState.code, ha, ha']
  exact hcode

@[simp] theorem code_log (s : TscState) (c : Change) (b : Address) : (s.log c).code b = s.code b := rfl

theorem code_addBalance (hnew : s.newAddress = 0) (id : Address) (amount : U256) (b : Address) :
    (s.addBalance id amount).1.code b = s.code b := by
  rw [code, account_addBalance hnew]
  split
  case isTrue h => cases ha : s.account id <;> simp [code, h, ha, Account.new, Account.addBalance]
  case isFalse => rfl

theorem code_transferBalance (hnew : s.newAddress = 0) (sender receiver : Address) (value : U256)
    (b : Address) :
    (s.transferBalance sender receiver value).1.code b = s.code b := by
  have hsub : (s.subBalance sender value).code b = s.code b := by
    rw [subBalance]
    split
    · rfl
    · exact code_addBalance hnew sender _ b
  rw [← hsub, ← code_addBalance ((Logged.subBalance hnew sender value).newAddress.trans hnew)
    receiver value, code, code, account_transferBalance]

theorem account_incNonce (s : TscState) (a b : Address) :
    (s.incNonce a).account b =
      if b = a then some (((s.account a).map Account.incNonce).getD (.new 1 0)) else s.account b := by
  rw [incNonce]
  cases ha : s.account a <;> simp [account_modify, account_createAccount, ha]

theorem code_incNonce (s : TscState) (a b : Address) : (s.incNonce a).code b = s.code b := by
  rw [code, account_incNonce]
  split
  case isTrue h => cases ha : s.account a <;> simp [code, h, ha, Account.new, Account.incNonce]
  case isFalse => rfl

theorem code_setNewCode (s : TscState) (a : Address) (code : List Byte) (b : Address) :
    (s.setNewCode a code).code b = if b = a then code else s.code b := by
  rw [TscState.code, TscState.setNewCode, account_log, account_modify]
  split
  · rfl
  · rfl

@[simp] theorem code_noteUnused (s : TscState) (a b : Address) : (s.noteUnused a).code b = s.code b := by
  rw [noteUnused]
  split <;> rfl

/-! ### Killing and writing out -/

theorem account_kill (s : TscState) (a b : Address) :
    (s.kill a).account b = if b = a then (s.account a).map Account.kill else s.account b := by
  by_cases h : b = a
  · subst h
    simp only [kill, account, if_true]
    cases hcache : s.cache b <;> cases htrie : s.trie b <;> simp
    exact hcache
  · simp only [kill, account, h, if_false]
    cases s.cache a <;> cases s.trie a <;> simp [h]

theorem account_foldl_kill (s : TscState) (as : List Address) (b : Address) :
    (as.foldl kill s).account b = if b ∈ as then (s.account b).map Account.kill else s.account b := by
  induction as generalizing s with
  | nil => simp
  | cons a as ih =>
    rw [List.foldl_cons, ih, account_kill]
    by_cases h : b = a
    · subst h
      cases s.account b <;> simp [Account.kill]
    · simp [h]

theorem foldl_kill_frame (s : TscState) (as : List Address) :
    (as.foldl kill s).trie = s.trie ∧ (as.foldl kill s).changeLog = s.changeLog ∧
    (as.foldl kill s).stateUTXO = s.stateUTXO ∧
      (as.foldl kill s).transfers = s.transfers ∧ (as.foldl kill s).newAddress = s.newAddress ∧
        (as.foldl kill s).deleteAddresses = s.deleteAddresses := by
  induction as generalizing s with
  | nil => exact ⟨rfl, rfl, rfl, rfl, rfl, rfl⟩
  | cons a as ih =>
    obtain ⟨htrie, hlog, hstate, htransfers, hnew, hdelete⟩ := ih (s.kill a)
    exact ⟨htrie, hlog, hstate, htransfers, hnew, hdelete⟩

theorem trie_commit {account : Account} (ha : s.account a = some account)
    (hlive : account.isAlive = true) (hfull : account.isEmpty = false)
    (htracks : account.Tracks (s.trie a)) (removeEmpty : Bool) :
    ∃ stored, (s.commit removeEmpty).trie a = some stored ∧
      (stored = account.stored ∨ s.trie a = some stored ∧ account.isUnchanged = true) := by
  have hkept : (if removeEmpty then s.removeEmptyAccounts else s).cache a = s.cache a := by
    split
    · simp only [removeEmptyAccounts]
      cases hcache : s.cache a with
      | none => rfl
      | some cached =>
        have : cached = account := by simpa [TscState.account, hcache] using ha
        simp [this, hfull]
    · rfl
  have htrie : (if removeEmpty then s.removeEmptyAccounts else s).trie a = s.trie a := by
    split <;> rfl
  simp only [commit, hkept, htrie]
  cases hcache : s.cache a with
  | none =>
    simp only [TscState.account, hcache, Option.none_or, Option.map_eq_some_iff] at ha
    obtain ⟨stored, hstored, rfl⟩ := ha
    exact ⟨stored, hstored, .inl rfl⟩
  | some cached =>
    have : cached = account := by simpa [TscState.account, hcache] using ha
    subst this
    cases hdirty : cached.isDirty with
    | true => exact ⟨cached.stored, by simp [hdirty, hlive], .inl rfl⟩
    | false =>
      have hclean : cached.isUnchanged = true := by simpa [Account.isDirty] using hdirty
      obtain ⟨stored, hstored, -⟩ := htracks hclean
      exact ⟨stored, by simp [hdirty, hstored], .inr ⟨hstored, hclean⟩⟩

end

end TscState

end TscPow
