import TscPow.Contract.State

/-!
# Message calls

`Executive` and `ExtVM` of `libethereum`. What the bytecode of an account does is a tree of frames: transfers with calls, creations and self-destructions in any order and nesting, each frame ending in a normal stop, a self-destruction or a virtual-machine exception, which rolls the frame back and lets its caller go on. The tree is arbitrary; the state decides what each operation does.
-/

namespace TscPow

/-- What the calls take from the seal engine, the block and the hash functions: `createTscAddress` names the contract of a creation transaction, `contractAddress` the one an account makes with a given nonce. -/
structure EvmEnv where
  createTscAddress : Uint256 → BitVec 32 → Address
  contractAddress : Address → U256 → Address
  isPrecompiled : Address → Bool
  EIP158ForkBlock : Nat
  number : Nat
  gasLimit : Nat
  author : Address

def EvmEnv.eip158 (env : EvmEnv) : Bool := decide (env.number ≥ env.EIP158ForkBlock)

/-- `CALL`, or one of `CALLCODE` and `DELEGATECALL`, which run other code on the calling account. A `DELEGATECALL` moves no value. -/
inductive CallKind where
  | call
  | callCode
deriving DecidableEq

def CallKind.receiver : CallKind → Address → Address → Address
  | .call, _, target => target
  | .callCode, self, _ => self

/-- What the code of one account does until it halts. `lacksGas` is a call of a precompiled contract that cannot be paid for. A creation with an endowment throws (`CreateWithValue`). -/
inductive Frame where
  | stop (output : List Byte)
  | throw
  | suicide (target : Address)
  | call (kind : CallKind) (target : Address) (value : U256) (body rest : Frame)
  | lacksGas (target : Address) (rest : Frame)
  | create (hasInit : Bool) (body rest : Frame)

/-- The output of a frame that did not throw, and `SubState::suicides`. -/
structure Halt where
  output : List Byte
  suicides : List Address
deriving DecidableEq

namespace TscState

/-- `Executive::call`, up to the start of the code. -/
def enterCall (s : TscState) (self receiver : Address) (value : U256) : TscState :=
  ((s.noteUnused receiver).transferBalance self receiver value).1

/-- The creator's nonce counts up before the savepoint. -/
def enterCreate (env : EvmEnv) (s : TscState) (self : Address) : TscState × Address :=
  let created := (s.incNonce self).transferBalance self (env.contractAddress self (s.getNonce self)) 0
  (if env.eip158 then created.1.incNonce created.2 else created.1, created.2)

def runsCode (env : EvmEnv) (s : TscState) (target : Address) : Bool :=
  !env.isPrecompiled target && s.addressHasCode target

end TscState

def accrueSubState (suicides : List Address) (r : TscState × Option Halt) : TscState × Option Halt :=
  (r.1, r.2.map fun halt => { halt with suicides := suicides ++ halt.suicides })

/-- The run of a frame on the account `self`; without a `Halt` it threw, and the caller rolls it back. -/
def Frame.run (env : EvmEnv) : Frame → Address → TscState → TscState × Option Halt
  | .stop output, _, s => (s, some ⟨output, []⟩)
  | .throw, _, s => (s, none)
  | .suicide target, self, s =>
    (((s.noteUnused target).transferBalance self target (s.balance self)).1, some ⟨[], [self]⟩)
  | .call kind target value body rest, self, s =>
    if s.balance self < value then rest.run env self s
    else if s.runsCode env target then
      match body.run env (kind.receiver self target)
        (s.enterCall self (kind.receiver self target) value) with
      | (t, some halt) => accrueSubState halt.suicides (rest.run env self t)
      | (t, none) => rest.run env self (t.rollback s.savepoint)
    else rest.run env self (s.enterCall self (kind.receiver self target) value)
  | .lacksGas target rest, self, s =>
    rest.run env self (if env.eip158 then (s.addBalance target 0).1 else s)
  | .create hasInit body rest, self, s =>
    let created := s.enterCreate env self
    if hasInit then
      match body.run env created.2 created.1 with
      | (t, some halt) =>
        accrueSubState halt.suicides (rest.run env self (t.setNewCode created.2 halt.output))
      | (t, none) => rest.run env self (t.rollback (s.incNonce self).savepoint)
    else rest.run env self
      (if created.1.addressHasCode created.2 then created.1.setNewCode created.2 [] else created.1)

/-- What is asked of a run: of the state and the address whenever an account is created, and of the states before and after whenever a call or creation is rolled back. -/
structure Watch where
  created : TscState → Address → Prop
  reverted : TscState → TscState → Prop

/-- The run of a frame meets what is asked of it at every creation and every rollback. -/
def Frame.Along (env : EvmEnv) (w : Watch) : Frame → Address → TscState → Prop
  | .stop _, _, _ => True
  | .throw, _, _ => True
  | .suicide _, _, _ => True
  | .call kind target value body rest, self, s =>
    if s.balance self < value then rest.Along env w self s
    else if s.runsCode env target then
      body.Along env w (kind.receiver self target) (s.enterCall self (kind.receiver self target) value) ∧
        match body.run env (kind.receiver self target)
          (s.enterCall self (kind.receiver self target) value) with
        | (t, some _) => rest.Along env w self t
        | (t, none) => w.reverted s t ∧ rest.Along env w self (t.rollback s.savepoint)
    else rest.Along env w self (s.enterCall self (kind.receiver self target) value)
  | .lacksGas target rest, self, s =>
    (env.eip158 → s.account target = none → w.created s target) ∧ rest.Along env w self
    (if env.eip158 then (s.addBalance target 0).1 else s)
  | .create hasInit body rest, self, s =>
    let created := s.enterCreate env self
    w.created s created.2 ∧
      if hasInit then
        body.Along env w created.2 created.1 ∧
          match body.run env created.2 created.1 with
          | (t, some halt) => rest.Along env w self (t.setNewCode created.2 halt.output)
          | (t, none) => w.reverted s t ∧ rest.Along env w self (t.rollback (s.incNonce self).savepoint)
      else rest.Along env w self (if created.1.addressHasCode created.2 then
        created.1.setNewCode created.2 [] else created.1)

/-! ### A rule for runs -/

/-- A relation between the states before and after that holds along every run: what each operation of a frame has to satisfy. -/
structure Frame.Rule (env : EvmEnv) (w : Watch) (R : TscState → TscState → Prop) : Prop where
  refl : ∀ s, R s s
  trans : ∀ {s t u}, R s t → R t u → R s u
  newAddress : ∀ {s t}, R s t → t.newAddress = s.newAddress
  call : ∀ s self receiver value, s.newAddress = 0 → value ≤ s.balance self →
    R s (s.enterCall self receiver value)
  touch : ∀ s a, s.newAddress = 0 → (s.account a = none → w.created s a) → R s (s.addBalance a 0).1
  create : ∀ s self, s.newAddress = 0 → w.created s (s.enterCreate env self).2 →
    R s (s.enterCreate env self).1
  setCode : ∀ s self t code, s.newAddress = 0 → w.created s (s.enterCreate env self).2 →
    R (s.enterCreate env self).1 t →
    R s (t.setNewCode (s.enterCreate env self).2 code)
  revertCall : ∀ s t, s.newAddress = 0 → w.reverted s t → R s t → R s (t.rollback s.savepoint)
  revertCreate : ∀ s self t, s.newAddress = 0 → w.created s (s.enterCreate env self).2 → w.reverted s t →
    R (s.enterCreate env self).1 t → R s (t.rollback (s.incNonce self).savepoint)

theorem Frame.Rule.run {env : EvmEnv} {w : Watch} {R : TscState → TscState → Prop}
    (rule : Frame.Rule env w R) (f : Frame) {self : Address} {s : TscState}
    (hnew : s.newAddress = 0) (h : f.Along env w self s) : R s (f.run env self s).1 := by
  induction f generalizing self s with
  | stop output => exact rule.refl s
  | throw => exact rule.refl s
  | suicide target => exact rule.call s self target (s.balance self) hnew (BitVec.le_refl _)
  | call kind target value body rest ihbody ihrest =>
    simp only [Frame.Along] at h
    simp only [Frame.run]
    split
    case isTrue hless =>
      rw [if_pos hless] at h
      exact ihrest hnew h
    case isFalse hless =>
      rw [if_neg hless] at h
      have hcall := rule.call s self (kind.receiver self target) value hnew (BitVec.not_lt.mp hless)
      have hnew' := (rule.newAddress hcall).trans hnew
      split
      case isTrue hcode =>
        rw [if_pos hcode] at h
        obtain ⟨hbody, hrest⟩ := h
        have hran := rule.trans hcall (ihbody hnew' hbody)
        have hnewt := (rule.newAddress hran).trans hnew
        -- the frame of the call halts or is rolled back, and its caller goes on
        generalize body.run env (kind.receiver self target)
          (s.enterCall self (kind.receiver self target) value) = r at hrest hran hnewt ⊢
        obtain ⟨t, _ | halt⟩ := r
        · have hback := rule.revertCall s t hnew hrest.1 hran
          exact rule.trans hback (ihrest ((rule.newAddress hback).trans hnew) hrest.2)
        · exact rule.trans hran (ihrest hnewt hrest)
      case isFalse hcode =>
        rw [if_neg hcode] at h
        exact rule.trans hcall (ihrest hnew' h)
  | lacksGas target rest ihrest =>
    obtain ⟨htouch, hrest⟩ := h
    simp only [Frame.run]
    split
    case isTrue heip =>
      rw [if_pos heip] at hrest
      have htouched := rule.touch s target hnew (htouch heip)
      exact rule.trans htouched (ihrest ((rule.newAddress htouched).trans hnew) hrest)
    case isFalse heip =>
      rw [if_neg heip] at hrest
      exact ihrest hnew hrest
  | create hasInit body rest ihbody ihrest =>
    simp only [Frame.Along] at h
    simp only [Frame.run]
    obtain ⟨hcreated, h⟩ := h
    have hcreate := rule.create s self hnew hcreated
    have hnew' := (rule.newAddress hcreate).trans hnew
    split
    case isTrue hinit =>
      rw [if_pos hinit] at h
      obtain ⟨hbody, hrest⟩ := h
      have hran := ihbody hnew' hbody
      generalize body.run env (s.enterCreate env self).2 (s.enterCreate env self).1 = r at hrest hran ⊢
      obtain ⟨t, _ | halt⟩ := r
      · have hback := rule.revertCreate s self t hnew hcreated hrest.1 hran
        exact rule.trans hback (ihrest ((rule.newAddress hback).trans hnew) hrest.2)
      · have hcode := rule.setCode s self t halt.output hnew hcreated hran
        exact rule.trans hcode (ihrest ((rule.newAddress hcode).trans hnew) hrest)
    case isFalse hinit =>
      rw [if_neg hinit] at h
      have hdone : R s (if (s.enterCreate env self).1.addressHasCode (s.enterCreate env self).2 then
          (s.enterCreate env self).1.setNewCode (s.enterCreate env self).2 []
            else (s.enterCreate env self).1) := by
        split
        · exact rule.setCode s self _ [] hnew hcreated (rule.refl _)
        · exact hcreate
      exact rule.trans hdone (ihrest ((rule.newAddress hdone).trans hnew) h)

namespace TscState

variable {env : EvmEnv} {s t : TscState} {self receiver a : Address} {value : U256}

theorem Logged.enterCall (hnew : s.newAddress = 0) (self receiver : Address) (value : U256) :
    Logged s (s.enterCall self receiver value) := by
  have hnote := Logged.noteUnused s receiver
  exact hnote.trans (.transferBalance (hnote.newAddress.trans hnew) self receiver value)

theorem enterCreate_snd (hnew : s.newAddress = 0) :
    (s.enterCreate env self).2 = env.contractAddress self (s.getNonce self) :=
  transferBalance_snd ((Logged.incNonce s self).newAddress.trans hnew) _ _ _

theorem Logged.enterCreate_of_incNonce (hnew : s.newAddress = 0) :
    Logged (s.incNonce self) (s.enterCreate env self).1 := by
  have htransfer := Logged.transferBalance ((Logged.incNonce s self).newAddress.trans hnew) self
    (env.contractAddress self (s.getNonce self)) 0
  simp only [enterCreate]
  split
  · exact htransfer.trans (.incNonce _ _)
  · exact htransfer

theorem Logged.enterCreate (hnew : s.newAddress = 0) : Logged s (s.enterCreate env self).1 :=
  (Logged.incNonce s self).trans (.enterCreate_of_incNonce hnew)

theorem code_enterCreate (hnew : s.newAddress = 0) (a : Address) :
    (s.enterCreate env self).1.code a = s.code a := by
  have hcode :
      ((s.incNonce self).transferBalance self (env.contractAddress self (s.getNonce self))
        0).1.code a = s.code a := by
    rw [code_transferBalance ((Logged.incNonce s self).newAddress.trans hnew), code_incNonce]
  simp only [TscState.enterCreate]
  split
  · rw [code_incNonce, hcode]
  · exact hcode

theorem account_transferBalance_ne_none (hnew : s.newAddress = 0) (sender receiver : Address)
    (value : U256) :
    (s.transferBalance sender receiver value).1.account receiver ≠ none := by
  rw [account_transferBalance,
    account_addBalance ((Logged.subBalance hnew sender value).newAddress.trans hnew), if_pos rfl]
  exact Option.some_ne_none _

theorem account_enterCreate_ne_none (env : EvmEnv) (self : Address) (hnew : s.newAddress = 0) :
    (s.enterCreate env self).1.account (s.enterCreate env self).2 ≠ none := by
  have hnew' := (Logged.incNonce s self).newAddress.trans hnew
  have htransfer :=
    account_transferBalance_ne_none hnew' self (env.contractAddress self (s.getNonce self)) 0
  rw [enterCreate_snd hnew]
  simp only [enterCreate]
  split
  · intro hnone
    exact htransfer ((Logged.incNonce _ _).account_eq_none hnone)
  · exact htransfer

theorem deleteAddresses_addBalance (s : TscState) (id : Address) (amount : U256) :
    (s.addBalance id amount).1.deleteAddresses = s.deleteAddresses := by
  rw [addBalance]
  split
  · split <;> split <;> rfl
  · split <;> split <;> rfl

theorem deleteAddresses_incNonce (s : TscState) (a : Address) :
    (s.incNonce a).deleteAddresses = s.deleteAddresses := by
  rw [incNonce]
  split <;> rfl

theorem deleteAddresses_transferBalance (s : TscState) (sender receiver : Address) (value : U256) :
    (s.transferBalance sender receiver value).1.deleteAddresses = s.deleteAddresses := by
  have hsub : (s.subBalance sender value).deleteAddresses = s.deleteAddresses := by
    rw [subBalance]
    split
    · rfl
    · exact deleteAddresses_addBalance _ _ _
  simp only [transferBalance]
  split
  · exact (deleteAddresses_addBalance _ _ _).trans hsub
  · exact (deleteAddresses_addBalance _ _ _).trans hsub

theorem deleteAddresses_enterCreate (env : EvmEnv) (s : TscState) (self : Address) :
    (s.enterCreate env self).1.deleteAddresses = s.deleteAddresses := by
  have htransfer :=
    (deleteAddresses_transferBalance (s.incNonce self) self
      (env.contractAddress self (s.getNonce self)) 0).trans
    (deleteAddresses_incNonce s self)
  simp only [enterCreate]
  split
  · exact (deleteAddresses_incNonce _ _).trans htransfer
  · exact htransfer

theorem Logged.setNewCode_of_created (hnew : s.newAddress = 0)
    (hfresh : s.account (s.enterCreate env self).2 = none) (h : Logged (s.enterCreate env self).1 t)
    (code : List Byte) : Logged s (t.setNewCode (s.enterCreate env self).2 code) := by
  have hcreated := account_enterCreate_ne_none env self hnew
  have hcode : t.code (s.enterCreate env self).2 = [] := by
    rw [h.code hcreated, code_enterCreate hnew, code_of_account_eq_none hfresh]
  have hsome : t.account (s.enterCreate env self).2 ≠ none :=
    fun hnone => hcreated (h.account_eq_none hnone)
  obtain ⟨account, ht⟩ := Option.ne_none_iff_exists'.mp hsome
  rw [TscState.code, ht] at hcode
  exact ((Logged.enterCreate hnew).trans h).setNewCode hfresh ht hcode code

theorem Logged.rollback_of_created (hnew : s.newAddress = 0) (h : Logged (s.enterCreate env self).1 t) :
    Logged s (t.rollback (s.incNonce self).savepoint) :=
  (Logged.incNonce s self).trans ((Logged.enterCreate_of_incNonce hnew).trans h).rollback

def NotedCodeless (s : TscState) : Prop := ∀ a ∈ s.deleteAddresses, s.code a = []

theorem NotedCodeless.rollback (h : NotedCodeless s) (hlogged : Logged s t) :
    NotedCodeless (t.rollback s.savepoint) := by
  intro a ha
  rw [hlogged.same_rollback.code]
  rcases hlogged.rollback.unused a ha with hs | hs
  · exact h a hs
  · exact code_of_account_eq_none hs

theorem NotedCodeless.noteUnused (h : NotedCodeless s) (a : Address) :
    NotedCodeless (s.noteUnused a) := by
  intro b hb
  rw [code_noteUnused]
  rcases (Logged.noteUnused s a).unused b hb with hs | hs
  · exact h b hs
  · exact code_of_account_eq_none hs

theorem NotedCodeless.of_code (h : NotedCodeless s) (hdelete : t.deleteAddresses = s.deleteAddresses)
    (hcode : ∀ a, t.code a = s.code a) : NotedCodeless t := by
  intro a ha
  rw [hdelete] at ha
  rw [hcode a]
  exact h a ha

theorem NotedCodeless.incNonce (h : NotedCodeless s) (a : Address) : NotedCodeless (s.incNonce a) :=
  h.of_code (deleteAddresses_incNonce s a) (code_incNonce s a)

theorem NotedCodeless.enterCall (h : NotedCodeless s) (hnew : s.newAddress = 0) :
    NotedCodeless (s.enterCall self receiver value) :=
  (h.noteUnused receiver).of_code (deleteAddresses_transferBalance _ _ _ _)
    (code_transferBalance ((Logged.noteUnused s receiver).newAddress.trans hnew) _ _ _)

theorem NotedCodeless.rule {w : Watch}
    (hfresh : ∀ s a, w.created s a → s.account a = none ∧ a ∉ s.deleteAddresses) :
    Frame.Rule env w fun s t => Logged s t ∧ (NotedCodeless s → NotedCodeless t) where
  refl s := ⟨.refl s, id⟩
  trans h h' := ⟨h.1.trans h'.1, h'.2 ∘ h.2⟩
  newAddress h := h.1.newAddress
  call s self receiver value hnew _ := ⟨.enterCall hnew self receiver value, fun h => h.enterCall hnew⟩
  touch s a hnew _ :=
    ⟨.addBalance hnew a 0,
      fun h => h.of_code (deleteAddresses_addBalance s a 0) (code_addBalance hnew a 0)⟩
  create s self hnew _ :=
    ⟨.enterCreate hnew,
      fun h => h.of_code (deleteAddresses_enterCreate env s self) (code_enterCreate hnew)⟩
  setCode s self t code hnew hcreated h := by
    obtain ⟨hnone, hnoted⟩ := hfresh _ _ hcreated
    refine ⟨.setNewCode_of_created hnew hnone h.1 code, fun hs a ha => ?_⟩
    have ht := h.2 (hs.of_code (deleteAddresses_enterCreate env s self) (code_enterCreate hnew))
    -- the new contract was not noted before, and has had an account ever since
    have hne : a ≠ (s.enterCreate env self).2 := by
      rintro rfl
      rcases h.1.unused _ ha with hin | hout
      · exact hnoted (deleteAddresses_enterCreate env s self ▸ hin)
      · exact account_enterCreate_ne_none env self hnew hout
    rw [code_setNewCode, if_neg hne]
    exact ht a ha
  revertCall s t _ _ h := ⟨h.1.rollback, fun hs => hs.rollback h.1⟩
  revertCreate s self t hnew _ _ h :=
    ⟨.rollback_of_created hnew h.1,
      fun hs => (hs.incNonce self).rollback ((Logged.enterCreate_of_incNonce hnew).trans h.1)⟩

end TscState

end TscPow
