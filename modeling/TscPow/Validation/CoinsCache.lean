import TscPow.Validation.Coins

/-!
# The coin cache

`CCoinsViewCache` (`coins.h`, `coins.cpp`) as a stack of layers over a base view. A layer keeps the coins it has read or written, each with two flags: `DIRTY` if the coin may differ from what the layer below has, `FRESH` if the layer below has no unspent coin. Reading fills every layer on the way down. `Flush` merges a layer into the one below and empties it.

What the stack stands for is one plain map of unspent coins for every layer, the base included. A coin that is added or spent at a layer changes at this layer and at those above, which see through to it, as long as they have no entry of their own; `Flush` copies a map to the layer below. The hash of the best block and the memory usage are left out.
-/

namespace TscPow

abbrev UnspentCoin := { c : Coin // c.isSpent = false }

abbrev CoinMap := OutPoint → Option UnspentCoin

def Coin.unspent (c : Coin) : Option UnspentCoin := if h : c.isSpent = false then some ⟨c, h⟩ else none

def Coin.ofUnspent (c : Option UnspentCoin) : Coin := (c.map Subtype.val).getD Coin.empty

@[simp] theorem Coin.isSpent_ofUnspent (c : Option UnspentCoin) :
    (Coin.ofUnspent c).isSpent = c.isNone := by
  cases c with
  | none => rfl
  | some c => exact c.2

@[simp] theorem Coin.unspent_ofUnspent (c : Option UnspentCoin) : (Coin.ofUnspent c).unspent = c := by
  cases c with
  | none => rfl
  | some c => exact dif_pos c.2

theorem Coin.ofUnspent_unspent {c : Coin} (h : c.isSpent = false) : Coin.ofUnspent c.unspent = c := by
  rw [Coin.unspent, dif_pos h]
  rfl

theorem Coin.unspent_of_isSpent {c : Coin} (h : c.isSpent = true) : c.unspent = none := by
  apply dif_neg
  rw [h]
  exact Bool.noConfusion

structure CCoinsCacheEntry where
  coin : Coin
  dirty : Bool
  fresh : Bool
deriving DecidableEq

abbrev CCoinsMap := AList fun _ : OutPoint => CCoinsCacheEntry

/-- A base view: what it stands for, `GetCoin` and `BatchWrite`. It may keep an empty coin for an outpoint and return that one, and reading may change it. -/
structure CoinsBase (β : Type) where
  view : β → CoinMap
  getCoin : β → OutPoint → Option Coin × β
  batchWrite : β → CCoinsMap → β
  getCoin_fst : ∀ b o, (getCoin b o).1 = (view b o).map Subtype.val ∨ view b o = none ∧
    (getCoin b o).1 = some Coin.empty
  view_getCoin : ∀ b o, view (getCoin b o).2 = view b
  view_batchWrite : ∀ b m o, view (batchWrite b m) o =
    match m.lookup o with
    | some e => if e.dirty then e.coin.unspent else view b o
    | none => view b o

/-- `CCoinsViewDB`: spent coins are erased. -/
def coinsViewDB : CoinsBase CoinMap where
  view b := b
  getCoin b o := ((b o).map Subtype.val, b)
  batchWrite b m o :=
    match m.lookup o with
    | some e => if e.dirty then e.coin.unspent else b o
    | none => b o
  getCoin_fst _ _ := .inl rfl
  view_getCoin _ _ := rfl
  view_batchWrite _ _ _ := rfl

/-- `CCoinsViewTest` of the unit tests, which keeps empty coins and returns them, or not, as the dice fall. -/
def coinsViewTest (hides erases : OutPoint → Bool) :
    CoinsBase (OutPoint → Option (Option UnspentCoin)) where
  view b o := (b o).join
  getCoin b o := (if b o = some none ∧ hides o then none else (b o).map Coin.ofUnspent, b)
  batchWrite b m o :=
    match m.lookup o with
    | some e => if e.dirty then if e.coin.isSpent && erases o then none else some e.coin.unspent else b o
    | none => b o
  getCoin_fst b o := by
    rcases b o with _ | _ | c
    · exact .inl rfl
    · split
      · exact .inl rfl
      · exact .inr ⟨rfl, rfl⟩
    · exact .inl rfl
  view_getCoin _ _ := rfl
  view_batchWrite b m o := by
    dsimp only
    cases m.lookup o with
    | none => rfl
    | some e =>
      dsimp only
      split
      · split
        · rename_i hspent
          rw [Bool.and_eq_true] at hspent
          exact (Coin.unspent_of_isSpent hspent.1).symm
        · rfl
      · rfl

namespace CoinsCache

variable {β : Type} (base : CoinsBase β)

/-! ### The operations of a layer -/

abbrev Layers (β : Type) := List CCoinsMap × β

/-- The entry that `FetchCoin` makes of what the layer below returns. If that has only an empty coin, the entry is fresh. -/
def fill (cache : CCoinsMap) (o : OutPoint) : Option Coin → CCoinsMap
  | none => cache
  | some coin => cache.insert o ⟨coin, false, coin.isSpent⟩

/-- `GetCoin` of the topmost layer. -/
def getCoin (o : OutPoint) : List CCoinsMap → β → Option Coin × Layers β
  | [], b => ((base.getCoin b o).1, [], (base.getCoin b o).2)
  | cache :: below, b =>
    match cache.lookup o with
    | some e => (if e.coin.isSpent then none else some e.coin, cache :: below, b)
    | none =>
      let r := getCoin o below b
      (r.1.bind fun coin => if coin.isSpent then none else some coin, fill cache o r.1 :: r.2.1, r.2.2)

/-- `FetchCoin`; the iterator it returns points to the entry for the outpoint, if there is one. -/
def fetchCoin (o : OutPoint) (cache : CCoinsMap) (below : List CCoinsMap) (b : β) :
    CCoinsMap × Layers β :=
  match cache.lookup o with
  | some _ => (cache, below, b)
  | none =>
    let r := getCoin base o below b
    (fill cache o r.1, r.2)

def addCoin (o : OutPoint) (coin : Coin) (possible_overwrite : Bool) (cache : CCoinsMap) :
    Except Fault CCoinsMap :=
  if coin.isSpent then .error .assertion
  else if Script.isUnspendable coin.out.scriptPubKey then .ok cache
  else
    let e := (cache.lookup o).getD ⟨Coin.empty, false, false⟩
    if !possible_overwrite && !e.coin.isSpent then
      .error (.exception "Adding new coin that replaces non-pruned entry")
    else .ok (cache.insert o ⟨coin, true, e.fresh || !possible_overwrite && !e.dirty⟩)

/-- `SpendCoin`, with the coin it moves out; `none` is its `return false`. -/
def spendCoin (o : OutPoint) (cache : CCoinsMap) (below : List CCoinsMap) (b : β) :
    Option Coin × Layers β :=
  let r := fetchCoin base o cache below b
  match r.1.lookup o with
  | none => (none, r.1 :: r.2.1, r.2.2)
  | some e =>
    (some e.coin,
      (if e.fresh then r.1.erase o
        else r.1.insert o { e with coin := Coin.empty, dirty := true }) :: r.2.1, r.2.2)

def uncache (o : OutPoint) (cache : CCoinsMap) : CCoinsMap :=
  match cache.lookup o with
  | some e => if !e.dirty && !e.fresh then cache.erase o else cache
  | none => cache

/-- One round of the loop of `BatchWrite`. -/
def mergeEntry (cache : CCoinsMap) (x : Sigma fun _ : OutPoint => CCoinsCacheEntry) :
    Except Fault CCoinsMap :=
  if x.2.dirty then
    match cache.lookup x.1 with
    | none => if x.2.fresh && x.2.coin.isSpent then .ok cache
        else .ok (cache.insert x.1 ⟨x.2.coin, true, x.2.fresh⟩)
    | some us =>
      if x.2.fresh && !us.coin.isSpent then
        .error (.exception
          "FRESH flag misapplied to cache entry for base transaction with spendable outputs")
      else if us.fresh && x.2.coin.isSpent then .ok (cache.erase x.1)
      else .ok (cache.insert x.1 { us with coin := x.2.coin, dirty := true })
  else .ok cache

/-- `BatchWrite` of a layer. -/
def batchWrite (cache mapCoins : CCoinsMap) : Except Fault CCoinsMap :=
  mapCoins.entries.foldlM mergeEntry cache

def flush (cache : CCoinsMap) : List CCoinsMap → β → Except Fault (Layers β)
  | [], b => .ok ([∅], base.batchWrite b cache)
  | parent :: below, b => do
    let parent ← batchWrite parent cache
    .ok (∅ :: parent :: below, b)

end CoinsCache

inductive CoinsAction where
  | addCoin (outpoint : OutPoint) (coin : Coin) (possible_overwrite : Bool)
  | spendCoin (outpoint : OutPoint)
  | accessCoin (outpoint : OutPoint)
  | haveCoin (outpoint : OutPoint)
  | uncache (outpoint : OutPoint)
  | flush
deriving DecidableEq

/-- What a call returns: a coin, whether there is one, or the coin that was spent. -/
inductive CoinsOutput where
  | done
  | coin (coin : Coin)
  | found (have_coin : Bool)
  | moved (moveout : Option Coin)
deriving DecidableEq

/-- What is seen of an output: an empty coin that was moved out is none. -/
def CoinsOutput.seen : CoinsOutput → CoinsOutput
  | .moved moveout => .moved (moveout.bind fun coin => if coin.isSpent then none else some coin)
  | output => output

namespace CoinsCache

variable {β : Type} (base : CoinsBase β)

def act : CoinsAction → List CCoinsMap → β → Except Fault (CoinsOutput × Layers β)
  | _, [], b => .ok (.done, [], b)
  | .addCoin o coin possible_overwrite, cache :: below, b => do
    let cache ← addCoin o coin possible_overwrite cache
    .ok (.done, cache :: below, b)
  | .spendCoin o, cache :: below, b =>
    let r := spendCoin base o cache below b
    .ok (.moved r.1, r.2)
  | .accessCoin o, cache :: below, b =>
    let r := fetchCoin base o cache below b
    .ok (.coin (((r.1.lookup o).map CCoinsCacheEntry.coin).getD Coin.empty), r.1 :: r.2.1, r.2.2)
  | .haveCoin o, cache :: below, b =>
    let r := fetchCoin base o cache below b
    .ok (.found ((r.1.lookup o).any fun e => !e.coin.isSpent), r.1 :: r.2.1, r.2.2)
  | .uncache o, cache :: below, b => .ok (.done, uncache o cache :: below, b)
  | .flush, cache :: below, b => do
    let r ← flush base cache below b
    .ok (.done, r)

def step (a : CoinsAction) : Nat → List CCoinsMap → β → Except Fault (CoinsOutput × Layers β)
  | 0, caches, b => act base a caches b
  | _ + 1, [], b => .ok (.done, [], b)
  | depth + 1, cache :: below, b => do
    let r ← step a depth below b
    .ok (r.1, cache :: r.2.1, r.2.2)

def run : List (Nat × CoinsAction) → List CCoinsMap → β → Except Fault (List CoinsOutput × Layers β)
  | [], caches, b => .ok ([], caches, b)
  | (depth, a) :: calls, caches, b => do
    let r ← step base a depth caches b
    let rest ← run calls r.2.1 r.2.2
    .ok (r.1 :: rest.1, rest.2)

end CoinsCache

/-! ### Plain maps -/

namespace CoinsAction

/-- What a call does to the map of its layer and of those above. -/
def write : CoinsAction → CoinMap → CoinMap
  | .addCoin o coin _, m => if Script.isUnspendable coin.out.scriptPubKey then m
      else Function.update m o coin.unspent
  | .spendCoin o, m => Function.update m o none
  | .accessCoin _, m | .haveCoin _, m | .uncache _, m | .flush, m => m

/-- What a call on a layer with the map `m` does to the maps of the layers below. -/
def push : CoinsAction → CoinMap → List CoinMap → List CoinMap
  | .flush, m, _ :: below => m :: below
  | _, _, below => below

def maps (a : CoinsAction) : Nat → List CoinMap → List CoinMap
  | _, [] => []
  | 0, m :: below => a.write m :: a.push m below
  | depth + 1, m :: below => a.write m :: a.maps depth below

def answer (m : CoinMap) : CoinsAction → CoinsOutput
  | .addCoin .. | .uncache _ | .flush => .done
  | .spendCoin o => .moved ((m o).map Subtype.val)
  | .accessCoin o => .coin (Coin.ofUnspent (m o))
  | .haveCoin o => .found (m o).isSome

def answerAt (a : CoinsAction) (depth : Nat) (maps : List CoinMap) : CoinsOutput :=
  (maps[depth]?).elim .done fun m => a.answer m

end CoinsAction

namespace CoinsAction

/-- What is asked of a call at its layer: `AddCoin` is given an unspent coin, and `possible_overwrite` unless there is no coin for the outpoint. -/
def Permitted (m : CoinMap) : CoinsAction → Prop
  | .addCoin o coin possible_overwrite => coin.isSpent = false ∧ (possible_overwrite = false → m o = none)
  | .spendCoin _ | .accessCoin _ | .haveCoin _ | .uncache _ | .flush => True

/-- What is asked of a layer above the one of a call: it has no entry for an outpoint whose coin is added or spent. -/
def Unseen (cache : CCoinsMap) : CoinsAction → Prop
  | .addCoin o _ _ | .spendCoin o => cache.lookup o = none
  | .accessCoin _ | .haveCoin _ | .uncache _ | .flush => True

/-- The call is one on a layer, and meets what is asked of it. -/
def Allowed (a : CoinsAction) : Nat → List CCoinsMap → List CoinMap → Prop
  | 0, _ :: _, m :: _ => a.Permitted m
  | depth + 1, cache :: below, _ :: ms => a.Unseen cache ∧ a.Allowed depth below ms
  | _, _, _ => False

end CoinsAction

namespace CoinsCache

def Admissible {β : Type} (base : CoinsBase β) : List (Nat × CoinsAction) → List CCoinsMap → β →
    List CoinMap → Prop
  | [], _, _, _ => True
  | (depth, a) :: calls, caches, b, maps =>
    a.Allowed depth caches maps ∧
      ∀ out caches' b', step base a depth caches b = .ok (out, caches', b') →
        Admissible base calls caches' b' (a.maps depth maps)

def plainRun : List (Nat × CoinsAction) → List CoinMap → List CoinsOutput × List CoinMap
  | [], maps => ([], maps)
  | (depth, a) :: calls, maps =>
    let rest := plainRun calls (a.maps depth maps)
    (a.answerAt depth maps :: rest.1, rest.2)

/-! ### What the flags say -/

variable {β : Type} {base : CoinsBase β} {o : OutPoint} {e : CCoinsCacheEntry} {cache : CCoinsMap}
  {caches below : List CCoinsMap} {b : β} {m : CoinMap} {ms : List CoinMap}

/-- An entry of a layer whose map has `here`, over a layer whose map has `there`. -/
structure Fits (there here : Option UnspentCoin) (e : CCoinsCacheEntry) : Prop where
  coin : e.coin = Coin.ofUnspent here
  clean : e.dirty = false → here = there
  fresh : e.fresh = true → there = none

/-- Where a layer has no entry, it has the coin of the layer below. -/
def Sits (there here : Option UnspentCoin) : Option CCoinsCacheEntry → Prop
  | none => here = there
  | some e => Fits there here e

theorem Sits.eq_of_none {there here : Option UnspentCoin} {entry : Option CCoinsCacheEntry}
    (h : Sits there here entry) (hnone : entry = none) :
    here = there := by
  rwa [hnone] at h

theorem Sits.fits {there here : Option UnspentCoin} {entry : Option CCoinsCacheEntry}
    (h : Sits there here entry) (he : entry = some e) :
    Fits there here e := by
  rwa [he] at h

inductive Coupled (base : CoinsBase β) : List CCoinsMap → β → List CoinMap → Prop where
  | bottom (b : β) : Coupled base [] b [base.view b]
  | layer {cache : CCoinsMap} {below : List CCoinsMap} {b : β} {m m' : CoinMap} {ms : List CoinMap}
      (sits : ∀ o, Sits (m' o) (m o) (cache.lookup o)) (rest : Coupled base below b (m' :: ms)) :
        Coupled base (cache :: below) b (m :: m' :: ms)

theorem Sits.insert {m' : CoinMap} (h : ∀ o, Sits (m' o) (m o) (cache.lookup o))
    {here : Option UnspentCoin} (he : Fits (m' o) here e) (k : OutPoint) :
    Sits (m' k) (Function.update m o here k) ((cache.insert o e).lookup k) := by
  by_cases hk : k = o
  · subst hk
    rw [AList.lookup_insert, Function.update_self]
    exact he
  · rw [AList.lookup_insert_ne hk, Function.update_of_ne hk]
    exact h k

theorem Sits.erase {m' : CoinMap} (h : ∀ o, Sits (m' o) (m o) (cache.lookup o))
    {here : Option UnspentCoin} (hhere : here = m' o) (k : OutPoint) :
    Sits (m' k) (Function.update m o here k) ((cache.erase o).lookup k) := by
  by_cases hk : k = o
  · subst hk
    rw [AList.lookup_erase, Function.update_self]
    exact hhere
  · rw [AList.lookup_erase_ne hk, Function.update_of_ne hk]
    exact h k

theorem Coupled.coin_eq (h : Coupled base (cache :: below) b (m :: ms))
    (he : cache.lookup o = some e) : e.coin = Coin.ofUnspent (m o) := by
  cases h with
  | layer sits rest => exact ((sits o).fits he).coin

/-! ### Reading -/

/-- What a view with the coin `here` may return. -/
def Returns (here : Option UnspentCoin) (r : Option Coin) : Prop :=
  r = here.map Subtype.val ∨ here = none ∧ r = some Coin.empty

theorem Returns.bind_unspent {here : Option UnspentCoin} {r : Option Coin} (h : Returns here r) :
    (r.bind fun coin => if coin.isSpent then none else some coin) = here.map Subtype.val := by
  rcases h with rfl | ⟨rfl, rfl⟩
  · cases here with
    | none => rfl
    | some c => simp [c.2]
  · rfl

theorem Sits.fill {m' : CoinMap} (h : ∀ o, Sits (m' o) (m o) (cache.lookup o))
    (hnone : cache.lookup o = none) {r : Option Coin} (hr : Returns (m' o) r) (k : OutPoint) :
    Sits (m' k) (m k) ((fill cache o r).lookup k) := by
  have hsame : m o = m' o := (h o).eq_of_none hnone
  cases r with
  | none => exact h k
  | some coin =>
    have hfits : Fits (m' o) (m o) ⟨coin, false, coin.isSpent⟩ := by
      refine ⟨?_, fun _ => hsame, ?_⟩
      · rw [hsame]
        rcases hr with hr | ⟨hr, hcoin⟩
        · obtain ⟨c, hc, rfl⟩ := Option.map_eq_some_iff.mp hr.symm
          rw [hc]
          rfl
        · rw [hr, Option.some_inj.mp hcoin]
          rfl
      · intro hspent
        rcases hr with hr | ⟨hr, _⟩
        · obtain ⟨c, hc, rfl⟩ := Option.map_eq_some_iff.mp hr.symm
          have hunspent := c.2
          rw [hunspent] at hspent
          cases hspent
        · exact hr
    have hinsert := Sits.insert h hfits k
    rwa [Function.update_eq_self] at hinsert

theorem Coupled.getCoin (h : Coupled base caches b (m :: ms)) (o : OutPoint) :
    Returns (m o) (getCoin base o caches b).1 ∧
      Coupled base (getCoin base o caches b).2.1 (getCoin base o caches b).2.2 (m :: ms) := by
  induction caches generalizing m ms with
  | nil =>
    cases h
    refine ⟨base.getCoin_fst b o, ?_⟩
    have hbottom : Coupled base [] (base.getCoin b o).2 [base.view (base.getCoin b o).2] := .bottom _
    rwa [base.view_getCoin] at hbottom
  | cons cache below ih =>
    cases h with
    | layer sits rest =>
      rename_i m' ms
      rw [CoinsCache.getCoin]
      cases hlookup : cache.lookup o with
      | some e =>
        have hcoin : e.coin = Coin.ofUnspent (m o) := ((sits o).fits hlookup).coin
        refine ⟨.inl ?_, .layer sits rest⟩
        dsimp only
        rw [hcoin, Coin.isSpent_ofUnspent]
        cases m o <;> rfl
      | none =>
        have hsame : m o = m' o := (sits o).eq_of_none hlookup
        obtain ⟨hreturns, hbelow⟩ := ih rest
        refine ⟨.inl ?_, .layer (Sits.fill sits hlookup hreturns) hbelow⟩
        rw [hsame]
        exact hreturns.bind_unspent

theorem Coupled.fetchCoin (h : Coupled base (cache :: below) b (m :: ms)) (o : OutPoint) :
    let r := fetchCoin base o cache below b
    Coupled base (r.1 :: r.2.1) r.2.2 (m :: ms) ∧ (r.1.lookup o = none → m o = none) := by
  cases h with
  | layer sits rest =>
    rename_i m' ms
    rw [CoinsCache.fetchCoin]
    cases hlookup : cache.lookup o with
    | some e =>
      refine ⟨.layer sits rest, fun hnone => ?_⟩
      rw [hlookup] at hnone
      cases hnone
    | none =>
      obtain ⟨hreturns, hbelow⟩ := rest.getCoin o
      refine ⟨.layer (Sits.fill sits hlookup hreturns) hbelow, fun hnone => ?_⟩
      have hsame : m o = m' o := (sits o).eq_of_none hlookup
      cases hr : (CoinsCache.getCoin base o below b).1 with
      | none =>
        rcases hreturns with hreturns | hreturns
        · rw [hr] at hreturns
          rw [hsame, Option.map_eq_none_iff.mp hreturns.symm]
        · rw [hsame, hreturns.1]
      | some coin =>
        dsimp only at hnone
        rw [hr, CoinsCache.fill, AList.lookup_insert] at hnone
        cases hnone

/-! ### Writing -/

theorem Sits.addCoin {m' : CoinMap} (h : ∀ o, Sits (m' o) (m o) (cache.lookup o)) {coin : Coin}
    (hcoin : coin.isSpent = false) {possible_overwrite : Bool}
    (hnew : possible_overwrite = false → m o = none) :
    ∃ cache', addCoin o coin possible_overwrite cache = .ok cache' ∧
      ∀ k, Sits (m' k) ((CoinsAction.addCoin o coin possible_overwrite).write m k) (cache'.lookup k) := by
  rw [CoinsCache.addCoin, if_neg (by rw [hcoin]; exact Bool.false_ne_true)]
  by_cases hunspendable : Script.isUnspendable coin.out.scriptPubKey
  · refine ⟨cache, if_pos hunspendable, fun k => ?_⟩
    rw [CoinsAction.write, if_pos hunspendable]
    exact h k
  · rw [if_neg hunspendable]
    generalize hentry : (cache.lookup o).getD ⟨Coin.empty, false, false⟩ = entry
    -- a new entry counts as one that is neither dirty nor fresh
    have hfits : (possible_overwrite = false → entry.coin.isSpent = true) ∧
        (entry.dirty = false → m o = m' o) ∧ (entry.fresh = true → m' o = none) := by
      cases hlookup : cache.lookup o with
      | none =>
        rw [hlookup, Option.getD_none] at hentry
        subst hentry
        exact ⟨fun _ => rfl, fun _ => (h o).eq_of_none hlookup,
          fun hfresh => absurd hfresh Bool.false_ne_true⟩
      | some e =>
        rw [hlookup, Option.getD_some] at hentry
        subst hentry
        have hfits := (h o).fits hlookup
        refine ⟨fun hover => ?_, hfits.clean, hfits.fresh⟩
        rw [hfits.coin, Coin.isSpent_ofUnspent, hnew hover]
        rfl
    obtain ⟨hspent, hclean, hfresh⟩ := hfits
    refine ⟨cache.insert o ⟨coin, true, entry.fresh || !possible_overwrite && !entry.dirty⟩,
      if_neg ?_, ?_⟩
    · intro hreplaces
      rw [Bool.and_eq_true, Bool.not_eq_true', Bool.not_eq_true'] at hreplaces
      rw [hspent hreplaces.1] at hreplaces
      cases hreplaces.2
    · intro k
      rw [CoinsAction.write, if_neg hunspendable]
      apply Sits.insert h
      refine ⟨(Coin.ofUnspent_unspent hcoin).symm,
        fun hdirty => absurd hdirty.symm Bool.false_ne_true, fun hflag => ?_⟩
      rw [Bool.or_eq_true, Bool.and_eq_true, Bool.not_eq_true', Bool.not_eq_true'] at hflag
      rcases hflag with hflag | ⟨hover, hdirty⟩
      · exact hfresh hflag
      · rw [← hclean hdirty, hnew hover]

theorem Coupled.spendCoin (h : Coupled base (cache :: below) b (m :: ms)) (o : OutPoint) :
    let r := spendCoin base o cache below b
    (CoinsOutput.moved r.1).seen = .moved ((m o).map Subtype.val) ∧ Coupled base r.2.1 r.2.2
    (Function.update m o none :: ms) := by
  obtain ⟨hfetched, hnone⟩ := h.fetchCoin o
  rw [CoinsCache.spendCoin]
  generalize CoinsCache.fetchCoin base o cache below b = r at hfetched hnone
  cases hlookup : r.1.lookup o with
  | none =>
    have hempty := hnone hlookup
    refine ⟨by rw [hempty]; rfl, ?_⟩
    rwa [← hempty, Function.update_eq_self]
  | some e =>
    cases hfetched with
    | layer sits rest =>
      have hfits := (sits o).fits hlookup
      constructor
      · have hreturns : Returns (m o) (some e.coin) := by
          rw [hfits.coin]
          cases m o with
          | none => exact .inr ⟨rfl, rfl⟩
          | some c => exact .inl rfl
        exact congrArg CoinsOutput.moved hreturns.bind_unspent
      · refine .layer (fun k => ?_) rest
        split
        · rename_i hfresh
          exact Sits.erase sits (hfits.fresh hfresh).symm k
        · have hspent : Fits _ none { e with coin := Coin.empty, dirty := true } :=
            ⟨rfl, fun hdirty => absurd hdirty.symm Bool.false_ne_true, hfits.fresh⟩
          exact Sits.insert sits hspent k

theorem Sits.uncache {m' : CoinMap} (h : ∀ o, Sits (m' o) (m o) (cache.lookup o)) (o k : OutPoint) :
    Sits (m' k) (m k) ((uncache o cache).lookup k) := by
  rw [CoinsCache.uncache]
  split
  · rename_i e hlookup
    split
    · rename_i hflags
      rw [Bool.and_eq_true, Bool.not_eq_true', Bool.not_eq_true'] at hflags
      have herase := Sits.erase h (((h o).fits hlookup).clean hflags.1) k
      rwa [Function.update_eq_self] at herase
    · exact h k
  · exact h k

/-! ### Merging -/

theorem Sits.mergeEntry {m' : CoinMap} {x : Sigma fun _ : OutPoint => CCoinsCacheEntry}
    (h : ∀ o, Sits (m' o) (m o) (cache.lookup o)) {here : Option UnspentCoin}
    (hx : Fits (m x.1) here x.2) :
    ∃ cache', mergeEntry cache x = .ok cache' ∧ ∀ k,
      Sits (m' k) (Function.update m x.1 here k) (cache'.lookup k) := by
  obtain ⟨o, e⟩ := x
  have hspent : e.coin.isSpent = here.isNone := by rw [hx.coin, Coin.isSpent_ofUnspent]
  rw [CoinsCache.mergeEntry]
  by_cases hdirty : e.dirty = true
  · rw [if_pos hdirty]
    cases hlookup : cache.lookup o with
    | none =>
      have hsame := (h o).eq_of_none hlookup
      dsimp only
      split
      · rename_i hskip
        rw [Bool.and_eq_true, hspent, Option.isNone_iff_eq_none] at hskip
        refine ⟨cache, rfl, fun k => ?_⟩
        rw [hskip.2, ← hx.fresh hskip.1, Function.update_eq_self]
        exact h k
      · exact ⟨_, rfl,
          Sits.insert h ⟨hx.coin, fun hclean => absurd hclean.symm Bool.false_ne_true,
            fun hfresh => hsame ▸ hx.fresh hfresh⟩⟩
    | some us =>
      have hus := (h o).fits hlookup
      have hnothrow : ¬ (e.fresh && !us.coin.isSpent) = true := by
        intro hthrow
        rw [Bool.and_eq_true, hus.coin, Coin.isSpent_ofUnspent] at hthrow
        have hnone : m o = none := hx.fresh hthrow.1
        rw [hnone] at hthrow
        cases hthrow.2
      dsimp only
      rw [if_neg hnothrow]
      split
      · rename_i hdelete
        rw [Bool.and_eq_true, hspent, Option.isNone_iff_eq_none] at hdelete
        exact ⟨_, rfl, Sits.erase h (hdelete.2.trans (hus.fresh hdelete.1).symm)⟩
      · exact ⟨_, rfl,
          Sits.insert h ⟨hx.coin, fun hclean => absurd hclean.symm Bool.false_ne_true, hus.fresh⟩⟩
  · rw [if_neg hdirty]
    refine ⟨cache, rfl, fun k => ?_⟩
    rw [hx.clean (Bool.not_eq_true _ ▸ hdirty), Function.update_eq_self]
    exact h k

theorem Sits.foldlM_mergeEntry {m' child : CoinMap}
    {entries : List (Sigma fun _ : OutPoint => CCoinsCacheEntry)} (hnodup : entries.NodupKeys)
    (h : ∀ o, Sits (m' o) (m o) (cache.lookup o))
    (hentries : ∀ x ∈ entries, Fits (m x.1) (child x.1) x.2) :
    ∃ cache', entries.foldlM CoinsCache.mergeEntry cache = .ok cache' ∧
      ∀ o, Sits (m' o) (if o ∈ entries.keys then child o else m o) (cache'.lookup o) := by
  induction entries generalizing cache m with
  | nil => exact ⟨cache, rfl, by simpa using h⟩
  | cons x entries ih =>
    rw [List.nodupKeys_cons] at hnodup
    rw [List.forall_mem_cons] at hentries
    obtain ⟨cache', hmerge, hcache'⟩ := Sits.mergeEntry h hentries.1
    have hother : ∀ y ∈ entries, y.1 ≠ x.1 := by
      intro y hy heq
      exact hnodup.1 (heq ▸ List.mem_keys_of_mem hy)
    have hrest : ∀ y ∈ entries, Fits (Function.update m x.1 (child x.1) y.1) (child y.1) y.2 := by
      intro y hy
      rw [Function.update_of_ne (hother y hy)]
      exact hentries.2 y hy
    obtain ⟨cache'', hfold, hcache''⟩ := ih hnodup.2 hcache' hrest
    refine ⟨cache'', ?_, fun o => ?_⟩
    · rw [List.foldlM_cons, hmerge]
      exact hfold
    · have ho := hcache'' o
      by_cases hox : o = x.1
      · subst hox
        rw [if_neg hnodup.1, Function.update_self] at ho
        rwa [if_pos (List.mem_keys_of_mem List.mem_cons_self)]
      · rw [Function.update_of_ne hox] at ho
        simpa [hox] using ho

theorem Sits.batchWrite {m' child : CoinMap} {mapCoins : CCoinsMap}
    (h : ∀ o, Sits (m' o) (m o) (cache.lookup o))
    (hchild : ∀ o, Sits (m o) (child o) (mapCoins.lookup o)) :
    ∃ cache', batchWrite cache mapCoins = .ok cache' ∧ ∀ o, Sits (m' o) (child o) (cache'.lookup o) := by
  have hentries : ∀ x ∈ mapCoins.entries, Fits (m x.1) (child x.1) x.2 := by
    intro x hx
    exact (hchild x.1).fits (AList.mem_lookup_iff.mpr hx)
  obtain ⟨cache', hfold, hcache'⟩ := Sits.foldlM_mergeEntry mapCoins.nodupKeys h hentries
  refine ⟨cache', hfold, fun o => ?_⟩
  have ho := hcache' o
  split at ho
  · exact ho
  · rename_i habsent
    rwa [(hchild o).eq_of_none (AList.lookup_eq_none.mpr habsent)]

theorem Coupled.flush (h : Coupled base (cache :: below) b (m :: ms)) :
    ∃ r, flush base cache below b = .ok r ∧ Coupled base r.1 r.2 (m :: CoinsAction.flush.push m ms) := by
  cases h with
  | layer sits rest =>
    rename_i m' ms
    have hempty : ∀ o, Sits (m o) (m o) ((∅ : CCoinsMap).lookup o) := fun o => rfl
    cases rest with
    | bottom b =>
      refine ⟨_, rfl, .layer hempty ?_⟩
      have hwritten : base.view (base.batchWrite b cache) = m := by
        funext o
        rw [base.view_batchWrite]
        have ho := sits o
        cases hlookup : cache.lookup o with
        | none => exact (ho.eq_of_none hlookup).symm
        | some e =>
          have hfits := ho.fits hlookup
          dsimp only
          cases hdirty : e.dirty with
          | false => exact (hfits.clean hdirty).symm
          | true => rw [if_pos rfl, hfits.coin, Coin.unspent_ofUnspent]
      rw [← hwritten]
      exact .bottom _
    | layer sits' rest' =>
      obtain ⟨parent', hmerge, hparent'⟩ := Sits.batchWrite sits' sits
      refine ⟨_, by rw [CoinsCache.flush, hmerge]; rfl, .layer hempty (.layer hparent' rest')⟩

/-! ### Whole runs -/

variable {a : CoinsAction} {depth : Nat} {maps : List CoinMap}

theorem Coupled.act (h : Coupled base (cache :: below) b (m :: ms)) (ha : a.Permitted m) :
    ∃ out caches' b', act base a (cache :: below) b = .ok (out, caches', b') ∧ out.seen = a.answer m ∧
      Coupled base caches' b' (a.write m :: a.push m ms) := by
  cases a with
  | addCoin o coin possible_overwrite =>
    cases h with
    | layer sits rest =>
      obtain ⟨cache', hadd, hcache'⟩ := Sits.addCoin sits ha.1 ha.2
      exact ⟨.done, cache' :: below, b, by rw [CoinsCache.act, hadd]; rfl, rfl, .layer hcache' rest⟩
  | spendCoin o =>
    obtain ⟨hmoved, hspent⟩ := h.spendCoin o
    exact ⟨_, _, _, rfl, hmoved, hspent⟩
  | accessCoin o =>
    obtain ⟨hfetched, hnone⟩ := h.fetchCoin o
    refine ⟨_, _, _, rfl, congrArg CoinsOutput.coin ?_, hfetched⟩
    cases hlookup : (CoinsCache.fetchCoin base o cache below b).1.lookup o with
    | none =>
      rw [hnone hlookup]
      rfl
    | some e => exact hfetched.coin_eq hlookup
  | haveCoin o =>
    obtain ⟨hfetched, hnone⟩ := h.fetchCoin o
    refine ⟨_, _, _, rfl, congrArg CoinsOutput.found ?_, hfetched⟩
    cases hlookup : (CoinsCache.fetchCoin base o cache below b).1.lookup o with
    | none =>
      rw [hnone hlookup]
      rfl
    | some e => rw [Option.any_some, hfetched.coin_eq hlookup, Coin.isSpent_ofUnspent, Option.not_isNone]
  | uncache o =>
    cases h with
    | layer sits rest => exact ⟨.done, _, b, rfl, rfl, .layer (Sits.uncache sits o) rest⟩
  | flush =>
    obtain ⟨r, hflush, hflushed⟩ := h.flush
    exact ⟨.done, r.1, r.2, by rw [CoinsCache.act, hflush]; rfl, rfl, hflushed⟩

theorem Sits.write {m' : CoinMap} (h : ∀ o, Sits (m' o) (m o) (cache.lookup o))
    (ha : a.Unseen cache) (k : OutPoint) :
    Sits (a.write m' k) (a.write m k) (cache.lookup k) := by
  have hupdate : ∀ (o : OutPoint) (c : Option UnspentCoin), cache.lookup o = none →
      Sits (Function.update m' o c k) (Function.update m o c k) (cache.lookup k) := by
    intro o c hnone
    by_cases hk : k = o
    · subst hk
      rw [hnone, Function.update_self, Function.update_self]
      rfl
    · rw [Function.update_of_ne hk, Function.update_of_ne hk]
      exact h k
  cases a with
  | addCoin o coin possible_overwrite =>
    simp only [CoinsAction.write]
    split
    · exact h k
    · exact hupdate o _ ha
  | spendCoin o => exact hupdate o none ha
  | accessCoin o => exact h k
  | haveCoin o => exact h k
  | uncache o => exact h k
  | flush => exact h k

/-- A call on a layer returns what the map of the layer has, and changes the maps as it should. -/
theorem Coupled.step (h : Coupled base caches b maps) (ha : a.Allowed depth caches maps) :
    ∃ out caches' b', step base a depth caches b = .ok (out, caches', b') ∧
      out.seen = a.answerAt depth maps ∧
      Coupled base caches' b' (a.maps depth maps) := by
  induction depth generalizing caches maps with
  | zero =>
    cases h with
    | bottom b => exact ha.elim
    | layer sits rest => exact Coupled.act (.layer sits rest) ha
  | succ depth ih =>
    cases h with
    | bottom b => exact ha.elim
    | layer sits rest =>
      obtain ⟨out, caches', b', hstep, hout, hcoupled⟩ := ih rest ha.2
      refine ⟨out, _ :: caches', b', by rw [CoinsCache.step, hstep]; rfl, hout, ?_⟩
      have hsits := Sits.write sits ha.1
      cases depth with
      | zero => exact .layer hsits hcoupled
      | succ depth => exact .layer hsits hcoupled

theorem Admissible.cons {calls : List (Nat × CoinsAction)} (ha : a.Allowed depth caches maps)
    {r : CoinsOutput × Layers β} (hstep : step base a depth caches b = .ok r)
    (hcalls : Admissible base calls r.2.1 r.2.2 (a.maps depth maps)) :
    Admissible base ((depth, a) :: calls) caches b maps := by
  refine ⟨ha, fun out caches' b' hstep' => ?_⟩
  rw [hstep] at hstep'
  cases hstep'
  exact hcalls

theorem Coupled.run {calls : List (Nat × CoinsAction)} (h : Coupled base caches b maps)
    (hcalls : Admissible base calls caches b maps) :
    ∃ outs caches' b', run base calls caches b = .ok (outs, caches', b') ∧
      outs.map CoinsOutput.seen = (plainRun calls maps).1 ∧
      Coupled base caches' b' (plainRun calls maps).2 := by
  induction calls generalizing caches b maps with
  | nil => exact ⟨[], caches, b, rfl, rfl, h⟩
  | cons call calls ih =>
    obtain ⟨depth, a⟩ := call
    obtain ⟨out, caches', b', hstep, hout, hcoupled⟩ := h.step hcalls.1
    obtain ⟨outs, caches'', b'', hrun, houts, hcoupled'⟩ := ih hcoupled (hcalls.2 out caches' b' hstep)
    refine ⟨out :: outs, caches'', b'', ?_, ?_, hcoupled'⟩
    · simp only [CoinsCache.run, hstep, hrun, bind, Except.bind]
    · rw [List.map_cons, hout, houts]
      rfl

/-! ### Flushing everything -/

def flushAll (layers : Nat) : List (Nat × CoinsAction) :=
  (List.range layers).map fun depth => (depth, .flush)

theorem Coupled.length_eq (h : Coupled base caches b maps) : maps.length = caches.length + 1 := by
  induction h with
  | bottom b => rfl
  | layer sits rest ih => rw [List.length_cons, ih, List.length_cons]

theorem Coupled.getLast?_eq (h : Coupled base caches b maps) : maps.getLast? = some (base.view b) := by
  induction h with
  | bottom b => rfl
  | layer sits rest ih => rw [List.getLast?_cons_cons, ih]

theorem Coupled.allowed_flush (h : Coupled base caches b maps) (hdepth : depth < caches.length) :
    CoinsAction.flush.Allowed depth caches maps := by
  induction depth generalizing caches maps with
  | zero =>
    cases h with
    | bottom b => cases hdepth
    | layer sits rest => trivial
  | succ depth ih =>
    cases h with
    | bottom b => cases hdepth
    | layer sits rest => exact ⟨trivial, ih rest (Nat.lt_of_succ_lt_succ hdepth)⟩

theorem length_maps (a : CoinsAction) (depth : Nat) (maps : List CoinMap) :
    (a.maps depth maps).length = maps.length := by
  induction depth generalizing maps with
  | zero =>
    cases maps with
    | nil => rfl
    | cons m ms =>
      have hpush : (a.push m ms).length = ms.length := by
        cases a <;> cases ms <;> rfl
      exact congrArg Nat.succ hpush
  | succ depth ih =>
    cases maps with
    | nil => rfl
    | cons m ms => exact congrArg Nat.succ (ih ms)

theorem length_plainRun (calls : List (Nat × CoinsAction)) (maps : List CoinMap) :
    (plainRun calls maps).2.length = maps.length := by
  induction calls generalizing maps with
  | nil => rfl
  | cons call calls ih => exact (ih _).trans (length_maps _ _ _)

theorem Coupled.admissible_flush (h : Coupled base caches b maps) {depths : List Nat}
    (hdepths : ∀ depth ∈ depths, depth < caches.length) :
    Admissible base (depths.map fun depth => (depth, .flush)) caches b maps := by
  induction depths generalizing caches b maps with
  | nil => trivial
  | cons depth depths ih =>
    rw [List.forall_mem_cons] at hdepths
    have hallowed := h.allowed_flush hdepths.1
    refine ⟨hallowed, fun out caches' b' hstep => ?_⟩
    obtain ⟨out', caches'', b'', hstep', _, hcoupled⟩ := h.step hallowed
    rw [hstep] at hstep'
    cases hstep'
    have hlength : caches'.length = caches.length := by
      have hmaps := hcoupled.length_eq
      rw [length_maps, h.length_eq] at hmaps
      exact (Nat.succ_injective hmaps).symm
    exact ih hcoupled (hlength ▸ hdepths.2)

theorem plainRun_append (calls calls' : List (Nat × CoinsAction)) (maps : List CoinMap) :
    (plainRun (calls ++ calls') maps).2 = (plainRun calls' (plainRun calls maps).2).2 := by
  induction calls generalizing maps with
  | nil => rfl
  | cons call calls ih => exact ih _

theorem maps_flush_replicate (layers : Nat) (m m' : CoinMap) (ms : List CoinMap) :
    CoinsAction.flush.maps layers (List.replicate layers m ++ m :: m' :: ms) =
      List.replicate (layers + 1) m ++ m :: ms := by
  induction layers with
  | zero => rfl
  | succ layers ih => exact congrArg (m :: ·) ih

theorem plainRun_flushAll {layers : Nat} (hlength : layers ≤ ms.length) :
    (plainRun (flushAll layers) (m :: ms)).2 = List.replicate layers m ++ m :: ms.drop layers := by
  induction layers with
  | zero => rfl
  | succ layers ih =>
    have hcalls : flushAll (layers + 1) = flushAll layers ++ [(layers, .flush)] := by
      rw [flushAll, List.range_succ, List.map_append]
      rfl
    rw [hcalls, plainRun_append, ih (Nat.le_of_succ_le hlength), List.drop_eq_getElem_cons hlength]
    exact maps_flush_replicate layers m _ _

/-- A stack of new layers over a base: every call on a layer returns what the plain map of the layer does, nothing is thrown, and when all layers have been flushed the base has the map of the topmost one. -/
theorem run_eq_plainRun (base : CoinsBase β) (b : β) (layers : Nat) (calls : List (Nat × CoinsAction))
    (hcalls : Admissible base calls (List.replicate layers ∅) b
      (List.replicate (layers + 1) (base.view b))) :
    ∃ outs caches b', run base calls (List.replicate layers ∅) b = .ok (outs, caches, b') ∧
      outs.map CoinsOutput.seen = (plainRun calls (List.replicate (layers + 1) (base.view b))).1 ∧
      ∃ outs' caches' b'', run base (flushAll layers) caches b' = .ok (outs', caches', b'') ∧
        (plainRun calls (List.replicate (layers + 1) (base.view b))).2.head? = some (base.view b'') := by
  have hnew : ∀ layers,
      Coupled base (List.replicate layers ∅) b (List.replicate (layers + 1) (base.view b)) := by
    intro layers
    induction layers with
    | zero => exact .bottom b
    | succ layers ih => exact .layer (fun o => rfl) ih
  obtain ⟨outs, caches, b', hrun, houts, hcoupled⟩ := (hnew layers).run hcalls
  refine ⟨outs, caches, b', hrun, houts, ?_⟩
  have hlength : (plainRun calls (List.replicate (layers + 1) (base.view b))).2.length = layers + 1 := by
    rw [length_plainRun, List.length_replicate]
  generalize (plainRun calls (List.replicate (layers + 1) (base.view b))).2 = maps at hcoupled hlength
  have hlayers : caches.length = layers := Nat.succ_injective (hcoupled.length_eq.symm.trans hlength)
  have hflush : Admissible base (flushAll layers) caches b' maps :=
    hcoupled.admissible_flush (by rw [hlayers]; exact fun _ => List.mem_range.mp)
  obtain ⟨outs', caches', b'', hrun', _, hcoupled'⟩ := hcoupled.run hflush
  refine ⟨outs', caches', b'', hrun', ?_⟩
  cases maps with
  | nil => cases hlength
  | cons m ms =>
    have hms : ms.length = layers := Nat.succ_injective hlength
    have hlast := hcoupled'.getLast?_eq
    rw [plainRun_flushAll hms.ge, ← hms, List.drop_length, List.getLast?_append_cons] at hlast
    exact hlast

namespace TwoLayers

def outpoint : OutPoint := ⟨.ofNat 1, 0⟩

def coin : Coin := ⟨⟨5, []⟩, false, false, 1⟩

def database : CoinMap := fun o => if o = outpoint then coin.unspent else none

def replaced : List (Nat × CoinsAction) :=
  [(0, .spendCoin outpoint), (0, .addCoin outpoint { coin with nHeight := 2 } false), (1, .flush),
    (0, .accessCoin outpoint)]

theorem admissible_replaced :
    Admissible coinsViewDB replaced [∅, ∅] database [database, database, database] := by
  apply Admissible.cons
  · exact trivial
  · rfl
  apply Admissible.cons
  · exact ⟨rfl, fun _ => rfl⟩
  · rfl
  apply Admissible.cons
  · exact ⟨trivial, trivial⟩
  · rfl
  apply Admissible.cons
  · exact trivial
  · rfl
  trivial

end TwoLayers

open TwoLayers in
theorem run_eq_plainRun_replaced :
    Admissible coinsViewDB replaced [∅, ∅] database [database, database, database] ∧
      ∃ outs caches b, run coinsViewDB replaced [∅, ∅] database = .ok (outs, caches, b) ∧
        outs.map CoinsOutput.seen = [.moved (some coin), .done, .done, .coin { coin with nHeight := 2 }] ∧
        ∃ outs' caches' b', run coinsViewDB (flushAll 2) caches b = .ok (outs', caches', b') ∧
          (plainRun replaced [database, database, database]).2.head? = some b' :=
  ⟨admissible_replaced, run_eq_plainRun coinsViewDB database 2 replaced admissible_replaced⟩

open TwoLayers in
/-- A coin spent at the lower layer is still there at the upper one, which has read it before; a fresh coin of the upper layer cannot be merged into a lower layer that has been given one too; and a coin that has been spent can be spent again, but nothing is moved out. -/
theorem stale_layers :
    (run coinsViewDB [(0, .accessCoin outpoint), (1, .spendCoin outpoint), (0, .haveCoin outpoint)]
      [∅, ∅] database).map Prod.fst =
        .ok [.coin coin, .moved (some coin), .found true] ∧
      (plainRun [(0, .accessCoin outpoint), (1, .spendCoin outpoint), (0, .haveCoin outpoint)]
        [database, database, database]).1 =
        [.coin coin, .moved (some coin), .found false] ∧
      (run coinsViewDB [(0, .addCoin outpoint coin false), (1, .addCoin outpoint coin true),
        (0, .flush)] [∅, ∅] fun _ => none).map Prod.fst =
        .error (.exception
          "FRESH flag misapplied to cache entry for base transaction with spendable outputs") ∧
      (run coinsViewDB [(0, .spendCoin outpoint), (0, .spendCoin outpoint)]
        [∅] database).map Prod.fst = .ok [.moved (some coin), .moved (some Coin.empty)] ∧
      (plainRun [(0, .spendCoin outpoint), (0, .spendCoin outpoint)] [database, database]).1 =
      [.moved (some coin), .moved none] := by
  refine ⟨?_, ?_, ?_, ?_, ?_⟩
  · rfl
  · rfl
  · rfl
  · rfl
  · rfl

end CoinsCache

end TscPow
