import TscPow.Chain.Time

/-!
# Skip pointers

`GetAncestor` (`chain.cpp`) walks back through `pskip` and `pprev`, and `BuildSkip` sets `pskip` of a new entry with that same walk. Elsewhere an entry is its path and the walk is left out; here the pointers are a function on the entries. All the walk needs is that a pointer, where there is one, leads to the ancestor at the height `GetSkipHeight` computes; any height below the entry's own would do.
-/

namespace TscPow

def invertLowestOne (n : Nat) : Nat := n &&& (n - 1)

def getSkipHeight (height : Nat) : Nat :=
  if height < 2 then 0
  else if height % 2 = 1 then invertLowestOne (invertLowestOne (height - 1)) + 1
  else invertLowestOne height

theorem invertLowestOne_le (n : Nat) : invertLowestOne n ≤ n - 1 := Nat.and_le_right

theorem getSkipHeight_lt {height : Nat} (hpos : 0 < height) : getSkipHeight height < height := by
  rw [getSkipHeight]
  split
  · exact hpos
  · have houter := invertLowestOne_le (invertLowestOne (height - 1))
    have hinner := invertLowestOne_le (height - 1)
    have heven := invertLowestOne_le height
    split <;> omega

/-- The entries of `mapBlockIndex` with their skip pointers. -/
structure SkipTree where
  entries : List BlockIndex
  pskip : BlockIndex → Option BlockIndex

namespace SkipTree

/-- The loop of `GetAncestor`; `none` is a failed assertion. -/
def walk (t : SkipTree) (height : Nat) (pindexWalk : BlockIndex) (heightWalk : Nat) : Option BlockIndex :=
  if _h : heightWalk > height then
    let heightSkip := getSkipHeight heightWalk
    let heightSkipPrev := getSkipHeight (heightWalk - 1)
    let better :=
      decide (heightSkip = height ∨ heightSkip > height ∧
        ¬ (heightSkipPrev < heightSkip - 2 ∧ heightSkipPrev ≥ height))
    match (t.pskip pindexWalk).filter fun _ => better with
    | some pskip => t.walk height pskip heightSkip
    | none =>
      match pindexWalk.pprev with
      | none => none
      | some pprev => t.walk height pprev (heightWalk - 1)
  else some pindexWalk
termination_by heightWalk
decreasing_by
  · exact getSkipHeight_lt (by omega)
  · omega

/-- `GetAncestor`; the inner `none` is the null pointer. -/
def getAncestor (t : SkipTree) (i : BlockIndex) (height : Int) : Option (Option BlockIndex) :=
  if height > i.nHeight ∨ height < 0 then some none else (t.walk height.toNat i i.nHeight).map some

/-- `BuildSkip`: what `pskip` is set to. -/
def buildSkip (t : SkipTree) (i : BlockIndex) : Option (Option BlockIndex) :=
  match i.pprev with
  | none => some none
  | some pprev => t.getAncestor pprev (getSkipHeight i.nHeight)

def add (t : SkipTree) (i : BlockIndex) (pskip : Option BlockIndex) : SkipTree :=
  ⟨i :: t.entries, Function.update t.pskip i pskip⟩

/-- The tree grew from a genesis block, one entry at a time. -/
inductive Built (genesis : BlockHeader) : SkipTree → Prop where
  | genesis : Built genesis ⟨[⟨genesis, []⟩], fun _ => none⟩
  | add {t : SkipTree} {pprev : BlockIndex} {pskip : Option BlockIndex}
      (header : BlockHeader) : Built genesis t → pprev ∈ t.entries →
      pprev.child header ∉ t.entries → t.buildSkip (pprev.child header) = some pskip →
        Built genesis (t.add (pprev.child header) pskip)

/-- The loop of `LastCommonAncestor`, with the assertion after it. -/
def meet : Option BlockIndex → Option BlockIndex → Option (Option BlockIndex)
  | some pa, some pb => if pa = pb then some (some pa) else meet pa.pprev pb.pprev
  | none, none => some none
  | _, _ => none
termination_by pa => pa.elim 0 (·.nHeight + 1)
decreasing_by
  obtain ⟨header, _ | ⟨parent, ancestors⟩⟩ := pa
  · exact Nat.succ_pos _
  · exact Nat.lt_succ_self _

/-- The higher of two entries is taken down to the other's height. -/
def level (t : SkipTree) (i k : BlockIndex) : Option (Option BlockIndex) :=
  if i.nHeight > k.nHeight then t.getAncestor i k.nHeight else some (some i)

def lastCommonAncestor (t : SkipTree) (pa pb : BlockIndex) : Option (Option BlockIndex) := do
  let a ← t.level pa pb
  let b ← t.level pb pa
  meet a b

/-! ### The walk -/

/-- A skip pointer leads to the ancestor at the computed height. -/
def SkipsBack (t : SkipTree) (j : BlockIndex) : Prop :=
  ∀ s ∈ t.pskip j, j.getAncestor (getSkipHeight j.nHeight) = some s

theorem exists_pprev {i : BlockIndex} (hpos : 0 < i.nHeight) :
    ∃ p, i.pprev = some p ∧ i = p.child i.header := by
  obtain ⟨header, _ | ⟨parent, ancestors⟩⟩ := i
  · cases hpos
  · exact ⟨_, rfl, rfl⟩

theorem walk_eq {t : SkipTree} {height : Nat} {i : BlockIndex}
    (hskip : ∀ j, j.OnChain i → t.SkipsBack j) (hle : height ≤ i.nHeight) :
    t.walk height i i.nHeight = i.getAncestor height := by
  -- on the height of the entry: either pointer leads to a lower one
  induction hn : i.nHeight using Nat.strong_induction_on generalizing i with
  | _ n ih =>
    subst hn
    rw [walk]
    split
    · rename_i hgt
      dsimp only
      split
      · rename_i s hs
        obtain ⟨hs, hbetter⟩ := Option.filter_eq_some_iff.mp hs
        have hbetter := of_decide_eq_true hbetter
        have hancestor := hskip i .refl s hs
        have hheight : s.nHeight = getSkipHeight i.nHeight := BlockIndex.nHeight_of_getAncestor hancestor
        have hon := BlockIndex.onChain_of_getAncestor hancestor
        have hlt := getSkipHeight_lt (Nat.zero_lt_of_lt hgt)
        rw [← hheight, ih s.nHeight (by omega) (fun j hj => hskip j (hj.trans hon)) (by omega) rfl]
        exact (hon.getAncestor_eq (by omega)).symm
      · obtain ⟨p, hp, hchild⟩ := exists_pprev (Nat.zero_lt_of_lt hgt)
        have hon : p.OnChain i := by
          rw [hchild]
          exact .child _ .refl
        have hheight : i.nHeight = p.nHeight + 1 := congrArg BlockIndex.nHeight hchild
        rw [hp, hheight, Nat.add_sub_cancel]
        dsimp only
        rw [ih p.nHeight (by omega) (fun j hj => hskip j (hj.trans hon)) (by omega) rfl]
        exact (hon.getAncestor_eq (by omega)).symm
    · rename_i hgt
      have heq : height = i.nHeight := by omega
      rw [heq, BlockIndex.getAncestor_self]

/-! ### Built trees -/

/-- What every tree that was built satisfies. -/
structure Sound (genesis : BlockHeader) (t : SkipTree) : Prop where
  root : ∀ i ∈ t.entries, BlockIndex.OnChain ⟨genesis, []⟩ i
  closed : ∀ i ∈ t.entries, ∀ j, j.OnChain i → j ∈ t.entries
  skip : ∀ i ∈ t.entries, t.SkipsBack i

variable {genesis : BlockHeader} {t : SkipTree} {i : BlockIndex}

theorem Sound.getAncestor_eq (h : t.Sound genesis) (hi : i ∈ t.entries) (height : Int)
    (hpos : 0 ≤ height) (hle : height ≤ i.nHeight) :
    ∃ j, t.getAncestor i height = some (some j) ∧ i.getAncestor height = some j := by
  obtain ⟨n, rfl⟩ := Int.eq_ofNat_of_zero_le hpos
  obtain ⟨j, hj⟩ := i.exists_getAncestor n hpos hle
  refine ⟨j, ?_, hj⟩
  rw [getAncestor, if_neg (by omega), Int.toNat_natCast,
    walk_eq (fun j hj => h.skip j (h.closed i hi j hj)) (by omega), hj]
  rfl

theorem onChain_child {j p : BlockIndex} {header : BlockHeader} (h : j.OnChain (p.child header)) :
    j = p.child header ∨ j.OnChain p := by
  generalize hi : p.child header = i at h
  cases h with
  | refl => exact .inl rfl
  | child _ h =>
    have hparent : p = _ := Option.some.inj (congrArg BlockIndex.pprev hi)
    subst hparent
    exact .inr h

theorem Sound.add (h : t.Sound genesis) {pprev : BlockIndex} {header : BlockHeader}
    {pskip : Option BlockIndex} (hprev : pprev ∈ t.entries) (hnew : pprev.child header ∉ t.entries)
    (hskip : t.buildSkip (pprev.child header) = some pskip) :
    (t.add (pprev.child header) pskip).Sound genesis where
  root := List.forall_mem_cons.mpr ⟨.child header (h.root pprev hprev), h.root⟩
  closed := by
    refine List.forall_mem_cons.mpr ⟨?_, fun i hi j hj => List.mem_cons_of_mem _ (h.closed i hi j hj)⟩
    intro j hj
    rcases onChain_child hj with rfl | hj
    · exact List.mem_cons_self
    · exact List.mem_cons_of_mem _ (h.closed pprev hprev j hj)
  skip := by
    refine List.forall_mem_cons.mpr ⟨?_, ?_⟩
    · intro s hs
      change s ∈ Function.update t.pskip (pprev.child header) pskip (pprev.child header) at hs
      rw [Function.update_self] at hs
      obtain rfl := Option.mem_def.mp hs
      have hlt : getSkipHeight (pprev.nHeight + 1) < pprev.nHeight + 1 :=
        getSkipHeight_lt (Nat.succ_pos _)
      obtain ⟨j, hj, hancestor⟩ :=
        h.getAncestor_eq hprev (getSkipHeight (pprev.nHeight + 1)) (by omega) (by omega)
      obtain rfl : j = s := Option.some.inj (Option.some.inj (hj.symm.trans hskip))
      exact (BlockIndex.getAncestor_child (Nat.le_of_lt_succ hlt)).trans hancestor
    · intro i hi s hs
      have hne : i ≠ pprev.child header := fun heq => hnew (heq ▸ hi)
      change s ∈ Function.update t.pskip (pprev.child header) pskip i at hs
      rw [Function.update_of_ne hne] at hs
      exact h.skip i hi s hs

theorem sound_of_built (h : t.Built genesis) : t.Sound genesis := by
  induction h with
  | genesis =>
    refine ⟨?_, ?_, fun _ _ _ hs => by cases hs⟩
    · intro i hi
      rw [List.mem_singleton.mp hi]
      exact .refl
    · intro i hi j hj
      rw [List.mem_singleton.mp hi] at hj
      generalize hg : (⟨genesis, []⟩ : BlockIndex) = g at hj
      cases hj with
      | refl => exact hg ▸ List.mem_cons_self
      | child => cases hg
  | add header _ hprev hnew hskip ih => exact ih.add hprev hnew hskip

/-! ### The last common ancestor -/

def IsLastCommon (c a b : BlockIndex) : Prop := c.OnChain a ∧ c.OnChain b ∧ ∀ d : BlockIndex,
    d.OnChain a → d.OnChain b → d.nHeight ≤ c.nHeight

theorem exists_meet {g a b : BlockIndex} (hg : g.nHeight = 0) (ha : g.OnChain a) (hb : g.OnChain b)
    (heq : a.nHeight = b.nHeight) :
    ∃ c, meet (some a) (some b) = some (some c) ∧ IsLastCommon c a b := by
  induction hn : a.nHeight generalizing a b with
  | zero =>
    obtain rfl := ha.eq_of_nHeight_eq (by omega)
    obtain rfl := hb.eq_of_nHeight_eq (by omega)
    exact ⟨g, by rw [meet, if_pos rfl], .refl, .refl, fun d hd _ => hd.nHeight_le⟩
  | succ n ih =>
    rw [meet]
    split
    · rename_i hab
      subst hab
      exact ⟨a, rfl, .refl, .refl, fun d hd _ => hd.nHeight_le⟩
    · rename_i hne
      obtain ⟨p, hp, hpa⟩ := exists_pprev (i := a) (by omega)
      obtain ⟨q, hq, hqb⟩ := exists_pprev (i := b) (by omega)
      have hpn : a.nHeight = p.nHeight + 1 := congrArg BlockIndex.nHeight hpa
      have hqn : b.nHeight = q.nHeight + 1 := congrArg BlockIndex.nHeight hqb
      -- an ancestor of both is neither of them, for they have one height
      have hbelow : ∀ d : BlockIndex, d.OnChain a → d.OnChain b → d.OnChain p ∧ d.OnChain q := by
        intro d hda hdb
        have hlt : d.nHeight ≠ a.nHeight := by
          intro hd
          exact hne ((hda.eq_of_nHeight_eq hd).symm.trans (hdb.eq_of_nHeight_eq (hd.trans heq)))
        have hda' := hda.nHeight_le
        refine ⟨hda.of_nHeight_le ?_ (by omega), hdb.of_nHeight_le ?_ (by omega)⟩
        · rw [hpa]
          exact .child _ .refl
        · rw [hqb]
          exact .child _ .refl
      have hg' : g.OnChain p ∧ g.OnChain q := hbelow g ha hb
      obtain ⟨c, hc, hcp, hcq, hlast⟩ := ih hg'.1 hg'.2 (by omega) (by omega)
      rw [hp, hq]
      refine ⟨c, hc, ?_, ?_, fun d hda hdb => hlast d (hbelow d hda hdb).1 (hbelow d hda hdb).2⟩
      · rw [hpa]
        exact .child _ hcp
      · rw [hqb]
        exact .child _ hcq

theorem Sound.exists_level (h : t.Sound genesis) (hi : i ∈ t.entries) (k : BlockIndex) :
    ∃ j : BlockIndex, t.level i k = some (some j) ∧ j.OnChain i ∧
      j.nHeight = min i.nHeight k.nHeight := by
  rw [level]
  split
  · obtain ⟨j, hj, hancestor⟩ := h.getAncestor_eq hi k.nHeight (by omega) (by omega)
    have hheight : j.nHeight = k.nHeight := BlockIndex.nHeight_of_getAncestor hancestor
    exact ⟨j, hj, BlockIndex.onChain_of_getAncestor hancestor, by omega⟩
  · exact ⟨i, rfl, .refl, by omega⟩

theorem Sound.exists_lastCommonAncestor (h : t.Sound genesis) {a b : BlockIndex}
    (ha : a ∈ t.entries) (hb : b ∈ t.entries) :
    ∃ c, t.lastCommonAncestor a b = some (some c) ∧ IsLastCommon c a b := by
  obtain ⟨a', hlevel, haa, hheight⟩ := h.exists_level ha b
  obtain ⟨b', hlevel', hbb, hheight'⟩ := h.exists_level hb a
  have hroot := h.root a' (h.closed a ha a' haa)
  have hroot' := h.root b' (h.closed b hb b' hbb)
  obtain ⟨c, hc, hca, hcb, hlast⟩ := exists_meet rfl hroot hroot' (by omega)
  refine ⟨c, ?_, hca.trans haa, hcb.trans hbb, ?_⟩
  · rw [lastCommonAncestor, hlevel, hlevel']
    exact hc
  · intro d hda hdb
    have hle := hda.nHeight_le
    have hle' := hdb.nHeight_le
    exact hlast d (hda.of_nHeight_le haa (by omega)) (hdb.of_nHeight_le hbb (by omega))

/-- In a tree that was built entry by entry, `GetAncestor` finds the ancestor at every height, and `LastCommonAncestor` the highest common one. -/
theorem ancestors_of_built (genesis : BlockHeader) (t : SkipTree) (h : t.Built genesis) :
    (∀ i ∈ t.entries, ∀ height : Int, 0 ≤ height → height ≤ i.nHeight →
      ∃ j : BlockIndex, t.getAncestor i height = some (some j) ∧ j.OnChain i ∧
        (j.nHeight : Int) = height) ∧
    ∀ a ∈ t.entries, ∀ b ∈ t.entries, ∃ c : BlockIndex, t.lastCommonAncestor a b = some (some c) ∧
      c.OnChain a ∧ c.OnChain b ∧
      ∀ d : BlockIndex, d.OnChain a → d.OnChain b → d.nHeight ≤ c.nHeight := by
  have hsound := sound_of_built h
  refine ⟨?_, fun a ha b hb => hsound.exists_lastCommonAncestor ha hb⟩
  intro i hi height hpos hle
  obtain ⟨j, hj, hancestor⟩ := hsound.getAncestor_eq hi height hpos hle
  exact ⟨j, hj, BlockIndex.onChain_of_getAncestor hancestor,
    BlockIndex.nHeight_eq_of_getAncestor hancestor⟩

/-! ### Branches -/

/-- The entry `n` above `i`, all with the same header. -/
def onTop (i : BlockIndex) (header : BlockHeader) : Nat → BlockIndex
  | 0 => i
  | n + 1 => (onTop i header n).child header

@[simp] theorem nHeight_onTop (i : BlockIndex) (header : BlockHeader) (n : Nat) :
    (onTop i header n).nHeight = i.nHeight + n := by
  induction n with
  | zero => rfl
  | succ n ih => exact congrArg (· + 1) ih

theorem onChain_onTop (i : BlockIndex) (header : BlockHeader) {m n : Nat} (hle : m ≤ n) :
    (onTop i header m).OnChain (onTop i header n) := by
  induction hle with
  | refl => exact .refl
  | step _ ih => exact .child header ih

theorem onChain_or_of_onChain_onTop {j : BlockIndex} {header : BlockHeader} {n : Nat}
    (h : j.OnChain (onTop i header n)) : j.OnChain i ∨ j.header = header := by
  induction n with
  | zero => exact .inl h
  | succ n ih =>
    rcases onChain_child h with rfl | h
    · exact .inr rfl
    · exact ih h

theorem Built.exists_add (h : t.Built genesis) (hi : i ∈ t.entries) {header : BlockHeader}
    (hnew : i.child header ∉ t.entries) : ∃ pskip, (t.add (i.child header) pskip).Built genesis := by
  have hlt : getSkipHeight (i.nHeight + 1) < i.nHeight + 1 := getSkipHeight_lt (Nat.succ_pos _)
  obtain ⟨j, hj, _⟩ :=
    (sound_of_built h).getAncestor_eq hi (getSkipHeight (i.nHeight + 1)) (by omega) (by omega)
  exact ⟨some j, .add header h hi hnew hj⟩

theorem Built.exists_onTop (h : t.Built genesis) (hi : i ∈ t.entries) {header : BlockHeader}
    (hfresh : ∀ j ∈ t.entries, j.header ≠ header) (n : Nat) :
    ∃ t' : SkipTree, t'.Built genesis ∧ t.entries ⊆ t'.entries ∧ onTop i header n ∈ t'.entries ∧
      ∀ j ∈ t'.entries, j ∈ t.entries ∨ j.header = header ∧ j.nHeight ≤ i.nHeight + n := by
  induction n with
  | zero => exact ⟨t, h, List.Subset.refl _, hi, fun j hj => .inl hj⟩
  | succ n ih =>
    obtain ⟨t', ht', hsub, htop, hentries⟩ := ih
    have hnew : (onTop i header n).child header ∉ t'.entries := by
      intro hmem
      rcases hentries _ hmem with hold | ⟨_, hheight⟩
      · exact hfresh _ hold rfl
      · have htop : ((onTop i header n).child header).nHeight = i.nHeight + (n + 1) :=
          nHeight_onTop i header (n + 1)
        omega
    obtain ⟨pskip, hbuilt⟩ := ht'.exists_add htop hnew
    refine ⟨_, hbuilt, fun j hj => List.mem_cons_of_mem _ (hsub hj), List.mem_cons_self, ?_⟩
    refine List.forall_mem_cons.mpr ⟨.inr ⟨rfl, (nHeight_onTop i header (n + 1)).le⟩, fun j hj => ?_⟩
    exact (hentries j hj).imp_right fun hj => ⟨hj.1, by omega⟩

/-- A chain of a thousand blocks, and a branch that leaves it at height 600. -/
def mainBranch (n : Nat) : BlockIndex :=
  onTop ⟨default, []⟩ { (default : BlockHeader) with nNonce := 1 } n

def sideBranch (n : Nat) : BlockIndex :=
  onTop (mainBranch 600) { (default : BlockHeader) with nNonce := 2 } n

theorem exists_built_branches :
    ∃ t : SkipTree, t.Built default ∧ mainBranch 1000 ∈ t.entries ∧ sideBranch 300 ∈ t.entries := by
  have hgenesis : ∀ j ∈ [(⟨default, []⟩ : BlockIndex)],
      j.header ≠ { (default : BlockHeader) with nNonce := 1 } := by
    decide
  obtain ⟨t, ht, _, hmain, hentries⟩ :=
    Built.exists_onTop .genesis List.mem_cons_self hgenesis 1000
  have hfork : mainBranch 600 ∈ t.entries :=
    (sound_of_built ht).closed _ hmain _ (onChain_onTop _ _ (by decide))
  have hfresh : ∀ j ∈ t.entries, j.header ≠ { (default : BlockHeader) with nNonce := 2 } := by
    intro j hj
    rcases hentries j hj with hj | ⟨hj, _⟩
    · rw [List.mem_singleton.mp hj]
      decide
    · rw [hj]
      decide
  obtain ⟨t', ht', hsub, hside, _⟩ := ht.exists_onTop hfork hfresh 300
  exact ⟨t', ht', hsub hmain, hside⟩

theorem ancestors_of_built_fork : ∃ t : SkipTree, t.Built default ∧
    t.getAncestor (mainBranch 1000) 600 = some (some (mainBranch 600)) ∧
    t.lastCommonAncestor (mainBranch 1000) (sideBranch 300) = some (some (mainBranch 600)) := by
  obtain ⟨t, ht, hmain, hside⟩ := exists_built_branches
  have hheight : ∀ n, (mainBranch n).nHeight = n := fun n => (nHeight_onTop _ _ n).trans (Nat.zero_add n)
  have hon : (mainBranch 600).OnChain (mainBranch 1000) := onChain_onTop _ _ (by decide)
  have hon' : (mainBranch 600).OnChain (sideBranch 300) := onChain_onTop _ _ (Nat.zero_le _)
  refine ⟨t, ht, ?_, ?_⟩
  · obtain ⟨j, hj, hjon, hjheight⟩ :=
      (ancestors_of_built default t ht).1 _ hmain 600 (by decide) (by rw [hheight]; decide)
    have hfork := hheight 600
    rw [hj, (hjon.of_nHeight_le hon (by omega)).eq_of_nHeight_eq (by omega)]
  · obtain ⟨c, hc, hca, hcb, hlast⟩ := (ancestors_of_built default t ht).2 _ hmain _ hside
    have hge := hlast _ hon hon'
    -- above the fork the nonces differ
    have hbelow : c.OnChain (mainBranch 600) := by
      rcases onChain_or_of_onChain_onTop hcb with h | hheader
      · exact h
      · rcases onChain_or_of_onChain_onTop hca with h | hheader'
        · exact h.trans (onChain_onTop _ _ (Nat.zero_le _))
        · exact absurd (hheader.symm.trans hheader') (by decide)
    rw [hc, hbelow.eq_of_nHeight_eq (le_antisymm hbelow.nHeight_le hge)]

end SkipTree

end TscPow
