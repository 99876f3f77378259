import TscPow.Primitives.Block

/-!
# Block index entries

A `CBlockIndex` (`chain.h`) knows its header and, through `pprev`, every ancestor down to the genesis block. It is modelled as exactly that path: the header of the entry and the headers of its ancestors, the parent first. `nHeight` is the number of ancestors, as `AddToBlockIndex` assigns it. The skip list behind `GetAncestor` is a shortcut over the same path and is not represented.
-/

namespace TscPow

/-- `CBlockIndex`. -/
@[ext] structure BlockIndex where
  header : BlockHeader
  ancestors : List BlockHeader
deriving DecidableEq, Inhabited

namespace BlockIndex

def pprev (i : BlockIndex) : Option BlockIndex :=
  match i.ancestors with
  | [] => none
  | header :: ancestors => some ⟨header, ancestors⟩

/-- The entry `AddToBlockIndex` creates for a header on top of a known entry. -/
def child (i : BlockIndex) (header : BlockHeader) : BlockIndex := ⟨header, i.header :: i.ancestors⟩

def nHeight (i : BlockIndex) : Nat := i.ancestors.length

def getBlockTime (i : BlockIndex) : Int := i.header.getBlockTime

@[simp] theorem pprev_child (i : BlockIndex) (header : BlockHeader) :
    (i.child header).pprev = some i := rfl

@[simp] theorem nHeight_child (i : BlockIndex) (header : BlockHeader) :
    (i.child header).nHeight = i.nHeight + 1 := rfl

def medianTimeSpan : Nat := 11

/-- The times that `GetMedianTimePast` collects: those of the entry and its nearest ancestors. -/
def recentTimes (i : BlockIndex) : List Int :=
  ((i.header :: i.ancestors).take medianTimeSpan).map BlockHeader.getBlockTime

def getMedianTimePast (i : BlockIndex) : Int :=
  (i.recentTimes.insertionSort (· ≤ ·)).getD (i.recentTimes.length / 2) 0

/-- `GetAncestor`: the entry at a given height of the path, if the path reaches that high. -/
def getAncestor (i : BlockIndex) (height : Int) : Option BlockIndex :=
  if height < 0 ∨ height > i.nHeight then none
  else
    match (i.header :: i.ancestors).drop (i.nHeight - height.toNat) with
    | [] => none
    | header :: ancestors => some ⟨header, ancestors⟩

theorem exists_getAncestor (i : BlockIndex) (height : Int) (hpos : 0 ≤ height)
    (hle : height ≤ i.nHeight) :
    ∃ j, i.getAncestor height = some j := by
  rw [getAncestor, if_neg (by omega)]
  cases hdrop : (i.header :: i.ancestors).drop (i.nHeight - height.toNat) with
  | nil =>
    rw [List.drop_eq_nil_iff, List.length_cons, nHeight] at hdrop
    omega
  | cons header ancestors => exact ⟨_, rfl⟩

variable {i old new : BlockIndex} {header : BlockHeader}

theorem getAncestor_self (i : BlockIndex) : i.getAncestor i.nHeight = some i := by
  rw [getAncestor, if_neg (by omega), Int.toNat_natCast, Nat.sub_self, List.drop_zero]

theorem getAncestor_child {height : Nat} (h : height ≤ i.nHeight) :
    (i.child header).getAncestor height = i.getAncestor height := by
  have hdrop :
      (i.child header).nHeight - (height : Int).toNat = i.nHeight - (height : Int).toNat + 1 := by
    rw [nHeight_child]
    omega
  rw [getAncestor, getAncestor, hdrop, nHeight_child, if_neg (by omega), if_neg (by omega), child,
    List.drop_succ_cons]

theorem nHeight_of_getAncestor {height : Nat} (h : new.getAncestor height = some old) :
    old.nHeight = height := by
  rw [getAncestor] at h
  split at h
  · cases h
  · rename_i hrange
    split at h
    · cases h
    · rename_i header ancestors hdrop
      cases h
      have hlength := congrArg List.length hdrop
      rw [List.length_drop, List.length_cons, List.length_cons, ← nHeight, Int.toNat_natCast] at hlength
      change ancestors.length = height
      omega

end BlockIndex

end TscPow
