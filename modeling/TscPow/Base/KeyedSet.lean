import Mathlib

/-!
# Sets with a unique key

A `KeyedSet key` is a finite set of values no two of which share a key, kept in the order of insertion. An insertion under a key that is taken changes nothing. `byKey` lists the values in the order of their keys: erasing the value at a position of that list erases exactly this position (`byKey_erase`).
-/

structure KeyedSet {α κ : Type} (key : α → κ) where
  toList : List α
  nodup_keys : (toList.map key).Nodup
deriving DecidableEq

namespace KeyedSet

variable {α κ : Type} {key : α → κ}

instance : Membership α (KeyedSet key) := ⟨fun s a => a ∈ s.toList⟩

theorem mem_toList {s : KeyedSet key} {a : α} : a ∈ s.toList ↔ a ∈ s := Iff.rfl

theorem nodup (s : KeyedSet key) : s.toList.Nodup := s.nodup_keys.of_map

theorem eq_of_key_eq {s : KeyedSet key} {a b : α} (ha : a ∈ s) (hb : b ∈ s) (hkey : key a = key b) :
    a = b :=
  List.inj_on_of_nodup_map s.nodup_keys ha hb hkey

def size (s : KeyedSet key) : Nat := s.toList.length

/-! ### Updates -/

def empty : KeyedSet key := ⟨[], List.nodup_nil⟩

@[simp] theorem not_mem_empty {a : α} : a ∉ (empty : KeyedSet key) := List.not_mem_nil

def filter (s : KeyedSet key) (p : α → Bool) : KeyedSet key :=
  ⟨s.toList.filter p, s.nodup_keys.sublist (List.filter_sublist.map key)⟩

@[simp] theorem mem_filter {s : KeyedSet key} {p : α → Bool} {a : α} : a ∈ s.filter p ↔ a ∈ s ∧ p a :=
  List.mem_filter

variable [LinearOrder κ]

def insert (s : KeyedSet key) (a : α) : KeyedSet key :=
  if h : key a ∈ s.toList.map key then s
  else ⟨s.toList ++ [a], by simpa [List.nodup_append] using ⟨s.nodup_keys, by simpa using h⟩⟩

theorem mem_insert {s : KeyedSet key} {a b : α} :
    b ∈ s.insert a ↔ b ∈ s ∨ b = a ∧ ∀ c ∈ s, key c ≠ key a := by
  rw [insert]
  split
  case isTrue h =>
    obtain ⟨c, hc, hkey⟩ := List.mem_map.mp h
    exact ⟨Or.inl, fun hb => hb.elim id fun hb => absurd hkey (hb.2 c hc)⟩
  case isFalse h =>
    have hfresh : ∀ c ∈ s, key c ≠ key a := fun c hc hkey => h (List.mem_map.mpr ⟨c, hc, hkey⟩)
    change b ∈ s.toList ++ [a] ↔ _
    rw [List.mem_append, List.mem_singleton]
    exact or_congr Iff.rfl (and_iff_left hfresh).symm

def erase (s : KeyedSet key) (k : κ) : KeyedSet key := s.filter (key · ≠ k)

@[simp] theorem mem_erase {s : KeyedSet key} {k : κ} {a : α} : a ∈ s.erase k ↔ a ∈ s ∧ key a ≠ k := by
  simp [erase]

def replace (s : KeyedSet key) (a : α) : KeyedSet key := (s.erase (key a)).insert a

theorem mem_replace {s : KeyedSet key} {a b : α} : b ∈ s.replace a ↔ b = a ∨ b ∈ s ∧ key b ≠ key a := by
  have hfree : ∀ c ∈ s.erase (key a), key c ≠ key a := fun c hc => (mem_erase.mp hc).2
  rw [replace, mem_insert, mem_erase, and_iff_left hfree, or_comm]

/-! ### The values in the order of their keys -/

def byKey (s : KeyedSet key) : List α := s.toList.insertionSort fun a b => key a ≤ key b

theorem byKey_perm (s : KeyedSet key) : s.byKey.Perm s.toList := List.perm_insertionSort _ _

@[simp] theorem mem_byKey {s : KeyedSet key} {a : α} : a ∈ s.byKey ↔ a ∈ s := s.byKey_perm.mem_iff

@[simp] theorem length_byKey (s : KeyedSet key) : s.byKey.length = s.size := s.byKey_perm.length_eq

theorem nodup_byKey (s : KeyedSet key) : s.byKey.Nodup := s.byKey_perm.nodup_iff.mpr s.nodup

theorem pairwise_byKey (s : KeyedSet key) : s.byKey.Pairwise fun a b => key a ≤ key b :=
  have : Std.Total fun a b : α => key a ≤ key b := ⟨fun a b => le_total (key a) (key b)⟩
  have : IsTrans α fun a b => key a ≤ key b := ⟨fun _ _ _ => le_trans⟩
  List.pairwise_insertionSort _ _

theorem byKey_filter (s : KeyedSet key) (p : α → Bool) : (s.filter p).byKey = s.byKey.filter p := by
  refine List.Perm.eq_of_pairwise ?_ (pairwise_byKey _) (s.pairwise_byKey.filter p)
    ((s.filter p).byKey_perm.trans (s.byKey_perm.filter p).symm)
  intro a b ha hb hab hba
  rw [mem_byKey, mem_filter] at ha
  rw [List.mem_filter, mem_byKey] at hb
  exact eq_of_key_eq ha.1 hb.1 (le_antisymm hab hba)

theorem byKey_erase {s : KeyedSet key} {i : Nat} {a : α} (ha : s.byKey[i]? = some a) :
    (s.erase (key a)).byKey = s.byKey.eraseIdx i := by
  classical
  obtain ⟨hi, rfl⟩ := List.getElem?_eq_some_iff.mp ha
  rw [erase, byKey_filter, ← s.nodup_byKey.erase_getElem i hi, s.nodup_byKey.erase_eq_filter]
  refine List.filter_congr fun b hb => ?_
  have hmem : s.byKey[i] ∈ s := mem_byKey.mp (List.getElem_mem hi)
  have hiff : key b = key s.byKey[i] ↔ b = s.byKey[i] :=
    ⟨eq_of_key_eq (mem_byKey.mp hb) hmem, fun h => by rw [h]⟩
  rw [Bool.eq_iff_iff]
  simp [hiff]

theorem size_erase {s : KeyedSet key} {a : α} (ha : a ∈ s) : (s.erase (key a)).size + 1 = s.size := by
  obtain ⟨i, hi⟩ := List.mem_iff_getElem?.mp (mem_byKey.mpr ha)
  obtain ⟨hlt, -⟩ := List.getElem?_eq_some_iff.mp hi
  rw [← length_byKey, ← length_byKey, byKey_erase hi, List.length_eraseIdx_of_lt hlt]
  omega

end KeyedSet
