import Mathlib

/-!
# Readers of streams

A reader takes elements off the front of a stream and may fail. `Reads r input a` says that `r` makes `a` of `input` whatever follows it, and uses up no more than that: this is what a writer has to be met with, and it composes along `bind`. A reader in `do` notation is met with the concatenation of what its steps are met with, one rule for each step.
-/

/-- Takes a value off the front of a stream, or fails. -/
abbrev Reader (β α : Type) := StateT (List β) Option α

namespace Reader

variable {β α γ : Type}

def take (n : Nat) : Reader β (List β) :=
  fun input => if n ≤ input.length then some (input.take n, input.drop n) else none

def replicate (r : Reader β α) : Nat → Reader β (List α)
  | 0 => pure []
  | n + 1 => do
    let a ← r
    let as ← replicate r n
    return a :: as

/-- The reader makes `a` of the input, whatever comes after it. -/
def Reads (r : Reader β α) (input : List β) (a : α) : Prop :=
  ∀ rest, r.run (input ++ rest) = some (a, rest)

namespace Reads

theorem pure (a : α) : Reads (Pure.pure a : Reader β α) [] a := fun _ => rfl

theorem bind {r : Reader β α} {f : α → Reader β γ} {front back : List β} {a : α} {c : γ}
    (hfront : Reads r front a) (hback : Reads (f a) back c) : Reads (r >>= f) (front ++ back) c := by
  intro rest
  rw [StateT.run_bind, List.append_assoc, hfront]
  exact hback rest

theorem map {r : Reader β α} {input : List β} {a : α} (h : Reads r input a) (f : α → γ) :
    Reads (r >>= fun a => Pure.pure (f a)) input (f a) := by
  have hbind : Reads (r >>= fun a => Pure.pure (f a)) (input ++ []) (f a) := h.bind (Reads.pure (f a))
  rwa [List.append_nil] at hbind

theorem unique {r : Reader β α} {input : List β} {a b : α} (h : Reads r input a)
    (h' : Reads r input b) : a = b :=
  congrArg Prod.fst (Option.some.inj ((h []).symm.trans (h' [])))

theorem take (input : List β) : Reads (Reader.take input.length) input input := by
  intro rest
  have hle : input.length ≤ (input ++ rest).length := by simp
  change (if input.length ≤ (input ++ rest).length then _ else _) = _
  rw [if_pos hle, List.take_left, List.drop_left]

theorem replicate {r : Reader β α} {write : γ → List β} {value : γ → α} {cs : List γ}
    (h : ∀ c ∈ cs, Reads r (write c) (value c)) :
    Reads (Reader.replicate r cs.length) (cs.flatMap write) (cs.map value) := by
  induction cs with
  | nil => exact Reads.pure []
  | cons c cs ih =>
    obtain ⟨hhead, htail⟩ := List.forall_mem_cons.mp h
    rw [List.flatMap_cons]
    exact hhead.bind ((ih htail).map _)

theorem mapM {f : γ → Reader β α} {write : γ → List β} {value : γ → α} {cs : List γ}
    (h : ∀ c ∈ cs, Reads (f c) (write c) (value c)) :
    Reads (cs.mapM f) (cs.flatMap write) (cs.map value) := by
  induction cs with
  | nil => exact Reads.pure []
  | cons c cs ih =>
    obtain ⟨hhead, htail⟩ := List.forall_mem_cons.mp h
    rw [List.mapM_cons, List.flatMap_cons]
    exact hhead.bind ((ih htail).map _)

end Reads

/-! ### What was accepted -/

theorem run_bind_eq_some {r : Reader β α} {f : α → Reader β γ} {input rest : List β} {c : γ} :
    (r >>= f).run input = some (c, rest) ↔ ∃ a mid, r.run input = some (a, mid) ∧
    (f a).run mid = some (c, rest) := by
  rw [StateT.run_bind]
  constructor
  · intro h
    obtain ⟨⟨a, mid⟩, hr, hf⟩ := Option.bind_eq_some_iff.mp h
    exact ⟨a, mid, hr, hf⟩
  · intro ⟨a, mid, hr, hf⟩
    exact Option.bind_eq_some_iff.mpr ⟨(a, mid), hr, hf⟩

/-- Whatever the reader accepts is what `write` makes of the value it reads. -/
def Undoes (r : Reader β α) (write : α → List β) : Prop :=
  ∀ ⦃input a rest⦄, r.run input = some (a, rest) → input = write a ++ rest

theorem eq_append_of_take {n : Nat} {input bytes rest : List β}
    (h : (Reader.take n).run input = some (bytes, rest)) :
    bytes.length = n ∧ input = bytes ++ rest := by
  change (if n ≤ input.length then _ else _) = _ at h
  split at h
  · rename_i hle
    cases h
    exact ⟨List.length_take_of_le hle, (List.take_append_drop n input).symm⟩
  · cases h

theorem Undoes.replicate {r : Reader β α} {write : α → List β} (h : Undoes r write) {n : Nat}
    {input rest : List β} {as : List α}
    (hrun : (Reader.replicate r n).run input = some (as, rest)) :
    as.length = n ∧ input = as.flatMap write ++ rest := by
  induction n generalizing input as with
  | zero =>
    cases hrun
    exact ⟨rfl, rfl⟩
  | succ n ih =>
    obtain ⟨a, mid, ha, hmore⟩ := run_bind_eq_some.mp hrun
    obtain ⟨as', mid', has, hpure⟩ := run_bind_eq_some.mp hmore
    cases hpure
    obtain ⟨hlength, hmid⟩ := ih has
    refine ⟨congrArg (· + 1) hlength, ?_⟩
    rw [h ha, hmid, List.flatMap_cons, List.append_assoc]

end Reader
