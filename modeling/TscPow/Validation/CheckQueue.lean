import TscPow.Base.Tally
import TscPow.Validation.Money

/-!
# The check queue

`CCheckQueue` (`checkqueue.h`) verifies the scripts of a block on several threads. The master, which connects the block, adds batches of checks and at last calls `Wait`, where it becomes one more worker; every thread takes a batch inside the mutex and runs it outside. A step of the model is one critical section of one thread or one check outside the mutex, so that a run is any interleaving. A sleeping thread may wake without having been notified.

`nTodo` is an `unsigned int`; an `Add` that would take it beyond 32 bits is not a step. `nTotal` and `nIdle` count threads. An interrupted worker is one that makes no further step.
-/

namespace TscPow

namespace CheckQueue

/-! ### The threads -/

/-- Where a thread stands in `Loop`: not there, before `while (queue.empty())`, in `cond.wait`, or with a batch of `nNow` checks of which `rest` is still to do. -/
inductive Place (T : Type) where
  | outside
  | entering
  | asleep (notified : Bool)
  | working (rest : List T) (nNow : Nat) (fOk : Bool)

namespace Place

variable {T : Type}

def notify : Place T → Place T
  | asleep _ => asleep true
  | p => p

/-- How many checks of `nTodo` the thread has to account for. -/
def held : Place T → Nat
  | working _ nNow _ => nNow
  | _ => 0

def rest : Place T → List T
  | working rest _ _ => rest
  | _ => []

/-- `fOk`, as far as it has not been added to `fAllOk`. -/
def fine : Place T → Bool
  | working _ _ fOk => fOk
  | _ => true

def weight : Place T → Nat
  | outside => 0
  | entering => 1
  | asleep notified => if notified then 1 else 0
  | working rest _ _ => rest.length + 3

@[simp] theorem held_notify (p : Place T) : p.notify.held = p.held := by cases p <;> rfl

@[simp] theorem rest_notify (p : Place T) : p.notify.rest = p.rest := by cases p <;> rfl

@[simp] theorem fine_notify (p : Place T) : p.notify.fine = p.fine := by cases p <;> rfl

end Place

/-- The checks since `Wait` last returned: those added, those run, and those passed over because an earlier one had failed. -/
structure Round (T : Type) where
  added : List T
  executed : List T
  skipped : List T

/-- The queue, back first, with its counters and where each thread is; the thread `none` is the master. `round` and `returned` record what has happened and are not read. -/
structure State (n : Nat) (T : Type) where
  queue : List T
  nIdle : Nat
  nTotal : Nat
  fAllOk : Bool
  nTodo : Nat
  fQuit : Bool
  place : Option (Fin n) → Place T
  round : Round T
  returned : List (Round T × Bool)

inductive Event (n : Nat) (T : Type) where
  | add (vChecks : List T) (notified : Option (Fin n))
  | call (i : Option (Fin n))
  | resume (i : Option (Fin n))
  | wake (i : Option (Fin n))
  | check (i : Option (Fin n))

namespace State

variable {n : Nat} {T : Type}

def start : State n T := ⟨[], 0, 0, true, 0, false, fun _ => .outside, ⟨[], [], []⟩, []⟩

def moved (s : State n T) (i : Option (Fin n)) (p : Place T) : State n T :=
  { s with place := Function.update s.place i p }

/-- `Add`. With one check `condWorker.notify_one` wakes a worker that the system picks. -/
def add (s : State n T) (vChecks : List T) (notified : Option (Fin n)) : State n T :=
  { s with
    queue := vChecks.reverse ++ s.queue
    nTodo := s.nTodo + vChecks.length
    place := fun i =>
      if i.isSome ∧ (1 < vChecks.length ∨ vChecks.length = 1 ∧ i = notified) then (s.place i).notify
      else s.place i
    round := { s.round with added := s.round.added ++ vChecks } }

/-- The clean-up after a batch. -/
def report (s : State n T) (i : Option (Fin n)) (nNow : Nat) (fOk : Bool) : State n T :=
  let s := { s with fAllOk := s.fAllOk && fOk, nTodo := s.nTodo - nNow }.moved i .entering
  if s.nTodo = 0 ∧ i.isSome then s.moved none (s.place none).notify else s

/-- How many checks a thread takes. -/
def nNow (s : State n T) (nBatchSize : Nat) : Nat :=
  max 1 (min nBatchSize (s.queue.length / (s.nTotal + s.nIdle + 1)))

/-- The critical section from `while (queue.empty())` on: the thread returns, goes to sleep or takes a batch. -/
def proceed (nBatchSize : Nat) (s : State n T) (i : Option (Fin n)) : State n T :=
  if s.queue.isEmpty then
    if (i.isNone || s.fQuit) && s.nTodo == 0 then
      let t := { s with nTotal := s.nTotal - 1 }.moved i .outside
      if i.isNone then
        { t with
          fAllOk := true, round := ⟨[], [], []⟩, returned := s.returned ++ [(s.round, s.fAllOk)] }
      else t
    else { s with nIdle := s.nIdle + 1 }.moved i (.asleep false)
  else
    { s with queue := s.queue.drop (s.nNow nBatchSize) }.moved i
      (.working (s.queue.take (s.nNow nBatchSize)) (s.nNow nBatchSize) s.fAllOk)

/-- One check of a batch, which is run only if none has failed. -/
def runCheck (ok : T → Bool) (s : State n T) (i : Option (Fin n)) (c : T) (rest : List T)
    (nNow : Nat) (fOk : Bool) : State n T :=
  if fOk then { s with round := { s.round with executed := s.round.executed ++ [c] } }.moved i
    (.working rest nNow (ok c))
  else { s with round := { s.round with skipped := s.round.skipped ++ [c] } }.moved i
    (.working rest nNow fOk)

/-- One step of one thread. Only the master adds checks, and it is not in `Loop` then; the sum has to fit `nTodo`. -/
def step (ok : T → Bool) (nBatchSize : Nat) (s : State n T) : Event n T → Option (State n T)
  | .add vChecks notified =>
    match s.place none with
    | .outside => if s.nTodo + vChecks.length < 2 ^ 32 then some (s.add vChecks notified) else none
    | _ => none
  | .call i =>
    match s.place i with
    | .outside => some (s.moved i .entering)
    | _ => none
  | .resume i =>
    match s.place i with
    | .entering => some ({ s with nTotal := s.nTotal + 1 }.proceed nBatchSize i)
    | .working [] nNow fOk => some ((s.report i nNow fOk).proceed nBatchSize i)
    | _ => none
  | .wake i =>
    match s.place i with
    | .asleep _ => some (({ s with nIdle := s.nIdle - 1 }.moved i .entering).proceed nBatchSize i)
    | _ => none
  | .check i =>
    match s.place i with
    | .working (c :: rest) nNow fOk => some (s.runCheck ok i c rest nNow fOk)
    | _ => none

inductive Reachable (ok : T → Bool) (nBatchSize : Nat) : State n T → Prop
  | start : Reachable ok nBatchSize start
  | step {s s' : State n T} {e : Event n T} : Reachable ok nBatchSize s →
      s.step ok nBatchSize e = some s' → Reachable ok nBatchSize s'

/-! ### Sums over the threads -/

theorem moved_place (s : State n T) (i j : Option (Fin n)) (p : Place T) :
    (s.moved i p).place j = if j = i then p else s.place j := Function.update_apply ..

@[simp] theorem moved_place_self (s : State n T) (i : Option (Fin n)) (p : Place T) :
    (s.moved i p).place i = p := by
  rw [moved_place, if_pos rfl]

theorem sum_moved {M : Type} [AddCommMonoid M] (f : Place T → M) (s : State n T)
    (i : Option (Fin n)) (p : Place T) :
    ∑ j, f ((s.moved i p).place j) + f (s.place i) = ∑ j, f (s.place j) + f p :=
      Tally.sum_update f s.place (Finset.mem_univ i) p

/-! ### The accounts of the queue -/

/-- No check has failed, as far as `fAllOk` and the threads know. -/
def Clean (s : State n T) : Prop := s.fAllOk = true ∧ ∀ i, (s.place i).fine = true

/-- What `Wait` answered for a round: whether all checks that were added succeed, and if so each of them has been run once. -/
def Answers (ok : T → Bool) (r : Round T × Bool) : Prop :=
  r.2 = r.1.added.all ok ∧ (r.2 = true → r.1.executed.Perm r.1.added)

/-- `nTodo` counts the queue and the batches, and every check of the round is in the queue, in a batch, run or passed over. A failure is in `fAllOk` or with the thread that found it. -/
structure Inv (ok : T → Bool) (s : State n T) : Prop where
  todo : s.nTodo = s.queue.length + ∑ i, (s.place i).held
  added : (s.round.added : Multiset T) = s.queue + ∑ i,
    ((s.place i).rest : Multiset T) + s.round.executed + s.round.skipped
  batch : ∀ i, (s.place i).held = 0 → (s.place i).rest = [] ∧ (s.place i).fine = true
  clean : s.Clean → (∀ c ∈ s.round.executed, ok c = true) ∧ s.round.skipped = []
  failed : ¬ s.Clean → ∃ c ∈ s.round.executed, ok c = false
  returned : ∀ r ∈ s.returned, Answers ok r

variable {ok : T → Bool} {nBatchSize : Nat} {s s' : State n T} {i : Option (Fin n)}

theorem inv_start : Inv ok (start : State n T) where
  todo := by simp [start, Place.held]
  added := by simp [start, Place.rest]
  batch _ _ := ⟨rfl, rfl⟩
  clean _ := ⟨by simp [start], rfl⟩
  failed h := (h ⟨rfl, fun _ => rfl⟩).elim
  returned _ h := nomatch h

theorem Inv.replaced (h : Inv ok s) {nIdle nTotal : Nat} {place : Option (Fin n) → Place T}
    (hheld : ∀ j, (place j).held = (s.place j).held)
    (hrest : ∀ j, (place j).rest = (s.place j).rest)
    (hfine : ∀ j, (place j).fine = (s.place j).fine) :
    Inv ok { s with nIdle := nIdle, nTotal := nTotal, place := place } where
  todo := by simpa only [hheld] using h.todo
  added := by simpa only [hrest] using h.added
  batch j hj := by
    rw [hrest, hfine]
    exact h.batch j (by rw [← hheld]; exact hj)
  clean hc := h.clean ⟨hc.1, fun j => by rw [← hfine]; exact hc.2 j⟩
  failed hc := h.failed fun hs => hc ⟨hs.1, fun j => by rw [hfine]; exact hs.2 j⟩
  returned := h.returned

theorem Inv.moved (h : Inv ok s) {nIdle nTotal : Nat} {p : Place T} (hi : (s.place i).held = 0)
    (hp : p.held = 0) (hr : p.rest = []) (hf : p.fine = true) :
    Inv ok ({ s with nIdle := nIdle, nTotal := nTotal }.moved i p) := by
  obtain ⟨hrest, hfine⟩ := h.batch i hi
  refine h.replaced (fun j => ?_) (fun j => ?_) (fun j => ?_) <;> rw [Function.update_apply] <;> split
  case isTrue hj => rw [hj, hp, hi]
  case isTrue hj => rw [hj, hr, hrest]
  case isTrue hj => rw [hj, hf, hfine]
  all_goals rfl

theorem Inv.add (h : Inv ok s) (vChecks : List T) (notified : Option (Fin n)) :
    Inv ok (s.add vChecks notified) := by
  have hplace : ∀ {α : Type} (f : Place T → α), (∀ p : Place T, f p.notify = f p) →
      ∀ j, f ((s.add vChecks notified).place j) = f (s.place j) := by
    intro α f hf j
    simp only [State.add]
    split
    · exact hf _
    · rfl
  have hheld := hplace Place.held Place.held_notify
  have hrest := hplace Place.rest Place.rest_notify
  have hfine := hplace Place.fine Place.fine_notify
  have hclean : (s.add vChecks notified).Clean ↔ s.Clean := by
    simp only [Clean, hfine]
    rfl
  exact {
    todo := by
      simp only [hheld]
      simp only [State.add, h.todo, List.length_append, List.length_reverse]
      omega
    added := by
      simp only [hrest]
      simp only [State.add, ← Multiset.coe_add, h.added, Multiset.coe_reverse]
      abel
    batch := fun j hj => by
      rw [hrest, hfine]
      exact h.batch j (by rw [← hheld]; exact hj)
    clean := fun hc => h.clean (hclean.mp hc)
    failed := fun hc => h.failed fun hs => hc (hclean.mpr hs)
    returned := h.returned }

theorem Inv.update (h : Inv ok s) {p : Place T} (hplace : s'.place = Function.update s.place i p)
    (htodo : s'.nTodo + s.queue.length + (s.place i).held = s.nTodo + s'.queue.length + p.held)
    (hadded : (s'.round.added : Multiset T) +
      (s.queue + (s.place i).rest + s.round.executed + s.round.skipped)
      = s.round.added + (s'.queue + p.rest + s'.round.executed + s'.round.skipped))
    (hbatch : p.held = 0 → p.rest = [] ∧ p.fine = true)
    (hclean : s'.Clean → (∀ c ∈ s'.round.executed, ok c = true) ∧ s'.round.skipped = [])
    (hfailed : ¬ s'.Clean → ∃ c ∈ s'.round.executed, ok c = false)
    (hreturned : s'.returned = s.returned) : Inv ok s' where
  todo := by
    have hheld := sum_moved Place.held s i p
    rw [State.moved, ← hplace] at hheld
    dsimp only at hheld
    have := h.todo
    omega
  added := by
    have hrest := sum_moved (fun q => (q.rest : Multiset T)) s i p
    rw [State.moved, ← hplace] at hrest
    dsimp only at hrest
    rw [h.added] at hadded
    generalize (s'.round.added : Multiset T) = A, (s.queue : Multiset T) = q,
      (s'.queue : Multiset T) = q',
      ∑ j, ((s.place j).rest : Multiset T) = S, ∑ j, ((s'.place j).rest : Multiset T) = S',
        ((s.place i).rest : Multiset T) = r,
      (p.rest : Multiset T) = r', (s.round.executed : Multiset T) = e,
        (s'.round.executed : Multiset T) = e',
      (s.round.skipped : Multiset T) = k, (s'.round.skipped : Multiset T) = k' at *
    refine add_right_cancel (b := q + r + e + k) ?_
    calc A + (q + r + e + k) = q' + e' + k' + (q + e + k) + (S + r') := by rw [hadded]; abel
      _ = q' + e' + k' + (q + e + k) + (S' + r) := by rw [hrest]
      _ = q' + S' + e' + k' + (q + r + e + k) := by abel
  batch j := by
    rw [hplace, Function.update_apply]
    split
    · exact hbatch
    · exact h.batch j
  clean := hclean
  failed := hfailed
  returned := by
    rw [hreturned]
    exact h.returned

theorem report_place (s : State n T) (i : Option (Fin n)) (nNow : Nat) (fOk : Bool) :
    (s.report i nNow fOk).place i = .entering := by
  unfold State.report
  dsimp only
  split
  case isTrue hi =>
    have hne : i ≠ none := Option.isSome_iff_ne_none.mp hi.2
    rw [moved_place, if_neg hne, moved_place_self]
  case isFalse => exact moved_place_self _ _ _

theorem nNow_pos (nBatchSize : Nat) (s : State n T) : 0 < s.nNow nBatchSize := by
  unfold nNow
  omega

theorem nNow_le (nBatchSize : Nat) (hq : s.queue ≠ []) : s.nNow nBatchSize ≤ s.queue.length := by
  have hpos := List.length_pos_of_ne_nil hq
  have := Nat.div_le_self s.queue.length (s.nTotal + s.nIdle + 1)
  unfold nNow
  omega

theorem Inv.held_eq_zero (h : Inv ok s) (htodo : s.nTodo = 0) (j : Option (Fin n)) :
    (s.place j).held = 0 := by
  have hsum : ∑ j, (s.place j).held = 0 := by
    have := h.todo
    omega
  exact (Finset.sum_eq_zero_iff.mp hsum) j (Finset.mem_univ j)

theorem Inv.answers (h : Inv ok s) (hq : s.queue = []) (htodo : s.nTodo = 0) :
    Answers ok (s.round, s.fAllOk) := by
  have hbatch : ∀ j, (s.place j).rest = [] ∧ (s.place j).fine = true :=
    fun j => h.batch j (h.held_eq_zero htodo j)
  have hadded : (s.round.added : Multiset T) = s.round.executed + s.round.skipped := by
    rw [h.added, hq, Finset.sum_eq_zero fun j _ => by rw [(hbatch j).1]; rfl]
    simp
  by_cases hall : s.fAllOk = true
  · obtain ⟨hok, hskipped⟩ := h.clean ⟨hall, fun j => (hbatch j).2⟩
    have hperm : s.round.executed.Perm s.round.added := by
      rw [← Multiset.coe_eq_coe, hadded, hskipped]
      simp
    refine ⟨?_, fun _ => hperm⟩
    rw [hall]
    exact (List.all_eq_true.mpr fun c hc => hok c (hperm.mem_iff.mpr hc)).symm
  · obtain ⟨c, hc, hfail⟩ := h.failed fun hs => hall hs.1
    have hmem : c ∈ s.round.added := by
      rw [← Multiset.mem_coe, hadded]
      exact Multiset.mem_add.mpr (Or.inl hc)
    refine ⟨?_, fun hs => (hall hs).elim⟩
    rw [Bool.eq_false_iff.mpr hall]
    exact (List.all_eq_false.mpr ⟨c, hmem, by simp [hfail]⟩).symm

theorem clean_iff (i : Option (Fin n)) :
    s.Clean ↔ (s.fAllOk = true ∧ (s.place i).fine = true) ∧ ∀ j, j ≠ i → (s.place j).fine = true := by
  constructor
  · rintro ⟨hall, hfine⟩
    exact ⟨⟨hall, hfine i⟩, fun j _ => hfine j⟩
  · rintro ⟨⟨hall, hi⟩, hothers⟩
    refine ⟨hall, fun j => ?_⟩
    by_cases hj : j = i
    · rw [hj]
      exact hi
    · exact hothers j hj

theorem clean_update {p : Place T} (hplace : s'.place = Function.update s.place i p) :
    s'.Clean ↔ (s'.fAllOk = true ∧ p.fine = true) ∧ ∀ j, j ≠ i → (s.place j).fine = true := by
  have hothers : (∀ j, j ≠ i → (s'.place j).fine = true) ↔ ∀ j, j ≠ i → (s.place j).fine = true := by
    refine forall₂_congr fun j hj => ?_
    rw [hplace, Function.update_of_ne hj]
  rw [clean_iff i, hothers, hplace, Function.update_self]

theorem Inv.report (h : Inv ok s) {nNow : Nat} {fOk : Bool}
    (hi : s.place i = .working [] nNow fOk) : Inv ok (s.report i nNow fOk) := by
  have hle : nNow ≤ s.nTodo := by
    have hone := Finset.single_le_sum (f := fun j => (s.place j).held)
      (fun _ _ => Nat.zero_le _) (Finset.mem_univ i)
    rw [hi, ← Nat.add_le_add_iff_left (n := s.queue.length), ← h.todo] at hone
    exact (Nat.le_add_left _ _).trans hone
  have hmoved :
      Inv ok ({ s with fAllOk := s.fAllOk && fOk, nTodo := s.nTodo - nNow }.moved i .entering) := by
    have hclean :
        ({ s with fAllOk := s.fAllOk && fOk, nTodo := s.nTodo - nNow }.moved i .entering).Clean ↔
        s.Clean := by
      rw [clean_update (s := s) (i := i) rfl, clean_iff i, hi]
      simp [State.moved, Place.fine]
    refine h.update rfl ?_ ?_ (fun _ => ⟨rfl, rfl⟩) (fun hc => h.clean (hclean.mp hc))
      (fun hc => h.failed fun hs => hc (hclean.mpr hs)) rfl
    · rw [hi]
      change s.nTodo - nNow + s.queue.length + nNow = s.nTodo + s.queue.length + 0
      omega
    · rw [hi]
      rfl
  unfold State.report
  dsimp only
  split
  · refine hmoved.replaced (fun j => ?_) (fun j => ?_) (fun j => ?_) <;>
      rw [Function.update_apply] <;> split
    case isTrue hj => rw [hj, Place.held_notify]
    case isTrue hj => rw [hj, Place.rest_notify]
    case isTrue hj => rw [hj, Place.fine_notify]
    all_goals rfl
  · exact hmoved

theorem Inv.runCheck (h : Inv ok s) {c : T} {rest : List T} {nNow : Nat} {fOk : Bool}
    (hi : s.place i = .working (c :: rest) nNow fOk) :
    Inv ok (s.runCheck ok i c rest nNow fOk) := by
  have hpos : nNow ≠ 0 := fun hzero => by
    have := (h.batch i (by rw [hi]; exact hzero)).1
    rw [hi] at this
    exact List.cons_ne_nil _ _ this
  have hclean := clean_iff (s := s) i
  rw [hi] at hclean
  unfold State.runCheck
  split
  case isTrue hfOk =>
    refine h.update rfl (by rw [hi]; rfl) ?_ (fun hzero => (hpos hzero).elim) (fun hc => ?_)
      (fun hc => ?_) rfl
    · rw [hi]
      simp only [State.moved, Place.rest, ← Multiset.coe_add, ← Multiset.cons_coe, ←
        Multiset.singleton_add]
      abel
    · obtain ⟨⟨hall, hok⟩, hothers⟩ := (clean_update (s := s) (i := i) rfl).mp hc
      obtain ⟨hexecuted, hskipped⟩ := h.clean (hclean.mpr ⟨⟨hall, hfOk⟩, hothers⟩)
      refine ⟨fun d hd => ?_, hskipped⟩
      rcases List.mem_append.mp hd with hd | hd
      · exact hexecuted d hd
      · rw [List.mem_singleton.mp hd]
        exact hok
    · by_cases hok : ok c = true
      · have hnot : ¬ s.Clean :=
          fun hs => hc ((clean_update (s := s) (i := i) (p := .working rest nNow (ok c)) rfl).mpr
          ⟨⟨hs.1, hok⟩, fun j _ => hs.2 j⟩)
        obtain ⟨d, hd, hfail⟩ := h.failed hnot
        exact ⟨d, List.mem_append_left _ hd, hfail⟩
      · exact ⟨c, List.mem_append_right _ (List.mem_singleton_self c), Bool.eq_false_iff.mpr hok⟩
  case isFalse hfOk =>
    refine h.update rfl (by rw [hi]; rfl) ?_ (fun hzero => (hpos hzero).elim) (fun hc => ?_)
      (fun _ => ?_) rfl
    · rw [hi]
      simp only [State.moved, Place.rest, ← Multiset.coe_add, ← Multiset.cons_coe, ←
        Multiset.singleton_add]
      abel
    · exact (hfOk ((clean_update (s := s) (i := i) (p := .working rest nNow fOk) rfl).mp hc).1.2).elim
    · exact h.failed fun hs => hfOk (hclean.mp hs).1.2

theorem Inv.taken (h : Inv ok s) (hi : s.place i = .entering) (hq : s.queue ≠ []) :
    Inv ok ({ s with queue := s.queue.drop (s.nNow nBatchSize) }.moved i
      (.working (s.queue.take (s.nNow nBatchSize)) (s.nNow nBatchSize) s.fAllOk)) := by
  have hle := nNow_le nBatchSize hq
  have hpos := nNow_pos nBatchSize s
  generalize s.nNow nBatchSize = k at hle hpos ⊢
  have hclean :
      ({ s with queue := s.queue.drop k }.moved i (.working (s.queue.take k) k s.fAllOk)).Clean ↔
      s.Clean := by
    rw [clean_update (s := s) (i := i) rfl, clean_iff i, hi]
    simp [State.moved, Place.fine]
  refine h.update rfl ?_ ?_ (fun hzero => absurd hzero hpos.ne') (fun hc => h.clean (hclean.mp hc))
    (fun hc => h.failed fun hs => hc (hclean.mpr hs)) rfl
  · rw [hi]
    change s.nTodo + s.queue.length + 0 = s.nTodo + (s.queue.drop k).length + k
    rw [List.length_drop]
    omega
  · rw [hi]
    have hsplit : (s.queue : Multiset T) = s.queue.take k + s.queue.drop k := by
      rw [Multiset.coe_add, List.take_append_drop]
    change _ + ((s.queue : Multiset T) + 0 + _ + _) =
      _ + ((s.queue.drop k : Multiset T) + (s.queue.take k : Multiset T) + _ + _)
    rw [add_zero, hsplit, add_comm (s.queue.drop k : Multiset T)]
    rfl

theorem proceed_cases (nBatchSize : Nat) (s : State n T) (i : Option (Fin n)) :
    (s.queue ≠ [] ∧ s.proceed nBatchSize i = { s with queue := s.queue.drop (s.nNow nBatchSize) }.moved i
      (.working (s.queue.take (s.nNow nBatchSize)) (s.nNow nBatchSize) s.fAllOk)) ∨
    (s.queue = [] ∧ (i = none → s.nTodo ≠ 0) ∧
      s.proceed nBatchSize i = { s with nIdle := s.nIdle + 1 }.moved i (.asleep false)) ∨
    (s.queue = [] ∧ i ≠ none ∧
      s.proceed nBatchSize i = { s with nTotal := s.nTotal - 1 }.moved i .outside) ∨
    (s.queue = [] ∧ s.nTodo = 0 ∧ i = none ∧
      s.proceed nBatchSize i = { { s with nTotal := s.nTotal - 1 }.moved i .outside with
        fAllOk := true, round := ⟨[], [], []⟩, returned := s.returned ++ [(s.round, s.fAllOk)] }) := by
  unfold State.proceed
  split
  case isFalse hq => exact Or.inl ⟨by simpa using hq, rfl⟩
  case isTrue hq =>
    rw [List.isEmpty_iff] at hq
    split
    case isFalse hdone =>
      refine Or.inr (Or.inl ⟨hq, fun hi hzero => hdone ?_, rfl⟩)
      simp [hi, hzero]
    case isTrue hdone =>
      rw [Bool.and_eq_true, beq_iff_eq] at hdone
      dsimp only
      split
      case isTrue hi => exact Or.inr (Or.inr (Or.inr ⟨hq, hdone.2, Option.isNone_iff_eq_none.mp hi, rfl⟩))
      case isFalse hi =>
        exact Or.inr (Or.inr (Or.inl ⟨hq, fun hn => hi (Option.isNone_iff_eq_none.mpr hn), rfl⟩))

theorem Inv.proceed (h : Inv ok s) (hi : s.place i = .entering) : Inv ok (s.proceed nBatchSize i) := by
  have hheld : (s.place i).held = 0 := by rw [hi]; rfl
  rcases proceed_cases nBatchSize s i with ⟨hq, heq⟩ | ⟨-, -, heq⟩ | ⟨-, -, heq⟩ |
    ⟨hq, htodo, -, heq⟩ <;> rw [heq]
  · exact h.taken hi hq
  · exact h.moved hheld rfl rfl rfl
  · exact h.moved hheld rfl rfl rfl
  · have hleft : Inv ok ({ s with nTotal := s.nTotal - 1 }.moved i .outside) := h.moved hheld rfl rfl rfl
    have hnone := hleft.held_eq_zero htodo
    exact {
      todo := hleft.todo
      added := by
        change (0 : Multiset T) = _
        rw [Finset.sum_eq_zero fun j _ => by rw [(hleft.batch j (hnone j)).1]; rfl]
        simp [State.moved, hq]
      batch := hleft.batch
      clean := fun _ => ⟨by simp, rfl⟩
      failed := fun hc => (hc ⟨rfl, fun j => (hleft.batch j (hnone j)).2⟩).elim
      returned := fun r hr => by
        rcases List.mem_append.mp hr with hr | hr
        · exact h.returned r hr
        · rw [List.mem_singleton.mp hr]
          exact h.answers hq htodo }

theorem Inv.step (h : Inv ok s) {e : Event n T} (hstep : s.step ok nBatchSize e = some s') :
    Inv ok s' := by
  unfold State.step at hstep
  split at hstep
  case h_1 vChecks notified =>
    split at hstep
    · obtain ⟨-, hstep⟩ := Option.ite_none_right_eq_some.mp hstep
      cases hstep
      exact h.add vChecks notified
    · cases hstep
  case h_2 i =>
    split at hstep <;> cases hstep
    case h_1 hi => exact h.moved (by rw [hi]; rfl) rfl rfl rfl
  case h_3 i =>
    split at hstep <;> cases hstep
    case h_1 hi => exact Inv.proceed (h.replaced (fun _ => rfl) (fun _ => rfl) fun _ => rfl) hi
    case h_2 hi => exact (h.report hi).proceed (report_place s i _ _)
  case h_4 i =>
    split at hstep <;> cases hstep
    case h_1 hi => exact Inv.proceed (h.moved (by rw [hi]; rfl) rfl rfl rfl) (moved_place_self _ _ _)
  case h_5 i =>
    split at hstep <;> cases hstep
    case h_1 hi => exact h.runCheck hi

theorem Reachable.inv (h : Reachable ok nBatchSize s) : Inv ok s := by
  induction h with
  | start => exact inv_start
  | step _ hstep ih => exact ih.step hstep

/-- Whatever the interleaving, `Wait` answers whether all checks added since it last returned succeed; if they do, each has been run exactly once. -/
theorem wait_answers (h : Reachable ok nBatchSize s) {r : Round T} {fRet : Bool}
    (hr : (r, fRet) ∈ s.returned) :
    fRet = r.added.all ok ∧ (fRet = true → r.executed.Perm r.added) := h.inv.returned _ hr

theorem Reachable.run (h : Reachable ok nBatchSize s) {es : List (Event n T)}
    (hrun : es.foldlM (State.step ok nBatchSize) s = some s') :
    Reachable ok nBatchSize s' := by
  induction es generalizing s with
  | nil =>
    cases hrun
    exact h
  | cons e es ih =>
    obtain ⟨t, hstep, hrest⟩ := Option.bind_eq_some_iff.mp hrun
    exact ih (h.step hstep) hrest

def sharedRun : List (Event 1 Bool) :=
  [.add [false, true] none, .call (some 0), .call none, .resume (some 0), .resume none, .check none,
    .check (some 0), .resume none,
    .resume (some 0), .wake none]

theorem wait_answers_shared :
    ∃ (s : State 1 Bool) (r : Round Bool), sharedRun.foldlM (State.step id 128) start = some s ∧
    (r, false) ∈ s.returned ∧ r.executed = [false, true] ∧
    (false = r.added.all id ∧ (false = true → r.executed.Perm r.added)) := by
  obtain ⟨s, hrun, hreturned⟩ : ∃ s : State 1 Bool, sharedRun.foldlM (State.step id 128) start = some s ∧
      s.returned = [(⟨[false, true], [false, true], []⟩, false)] := ⟨_, rfl, rfl⟩
  have hmem : ((⟨[false, true], [false, true], []⟩, false) : Round Bool × Bool) ∈ s.returned := by
    rw [hreturned]
    exact List.mem_singleton_self _
  exact ⟨s, _, hrun, hmem, rfl, wait_answers (Reachable.start.run hrun) hmem⟩

/-! ### Progress -/

/-- A master that sleeps without having been notified is waiting for a batch of another thread. -/
def Awaited (s : State n T) : Prop := ∀ b, s.place none = .asleep b → s.queue = [] ∧
    (b = false → s.nTodo ≠ 0)

/-- What a run has left to do, with something to spare for notifying the master. -/
def rank (s : State n T) : Nat := 5 * s.queue.length + ∑ i, (s.place i).weight

theorem Awaited.update (h : s.Awaited) {p : Place T}
    (hplace : s'.place = Function.update s.place i p) (hq : s'.queue = s.queue)
    (htodo : s'.nTodo = s.nTodo) (hp : ∀ b, p ≠ .asleep b) : s'.Awaited := by
  intro b hb
  rw [hplace, Function.update_apply] at hb
  rw [hq, htodo]
  split at hb
  · exact (hp b hb).elim
  · exact h b hb

theorem Awaited.proceed (h : s.Awaited) : (s.proceed nBatchSize i).Awaited := by
  intro b hb
  rcases proceed_cases nBatchSize s i with ⟨hq, heq⟩ | ⟨hq, htodo, heq⟩ | ⟨hq, hi, heq⟩ |
    ⟨-, -, hi, heq⟩ <;> rw [heq] at hb ⊢
  · rw [moved_place] at hb
    split at hb
    · cases hb
    · exact (hq (h b hb).1).elim
  · rw [moved_place] at hb
    split at hb
    case isTrue hi => exact ⟨hq, fun _ => htodo hi.symm⟩
    case isFalse => exact h b hb
  · rw [moved_place, if_neg hi.symm] at hb
    exact h b hb
  · rw [hi] at hb
    simp [State.moved] at hb

theorem Awaited.report (h : s.Awaited) (nNow : Nat) (fOk : Bool) : (s.report i nNow fOk).Awaited := by
  intro b hb
  unfold State.report at hb ⊢
  dsimp only at hb ⊢
  split at hb
  case isTrue hlast =>
    rw [if_pos hlast]
    have hne : none ≠ i := fun hi => by simp [← hi] at hlast
    rw [moved_place_self, moved_place, if_neg hne] at hb
    change (s.place none).notify = _ at hb
    cases hplace : s.place none with
    | asleep b' =>
      refine ⟨(h b' hplace).1, fun hfalse => ?_⟩
      rw [hplace, hfalse] at hb
      cases hb
    | outside => rw [hplace] at hb; cases hb
    | entering => rw [hplace] at hb; cases hb
    | working => rw [hplace] at hb; cases hb
  case isFalse hlast =>
    rw [if_neg hlast]
    rw [moved_place] at hb
    split at hb
    · cases hb
    case isFalse hne =>
      refine ⟨(h b hb).1, fun _ hzero => hlast ⟨hzero, ?_⟩⟩
      exact Option.isSome_iff_ne_none.mpr fun hi => hne hi.symm

theorem Awaited.step (h : s.Awaited) {e : Event n T} (hstep : s.step ok nBatchSize e = some s') :
    s'.Awaited := by
  unfold State.step at hstep
  split at hstep
  case h_1 vChecks notified =>
    split at hstep
    case h_1 houtside =>
      obtain ⟨-, hstep⟩ := Option.ite_none_right_eq_some.mp hstep
      cases hstep
      intro b hb
      simp [State.add, houtside] at hb
    case h_2 => cases hstep
  case h_2 i =>
    split at hstep <;> cases hstep
    exact h.update rfl rfl rfl nofun
  case h_3 i =>
    split at hstep <;> cases hstep
    case h_1 => exact Awaited.proceed (s := { s with nTotal := s.nTotal + 1 }) h
    case h_2 nNow fOk _ => exact (h.report nNow fOk).proceed
  case h_4 i =>
    split at hstep <;> cases hstep
    have hwoken : ({ s with nIdle := s.nIdle - 1 }.moved i .entering).Awaited :=
      h.update rfl rfl rfl nofun
    exact hwoken.proceed
  case h_5 i =>
    split at hstep <;> cases hstep
    unfold State.runCheck
    split
    · exact h.update rfl rfl rfl nofun
    · exact h.update rfl rfl rfl nofun

theorem Reachable.awaited (h : Reachable ok nBatchSize s) : s.Awaited := by
  induction h with
  | start => exact nofun
  | step _ hstep ih => exact ih.step hstep

theorem rank_moved (s : State n T) (i : Option (Fin n)) (p : Place T) :
    (s.moved i p).rank + (s.place i).weight = s.rank + p.weight := by
  have := sum_moved Place.weight s i p
  change 5 * s.queue.length + _ + _ = 5 * s.queue.length + _ + _
  omega

theorem rank_proceed (hi : s.place i = .entering) : (s.proceed nBatchSize i).rank < s.rank := by
  have hmoved := fun p => rank_moved s i p
  simp only [hi] at hmoved
  rcases proceed_cases nBatchSize s i with ⟨hq, heq⟩ | ⟨-, -, heq⟩ | ⟨-, -, heq⟩ |
    ⟨-, -, -, heq⟩ <;> rw [heq]
  · have hle := nNow_le nBatchSize hq
    have hpos := nNow_pos nBatchSize s
    generalize s.nNow nBatchSize = k at hle hpos ⊢
    have hsum := sum_moved Place.weight s i (.working (s.queue.take k) k s.fAllOk)
    rw [hi] at hsum
    change _ + 1 = _ + ((s.queue.take k).length + 3) at hsum
    change 5 * (s.queue.drop k).length + ∑ j,
      ((s.moved i (.working (s.queue.take k) k s.fAllOk)).place j).weight
      < 5 * s.queue.length + ∑ j, (s.place j).weight
    rw [List.length_take, Nat.min_eq_left hle] at hsum
    rw [List.length_drop]
    omega
  · exact Nat.lt_of_succ_le (hmoved (.asleep false)).le
  · exact Nat.lt_of_succ_le (hmoved .outside).le
  · exact Nat.lt_of_succ_le (hmoved .outside).le

theorem weight_notify (p : Place T) : p.notify.weight ≤ p.weight + 1 := by
  cases p <;> simp [Place.notify, Place.weight]

theorem rank_report {nNow : Nat} {fOk : Bool} (hi : s.place i = .working [] nNow fOk) :
    (s.report i nNow fOk).rank < s.rank := by
  have hmoved := rank_moved { s with fAllOk := s.fAllOk && fOk, nTodo := s.nTodo - nNow } i .entering
  change _ + (s.place i).weight = s.rank + 1 at hmoved
  rw [hi] at hmoved
  change _ + 3 = s.rank + 1 at hmoved
  unfold State.report
  dsimp only
  generalize { s with fAllOk := s.fAllOk && fOk, nTodo := s.nTodo - nNow }.moved i .entering =
    t at hmoved ⊢
  split
  · have hnotified := rank_moved t none (t.place none).notify
    have := weight_notify (t.place none)
    omega
  · omega

/-- The steps a thread makes of itself: all but `Add`, a call of `Loop`, and a wake-up that nobody asked for. -/
def Prompt (s : State n T) : Event n T → Prop
  | .resume _ | .check _ => True
  | .wake i => s.place i = .asleep true
  | _ => False

/-- A run without `Add`, in any order: `k` prompt steps, `calls` further calls of `Loop`, and wake-ups that nobody asked for. -/
inductive Runs (ok : T → Bool) (nBatchSize : Nat) : State n T → Nat → Nat → State n T → Prop
  | done (s : State n T) : Runs ok nBatchSize s 0 0 s
  | prompt {s t u : State n T} {e : Event n T} {k calls : Nat} : s.Prompt e →
      s.step ok nBatchSize e = some t →
    Runs ok nBatchSize t k calls u → Runs ok nBatchSize s (k + 1) calls u
  | call {s t u : State n T} {i : Option (Fin n)} {k calls : Nat} : s.step ok nBatchSize (.call i) =
      some t →
    Runs ok nBatchSize t k calls u → Runs ok nBatchSize s k (calls + 1) u
  | wake {s t u : State n T} {i : Option (Fin n)} {k calls : Nat} : s.step ok nBatchSize (.wake i) =
      some t →
    Runs ok nBatchSize t k calls u → Runs ok nBatchSize s k calls u

theorem rank_step {e : Event n T} (he : s.Prompt e) (hstep : s.step ok nBatchSize e = some s') :
    s'.rank < s.rank := by
  unfold State.step at hstep
  split at hstep
  case h_1 | h_2 => exact he.elim
  case h_3 i =>
    split at hstep <;> cases hstep
    case h_1 hi => exact rank_proceed (s := { s with nTotal := s.nTotal + 1 }) hi
    case h_2 hi => exact (rank_proceed (report_place s i _ _)).trans (rank_report hi)
  case h_4 i =>
    split at hstep <;> cases hstep
    have hmoved := rank_moved { s with nIdle := s.nIdle - 1 } i .entering
    change _ + (s.place i).weight = s.rank + 1 at hmoved
    rw [show s.place i = .asleep true from he] at hmoved
    exact (rank_proceed (moved_place_self _ _ _)).trans_le (Nat.le_of_add_le_add_right hmoved.le)
  case h_5 i =>
    split at hstep <;> cases hstep
    case h_1 c rest nNow fOk hi =>
      have hmoved : ∀ fOk', (s.moved i (.working rest nNow fOk')).rank < s.rank := by
        intro fOk'
        have hmoved := rank_moved s i (.working rest nNow fOk')
        rw [hi] at hmoved
        simp only [Place.weight, List.length_cons] at hmoved
        omega
      unfold State.runCheck
      split
      · exact hmoved (ok c)
      · exact hmoved fOk

/-- As long as the master is in `Wait`, some thread can go on. -/
theorem exists_prompt (h : Inv ok s) (hawaited : s.Awaited) (hin : s.place none ≠ .outside) :
    ∃ e s', s.Prompt e ∧ s.step ok nBatchSize e = some s' := by
  have hbusy : ∀ i rest nNow fOk, s.place i = .working rest nNow fOk → ∃ e s', s.Prompt e ∧
      s.step ok nBatchSize e = some s' := by
    intro i rest nNow fOk hi
    cases rest with
    | nil => exact ⟨.resume i, _, trivial, by rw [State.step, hi]⟩
    | cons c rest => exact ⟨.check i, _, trivial, by rw [State.step, hi]⟩
  cases hmaster : s.place none with
  | outside => exact (hin hmaster).elim
  | entering => exact ⟨.resume none, _, trivial, by rw [State.step, hmaster]⟩
  | working rest nNow fOk => exact hbusy none rest nNow fOk hmaster
  | asleep notified =>
    cases notified with
    | true => exact ⟨.wake none, _, hmaster, by rw [State.step, hmaster]⟩
    | false =>
      obtain ⟨hq, htodo⟩ := hawaited false hmaster
      have hsum : ∑ j, (s.place j).held ≠ 0 := by
        have := h.todo
        rw [hq] at this
        have := htodo rfl
        simp_all
      obtain ⟨j, -, hj⟩ := Finset.exists_ne_zero_of_sum_ne_zero hsum
      cases hplace : s.place j with
      | working rest nNow fOk => exact hbusy j rest nNow fOk hplace
      | outside => rw [hplace] at hj; exact (hj rfl).elim
      | entering => rw [hplace] at hj; exact (hj rfl).elim
      | asleep => rw [hplace] at hj; exact (hj rfl).elim

theorem rank_call (hstep : s.step ok nBatchSize (.call i) = some s') : s'.rank = s.rank + 1 := by
  unfold State.step at hstep
  dsimp only at hstep
  split at hstep <;> cases hstep
  case h_1 hi =>
    have hmoved := rank_moved s i .entering
    rw [hi] at hmoved
    exact hmoved

theorem rank_wake (hstep : s.step ok nBatchSize (.wake i) = some s') : s'.rank ≤ s.rank := by
  unfold State.step at hstep
  dsimp only at hstep
  split at hstep <;> cases hstep
  have hmoved := rank_moved { s with nIdle := s.nIdle - 1 } i .entering
  change _ + (s.place i).weight = s.rank + 1 at hmoved
  exact Nat.le_of_lt_succ
    ((rank_proceed (moved_place_self _ _ _)).trans_le ((Nat.le_add_right _ _).trans hmoved.le))

theorem Reachable.runs {k calls : Nat} (h : Reachable ok nBatchSize s)
    (hruns : Runs ok nBatchSize s k calls s') :
    Reachable ok nBatchSize s' := by
  induction hruns with
  | done => exact h
  | prompt _ hstep _ ih | call hstep _ ih | wake hstep _ ih => exact ih (h.step hstep)

theorem Runs.length_le {k calls : Nat} (hruns : Runs ok nBatchSize s k calls s') :
    k ≤ s.rank + calls := by
  induction hruns with
  | done => exact Nat.zero_le _
  | prompt he hstep _ ih =>
    have := rank_step he hstep
    omega
  | call hstep _ ih =>
    have := rank_call hstep
    omega
  | wake hstep _ ih =>
    have := rank_wake hstep
    omega

theorem Inv.rank_le (h : Inv ok s) : s.rank ≤ 5 * s.round.added.length + 3 * (n + 1) := by
  have hweight : ∀ j, (s.place j).weight ≤ (s.place j).rest.length + 3 := by
    intro j
    cases s.place j with
    | asleep notified => cases notified <;> simp [Place.weight, Place.rest]
    | _ => simp [Place.weight, Place.rest]
  have hsum : ∑ j, (s.place j).weight ≤ ∑ j, (s.place j).rest.length + 3 * (n + 1) := by
    calc ∑ j, (s.place j).weight ≤ ∑ j, ((s.place j).rest.length + 3) :=
      Finset.sum_le_sum fun j _ => hweight j
      _ = _ := by rw [Finset.sum_add_distrib, Finset.sum_const, Finset.card_univ,
        Fintype.card_option, Fintype.card_fin, smul_eq_mul,
        Nat.mul_comm]
  have hcard := congrArg Multiset.card h.added
  simp only [Multiset.card_add, Multiset.card_sum, Multiset.coe_card] at hcard
  unfold rank
  omega

/-- `Wait` returns. Until the master has left `Loop`, some thread can go on of itself; and in any run, whoever wakes up unasked, the threads take at most five such steps for each check of the round, three for each thread, and one for each call of `Loop` that comes late. -/
theorem wait_returns (h : Reachable ok nBatchSize s) {k calls : Nat}
    (hruns : Runs ok nBatchSize s k calls s') :
    k ≤ 5 * s.round.added.length + 3 * (n + 1) + calls ∧
    (s'.place none = .outside ∨ ∃ e s'', s'.Prompt e ∧ s'.step ok nBatchSize e = some s'') := by
  refine ⟨hruns.length_le.trans (Nat.add_le_add_right h.inv.rank_le _), ?_⟩
  by_cases hout : s'.place none = .outside
  · exact Or.inl hout
  · have hreach := h.runs hruns
    exact Or.inr (exists_prompt hreach.inv hreach.awaited hout)

/-- The master takes one of two checks, the worker comes late and takes the other; the master wakes up once in vain before the worker wakes it. -/
theorem exists_runs_late : ∃ s s' : State 1 Bool,
    [.add [false, true] none, .call none].foldlM (State.step id 128) start = some s ∧
    Runs id 128 s 6 1 s' ∧ s'.place none = .asleep true :=
  ⟨_, _, rfl,
    .prompt (e := .resume none) trivial rfl <|
    .call (i := some 0) rfl <|
    .prompt (e := .resume (some 0)) trivial rfl <|
    .prompt (e := .check none) trivial rfl <|
    .prompt (e := .resume none) trivial rfl <|
    .wake (i := none) rfl <|
    .prompt (e := .check (some 0)) trivial rfl <|
    .prompt (e := .resume (some 0)) trivial rfl <|
    .done _, rfl⟩

theorem wait_returns_late : ∃ s s' : State 1 Bool,
    [.add [false, true] none, .call none].foldlM (State.step id 128) start = some s ∧
    Runs id 128 s 6 1 s' ∧ 6 ≤ 5 * s.round.added.length + 3 * (1 + 1) + 1 ∧
    ∃ e s'', s'.Prompt e ∧ s'.step id 128 e = some s'' := by
  obtain ⟨s, s', hrun, hruns, hmaster⟩ := exists_runs_late
  obtain ⟨hle, hout | hnext⟩ := wait_returns (Reachable.start.run hrun) hruns
  · cases hmaster.symm.trans hout
  · exact ⟨s, s', hrun, hruns, hle, hnext⟩

def aloneRun (check : T) : List (Event 0 T) :=
  [.add [check] none, .call none, .resume none, .check none, .resume none]

theorem aloneRun_returned (ok : T → Bool) (check : T) :
    ∃ s : State 0 T, (aloneRun check).foldlM (State.step ok 128) start = some s ∧
    s.returned = [(⟨[check], [check], []⟩, true && ok check)] := by
  simp [aloneRun, State.step, start, State.add, State.moved, State.proceed, State.nNow,
    State.report, State.runCheck, Place.notify]

end State

end CheckQueue

/-! ### The script checks of a block -/

/-- `CScriptCheck`, as `CheckInputs` makes it for an input. -/
structure ScriptCheck where
  tx : Tx
  nIn : Nat
  out : TxOut
  nFlags : Nat

section Block

variable {World : Type} {env : Env} {contracts : Contracts World} {c : Connection}
  {st st' : Connecting World} {tx : Tx}

def ScriptCheck.passes (env : Env) (check : ScriptCheck) : Bool :=
  (env.interpreter.verifyScript check.tx check.nIn check.out check.nFlags).isNone

/-- The argument of `control.Add` for a transaction. -/
def controlChecks (env : Env) (c : Connection) (view : CoinsView) (tx : Tx) : List ScriptCheck :=
  if !tx.isCoinBase && c.fScriptChecks &&
    (c.scriptCheckThreads && !(tx.hasOpSpend || tx.hasCreateOrCall)) then
    tx.vin.zipIdx.map fun input =>
      ⟨tx, input.2, (view.accessCoin input.1.prevout).out, getBlockScriptFlags env c.pindex⟩
  else []

/-- What the loop over the transactions adds to the queue, as far as it comes. -/
def addedChecks (env : Env) (contracts : Contracts World) (c : Connection) (st : Connecting World) :
    List Tx → List ScriptCheck
  | [] => []
  | tx :: txs =>
    match connectTx env contracts c st tx with
    | .ok st' => controlChecks env c st.view tx ++ addedChecks env contracts c st' txs
    | .error _ => []

theorem checkInputs_queued {v : CoinsView} {nSpendHeight : Int} {passes : Bool}
    (hcoinbase : tx.isCoinBase = false)
    (h : checkInputs env tx v nSpendHeight c.fScriptChecks (getBlockScriptFlags env c.pindex)
      (c.scriptCheckThreads && !(tx.hasOpSpend || tx.hasCreateOrCall)) = .ok passes) :
    passes = (controlChecks env c v tx).all (ScriptCheck.passes env) := by
  simp only [checkInputs, Except.bind_eq_ok_iff] at h
  obtain ⟨-, -, h⟩ := h
  rw [controlChecks, hcoinbase]
  cases hchecks : c.fScriptChecks
  · rw [hchecks] at h
    cases h
    rfl
  · rw [hchecks, if_pos rfl] at h
    split at h
    case isTrue hqueued =>
      cases h
      simp only [hqueued, Bool.not_false, Bool.and_self, if_true, List.all_map]
      rfl
    case isFalse hqueued =>
      obtain ⟨-, -, h⟩ := Except.bind_eq_ok_iff.mp h
      cases h
      rw [Bool.eq_false_iff.mpr hqueued]
      rfl

theorem connectTx_queued (h : connectTx env contracts c st tx = .ok st') :
    st'.queuedChecks =
      (st.queuedChecks && (controlChecks env c st.view tx).all (ScriptCheck.passes env)) := by
  obtain ⟨cost, spent, tallied, ran, view, undo, -, -, -, hspent, htallied, hran, -, rfl⟩ :=
    connectTx_eq_ok_iff.mp h
  have hran : ran.queuedChecks = tallied.queuedChecks := by
    have hlisted :
        (if tx.hasOpSpend then tallied
          else { tallied with checkVtx := tallied.checkVtx ++ [tx] }).queuedChecks =
        tallied.queuedChecks := by
      split <;> rfl
    rw [← hlisted]
    split at hran
    · simp only [runContracts, Except.bind_eq_ok_iff, Except.pure_eq_ok_iff] at hran
      obtain ⟨-, -, txs, -, -, -, nValueOut, -, tally, -, -, -, executed, -, bcer, -, -, -, rfl⟩ := hran
      rfl
    · cases hran
      rfl
  have htallied : tallied.queuedChecks = spent.queuedChecks := by
    rw [tallyValues] at htallied
    split at htallied <;> simp only [Except.bind_eq_ok_iff, Except.pure_eq_ok_iff] at htallied <;>
      obtain ⟨-, -, rfl⟩ := htallied <;> rfl
  have hspent : spent.queuedChecks =
      (st.queuedChecks && (controlChecks env c st.view tx).all (ScriptCheck.passes env)) := by
    split at hspent
    case isTrue hcoinbase =>
      cases hspent
      rw [controlChecks, hcoinbase]
      exact (Bool.and_true _).symm
    case isFalse hcoinbase =>
      cases hstake : tx.isCoinStake
      all_goals
        simp only [checkSpend, hstake, if_true, if_false, Bool.false_eq_true, Except.bind_eq_ok_iff,
          Except.pure_eq_ok_iff] at hspent
        obtain ⟨nValueOut, -, passes, hinputs, -, -, rfl⟩ := hspent
        rw [← checkInputs_queued (Bool.eq_false_iff.mpr hcoinbase) hinputs]
  rw [hran, htallied, hspent]

theorem connectTxs_queued {txs : List Tx} (h : txs.foldlM (connectTx env contracts c) st = .ok st') :
    st'.queuedChecks =
      (st.queuedChecks && (addedChecks env contracts c st txs).all (ScriptCheck.passes env)) := by
  induction txs generalizing st with
  | nil =>
    cases h
    exact (Bool.and_true _).symm
  | cons tx txs ih =>
    obtain ⟨st₁, hfirst, hrest⟩ := Except.bind_eq_ok_iff.mp h
    rw [ih hrest, connectTx_queued hfirst, addedChecks, hfirst, List.all_append, Bool.and_assoc]

/-- The threads agree with the loop of `ConnectBlock`: if the checks of a round are those that connecting the transactions has added, `control.Wait()` answers what was recorded for them one after the other, whatever the interleaving. -/
theorem wait_queuedChecks {n : Nat} {s : CheckQueue.State n ScriptCheck}
    {r : CheckQueue.Round ScriptCheck} {fRet : Bool} {txs : List Tx}
    (hreach : s.Reachable (ScriptCheck.passes env) 128) (hr : (r, fRet) ∈ s.returned)
    (hst : st.queuedChecks = true) (hloop : txs.foldlM (connectTx env contracts c) st = .ok st')
    (hadded : r.added = addedChecks env contracts c st txs) :
    fRet = st'.queuedChecks := by
  rw [connectTxs_queued hloop, hst, Bool.true_and, ← hadded]
  exact (hreach.inv.returned _ hr).1

end Block

open Sample in
/-- The block with one spending transaction, whose check the master runs by itself. -/
theorem wait_queuedChecks_spend :
    let x := connect [coinbase [⟨260000 * COIN, opTrue⟩], spend [⟨COIN, opTrue⟩]]
    ∃ (s : CheckQueue.State 0 ScriptCheck) (r : CheckQueue.Round ScriptCheck) (fRet : Bool)
      (st' : Connecting Unit),
      r.added.length = 1 ∧ (r, fRet) ∈ s.returned ∧
      x.block.vtx.foldlM (connectTx network noContracts (x.connection noContracts)) x.start =
        .ok st' ∧ fRet = st'.queuedChecks := by
  intro x
  obtain ⟨st', hloop⟩ :
      ∃ st', x.block.vtx.foldlM (connectTx network noContracts (x.connection noContracts)) x.start =
        .ok st' :=
    Except.exists_of_isOk (by decide +kernel)
  obtain ⟨check, hadded⟩ : ∃ check,
      addedChecks network noContracts (x.connection noContracts) x.start x.block.vtx = [check] :=
    List.length_eq_one_iff.mp (by decide +kernel)
  obtain ⟨s, hrun, hreturned⟩ := CheckQueue.State.aloneRun_returned (ScriptCheck.passes network) check
  have hmem : (⟨[check], [check], []⟩, true && check.passes network) ∈ s.returned := by
    rw [hreturned]
    exact List.mem_singleton_self _
  exact ⟨s, _, _, st', rfl, hmem, hloop, wait_queuedChecks (.run .start hrun) hmem rfl hloop hadded.symm⟩

end TscPow
