import TscPow.Script.SignatureHash

/-!
# Writing scripts and deleting from them

The push operators of `CScript` and `FindAndDelete` (`script/script.h`). What is written by the operators is what `GetOp` reads back. `FindAndDelete` works on iterators; its loop is given here with both of them, with the bytes collected so far and with the number of copies found. It cuts the script into copies of the pattern, single operations at which the pattern does not start, and a tail that is no operation. After a copy that ends inside an operation the loop reads on from there, so that the next copy may be inside that operation too.
-/

namespace TscPow

namespace Script

/-! ### Writing scripts -/

/-- What is pushed by `operator<<`: an opcode that is not itself a push, or the bytes of an item. -/
inductive Item where
  | opcode (op : Byte) (hop : 0x4e < op.toNat)
  | data (b : List Byte)

namespace Item

def bytes : Item → Script
  | opcode op _ => [op]
  | data b => pushData b

/-- `*this << item`. -/
def push (script : Script) (item : Item) : Script := script ++ item.bytes

/-- What `GetOp` is to return for the item. -/
def operation : Item → Byte × List Byte
  | opcode op _ => (op, [])
  | data b => (if b.length < 0x4c then BitVec.ofNat 8 b.length else if b.length ≤ 0xff then 0x4c
      else if b.length ≤ 0xffff then 0x4d else 0x4e, b)

end Item

/-- The script that the push operators write, from the empty one on. -/
def write (items : List Item) : Script := items.foldl Item.push []

theorem foldl_push (script : Script) (items : List Item) :
    items.foldl Item.push script = script ++ items.flatMap Item.bytes := by
  induction items generalizing script with
  | nil => rw [List.foldl_nil, List.flatMap_nil, List.append_nil]
  | cons item items ih => rw [List.foldl_cons, ih, Item.push, List.flatMap_cons, List.append_assoc]

theorem write_eq (items : List Item) : write items = items.flatMap Item.bytes := foldl_push [] items

theorem immediate_append (opcode : Byte) (b rest : Script) :
    immediate opcode b.length (b ++ rest) = some (opcode, b, rest) := by
  rw [immediate, if_neg (by rw [List.length_append]; omega), List.take_left, List.drop_left]

theorem getOp_pushData {b : List Byte} (hb : b.length < 2 ^ 32) (rest : Script) :
    getOp (pushData b ++ rest) = some ((Item.data b).operation.1, b, rest) := by
  have hbyte (h : b.length ≤ 0xff) : (BitVec.ofNat 8 b.length).toNat = b.length := by
    rw [BitVec.toNat_ofNat]
    exact Nat.mod_eq_of_lt (by omega)
  have hbytes {width : Nat} (h : b.length < 2 ^ (8 * width)) :
      Limbs.value (Limbs.ofNat width b.length : List Byte) = b.length := by
    rw [Limbs.value_ofNat]
    exact Nat.mod_eq_of_lt h
  rw [pushData, Item.operation]
  split_ifs with h1 h2 h3
  · rw [List.cons_append]
    unfold getOp
    dsimp only
    rw [hbyte (by omega), if_pos h1]
    exact immediate_append _ b rest
  · change immediate 0x4c (BitVec.ofNat 8 b.length).toNat (b ++ rest) = _
    rw [hbyte h2]
    exact immediate_append _ b rest
  · change immediate 0x4d (Limbs.value (Limbs.ofNat 2 b.length : List Byte)) (b ++ rest) = _
    rw [hbytes (by omega)]
    exact immediate_append _ b rest
  · change immediate 0x4e (Limbs.value (Limbs.ofNat 4 b.length : List Byte)) (b ++ rest) = _
    rw [hbytes hb]
    exact immediate_append _ b rest

theorem length_le_pushData (b : List Byte) : b.length ≤ (pushData b).length := by
  rw [pushData]
  split_ifs
  · exact Nat.le_succ _
  · exact Nat.le_add_right _ 2
  · rw [List.length_append]
    exact Nat.le_add_left _ _
  · rw [List.length_append]
    exact Nat.le_add_left _ _

theorem getOp_item {item : Item} (hitem : item.bytes.length < 2 ^ 32) (rest : Script) :
    getOp (item.bytes ++ rest) = some (item.operation.1, item.operation.2, rest) := by
  cases item with
  | opcode op hop => exact getOp_of_gt hop rest
  | data b => exact getOp_pushData ((length_le_pushData b).trans_lt hitem) rest

theorem parses_write {items : List Item} (hlength : (write items).length < 2 ^ 32) :
    Parses (write items) (items.map Item.operation) := by
  rw [write_eq] at hlength ⊢
  induction items with
  | nil => exact .nil
  | cons item items ih =>
    rw [List.flatMap_cons, List.length_append] at hlength
    exact .cons (getOp_item (by omega) _) (ih (by omega))

/-! ### The loop of `FindAndDelete` -/

/-- The inner loop: `pc` moves over the copies of `b` and `nFound` counts them. -/
def countCopies : Nat → Script → Script → Nat → Script × Nat
  | 0, _, pc, nFound => (pc, nFound)
  | fuel + 1, b, pc, nFound => if b <+: pc then countCopies fuel b (pc.drop b.length) (nFound + 1)
      else (pc, nFound)

/-- The outer loop, with the script from `pc2` and from `pc` on. It ends with `result`, `pc2` and `nFound`. -/
def findAndDeleteLoop : Nat → Script → Script → Script → Script → Nat → Script × Script × Nat
  | 0, _, result, pc2, _, nFound => (result, pc2, nFound)
  | rounds + 1, b, result, pc2, pc, nFound =>
    let result := result ++ pc2.take (pc2.length - pc.length)
    let (pc, nFound) := countCopies pc.length b pc nFound
    match getOp pc with
    | none => (result, pc, nFound)
    | some (_, _, rest) => findAndDeleteLoop rounds b result pc rest nFound

/-- `FindAndDelete`: the number returned and the script afterwards. Every round but the last moves past an operation. -/
def findAndDeleteCount (script b : Script) : Nat × Script :=
  if b.isEmpty then (0, script)
  else
    let (result, pc2, nFound) := findAndDeleteLoop (script.length + 1) b [] script script 0
    (nFound, if nFound > 0 then result ++ pc2 else script)

/-! ### Cutting a script -/

inductive Piece where
  | deleted
  | kept (operation : Script)
  deriving DecidableEq

namespace Piece

def bytes (b : Script) : Piece → Script
  | deleted => b
  | kept operation => operation

def remains : Piece → Script
  | deleted => []
  | kept operation => operation

end Piece

/-- From left to right: a copy of `b` wherever one starts, else a whole operation, and a tail at which neither starts. -/
inductive Cut (b : Script) : Script → List Piece → Script → Prop where
  | tail {script : Script} : ¬ b <+: script → getOp script = none → Cut b script [] script
  | deleted {rest tail : Script} {pieces : List Piece} : Cut b rest pieces tail →
      Cut b (b ++ rest) (.deleted :: pieces) tail
  | kept {operation rest tail : Script} {opcode : Byte} {operand : List Byte} {pieces : List Piece} :
      ¬ b <+: operation ++ rest → getOp (operation ++ rest) = some (opcode, operand, rest) →
        Cut b rest pieces tail →
        Cut b (operation ++ rest) (.kept operation :: pieces) tail

namespace Cut

variable {b script tail : Script} {pieces : List Piece}

theorem script_eq (h : Cut b script pieces tail) : script = pieces.flatMap (Piece.bytes b) ++ tail := by
  induction h with
  | tail => rfl
  | deleted _ ih =>
    rw [List.flatMap_cons, List.append_assoc, ← ih]
    rfl
  | kept _ _ _ ih =>
    rw [List.flatMap_cons, List.append_assoc, ← ih]
    rfl

theorem unique (h : Cut b script pieces tail) {pieces' : List Piece} {tail' : Script}
    (h' : Cut b script pieces' tail') :
    pieces' = pieces ∧ tail' = tail := by
  induction h generalizing pieces' with
  | tail hcopy hop =>
    cases h' with
    | tail => exact ⟨rfl, rfl⟩
    | deleted => exact absurd (List.prefix_append _ _) hcopy
    | kept _ hop' => exact nomatch hop.symm.trans hop'
  | @deleted rest tail pieces hrest ih =>
    generalize hscript : b ++ rest = script at h'
    cases h' with
    | tail hcopy => exact absurd ⟨rest, hscript⟩ hcopy
    | deleted hrest' =>
      rw [← List.append_cancel_left hscript] at hrest'
      obtain ⟨rfl, rfl⟩ := ih hrest'
      exact ⟨rfl, rfl⟩
    | kept hcopy => exact absurd ⟨rest, hscript⟩ hcopy
  | @kept operation rest tail opcode operand pieces hcopy hop hrest ih =>
    generalize hscript : operation ++ rest = script at h' hcopy hop
    cases h' with
    | tail _ hop' => exact nomatch hop.symm.trans hop'
    | deleted => exact absurd (List.prefix_append _ _) hcopy
    | kept _ hop' hrest' =>
      rw [hop'] at hop
      cases hop
      rw [List.append_cancel_right hscript]
      obtain ⟨rfl, rfl⟩ := ih hrest'
      exact ⟨rfl, rfl⟩

theorem copies (k : Nat) (h : Cut b script pieces tail) :
    Cut b ((List.replicate k b).flatten ++ script) (List.replicate k .deleted ++ pieces) tail := by
  induction k with
  | zero => exact h
  | succ k ih =>
    rw [List.replicate_succ, List.flatten_cons, List.append_assoc, List.replicate_succ, List.cons_append]
    exact .deleted ih

theorem count_deleted_le (hb : b ≠ []) (h : Cut b script pieces tail) :
    pieces.count .deleted ≤ script.length := by
  induction h with
  | tail => exact Nat.zero_le _
  | deleted _ ih =>
    have hlength := List.length_pos_iff.mpr hb
    rw [List.count_cons_self, List.length_append]
    omega
  | kept _ _ _ ih =>
    rw [List.count_cons_of_ne (by simp), List.length_append]
    omega

theorem remains_of_count_eq_zero (h : Cut b script pieces tail) (hcount : pieces.count .deleted = 0) :
    pieces.flatMap Piece.remains ++ tail = script := by
  have hkept : pieces.flatMap Piece.remains = pieces.flatMap (Piece.bytes b) := by
    apply List.flatMap_congr
    intro piece hpiece
    cases piece with
    | deleted => exact absurd hpiece (List.count_eq_zero.mp hcount)
    | kept operation => rfl
  rw [hkept, ← h.script_eq]

end Cut

/-! ### The loop cuts the script -/

theorem countCopies_eq {b : Script} (hb : b ≠ []) {fuel : Nat} {pc : Script}
    (hfuel : pc.length ≤ fuel) (nFound : Nat) :
    ∃ k pc', countCopies fuel b pc nFound = (pc', nFound + k) ∧
      pc = (List.replicate k b).flatten ++ pc' ∧ ¬ b <+: pc' := by
  have hlength := List.length_pos_iff.mpr hb
  induction fuel generalizing pc nFound with
  | zero =>
    rw [List.length_eq_zero_iff.mp (Nat.le_zero.mp hfuel)]
    exact ⟨0, [], rfl, rfl, fun h => hb (List.prefix_nil.mp h)⟩
  | succ fuel ih =>
    rw [countCopies]
    by_cases hcopy : b <+: pc
    · obtain ⟨rest, rfl⟩ := hcopy
      rw [List.length_append] at hfuel
      rw [if_pos (List.prefix_append b rest), List.drop_left]
      obtain ⟨k, pc', hloop, hrest, hend⟩ := ih (show rest.length ≤ fuel by omega) (nFound + 1)
      refine ⟨k + 1, pc', ?_, ?_, hend⟩
      · rw [hloop, Nat.add_assoc, Nat.add_comm 1 k]
      · rw [List.replicate_succ, List.flatten_cons, List.append_assoc, ← hrest]
    · rw [if_neg hcopy]
      exact ⟨0, pc, rfl, rfl, hcopy⟩

theorem take_between (between pc : Script) :
    (between ++ pc).take ((between ++ pc).length - pc.length) = between := by
  rw [List.length_append, Nat.add_sub_cancel, List.take_left]

/-- The bytes between `pc2` and `pc` are still to be collected; after that, what remains of every piece. -/
theorem findAndDeleteLoop_eq {b : Script} (hb : b ≠ []) {rounds : Nat} {pc : Script}
    (hrounds : pc.length < rounds) (result between : Script) (nFound : Nat) :
    ∃ pieces tail, Cut b pc pieces tail ∧
      findAndDeleteLoop rounds b result (between ++ pc) pc nFound =
        (result ++ between ++ pieces.flatMap Piece.remains, tail, nFound + pieces.count .deleted) := by
  induction rounds generalizing pc result between nFound with
  | zero => omega
  | succ rounds ih =>
    obtain ⟨k, pc', hcopies, hpc, hend⟩ := countCopies_eq hb (le_refl pc.length) nFound
    have hdeleted : (List.replicate k Piece.deleted).flatMap Piece.remains = [] := by
      rw [List.flatMap_eq_nil_iff]
      intro piece hpiece
      rw [List.eq_of_mem_replicate hpiece, Piece.remains]
    rw [findAndDeleteLoop, take_between, hcopies]
    dsimp only
    cases hop : getOp pc' with
    | none =>
      refine ⟨List.replicate k .deleted, pc', ?_, ?_⟩
      · have hcut := Cut.copies k (.tail hend hop)
        rwa [List.append_nil, ← hpc] at hcut
      · rw [hdeleted, List.append_nil, List.count_replicate_self]
    | some read =>
      obtain ⟨opcode, operand, rest⟩ := read
      obtain ⟨operation, rfl⟩ := suffix_of_getOp hop
      have hlt := length_lt_of_getOp hop
      have hle : (operation ++ rest).length ≤ pc.length := by
        rw [hpc]
        exact (List.suffix_append _ _).length_le
      obtain ⟨pieces, tail, hcut, hloop⟩ :=
        ih (show rest.length < rounds by omega) (result ++ between) operation (nFound + k)
      refine ⟨List.replicate k .deleted ++ .kept operation :: pieces, tail, ?_, ?_⟩
      · have hcut := Cut.copies k (.kept hend hop hcut)
        rwa [← hpc] at hcut
      · dsimp only
        rw [hloop, List.flatMap_append, hdeleted, List.nil_append, List.flatMap_cons,
          List.count_append, List.count_replicate_self, List.count_cons_of_ne (by simp),
            Nat.add_assoc, Piece.remains, List.append_assoc (result ++ between)]

theorem findAndDeleteCount_eq {b : Script} (hb : b ≠ []) (script : Script) :
    ∃ pieces tail, Cut b script pieces tail ∧ findAndDeleteCount script b =
      (pieces.count .deleted, pieces.flatMap Piece.remains ++ tail) := by
  obtain ⟨pieces, tail, hcut, hloop⟩ := findAndDeleteLoop_eq hb (Nat.lt_succ_self script.length) [] [] 0
  refine ⟨pieces, tail, hcut, ?_⟩
  rw [findAndDeleteCount, if_neg (by rwa [List.isEmpty_iff])]
  rw [List.nil_append] at hloop
  rw [hloop]
  dsimp only
  rw [Nat.zero_add, List.append_nil, List.nil_append]
  split_ifs with hfound
  · rfl
  · rw [hcut.remains_of_count_eq_zero (by omega)]

/-! ### The form that the interpreter uses -/

theorem fst_countCopies (fuel : Nat) (b pc : Script) (nFound : Nat) :
    (countCopies fuel b pc nFound).1 = skipCopies fuel b pc := by
  induction fuel generalizing pc nFound with
  | zero => rfl
  | succ fuel ih =>
    rw [countCopies, skipCopies]
    split_ifs
    · exact ih _ _
    · rfl

theorem length_fst_countCopies_le (fuel : Nat) (b pc : Script) (nFound : Nat) :
    (countCopies fuel b pc nFound).1.length ≤ pc.length := by
  induction fuel generalizing pc nFound with
  | zero => exact le_rfl
  | succ fuel ih =>
    rw [countCopies]
    split_ifs
    · exact (ih _ _).trans (List.drop_suffix _ _).length_le
    · exact le_rfl

theorem findAndDeleteLoop_append {b : Script} {fuel : Nat} {pc : Script} (hfuel : pc.length ≤ fuel)
    (result between : Script) (nFound : Nat) :
    (findAndDeleteLoop (fuel + 1) b result (between ++ pc) pc nFound).1 ++
    (findAndDeleteLoop (fuel + 1) b result (between ++ pc) pc nFound).2.1 =
      result ++ between ++ findAndDeleteFrom fuel b pc := by
  induction fuel generalizing pc result between nFound with
  | zero =>
    rw [List.length_eq_zero_iff.mp (Nat.le_zero.mp hfuel), findAndDeleteLoop, take_between]
    rfl
  | succ fuel ih =>
    rw [findAndDeleteLoop, take_between, findAndDeleteFrom, ← fst_countCopies pc.length b pc nFound]
    dsimp only
    cases hop : getOp (countCopies pc.length b pc nFound).1 with
    | none => rfl
    | some read =>
      obtain ⟨opcode, operand, rest⟩ := read
      obtain ⟨operation, hoperation⟩ := suffix_of_getOp hop
      have hlt := length_lt_of_getOp hop
      have hle := length_fst_countCopies_le pc.length b pc nFound
      dsimp only
      rw [← hoperation, ih (by omega), take_between, ← List.append_assoc]

theorem snd_findAndDeleteCount (script b : Script) :
    (findAndDeleteCount script b).2 = findAndDelete script b := by
  by_cases hb : b = []
  · rw [hb]
    rfl
  have hempty : ¬ b.isEmpty = true := by rwa [List.isEmpty_iff]
  obtain ⟨pieces, tail, hcut, hloop⟩ := findAndDeleteLoop_eq hb (Nat.lt_succ_self script.length) [] [] 0
  have hfrom := findAndDeleteLoop_append (b := b) (le_refl script.length) [] [] 0
  rw [hloop] at hfrom
  obtain ⟨pieces', tail', hcut', hcount⟩ := findAndDeleteCount_eq hb script
  obtain ⟨rfl, rfl⟩ := hcut.unique hcut'
  rw [hcount, findAndDelete, if_neg hempty]
  exact hfrom

/-! ### Boundaries of operations -/

/-- The places at which repeated `GetOp` stops in a script, each as what follows it. -/
def boundariesFrom : Nat → Script → List Script
  | 0, script => [script]
  | fuel + 1, script =>
    match getOp script with
    | none => [script]
    | some (_, _, rest) => script :: boundariesFrom fuel rest

def boundaries (script : Script) : List Script := boundariesFrom script.length script

theorem boundariesFrom_eq {fuel : Nat} {script : Script} (hfuel : script.length ≤ fuel) :
    boundariesFrom fuel script = boundaries script := by
  suffices h : ∀ fuel', script.length ≤ fuel' →
    boundariesFrom fuel script = boundariesFrom fuel' script from h _ le_rfl
  induction fuel generalizing script with
  | zero =>
    rw [List.length_eq_zero_iff.mp (Nat.le_zero.mp hfuel)]
    intro fuel' _
    cases fuel' <;> rfl
  | succ fuel ih =>
    intro fuel' hfuel'
    cases hop : getOp script with
    | none =>
      cases fuel' with
      | zero => rw [boundariesFrom, boundariesFrom, hop]
      | succ fuel' => rw [boundariesFrom, boundariesFrom, hop]
    | some read =>
      obtain ⟨opcode, operand, rest⟩ := read
      have hlt := length_lt_of_getOp hop
      obtain ⟨fuel', rfl⟩ : ∃ k, fuel' = k + 1 := ⟨fuel' - 1, by omega⟩
      rw [boundariesFrom, boundariesFrom, hop]
      dsimp only
      rw [ih (by omega) fuel' (by omega)]

theorem self_mem_boundaries (script : Script) : script ∈ boundaries script := by
  rw [boundaries]
  cases script.length with
  | zero => exact List.mem_singleton_self _
  | succ fuel =>
    rw [boundariesFrom]
    split
    · exact List.mem_singleton_self _
    · exact List.mem_cons_self

theorem boundaries_of_getOp {script rest : Script} {opcode : Byte} {operand : List Byte}
    (h : getOp script = some (opcode, operand, rest)) :
    boundaries script = script :: boundaries rest := by
  have hlt := length_lt_of_getOp h
  obtain ⟨fuel, hfuel⟩ : ∃ k, script.length = k + 1 := ⟨script.length - 1, by omega⟩
  rw [boundaries, hfuel, boundariesFrom, h]
  dsimp only
  rw [boundariesFrom_eq (by omega)]

theorem immediate_append_right {opcode op : Byte} {nSize : Nat} {pc rest : Script} {operand : List Byte}
    (h : immediate opcode nSize pc = some (op, operand, rest)) (after : Script) :
    immediate opcode nSize (pc ++ after) = some (op, operand, rest ++ after) := by
  rw [immediate] at h ⊢
  split at h
  · cases h
  · rename_i hle
    cases h
    rw [if_neg (by rw [List.length_append]; omega), List.take_append_of_le_length (by omega),
      List.drop_append_of_le_length (by omega)]

theorem getOp_append_right {script rest : Script} {opcode : Byte} {operand : List Byte}
    (h : getOp script = some (opcode, operand, rest)) (after : Script) :
    getOp (script ++ after) = some (opcode, operand, rest ++ after) := by
  unfold getOp at h
  split at h
  · cases h
  rename_i b pc
  rw [List.cons_append]
  unfold getOp
  dsimp only
  split_ifs at h ⊢ with h0 h1 h2 h4
  · exact immediate_append_right h after
  · split at h
    · exact immediate_append_right h after
    · cases h
  · split at h
    · exact immediate_append_right h after
    · cases h
  · split at h
    · exact immediate_append_right h after
    · cases h
  · cases h
    rfl

theorem Parses.mem_boundaries_append {b : Script} {ops : List (Byte × List Byte)} (h : Parses b ops)
    {after pc : Script} (hpc : pc ∈ boundaries after) :
    pc ∈ boundaries (b ++ after) := by
  induction h with
  | nil => exact hpc
  | cons hop _ ih =>
    rw [boundaries_of_getOp (getOp_append_right hop after)]
    exact List.mem_cons_of_mem _ ih

theorem Cut.mem_boundaries {b script tail : Script} {pieces before after : List Piece}
    {ops : List (Byte × List Byte)} (hb : Parses b ops) (h : Cut b script pieces tail)
    (hpieces : pieces = before ++ after) :
    after.flatMap (Piece.bytes b) ++ tail ∈ boundaries script := by
  induction h generalizing before with
  | tail =>
    rw [(List.append_eq_nil_iff.mp hpieces.symm).2]
    exact self_mem_boundaries _
  | @deleted rest tail pieces hrest ih =>
    cases before with
    | nil =>
      rw [List.nil_append] at hpieces
      rw [← hpieces, ← (Cut.deleted hrest).script_eq]
      exact self_mem_boundaries _
    | cons piece before =>
      rw [List.cons_append, List.cons.injEq] at hpieces
      exact hb.mem_boundaries_append (ih hpieces.2)
  | @kept operation rest tail opcode operand pieces hcopy hop hrest ih =>
    cases before with
    | nil =>
      rw [List.nil_append] at hpieces
      rw [← hpieces, ← (Cut.kept hcopy hop hrest).script_eq]
      exact self_mem_boundaries _
    | cons piece before =>
      rw [List.cons_append, List.cons.injEq] at hpieces
      rw [boundaries_of_getOp hop]
      exact List.mem_cons_of_mem _ (ih hpieces.2)

/-- What is written is read back, and `FindAndDelete` takes out the copies that the cut of the script shows, which start at operations of the script if the pattern consists of whole operations. -/
theorem write_parses_findAndDelete_cuts :
    (∀ items : List Item, (write items).length < 2 ^ 31 →
      operations (write items) = items.map Item.operation ∧
        Parses (write items) (items.map Item.operation)) ∧
    ∀ script b : Script, b ≠ [] →
      ∃ pieces tail,
        (Cut b script pieces tail ∧ ∀ pieces' tail', Cut b script pieces' tail' → pieces' = pieces ∧
          tail' = tail) ∧
        script = pieces.flatMap (Piece.bytes b) ++ tail ∧
        findAndDeleteCount script b = (pieces.count .deleted, pieces.flatMap Piece.remains ++ tail) ∧
        pieces.count .deleted ≤ script.length ∧
        ∀ ops, Parses b ops → ∀ before after, pieces = before ++ after →
          after.flatMap (Piece.bytes b) ++ tail ∈ boundaries script := by
  constructor
  · intro items hlength
    have hparses := parses_write (hlength.trans (by norm_num))
    exact ⟨hparses.operations, hparses⟩
  · intro script b hb
    obtain ⟨pieces, tail, hcut, hcount⟩ := findAndDeleteCount_eq hb script
    refine ⟨pieces, tail, ⟨hcut, fun _ _ => hcut.unique⟩, hcut.script_eq, hcount,
      hcut.count_deleted_le hb, ?_⟩
    intro ops hops before after hpieces
    exact hcut.mem_boundaries hops hpieces

/-- Two pushes and an opcode, and a script with two copies of the first push. -/
theorem write_parses_findAndDelete_cuts_two :
    operations (write [.data [7, 8], .data [], .opcode 0xac (by decide)]) =
      [(0x02, [7, 8]), (0x00, []), (0xac, [])] ∧
    ∃ pieces tail, Cut [0x01, 0x07] [0x01, 0x07, 0x51, 0x01, 0x07, 0x4c] pieces tail ∧
      findAndDeleteCount [0x01, 0x07, 0x51, 0x01, 0x07, 0x4c] [0x01, 0x07] =
        (pieces.count .deleted, pieces.flatMap Piece.remains ++ tail) := by
  obtain ⟨hwrite, hcut⟩ := write_parses_findAndDelete_cuts
  refine ⟨(hwrite _ (by decide)).1, ?_⟩
  obtain ⟨pieces, tail, ⟨hpieces, _⟩, _, hcount, _⟩ :=
    hcut [0x01, 0x07, 0x51, 0x01, 0x07, 0x4c] [0x01, 0x07] (by decide)
  exact ⟨pieces, tail, hpieces, hcount⟩

/-- The second `02` is inside the push that the first one starts, and both are taken out. -/
theorem findAndDelete_inside_push :
    findAndDeleteCount [0x02, 0x02, 0x51] [0x02] = (2, [0x51]) ∧
      boundaries [0x02, 0x02, 0x51] = [[0x02, 0x02, 0x51], []] ∧
      (boundaries [0x02, 0x02, 0x51]).countP (fun pc => decide ([0x02] <+: pc)) = 1 := by
  decide

end Script

end TscPow
