import GenieSdk.Analysis.KvStart

/-!
# The store on NOR flash

A NOR flash clears bits. Along every run from an erased partition in which no key is empty, with reboots in
between, every write lies in one block and clears bits only (`kv_nor_writes`), and so a flash that can do no
more holds the same bytes. An item with an empty key is read back as garbage, and what is written behind it
does not go to erased bytes (`empty_key_overwrites`).
-/

set_option autoImplicit false

namespace GenieSdk.Analysis.Kv

open GenieSdk.Lib
open GenieSdk.Model

/-! ## What is claimed -/

/-- What is written where: anything on erased bytes, the state of a block, the state of an item. -/
inductive WriteKind (c : KvConf) (f : Mem) (pos : ℕ) : List UInt8 → Prop
  | fresh {bytes : List UInt8} : (∀ k < bytes.length, f (pos + k) = 0xFF) → WriteKind c f pos bytes
  | blkState {i : ℕ} {st : UInt8} : pos = i * c.blkSize + 1 → BlkMove (f pos) st → WriteKind c f pos [st]
  | itemState : f pos = itemStateNormal → WriteKind c f pos [itemStateDelete]

structure NorWrite (c : KvConf) (f : Mem) (pos : ℕ) (bytes : List UInt8) : Prop where
  block : ∃ i < c.blkNums, i * c.blkSize ≤ pos ∧ pos + bytes.length ≤ blkStop c i
  clears : ∀ k < bytes.length, bytes.getD k 0 = f (pos + k) &&& bytes.getD k 0
  kind : WriteKind c f pos bytes

/-- All writes, one after the other. -/
def NorLog (c : KvConf) : Mem → List FlashOp → Prop
  | _, [] => True
  | f, op :: ops => (∀ pos bytes, op = .write pos bytes → NorWrite c f pos bytes) ∧ NorLog c (op.apply f) ops

/-- The operation on a flash that only clears bits. -/
def FlashOp.applyNor (f : Mem) : FlashOp → Mem
  | .write pos bytes => fun a =>
    if pos ≤ a ∧ a < pos + bytes.length then f a &&& bytes.getD (a - pos) 0 else f a
  | .erase pos size => (FlashOp.erase pos size).apply f

structure NorDiscipline (c : KvConf) (f₀ : Mem) (s : KvMgr) : Prop where
  log : NorLog c f₀ s.trace
  same : s.trace.foldl FlashOp.applyNor f₀ = s.flash

/-- **The condition.** No call sets the empty key. -/
def NonemptyKey : KvAct → Prop
  | .call (.set key _) => key ≠ []
  | _ => True

instance (a : KvAct) : Decidable (NonemptyKey a) := by
  unfold NonemptyKey
  split <;> infer_instance

section Lawful

variable {c : KvConf} {f : Mem} {op : FlashOp} {ops : List FlashOp} {pos : ℕ} {bytes : List UInt8}

/-- All bits set change nothing. -/
theorem and_ff (b : UInt8) : b = 0xFF &&& b := UInt8.neg_one_and.symm

/-- The states of a block are such that each one clears bits of the one before. -/
theorem BlkMove.clears {st st' : UInt8} (h : BlkMove st st') : st' = st &&& st' := by
  cases h with
  | use => decide
  | dirty => decide
  | recover => decide

/-- A lawful write is one that the flash can do. -/
theorem Lawful.norWrite (h : Lawful c f (.write pos bytes)) : NorWrite c f pos bytes := by
  cases h with
  | @fresh i _ _ hi hlo hhi hff =>
    refine ⟨⟨i, hi, hlo, hhi⟩, fun k hk => ?_, .fresh hff⟩
    rw [hff k hk]
    exact and_ff _
  | @blkState i st hi hmagic hmove =>
    have hsize := blkSize_ge c
    refine ⟨⟨i, hi, Nat.le_add_right _ _, ?_⟩, fun k hk => ?_, .blkState rfl hmove⟩
    · unfold blkStop
      simp only [List.length_singleton]
      omega
    · obtain rfl : k = 0 := by simpa using hk
      exact hmove.clears
  | @itemState i off hi hlo hhi hmagic hnormal =>
    have hfirst : i * c.blkSize + 4 = blkFirst c i := rfl
    refine ⟨⟨i, hi, by omega, ?_⟩, fun k hk => ?_, .itemState hnormal⟩
    · simp only [List.length_singleton]
      omega
    · obtain rfl : k = 0 := by simpa using hk
      rw [Nat.add_zero, hnormal]
      decide

/-- So are lawful operations in a row. -/
theorem LawfulAll.norLog (h : LawfulAll c f ops) : NorLog c f ops := by
  induction ops generalizing f with
  | nil => trivial
  | cons op ops ih =>
    refine ⟨fun pos bytes heq => ?_, ih h.2⟩
    subst heq
    exact h.1.norWrite

/-- A write that only clears bits is the same on both flashes. -/
theorem NorWrite.applyNor_eq (h : NorWrite c f pos bytes) :
    FlashOp.applyNor f (.write pos bytes) = (FlashOp.write pos bytes).apply f := by
  funext a
  unfold FlashOp.applyNor FlashOp.apply
  dsimp only
  by_cases ha : pos ≤ a ∧ a < pos + bytes.length
  · have hclears := h.clears (a - pos) (by omega)
    rw [Nat.add_sub_cancel' ha.1] at hclears
    rw [if_pos ha, ← hclears, writeBytes_inside _ _ _ _ ha.1 ha.2]
  · rw [if_neg ha, writeBytes_outside _ _ _ _ (by omega)]

/-- Such operations leave what they were to write. -/
theorem NorLog.foldl_eq (h : NorLog c f ops) : ops.foldl FlashOp.applyNor f = ops.foldl FlashOp.apply f := by
  induction ops generalizing f with
  | nil => rfl
  | cons op ops ih =>
    have hop : FlashOp.applyNor f op = op.apply f := by
      cases op with
      | write pos bytes => exact (h.1 pos bytes rfl).applyNor_eq
      | erase pos size => rfl
    rw [List.foldl_cons, List.foldl_cons, hop]
    exact ih h.2

/-- A step that obeys does only such operations. -/
theorem Obeys.norDiscipline {s₀ s : KvMgr} (h : Obeys c s₀ s) (hs : s₀.trace = []) :
    NorDiscipline c s₀.flash s := by
  obtain ⟨ops, htrace, hflash, hall⟩ := h
  rw [hs, List.nil_append] at htrace
  refine ⟨?_, ?_⟩
  · rw [htrace]
    exact hall.norLog
  · rw [htrace, hflash]
    exact hall.norLog.foldl_eq

end Lawful

/-! ## Runs -/

section Runs

variable {c : KvConf} {ns : ℕ → List ℕ} {s s₀ s' : KvMgr} {acts : List KvAct}

/-- Every call and every reboot obeys. -/
theorem Layout.act {a : KvAct} (hn : 0 < c.blkNums) (h : Layout c ns s) (ha : NonemptyKey a)
    (hstep : kvActStep c s a = some s') : ∃ ns', Layout c ns' s' ∧ Obeys c s s' := by
  cases a with
  | call op =>
    refine h.step (fun key val hop => ?_) hstep
    subst hop
    exact ha
  | boot =>
    obtain ⟨ns', hl, ho, -⟩ := kvInit_layout hn h.laid.flashLaid hstep
    have hboot : Obeys c s s.boot := obeys_of_eq rfl rfl
    exact ⟨ns', hl, hboot.trans ho⟩

/-- The layout along a run. -/
theorem layout_run (hn : 0 < c.blkNums) (hkeys : ∀ a ∈ acts, NonemptyKey a) (hl : Layout c ns s₀)
    (hrun : runSteps (kvActStep c) s₀ acts = some s) : ∃ ns', Layout c ns' s ∧ Obeys c s₀ s := by
  have hmeet : StepsMeet (kvActStep c) (fun _ a => NonemptyKey a) s₀ acts :=
    stepsMeet_of_forall (fun a ha _ => hkeys a ha) s₀
  refine runSteps_inv (I := fun t => ∃ ns', Layout c ns' t ∧ Obeys c s₀ t) (fun t a t' ht ha hstep => ?_)
    ⟨ns, hl, .refl c s₀⟩ hmeet hrun
  obtain ⟨ns', hl', ho⟩ := ht
  obtain ⟨ns'', hl'', ho'⟩ := hl'.act hn ha hstep
  exact ⟨ns'', hl'', ho.trans ho'⟩

/-- The first start of an erased partition. -/
theorem layout_start (hn : 0 < c.blkNums) (h : kvActStep c erasedPartition .boot = some s) :
    ∃ ns, Layout c ns s ∧ Obeys c erasedPartition s := by
  obtain ⟨ns, hl, ho, -⟩ := kvInit_layout hn (flashLaid_erased c) h
  exact ⟨ns, hl, ho⟩

end Runs

/-- **The writes of the store.** In every run from an erased partition in which no key is empty. -/
theorem kv_nor_writes {c : KvConf} (hn : 2 ≤ c.blkNums) {acts : List KvAct} {s : KvMgr}
    (hkeys : ∀ a ∈ acts, NonemptyKey a)
    (hrun : runSteps (kvActStep c) erasedPartition (.boot :: acts) = some s) :
    NorDiscipline c erasedPartition.flash s := by
  obtain ⟨t, hboot, hrest⟩ := runSteps_cons hrun
  obtain ⟨ns, hl, ho⟩ := layout_start (by omega) hboot
  obtain ⟨-, -, ho'⟩ := layout_run (by omega) hkeys hl hrest
  exact (ho.trans ho').norDiscipline rfl

/-- Two items, a reboot, and another value for the first one. -/
def twoItemsRun : List KvAct :=
  [.call (.set [0x61] [1, 2, 3]), .call (.set [0x62] [4]), .boot, .call (.set [0x61] [5])]

/-- A start and two items on an erased partition. -/
theorem kv_nor_writes_twoItems : ∃ s,
    runSteps (kvActStep smallConf) erasedPartition (.boot :: twoItemsRun) = some s ∧
      NorDiscipline smallConf erasedPartition.flash s := by
  have hsome : (runSteps (kvActStep smallConf) erasedPartition (.boot :: twoItemsRun)).isSome = true := by
    decide +kernel
  obtain ⟨s, hrun⟩ := Option.isSome_iff_exists.1 hsome
  exact ⟨s, hrun, kv_nor_writes (by decide) (by decide) hrun⟩

/-- An item with an empty key, whose value begins like erased flash. -/
def emptyKeyRun : List KvAct :=
  [.call (.set [] [0xFF, 0xFF, 0, 0]), .boot, .call (.set [0x61] [1])]

/-- `kv_init` takes the value for the end of the items, and the next item is written over it. -/
theorem empty_key_overwrites : ∃ s,
    runSteps (kvActStep smallConf) erasedPartition (.boot :: emptyKeyRun) = some s ∧
      ¬ NorDiscipline smallConf erasedPartition.flash s := by
  have hbytes : (runSteps (kvActStep smallConf) erasedPartition (.boot :: emptyKeyRun)).map
      (fun s => (s.trace.foldl FlashOp.applyNor erasedPartition.flash 15, s.flash 15)) = some (0, 1) := by
    decide +kernel
  obtain ⟨s, hrun, heq⟩ := Option.map_eq_some_iff.1 hbytes
  refine ⟨s, hrun, fun h => ?_⟩
  rw [h.same] at heq
  have := (Prod.mk.inj heq).1.symm.trans (Prod.mk.inj heq).2
  exact absurd this (by decide)

end GenieSdk.Analysis.Kv
