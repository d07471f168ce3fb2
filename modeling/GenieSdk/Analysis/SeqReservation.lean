import GenieSdk.Model.MeshNet

/-!
# Reserved sequence numbers

A saved number stands for the numbers up to the next multiple of the save interval: as long as none of
these is passed the store is not written, and a restart skips the interval. The number that is saved
then need not be a multiple, but the reservation ends at the same multiple as before. So **no
number is used twice, wherever the power is lost** (`seq_reserved`).
-/

set_option autoImplicit false

namespace GenieSdk.Analysis.SeqReserve

open GenieSdk.Lib
open GenieSdk.Model

/-- The part of a node that a send and a restart work on. -/
def seqOf (s : MeshNode) : SeqNode := ⟨s.net.seq, s.kv, .idle, s.used.map Nonce.seq⟩

/-- A PDU that is encoded takes the three parts of a send. -/
theorem encode_seqOf {s s' : MeshNode} {ctl : Bool} {tailroom : ℕ}
    (h : btMeshNetEncode s ctl tailroom = some s') :
    runSteps seqStep (seqOf s) [.use, .increment, .save] = some (seqOf s') := by
  unfold btMeshNetEncode at h
  split_ifs at h
  cases h
  simp only [runSteps, seqStep, seqOf, nextSeq, MeshNet.nonce, if_true, List.map_append,
    List.map_cons, List.map_nil]

/-- The counter is far enough from its end for one more reservation. -/
def HasRoom (s : SeqNode) (_ : SeqAct) : Prop := s.seq + genieSeqSaveInterval ≤ 0xFFFFFF

instance (s : SeqNode) (a : SeqAct) : Decidable (HasRoom s a) :=
  inferInstanceAs (Decidable (_ ≤ _))

/-- The numbers from the saved one to `n` lie within one save interval. -/
structure Covers (kv : GenieKv) (n : ℕ) : Prop where
  none : kv.seq = none → n = 0
  le : ∀ v, kv.seq = some v → v ≤ n
  interval : ∀ v, kv.seq = some v → n / genieSeqSaveInterval = v / genieSeqSaveInterval

/-- The counter and what was used of it. -/
def CounterOk (s : SeqNode) : SeqPc → Prop
  | .off => ∀ v, s.kv.seq = some v → v + genieSeqSaveInterval ≤ 0xFFFFFF
  | .idle => Covers s.kv s.seq ∧ ∀ n ∈ s.used, n < s.seq
  | .used => Covers s.kv s.seq ∧ ∀ n ∈ s.used, n ≤ s.seq
  | .counted => ∃ m, s.seq = m + 1 ∧ Covers s.kv m ∧ ∀ n ∈ s.used, n ≤ m

/-- **What holds of the counter in every run.** -/
structure SeqInv (s : SeqNode) : Prop where
  reserved : ∀ v, s.kv.seq = some v → ∀ n ∈ s.used, n < v + genieSeqSaveInterval
  counter : CounterOk s s.pc

section Steps

variable {s s' : SeqNode} {kv : GenieKv} {n : ℕ}

/-- A covered number is reserved. -/
theorem Covers.lt (h : Covers kv n) {v : ℕ} (hv : kv.seq = some v) :
    n < v + genieSeqSaveInterval := by
  have hle := h.le v hv
  have heq := h.interval v hv
  unfold genieSeqSaveInterval at *
  omega

/-- The saved number covers itself. -/
theorem covers_self (kv : GenieKv) (n : ℕ) : Covers { kv with seq := some n } n :=
  ⟨nofun, fun _ h => (Option.some.inj h).ge, fun _ h => by rw [Option.some.inj h]⟩

/-- The event saves the next number, or the last saved one covers it. -/
theorem Covers.save (h : Covers kv n) (hlt : n + 1 < 2 ^ 24) :
    Covers (genieEventHandleSeqUpdate kv (n + 1)) (n + 1) ∧
      ∀ v, (genieEventHandleSeqUpdate kv (n + 1)).seq = some v → n < v + genieSeqSaveInterval := by
  have hforce : decide (n + 1 = 0) = false := decide_eq_false (Nat.succ_ne_zero n)
  unfold genieEventHandleSeqUpdate genieStorageWriteSeq
  rw [hforce]
  split
  · next hskip =>
    -- no multiple of the interval is passed
    refine ⟨⟨fun hnone => ?_, fun v hv => (h.le v hv).trans (Nat.le_succ n), fun v hv => ?_⟩,
      fun v hv => h.lt hv⟩
    · have hzero := h.none hnone
      omega
    · have heq := h.interval v hv
      unfold genieSeqSaveInterval at *
      omega
  · rw [Nat.mod_eq_of_lt hlt]
    refine ⟨covers_self kv (n + 1), fun v hv => ?_⟩
    rw [← Option.some.inj hv]
    omega

/-- The number of the last saved value that can be lost lies below the counter. -/
theorem SeqInv.saved_le (h : SeqInv s) (hpc : s.pc ≠ .off) {v : ℕ} (hv : s.kv.seq = some v) :
    v ≤ s.seq := by
  have hcounter := h.counter
  cases hp : s.pc with
  | off => exact absurd hp hpc
  | idle =>
    rw [hp] at hcounter
    exact hcounter.1.le v hv
  | used =>
    rw [hp] at hcounter
    exact hcounter.1.le v hv
  | counted =>
    rw [hp] at hcounter
    obtain ⟨m, hseq, hcov, -⟩ := hcounter
    exact (hcov.le v hv).trans (by omega)

/-- A restart reads the saved number and saves the one it goes on with. -/
theorem readSeq_eq {v : ℕ} (hv : kv.seq = some v) (hlt : v + genieSeqSaveInterval < 2 ^ 24) :
    genieStorageReadSeq kv =
      some (v + genieSeqSaveInterval, { kv with seq := some (v + genieSeqSaveInterval) }) := by
  rw [genieStorageReadSeq, hv]
  show some (_, genieStorageWriteSeq kv (v + genieSeqSaveInterval) true) = _
  rw [genieStorageWriteSeq, if_neg (by simp), Nat.mod_eq_of_lt hlt]

/-- **every step.** -/
theorem SeqInv.step (h : SeqInv s) {a : SeqAct} (hroom : HasRoom s a) (hc : seqStep s a = some s') :
    SeqInv s' := by
  have hcounter := h.counter
  unfold HasRoom at hroom
  unfold seqStep at hc
  cases a with
  | use =>
    simp only [Option.ite_none_right_eq_some, Option.some.injEq] at hc
    obtain ⟨hpc, rfl⟩ := hc
    rw [hpc] at hcounter
    obtain ⟨hcov, hused⟩ := hcounter
    refine ⟨fun v hv n hn => ?_, hcov, fun n hn => ?_⟩
    all_goals rcases List.mem_append.1 hn with hin | hin
    · exact h.reserved v hv n hin
    · rw [List.mem_singleton.1 hin]
      exact hcov.lt hv
    · exact (hused n hin).le
    · exact (List.mem_singleton.1 hin).le
  | increment =>
    simp only [Option.ite_none_right_eq_some, Option.some.injEq] at hc
    obtain ⟨hpc, rfl⟩ := hc
    rw [hpc] at hcounter
    unfold genieSeqSaveInterval at hroom
    refine ⟨h.reserved, s.seq, ?_, hcounter.1, hcounter.2⟩
    exact Nat.mod_eq_of_lt (by omega)
  | save =>
    simp only [Option.ite_none_right_eq_some, Option.some.injEq] at hc
    obtain ⟨hpc, rfl⟩ := hc
    rw [hpc] at hcounter
    obtain ⟨m, hseq, hcov, hused⟩ := hcounter
    unfold genieSeqSaveInterval at hroom
    obtain ⟨hcov', hres⟩ := hcov.save (by omega)
    rw [← hseq] at hcov' hres
    refine ⟨fun v hv n hn => (hused n hn).trans_lt (hres v hv), hcov', fun n hn => ?_⟩
    have hle := hused n hn
    show n < s.seq
    omega
  | powerLoss =>
    cases hc
    refine ⟨h.reserved, fun v hv => ?_⟩
    by_cases hpc : s.pc = .off
    · rw [hpc] at hcounter
      exact hcounter v hv
    · exact (Nat.add_le_add_right (h.saved_le hpc hv) _).trans hroom
  | restore cutOff =>
    simp only [Option.ite_none_right_eq_some] at hc
    obtain ⟨hpc, hc⟩ := hc
    rw [hpc] at hcounter
    cases hkv : s.kv.seq with
    | none =>
      rw [genieStorageReadSeq, hkv] at hc
      cases hc
      exact h
    | some v =>
      have hbound := hcounter v hkv
      rw [readSeq_eq hkv (by omega)] at hc
      cases cutOff with
      | true =>
        cases hc
        exact h
      | false =>
        cases hc
        refine ⟨fun w hw n hn => ?_, ?_⟩
        · rw [← Option.some.inj hw]
          exact (h.reserved v hkv n hn).trans_le (Nat.le_add_right _ _)
        · show Covers _ ((v + genieSeqSaveInterval) % 2 ^ 24) ∧
            ∀ n ∈ s.used, n < (v + genieSeqSaveInterval) % 2 ^ 24
          rw [Nat.mod_eq_of_lt (by omega)]
          exact ⟨covers_self _ _, h.reserved v hkv⟩

end Steps

/-- The invariant holds of a node that was just provisioned. -/
theorem seqInv_provisioned : SeqInv seqProvisioned :=
  ⟨nofun, ⟨fun _ => rfl, nofun, nofun⟩, nofun⟩

/-- **Reserved sequence numbers.** In every run of sends and power losses, each between any two
assignments and also during a restart, in which the counter stays a save interval below its end, the
number that `genie_storage_read_seq` would restore is greater than every number used. -/
theorem seq_reserved (as : List SeqAct) (s : SeqNode)
    (hroom : StepsMeet seqStep HasRoom seqProvisioned as)
    (hrun : runSteps seqStep seqProvisioned as = some s) :
    ∀ seq kv, genieStorageReadSeq s.kv = some (seq, kv) → ∀ n ∈ s.used, n < seq := by
  have hinv : SeqInv s := runSteps_inv (fun _ _ _ hs hr hc => hs.step hr hc) seqInv_provisioned hroom hrun
  intro seq kv hread
  cases hkv : s.kv.seq with
  | none =>
    rw [genieStorageReadSeq, hkv] at hread
    cases hread
  | some v =>
    rw [genieStorageReadSeq, hkv] at hread
    cases hread
    exact hinv.reserved v hkv

/-- Two PDUs are sent, the third loses its number; the power is lost again as the node starts, and
before it has saved anything. -/
def lossyRun : List SeqAct :=
  [.use, .increment, .save, .use, .increment, .save, .use, .increment, .powerLoss, .restore true,
    .powerLoss, .restore false, .use, .powerLoss]

/-- The number restored after that is 202. -/
theorem seq_reserved_lossy :
    ∃ s, runSteps seqStep seqProvisioned lossyRun = some s ∧ s.used = [0, 1, 2, 102] ∧
      (genieStorageReadSeq s.kv).map Prod.fst = some 202 ∧
      ∀ seq kv, genieStorageReadSeq s.kv = some (seq, kv) → ∀ n ∈ s.used, n < seq := by
  obtain ⟨s, hrun⟩ : ∃ s, runSteps seqStep seqProvisioned lossyRun = some s := ⟨_, rfl⟩
  refine ⟨s, hrun, ?_, ?_, seq_reserved lossyRun s (by decide) hrun⟩
  all_goals
    cases hrun
    rfl

end GenieSdk.Analysis.SeqReserve
