import GenieSdk.Analysis.OtaReceive

/-!
# What is received of an image, and what is activated

The partition and `recv_buf` together hold the payloads that were accepted since the last update
request, as long as every payload fits into `recv_buf` (`Stream`). Whether an image is activated
depends on the checksum that `ali_dfu_port.c` keeps, which a new request does not reset.
-/

set_option autoImplicit false

namespace GenieSdk.Analysis.Ota

open GenieSdk.Model
open GenieSdk.Lib

section Log

/-- One more entry of the log. -/
def receive (bytes : List UInt8) : OtaEvent → List UInt8
  | .request _ _ => []
  | .data payload => bytes ++ payload

/-- The payloads that were accepted since the last request. -/
def received (log : List OtaEvent) : List UInt8 := log.foldl receive []

/-- The size and checksum of the last request. -/
def lastRequest (log : List OtaEvent) : Option (ℕ × ℕ) :=
  log.foldl (fun last ev => match ev with
    | .request size crc16 => some (size, crc16)
    | .data _ => last) none

variable (log : List OtaEvent)

@[simp] theorem received_request (size crc16 : ℕ) :
    received (log ++ [.request size crc16]) = [] := by
  simp [received, receive]

@[simp] theorem received_data (payload : List UInt8) :
    received (log ++ [.data payload]) = received log ++ payload := by
  simp [received, receive]

@[simp] theorem lastRequest_request (size crc16 : ℕ) :
    lastRequest (log ++ [.request size crc16]) = some (size, crc16) := by
  simp [lastRequest]

@[simp] theorem lastRequest_data (payload : List UInt8) :
    lastRequest (log ++ [.data payload]) = lastRequest log := by
  simp [lastRequest]

end Log

section Counting

variable {cfg : AisCfg} {s s' : AisDev}

/-- The image that is received is the one last requested, and `rx_size` counts its bytes. -/
structure Counted (s : AisDev) : Prop where
  rxSize : s.ota.rxSize = (received s.log).length
  rxSize_le : s.ota.rxSize ≤ s.ota.imageSize
  imageSize_le : s.ota.imageSize ≤ aliDfuGetOtaPartitionMaxSize
  request : s.state = .ota → lastRequest s.log = some (s.ota.imageSize, s.ota.imageCrc16)

/-- The bytes stay counted if the transfer stays. -/
theorem Counted.same (h : Counted s) (hsame : SameOta s s') : Counted s' where
  rxSize := by
    rw [hsame.ota, hsame.log]
    exact h.rxSize
  rxSize_le := by
    rw [hsame.ota]
    exact h.rxSize_le
  imageSize_le := by
    rw [hsame.ota]
    exact h.imageSize_le
  request := by
    rw [hsame.ota, hsame.log, hsame.state]
    exact h.request

/-- And over a quiet step. -/
theorem Counted.quiet (h : Counted s) (hq : Quiet s s') : Counted s' where
  rxSize := by
    rw [hq.rxSize, hq.log]
    exact h.rxSize
  rxSize_le := by
    rw [hq.rxSize, hq.imageSize]
    exact h.rxSize_le
  imageSize_le := by
    rw [hq.imageSize]
    exact h.imageSize_le
  request := by
    intro hs
    rw [hq.log, hq.imageSize, hq.imageCrc16]
    exact h.request (hq.inOta hs).1

/-- At the start nothing is counted. -/
theorem counted_init (flash : Mem) : Counted (aisInit flash) where
  rxSize := rfl
  rxSize_le := le_rfl
  imageSize_le := Nat.zero_le _
  request := fun hs => (by cases hs)

/-- `rx_size` does not wrap. -/
theorem Counted.store_rxSize {p : AisPdu} (h : Counted s) (hp : DataPdu p) (hacc : Accepts s p) :
    (otaStore cfg s p).ota.rxSize = s.ota.rxSize + p.payloadLen ∧
      s.ota.rxSize + p.payloadLen ≤ s.ota.imageSize := by
  have hsmall : s.ota.rxSize + p.payloadLen < 2 ^ 32 := by
    have hmax : aliDfuGetOtaPartitionMaxSize = 225280 := rfl
    have := h.rxSize_le
    have := h.imageSize_le
    have := payloadLen_lt p
    omega
  obtain ⟨-, -, hrx, -, -⟩ := otaStore_spec cfg s hp
  have hroom := hacc.room
  rw [Nat.mod_eq_of_lt hsmall] at hrx hroom
  exact ⟨hrx, hroom⟩

/-- An accepted frame is counted. -/
theorem Counted.store {p : AisPdu} (h : Counted s) (hp : DataPdu p) (hacc : Accepts s p) :
    Counted (otaStore cfg s p) := by
  obtain ⟨hrx, hroom⟩ := @Counted.store_rxSize cfg s p h hp hacc
  obtain ⟨hstate, -, hsize, hcrc, -, hlog⟩ := otaStore_frame cfg s p
  constructor
  · rw [hrx, hlog, received_data, List.length_append, hp.length_payload, h.rxSize]
  · rw [hrx, hsize]
    exact hroom
  · rw [hsize]
    exact h.imageSize_le
  · intro hs
    rw [hlog, lastRequest_data, hsize, hcrc]
    exact h.request (hstate.symm.trans hs)

/-- A flush leaves the count alone. -/
theorem flush_counted {p : AisPdu} (h : Counted s) : Counted (otaFlush s p) := by
  obtain ⟨-, hflush⟩ | ⟨-, hflush⟩ := otaFlush_cases s p
  · refine Counted.same ?_ hflush
    obtain ⟨hstate, -, -, hlog, -⟩ := imageUpdate_frame s (s.ota.rxSize - s.ota.rxLen)
      (readBytes s.recvBuf 0 s.ota.rxLen)
    constructor
    · show s.ota.rxSize = _
      rw [hlog]
      exact h.rxSize
    · exact h.rxSize_le
    · exact h.imageSize_le
    · intro hs
      show lastRequest _ = _
      rw [hlog]
      exact h.request (hstate.symm.trans hs)
  · refine Counted.same ?_ hflush
    exact ⟨h.rxSize, h.rxSize_le, h.imageSize_le, h.request⟩

/-- **Every event** keeps the count. -/
theorem Counted.step {e : AisEvent} (h : Counted s) (hc : aisStep cfg s e = some s') :
    Counted s' := by
  cases aisStep_cases hc with
  | quiet hq => exact h.quiet hq
  | request r hlegal hsame =>
    refine Counted.same ?_ hsame
    have hle : r.fwSize ≤ aliDfuGetOtaPartitionMaxSize := by
      unfold OtaUpdReq.legal at hlegal
      simp only [Bool.not_eq_true', decide_eq_false_iff_not, not_or] at hlegal
      exact not_lt.1 hlegal.2.2.1
    constructor
    · simp [requested, OtaCtx.zero]
    · exact Nat.zero_le _
    · exact hle
    · intro _
      simp [requested]
  | data p heq hp hacc hsame =>
    exact (flush_counted (h.store hp hacc)).same hsame
  | giveUp hs hstate hq =>
    refine Counted.quiet ?_ hq
    exact ⟨h.rxSize, h.rxSize_le, h.imageSize_le, fun hs => (by cases hs)⟩
  | activate p heq hact hsame =>
    refine Counted.same ?_ hsame
    exact ⟨h.rxSize, h.rxSize_le, h.imageSize_le, fun hs => (by cases hs)⟩
  | restart flash hsame => exact (counted_init flash).same hsame

/-- **The count along runs.** -/
theorem counted_run {flash : Mem} {evs : List AisEvent}
    (hrun : runSteps (aisStep cfg) (aisInit flash) evs = some s) : Counted s :=
  runSteps_inv (P := fun _ _ => True) (fun _ _ _ h _ hc => h.step hc) (counted_init flash)
    (stepsMeet_of_forall (fun _ _ _ => trivial) _) hrun

end Counting

section Content

variable {cfg : AisCfg} {s s' : AisDev} {p : AisPdu}

/-- The partition up to the current batch, and the batch, are what was accepted. -/
structure Stream (cfg : AisCfg) (s : AisDev) : Prop where
  rxLen_le : s.ota.rxLen ≤ s.ota.rxSize
  inBuf : s.ota.rxLen ≤ cfg.otaRecvBufSize
  bytes : readBytes s.flash 0 (s.ota.rxSize - s.ota.rxLen) ++ readBytes s.recvBuf 0 s.ota.rxLen =
    received s.log
  begin : s.ota.exceptSeq = 0 → s.ota.rxLen = 0

/-- A frame that is accepted fits into the rest of `recv_buf`. -/
def Fits (cfg : AisCfg) (s : AisDev) : AisEvent → Prop
  | .msg p => DataPdu p → Accepts s p → batchStart s p + p.payloadLen ≤ cfg.otaRecvBufSize
  | _ => True

instance (cfg : AisCfg) (s : AisDev) (e : AisEvent) : Decidable (Fits cfg s e) :=
  match e with
  | .msg p => inferInstanceAs (Decidable (DataPdu p → Accepts s p → _ ≤ _))
  | .connect => isTrue trivial
  | .disconnect _ => isTrue trivial
  | .stateTimer => isTrue trivial
  | .discTimer => isTrue trivial

/-- The stream stays if the transfer does. -/
theorem Stream.same (h : Stream cfg s) (hsame : SameOta s s') : Stream cfg s' := by
  constructor
  · rw [hsame.ota]
    exact h.rxLen_le
  · rw [hsame.ota]
    exact h.inBuf
  · rw [hsame.ota, hsame.flash, hsame.recvBuf, hsame.log]
    exact h.bytes
  · rw [hsame.ota]
    exact h.begin

/-- And over a quiet step. -/
theorem Stream.quiet (h : Stream cfg s) (hq : Quiet s s') (hs : s'.state = .ota) :
    Stream cfg s' := by
  constructor
  · rw [hq.rxLen, hq.rxSize]
    exact h.rxLen_le
  · rw [hq.rxLen]
    exact h.inBuf
  · rw [hq.rxLen, hq.rxSize, (hq.inOta hs).2, hq.recvBuf, hq.log]
    exact h.bytes
  · rw [hq.rxLen, hq.exceptSeq]
    exact h.begin

/-- A request starts with nothing. -/
theorem stream_requested (cfg : AisCfg) (s : AisDev) (r : OtaUpdReq) :
    Stream cfg (requested cfg s r) where
  rxLen_le := le_rfl
  inBuf := Nat.zero_le _
  bytes := by simp [requested, OtaCtx.zero]
  begin := fun _ => rfl

/-- A batch is continued where it ended. -/
theorem Stream.start (h : Stream cfg s) (hacc : Accepts s p) : batchStart s p = s.ota.rxLen := by
  unfold batchStart
  split
  case isTrue hzero => exact (h.begin (hacc.seq_eq.symm.trans hzero)).symm
  case isFalse => rfl

/-- An accepted frame extends the batch. -/
theorem Stream.store (h : Stream cfg s) (hcount : Counted s) (hbatch : Batch 15 255 s)
    (hp : DataPdu p) (hacc : Accepts s p)
    (hfit : batchStart s p + p.payloadLen ≤ cfg.otaRecvBufSize) :
    (otaStore cfg s p).ota.rxLen = s.ota.rxLen + p.payloadLen ∧
      s.ota.rxLen + p.payloadLen ≤ cfg.otaRecvBufSize ∧
      s.ota.rxLen + p.payloadLen ≤ (otaStore cfg s p).ota.rxSize ∧
      readBytes (otaStore cfg s p).flash 0
          ((otaStore cfg s p).ota.rxSize - (otaStore cfg s p).ota.rxLen) ++
        readBytes (otaStore cfg s p).recvBuf 0 (otaStore cfg s p).ota.rxLen =
          received (otaStore cfg s p).log := by
  obtain ⟨hmod, hle, -, -, hbuf⟩ := otaStore_spec cfg s hp
  obtain ⟨hrx, -⟩ := @Counted.store_rxSize cfg s p hcount hp hacc
  obtain ⟨-, hflash, -, -, -, hlog⟩ := otaStore_frame cfg s p
  have hstart := h.start hacc
  have hlen := hp.length_payload
  -- sixteen frames of 255 bytes do not make `rx_len` wrap
  have hrxLen : (otaStore cfg s p).ota.rxLen = s.ota.rxLen + p.payloadLen := by
    have := hbatch.len
    have := hbatch.seq
    have := payloadLen_lt p
    rw [hstart] at hmod hle
    omega
  have hrxLen_le := h.rxLen_le
  refine ⟨hrxLen, by rw [← hstart]; exact hfit, by rw [hrx]; omega, ?_⟩
  have hold : readBytes (if p.seq = 0 then
      writeBytes s.recvBuf 0 (List.replicate cfg.otaRecvBufSize 0) else s.recvBuf) 0 s.ota.rxLen =
        readBytes s.recvBuf 0 s.ota.rxLen := by
    split
    case isTrue hzero =>
      rw [h.begin (hacc.seq_eq.symm.trans hzero)]
      rfl
    case isFalse => rfl
  rw [hrxLen, hrx, hflash, hlog, received_data, ← h.bytes, List.append_assoc,
    show s.ota.rxSize + p.payloadLen - (s.ota.rxLen + p.payloadLen) =
      s.ota.rxSize - s.ota.rxLen by omega, readBytes_add, hbuf, hstart]
  congr 2
  · rw [readBytes_writeBytes_disjoint _ _ _ _ _ (Or.inl (by omega))]
    exact hold
  · rw [Nat.zero_add, ← hlen]
    exact readBytes_writeBytes_same _ _ _

/-- A batch goes to flash behind the ones before. -/
theorem stream_flush (hcount : Counted s) (hle : s.ota.rxLen ≤ s.ota.rxSize)
    (hbuf : s.ota.rxLen ≤ cfg.otaRecvBufSize)
    (hbytes : readBytes s.flash 0 (s.ota.rxSize - s.ota.rxLen) ++
      readBytes s.recvBuf 0 s.ota.rxLen = received s.log) : Stream cfg (otaFlush s p) := by
  obtain ⟨-, hflush⟩ | ⟨-, hflush⟩ := otaFlush_cases s p
  · refine Stream.same ?_ hflush
    have hfits : ¬ otaPartitionLength <
        s.ota.rxSize - s.ota.rxLen + (readBytes s.recvBuf 0 s.ota.rxLen).length := by
      have := hcount.rxSize_le
      have := hcount.imageSize_le
      have hmax : aliDfuGetOtaPartitionMaxSize ≤ otaPartitionLength := by decide
      rw [length_readBytes]
      omega
    obtain ⟨-, -, -, hlog, -⟩ := imageUpdate_frame s (s.ota.rxSize - s.ota.rxLen)
      (readBytes s.recvBuf 0 s.ota.rxLen)
    refine ⟨Nat.zero_le _, Nat.zero_le _, ?_, fun _ => rfl⟩
    show readBytes (aliDfuImageUpdate s _ _).flash 0 (s.ota.rxSize - 0) ++ [] = received _
    rw [hlog, List.append_nil, Nat.sub_zero, ← hbytes]
    unfold aliDfuImageUpdate
    simp only
    rw [if_neg hfits]
    show readBytes (writeBytes s.flash _ _) 0 s.ota.rxSize = _
    rw [show s.ota.rxSize = s.ota.rxSize - s.ota.rxLen + s.ota.rxLen by omega, readBytes_add,
      Nat.add_sub_cancel, readBytes_writeBytes_disjoint _ _ _ _ _ (Or.inl (by omega)), Nat.zero_add]
    congr 1
    have hsame := readBytes_writeBytes_same s.flash (s.ota.rxSize - s.ota.rxLen)
      (readBytes s.recvBuf 0 s.ota.rxLen)
    rw [length_readBytes] at hsame
    exact hsame
  · refine Stream.same ?_ hflush
    refine ⟨hle, hbuf, hbytes, ?_⟩
    intro hzero
    cases hzero

/-- The frames a peer can send. -/
theorem within_all (e : AisEvent) : Within 15 255 e := by
  cases e with
  | msg p =>
    intro _
    exact ⟨Nat.lt_succ_iff.1 (totalFrame_lt p), Nat.lt_succ_iff.1 (payloadLen_lt p)⟩
  | _ => trivial

/-- What holds while an image is received. -/
structure Receiving (cfg : AisCfg) (s : AisDev) : Prop where
  counted : Counted s
  batch : Batch 15 255 s
  stream : s.state = .ota → Stream cfg s

/-- **Every event** whose frame fits keeps the stream. -/
theorem Receiving.step {e : AisEvent} (h : Receiving cfg s) (hfit : Fits cfg s e)
    (hc : aisStep cfg s e = some s') : Receiving cfg s' := by
  refine ⟨h.counted.step hc, h.batch.step (within_all e) hc, ?_⟩
  intro hs
  cases aisStep_cases hc with
  | quiet hq => exact (h.stream (hq.inOta hs).1).quiet hq hs
  | request r hlegal hsame => exact (stream_requested cfg s r).same hsame
  | data p heq hp hacc hsame =>
    subst heq
    have hs₀ : s.state = .ota := by
      rw [← hs, hsame.state, (otaFlush_frame _ _).1, (otaStore_frame cfg s p).1]
    obtain ⟨hlen, hbuf, hle, hbytes⟩ :=
      (h.stream hs₀).store h.counted h.batch hp hacc (hfit hp hacc)
    have hcount : Counted (otaStore cfg s p) := h.counted.store hp hacc
    exact (stream_flush hcount (by rw [hlen]; exact hle) (by rw [hlen]; exact hbuf) hbytes).same
      hsame
  | giveUp hs₀ hstate hq =>
    rw [hstate] at hs
    cases hs
  | activate p heq hact hsame =>
    rw [hsame.state] at hs
    cases hs
  | restart flash hsame =>
    rw [hsame.state] at hs
    cases hs

/-- The partition and `recv_buf` hold what was accepted, and `rx_size` counts it. -/
def Intact (cfg : AisCfg) (s : AisDev) : Prop :=
  s.ota.rxLen ≤ cfg.otaRecvBufSize ∧ s.ota.rxLen ≤ s.ota.rxSize ∧
    readBytes s.flash 0 (s.ota.rxSize - s.ota.rxLen) ++ readBytes s.recvBuf 0 s.ota.rxLen =
      received s.log ∧
    s.ota.rxSize = (received s.log).length ∧ s.ota.rxSize ≤ s.ota.imageSize

/-- **The stream along runs** whose frames fit into `recv_buf`: it is intact, an accepted frame is
appended and a rejected one changes nothing but the count of errors. -/
theorem stream_integrity (cfg : AisCfg) (flash : Mem) (evs : List AisEvent) (s : AisDev)
    (hfit : StepsMeet (aisStep cfg) (Fits cfg) (aisInit flash) evs)
    (hrun : runSteps (aisStep cfg) (aisInit flash) evs = some s) (hs : s.state = .ota) :
    Intact cfg s ∧ ∀ p s', p.cmd = 0x2f → aisStep cfg s (.msg p) = some s' →
      if DataPdu p ∧ Accepts s p then received s'.log = received s.log ++ p.payload
      else ∃ n, SameOta { s with ota := { s.ota with errCount := n } } s' := by
  have hinit : Receiving cfg (aisInit flash) :=
    ⟨counted_init flash, ⟨Nat.zero_le _, Nat.zero_le _, Nat.zero_le _⟩, fun hs => (by cases hs)⟩
  have h : Receiving cfg s :=
    runSteps_inv (fun _ _ _ h hfit hc => h.step hfit hc) hinit hfit hrun
  have hstream := h.stream hs
  refine ⟨⟨hstream.inBuf, hstream.rxLen_le, hstream.bytes, h.counted.rxSize,
    h.counted.rxSize_le⟩, ?_⟩
  intro p s' hcmd hc
  split
  case isTrue hacc =>
    obtain ⟨s₁, hc₁, hsame⟩ := @aisStep_data cfg s p hacc.1 hacc.2
    rw [hc] at hc₁
    cases hc₁
    rw [hsame.log, (otaFlush_frame _ _).2.2.1, (otaStore_frame cfg s p).2.2.2.2.2, received_data]
  case isFalse hrej => exact aisStep_rejected hcmd hrej hc

/-- The first frame comes twice and the second one completes the batch. -/
def threeFrames : List AisEvent :=
  [.connect, .msg (requestPdu 1 10 0), .msg (dataFrame 0 1 [1, 2, 3]), .msg (dataFrame 0 1 [9]),
    .msg (dataFrame 1 1 [4])]

/-- A batch of three frames: the flash and the buffer hold what was received. -/
theorem stream_integrity_frames : ∃ s,
    runSteps (aisStep plainCfg) (aisInit fun _ => 0xFF) threeFrames = some s ∧
      s.state = .ota ∧ received s.log = [1, 2, 3, 4] ∧
      readBytes s.flash 0 (s.ota.rxSize - s.ota.rxLen) ++ readBytes s.recvBuf 0 s.ota.rxLen =
        received s.log := by
  obtain ⟨s, hrun, hs, hlog⟩ : ∃ s,
      runSteps (aisStep plainCfg) (aisInit fun _ => 0xFF) threeFrames = some s ∧
        s.state = .ota ∧ received s.log = [1, 2, 3, 4] := ⟨_, rfl, rfl, by decide⟩
  exact ⟨s, hrun, hs, hlog,
    (stream_integrity plainCfg _ threeFrames s (by decide) hrun hs).1.2.2.1⟩

set_option maxRecDepth 8000 in
/-- Frames within the announced limit of `total_frame`, but `recv_buf` has no `rx_len` bytes. -/
theorem stream_overrun : ¬ ∀ flash evs s,
    (∀ p, AisEvent.msg p ∈ evs → p.totalFrame ≤ plainCfg.aisTotalFrame - 1) →
    runSteps (aisStep plainCfg) (aisInit flash) evs = some s → s.state = .ota →
      Intact plainCfg s := by
  intro h
  obtain ⟨s, hrun, hs, hlen⟩ : ∃ s, runSteps (aisStep plainCfg) (aisInit fun _ => 0xFF)
      (.connect :: .msg (requestPdu 1 4096 0) ::
        (List.range 9).map fun i => .msg (dataFrame i 15 (List.replicate 255 0))) = some s ∧
      s.state = .ota ∧ s.ota.rxLen = 2295 := ⟨_, rfl, rfl, by decide⟩
  obtain ⟨hle, -⟩ := h _ _ s (fun p _ => Nat.lt_succ_iff.1 (totalFrame_lt p)) hrun hs
  rw [hlen] at hle
  exact absurd hle (by decide)

end Content

section Activation

variable {cfg : AisCfg} {s s' : AisDev}

/-- The image is marked as ready, or the device is about to restart with it. -/
def Activated (s s' : AisDev) : Prop :=
  (s'.ota.otaReady = true ∧ s.ota.otaReady = false) ∨ (s'.state = .reboot ∧ s.state ≠ .reboot)

/-- Nothing but an activation does it. -/
theorem not_activated (hready : s'.ota.otaReady = s.ota.otaReady ∨ s'.ota.otaReady = false)
    (hstate : s'.state = .reboot → s.state = .reboot) : ¬ Activated s s' := by
  rintro (⟨h₁, h₂⟩ | ⟨h₁, h₂⟩)
  · obtain hready | hready := hready
    · rw [hready, h₂] at h₁
      cases h₁
    · rw [hready] at h₁
      cases h₁
  · exact h₂ (hstate h₁)

/-- Only a check request activates. -/
theorem activated_cases {e : AisEvent} (hc : aisStep cfg s e = some s') (hact : Activated s s') :
    ∃ p, e = .msg p ∧ Activates cfg s p := by
  cases aisStep_cases hc with
  | quiet hq => exact absurd hact (not_activated (Or.inl hq.otaReady) hq.inReboot)
  | request r hlegal hsame =>
    refine absurd hact (not_activated (Or.inr ?_) ?_)
    · rw [hsame.ota]
      rfl
    · rw [hsame.state]
      intro hs
      cases hs
  | data p heq hp hacc hsame =>
    obtain ⟨hstate, -, -, -, hready, -⟩ := otaStore_frame cfg s p
    obtain ⟨hstate', hready', -⟩ := otaFlush_frame (otaStore cfg s p) p
    refine absurd hact (not_activated (Or.inl ?_) ?_)
    · rw [hsame.ota, hready', hready]
    · rw [hsame.state, hstate', hstate]
      exact id
  | giveUp hs hstate hq =>
    refine absurd hact (not_activated (Or.inl hq.otaReady) ?_)
    rw [hstate]
    intro hs
    cases hs
  | activate p heq hact hsame => exact ⟨p, heq, hact⟩
  | restart flash hsame =>
    refine absurd hact (not_activated (Or.inr ?_) ?_)
    · rw [hsame.ota]
      rfl
    · rw [hsame.state]
      intro hs
      cases hs

/-- **What is activated.** Only a check request activates, in `AIS_STATE_OTA` and with the checksum
that the last request announced; not more than the announced size was received since then. -/
theorem only_checked_image_activated (cfg : AisCfg) (flash : Mem) (evs : List AisEvent)
    (s s' : AisDev) (e : AisEvent)
    (hrun : runSteps (aisStep cfg) (aisInit flash) evs = some s)
    (hstep : aisStep cfg s e = some s') (hact : Activated s s') :
    ∃ p size crc16, e = .msg p ∧ Activates cfg s p ∧ lastRequest s.log = some (size, crc16) ∧
      s.dfuCrc16.toNat = crc16 ∧ (received s.log).length ≤ size := by
  have hcount := counted_run hrun
  obtain ⟨p, heq, hp⟩ := activated_cases hstep hact
  refine ⟨p, s.ota.imageSize, s.ota.imageCrc16, heq, hp, hcount.request hp.state, hp.crc, ?_⟩
  rw [← hcount.rxSize]
  exact hcount.rxSize_le

/-- A check request, as `plainCfg` decrypts it. -/
def checkPdu : AisPdu := [0, 0x25, 0, 16, 0x30] ++ List.replicate 15 0

/-- An image of one byte is received, checked and activated. -/
theorem only_checked_image_activated_one : ∃ s s',
    runSteps (aisStep plainCfg) (aisInit fun _ => 0xFF)
      [.connect, .msg (requestPdu 1 1 57840), .msg (dataFrame 0 0 [0])] = some s ∧
    aisStep plainCfg s (.msg checkPdu) = some s' ∧ s'.state = .reboot ∧
    ∃ size crc16, lastRequest s.log = some (size, crc16) ∧ s.dfuCrc16.toNat = crc16 := by
  obtain ⟨s, s', hrun, hstep, hs, hs'⟩ : ∃ s s',
      runSteps (aisStep plainCfg) (aisInit fun _ => 0xFF)
        [.connect, .msg (requestPdu 1 1 57840), .msg (dataFrame 0 0 [0])] = some s ∧
      aisStep plainCfg s (.msg checkPdu) = some s' ∧ s.state ≠ .reboot ∧ s'.state = .reboot :=
    ⟨_, _, rfl, rfl, by decide, by decide⟩
  obtain ⟨_, size, crc16, -, -, hlast, hcrc, -⟩ :=
    only_checked_image_activated plainCfg _ _ s s' _ hrun hstep (Or.inr ⟨hs', hs⟩)
  exact ⟨s, s', hrun, hstep, hs', size, crc16, hlast, hcrc⟩

/-- The same image is requested again and nothing of it is sent: the checksum is the one of the
first time. -/
theorem empty_image_activated : ¬ ∀ flash evs s s' e,
    runSteps (aisStep plainCfg) (aisInit flash) evs = some s → aisStep plainCfg s e = some s' →
    Activated s s' → ∃ size crc16, lastRequest s.log = some (size, crc16) ∧
      (received s.log).length = size ∧ s.dfuCrc16.toNat = crc16 := by
  intro h
  obtain ⟨s, s', hrun, hstep, hs, hs', hlast, hlog⟩ : ∃ s s',
      runSteps (aisStep plainCfg) (aisInit fun _ => 0xFF)
        [.connect, .msg (requestPdu 1 1 57840), .msg (dataFrame 0 0 [0]),
          .msg (requestPdu 1 1 57840)] = some s ∧
      aisStep plainCfg s (.msg checkPdu) = some s' ∧ s.state ≠ .reboot ∧ s'.state = .reboot ∧
      lastRequest s.log = some (1, 57840) ∧ received s.log = [] :=
    ⟨_, _, rfl, rfl, by decide, by decide, by decide, by decide⟩
  obtain ⟨size, crc16, hlast', hlen, -⟩ := h _ _ s s' _ hrun hstep (Or.inr ⟨hs', hs⟩)
  rw [hlast] at hlast'
  cases hlast'
  rw [hlog] at hlen
  cases hlen

end Activation

end GenieSdk.Analysis.Ota
