import GenieSdk.Model.Ais

/-!
# Receiving an image

`aisStep_cases` says what one event can do to the reception of an image: start it, add a frame to
it, give it up, activate the image or restart the device. Bounds of `recv_buf`, the contents of the
partition and the conditions of an activation follow from it over whole runs.
-/

set_option autoImplicit false

namespace GenieSdk.Analysis.Ota

open GenieSdk.Model
open GenieSdk.Lib

section Steps

variable {cfg : AisCfg} {s s' s₁ s₂ s₃ : AisDev} {p : AisPdu}

/-- The two states agree on all that the reception of an image depends on. -/
structure SameOta (s s' : AisDev) : Prop where
  state : s'.state = s.state
  ota : s'.ota = s.ota
  recvBuf : s'.recvBuf = s.recvBuf
  flash : s'.flash = s.flash
  dfuCrc16 : s'.dfuCrc16 = s.dfuCrc16
  log : s'.log = s.log
  copyEnd : s'.copyEnd = s.copyEnd

/-- Nothing is done. -/
theorem SameOta.refl (s : AisDev) : SameOta s s := ⟨rfl, rfl, rfl, rfl, rfl, rfl, rfl⟩

/-- Two steps that leave the transfer. -/
theorem SameOta.trans (h : SameOta s₁ s₂) (h' : SameOta s₂ s₃) : SameOta s₁ s₃ where
  state := h'.state.trans h.state
  ota := h'.ota.trans h.ota
  recvBuf := h'.recvBuf.trans h.recvBuf
  flash := h'.flash.trans h.flash
  dfuCrc16 := h'.dfuCrc16.trans h.dfuCrc16
  log := h'.log.trans h.log
  copyEnd := h'.copyEnd.trans h.copyEnd

/-- Sending an answer leaves the transfer. -/
theorem send_same (s : AisDev) (msgId : ℕ) (o : AisOut) : SameOta s (s.send msgId o) := by
  unfold AisDev.send
  split
  · exact ⟨rfl, rfl, rfl, rfl, rfl, rfl, rfl⟩
  · exact SameOta.refl _

/-- So does an update of the state. -/
theorem stateUpdate_same (s : AisDev) : SameOta s (genieAisStateUpdate s) := by
  unfold genieAisStateUpdate
  split
  · exact SameOta.refl _
  · split
    all_goals exact ⟨rfl, rfl, rfl, rfl, rfl, rfl, rfl⟩

/-- The reception goes on as it is: errors are counted, or the state is left. -/
structure Quiet (s s' : AisDev) : Prop where
  exceptSeq : s'.ota.exceptSeq = s.ota.exceptSeq
  rxSize : s'.ota.rxSize = s.ota.rxSize
  rxLen : s'.ota.rxLen = s.ota.rxLen
  imageSize : s'.ota.imageSize = s.ota.imageSize
  imageCrc16 : s'.ota.imageCrc16 = s.ota.imageCrc16
  otaReady : s'.ota.otaReady = s.ota.otaReady
  recvBuf : s'.recvBuf = s.recvBuf
  log : s'.log = s.log
  copyEnd : s'.copyEnd = s.copyEnd
  inOta : s'.state = .ota → s.state = .ota ∧ s'.flash = s.flash
  inReboot : s'.state = .reboot → s.state = .reboot

/-- A step that leaves the transfer is a quiet one. -/
theorem SameOta.quiet (h : SameOta s s') : Quiet s s' where
  exceptSeq := by rw [h.ota]
  rxSize := by rw [h.ota]
  rxLen := by rw [h.ota]
  imageSize := by rw [h.ota]
  imageCrc16 := by rw [h.ota]
  otaReady := by rw [h.ota]
  recvBuf := h.recvBuf
  log := h.log
  copyEnd := h.copyEnd
  inOta := fun hs => ⟨h.state.symm.trans hs, h.flash⟩
  inReboot := fun hs => h.state.symm.trans hs

/-- Two quiet steps. -/
theorem Quiet.trans (h : Quiet s₁ s₂) (h' : Quiet s₂ s₃) : Quiet s₁ s₃ where
  exceptSeq := h'.exceptSeq.trans h.exceptSeq
  rxSize := h'.rxSize.trans h.rxSize
  rxLen := h'.rxLen.trans h.rxLen
  imageSize := h'.imageSize.trans h.imageSize
  imageCrc16 := h'.imageCrc16.trans h.imageCrc16
  otaReady := h'.otaReady.trans h.otaReady
  recvBuf := h'.recvBuf.trans h.recvBuf
  log := h'.log.trans h.log
  copyEnd := h'.copyEnd.trans h.copyEnd
  inOta := fun hs => ⟨(h.inOta (h'.inOta hs).1).1, (h'.inOta hs).2.trans (h.inOta (h'.inOta hs).1).2⟩
  inReboot := fun hs => h.inReboot (h'.inReboot hs)

/-- The state becomes one that is neither `AIS_STATE_OTA` nor `AIS_STATE_REBOOT`. -/
theorem quiet_leave {st : AisState} (hota : st ≠ .ota) (hreboot : st ≠ .reboot)
    (h : s' = { s with
      state := st, conn := s'.conn, stateTimer := s'.stateTimer, bleKey := s'.bleKey }) :
    Quiet s s' := by
  rw [h]
  exact ⟨rfl, rfl, rfl, rfl, rfl, rfl, rfl, rfl, rfl, fun hs => absurd hs hota,
    fun hs => absurd hs hreboot⟩

/-- The state after an accepted update request. -/
def requested (cfg : AisCfg) (s : AisDev) (r : OtaUpdReq) : AisDev :=
  { s with
    state := .ota
    ota := { OtaCtx.zero with
      imageType := r.imageType, imageVer := r.ver, imageSize := r.fwSize, imageCrc16 := r.crc16
      otaFlag := r.otaFlag }
    recvBuf := writeBytes s.recvBuf 0 (List.replicate cfg.otaRecvBufSize 0)
    log := s.log ++ [OtaEvent.request r.fwSize r.crc16] }

/-- A data frame that the handler passes on. -/
structure DataPdu (p : AisPdu) : Prop where
  cmd : p.cmd = 0x2f
  length : p.length = 4 + p.payloadLen
  ver : p.ver = 0

/-- The frame is the next one and the image has room for it. -/
structure Accepts (s : AisDev) (p : AisPdu) : Prop where
  seq_le : p.seq ≤ p.totalFrame
  seq_eq : p.seq = s.ota.exceptSeq
  room : (s.ota.rxSize + p.payloadLen) % 2 ^ 32 ≤ s.ota.imageSize

instance (p : AisPdu) : Decidable (DataPdu p) :=
  decidable_of_iff (p.cmd = 0x2f ∧ p.length = 4 + p.payloadLen ∧ p.ver = 0)
    ⟨fun h => ⟨h.1, h.2.1, h.2.2⟩, fun h => ⟨h.1, h.2, h.3⟩⟩

instance (s : AisDev) (p : AisPdu) : Decidable (Accepts s p) :=
  decidable_of_iff (p.seq ≤ p.totalFrame ∧ p.seq = s.ota.exceptSeq ∧
      (s.ota.rxSize + p.payloadLen) % 2 ^ 32 ≤ s.ota.imageSize)
    ⟨fun h => ⟨h.1, h.2.1, h.2.2⟩, fun h => ⟨h.1, h.2, h.3⟩⟩

/-- A check request that activates the image. -/
structure Activates (cfg : AisCfg) (s : AisDev) (p : AisPdu) : Prop where
  cmd : p.cmd = 0x25
  state : s.state = .ota
  request : ∃ req, aisDecrypt cfg s p.payload = some req ∧ AisPdu.byte req 0 = 1
  crc : s.dfuCrc16.toNat = s.ota.imageCrc16

/-- What an event does to the reception of an image. -/
inductive OtaStep (cfg : AisCfg) (s : AisDev) (e : AisEvent) (s' : AisDev) : Prop
  | quiet (h : Quiet s s')
  | request (r : OtaUpdReq) (hlegal : r.legal cfg = true) (h : SameOta (requested cfg s r) s')
  | data (p : AisPdu) (he : e = .msg p) (hp : DataPdu p) (hacc : Accepts s p)
    (h : SameOta (otaFlush (otaStore cfg s p) p) s')
  | giveUp (hs : s.state = .ota) (hstate : s'.state = .idle)
    (h : Quiet { s with state := .idle, ota := { s.ota with rxLen := 0 } } s')
  | activate (p : AisPdu) (he : e = .msg p) (hact : Activates cfg s p)
    (h : SameOta { s with state := .reboot, ota := { s.ota with otaReady := true } } s')
  | restart (flash : Mem) (h : SameOta (aisInit flash) s')

/-- An update request is accepted, or nothing happens. -/
theorem updateRequest_step {e : AisEvent} {msgId : ℕ} {r : OtaUpdReq} {b : Bool}
    (hc : genieOtaHandleUpdateRequest cfg s msgId r = (b, s')) : OtaStep cfg s e s' := by
  unfold genieOtaHandleUpdateRequest at hc
  split at hc
  case isTrue hlegal =>
    cases hc
    exact .request r hlegal (send_same (requested cfg s r) _ _)
  case isFalse =>
    cases hc
    exact .quiet (send_same s _ _).quiet

/-- A frame is accepted, or only errors are counted. -/
theorem parsePdu_step {b : Bool} (hp : DataPdu p) (hc : genieOtaParsePdu cfg s p = (b, s')) :
    OtaStep cfg s (.msg p) s' := by
  unfold genieOtaParsePdu at hc
  split at hc
  case isTrue =>
    cases hc
    exact .quiet (SameOta.refl _).quiet
  case isFalse hle =>
    split at hc
    case isTrue =>
      have hcount : Quiet s { s with ota := { s.ota with
          errCount := (s.ota.errCount + 1) % 2 ^ 8 } } :=
        ⟨rfl, rfl, rfl, rfl, rfl, rfl, rfl, rfl, rfl, fun hs => ⟨hs, rfl⟩, id⟩
      simp only at hc
      split at hc
      case isTrue =>
        cases hc
        exact .quiet (hcount.trans (send_same _ _ _).quiet)
      case isFalse =>
        cases hc
        exact .quiet hcount
    case isFalse heq =>
      split at hc
      case isTrue =>
        cases hc
        exact .quiet (SameOta.refl _).quiet
      case isFalse hroom =>
        cases hc
        exact .data p rfl hp ⟨not_lt.1 hle, not_not.1 heq, not_lt.1 hroom⟩ (SameOta.refl _)

/-- The checksum is right and the image is activated, or the state is left. -/
theorem checkFirmware_step {msgId : ℕ} {req : List UInt8} {b : Bool} (hcmd : p.cmd = 0x25)
    (hstate : s.state = .ota) (hreq : aisDecrypt cfg s p.payload = some req)
    (hc : genieOtaCheckFirmware s msgId req = (b, s')) : OtaStep cfg s (.msg p) s' := by
  have hidle : Quiet s { s with state := .idle } := quiet_leave (by simp) (by simp) rfl
  unfold genieOtaCheckFirmware at hc
  simp only at hc
  split at hc
  case isTrue hone =>
    split at hc
    case isTrue hcrc =>
      cases hc
      exact .activate p rfl ⟨hcmd, hstate, ⟨req, hreq, hone⟩, hcrc⟩ (send_same _ _ _)
    case isFalse =>
      cases hc
      exact .quiet (hidle.trans (send_same _ _ _).quiet)
  case isFalse =>
    cases hc
    exact .quiet hidle

/-- What follows a command does not concern the reception. -/
theorem OtaStep.same {e : AisEvent} (h : OtaStep cfg s e s₁) (hsame : SameOta s₁ s') :
    OtaStep cfg s e s' := by
  cases h with
  | quiet h => exact .quiet (h.trans hsame.quiet)
  | request r hlegal h => exact .request r hlegal (h.trans hsame)
  | data p he hp hacc h => exact .data p he hp hacc (h.trans hsame)
  | giveUp hs hstate h => exact .giveUp hs (hsame.state.trans hstate) (h.trans hsame.quiet)
  | activate p he hact h => exact .activate p he hact (h.trans hsame)
  | restart flash h => exact .restart flash (h.trans hsame)

/-- Nothing happens. -/
theorem otaStep_refl (cfg : AisCfg) (s : AisDev) (e : AisEvent) : OtaStep cfg s e s :=
  .quiet (SameOta.refl s).quiet

/-- A command takes a step of the transfer. -/
theorem aisServerCmd_step {b : Bool} (hc : aisServerCmd cfg s p = some (b, s')) :
    OtaStep cfg s (.msg p) s' := by
  unfold aisServerCmd at hc
  split at hc
  case isTrue =>
    have hc := Option.some.inj hc
    split at hc
    case isTrue =>
      cases hc
      exact .quiet ((quiet_leave (by simp) (by simp) rfl).trans (send_same _ _ _).quiet)
    case isFalse =>
      cases hc
      exact otaStep_refl cfg s _
  case isFalse =>
  split at hc
  case isTrue =>
    have hc := Option.some.inj hc
    split at hc
    case isTrue =>
      unfold aisScrtResult at hc
      cases hc
      apply OtaStep.same _ (send_same _ _ _)
      split
      · exact .quiet (quiet_leave (by simp) (by simp) rfl)
      · exact .quiet (quiet_leave (by simp) (by simp) rfl)
    case isFalse =>
      cases hc
      exact otaStep_refl cfg s _
  case isFalse =>
  split at hc
  case isTrue =>
    have hc := Option.some.inj hc
    split at hc
    case isTrue =>
      split at hc
      case h_1 =>
        cases hc
        exact otaStep_refl cfg s _
      case h_2 =>
        unfold aisLinkAck at hc
        cases hc
        apply OtaStep.same _ (send_same _ _ _)
        split
        · exact .quiet (quiet_leave (by simp) (by simp) rfl)
        · exact otaStep_refl cfg s _
    case isFalse =>
      cases hc
      exact otaStep_refl cfg s _
  case isFalse =>
  split at hc
  case isTrue =>
    have hver : ∀ req, genieOtaHandleVersionRequest cfg s p.msgId req = (b, s') →
        OtaStep cfg s (.msg p) s' := by
      intro req hc
      unfold genieOtaHandleVersionRequest at hc
      split at hc
      case isTrue =>
        cases hc
        exact .quiet (send_same s _ _).quiet
      case isFalse =>
        cases hc
        exact otaStep_refl cfg s _
    have hc := Option.some.inj hc
    split at hc
    case isTrue =>
      split at hc
      case h_1 =>
        cases hc
        exact otaStep_refl cfg s _
      case h_2 => exact hver _ hc
    case isFalse =>
      split at hc
      case isTrue => exact hver _ hc
      case isFalse =>
        cases hc
        exact otaStep_refl cfg s _
  case isFalse =>
  split at hc
  case isTrue =>
    have hc := Option.some.inj hc
    split at hc
    case isTrue =>
      split at hc
      case h_1 =>
        cases hc
        exact otaStep_refl cfg s _
      case h_2 => exact updateRequest_step hc
    case isFalse =>
      split at hc
      case isTrue => exact updateRequest_step hc
      case isFalse =>
        cases hc
        exact otaStep_refl cfg s _
  case isFalse =>
  split at hc
  case isTrue hcmd =>
    have hc := Option.some.inj hc
    split at hc
    case isTrue hlen => exact parsePdu_step ⟨hcmd, hlen.1, hlen.2⟩ hc
    case isFalse =>
      cases hc
      exact otaStep_refl cfg s _
  case isFalse =>
  split at hc
  case isTrue hcmd =>
    have hc := Option.some.inj hc
    split at hc
    case isTrue hlen =>
      split at hc
      case h_1 =>
        cases hc
        exact otaStep_refl cfg s _
      case h_2 req hreq => exact checkFirmware_step hcmd hlen.2 hreq hc
    case isFalse =>
      cases hc
      exact otaStep_refl cfg s _
  case isFalse => cases hc

/-- So does a message. -/
theorem aisServerMsgHandle_step : OtaStep cfg s (.msg p) (aisServerMsgHandle cfg s p) := by
  unfold aisServerMsgHandle
  split
  case h_1 => exact otaStep_refl cfg s _
  case h_2 s₁ hc => exact (aisServerCmd_step hc).same (stateUpdate_same s₁)
  case h_3 s₁ hc =>
    split
    · exact (aisServerCmd_step hc).same (send_same _ _ _)
    · exact aisServerCmd_step hc

/-- So does a disconnection. -/
theorem genieAisDisconnect_step {e : AisEvent} (allowReboot : Bool) :
    OtaStep cfg s e (genieAisDisconnect s allowReboot) := by
  unfold genieAisDisconnect
  split
  case isTrue =>
    simp only
    split
    · -- the flash may be erased, but the state is left
      exact .quiet ⟨rfl, rfl, rfl, rfl, rfl, rfl, rfl, rfl, rfl, fun hs => (by cases hs),
        fun hs => (by cases hs)⟩
    · exact .quiet (quiet_leave (by simp) (by simp) rfl)
  case isFalse =>
    split
    · exact .restart s.flash (SameOta.refl _)
    · exact otaStep_refl cfg s _

/-- So does the timer of the state. -/
theorem stateUpdateTimerCb_step {e : AisEvent} :
    OtaStep cfg s e (stateUpdateTimerCb { s with stateTimer := false }) := by
  unfold stateUpdateTimerCb
  split
  case h_1 =>
    exact .quiet ((quiet_leave (by simp) (by simp) rfl).trans (stateUpdate_same _).quiet)
  case h_2 =>
    exact .quiet ((quiet_leave (by simp) (by simp) rfl).trans (stateUpdate_same _).quiet)
  case h_3 =>
    exact .quiet ((quiet_leave (by simp) (by simp) rfl).trans (stateUpdate_same _).quiet)
  case h_4 hs =>
    have hcount : Quiet s { s with
        stateTimer := false
        ota := { s.ota with errCount := (s.ota.errCount + 1) % 2 ^ 8 } } :=
      ⟨rfl, rfl, rfl, rfl, rfl, rfl, rfl, rfl, rfl, fun hs => ⟨hs, rfl⟩, id⟩
    simp only
    split
    · refine OtaStep.same (.giveUp hs ?_ ?_) (stateUpdate_same _)
      · exact (send_same _ _ _).state
      · refine Quiet.trans ?_ (send_same _ _ _).quiet
        exact ⟨rfl, rfl, rfl, rfl, rfl, rfl, rfl, rfl, rfl, fun hs => (by cases hs),
          fun hs => (by cases hs)⟩
    · exact .quiet ((hcount.trans (send_same _ _ _).quiet).trans (stateUpdate_same _).quiet)
  case h_5 => exact .restart s.flash (SameOta.refl _)
  case h_6 =>
    have hstop : SameOta s { s with stateTimer := false } := ⟨rfl, rfl, rfl, rfl, rfl, rfl, rfl⟩
    exact .quiet (hstop.trans (stateUpdate_same _)).quiet

/-- **What one event can do** to the reception of an image. -/
theorem aisStep_cases {e : AisEvent} (hc : aisStep cfg s e = some s') : OtaStep cfg s e s' := by
  cases e with
  | connect =>
    cases hc
    unfold genieAisConnect
    split
    · exact .quiet ((quiet_leave (by simp) (by simp) rfl).trans (stateUpdate_same _).quiet)
    · exact otaStep_refl cfg s _
  | disconnect allowReboot =>
    cases hc
    exact genieAisDisconnect_step allowReboot
  | msg p =>
    cases hc
    split
    · exact aisServerMsgHandle_step
    · exact otaStep_refl cfg s _
  | stateTimer =>
    simp only [aisStep] at hc
    split at hc
    · cases hc
      exact stateUpdateTimerCb_step
    · cases hc
  | discTimer =>
    simp only [aisStep] at hc
    split at hc
    · cases hc
      exact .quiet ⟨rfl, rfl, rfl, rfl, rfl, rfl, rfl, rfl, rfl, fun hs => ⟨hs, rfl⟩, id⟩
    · cases hc

end Steps

section Frames

variable {cfg : AisCfg} {s s' : AisDev} {p : AisPdu}

/-- A message has at most sixteen frames. -/
theorem totalFrame_lt (p : AisPdu) : p.totalFrame < 16 := by
  unfold AisPdu.totalFrame AisPdu.byte
  have := (p.getD 2 0).toNat_lt
  omega

/-- A payload has at most 255 bytes. -/
theorem payloadLen_lt (p : AisPdu) : p.payloadLen < 256 := (p.getD 3 0).toNat_lt

/-- The payload of a data message is as long as it says. -/
theorem DataPdu.length_payload (hp : DataPdu p) : p.payload.length = p.payloadLen := by
  unfold AisPdu.payload
  rw [List.length_drop, hp.length]
  omega

/-- Where the copy of an accepted frame begins. -/
def batchStart (s : AisDev) (p : AisPdu) : ℕ := if p.seq = 0 then 0 else s.ota.rxLen

/-- What `otaStore` does to the fields. -/
theorem otaStore_spec (cfg : AisCfg) (s : AisDev) (hp : DataPdu p) :
    (otaStore cfg s p).ota.rxLen % 2 ^ 16 = (batchStart s p + p.payloadLen) % 2 ^ 16 ∧
      (otaStore cfg s p).ota.rxLen ≤ batchStart s p + p.payloadLen ∧
      (otaStore cfg s p).ota.rxSize = (s.ota.rxSize + p.payloadLen) % 2 ^ 32 ∧
      (otaStore cfg s p).copyEnd =
        (if p.payloadLen = 0 then s.copyEnd else max s.copyEnd (batchStart s p + p.payloadLen)) ∧
      (otaStore cfg s p).recvBuf = writeBytes
        (if p.seq = 0 then writeBytes s.recvBuf 0 (List.replicate cfg.otaRecvBufSize 0)
          else s.recvBuf) (batchStart s p) p.payload := by
  have hlen := hp.length_payload
  unfold otaStore batchStart
  by_cases hseq : p.seq = 0
  · by_cases hpay : p.payloadLen = 0
    · have hnil : p.payload = [] := List.length_eq_zero_iff.1 (hlen.trans hpay)
      simp [hseq, hpay, hnil]
    · simp only [hseq, hpay, if_true, if_false, ne_eq, not_false_iff]
      refine ⟨?_, Nat.mod_le _ _, trivial, trivial, trivial⟩
      omega
  · by_cases hpay : p.payloadLen = 0
    · have hnil : p.payload = [] := List.length_eq_zero_iff.1 (hlen.trans hpay)
      simp [hseq, hpay, hnil]
    · simp only [hseq, hpay, if_true, if_false, ne_eq, not_false_iff]
      refine ⟨?_, Nat.mod_le _ _, trivial, trivial, trivial⟩
      omega

/-- What `otaStore` leaves alone. -/
theorem otaStore_frame (cfg : AisCfg) (s : AisDev) (p : AisPdu) :
    (otaStore cfg s p).state = s.state ∧ (otaStore cfg s p).flash = s.flash ∧
      (otaStore cfg s p).ota.imageSize = s.ota.imageSize ∧
      (otaStore cfg s p).ota.imageCrc16 = s.ota.imageCrc16 ∧
      (otaStore cfg s p).ota.otaReady = s.ota.otaReady ∧
      (otaStore cfg s p).log = s.log ++ [.data p.payload] := by
  unfold otaStore
  by_cases hseq : p.seq = 0
  · by_cases hpay : p.payloadLen = 0
    · simp [hseq, hpay]
    · simp [hseq, hpay]
  · by_cases hpay : p.payloadLen = 0
    · simp [hseq, hpay]
    · simp [hseq, hpay]

/-- What `ali_dfu_image_update` leaves alone. -/
theorem imageUpdate_frame (s : AisDev) (offset : ℕ) (buf : List UInt8) :
    (aliDfuImageUpdate s offset buf).state = s.state ∧
      (aliDfuImageUpdate s offset buf).ota = s.ota ∧
      (aliDfuImageUpdate s offset buf).recvBuf = s.recvBuf ∧
      (aliDfuImageUpdate s offset buf).log = s.log ∧
      (aliDfuImageUpdate s offset buf).copyEnd = s.copyEnd := by
  unfold aliDfuImageUpdate
  simp only
  split
  · simp
  · simp

/-- A batch goes to flash, or another frame of it is expected. -/
theorem otaFlush_cases (s : AisDev) (p : AisPdu) :
    (p.seq = p.totalFrame ∧ SameOta { aliDfuImageUpdate s (s.ota.rxSize - s.ota.rxLen)
        (readBytes s.recvBuf 0 s.ota.rxLen) with
          ota := { s.ota with rxLen := 0, exceptSeq := 0 } } (otaFlush s p)) ∨
      (p.seq ≠ p.totalFrame ∧
        SameOta { s with ota := { s.ota with exceptSeq := p.seq + 1 } } (otaFlush s p)) := by
  unfold otaFlush
  by_cases hlast : p.seq = p.totalFrame
  · left
    refine ⟨hlast, ?_⟩
    obtain ⟨-, hota, -⟩ := imageUpdate_frame s (s.ota.rxSize - s.ota.rxLen)
      (readBytes s.recvBuf 0 s.ota.rxLen)
    simp only [hlast, if_true, or_true]
    rw [hota]
    exact send_same _ _ _
  · right
    refine ⟨hlast, ?_⟩
    simp only [hlast, if_false, or_false]
    split
    · exact send_same _ _ _
    · exact SameOta.refl _

/-- What `otaFlush` leaves alone. -/
theorem otaFlush_frame (s : AisDev) (p : AisPdu) :
    (otaFlush s p).state = s.state ∧ (otaFlush s p).ota.otaReady = s.ota.otaReady ∧
      (otaFlush s p).log = s.log ∧ (otaFlush s p).copyEnd = s.copyEnd := by
  obtain ⟨-, h⟩ | ⟨-, h⟩ := otaFlush_cases s p
  · obtain ⟨hstate, -, -, hlog, hcopy⟩ := imageUpdate_frame s (s.ota.rxSize - s.ota.rxLen)
      (readBytes s.recvBuf 0 s.ota.rxLen)
    rw [h.state, h.ota, h.log, h.copyEnd]
    exact ⟨hstate, rfl, hlog, hcopy⟩
  · rw [h.state, h.ota, h.log, h.copyEnd]
    exact ⟨rfl, rfl, rfl, rfl⟩

/-- An accepted frame is stored. -/
theorem aisStep_data {p : AisPdu} (hp : DataPdu p) (hacc : Accepts s p) :
    ∃ s', aisStep cfg s (.msg p) = some s' ∧ SameOta (otaFlush (otaStore cfg s p) p) s' := by
  have hlen : p.length ≠ 0 := by
    rw [hp.length]
    omega
  have hparse : genieOtaParsePdu cfg s p = (true, otaFlush (otaStore cfg s p) p) := by
    unfold genieOtaParsePdu
    rw [if_neg (not_lt.2 hacc.seq_le), if_neg (not_not.2 hacc.seq_eq), if_neg (not_lt.2 hacc.room)]
  have hcmd : aisServerCmd cfg s p = some (true, otaFlush (otaStore cfg s p) p) := by
    unfold aisServerCmd
    simp [hp.cmd, hp.ver, hp.length, hparse]
  refine ⟨_, rfl, ?_⟩
  rw [if_pos hlen]
  unfold aisServerMsgHandle
  rw [hcmd]
  exact stateUpdate_same _

/-- A frame that is not accepted changes only the count of errors. -/
theorem aisStep_rejected (hcmd : p.cmd = 0x2f) (hrej : ¬ (DataPdu p ∧ Accepts s p))
    (hc : aisStep cfg s (.msg p) = some s') :
    ∃ n, SameOta { s with ota := { s.ota with errCount := n } } s' := by
  have hrefl : ∃ n, SameOta { s with ota := { s.ota with errCount := n } } s :=
    ⟨s.ota.errCount, SameOta.refl s⟩
  have hparse : DataPdu p →
      ∃ n, SameOta { s with ota := { s.ota with errCount := n } } (genieOtaParsePdu cfg s p).2 := by
    intro hp
    unfold genieOtaParsePdu
    split
    case isTrue => exact hrefl
    case isFalse hle =>
      split
      case isTrue =>
        refine ⟨(s.ota.errCount + 1) % 2 ^ 8, ?_⟩
        simp only
        split
        · exact send_same _ _ _
        · exact SameOta.refl _
      case isFalse heq =>
        split
        case isTrue => exact hrefl
        case isFalse hroom =>
          exact absurd ⟨hp, not_lt.1 hle, not_not.1 heq, not_lt.1 hroom⟩ hrej
  have hcases : ∃ b s₁, aisServerCmd cfg s p = some (b, s₁) ∧
      ∃ n, SameOta { s with ota := { s.ota with errCount := n } } s₁ := by
    unfold aisServerCmd
    simp only [hcmd, Nat.reduceEqDiff, if_false, if_true]
    split
    case isTrue hlen => exact ⟨_, _, rfl, hparse ⟨hcmd, hlen.1, hlen.2⟩⟩
    case isFalse => exact ⟨_, _, rfl, hrefl⟩
  obtain ⟨b, s₁, hserver, n, hn⟩ := hcases
  have hc := Option.some.inj hc
  split at hc
  case isTrue =>
    rw [← hc]
    unfold aisServerMsgHandle
    rw [hserver]
    cases b with
    | true => exact ⟨n, hn.trans (stateUpdate_same _)⟩
    | false =>
      simp only
      split
      · exact ⟨n, hn.trans (send_same _ _ _)⟩
      · exact ⟨n, hn⟩
  case isFalse =>
    rw [← hc]
    exact hrefl

end Frames

section Bounds

variable {cfg : AisCfg} {s s' : AisDev} {F L : ℕ}

/-- `rx_len` and the copies stay inside `recv_buf`. -/
def InBounds (cfg : AisCfg) (s : AisDev) : Prop :=
  s.ota.rxLen ≤ cfg.otaRecvBufSize ∧ s.copyEnd ≤ cfg.otaRecvBufSize

/-- The data frames that are passed on have at most `L` bytes and belong to batches of at most
`F + 1` frames. -/
def Within (F L : ℕ) : AisEvent → Prop
  | .msg p => DataPdu p → p.totalFrame ≤ F ∧ p.payloadLen ≤ L
  | _ => True

/-- At most `L` bytes for each frame of the batch. -/
structure Batch (F L : ℕ) (s : AisDev) : Prop where
  seq : s.ota.exceptSeq ≤ F
  len : s.ota.rxLen ≤ s.ota.exceptSeq * L
  copy : s.copyEnd ≤ (F + 1) * L

/-- The frames received so far stay when the transfer does. -/
theorem Batch.same (h : Batch F L s) (hsame : SameOta s s') : Batch F L s' where
  seq := by
    rw [hsame.ota]
    exact h.seq
  len := by
    rw [hsame.ota]
    exact h.len
  copy := by
    rw [hsame.copyEnd]
    exact h.copy

/-- **Every event** keeps the batch in its bounds. -/
theorem Batch.step {e : AisEvent} (h : Batch F L s) (he : Within F L e)
    (hc : aisStep cfg s e = some s') : Batch F L s' := by
  cases aisStep_cases hc with
  | quiet hq =>
    constructor
    · rw [hq.exceptSeq]
      exact h.seq
    · rw [hq.rxLen, hq.exceptSeq]
      exact h.len
    · rw [hq.copyEnd]
      exact h.copy
  | request r hlegal hsame =>
    have h₁ : Batch F L (requested cfg s r) := ⟨Nat.zero_le _, Nat.zero_le _, h.copy⟩
    exact h₁.same hsame
  | data p heq hp hacc hsame =>
    subst heq
    obtain ⟨hF, hL⟩ := he hp
    obtain ⟨-, hlen, -, hcopy, -⟩ := otaStore_spec cfg s hp
    have hstart : batchStart s p ≤ p.seq * L := by
      unfold batchStart
      split
      · exact Nat.zero_le _
      · rw [hacc.seq_eq]
        exact h.len
    have hend : batchStart s p + p.payloadLen ≤ (p.seq + 1) * L := by
      rw [Nat.add_mul, Nat.one_mul]
      omega
    have hmax : (p.seq + 1) * L ≤ (F + 1) * L :=
      Nat.mul_le_mul_right L (by have := hacc.seq_le; omega)
    have hcopy' : (otaStore cfg s p).copyEnd ≤ (F + 1) * L := by
      rw [hcopy]
      split
      · exact h.copy
      · exact max_le h.copy (hend.trans hmax)
    obtain ⟨-, hflush⟩ | ⟨hne, hflush⟩ := otaFlush_cases (otaStore cfg s p) p
    · refine Batch.same ?_ (hflush.trans hsame)
      refine ⟨Nat.zero_le _, Nat.zero_le _, ?_⟩
      rw [show _ = _ from (imageUpdate_frame _ _ _).2.2.2.2]
      exact hcopy'
    · refine Batch.same ?_ (hflush.trans hsame)
      refine ⟨?_, ?_, hcopy'⟩
      · have := hacc.seq_le
        show p.seq + 1 ≤ F
        omega
      · exact hlen.trans hend
  | giveUp hs hstate hq =>
    constructor
    · rw [hq.exceptSeq]
      exact h.seq
    · rw [hq.rxLen]
      exact Nat.zero_le _
    · rw [hq.copyEnd]
      exact h.copy
  | activate p heq hact hsame =>
    have h₁ : Batch F L { s with state := .reboot, ota := { s.ota with otaReady := true } } :=
      ⟨h.seq, h.len, h.copy⟩
    exact h₁.same hsame
  | restart flash hsame =>
    have h₁ : Batch F L (aisInit flash) := ⟨Nat.zero_le _, Nat.zero_le _, Nat.zero_le _⟩
    exact h₁.same hsame

/-- A data frame. -/
def dataFrame (seq totalFrame : ℕ) (payload : List UInt8) : AisPdu :=
  [0, 0x2f, UInt8.ofNat (seq + 16 * totalFrame), UInt8.ofNat payload.length] ++ payload

/-- The fields of a data frame. -/
theorem dataFrame_fields {seq totalFrame : ℕ} {payload : List UInt8} (hseq : seq < 16)
    (htotal : totalFrame < 16) (hlen : payload.length < 256) :
    DataPdu (dataFrame seq totalFrame payload) ∧ (dataFrame seq totalFrame payload).seq = seq ∧
      (dataFrame seq totalFrame payload).totalFrame = totalFrame ∧
      (dataFrame seq totalFrame payload).payloadLen = payload.length := by
  have hbyte : (UInt8.ofNat (seq + 16 * totalFrame)).toNat = seq + 16 * totalFrame :=
    UInt8.toNat_ofNat_of_lt' (show seq + 16 * totalFrame < 256 by omega)
  have hpay : (dataFrame seq totalFrame payload).payloadLen = payload.length :=
    UInt8.toNat_ofNat_of_lt' hlen
  refine ⟨⟨rfl, ?_, (by decide : (0 : UInt8).toNat / 32 = 0)⟩, ?_, ?_, hpay⟩
  · rw [hpay]
    simp [dataFrame]
    omega
  · show (UInt8.ofNat (seq + 16 * totalFrame)).toNat % 16 = seq
    omega
  · show (UInt8.ofNat (seq + 16 * totalFrame)).toNat / 16 = totalFrame
    omega

/-- The batch so far consists of full frames. -/
structure Full (L size n : ℕ) (s : AisDev) : Prop where
  seq : s.ota.exceptSeq = n
  len : s.ota.rxLen = n * L
  rxSize : s.ota.rxSize = n * L
  image : s.ota.imageSize = size

/-- The copy of the next frame begins where the last one ended. -/
theorem Full.start {size n : ℕ} {p : AisPdu} (h : Full L size n s) (hseq : p.seq = n) :
    batchStart s p = n * L := by
  unfold batchStart
  split
  case isTrue hzero => rw [← hseq, hzero, Nat.zero_mul]
  case isFalse => exact h.len

/-- One more full frame. -/
theorem Full.next {size n : ℕ} (h : Full L size n s) (hF : F < 16) (hL : L < 256) (hn : n < F)
    (hroom : (n + 1) * L ≤ size) (hsize : size < 2 ^ 32) :
    ∃ s', aisStep cfg s (.msg (dataFrame n F (List.replicate L 0))) = some s' ∧
      Full L size (n + 1) s' := by
  obtain ⟨hp, hseq, htotal, hlen⟩ := dataFrame_fields (by omega : n < 16) hF
    (by simpa using hL : (List.replicate L (0 : UInt8)).length < 256)
  rw [List.length_replicate] at hlen
  have hexpand : (n + 1) * L = n * L + L := by rw [Nat.add_mul, Nat.one_mul]
  have hsmall : (n + 1) * L < 2 ^ 16 := by
    calc (n + 1) * L ≤ 16 * 255 := Nat.mul_le_mul (by omega) (by omega)
      _ < 2 ^ 16 := by norm_num
  have hacc : Accepts s (dataFrame n F (List.replicate L 0)) := by
    refine ⟨by omega, by rw [hseq, h.seq], ?_⟩
    rw [h.rxSize, h.image, hlen]
    omega
  obtain ⟨s', hstep, hsame⟩ := @aisStep_data cfg s _ hp hacc
  obtain ⟨hmod, hle, hrx, -, -⟩ := otaStore_spec cfg s hp
  obtain ⟨-, -, himage, -, -, -⟩ := otaStore_frame cfg s (dataFrame n F (List.replicate L 0))
  rw [h.start hseq, hlen] at hmod hle
  rw [h.rxSize, hlen] at hrx
  refine ⟨s', hstep, ?_⟩
  obtain ⟨hlast, -⟩ | ⟨-, hflush⟩ := otaFlush_cases
    (otaStore cfg s (dataFrame n F (List.replicate L 0))) (dataFrame n F (List.replicate L 0))
  · omega
  · have hota := (hflush.trans hsame).ota
    constructor
    · rw [hota]
      show (dataFrame n F _).seq + 1 = n + 1
      rw [hseq]
    · rw [hota]
      show (otaStore cfg s _).ota.rxLen = _
      omega
    · rw [hota]
      show (otaStore cfg s _).ota.rxSize = _
      omega
    · rw [hota]
      exact himage.trans h.image

/-- A run of full frames. -/
theorem Full.run {size : ℕ} (hF : F < 16) (hL : L < 256) (hsize : size < 2 ^ 32) (k : ℕ) :
    ∀ n s, Full L size n s → n + k ≤ F → (n + k) * L ≤ size →
      ∃ evs s', (∀ e ∈ evs, Within F L e) ∧ runSteps (aisStep cfg) s evs = some s' ∧
        Full L size (n + k) s' := by
  induction k with
  | zero =>
    intro n s h _ _
    exact ⟨[], s, by simp, rfl, h⟩
  | succ k ih =>
    intro n s h hn hroom
    have hone : (n + 1) * L ≤ size := (Nat.mul_le_mul_right L (by omega)).trans hroom
    obtain ⟨s₁, hstep, h₁⟩ := @Full.next cfg s F L size n h hF hL (by omega) hone hsize
    obtain ⟨evs, s', hwithin, hrun, h'⟩ := ih (n + 1) s₁ h₁ (by omega) (by
      rw [show n + 1 + k = n + (k + 1) by omega]
      exact hroom)
    refine ⟨.msg (dataFrame n F (List.replicate L 0)) :: evs, s', ?_, ?_, ?_⟩
    · intro e he
      obtain rfl | he := List.mem_cons.1 he
      · intro _
        obtain ⟨-, -, htotal, hlen⟩ := dataFrame_fields (by omega : n < 16) hF
          (by simpa using hL : (List.replicate L (0 : UInt8)).length < 256)
        rw [htotal, hlen, List.length_replicate]
        exact ⟨le_rfl, le_rfl⟩
      · exact hwithin e he
    · rw [runSteps, hstep]
      exact hrun
    · rw [show n + (k + 1) = n + 1 + k by omega]
      exact h'

/-- An update request for an image of the given size. -/
def requestPdu (ver size crc16 : ℕ) : AisPdu :=
  [0, 0x22, 0, 12, 0] ++ leBytes 4 ver ++ leBytes 4 size ++ leBytes 2 crc16 ++ [0]

/-- A request with a newer version and a size that fits is accepted. -/
theorem requestPdu_accepted {ver size crc16 : ℕ} (hver : cfg.appVer < ver) (hver' : ver < 2 ^ 32)
    (hpos : 0 < size) (hsize : size ≤ aliDfuGetOtaPartitionMaxSize) (hcrc : crc16 < 2 ^ 16) :
    ∃ s', aisStep cfg s (.msg (requestPdu ver size crc16)) = some s' ∧
      ∃ r, r.fwSize = size ∧ r.crc16 = crc16 ∧ SameOta (requested cfg s r) s' := by
  have hreq : otaUpdReq (requestPdu ver size crc16).payload = ⟨0, ver, size, crc16, 0⟩ := by
    have hsize' : size < 256 ^ 4 := hsize.trans_lt (by decide)
    unfold otaUpdReq
    congr 1
    · exact leVal_leBytes (w := 4) (by simpa using hver')
    · exact leVal_leBytes (w := 4) hsize'
    · exact leVal_leBytes (w := 2) (by simpa using hcrc)
  have hlegal : OtaUpdReq.legal cfg ⟨0, ver, size, crc16, 0⟩ = true := by
    unfold OtaUpdReq.legal
    simp
    omega
  have hcmd : aisServerCmd cfg s (requestPdu ver size crc16) =
      some (genieOtaHandleUpdateRequest cfg s 0 (otaUpdReq (requestPdu ver size crc16).payload)) :=
    rfl
  refine ⟨_, rfl, ⟨0, ver, size, crc16, 0⟩, rfl, rfl, ?_⟩
  rw [if_pos (by simp [requestPdu])]
  unfold aisServerMsgHandle
  rw [hcmd, hreq]
  unfold genieOtaHandleUpdateRequest
  rw [if_pos hlegal]
  exact (send_same (requested cfg s ⟨0, ver, size, crc16, 0⟩) _ _).trans (stateUpdate_same _)

/-- Without data frames there is nothing to bound. -/
theorem within_request (F L ver size crc16 : ℕ) : Within F L (.msg (requestPdu ver size crc16)) := by
  intro hp
  exact absurd hp.cmd (by simp [requestPdu, AisPdu.cmd, AisPdu.byte])

/-- Full frames, and one more that ends just behind `recv_buf`. -/
theorem exists_overrun (flash : Mem) (hF : F < 16) (hL : L < 256) (hver : cfg.appVer + 1 < 2 ^ 32)
    (hmax : cfg.otaRecvBufSize < aliDfuGetOtaPartitionMaxSize)
    (hover : cfg.otaRecvBufSize < (F + 1) * L) :
    ∃ evs s, (∀ e ∈ evs, Within F L e) ∧ runSteps (aisStep cfg) (aisInit flash) evs = some s ∧
      cfg.otaRecvBufSize < s.copyEnd := by
  have hpos : 0 < L := Nat.pos_of_ne_zero (by rintro rfl; simp at hover)
  have hmax' : aliDfuGetOtaPartitionMaxSize < 2 ^ 32 := by decide
  obtain ⟨k, r, hk, hr, hr', hkr⟩ : ∃ k r, k ≤ F ∧ 0 < r ∧ r ≤ L ∧
      k * L + r = cfg.otaRecvBufSize + 1 := by
    refine ⟨cfg.otaRecvBufSize / L, cfg.otaRecvBufSize % L + 1, ?_, Nat.succ_pos _,
      Nat.mod_lt _ hpos, ?_⟩
    · exact Nat.lt_succ_iff.1 ((Nat.div_lt_iff_lt_mul hpos).2 hover)
    · have := Nat.div_add_mod' cfg.otaRecvBufSize L
      omega
  obtain ⟨s₁, hstep₁, req, hfw, -, hsame₁⟩ := @requestPdu_accepted cfg (aisInit flash)
    (cfg.appVer + 1) aliDfuGetOtaPartitionMaxSize 0 (Nat.lt_succ_self _) hver (by decide) le_rfl
    (by decide)
  have hfull : Full L aliDfuGetOtaPartitionMaxSize 0 s₁ := by
    constructor
    · rw [hsame₁.ota]
      rfl
    · rw [hsame₁.ota, Nat.zero_mul]
      rfl
    · rw [hsame₁.ota, Nat.zero_mul]
      rfl
    · rw [hsame₁.ota]
      exact hfw
  obtain ⟨evs, s₂, hwithin, hrun, hfull₂⟩ := @Full.run cfg F L _ hF hL hmax' k 0 s₁ hfull
    (by omega) (by rw [Nat.zero_add]; omega)
  rw [Nat.zero_add] at hfull₂
  -- the last frame
  have hlenr : (List.replicate r (0 : UInt8)).length < 256 := by simp; omega
  obtain ⟨hp, hseq, htotal, hlen⟩ := dataFrame_fields (by omega : k < 16) hF hlenr
  rw [List.length_replicate] at hlen
  have hacc : Accepts s₂ (dataFrame k F (List.replicate r 0)) := by
    refine ⟨by omega, by rw [hseq, hfull₂.seq], ?_⟩
    rw [hfull₂.rxSize, hfull₂.image, hlen]
    omega
  obtain ⟨s₃, hstep₃, hsame₃⟩ := @aisStep_data cfg s₂ _ hp hacc
  have hcopy : s₃.copyEnd = (otaStore cfg s₂ (dataFrame k F (List.replicate r 0))).copyEnd :=
    hsame₃.copyEnd.trans (otaFlush_frame _ _).2.2.2
  refine ⟨.msg (requestPdu (cfg.appVer + 1) aliDfuGetOtaPartitionMaxSize 0) ::
    (evs ++ [.msg (dataFrame k F (List.replicate r 0))]), s₃, ?_, ?_, ?_⟩
  · intro e he
    obtain rfl | he := List.mem_cons.1 he
    · exact within_request F L _ _ _
    · obtain he | he := List.mem_append.1 he
      · exact hwithin e he
      · rw [List.mem_singleton.1 he]
        intro _
        rw [htotal, hlen]
        exact ⟨le_rfl, hr'⟩
  · rw [runSteps, hstep₁]
    show runSteps (aisStep cfg) s₁ (evs ++ _) = some s₃
    rw [runSteps_append, hrun]
    rw [Option.bind_some, runSteps, hstep₃]
    rfl
  · obtain ⟨-, -, -, hend, -⟩ := otaStore_spec cfg s₂ hp
    rw [hcopy, hend, hlen, hfull₂.start hseq, if_neg hr.ne']
    exact lt_of_lt_of_le (by omega) (le_max_right _ _)

/-- **`recv_buf` is large enough** for a peer that sends at most `F + 1` frames of at most `L` bytes
in a batch exactly if it can hold that many. -/
theorem recv_buf_bounded (cfg : AisCfg) (F L : ℕ) (hF : F ≤ 15) (hL : L ≤ 255)
    (hver : cfg.appVer + 1 < 2 ^ 32)
    (hmax : cfg.otaRecvBufSize < aliDfuGetOtaPartitionMaxSize) :
    (∀ flash evs s, (∀ e ∈ evs, Within F L e) →
        runSteps (aisStep cfg) (aisInit flash) evs = some s → InBounds cfg s) ↔
      (F + 1) * L ≤ cfg.otaRecvBufSize := by
  constructor
  · intro hbounds
    by_contra hover
    obtain ⟨evs, s, hwithin, hrun, hend⟩ := exists_overrun (fun _ => 0xFF) (by omega) (by omega)
      hver hmax (not_le.1 hover)
    exact absurd (hbounds _ evs s hwithin hrun).2 (not_le.2 hend)
  · intro hfit flash evs s hwithin hrun
    have hinit : Batch F L (aisInit flash) := ⟨Nat.zero_le _, Nat.zero_le _, Nat.zero_le _⟩
    have hbatch : Batch F L s := runSteps_inv (P := fun _ e => Within F L e)
      (fun _ _ _ h he hc => h.step he hc) hinit (stepsMeet_of_forall (fun e he _ => hwithin e he) _)
      hrun
    refine ⟨?_, hbatch.copy.trans hfit⟩
    calc s.ota.rxLen ≤ s.ota.exceptSeq * L := hbatch.len
      _ ≤ (F + 1) * L := Nat.mul_le_mul_right L (by have := hbatch.seq; omega)
      _ ≤ cfg.otaRecvBufSize := hfit

/-- A build with the default of 16 frames; nothing is encrypted. -/
def plainCfg : AisCfg where
  aisTotalFrame := 16
  appVer := 0
  triple := ⟨0, Vector.replicate 16 0, Vector.replicate 6 0⟩
  crypto := ⟨fun _ => [], fun _ data => data, fun _ data => some data⟩

/-- Frames of 128 bytes, as the response to an update request announces them, are safe. -/
theorem recv_buf_bounded_announced : (15 + 1) * 128 ≤ plainCfg.otaRecvBufSize ∧
    ∀ flash evs s, (∀ e ∈ evs, Within 15 128 e) →
      runSteps (aisStep plainCfg) (aisInit flash) evs = some s → InBounds plainCfg s :=
  ⟨by decide, (recv_buf_bounded plainCfg 15 128 (by decide) (by decide) (by decide) (by decide)).2
    (by decide)⟩

set_option maxRecDepth 8000 in
/-- Nine frames of 255 bytes do not fit. -/
theorem recv_buf_overrun : ¬ ∀ flash evs s,
    runSteps (aisStep plainCfg) (aisInit flash) evs = some s → InBounds plainCfg s := by
  intro h
  obtain ⟨s, hrun, hlen, hend⟩ : ∃ s, runSteps (aisStep plainCfg) (aisInit fun _ => 0xFF)
      (.connect :: .msg (requestPdu 1 4096 0) ::
        (List.range 9).map fun i => .msg (dataFrame i 15 (List.replicate 255 0))) = some s ∧
      s.ota.rxLen = 2295 ∧ s.copyEnd = 2295 := ⟨_, rfl, by decide, by decide⟩
  exact absurd (h _ _ s hrun).1 (by rw [hlen]; decide)

end Bounds

end GenieSdk.Analysis.Ota
