import GenieSdk.Lib.Runs
import GenieSdk.Model.GenieCrypto

/-!
# Firmware updates over the AIS service

`genie_ais.c` and `genie_ota.c`: a peer authenticates, announces an image, sends it in frames and has
it checked. Frames are collected in `recv_buf` and go to flash batch by batch; `ali_dfu_port.c`
keeps a checksum of what it wrote.

`recvBuf` is the memory from `recv_buf` on, so a copy that is too long is seen in it. `log` and
`copyEnd` are read by no function: what was accepted, and how far copies into `recv_buf` went.
-/

set_option autoImplicit false

namespace GenieSdk.Model

open GenieSdk.Lib

/-- `AIS_STATE_*` -/
inductive AisState
  | discon
  | connect
  | auth
  | idle
  | ota
  | reboot
  deriving DecidableEq, Repr

/-- The build's settings (`CONFIG_AIS_TOTAL_FRAME`, `PROJECT_SW_VERSION`), the device's triple and the
cryptographic functions. -/
structure AisCfg where
  aisTotalFrame : ℕ
  appVer : ℕ
  triple : GenieTriple
  crypto : Crypto

/-- `OTA_RECV_BUF_SIZE` -/
def AisCfg.otaRecvBufSize (cfg : AisCfg) : ℕ := cfg.aisTotalFrame * 128

/-- `OTA_RECV_MAX_ERR_COUNT` -/
def otaRecvMaxErrCount : ℕ := 10

/-- `OTA_FLAG_SILENT` -/
def otaFlagSilent : ℕ := 2

/-- The length of `HAL_PARTITION_OTA_TEMP`. SRCLINE: board_init.c:59-66 -/
def otaPartitionLength : ℕ := 0x39000

/-- Two sectors are reserved. SRCLINE: ali_dfu_port.c:174-191 -/
def aliDfuGetOtaPartitionMaxSize : ℕ := otaPartitionLength - 0x2000

/-- What a peer writes to the AIS characteristics. -/
abbrev AisPdu := List UInt8

namespace AisPdu

variable (p : AisPdu)

/-- The `i`-th byte as a number. -/
def byte (i : ℕ) : ℕ := (p.getD i 0).toNat

def msgId : ℕ := byte p 0 % 16

def ver : ℕ := byte p 0 / 32

def cmd : ℕ := byte p 1

def seq : ℕ := byte p 2 % 16

def totalFrame : ℕ := byte p 2 / 16

def payloadLen : ℕ := byte p 3

/-- The bytes behind the header. -/
def payload : List UInt8 := p.drop 4

end AisPdu

/-- `genie_ota_ctx_t` without `recv_buf` -/
structure OtaCtx where
  errCount : ℕ
  lastSeq : ℕ
  totalFrame : ℕ
  exceptSeq : ℕ
  rxSize : ℕ
  imageType : ℕ
  imageVer : ℕ
  imageSize : ℕ
  imageCrc16 : ℕ
  otaFlag : ℕ
  flashClean : Bool
  otaReady : Bool
  rxLen : ℕ
  deriving DecidableEq, Repr

/-- After `memset` -/
def OtaCtx.zero : OtaCtx := ⟨0, 0, 0, 0, 0, 0, 0, 0, 0, 0, false, false, 0⟩

/-- What is indicated or notified to the peer, before it is encrypted. -/
inductive AisOut
  | respErr
  | scrtCipher (cipher : List UInt8)
  | scrtAck
  | linkAck
  | otaVerResp (ver : ℕ)
  | otaUpdResp (state rxSize totalFrame : ℕ)
  | otaStatus (lastSeq totalFrame rxSize : ℕ)
  | otaCheckResp (state : ℕ)
  deriving DecidableEq, Repr

/-- An update request or a data frame was accepted. -/
inductive OtaEvent
  | request (size crc16 : ℕ)
  | data (payload : List UInt8)
  deriving DecidableEq, Repr

/-- The device. `conn` is `p_conn != NULL`, the timers are armed or not; `dfuCrc16` is the static
`image_crc16` of `ali_dfu_port.c`, and `flash` the OTA partition behind the reserved sectors. -/
structure AisDev where
  state : AisState
  conn : Bool
  stateTimer : Bool
  discTimer : Bool
  bleKey : List UInt8
  ota : OtaCtx
  recvBuf : Mem
  flash : Mem
  dfuCrc16 : UInt16
  sent : List (ℕ × AisOut)
  log : List OtaEvent
  copyEnd : ℕ

/-- One bit of the checksum. SRCLINE: crc16.c:76-81 -/
def crc16Bit (data : UInt8) (crc : UInt16) (j : ℕ) : UInt16 :=
  let b : UInt16 := ((data.toUInt16 <<< UInt16.ofNat j) &&& (0x80 : UInt16)) ^^^
    ((crc &&& (0x8000 : UInt16)) >>> (8 : UInt16))
  if b ≠ 0 then (crc <<< 1) ^^^ 0x1021 else crc <<< 1

/-- SRCLINE: crc16.c:62-86 -/
def utilCrc16Ccitt (data : List UInt8) (crc : UInt16) : UInt16 :=
  data.foldl (fun crc d => (List.range 8).foldl (crc16Bit d) crc) crc

/-- SRCLINE: ali_dfu_port.c:52-88 -/
def aliDfuImageUpdate (s : AisDev) (offset : ℕ) (buf : List UInt8) : AisDev :=
  let s := { s with
    dfuCrc16 := utilCrc16Ccitt buf (if offset = 0 then 0xFFFF else s.dfuCrc16) }
  if otaPartitionLength < offset + buf.length then s
  else { s with flash := writeBytes s.flash offset buf }

/-- Erased flash reads as ones; the first bytes say whether it is erased already.
SRCLINE: ali_dfu_port.c:129-172 -/
def eraseDfuFlash (flash : Mem) : Mem :=
  if readBytes flash 0 32 = List.replicate 32 0xFF then flash else fun _ => 0xFF

/-- After `genie_ota_pre_init`. SRCLINE: genie_ota.c:340-353, genie_ais.c:610-617 -/
def aisInit (flash : Mem) : AisDev where
  state := .discon
  conn := false
  stateTimer := false
  discTimer := false
  bleKey := List.replicate 32 0
  ota := OtaCtx.zero
  recvBuf := fun _ => 0
  flash := eraseDfuFlash flash
  dfuCrc16 := 0
  sent := []
  log := []
  copyEnd := 0

/-- The device restarts; of its state the flash is left. -/
def dfuReboot (s : AisDev) : AisDev := aisInit s.flash

/-- Something is indicated or notified, if a peer is connected. -/
def AisDev.send (s : AisDev) (msgId : ℕ) (o : AisOut) : AisDev :=
  if s.conn then { s with sent := s.sent ++ [(msgId, o)] } else s

/-- `genie_ais_reset` -/
def genieAisReset (s : AisDev) : AisDev := { s with bleKey := List.replicate 32 0 }

/-- SRCLINE: genie_ota.c:85-101 -/
def genieOtaStatusReport (s : AisDev) : AisDev :=
  s.send 0 (.otaStatus s.ota.lastSeq s.ota.totalFrame s.ota.rxSize)

/-- SRCLINE: genie_ota.c:103-130 -/
def genieOtaHandleVersionRequest (cfg : AisCfg) (s : AisDev) (msgId : ℕ) (req : List UInt8) :
    Bool × AisDev :=
  if AisPdu.byte req 0 = 0 then (true, s.send msgId (.otaVerResp cfg.appVer)) else (false, s)

/-- `ais_ota_upd_req_t` -/
structure OtaUpdReq where
  imageType : ℕ
  ver : ℕ
  fwSize : ℕ
  crc16 : ℕ
  otaFlag : ℕ
  deriving DecidableEq, Repr

/-- A packed little-endian structure. SRCLINE: genie_ota.h:71-78 -/
def otaUpdReq (p : List UInt8) : OtaUpdReq where
  imageType := AisPdu.byte p 0
  ver := leVal ((p.drop 1).take 4)
  fwSize := leVal ((p.drop 5).take 4)
  crc16 := leVal ((p.drop 9).take 2)
  otaFlag := AisPdu.byte p 11

/-- SRCLINE: genie_ota.c:142-143 -/
def OtaUpdReq.legal (cfg : AisCfg) (r : OtaUpdReq) : Bool :=
  !(r.imageType ≠ 0 ∨ r.ver ≤ cfg.appVer ∨ aliDfuGetOtaPartitionMaxSize < r.fwSize ∨ 0 = r.fwSize)

/-- SRCLINE: genie_ota.c:132-177 -/
def genieOtaHandleUpdateRequest (cfg : AisCfg) (s : AisDev) (msgId : ℕ) (r : OtaUpdReq) :
    Bool × AisDev :=
  if r.legal cfg then
    let s := { s with
      state := .ota
      ota := { OtaCtx.zero with
        imageType := r.imageType, imageVer := r.ver, imageSize := r.fwSize, imageCrc16 := r.crc16
        otaFlag := r.otaFlag }
      recvBuf := writeBytes s.recvBuf 0 (List.replicate cfg.otaRecvBufSize 0)
      log := s.log ++ [OtaEvent.request r.fwSize r.crc16] }
    (true, s.send msgId (.otaUpdResp 1 0 (cfg.aisTotalFrame - 1)))
  else (true, s.send msgId (.otaUpdResp 0 0 (cfg.aisTotalFrame - 1)))

/-- An accepted frame is copied to `recv_buf`; the first of a batch clears it.
SRCLINE: genie_ota.c:210-228 -/
def otaStore (cfg : AisCfg) (s : AisDev) (p : AisPdu) : AisDev :=
  let s := { s with ota := { s.ota with errCount := 0 } }
  let s :=
    if p.seq = 0 then
      { s with
        ota := { s.ota with rxLen := 0 }
        recvBuf := writeBytes s.recvBuf 0 (List.replicate cfg.otaRecvBufSize 0) }
    else s
  let s :=
    if p.payloadLen ≠ 0 then
      { s with
        recvBuf := writeBytes s.recvBuf s.ota.rxLen p.payload
        copyEnd := max s.copyEnd (s.ota.rxLen + p.payloadLen)
        ota := { s.ota with
          flashClean := true, rxLen := (s.ota.rxLen + p.payloadLen) % 2 ^ 16 } }
    else s
  { s with
    ota := { s.ota with
      lastSeq := p.seq, totalFrame := p.totalFrame
      rxSize := (s.ota.rxSize + p.payloadLen) % 2 ^ 32 }
    log := s.log ++ [OtaEvent.data p.payload] }

/-- The last frame of a batch sends it to flash. SRCLINE: genie_ota.c:230-246 -/
def otaFlush (s : AisDev) (p : AisPdu) : AisDev :=
  let s :=
    if p.seq = p.totalFrame then
      let s := aliDfuImageUpdate s (s.ota.rxSize - s.ota.rxLen) (readBytes s.recvBuf 0 s.ota.rxLen)
      { s with ota := { s.ota with rxLen := 0, exceptSeq := 0 } }
    else { s with ota := { s.ota with exceptSeq := p.seq + 1 } }
  if s.ota.rxSize = s.ota.imageSize ∨ p.seq = p.totalFrame then genieOtaStatusReport s else s

/-- SRCLINE: genie_ota.c:179-249 -/
def genieOtaParsePdu (cfg : AisCfg) (s : AisDev) (p : AisPdu) : Bool × AisDev :=
  if p.totalFrame < p.seq then (false, s)
  else if p.seq ≠ s.ota.exceptSeq then
    -- `err_count++` wraps
    let s' := { s with ota := { s.ota with errCount := (s.ota.errCount + 1) % 2 ^ 8 } }
    if s.ota.errCount = 0 then (true, genieOtaStatusReport s') else (false, s')
  else if s.ota.imageSize < (s.ota.rxSize + p.payloadLen) % 2 ^ 32 then (false, s)
  else (true, otaFlush (otaStore cfg s p) p)

/-- SRCLINE: genie_ota.c:251-293, ali_dfu_port.c:99-103 -/
def genieOtaCheckFirmware (s : AisDev) (msgId : ℕ) (req : List UInt8) : Bool × AisDev :=
  let s := { s with state := .idle }
  if AisPdu.byte req 0 = 1 then
    if s.dfuCrc16.toNat = s.ota.imageCrc16 then
      let s := { s with state := .reboot, ota := { s.ota with otaReady := true } }
      (true, s.send msgId (.otaCheckResp 1))
    else (true, s.send msgId (.otaCheckResp 0))
  else (false, s)

/-- `bt_conn_disconnect` leads to a disconnect event later. SRCLINE: genie_ais.c:141-149 -/
def handleAisDisconnect (s : AisDev) : AisDev := { s with conn := false }

/-- SRCLINE: genie_ais.c:151-180. `allowReboot` is `genie_sal_ota_is_allow_reboot()`. -/
def genieAisDisconnect (s : AisDev) (allowReboot : Bool) : AisDev :=
  if s.state ≠ .reboot then
    let s := { handleAisDisconnect { s with stateTimer := false } with state := .discon }
    if s.ota.flashClean ∧ ¬ s.ota.otaReady then
      { s with flash := eraseDfuFlash s.flash, ota := { s.ota with flashClean := false } }
    else s
  else if s.ota.otaFlag ≠ otaFlagSilent ∨ allowReboot then dfuReboot s
  else s

/-- SRCLINE: genie_ais.c:182-219 -/
def genieAisStateUpdate (s : AisDev) : AisDev :=
  if ¬ s.conn then s
  else
    match s.state with
    | .discon => handleAisDisconnect { s with stateTimer := false }
    | .connect => s
    | .idle => s
    | .auth => { s with stateTimer := true }
    | .ota => { s with stateTimer := true }
    | .reboot => { s with stateTimer := true, discTimer := true }

/-- SRCLINE: genie_ais.c:221-263 -/
def stateUpdateTimerCb (s : AisDev) : AisDev :=
  match s.state with
  | .connect => genieAisStateUpdate { s with state := .discon }
  | .idle => genieAisStateUpdate { s with state := .discon }
  | .auth => genieAisStateUpdate { genieAisReset s with state := .connect }
  | .ota =>
    let s' := { s with ota := { s.ota with errCount := (s.ota.errCount + 1) % 2 ^ 8 } }
    if otaRecvMaxErrCount ≤ s.ota.errCount then
      let s := { s' with state := .idle, ota := { s'.ota with rxLen := 0 } }
      genieAisStateUpdate (s.send 0 .respErr)
    else genieAisStateUpdate (genieOtaStatusReport s')
  | .reboot => dfuReboot s
  | .discon => genieAisStateUpdate s

/-- SRCLINE: genie_ais.c:265-277 -/
def genieAisConnect (s : AisDev) : AisDev :=
  if s.state ≠ .reboot then genieAisStateUpdate { s with conn := true, state := .connect } else s

/-- SRCLINE: genie_ais.c:285-294 -/
def aisScrtRandom (cfg : AisCfg) (s : AisDev) (msgId : ℕ) (random : List UInt8) : Bool × AisDev :=
  let (bleKey, cipher) :=
    genieAisGetCipher cfg.crypto cfg.triple (Vector.ofFn fun i => random.getD i 0)
  (true, { s with state := .auth, bleKey := bleKey }.send msgId (.scrtCipher cipher))

/-- SRCLINE: genie_ais.c:296-313 -/
def aisScrtResult (s : AisDev) (msgId : ℕ) (result : ℕ) : Bool × AisDev :=
  let s :=
    if result = 1 then { genieAisReset s with state := .connect } else { s with state := .idle }
  (true, s.send msgId .scrtAck)

/-- SRCLINE: genie_ais.c:315-332 -/
def aisLinkAck (s : AisDev) (msgId : ℕ) (result : ℕ) : Bool × AisDev :=
  let s := if result = 0 then { genieAisReset s with state := .connect } else s
  (true, s.send msgId .linkAck)

/-- `_ais_decrypt` -/
def aisDecrypt (cfg : AisCfg) (s : AisDev) (payload : List UInt8) : Option (List UInt8) :=
  genieCryptoDecrypt cfg.crypto s.bleKey payload

/-- The handler prints a message when the check fails, and goes on. SRCLINE: genie_ais.c:334-343 -/
def aisMsgCheckHeader (p : AisPdu) : Bool :=
  !(p.totalFrame ≠ 0 ∨ p.seq ≠ 0 ∨ p.ver ≠ 0 ∨ p.totalFrame < p.seq)

/-- The `switch` of the handler: what a command does and whether it refreshes the timer; no result
for a command that is not known. SRCLINE: genie_ais.c:363-460 -/
def aisServerCmd (cfg : AisCfg) (s : AisDev) (p : AisPdu) : Option (Bool × AisDev) :=
  if p.cmd = 0x10 then
    some (if p.length = 20 then aisScrtRandom cfg s p.msgId p.payload else (false, s))
  else if p.cmd = 0x12 then
    some (if p.length = 5 then
        aisScrtResult { s with stateTimer := false } p.msgId (AisPdu.byte p.payload 0)
      else (false, s))
  else if p.cmd = 0x14 then
    some (if p.length = 20 then
        match aisDecrypt cfg s p.payload with
        | none => (false, s)
        | some req => aisLinkAck s p.msgId (AisPdu.byte req 0)
      else (false, s))
  else if p.cmd = 0x20 then
    some (if p.length = 20 then
        match aisDecrypt cfg s p.payload with
        | none => (false, s)
        | some req => genieOtaHandleVersionRequest cfg s p.msgId req
      else if p.length = 5 then genieOtaHandleVersionRequest cfg s p.msgId p.payload
      else (false, s))
  else if p.cmd = 0x22 then
    some (if p.length = 20 then
        match aisDecrypt cfg s p.payload with
        | none => (false, s)
        | some req => genieOtaHandleUpdateRequest cfg s p.msgId (otaUpdReq req)
      else if p.length = 16 then genieOtaHandleUpdateRequest cfg s p.msgId (otaUpdReq p.payload)
      else (false, s))
  else if p.cmd = 0x2f then
    some (if p.length = 4 + p.payloadLen ∧ p.ver = 0 then genieOtaParsePdu cfg s p else (false, s))
  else if p.cmd = 0x25 then
    some (if p.length = 20 ∧ s.state = .ota then
        match aisDecrypt cfg s p.payload with
        | none => (false, s)
        | some req => genieOtaCheckFirmware s p.msgId req
      else (false, s))
  else none

/-- SRCLINE: genie_ais.c:345-474 -/
def aisServerMsgHandle (cfg : AisCfg) (s : AisDev) (p : AisPdu) : AisDev :=
  match aisServerCmd cfg s p with
  | none => s
  | some (true, s) => genieAisStateUpdate s
  | some (false, s) => if s.state ≠ .ota then s.send p.msgId .respErr else s

/-- What happens to the device: a peer connects, leaves or writes, or a timer expires. -/
inductive AisEvent
  | connect
  | disconnect (allowReboot : Bool)
  | msg (p : AisPdu)
  | stateTimer
  | discTimer
  deriving DecidableEq, Repr

/-- A timer expires once for each time it was armed. -/
def aisStep (cfg : AisCfg) (s : AisDev) : AisEvent → Option AisDev
  | .connect => some (genieAisConnect s)
  | .disconnect allowReboot => some (genieAisDisconnect s allowReboot)
  | .msg p => some (if p.length ≠ 0 then aisServerMsgHandle cfg s p else s)
  | .stateTimer =>
    if s.stateTimer then some (stateUpdateTimerCb { s with stateTimer := false }) else none
  | .discTimer => if s.discTimer then some (handleAisDisconnect { s with discTimer := false }) else none

end GenieSdk.Model
