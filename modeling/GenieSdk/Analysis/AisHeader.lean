import GenieSdk.Model.Ais

/-!
# Messages with a bad header

The handler of the AIS service checks the header of every message that is not `AIS_OTA_DATA`, prints
that it ignores the message if the check fails, and handles it all the same. **Such a message is
ignored exactly if its command refuses it for another reason**: its length, its key, or the state it
finds (`malformed_ignored_iff`).
-/

set_option autoImplicit false

namespace GenieSdk.Analysis.Ais

open GenieSdk.Lib
open GenieSdk.Model

/-- The answer says that the request was carried out. -/
def Success : AisOut → Prop
  | .respErr => False
  | .scrtCipher _ => True
  | .scrtAck => True
  | .linkAck => True
  | .otaVerResp _ => True
  | .otaUpdResp state _ _ => state = 1
  | .otaStatus _ _ _ => False
  | .otaCheckResp state => state = 1

/-- `genie_ais_ctx`, `genie_ota_ctx` and `g_ble_key` are as they were. -/
structure Unchanged (s s' : AisDev) : Prop where
  state : s'.state = s.state
  conn : s'.conn = s.conn
  stateTimer : s'.stateTimer = s.stateTimer
  discTimer : s'.discTimer = s.discTimer
  ota : s'.ota = s.ota
  recvBuf : s'.recvBuf = s.recvBuf
  bleKey : s'.bleKey = s.bleKey

/-- The device with or without a peer, and with its timers armed or not. -/
def withPeer (s : AisDev) (conn stateTimer discTimer : Bool) : AisDev :=
  { s with conn := conn, stateTimer := stateTimer, discTimer := discTimer }

/-- The message changes nothing and is not answered with success, whether or not a peer is there and
whichever timers run. -/
structure Ignored (cfg : AisCfg) (s : AisDev) (p : AisPdu) : Prop where
  unchanged : ∀ conn st dt,
    Unchanged (withPeer s conn st dt) (aisServerMsgHandle cfg (withPeer s conn st dt) p)
  answers : ∀ conn st dt,
    ∀ m ∈ (aisServerMsgHandle cfg (withPeer s conn st dt) p).sent.drop s.sent.length, ¬ Success m.2

/-- A request that may be sent encrypted, or plain with a length of its own. -/
def requestOf (cfg : AisCfg) (s : AisDev) (p : AisPdu) (plainLength : ℕ) : Option (List UInt8) :=
  if p.length = 20 then aisDecrypt cfg s p.payload
  else if p.length = plainLength then some p.payload
  else none

/-- **The condition**, per command: the length of the message, the key of the session or the state of
the device makes the command refuse the message. An update request that is not legal is answered with
a refusal, which starts the timer of the state, if that has one. -/
def Refused (cfg : AisCfg) (s : AisDev) (p : AisPdu) : Prop :=
  -- AIS_SCRT_RANDOM
  if p.cmd = 0x10 then p.length ≠ 20
  -- AIS_SCRT_RESULT
  else if p.cmd = 0x12 then p.length ≠ 5
  -- AIS_LINK_STATUS
  else if p.cmd = 0x14 then p.length ≠ 20 ∨ aisDecrypt cfg s p.payload = none
  -- AIS_OTA_VER_REQ
  else if p.cmd = 0x20 then ∀ req, requestOf cfg s p 5 = some req → AisPdu.byte req 0 ≠ 0
  -- AIS_OTA_FIRMWARE_REQ
  else if p.cmd = 0x22 then ∀ req, requestOf cfg s p 16 = some req →
    (otaUpdReq req).legal cfg = false ∧ (s.state = .connect ∨ s.state = .idle)
  -- AIS_OTA_CHECK_REQ
  else if p.cmd = 0x25 then
    p.length ≠ 20 ∨ s.state ≠ .ota ∨ aisDecrypt cfg s p.payload = none
  else True

section Handler

variable {cfg : AisCfg} {s t : AisDev} {p : AisPdu} {o : AisOut}

/-- Nothing is done. -/
theorem Unchanged.refl (s : AisDev) : Unchanged s s := ⟨rfl, rfl, rfl, rfl, rfl, rfl, rfl⟩

/-- An answer changes nothing. -/
theorem unchanged_send (s : AisDev) (msgId : ℕ) (o : AisOut) : Unchanged s (s.send msgId o) := by
  unfold AisDev.send
  split <;> exact ⟨rfl, rfl, rfl, rfl, rfl, rfl, rfl⟩

/-- What is sent when a peer is connected. -/
theorem send_sent (s : AisDev) (msgId : ℕ) (o : AisOut) :
    (s.send msgId o).sent = s.sent ++ if s.conn then [(msgId, o)] else [] := by
  unfold AisDev.send
  split <;> simp

/-- The update of the state sends nothing and keeps the state. -/
theorem stateUpdate_sent (s : AisDev) :
    (genieAisStateUpdate s).sent = s.sent ∧ (genieAisStateUpdate s).state = s.state := by
  unfold genieAisStateUpdate handleAisDisconnect
  split
  · exact ⟨rfl, rfl⟩
  · split <;> exact ⟨rfl, rfl⟩

/-- Without a peer no state is updated and nothing is sent. -/
theorem stateUpdate_send_of_not_conn (h : s.conn = false) (msgId : ℕ) (o : AisOut) :
    genieAisStateUpdate (s.send msgId o) = s := by
  unfold AisDev.send genieAisStateUpdate
  simp [h]

/-- A command that is not known. -/
theorem ignored_of_unknown (h : ∀ conn st dt, aisServerCmd cfg (withPeer s conn st dt) p = none) :
    Ignored cfg s p := by
  have hs : ∀ conn st dt,
      aisServerMsgHandle cfg (withPeer s conn st dt) p = withPeer s conn st dt := by
    intro conn st dt
    unfold aisServerMsgHandle
    rw [h conn st dt]
  refine ⟨fun conn st dt => by rw [hs]; exact .refl _, fun conn st dt m hmem => ?_⟩
  rw [hs, show (withPeer s conn st dt).sent = s.sent from rfl, List.drop_length] at hmem
  cases hmem

/-- A command that is refused is answered with an error at most. -/
theorem ignored_of_refused (h : ∀ conn st dt,
      aisServerCmd cfg (withPeer s conn st dt) p = some (false, withPeer s conn st dt)) :
    Ignored cfg s p := by
  have hs : ∀ conn st dt, aisServerMsgHandle cfg (withPeer s conn st dt) p =
      if s.state ≠ .ota then (withPeer s conn st dt).send p.msgId .respErr
      else withPeer s conn st dt := by
    intro conn st dt
    unfold aisServerMsgHandle
    rw [h conn st dt]
    rfl
  refine ⟨fun conn st dt => ?_, fun conn st dt m hmem => ?_⟩
  · rw [hs]
    split
    · exact unchanged_send _ _ _
    · exact .refl _
  · rw [hs] at hmem
    split at hmem
    · rw [send_sent, show (withPeer s conn st dt).sent = s.sent from rfl, List.drop_left] at hmem
      split at hmem
      · rw [List.mem_singleton.1 hmem]
        exact id
      · cases hmem
    · rw [show (withPeer s conn st dt).sent = s.sent from rfl, List.drop_length] at hmem
      cases hmem

/-- **a command that is carried out** is answered, if a peer is there. -/
theorem not_ignored_of_answered
    (h : aisServerCmd cfg (withPeer s true false false) p = some (true, t.send p.msgId o))
    (ho : Success o) (hconn : t.conn = true) (hsent : t.sent = s.sent) : ¬ Ignored cfg s p := by
  intro hign
  refine hign.answers true false false (p.msgId, o) ?_ ho
  have hs : aisServerMsgHandle cfg (withPeer s true false false) p =
      genieAisStateUpdate (t.send p.msgId o) := by
    unfold aisServerMsgHandle
    rw [h]
  rw [hs, (stateUpdate_sent _).1, send_sent, hsent, if_pos hconn, List.drop_left]
  exact List.mem_singleton.2 rfl

/-- **a refusal that counts as an answer** starts the timer of the state. -/
theorem ignored_iff_of_denied (h : ∀ conn st dt, aisServerCmd cfg (withPeer s conn st dt) p =
      some (true, (withPeer s conn st dt).send p.msgId o)) (ho : ¬ Success o) :
    Ignored cfg s p ↔ s.state = .connect ∨ s.state = .idle := by
  have hs : ∀ conn st dt, aisServerMsgHandle cfg (withPeer s conn st dt) p =
      genieAisStateUpdate ((withPeer s conn st dt).send p.msgId o) := by
    intro conn st dt
    unfold aisServerMsgHandle
    rw [h conn st dt]
  have hsend : ∀ st dt, (withPeer s true st dt).send p.msgId o =
      withPeer { s with sent := s.sent ++ [(p.msgId, o)] } true st dt := fun _ _ => rfl
  constructor
  · intro hign
    have hsame := hign.unchanged true false false
    rw [hs, hsend] at hsame
    have hconn := hsame.conn
    have htimer := hsame.stateTimer
    unfold genieAisStateUpdate withPeer handleAisDisconnect at hconn htimer
    cases hst : s.state <;> simp_all
  · intro hquiet
    refine ⟨fun conn st dt => ?_, fun conn st dt m hmem => ?_⟩
    · rw [hs]
      cases conn with
      | true =>
        rw [hsend st dt]
        unfold genieAisStateUpdate withPeer
        obtain hst | hst := hquiet
        all_goals
          simp only [hst, not_true_eq_false, if_false]
          exact ⟨rfl, rfl, rfl, rfl, rfl, rfl, rfl⟩
      | false =>
        rw [stateUpdate_send_of_not_conn (s := withPeer s false st dt) rfl]
        exact .refl _
    · rw [hs, (stateUpdate_sent _).1, send_sent,
        show (withPeer s conn st dt).sent = s.sent from rfl, List.drop_left] at hmem
      split at hmem
      · rw [List.mem_singleton.1 hmem]
        exact ho
      · cases hmem

end Handler

section Commands

variable {cfg : AisCfg} {s : AisDev} {p : AisPdu}

/-- The key of the session does not depend on the peer. -/
theorem aisDecrypt_withPeer (conn st dt : Bool) (payload : List UInt8) :
    aisDecrypt cfg (withPeer s conn st dt) payload = aisDecrypt cfg s payload := rfl

/-- A random is ignored if its length is wrong. -/
theorem ignored_scrtRandom (hcmd : p.cmd = 0x10) : Ignored cfg s p ↔ p.length ≠ 20 := by
  by_cases hlen : p.length = 20
  · refine iff_of_false ?_ (not_not.2 hlen)
    have h : aisServerCmd cfg (withPeer s true false false) p =
        some (aisScrtRandom cfg (withPeer s true false false) p.msgId p.payload) := by
      simp only [aisServerCmd, hcmd, hlen, if_true]
    exact not_ignored_of_answered h trivial rfl rfl
  · refine iff_of_true (ignored_of_refused fun conn st dt => ?_) hlen
    simp only [aisServerCmd, hcmd, hlen, if_true, if_false]

/-- A result is ignored if its length is wrong. -/
theorem ignored_scrtResult (hcmd : p.cmd = 0x12) : Ignored cfg s p ↔ p.length ≠ 5 := by
  by_cases hlen : p.length = 5
  · refine iff_of_false ?_ (not_not.2 hlen)
    have h : aisServerCmd cfg (withPeer s true false false) p =
        some (aisScrtResult (withPeer s true false false) p.msgId (AisPdu.byte p.payload 0)) := by
      simp only [aisServerCmd, hcmd, hlen, if_true]
      rfl
    refine not_ignored_of_answered h trivial ?_ ?_
    all_goals split <;> rfl
  · refine iff_of_true (ignored_of_refused fun conn st dt => ?_) hlen
    simp only [aisServerCmd, hcmd, hlen, if_true, if_false]
    rfl

/-- A link status is ignored if its length is wrong or it does not decrypt. -/
theorem ignored_linkStatus (hcmd : p.cmd = 0x14) :
    Ignored cfg s p ↔ p.length ≠ 20 ∨ aisDecrypt cfg s p.payload = none := by
  by_cases hlen : p.length = 20
  · cases hdec : aisDecrypt cfg s p.payload with
    | none =>
      refine iff_of_true (ignored_of_refused fun conn st dt => ?_) (Or.inr rfl)
      simp only [aisServerCmd, hcmd, hlen, if_true, aisDecrypt_withPeer, hdec]
      rfl
    | some req =>
      refine iff_of_false ?_ fun h => h.elim (fun h => h hlen) fun h => (by cases h)
      have h : aisServerCmd cfg (withPeer s true false false) p =
          some (aisLinkAck (withPeer s true false false) p.msgId (AisPdu.byte req 0)) := by
        simp only [aisServerCmd, hcmd, hlen, if_true, aisDecrypt_withPeer, hdec]
        rfl
      refine not_ignored_of_answered h trivial ?_ ?_
      all_goals split <;> rfl
  · refine iff_of_true (ignored_of_refused fun conn st dt => ?_) (Or.inl hlen)
    simp only [aisServerCmd, hcmd, hlen, if_true, if_false]
    rfl

/-- The two forms of a request are read alike. -/
theorem serverCmd_request (cfg : AisCfg) (s : AisDev) (p : AisPdu) (plainLength : ℕ)
    {f : AisDev → List UInt8 → Bool × AisDev}
    (hcmd : ∀ t, t.bleKey = s.bleKey → aisServerCmd cfg t p =
      some (if p.length = 20 then
          match aisDecrypt cfg t p.payload with
          | none => (false, t)
          | some req => f t req
        else if p.length = plainLength then f t p.payload
        else (false, t))) (conn st dt : Bool) :
    aisServerCmd cfg (withPeer s conn st dt) p =
      some (match requestOf cfg s p plainLength with
        | none => (false, withPeer s conn st dt)
        | some req => f (withPeer s conn st dt) req) := by
  rw [hcmd (withPeer s conn st dt) rfl, aisDecrypt_withPeer]
  unfold requestOf
  split
  · rfl
  · split <;> rfl

/-- A request for the version is ignored if it cannot be read or has a byte other than 0. -/
theorem ignored_verReq (hcmd : p.cmd = 0x20) :
    Ignored cfg s p ↔ ∀ req, requestOf cfg s p 5 = some req → AisPdu.byte req 0 ≠ 0 := by
  have hread := serverCmd_request cfg s p 5
    (f := fun t req => genieOtaHandleVersionRequest cfg t p.msgId req) (fun t _ => by
      simp only [aisServerCmd, hcmd]
      rfl)
  cases hreq : requestOf cfg s p 5 with
  | none =>
    rw [hreq] at hread
    exact iff_of_true (ignored_of_refused hread) fun req h => (by cases h)
  | some req =>
    simp only [hreq, genieOtaHandleVersionRequest] at hread
    by_cases hbyte : AisPdu.byte req 0 = 0
    · simp only [hbyte, if_true] at hread
      refine iff_of_false (not_ignored_of_answered (hread true false false) trivial rfl rfl) ?_
      exact fun hall => hall req rfl hbyte
    · simp only [hbyte, if_false] at hread
      refine iff_of_true (ignored_of_refused hread) ?_
      rintro _ ⟨⟩
      exact hbyte

/-- A request to update is ignored if it cannot be read, or is not legal in a state without a transfer. -/
theorem ignored_firmwareReq (hcmd : p.cmd = 0x22) :
    Ignored cfg s p ↔ ∀ req, requestOf cfg s p 16 = some req →
      (otaUpdReq req).legal cfg = false ∧ (s.state = .connect ∨ s.state = .idle) := by
  have hread := serverCmd_request cfg s p 16
    (f := fun t req => genieOtaHandleUpdateRequest cfg t p.msgId (otaUpdReq req)) (fun t _ => by
      simp only [aisServerCmd, hcmd]
      rfl)
  cases hreq : requestOf cfg s p 16 with
  | none =>
    rw [hreq] at hread
    exact iff_of_true (ignored_of_refused hread) fun req h => (by cases h)
  | some req =>
    simp only [hreq, genieOtaHandleUpdateRequest] at hread
    by_cases hlegal : (otaUpdReq req).legal cfg = true
    · simp only [hlegal, if_true] at hread
      refine iff_of_false (not_ignored_of_answered (hread true false false) rfl rfl rfl) ?_
      intro hall
      have hillegal := (hall req rfl).1
      rw [hlegal] at hillegal
      cases hillegal
    · simp only [hlegal] at hread
      rw [ignored_iff_of_denied hread Nat.zero_ne_one]
      constructor
      · rintro hquiet _ ⟨⟩
        exact ⟨Bool.not_eq_true _ ▸ hlegal, hquiet⟩
      · exact fun hall => (hall req rfl).2

/-- A check leaves the update, whatever it finds. -/
theorem checkFirmware_leaves (s : AisDev) (msgId : ℕ) (req : List UInt8) :
    (genieOtaCheckFirmware s msgId req).2.state ≠ .ota := by
  have hsend : ∀ (t : AisDev) (o : AisOut), t.state ≠ .ota → (t.send msgId o).state ≠ .ota := by
    intro t o ht
    rwa [(unchanged_send t msgId o).state]
  unfold genieOtaCheckFirmware
  dsimp only
  split_ifs
  · exact hsend _ _ AisState.noConfusion
  · exact hsend _ _ AisState.noConfusion
  · exact AisState.noConfusion

/-- A request to check is ignored if its length or the state is wrong or it does not decrypt. -/
theorem ignored_checkReq (hcmd : p.cmd = 0x25) :
    Ignored cfg s p ↔
      p.length ≠ 20 ∨ s.state ≠ .ota ∨ aisDecrypt cfg s p.payload = none := by
  have hst : ∀ conn st dt, (withPeer s conn st dt).state = s.state := fun _ _ _ => rfl
  by_cases hota : p.length = 20 ∧ s.state = .ota
  · cases hdec : aisDecrypt cfg s p.payload with
    | none =>
      refine iff_of_true (ignored_of_refused fun conn st dt => ?_) (Or.inr (Or.inr rfl))
      simp only [aisServerCmd, hcmd, hst, hota, and_self, if_true, aisDecrypt_withPeer, hdec]
      rfl
    | some req =>
      refine iff_of_false (fun hign => ?_) ?_
      · have hcheck : aisServerCmd cfg (withPeer s s.conn s.stateTimer s.discTimer) p =
            some (genieOtaCheckFirmware (withPeer s s.conn s.stateTimer s.discTimer) p.msgId req) := by
          simp only [aisServerCmd, hcmd, hst, hota, and_self, if_true, aisDecrypt_withPeer, hdec]
          rfl
        have hstate := (hign.unchanged s.conn s.stateTimer s.discTimer).state
        have hleaves := checkFirmware_leaves (withPeer s s.conn s.stateTimer s.discTimer) p.msgId req
        unfold aisServerMsgHandle at hstate
        rw [hcheck] at hstate
        generalize genieOtaCheckFirmware _ p.msgId req = r at hstate hleaves
        obtain ⟨b, s₁⟩ := r
        cases b with
        | true =>
          rw [(stateUpdate_sent s₁).2] at hstate
          exact absurd (hstate.trans hota.2) hleaves
        | false =>
          simp only [hleaves, ne_eq, not_false_eq_true, if_true] at hstate
          rw [(unchanged_send _ _ _).state] at hstate
          exact absurd (hstate.trans hota.2) hleaves
      · rintro (h | h | h)
        · exact h hota.1
        · exact h hota.2
        · cases h
  · refine iff_of_true (ignored_of_refused fun conn st dt => ?_) ?_
    · simp only [aisServerCmd, hcmd, hst, hota, if_false]
      rfl
    · rcases not_and_or.1 hota with h | h
      · exact Or.inl h
      · exact Or.inr (Or.inl h)

/-- **whatever its header says**, a message that is not a data frame is ignored exactly if its
command refuses it. -/
theorem ignored_iff_refused (hdata : p.cmd ≠ 0x2f) : Ignored cfg s p ↔ Refused cfg s p := by
  unfold Refused
  split
  case isTrue hcmd => exact ignored_scrtRandom hcmd
  case isFalse h₁ =>
  split
  case isTrue hcmd => exact ignored_scrtResult hcmd
  case isFalse h₂ =>
  split
  case isTrue hcmd => exact ignored_linkStatus hcmd
  case isFalse h₃ =>
  split
  case isTrue hcmd => exact ignored_verReq hcmd
  case isFalse h₄ =>
  split
  case isTrue hcmd => exact ignored_firmwareReq hcmd
  case isFalse h₅ =>
  split
  case isTrue hcmd => exact ignored_checkReq hcmd
  case isFalse h₆ =>
  refine iff_of_true (ignored_of_unknown fun conn st dt => ?_) trivial
  simp only [aisServerCmd, h₁, h₂, h₃, h₄, h₅, h₆, hdata, if_false]

end Commands

/-- **Messages with a bad header.** In every state, a message that is not a data frame and fails the
check of its header is ignored if and only if its command refuses it for another reason. -/
theorem malformed_ignored_iff (cfg : AisCfg) (s : AisDev) (p : AisPdu) :
    p.cmd ≠ 0x2f → aisMsgCheckHeader p = false → (Ignored cfg s p ↔ Refused cfg s p) :=
  fun hdata _ => ignored_iff_refused hdata

/-- A configuration whose ciphers do nothing; they are not used below. -/
def plainCfg : AisCfg where
  aisTotalFrame := 16
  appVer := 0x010001
  triple := { pid := 1, key := Vector.replicate 16 1, mac := Vector.replicate 6 1 }
  crypto :=
    { sha256 := fun _ => List.replicate 32 1
      aesEncrypt := fun _ data => data
      aesDecrypt := fun _ data => some data }

/-- A peer is connected. -/
def connected : AisDev := genieAisConnect (aisInit fun _ => 0xFF)

/-- A random of version 1 that is too short is refused. -/
theorem malformed_random_ignored :
    AisPdu.cmd [0x20, 0x10, 0, 1, 7] ≠ 0x2f ∧ aisMsgCheckHeader [0x20, 0x10, 0, 1, 7] = false ∧
      Ignored plainCfg connected [0x20, 0x10, 0, 1, 7] := by
  refine ⟨by decide, by decide, (malformed_ignored_iff plainCfg connected [0x20, 0x10, 0, 1, 7]
    (by decide) (by decide)).2 ?_⟩
  unfold Refused
  rw [if_pos (by decide)]
  decide

/-- A result of version 1 ends the authentication, and no random was ever sent. -/
theorem malformed_result_handled :
    ¬ ∀ (cfg : AisCfg) (s : AisDev) (p : AisPdu), p.cmd ≠ 0x2f → aisMsgCheckHeader p = false →
      Ignored cfg s p := by
  intro hall
  have hign := hall plainCfg connected [0x20, 0x12, 0, 1, 0] (by decide) (by decide)
  have hstate := (hign.unchanged true false false).state
  revert hstate
  decide

end GenieSdk.Analysis.Ais
