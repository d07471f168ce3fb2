import GenieSdk.Lib.RecentRing

/-!
# Received message ids

`genie_transport_check_tid`: the messages that were accepted last are kept in a ring, and a message
that is there with the same id, element and source is a repetition unless it is too old. Times are
the low 32 bits of the uptime in milliseconds.
-/

set_option autoImplicit false

namespace GenieSdk.Model

open GenieSdk.Lib

/-- `RECV_MSG_TID_QUEUE_SIZE` -/
def recvMsgTidQueueSize : ℕ := 5

/-- `GENIE_TRANSPORT_DEDUPLICATE_DURATION` -/
def genieTransportDeduplicateDuration : ℕ := 6000

/-- `TMALL_GENIE_UADDR_START` -/
def tmallGenieUaddrStart : UInt16 := 0x0001

/-- `TMALL_GENIE_UADDR_END` -/
def tmallGenieUaddrEnd : UInt16 := 0x0010

/-- `genie_transport_tid_queue_t` -/
structure TidRecord where
  tid : UInt8
  elemid : UInt8
  addr : UInt16
  time : ℕ
  deriving DecidableEq, Repr

/-- `tid_queue` and the static variable `cur_index` -/
abbrev TidQueue := RecentRing TidRecord

/-- Both are zero at first. SRCLINE: genie_transport.c:9, 211 -/
def tidQueueInit : TidQueue := RecentRing.filled recvMsgTidQueueSize ⟨0, 0, 0, 0⟩

/-- Of `E_MESH_ERROR_TYPE` what the check returns. -/
inductive TidMeshError
  | success
  | tidRepeat
  deriving DecidableEq, Repr

/-- A call: a message from `srcAddr` for an element, at an uptime. -/
structure TidCall where
  uptime : ℕ
  srcAddr : UInt16
  tid : UInt8
  elemId : UInt8
  deriving DecidableEq, Repr

/-- The speakers count as one source. SRCLINE: genie_transport.c:217-220 -/
def tidSrcAddr (srcAddr : UInt16) : UInt16 :=
  if tmallGenieUaddrStart ≤ srcAddr ∧ srcAddr ≤ tmallGenieUaddrEnd then tmallGenieUaddrStart
  else srcAddr

/-- What a call records. SRCLINE: genie_transport.c:241-244 -/
def TidCall.record (c : TidCall) : TidRecord where
  tid := c.tid
  elemid := c.elemId
  addr := tidSrcAddr c.srcAddr
  time := c.uptime % 2 ^ 32

/-- The test that ends the loop; the end of the period is computed in 32 bits.
SRCLINE: genie_transport.c:225-232 -/
def tidRepeats (c : TidCall) (r : TidRecord) : Prop :=
  (r.tid = c.tid ∧ r.addr = tidSrcAddr c.srcAddr ∧ r.elemid = c.elemId) ∧
    c.uptime % 2 ^ 32 < (r.time + genieTransportDeduplicateDuration) % 2 ^ 32

instance (c : TidCall) (r : TidRecord) : Decidable (tidRepeats c r) :=
  inferInstanceAs (Decidable (_ ∧ _))

/-- The `while` loop: `i` when it ends. SRCLINE: genie_transport.c:222-235 -/
def tidLoop (q : TidQueue) (c : TidCall) : ℕ → ℕ → ℕ
  | 0, i => i
  | fuel + 1, i =>
    if tidRepeats c (q.slots.getD (i % recvMsgTidQueueSize) ⟨0, 0, 0, 0⟩) then i
    else tidLoop q c fuel (i + 1)

/-- SRCLINE: genie_transport.c:209-250 -/
def genieTransportCheckTid (q : TidQueue) (c : TidCall) : TidMeshError × TidQueue :=
  if tidLoop q c recvMsgTidQueueSize q.next < q.next + recvMsgTidQueueSize then (.tidRepeat, q)
  else (.success, q.push c.record)

end GenieSdk.Model
