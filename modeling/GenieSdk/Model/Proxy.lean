import GenieSdk.Model.Access

/-!
# The GATT proxy

`proxy.c`: a client and a proxy exchange PDUs over a connection in segments that fit into its MTU, and the proxy keeps
for each client the addresses whose messages it passes on. The connections are there; what the stack does with a
complete PDU is left out, and so are advertising and beacons.
-/

set_option autoImplicit false

namespace GenieSdk.Model

open GenieSdk.Lib

/-- `filter_type` -/
inductive FilterType
  | none
  | whitelist
  | blacklist
  | prov
  deriving DecidableEq, Repr

/-- `CLIENT_BUF_SIZE` -/
def clientBufSize : ℕ := 68

/-- `struct bt_mesh_proxy_client` -/
structure ProxyClient where
  conn : ℕ
  filter : List ℕ
  filterType : FilterType
  msgType : ℕ
  buf : List UInt8
  deriving DecidableEq, Repr

/-! ## Segments -/

/-- The values of `PDU_SAR`. -/
inductive Sar
  | complete
  | first
  | cont
  | last
  deriving DecidableEq, Repr

def Sar.val : Sar → ℕ
  | .complete => 0
  | .first => 1
  | .cont => 2
  | .last => 3

/-- `PDU_HDR` -/
def pduHdr (sar : Sar) (type : ℕ) : UInt8 := UInt8.ofNat (sar.val * 64 + type % 64)

/-- `PDU_TYPE` -/
def pduType (data : List UInt8) : ℕ := (data.getD 0 0).toNat % 64

/-- `PDU_SAR` -/
def pduSar (data : List UInt8) : Sar :=
  match (data.getD 0 0).toNat / 64 with
  | 0 => .complete
  | 1 => .first
  | 2 => .cont
  | _ => .last

/-- The loop after the first segment; nothing where it does not end. SRCLINE: proxy.c:1039-1051 -/
def proxySegLoop (mtu type : ℕ) : ℕ → List UInt8 → Option (List (List UInt8))
  | 0, _ => none
  | fuel + 1, msg =>
    if msg.length = 0 then some []
    else if msg.length + 1 < mtu then some [pduHdr .last type :: msg]
    else
      let msg := pduHdr .cont type :: msg
      (proxySegLoop mtu type fuel (msg.drop mtu)).map (msg.take mtu :: ·)

/-- What is sent. `mtu` is that of the connection without opcode and handle. SRCLINE: proxy.c:1019-1054 -/
def proxySegmentAndSend (mtu type : ℕ) (msg : List UInt8) : Option (List (List UInt8)) :=
  if msg.length < mtu then some [pduHdr .complete type :: msg]
  else
    let msg := pduHdr .first type :: msg
    (proxySegLoop mtu type (msg.length + 1) (msg.drop mtu)).map (msg.take mtu :: ·)

/-- The type and the bytes of a complete PDU. SRCLINE: proxy.c:450-480 -/
def proxyCompletePdu (c : ProxyClient) : ProxyClient × Option (ℕ × List UInt8) :=
  ({ c with buf := [] }, some (c.msgType, c.buf))

/-- Nothing if an error is returned. `isProv` is `ATTR_IS_PROV`. SRCLINE: proxy.c:484-576 -/
def proxyRecv (isProv : Bool) (data : List UInt8) (c : ProxyClient) :
    Option (ProxyClient × Option (ℕ × List UInt8)) :=
  if data.length < 1 then none
  else if isProv ≠ decide (pduType data = 3) then none
  else if clientBufSize - c.buf.length < data.length - 1 then none
  else
    let added := { c with buf := c.buf ++ data.drop 1 }
    match pduSar data with
    | .complete => if c.buf ≠ [] then none else some (proxyCompletePdu { added with msgType := pduType data })
    | .first => if c.buf ≠ [] then none else some ({ added with msgType := pduType data }, none)
    | .cont => if c.buf = [] ∨ c.msgType ≠ pduType data then none else some (added, none)
    | .last => if c.buf = [] ∨ c.msgType ≠ pduType data then none else some (proxyCompletePdu added)

/-- A segment comes in on a connection. -/
structure ProxyWrite where
  conn : ℕ
  isProv : Bool
  data : List UInt8
  deriving DecidableEq, Repr

/-- A complete PDU of a connection. -/
structure ProxyPdu where
  conn : ℕ
  type : ℕ
  data : List UInt8
  deriving DecidableEq, Repr

/-- The first client with the connection takes the segment; one that is refused changes nothing.
SRCLINE: proxy.c:116-129, 484-494 -/
def proxyWrite (w : ProxyWrite) : List ProxyClient → List ProxyClient × List ProxyPdu
  | [] => ([], [])
  | c :: cs =>
    if c.conn = w.conn then
      match proxyRecv w.isProv w.data c with
      | none => (c :: cs, [])
      | some (c', pdu) => (c' :: cs, (pdu.map fun p => ⟨c.conn, p.1, p.2⟩).toList)
    else
      let (cs, pdus) := proxyWrite w cs
      (c :: cs, pdus)

/-- The complete PDUs of a run, in the order in which they are complete. -/
def proxyWrites (cs : List ProxyClient) : List ProxyWrite → List ProxyPdu
  | [] => []
  | w :: ws =>
    let (cs, pdus) := proxyWrite w cs
    pdus ++ proxyWrites cs ws

/-! ## The filter -/

/-- SRCLINE: proxy.c:170-197 -/
def filterAdd (addr : ℕ) (filter : List ℕ) : List ℕ :=
  if addr = 0 then filter
  else if filter.contains addr then filter
  else
    match filter.findIdx? (· = 0) with
    | none => filter
    | some i => filter.set i addr

/-- SRCLINE: proxy.c:199-218 -/
def filterRemove (addr : ℕ) (filter : List ℕ) : List ℕ :=
  if addr = 0 then filter
  else
    match filter.findIdx? (· = addr) with
    | none => filter
    | some i => filter.set i 0

/-- `memset` of the filter, and its new type. SRCLINE: proxy.c:138-168 -/
def filterSet (type : FilterType) (c : ProxyClient) : ProxyClient :=
  { c with filter := c.filter.map fun _ => 0, filterType := type }

/-- A complete configuration PDU without its network header, or the source of a network PDU; the client writes to the
configuration of one of the two services; a service comes or goes. -/
inductive FilterAct
  | cfg (buf : List UInt8)
  | addrAdd (addr : ℕ)
  | proxyCcc (buf : List UInt8)
  | provCcc (buf : List UInt8)
  | gattEnable
  | gattDisconnect
  | provEnable
  | provDisable
  deriving DecidableEq, Repr

/-- The addresses of a message that adds or removes some: two bytes each. SRCLINE: proxy.c:315-332 -/
def cfgAddrs : ℕ → List UInt8 → List ℕ
  | 0, _ => []
  | fuel + 1, buf => if 2 ≤ buf.length then beVal (buf.take 2) :: cfgAddrs fuel (buf.drop 2) else []

/-- SRCLINE: proxy.c:274-339 -/
def proxyCfg (buf : List UInt8) (c : ProxyClient) : ProxyClient :=
  match buf with
  | [] => c
  | opcode :: rest =>
    if opcode = 0x00 then
      match rest with
      | [] => c
      | type :: _ => if type = 0x00 then filterSet .whitelist c else if type = 0x01 then filterSet .blacklist c else c
    else if opcode = 0x01 then
      { c with filter := (cfgAddrs rest.length rest).foldl (fun filter addr => filterAdd addr filter) c.filter }
    else if opcode = 0x02 then
      { c with filter := (cfgAddrs rest.length rest).foldl (fun filter addr => filterRemove addr filter) c.filter }
    else c

/-- SRCLINE: proxy.c:900-915 -/
def btMeshProxyAddrAdd (addr : ℕ) (c : ProxyClient) : ProxyClient :=
  match c.filterType with
  | .whitelist => { c with filter := filterAdd addr c.filter }
  | .blacklist => { c with filter := filterRemove addr c.filter }
  | .none => c
  | .prov => c

/-- `BT_MESH_ADDR_TMALL_GENIE` -/
def addrTmallGenie : ℕ := 0xf000

/-- SRCLINE: proxy.c:917-959 -/
def clientFilterMatch (c : ProxyClient) (addr : ℕ) : Bool :=
  match c.filterType with
  | .whitelist => c.filter.contains addr || decide (addr = addrTmallGenie)
  | .blacklist => !c.filter.contains addr
  | .none => false
  | .prov => false

/-- `BT_MESH_GATT_CCC_NOTIFY` -/
def gattCccNotify : ℕ := 0x0001

/-- SRCLINE: proxy.c:782-815 -/
def proxyCccWrite (buf : List UInt8) (c : ProxyClient) : ProxyClient :=
  if buf.length ≠ 2 then c
  else if leVal buf ≠ gattCccNotify then c
  else if c.filterType = .none then { c with filterType := .whitelist }
  else c

/-- SRCLINE: proxy.c:669-702 -/
def provCccWrite (buf : List UInt8) (c : ProxyClient) : ProxyClient :=
  if buf.length ≠ 2 then c
  else if leVal buf ≠ gattCccNotify then c
  else if c.filterType = .none then { c with filterType := .prov }
  else c

/-- A client that is connected. SRCLINE: proxy.c:848-866 -/
def btMeshProxyGattEnable (c : ProxyClient) : ProxyClient := { c with filterType := .whitelist }

/-- The client is connected until the stack has ended the connection. SRCLINE: proxy.c:868-886 -/
def btMeshProxyGattDisconnect (c : ProxyClient) : ProxyClient :=
  if c.filterType = .whitelist ∨ c.filterType = .blacklist then { c with filterType := .none } else c

/-- SRCLINE: proxy.c:734-754 -/
def btMeshProxyProvEnable (c : ProxyClient) : ProxyClient := { c with filterType := .prov }

/-- SRCLINE: proxy.c:756-777 -/
def btMeshProxyProvDisable (c : ProxyClient) : ProxyClient :=
  if c.filterType = .prov then { c with filterType := .none } else c

def filterStep (c : ProxyClient) : FilterAct → ProxyClient
  | .cfg buf => proxyCfg buf c
  | .addrAdd addr => btMeshProxyAddrAdd addr c
  | .proxyCcc buf => proxyCccWrite buf c
  | .provCcc buf => provCccWrite buf c
  | .gattEnable => btMeshProxyGattEnable c
  | .gattDisconnect => btMeshProxyGattDisconnect c
  | .provEnable => btMeshProxyProvEnable c
  | .provDisable => btMeshProxyProvDisable c

end GenieSdk.Model
