import GenieSdk.Model.Proxy

/-!
# Segments of proxy PDUs

A proxy PDU that does not fit into the MTU goes out in segments. The last segment is marked only if it is not full:
**a connection carries PDUs whole exactly if none of them fills its segments to the end** (`proxy_link_exact`). One
that does is never complete, and what comes next is refused or put behind it. Segments of other connections may come
in between.
-/

set_option autoImplicit false

namespace GenieSdk.Analysis.Proxy

open GenieSdk.Lib GenieSdk.Model

/-- The PDU fits, or its last segment is not full. -/
def Whole (mtu len : ℕ) : Prop := len < mtu ∨ len % (mtu - 1) ≠ 0

instance (mtu len : ℕ) : Decidable (Whole mtu len) := inferInstanceAs (Decidable (_ ∨ _))

/-! ## Headers -/

section Headers

variable {type : ℕ} {bs : List UInt8}

/-- The kind of a segment has two bits. -/
theorem Sar.val_lt (sar : Sar) : sar.val < 4 := by
  cases sar <;> decide

/-- The header of a segment. -/
theorem toNat_pduHdr (sar : Sar) (type : ℕ) : (pduHdr sar type).toNat = sar.val * 64 + type % 64 := by
  have hsar := Sar.val_lt sar
  have htype := Nat.mod_lt type (by norm_num : 0 < 64)
  exact UInt8.toNat_ofNat_of_lt' (by change _ < 256; omega)

/-- The type is read from it. -/
theorem pduType_pduHdr (sar : Sar) (h : type < 64) : pduType (pduHdr sar type :: bs) = type := by
  unfold pduType
  rw [List.getD_cons_zero, toNat_pduHdr]
  omega

/-- So is the kind. -/
theorem pduSar_pduHdr (sar : Sar) : pduSar (pduHdr sar type :: bs) = sar := by
  have htype := Nat.mod_lt type (by norm_num : 0 < 64)
  have hval : (sar.val * 64 + type % 64) / 64 = sar.val := by omega
  unfold pduSar
  rw [List.getD_cons_zero, toNat_pduHdr, hval]
  cases sar with
  | complete => rfl
  | first => rfl
  | cont => rfl
  | last => rfl

end Headers

/-! ## One client -/

section Client

variable {c : ProxyClient} {mtu type fuel : ℕ} {msg bs : List UInt8}

/-- A client takes segments that come to the right service. -/
def recvAll : ProxyClient → List (List UInt8) → ProxyClient × List (ℕ × List UInt8)
  | c, [] => (c, [])
  | c, d :: ds =>
    match proxyRecv (decide (pduType d = 3)) d c with
    | none => recvAll c ds
    | some (c', pdu) =>
      let (c'', pdus) := recvAll c' ds
      (c'', pdu.toList ++ pdus)

/-- Receiving two lists of segments. -/
theorem recvAll_append (c : ProxyClient) (ds ds' : List (List UInt8)) : recvAll c (ds ++ ds') =
    ((recvAll (recvAll c ds).1 ds').1, (recvAll c ds).2 ++ (recvAll (recvAll c ds).1 ds').2) := by
  induction ds generalizing c with
  | nil => rfl
  | cons d ds ih =>
    rw [List.cons_append, recvAll, recvAll]
    cases proxyRecv (decide (pduType d = 3)) d c with
    | none => exact ih c
    | some r =>
      dsimp only
      rw [ih, List.append_assoc]

/-- A segment that there is room for. -/
theorem proxyRecv_hdr (sar : Sar) (htype : type < 64) (hroom : c.buf.length + bs.length ≤ clientBufSize) :
    proxyRecv (decide (pduType (pduHdr sar type :: bs) = 3)) (pduHdr sar type :: bs) c =
      match sar with
      | .complete => if c.buf ≠ [] then none else some ({ c with buf := [], msgType := type }, some (type, c.buf ++ bs))
      | .first => if c.buf ≠ [] then none else some ({ c with buf := c.buf ++ bs, msgType := type }, none)
      | .cont => if c.buf = [] ∨ c.msgType ≠ type then none else some ({ c with buf := c.buf ++ bs }, none)
      | .last => if c.buf = [] ∨ c.msgType ≠ type then none
        else some ({ c with buf := [] }, some (c.msgType, c.buf ++ bs)) := by
  unfold proxyRecv
  rw [if_neg (by simp), if_neg (by simp), if_neg (by rw [List.length_cons]; omega), pduSar_pduHdr,
    pduType_pduHdr sar htype]
  cases sar with
  | complete => rfl
  | first => rfl
  | cont => rfl
  | last => rfl

/-- A full segment has one byte less of the PDU than the MTU. -/
theorem cut_segment (hmtu : 2 ≤ mtu) (hdr : UInt8) (msg : List UInt8) :
    (hdr :: msg).take mtu = hdr :: msg.take (mtu - 1) ∧ (hdr :: msg).drop mtu = msg.drop (mtu - 1) := by
  obtain ⟨n, rfl⟩ := Nat.exists_eq_add_of_le' (by omega : 1 ≤ mtu)
  exact ⟨rfl, rfl⟩

/-- A full segment leaves the same odd piece for the last one. -/
theorem cut_length (hlong : mtu - 1 ≤ msg.length) :
    (msg.take (mtu - 1)).length = mtu - 1 ∧ (msg.drop (mtu - 1)).length % (mtu - 1) = msg.length % (mtu - 1) := by
  rw [List.length_take, List.length_drop]
  exact ⟨Nat.min_eq_left hlong, (Nat.mod_eq_sub_mod hlong).symm⟩

/-- The loop over the rest of a PDU. It ends without a last segment if the rest fills its segments. -/
theorem segLoop_recv (hmtu : 2 ≤ mtu) (htype : type < 64) (hfuel : msg.length < fuel) (hbuf : c.buf ≠ [])
    (hmsg : c.msgType = type) (hroom : c.buf.length + msg.length ≤ clientBufSize) :
    ∃ segs, proxySegLoop mtu type fuel msg = some segs ∧
      recvAll c segs = if msg.length % (mtu - 1) = 0 then ({ c with buf := c.buf ++ msg }, [])
        else ({ c with buf := [] }, [(type, c.buf ++ msg)]) := by
  induction fuel generalizing c msg with
  | zero => omega
  | succ fuel ih =>
    unfold proxySegLoop
    by_cases hnil : msg.length = 0
    · obtain rfl := List.length_eq_zero_iff.1 hnil
      refine ⟨[], if_pos List.length_nil, ?_⟩
      rw [List.length_nil, Nat.zero_mod, if_pos rfl, List.append_nil]
      rfl
    rw [if_neg hnil]
    by_cases hlast : msg.length + 1 < mtu
    · have hmod : msg.length % (mtu - 1) = msg.length := Nat.mod_eq_of_lt (by omega)
      refine ⟨_, by rw [if_pos hlast], ?_⟩
      rw [hmod, if_neg hnil, recvAll, proxyRecv_hdr .last htype hroom]
      dsimp only
      rw [if_neg (by simp [hbuf, hmsg]), hmsg]
      rfl
    · obtain ⟨htake, hdrop⟩ := cut_segment hmtu (pduHdr .cont type) msg
      obtain ⟨hlen, hmod⟩ := @cut_length mtu msg (by omega)
      obtain ⟨segs, hsegs, hrecv⟩ := @ih { c with buf := c.buf ++ msg.take (mtu - 1) } (msg.drop (mtu - 1))
        (by rw [List.length_drop]; omega) (by simp [hbuf]) hmsg
        (by rw [List.length_append, hlen, List.length_drop]; omega)
      refine ⟨(pduHdr .cont type :: msg.take (mtu - 1)) :: segs, ?_, ?_⟩
      · rw [if_neg hlast]
        dsimp only
        rw [htake, hdrop, hsegs]
        rfl
      · rw [recvAll, proxyRecv_hdr .cont htype (by omega)]
        dsimp only
        rw [if_neg (by simp [hbuf, hmsg])]
        dsimp only
        rw [hrecv, hmod, List.append_assoc, List.take_append_drop]
        rfl

/-- A PDU from the first to the last segment. -/
theorem segments_recv (hmtu : 2 ≤ mtu) (htype : type < 64) (hbuf : c.buf = []) (hroom : msg.length ≤ clientBufSize) :
    ∃ segs, proxySegmentAndSend mtu type msg = some segs ∧
      recvAll c segs = if Whole mtu msg.length then ({ c with buf := [], msgType := type }, [(type, msg)])
        else ({ c with buf := msg, msgType := type }, []) := by
  unfold proxySegmentAndSend
  by_cases hfits : msg.length < mtu
  · have hwhole : Whole mtu msg.length := Or.inl hfits
    refine ⟨_, if_pos hfits, ?_⟩
    rw [if_pos hwhole, recvAll, proxyRecv_hdr .complete htype (by rw [hbuf]; simpa using hroom)]
    dsimp only
    rw [if_neg (not_not.2 hbuf), hbuf]
    rfl
  · obtain ⟨htake, hdrop⟩ := cut_segment hmtu (pduHdr .first type) msg
    obtain ⟨hlen, hmod⟩ := @cut_length mtu msg (by omega)
    have hnonempty : msg.take (mtu - 1) ≠ [] := by
      apply List.ne_nil_of_length_pos
      omega
    obtain ⟨segs, hsegs, hrecv⟩ := @segLoop_recv { c with buf := msg.take (mtu - 1), msgType := type } mtu type
      ((pduHdr .first type :: msg).length + 1) (msg.drop (mtu - 1)) hmtu htype
      (by rw [List.length_drop, List.length_cons]; omega) hnonempty rfl
      (by rw [hlen, List.length_drop]; omega)
    refine ⟨(pduHdr .first type :: msg.take (mtu - 1)) :: segs, ?_, ?_⟩
    · rw [if_neg hfits]
      dsimp only
      rw [htake, hdrop, hsegs]
      rfl
    · rw [recvAll, proxyRecv_hdr .first htype (by rw [hbuf, hlen]; simp; omega)]
      dsimp only
      rw [if_neg (not_not.2 hbuf), hbuf, List.nil_append]
      dsimp only
      rw [hrecv, hmod, List.take_append_drop]
      by_cases hfull : msg.length % (mtu - 1) = 0
      · have hnot : ¬ Whole mtu msg.length := by
          rintro (hlt | hne)
          · exact hfits hlt
          · exact hne hfull
        rw [if_pos hfull, if_neg hnot]
        rfl
      · have hwhole : Whole mtu msg.length := Or.inr hfull
        rw [if_neg hfull, if_pos hwhole]
        rfl

/-- A segment that `proxy_segment_and_send` makes: it starts a PDU, or it has something of it. -/
def Made (d : List UInt8) : Prop := pduSar d = .complete ∨ pduSar d = .first ∨ 2 ≤ d.length

/-- The segments of the loop are made by the code. -/
theorem segLoop_made {segs : List (List UInt8)} (hmtu : 2 ≤ mtu)
    (h : proxySegLoop mtu type fuel msg = some segs) : ∀ d ∈ segs, Made d := by
  induction fuel generalizing msg segs with
  | zero => cases h
  | succ fuel ih =>
    unfold proxySegLoop at h
    split at h
    · cases h
      exact List.forall_mem_nil _
    next hnil =>
    split at h
    · cases h
      intro d hd
      obtain rfl := List.mem_singleton.1 hd
      refine Or.inr (Or.inr ?_)
      rw [List.length_cons]
      omega
    next hlong =>
    obtain ⟨rest, hrest, rfl⟩ := Option.map_eq_some_iff.1 h
    intro d hd
    obtain rfl | hd := List.mem_cons.1 hd
    · refine Or.inr (Or.inr ?_)
      rw [List.length_take, List.length_cons]
      omega
    · exact ih hrest d hd

/-- So are all segments of a PDU. -/
theorem segments_made {segs : List (List UInt8)} (hmtu : 2 ≤ mtu)
    (h : proxySegmentAndSend mtu type msg = some segs) : ∀ d ∈ segs, Made d := by
  unfold proxySegmentAndSend at h
  split at h
  · cases h
    intro d hd
    obtain rfl := List.mem_singleton.1 hd
    exact Or.inl (pduSar_pduHdr .complete)
  · obtain ⟨rest, hrest, rfl⟩ := Option.map_eq_some_iff.1 h
    intro d hd
    obtain rfl | hd := List.mem_cons.1 hd
    · rw [(cut_segment hmtu _ msg).1]
      exact Or.inr (Or.inl (pduSar_pduHdr .first))
    · exact segLoop_made hmtu hrest d hd

/-- What a segment does while a PDU is not complete: it is refused, it goes on with the PDU, or it ends it. -/
theorem proxyRecv_pending (isProv : Bool) (d : List UInt8) (hbuf : c.buf ≠ []) :
    proxyRecv isProv d c = none ∨
      (∃ bs, proxyRecv isProv d c = some ({ c with buf := c.buf ++ bs }, none)) ∨
        pduSar d = .last ∧
          proxyRecv isProv d c = some ({ c with buf := [] }, some (c.msgType, c.buf ++ d.drop 1)) := by
  unfold proxyRecv
  split
  · exact Or.inl rfl
  split
  · exact Or.inl rfl
  split
  · exact Or.inl rfl
  dsimp only
  split
  · exact Or.inl rfl
  · exact Or.inl rfl
  · split
    · exact Or.inl rfl
    · exact Or.inr (Or.inl ⟨d.drop 1, rfl⟩)
  · next hsar =>
      split
      · exact Or.inl rfl
      · exact Or.inr (Or.inr ⟨hsar, rfl⟩)

/-- **a PDU that is not complete stays in front**: whatever is complete next starts with it and goes on. -/
theorem recvAll_pending {b : List UInt8} {ds : List (List UInt8)} (hmade : ∀ d ∈ ds, Made d) (hbuf : c.buf ≠ [])
    (hstart : b <+: c.buf) :
    (recvAll c ds).2 = [] ∨ ∃ type x rest, x ≠ [] ∧ (recvAll c ds).2 = (type, b ++ x) :: rest := by
  induction ds generalizing c with
  | nil => exact Or.inl rfl
  | cons d ds ih =>
    have hrest : ∀ d' ∈ ds, Made d' := fun d' hd' => hmade d' (List.mem_cons_of_mem d hd')
    obtain hrefused | ⟨bs, hgoes⟩ | ⟨hsar, hends⟩ := proxyRecv_pending (decide (pduType d = 3)) d hbuf
    · rw [recvAll, hrefused]
      exact ih hrest hbuf hstart
    · rw [recvAll, hgoes]
      have hgrown : c.buf ++ bs ≠ [] := List.append_ne_nil_of_left_ne_nil hbuf bs
      exact @ih { c with buf := c.buf ++ bs } hrest hgrown (hstart.trans (List.prefix_append _ _))
    · have hlong : 2 ≤ d.length := by
        obtain hmark | hmark | hlong := hmade d List.mem_cons_self
        · rw [hsar] at hmark
          cases hmark
        · rw [hsar] at hmark
          cases hmark
        · exact hlong
      have hmore : d.drop 1 ≠ [] := by
        apply List.ne_nil_of_length_pos
        rw [List.length_drop]
        omega
      obtain ⟨x, hx⟩ := hstart
      refine Or.inr ⟨c.msgType, x ++ d.drop 1, (recvAll { c with buf := [] } ds).2,
        List.append_ne_nil_of_right_ne_nil x hmore, ?_⟩
      rw [recvAll, hends, ← List.append_assoc, hx]
      rfl

/-- **One connection**: the PDUs are received as they were sent exactly if all of them are whole. -/
theorem recvAll_iff {msgs : List (ℕ × List UInt8)} (hmtu : 2 ≤ mtu) (hbuf : c.buf = [])
    (hfit : ∀ m ∈ msgs, m.1 < 64 ∧ m.2.length ≤ clientBufSize) :
    ∃ segs, msgs.mapM (fun m => proxySegmentAndSend mtu m.1 m.2) = some segs ∧
      (∀ d ∈ segs.flatten, Made d) ∧
        ((recvAll c segs.flatten).2 = msgs ↔ ∀ m ∈ msgs, Whole mtu m.2.length) := by
  induction msgs generalizing c with
  | nil => exact ⟨[], rfl, List.forall_mem_nil _, fun _ => List.forall_mem_nil _, fun _ => rfl⟩
  | cons m msgs ih =>
    obtain ⟨type, msg⟩ := m
    obtain ⟨htype, hroom⟩ := hfit (type, msg) List.mem_cons_self
    have hrestfit : ∀ m ∈ msgs, m.1 < 64 ∧ m.2.length ≤ clientBufSize := fun m hm =>
      hfit m (List.mem_cons_of_mem _ hm)
    obtain ⟨ds, hds, hrecv⟩ := segments_recv hmtu htype hbuf hroom
    have hdsMade := segments_made hmtu hds
    by_cases hwhole : Whole mtu msg.length
    · rw [if_pos hwhole] at hrecv
      obtain ⟨segs, hsegs, hmade, hiff⟩ := @ih { c with buf := [], msgType := type } rfl hrestfit
      refine ⟨ds :: segs, ?_, ?_, ?_⟩
      · rw [List.mapM_cons, hds, hsegs]
        rfl
      · rw [List.flatten_cons]
        exact List.forall_mem_append.2 ⟨hdsMade, hmade⟩
      · rw [List.flatten_cons, recvAll_append, hrecv, List.forall_mem_cons]
        dsimp only
        rw [List.singleton_append, List.cons_eq_cons, hiff]
        exact ⟨fun h => ⟨hwhole, h.2⟩, fun h => ⟨rfl, h.2⟩⟩
    · rw [if_neg hwhole] at hrecv
      obtain ⟨segs, hsegs, hmade, -⟩ := ih hbuf hrestfit
      have hnonempty : msg ≠ [] := by
        rintro rfl
        exact hwhole (Or.inl (by rw [List.length_nil]; omega))
      refine ⟨ds :: segs, ?_, ?_, ?_⟩
      · rw [List.mapM_cons, hds, hsegs]
        rfl
      · rw [List.flatten_cons]
        exact List.forall_mem_append.2 ⟨hdsMade, hmade⟩
      · rw [List.flatten_cons, recvAll_append, hrecv, List.nil_append, List.forall_mem_cons]
        have hpending := @recvAll_pending { c with buf := msg, msgType := type } msg segs.flatten hmade hnonempty
          List.prefix_rfl
        constructor
        · intro hall
          obtain hnone | ⟨type', x, rest, hx, hsome⟩ := hpending
          · rw [hnone] at hall
            cases hall
          · rw [hsome] at hall
            obtain ⟨hhead, -⟩ := List.cons_eq_cons.1 hall
            have hsame : msg ++ x = msg := (Prod.mk.inj hhead).2
            exact absurd (List.append_right_eq_self.1 hsame) hx
        · intro hall
          exact absurd hall.1 hwhole

end Client

/-! ## All connections -/

section Connections

variable {cs : List ProxyClient} {c c' : ProxyClient} {conn mtu : ℕ} {w : ProxyWrite} {ws : List ProxyWrite}

/-- Receiving leaves the connection. -/
theorem proxyRecv_conn {isProv : Bool} {data : List UInt8} {pdu : Option (ℕ × List UInt8)}
    (h : proxyRecv isProv data c = some (c', pdu)) : c'.conn = c.conn := by
  unfold proxyRecv at h
  split at h
  · cases h
  split at h
  · cases h
  split at h
  · cases h
  dsimp only at h
  split at h
  all_goals
    split at h
    · cases h
    · cases h
      rfl

/-- The client of a connection. -/
def clientOf (conn : ℕ) (cs : List ProxyClient) : Option ProxyClient := cs.find? fun c => c.conn = conn

/-- The PDUs of a connection. -/
def pdusOf (conn : ℕ) (pdus : List ProxyPdu) : List (ℕ × List UInt8) :=
  (pdus.filter fun p => p.conn = conn).map fun p => (p.type, p.data)

/-- The segments of a connection. -/
def dataOf (conn : ℕ) (ws : List ProxyWrite) : List (List UInt8) := (ws.filter fun w => w.conn = conn).map (·.data)

/-- The PDUs of a connection. -/
theorem pdusOf_append (conn : ℕ) (ps qs : List ProxyPdu) :
    pdusOf conn (ps ++ qs) = pdusOf conn ps ++ pdusOf conn qs := by
  unfold pdusOf
  rw [List.filter_append, List.map_append]

/-- A segment of another connection. -/
theorem proxyWrite_other (hw : w.conn ≠ conn) :
    clientOf conn (proxyWrite w cs).1 = clientOf conn cs ∧ pdusOf conn (proxyWrite w cs).2 = [] := by
  induction cs with
  | nil => exact ⟨rfl, rfl⟩
  | cons c cs ih =>
    rw [proxyWrite]
    by_cases hc : c.conn = w.conn
    · have hskip : ¬ c.conn = conn := fun heq => hw (hc.symm.trans heq)
      rw [if_pos hc]
      generalize hr : proxyRecv w.isProv w.data c = r
      cases r with
      | none => exact ⟨rfl, rfl⟩
      | some res =>
        obtain ⟨c', pdu⟩ := res
        have hskip' : ¬ c'.conn = conn := by
          rw [proxyRecv_conn hr]
          exact hskip
        refine ⟨?_, ?_⟩
        · simp only [clientOf, List.find?_cons, hskip, hskip', decide_false]
        · cases pdu with
          | none => rfl
          | some p =>
            simp only [Option.map_some, Option.toList_some, pdusOf, List.filter_cons, hskip, decide_false,
              Bool.false_eq_true, if_false, List.filter_nil, List.map_nil]
    · rw [if_neg hc]
      refine ⟨?_, ih.2⟩
      have hrest := ih.1
      unfold clientOf at hrest ⊢
      rw [List.find?_cons, List.find?_cons, hrest]

/-- A segment of the connection goes to its client. -/
theorem proxyWrite_own (hc : clientOf conn cs = some c) (hw : w.conn = conn) :
    match proxyRecv w.isProv w.data c with
    | none => clientOf conn (proxyWrite w cs).1 = some c ∧ pdusOf conn (proxyWrite w cs).2 = []
    | some (c', pdu) =>
      clientOf conn (proxyWrite w cs).1 = some c' ∧ pdusOf conn (proxyWrite w cs).2 = pdu.toList := by
  induction cs with
  | nil => cases hc
  | cons d cs ih =>
    rw [proxyWrite]
    by_cases hd : d.conn = conn
    · have hfirst : clientOf conn (d :: cs) = some d := by
        simp only [clientOf, List.find?_cons, hd, decide_true]
      obtain rfl : d = c := Option.some.inj (hfirst.symm.trans hc)
      rw [if_pos (hd.trans hw.symm)]
      generalize hr : proxyRecv w.isProv w.data d = r
      cases r with
      | none => exact ⟨hfirst, rfl⟩
      | some res =>
        obtain ⟨c', pdu⟩ := res
        have hsame : c'.conn = conn := (proxyRecv_conn hr).trans hd
        refine ⟨?_, ?_⟩
        · simp only [clientOf, List.find?_cons, hsame, decide_true]
        · cases pdu with
          | none => rfl
          | some p =>
            simp only [Option.map_some, Option.toList_some, pdusOf, List.filter_cons, hd, decide_true, if_true,
              List.filter_nil, List.map_cons, List.map_nil]
    · have hrest : clientOf conn cs = some c := by
        simpa only [clientOf, List.find?_cons, hd, decide_false] using hc
      have hskip : ∀ cs', clientOf conn (d :: cs') = clientOf conn cs' := by
        intro cs'
        simp only [clientOf, List.find?_cons, hd, decide_false]
      rw [if_neg (by rw [hw]; exact hd)]
      dsimp only
      rw [hskip]
      exact ih hrest

/-- What a connection brings does not depend on the others. -/
theorem proxyWrites_conn (hc : clientOf conn cs = some c)
    (hprov : ∀ w ∈ ws, w.conn = conn → w.isProv = decide (pduType w.data = 3)) :
    pdusOf conn (proxyWrites cs ws) = (recvAll c (dataOf conn ws)).2 := by
  induction ws generalizing cs c with
  | nil => rfl
  | cons w ws ih =>
    have hrest : ∀ w' ∈ ws, w'.conn = conn → w'.isProv = decide (pduType w'.data = 3) := fun w' hw' =>
      hprov w' (List.mem_cons_of_mem w hw')
    rw [proxyWrites]
    dsimp only
    rw [pdusOf_append]
    by_cases hw : w.conn = conn
    · have hdata : dataOf conn (w :: ws) = w.data :: dataOf conn ws := by
        simp only [dataOf, List.filter_cons, hw, decide_true, if_true, List.map_cons]
      have hown := proxyWrite_own hc hw
      rw [hprov w List.mem_cons_self hw] at hown
      rw [hdata, recvAll]
      generalize proxyRecv (decide (pduType w.data = 3)) w.data c = r at hown
      cases r with
      | none =>
        rw [hown.2, List.nil_append]
        exact ih hown.1 hrest
      | some res =>
        obtain ⟨c', pdu⟩ := res
        rw [hown.2, ih hown.1 hrest]
    · have hdata : dataOf conn (w :: ws) = dataOf conn ws := by
        simp only [dataOf, List.filter_cons, hw, decide_false, Bool.false_eq_true, if_false]
      obtain ⟨hsame, hnone⟩ := @proxyWrite_other cs conn w hw
      rw [hdata, hnone, List.nil_append]
      exact ih (hsame.trans hc) hrest

/-- **A connection carries PDUs whole exactly if none of them fills its segments to the end.** The loop ends for every
PDU, and what comes on other connections in between makes no difference. -/
theorem proxy_link_exact {msgs : List (ℕ × List UInt8)} (hmtu : 2 ≤ mtu)
    (hfit : ∀ m ∈ msgs, m.1 < 64 ∧ m.2.length ≤ clientBufSize)
    (hc : cs.find? (fun c => c.conn = conn) = some c) (hbuf : c.buf = []) :
    ∃ segs, msgs.mapM (fun m => proxySegmentAndSend mtu m.1 m.2) = some segs ∧
      ∀ ws : List ProxyWrite, (ws.filter fun w => w.conn = conn).map (·.data) = segs.flatten →
        (∀ w ∈ ws, w.conn = conn → w.isProv = decide (pduType w.data = 3)) →
        (((proxyWrites cs ws).filter fun p => p.conn = conn).map (fun p => (p.type, p.data)) = msgs ↔
          ∀ m ∈ msgs, Whole mtu m.2.length) := by
  obtain ⟨segs, hsegs, -, hiff⟩ := recvAll_iff hmtu hbuf hfit
  refine ⟨segs, hsegs, fun ws hws hprov => ?_⟩
  have hdata : dataOf conn ws = segs.flatten := hws
  have hconn := proxyWrites_conn hc hprov
  rw [hdata] at hconn
  rw [← hiff, ← hconn]
  rfl

end Connections

/-- Two clients, each with a connection of its own. -/
def twoClients : List ProxyClient := [⟨1, [0, 0], .whitelist, 0, []⟩, ⟨2, [0, 0], .whitelist, 0, []⟩]

/-- A network PDU and a configuration PDU; each needs two segments of 20 bytes. -/
def twoPdus : List (ℕ × List UInt8) := [(0, List.replicate 30 1), (2, List.replicate 37 2)]

/-- Both arrive at the second client, whatever comes from the first one. -/
theorem proxy_link_exact_two :
    ∃ segs, twoPdus.mapM (fun m => proxySegmentAndSend 20 m.1 m.2) = some segs ∧
      ∀ ws : List ProxyWrite, (ws.filter fun w => w.conn = 2).map (·.data) = segs.flatten →
        (∀ w ∈ ws, w.conn = 2 → w.isProv = decide (pduType w.data = 3)) →
        ((proxyWrites twoClients ws).filter fun p => p.conn = 2).map (fun p => (p.type, p.data)) = twoPdus := by
  have hmtu : 2 ≤ 20 := by norm_num
  have hfit : ∀ m ∈ twoPdus, m.1 < 64 ∧ m.2.length ≤ clientBufSize := by decide
  have hc : twoClients.find? (fun c => c.conn = 2) = some ⟨2, [0, 0], .whitelist, 0, []⟩ := by decide
  obtain ⟨segs, hsegs, hiff⟩ := proxy_link_exact hmtu hfit hc rfl
  exact ⟨segs, hsegs, fun ws hws hprov => (hiff ws hws hprov).2 (by decide)⟩

end GenieSdk.Analysis.Proxy
