import GenieSdk.Lib.Blocks
import GenieSdk.Model.Proxy

/-!
# The filter of a proxy client

The filter is meant to be a set of addresses that a client extends and reduces, and that grows or shrinks with the
addresses that the client sends from once it has subscribed. It is kept in an array in which zero marks a free place:
**the array holds the set exactly as long as the set does not outgrow it** (`proxy_filter_exact`), and then the proxy
passes on what the set says.
-/

set_option autoImplicit false

namespace GenieSdk.Analysis.ProxyFilter

open GenieSdk.Lib GenieSdk.Model

/-! ## What the filter is for -/

/-- A filter as a set. -/
structure AddrSet where
  type : FilterType
  addrs : Finset ℕ

/-- The addresses of a message; the unassigned one is none. -/
def addrsOf (addrs : List ℕ) : Finset ℕ := addrs.toFinset.erase 0

/-- What a configuration message asks for. -/
inductive FilterCmd
  | set (type : FilterType)
  | add (addrs : List ℕ)
  | remove (addrs : List ℕ)
  | nothing

def cmdOf : List UInt8 → FilterCmd
  | [] => .nothing
  | opcode :: rest =>
    if opcode = 0x00 then
      match rest with
      | [] => .nothing
      | type :: _ => if type = 0x00 then .set .whitelist else if type = 0x01 then .set .blacklist else .nothing
    else if opcode = 0x01 then .add (cfgAddrs rest.length rest)
    else if opcode = 0x02 then .remove (cfgAddrs rest.length rest)
    else .nothing

def AddrSet.cmd (a : AddrSet) : FilterCmd → AddrSet
  | .set type => ⟨type, ∅⟩
  | .add addrs => { a with addrs := a.addrs ∪ addrsOf addrs }
  | .remove addrs => { a with addrs := a.addrs \ addrsOf addrs }
  | .nothing => a

/-- The source of a message of the client. -/
def AddrSet.learn (a : AddrSet) (addr : ℕ) : AddrSet :=
  match a.type with
  | .whitelist => a.cmd (.add [addr])
  | .blacklist => a.cmd (.remove [addr])
  | .none => a
  | .prov => a

/-- A client without a filter that turns the notifications of a service on gets a filter of the kind of the service. -/
def AddrSet.subscribe (a : AddrSet) (type : FilterType) (buf : List UInt8) : AddrSet :=
  if buf = [0x01, 0x00] ∧ a.type = .none then { a with type := type } else a

/-- A service that goes leaves no filter in use. -/
def AddrSet.leave (a : AddrSet) (types : List FilterType) : AddrSet :=
  if a.type ∈ types then { a with type := .none } else a

def AddrSet.step (a : AddrSet) : FilterAct → AddrSet
  | .cfg buf => a.cmd (cmdOf buf)
  | .addrAdd addr => a.learn addr
  | .proxyCcc buf => a.subscribe .whitelist buf
  | .provCcc buf => a.subscribe .prov buf
  | .gattEnable => { a with type := .whitelist }
  | .gattDisconnect => a.leave [.whitelist, .blacklist]
  | .provEnable => { a with type := .prov }
  | .provDisable => a.leave [.prov]

/-- What is passed on to the client. -/
def AddrSet.passes (a : AddrSet) (addr : ℕ) : Prop :=
  match a.type with
  | .whitelist => addr ∈ a.addrs ∨ addr = addrTmallGenie
  | .blacklist => addr ∉ a.addrs
  | .none => False
  | .prov => False

/-- The array holds the set. -/
structure Holds (c : ProxyClient) (a : AddrSet) : Prop where
  type : c.filterType = a.type
  addrs : ∀ addr, addr ≠ 0 → (addr ∈ c.filter ↔ addr ∈ a.addrs)

variable {c : ProxyClient} {a : AddrSet} {addr b : ℕ} {filter addrs : List ℕ}

/-- The proxy passes on what the set says. -/
theorem Holds.passes (h : Holds c a) (haddr : addr ≠ 0) : clientFilterMatch c addr = true ↔ a.passes addr := by
  unfold clientFilterMatch AddrSet.passes
  rw [h.type]
  cases a.type with
  | none => simp
  | prov => simp
  | whitelist =>
    dsimp only
    rw [Bool.or_eq_true, List.contains_iff_mem, h.addrs addr haddr, decide_eq_true_iff]
  | blacklist =>
    dsimp only
    rw [Bool.not_eq_true', ← Bool.not_eq_true, List.contains_iff_mem, h.addrs addr haddr]

/-! ## The array -/

/-- No address has two places. -/
def Single (filter : List ℕ) : Prop := ∀ b, b ≠ 0 → filter.count b ≤ 1

@[simp] theorem length_filterAdd (addr : ℕ) (filter : List ℕ) : (filterAdd addr filter).length = filter.length := by
  unfold filterAdd
  split
  · rfl
  · split
    · rfl
    · split
      · rfl
      · exact List.length_set

@[simp] theorem length_filterRemove (addr : ℕ) (filter : List ℕ) :
    (filterRemove addr filter).length = filter.length := by
  unfold filterRemove
  split
  · rfl
  · split
    · rfl
    · exact List.length_set

/-- An address is added if it is there already or there is a free place. -/
theorem count_filterAdd (hsingle : Single filter) (haddr : addr ≠ 0) (hb : b ≠ 0) (hroom : addr ∈ filter ∨ 0 ∈ filter) :
    (filterAdd addr filter).count b = if b = addr then 1 else filter.count b := by
  unfold filterAdd
  rw [if_neg haddr]
  by_cases hmem : addr ∈ filter
  · rw [if_pos (List.contains_iff_mem.2 hmem)]
    split
    · next heq =>
        have hpos := List.count_pos_iff.2 hmem
        have hone := hsingle addr haddr
        rw [heq]
        omega
    · rfl
  · rw [if_neg (by rw [List.contains_iff_mem]; exact hmem)]
    have hzero : 0 ∈ filter := hroom.resolve_left hmem
    split
    · next hnone =>
        have hfree := List.findIdx?_eq_none_iff.1 hnone 0 hzero
        simp at hfree
    · next i hi =>
        obtain ⟨hlt, hval, -⟩ := List.findIdx?_eq_some_iff_getElem.1 hi
        have hslot : filter[i] = 0 := by simpa using hval
        have habsent : filter.count addr = 0 := List.count_eq_zero.2 hmem
        rw [List.count_set hlt, hslot]
        by_cases heq : b = addr
        · subst heq
          simp [hb.symm, habsent]
        · simp [hb.symm, heq, Ne.symm heq]

/-- An address that is removed is gone, and the others are as often there as before. -/
theorem count_filterRemove (hsingle : Single filter) (haddr : addr ≠ 0) (hb : b ≠ 0) :
    (filterRemove addr filter).count b = if b = addr then 0 else filter.count b := by
  unfold filterRemove
  rw [if_neg haddr]
  split
  · next hnone =>
      have habsent : addr ∉ filter := by
        intro hmem
        have hfound := List.findIdx?_eq_none_iff.1 hnone addr hmem
        simp at hfound
      split
      · next heq =>
          rw [heq]
          exact List.count_eq_zero.2 habsent
      · rfl
  · next i hi =>
      obtain ⟨hlt, hval, -⟩ := List.findIdx?_eq_some_iff_getElem.1 hi
      have hslot : filter[i] = addr := by simpa using hval
      rw [List.count_set hlt, hslot]
      by_cases heq : b = addr
      · subst heq
        have hone := hsingle b hb
        simp [hb.symm]
        omega
      · simp [hb.symm, heq, Ne.symm heq]

/-! ## One message -/

/-- The array holds the set, each address once. -/
structure Inv (c : ProxyClient) (a : AddrSet) : Prop extends Holds c a where
  single : Single c.filter
  assigned : 0 ∉ a.addrs

/-- What is in the array has a place of its own. -/
theorem Holds.card_le (h : Holds c a) (hassigned : 0 ∉ a.addrs) : a.addrs.card ≤ c.filter.length := by
  have hsub : a.addrs ⊆ c.filter.toFinset := by
    intro addr haddr
    have hne : addr ≠ 0 := fun heq => hassigned (heq ▸ haddr)
    exact List.mem_toFinset.2 ((h.addrs addr hne).2 haddr)
  exact (Finset.card_le_card hsub).trans (List.toFinset_card_le c.filter)

/-- An array that has more places than the set has addresses has a free one. -/
theorem Inv.free (h : Inv c a) (hroom : a.addrs.card < c.filter.length) : 0 ∈ c.filter := by
  by_contra hfull
  have hnodup : c.filter.Nodup := by
    rw [List.nodup_iff_count_le_one]
    intro b
    by_cases hb : b = 0
    · subst hb
      rw [List.count_eq_zero.2 hfull]
      exact Nat.zero_le 1
    · exact h.single b hb
  have hsame : c.filter.toFinset = a.addrs := by
    ext addr
    rw [List.mem_toFinset]
    by_cases haddr : addr = 0
    · subst haddr
      exact iff_of_false hfull h.assigned
    · exact h.addrs addr haddr
  have hcard := List.toFinset_card_of_nodup hnodup
  rw [hsame] at hcard
  omega

/-- An address is added, if there is room. -/
theorem Inv.add (h : Inv c a) (haddr : addr ≠ 0) (hroom : (insert addr a.addrs).card ≤ c.filter.length) :
    Inv { c with filter := filterAdd addr c.filter } { a with addrs := insert addr a.addrs } := by
  have hplace : addr ∈ c.filter ∨ 0 ∈ c.filter := by
    by_cases hmem : addr ∈ a.addrs
    · exact Or.inl ((h.addrs addr haddr).2 hmem)
    · rw [Finset.card_insert_of_notMem hmem] at hroom
      exact Or.inr (h.free hroom)
  have hcount := fun b (hb : b ≠ 0) => count_filterAdd h.single haddr hb hplace
  refine ⟨⟨h.type, fun b hb => ?_⟩, fun b hb => ?_, ?_⟩
  · rw [← List.count_pos_iff, hcount b hb, Finset.mem_insert, ← h.addrs b hb, ← List.count_pos_iff]
    split
    · next heq => simp [heq]
    · next hne => simp [hne]
  · have hone := h.single b hb
    change (filterAdd addr c.filter).count b ≤ 1
    rw [hcount b hb]
    split
    · exact le_rfl
    · exact hone
  · rw [Finset.mem_insert]
    rintro (heq | hmem)
    · exact haddr heq.symm
    · exact h.assigned hmem

/-- An address is removed. -/
theorem Inv.remove (h : Inv c a) (haddr : addr ≠ 0) :
    Inv { c with filter := filterRemove addr c.filter } { a with addrs := a.addrs.erase addr } := by
  have hcount := fun b (hb : b ≠ 0) => count_filterRemove h.single haddr hb
  refine ⟨⟨h.type, fun b hb => ?_⟩, fun b hb => ?_, ?_⟩
  · rw [← List.count_pos_iff, hcount b hb, Finset.mem_erase, ← h.addrs b hb, ← List.count_pos_iff]
    split
    · next heq => simp [heq]
    · next hne => simp [hne]
  · have hone := h.single b hb
    change (filterRemove addr c.filter).count b ≤ 1
    rw [hcount b hb]
    split
    · exact Nat.zero_le 1
    · exact hone
  · intro hmem
    exact h.assigned (Finset.mem_of_mem_erase hmem)

/-- The unassigned address does not count. -/
theorem addrsOf_zero (addrs : List ℕ) : addrsOf (0 :: addrs) = addrsOf addrs := by
  unfold addrsOf
  rw [List.toFinset_cons, Finset.erase_insert_eq_erase]

/-- An assigned one does. -/
theorem addrsOf_cons (haddr : addr ≠ 0) (addrs : List ℕ) : addrsOf (addr :: addrs) = insert addr (addrsOf addrs) := by
  unfold addrsOf
  rw [List.toFinset_cons, Finset.erase_insert_of_ne haddr]

/-- A message that adds addresses. -/
theorem Inv.addAll (h : Inv c a) (hroom : (a.addrs ∪ addrsOf addrs).card ≤ c.filter.length) :
    Inv { c with filter := addrs.foldl (fun filter addr => filterAdd addr filter) c.filter }
      { a with addrs := a.addrs ∪ addrsOf addrs } := by
  induction addrs generalizing c a with
  | nil =>
    have hnone : addrsOf [] = ∅ := rfl
    rw [hnone, Finset.union_empty]
    exact h
  | cons addr addrs ih =>
    rw [List.foldl_cons]
    by_cases haddr : addr = 0
    · subst haddr
      rw [addrsOf_zero] at hroom ⊢
      exact ih h hroom
    · rw [addrsOf_cons haddr, Finset.union_insert, ← Finset.insert_union] at hroom ⊢
      have hfirst : (insert addr a.addrs).card ≤ c.filter.length :=
        (Finset.card_le_card Finset.subset_union_left).trans hroom
      have hone := h.add haddr hfirst
      apply ih hone
      rw [length_filterAdd]
      exact hroom

/-- A message that removes addresses. -/
theorem Inv.removeAll (h : Inv c a) :
    Inv { c with filter := addrs.foldl (fun filter addr => filterRemove addr filter) c.filter }
      { a with addrs := a.addrs \ addrsOf addrs } := by
  induction addrs generalizing c a with
  | nil =>
    have hnone : addrsOf [] = ∅ := rfl
    rw [hnone, Finset.sdiff_empty]
    exact h
  | cons addr addrs ih =>
    rw [List.foldl_cons]
    by_cases haddr : addr = 0
    · subst haddr
      rw [addrsOf_zero]
      exact ih h
    · rw [addrsOf_cons haddr, Finset.sdiff_insert, ← Finset.erase_sdiff_comm]
      exact ih (h.remove haddr)

/-- The filter is emptied. -/
theorem inv_filterSet (c : ProxyClient) (type : FilterType) : Inv (filterSet type c) ⟨type, ∅⟩ := by
  have hzero : ∀ b, b ≠ 0 → b ∉ c.filter.map fun _ => 0 := by
    intro b hb hmem
    obtain ⟨-, -, rfl⟩ := List.mem_map.1 hmem
    exact hb rfl
  refine ⟨⟨rfl, fun b hb => ?_⟩, fun b hb => ?_, Finset.notMem_empty 0⟩
  · exact iff_of_false (hzero b hb) (Finset.notMem_empty b)
  · change (c.filter.map fun _ => 0).count b ≤ 1
    rw [List.count_eq_zero.2 (hzero b hb)]
    exact Nat.zero_le 1

/-- A configuration message does what it asks for, if there is room. -/
theorem Inv.cfg (h : Inv c a) (buf : List UInt8) (hroom : (a.cmd (cmdOf buf)).addrs.card ≤ c.filter.length) :
    Inv (proxyCfg buf c) (a.cmd (cmdOf buf)) := by
  cases buf with
  | nil => exact h
  | cons opcode rest =>
    unfold proxyCfg
    unfold cmdOf at hroom ⊢
    dsimp only at hroom ⊢
    by_cases hset : opcode = 0x00
    · rw [if_pos hset, if_pos hset]
      cases rest with
      | nil => exact h
      | cons type rest =>
        dsimp only
        split
        · exact inv_filterSet c .whitelist
        · split
          · exact inv_filterSet c .blacklist
          · exact h
    · rw [if_neg hset] at hroom ⊢
      rw [if_neg hset]
      by_cases hadd : opcode = 0x01
      · rw [if_pos hadd] at hroom ⊢
        rw [if_pos hadd]
        exact h.addAll hroom
      · rw [if_neg hadd, if_neg hadd]
        split
        · exact h.removeAll
        · exact h

/-- The source of a message is learned as a message with one address. -/
theorem Inv.learn (h : Inv c a) (hroom : (a.learn addr).addrs.card ≤ c.filter.length) :
    Inv (btMeshProxyAddrAdd addr c) (a.learn addr) := by
  unfold btMeshProxyAddrAdd
  unfold AddrSet.learn at hroom ⊢
  rw [h.type]
  cases htype : a.type with
  | none => exact h
  | prov => exact h
  | whitelist =>
    rw [htype] at hroom
    have hadd : Inv { c with filter := filterAdd addr c.filter } (a.cmd (.add [addr])) := h.addAll hroom
    rw [h.type.trans htype] at hadd
    exact hadd
  | blacklist =>
    have hremove : Inv { c with filter := filterRemove addr c.filter } (a.cmd (.remove [addr])) :=
      @Inv.removeAll c a [addr] h
    rw [h.type.trans htype] at hremove
    exact hremove

/-- What the filter is used for says nothing about its addresses. -/
theorem Inv.retype (h : Inv c a) (type : FilterType) : Inv { c with filterType := type } { a with type := type } :=
  ⟨⟨rfl, h.addrs⟩, h.single, h.assigned⟩

/-- The two bytes that turn the notifications on. -/
theorem notify_iff (buf : List UInt8) : (buf.length = 2 ∧ leVal buf = gattCccNotify) ↔ buf = [0x01, 0x00] := by
  constructor
  · rintro ⟨hlen, hval⟩
    have hbytes := leBytes_leVal buf
    rw [hlen, hval] at hbytes
    exact hbytes.symm
  · rintro rfl
    exact ⟨rfl, by decide⟩

/-- A write to the configuration of a service, as both services take it. -/
theorem Inv.subscribe (h : Inv c a) (type : FilterType) (buf : List UInt8) :
    Inv (if buf.length ≠ 2 then c else if leVal buf ≠ gattCccNotify then c
      else if c.filterType = .none then { c with filterType := type } else c) (a.subscribe type buf) := by
  unfold AddrSet.subscribe
  simp only [← notify_iff, h.type]
  by_cases hlen : buf.length = 2
  · by_cases hval : leVal buf = gattCccNotify
    · by_cases hnone : a.type = .none
      · rw [if_neg (not_not.2 hlen), if_neg (not_not.2 hval), if_pos hnone, if_pos ⟨⟨hlen, hval⟩, hnone⟩]
        exact h.retype type
      · rw [if_neg (not_not.2 hlen), if_neg (not_not.2 hval), if_neg hnone, if_neg fun hall => hnone hall.2]
        exact h
    · rw [if_neg (not_not.2 hlen), if_pos hval, if_neg fun hall => hval hall.1.2]
      exact h
  · rw [if_pos hlen, if_neg fun hall => hlen hall.1.1]
    exact h

/-- One message, one write or one service that comes or goes. -/
theorem Inv.step {act : FilterAct} (h : Inv c a) (hroom : (a.step act).addrs.card ≤ c.filter.length) :
    Inv (filterStep c act) (a.step act) := by
  cases act with
  | cfg buf => exact h.cfg buf hroom
  | addrAdd addr => exact h.learn hroom
  | proxyCcc buf => exact h.subscribe .whitelist buf
  | provCcc buf => exact h.subscribe .prov buf
  | gattEnable => exact h.retype .whitelist
  | gattDisconnect =>
    change Inv (btMeshProxyGattDisconnect c) (a.leave _)
    simp only [btMeshProxyGattDisconnect, AddrSet.leave, h.type, List.mem_cons, List.not_mem_nil, or_false]
    split
    · exact h.retype .none
    · exact h
  | provEnable => exact h.retype .prov
  | provDisable =>
    change Inv (btMeshProxyProvDisable c) (a.leave _)
    simp only [btMeshProxyProvDisable, AddrSet.leave, h.type, List.mem_singleton]
    split
    · exact h.retype .none
    · exact h

/-- Adding addresses leaves the size of the array. -/
theorem length_addAll (addrs filter : List ℕ) :
    (addrs.foldl (fun filter addr => filterAdd addr filter) filter).length = filter.length :=
  foldl_keeps (P := fun f : List ℕ => f.length = filter.length)
    (fun f addr hf => (length_filterAdd addr f).trans hf) rfl addrs

/-- So does removing them. -/
theorem length_removeAll (addrs filter : List ℕ) :
    (addrs.foldl (fun filter addr => filterRemove addr filter) filter).length = filter.length :=
  foldl_keeps (P := fun f : List ℕ => f.length = filter.length)
    (fun f addr hf => (length_filterRemove addr f).trans hf) rfl addrs

/-- The array keeps its places. -/
theorem length_filterStep (c : ProxyClient) (act : FilterAct) :
    (filterStep c act).filter.length = c.filter.length := by
  have hset : ∀ type, (filterSet type c).filter.length = c.filter.length := fun type => List.length_map _
  cases act with
  | cfg buf =>
    change (proxyCfg buf c).filter.length = c.filter.length
    unfold proxyCfg
    split
    · rfl
    split
    · split
      · rfl
      split
      · exact hset .whitelist
      split
      · exact hset .blacklist
      · rfl
    split
    · exact length_addAll _ c.filter
    split
    · exact length_removeAll _ c.filter
    · rfl
  | addrAdd addr =>
    change (btMeshProxyAddrAdd addr c).filter.length = c.filter.length
    unfold btMeshProxyAddrAdd
    split
    · exact length_filterAdd addr c.filter
    · exact length_filterRemove addr c.filter
    · rfl
    · rfl
  | proxyCcc buf => simp only [filterStep, proxyCccWrite]; split_ifs <;> rfl
  | provCcc buf => simp only [filterStep, provCccWrite]; split_ifs <;> rfl
  | gattEnable => rfl
  | gattDisconnect => simp only [filterStep, btMeshProxyGattDisconnect]; split <;> rfl
  | provEnable => rfl
  | provDisable => simp only [filterStep, btMeshProxyProvDisable]; split <;> rfl

/-! ## Runs -/

/-- A run in which the set has room. -/
theorem Inv.run {acts : List FilterAct} (h : Inv c a)
    (hroom : ∀ pre, pre <+: acts → (pre.foldl AddrSet.step a).addrs.card ≤ c.filter.length) :
    Inv (acts.foldl filterStep c) (acts.foldl AddrSet.step a) := by
  induction acts generalizing c a with
  | nil => exact h
  | cons act acts ih =>
    have hone : (a.step act).addrs.card ≤ c.filter.length := hroom [act] ⟨acts, rfl⟩
    rw [List.foldl_cons, List.foldl_cons]
    apply ih (h.step hone)
    intro pre hpre
    rw [length_filterStep]
    exact hroom (act :: pre) ((List.prefix_cons_inj act).2 hpre)

/-- The unassigned address does not come into the set. -/
theorem assigned_step (a : AddrSet) (act : FilterAct) (hassigned : 0 ∉ a.addrs) : 0 ∉ (a.step act).addrs := by
  have hnone : ∀ addrs, 0 ∉ addrsOf addrs := fun addrs => Finset.notMem_erase 0 _
  have hsubscribe : ∀ type buf, (a.subscribe type buf).addrs = a.addrs := by
    intro type buf
    unfold AddrSet.subscribe
    split <;> rfl
  have hleave : ∀ types, (a.leave types).addrs = a.addrs := by
    intro types
    unfold AddrSet.leave
    split <;> rfl
  have hcmd : ∀ cmd, 0 ∉ (a.cmd cmd).addrs := by
    intro cmd
    cases cmd with
    | set type => exact Finset.notMem_empty 0
    | add addrs => exact fun hmem => (Finset.mem_union.1 hmem).elim hassigned (hnone addrs)
    | remove addrs => exact fun hmem => hassigned (Finset.mem_sdiff.1 hmem).1
    | nothing => exact hassigned
  cases act with
  | cfg buf => exact hcmd (cmdOf buf)
  | addrAdd addr =>
    change 0 ∉ (a.learn addr).addrs
    unfold AddrSet.learn
    split
    · exact hcmd (.add [addr])
    · exact hcmd (.remove [addr])
    · exact hassigned
    · exact hassigned
  | proxyCcc buf => exact (hsubscribe .whitelist buf).symm ▸ hassigned
  | provCcc buf => exact (hsubscribe .prov buf).symm ▸ hassigned
  | gattEnable => exact hassigned
  | gattDisconnect => exact (hleave _).symm ▸ hassigned
  | provEnable => exact hassigned
  | provDisable => exact (hleave _).symm ▸ hassigned

/-- The set never gets the unassigned address. -/
theorem assigned_run (acts : List FilterAct) (hassigned : 0 ∉ a.addrs) : 0 ∉ (acts.foldl AddrSet.step a).addrs :=
  foldl_keeps (P := fun a : AddrSet => 0 ∉ a.addrs) assigned_step hassigned acts

/-- The array keeps its size. -/
theorem length_run (acts : List FilterAct) (c : ProxyClient) :
    (acts.foldl filterStep c).filter.length = c.filter.length :=
  foldl_keeps (P := fun d : ProxyClient => d.filter.length = c.filter.length)
    (fun d act hd => (length_filterStep d act).trans hd) rfl acts

/-- The array holds the set, and the proxy passes on what the set says. -/
structure Agrees (c : ProxyClient) (a : AddrSet) : Prop extends Holds c a where
  passes : ∀ addr, addr ≠ 0 → (clientFilterMatch c addr = true ↔ a.passes addr)

/-- **The filter of a client is the set exactly as long as the set fits into the array**, whatever messages and
subscriptions come since the client connected. -/
theorem proxy_filter_exact (c : ProxyClient) (acts : List FilterAct) :
    (∀ pre, pre <+: acts →
      Agrees (pre.foldl filterStep (filterSet .none c)) (pre.foldl AddrSet.step ⟨.none, ∅⟩)) ↔
    ∀ pre, pre <+: acts → (pre.foldl AddrSet.step ⟨.none, ∅⟩).addrs.card ≤ c.filter.length := by
  have hnew := inv_filterSet c .none
  have hlen : (filterSet .none c).filter.length = c.filter.length := List.length_map _
  constructor
  · intro hagree pre hpre
    have hcard := (hagree pre hpre).card_le (assigned_run pre hnew.assigned)
    rwa [length_run, hlen] at hcard
  · intro hroom pre hpre
    have hinv := hnew.run fun pre' hpre' => (hroom pre' (hpre'.trans hpre)).trans_eq hlen.symm
    exact ⟨hinv.toHolds, fun addr haddr => hinv.toHolds.passes haddr⟩

end GenieSdk.Analysis.ProxyFilter
