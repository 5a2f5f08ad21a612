import EnbL1Ppc.CpriEth.RruTurns

namespace EnbL1Ppc.CpriEth

open Lib.Machine

/-!
Which entry of the configuration file a cell configuration request is made from. The entry is
noted at the configuration request, if there is one for its port, and is used when the RRU has
answered the cell clear request.
-/

def Clears (r : Rru) (m : Mem) (len : ℤ) : Prop :=
  longEnough len = true ∧ rruMsg (m.u32 0) = .cellConfigurationResp ∧
    r.state = .waitCellClearResp

theorem processRruMessage_clears {env : Env} {r : Rru} {m : Mem} {len : ℤ}
    (h : Clears r m len) : processRruMessage env r m len = processCellClearResp env r := by
  simp [processRruMessage, h.1, h.2.1, h.2.2]

theorem receiveMessage_clears {env : Env} {r : Rru} {m : Mem} {len : ℤ} (h : Clears r m len) :
    (receiveMessage env r m len = none ↔ r.cfg = none) ∧
      ∀ x ∈ receiveMessage env r m len, ∃ y ∈ x.2, y.isEstablish = true := by
  rw [receiveMessage, processRruMessage_clears h, processCellClearResp]
  cases hcfg : r.cfg with
  | none => split_ifs <;> simp [sendCellConfigurationTdd, sendCellConfigurationFdd, hcfg]
  | some cfg =>
    split_ifs
    · simp [sendCellConfigurationFdd, hcfg, sendAndWait, sendMessage, message,
        IrMsg.isEstablish, Ie.isEstablish]
    · simp [sendCellConfigurationTdd, hcfg, sendAndWait, sendMessage, message,
        IrMsg.isEstablish, Ie.isEstablish]

theorem processRruMessage_establish {env : Env} {r : Rru} {m : Mem} {len : ℤ} {h : Handled}
    (hp : processRruMessage env r m len = some h) {y : IrMsg} (hy : y ∈ h.2)
    (hest : y.isEstablish = true) : Clears r m len := by
  cases processRruMessage_reaction hp with
  | quiet => cases hy
  | established =>
    cases List.mem_singleton.1 hy
    cases hest
  | cleared hlen hmsg hstate => exact ⟨hlen, hmsg, hstate⟩
  | confirmed => cases hy
  | asked state timeout needReset x hstate hx =>
    cases List.mem_singleton.1 hy
    rw [hx] at hest
    cases hest

/-- The result of `read` on the socket of slot `i` leads to a cell configuration request. -/
def SendsCellConfiguration (s : Manager) (i : SlotId) : ReadResult → Prop
  | .bytes chunk => chunk ≠ [] ∧ chunk.length ≤ 4096 ∧
    Clears (s.rrus i) (s.mem.write chunk) chunk.length
  | .error => Clears (s.rrus i) s.mem (-1)
  | .closed _ => False

theorem SendsCellConfiguration.state {s : Manager} {i : SlotId} {r : ReadResult}
    (h : SendsCellConfiguration s i r) : (s.rrus i).state = .waitCellClearResp := by
  cases r with
  | bytes chunk => exact h.2.2.2.2
  | error => exact h.2.2
  | closed peer => exact h.elim

/-- What `fapi_b4860_parse_config` asks of the entries. -/
def AcceptedRrus (rrus : List RruConfig) : Prop :=
  ∀ c ∈ rrus, c.ip ≠ none

theorem portConfig_of_accepted {rrus : List RruConfig} (h : AcceptedRrus rrus) {env : Env}
    (henv : env.rrus = rrus) {port : UInt8} {c : RruConfig} (hc : rrus[port.toNat]? = some c) :
    (portConfig env port).map Prod.snd = some c := by
  obtain ⟨ip, hip⟩ := Option.ne_none_iff_exists'.1 (h c (List.mem_of_getElem? hc))
  rw [portConfig, henv, hc, Option.bind_some, hip]
  rfl

def notePort (s : Manager) (ports : SlotId → Option UInt8) : Input → SlotId → Option UInt8
  | .cfg (some req) =>
    match s.slotFor req.rruMac with
    | some (i, _) => Function.update ports i (some req.bbuPort)
    | none => ports
  | _ => ports

def portedStep : Step (Manager × (SlotId → Option UInt8)) (Env × Input) Obs :=
  fun x e ↦ (x.1.step e).map fun r ↦ ((r.1, notePort x.1 x.2 e.2), r.2)

theorem notePort_request {s : Manager} {req : CfgReq} {i : SlotId} {r : Rru}
    (h : s.slotFor req.rruMac = some (i, r)) (ports : SlotId → Option UInt8) :
    notePort s ports (.cfg (some req)) i = some req.bbuPort := by
  rw [notePort, h]
  exact Function.update_self ..

theorem notePort_other {s : Manager} {input : Input} {j : SlotId}
    (h : ∀ req r, input = .cfg (some req) → s.slotFor req.rruMac ≠ some (j, r))
    (ports : SlotId → Option UInt8) : notePort s ports input j = ports j := by
  unfold notePort
  split
  · next req =>
    cases hslot : s.slotFor req.rruMac with
    | none => rfl
    | some y =>
      refine Function.update_of_ne ?_ ..
      rintro rfl
      exact h req y.2 rfl hslot
  · rfl

/-- A cell configuration request is made from the entry for the port of the slot's latest
request. -/
def UsesEntry (rrus : List RruConfig) (x : Manager × (SlotId → Option UInt8))
    (e : Env × Input) : Prop :=
  ∀ i r, x.1.phase = .read i → 0 ≤ x.1.pollfds i → e.2 = .read (some r) →
    SendsCellConfiguration x.1 i r →
    ∃ port c, x.2 i = some port ∧ rrus[port.toNat]? = some c ∧ (x.1.rrus i).cfg = some c

def KnownPort (rrus : List RruConfig) (x : Manager × (SlotId → Option UInt8))
    (e : Env × Input) : Prop :=
  ∀ i r, x.1.phase = .read i → 0 ≤ x.1.pollfds i → e.2 = .read (some r) →
    SendsCellConfiguration x.1 i r → ∀ port, x.2 i = some port → port.toNat < rrus.length

structure Noted (rrus : List RruConfig) (x : Manager × (SlotId → Option UInt8)) : Prop where
  requested : ∀ {i}, (x.1.rrus i).state ≠ .none → x.2 i ≠ none
  cfg : ∀ {i port c}, x.2 i = some port → rrus[port.toNat]? = some c →
    (x.1.rrus i).cfg = some c

theorem Noted.step {rrus : List RruConfig} (hrrus : AcceptedRrus rrus)
    {x x' : Manager × (SlotId → Option UInt8)} {e : Env × Input} {o : List Obs}
    (h : Noted rrus x) (henv : e.1.rrus = rrus) (hs : portedStep x e = some (x', o)) :
    Noted rrus x' := by
  obtain ⟨⟨s', o'⟩, hstep, heq⟩ := Option.map_eq_some_iff.1 hs
  cases heq
  -- for each slot: the request is for it, or it stays what it was
  have hslot : ∀ j, ((s'.rrus j).state ≠ .none → notePort x.1 x.2 e.2 j ≠ none) ∧
      ∀ port c, notePort x.1 x.2 e.2 j = some port → rrus[port.toNat]? = some c →
        (s'.rrus j).cfg = some c := by
    intro j
    by_cases hreq : ∃ req r, e.2 = .cfg (some req) ∧ x.1.slotFor req.rruMac = some (j, r)
    · obtain ⟨req, r, he, hj⟩ := hreq
      obtain ⟨env, input⟩ := e
      cases he
      obtain ⟨i, r', hi, hr, -⟩ := step_cfg hstep
      obtain ⟨rfl, rfl⟩ := Prod.mk.inj (Option.some.inj (hj.symm.trans hi))
      rw [notePort_request hj]
      refine ⟨fun _ ↦ nofun, fun port c hport hc ↦ ?_⟩
      cases hport
      obtain ⟨y, hy, rfl⟩ := Option.map_eq_some_iff.1 (portConfig_of_accepted hrrus henv hc)
      rw [hr, Manager.register, Manager.setRru]
      simp only [Function.update_self]
      rw [hy]
      rfl
    · rw [notePort_other fun req r he hj ↦ hreq ⟨req, r, he, hj⟩]
      rcases step_slot hstep j with ⟨env, req, r, rfl, hj, -⟩ | hstays
      · exact absurd ⟨req, r, rfl, hj⟩ hreq
      · refine ⟨fun hne ↦ h.requested fun hnone ↦ hne (hstays.unused hnone), fun port c hp hc ↦ ?_⟩
        rw [hstays.cfg]
        exact h.cfg hp hc
  exact ⟨fun {j} ↦ (hslot j).1, fun {j} port c ↦ (hslot j).2 port c⟩

theorem Noted.usesEntry_iff {rrus : List RruConfig} {x : Manager × (SlotId → Option UInt8)}
    (h : Noted rrus x) {e : Env × Input} : UsesEntry rrus x e ↔ KnownPort rrus x e := by
  refine forall₂_congr fun i r ↦ forall₄_congr fun _ _ _ hsend ↦ ?_
  constructor
  · rintro ⟨port, c, hport, hc, -⟩ port' hport'
    obtain rfl := Option.some.inj (hport.symm.trans hport')
    exact (List.getElem?_eq_some_iff.1 hc).1
  · intro hknown
    have hused : (x.1.rrus i).state ≠ .none := by
      rw [hsend.state]
      exact nofun
    obtain ⟨port, hport⟩ := Option.ne_none_iff_exists'.1 (h.requested hused)
    have hc := List.getElem?_eq_getElem (hknown port hport)
    exact ⟨port, _, hport, hc, h.cfg hport hc⟩

theorem Noted.start (rrus : List RruConfig) (fds : List ℕ) (address : UInt32) (mem : Mem) :
    Noted rrus (.start fds address mem, fun _ ↦ none) where
  requested h := absurd rfl h
  cfg h := nomatch h

theorem env_of_mem_roundInputs {env : Env} {req : Option CfgReq} {peer : Option (Option UInt32)}
    {reads : SlotId → Option ReadResult} {e : Env × Input}
    (h : e ∈ roundInputs env req peer reads) : e.1 = env := by
  rw [roundInputs, List.mem_append] at h
  rcases h with h | h
  · have henv : ∀ e ∈ [(env, .poll .ready), (env, .cfg req), (env, .control peer),
        (env, Input.tap none)], e.1 = env := by
      simp
    exact henv e h
  · obtain ⟨i, -, rfl⟩ := List.mem_map.1 h
    rfl

theorem request_of_mem_roundInputs {env : Env} {req req' : Option CfgReq}
    {peer : Option (Option UInt32)} {reads : SlotId → Option ReadResult} {e : Env × Input}
    (h : e ∈ roundInputs env req peer reads) (he : e.2 = .cfg req') : req' = req := by
  rw [roundInputs, List.mem_append] at h
  rcases h with h | h
  · have hreq : ∀ e ∈ [(env, .poll .ready), (env, .cfg req), (env, .control peer),
        (env, Input.tap none)], ∀ req', e.2 = .cfg req' → req' = req := by
      simp
    exact hreq e h req' he
  · obtain ⟨i, -, rfl⟩ := List.mem_map.1 h
    cases he

theorem knownPort_whenever {rrus : List RruConfig} {x : Manager × (SlotId → Option UInt8)}
    {es : List (Env × Input)} (hx : ∀ i port, x.2 i = some port → port.toNat < rrus.length)
    (hes : ∀ e ∈ es, ∀ req, e.2 = .cfg (some req) → req.bbuPort.toNat < rrus.length) :
    Whenever portedStep (KnownPort rrus) x es := by
  induction es generalizing x with
  | nil => trivial
  | cons e es ih =>
    refine ⟨fun i r _ _ _ _ port hport ↦ hx i port hport, fun r hr ↦ ih (fun j port hport ↦ ?_)
      fun e' he' ↦ hes e' (List.mem_cons_of_mem e he')⟩
    obtain ⟨y, -, rfl⟩ := Option.map_eq_some_iff.1 hr
    dsimp only at hport
    by_cases hreq : ∃ req r, e.2 = .cfg (some req) ∧ x.1.slotFor req.rruMac = some (j, r)
    · obtain ⟨req, r, he, hj⟩ := hreq
      rw [he, notePort_request hj] at hport
      exact Option.some.inj hport ▸ hes e List.mem_cons_self req he
    · rw [notePort_other fun req r he hj ↦ hreq ⟨req, r, he, hj⟩] at hport
      exact hx j port hport

/-- With an accepted configuration, the cell configuration requests of a run are made from the
entries for the latest ports exactly if these ports have entries. -/
theorem usesEntry_whenever_iff {rrus : List RruConfig} (hrrus : AcceptedRrus rrus)
    (fds : List ℕ) (address : UInt32) (mem : Mem) {es : List (Env × Input)}
    (henv : ∀ e ∈ es, e.1.rrus = rrus) :
    Whenever portedStep (UsesEntry rrus) (.start fds address mem, fun _ ↦ none) es ↔
      Whenever portedStep (KnownPort rrus) (.start fds address mem, fun _ ↦ none) es :=
  whenever_congr (fun h he hs ↦ h.step hrrus he hs) (fun h ↦ h.usesEntry_iff)
    (Noted.start rrus fds address mem) (Along.of_forall (fun e he _ ↦ henv e he) _)

section Example

def oneEntry : List RruConfig := [⟨some 0xc0a81e02, 0, 0, 0⟩]

theorem acceptedRrus_oneEntry : AcceptedRrus oneEntry := by
  simp [AcceptedRrus, oneEntry]

def oneEntryEnv : Env := ⟨false, oneEntry, ⟨25, 1⟩, ⟨0, 0, 0, 1, 1, 2020⟩⟩

def rruSends (i : SlotId) (msgNo : UInt8) : List (Env × Input) :=
  roundInputs oneEntryEnv none none fun j ↦
    if j = i then some (.bytes [0, 0, 0, msgNo, 0, 0, 0, 15, 0, 0, 0, 0, 0, 0, 0]) else none

/-- An RRU on the port connects from its address. Its calibration report is answered by a cell
clear request. -/
def cellClearing (i : SlotId) (port : UInt8) (ip : UInt32) : List (Env × Input) :=
  roundInputs oneEntryEnv (some ⟨port, 0, [2, 0, 0, 0, 0, 1]⟩) (some (some ip)) (fun _ ↦ none) ++
    rruSends i 71

theorem mem_cellClearing {i : SlotId} {port : UInt8} {ip : UInt32} {e : Env × Input}
    (he : e ∈ cellClearing i port ip ++ rruSends i 194) :
    e.1 = oneEntryEnv ∧ ∀ req, e.2 = .cfg (some req) → req.bbuPort = port := by
  have hsends {msgNo : UInt8} (he : e ∈ rruSends i msgNo) :
      e.1 = oneEntryEnv ∧ ∀ req, e.2 = .cfg (some req) → req.bbuPort = port :=
    ⟨env_of_mem_roundInputs he, fun req hreq ↦ nomatch request_of_mem_roundInputs he hreq⟩
  rcases List.mem_append.1 he with he | he
  · rcases List.mem_append.1 he with he | he
    · refine ⟨env_of_mem_roundInputs he, fun req hreq ↦ ?_⟩
      obtain rfl := Option.some.inj (request_of_mem_roundInputs he hreq)
      rfl
    · exact hsends he
  · exact hsends he

/-- The run comes to the answer to the cell clear request, with this entry in the slot. -/
def ComesToAnswer (i : SlotId) (es : List (Env × Input)) (cfg : Option RruConfig) : Prop :=
  ∃ x o, exec portedStep (.start [0, 1, 2] 0 fun _ ↦ 0, fun _ ↦ none)
      (es ++ (rruSends i 194).take 4) = some (x, o) ∧ x.1.phase = .read i ∧ 0 ≤ x.1.pollfds i ∧
    SendsCellConfiguration x.1 i (.bytes [0, 0, 0, 194, 0, 0, 0, 15, 0, 0, 0, 0, 0, 0, 0]) ∧
    (x.1.rrus i).cfg = cfg

theorem comesToAnswer_of_exec {i : SlotId} {es : List (Env × Input)} (fd : ℤ)
    {cfg : Option RruConfig} (hfd : 0 ≤ fd) (h : (exec portedStep (.start [0, 1, 2] 0 fun _ ↦ 0, fun _ ↦ none)
      (es ++ (rruSends i 194).take 4)).map
      (fun x ↦ (x.1.1.phase, x.1.1.pollfds i, (x.1.1.rrus i).state, (x.1.1.rrus i).cfg)) =
        some (.read i, fd, .waitCellClearResp, cfg)) : ComesToAnswer i es cfg := by
  obtain ⟨⟨x, o⟩, hx, heq⟩ := Option.map_eq_some_iff.1 h
  simp only [Prod.mk.injEq] at heq
  obtain ⟨hphase, hpoll, hstate, hcfg⟩ := heq
  have hno : (x.1.mem.write [0, 0, 0, 194, 0, 0, 0, 15, 0, 0, 0, 0, 0, 0, 0]).u32 0 = 194 := by
    simp [Mem.u32, Mem.u16, Mem.write]
  exact ⟨x, o, hx, hphase, hpoll ▸ hfd, ⟨nofun, by decide, rfl, by rw [hno]; rfl, hstate⟩, hcfg⟩

theorem usesEntry_whenever_iff_onePort :
    ComesToAnswer 0 (cellClearing 0 0 0xc0a81e02) (some ⟨some 0xc0a81e02, 0, 0, 0⟩) ∧
      Whenever portedStep (UsesEntry oneEntry) (.start [0, 1, 2] 0 fun _ ↦ 0, fun _ ↦ none)
        (cellClearing 0 0 0xc0a81e02 ++ rruSends 0 194) := by
  refine ⟨comesToAnswer_of_exec 3 (by decide) (by decide +kernel),
    (usesEntry_whenever_iff acceptedRrus_oneEntry _ _ _ fun e he ↦
      congrArg Env.rrus (mem_cellClearing he).1).2
      (knownPort_whenever (fun _ _ h ↦ nomatch h) fun e he req hreq ↦ ?_)⟩
  rw [(mem_cellClearing he).2 req hreq]
  decide

/-- The configuration has one entry, and the RRU names port 5. -/
theorem unknown_port_without_entry :
    ∃ (rrus : List RruConfig) (es : List (Env × Input)), AcceptedRrus rrus ∧
      (∀ e ∈ es, e.1.rrus = rrus) ∧
      ¬ Whenever portedStep (UsesEntry rrus) (.start [0, 1, 2] 0 fun _ ↦ 0, fun _ ↦ none) es := by
  refine ⟨oneEntry, cellClearing 0 5 0xc0a81e41 ++ rruSends 0 194, acceptedRrus_oneEntry,
    fun e he ↦ congrArg Env.rrus (mem_cellClearing he).1, fun h ↦ ?_⟩
  obtain ⟨x, o, hx, hphase, hpoll, hsend, hcfg⟩ :
      ComesToAnswer 0 (cellClearing 0 5 0xc0a81e41) none :=
    comesToAnswer_of_exec 3 (by decide) (by decide +kernel)
  have hsplit : cellClearing 0 5 0xc0a81e41 ++ rruSends 0 194 =
      (cellClearing 0 5 0xc0a81e41 ++ (rruSends 0 194).take 4) ++
        (oneEntryEnv, .read (some (.bytes [0, 0, 0, 194, 0, 0, 0, 15, 0, 0, 0, 0, 0, 0, 0]))) ::
          (rruSends 0 194).drop 5 := by
    rw [List.append_assoc]
    rfl
  rw [hsplit] at h
  obtain ⟨port, c, -, -, hc⟩ := h.reached hx 0 _ hphase hpoll rfl hsend
  rw [hcfg] at hc
  cases hc

end Example

end EnbL1Ppc.CpriEth
