import EnbL1Ppc.CpriEth.RruFraming
import EnbL1Ppc.CpriEth.RruTurns

namespace EnbL1Ppc.CpriEth

open Lib.Machine

/-!
Two runs that differ in what a slot has kept of the RRU that it was last used for. The number of
the next message is kept for ever. The other fields that the messages are made of are written
before they are used, if the new RRU is configured and opens its channel first.
-/

/-- The states in which a slot has not been sent a configuration of its channel. -/
def RruState.isEarly : RruState → Bool
  | .none | .init | .connected => true
  | _ => false

/-- The contents of a slot in the two runs: the numbers of their messages differ by `d`, and what
the RRU has not provided yet may differ in a slot with stale fields. -/
structure Alike (d : UInt32) (stale : Prop) (r t : Rru) : Prop where
  bbuId : t.bbuId = r.bbuId
  state : t.state = r.state
  timer : t.timer = r.timer
  mac : t.mac = r.mac
  ip : t.ip = r.ip
  timeout : t.timeout = r.timeout
  needReset : t.needReset = r.needReset
  serialOut : t.serialOut = r.serialOut + d
  header : t.id = r.id ∧ t.port = r.port ∨ stale ∧ r.state.isEarly = true
  cfg : t.cfg = r.cfg ∨ stale ∧ r.state = .none

def Rru.other (r : Rru) (d : UInt32) (fd : ℤ) (ie1 : List UInt8) : Rru :=
  { r with fd := fd, ie1 := ie1, serialOut := r.serialOut + d }

def IrMsg.shift (d : UInt32) (m : IrMsg) : IrMsg := { m with flow := m.flow + d }

variable {d : UInt32} {stale : Prop} {r t : Rru}

theorem Alike.eq_other (h : Alike d stale r t) (hopen : ¬(stale ∧ r.state.isEarly = true)) :
    t = r.other d t.fd t.ie1 := by
  have hheader : t.id = r.id ∧ t.port = r.port := h.header.resolve_right hopen
  have hcfg : t.cfg = r.cfg :=
    h.cfg.resolve_right fun hnone ↦ hopen ⟨hnone.1, by rw [hnone.2]; rfl⟩
  obtain ⟨hb, hs, htimer, hm, hip, htimeout, hn, hso, -, -⟩ := h
  cases t
  simp only at *
  subst_vars
  simp [Rru.other, hheader]

theorem alike_other (r : Rru) (fd : ℤ) (ie1 : List UInt8) : Alike d stale r (r.other d fd ie1) :=
  ⟨rfl, rfl, rfl, rfl, rfl, rfl, rfl, rfl, .inl ⟨rfl, rfl⟩, .inl rfl⟩

theorem Alike.header_early (h : Alike d stale r t) {state : RruState} (hstate : state.isEarly = true) :
    t.id = r.id ∧ t.port = r.port ∨ stale ∧ state.isEarly = true :=
  h.header.imp_right fun hstale ↦ ⟨hstale.1, hstate⟩

theorem Alike.drop (h : Alike d stale r t) :
    Alike d stale { r with state := .none } { t with state := .none } :=
  { h with
    state := rfl
    header := h.header_early rfl
    cfg := h.cfg.imp_right fun hstale ↦ ⟨hstale.1, rfl⟩ }

def AlikeHandled (d : UInt32) (x y : Handled) : Prop :=
  (∃ fd ie1, y.1 = x.1.other d fd ie1) ∧ y.2 = x.2.map (IrMsg.shift d)

theorem alikeHandled_sendMessage (fd : ℤ) (ie1 : List UInt8) (msgNo : ℕ) (ies : List Ie) :
    AlikeHandled d (sendMessage r msgNo ies) (sendMessage (r.other d fd ie1) msgNo ies) := by
  refine ⟨⟨fd, ie1, ?_⟩, rfl⟩
  simp only [sendMessage, Rru.other]
  rw [UInt32.add_assoc, UInt32.add_comm d 1, ← UInt32.add_assoc]

theorem alikeHandled_sendAndWait (fd : ℤ) (ie1 : List UInt8) (msgNo : ℕ) (ies : List Ie)
    (state : RruState) :
    AlikeHandled d (sendAndWait r msgNo ies state)
      (sendAndWait (r.other d fd ie1) msgNo ies state) := by
  obtain ⟨⟨fd', ie1', h⟩, hm⟩ := alikeHandled_sendMessage (d := d) (r := r) fd ie1 msgNo ies
  refine ⟨⟨fd', ie1', ?_⟩, hm⟩
  simp only [sendAndWait]
  rw [h]
  rfl

theorem AlikeHandled.alike {x y : Handled} (h : AlikeHandled d x y) (stale : Prop) :
    Alike d stale x.1 y.1 ∧ y.2 = x.2.map (IrMsg.shift d) := by
  obtain ⟨⟨fd, ie1, hy⟩, hm⟩ := h
  exact ⟨hy ▸ alike_other x.1 fd ie1, hm⟩

theorem AlikeHandled.update {x y : Handled} (h : AlikeHandled d x y) {f : Rru → Rru}
    (hf : ∀ r fd ie1, f (r.other d fd ie1) = (f r).other d fd ie1) :
    AlikeHandled d (f x.1, x.2) (f y.1, y.2) := by
  obtain ⟨⟨fd, ie1, hy⟩, hm⟩ := h
  exact ⟨⟨fd, ie1, by rw [hy, hf]⟩, hm⟩

section Handlers

variable {env : Env} {m : Mem} {len : ℤ} {x y : Handled} (fd : ℤ) (ie1 : List UInt8)

theorem processChannelEstablishmentResp_alike :
    AlikeHandled d (processChannelEstablishmentResp r m)
      (processChannelEstablishmentResp (r.other d fd ie1) m) := by
  unfold processChannelEstablishmentResp
  by_cases hie : m.u16 msgHeaderSize ≠ 21
  · rw [if_pos hie, if_pos hie]
    exact ⟨⟨fd, ie1, rfl⟩, rfl⟩
  · rw [if_neg hie, if_neg hie]
    by_cases hreset : r.needReset = true
    · rw [if_pos hreset, if_pos (show (r.other d fd ie1).needReset = true from hreset)]
      exact (alikeHandled_sendMessage (r := { r with state := .connSetupAck, timeout := 0 }) fd ie1
        _ _).update (f := fun r ↦ { r with needReset := false }) fun _ _ _ ↦ rfl
    · rw [if_neg hreset, if_neg (show ¬(r.other d fd ie1).needReset = true from hreset)]
      exact alikeHandled_sendAndWait (r := { r with state := .connSetupAck, timeout := 0 }) fd ie1
        _ _ _

theorem processDelayMeasureResp_alike :
    AlikeHandled d (processDelayMeasureResp r m) (processDelayMeasureResp (r.other d fd ie1) m) := by
  unfold processDelayMeasureResp
  by_cases hie : m.u16 msgHeaderSize ≠ 911
  · rw [if_pos hie, if_pos hie]
    exact ⟨⟨fd, ie1, rfl⟩, rfl⟩
  · rw [if_neg hie, if_neg hie]
    exact alikeHandled_sendAndWait (r := { r with state := .connSetupAck, timeout := 0 }) fd ie1
      _ _ _

theorem processDelayConfigurationResp_alike :
    AlikeHandled d (processDelayConfigurationResp env r m)
      (processDelayConfigurationResp env (r.other d fd ie1) m) := by
  unfold processDelayConfigurationResp
  by_cases hie : m.u16 msgHeaderSize ≠ 931
  · rw [if_pos hie, if_pos hie]
    exact ⟨⟨fd, ie1, rfl⟩, rfl⟩
  · rw [if_neg hie, if_neg hie]
    exact alikeHandled_sendAndWait (r := { r with timeout := 0 }) fd ie1 _ _ _

theorem processRruInitCalibrationReport_alike :
    AlikeHandled d (processRruInitCalibrationReport env r)
      (processRruInitCalibrationReport env (r.other d fd ie1)) := by
  unfold processRruInitCalibrationReport
  split
  · exact alikeHandled_sendAndWait fd ie1 _ _ _
  · exact alikeHandled_sendAndWait fd ie1 _ _ _

theorem processCellClearResp_alike (hx : processCellClearResp env r = some x)
    (hy : processCellClearResp env (r.other d fd ie1) = some y) : AlikeHandled d x y := by
  unfold processCellClearResp at hx hy
  split at hx
  · next hfdd =>
    rw [if_pos hfdd] at hy
    obtain ⟨cfg, hcfg, rfl⟩ := Option.map_eq_some_iff.1 hx
    obtain ⟨cfg', hcfg', rfl⟩ := Option.map_eq_some_iff.1 hy
    cases hcfg.symm.trans hcfg'
    exact alikeHandled_sendAndWait fd ie1 _ _ _
  · next hfdd =>
    rw [if_neg hfdd] at hy
    obtain ⟨cfg, hcfg, rfl⟩ := Option.map_eq_some_iff.1 hx
    obtain ⟨cfg', hcfg', rfl⟩ := Option.map_eq_some_iff.1 hy
    cases hcfg.symm.trans hcfg'
    exact alikeHandled_sendAndWait fd ie1 _ _ _

theorem processChannelEstablishmentReq_alike (h : Alike d stale r t) (hcfg : t.cfg = r.cfg)
    (hx : processChannelEstablishmentReq env r m len = some x)
    (hy : processChannelEstablishmentReq env t m len = some y) : AlikeHandled d x y := by
  obtain ⟨a, -, rfl⟩ := Option.map_eq_some_iff.1 hx
  obtain ⟨b, -, rfl⟩ := Option.map_eq_some_iff.1 hy
  have ht : { t with id := m 8, bbuId := m 9, port := m 10, ie1 := b } =
      { r with id := m 8, bbuId := m 9, port := m 10, ie1 := a }.other d t.fd b := by
    simp [Rru.other, h.state, h.timer, h.mac, h.ip, h.timeout, h.needReset, h.serialOut, hcfg]
  rw [ht]
  exact alikeHandled_sendAndWait t.fd b _ _ _

theorem processRruMessage_other (hx : processRruMessage env r m len = some x)
    (hy : processRruMessage env (r.other d fd ie1) m len = some y) : AlikeHandled d x y := by
  have hquiet (timeout : ℕ) : AlikeHandled d ({ r with timeout := timeout }, [])
      ({ r.other d fd ie1 with timeout := timeout }, []) := ⟨⟨fd, ie1, rfl⟩, rfl⟩
  unfold processRruMessage at hx hy
  by_cases hlen : longEnough len = false
  · rw [if_pos hlen] at hx hy
    cases hx
    cases hy
    exact hquiet r.timeout
  rw [if_neg hlen] at hx hy
  cases hmsg : rruMsg (m.u32 0) <;> rw [hmsg] at hx hy <;> dsimp only at hx hy
  case channelEstablishmentReq =>
    have halike : Alike d False r (r.other d fd ie1) := alike_other r fd ie1
    exact processChannelEstablishmentReq_alike halike rfl hx hy
  case channelEstablishmentResp =>
    cases hx
    cases hy
    exact processChannelEstablishmentResp_alike fd ie1
  case parametersConfigurationResp | unknown =>
    cases hx
    cases hy
    exact hquiet r.timeout
  case cellConfigurationResp =>
    by_cases hclear : r.state = .waitCellClearResp
    · rw [if_pos hclear] at hx
      rw [if_pos (show (r.other d fd ie1).state = .waitCellClearResp from hclear)] at hy
      exact processCellClearResp_alike fd ie1 hx hy
    · rw [if_neg hclear] at hx
      rw [if_neg (show (r.other d fd ie1).state ≠ .waitCellClearResp from hclear)] at hy
      cases hx
      cases hy
      exact ⟨⟨fd, ie1, rfl⟩, rfl⟩
  case delayMeasureResp =>
    cases hx
    cases hy
    exact processDelayMeasureResp_alike fd ie1
  case delayConfigResp =>
    cases hx
    cases hy
    exact processDelayConfigurationResp_alike fd ie1
  case heartbeat =>
    cases hx
    cases hy
    exact (alikeHandled_sendMessage fd ie1 _ _).update (f := fun r ↦ { r with timeout := 0 })
      fun _ _ _ ↦ rfl
  case alarmReport =>
    cases hx
    cases hy
    exact hquiet 0
  case calibrationReport =>
    by_cases hready : r.state ≠ .ready
    · rw [if_pos hready] at hx
      rw [if_pos (show (r.other d fd ie1).state ≠ .ready from hready)] at hy
      cases hx
      cases hy
      exact processRruInitCalibrationReport_alike fd ie1
    · rw [if_neg hready] at hx
      rw [if_neg (show ¬(r.other d fd ie1).state ≠ .ready from hready)] at hy
      cases hx
      cases hy
      exact hquiet r.timeout

theorem processRruMessage_alike (h : Alike d stale r t) (hne : r.state ≠ .none)
    (hearly : stale → r.state.isEarly = true → longEnough len = false ∨
      rruMsg (m.u32 0) = .channelEstablishmentReq)
    (hx : processRruMessage env r m len = some x) (hy : processRruMessage env t m len = some y) :
    Alike d stale x.1 y.1 ∧ y.2 = x.2.map (IrMsg.shift d) := by
  by_cases hopen : stale ∧ r.state.isEarly = true
  · unfold processRruMessage at hx hy
    by_cases hlen : longEnough len = false
    · rw [if_pos hlen] at hx hy
      cases hx
      cases hy
      exact ⟨h, rfl⟩
    · rw [if_neg hlen, (hearly hopen.1 hopen.2).resolve_left hlen] at hx hy
      have hcfg : t.cfg = r.cfg := h.cfg.resolve_right fun hc ↦ hne hc.2
      exact (processChannelEstablishmentReq_alike h hcfg hx hy).alike stale
  · rw [h.eq_other hopen] at hy
    exact (processRruMessage_other _ _ hx hy).alike stale

theorem receiveMessage_alike (h : Alike d stale r t) (hne : r.state ≠ .none)
    (hearly : stale → r.state.isEarly = true → longEnough len = false ∨
      rruMsg (m.u32 0) = .channelEstablishmentReq)
    (hx : receiveMessage env r m len = some x) (hy : receiveMessage env t m len = some y) :
    Alike d stale x.1 y.1 ∧ y.2 = x.2.map (IrMsg.shift d) := by
  obtain ⟨x, hpx, rfl⟩ := Option.map_eq_some_iff.1 hx
  obtain ⟨y, hpy, rfl⟩ := Option.map_eq_some_iff.1 hy
  obtain ⟨hA, hm⟩ := processRruMessage_alike h hne hearly hpx hpy
  exact ⟨{ hA with timeout := rfl }, hm⟩

theorem checkParams_alike (h : Alike d stale r t) (env : Env) :
    Alike d stale (checkParams env r).1 (checkParams env t).1 ∧
      (checkParams env t).2 = (checkParams env r).2.map (IrMsg.shift d) := by
  unfold checkParams
  rw [h.state]
  by_cases hneed : r.state = .needParamsConfig
  · rw [if_pos hneed, if_pos hneed, h.timer]
    have hother := h.eq_other (by rw [hneed]; exact fun hstale ↦ absurd hstale.2 (by decide))
    by_cases htimer : 10 ≤ r.timer
    · rw [if_pos htimer, if_pos htimer, hother]
      exact ((alikeHandled_sendAndWait _ _ _ _ _).update (f := fun r ↦ { r with state := .wait })
        fun _ _ _ ↦ rfl).alike stale
    · rw [if_neg htimer, if_neg htimer]
      exact ⟨{ h with state := rfl, timer := rfl }, rfl⟩
  · rw [if_neg hneed, if_neg hneed]
    exact ⟨h, rfl⟩

end Handlers

/-! The manager -/

def lead (i : SlotId) (d : UInt32) (j : SlotId) : UInt32 := if j = i then d else 0

structure Twins (i : SlotId) (d : UInt32) (s t : Manager) : Prop where
  rruCount : t.rruCount = s.rruCount
  bbuId : t.bbuId = s.bbuId
  address : t.address = s.address
  mem : t.mem = s.mem
  phase : t.phase = s.phase
  slot : ∀ j, Alike (lead i d j) (j = i) (s.rrus j) (t.rrus j)

def Obs.shift (i : SlotId) (d : UInt32) : Obs → Obs
  | .sent j m => .sent j (m.shift (lead i d j))
  | .cfgResp r => .cfgResp r
  | .connected j => .connected j
  | .received j m => .received j m

theorem map_sent_shift (i : SlotId) (d : UInt32) (j : SlotId) (ms : List IrMsg) :
    (ms.map (IrMsg.shift (lead i d j))).map (Obs.sent j) =
      (ms.map (Obs.sent j)).map (Obs.shift i d) := by
  rw [List.map_map, List.map_map]
  rfl

/-- In this step the stale fields of slot `i` are not used: a request that takes the unused slot
names a port that is configured, and an RRU that has not opened its channel sends no message
before it does. -/
def Overwrites (i : SlotId) (s : Manager) (e : Env × Input) : Prop :=
  match e.2 with
  | .cfg (some req) =>
    (s.rrus i).state = .none → (s.slotFor req.rruMac).any (fun x ↦ x.1 = i) = true →
      (portConfig e.1 req.bbuPort).isSome = true
  | .read (some (.bytes chunk)) =>
    s.phase = .read i → (s.rrus i).state.isEarly = true →
      chunk.length < msgHeaderSize ∨ rruMsg ((s.mem.write chunk).u32 0) = .channelEstablishmentReq
  | .read (some .error) => s.phase = .read i → (s.rrus i).state.isEarly = false
  | _ => True

instance (i : SlotId) (s : Manager) : (e : Env × Input) → Decidable (Overwrites i s e)
  | (env, .cfg (some req)) =>
    inferInstanceAs (Decidable ((s.rrus i).state = .none →
      (s.slotFor req.rruMac).any (fun x ↦ x.1 = i) = true →
      (portConfig env req.bbuPort).isSome = true))
  | (_, .read (some (.bytes chunk))) =>
    inferInstanceAs (Decidable (s.phase = .read i → (s.rrus i).state.isEarly = true →
      chunk.length < msgHeaderSize ∨
        rruMsg ((s.mem.write chunk).u32 0) = .channelEstablishmentReq))
  | (_, .read (some .error)) =>
    inferInstanceAs (Decidable (s.phase = .read i → (s.rrus i).state.isEarly = false))
  | (_, .poll _) | (_, .params) | (_, .inactivity _) | (_, .cfg none) | (_, .control _)
  | (_, .tap _) | (_, .read none) | (_, .read (some (.closed _))) | (_, .reconfigure _) =>
    .isTrue trivial

section Steps

variable {i : SlotId} {s t : Manager}

theorem alike_update (h : ∀ j, Alike (lead i d j) (j = i) (s.rrus j) (t.rrus j)) {k : SlotId}
    {r r' : Rru} (hk : Alike (lead i d k) (k = i) r r') (j : SlotId) :
    Alike (lead i d j) (j = i) (Function.update s.rrus k r j) (Function.update t.rrus k r' j) := by
  by_cases hj : j = k
  · subst hj
    rw [Function.update_self, Function.update_self]
    exact hk
  · rw [Function.update_of_ne hj, Function.update_of_ne hj]
    exact h j

theorem findSlot_congr {rrus rrus' : SlotId → Rru} {p : Rru → Bool}
    (h : ∀ j, p (rrus' j) = p (rrus j)) : findSlot rrus' p = findSlot rrus p := by
  simp only [findSlot, h]

theorem Twins.slotFor (h : Twins i d s t) {mac : List UInt8} {j : SlotId} {r : Rru}
    (hs : s.slotFor mac = some (j, r)) :
    r.state = (s.rrus j).state ∧
      ∃ r', t.slotFor mac = some (j, r') ∧ Alike (lead i d j) (j = i) r r' := by
  have hfind : findRruByMac t.rrus mac = findRruByMac s.rrus mac :=
    findSlot_congr fun k ↦ by rw [(h.slot k).mac]
  have hadd : findSlot t.rrus (fun r ↦ r.state = .none) =
      findSlot s.rrus fun r ↦ r.state = .none := findSlot_congr fun k ↦ by rw [(h.slot k).state]
  unfold Manager.slotFor at hs ⊢
  rw [hfind]
  cases hf : findRruByMac s.rrus mac with
  | some k =>
    rw [hf] at hs
    cases hs
    exact ⟨rfl, _, rfl, h.slot j⟩
  | none =>
    rw [hf] at hs
    obtain ⟨k, hk, heq⟩ := Option.map_eq_some_iff.1 hs
    cases heq
    refine ⟨rfl, { t.rrus j with mac := mac, timeout := 0, needReset := true }, ?_, ?_⟩
    · dsimp only
      rw [addRruByMac, hadd, hk]
      rfl
    · exact { h.slot j with mac := rfl, timeout := rfl, needReset := rfl }

theorem Twins.register (h : Twins i d s t) (env : Env) (req : CfgReq) {j : SlotId} {r r' : Rru}
    (hr : Alike (lead i d j) (j = i) r r')
    (hport : j = i → r.state = .none → (portConfig env req.bbuPort).isSome = true) :
    Twins i d { (s.register env req j r).1 with phase := .control }
        { (t.register env req j r').1 with phase := .control } ∧
      (t.register env req j r').2 = (s.register env req j r).2.map (Obs.shift i d) := by
  have hip : t.assignedIp env req.bbuPort = s.assignedIp env req.bbuPort := by
    rw [Manager.assignedIp, Manager.assignedIp, h.rruCount]
  have hcount : t.nextRruCount env req.bbuPort = s.nextRruCount env req.bbuPort := by
    rw [Manager.nextRruCount, Manager.nextRruCount, h.rruCount]
  have hcfg : (portConfig env req.bbuPort).elim r'.cfg (fun c ↦ some c.2) =
      (portConfig env req.bbuPort).elim r.cfg fun c ↦ some c.2 := by
    cases hc : portConfig env req.bbuPort with
    | some c => rfl
    | none =>
      refine hr.cfg.resolve_right fun hstale ↦ ?_
      have := hport hstale.1 hstale.2
      rw [hc] at this
      cases this
  refine ⟨⟨hcount, congrArg (· + 0x10) h.bbuId, h.address, h.mem, rfl, ?_⟩, ?_⟩
  · exact alike_update h.slot { hr with
      state := rfl, ip := hip, timeout := rfl, header := hr.header_early rfl, cfg := .inl hcfg }
  · simp only [Manager.register, List.map_cons, List.map_nil, Obs.shift, h.bbuId, hip]

theorem Twins.target (h : Twins i d s t) (ip : UInt32) : t.target ip = s.target ip := by
  have hfind : findRruByIp t.rrus ip = findRruByIp s.rrus ip :=
    findSlot_congr fun k ↦ by rw [(h.slot k).ip]
  simp only [Manager.target, hfind, (h.slot _).state]

theorem Twins.associate (h : Twins i d s t) (fd fd' : ℤ) :
    Twins i d (s.associate fd).1 (t.associate fd').1 ∧
      (t.associate fd').2 = (s.associate fd).2.map (Obs.shift i d) := by
  unfold Manager.associate
  rw [h.address, h.target]
  cases ht : s.target s.address with
  | none => exact ⟨h, rfl⟩
  | some j =>
    have hj := h.slot j
    have hinit := (target_eq_some.1 ht).1
    have hcfg : (t.rrus j).cfg = (s.rrus j).cfg := by
      refine hj.cfg.resolve_right fun hstale ↦ ?_
      rw [hinit] at hstale
      cases hstale.2
    refine ⟨{ h with slot := alike_update h.slot ?_ }, rfl⟩
    exact { hj with
      state := rfl, timeout := rfl, header := hj.header_early rfl, cfg := .inl hcfg }

theorem Twins.accept (h : Twins i d s t) (peer : Option UInt32) :
    Twins i d { (s.accept peer).1 with phase := .tap } { (t.accept peer).1 with phase := .tap } ∧
      (t.accept peer).2 = (s.accept peer).2.map (Obs.shift i d) := by
  have hassociate : Twins i d (s.accept peer).1 (t.accept peer).1 ∧
      (t.accept peer).2 = (s.accept peer).2.map (Obs.shift i d) := by
    cases peer with
    | none => exact h.associate _ _
    | some ip =>
      refine Twins.associate ?_ _ _
      exact ⟨h.rruCount, h.bbuId, rfl, h.mem, h.phase, h.slot⟩
  exact ⟨{ hassociate.1 with phase := rfl }, hassociate.2⟩

theorem Twins.checkInactivity (h : Twins i d s t) (j : SlotId) (peer : Option UInt32)
    (phase : Phase) :
    Twins i d { s.checkInactivity j peer with phase := phase }
      { t.checkInactivity j peer with phase := phase } := by
  have hj := h.slot j
  unfold Manager.checkInactivity
  dsimp only
  rw [hj.state, hj.timeout]
  by_cases hnone : (s.rrus j).state = .none
  · rw [if_pos hnone, if_pos hnone]
    exact { h with phase := rfl }
  rw [if_neg hnone, if_neg hnone]
  by_cases htimeout : rruInactivityTimeout < (s.rrus j).timeout
  · rw [if_pos htimeout, if_pos htimeout]
    refine ⟨h.rruCount, h.bbuId, ?_, h.mem, rfl, alike_update h.slot ?_⟩
    · exact congrArg peer.getD h.address
    · exact { hj.drop with timeout := rfl }
  · rw [if_neg htimeout, if_neg htimeout]
    exact { h with phase := rfl, slot := alike_update h.slot { hj with state := rfl, timeout := rfl } }

theorem Twins.handle (h : Twins i d s t) {env : Env} {j : SlotId} {len : ℤ}
    {x y : Manager × List IrMsg} (hne : (s.rrus j).state ≠ .none)
    (hearly : j = i → (s.rrus j).state.isEarly = true → longEnough len = false ∨
      rruMsg (s.mem.u32 0) = .channelEstablishmentReq)
    (hx : s.handle env j len = some x) (hy : t.handle env j len = some y) :
    Twins i d x.1 y.1 ∧ y.2 = x.2.map (IrMsg.shift (lead i d j)) := by
  obtain ⟨a, ha, rfl⟩ := Option.map_eq_some_iff.1 hx
  obtain ⟨b, hb, rfl⟩ := Option.map_eq_some_iff.1 hy
  rw [h.mem] at hb
  obtain ⟨hA, hm⟩ := receiveMessage_alike (h.slot j) hne hearly ha hb
  exact ⟨{ h with slot := alike_update h.slot hA }, hm⟩

theorem Twins.readSlot (h : Twins i d s t) {env : Env} {j : SlotId} {r : ReadResult}
    {x y : Manager × List Obs} (hphase : s.phase = .read j) (hne : (s.rrus j).state ≠ .none)
    (hg : Overwrites i s (env, .read (some r))) (hx : s.readSlot env j r = some x)
    (hy : t.readSlot env j r = some y) :
    Twins i d x.1 y.1 ∧ y.2 = x.2.map (Obs.shift i d) := by
  cases r with
  | closed peer =>
    cases hx
    cases hy
    have hj := h.slot j
    exact ⟨⟨h.rruCount, h.bbuId, congrArg peer.getD h.address, h.mem, h.phase,
      alike_update h.slot hj.drop⟩, rfl⟩
  | error =>
    obtain ⟨a, ha, rfl⟩ := Option.map_eq_some_iff.1 hx
    obtain ⟨b, hb, rfl⟩ := Option.map_eq_some_iff.1 hy
    obtain ⟨hT, hm⟩ := h.handle hne (fun hj hearly ↦ by
      subst hj
      rw [hg hphase] at hearly
      cases hearly) ha hb
    exact ⟨hT, by rw [hm, map_sent_shift]⟩
  | bytes chunk =>
    rw [Manager.readSlot] at hx hy
    by_cases hchunk : chunk ≠ [] ∧ chunk.length ≤ 4096
    · rw [if_pos hchunk] at hx hy
      obtain ⟨a, ha, rfl⟩ := Option.map_eq_some_iff.1 hx
      obtain ⟨b, hb, rfl⟩ := Option.map_eq_some_iff.1 hy
      have hmem : Twins i d { s with mem := s.mem.write chunk } { t with mem := t.mem.write chunk } :=
        { h with mem := by rw [h.mem] }
      obtain ⟨hT, hm⟩ := hmem.handle hne (fun hj hearly ↦ by
        subst hj
        refine (hg hphase hearly).imp_left fun hshort ↦ ?_
        simp [longEnough]
        omega) ha hb
      refine ⟨hT, ?_⟩
      rw [hm, map_sent_shift, List.map_append, h.mem]
      split <;> rfl
    · rw [if_neg hchunk] at hx
      cases hx

theorem Twins.doPoll (h : Twins i d s t) (r : PollResult) : Twins i d (s.doPoll r) (t.doPoll r) := by
  cases r with
  | error => exact { h with }
  | timeout => exact { h with phase := rfl }
  | ready => exact { h with phase := rfl }

theorem Twins.step {s' t' : Manager} {e : Env × Input} {o o' : List Obs} (h : Twins i d s t)
    (hg : Overwrites i s e) (hs : s.step e = some (s', o)) (ht : t.step e = some (t', o')) :
    Twins i d s' t' ∧ o' = o.map (Obs.shift i d) := by
  have hquiet (phase : Phase) : Twins i d { s with phase := phase } { t with phase := phase } :=
    { h with phase := rfl }
  cases step_turn hs with
  | poll hphase =>
    rw [step_poll _ hphase] at hs
    rw [step_poll _ (h.phase.trans hphase)] at ht
    cases hs
    cases ht
    exact ⟨h.doPoll _, rfl⟩
  | @params env j hphase =>
    rw [step_params _ hphase] at hs
    rw [step_params _ (h.phase.trans hphase)] at ht
    cases hs
    cases ht
    obtain ⟨hA, hm⟩ := checkParams_alike (h.slot j) env
    refine ⟨{ h with phase := rfl, slot := alike_update h.slot hA }, ?_⟩
    rw [hm, map_sent_shift]
  | inactivity hphase =>
    rw [step_inactivity _ hphase] at hs
    rw [step_inactivity _ (h.phase.trans hphase)] at ht
    cases hs
    cases ht
    exact ⟨h.checkInactivity _ _ _, rfl⟩
  | noRequest hphase =>
    rw [step_cfg_none _ hphase] at hs
    rw [step_cfg_none _ (h.phase.trans hphase)] at ht
    cases hs
    cases ht
    exact ⟨hquiet _, rfl⟩
  | @request env req j r hphase hslot =>
    rw [step_cfg_some _ hphase, Manager.configure, hslot] at hs
    rw [step_cfg_some _ (h.phase.trans hphase)] at ht
    obtain ⟨hstate, r', hslot', hA⟩ := h.slotFor hslot
    rw [Manager.configure, hslot'] at ht
    cases hs
    cases ht
    refine h.register env req hA fun hj hnone ↦ hg ?_ ?_
    · rw [← hj, ← hstate, hnone]
    · rw [hslot]
      simpa using hj
  | noConnection hphase =>
    rw [step_control_none _ hphase] at hs
    rw [step_control_none _ (h.phase.trans hphase)] at ht
    cases hs
    cases ht
    exact ⟨hquiet _, rfl⟩
  | connection hphase =>
    rw [step_control_some _ hphase] at hs
    rw [step_control_some _ (h.phase.trans hphase)] at ht
    cases hs
    cases ht
    exact h.accept _
  | tap hphase =>
    rw [step_tap _ hphase] at hs
    rw [step_tap _ (h.phase.trans hphase)] at ht
    cases hs
    cases ht
    exact ⟨hquiet _, rfl⟩
  | noRead hphase =>
    rw [step_read_none _ hphase] at hs
    rw [step_read_none _ (h.phase.trans hphase)] at ht
    cases hs
    cases ht
    exact ⟨hquiet _, rfl⟩
  | @read env j r x hphase hne hfd hx =>
    rw [step_read_some _ hphase, if_neg (not_or.2 ⟨hne, not_lt.2 hfd⟩), hx] at hs
    rw [step_read_some _ (h.phase.trans hphase)] at ht
    split at ht
    · cases ht
    · obtain ⟨y, hy, heq⟩ := Option.map_eq_some_iff.1 ht
      cases hs
      cases heq
      obtain ⟨hT, hm⟩ := h.readSlot hphase hne hg hx hy
      exact ⟨{ hT with phase := rfl }, hm⟩
  | @reconfigure env j hready =>
    have hj := h.slot j
    rw [step_reconfigure, if_pos hready] at hs
    rw [step_reconfigure, if_pos (hj.state.trans hready)] at ht
    cases hs
    cases ht
    have hopen : ¬(j = i ∧ (s.rrus j).state.isEarly = true) := by
      rw [hready]
      exact fun hstale ↦ absurd hstale.2 (by decide)
    refine ⟨{ h with slot := alike_update h.slot ?_ }, rfl⟩
    rw [hj.eq_other hopen]
    exact alike_other { s.rrus j with state := .needParamsConfig, timer := 0 } _ _
  | @noReconfigure env j hready =>
    rw [step_reconfigure, if_neg hready] at hs
    rw [step_reconfigure, if_neg ((h.slot j).state ▸ hready)] at ht
    cases hs
    cases ht
    exact ⟨h, rfl⟩

end Steps

/-- The second state has other values in the stale fields of an unused slot. -/
structure StaleOnly (i : SlotId) (s t : Manager) : Prop where
  unused : (s.rrus i).state = .none
  others : t = s.setRru i (t.rrus i)
  slot : t.rrus i = { s.rrus i with
    fd := (t.rrus i).fd, cfg := (t.rrus i).cfg, serialOut := (t.rrus i).serialOut,
    id := (t.rrus i).id, port := (t.rrus i).port, ie1 := (t.rrus i).ie1, ip := (t.rrus i).ip }

theorem alike_refl (r : Rru) (stale : Prop) : Alike 0 stale r r :=
  ⟨rfl, rfl, rfl, rfl, rfl, rfl, rfl, (UInt32.add_zero _).symm, .inl ⟨rfl, rfl⟩, .inl rfl⟩

theorem StaleOnly.twins {i : SlotId} {s t : Manager} (h : StaleOnly i s t)
    (hip : (t.rrus i).ip = (s.rrus i).ip) :
    Twins i ((t.rrus i).serialOut - (s.rrus i).serialOut) s t := by
  have hslot : ∀ j, Alike (lead i ((t.rrus i).serialOut - (s.rrus i).serialOut) j) (j = i)
      (s.rrus j) (t.rrus j) := by
    intro j
    by_cases hj : j = i
    · subst hj
      have hr := h.slot
      rw [lead, if_pos rfl]
      generalize t.rrus j = r at hr hip
      rw [hr]
      refine ⟨rfl, rfl, rfl, rfl, hip, rfl, rfl, ?_, .inr ⟨rfl, ?_⟩, .inr ⟨rfl, h.unused⟩⟩
      · rw [UInt32.add_comm, UInt32.sub_add_cancel]
      · rw [h.unused]
        rfl
    · have hr : t.rrus j = Function.update s.rrus i (t.rrus i) j :=
        congrFun (congrArg Manager.rrus h.others) j
      rw [lead, if_neg hj, hr, Function.update_of_ne hj]
      exact alike_refl _ _
  have hcount : t.rruCount = (s.setRru i (t.rrus i)).rruCount := congrArg _ h.others
  have hbbuId : t.bbuId = (s.setRru i (t.rrus i)).bbuId := congrArg _ h.others
  have haddress : t.address = (s.setRru i (t.rrus i)).address := congrArg _ h.others
  have hmem : t.mem = (s.setRru i (t.rrus i)).mem := congrArg _ h.others
  have hphase : t.phase = (s.setRru i (t.rrus i)).phase := congrArg _ h.others
  exact ⟨hcount, hbbuId, haddress, hmem, hphase, hslot⟩

theorem filterMap_sentTo_shift (i j : SlotId) (d : UInt32) (o : List Obs) :
    (o.map (Obs.shift i d)).filterMap (Obs.sentTo j) =
      (o.filterMap (Obs.sentTo j)).map (IrMsg.shift (lead i d j)) := by
  rw [List.filterMap_map, List.map_filterMap]
  refine List.filterMap_congr fun x _ ↦ ?_
  cases x with
  | sent k m =>
    by_cases hk : k = j
    · subst hk
      simp [Obs.shift, Obs.sentTo]
    · simp [Obs.shift, Obs.sentTo, hk]
  | cfgResp | connected | received => rfl

theorem map_shift_eq_self_iff {d : UInt32} {ms : List IrMsg} :
    ms.map (IrMsg.shift d) = ms ↔ d = 0 ∨ ms = [] := by
  constructor
  · intro h
    cases ms with
    | nil => exact .inr rfl
    | cons m ms =>
      have hflow : m.flow + d = m.flow := congrArg IrMsg.flow (List.cons.inj h).1
      exact .inl (UInt32.add_eq_left.1 hflow)
  · rintro (rfl | rfl)
    · refine List.map_id'' (fun m ↦ ?_) ms
      rw [IrMsg.shift, UInt32.add_zero]
    · rfl

/-- An RRU that takes over an unused slot with the same address, is configured and opens its
channel first, is sent the same messages whatever the slot has kept of the RRU before, exactly if
the numbers of the messages start at the same value. -/
theorem slotReuse_sent_iff {i : SlotId} {s t s' t' : Manager} {es : List (Env × Input)}
    {o o' : List Obs} (h : StaleOnly i s t) (hip : (t.rrus i).ip = (s.rrus i).ip)
    (hg : Along Manager.step (Overwrites i) s es)
    (hs : exec Manager.step s es = some (s', o)) (ht : exec Manager.step t es = some (t', o')) :
    (o'.filterMap (Obs.sentTo i) = o.filterMap (Obs.sentTo i) ↔
      (t.rrus i).serialOut = (s.rrus i).serialOut ∨ o.filterMap (Obs.sentTo i) = []) ∧
    ∀ j, j ≠ i → o'.filterMap (Obs.sentTo j) = o.filterMap (Obs.sentTo j) := by
  obtain ⟨-, rfl⟩ := exec_related (g := Overwrites i) (fun hR hi hs ht ↦ Twins.step hR hi hs ht)
    (h.twins hip) hg hs ht
  refine ⟨?_, fun j hj ↦ ?_⟩
  · rw [filterMap_sentTo_shift, map_shift_eq_self_iff, lead, if_pos rfl]
    refine or_congr_left ⟨fun hd ↦ ?_, fun heq ↦ ?_⟩
    · rw [← UInt32.sub_add_cancel (t.rrus i).serialOut (s.rrus i).serialOut, hd, UInt32.zero_add]
    · rw [heq, UInt32.sub_self]
  · rw [filterMap_sentTo_shift, map_shift_eq_self_iff, lead, if_neg hj]
    exact .inl rfl

section Example

def comes (i : SlotId) (chunk : List UInt8) : List (Env × Input) :=
  let env : Env := ⟨false, [⟨some 0xc0a81e02, 0, 0, 0⟩], ⟨25, 1⟩, ⟨0, 0, 0, 1, 1, 2020⟩⟩
  roundInputs env (some ⟨0, 0, [2, 0, 0, 0, 0, 1]⟩) none (fun _ ↦ none) ++
  roundInputs env none (some (some 0xc0a81e02)) (fun _ ↦ none) ++
  roundInputs env none none fun j ↦ if j = i then some (.bytes chunk) else none

def firstStart : Manager := .start [0, 1, 2] 0 fun _ ↦ 0

def usedBefore (i : SlotId) (serialOut : UInt32) : Manager :=
  firstStart.setRru i { Rru.zero with
    fd := 5, cfg := some ⟨none, 1, 2, 3⟩, serialOut := serialOut, id := 4, port := 6,
    ie1 := [7] }

theorem staleOnly_usedBefore (serialOut : UInt32) :
    StaleOnly 0 firstStart (usedBefore 0 serialOut) :=
  ⟨rfl, rfl, rfl⟩

def establishment : List UInt8 := [0, 0, 0, 1, 0, 0, 0, 15, 1, 0, 2, 0, 0, 0, 0]

def answers (i : SlotId) (s : Manager) : Option (List UInt8 × List UInt32) :=
  (exec Manager.step s (comes i establishment)).map fun r ↦
    ((r.1.rrus i).mac, (r.2.filterMap (Obs.sentTo i)).map IrMsg.flow)

theorem exec_of_answers {i : SlotId} {s : Manager} {mac : List UInt8} {flows : List UInt32}
    (h : answers i s = some (mac, flows)) :
    ∃ s' o, exec Manager.step s (comes i establishment) = some (s', o) ∧
      (s'.rrus i).mac = mac ∧ (o.filterMap (Obs.sentTo i)).map IrMsg.flow = flows := by
  obtain ⟨⟨s', o⟩, hexec, heq⟩ := Option.map_eq_some_iff.1 h
  obtain ⟨hmac, hflows⟩ := Prod.mk.inj heq
  exact ⟨s', o, hexec, hmac, hflows⟩

theorem slotReuse_sent_iff_establishment :
    ∃ s t o o', exec Manager.step firstStart (comes 0 establishment) = some (s, o) ∧
      exec Manager.step (usedBefore 0 0) (comes 0 establishment) = some (t, o') ∧
      o'.filterMap (Obs.sentTo 0) ≠ [] ∧
      o'.filterMap (Obs.sentTo 0) = o.filterMap (Obs.sentTo 0) := by
  obtain ⟨⟨s, o⟩, hguarded⟩ := Option.isSome_iff_exists.1 (show (exec (guarded (Overwrites 0)
    Manager.step) firstStart (comes 0 establishment)).isSome = true by decide +kernel)
  obtain ⟨hs, hg⟩ := along_of_guarded hguarded
  have hanswers : answers 0 (usedBefore 0 0) = some ([2, 0, 0, 0, 0, 1], [0]) := by decide +kernel
  obtain ⟨t, o', ht, -, hflows⟩ := exec_of_answers hanswers
  refine ⟨s, t, o, o', hs, ht, ?_, ?_⟩
  · intro hnil
    rw [hnil] at hflows
    cases hflows
  · exact (slotReuse_sent_iff (staleOnly_usedBefore 0) rfl hg hs ht).1.2 (.inl rfl)

/-- An RRU that is new to the table sees in the answer to its first message how many messages the
RRU before it in the slot was sent. -/
theorem slotReuse_leaks_serialOut :
    StaleOnly 0 firstStart (usedBefore 0 9) ∧
    (∀ j, (firstStart.rrus j).mac ≠ [2, 0, 0, 0, 0, 1]) ∧
    ∃ s t o o', exec Manager.step firstStart (comes 0 establishment) = some (s, o) ∧
      exec Manager.step (usedBefore 0 9) (comes 0 establishment) = some (t, o') ∧
      (s.rrus 0).mac = [2, 0, 0, 0, 0, 1] ∧
      o'.filterMap (Obs.sentTo 0) ≠ o.filterMap (Obs.sentTo 0) := by
  have hfirst : answers 0 firstStart = some ([2, 0, 0, 0, 0, 1], [0]) := by decide +kernel
  obtain ⟨s, o, hs, hmac, hflows⟩ := exec_of_answers hfirst
  have hsecond : answers 0 (usedBefore 0 9) = some ([2, 0, 0, 0, 0, 1], [9]) := by decide +kernel
  obtain ⟨t, o', ht, -, hflows'⟩ := exec_of_answers hsecond
  refine ⟨staleOnly_usedBefore 9, by decide, s, t, o, o', hs, ht, hmac, ?_⟩
  intro heq
  rw [heq, hflows] at hflows'
  cases hflows'

end Example

end EnbL1Ppc.CpriEth
