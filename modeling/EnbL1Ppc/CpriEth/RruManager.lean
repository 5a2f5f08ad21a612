import Mathlib.Data.List.FinRange
import EnbL1Ppc.CpriEth.Rru
import EnbL1Ppc.Lib.Machine

namespace EnbL1Ppc.CpriEth

abbrev maxRruClients : ℕ := 10

def rruInactivityTimeout : ℕ := 10

abbrev SlotId := Fin maxRruClients

/-- Where `cpri_rru_manager_run_thread` stands: at the top of its loop, in the two loops over
the slots after a timeout, or at one of the descriptors that `poll` may have reported. -/
inductive Phase
  | top | params (i : SlotId) | inactivity (i : SlotId) | cfg | control | tap | read (i : SlotId)
  | done
  deriving DecidableEq

/-- The variables of the thread, the table of slots, and the descriptors of the process as far
as `accept` and `close` are concerned: `fds` are the open ones, and `accepted` those among them
that `accept` has returned, with the slot that each was accepted for. -/
structure Manager where
  rrus : SlotId → Rru
  pollfds : SlotId → ℤ
  rruCount : ℕ
  bbuId : UInt8
  address : UInt32
  mem : Mem
  fds : List ℕ
  accepted : List (ℕ × Option SlotId)
  phase : Phase

structure CfgReq where
  bbuPort : UInt8
  rruId : UInt8
  rruMac : List UInt8

structure CfgResp where
  bbuPort : UInt8
  rruId : UInt8
  bbuId : UInt8
  rruMac : List UInt8
  rruIp : UInt32
  bbuIp : UInt32
  netmask : UInt32

inductive PollResult
  | error | timeout | ready

/-- What `read` returns. After a disconnection `getpeername` may still know the peer. -/
inductive ReadResult
  | bytes (chunk : List UInt8)
  | closed (peer : Option UInt32)
  | error

/-- The outside's part in a step. Without an argument a descriptor has not been reported;
`accept` returns the address of its peer, or fails. -/
inductive Input
  | poll (r : PollResult)
  | params
  | inactivity (peer : Option UInt32)
  | cfg (req : Option CfgReq)
  | control (peer : Option (Option UInt32))
  | tap (nRead : Option ℤ)
  | read (r : Option ReadResult)
  | reconfigure (i : SlotId)

inductive Obs
  | cfgResp (r : CfgResp)
  | connected (i : SlotId)
  | received (i : SlotId) (msg : RruMsg)
  | sent (i : SlotId) (m : IrMsg)

def lowestFree (fds : List ℕ) : ℕ :=
  ((List.range (fds.length + 1)).find? (· ∉ fds)).getD 0

/-- The first slot with the given property, as the `find` functions return it. -/
def findSlot (rrus : SlotId → Rru) (p : Rru → Bool) : Option SlotId :=
  (List.finRange maxRruClients).find? fun i ↦ p (rrus i)

def findRruByMac (rrus : SlotId → Rru) (mac : List UInt8) : Option SlotId :=
  findSlot rrus fun r ↦ r.mac = mac

def findRruByIp (rrus : SlotId → Rru) (ip : UInt32) : Option SlotId :=
  findSlot rrus fun r ↦ r.ip = ip

/-- `cpri_rru_manager_add_rru_by_mac`, with the slot it returns. -/
def addRruByMac (rrus : SlotId → Rru) (mac : List UInt8) : Option (SlotId × Rru) :=
  (findSlot rrus fun r ↦ r.state = .none).map fun i ↦
    (i, { rrus i with mac := mac, timeout := 0, needReset := true })

namespace Manager

variable (s : Manager)

def setRru (i : SlotId) (r : Rru) : Manager :=
  { s with rrus := Function.update s.rrus i r }

def close (fd : ℤ) : Manager :=
  { s with
    fds := s.fds.filter fun n ↦ (n : ℤ) ≠ fd
    accepted := s.accepted.filter fun a ↦ (a.1 : ℤ) ≠ fd }

def nextSlot (i : SlotId) (next : SlotId → Phase) (last : Phase) : Phase :=
  if h : i.val + 1 < maxRruClients then next ⟨i.val + 1, h⟩ else last

/-- The entries of `pollfds` for the slots at the top of the loop. -/
def slotPollfds (i : SlotId) : ℤ :=
  if (s.rrus i).state = .none then -1
  else if 0 < (s.rrus i).fd then (s.rrus i).fd
  else s.pollfds i

def doPoll : PollResult → Manager
  | .error => { s with pollfds := s.slotPollfds }
  | .timeout => { s with pollfds := s.slotPollfds, phase := .params 0 }
  | .ready => { s with pollfds := s.slotPollfds, phase := .cfg }

end Manager

def checkParams (env : Env) (r : Rru) : Handled :=
  if r.state = .needParamsConfig then
    if 10 ≤ r.timer then
      let h := sendParameterConfiguration env r
      ({ h.1 with state := .wait }, h.2)
    else ({ r with timer := r.timer + 1 }, [])
  else (r, [])

def Manager.checkInactivity (s : Manager) (i : SlotId) (peer : Option UInt32) : Manager :=
  let r := s.rrus i
  if r.state = .none then s
  else if rruInactivityTimeout < r.timeout then
    { (s.close r.fd).setRru i { r with state := .none, timeout := 0 } with
      address := peer.getD s.address }
  else s.setRru i { r with timeout := r.timeout + 1 }

/-- The base address 192.168.30.65 of the slots that the configuration does not know. -/
def baseIp : UInt32 := 0xc0a81e41

def portConfig (env : Env) (port : UInt8) : Option (UInt32 × RruConfig) :=
  env.rrus[port.toNat]?.bind fun c ↦ c.ip.map fun ip ↦ (ip, c)

namespace Manager

variable (s : Manager) (env : Env)

def needsIp (port : UInt8) : Bool :=
  (portConfig env port).elim 0 (·.1) = 0

def assignedIp (port : UInt8) : UInt32 :=
  if needsIp env port then baseIp + UInt32.ofNat (s.rruCount % 256)
  else (portConfig env port).elim 0 (·.1)

def nextRruCount (port : UInt8) : ℕ :=
  if needsIp env port then if 0xfe - 0x41 < s.rruCount + 1 then 0 else s.rruCount + 1
  else s.rruCount

/-- What a configuration request does to the slot `i` that `find` or `add` has returned. -/
def register (req : CfgReq) (i : SlotId) (r : Rru) : Manager × List Obs :=
  ({ s.setRru i
      { r with
        state := .init
        timeout := 0
        ip := s.assignedIp env req.bbuPort
        cfg := (portConfig env req.bbuPort).elim r.cfg fun c ↦ some c.2 } with
      rruCount := s.nextRruCount env req.bbuPort
      bbuId := s.bbuId + 0x10 },
    [.cfgResp ⟨req.bbuPort, req.rruId, s.bbuId, req.rruMac, s.assignedIp env req.bbuPort,
      0xc0a81e01, 0xffffff00⟩])

def slotFor (mac : List UInt8) : Option (SlotId × Rru) :=
  match findRruByMac s.rrus mac with
  | some i => some (i, s.rrus i)
  | none => addRruByMac s.rrus mac

/-- A configuration request; with all slots in use it is `NULL` that is written to. -/
def configure (req : CfgReq) : Option (Manager × List Obs) :=
  (s.slotFor req.rruMac).map fun x ↦ s.register env req x.1 x.2

end Manager

def Manager.target (s : Manager) (ip : UInt32) : Option SlotId :=
  (findRruByIp s.rrus ip).filter fun i ↦ (s.rrus i).state = .init

/-- The descriptor goes to the slot with the address of the peer, if it waits for it. -/
def Manager.associate (s : Manager) (newSocket : ℤ) : Manager × List Obs :=
  match s.target s.address with
  | some i =>
    (s.setRru i { s.rrus i with fd := newSocket, state := .connected, timeout := 0 },
      [.connected i])
  | none => (s, [])

def Manager.newSocket (s : Manager) (peer : Option UInt32) : ℤ :=
  peer.elim (-1) fun _ ↦ lowestFree s.fds

/-- A connection. If `accept` fails, the address is the one of the time before. -/
def Manager.accept (s : Manager) : Option UInt32 → Manager × List Obs
  | none => s.associate (s.newSocket none)
  | some ip =>
    Manager.associate { s with
      fds := lowestFree s.fds :: s.fds
      accepted := (lowestFree s.fds, s.target ip) :: s.accepted
      address := ip } (s.newSocket (some ip))

def Manager.handle (s : Manager) (env : Env) (i : SlotId) (len : ℤ) :
    Option (Manager × List IrMsg) :=
  (receiveMessage env (s.rrus i) s.mem len).map fun h ↦ (s.setRru i h.1, h.2)

/-- The result of `read` on the socket of slot `i`. A failed read has the length -1, with which
the message of the read before is handled once more. -/
def Manager.readSlot (s : Manager) (env : Env) (i : SlotId) : ReadResult →
    Option (Manager × List Obs)
  | .closed peer =>
    some ({ (s.close (s.rrus i).fd).setRru i { s.rrus i with state := .none } with
      address := peer.getD s.address }, [])
  | .error => (s.handle env i (-1)).map fun h ↦ (h.1, h.2.map (.sent i))
  | .bytes chunk =>
    if chunk ≠ [] ∧ chunk.length ≤ 4096 then
      (Manager.handle { s with mem := s.mem.write chunk } env i chunk.length).map fun h ↦
        (h.1, (if msgHeaderSize ≤ chunk.length then [.received i (rruMsg ((s.mem.write chunk).u32 0))]
          else []) ++ h.2.map (.sent i))
    else none

def Manager.step (s : Manager) (e : Env × Input) : Option (Manager × List Obs) :=
  match s.phase, e.2 with
  | .top, .poll r => some (s.doPoll r, [])
  | .params i, .params =>
    let h := checkParams e.1 (s.rrus i)
    some ({ s.setRru i h.1 with phase := nextSlot i .params (.inactivity 0) }, h.2.map (.sent i))
  | .inactivity i, .inactivity peer =>
    some ({ s.checkInactivity i peer with phase := nextSlot i .inactivity .top }, [])
  | .cfg, .cfg none => some ({ s with phase := .control }, [])
  | .cfg, .cfg (some req) => (s.configure e.1 req).map fun r ↦ ({ r.1 with phase := .control }, r.2)
  | .control, .control none => some ({ s with phase := .tap }, [])
  | .control, .control (some peer) => some ({ (s.accept peer).1 with phase := .tap }, (s.accept peer).2)
  | .tap, .tap n => some ({ s with phase := if n.any (· < 0) then .done else .read 0 }, [])
  | .read i, .read none => some ({ s with phase := nextSlot i .read .top }, [])
  | .read i, .read (some r) =>
    -- poll ignores negative descriptors, and the loop passes over unused slots
    if (s.rrus i).state = .none ∨ s.pollfds i < 0 then none
    else (s.readSlot e.1 i r).map fun x ↦ ({ x.1 with phase := nextSlot i .read .top }, x.2)
  | _, .reconfigure i =>
    -- cpri_rru_manager_rrus_reconfigure, from another thread
    if (s.rrus i).state = .ready then
      some (s.setRru i { s.rrus i with state := .needParamsConfig, timer := 0 }, [])
    else some (s, [])
  | _, _ => none

def Manager.start (fds : List ℕ) (address : UInt32) (mem : Mem) : Manager where
  rrus _ := .zero
  pollfds _ := -1
  rruCount := 0
  bbuId := 0
  address := address
  mem := mem
  fds := fds
  accepted := []
  phase := .top

/-- The inputs of one round of the loop in which `poll` has reported something. -/
def roundInputs (env : Env) (req : Option CfgReq) (peer : Option (Option UInt32))
    (reads : SlotId → Option ReadResult) : List (Env × Input) :=
  [(env, .poll .ready), (env, .cfg req), (env, .control peer), (env, .tap none)] ++
    (List.finRange maxRruClients).map fun i ↦ (env, .read (reads i))

end EnbL1Ppc.CpriEth
