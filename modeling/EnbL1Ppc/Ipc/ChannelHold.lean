import EnbL1Ppc.Ipc.ChannelFifo

namespace EnbL1Ppc.Ipc

open Lib Memory

variable {u : ℕ}

def Channel.recvPtrHold (ch : Channel) (locked : Bool) : Option (BitVec u × BitVec 32) × ℤ :=
  if lockRet locked < 0 then (none, lockRet locked)
  else if ch.empty then (none, -errChannelEmpty)
  else (some (ch.nextIn.msgPtr.setWidth u, ch.nextIn.msgLen), lockRet locked)

/-- `fsl_ipc_recv_msg_ptr`, which takes any `producer_initialized` but zero. -/
def Channel.recvMsgPtr (h : Handle) (ch : Channel) (locked : Bool) :
    Option (ℕ × BitVec 32) × ℤ :=
  if ch.producerInitialized = 0 then (none, -errProducerNotInit)
  else if lockRet locked < 0 then (none, lockRet locked)
  else if ch.empty then (none, -errChannelEmpty)
  else (some (h.p2vcb ch.nextIn.msgPtr, ch.nextIn.msgLen), lockRet locked)

def Channel.setConsumedStatus (ch : Channel) (locked : Bool) : Channel × ℤ :=
  if lockRet locked < 0 then (ch, lockRet locked)
  else (if ch.empty then ch else ch.consume, lockRet locked)

namespace ChannelHold

open ChannelCalls ChannelFifo

inductive Input (u : ℕ)
  | call (c : Call u)
  | recvPtrHold (locked : Bool)
  | recvMsgPtr (locked : Bool)
  | setConsumedStatus (locked : Bool)

/-- A call, or a message handed out without being consumed: where it is, its length and the bytes
there then. A descriptor that is given back counts as received. -/
inductive Output (u : ℕ)
  | called (e : Event u)
  | held (vaddr : ℕ) (len : BitVec 32) (body : List UInt8)

def holding (s : State) : Option (ℕ × BitVec 32) → List (Output u)
  | none => []
  | some (vaddr, len) => [.held vaddr len (read s.mem vaddr len.toNat)]

/-- The caller of `fsl_ipc_recv_ptr_hold` translates the address that it gets. -/
def step (h : Handle) : Machine.Step State (Input u) (Output u)
  | s, .call c => some ((perform h s c).1, [.called (perform h s c).2.2])
  | s, .recvPtrHold locked =>
    some (s, holding s ((s.channel.recvPtrHold (u := u) locked).1.map fun r ↦
      (h.p2vcb (r.1.setWidth 64), r.2)))
  | s, .recvMsgPtr locked => some (s, holding s (s.channel.recvMsgPtr h locked).1)
  | s, .setConsumedStatus locked =>
    some (⟨(s.channel.setConsumedStatus locked).1, s.mem⟩,
      if locked && !s.channel.empty then [.called (.received (s.channel.nextIn.msgPtr.setWidth u)
        s.channel.nextIn.msgLen (content h s.mem s.channel.nextIn))] else [])

def calls (out : List (Output u)) : List (Event u) :=
  out.filterMap fun | .called e => some e | .held .. => none

def lent (out : List (Output u)) : Option (ℕ × BitVec 32 × List UInt8) :=
  out.foldl (fun l o ↦ match o with
    | .held vaddr len body => some (vaddr, len, body)
    | .called (.received ..) => none
    | .called _ => l) none

def Oldest (before : List (Output u)) : Output u → Prop
  | .called _ => True
  | .held _ _ body => (sentBodies (calls before))[(receivedBodies (calls before)).length]? = some body

structure Lends (h : Handle) (s₀ : State) (out : List (Output u)) (s : State) : Prop where
  carries : ∃ ds, Carries h s₀ s ds (calls out) ∧ ∀ vaddr len body,
    lent out = some (vaddr, len, body) →
      ∃ d ∈ ds.head?, vaddr = h.p2vcb d.msgPtr ∧ len = d.msgLen ∧ content h s.mem d = body
  oldest : Machine.Throughout Oldest [] out

variable {h : Handle} {s₀ s s' : State} {out : List (Output u)} {ds : List Bd}

theorem Lends.called (hl : Lends h s₀ out s) {e : Event u}
    (hc : Carries h s₀ s' ds (calls out ++ [e]))
    (hlent : ∀ vaddr len body, lent (out ++ [.called e]) = some (vaddr, len, body) →
      ∃ d ∈ ds.head?, vaddr = h.p2vcb d.msgPtr ∧ len = d.msgLen ∧ content h s'.mem d = body) :
    Lends h s₀ (out ++ [.called e]) s' :=
  ⟨⟨ds, by simpa [calls] using hc, hlent⟩, Machine.throughout_concat.2 ⟨hl.oldest, trivial⟩⟩

theorem Lends.hold (hl : Lends h s₀ out s) {r : Option (ℕ × BitVec 32)}
    (hr : ∀ x ∈ r, s.channel.empty = false ∧
      x = (h.p2vcb s.channel.nextIn.msgPtr, s.channel.nextIn.msgLen)) :
    Lends h s₀ (out ++ holding s r) s := by
  cases r with
  | none => simpa [holding] using hl
  | some x =>
    obtain ⟨hne, rfl⟩ := hr x rfl
    obtain ⟨ds, hc, -⟩ := hl.carries
    cases ds with
    | nil => simp [hc.intact.holds.empty_iff.2 rfl] at hne
    | cons d ds =>
      have hd := hc.intact.receive.1
      refine ⟨⟨d :: ds, by simpa [holding, calls] using hc, ?_⟩,
        Machine.throughout_concat.2 ⟨hl.oldest, by simp [Oldest, hc.bodies, hd, content]⟩⟩
      simp only [holding, lent, List.foldl_append, List.foldl_cons, List.foldl_nil]
      rintro _ _ _ ⟨⟩
      exact ⟨d, rfl, by rw [hd], by rw [hd], by rw [hd]; rfl⟩

theorem Lends.giveBack (hl : Lends h s₀ out s) (hne : s.channel.empty = false) (addr : BitVec u)
    (len : BitVec 32) : Lends h s₀ (out ++ [.called (.received addr len
      (content h s.mem s.channel.nextIn))]) ⟨s.channel.consume, s.mem⟩ := by
  obtain ⟨ds, hc, -⟩ := hl.carries
  cases ds with
  | nil => simp [hc.intact.holds.empty_iff.2 rfl] at hne
  | cons d ds => exact hl.called (hc.receive addr len) (by simp [lent])

theorem Lends.call (hdis : DisjointBuffers h s₀.channel) (hl : Lends h s₀ out s) {c : Call u}
    (hc : Call.isSendPtr c = false) {ret : ℤ} {e : Event u} (hp : Performed h s c s' ret e) :
    Lends h s₀ (out ++ [.called e]) s' := by
  obtain ⟨ds, hcar, hlent⟩ := hl.carries
  cases hp with
  | sendPtr => simp [Call.isSendPtr] at hc
  | sendMsg src len ch hch hpass hroom hlen =>
    have hroom := hcar.intact.holds.room hroom
    refine hl.called (hcar.send hdis hroom hch src hlen _) fun vaddr len body hd ↦ ?_
    obtain ⟨d, hhead, hvaddr, hlen', hbody⟩ := hlent vaddr len body (by simpa [lent] using hd)
    refine ⟨d, ?_, hvaddr, hlen', ?_⟩
    · rw [List.head?_append, Option.mem_def.1 hhead]
      rfl
    · rw [hcar.intact.content_send hdis hroom s.mem src hlen (List.mem_of_mem_head? hhead), hbody]
  | receive c _ hpass hne => exact hl.giveBack hne _ _
  | full c ch hch => exact hl.called (hcar.same hch _) (by simpa [lent] using hlent)
  | empty => exact hl.called (hcar.same (.refl _) _) (by simpa [lent] using hlent)
  | refused c ch hch => exact hl.called (hcar.same hch _) (by simpa [lent] using hlent)

/-- The addresses of the buffers fit an `unsigned long`. -/
def Addressable (u : ℕ) (ch : Channel) : Prop := ∀ i, (ch.bd i).msgPtr.toNat < 2 ^ u

theorem Addressable.setWidth {ch₀ ch : Channel} (hf : Addressable u ch₀) (hi : Intact ch₀ ch ds) :
    (ch.nextIn.msgPtr.setWidth u).setWidth 64 = ch.nextIn.msgPtr := by
  have hlt : ch.nextIn.msgPtr.toNat < 2 ^ u := by
    rw [Channel.nextIn, hi.msgPtr]
    exact hf _
  refine BitVec.eq_of_toNat_eq ?_
  rw [BitVec.toNat_setWidth, BitVec.toNat_setWidth, Nat.mod_eq_of_lt hlt]
  exact Nat.mod_eq_of_lt (BitVec.isLt _)

theorem step_lends (hdis : DisjointBuffers h s₀.channel) (hf : Addressable u s₀.channel)
    {i : Input u} {o : List (Output u)}
    (hl : Lends h s₀ out s) (hi : ∀ c, i = .call c → Call.isSendPtr c = false)
    (hs : step h s i = some (s', o)) : Lends h s₀ (out ++ o) s' := by
  cases i with
  | call c =>
    cases hs
    exact hl.call hdis (hi c rfl) (perform_cases c)
  | recvPtrHold locked =>
    cases hs
    obtain ⟨ds, hc, -⟩ := hl.carries
    refine hl.hold fun x hx ↦ ?_
    obtain ⟨r, hr, rfl⟩ := Option.map_eq_some_iff.1 hx
    unfold Channel.recvPtrHold at hr
    split_ifs at hr with hlock hempty
    obtain rfl := Option.some.inj hr
    exact ⟨by simpa using hempty, by rw [hf.setWidth hc.intact]⟩
  | recvMsgPtr locked =>
    cases hs
    refine hl.hold fun x hx ↦ ?_
    unfold Channel.recvMsgPtr at hx
    split_ifs at hx with hinit hlock hempty
    · cases hx
    · cases hx
    · cases hx
    · exact ⟨by simpa using hempty, (Option.some.inj hx).symm⟩
  | setConsumedStatus locked =>
    cases hs
    cases locked with
    | false => simpa [Channel.setConsumedStatus, lockRet] using hl
    | true =>
      cases hempty : s.channel.empty with
      | true => simpa [Channel.setConsumedStatus, lockRet, errSuccess, hempty] using hl
      | false =>
        simpa [Channel.setConsumedStatus, lockRet, errSuccess, hempty] using
          hl.giveBack hempty (s.channel.nextIn.msgPtr.setWidth u) s.channel.nextIn.msgLen

/-- Whatever is sent meanwhile, the message that is held stays in its buffer as it was sent until
it is received or given back; it is always the oldest one, and none is lost or given twice. -/
theorem exec_lends (hf : Fresh s₀.channel) (hdis : DisjointBuffers h s₀.channel)
    (hu : Addressable u s₀.channel) {is : List (Input u)} (his : ∀ c, .call c ∈ is → Call.isSendPtr c = false)
    (hrun : Machine.exec (step h) s₀ is = some (s, out)) :
    (∀ vaddr len body, lent out = some (vaddr, len, body) →
        read s.mem vaddr len.toNat = body) ∧
      Machine.Throughout Oldest [] out ∧
      receivedBodies (calls out) <+: sentBodies (calls out) := by
  have hl : Lends h s₀ ([] ++ out) s := Machine.exec_history
    (g := fun _ i ↦ ∀ c, i = .call c → Call.isSendPtr c = false) (step_lends hdis hu) []
    ⟨⟨[], ⟨⟨hf.holds, rfl, fun _ ↦ rfl, by simp⟩, rfl⟩, nofun⟩, trivial⟩
    (.of_forall (by rintro i hi _ c rfl; exact his c hi) _) hrun
  rw [List.nil_append] at hl
  obtain ⟨ds, hc, hlent⟩ := hl.carries
  refine ⟨fun vaddr len body hd ↦ ?_, hl.oldest, _, hc.bodies.symm⟩
  obtain ⟨d, -, rfl, rfl, hbody⟩ := hlent vaddr len body hd
  exact hbody

theorem exec_lends_twoSlots : ∃ s out,
    Machine.exec (step identityHandle) twoSlots [(.call (.sendMsg true (fun _ ↦ 65) 1) : Input 64),
      .recvPtrHold true, .recvMsgPtr true, .call (.sendMsg true (fun _ ↦ 66) 1)] = some (s, out) ∧
    lent out = some (0x1000, 1, [65]) ∧ read s.mem 0x1000 1 = [65] := by
  have hdis : DisjointBuffers identityHandle twoSlots.channel :=
    attachMsgRing_disjoint (v := 0x1000) (by decide) (by decide)
  obtain ⟨⟨s, out⟩, hrun, hlent⟩ : ∃ r, Machine.exec (step identityHandle) twoSlots
      [(.call (.sendMsg true (fun _ ↦ 65) 1) : Input 64), .recvPtrHold true, .recvMsgPtr true,
        .call (.sendMsg true (fun _ ↦ 66) 1)] = some r ∧
      lent r.2 = some (0x1000, 1, [65]) := ⟨_, rfl, rfl⟩
  exact ⟨s, out, hrun, hlent, (exec_lends ⟨by decide, rfl, rfl, rfl⟩ hdis (fun _ ↦ BitVec.isLt _)
    (by simp [Call.isSendPtr]) hrun).1 _ _ _ hlent⟩

end ChannelHold

end EnbL1Ppc.Ipc
