import EnbL1Ppc.Fapi.TxEncoding

namespace EnbL1Ppc.Fapi.Requests

open Lib Lib.Memory Lib.Stores SendBuffers

/-! The messages with all their fields -/

/-- `fapi_ipc_msg_t` and the `fapi_l1_message_header_t` behind it. -/
structure Header where
  channelId : BitVec 32
  length : BitVec 32
  bodyAddr : BitVec 32
  physAddr : BitVec 32
  messageId : BitVec 32
  messageLength : BitVec 32

def readHeader (mem : Mem) (base : ℕ) : Header where
  channelId := readWord mem base
  length := readWord mem (base + 4)
  bodyAddr := readWord mem (base + 8)
  physAddr := readWord mem (base + 12)
  messageId := readWord mem (base + 16)
  messageLength := readWord mem (base + 16 + 4)

/-- `fapi_dl_config_request_t` in its buffer. -/
structure DlConfigMsg where
  header : Header
  length : BitVec 32
  transmissionPowerPcfich : BitVec 32
  body : DlConfigView

def readDlConfigMsg (mem : Mem) (base : ℕ) : DlConfigMsg where
  header := readHeader mem base
  length := readWord mem (base + 16 + 12)
  transmissionPowerPcfich := readWord mem (base + 16 + 32)
  body := readDlConfig mem (base + 16)

structure UlConfigMsg where
  header : Header
  length : BitVec 32
  body : UlConfigView

def readUlConfigMsg (mem : Mem) (base : ℕ) : UlConfigMsg where
  header := readHeader mem base
  length := readWord mem (base + 16 + 12)
  body := readUlConfig mem (base + 16)

/-- `fapi_hi_dci0_request_t`; the body has a field `sfnsf` of its own. -/
structure HiDci0Msg where
  header : Header
  sfnsf : BitVec 32
  body : HiDci0View

def readHiDci0Msg (mem : Mem) (base : ℕ) : HiDci0Msg where
  header := readHeader mem base
  sfnsf := readWord mem (base + 16 + 12)
  body := readHiDci0 mem (base + 16)

structure TxMsg where
  header : Header
  body : TxView

def readTxMsg (shm : Shm) (mem : Mem) (base : ℕ) : TxMsg where
  header := readHeader mem base
  body := readTx shm mem (base + 16)

/-! What a call leaves in its buffer -/

variable {L : Layout} {b : Buffer} {q : SendBuffers.Request} {snap snap₁ snap₂ : Mem}

theorem built_eq_run (L : Layout) (b : Buffer) (q : SendBuffers.Request) (snap : Mem) :
    built L b q snap = run (L.base b) (q.stores L b) snap := by
  rw [built, Request.image, List.take_length]
  rfl

def headerStores (L : Layout) (b : Buffer) (q : SendBuffers.Request) : List Store :=
  [(0, bigEndian q.channelId), (12, bigEndian (L.phys b))] ++
    [(4, bigEndian (16 + q.bodyLength)), (8, bigEndian (L.phys b + 16))]

theorem holds_headerStores (L : Layout) (b : Buffer) (q : SendBuffers.Request) (snap : Mem) :
    Holds (built L b q snap) (L.base b) (headerStores L b q) := by
  have hstores : q.stores L b =
      [(0, bigEndian q.channelId), (12, bigEndian (L.phys b))] ++
        ([(4, bigEndian 0)] ++ shift 16 q.body ++
          [(4, bigEndian (16 + q.bodyLength)), (8, bigEndian (L.phys b + 16))]) := by
    rw [← List.append_assoc, ← List.append_assoc]
    rfl
  rw [built_eq_run, hstores, run_append]
  refine holds_append.2 ⟨?_, ?_⟩
  · refine (holds_run ?_ _ _).run ?_
    · simp [apart_cons, span_cons, footprint]
    · rw [Set.disjoint_left]
      intro x hx hx'
      simp only [span_append, span_cons, span_nil, footprint, length_bigEndian, Set.mem_union,
        Set.mem_Ico, Set.mem_empty_iff_false, mem_span_shift, or_false] at hx hx'
      omega
  · rw [run_append]
    refine holds_run ?_ _ _
    simp [apart_cons, span_cons, footprint]

def sentHeader (L : Layout) (b : Buffer) (q : SendBuffers.Request) (id : BitVec 32) : Header :=
  ⟨q.channelId, 16 + q.bodyLength, L.phys b + 16, L.phys b, id, q.bodyLength⟩

theorem readHeader_built (id : BitVec 32) (hapart : Apart q.body)
    (hid : (0, bigEndian id) ∈ q.body) (hlen : (4, bigEndian q.bodyLength) ∈ q.body)
    (snap : Mem) :
    readHeader (built L b q snap) (L.base b) = sentHeader L b q id := by
  have hheader := holds_headerStores L b q snap
  have hbody := holds_built L b hapart snap
  have hchannel : readWord _ (L.base b + 0) = q.channelId :=
    readWord_of_holds hheader (by simp [headerStores])
  have hmessage := readWord_of_holds hbody hid
  rw [Nat.add_zero] at hchannel hmessage
  rw [readHeader, sentHeader, Header.mk.injEq]
  refine ⟨hchannel, ?_, ?_, ?_, hmessage, readWord_of_holds hbody hlen⟩
  · exact readWord_of_holds hheader (by simp [headerStores])
  · exact readWord_of_holds hheader (by simp [headerStores])
  · exact readWord_of_holds hheader (by simp [headerStores])

theorem readWord_built_unwritten {o : ℕ} (h : Disjoint (Set.Ico o (o + 4)) (span q.body))
    (snap : Mem) :
    readWord (built L b q snap) (L.base b + 16 + o) = readWord snap (L.base b + 16 + o) := by
  rw [readWord, readWord, built_eq_run, Nat.add_assoc]
  refine congrArg ofBigEndian (read_run_of_disjoint ?_ _ _)
  rw [Set.disjoint_left] at h ⊢
  intro x hx hx'
  have hstores : q.stores L b =
      [(0, bigEndian q.channelId), (12, bigEndian (L.phys b)), (4, bigEndian 0)] ++
        shift 16 q.body ++
        [(4, bigEndian (16 + q.bodyLength)), (8, bigEndian (L.phys b + 16))] := rfl
  simp only [hstores, span_append, span_cons, span_nil, footprint, length_bigEndian, Set.mem_union,
    Set.mem_Ico, Set.mem_empty_iff_false, mem_span_shift, or_false] at hx hx'
  rcases hx' with (hx' | ⟨-, hx'⟩) | hx'
  · omega
  · exact h (a := x - 16) ⟨by omega, by omega⟩ hx'
  · omega

/-! The four requests -/

variable {r : DlConfigRequest} {u : UlConfigRequest}

theorem readDlConfigMsg_built (h : r.WithinCapacity) (snap : Mem) :
    readDlConfigMsg (built L b (fapiP7DlConfigRequest r) snap) (L.base b) =
      ⟨sentHeader L b (fapiP7DlConfigRequest r) fapiDlConfigRequestId,
        readWord snap (L.base b + 16 + 12), readWord snap (L.base b + 16 + 32),
        r.dlConfigView⟩ := by
  have hapart := apart_dlConfig h
  have hlength : Disjoint (Set.Ico 12 (12 + 4)) (span (fapiP7DlConfigRequest r).body) := by
    refine disjoint_Ico_span ?_
    simp only [fapiP7DlConfigRequest, List.forall_mem_cons, List.not_mem_nil, IsEmpty.forall_iff,
      implies_true, and_true, length_bigEndian]
    omega
  have hpower : Disjoint (Set.Ico 32 (32 + 4)) (span (fapiP7DlConfigRequest r).body) :=
    disjoint_Ico_span (by simp [fapiP7DlConfigRequest, length_bigEndian])
  rw [readDlConfigMsg, readHeader_built fapiDlConfigRequestId hapart
      (by simp [fapiP7DlConfigRequest]) (by simp [fapiP7DlConfigRequest]) snap,
    readWord_built_unwritten hlength, readWord_built_unwritten hpower,
    readDlConfig_eq h (holds_built L b hapart _)]

theorem readUlConfigMsg_built (h : u.numberPdu.toNat ≤ fapiUlConfigMaxPdu) (snap : Mem) :
    readUlConfigMsg (built L b (fapiP7UlConfigRequest u) snap) (L.base b) =
      ⟨sentHeader L b (fapiP7UlConfigRequest u) fapiUlConfigRequestId,
        readWord snap (L.base b + 16 + 12), u.view⟩ := by
  have hapart := apart_ulConfig u
  have hunwritten : Disjoint (Set.Ico 12 (12 + 4)) (span (fapiP7UlConfigRequest u).body) :=
    disjoint_Ico_span (by simp [fapiP7UlConfigRequest, length_bigEndian])
  rw [readUlConfigMsg, readHeader_built fapiUlConfigRequestId hapart
      (by simp [fapiP7UlConfigRequest]) (by simp [fapiP7UlConfigRequest]) snap,
    readWord_built_unwritten hunwritten, readUlConfig_eq h (holds_built L b hapart _)]

theorem readHiDci0Msg_built (h : r.WithinCapacity) (snap : Mem) :
    readHiDci0Msg (built L b (fapiP7HiDci0Request r) snap) (L.base b) =
      ⟨sentHeader L b (fapiP7HiDci0Request r) fapiHiDci0RequestId,
        readWord snap (L.base b + 16 + 12), r.hiDci0View⟩ := by
  have hapart := apart_hiDci0 h
  have hunwritten : Disjoint (Set.Ico 12 (12 + 4)) (span (fapiP7HiDci0Request r).body) := by
    refine disjoint_Ico_span ?_
    simp only [fapiP7HiDci0Request, List.forall_mem_cons, List.not_mem_nil, IsEmpty.forall_iff,
      implies_true, and_true, length_bigEndian]
    omega
  rw [readHiDci0Msg, readHeader_built fapiHiDci0RequestId hapart
      (by simp [fapiP7HiDci0Request]) (by simp [fapiP7HiDci0Request]) snap,
    readWord_built_unwritten hunwritten, readHiDci0_eq h (holds_built L b hapart _)]

theorem readTxMsg_built {shm : Shm} (h : r.WithinCapacity) (hmap : shm.Maps (L.phys b))
    (hfit : 16 + r.txLength ≤ fapiTxReqBufSize) (snap : Mem) :
    readTxMsg shm (built L b (fapiP7TxRequest shm (L.phys b) r) snap) (L.base b) =
      ⟨sentHeader L b (fapiP7TxRequest shm (L.phys b) r) fapiTxRequestId, r.txView⟩ := by
  have hapart : Apart (fapiP7TxRequest shm (L.phys b) r).body := apart_tx
  rw [readTxMsg, readHeader_built fapiTxRequestId hapart (by simp [fapiP7TxRequest])
    (by simp [fapiP7TxRequest]) snap]
  exact congrArg _ (readTx_eq h hmap hfit (holds_built L b hapart _))

def SameMessage {α : Type} (read : Mem → ℕ → α) (L : Layout) (b : Buffer)
    (q : SendBuffers.Request) (snap₁ snap₂ : Mem) : Prop :=
  read (built L b q snap₁) (L.base b) = read (built L b q snap₂) (L.base b)

def SameWord (L : Layout) (b : Buffer) (o : ℕ) (snap₁ snap₂ : Mem) : Prop :=
  readWord snap₁ (L.base b + 16 + o) = readWord snap₂ (L.base b + 16 + o)

/-- What a message takes from the former contents of its buffer. The words are `length` in
DL_CONFIG.request and UL_CONFIG.request, `transmission_power_pcfich` and, in HI_DCI0.request,
`sfnsf`. -/
theorem sameMessage_iff (L : Layout) (shm : Shm) (i : Fin fapiTxReqBufNum)
    (h : r.WithinCapacity) (hu : u.numberPdu.toNat ≤ fapiUlConfigMaxPdu)
    (hmap : shm.Maps (L.phys ⟨.request, i⟩)) (snap₁ snap₂ : Mem) :
    let b : Buffer := ⟨.request, i⟩
    (SameMessage readDlConfigMsg L b (fapiP7DlConfigRequest r) snap₁ snap₂ ↔
      SameWord L b 12 snap₁ snap₂ ∧ SameWord L b 32 snap₁ snap₂) ∧
    (SameMessage readUlConfigMsg L b (fapiP7UlConfigRequest u) snap₁ snap₂ ↔
      SameWord L b 12 snap₁ snap₂) ∧
    (SameMessage readHiDci0Msg L b (fapiP7HiDci0Request r) snap₁ snap₂ ↔
      SameWord L b 12 snap₁ snap₂) ∧
    (16 + r.txLength ≤ fapiTxReqBufSize →
      SameMessage (readTxMsg shm) L b (fapiP7TxRequest shm (L.phys b) r) snap₁ snap₂) := by
  intro b
  refine ⟨?_, ?_, ?_, fun hfit ↦ ?_⟩
  · rw [SameMessage, readDlConfigMsg_built h, readDlConfigMsg_built h, DlConfigMsg.mk.injEq]
    simp only [true_and, and_true]
    rfl
  · rw [SameMessage, readUlConfigMsg_built hu, readUlConfigMsg_built hu, UlConfigMsg.mk.injEq]
    simp only [true_and, and_true]
    rfl
  · rw [SameMessage, readHiDci0Msg_built h, readHiDci0Msg_built h, HiDci0Msg.mk.injEq]
    simp only [true_and, and_true]
    rfl
  · rw [SameMessage, readTxMsg_built h hmap hfit, readTxMsg_built h hmap hfit]

section Example

theorem sameMessage_iff_oneBlock :
    SameMessage (readTxMsg exampleShm) exampleLayout firstBuffer
      (fapiP7TxRequest exampleShm (exampleLayout.phys firstBuffer) oneBlock) (fun _ ↦ 0)
      fun _ ↦ 1 := by
  have hcapacity : oneBlock.WithinCapacity :=
    ⟨by decide, by decide, by decide, by decide, by decide, by decide⟩
  have hu : (⟨5, 3, 0, 0, 0, fun _ _ ↦ 0⟩ : UlConfigRequest).numberPdu.toNat ≤
      fapiUlConfigMaxPdu := Nat.zero_le _
  exact (sameMessage_iff exampleLayout exampleShm ⟨0, by decide⟩ hcapacity hu
    ⟨by decide, by decide, by decide⟩ _ _).2.2.2 (by decide)

/-- DL_CONFIG.request keeps `transmission_power_pcfich` from the former message in its buffer. -/
theorem dlConfig_stale_power :
    oneBlock.WithinCapacity ∧
    (readDlConfigMsg (built exampleLayout firstBuffer (fapiP7DlConfigRequest oneBlock) fun _ ↦ 0)
      (exampleLayout.base firstBuffer)).transmissionPowerPcfich = 0 ∧
    (readDlConfigMsg (built exampleLayout firstBuffer (fapiP7DlConfigRequest oneBlock) fun _ ↦ 1)
      (exampleLayout.base firstBuffer)).transmissionPowerPcfich = 0x01010101 := by
  have hcapacity : oneBlock.WithinCapacity :=
    ⟨by decide, by decide, by decide, by decide, by decide, by decide⟩
  rw [readDlConfigMsg_built hcapacity, readDlConfigMsg_built hcapacity]
  exact ⟨hcapacity, rfl, rfl⟩

end Example

end EnbL1Ppc.Fapi.Requests
