import EnbL1Ppc.Fapi.RequestBounds
import EnbL1Ppc.Fapi.SendBuffersRuns

namespace EnbL1Ppc.Fapi.CpriEthSend

open Lib Lib.Memory Lib.Stores SendBuffers Requests

def fapiChannelCpriEth : BitVec 32 := 7

def pktBufSize : ℕ := 8192

/-- `read` on the TAP device: what `pkt_buf` has room for of the frame. -/
def readTap (frame : List UInt8) : List UInt8 := frame.take pktBufSize

def fapiCpriEthSend (data : List UInt8) : SendBuffers.Request where
  pool := .cpriEth
  channelId := fapiChannelCpriEth
  body := [(0, data)]
  bodyLength := .ofNat 32 data.length

def cpriRxThrSendToCpri (buf : List UInt8) : SendBuffers.Request := fapiCpriEthSend buf

def cpriBuffer (i : Fin fapiCpriEthBufNum) : Buffer := ⟨.cpriEth, i⟩

theorem within_cpriEthSend_iff {data : List UInt8} {bound : ℕ} :
    Within bound (fapiCpriEthSend data).body ↔ data.length ≤ bound := by
  simp [fapiCpriEthSend, Within]

theorem read_cpriEthSend (L : Layout) (b : Buffer) (data : List UInt8) (mem : Mem) :
    read (applyStores (L.base b) ((fapiCpriEthSend data).stores L b) mem) (L.base b + 16)
      data.length = data := by
  have hdisj : Disjoint (footprint (16, data))
      (span [(4, bigEndian (16 + .ofNat 32 data.length)), (8, bigEndian (L.phys b + 16))]) := by
    rw [Set.disjoint_left]
    intro x hx
    simp only [span_cons, span_nil, Set.union_empty, footprint, Set.mem_union, Set.mem_Ico,
      length_bigEndian] at hx ⊢
    omega
  exact read_run hdisj [(0, bigEndian fapiChannelCpriEth), (12, bigEndian (L.phys b)),
    (4, bigEndian 0)] (L.base b) mem

/-- A frame from the TAP device is written inside its CPRI buffer, behind the header, exactly if it
has at most 4080 bytes. -/
theorem cpriFrame_inside_iff (L : Layout) (i : Fin fapiCpriEthBufNum) (frame : List UInt8) :
    (WritesInside L (cpriBuffer i) (cpriRxThrSendToCpri (readTap frame)) ↔
      frame.length ≤ 4080) ∧
    ∀ mem, read (applyStores (L.base (cpriBuffer i))
        ((cpriRxThrSendToCpri (readTap frame)).stores L (cpriBuffer i)) mem)
      (L.base (cpriBuffer i) + 16) (readTap frame).length = readTap frame := by
  refine ⟨?_, read_cpriEthSend L _ _⟩
  rw [writesInside_body_iff, cpriRxThrSendToCpri, within_cpriEthSend_iff, readTap,
    List.length_take]
  change min 8192 _ ≤ 4080 ↔ _
  omega

def longFrame : List UInt8 := List.replicate 4080 0 ++ [7]

/-- Its last byte goes into the header of the next buffer. -/
theorem longFrame_outside :
    ¬ WritesInside exampleLayout (cpriBuffer ⟨0, by decide⟩)
      (cpriRxThrSendToCpri (readTap longFrame)) ∧
    applyStores (exampleLayout.base (cpriBuffer ⟨0, by decide⟩))
      ((cpriRxThrSendToCpri (readTap longFrame)).stores exampleLayout
        (cpriBuffer ⟨0, by decide⟩)) (fun _ ↦ 0)
      (exampleLayout.base (cpriBuffer ⟨1, by decide⟩)) = 7 := by
  constructor
  · rw [writesInside_body_iff, cpriRxThrSendToCpri, within_cpriEthSend_iff]
    decide +kernel
  · decide +kernel

end EnbL1Ppc.Fapi.CpriEthSend
