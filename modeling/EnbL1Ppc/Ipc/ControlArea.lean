import EnbL1Ppc.Ipc.Configure
import EnbL1Ppc.Lib.Tiling

namespace EnbL1Ppc.Ipc.ControlArea

open Lib Lib.Tiling

structure Sizes where
  control : ℕ
  ipc : ℕ
  smartdspLog : ℕ
  l1d : ℕ
  channel : ℕ
  bd : ℕ
  smartdspLog_pos : 0 < smartdspLog
  bd_pos : 0 < bd

def nrDspCore : ℕ := 6
def maxIpcChannels : ℕ := 64
def defaultChannelDepth : ℕ := 16
def defaultRatInst : BitVec 32 := 2

/-- The addresses `init_sh_ctrl_area` stores in `os_het_control_t`, and `sh_ctrl_area_mark`, from
where the rest of the area is handed out. -/
structure Control where
  ipc : ℕ
  smartdspDebug : ℕ
  l1d : ℕ
  sharedCtrlSize : BitVec 32
  mark : ℕ

/-- `init_sh_ctrl_area` without several RATs; the flags tell which `ioremap` succeeds. -/
def initShCtrlArea (sz : Sizes) (physAddr : ℕ) (ctrl log defense : Bool) : Option Control :=
  if !ctrl then none
  else
    let ipc := physAddr + sz.control
    let smartdspDebug := ipc + sz.ipc
    if !log then none
    else
      let l1d := smartdspDebug + sz.smartdspLog * nrDspCore
      if !defense then none
      else some { ipc, smartdspDebug, l1d, sharedCtrlSize := 0x4000, mark := l1d + sz.l1d }

/-- `get_hetmgr_mem`. The address of the mark is compared with a size. -/
def getHetmgrMem (size : BitVec 32) (c : Control) : Control × ℕ :=
  let mark := c.mark + size.toNat
  ({ c with
      mark
      sharedCtrlSize := if mark > c.sharedCtrlSize.toNat then c.sharedCtrlSize * 4
        else c.sharedCtrlSize }, c.mark)

/-- The entries of `os_het_ipc_channel_t` that the two sides initialise. -/
structure Entry where
  id : ℕ
  bdBase : ℕ
  channel : Channel

/-- The control area with its `os_het_ipc_t` and the memory found from `ipc_channels` on. -/
structure Area where
  ctrl : Control
  ipcChannels : ℕ
  numIpcChannels : ℕ
  ipcMaxBdSize : ℕ
  channels : ℕ → Entry

/-- The loop over the channels: `f` initialises a channel, given its number and the address of
its ring, and `next` is the address of the next ring. -/
def forChannels (f : ℕ → ℕ → Entry → Entry) (next : ℕ → ℕ) :
    ℕ → ℕ → ℕ → (ℕ → Entry) → ℕ → Entry
  | 0, _, _, ch => ch
  | k + 1, i, addr, ch =>
    forChannels f next k (i + 1) (next addr) (Function.update ch i (f i addr (ch i)))

def openChannelZero (depth : ℕ) (ch : ℕ → Entry) : ℕ → Entry :=
  Function.update ch 0 { ch 0 with
    id := 0
    channel := { (ch 0).channel with
      consumerInitialized := osHetInitialized
      bdRingSize := BitVec.ofNat 32 depth } }

/-- The kernel's `num_channels` and `channel_depth`, from what the boot parameters were parsed
to. -/
def numChannels (parsed : ℤ) : ℕ :=
  if parsed < 0 ∨ parsed > 64 then maxIpcChannels else parsed.toNat

def channelDepth (parsed : ℤ) : ℕ :=
  if parsed < 0 then defaultChannelDepth else parsed.toNat

/-- `fsl_913xipc_init` without several RATs, given what the boot parameters were parsed to, the
answer of `register_msg_intr` and the memory of the channels. -/
def fsl913xipcInit (sz : Sizes) (maxNumIpcChannels maxChannelDepth registered : ℤ)
    (c : Control) (ch : ℕ → Entry) : Area × ℤ :=
  let n := numChannels maxNumIpcChannels
  let depth := channelDepth maxChannelDepth
  let r := getHetmgrMem (BitVec.ofNat 32 (sz.channel * n + sz.bd * n * depth)) c
  let ch := forChannels (fun i addr e ↦ { e with id := i, bdBase := addr })
    (· + sz.bd * depth) n 0 (r.2 + sz.channel * n) ch
  ({ ctrl := r.1
     ipcChannels := r.2
     numIpcChannels := n
     ipcMaxBdSize := depth
     channels := if registered ≠ 0 then ch else openChannelZero depth ch }, registered)

/-- What `fsl_B4_ipc_init` finds: whether `mmap` succeeds, and what the two `ioctl` calls store.
Without several RATs the kernel copies an `int` that it never set into `ratMode`. -/
structure Answers where
  mapped : Bool
  ratMode : Option (BitVec 32)
  ipcParams : Option (BitVec 32)

def initEntry (i addr : ℕ) (e : Entry) : Entry where
  id := i
  bdBase := addr
  channel := { e.channel with
    producerInitialized := 0
    -- channel 0 stays as the driver opened it
    consumerInitialized := if i ≠ 0 then 0 else e.channel.consumerInitialized
    consumerNum := 0
    producerNum := 0
    bdRingSize := if i ≠ 0 then 0 else e.channel.bdRingSize
    maxMsgSize := 0
    localProducerNum := 0
    localConsumerNum := 0 }

/-- The numbers that `fsl_B4_ipc_init` takes from the two halves of the parameter word. -/
def muxedChannels (w : BitVec 32) : ℕ :=
  if (w &&& 0xFFFF).toNat = 0 then maxIpcChannels else (w &&& 0xFFFF).toNat

def muxedDepth (w : BitVec 32) : ℕ :=
  if (w >>> 16).toNat = 0 then defaultChannelDepth else (w >>> 16).toNat

/-- `fsl_B4_ipc_init`. The address of the rings is counted from the end of `os_het_ipc_t`, in 32
bits; the channels are those at `ipc_channels`. -/
def fslB4IpcInit (sz : Sizes) (w : Answers) (s : Area) : Area × ℤ :=
  if !w.mapped then (s, -1)
  else
    let ipcChStartPaddr := (s.ctrl.ipc + sz.ipc) % 2 ^ 32
    match w.ratMode with
    | none => (s, -1)
    | some numIpcRegions =>
      match w.ipcParams with
      | none => (s, -1)
      | some muxed =>
        let n := muxedChannels muxed
        let depth := muxedDepth muxed
        if numIpcRegions = defaultRatInst then (s, errSuccess)
        else
          let ch := forChannels initEntry (fun a ↦ (a + sz.bd * depth) % 2 ^ 32) n 0
            ((ipcChStartPaddr + sz.channel * n) % 2 ^ 32) s.channels
          ({ s with channels := openChannelZero depth ch }, errSuccess)

/-- The answers with which `fsl_B4_ipc_init` comes to its loop. -/
def Answers.Rewrites (w : Answers) : Prop :=
  w.mapped = true ∧ (∃ r, w.ratMode = some r ∧ r ≠ defaultRatInst) ∧ w.ipcParams.isSome

/-- The structures of the control area, as address and length: `os_het_ipc_t`, the logs of the
DSP cores, the L1-defense structure, the channels and their rings. -/
def regions (sz : Sizes) (s : Area) : List (ℕ × ℕ) :=
  [(s.ctrl.ipc, sz.ipc), (s.ctrl.smartdspDebug, sz.smartdspLog * nrDspCore), (s.ctrl.l1d, sz.l1d),
    (s.ipcChannels, sz.channel * s.numIpcChannels)] ++
  (List.range s.numIpcChannels).map fun i ↦ ((s.channels i).bdBase, sz.bd * s.ipcMaxBdSize)

def Apart (rs : List (ℕ × ℕ)) : Prop :=
  rs.Pairwise fun r r' ↦ Memory.Disjoint r.1 r.2 r'.1 r'.2

theorem forChannels_of_lt (f : ℕ → ℕ → Entry → Entry) (next : ℕ → ℕ) (k i addr : ℕ)
    (ch : ℕ → Entry) {j : ℕ} (hj : j < i) : forChannels f next k i addr ch j = ch j := by
  induction k generalizing i addr ch with
  | zero => rfl
  | succ k ih =>
    rw [forChannels, ih (i + 1) _ _ (by omega), Function.update_of_ne (by omega)]

theorem forChannels_apply (f : ℕ → ℕ → Entry → Entry) (next : ℕ → ℕ) (k i addr : ℕ)
    (ch : ℕ → Entry) {j : ℕ} (hj : i ≤ j) (hk : j < i + k) :
    forChannels f next k i addr ch j = f j (next^[j - i] addr) (ch j) := by
  induction k generalizing i addr ch with
  | zero => omega
  | succ k ih =>
    rw [forChannels]
    rcases Nat.eq_or_lt_of_le hj with rfl | hlt
    · rw [Nat.sub_self, Function.iterate_zero, id_eq]
      rw [forChannels_of_lt _ _ _ _ _ _ (Nat.lt_succ_self i), Function.update_self]
    · rw [ih (i + 1) _ _ (by omega) (by omega), Function.update_of_ne (by omega)]
      congr 1
      rw [← Function.iterate_succ_apply]
      congr 1
      omega

theorem iterate_add_stride (stride k addr : ℕ) : (· + stride)^[k] addr = addr + k * stride := by
  induction k with
  | zero => simp
  | succ k ih => rw [Function.iterate_succ_apply', ih, Nat.succ_mul, Nat.add_assoc]

theorem iterate_add_stride_mod {stride k addr : ℕ} (h : addr + k * stride < 2 ^ 32) :
    (fun a ↦ (a + stride) % 2 ^ 32)^[k] addr = addr + k * stride := by
  induction k with
  | zero => simp
  | succ k ih =>
    rw [Nat.succ_mul] at h
    rw [Function.iterate_succ_apply', ih (by omega), Nat.succ_mul, ← Nat.add_assoc,
      Nat.mod_eq_of_lt (by omega)]

@[simp] theorem openChannelZero_bdBase (depth : ℕ) (ch : ℕ → Entry) (i : ℕ) :
    (openChannelZero depth ch i).bdBase = (ch i).bdBase := by
  rw [openChannelZero]
  by_cases hi : i = 0
  · subst hi
    rw [Function.update_self]
  · rw [Function.update_of_ne hi]

section Init

variable {sz : Sizes} {physAddr n depth : ℕ} {c : Control} {ch : ℕ → Entry} {registered : ℤ}

def muxed (n depth : ℕ) : BitVec 32 := BitVec.ofNat 32 (depth * 2 ^ 16 + n)

theorem initShCtrlArea_eq_some {ctrl log defense : Bool}
    (h : initShCtrlArea sz physAddr ctrl log defense = some c) :
    c.ipc = physAddr + sz.control ∧ c.smartdspDebug = c.ipc + sz.ipc ∧
      c.l1d = c.smartdspDebug + sz.smartdspLog * nrDspCore ∧ c.mark = c.l1d + sz.l1d := by
  simp only [initShCtrlArea] at h
  split_ifs at h
  cases h
  exact ⟨rfl, rfl, rfl, rfl⟩

structure Placed (sz : Sizes) (n depth : ℕ) (s : Area) : Prop where
  smartdspDebug : s.ctrl.smartdspDebug = s.ctrl.ipc + sz.ipc
  l1d : s.ctrl.l1d = s.ctrl.smartdspDebug + sz.smartdspLog * nrDspCore
  ipcChannels : s.ipcChannels = s.ctrl.l1d + sz.l1d
  numIpcChannels : s.numIpcChannels = n
  ipcMaxBdSize : s.ipcMaxBdSize = depth

theorem numChannels_natCast (hn : n ≤ 64) : numChannels n = n := by
  rw [numChannels, if_neg (by omega), Int.toNat_natCast]

theorem channelDepth_natCast : channelDepth depth = depth := by
  rw [channelDepth, if_neg (by omega), Int.toNat_natCast]

theorem fsl913xipcInit_placed {ctrl log defense : Bool} (depth : ℕ) (registered : ℤ)
    (ch : ℕ → Entry) (hn : n ≤ 64)
    (h : initShCtrlArea sz physAddr ctrl log defense = some c) :
    Placed sz n depth (fsl913xipcInit sz n depth registered c ch).1 := by
  obtain ⟨-, h₂, h₃, h₄⟩ := initShCtrlArea_eq_some h
  exact ⟨h₂, h₃, h₄, numChannels_natCast hn, channelDepth_natCast⟩

theorem fsl913xipcInit_bdBase (hn : n ≤ 64) {i : ℕ} (hi : i < n) :
    ((fsl913xipcInit sz n depth registered c ch).1.channels i).bdBase =
      (fsl913xipcInit sz n depth registered c ch).1.ipcChannels + sz.channel * n +
        i * (sz.bd * depth) := by
  have hloop (addr : ℕ) : (forChannels (fun i addr e ↦ { e with id := i, bdBase := addr })
      (· + sz.bd * depth) n 0 addr ch i).bdBase = addr + i * (sz.bd * depth) := by
    rw [forChannels_apply _ _ _ _ _ _ (Nat.zero_le i) (by omega), iterate_add_stride, Nat.sub_zero]
  simp only [fsl913xipcInit, numChannels_natCast hn, channelDepth_natCast]
  split_ifs
  · rw [hloop]
  · rw [openChannelZero_bdBase, hloop]

theorem tiles_rings (a len k : ℕ) {base : ℕ → ℕ} (hb : ∀ i < k, base i = a + i * len) :
    Tiles Prod.fst Prod.snd a ((List.range k).map fun i ↦ (base i, len)) (a + k * len) := by
  induction k with
  | zero => simp
  | succ k ih =>
    rw [List.range_succ, List.map_append, tiles_append]
    refine ⟨_, ih fun i hi ↦ hb i (by omega), ?_⟩
    simp only [List.map_cons, List.map_nil, tiles_cons, tiles_nil]
    exact ⟨hb k (by omega), by rw [Nat.succ_mul, Nat.add_assoc]⟩

theorem Placed.tiles {s : Area} (h : Placed sz n depth s)
    (hb : ∀ i < n, (s.channels i).bdBase = s.ipcChannels + sz.channel * n + i * (sz.bd * depth)) :
    Tiles Prod.fst Prod.snd s.ctrl.ipc (regions sz s)
      (s.ipcChannels + sz.channel * n + n * (sz.bd * depth)) := by
  rw [regions, tiles_append, h.numIpcChannels, h.ipcMaxBdSize]
  refine ⟨s.ipcChannels + sz.channel * n, ?_, tiles_rings _ _ _ hb⟩
  simp only [tiles_cons, tiles_nil, ← h.smartdspDebug, ← h.l1d, ← h.ipcChannels, and_self]

theorem apart_of_tiles {rs : List (ℕ × ℕ)} {a b : ℕ} (h : Tiles Prod.fst Prod.snd a rs b) :
    Apart rs := h.pairwise.imp fun hle ↦ .inl hle

theorem muxedChannels_muxed (hn : 1 ≤ n) (hn' : n ≤ 64) (hd : depth < 2 ^ 16) :
    muxedChannels (muxed n depth) = n := by
  have hlow : (muxed n depth &&& 0xFFFF).toNat = n := by
    rw [BitVec.toNat_and, muxed, BitVec.toNat_ofNat, Nat.mod_eq_of_lt (by omega),
      show (0xFFFF : BitVec 32).toNat = 2 ^ 16 - 1 from rfl, Nat.and_two_pow_sub_one_eq_mod]
    omega
  rw [muxedChannels, hlow, if_neg (by omega)]

theorem muxedDepth_muxed (hn : n ≤ 64) (hd : 1 ≤ depth) (hd' : depth < 2 ^ 16) :
    muxedDepth (muxed n depth) = depth := by
  have hhigh : (muxed n depth >>> 16).toNat = depth := by
    rw [BitVec.toNat_ushiftRight, muxed, BitVec.toNat_ofNat, Nat.mod_eq_of_lt (by omega),
      Nat.shiftRight_eq_div_pow]
    omega
  rw [muxedDepth, hhigh, if_neg (by omega)]

theorem fslB4IpcInit_of_not_rewrites {w : Answers} (hw : ¬w.Rewrites) (s : Area) :
    (fslB4IpcInit sz w s).1 = s := by
  obtain ⟨mapped, ratMode, ipcParams⟩ := w
  rw [fslB4IpcInit]
  cases mapped with
  | false => rfl
  | true =>
    cases ratMode with
    | none => rfl
    | some r =>
      cases ipcParams with
      | none => rfl
      | some p =>
        have hr : r = defaultRatInst := by
          by_contra hr
          exact hw ⟨rfl, ⟨r, rfl, hr⟩, rfl⟩
        simp [hr]

theorem fslB4IpcInit_bdBase {w : Answers} {s : Area} (hw : w.Rewrites)
    (hp : w.ipcParams = some (muxed n depth)) (hn : 1 ≤ n) (hn' : n ≤ 64) (hd : 1 ≤ depth)
    (hd' : depth < 2 ^ 16)
    (hfit : s.ctrl.ipc + sz.ipc + sz.channel * n + n * (sz.bd * depth) ≤ 2 ^ 32) {i : ℕ}
    (hi : i < n) :
    ((fslB4IpcInit sz w s).1.channels i).bdBase =
      s.ctrl.ipc + sz.ipc + sz.channel * n + i * (sz.bd * depth) := by
  obtain ⟨mapped, ratMode, ipcParams⟩ := w
  obtain ⟨hm, ⟨r, hr, hne⟩, -⟩ := hw
  dsimp only at hm hr hp
  subst hm hr hp
  have hlen : 0 < sz.bd * depth := Nat.mul_pos sz.bd_pos hd
  have hlast : i * (sz.bd * depth) + sz.bd * depth ≤ n * (sz.bd * depth) := by
    rw [← Nat.succ_mul]
    exact Nat.mul_le_mul_right _ hi
  simp only [fslB4IpcInit, Bool.not_true, Bool.false_eq_true, if_false, if_neg hne,
    muxedChannels_muxed hn hn' hd', muxedDepth_muxed hn' hd hd', openChannelZero_bdBase]
  rw [forChannels_apply _ _ _ _ _ _ (Nat.zero_le i) (by omega), initEntry, Nat.sub_zero,
    Nat.mod_eq_of_lt (show s.ctrl.ipc + sz.ipc < 2 ^ 32 by omega),
    Nat.mod_eq_of_lt (show s.ctrl.ipc + sz.ipc + sz.channel * n < 2 ^ 32 by omega),
    iterate_add_stride_mod (by omega)]

theorem fslB4IpcInit_placed {w : Answers} {s : Area} (h : Placed sz n depth s) :
    Placed sz n depth (fslB4IpcInit sz w s).1 ∧
      (fslB4IpcInit sz w s).1.ctrl = s.ctrl := by
  rw [fslB4IpcInit]
  split_ifs
  · exact ⟨h, rfl⟩
  · cases w.ratMode with
    | none => exact ⟨h, rfl⟩
    | some r =>
      cases w.ipcParams with
      | none => exact ⟨h, rfl⟩
      | some p =>
        dsimp only
        split_ifs
        · exact ⟨h, rfl⟩
        · exact ⟨⟨h.1, h.2, h.3, h.4, h.5⟩, rfl⟩

theorem not_apart_of_ring {s : Area} (h : Placed sz n depth s) (hn : 1 ≤ n) (hd : 1 ≤ depth)
    (hring : (s.channels 0).bdBase = s.ctrl.ipc + sz.ipc + sz.channel * n) :
    ¬Apart (regions sz s) := by
  intro hap
  have hlen : 0 < sz.bd * depth := Nat.mul_pos sz.bd_pos hd
  have hlog : 0 < sz.smartdspLog * nrDspCore := Nat.mul_pos sz.smartdspLog_pos (by decide)
  have hmem : ((s.channels 0).bdBase, sz.bd * s.ipcMaxBdSize) ∈
      (List.range s.numIpcChannels).map fun i ↦ ((s.channels i).bdBase, sz.bd * s.ipcMaxBdSize) :=
    List.mem_map.2 ⟨0, List.mem_range.2 (by rw [h.numIpcChannels]; omega), rfl⟩
  rw [Apart, regions, List.pairwise_append] at hap
  have hcross := fun r hr ↦ hap.2.2 r hr _ hmem
  have h₁ := hcross (s.ctrl.smartdspDebug, sz.smartdspLog * nrDspCore) (by simp)
  have h₂ := hcross (s.ctrl.l1d, sz.l1d) (by simp)
  have h₃ := hcross (s.ipcChannels, sz.channel * s.numIpcChannels) (by simp)
  simp only [Memory.Disjoint, hring, h.ipcMaxBdSize, h.numIpcChannels, h.ipcChannels, h.l1d,
    h.smartdspDebug] at h₁ h₂ h₃
  omega

/-- The kernel lays the control area out without an overlap. `fsl_B4_ipc_init` then counts the
rings from the end of `os_het_ipc_t`, where the logs begin, so that the structures stay apart only
if it stops before that. -/
theorem regions_apart {ctrl log defense : Bool} (hn : 1 ≤ n) (hn' : n ≤ 64) (hd : 1 ≤ depth)
    (hd' : depth < 2 ^ 16) (hinit : initShCtrlArea sz physAddr ctrl log defense = some c)
    (registered : ℤ) (ch : ℕ → Entry) (w : Answers)
    (hw : ∀ p, w.ipcParams = some p → p = muxed n depth) :
    (¬w.Rewrites →
      Apart (regions sz (fslB4IpcInit sz w (fsl913xipcInit sz n depth registered c ch).1).1)) ∧
    (c.mark + sz.channel * n + n * (sz.bd * depth) ≤ 2 ^ 32 → w.Rewrites →
      ¬Apart (regions sz
        (fslB4IpcInit sz w (fsl913xipcInit sz n depth registered c ch).1).1)) := by
  have hplaced := fsl913xipcInit_placed depth registered ch hn' hinit
  refine ⟨fun hstop ↦ ?_, fun hfit hgo ↦ ?_⟩
  · rw [fslB4IpcInit_of_not_rewrites hstop]
    exact apart_of_tiles (hplaced.tiles fun i hi ↦ fsl913xipcInit_bdBase hn' hi)
  · obtain ⟨hplaced', hctrl⟩ := fslB4IpcInit_placed (w := w) hplaced
    obtain ⟨p, hp⟩ := Option.isSome_iff_exists.1 hgo.2.2
    refine not_apart_of_ring hplaced' hn hd ?_
    have hmark := initShCtrlArea_eq_some hinit
    rw [hctrl, fslB4IpcInit_bdBase hgo (hw p hp ▸ hp) hn hn' hd hd' ?_ hn]
    · omega
    · have hipc : (fsl913xipcInit sz n depth registered c ch).1.ctrl.ipc = c.ipc := rfl
      omega

end Init

/-- The structures of the B4860; the size of `os_het_control_t` plays no role. -/
def b4860 : Sizes where
  control := 1024
  ipc := 32
  smartdspLog := 40
  l1d := 40
  channel := 88
  bd := 16
  smartdspLog_pos := by decide
  bd_pos := by decide

def cleared (_ : ℕ) : Entry := ⟨0, 0, ⟨0, 0, 0, 0, 0, 0, 0, 0, fun _ ↦ ⟨0, 0⟩⟩⟩

def answers (ratMode : BitVec 32) : Answers := ⟨true, some ratMode, some (muxed 1 1)⟩

def booted (w : Answers) : Option Area :=
  (initShCtrlArea b4860 0x7F000000 true true true).map fun c ↦
    (fslB4IpcInit b4860 w (fsl913xipcInit b4860 1 1 0 c cleared).1).1

/-- One channel of one descriptor: if the kernel's answer happens to be 2, the layout stays. -/
theorem regions_apart_oneChannel :
    (initShCtrlArea b4860 0x7F000000 true true true).isSome ∧
      ∀ c, initShCtrlArea b4860 0x7F000000 true true true = some c →
        Apart (regions b4860
          (fslB4IpcInit b4860 (answers 2) (fsl913xipcInit b4860 1 1 0 c cleared).1).1) := by
  refine ⟨rfl, fun c hc ↦ ?_⟩
  refine (regions_apart (n := 1) (le_refl 1) (by decide) (le_refl 1) (by decide) hc 0 cleared
    (answers 2) ?_).1 ?_
  · rintro p ⟨⟩
    rfl
  · rintro ⟨-, ⟨r, ⟨⟩, hr⟩, -⟩
    exact hr rfl

/-- With any other answer the ring of the only channel is in the log of the third DSP core. -/
theorem ring_in_log :
    (booted (answers 1)).map (regions b4860) = some [(0x7F000400, 32), (0x7F000420, 240),
      (0x7F000510, 40), (0x7F000538, 88), (0x7F000478, 16)] ∧
    ∀ s, booted (answers 1) = some s → ¬Apart (regions b4860 s) := by
  have hregions : (booted (answers 1)).map (regions b4860) = some [(0x7F000400, 32),
      (0x7F000420, 240), (0x7F000510, 40), (0x7F000538, 88), (0x7F000478, 16)] := by decide
  refine ⟨hregions, fun s hs hap ↦ ?_⟩
  rw [hs, Option.map_some, Option.some.injEq] at hregions
  rw [hregions] at hap
  simp [Apart, Memory.Disjoint] at hap

end EnbL1Ppc.Ipc.ControlArea
