import EnbL1Ppc.Fapi.L1Start
import EnbL1Ppc.Lib.Machine

namespace EnbL1Ppc.Fapi.P8Dump

open Lib Lib.Memory Lib.Stores L1Start
open Gser (Text)

/-- The members `dump_…` of P8-CONFIG. -/
inductive Dump
  | ul
  | ulBadCrc
  | ulPucch
  | ulPucchAck
  | ulPucchNack
  | ulPucchSr
  | ulPucchSrAll
  | ulPucchNot
  | ulPucchCqi
  | ulPuschAck
  | ulPuschNack
  | ulPuschCqi
  | ulLlrCheck
  deriving DecidableEq

def Dump.flag : Dump → BitVec 32
  | .ul => 0x1
  | .ulBadCrc => 0x2
  | .ulPucch => 0x10
  | .ulPucchAck => 0x20
  | .ulPucchNack => 0x40
  | .ulPucchSr => 0x80
  | .ulPucchSrAll => 0x400
  | .ulPucchNot => 0x100
  | .ulPucchCqi => 0x200
  | .ulPuschAck => 0x1000
  | .ulPuschNack => 0x2000
  | .ulPuschCqi => 0x4000
  | .ulLlrCheck => 0x80000000

/-- The members in the order in which `ipc_l1_start` tests them. -/
def Dump.all : List Dump :=
  [.ul, .ulBadCrc, .ulPucch, .ulPucchAck, .ulPucchNack, .ulPucchNot, .ulPucchSr, .ulPucchSrAll,
    .ulPucchCqi, .ulPuschAck, .ulPuschNack, .ulPuschCqi, .ulLlrCheck]

/-- `struct P8_CONFIG`. What is tested of a member `dump_…` is its pointer, and `limit` is the
pointer too. -/
structure P8Config where
  enable : Bool
  limit : BitVec 32
  dumpPath : Option Text
  dump : Dump → Bool

def P8Config.sent (cfg : P8Config) : L1Start.P8 where
  enable := cfg.enable
  dumps := (Dump.all.filter cfg.dump).map Dump.flag

/-! `p8_thread` -/

structure P8IndPdu where
  handle : BitVec 32
  type : BitVec 32
  offset : BitVec 32
  length : BitVec 32

def maxP8PduIndNumber : ℕ := 16

structure P8Indication where
  frame : BitVec 32
  subframe : BitVec 32
  numberOfPdus : BitVec 32
  pdus : Fin maxP8PduIndNumber → P8IndPdu
  pduData : ℕ → UInt8

def P8Indication.list (ind : P8Indication) : List P8IndPdu :=
  (List.ofFn ind.pdus).take ind.numberOfPdus.toNat

def P8Indication.data (ind : P8Indication) (pdu : P8IndPdu) : List UInt8 :=
  bytes (fun k ↦ ind.pduData (pdu.offset.toNat + k)) pdu.length.toNat

structure FileName where
  msgNo : BitVec 32
  frame : BitVec 32
  subframe : BitVec 32
  index : ℕ
  type : BitVec 32

structure File where
  name : FileName
  data : List UInt8

def wanted (cfg : P8Config) (pdu : P8IndPdu) : Bool :=
  (cfg.dump .ul &&
    (pdu.type &&& Dump.ul.flag ≠ 0 || pdu.type &&& Dump.ulBadCrc.flag ≠ 0)) ||
  (cfg.dump .ulBadCrc && pdu.type &&& Dump.ulBadCrc.flag ≠ 0) ||
  (cfg.dump .ulPuschAck && pdu.type &&& Dump.ulPuschAck.flag ≠ 0) ||
  (cfg.dump .ulPuschNack && pdu.type &&& Dump.ulPuschNack.flag ≠ 0) ||
  (cfg.dump .ulPuschCqi && pdu.type &&& Dump.ulPuschCqi.flag ≠ 0) ||
  (cfg.dump .ulPucch && pdu.type &&& Dump.ulPucch.flag ≠ 0)

/-- The inner loop from the PDU `i` on, with the results of `open`. A file is written only if its
descriptor is above 0; the counter advances in either case. -/
def dumpPdus (cfg : P8Config) (ind : P8Indication) (openFile : FileName → ℤ) :
    BitVec 32 → ℕ → List P8IndPdu → BitVec 32 × List File
  | msgNo, _, [] => (msgNo, [])
  | msgNo, i, pdu :: pdus =>
    if wanted cfg pdu then
      let name : FileName := ⟨msgNo, ind.frame, ind.subframe, i, pdu.type⟩
      let r := dumpPdus cfg ind openFile (msgNo + 1) (i + 1) pdus
      (r.1, (if 0 < openFile name then [⟨name, ind.data pdu⟩] else []) ++ r.2)
    else dumpPdus cfg ind openFile msgNo (i + 1) pdus

structure Popped where
  ind : P8Indication
  openFile : FileName → ℤ

/-- `msg_no` has come to the limit; a null pointer is no limit. -/
def LimitReached (cfg : P8Config) (msgNo : BitVec 32) : Prop := 0 < cfg.limit ∧ cfg.limit ≤ msgNo

instance (cfg : P8Config) (msgNo : BitVec 32) : Decidable (LimitReached cfg msgNo) :=
  inferInstanceAs (Decidable (_ ∧ _))

/-- One turn of `p8_thread`; the state is `msg_no`. More PDUs than the array has are read from
behind it. -/
def p8Turn (cfg : P8Config) : Machine.Step (BitVec 32) (Option Popped) File
  | msgNo, none => some (msgNo, [])
  | msgNo, some p =>
    if cfg.dumpPath = none then some (msgNo, [])
    else if LimitReached cfg msgNo then some (msgNo, [])
    else if p.ind.numberOfPdus.toNat ≤ maxP8PduIndNumber then
      some (dumpPdus cfg p.ind p.openFile msgNo 0 p.ind.list)
    else none

/-- `p8_thread`, which ends at once if `mkdir` fails. -/
def p8Thread (cfg : P8Config) (mkdir : ℤ) (pops : List (Option Popped)) :
    Option (BitVec 32 × List File) :=
  if mkdir ≠ 0 then some (0, []) else Machine.exec (p8Turn cfg) 0 pops

/-! The flags that are sent -/

variable {cfg : P8Config}

theorem mem_all (d : Dump) : d ∈ Dump.all := by
  cases d <;> decide

def p8DumpFlags (mem : Mem) (base : ℕ) : BitVec 32 := ofBigEndian (read mem (base + 76) 4)

theorem p8DumpFlags_put (mem : Mem) (base : ℕ) (flags : BitVec 32) :
    p8DumpFlags (put mem (base + 76) (bigEndian flags)) base = flags := by
  have hread := read_put_self mem (base + 76) (bigEndian flags)
  rw [length_bigEndian] at hread
  rw [p8DumpFlags, hread, ofBigEndian_bigEndian]

theorem p8DumpFlags_run_of_disjoint {sts : List Store}
    (h : ∀ st ∈ sts, st.1 + st.2.length ≤ 76 ∨ 80 ≤ st.1) (base : ℕ) (mem : Mem) :
    p8DumpFlags (run base sts mem) base = p8DumpFlags mem base := by
  rw [p8DumpFlags, p8DumpFlags, read_run_of_disjoint]
  rw [Set.disjoint_left]
  rintro x ⟨hlo, hhi⟩ ⟨st, hst, hx⟩
  rw [footprint, Set.mem_Ico] at hx
  have := h st hst
  omega

theorem p8DumpFlags_dumpStores {base : ℕ} {flags : BitVec 32} {mem : Mem}
    (h : p8DumpFlags mem base = flags) (dumps : List (BitVec 32)) :
    p8DumpFlags (run base (dumpStores flags dumps) mem) base = dumps.foldl (· ||| ·) flags := by
  induction dumps generalizing flags mem with
  | nil => exact h
  | cons f dumps ih => exact ih (p8DumpFlags_put ..)

theorem p8DumpFlags_ipcL1Start {p8 : L1Start.P8} {c : L1Start.Config} (hp8 : c.p8 = some p8)
    (henable : p8.enable = true) (limit : BitVec 32) (base : ℕ) (mem : Mem) :
    p8DumpFlags (run base (ipcL1Start limit c) mem) base = p8.dumps.foldl (· ||| ·) 0 := by
  have hcleared : p8DumpFlags (run base [(0, List.replicate sizeofFapiIpcCfg 0)] mem) base = 0 := by
    simp [p8DumpFlags, run, Memory.read, put, write, List.range_succ, sizeofFapiIpcCfg,
      Nat.add_assoc]
    rfl
  have hstores : ipcL1Start limit c = [(0, List.replicate sizeofFapiIpcCfg 0)] ++
      ([(0, bigEndian 0x6a45fe67), (4, bigEndian 1)] ++ licenseStores c.license ++
        [(72, bigEndian (c.loglevel.getD 255))] ++
        (84, bigEndian (.ofNat 32 c.rrus.length)) :: rruStores 0 c.rrus) ++
      dumpStores 0 p8.dumps ++ [(80, bigEndian limit)] := by
    rw [ipcL1Start, hp8, p8Stores, if_pos henable]
    simp
  rw [hstores, run_append, run_append, run_append, p8DumpFlags_run_of_disjoint (by simp)]
  refine p8DumpFlags_dumpStores ((p8DumpFlags_run_of_disjoint (fun st hst ↦ ?_) _ _).trans
    hcleared) _
  simp only [List.mem_append, List.mem_cons, List.not_mem_nil, or_false] at hst
  rcases hst with (((rfl | rfl) | h) | rfl) | rfl | h
  · simp
  · simp
  · have := mem_licenseStores h
    omega
  · simp
  · simp
  · obtain ⟨i, -, x, rfl | rfl⟩ := mem_rruStores h
    · dsimp only
      omega
    · dsimp only
      omega

theorem and_foldl_or_ne_zero_iff {x : BitVec 32} {fs : List (BitVec 32)} {y : BitVec 32} :
    x &&& fs.foldl (· ||| ·) y ≠ 0 ↔ x &&& y ≠ 0 ∨ ∃ f ∈ fs, x &&& f ≠ 0 := by
  induction fs generalizing y with
  | nil => simp
  | cons f fs ih =>
    have hor : x &&& (y ||| f) ≠ 0 ↔ x &&& y ≠ 0 ∨ x &&& f ≠ 0 := by
      rw [BitVec.and_or_distrib_left, ne_eq, ← not_and_or]
      exact not_congr BitVec.or_eq_zero_iff
    rw [List.foldl_cons, ih, hor, List.exists_mem_cons_iff, or_assoc]

theorem requested_iff {type : BitVec 32} :
    type &&& cfg.sent.dumps.foldl (· ||| ·) 0 ≠ 0 ↔
      ∃ d, cfg.dump d = true ∧ type &&& d.flag ≠ 0 := by
  have hzero : ¬type &&& 0 ≠ 0 := not_not_intro BitVec.and_zero
  rw [and_foldl_or_ne_zero_iff, or_iff_right hzero, P8Config.sent]
  simp [mem_all]

/-! The files that are written -/

def fileName (cfg : P8Config) (msgNo : BitVec 32) (ind : P8Indication) (pdus : List P8IndPdu)
    (k i : ℕ) (pdu : P8IndPdu) : FileName :=
  ⟨msgNo + .ofNat 32 ((pdus.take i).countP (wanted cfg)), ind.frame,
    ind.subframe, k + i, pdu.type⟩

variable {msgNo : BitVec 32} {ind : P8Indication} {pdu pdu' : P8IndPdu} {pdus : List P8IndPdu}
  {k i : ℕ}

theorem fileName_zero :
    fileName cfg msgNo ind pdus k 0 pdu = ⟨msgNo, ind.frame, ind.subframe, k, pdu.type⟩ := by
  simp [fileName]

theorem fileName_succ_wanted (h : wanted cfg pdu = true) :
    fileName cfg msgNo ind (pdu :: pdus) k (i + 1) pdu' =
      fileName cfg (msgNo + 1) ind pdus (k + 1) i pdu' := by
  rw [fileName, fileName, List.take_succ_cons,
    List.countP_cons_of_pos h, Nat.add_comm _ 1,
    BitVec.ofNat_add, ← BitVec.add_assoc, Nat.add_comm i, ← Nat.add_assoc]
  rfl

theorem fileName_succ_unwanted (h : ¬wanted cfg pdu = true) :
    fileName cfg msgNo ind (pdu :: pdus) k (i + 1) pdu' =
      fileName cfg msgNo ind pdus (k + 1) i pdu' := by
  rw [fileName, fileName, List.take_succ_cons,
    List.countP_cons_of_neg h, Nat.add_comm i,
    ← Nat.add_assoc]

theorem mem_dumpPdus_iff {openFile : FileName → ℤ} {file : File} :
    file ∈ (dumpPdus cfg ind openFile msgNo k pdus).2 ↔
      ∃ i pdu, pdus[i]? = some pdu ∧ wanted cfg pdu = true ∧
        0 < openFile (fileName cfg msgNo ind pdus k i pdu) ∧
        file = ⟨fileName cfg msgNo ind pdus k i pdu, ind.data pdu⟩ := by
  induction pdus generalizing msgNo k with
  | nil => simp [dumpPdus]
  | cons pdu pdus ih =>
    rw [dumpPdus]
    by_cases h : wanted cfg pdu = true
    · rw [if_pos h, List.mem_append, ih]
      constructor
      · rintro (hfile | ⟨i, pdu', hi, hrest⟩)
        · split_ifs at hfile with hopen
          · refine ⟨0, pdu, rfl, h, ?_⟩
            rw [fileName_zero]
            exact ⟨hopen, List.mem_singleton.1 hfile⟩
          · cases hfile
        · refine ⟨i + 1, pdu', hi, ?_⟩
          rw [fileName_succ_wanted h]
          exact hrest
      · rintro ⟨i, pdu', hi, hrest⟩
        cases i with
        | zero =>
          cases hi
          rw [fileName_zero] at hrest
          left
          rw [if_pos hrest.2.1, hrest.2.2]
          exact List.mem_singleton_self _
        | succ i =>
          rw [fileName_succ_wanted h] at hrest
          exact .inr ⟨i, pdu', hi, hrest⟩
    · rw [if_neg h, ih]
      constructor
      · rintro ⟨i, pdu', hi, hrest⟩
        refine ⟨i + 1, pdu', hi, ?_⟩
        rw [fileName_succ_unwanted h]
        exact hrest
      · rintro ⟨i, pdu', hi, hrest⟩
        cases i with
        | zero =>
          cases hi
          exact absurd hrest.1 h
        | succ i =>
          rw [fileName_succ_unwanted h] at hrest
          exact ⟨i, pdu', hi, hrest⟩

/-! The options that `p8_thread` tests -/

def Dump.tested : Dump → Bool
  | .ul | .ulBadCrc | .ulPuschAck | .ulPuschNack | .ulPuschCqi | .ulPucch => true
  | .ulPucchAck | .ulPucchNack | .ulPucchSr | .ulPucchSrAll | .ulPucchNot | .ulPucchCqi
  | .ulLlrCheck => false

theorem wanted_of_tested {d : Dump} (hd : cfg.dump d = true) (htested : d.tested = true)
    (htype : pdu.type &&& d.flag ≠ 0) : wanted cfg pdu = true := by
  have hne : ¬pdu.type &&& d.flag = 0#32 := htype
  rw [wanted]
  cases d with
  | ul | ulBadCrc | ulPuschAck | ulPuschNack | ulPuschCqi | ulPucch => simp [hd, hne]
  | ulPucchAck | ulPucchNack | ulPucchSr | ulPucchSrAll | ulPucchNot | ulPucchCqi | ulLlrCheck =>
    cases htested

theorem tested_of_wanted {d : Dump} (htype : pdu.type = d.flag) (h : wanted cfg pdu = true) :
    d.tested = true := by
  rw [wanted, htype] at h
  cases d with
  | ul | ulBadCrc | ulPuschAck | ulPuschNack | ulPuschCqi | ulPucch => rfl
  | ulPucchAck | ulPucchNack | ulPucchSr | ulPucchSrAll | ulPucchNot | ulPucchCqi | ulLlrCheck =>
    simp [Dump.flag] at h

theorem flag_and_self_ne_zero (d : Dump) : d.flag &&& d.flag ≠ 0 := by
  cases d <;> decide

/-- A PDU that the flags request is written to its file if `open` returns the descriptor for it. -/
def WritesRequested (cfg : P8Config) (flags : BitVec 32) (fd : ℤ) : Prop :=
  ∀ msgNo (p : Popped) i pdu, ¬LimitReached cfg msgNo →
    p.ind.numberOfPdus.toNat ≤ maxP8PduIndNumber → p.ind.list[i]? = some pdu →
    pdu.type &&& flags ≠ 0 → p.openFile (fileName cfg msgNo p.ind p.ind.list 0 i pdu) = fd →
    ∃ msgNo' files, p8Turn cfg msgNo (some p) = some (msgNo', files) ∧
      ⟨fileName cfg msgNo p.ind p.ind.list 0 i pdu, p.ind.data pdu⟩ ∈ files

theorem p8Turn_eq {p : Popped} (hpath : cfg.dumpPath ≠ none) (hlimit : ¬LimitReached cfg msgNo)
    (hlen : p.ind.numberOfPdus.toNat ≤ maxP8PduIndNumber) :
    p8Turn cfg msgNo (some p) = some (dumpPdus cfg p.ind p.openFile msgNo 0 p.ind.list) := by
  rw [p8Turn, if_neg hpath, if_neg hlimit, if_pos hlen]

def onePdu (type : BitVec 32) (fd : ℤ) : Popped :=
  ⟨⟨0, 0, 1, fun _ ↦ ⟨0, type, 0, 0⟩, fun _ ↦ 0⟩, fun _ ↦ fd⟩

theorem not_limitReached_zero (cfg : P8Config) : ¬LimitReached cfg 0 :=
  fun h ↦ absurd h.1 (BitVec.not_lt.2 h.2)

theorem dumpPath_ne_none_of_writesRequested {flags type : BitVec 32} {fd : ℤ}
    (h : WritesRequested cfg flags fd) (htype : type &&& flags ≠ 0) : cfg.dumpPath ≠ none := by
  intro hpath
  obtain ⟨msgNo', files, hturn, hfile⟩ := h 0 (onePdu type fd) 0 ⟨0, type, 0, 0⟩
    (not_limitReached_zero cfg) (Nat.le_add_left 1 15) rfl htype rfl
  rw [p8Turn, if_pos hpath] at hturn
  have hfiles : [] = files := congrArg Prod.snd (Option.some.inj hturn)
  rw [← hfiles] at hfile
  cases hfile

theorem wanted_of_writesRequested {flags type : BitVec 32} {fd : ℤ} (hpath : cfg.dumpPath ≠ none)
    (h : WritesRequested cfg flags fd) (htype : type &&& flags ≠ 0) :
    wanted cfg ⟨0, type, 0, 0⟩ = true ∧ 0 < fd := by
  have hlen : (onePdu type fd).ind.numberOfPdus.toNat ≤ maxP8PduIndNumber := Nat.le_add_left 1 15
  obtain ⟨msgNo', files, hturn, hfile⟩ := h 0 (onePdu type fd) 0 ⟨0, type, 0, 0⟩
    (not_limitReached_zero cfg) hlen rfl htype rfl
  rw [p8Turn_eq hpath (not_limitReached_zero cfg) hlen] at hturn
  have hfiles : _ = files := congrArg Prod.snd (Option.some.inj hturn)
  rw [← hfiles, mem_dumpPdus_iff] at hfile
  obtain ⟨i, pdu, hi, hwanted, hopen, -⟩ := hfile
  cases i with
  | zero =>
    cases hi
    exact ⟨hwanted, hopen⟩
  | succ i => cases hi

/-- All that is requested from the L1 is written exactly if no option is set that `p8_thread` does
not test. Without a path nothing is written, and the descriptor 0 is taken for a failure of
`open`. -/
theorem writesRequested_iff {c : L1Start.Config} (henable : cfg.enable = true)
    (hp8 : c.p8 = some cfg.sent) {fd : ℤ} (hfd : 0 ≤ fd) (base : ℕ) (mem : Mem) :
    WritesRequested cfg (p8DumpFlags (run base (ipcL1Start cfg.limit c) mem) base) fd ↔
      ∀ d, cfg.dump d = true → cfg.dumpPath ≠ none ∧ d.tested = true ∧ fd ≠ 0 := by
  rw [p8DumpFlags_ipcL1Start hp8 henable]
  constructor
  · intro h d hd
    have htype := requested_iff.2 ⟨d, hd, flag_and_self_ne_zero d⟩
    have hpath := dumpPath_ne_none_of_writesRequested h htype
    obtain ⟨hwanted, hpos⟩ := wanted_of_writesRequested hpath h htype
    exact ⟨hpath, tested_of_wanted rfl hwanted, hpos.ne'⟩
  · intro h msgNo p i pdu hlimit hlen hi htype hopen
    obtain ⟨d, hd, hflag⟩ := requested_iff.1 htype
    obtain ⟨hpath, htested, hne⟩ := h d hd
    refine ⟨_, _, p8Turn_eq hpath hlimit hlen, mem_dumpPdus_iff.2 ⟨i, pdu, hi, ?_, ?_, rfl⟩⟩
    · exact wanted_of_tested hd htested hflag
    · rw [hopen]
      omega

section Example

def dumpOnly (d : Dump) : P8Config := ⟨true, 0, some [], fun d' ↦ d' = d⟩

def dumpOnlyConfig (d : Dump) : L1Start.Config := ⟨none, none, [], some (dumpOnly d).sent⟩

theorem writesRequested_iff_ul :
    WritesRequested (dumpOnly .ul)
      (p8DumpFlags (run 0 (ipcL1Start 0 (dumpOnlyConfig .ul)) fun _ ↦ 0) 0) 3 := by
  refine (writesRequested_iff (c := dumpOnlyConfig .ul) rfl rfl (by decide) 0 _).2 fun d hd ↦ ?_
  obtain rfl : d = .ul := of_decide_eq_true hd
  exact ⟨by decide, rfl, by decide⟩

/-- ACKs on the PUCCH are requested and not written. -/
theorem pucchAck_not_written :
    p8DumpFlags (run 0 (ipcL1Start 0 (dumpOnlyConfig .ulPucchAck)) fun _ ↦ 0) 0 = 0x20 ∧
    p8Turn (dumpOnly .ulPucchAck) 0 (some (onePdu 0x20 3)) = some (0, []) :=
  ⟨p8DumpFlags_ipcL1Start (c := dumpOnlyConfig .ulPucchAck) rfl rfl 0 0 _, rfl⟩

end Example

end EnbL1Ppc.Fapi.P8Dump
