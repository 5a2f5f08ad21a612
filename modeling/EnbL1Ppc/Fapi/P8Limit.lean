import EnbL1Ppc.Fapi.P8Dump

namespace EnbL1Ppc.Fapi.P8Dump

open Lib

section Loop

variable (cfg : P8Config) (ind : P8Indication) {openFile : FileName → ℤ} (msgNo : BitVec 32)
  (i : ℕ) (pdus : List P8IndPdu)

/-! The inner loop -/

theorem dumpPdus_msgNo (openFile : FileName → ℤ) :
    (dumpPdus cfg ind openFile msgNo i pdus).1 = msgNo + .ofNat 32 (pdus.countP (wanted cfg)) := by
  induction pdus generalizing msgNo i with
  | nil => simp [dumpPdus]
  | cons pdu pdus ih =>
    rw [dumpPdus]
    split_ifs with h
    · rw [ih, List.countP_cons_of_pos h, Nat.add_comm, BitVec.ofNat_add, BitVec.add_assoc]
      rfl
    · rw [ih, List.countP_cons_of_neg h]

theorem length_dumpPdus_le (openFile : FileName → ℤ) :
    (dumpPdus cfg ind openFile msgNo i pdus).2.length ≤ pdus.countP (wanted cfg) := by
  induction pdus generalizing msgNo i with
  | nil => exact Nat.zero_le _
  | cons pdu pdus ih =>
    rw [dumpPdus]
    split_ifs with h
    · have hrest := ih (msgNo + 1) (i + 1)
      rw [List.countP_cons_of_pos h, List.length_append]
      split_ifs with hopen
      · simp only [List.length_singleton]
        omega
      · simp only [List.length_nil]
        omega
    · rw [List.countP_cons_of_neg h]
      exact ih _ _

theorem length_dumpPdus_eq (hopen : ∀ name, 0 < openFile name) :
    (dumpPdus cfg ind openFile msgNo i pdus).2.length = pdus.countP (wanted cfg) := by
  induction pdus generalizing msgNo i with
  | nil => rfl
  | cons pdu pdus ih =>
    rw [dumpPdus]
    split_ifs with h
    · rw [List.countP_cons_of_pos h, List.length_append, ih, if_pos (hopen _), List.length_singleton,
        Nat.add_comm]
    · rw [List.countP_cons_of_neg h, ih]

theorem countP_list_le :
    ind.list.countP (wanted cfg) ≤ maxP8PduIndNumber := by
  refine List.countP_le_length.trans ?_
  rw [P8Indication.list, List.length_take, List.length_ofFn]
  exact Nat.min_le_right _ _

end Loop

variable {cfg : P8Config} {msgNo : BitVec 32} {k n : ℕ} {type : BitVec 32}

theorem exists_tested_of_wanted {pdu : P8IndPdu} (h : wanted cfg pdu = true) :
    ∃ d, cfg.dump d = true ∧ d.tested = true := by
  simp only [wanted, Bool.or_eq_true, Bool.and_eq_true] at h
  rcases h with ((((h | h) | h) | h) | h) | h
  · exact ⟨.ul, h.1, rfl⟩
  · exact ⟨.ulBadCrc, h.1, rfl⟩
  · exact ⟨.ulPuschAck, h.1, rfl⟩
  · exact ⟨.ulPuschNack, h.1, rfl⟩
  · exact ⟨.ulPuschCqi, h.1, rfl⟩
  · exact ⟨.ulPucch, h.1, rfl⟩

/-! A turn -/

def Regular : Option Popped → Prop
  | none => True
  | some p => p.ind.numberOfPdus.toNat ≤ maxP8PduIndNumber

theorem p8Turn_cases (cfg : P8Config) {pop : Option Popped} (h : Regular pop)
    (msgNo : BitVec 32) :
    p8Turn cfg msgNo pop = some (msgNo, []) ∨
      ∃ p : Popped, cfg.dumpPath ≠ none ∧ ¬LimitReached cfg msgNo ∧
        p8Turn cfg msgNo pop = some (dumpPdus cfg p.ind p.openFile msgNo 0 p.ind.list) := by
  cases pop with
  | none => exact .inl rfl
  | some p =>
    by_cases hpath : cfg.dumpPath = none
    · exact .inl (by rw [p8Turn, if_pos hpath])
    · by_cases hlimit : LimitReached cfg msgNo
      · exact .inl (by rw [p8Turn, if_neg hpath, if_pos hlimit])
      · exact .inr ⟨p, hpath, hlimit, p8Turn_eq hpath hlimit h⟩

theorem exists_exec_p8Turn (cfg : P8Config) {pops : List (Option Popped)}
    (h : ∀ pop ∈ pops, Regular pop) (msgNo : BitVec 32) :
    ∃ r, Machine.exec (p8Turn cfg) msgNo pops = some r := by
  induction pops generalizing msgNo with
  | nil => exact ⟨_, rfl⟩
  | cons pop pops ih =>
    obtain ⟨hpop, hpops⟩ := List.forall_mem_cons.1 h
    have hturn : ∃ r, p8Turn cfg msgNo pop = some r := by
      rcases p8Turn_cases cfg hpop msgNo with hnone | ⟨p, -, -, hsome⟩
      · exact ⟨_, hnone⟩
      · exact ⟨_, hsome⟩
    obtain ⟨r, hr⟩ := hturn
    obtain ⟨r', hr'⟩ := ih hpops r.1
    exact ⟨(r'.1, r.2 ++ r'.2), by rw [Machine.exec, hr, Option.bind_some, hr', Option.map_some]⟩

/-! The files of a run -/

/-- In one run with regular indications `p8_thread` writes at most `n` files. -/
def WritesAtMost (cfg : P8Config) (n : ℕ) : Prop :=
  ∀ mkdir (pops : List (Option Popped)), (∀ pop ∈ pops, Regular pop) →
    ∃ msgNo files, p8Thread cfg mkdir pops = some (msgNo, files) ∧ files.length ≤ n

theorem writesAtMost_of_invariant {R : List File → BitVec 32 → Prop} (hzero : R [] 0)
    (hstep : ∀ {files msgNo pop msgNo' files'}, R files msgNo → Regular pop →
      p8Turn cfg msgNo pop = some (msgNo', files') → R (files ++ files') msgNo')
    (hR : ∀ {files msgNo}, R files msgNo → files.length ≤ n) : WritesAtMost cfg n := by
  intro mkdir pops hpops
  rw [p8Thread]
  split_ifs with hmkdir
  · exact ⟨0, [], rfl, Nat.zero_le _⟩
  · obtain ⟨⟨msgNo, files⟩, hrun⟩ := exists_exec_p8Turn cfg hpops 0
    have hregular : Machine.Along (p8Turn cfg) (fun _ pop ↦ Regular pop) 0 pops :=
      Machine.Along.of_forall (fun pop hpop _ ↦ hpops pop hpop) 0
    exact ⟨msgNo, files, hrun, hR (Machine.exec_history hstep [] hzero hregular hrun)⟩

theorem writesAtMost_of_idle
    (h : cfg.dumpPath = none ∨ ∀ d, cfg.dump d = true → d.tested = false) :
    WritesAtMost cfg n := by
  refine writesAtMost_of_invariant (R := fun files _ ↦ files = []) rfl ?_ fun hR ↦ ?_
  · rintro _ msgNo pop msgNo' files' rfl hpop hturn
    rcases p8Turn_cases cfg hpop msgNo with hnone | ⟨p, hpath, -, hsome⟩
    · cases hnone.symm.trans hturn
      rfl
    · have hzero : p.ind.list.countP (wanted cfg) = 0 := by
        refine List.countP_eq_zero.2 fun pdu _ hwanted ↦ ?_
        obtain ⟨d, hd, htested⟩ := exists_tested_of_wanted hwanted
        rw [(h.resolve_left hpath) d hd] at htested
        cases htested
      have hle := length_dumpPdus_le cfg p.ind msgNo 0 p.ind.list p.openFile
      have hfiles : (dumpPdus cfg p.ind p.openFile msgNo 0 p.ind.list).2 = files' :=
        congrArg Prod.snd (Option.some.inj (hsome.symm.trans hturn))
      rw [hfiles, hzero] at hle
      exact List.length_eq_zero_iff.1 (Nat.le_zero.1 hle)
  · rw [hR]
    exact Nat.zero_le _

theorem writesAtMost_of_le (hlimit : 0 < cfg.limit) (hn : cfg.limit.toNat + 15 ≤ n)
    (hwrap : cfg.limit.toNat + 15 < 2 ^ 32) : WritesAtMost cfg n := by
  refine writesAtMost_of_invariant
    (R := fun files msgNo ↦ files.length ≤ msgNo.toNat ∧ msgNo.toNat ≤ cfg.limit.toNat + 15)
    ⟨le_rfl, Nat.zero_le _⟩ ?_ fun hR ↦ hR.1.trans (hR.2.trans hn)
  rintro files msgNo pop msgNo' files' ⟨hfiles, hbound⟩ hpop hturn
  rcases p8Turn_cases cfg hpop msgNo with hnone | ⟨p, -, hnot, hsome⟩
  · cases hnone.symm.trans hturn
    rw [List.append_nil]
    exact ⟨hfiles, hbound⟩
  · have hpair := Option.some.inj (hsome.symm.trans hturn)
    have hcount := countP_list_le cfg p.ind
    have hle := length_dumpPdus_le cfg p.ind msgNo 0 p.ind.list p.openFile
    have hmsgNo := dumpPdus_msgNo cfg p.ind msgNo 0 p.ind.list p.openFile
    have hlt : msgNo.toNat < cfg.limit.toNat := by
      rw [LimitReached, not_and, BitVec.not_le, BitVec.lt_def] at hnot
      exact hnot hlimit
    rw [hpair] at hle hmsgNo
    change files'.length ≤ _ at hle
    change msgNo' = _ at hmsgNo
    rw [maxP8PduIndNumber] at hcount
    have hsum : msgNo'.toNat = msgNo.toNat + p.ind.list.countP (wanted cfg) := by
      rw [hmsgNo, BitVec.toNat_add, BitVec.toNat_ofNat]
      omega
    rw [List.length_append]
    omega

/-! Runs that exceed the limit -/

def burst (type : BitVec 32) (k : ℕ) : Popped :=
  ⟨⟨0, 0, .ofNat 32 k, fun _ ↦ ⟨0, type, 0, 0⟩, fun _ ↦ 0⟩, fun _ ↦ 1⟩

theorem toNat_burst (hk : k ≤ maxP8PduIndNumber) :
    (burst type k).ind.numberOfPdus.toNat = k := by
  rw [maxP8PduIndNumber] at hk
  rw [burst, BitVec.toNat_ofNat, Nat.mod_eq_of_lt (by omega)]

theorem regular_burst (hk : k ≤ maxP8PduIndNumber) : Regular (some (burst type k)) :=
  (toNat_burst hk).trans_le hk

theorem p8Turn_burst (hpath : cfg.dumpPath ≠ none) (hnot : ¬LimitReached cfg msgNo)
    (hwanted : wanted cfg ⟨0, type, 0, 0⟩ = true) (hk : k ≤ maxP8PduIndNumber) :
    ∃ files, p8Turn cfg msgNo (some (burst type k)) = some (msgNo + .ofNat 32 k, files) ∧
      files.length = k := by
  have hcount : (burst type k).ind.list.countP (wanted cfg) = k := by
    have hlist : (burst type k).ind.list = List.replicate k ⟨0, type, 0, 0⟩ := by
      rw [P8Indication.list, toNat_burst hk, burst, List.ofFn_const, List.take_replicate,
        Nat.min_eq_left hk]
    rw [hlist, List.countP_replicate, if_pos hwanted]
  have hmsgNo := dumpPdus_msgNo cfg (burst type k).ind msgNo 0 (burst type k).ind.list fun _ ↦ 1
  rw [hcount] at hmsgNo
  refine ⟨_, (p8Turn_eq hpath hnot (regular_burst hk)).trans
    (congrArg some (Prod.ext hmsgNo rfl)), ?_⟩
  exact (length_dumpPdus_eq cfg _ msgNo 0 _ fun _ ↦ Int.one_pos).trans hcount

def Reaches (cfg : P8Config) (msgNo : BitVec 32) (k : ℕ) : Prop :=
  ∃ pops files, (∀ pop ∈ pops, Regular pop) ∧
    Machine.exec (p8Turn cfg) 0 pops = some (msgNo, files) ∧ files.length = k

theorem Reaches.burst {m : ℕ} (h : Reaches cfg msgNo m) (hpath : cfg.dumpPath ≠ none)
    (hnot : ¬LimitReached cfg msgNo) (hwanted : wanted cfg ⟨0, type, 0, 0⟩ = true)
    (hk : k ≤ maxP8PduIndNumber) : Reaches cfg (msgNo + .ofNat 32 k) (m + k) := by
  obtain ⟨pops, files, hpops, hrun, hlen⟩ := h
  obtain ⟨files', hturn, hlen'⟩ := p8Turn_burst hpath hnot hwanted hk
  have hlast : Machine.exec (p8Turn cfg) msgNo [some (P8Dump.burst type k)] =
      some (msgNo + .ofNat 32 k, files') := by
    rw [Machine.exec, hturn, Option.bind_some, Machine.exec_nil, Option.map_some, List.append_nil]
  refine ⟨pops ++ [some (P8Dump.burst type k)], files ++ files', ?_,
    Machine.exec_append hrun hlast, ?_⟩
  · rw [List.forall_mem_append, List.forall_mem_singleton]
    exact ⟨hpops, regular_burst hk⟩
  · rw [List.length_append, hlen, hlen']

theorem Reaches.not_writesAtMost (h : Reaches cfg msgNo k) (hlt : n < k) :
    ¬WritesAtMost cfg n := by
  intro hmost
  obtain ⟨pops, files, hpops, hrun, hlen⟩ := h
  obtain ⟨msgNo', files', hthread, hle⟩ := hmost 0 pops hpops
  rw [p8Thread, if_neg (not_not_intro rfl), hrun] at hthread
  cases hthread
  omega

theorem not_limitReached_iff (hlimit : 0 < cfg.limit) :
    ¬LimitReached cfg msgNo ↔ msgNo.toNat < cfg.limit.toNat := by
  rw [LimitReached, and_iff_right hlimit, BitVec.not_le, BitVec.lt_def]

theorem reaches_limit (hlimit : 0 < cfg.limit) (hpath : cfg.dumpPath ≠ none)
    (hwanted : wanted cfg ⟨0, type, 0, 0⟩ = true) (hk : k ≤ cfg.limit.toNat) :
    Reaches cfg (.ofNat 32 k) k := by
  induction k with
  | zero => exact ⟨[], [], by simp, rfl, rfl⟩
  | succ k ih =>
    have hlt := cfg.limit.isLt
    have hnot : ¬LimitReached cfg (.ofNat 32 k) := by
      rw [not_limitReached_iff hlimit, BitVec.toNat_ofNat]
      omega
    rw [BitVec.ofNat_add]
    exact (ih (by omega)).burst hpath hnot hwanted (by decide)

theorem reaches_any (hlimit : 0 < cfg.limit) (hpath : cfg.dumpPath ≠ none)
    (hwanted : wanted cfg ⟨0, type, 0, 0⟩ = true) (hwrap : 2 ^ 32 ≤ cfg.limit.toNat + 15) (n : ℕ) :
    ∃ msgNo k, n ≤ k ∧ msgNo.toNat < cfg.limit.toNat ∧ Reaches cfg msgNo k := by
  induction n with
  | zero => exact ⟨0, 0, le_rfl, hlimit, [], [], by simp, rfl, rfl⟩
  | succ n ih =>
    obtain ⟨msgNo, k, hk, hlt, hreaches⟩ := ih
    have hnot := (not_limitReached_iff hlimit).2 hlt
    have hbound := cfg.limit.isLt
    by_cases hnext : msgNo.toNat + 1 < cfg.limit.toNat
    · refine ⟨_, k + 1, by omega, ?_, hreaches.burst hpath hnot hwanted (by decide)⟩
      rw [BitVec.toNat_add, BitVec.toNat_ofNat]
      omega
    · refine ⟨_, k + 16, by omega, ?_, hreaches.burst hpath hnot hwanted le_rfl⟩
      rw [BitVec.toNat_add, BitVec.toNat_ofNat]
      omega

/-- The limit is tested before an indication and not before each of its PDUs: unless nothing is
written at all, a run can write 15 files more than `limit` says. What is compared is the member
`limit` itself, which is a pointer; `n` may be the number that it points to. -/
theorem writesAtMost_iff (hlimit : 0 < cfg.limit) (n : ℕ) :
    WritesAtMost cfg n ↔
      cfg.dumpPath = none ∨ (∀ d, cfg.dump d = true → d.tested = false) ∨
        cfg.limit.toNat + 15 ≤ n ∧ cfg.limit.toNat + 15 < 2 ^ 32 := by
  constructor
  · intro hmost
    by_contra hcases
    obtain ⟨hpath, hcases⟩ := not_or.1 hcases
    obtain ⟨hdump, hbound⟩ := not_or.1 hcases
    obtain ⟨d, hd⟩ := not_forall.1 hdump
    obtain ⟨hset, htested⟩ := Classical.not_imp.1 hd
    have hwanted : wanted cfg ⟨0, d.flag, 0, 0⟩ = true :=
      wanted_of_tested hset (Bool.of_not_eq_false htested) (flag_and_self_ne_zero d)
    rcases Nat.lt_or_ge (cfg.limit.toNat + 15) (2 ^ 32) with hlt | hge
    · have hpos : 0 < cfg.limit.toNat := hlimit
      have hlast := reaches_limit hlimit hpath hwanted (k := cfg.limit.toNat - 1) (by omega)
      have hnot : ¬LimitReached cfg (.ofNat 32 (cfg.limit.toNat - 1)) := by
        rw [not_limitReached_iff hlimit, BitVec.toNat_ofNat]
        omega
      have hover := hlast.burst hpath hnot hwanted le_rfl
      refine hover.not_writesAtMost ?_ hmost
      rw [maxP8PduIndNumber]
      omega
    · obtain ⟨msgNo, k, hk, -, hreaches⟩ := reaches_any hlimit hpath hwanted hge (n + 1)
      exact hreaches.not_writesAtMost hk hmost
  · rintro (hpath | hdump | ⟨hle, hwrap⟩)
    · exact writesAtMost_of_idle (.inl hpath)
    · exact writesAtMost_of_idle (.inr hdump)
    · exact writesAtMost_of_le hlimit hle hwrap

section Example

def limitOne : P8Config := { dumpOnly .ul with limit := 1 }

theorem writesAtMost_iff_limitOne : WritesAtMost limitOne 16 :=
  (@writesAtMost_iff limitOne (by decide) 16).2 (.inr (.inr (by decide)))

/-- One indication gives 16 files, whether the number 1 is compared or a pointer to it. -/
theorem limitOne_exceeded :
    (∃ files, p8Thread limitOne 0 [some (burst 1 16)] = some (16, files) ∧ files.length = 16) ∧
      ∃ files, p8Thread { limitOne with limit := 0x10010008 } 0 [some (burst 1 16)] =
        some (16, files) ∧ files.length = 16 :=
  ⟨⟨_, rfl, rfl⟩, _, rfl, rfl⟩

end Example

end EnbL1Ppc.Fapi.P8Dump
