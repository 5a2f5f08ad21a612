import EnbL1Ppc.Gser.NumberText
import EnbL1Ppc.Gser.Schema
import EnbL1Ppc.Lib.Stores
import Mathlib.Data.Bool.AllAny
import Mathlib.Data.List.Intervals

namespace EnbL1Ppc.Fapi.L1Start

open Lib Lib.Memory Lib.Stores
open Gser (EnumMap Text Ty Value ascii boolean integer items long member members optionalLong)

/-! The type FAPI-B4860-CONFIG -/

def logLevel : EnumMap where
  value2enum := [(0, ascii "debug"), (1, ascii "info"), (2, ascii "warning"), (3, ascii "error"),
    (4, ascii "none")]
  enum2value := [0, 3, 1, 4, 2]
  values_sorted := by decide
  names := by decide
  enum2value_perm := by decide
  names_sorted := by decide

def cpriSpeed : EnumMap where
  value2enum := [(0, ascii "s12288"), (1, ascii "s24576"), (2, ascii "s30720"),
    (3, ascii "s49152"), (4, ascii "s61440"), (5, ascii "s98304")]
  enum2value := [0, 1, 2, 3, 4, 5]
  values_sorted := by decide
  names := by decide
  enum2value_perm := by decide
  names_sorted := by decide

def enumerated (m : EnumMap) : Ty := .prim (Gser.nativeEnumerated 32 (ascii "ENUMERATED") m)

def rru : Ty :=
  .sequence (members
    [("cpri-port", .mandatory, integer), ("speed", .mandatory, enumerated cpriSpeed),
      ("ipc-channel", .mandatory, integer), ("ip", .mandatory, .prim Gser.charString),
      ("freq-dl", .mandatory, integer), ("freq-ul", .mandatory, integer),
      ("power-dbm", .mandatory, integer)])

def dumps : List String :=
  ["dump-ul", "dump-ul-bad-crc", "dump-ul-pucch", "dump-ul-pucch-ack", "dump-ul-pucch-nack",
    "dump-ul-pucch-sr", "dump-ul-pucch-sr-all", "dump-ul-pucch-not", "dump-ul-pucch-cqi",
    "dump-ul-pusch-ack", "dump-ul-pusch-nack", "dump-ul-pusch-cqi", "dump-ul-llr-check"]

def p8Config : Ty :=
  .sequence (members
    ([("enable", .mandatory, boolean), ("limit", .default (.integer 0), integer),
      ("dump-path", .mandatory, .prim Gser.charString)] ++
      dumps.map fun name ↦ (name, .default (.boolean false), boolean)))

def fapiB4860Config : Ty :=
  .sequence (members
    [("license", .optional, .prim Gser.octetString),
      ("loglevel", .default (.integer 4), enumerated logLevel),
      ("rrus", .mandatory, .sequenceOf rru), ("p8", .optional, p8Config)])

/-! The decoded structure, as far as `ipc_l1_start` reads it -/

structure RruCfg where
  cpriPort : BitVec 32
  speed : BitVec 32
  ip : Text

/-- `dumps` are the flags of the members `dump_…` that are not null, in the order in which they
are tested. A member with a default value is a pointer, and the pointer is what the code tests. -/
structure P8 where
  enable : Bool
  dumps : List (BitVec 32)

structure Config where
  license : Option (List UInt8)
  loglevel : Option (BitVec 32)
  rrus : List RruCfg
  p8 : Option P8

def octets : Option Value → List UInt8
  | some (.octets bytes) => bytes
  | _ => []

def isTrue : Option Value → Bool
  | some (.boolean b) => b
  | _ => false

/-- The places of the members `dump_…` in P8-CONFIG, with their flags. -/
def dumpFlags : List (ℕ × BitVec 32) :=
  [(3, 0x1), (4, 0x2), (5, 0x10), (6, 0x20), (7, 0x40), (10, 0x100), (8, 0x80), (9, 0x400),
    (11, 0x200), (12, 0x1000), (13, 0x2000), (14, 0x4000), (15, 0x80000000)]

def readRru (v : Value) : RruCfg where
  cpriPort := long (member (some v) 0)
  speed := long (member (some v) 1)
  ip := octets (member (some v) 3)

def readP8 (v : Value) : P8 where
  enable := isTrue (member (some v) 0)
  dumps := (dumpFlags.filter fun d ↦ (member (some v) d.1).isSome).map (·.2)

def readConfig (v : Value) : Config where
  license := (member (some v) 0).map fun w ↦ octets (some w)
  loglevel := optionalLong (member (some v) 1)
  rrus := (items (member (some v) 2)).map readRru
  p8 := (member (some v) 3).map readP8

def parseConfig (inetAton : Text → Bool) (env : Gser.Env) (text : Text) : Option Config :=
  if text = [] then none
  else
    match (Gser.gserDecode env fapiB4860Config text).res with
    | some (.ok _ v) =>
      if (readConfig v).rrus.all fun r ↦ inetAton r.ip then some (readConfig v) else none
    | _ => none

/-! The message -/

/-- `sizeof(fapi_ipc_cfg_t)`: the words `magic` and `version`, 64 bytes of `license`, the words
`loglevel`, `p8_dump_flags`, `p8_dump_limit` and `n_rrus`, and four `rrus` of two words. -/
def sizeofFapiIpcCfg : ℕ := 120

def rruStores : ℕ → List RruCfg → List Store
  | _, [] => []
  | nrru, r :: rest =>
    (88 + 8 * nrru, bigEndian r.cpriPort) :: (92 + 8 * nrru, bigEndian r.speed) ::
      rruStores (nrru + 1) rest

def dumpStores : BitVec 32 → List (BitVec 32) → List Store
  | _, [] => []
  | flags, f :: rest => (76, bigEndian (flags ||| f)) :: dumpStores (flags ||| f) rest

def licenseStores : Option (List UInt8) → List Store
  | some buf => if buf.length = 64 then [(8, buf)] else []
  | none => []

/-- For `p8_dump_limit` the code takes the pointer `p8->limit`, whatever that is. -/
def p8Stores (limit : BitVec 32) : Option P8 → List Store
  | some p8 => if p8.enable then dumpStores 0 p8.dumps ++ [(80, bigEndian limit)] else []
  | none => []

def ipcL1Start (limit : BitVec 32) (cfg : Config) : List Store :=
  [(0, List.replicate sizeofFapiIpcCfg 0), (0, bigEndian 0x6a45fe67), (4, bigEndian 1)] ++
  licenseStores cfg.license ++
  [(72, bigEndian (cfg.loglevel.getD 255))] ++
  (84, bigEndian (.ofNat 32 cfg.rrus.length)) ::
  (rruStores 0 cfg.rrus ++ p8Stores limit cfg.p8)

def nRrus (mem : Mem) (base : ℕ) : ℕ := (ofBigEndian (read mem (base + 84) 4)).toNat

def filledRrus (sts : List Store) : List ℕ :=
  (List.range 4).filter fun i ↦
    sts.any (fun st ↦ st.1 = 88 + 8 * i) && sts.any fun st ↦ st.1 = 92 + 8 * i

theorem mem_rruStores {nrru : ℕ} {rrus : List RruCfg} {st : Store} (h : st ∈ rruStores nrru rrus) :
    ∃ i < rrus.length, ∃ x, st = (88 + 8 * (nrru + i), bigEndian x) ∨
      st = (92 + 8 * (nrru + i), bigEndian x) := by
  induction rrus generalizing nrru with
  | nil => cases h
  | cons r rrus ih =>
    rw [rruStores, List.mem_cons, List.mem_cons] at h
    rcases h with rfl | rfl | h
    · exact ⟨0, by simp, r.cpriPort, .inl rfl⟩
    · exact ⟨0, by simp, r.speed, .inr rfl⟩
    · obtain ⟨i, hi, x, hst⟩ := ih h
      refine ⟨i + 1, by simpa using hi, x, ?_⟩
      rwa [show nrru + (i + 1) = nrru + 1 + i by omega]

theorem rruStores_mem {rrus : List RruCfg} {i : ℕ} (hi : i < rrus.length) (nrru : ℕ) :
    (88 + 8 * (nrru + i), bigEndian rrus[i].cpriPort) ∈ rruStores nrru rrus ∧
      (92 + 8 * (nrru + i), bigEndian rrus[i].speed) ∈ rruStores nrru rrus := by
  induction rrus generalizing nrru i with
  | nil => cases hi
  | cons r rrus ih =>
    rw [rruStores]
    cases i with
    | zero => simp
    | succ i =>
      obtain ⟨hport, hspeed⟩ := ih (by simpa using hi) (nrru + 1)
      rw [show nrru + 1 + i = nrru + (i + 1) by omega] at hport hspeed
      simp [hport, hspeed]

theorem mem_dumpStores {flags : BitVec 32} {dumps : List (BitVec 32)} {st : Store}
    (h : st ∈ dumpStores flags dumps) : ∃ x, st = (76, bigEndian x) := by
  induction dumps generalizing flags with
  | nil => cases h
  | cons f dumps ih =>
    rcases List.mem_cons.1 h with rfl | h
    · exact ⟨_, rfl⟩
    · exact ih h

theorem mem_licenseStores {license : Option (List UInt8)} {st : Store}
    (h : st ∈ licenseStores license) : st.1 = 8 ∧ st.2.length = 64 := by
  cases license with
  | none => cases h
  | some buf =>
    rw [licenseStores] at h
    split at h
    · next hlen =>
      cases List.mem_singleton.1 h
      exact ⟨rfl, hlen⟩
    · cases h

theorem mem_p8Stores {limit : BitVec 32} {p8 : Option P8} {st : Store}
    (h : st ∈ p8Stores limit p8) : ∃ x, st = (76, bigEndian x) ∨ st = (80, bigEndian x) := by
  cases p8 with
  | none => cases h
  | some p8 =>
    rw [p8Stores] at h
    split at h
    · rcases List.mem_append.1 h with h | h
      · obtain ⟨x, hx⟩ := mem_dumpStores h
        exact ⟨x, .inl hx⟩
      · exact ⟨limit, .inr (List.mem_singleton.1 h)⟩
    · cases h

section Stores

variable (limit : BitVec 32) (cfg : Config)

theorem mem_ipcL1Start {st : Store} (h : st ∈ ipcL1Start limit cfg) :
    st.1 + st.2.length ≤ 120 ∧ st.1 < 88 ∨ st ∈ rruStores 0 cfg.rrus := by
  rw [ipcL1Start, List.mem_append, List.mem_cons, List.mem_append, List.mem_append,
    List.mem_append] at h
  have hword {k : ℕ} (hk : k < 88) (x : BitVec 32) : k + (bigEndian x).length ≤ 120 ∧ k < 88 := by
    rw [length_bigEndian]
    omega
  rcases h with ((h | h) | h) | rfl | h | h
  · left
    simp only [List.mem_cons, List.not_mem_nil, or_false] at h
    rcases h with rfl | rfl | rfl
    · exact ⟨by rw [List.length_replicate]; decide, by decide⟩
    · exact hword (by decide) _
    · exact hword (by decide) _
  · left
    obtain ⟨h8, h64⟩ := mem_licenseStores h
    omega
  · left
    cases List.mem_singleton.1 h
    exact hword (k := 72) (by decide) _
  · left
    exact hword (k := 84) (by decide) _
  · right
    exact h
  · left
    obtain ⟨x, rfl | rfl⟩ := mem_p8Stores h
    · exact hword (k := 76) (by decide) x
    · exact hword (k := 80) (by decide) x

theorem rruStores_subset : rruStores 0 cfg.rrus ⊆ ipcL1Start limit cfg := by
  intro st hst
  rw [ipcL1Start]
  exact List.mem_append_right _ (List.mem_cons_of_mem _ (List.mem_append_left _ hst))

theorem within_ipcL1Start_iff :
    Within sizeofFapiIpcCfg (ipcL1Start limit cfg) ↔ cfg.rrus.length ≤ 4 := by
  constructor
  · intro h
    by_contra hlt
    have hst := (rruStores_mem (show 4 < cfg.rrus.length by omega) 0).1
    have hend := h _ (rruStores_subset limit cfg hst)
    rw [length_bigEndian, sizeofFapiIpcCfg] at hend
    omega
  · intro hlen st hst
    rcases mem_ipcL1Start limit cfg hst with h | h
    · exact h.1
    · obtain ⟨i, hi, x, rfl | rfl⟩ := mem_rruStores h
      · rw [length_bigEndian, sizeofFapiIpcCfg]
        omega
      · rw [length_bigEndian, sizeofFapiIpcCfg]
        omega

theorem nRrus_ipcL1Start (base : ℕ) (mem : Mem) :
    nRrus (run base (ipcL1Start limit cfg) mem) base = cfg.rrus.length % 2 ^ 32 := by
  have hdisj : Disjoint (footprint (84, bigEndian (.ofNat 32 cfg.rrus.length)))
      (span (rruStores 0 cfg.rrus ++ p8Stores limit cfg.p8)) := by
    rw [Set.disjoint_left]
    rintro x hx ⟨st, hst, hx'⟩
    simp only [footprint, Set.mem_Ico, length_bigEndian] at hx hx'
    rcases List.mem_append.1 hst with h | h
    · obtain ⟨i, -, y, rfl | rfl⟩ := mem_rruStores h <;> dsimp only at hx' <;> omega
    · obtain ⟨y, rfl | rfl⟩ := mem_p8Stores h <;> simp at hx' <;> omega
  have hread := read_run hdisj ([(0, List.replicate sizeofFapiIpcCfg 0), (0, bigEndian 0x6a45fe67),
    (4, bigEndian 1)] ++ licenseStores cfg.license ++
    [(72, bigEndian (cfg.loglevel.getD 255))]) base mem
  rw [length_bigEndian] at hread
  rw [nRrus, ipcL1Start, hread, ofBigEndian_bigEndian, BitVec.toNat_ofNat]

theorem any_ipcL1Start {i k : ℕ} (hk : k = 88 ∨ k = 92) :
    (ipcL1Start limit cfg).any (fun st ↦ st.1 = k + 8 * i) = decide (i < cfg.rrus.length) := by
  rw [Bool.eq_iff_iff, List.any_eq_true, decide_eq_true_iff]
  constructor
  · rintro ⟨st, hst, hi⟩
    rw [decide_eq_true_iff] at hi
    rcases mem_ipcL1Start limit cfg hst with h | h
    · omega
    · obtain ⟨j, hj, x, rfl | rfl⟩ := mem_rruStores h <;> dsimp only at hi <;> omega
  · intro hi
    obtain ⟨hport, hspeed⟩ := rruStores_mem hi 0
    rw [Nat.zero_add] at hport hspeed
    rcases hk with rfl | rfl
    · exact ⟨_, rruStores_subset limit cfg hport, by simp⟩
    · exact ⟨_, rruStores_subset limit cfg hspeed, by simp⟩

theorem length_filledRrus : (filledRrus (ipcL1Start limit cfg)).length = min 4 cfg.rrus.length := by
  have hfilled : filledRrus (ipcL1Start limit cfg) =
      (List.range 4).filter fun i ↦ decide (i < cfg.rrus.length) := by
    refine List.filter_congr fun i _ ↦ ?_
    rw [any_ipcL1Start limit cfg (.inl rfl), any_ipcL1Start limit cfg (.inr rfl), Bool.and_self]
  rw [hfilled, ← List.Ico.zero_bot, List.Ico.filter_lt, List.Ico.length, Nat.sub_zero]

end Stores

theorem parseConfig_rrus {inetAton : Text → Bool} {env : Gser.Env} {text : Text} {cfg : Config}
    (h : parseConfig inetAton env text = some cfg) : cfg.rrus ≠ [] := by
  rw [parseConfig] at h
  split at h
  · cases h
  · split at h
    · next n v hdecode =>
      split at h
      · cases h
        obtain ⟨w, hrrus, hw⟩ := (Gser.gserDecode_holds hdecode).member (i := 2) rfl
        rw [readConfig, hrrus, Ne, List.map_eq_nil_iff]
        exact hw.items_ne_nil rfl
      · cases h
    · cases h

/-- The message for an accepted configuration is written inside its structure and counts the RRUs
that it has exactly if there are at most four of them. -/
theorem ipcL1Start_inside_iff {inetAton : Text → Bool} {env : Gser.Env} {text : Text}
    {cfg : Config} (h : parseConfig inetAton env text = some cfg) (limit : BitVec 32) (base : ℕ)
    (mem : Mem) :
    cfg.rrus ≠ [] ∧
      (Within sizeofFapiIpcCfg (ipcL1Start limit cfg) ∧
        nRrus (run base (ipcL1Start limit cfg) mem) base =
          (filledRrus (ipcL1Start limit cfg)).length ↔ cfg.rrus.length ≤ 4) := by
  refine ⟨parseConfig_rrus h, ?_⟩
  rw [within_ipcL1Start_iff, nRrus_ipcL1Start, length_filledRrus]
  constructor
  · exact And.left
  · intro hlen
    refine ⟨hlen, ?_⟩
    rw [Nat.mod_eq_of_lt (by omega), Nat.min_eq_right hlen]

section Example

def exampleIp : Text := ascii "10.0.0.1"

def onlyExampleIp (ip : Text) : Bool := ip = exampleIp

def exampleRru : Value :=
  .sequence [some (.integer 0), some (.integer 0), some (.integer 0), some (.octets exampleIp),
    some (.integer 0), some (.integer 0), some (.integer 0)]

def exampleValue (n : ℕ) : Value :=
  .sequence [none, some (.integer 4), some (.list (List.replicate (n + 1) exampleRru)), none]

theorem exampleRru_writable : rru.Writable exampleRru := by
  have hzero : integer.Writable (.integer 0) :=
    ⟨_, Gser.nativeInteger_writes (by decide) (by decide)⟩
  have hspeed : (enumerated cpriSpeed).Writable (.integer 0) :=
    ⟨_, Gser.nativeEnumerated_writes (e := (0, ascii "s12288")) (by decide)
      List.mem_cons_self (by decide)⟩
  have hip : (Ty.prim Gser.charString).Writable (.octets exampleIp) :=
    ⟨_, Gser.charString_writes_quoted (List.all_iff_forall_prop.1 (by decide))
      (List.all_iff_forall_prop.1 (by decide))⟩
  exact (((((((Gser.Elements.writable_nil.cons _ _ hzero).cons _ _ hzero).cons _ _ hzero).cons _ _
    hip).cons _ _ hzero).cons _ _ hspeed).cons _ _ hzero).sequence

theorem exampleValue_writable (n : ℕ) : fapiB4860Config.Writable (exampleValue n) :=
  ((((Gser.Elements.writable_nil.absent _ _ rfl).cons _ _ (exampleRru_writable.replicate n)).absent
    _ _ rfl).absent _ _ rfl).sequence

theorem exists_parseConfig (n : ℕ) : ∃ env text, parseConfig onlyExampleIp env text =
    some (readConfig (exampleValue n)) := by
  have hty : fapiB4860Config.WellFormed := by decide +kernel
  obtain ⟨env, text, m, hne, hdecode⟩ := (exampleValue_writable n).exists_file hty
  change (Gser.gserDecode env fapiB4860Config text).res = _ at hdecode
  refine ⟨env, text, ?_⟩
  have hips : (readConfig (exampleValue n)).rrus.all (fun r ↦ onlyExampleIp r.ip) = true := by
    change ((List.replicate (n + 1) exampleRru).map readRru).all _ = true
    rw [List.map_replicate, List.all_replicate]
    simp [onlyExampleIp, readRru, exampleRru, member, octets]
  rw [parseConfig, if_neg hne, hdecode]
  dsimp only
  rw [if_pos hips]

theorem ipcL1Start_inside_iff_oneRru :
    ∃ env text cfg, parseConfig onlyExampleIp env text = some cfg ∧
      Within sizeofFapiIpcCfg (ipcL1Start 0 cfg) ∧
      nRrus (run 0 (ipcL1Start 0 cfg) fun _ ↦ 0) 0 = (filledRrus (ipcL1Start 0 cfg)).length := by
  obtain ⟨env, text, h⟩ := exists_parseConfig 0
  exact ⟨env, text, _, h, ((ipcL1Start_inside_iff h 0 0 _).2).2 (by decide)⟩

/-- The fifth RRU is written behind the structure. -/
theorem fifth_rru_outside :
    ∃ env text cfg, parseConfig onlyExampleIp env text = some cfg ∧
      cfg.rrus.length = 5 ∧ (120, bigEndian 0) ∈ ipcL1Start 0 cfg := by
  obtain ⟨env, text, h⟩ := exists_parseConfig 4
  exact ⟨env, text, _, h, rfl, rruStores_subset 0 _ (rruStores_mem (i := 4) (by decide) 0).1⟩

end Example

end EnbL1Ppc.Fapi.L1Start
