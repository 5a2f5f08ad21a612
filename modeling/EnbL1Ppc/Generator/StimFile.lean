import EnbL1Ppc.Generator.ListBounds
import EnbL1Ppc.Gser.RoundTrip
import EnbL1Ppc.Gser.Schema

namespace EnbL1Ppc.Generator

open Lib Fapi.Requests
open Gser (EnumMap Text Ty Value ascii boolean integer items long member members optionalLong)

/-! The type L2-FAPI-GENERATOR-CONFIG -/

def integers (names : List String) : Ty :=
  .sequence (members (names.map fun name ↦ (name, .mandatory, integer)))

def general : Ty :=
  .sequence (members
    [("use-sibs-for-p5", .mandatory, boolean), ("auto-mib", .mandatory, boolean),
      ("auto-sibs", .mandatory, boolean), ("stim-start-tti", .mandatory, integer),
      ("stim-duration", .mandatory, integer), ("stim-loop", .mandatory, boolean),
      ("rru", .mandatory, .sequence (members
        [("active", .mandatory, boolean), ("earfcn", .mandatory, integer)]))])

def p5 : Ty :=
  .sequence (members
    [("duplex", .mandatory, integer), ("pcfich-power-offset", .mandatory, integer),
      ("p-b", .mandatory, integer), ("cyclic-prefix", .mandatory, integer),
      ("rf-config", .mandatory,
        integers ["nprb", "tx-antenna-ports", "rx-antenna-ports", "rs-power"]),
      ("phich-config", .mandatory,
        integers ["phich-resource", "phich-duration", "phich-power-offset"]),
      ("sch-config", .mandatory, integers ["pss-epre", "sss-epre", "physical-cell-id"]),
      ("prach-config", .mandatory,
        integers ["configuration-index", "root-sequence-index",
          "zero-correlation-zone-configuration", "frequency-offset", "high-speed-flag"]),
      ("pusch-config", .mandatory,
        integers ["hopping-mode", "hopping-offset", "number-of-subbands"]),
      ("uplink-reference-signal-config", .mandatory,
        integers ["uplink-rs-hopping", "group-assignment", "cyclic-shift-1-for-drms"]),
      ("pucch-config", .mandatory,
        integers ["n-an-cs", "delta-pucch-shift", "n1-pucch-an", "n-cqi-rb"])])

def dciFormats : EnumMap where
  value2enum := [(0, ascii "dci1"), (1, ascii "dci1a"), (2, ascii "dci1b"), (3, ascii "dci1c"),
    (4, ascii "dci1d"), (5, ascii "dci2"), (6, ascii "dci2a"), (7, ascii "dci2b"),
    (8, ascii "dci2c"), (9, ascii "dci2d")]
  enum2value := [0, 1, 2, 3, 4, 5, 6, 7, 8, 9]
  values_sorted := by decide
  names := by decide
  enum2value_perm := by decide
  names_sorted := by decide

def dciFormat : Ty := .prim (Gser.nativeEnumerated 32 (ascii "ENUMERATED") dciFormats)

def dlConfigPduTypeDci : Ty :=
  .sequence (members
    [("format", .mandatory, dciFormat), ("cce", .mandatory, integer), ("l", .mandatory, integer),
      ("rnti", .mandatory, integer), ("ra-type", .mandatory, integer),
      ("vrb-flag", .optional, integer), ("rb-coding", .mandatory, integer),
      ("mcs-1", .mandatory, integer), ("rv-1", .mandatory, integer),
      ("ndi-1", .mandatory, integer), ("tb-swap", .optional, integer),
      ("mcs-2", .optional, integer), ("rv-2", .optional, integer), ("ndi-2", .optional, integer),
      ("harq", .mandatory, integer), ("tpmi", .optional, integer), ("pmi", .optional, integer),
      ("pi", .optional, integer), ("tpc", .optional, integer),
      ("downlink-index", .optional, integer), ("n-gap", .optional, integer),
      ("tbs-index", .optional, integer), ("power-offset", .optional, integer),
      ("prach-flag", .optional, integer), ("preamble-index", .optional, integer),
      ("prach-mask", .optional, integer), ("rnti-type", .mandatory, integer),
      ("power", .mandatory, integer)])

def dlConfigPduTypeBch : Ty :=
  .sequence (members
    [("pdu", .mandatory, .prim Gser.octetString), ("power", .mandatory, integer)])

def dlConfigPduTypeDlsch : Ty :=
  .sequence (members
    [("pdu", .mandatory, .prim Gser.octetString), ("rnti", .mandatory, integer),
      ("ra-type", .mandatory, integer), ("vrb-flag", .optional, integer),
      ("rb-coding", .mandatory, integer), ("modulation", .mandatory, integer),
      ("rv", .mandatory, integer), ("tb", .mandatory, integer), ("tb-swap", .optional, integer),
      ("tx-scheme", .optional, integer), ("n-layers", .optional, integer),
      ("n-subbands", .optional, integer), ("ue-categiry", .optional, integer),
      ("p-a", .optional, integer), ("delta-power", .optional, integer),
      ("n-gap", .optional, integer), ("n-prb", .optional, integer), ("tm", .optional, integer),
      ("n-prb-per-subband", .optional, integer)])

def dlConfigPduType : Ty :=
  .choice (members
    [("dci", .mandatory, dlConfigPduTypeDci), ("bch", .mandatory, dlConfigPduTypeBch),
      ("dlsch", .mandatory, dlConfigPduTypeDlsch)])

def p7Member : Ty :=
  .sequence (members
    [("tti", .mandatory, integer),
      ("dl-config", .mandatory, .sequence (members
        [("cfi", .mandatory, integer), ("cfi-power", .mandatory, integer),
          ("pdus", .optional, .sequenceOf dlConfigPduType)])),
      ("ul-config", .mandatory, .sequence (members [("ndci", .optional, integer)]))])

def l2FapiGeneratorConfig : Ty :=
  .sequence (members
    [("general", .mandatory, general), ("p5", .mandatory, p5),
      ("p7", .mandatory, .sequenceOf p7Member)])

/-! The decoded structure -/

/-- A string in the address space of 32 bits is not cut. -/
def octetString : Option Value → OctetString
  | some (.octets bytes) =>
    ⟨bytes.take (2 ^ 32 - 1), (List.length_take_le _ _).trans_lt (by decide)⟩
  | _ => ⟨[], by decide⟩

def readDci (v : Option Value) : Dci where
  format := long (member v 0)
  cce := long (member v 1)
  l := long (member v 2)
  rnti := long (member v 3)
  raType := long (member v 4)
  vrbFlag := optionalLong (member v 5)
  rbCoding := long (member v 6)
  mcs1 := long (member v 7)
  rv1 := long (member v 8)
  ndi1 := long (member v 9)
  tbSwap := optionalLong (member v 10)
  mcs2 := optionalLong (member v 11)
  rv2 := optionalLong (member v 12)
  ndi2 := optionalLong (member v 13)
  harq := long (member v 14)
  tpmi := optionalLong (member v 15)
  pmi := optionalLong (member v 16)
  pi := optionalLong (member v 17)
  tpc := optionalLong (member v 18)
  downlinkIndex := optionalLong (member v 19)
  nGap := optionalLong (member v 20)
  tbsIndex := optionalLong (member v 21)
  powerOffset := optionalLong (member v 22)
  prachFlag := optionalLong (member v 23)
  preambleIndex := optionalLong (member v 24)
  prachMask := optionalLong (member v 25)
  rntiType := long (member v 26)
  power := long (member v 27)

def readBch (v : Option Value) : Bch where
  pdu := octetString (member v 0)
  power := long (member v 1)

def readDlsch (v : Option Value) : Dlsch where
  pdu := octetString (member v 0)
  rnti := long (member v 1)
  raType := long (member v 2)
  vrbFlag := optionalLong (member v 3)
  rbCoding := long (member v 4)
  modulation := long (member v 5)
  rv := long (member v 6)
  tb := long (member v 7)
  tbSwap := optionalLong (member v 8)
  txScheme := optionalLong (member v 9)
  nLayers := optionalLong (member v 10)
  nSubbands := optionalLong (member v 11)
  ueCategory := optionalLong (member v 12)
  pA := optionalLong (member v 13)
  deltaPower := optionalLong (member v 14)
  nGap := optionalLong (member v 15)
  nPrb := optionalLong (member v 16)
  tm := optionalLong (member v 17)

def readElement : Value → Element
  | .choice 1 v => .dci (readDci (some v))
  | .choice 2 v => .bch (readBch (some v))
  | .choice 3 v => .dlsch (readDlsch (some v))
  | _ => .unknown

def readMember (v : Value) : Member where
  tti := long (member (some v) 0)
  cfi := long (member (member (some v) 1) 0)
  pdus := (member (member (some v) 1) 2).map fun w ↦ (items (some w)).map readElement

def readP7 (v : Value) : List Member := (items (member (some v) 2)).map readMember

theorem readP7_ne_nil {v : Value} (h : l2FapiGeneratorConfig.Holds v) : readP7 v ≠ [] := by
  obtain ⟨w, hp7, hw⟩ := h.member (i := 2) rfl
  rw [readP7, hp7, Ne, List.map_eq_nil_iff]
  exact hw.items_ne_nil rfl

/-- A stimulus file is played without a fault exactly if each of its members has a list of PDUs
that the requests and their blocks have room for, also together with a MIB. -/
theorem stimFile_survives_iff {env : Gser.Env} {text : Text} {n : ℕ} {v : Value}
    (h : (Gser.gserDecode env l2FapiGeneratorConfig text).res = some (.ok n v)) (cfg : Config)
    (inds : List Indication) :
    Survives cfg (readP7 v) inds ↔
      (∀ m ∈ readP7 v, m.Fits cfg) ∧ (∀ ind ∈ inds, ind.subframe.toNat < 10) ∧
      (cfg.autoMib = true → MibRoom (readP7 v) ⟨0, 0⟩ inds) :=
  survives_iff (readP7_ne_nil (Gser.gserDecode_holds h))

section Example

theorem integer_hasValue : integer.HasValue (.integer 0) :=
  Gser.PrimitiveValue.integer (by decide) (by decide)

theorem boolean_hasValue : boolean.HasValue (.boolean false) :=
  Gser.PrimitiveValue.boolean false

def zeros (names : List String) : Value :=
  .sequence (names.map fun _ ↦ some (.integer 0))

theorem integers_hasValue (names : List String) : (integers names).HasValue (zeros names) := by
  rw [integers, zeros, Ty.HasValue]
  induction names with
  | nil => rfl
  | cons name names ih => exact ⟨integer_hasValue, ih⟩

def exampleGeneral : Value :=
  .sequence [some (.boolean false), some (.boolean false), some (.boolean false),
    some (.integer 0), some (.integer 0), some (.boolean false),
    some (.sequence [some (.boolean false), some (.integer 0)])]

def exampleP5 : Value :=
  .sequence [some (.integer 0), some (.integer 0), some (.integer 0), some (.integer 0),
    some (.sequence (List.replicate 4 (some (.integer 0)))),
    some (.sequence (List.replicate 3 (some (.integer 0)))),
    some (.sequence (List.replicate 3 (some (.integer 0)))),
    some (.sequence (List.replicate 5 (some (.integer 0)))),
    some (.sequence (List.replicate 3 (some (.integer 0)))),
    some (.sequence (List.replicate 3 (some (.integer 0)))),
    some (.sequence (List.replicate 4 (some (.integer 0))))]

def exampleStimulus (pdus : Option Value) : Value :=
  .sequence [some exampleGeneral, some exampleP5, some (.list [.sequence [some (.integer 0),
    some (.sequence [some (.integer 0), some (.integer 0), pdus]), some (.sequence [none])]])]

def oneBch : Value :=
  .list [.choice 2 (.sequence [some (.octets [1, 2, 3]), some (.integer 0)])]

theorem exampleStimulus_hasValue {pdus : Option Value}
    (h : ∀ v ∈ pdus, (Ty.sequenceOf dlConfigPduType).HasValue v) :
    l2FapiGeneratorConfig.HasValue (exampleStimulus pdus) := by
  have hgeneral : general.HasValue exampleGeneral :=
    ⟨boolean_hasValue, boolean_hasValue, boolean_hasValue, integer_hasValue, integer_hasValue,
      boolean_hasValue, ⟨boolean_hasValue, integer_hasValue, rfl⟩, rfl⟩
  have hp5 : p5.HasValue exampleP5 :=
    ⟨integer_hasValue, integer_hasValue, integer_hasValue, integer_hasValue,
      integers_hasValue _, integers_hasValue _, integers_hasValue _, integers_hasValue _,
      integers_hasValue _, integers_hasValue _, integers_hasValue _, rfl⟩
  refine ⟨hgeneral, hp5, ⟨List.cons_ne_nil _ _, List.forall_mem_singleton.2 ?_⟩, rfl⟩
  refine ⟨integer_hasValue, ⟨integer_hasValue, integer_hasValue, ?_⟩, rfl, rfl⟩
  cases pdus with
  | none => rfl
  | some v => exact ⟨h v rfl, rfl⟩

theorem exists_exampleFile (pdus : Option Value)
    (h : ∀ v ∈ pdus, (Ty.sequenceOf dlConfigPduType).HasValue v) :
    ∃ env text n, (Gser.gserDecode env l2FapiGeneratorConfig text).res =
      some (.ok n (l2FapiGeneratorConfig.withDefaults (exampleStimulus pdus))) := by
  have hty : l2FapiGeneratorConfig.WellFormed := by decide +kernel
  obtain ⟨text, -, hdecode⟩ :=
    Gser.gserDecode_gserEncode .basic hty (exampleStimulus_hasValue h)
  exact ⟨⟨text.length + 2, 0, fun _ ↦ none⟩, text, _, hdecode _ (Nat.le_refl _)⟩

theorem stimFile_survives_iff_oneBch :
    ∃ env text n, (Gser.gserDecode env l2FapiGeneratorConfig text).res =
        some (.ok n (exampleStimulus (some oneBch))) ∧
      Survives exampleConfig (readP7 (exampleStimulus (some oneBch))) [⟨0, 0⟩, ⟨0, 1⟩] := by
  have hbch : (Ty.sequenceOf dlConfigPduType).HasValue oneBch :=
    ⟨List.cons_ne_nil _ _, List.forall_mem_singleton.2
      ⟨Gser.PrimitiveValue.octets _, integer_hasValue, rfl⟩⟩
  obtain ⟨env, text, n, hdecode⟩ := exists_exampleFile (some oneBch)
    fun v hv ↦ Option.some.inj hv ▸ hbch
  refine ⟨env, text, n, hdecode, (stimFile_survives_iff hdecode exampleConfig _).2 ⟨?_, ?_, ?_⟩⟩
  · exact List.forall_mem_singleton.2 ⟨_, rfl, by decide, by decide, blocksFit_skip rfl⟩
  · decide
  · exact fun hauto ↦ absurd hauto (by decide)

/-- Without `pdus`, which is optional, the parser follows a null pointer. -/
theorem stimFile_without_pdus :
    ∃ env text n, (Gser.gserDecode env l2FapiGeneratorConfig text).res =
        some (.ok n (exampleStimulus none)) ∧
      parseP7 exampleConfig (readP7 (exampleStimulus none)) = none := by
  obtain ⟨env, text, n, hdecode⟩ := exists_exampleFile none
    fun v hv ↦ absurd hv (Option.not_mem_none v)
  exact ⟨env, text, n, hdecode, rfl⟩

end Example

end EnbL1Ppc.Generator
