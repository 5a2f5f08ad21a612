import Mathlib.InformationTheory.Coding.UniquelyDecodable
import EnbL1Ppc.CpriEth.RruSteps

namespace EnbL1Ppc.CpriEth

open Lib.Machine

/-!
The read results for one slot, each in a round of the loop of its own. What they do to the slot
depends on the slot and on the buffer only.
-/

def readRound (env : Env) (i : SlotId) (chunk : List UInt8) : List (Env × Input) :=
  roundInputs env none none fun j ↦ if j = i then some (.bytes chunk) else none

def readPhase (n : ℕ) : Phase :=
  if h : n < maxRruClients then .read ⟨n, h⟩ else .top

theorem nextSlot_read (i : SlotId) : Manager.nextSlot i .read .top = readPhase (i.val + 1) := rfl

theorem exec_reads_none (s : Manager) (env : Env) (reads : SlotId → Option ReadResult) {n : ℕ}
    (hn : n ≤ maxRruClients) (hs : s.phase = readPhase n) (h : ∀ j : SlotId, n ≤ j.val → reads j = none) :
    exec Manager.step s (((List.finRange maxRruClients).drop n).map fun j ↦ (env, .read (reads j))) =
      some ({ s with phase := .top }, []) := by
  induction hn using Nat.decreasingInduction generalizing s with
  | self =>
    rw [List.drop_of_length_le (by simp)]
    simp only [readPhase, lt_irrefl, dite_false] at hs
    obtain ⟨rrus, pollfds, rruCount, bbuId, address, mem, fds, accepted, phase⟩ := s
    cases hs
    rfl
  | of_succ k hk ih =>
    have hk' : k < (List.finRange maxRruClients).length := by simpa using hk
    rw [List.drop_eq_getElem_cons hk', List.map_cons, exec, List.getElem_finRange]
    rw [h _ (by simp)]
    simp only [readPhase, dif_pos hk] at hs
    rw [step_read_none env hs, Option.bind_some, nextSlot_read]
    rw [ih _ rfl fun j hj ↦ h j (by omega)]
    rfl

def readStep (env : Env) : Step (Rru × Mem) (List UInt8) IrMsg :=
  fun x chunk ↦
    if chunk ≠ [] ∧ chunk.length ≤ 4096 then
      (receiveMessage env x.1 (x.2.write chunk) chunk.length).map fun h ↦
        ((h.1, x.2.write chunk), h.2)
    else none

def Manager.InUse (s : Manager) (i : SlotId) : Prop :=
  s.phase = .top ∧ (s.rrus i).state ≠ .none ∧ 0 < (s.rrus i).fd

theorem readSlot_bytes (s : Manager) (env : Env) (i : SlotId) (chunk : List UInt8) :
    s.readSlot env i (.bytes chunk) = (readStep env (s.rrus i, s.mem) chunk).map fun r ↦
      ({ s with rrus := Function.update s.rrus i r.1.1, mem := r.1.2 },
        (if msgHeaderSize ≤ chunk.length then
          [.received i (rruMsg ((s.mem.write chunk).u32 0))] else []) ++ r.2.map (.sent i)) := by
  rw [Manager.readSlot, readStep]
  split
  · rw [Manager.handle, Option.map_map, Option.map_map]
    rfl
  · rfl

theorem exec_reads_one (s : Manager) (env : Env) {reads : SlotId → Option ReadResult} {i : SlotId}
    {chunk : List UInt8} (hi : reads i = some (.bytes chunk)) (hother : ∀ j, j ≠ i → reads j = none)
    (huse : ¬ ((s.rrus i).state = .none ∨ s.pollfds i < 0)) {n : ℕ} (hn : n ≤ i.val)
    (hs : s.phase = readPhase n) :
    exec Manager.step s (((List.finRange maxRruClients).drop n).map fun j ↦ (env, .read (reads j))) =
      (s.readSlot env i (.bytes chunk)).map fun x ↦ ({ x.1 with phase := .top }, x.2) := by
  induction hn using Nat.decreasingInduction generalizing s with
  | self =>
    have hlen : i.val < (List.finRange maxRruClients).length := by simp
    rw [List.drop_eq_getElem_cons hlen, List.map_cons, exec, List.getElem_finRange]
    simp only [readPhase, dif_pos i.isLt] at hs
    have hstep : s.step (env, .read (some (.bytes chunk))) = (s.readSlot env i (.bytes chunk)).map
        fun x ↦ ({ x.1 with phase := readPhase (i.val + 1) }, x.2) := by
      rw [step_read_some env hs, if_neg huse]
      rfl
    change (s.step (env, .read (reads i))).bind _ = _
    rw [hi, hstep]
    cases s.readSlot env i (.bytes chunk) with
    | none => rfl
    | some x =>
      rw [Option.map_some, Option.bind_some, exec_reads_none _ env reads i.isLt rfl
        fun j hj ↦ hother j (by rintro rfl; omega)]
      simp
  | of_succ k hk ih =>
    have hk10 : k < maxRruClients := hk.trans i.isLt
    have hlen : k < (List.finRange maxRruClients).length := by simpa using hk10
    rw [List.drop_eq_getElem_cons hlen, List.map_cons, exec, List.getElem_finRange]
    simp only [readPhase, dif_pos hk10] at hs
    rw [hother _ (by rintro rfl; simp at hk), step_read_none env hs, Option.bind_some, nextSlot_read]
    dsimp only
    rw [ih { s with phase := readPhase (k + 1) } huse rfl, readSlot_bytes, readSlot_bytes,
      Option.map_map, Option.map_map, Option.map_map]
    rfl

theorem exec_readRound {s : Manager} (env : Env) {i : SlotId} (chunk : List UInt8)
    (h : s.InUse i) :
    exec Manager.step s (readRound env i chunk) =
      (readStep env (s.rrus i, s.mem) chunk).map fun r ↦
        ({ s with rrus := Function.update s.rrus i r.1.1, mem := r.1.2, pollfds := s.slotPollfds },
          (if msgHeaderSize ≤ chunk.length then
            [.received i (rruMsg ((s.mem.write chunk).u32 0))] else []) ++ r.2.map (.sent i)) := by
  obtain ⟨hs, hi, hfd⟩ := h
  -- the state in which the loop over the slots starts
  set t : Manager := { s with pollfds := s.slotPollfds, phase := readPhase 0 } with ht
  have hround : exec Manager.step s (readRound env i chunk) = exec Manager.step t
      (((List.finRange maxRruClients).drop 0).map fun j ↦
        (env, .read (if j = i then some (.bytes chunk) else none))) := by
    obtain ⟨rrus, pollfds, rruCount, bbuId, address, mem, fds, accepted, phase⟩ := s
    cases hs
    simp only [readRound, roundInputs, List.cons_append, List.nil_append, exec]
    change Option.map _ (Option.map _ (Option.map _ (Option.map _ (exec Manager.step t _)))) = _
    simp
  have huse : ¬ ((t.rrus i).state = .none ∨ t.pollfds i < 0) := by
    have hpoll : t.pollfds i = (s.rrus i).fd := by
      simp only [ht, Manager.slotPollfds, if_neg hi, if_pos hfd]
    rw [not_or, hpoll]
    exact ⟨hi, by omega⟩
  rw [hround, exec_reads_one t env (if_pos rfl) (fun j hj ↦ if_neg hj) huse (Nat.zero_le _) rfl,
    readSlot_bytes, Option.map_map]
  obtain ⟨rrus, pollfds, rruCount, bbuId, address, mem, fds, accepted, phase⟩ := s
  cases hs
  rfl

theorem receiveMessage_inUse {env : Env} {r : Rru} {m : Mem} {len : ℤ} {h : Handled}
    (hr : receiveMessage env r m len = some h) (hne : r.state ≠ .none) :
    h.1.state ≠ .none ∧ h.1.fd = r.fd := by
  by_cases hc : Confirms r m len
  · rw [receiveMessage_confirms hc] at hr
    cases hr
    exact ⟨nofun, rfl⟩
  · have hk := receiveMessage_kept hr hc
    exact ⟨hk.ne_none hne, hk.fd⟩

def Obs.sentTo (i : SlotId) : Obs → Option IrMsg
  | .sent j m => if j = i then some m else none
  | _ => none

def Manager.outcome (s : Manager) (env : Env) (i : SlotId) (chunks : List (List UInt8)) :
    Option (Rru × List IrMsg) :=
  (exec Manager.step s (chunks.flatMap (readRound env i))).map fun r ↦
    (r.1.rrus i, r.2.filterMap (Obs.sentTo i))

@[simp] theorem filterMap_sentTo (i : SlotId) (ms : List IrMsg) :
    (ms.map (Obs.sent i)).filterMap (Obs.sentTo i) = ms := by
  simp [List.filterMap_map, Function.comp_def, Obs.sentTo]

theorem outcome_eq {s : Manager} (env : Env) {i : SlotId} (chunks : List (List UInt8))
    (h : s.InUse i) : s.outcome env i chunks =
      (exec (readStep env) (s.rrus i, s.mem) chunks).map fun r ↦ (r.1.1, r.2) := by
  induction chunks generalizing s with
  | nil => rfl
  | cons chunk chunks ih =>
    rw [Manager.outcome, List.flatMap_cons, exec_append_eq, exec_readRound env chunk h, exec]
    cases hstep : readStep env (s.rrus i, s.mem) chunk with
    | none => rfl
    | some r =>
      obtain ⟨⟨r', m'⟩, o⟩ := r
      rw [readStep] at hstep
      split at hstep
      · obtain ⟨x, hx, heq⟩ := Option.map_eq_some_iff.1 hstep
        cases heq
        obtain ⟨hne, hfd⟩ := receiveMessage_inUse hx h.2.1
        rw [Option.map_some, Option.bind_some, Option.bind_some]
        set t : Manager := { s with
          rrus := Function.update s.rrus i x.1
          mem := s.mem.write chunk
          pollfds := s.slotPollfds } with ht
        have hti : t.rrus i = x.1 := Function.update_self i x.1 s.rrus
        have ih' := ih (s := t) ⟨h.1, by rwa [hti], by rw [hti, hfd]; exact h.2.2⟩
        rw [Manager.outcome, hti] at ih'
        have hrec : (if msgHeaderSize ≤ chunk.length then
            [Obs.received i (rruMsg ((s.mem.write chunk).u32 0))] else []).filterMap
              (Obs.sentTo i) = [] := by
          split
          · rfl
          · rfl
        simp only [Option.map_map, Function.comp_def, List.filterMap_append, filterMap_sentTo,
          hrec, List.nil_append]
        have := congrArg (Option.map fun y : Rru × List IrMsg ↦ (y.1, x.2 ++ y.2)) ih'
        simpa only [Option.map_map, Function.comp_def] using this
      · cases hstep

/-- A message as an RRU sends it: a header, whose `msg_len` is the length of the message. -/
structure WellFormed (msg : List UInt8) : Prop where
  header : msgHeaderSize ≤ msg.length
  msgLen : (Mem.write (fun _ ↦ 0) msg).u32 4 = msg.length

theorem WellFormed.u32_append {msg : List UInt8} (h : WellFormed msg) (rest : List UInt8) :
    (Mem.write (fun _ ↦ 0) (msg ++ rest)).u32 4 = msg.length := by
  have hlen : 15 ≤ msg.length := h.header
  have hfront : ∀ k < 8, Mem.write (fun _ ↦ 0) (msg ++ rest) k = Mem.write (fun _ ↦ 0) msg k := by
    intro k hk
    have hk' : k < msg.length := by omega
    simp only [Mem.write, List.getD_eq_getElem?_getD, List.getElem?_append_left hk']
  rw [← h.msgLen]
  simp only [Mem.u32, Mem.u16, hfront 4 (by omega), hfront (4 + 1) (by omega),
    hfront (4 + 2) (by omega), hfront (4 + 2 + 1) (by omega)]

theorem wellFormed_uniquelyDecodable :
    InformationTheory.UniquelyDecodable { msg | WellFormed msg } := by
  intro L₁
  induction L₁ with
  | nil =>
    intro L₂ _ h₂ heq
    cases L₂ with
    | nil => rfl
    | cons m L₂ =>
      have hm : m = [] := (List.append_eq_nil_iff.1 heq.symm).1
      have hlen : 15 ≤ m.length := (h₂ m List.mem_cons_self).header
      simp [hm] at hlen
  | cons m₁ L₁ ih =>
    intro L₂ h₁ h₂ heq
    have hm₁ : WellFormed m₁ := h₁ m₁ List.mem_cons_self
    cases L₂ with
    | nil =>
      have hm : m₁ = [] := (List.append_eq_nil_iff.1 heq).1
      have hlen : 15 ≤ m₁.length := hm₁.header
      simp [hm] at hlen
    | cons m₂ L₂ =>
      have hm₂ : WellFormed m₂ := h₂ m₂ List.mem_cons_self
      rw [List.flatten_cons, List.flatten_cons] at heq
      have hlen : m₁.length = m₂.length := by
        rw [← hm₁.u32_append L₁.flatten, heq, hm₂.u32_append]
      obtain ⟨rfl, hrest⟩ := List.append_inj heq hlen
      rw [ih L₂ (fun m hm ↦ h₁ m (List.mem_cons_of_mem _ hm))
        (fun m hm ↦ h₂ m (List.mem_cons_of_mem _ hm)) hrest]

end EnbL1Ppc.CpriEth
