import EnbL1Ppc.Generator.Linkage

namespace EnbL1Ppc.Generator

open Lib Fapi.Requests

/-! What the TTIs have room for -/

structure Player where
  ptr : ℕ
  absTti : BitVec 32

def Player.tick (p : Player) (ind : Indication) : BitVec 32 :=
  if (p.absTti + 1) % 10 = ind.subframe then p.absTti + 1 else ind.frame * 10 + ind.subframe

def Player.next (ttis : List (BitVec 32)) (p : Player) (ind : Indication) : Player × Option ℕ :=
  if ∃ t ∈ ttis[p.ptr]?, t.toNat = (p.tick ind).toNat % ttis.length then
    (⟨if p.ptr + 1 < ttis.length then p.ptr + 1 else 0, p.tick ind⟩, some p.ptr)
  else (⟨p.ptr, p.tick ind⟩, none)

def played (ttis : List (BitVec 32)) : Player → List Indication → List (Option ℕ)
  | _, [] => []
  | p, ind :: inds => (p.next ttis ind).2 :: played ttis (p.next ttis ind).1 inds

/-- No member with as many DLSCH elements as a request has PDUs is played together with a MIB. -/
def MibRoom (stim : List Member) (p : Player) (inds : List Indication) : Prop :=
  ∀ x ∈ inds.zip (played (stim.map Member.tti) p inds), x.1.MibDue → ∀ k ∈ x.2, ∀ m ∈ stim[k]?,
    m.sources.length < fapiDlConfigMaxPdu

def L2FapiGenerator.player (g : L2FapiGenerator) : Player := ⟨g.stimPtr, g.absTti⟩

def L2FapiGenerator.start (cfg : Config) (items : List StimItem) : L2FapiGenerator :=
  ⟨cfg, 0, 0, items, fun _ ↦ zeroDl, fun _ ↦ zeroUl⟩

variable {cfg : Config} {stim : List Member} {g g' : L2FapiGenerator} {m : Member}
  {ind : Indication} {inds : List Indication} {p : Player} {outs : List Sent}

theorem mibRoom_cons :
    MibRoom stim p (ind :: inds) ↔
      (ind.MibDue → ∀ k ∈ (p.next (stim.map Member.tti) ind).2, ∀ m ∈ stim[k]?,
        m.sources.length < fapiDlConfigMaxPdu) ∧
      MibRoom stim (p.next (stim.map Member.tti) ind).1 inds := by
  rw [MibRoom, played, List.zip_cons_cons, List.forall_mem_cons]
  rfl

theorem player_tick (g : L2FapiGenerator) (ind : Indication) :
    g.player.tick ind = nextAbsTti g ind :=
  (ite_not ..).symm

theorem player_next (hm : stim[g.stimPtr]? = some m) :
    g.player.next (stim.map Member.tti) ind =
      if m.tti.toNat = (nextAbsTti g ind).toNat % stim.length then
        (⟨if g.stimPtr + 1 < stim.length then g.stimPtr + 1 else 0, nextAbsTti g ind⟩,
          some g.stimPtr)
      else (⟨g.stimPtr, nextAbsTti g ind⟩, none) := by
  have hget : (stim.map Member.tti)[g.player.ptr]? = some m.tti := by
    change (stim.map Member.tti)[g.stimPtr]? = _
    rw [List.getElem?_map, hm]
    rfl
  have hdue : (∃ t ∈ (stim.map Member.tti)[g.player.ptr]?,
      t.toNat = (nextAbsTti g ind).toNat % stim.length) ↔
        m.tti.toNat = (nextAbsTti g ind).toNat % stim.length := by
    rw [hget]
    simp
  rw [Player.next, player_tick, List.length_map]
  simp only [hdue]
  rfl

theorem tti_player (hg : Loaded cfg stim g) (hm : stim[g.stimPtr]? = some m)
    (h : tti g ind = some (g', outs)) :
    g'.player = (g.player.next (stim.map Member.tti) ind).1 := by
  obtain ⟨sf, item, s, t, hitem, -, -, rfl, -⟩ := tti_eq_some h
  obtain ⟨m', hm', hload⟩ := hg.member hitem
  obtain rfl := Option.some.inj (hm.symm.trans hm')
  rw [player_next hm, L2FapiGenerator.player, L2FapiGenerator.after]
  simp only [hg.due_iff hload, ← hg.items.length_eq]
  split_ifs with hplay hend hlt
  · omega
  · rfl
  · rfl
  · omega
  · rfl

theorem exists_exec_iff (hg : Loaded cfg stim g) (hptr : g.stimPtr < stim.length)
    (inds : List Indication) :
    (∃ r, Machine.exec tti g inds = some r) ↔
      (∀ ind ∈ inds, ind.subframe.toNat < 10) ∧
      (cfg.autoMib = true → MibRoom stim g.player inds) := by
  induction inds generalizing g with
  | nil =>
    refine iff_of_true ⟨_, rfl⟩ ⟨fun ind hind ↦ absurd hind (List.not_mem_nil), fun _ x hx ↦ ?_⟩
    exact absurd hx (List.not_mem_nil)
  | cons ind inds ih =>
    have hm := List.getElem?_eq_getElem hptr
    have hroom : (∀ k ∈ (g.player.next (stim.map Member.tti) ind).2, ∀ m ∈ stim[k]?,
        m.sources.length < fapiDlConfigMaxPdu) ↔
          (stim[g.stimPtr].tti.toNat = (nextAbsTti g ind).toNat % stim.length →
            stim[g.stimPtr].sources.length < fapiDlConfigMaxPdu) := by
      by_cases hdue : stim[g.stimPtr].tti.toNat = (nextAbsTti g ind).toNat % stim.length
      · rw [player_next hm, if_pos hdue, forall_prop_of_true hdue]
        simp [hm]
      · rw [player_next hm, if_neg hdue]
        simp [hdue]
    have hstep (g' : L2FapiGenerator) (os : List Sent) (h : tti g ind = some (g', os)) :
        (∃ r, Machine.exec tti g' inds = some r) ↔
          (∀ ind ∈ inds, ind.subframe.toNat < 10) ∧ (cfg.autoMib = true →
            MibRoom stim (g.player.next (stim.map Member.tti) ind).1 inds) := by
      have hg' := (tti_sent hg h).1
      have hptr' := tti_stimPtr_lt (hg.items.length_eq ▸ hptr) h
      rw [ih hg' (hg'.items.length_eq ▸ hptr'), tti_player hg hm h]
    rw [List.forall_mem_cons, mibRoom_cons, hroom]
    constructor
    · rintro ⟨r, hr⟩
      obtain ⟨g', os, os', h, hrest, -⟩ := Machine.exec_cons_some hr
      have hlt := tti_subframe_lt h
      have hmib := (exists_tti_iff ind hg hm hlt).1 ⟨_, h⟩
      obtain ⟨hlts, hmibs⟩ := (hstep g' os h).1 ⟨_, hrest⟩
      exact ⟨⟨hlt, hlts⟩, fun hauto ↦ ⟨hmib hauto, hmibs hauto⟩⟩
    · rintro ⟨⟨hlt, hlts⟩, hmib⟩
      obtain ⟨⟨g', os⟩, h⟩ := (exists_tti_iff ind hg hm hlt).2 fun hauto ↦ (hmib hauto).1
      obtain ⟨r, hr⟩ := (hstep g' os h).2 ⟨hlts, fun hauto ↦ (hmib hauto).2⟩
      exact ⟨_, by rw [Machine.exec, h, Option.bind_some, hr]; rfl⟩

/-- The parser and the TTIs follow no null pointer and stay inside the lists of the requests. -/
def Survives (cfg : Config) (stim : List Member) (inds : List Indication) : Prop :=
  ∃ items r, parseP7 cfg stim = some (items, 0) ∧
    Machine.exec tti (.start cfg items) inds = some r

theorem survives_iff (hne : stim ≠ []) :
    Survives cfg stim inds ↔
      (∀ m ∈ stim, m.Fits cfg) ∧ (∀ ind ∈ inds, ind.subframe.toNat < 10) ∧
      (cfg.autoMib = true → MibRoom stim ⟨0, 0⟩ inds) := by
  have hpos := List.length_pos_of_ne_nil hne
  have hrun {items : List StimItem} (h : parseP7 cfg stim = some (items, 0)) :
      (∃ r, Machine.exec tti (.start cfg items) inds = some r) ↔
        (∀ ind ∈ inds, ind.subframe.toNat < 10) ∧
        (cfg.autoMib = true → MibRoom stim ⟨0, 0⟩ inds) :=
    exists_exec_iff (g := .start cfg items) ⟨rfl, (parseP7_loads h).2⟩ hpos inds
  rw [← exists_parseP7_iff]
  constructor
  · rintro ⟨items, r, hparse, hr⟩
    exact ⟨⟨items, hparse⟩, (hrun hparse).1 ⟨r, hr⟩⟩
  · rintro ⟨⟨items, hparse⟩, hroom⟩
    obtain ⟨r, hr⟩ := (hrun hparse).2 hroom
    exact ⟨items, r, hparse, hr⟩

end EnbL1Ppc.Generator
