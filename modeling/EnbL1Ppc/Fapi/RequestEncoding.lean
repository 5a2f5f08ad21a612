import EnbL1Ppc.Fapi.RequestReader

namespace EnbL1Ppc.Fapi.Requests

open Lib Lib.Memory Lib.Stores SendBuffers

/-! Words and lists of structures -/

theorem length_flatMap_bigEndian (ws : List (BitVec 32)) :
    (ws.flatMap bigEndian).length = 4 * ws.length := by
  induction ws with
  | nil => rfl
  | cons w ws ih => rw [List.flatMap_cons, List.length_append, ih, length_bigEndian,
      List.length_cons]; omega

theorem readWord_of_flatMap {mem : Mem} {a : ℕ} (ws : List (BitVec 32))
    (h : read mem a (4 * ws.length) = ws.flatMap bigEndian) {i : ℕ} (hi : i < ws.length) :
    readWord mem (a + 4 * i) = ws[i] := by
  induction ws generalizing a i with
  | nil => exact absurd hi (Nat.not_lt_zero _)
  | cons w ws ih =>
    rw [List.length_cons, Nat.mul_succ, Nat.add_comm, read_add, List.flatMap_cons] at h
    obtain ⟨hw, hws⟩ := List.append_inj h (by simp)
    cases i with
    | zero => rw [Nat.mul_zero, Nat.add_zero, readWord, hw, ofBigEndian_bigEndian]; rfl
    | succ i =>
      have := ih hws (i := i) (by simpa using hi)
      rwa [show a + 4 * (i + 1) = a + 4 + 4 * i by omega]

theorem readWords_of_flatMap {n : ℕ} {mem : Mem} {a : ℕ} {x : Words n}
    (h : read mem a (4 * n) = (List.ofFn x).flatMap bigEndian) : readWords n mem a = x := by
  funext i
  rw [readWords, readWord_of_flatMap (List.ofFn x) (by simpa using h) (by simp)]
  simp

theorem length_encodeList {n : ℕ} (xs : List (Words n)) :
    (encodeList xs).length = 4 * n * xs.length := by
  induction xs with
  | nil => rfl
  | cons x xs ih =>
    rw [encodeList, List.flatMap_cons, List.length_append, ← encodeList, ih,
      length_flatMap_bigEndian, List.length_ofFn, List.length_cons, Nat.mul_succ, Nat.add_comm]

theorem readList_encodeList {n : ℕ} {mem : Mem} {a : ℕ} {xs : List (Words n)}
    (h : read mem a (encodeList xs).length = encodeList xs) :
    readList n mem a xs.length = xs := by
  induction xs generalizing a with
  | nil => rfl
  | cons x xs ih =>
    rw [length_encodeList, List.length_cons, Nat.mul_succ, Nat.add_comm, read_add, encodeList,
      List.flatMap_cons, ← encodeList] at h
    obtain ⟨hx, hxs⟩ := List.append_inj h
      (by rw [length_read, length_flatMap_bigEndian, List.length_ofFn])
    rw [← length_encodeList] at hxs
    rw [List.length_cons, readList, List.range_succ_eq_map, List.map_cons, List.map_map]
    refine List.cons_eq_cons.2 ⟨readWords_of_flatMap (by simpa using hx), ?_⟩
    refine Eq.trans (List.map_congr_left fun i _ ↦ ?_) (ih hxs)
    rw [Function.comp_apply, Nat.succ_eq_add_one, Nat.mul_succ, Nat.add_assoc, Nat.add_comm (4 * n)]

theorem length_entries {α : Type} {k : ℕ} {n : BitVec 32} (a : Fin k → α) (h : n.toNat ≤ k) :
    (entries n a).length = n.toNat := by
  simpa [entries] using h

variable {mem : Mem} {msg : ℕ} {sts : List Store}

theorem readWord_of_holds (h : Holds mem msg sts) {o : ℕ} {w : BitVec 32}
    (hw : (o, bigEndian w) ∈ sts) : readWord mem (msg + o) = w := by
  have := h _ hw
  rw [length_bigEndian] at this
  rw [readWord, this, ofBigEndian_bigEndian]

theorem readList_of_holds {n len : ℕ} (h : Holds mem msg sts) {o : ℕ} {xs : List (Words n)}
    (hxs : (o, encodeList xs) ∈ sts) (hlen : xs.length = len) :
    readList n mem (msg + o) len = xs := by
  subst hlen
  exact readList_encodeList (h _ hxs)

/-! The call -/

theorem holds_built (L : Layout) (b : Buffer) {q : SendBuffers.Request} (h : Apart q.body)
    (snap : Mem) : Holds (built L b q snap) (L.base b + 16) q.body := by
  rw [← holds_shift, built, Request.image, List.take_length, Request.stores]
  change Holds (run (L.base b) (_ ++ shift 16 q.body ++ _) snap) _ _
  rw [run, List.foldl_append, List.foldl_append]
  refine (holds_run (h.shift 16) _ _).run ?_
  rw [Set.disjoint_left]
  intro x hx
  have hx := (mem_span_shift.1 hx).1
  simp only [span_cons, span_nil, footprint, length_bigEndian, Set.union_empty, Set.mem_union,
    Set.mem_Ico]
  omega

variable {r : DlConfigRequest} {u : UlConfigRequest}

theorem apart_ulConfig (u : UlConfigRequest) : Apart (fapiP7UlConfigRequest u).body := by
  simp only [fapiP7UlConfigRequest, apart_cons, span_cons, span_nil, footprint, length_bigEndian,
    Set.union_empty, Set.disjoint_union_right, Set.Ico_disjoint_Ico, apart_nil, and_true,
    Set.disjoint_empty]
  omega

theorem apart_dlConfig (h : r.WithinCapacity) : Apart (fapiP7DlConfigRequest r).body := by
  have hdci := length_encodeList r.dcis
  rw [DlConfigRequest.dcis, length_entries _ h.dci] at hdci
  simp only [fapiP7DlConfigRequest, apart_cons, span_cons, span_nil, footprint, length_bigEndian,
    Set.union_empty, Set.disjoint_union_right, Set.Ico_disjoint_Ico, apart_nil, and_true,
    Set.disjoint_empty, DlConfigRequest.dcis, hdci]
  omega

theorem apart_hiDci0 (h : r.WithinCapacity) : Apart (fapiP7HiDci0Request r).body := by
  have hdci := length_encodeList r.dci0s
  rw [DlConfigRequest.dci0s, length_entries _ h.dci0] at hdci
  simp only [fapiP7HiDci0Request, apart_cons, span_cons, span_nil, footprint, length_bigEndian,
    Set.union_empty, Set.disjoint_union_right, Set.Ico_disjoint_Ico, apart_nil, and_true,
    Set.disjoint_empty, DlConfigRequest.dci0s, hdci]
  omega

theorem readDlConfig_eq (h : r.WithinCapacity)
    (hm : Holds mem msg (fapiP7DlConfigRequest r).body) : readDlConfig mem msg = r.dlConfigView := by
  have hdci : readWord mem (msg + 20) = r.numberDci :=
    readWord_of_holds hm (by simp [fapiP7DlConfigRequest])
  have hpdu : readWord mem (msg + 24) = r.numberPdu :=
    readWord_of_holds hm (by simp [fapiP7DlConfigRequest])
  simp only [readDlConfig, DlConfigRequest.dlConfigView, DlConfigView.mk.injEq, hdci, hpdu,
    true_and]
  refine ⟨?_, ?_, ?_, ?_, ?_⟩
  · exact readWord_of_holds hm (by simp [fapiP7DlConfigRequest])
  · exact readWord_of_holds hm (by simp [fapiP7DlConfigRequest])
  · exact readWord_of_holds hm (by simp [fapiP7DlConfigRequest])
  · exact readList_of_holds hm (by simp [fapiP7DlConfigRequest]) (length_entries _ h.dci)
  · rw [Nat.add_assoc]
    exact readList_of_holds hm (by simp [fapiP7DlConfigRequest]) (length_entries _ h.pdu)

theorem readUlConfig_eq (h : u.numberPdu.toNat ≤ fapiUlConfigMaxPdu)
    (hm : Holds mem msg (fapiP7UlConfigRequest u).body) : readUlConfig mem msg = u.view := by
  have hpdu : readWord mem (msg + 16) = u.numberPdu :=
    readWord_of_holds hm (by simp [fapiP7UlConfigRequest])
  simp only [readUlConfig, UlConfigRequest.view, UlConfigView.mk.injEq, hpdu, true_and]
  refine ⟨?_, ?_, ?_, ?_⟩
  · exact readWord_of_holds hm (by simp [fapiP7UlConfigRequest])
  · exact readWord_of_holds hm (by simp [fapiP7UlConfigRequest])
  · exact readWord_of_holds hm (by simp [fapiP7UlConfigRequest])
  · exact readList_of_holds hm (by simp [fapiP7UlConfigRequest]) (length_entries _ h)

theorem readHiDci0_eq (h : r.WithinCapacity)
    (hm : Holds mem msg (fapiP7HiDci0Request r).body) : readHiDci0 mem msg = r.hiDci0View := by
  have hdci : readWord mem (msg + 16) = r.numberDci0 :=
    readWord_of_holds hm (by simp [fapiP7HiDci0Request])
  have hhi : readWord mem (msg + 20) = r.numberHi :=
    readWord_of_holds hm (by simp [fapiP7HiDci0Request])
  simp only [readHiDci0, DlConfigRequest.hiDci0View, HiDci0View.mk.injEq, hdci, hhi, true_and]
  refine ⟨?_, ?_, ?_⟩
  · exact readWord_of_holds hm (by simp [fapiP7HiDci0Request])
  · exact readList_of_holds hm (by simp [fapiP7HiDci0Request]) (length_entries _ h.dci0)
  · rw [Nat.add_assoc]
    exact readList_of_holds hm (by simp [fapiP7HiDci0Request]) (length_entries _ h.hi)

end EnbL1Ppc.Fapi.Requests
