import EnbL1Ppc.Lib.Memory

namespace EnbL1Ppc.Lib.Transfers

open Memory

structure Transfer where
  src : ℕ
  dest : ℕ
  len : ℕ
  deriving DecidableEq

def Transfer.apply (t : Transfer) (mem : Mem) : Mem :=
  write mem t.dest (fun i ↦ mem (t.src + i)) t.len

theorem Transfer.read_apply (t : Transfer) (mem : Mem) :
    read (t.apply mem) t.dest t.len = read mem t.src t.len :=
  read_write_self mem t.dest _ t.len

theorem Transfer.sameOn_apply (t : Transfer) (mem : Mem) {addr len : ℕ}
    (h : Disjoint t.dest t.len addr len) : SameOn mem (t.apply mem) addr len :=
  sameOn_write _ h

theorem Transfer.word_apply {t : Transfer} (ht : t.len = 4) (mem : Mem) :
    word (t.apply mem) t.dest = word mem t.src := by
  have h := t.read_apply mem
  rw [ht] at h
  rw [word, word, h]

/-- A controller that works through descriptors in memory: what it finds at an address, a
transfer and where to go on, depends on the `width` bytes there. -/
structure Controller where
  fetch : Mem → ℕ → Transfer × Option ℕ
  width : ℕ
  reads : ∀ {mem mem' : Mem} {a : ℕ}, SameOn mem mem' a width → fetch mem' a = fetch mem a

namespace Controller

variable (k : Controller)

def step (mem : Mem) (a : ℕ) : Mem × Option ℕ :=
  ((k.fetch mem a).1.apply mem, (k.fetch mem a).2)

/-- From `c` on, the controller finds the transfers `ts` and then stops, and all their descriptors
are in the `len` bytes at `lo`. -/
def Chain (lo len : ℕ) (mem : Mem) : Option ℕ → List Transfer → Prop
  | c, [] => c = none
  | c, t :: ts => ∃ a next, c = some a ∧ lo ≤ a ∧ a + k.width ≤ lo + len ∧
      k.fetch mem a = (t, next) ∧ Chain lo len mem next ts

variable {k} {lo len : ℕ} {mem mem' : Mem} {c : Option ℕ} {t : Transfer} {ts : List Transfer}

theorem Chain.same (hm : SameOn mem mem' lo len) (h : k.Chain lo len mem c ts) :
    k.Chain lo len mem' c ts := by
  induction ts generalizing c with
  | nil => exact h
  | cons t ts ih =>
    obtain ⟨a, next, hc, hlo, hhi, hf, hrest⟩ := h
    have hsame : SameOn mem mem' a k.width := by
      intro i hi
      have hi' := hm (a - lo + i) (by omega)
      rwa [show lo + (a - lo + i) = a + i by omega] at hi'
    exact ⟨a, next, hc, hlo, hhi, (k.reads hsame).trans hf, ih hrest⟩

theorem Chain.eq_nil (h : k.Chain lo len mem none ts) : ts = [] := by
  cases ts with
  | nil => rfl
  | cons t ts =>
    obtain ⟨a, next, hc, -⟩ := h
    cases hc

theorem Chain.step {a : ℕ} (h : k.Chain lo len mem (some a) (t :: ts))
    (ht : Disjoint t.dest t.len lo len) :
    (k.step mem a).1 = t.apply mem ∧ k.Chain lo len (t.apply mem) (k.step mem a).2 ts := by
  obtain ⟨a', next, hc, -, -, hf, hrest⟩ := h
  cases hc
  rw [Controller.step, hf]
  exact ⟨rfl, hrest.same (t.sameOn_apply mem ht)⟩

/-- Where the controller is when the transfers left are those at `base`. -/
def start (base : ℕ) (ts : List Transfer) : Option ℕ :=
  if ts = [] then none else some base

theorem chain_of_table {base : ℕ} (hlo : lo ≤ base) (hhi : base + k.width * ts.length ≤ lo + len)
    (h : ∀ j t, ts[j]? = some t → k.fetch mem (base + k.width * j) =
      (t, if j + 1 = ts.length then none else some (base + k.width * (j + 1)))) :
    k.Chain lo len mem (start base ts) ts := by
  induction ts generalizing base with
  | nil => rfl
  | cons t ts ih =>
    rw [List.length_cons, Nat.mul_succ] at hhi
    refine ⟨base, start (base + k.width) ts, rfl, hlo, by omega, ?_, ih (by omega) (by omega) ?_⟩
    · have h0 := h 0 t rfl
      rw [Nat.mul_zero, Nat.add_zero, Nat.zero_add, Nat.mul_one] at h0
      rw [h0, start]
      congr 1
      cases ts <;> simp
    · intro j t' hj
      have hstep := h (j + 1) t' hj
      rw [List.length_cons] at hstep
      rw [show base + k.width + k.width * j = base + k.width * (j + 1) by ring, hstep]
      congr 1
      simp only [Nat.add_right_cancel_iff]
      split_ifs
      · rfl
      · rw [show base + k.width * (j + 1 + 1) = base + k.width + k.width * (j + 1) by ring]

end Controller

/-- Pieces of memory, given by address and length, copied one behind the other to `dest`. -/
def gather (dest : ℕ) : List (ℕ × ℕ) → List Transfer
  | [] => []
  | p :: ps => ⟨p.1, dest, p.2⟩ :: gather (dest + p.2) ps

def contents (mem : Mem) (ps : List (ℕ × ℕ)) : List UInt8 :=
  ps.flatMap fun p ↦ read mem p.1 p.2

@[simp] theorem length_contents (mem : Mem) (ps : List (ℕ × ℕ)) :
    (contents mem ps).length = (ps.map Prod.snd).sum := by
  simp [contents, List.length_flatMap]

theorem contents_congr {mem mem' : Mem} {ps : List (ℕ × ℕ)}
    (h : ∀ p ∈ ps, SameOn mem mem' p.1 p.2) : contents mem' ps = contents mem ps :=
  List.flatMap_congr fun p hp ↦ (h p hp).read_start le_rfl

theorem read_apply_append {mem : Mem} {dest n : ℕ} {t : Transfer} (ht : t.dest = dest + n) :
    read (t.apply mem) dest (n + t.len) = read mem dest n ++ read mem t.src t.len := by
  have hold : SameOn mem (t.apply mem) dest n := t.sameOn_apply mem (.inr (by omega))
  rw [read_add, hold.read_start le_rfl, ← ht, t.read_apply]

end EnbL1Ppc.Lib.Transfers
