import LittleBuddy.Lib.NorQueue
import LittleBuddy.Norflash.Model
import Mathlib.Tactic.Common
/-!
# The queue without pointers

An abstract model of the deferred queue: for each module a plain list of
pending operations, newest first, and the flash. `QInv` relates it to the
memory that direct execution would have produced. `Lists.lean` and `Flush.lean`
show that the code does to its linked lists what the functions here do.
-/
open NorMem

namespace Norflash

/-- A pending operation of a module. -/
structure QNode where
  addr : Nat
  len : Nat
  lock : Bool
  op : SecOp

namespace QNode

def isWrite (n : QNode) : Bool :=
  match n.op with
  | .erase => false
  | .program .. => true

/-- The operation stays in its sector. -/
def Fits (n : QNode) : Prop :=
  n.addr % sectorSize = 0 ∧
    match n.op with
    | .erase => n.len = sectorSize
    | .program offs len _ => offs + len ≤ sectorSize

/-- An erase of `addr` may drop this operation. -/
def removable (addr : Nat) (n : QNode) : Bool := decide (n.addr = addr) && !n.lock

/-- A locked erase of `addr`, which takes in another one. -/
def mergesErase (addr : Nat) (n : QNode) : Bool := decide (n.addr = addr) && n.lock && !n.isWrite

/-- What a write to the sector `sec` looks for: an erase, or a write it may still change. -/
def target (sec : Nat) (n : QNode) : Bool := decide (n.addr = sec) && !(n.isWrite && n.lock)

/-- The flash after the whole operation. -/
def run (n : QNode) (flash : Mem) : Mem :=
  match n.op with
  | .erase => NorMem.erase flash n.addr n.len
  | .program offs len bytes => NorMem.program flash (n.addr + offs) len fun j => bytes (offs + j)

/-- The flash after an operation that stopped half-way. -/
def stop (n : QNode) (mid flash : Mem) : Mem :=
  match n.op with
  | .erase => erasePart flash n.addr n.len mid
  | .program offs len bytes => programPart flash (n.addr + offs) len (fun j => bytes (offs + j)) mid

/-- Merges a write into a pending one. -/
def merge (offs len : Nat) (data : Nat → UInt8) (n : QNode) : QNode :=
  match n.op with
  | .erase => n
  | .program o l bytes => { n with op := .widen o l bytes offs len data }

end QNode

/-- Applies `f` to the first element that satisfies `t`. -/
def replaceFirst {α : Type} (t : α → Bool) (f : α → α) : List α → List α
  | [] => []
  | a :: l => if t a then f a :: l else a :: replaceFirst t f l

/-- Queueing an erase. -/
def enqErase (addr len : Nat) (q : List QNode) : List QNode :=
  let kept := q.filter fun n => !n.removable addr
  if q.any (·.mergesErase addr) then kept else ⟨addr, len, false, .erase⟩ :: kept

/-- Queueing a write of `len` bytes at offset `offs` of the sector `sec`. -/
def enqWrite (sec offs len : Nat) (data : Nat → UInt8) (flash : Mem) (q : List QNode) : List QNode :=
  match q.find? (·.target sec) with
  | some n =>
    if n.isWrite then replaceFirst (·.target sec) (·.merge offs len data) q
    else ⟨sec, sectorSize, false, .program offs len (memcpy (fun _ => 0xff) offs data len)⟩ :: q
  | none => ⟨sec, sectorSize, false, .program offs len (memcpy (fun j => flash (sec + j)) offs data len)⟩ :: q

/-- The pending operations of one sector. -/
def secOps (s : Nat) (q : List QNode) : List SecOp := (q.filter fun n => decide (n.addr = s)).map (·.op)

/-- Whether the newest operation of the sector is a write that has been started. -/
def newestStarted (sec : Nat) (q : List QNode) : Bool :=
  match q.find? fun n => decide (n.addr = sec) with
  | some n => n.isWrite && n.lock
  | none => false

/-- Only the oldest operation can be locked. -/
def LockLast (q : List QNode) : Prop := ∀ q₁ n q₂, q = q₁ ++ n :: q₂ → n.lock = true → q₂ = []

/-! ## Lists -/

theorem QNode.removable_iff {addr : Nat} {n : QNode} : n.removable addr = true ↔ n.addr = addr ∧ n.lock = false := by
  simp [QNode.removable]

theorem QNode.mergesErase_iff {addr : Nat} {n : QNode} :
    n.mergesErase addr = true ↔ n.addr = addr ∧ n.lock = true ∧ n.isWrite = false := by
  simp [QNode.mergesErase, and_assoc]

theorem QNode.target_iff {sec : Nat} {n : QNode} :
    n.target sec = true ↔ n.addr = sec ∧ (n.isWrite = true → n.lock = false) := by
  cases h : n.isWrite <;> simp [QNode.target, h]

@[simp] theorem secOps_nil (s : Nat) : secOps s [] = [] := rfl

theorem secOps_cons (s : Nat) (n : QNode) (q : List QNode) :
    secOps s (n :: q) = if n.addr = s then n.op :: secOps s q else secOps s q := by
  by_cases h : n.addr = s <;> simp [secOps, h]

theorem secOps_append (s : Nat) (q q' : List QNode) : secOps s (q ++ q') = secOps s q ++ secOps s q' := by
  simp [secOps]

theorem secOps_eq_nil {s : Nat} {q : List QNode} : secOps s q = [] ↔ ∀ n ∈ q, n.addr ≠ s := by
  simp [secOps]

theorem secOps_of_newest {s : Nat} {q : List QNode} {n : QNode} (h : (q.find? fun n => decide (n.addr = s)) = some n) :
    ∃ older, secOps s q = n.op :: older := by
  obtain ⟨ha, q₁, q₂, rfl, h₁⟩ := List.find?_eq_some_iff_append.1 h
  have h₁' : secOps s q₁ = [] := secOps_eq_nil.2 fun a hm => by simpa using h₁ a hm
  exact ⟨secOps s q₂, by rw [secOps_append, h₁', secOps_cons, if_pos (by simpa using ha)]; rfl⟩

theorem replaceFirst_append {α : Type} {t : α → Bool} {f : α → α} {l₁ : List α} {a : α} {l₂ : List α}
    (h₁ : ∀ b ∈ l₁, t b = false) (ha : t a = true) : replaceFirst t f (l₁ ++ a :: l₂) = l₁ ++ f a :: l₂ := by
  induction l₁ with
  | nil => simp [replaceFirst, ha]
  | cons b l₁ ih => simp [replaceFirst, h₁ b (by simp), ih fun c hc => h₁ c (by simp [hc])]

theorem LockLast.tail {n : QNode} {q : List QNode} (h : LockLast (n :: q)) : LockLast q :=
  fun q₁ n' q₂ he => h (n :: q₁) n' q₂ (by rw [he]; rfl)

theorem LockLast.cons {n : QNode} {q : List QNode} (h : LockLast q) (hn : n.lock = false) : LockLast (n :: q) := by
  intro q₁ n' q₂ he hl
  cases q₁ with
  | nil =>
    simp only [List.nil_append, List.cons.injEq] at he
    rw [← he.1, hn] at hl
    cases hl
  | cons a q₁ =>
    simp only [List.cons_append, List.cons.injEq] at he
    exact h q₁ n' q₂ he.2 hl

theorem LockLast.filter {q : List QNode} (h : LockLast q) (f : QNode → Bool) : LockLast (q.filter f) := by
  induction q with
  | nil => exact h
  | cons n q ih =>
    by_cases hf : f n = true
    · rw [List.filter_cons_of_pos hf]
      by_cases hl : n.lock = true
      · have hq : q = [] := h [] n q rfl hl
        rw [hq]
        intro q₁ n' q₂ he _
        cases q₁ with
        | nil => exact (List.cons.inj he).2.symm
        | cons a q₁ => simp at he
      · exact (ih h.tail).cons (by simpa using hl)
    · rw [List.filter_cons_of_neg hf]
      exact ih h.tail

/-- What the search of a write tells about the operations of the sector. -/
theorem secOps_of_find {sec : Nat} {q : List QNode} (hl : LockLast q) {n : QNode}
    (h : q.find? (·.target sec) = some n) :
    ∃ q₁ q₂, q = q₁ ++ n :: q₂ ∧ (∀ a ∈ q₁, QNode.target sec a = false) ∧ n.target sec = true ∧ secOps sec q₁ = [] ∧
      secOps sec q = n.op :: secOps sec q₂ := by
  obtain ⟨hn, q₁, q₂, he, h₁⟩ := List.find?_eq_some_iff_append.1 h
  have h₁' : ∀ a ∈ q₁, QNode.target sec a = false := fun a ha => by simpa using h₁ a ha
  -- an operation of the sector before `n` would be a locked write, but those are last
  have hsec : secOps sec q₁ = [] := by
    rw [secOps_eq_nil]
    intro a ha haddr
    have ht := h₁' a ha
    obtain ⟨a₁, a₂, rfl⟩ := List.append_of_mem ha
    have hlock : a.lock = true := by
      simp only [QNode.target, haddr, decide_true, Bool.true_and, Bool.not_eq_false', Bool.and_eq_true] at ht
      exact ht.2
    have := hl a₁ a (a₂ ++ n :: q₂) (by simp [he]) hlock
    simp at this
  have haddr : n.addr = sec := (QNode.target_iff.1 hn).1
  exact ⟨q₁, q₂, he, h₁', hn, hsec, by rw [he, secOps_append, hsec, secOps_cons, if_pos haddr]; rfl⟩

theorem secOps_of_find_none {sec : Nat} {q : List QNode} (hl : LockLast q) (h : q.find? (·.target sec) = none) :
    secOps sec q = [] ∨ ∃ offs len bytes, secOps sec q = [.program offs len bytes] := by
  induction q with
  | nil => exact .inl rfl
  | cons n q ih =>
    have hn : QNode.target sec n = false := by simpa using (List.find?_eq_none.1 h) n (by simp)
    rw [secOps_cons]
    by_cases ha : n.addr = sec
    · have hw : n.isWrite = true ∧ n.lock = true := by
        simpa [QNode.target, ha] using hn
      have hq : q = [] := hl [] n q rfl hw.2
      rw [if_pos ha, hq, secOps_nil]
      cases hop : n.op with
      | erase => simp [QNode.isWrite, hop] at hw
      | program offs len bytes => exact .inr ⟨offs, len, bytes, rfl⟩
    · rw [if_neg ha]
      exact ih hl.tail (List.find?_eq_none.2 fun a hm => List.find?_eq_none.1 h a (by simp [hm]))

/-! ## What queueing does to each sector -/

theorem secOps_filter_other {s addr : Nat} (hs : s ≠ addr) (q : List QNode) :
    secOps s (q.filter fun n => !n.removable addr) = secOps s q := by
  induction q with
  | nil => rfl
  | cons n q ih =>
    by_cases ha : n.addr = s
    · have : n.removable addr = false := by simp [QNode.removable, ha, hs]
      simp [secOps_cons, this, ih]
    · by_cases hr : n.removable addr = true <;> simp [secOps_cons, hr, ih, ha]

theorem enqErase_other {s addr : Nat} (hs : s ≠ addr) (len : Nat) (q : List QNode) :
    secOps s (enqErase addr len q) = secOps s q := by
  unfold enqErase
  split
  · exact secOps_filter_other hs q
  · rw [secOps_cons, if_neg hs.symm]
    exact secOps_filter_other hs q

/-- After a queued erase the newest operation of the sector is an erase, over
what was locked. -/
theorem enqErase_self (addr : Nat) {q : List QNode} (hl : LockLast q) (len : Nat) :
    ∃ gone older, secOps addr (enqErase addr len q) = .erase :: older ∧ secOps addr q = gone ++ older := by
  have key : ∃ gone, secOps addr q = gone ++ secOps addr (q.filter fun n => !n.removable addr) ∧
      (q.any (·.mergesErase addr) = true → secOps addr (q.filter fun n => !n.removable addr) = [.erase]) := by
    induction q with
    | nil => exact ⟨[], rfl, by simp⟩
    | cons n q ih =>
      obtain ⟨gone, hg, hm⟩ := ih hl.tail
      by_cases hk : n.lock = true
      · have hq : q = [] := hl [] n q rfl hk
        subst hq
        refine ⟨[], by simp [QNode.removable, hk], fun hany => ?_⟩
        simp only [List.any_cons, List.any_nil, Bool.or_false, QNode.mergesErase, hk, Bool.and_true,
          Bool.and_eq_true, decide_eq_true_eq, QNode.isWrite] at hany
        cases hop : n.op with
        | erase => simp [QNode.removable, hk, secOps_cons, hany.1, hop]
        | program => simp [hop] at hany
      · have hk : n.lock = false := by simpa using hk
        have hnm : n.mergesErase addr = false := by simp [QNode.mergesErase, hk]
        simp only [List.any_cons, hnm, Bool.false_or]
        by_cases ha : n.addr = addr
        · refine ⟨n.op :: gone, ?_, ?_⟩
          · simp [secOps_cons, QNode.removable, ha, hk, hg]
          · simpa [QNode.removable, ha, hk] using hm
        · refine ⟨gone, ?_, ?_⟩
          · simp [secOps_cons, QNode.removable, ha, hg]
          · simpa [secOps_cons, QNode.removable, ha] using hm
  obtain ⟨gone, hg, hm⟩ := key
  unfold enqErase
  split
  · rename_i h
    rw [hm h] at hg
    exact ⟨gone ++ [.erase], [], by rw [hm h], by simpa using hg⟩
  · exact ⟨gone, _, by rw [secOps_cons, if_pos rfl], hg⟩

theorem enqErase_lock {addr : Nat} {q : List QNode} (hl : LockLast q) (len : Nat) : LockLast (enqErase addr len q) := by
  unfold enqErase
  split
  · exact hl.filter _
  · exact (hl.filter _).cons rfl

theorem enqErase_mem {addr len : Nat} {q : List QNode} {n : QNode} (h : n ∈ enqErase addr len q) :
    n ∈ q ∨ n = ⟨addr, len, false, .erase⟩ := by
  unfold enqErase at h
  split at h
  · exact .inl (List.mem_filter.1 h).1
  · rcases List.mem_cons.1 h with h | h
    · exact .inr h
    · exact .inl (List.mem_filter.1 h).1

/-- The three ways a write is queued. -/
inductive WriteCase (sec offs len : Nat) (data : Nat → UInt8) (flash : Mem) (q : List QNode) : List QNode → Prop
  /-- Merged into a pending write. -/
  | merged {q₁ q₂ : List QNode} {n : QNode} {o l : Nat} {bytes : Nat → UInt8} :
    q = q₁ ++ n :: q₂ → secOps sec q₁ = [] → n.addr = sec → n.lock = false → n.op = .program o l bytes →
    WriteCase sec offs len data flash q (q₁ ++ { n with op := .widen o l bytes offs len data } :: q₂)
  /-- A new write over a pending erase. -/
  | over_erase {older : List SecOp} : secOps sec q = .erase :: older →
    WriteCase sec offs len data flash q
      (⟨sec, sectorSize, false, .program offs len (memcpy (fun _ => 0xff) offs data len)⟩ :: q)
  /-- A new write over the flash, where at most a write already started is pending. -/
  | over_flash : (secOps sec q = [] ∨ ∃ o l bytes, secOps sec q = [.program o l bytes]) →
    (∀ n ∈ q, n.addr = sec → n.isWrite = true ∧ n.lock = true) →
    WriteCase sec offs len data flash q
      (⟨sec, sectorSize, false, .program offs len (memcpy (fun j => flash (sec + j)) offs data len)⟩ :: q)

theorem enqWrite_cases (sec offs len : Nat) (data : Nat → UInt8) (flash : Mem) {q : List QNode} (hl : LockLast q) :
    WriteCase sec offs len data flash q (enqWrite sec offs len data flash q) := by
  unfold enqWrite
  split
  · rename_i n hn
    obtain ⟨q₁, q₂, he, h₁, ht, hsec, hops⟩ := secOps_of_find hl hn
    obtain ⟨haddr, hfree⟩ := QNode.target_iff.1 ht
    split
    · rename_i hw
      cases hop : n.op with
      | erase => simp [QNode.isWrite, hop] at hw
      | program o l bytes =>
        rw [he, replaceFirst_append h₁ ht, QNode.merge, hop]
        exact .merged rfl hsec haddr (hfree hw) hop
    · rename_i hw
      cases hop : n.op with
      | erase =>
        rw [hop] at hops
        exact .over_erase hops
      | program => simp [QNode.isWrite, hop] at hw
  · rename_i hn
    refine .over_flash (secOps_of_find_none hl hn) fun n hm ha => ?_
    have := List.find?_eq_none.1 hn n hm
    simpa [QNode.target, ha] using this

theorem WriteCase.other {sec offs len : Nat} {data : Nat → UInt8} {flash : Mem} {q q' : List QNode}
    (h : WriteCase sec offs len data flash q q') {s : Nat} (hs : s ≠ sec) : secOps s q' = secOps s q := by
  cases h with
  | merged he _ ha _ _ => simp [he, secOps_append, secOps_cons, ha, hs.symm]
  | over_erase => rw [secOps_cons, if_neg hs.symm]
  | over_flash _ _ => rw [secOps_cons, if_neg hs.symm]

theorem WriteCase.pending {sec offs len : Nat} {data : Nat → UInt8} {flash : Mem} {q q' : List QNode}
    (h : WriteCase sec offs len data flash q q') : secOps sec q' ≠ [] := by
  cases h with
  | merged he _ ha _ _ => simp [secOps_append, secOps_cons, ha]
  | over_erase => simp [secOps_cons]
  | over_flash => simp [secOps_cons]

theorem WriteCase.lockLast {sec offs len : Nat} {data : Nat → UInt8} {flash : Mem} {q q' : List QNode}
    (h : WriteCase sec offs len data flash q q') (hl : LockLast q) : LockLast q' := by
  cases h with
  | @merged q₁ q₂ n o l bytes he _ _ hfree _ =>
    subst he
    clear * - hl hfree
    induction q₁ with
    | nil => exact hl.tail.cons hfree
    | cons a q₁ ih =>
      by_cases ha : a.lock = true
      · have := hl [] a (q₁ ++ n :: q₂) rfl ha
        simp at this
      · exact (ih hl.tail).cons (by simpa using ha)
  | over_erase => exact hl.cons rfl
  | over_flash => exact hl.cons rfl

theorem WriteCase.fits {sec offs len : Nat} {data : Nat → UInt8} {flash : Mem} {q q' : List QNode}
    (h : WriteCase sec offs len data flash q q') (hs : sec % sectorSize = 0) (hlen : offs + len ≤ sectorSize)
    (hf : ∀ n ∈ q, n.Fits) : ∀ n ∈ q', n.Fits := by
  cases h with
  | @merged q₁ q₂ n o l bytes he _ ha _ hop =>
    subst he
    have hn : n.Fits := hf n (by simp)
    unfold QNode.Fits at hn
    rw [hop] at hn
    intro n' hn'
    rcases List.mem_append.1 hn' with h | h
    · exact hf n' (by simp [h])
    · rcases List.mem_cons.1 h with rfl | h
      · refine ⟨hn.1, ?_⟩
        simp only [SecOp.widen, hullStart, hullEnd]
        have := hn.2
        split <;> split <;> omega
      · exact hf n' (by simp [h])
  | over_erase => exact List.forall_mem_cons.2 ⟨⟨hs, hlen⟩, hf⟩
  | over_flash => exact List.forall_mem_cons.2 ⟨⟨hs, hlen⟩, hf⟩

end Norflash
