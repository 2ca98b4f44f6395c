import LittleBuddy.Norflash.Ranges
/-!
# Free buffers

`norflash_api_get_free_buffer_count` subtracts the pending operations of one
type from the number of nodes. The nodes are shared by both types, and a write
needs a data buffer besides, of which there are fewer. So a free count says
nothing about the next call: what decides is which nodes and buffers are left,
and whether the call needs one.
-/
open NorMem LinkedPool Runs

namespace Norflash

variable {W : Nat}

/-- The asynchronous calls that queue an operation. -/
inductive QueueOp where
  | erase (start_addr len : Nat)
  | write (start_addr len : Nat) (buffer : Nat → UInt8)

/-- The type that the counting functions are asked for. -/
def QueueOp.type : QueueOp → CountType
  | .erase _ _ => .erasing
  | .write _ _ _ => .writting

def QueueOp.call (op : QueueOp) (m : ModId) (s : ApiInfo W) : Option Ret :=
  match op with
  | .erase start_addr len => (Entry.erase true []).call m.val start_addr len s
  | .write start_addr len buffer => (Entry.write buffer true []).call m.val start_addr len s

/-! ## What a call needs -/

/-- A list node is left. -/
def NodeFree (p : Pool W) : Prop := ∃ i, (p.opera_info_list i).is_used = false

/-- A data buffer is left. -/
def BuffFree (p : Pool W) : Prop := ∃ b, (p.data_list b).is_used = false

/-- The nodes that a walk along the module's list meets, newest first. -/
def reachedSlots (s : ApiInfo W) (m : ModId) : List (Slot W) :=
  visited s.pool.next (walkFuel W) (s.mod_info m).opera_info

/-- The newest operation of the sector that is an erase or a write not yet started. -/
def newestOpen (s : ApiInfo W) (m : ModId) (sec : Nat) : Option (Slot W) :=
  (reachedSlots s m).find? fun i => (s.pool.view i).target sec

/-- The erase needs no node of its own: it drops a pending operation of its
address, whose node it can take, or joins an erase that has been started. -/
def Reuses (s : ApiInfo W) (m : ModId) (addr : Nat) : Prop :=
  ∃ i ∈ reachedSlots s m, (s.pool.node i).addr = addr ∧
    ((s.pool.node i).lock = false ∨ (s.pool.node i).type = .erasing)

/-- The write needs no node of its own: it goes into a pending write. -/
def Merges (s : ApiInfo W) (m : ModId) (sec : Nat) : Prop :=
  ∃ i, newestOpen s m sec = some i ∧ (s.pool.node i).type = .writting

/-- What a call takes is there, or the call does not come back: its walk has no
end, or its module's sectors are no buffers. -/
def QueueOp.Room (op : QueueOp) (m : ModId) (s : ApiInfo W) : Prop :=
  match op with
  | .erase start_addr _ => NodeFree s.pool ∨ Reuses s m start_addr ∨ pendingSlots s m = none
  | .write start_addr _ _ =>
    (NodeFree s.pool ∧ (BuffFree s.pool ∨ (s.mod_info m).mod_sector_len ≠ sectorSize)) ∨
      Merges s m (sectorOf (s.mod_info m) start_addr) ∨
        (newestOpen s m (sectorOf (s.mod_info m) start_addr) = none ∧ pendingSlots s m = none)

/-! ## Erases -/

theorem setNext_used {p p' : Pool W} {pre tmp : Option (Slot W)} (h : p.setNext pre tmp = some p') (j : Slot W) :
    (p'.opera_info_list j).is_used = (p.opera_info_list j).is_used := by
  obtain ⟨i, -, rfl⟩ := Option.map_eq_some_iff.1 h
  exact Pool.used_setNode p i j _

theorem freeOpra_used (p : Pool W) (i j : Slot W) :
    ((p.freeOpra i).opera_info_list j).is_used = ((p.opera_info_list j).is_used && decide (j ≠ i)) := by
  have := (dropped_freeOpra p i []).used j
  simpa using this

/-- A node the deletion loop passes by. -/
def PassedBy (addr : Nat) (p : Pool W) (i : Slot W) : Prop :=
  (p.node i).addr = addr → (p.node i).lock = true ∧ (p.node i).type = .writting

/-- What the deletion loop does at one node: it drops it, ends at it, or passes by. -/
theorem eOperaAddLoop_cases {addr fuel : Nat} {head pre : Option (Slot W)} {p : Pool W} {i : Slot W}
    {r : Bool × Option (Slot W) × Pool W} (h : eOperaAddLoop addr (fuel + 1) head p pre (some i) = some r) :
    (∃ (head₁ : Option (Slot W)) (p₁ : Pool W) (pre₁ : Option (Slot W)), (∀ j, (p₁.opera_info_list j).is_used = (p.opera_info_list j).is_used) ∧
      eOperaAddLoop addr fuel head₁ (p₁.freeOpra i) pre₁ (p.next i) = some r) ∨
    r = (true, head, p) ∨
    (PassedBy addr p i ∧ ∃ pre₁, eOperaAddLoop addr fuel head p pre₁ (p.next i) = some r) := by
  rw [eOperaAddLoop] at h
  split at h
  · rename_i ha
    split at h
    · by_cases hhead : head = some i
      · simp only [if_pos hhead, Option.bind_eq_bind, Option.bind_some] at h
        exact .inl ⟨_, _, _, fun _ => rfl, h⟩
      · simp only [if_neg hhead] at h
        obtain ⟨⟨head₁, p₁⟩, hun, h⟩ := Option.bind_eq_some_iff.1 h
        obtain ⟨p₂, hset, he⟩ := Option.map_eq_some_iff.1 hun
        cases he
        exact .inl ⟨_, _, _, setNext_used hset, h⟩
    · rename_i hlk
      split at h
      · cases h
        exact .inr (.inl rfl)
      · rename_i ht
        refine .inr (.inr ⟨fun _ => ⟨by simpa using hlk, ?_⟩, _, h⟩)
        cases hty : (p.node i).type with
        | writting => rfl
        | erasing => exact absurd hty ht
  · rename_i ha
    exact .inr (.inr ⟨fun he => absurd he ha, _, h⟩)

/-- The deletion loop takes no node. -/
theorem eOperaAddLoop_used {addr : Nat} {fuel : Nat} {head head' pre cur : Option (Slot W)} {p p' : Pool W} {b : Bool}
    (h : eOperaAddLoop addr fuel head p pre cur = some (b, head', p')) (j : Slot W)
    (hj : (p'.opera_info_list j).is_used = true) : (p.opera_info_list j).is_used = true := by
  induction fuel generalizing head p pre cur with
  | zero =>
    cases cur with
    | none =>
      cases h
      exact hj
    | some i => cases h
  | succ fuel ih =>
    cases cur with
    | none =>
      cases h
      exact hj
    | some i =>
      rcases eOperaAddLoop_cases h with ⟨head₁, p₁, pre₁, hp₁, h⟩ | he | ⟨-, pre₁, h⟩
      · have := ih h
        rw [freeOpra_used, Bool.and_eq_true, hp₁] at this
        exact this.1
      · cases he
        exact hj
      · exact ih h

theorem eOperaAddLoop_passed {addr : Nat} {fuel : Nat} {head pre cur : Option (Slot W)} {p : Pool W}
    {l : List (Slot W)} (hl : collect p.next fuel cur = some l) (h : ∀ i ∈ l, PassedBy addr p i) :
    eOperaAddLoop addr fuel head p pre cur = some (false, head, p) := by
  induction fuel generalizing pre cur l with
  | zero =>
    cases cur with
    | none => rfl
    | some i => cases hl
  | succ fuel ih =>
    cases cur with
    | none => rfl
    | some i =>
      obtain ⟨l', hl', rfl⟩ := Option.map_eq_some_iff.1 hl
      have hi := h i (by simp)
      have hrest : eOperaAddLoop addr fuel head p (if (p.next i).isSome then some i else pre) (p.next i) =
          some (false, head, p) := ih hl' fun j hj => h j (by simp [hj])
      rw [eOperaAddLoop]
      simp only [hrest]
      split
      · rename_i ha
        obtain ⟨hlk, ht⟩ := hi ha
        simp [hlk, ht]
      · rfl

/-- The deletion loop leaves no node free exactly when none was free and it has
passed by all nodes of a list that ends. -/
theorem eOperaAddLoop_full {addr : Nat} {fuel : Nat} {head head' pre cur : Option (Slot W)} {p p' : Pool W}
    (h : eOperaAddLoop addr fuel head p pre cur = some (false, head', p'))
    (hfull : ∀ i, (p'.opera_info_list i).is_used = true) :
    ∃ l, collect p.next fuel cur = some l ∧ ∀ i ∈ l, PassedBy addr p i := by
  induction fuel generalizing head p pre cur with
  | zero =>
    cases cur with
    | none => exact ⟨[], rfl, by simp⟩
    | some i => cases h
  | succ fuel ih =>
    cases cur with
    | none => exact ⟨[], rfl, by simp⟩
    | some i =>
      rcases eOperaAddLoop_cases h with ⟨head₁, p₁, pre₁, -, h⟩ | he | ⟨hi, pre₁, h⟩
      · -- the node that was freed would still be free
        have := eOperaAddLoop_used h i (hfull i)
        simp [freeOpra_used] at this
      · cases he
      · obtain ⟨l, hl, hall⟩ := ih h
        exact ⟨i :: l, by rw [collect, hl]; rfl, List.forall_mem_cons.2 ⟨hi, hall⟩⟩

theorem eOperaAdd_full_iff (mi : ModuleInfo W) (addr len : Nat) (p : Pool W) :
    (∃ r mi' p', eOperaAdd mi addr len p = some (r, mi', p') ∧ r ≠ 0) ↔
      ¬ NodeFree p ∧ ∃ l, collect p.next (walkFuel W) mi.opera_info = some l ∧ ∀ i ∈ l, PassedBy addr p i := by
  have hnone : ∀ p : Pool W, (∀ i, (p.opera_info_list i).is_used = true) ↔ ¬ NodeFree p := by
    intro p
    simp [NodeFree]
  constructor
  · rintro ⟨r, mi', p', hrun, hr⟩
    unfold eOperaAdd at hrun
    obtain ⟨⟨merged, head₁, p₁⟩, hloop, hrun⟩ := Option.bind_eq_some_iff.1 hrun
    simp only at hrun
    split at hrun
    · cases hrun
      exact absurd rfl hr
    · rename_i hmg
      have hmg : merged = false := by simpa using hmg
      subst hmg
      split at hrun
      · rename_i hm
        obtain ⟨-, hfull⟩ := Pool.mallocNode_none hm
        exact ⟨(hnone p).1 fun i => eOperaAddLoop_used hloop i (hfull i), eOperaAddLoop_full hloop hfull⟩
      · cases hrun
        exact absurd rfl hr
  · rintro ⟨hfull, l, hl, hpass⟩
    refine ⟨1, { mi with opera_info := mi.opera_info }, p, ?_, by decide⟩
    unfold eOperaAdd
    rw [eOperaAddLoop_passed hl hpass]
    rcases hm : p.mallocNode with ⟨_ | i, p₁⟩
    · obtain ⟨rfl, -⟩ := Pool.mallocNode_none hm
      simp [hm]
    · exact absurd ⟨i, (Pool.mallocNode_some hm).1⟩ hfull

/-! ## Writes -/

theorem wOperaNew_full_iff (mi : ModuleInfo W) (sec offs len : Nat) (buff init : Nat → UInt8) (p : Pool W) :
    (∃ r mi' p', wOperaNew mi sec offs len buff init p = some (r, mi', p') ∧ r ≠ 0) ↔
      ¬ (NodeFree p ∧ (BuffFree p ∨ mi.mod_sector_len ≠ sectorSize)) := by
  unfold wOperaNew
  rcases hm : p.mallocNode with ⟨_ | i, p₁⟩
  · obtain ⟨rfl, hfull⟩ := Pool.mallocNode_none hm
    have hno : ¬ NodeFree p₁ := fun ⟨i, hi⟩ => by rw [hfull i] at hi; cases hi
    simp [hno]
  · obtain ⟨hi, rfl⟩ := Pool.mallocNode_some hm
    have hnode : NodeFree p := ⟨i, hi⟩
    rcases hb : (p.useNode i true).mallocBuff mi.mod_sector_len with _ | ⟨_ | b, p₂⟩
    · -- a size that is not the sector's trips the assertion
      have hsec : mi.mod_sector_len ≠ sectorSize := by
        intro hsec
        unfold Pool.mallocBuff at hb
        rw [if_pos hsec] at hb
        split at hb <;> cases hb
      simp only [Option.bind_eq_bind, hb, Option.bind_none]
      simp [hnode, hsec]
    · have hno : ¬ BuffFree p ∧ mi.mod_sector_len = sectorSize := by
        unfold Pool.mallocBuff at hb
        split at hb
        · rename_i hsec
          split at hb
          · simp at hb
          · rename_i hn
            refine ⟨fun ⟨b, hbf⟩ => ?_, hsec⟩
            have := List.find?_eq_none.1 hn b (List.mem_finRange b)
            simp [hbf] at this
        · cases hb
      simp only [Option.bind_eq_bind, hb, Option.bind_some]
      simp [hno]
    · obtain ⟨hsec, hbf, -⟩ := Pool.mallocBuff_some hb
      have hbuff : BuffFree p := ⟨b, hbf⟩
      simp only [Option.bind_eq_bind, hb, Option.bind_some, hnode, hbuff, true_or, and_self, not_true, iff_false]
      rintro ⟨r, mi', p', hrun, hr⟩
      split at hrun
      · cases hrun
      · cases hrun
        exact hr rfl

theorem wOperaAdd_full_iff (s : ApiInfo W) (m : ModId) (addr len : Nat) (buff : Nat → UInt8) :
    (∃ r mi' p', wOperaAdd (s.mod_info m) addr len buff s.pool s.hal.flash = some (r, mi', p') ∧ r ≠ 0) ↔
      ¬ (QueueOp.write addr len buff).Room m s := by
  unfold wOperaAdd QueueOp.Room Merges
  simp only [wOperaFind_eq, sectorOf]
  generalize addr / (s.mod_info m).mod_sector_len * (s.mod_info m).mod_sector_len = sec
  have hopen : (visited s.pool.next (walkFuel W) (s.mod_info m).opera_info).find? (fun i => (s.pool.view i).target sec) =
      newestOpen s m sec := rfl
  rw [hopen]
  cases hn : newestOpen s m sec with
  | none =>
    have hcl : collect s.pool.next (walkFuel W) (s.mod_info m).opera_info = pendingSlots s m := rfl
    rw [hcl]
    cases pendingSlots s m with
    | none => simp
    | some l =>
      simp only [Option.elim_none, Option.map_some, Option.bind_eq_bind, Option.bind_some, wOperaNew_full_iff,
        reduceCtorEq, false_and, exists_false, and_false, or_false]
  | some i =>
    cases ht : (s.pool.node i).type with
    | erasing =>
      simp only [Option.elim_some, ht, reduceCtorEq, if_false, Option.bind_eq_bind, Option.bind_some,
        wOperaNew_full_iff]
      simp [ht]
    | writting =>
      simp only [Option.elim_some, ht, if_true, Option.bind_eq_bind, Option.bind_some]
      refine iff_of_false ?_ (by simp [ht])
      rintro ⟨r, mi', p', hrun, hr⟩
      obtain ⟨b, -, hrun⟩ := Option.bind_eq_some_iff.1 hrun
      split at hrun
      · cases hrun
      · cases hrun
        exact hr rfl

/-! ## Calls -/

theorem erase_room_iff (s : ApiInfo W) (m : ModId) (addr len : Nat) :
    (QueueOp.erase addr len).Room m s ↔ ¬ (¬ NodeFree s.pool ∧
      ∃ l, collect s.pool.next (walkFuel W) (s.mod_info m).opera_info = some l ∧ ∀ i ∈ l, PassedBy addr s.pool i) := by
  have hlist : ∀ l, collect s.pool.next (walkFuel W) (s.mod_info m).opera_info = some l → reachedSlots s m = l :=
    fun l hl => visited_of_collect hl
  unfold QueueOp.Room Reuses pendingSlots
  cases hc : collect s.pool.next (walkFuel W) (s.mod_info m).opera_info with
  | none => simp
  | some l =>
    rw [hlist l hc]
    have hpass : (∀ i ∈ l, PassedBy addr s.pool i) ↔
        ¬ ∃ i ∈ l, (s.pool.node i).addr = addr ∧ ((s.pool.node i).lock = false ∨ (s.pool.node i).type = .erasing) := by
      simp only [PassedBy, not_exists, not_and, not_or, Bool.not_eq_false]
      refine forall_congr' fun i => imp_congr_right fun _ => imp_congr_right fun _ => and_congr_right fun _ => ?_
      cases (s.pool.node i).type <;> simp
    simp only [Option.some.injEq, exists_eq_left', hpass, reduceCtorEq, or_false]
    rw [not_and_or, not_not, not_not]

/-- Behind the checks a call returns `BUFFER_FULL` exactly when it has no room. -/
theorem QueueOp.full_iff {s : ApiInfo W} {m : ModId} (op : QueueOp) (hs : s.is_inited = true)
    (hm : (s.mod_info m).is_inited = true) (hacc : Accepts (op.call m s)) :
    op.call m s = some .bufferFull ↔ ¬ op.Room m s := by
  cases op with
  | erase addr len =>
    obtain ⟨hr, ha, hl⟩ := (Entry.accepts_iff hs hm (.erase true []) addr len).1 hacc
    rw [erase_room_iff, not_not, ← eOperaAdd_full_iff (s.mod_info m) addr len s.pool]
    simp only [QueueOp.call, Entry.call, norflashApiErase, hs, hm, m.isLt, Fin.eta, hr, ha, dif_pos, Bool.not_true,
      Bool.false_eq_true, if_false, if_true, show ¬ (len ≠ (s.mod_info m).mod_sector_len ∧
        len ≠ (s.mod_info m).mod_block_len) by tauto]
    cases heop : eOperaAdd (s.mod_info m) addr len s.pool with
    | none => simp
    | some t => simp [Prod.ext_iff]
  | write addr len buffer =>
    obtain ⟨hr, hl⟩ := (Entry.accepts_iff hs hm (.write buffer true []) addr len).1 hacc
    rw [← wOperaAdd_full_iff]
    have hl : len ≠ 0 := hl
    simp only [QueueOp.call, Entry.call, norflashApiWrite, hs, hm, m.isLt, m.isLt.le.not_gt, Fin.eta, hr, dif_pos,
      Bool.not_true, Bool.false_eq_true, if_false, if_true, hl]
    cases hwop : wOperaAdd (s.mod_info m) addr len buffer s.pool s.hal.flash with
    | none => simp
    | some t => simp [Prod.ext_iff]

/-- With a positive free count, the next accepted call of the type is queued
exactly when it has room; the count does not enter. -/
theorem free_count_queues_iff (s : ApiInfo W) (m : ModId) (op : QueueOp) (n : Nat) (hs : s.is_inited = true)
    (hm : (s.mod_info m).is_inited = true) (_hcount : norflashApiGetFreeBufferCount op.type s = some n) (_hpos : 0 < n)
    (hacc : Accepts (op.call m s)) : op.call m s ≠ some .bufferFull ↔ op.Room m s := by
  rw [Ne, op.full_iff hs hm hacc, not_not]

theorem free_count_queues_example : (QueueOp.erase 0x3C001000 0x1000).call 0 (oneModule 1 0x3C000000) ≠ some .bufferFull :=
  (free_count_queues_iff (oneModule 1 0x3C000000) 0 (.erase 0x3C001000 0x1000) 6 rfl rfl (by decide +kernel) (by decide)
    (by simp [Accepts, show (QueueOp.erase 0x3C001000 0x1000).call 0 (oneModule 1 0x3C000000) = some .ok by decide +kernel,
      Ret.refused])).2 (.inl ⟨0, rfl⟩)

/-- With one data buffer and one pending write, five of the six nodes count as
free for writes, and the write of another sector is turned down. -/
theorem free_count_full : ¬ ∀ (W : Nat) (flash : Mem) (s : Sys W) (evs : List Event),
    Run step (fun _ _ => True) (· = initial W flash) s evs → ∀ (m : ModId) (op : QueueOp) (n : Nat),
      norflashApiGetFreeBufferCount op.type s.api = some n → 0 < n → op.call m s.api ≠ some .bufferFull := by
  intro hclaim
  obtain ⟨s, hr, hg⟩ := run_of_check 1 (fun _ _ => True) (fun _ => 0)
    [.register (eightSectors 0 0x3C000000), .write 0 0x3C000000 [1]]
    (fun s => decide (norflashApiGetFreeBufferCount .writting s.api = some 5 ∧
      (QueueOp.write 0x3C001000 1 fun _ => 2).call 0 s.api = some .bufferFull)) (by decide +kernel)
  obtain ⟨hcount, hfull⟩ := of_decide_eq_true hg
  exact hclaim 1 _ s _ hr 0 (.write 0x3C001000 1 fun _ => 2) 5 hcount (by decide) hfull

end Norflash
