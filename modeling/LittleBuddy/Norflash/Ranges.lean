import LittleBuddy.Norflash.Theorems
/-!
# Ranges and buffer indexes

The four entry points check a call's range against the module's in 32-bit
arithmetic, and nothing checks it against the sector. The first half says
which ranges get past the check, the second which indexes of a data buffer the
calls then use.
-/
open NorMem LinkedPool Runs

namespace Norflash

variable {W : Nat}

/-! ## The range check -/

/-- The entry points that take a range of addresses, with their other arguments. -/
inductive Entry where
  | read
  | syncRead
  | erase (async : Bool) (script : List FlushEnv)
  | write (buffer : Nat → UInt8) (async : Bool) (script : List FlushEnv)

/-- What a call returns; `none` when it does not return. -/
def Entry.call (e : Entry) (mod_id start_addr len : Nat) (s : ApiInfo W) : Option Ret :=
  match e with
  | .read => (norflashApiRead mod_id start_addr len s).map (·.1)
  | .syncRead => some (norflashSyncRead mod_id start_addr len s).1
  | .erase async script => (norflashApiErase mod_id start_addr len async script s).map (·.1)
  | .write buffer async script => (norflashApiWrite mod_id start_addr buffer len async script s).map (·.1)

/-- A check of the entry point has turned the call down. -/
def Ret.refused (r : Ret) : Bool := r ∈ [.errUninit, .badModId, .badAddr, .badLen]

/-- The call gets past the checks of the entry point. -/
def Accepts (r : Option Ret) : Prop := ∀ c ∈ r, c.refused = false

/-- The checks of an entry point besides the one of the range. -/
def Entry.lenOk (e : Entry) (mi : ModuleInfo W) (start_addr len : Nat) : Prop :=
  match e with
  | .erase _ _ => apiIsAlign start_addr mi.mod_sector_len = true ∧ (len = mi.mod_sector_len ∨ len = mi.mod_block_len)
  | _ => len ≠ 0

/-- The range lies inside the module's. -/
def Within (mi : ModuleInfo W) (start_addr len : Nat) : Prop :=
  mi.mod_base_addr ≤ start_addr ∧ start_addr + len ≤ mi.mod_base_addr + mi.mod_len

/-- The range starts in or behind the module's, runs over the end of the 32-bit
addresses and ends, taken modulo `2 ^ 32`, before the module does. -/
def WrapsBelow (mi : ModuleInfo W) (start_addr len : Nat) : Prop :=
  mi.mod_base_addr ≤ start_addr ∧ mi.mod_base_addr + mi.mod_len < 2 ^ 32 ∧ 2 ^ 32 ≤ start_addr + len ∧
    start_addr + len ≤ 2 ^ 32 + (mi.mod_base_addr + mi.mod_len)

theorem syncResult_refused (r : HalRet) : (syncResult r).refused = false := by
  cases r <;> rfl

theorem queueResult_refused (r : Int) : (if r = 0 then Ret.ok else .bufferFull).refused = false := by
  split <;> rfl

section Checks
variable {s : ApiInfo W} {m : ModId} (hs : s.is_inited = true) (hm : (s.mod_info m).is_inited = true)
include hs hm

theorem norflashApiRead_accepts (start_addr len : Nat) :
    Accepts ((norflashApiRead m.val start_addr len s).map (·.1)) ↔
      outOfRange (s.mod_info m) start_addr len = false ∧ len ≠ 0 := by
  unfold norflashApiRead
  simp only [hs, Bool.not_true, Bool.false_eq_true, if_false, m.isLt, dif_pos, Fin.eta, hm]
  split
  · simp_all [Accepts, Ret.refused]
  split
  · simp_all [Accepts, Ret.refused]
  · cases operaRead (s.mod_info m) start_addr s.pool s.hal.flash <;> simp_all [Accepts, Ret.refused]

theorem norflashSyncRead_accepts (start_addr len : Nat) :
    Accepts (some (norflashSyncRead m.val start_addr len s).1) ↔
      outOfRange (s.mod_info m) start_addr len = false ∧ len ≠ 0 := by
  unfold norflashSyncRead
  simp only [hs, Bool.not_true, Bool.false_eq_true, if_false, m.isLt, dif_pos, Fin.eta, hm]
  split
  · simp_all [Accepts, Ret.refused]
  split <;> simp_all [Accepts, Ret.refused]

theorem norflashApiErase_accepts (start_addr len : Nat) (async : Bool) (script : List FlushEnv) :
    Accepts ((norflashApiErase m.val start_addr len async script s).map (·.1)) ↔
      outOfRange (s.mod_info m) start_addr len = false ∧ apiIsAlign start_addr (s.mod_info m).mod_sector_len = true ∧
        (len = (s.mod_info m).mod_sector_len ∨ len = (s.mod_info m).mod_block_len) := by
  unfold norflashApiErase
  simp only [hs, Bool.not_true, Bool.false_eq_true, if_false, m.isLt, dif_pos, Fin.eta, hm]
  split
  · simp_all [Accepts, Ret.refused]
  split
  · simp_all [Accepts, Ret.refused]
  split
  · simp_all [Accepts, Ret.refused]
  rename_i hr ha hl
  refine iff_of_true ?_ ⟨by simpa using hr, by simpa using ha, by tauto⟩
  -- Behind the checks the call queues, or drains and executes; it refuses nothing any more.
  intro c hc
  obtain ⟨⟨r, sc, s'⟩, hrun, rfl⟩ := Option.map_eq_some_iff.1 hc
  split at hrun
  · obtain ⟨⟨r₁, mi, p⟩, -, hrun⟩ := Option.bind_eq_some_iff.1 hrun
    cases hrun
    exact queueResult_refused r₁
  · obtain ⟨⟨sc₁, s₁⟩, -, hrun⟩ := Option.bind_eq_some_iff.1 hrun
    cases hrun
    exact syncResult_refused _

theorem norflashApiWrite_accepts (start_addr len : Nat) (buffer : Nat → UInt8) (async : Bool) (script : List FlushEnv) :
    Accepts ((norflashApiWrite m.val start_addr buffer len async script s).map (·.1)) ↔
      outOfRange (s.mod_info m) start_addr len = false ∧ len ≠ 0 := by
  unfold norflashApiWrite
  simp only [hs, Bool.not_true, Bool.false_eq_true, if_false, m.isLt, m.isLt.le.not_gt, dif_pos, Fin.eta, hm]
  split
  · simp_all [Accepts, Ret.refused]
  split
  · simp_all [Accepts, Ret.refused]
  rename_i hr hl
  refine iff_of_true ?_ ⟨by simpa using hr, hl⟩
  intro c hc
  obtain ⟨⟨r, sc, s'⟩, hrun, rfl⟩ := Option.map_eq_some_iff.1 hc
  split at hrun
  · obtain ⟨⟨r₁, mi, p⟩, -, hrun⟩ := Option.bind_eq_some_iff.1 hrun
    cases hrun
    exact queueResult_refused r₁
  · obtain ⟨⟨sc₁, s₁⟩, -, hrun⟩ := Option.bind_eq_some_iff.1 hrun
    cases hrun
    exact syncResult_refused _

/-- What the checks of a registered module's entry points let through. -/
theorem Entry.accepts_iff (e : Entry) (start_addr len : Nat) :
    Accepts (e.call m.val start_addr len s) ↔
      outOfRange (s.mod_info m) start_addr len = false ∧ e.lenOk (s.mod_info m) start_addr len := by
  cases e with
  | read => exact norflashApiRead_accepts hs hm start_addr len
  | syncRead => exact norflashSyncRead_accepts hs hm start_addr len
  | erase async script => exact norflashApiErase_accepts hs hm start_addr len async script
  | write buffer async script => exact norflashApiWrite_accepts hs hm start_addr len buffer async script

end Checks

/-- Of 32-bit values the check lets through the ranges inside the module's, and
those that wrap below its end. -/
theorem outOfRange_iff {mi : ModuleInfo W} {start_addr len : Nat} (hbase : mi.mod_base_addr < 2 ^ 32)
    (hmod : mi.mod_len < 2 ^ 32) (hstart : start_addr < 2 ^ 32) (hlen : len < 2 ^ 32)
    (hr : outOfRange mi start_addr len = false) : Within mi start_addr len ∨ WrapsBelow mi start_addr len := by
  simp only [outOfRange, Bool.or_eq_false_iff, decide_eq_false_iff_not, not_lt] at hr
  unfold Within WrapsBelow
  omega

/-- A call that an entry point of a registered module accepts stays inside the
module, unless its range wraps below the module's end and passes the checks
the entry point makes besides. -/
theorem accepted_within_iff (s : ApiInfo W) (m : ModId) (hs : s.is_inited = true)
    (hm : (s.mod_info m).is_inited = true) (hbase : (s.mod_info m).mod_base_addr < 2 ^ 32)
    (hmod : (s.mod_info m).mod_len < 2 ^ 32) (e : Entry) (start_addr len : Nat) (hstart : start_addr < 2 ^ 32)
    (hlen : len < 2 ^ 32) :
    (Accepts (e.call m.val start_addr len s) → Within (s.mod_info m) start_addr len) ↔
      ¬ (WrapsBelow (s.mod_info m) start_addr len ∧ e.lenOk (s.mod_info m) start_addr len) := by
  rw [e.accepts_iff hs hm]
  constructor
  · rintro h ⟨hw, hok⟩
    obtain ⟨hb, he, hs, hse⟩ := hw
    have hin : outOfRange (s.mod_info m) start_addr len = false := by
      simp only [outOfRange, Bool.or_eq_false_iff, decide_eq_false_iff_not, not_lt]
      omega
    have := (h ⟨hin, hok⟩).2
    omega
  · rintro h ⟨hr, hok⟩
    exact (outOfRange_iff hbase hmod hstart hlen hr).resolve_right fun hw => h ⟨hw, hok⟩

/-- The state after registering a module of eight sectors. -/
def oneModule (W : Nat) (base : Nat) : ApiInfo W :=
  (norflashApiRegister (eightSectors 0 base) (norflashApiInit (powerOn W fun _ => 0xff))).2

theorem accepted_within_example : Within ((oneModule 1 0x3C000000).mod_info 0) 0x3C007000 0x1000 := by
  have hok : Entry.read.call 0 0x3C007000 0x1000 (oneModule 1 0x3C000000) = some .ok := by decide +kernel
  refine (accepted_within_iff (oneModule 1 0x3C000000) 0 rfl rfl (by decide +kernel) (by decide +kernel) .read 0x3C007000
    0x1000 (by decide) (by decide)).2 ?_ (by simp [Accepts, hok, Ret.refused])
  rintro ⟨⟨-, -, h, -⟩, -⟩
  revert h
  decide

/-- The erase of the last sector below `2 ^ 32` is accepted for a module that
ends at `0x3C008000`. -/
theorem accepted_outside : ¬ ∀ (W : Nat) (flash : Mem) (s : Sys W) (evs : List Event),
    Run step (fun _ _ => True) (· = initial W flash) s evs →
      ∀ m, (s.api.mod_info m).is_inited = true → (s.api.mod_info m).mod_base_addr < 2 ^ 32 →
        (s.api.mod_info m).mod_len < 2 ^ 32 → ∀ (e : Entry) (start_addr len : Nat), start_addr < 2 ^ 32 →
          len < 2 ^ 32 → Accepts (e.call m.val start_addr len s.api) → Within (s.api.mod_info m) start_addr len := by
  intro hclaim
  obtain ⟨s, hr, hg⟩ := run_of_check 1 (fun _ _ => True) (fun _ => 0)
    [.register (eightSectors 0 0x3C000000)]
    (fun s => decide ((s.api.mod_info 0).is_inited = true ∧ (s.api.mod_info 0).mod_base_addr = 0x3C000000 ∧
      (s.api.mod_info 0).mod_len = 0x8000 ∧
      (norflashApiErase 0 0xFFFFF000 0x1000 true [] s.api).map (·.1) = some .ok)) (by decide +kernel)
  obtain ⟨hin, hb, hl, hok⟩ := of_decide_eq_true hg
  have hacc : Accepts ((Entry.erase true []).call 0 0xFFFFF000 0x1000 s.api) := by
    simp [Accepts, Entry.call, hok, Ret.refused]
  have := (hclaim 1 _ s _ hr 0 hin (by rw [hb]; decide) (by rw [hl]; decide) _ _ _ (by decide) (by decide) hacc).2
  rw [hb, hl] at this
  omega

/-! ## The indexes of a data buffer -/

/-- The bytes of a data buffer that one `memcpy` or `memset` touches. -/
structure BuffSpan where
  offs : Nat
  len : Nat
  deriving DecidableEq

/-- The bytes are bytes of the buffer. -/
def BuffSpan.Inside (c : BuffSpan) : Prop := c.offs + c.len ≤ sectorSize

instance (c : BuffSpan) : Decidable c.Inside := inferInstanceAs (Decidable (_ ≤ _))

/-- What the part of `_w_opera_add` that queues a new node touches of its data buffer. -/
def wOperaNewSpans (mi : ModuleInfo W) (w_offs w_len : Nat) (p : Pool W) : Option (List BuffSpan) :=
  match p.mallocNode with
  | (none, _) => some []
  | (some _, p) => do
    let (b, _) ← p.mallocBuff mi.mod_sector_len
    some (if b.isSome then [⟨0, mi.mod_sector_len⟩, ⟨w_offs, w_len⟩] else [])

/-- What `_w_opera_add` touches of the data buffer of the node it merges into or queues. -/
def wOperaSpans (mi : ModuleInfo W) (addr len : Nat) (p : Pool W) : Option (List BuffSpan) := do
  let sec_len := mi.mod_sector_len
  let sec_start := addr / sec_len * sec_len
  let w_offs := addr - sec_start
  let found ← wOperaFind sec_start p mi.opera_info
  match found with
  | .inl (.w_node _) => some [⟨w_offs, len⟩]
  | _ => wOperaNewSpans mi w_offs len p

/-- What `_opera_read` touches of the data buffer of the node it reads. -/
def operaReadSpans (mi : ModuleInfo W) (addr len : Nat) (p : Pool W) : Option (List BuffSpan) := do
  let sec_start := addr / mi.mod_sector_len * mi.mod_sector_len
  let r ← walk p.next
    (fun (_ : Unit) i _ => if (p.node i).addr = sec_start then .inl i else .inr ()) (walkFuel W) () mi.opera_info
  match r with
  | .inl i =>
    match (p.node i).type with
    | .writting => some [⟨addr - sec_start, len⟩]
    | .erasing => some []
  | .inr _ => some []

/-- The calls that copy into or out of a data buffer: an asynchronous write and a read. -/
inductive Transfer where
  | write
  | read

/-- The spans of a call for the module `m`: none unless the checks of the entry
point let it through, and none for a write that returns `BUFFER_FULL` or a read
that no write node serves. -/
def Transfer.spans (t : Transfer) (m : ModId) (start_addr len : Nat) (s : ApiInfo W) : Option (List BuffSpan) :=
  let mi := s.mod_info m
  if !s.is_inited || !mi.is_inited || outOfRange mi start_addr len || len == 0 then some []
  else match t with
    | .write => wOperaSpans mi start_addr len s.pool
    | .read => operaReadSpans mi start_addr len s.pool

theorem sectorOffset_eq (mi : ModuleInfo W) (addr : Nat) :
    addr - addr / mi.mod_sector_len * mi.mod_sector_len = addr % mi.mod_sector_len := by
  have := Nat.div_add_mod' addr mi.mod_sector_len
  omega

/-- A write touches the bytes it carries, and a whole buffer when that is new. -/
theorem wOperaSpans_cases {mi : ModuleInfo W} {addr len : Nat} {p : Pool W} {cs : List BuffSpan}
    (h : wOperaSpans mi addr len p = some cs) :
    cs = [] ∨ cs = [⟨addr % mi.mod_sector_len, len⟩] ∨
      mi.mod_sector_len = sectorSize ∧ cs = [⟨0, sectorSize⟩, ⟨addr % mi.mod_sector_len, len⟩] := by
  unfold wOperaSpans at h
  simp only [sectorOffset_eq] at h
  obtain ⟨found, -, h⟩ := Option.bind_eq_some_iff.1 h
  split at h
  · cases h
    exact .inr (.inl rfl)
  · unfold wOperaNewSpans at h
    split at h
    · cases h
      exact .inl rfl
    · obtain ⟨⟨b, p'⟩, hb, h⟩ := Option.bind_eq_some_iff.1 h
      cases b with
      | none =>
        cases h
        exact .inl rfl
      | some b =>
        cases h
        obtain ⟨hsec, -⟩ := Pool.mallocBuff_some hb
        exact .inr (.inr ⟨hsec, by simp [hsec]⟩)

theorem operaReadSpans_cases {mi : ModuleInfo W} {addr len : Nat} {p : Pool W} {cs : List BuffSpan}
    (h : operaReadSpans mi addr len p = some cs) : cs = [] ∨ cs = [⟨addr % mi.mod_sector_len, len⟩] := by
  unfold operaReadSpans at h
  simp only [sectorOffset_eq] at h
  obtain ⟨r, -, h⟩ := Option.bind_eq_some_iff.1 h
  split at h
  · split at h
    · cases h
      exact .inr rfl
    · cases h
      exact .inl rfl
  · cases h
    exact .inl rfl

/-- A transfer that touches a data buffer stays inside the buffer exactly when
its range ends in the sector it starts in. -/
theorem spans_inside_iff (t : Transfer) (m : ModId) (start_addr len : Nat) (s : ApiInfo W) (cs : List BuffSpan)
    (h : t.spans m start_addr len s = some cs) (hserved : cs ≠ []) :
    (∀ c ∈ cs, c.Inside) ↔ start_addr % (s.mod_info m).mod_sector_len + len ≤ sectorSize := by
  unfold Transfer.spans at h
  simp only at h
  split at h
  · cases h
    exact absurd rfl hserved
  · cases t with
    | write =>
      rcases wOperaSpans_cases h with rfl | rfl | ⟨-, rfl⟩
      · exact absurd rfl hserved
      · simp [BuffSpan.Inside]
      · simp [BuffSpan.Inside]
    | read =>
      rcases operaReadSpans_cases h with rfl | rfl
      · exact absurd rfl hserved
      · simp [BuffSpan.Inside]

/-! ### The spans are those of the calls -/

theorem wOperaNew_spans {mi mi' : ModuleInfo W} {sec offs len : Nat} {buff init : Nat → UInt8} {p p' : Pool W} {r : Int}
    (hrun : wOperaNew mi sec offs len buff init p = some (r, mi', p')) :
    ∃ cs, wOperaNewSpans mi offs len p = some cs ∧ (∀ c ∈ cs, c.Inside) ∧ (r = 0 ↔ cs ≠ []) := by
  unfold wOperaNew at hrun
  unfold wOperaNewSpans
  rcases hm : p.mallocNode with ⟨_ | i, p₁⟩
  · rw [hm] at hrun
    cases hrun
    exact ⟨[], rfl, by simp, by simp⟩
  · rw [hm] at hrun
    obtain ⟨⟨b, p₂⟩, hb, hrun⟩ := Option.bind_eq_some_iff.1 hrun
    simp only [hb, Option.bind_eq_bind, Option.bind_some]
    cases b with
    | none =>
      cases hrun
      exact ⟨[], rfl, by simp, by simp⟩
    | some b =>
      have hsec := (Pool.mallocBuff_some hb).1
      simp only at hrun
      split at hrun
      · cases hrun
      · rename_i hfit
        cases hrun
        exact ⟨_, rfl, by simpa [BuffSpan.Inside, hsec] using hfit, by simp⟩

/-- `_w_opera_add` returns only when it has stayed inside, and returns 0 exactly
when it has touched a buffer. -/
theorem wOperaAdd_spans {mi mi' : ModuleInfo W} {addr len : Nat} {buff : Nat → UInt8} {p p' : Pool W} {flash : Mem}
    {r : Int} (hrun : wOperaAdd mi addr len buff p flash = some (r, mi', p')) :
    ∃ cs, wOperaSpans mi addr len p = some cs ∧ (∀ c ∈ cs, c.Inside) ∧ (r = 0 ↔ cs ≠ []) := by
  unfold wOperaAdd at hrun
  unfold wOperaSpans
  obtain ⟨found, hf, hrun⟩ := Option.bind_eq_some_iff.1 hrun
  simp only [hf, Option.bind_eq_bind, Option.bind_some]
  match found with
  | .inl (.w_node i) =>
    obtain ⟨b, -, hrun⟩ := Option.bind_eq_some_iff.1 hrun
    simp only at hrun
    split at hrun
    · cases hrun
    · rename_i hfit
      cases hrun
      exact ⟨_, rfl, by simpa [BuffSpan.Inside] using hfit, by simp⟩
  | .inl (.e_node _) => exact wOperaNew_spans hrun
  | .inr _ => exact wOperaNew_spans hrun

/-- An asynchronous write that returns has stayed inside, and returns OK exactly
when it has touched a buffer. -/
theorem norflashApiWrite_spans {m : ModId} {start_addr len : Nat} {buffer : Nat → UInt8} {script script' : List FlushEnv}
    {s s' : ApiInfo W} {r : Ret} (hrun : norflashApiWrite m.val start_addr buffer len true script s = some (r, script', s')) :
    ∃ cs, Transfer.write.spans m start_addr len s = some cs ∧ (∀ c ∈ cs, c.Inside) ∧ (r = .ok ↔ cs ≠ []) := by
  unfold norflashApiWrite at hrun
  unfold Transfer.spans
  simp only [m.isLt, m.isLt.le.not_gt, if_false, dif_pos, Fin.eta, if_true] at hrun
  split at hrun
  · rename_i hs
    cases hrun
    exact ⟨[], by simp_all, by simp, by simp⟩
  split at hrun
  · cases hrun
    exact ⟨[], by simp_all, by simp, by simp⟩
  split at hrun
  · cases hrun
    exact ⟨[], by simp_all, by simp, by simp⟩
  split at hrun
  · cases hrun
    exact ⟨[], by simp_all, by simp, by simp⟩
  obtain ⟨⟨r₁, mi, p⟩, hadd, hrun⟩ := Option.bind_eq_some_iff.1 hrun
  obtain ⟨cs, hcs, hin, hr⟩ := wOperaAdd_spans hadd
  cases hrun
  refine ⟨cs, by simp_all, hin, ?_⟩
  rw [← hr]
  split <;> simp_all

/-- A read returns the bytes its spans name. -/
theorem operaRead_spans {mi : ModuleInfo W} {addr len : Nat} {p : Pool W} {flash : Mem} {bytes : Nat → UInt8}
    {c : BuffSpan} {cs : List BuffSpan} (hrun : operaRead mi addr p flash = some bytes)
    (h : operaReadSpans mi addr len p = some (c :: cs)) :
    ∃ b : Buf W, ∀ j, bytes j = (p.data_list b).buffer (c.offs + j) := by
  unfold operaRead at hrun
  unfold operaReadSpans at h
  obtain ⟨r, hr, hrun⟩ := Option.bind_eq_some_iff.1 hrun
  simp only [hr, Option.bind_eq_bind, Option.bind_some] at h
  match r with
  | .inl i =>
    simp only at hrun h
    cases ht : (p.node i).type with
    | writting =>
      rw [ht] at hrun h
      obtain ⟨b, -, hrun⟩ := Option.bind_eq_some_iff.1 hrun
      cases hrun
      cases h
      exact ⟨b, fun _ => rfl⟩
    | erasing =>
      rw [ht] at h
      cases h
  | .inr _ => cases h

/-! ### Reads and writes over the end of a sector -/

theorem spans_inside_example : BuffSpan.Inside ⟨0xF00, 0x100⟩ :=
  (spans_inside_iff .write 0 0x3C000F00 0x100 (oneModule 1 0x3C000000) [⟨0, sectorSize⟩, ⟨0xF00, 0x100⟩]
    (by decide +kernel) (by simp)).2 (by decide +kernel) _ (by simp)

/-- A read of two sectors' bytes whose first sector has a write pending copies
from behind the buffer's end. -/
theorem spans_outside : ¬ ∀ (W : Nat) (flash : Mem) (s : Sys W) (evs : List Event),
    Run step (fun _ _ => True) (· = initial W flash) s evs →
      ∀ (t : Transfer) (m : ModId) (start_addr len : Nat) (cs : List BuffSpan),
        t.spans m start_addr len s.api = some cs → ∀ c ∈ cs, c.Inside := by
  intro hclaim
  obtain ⟨s, hr, hg⟩ := run_of_check 1 (fun _ _ => True) (fun _ => 0)
    [.register (eightSectors 0 0x3C000000), .write 0 0x3C000000 [1]]
    (fun s => decide (Transfer.read.spans 0 0x3C000F00 0x200 s.api = some [⟨0xF00, 0x200⟩])) (by decide +kernel)
  have := hclaim 1 _ s _ hr .read 0 0x3C000F00 0x200 _ (of_decide_eq_true hg) ⟨0xF00, 0x200⟩ (by simp)
  revert this
  decide

end Norflash
