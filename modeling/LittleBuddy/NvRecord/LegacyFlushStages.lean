import LittleBuddy.NvRecord.LegacyFlush
/-!
# The stages of a flush of the NV record

`Stage` says what the two sectors and the queue look like while the pool is saved;
the flush state and how far a flush has come determine the stage. `Core` is the
invariant while at most one flush is under way. Each call of the flash queue is
refused, or leads on to the next stage.
-/
open NorMem Norflash

namespace NvRecord.LegacyFlush

variable {W : Nat} {b : Build} {s s' : Nv W} {L L' : ModId → List (Slot W)}

/-! ## The sectors -/

theorem Build.addr_mod (b : Build) (c : Copy) : b.addr c % sectorSize = 0 := by
  have := b.aligned
  cases c
  · exact this
  · rw [Build.addr, Nat.add_mod_right]
    exact this

theorem Build.addr_ne (b : Build) {c c' : Copy} (hc : c ≠ c') : b.addr c ≠ b.addr c' := by
  cases c <;> cases c' <;> first | exact absurd rfl hc | simp [Build.addr]

/-- What is done to one sector leaves the other. -/
theorem Build.apart (b : Build) {c c' : Copy} (hc : c ≠ c') {j : Nat} (hj : j < poolSize) {o len : Nat}
    (hlen : o + len ≤ poolSize) : ¬ InRange (b.addr c' + o) len (b.addr c + j) :=
  sector_apart (b.addr_mod c) (b.addr_mod c') (b.addr_ne hc) hj hlen

/-! ## Valid records -/

theorem bufferOf_bytes {m : Nat → UInt8} {a len j : Nat} (hj : j < len) : bufferOf (bytes m a len) j = m (a + j) := by
  rw [bufferOf, bytes, List.getD_eq_getElem?_getD, List.getElem?_map, List.getElem?_range hj]
  rfl

theorem getU32_bytes {m : Nat → UInt8} {a len k : Nat} (hk : k + 4 ≤ len) :
    getU32 (bufferOf (bytes m a len)) k = getU32 m (a + k) := by
  have hs : SameBytes len (bufferOf (bytes m a len)) 0 m a := fun j hj => by
    rw [Nat.zero_add]
    exact bufferOf_bytes hj
  have := hs.getU32_eq hk
  rwa [Nat.zero_add] at this

theorem drop_bytes (m : Nat → UInt8) (a k len : Nat) :
    (bytes m a len).drop k = bytes m (a + k) (len - k) := by
  refine List.ext_getElem (by simp [bytes]) fun j hj _ => ?_
  simp [bytes, Nat.add_assoc]

theorem recordIsValid_congr {m m' : Nat → UInt8} {a a' : Nat} (h : SameBytes poolSize m' a' m a) :
    b.recordIsValid m' a' = b.recordIsValid m a := by
  have hb : bytes m' a' poolSize = bytes m a poolSize := h.bytes_eq (n := 0) (Nat.le_refl _)
  unfold Build.recordIsValid
  rw [hb]

section Header
variable {pool : Nat → UInt8} {config : Nat}

/-- The contents behind the header are as before. -/
theorem fillHeader_other {j : Nat} (hj : posHeapContents ≤ j) : b.fillHeader pool config j = pool j := by
  have hr : ∀ k, k + 4 ≤ posHeapContents → ¬ InRange k 4 j := fun k hk => by unfold InRange; omega
  unfold Build.fillHeader putU32
  rw [memcpy_other (hr _ (by decide)), memcpy_other (hr _ (by decide)), memcpy_other (hr _ (by decide)),
    memcpy_other (hr _ (by decide)), memcpy_other (hr _ (by decide))]

/-- With its header filled in, the pool passes every check of the boot but that of its lists. -/
theorem recordIsValid_fillHeader (h : b.nvRecordListIsValid (bytes (b.fillHeader pool config) 0 poolSize) = some true) :
    b.recordIsValid (b.fillHeader pool config) 0 = some true := by
  have hmagic : getU32 (b.fillHeader pool config) (0 + posVersionAndMagic) = verAndMagic :=
    (getU32_memcpy (.inl (by decide))).trans <| (getU32_memcpy (.inl (by decide))).trans <|
      (getU32_memcpy (.inl (by decide))).trans <| (getU32_memcpy (.inl (by decide))).trans (getU32_putU32 (by decide))
  have hcrc : getU32 (b.fillHeader pool config) (0 + posCrc) =
      (crc32 0 (bytes pool posHeapContents (poolSize - posHeapContents))).toNat :=
    (getU32_memcpy (.inl (by decide))).trans <| (getU32_memcpy (.inl (by decide))).trans <|
      (getU32_memcpy (.inl (by decide))).trans (getU32_putU32 (UInt32.toNat_lt _))
  have haddr : getU32 (b.fillHeader pool config) (0 + posStartRamAddr) = b.pool_addr :=
    (getU32_memcpy (.inl (by decide))).trans <| (getU32_memcpy (.inl (by decide))).trans (getU32_putU32 b.pool_lt)
  have hcontents : (bytes (b.fillHeader pool config) 0 poolSize).drop posHeapContents =
      bytes pool posHeapContents (poolSize - posHeapContents) := by
    rw [drop_bytes]
    refine List.map_congr_left fun j _ => ?_
    rw [Nat.zero_add]
    exact fillHeader_other (Nat.le_add_right ..)
  have hfield : ∀ k, k + 4 ≤ poolSize → getU32 (bufferOf (bytes (b.fillHeader pool config) 0 poolSize)) k =
      getU32 (b.fillHeader pool config) (0 + k) := fun _ hk => getU32_bytes hk
  unfold Build.recordIsValid Build.nvRecordDataIsValid
  simp only [hfield posVersionAndMagic (by decide), hfield posCrc (by decide), hfield posStartRamAddr (by decide),
    hmagic, hcrc, haddr, hcontents]
  simpa using h

end Header

/-! ## Stages -/

/-- The first `n` bytes of the main sector are in the backup sector; the rest of
it is erased or as in the main sector. -/
structure Copying (b : Build) (d : Mem) (n : Nat) : Prop where
  rest : ∀ j < poolSize, d (b.addr .bak + j) = 0xff ∨ d (b.addr .bak + j) = d (b.addr .main + j)
  copied : ∀ j < n, d (b.addr .bak + j) = d (b.addr .main + j)
  chunk : n % chunkSize = 0
  le : n ≤ poolSize

/-- The same bytes in both sectors. -/
def SameSectors (b : Build) (d' d : Mem) : Prop := ∀ c, SameBytes poolSize d' (b.addr c) d (b.addr c)

inductive Stage where
  | rest
  | mainErased
  | mainWritten
  | mainDone
  | bakErased (copied : Nat)
  | bakDone

namespace Stage

/-- The sectors as direct execution leaves them, and the pending operations of the module. -/
def Ok (b : Build) (d : Mem) (q : List QNode) : Stage → Prop
  | rest | mainDone => q = []
  | mainErased => OnlyAt (b.addr .main) q ∧ ∀ j < poolSize, d (b.addr .main + j) = 0xff
  | mainWritten => OnlyAt (b.addr .main) q ∧ b.recordIsValid d (b.addr .main) = some true
  | bakErased n => OnlyAt (b.addr .bak) q ∧ Copying b d n
  | bakDone => q = [] ∧ Copying b d poolSize

end Stage

theorem Copying.congr {d d' : Mem} {n : Nat} (h : Copying b d n) (hd : SameSectors b d' d) : Copying b d' n where
  rest j hj := by rw [hd .bak j hj, hd .main j hj]; exact h.rest j hj
  copied j hj := by
    have hle := h.le
    rw [hd .bak j (by omega), hd .main j (by omega)]
    exact h.copied j hj
  chunk := h.chunk
  le := h.le

/-- Copying may start again from the first chunk. -/
theorem Copying.restart {d : Mem} {n : Nat} (h : Copying b d n) : Copying b d 0 :=
  ⟨h.rest, by simp, rfl, by simp⟩

/-- Operations that are pending may be executed at any time. -/
theorem Stage.Ok.flushed {st : Stage} {d d' : Mem} {q q' : List QNode} (h : st.Ok b d q) (hf : Flushed q q')
    (hd : SameSectors b d' d) : st.Ok b d' q' := by
  have hnil : q = [] → q' = [] := fun hq => Flushed.nil (hq ▸ hf)
  cases st with
  | rest => exact hnil h
  | mainErased => exact ⟨h.1.flushed hf, fun j hj => by rw [hd .main j hj]; exact h.2 j hj⟩
  | mainWritten => exact ⟨h.1.flushed hf, by rw [recordIsValid_congr (hd .main)]; exact h.2⟩
  | mainDone => exact hnil h
  | bakErased n => exact ⟨h.1.flushed hf, h.2.congr hd⟩
  | bakDone => exact ⟨hnil h.1, h.2.congr hd⟩

/-- The stage when no flush is between a call and setting the state. -/
def stateStage : NvState → Nat → Stage
  | .idle, _ | .mainErasing, _ => .rest
  | .mainErased, _ | .mainWritting, _ => .mainErased
  | .mainWritten, _ => .mainWritten
  | .mainDone, _ | .bakErasing, _ => .mainDone
  | .bakErased, _ => .bakErased 0
  | .bakWritting, n => .bakErased n
  | .bakWritten, _ => .bakErased poolSize
  | .bakDone, _ => .bakDone

/-- The stage, by the flush under way, if any. -/
def stageAt : Option Pc → NvState → Nat → Stage
  | some (.setErased .main), _, _ => .mainErased
  | some .mainClear, _, _ | some .mainSetWritten, _, _ => .mainWritten
  | some (.setDone .main), _, _ => .mainDone
  | some (.setErased .bak), _, _ | some .bakStart, _, _ | some .bakStartSize, _, _ => .bakErased 0
  | some .bakAdvance, _, n => .bakErased (n + chunkSize)
  | some (.setDone .bak), _, _ => .bakDone
  | _, st, n => stateStage st n

/-! ## The invariant -/

/-- The main sector, once its operations are executed, holds a valid record equal to the pool. -/
structure Kept (b : Build) (d : Mem) (pool : Nat → UInt8) : Prop where
  valid : b.recordIsValid d (b.addr .main) = some true
  equal : ∀ j < poolSize, d (b.addr .main + j) = pool j

theorem Kept.congr {d d' : Mem} {pool : Nat → UInt8} (h : Kept b d pool) (hd : SameBytes poolSize d' (b.addr .main) d (b.addr .main)) :
    Kept b d' pool :=
  ⟨by rw [recordIsValid_congr hd]; exact h.valid, fun j hj => (hd j hj).trans (h.equal j hj)⟩

/-- A flush that begins here will leave nothing undone. -/
def Due (b : Build) (s : Nv W) : Prop :=
  s.pending = true ∨ s.state = .mainDone ∨ s.state = .bakErasing ∨ s.state = .bakErased ∨
    s.state = .idle ∧ ∀ j < poolSize, s.dev.direct (b.addr .bak + j) = s.dev.direct (b.addr .main + j)

/-- What is known of the state when a flush has come to `pc`. -/
def Pc.Fits (b : Build) (s : Nv W) : Pc → Prop
  | .start a | .bak a => a = false → Due b s
  | .main a => s.callsMain = true ∧ (a = false → Due b s)
  | .asyncMain => s.callsMain = true
  | .asyncBak => s.callsBak = true
  | .ifErase .main => s.callsMain = true ∧ Due b s
  | .ifErase .bak => s.callsBak = true ∧ Due b s
  | .erase c | .eraseFlush c | .eraseFree c | .setErased c => c.erases s.state = true ∧ (c = .main → s.is_update = true)
  | .ifWrite .main => (s.state = .mainErased ∨ s.state = .mainWritting ∨ s.state = .mainWritten) ∧ Due b s
  | .ifWrite .bak =>
    (s.state = .bakErased ∨ s.state = .bakWritting ∨ s.state = .bakWritten ∨ s.state = .bakDone) ∧ Due b s
  | .mainWrite | .writeFlush .main | .writeFree .main | .mainClear | .mainSetWritten => s.state = .mainErased
  | .drain .main | .drainCheck .main | .setDone .main => s.state = .mainWritten
  | .bakStart => s.state = .bakErased
  | .bakStartSize | .bakChunk | .bakAdvance | .bakIfWritten | .bakFull | .writeFlush .bak | .writeFree .bak =>
    s.state = .bakWritting
  | .bakSetWritten | .drain .bak | .drainCheck .bak | .setDone .bak => s.state = .bakWritten
  | .bakEnd a => a = false → s.state = .bakDone ∨ s.pending = true

/-- Where `written_size` is less than the size of the pool while copying. -/
def Pc.sized : Pc → Bool
  | .bakStartSize | .bakIfWritten => false
  | _ => true

/-- The invariant, with the flush under way, if any. -/
structure Core (b : Build) (s : Nv W) (L : ModId → List (Slot W)) (o : Option Pc) : Prop where
  owned : Owned userdataModule (Set.range b.addr) s.dev L
  stage : (stageAt o s.state s.written_size).Ok b s.dev.direct (queueOf userdataModule s.dev L)
  kept : s.pending = false → Kept b s.dev.direct s.pool
  dirty : s.state = .mainErasing ∨ stageAt o s.state s.written_size = .mainErased → s.is_update = true
  size : s.state = .bakWritting → o.all Pc.sized = true → s.written_size < poolSize
  fits : ∀ pc, o = some pc → pc.Fits b s

theorem pending_of_update (h : s.is_update = true) : s.pending = true := by simp [Nv.pending, h]

theorem Due.mono (h : Due b s) (hs : s'.state = s.state) (hp : s.pending = true → s'.pending = true)
    (hd : SameSectors b s'.dev.direct s.dev.direct) : Due b s' := by
  unfold Due
  rw [hs]
  refine h.imp hp (Or.imp_right (Or.imp_right (Or.imp_right fun hi => ⟨hi.1, fun j hj => ?_⟩)))
  rw [hd .bak j hj, hd .main j hj]
  exact hi.2 j hj

/-- What is known at `pc` stays so while others only set the flag, change the pool or use the flash. -/
theorem Pc.Fits.mono {pc : Pc} (h : pc.Fits b s) (hs : s'.state = s.state) (hu : s.is_update = true → s'.is_update = true)
    (hp : s.pending = true → s'.pending = true) (hd : SameSectors b s'.dev.direct s.dev.direct) : pc.Fits b s' := by
  have hdue : Due b s → Due b s' := fun h => h.mono hs hp hd
  have hmain : s.callsMain = true → s'.callsMain = true := by
    unfold Nv.callsMain
    rw [hs]
    simp only [Bool.or_eq_true, Bool.and_eq_true]
    exact Or.imp_left (Or.imp_left (Or.imp_left (Or.imp_left (And.imp_right hu))))
  have hbak : s.callsBak = true → s'.callsBak = true := by
    unfold Nv.callsBak
    rw [hs]
    exact id
  cases pc with
  | start a => exact fun ha => hdue (h ha)
  | bak a => exact fun ha => hdue (h ha)
  | main a => exact ⟨hmain h.1, fun ha => hdue (h.2 ha)⟩
  | asyncMain => exact hmain h
  | asyncBak => exact hbak h
  | ifErase c =>
    cases c
    · exact ⟨hmain h.1, hdue h.2⟩
    · exact ⟨hbak h.1, hdue h.2⟩
  | erase c => exact ⟨by rw [hs]; exact h.1, fun hc => hu (h.2 hc)⟩
  | eraseFlush c => exact ⟨by rw [hs]; exact h.1, fun hc => hu (h.2 hc)⟩
  | eraseFree c => exact ⟨by rw [hs]; exact h.1, fun hc => hu (h.2 hc)⟩
  | setErased c => exact ⟨by rw [hs]; exact h.1, fun hc => hu (h.2 hc)⟩
  | ifWrite c => cases c <;> exact ⟨by rw [hs]; exact h.1, hdue h.2⟩
  | writeFlush c | writeFree c | drain c | drainCheck c | setDone c => cases c <;> exact hs.trans h
  | bakEnd a => exact fun ha => (h ha).imp hs.trans hp
  | _ => exact hs.trans h

/-! ## What a call of the flash queue does -/

theorem Build.addr_mem (b : Build) (c : Copy) : b.addr c ∈ Set.range b.addr := ⟨c, rfl⟩

theorem SameSectors.of_eq {d d' : Mem} (h : d' = d) : SameSectors b d' d := fun _ _ _ => by rw [h]

namespace Core

/-- Nothing but the execution of pending operations has happened to the device. -/
theorem device {dev' : Sys W} {o : Option Pc} (h : Core b s L o) (ho : Owned userdataModule (Set.range b.addr) dev' L')
    (hd : SameSectors b dev'.direct s.dev.direct)
    (hf : Flushed (queueOf userdataModule s.dev L) (queueOf userdataModule dev' L')) :
    Core b { s with dev := dev' } L' o where
  owned := ho
  stage := h.stage.flushed hf hd
  kept hp := (h.kept hp).congr (hd .main)
  dirty := h.dirty
  size := h.size
  fits pc hpc := (h.fits pc hpc).mono rfl id id hd

theorem flushNow {o : Option Pc} (h : Core b s L o) {env : FlushEnv} (ht : Build.flushNow env s = some s') :
    ∃ dev' L', s' = { s with dev := dev' } ∧ Core b s' L' o := by
  obtain ⟨dev', hrun, ht⟩ := Option.bind_eq_some_iff.1 ht
  cases ht
  obtain ⟨L', ho, hd, hf⟩ := h.owned.flush hrun
  exact ⟨dev', L', rfl, h.device ho (.of_eq hd) hf⟩

/-- The flush goes on at another place of the same stage. -/
theorem goto {o : Option Pc} (h : Core b s L o) (p : Option Pc)
    (hst : stageAt p s.state s.written_size = stageAt o s.state s.written_size) (hsz : o.all Pc.sized = true)
    (hfit : ∀ pc, p = some pc → pc.Fits b s) : Core b s L p where
  owned := h.owned
  stage := hst ▸ h.stage
  kept := h.kept
  dirty hm := h.dirty (hst ▸ hm)
  size hs _ := h.size hs hsz
  fits := hfit

end Core

/-- A refused call of the module: the sectors and the queue are as before. -/
def Refused (b : Build) (s : Nv W) (L : ModId → List (Slot W)) (dev' : Sys W) : Prop :=
  ∃ L', Owned userdataModule (Set.range b.addr) dev' L' ∧ dev'.direct = s.dev.direct ∧
    queueOf userdataModule dev' L' = queueOf userdataModule s.dev L

theorem Refused.core {dev' : Sys W} {o : Option Pc} (hr : Refused b s L dev') (h : Core b s L o) :
    ∃ L', Core b { s with dev := dev' } L' o := by
  obtain ⟨L', ho, hd, hq⟩ := hr
  exact ⟨L', h.device ho (.of_eq hd) (hq ▸ .same)⟩

/-- An accepted call leads to the stage, with the pool `pool`. -/
def Accepted (b : Build) (dev' : Sys W) (L : ModId → List (Slot W)) (st : Stage) : Prop :=
  Owned userdataModule (Set.range b.addr) dev' L ∧ st.Ok b dev'.direct (queueOf userdataModule dev' L)

theorem eraseMain (ho : Owned userdataModule (Set.range b.addr) s.dev L) (hq : queueOf userdataModule s.dev L = [])
    {r : Ret} (ht : b.eraseCopy .main s = some (r, s')) :
    ∃ dev', s' = { s with dev := dev' } ∧
      (r ≠ .ok ∧ Refused b s L dev' ∨ r = .ok ∧ ∃ L', Accepted b dev' L' .mainErased) := by
  obtain ⟨⟨r', dev'⟩, hrun, ht⟩ := Option.bind_eq_some_iff.1 ht
  cases ht
  obtain ⟨L', ho', hres⟩ := ho.erase (b.addr_mem .main) (b.addr_mod .main) hq hrun
  refine ⟨dev', rfl, hres.imp (fun hf => ⟨hf.1, L', ho', hf.2.1, hf.2.2.trans hq.symm⟩) fun hok => ⟨hok.1, L', ho', hok.2.2, ?_⟩⟩
  intro j hj
  rw [hok.2.1]
  exact erase_of (by unfold InRange; exact ⟨Nat.le_add_right .., Nat.add_lt_add_left hj _⟩)

theorem eraseBak (ho : Owned userdataModule (Set.range b.addr) s.dev L) (hq : queueOf userdataModule s.dev L = [])
    {r : Ret} (ht : b.eraseCopy .bak s = some (r, s')) :
    ∃ dev', s' = { s with dev := dev' } ∧ (r ≠ .ok ∧ Refused b s L dev' ∨
      r = .ok ∧ ∃ L', Accepted b dev' L' (.bakErased 0) ∧
        SameBytes poolSize dev'.direct (b.addr .main) s.dev.direct (b.addr .main)) := by
  obtain ⟨⟨r', dev'⟩, hrun, ht⟩ := Option.bind_eq_some_iff.1 ht
  cases ht
  obtain ⟨L', ho', hres⟩ := ho.erase (b.addr_mem .bak) (b.addr_mod .bak) hq hrun
  refine ⟨dev', rfl, hres.imp (fun hf => ⟨hf.1, L', ho', hf.2.1, hf.2.2.trans hq.symm⟩) fun hok => ⟨hok.1, L', ⟨ho', hok.2.2, ?_⟩, ?_⟩⟩
  · have hff : ∀ j < poolSize, dev'.direct (b.addr .bak + j) = 0xff := fun j hj => by
      rw [hok.2.1]
      exact erase_of (by unfold InRange; exact ⟨Nat.le_add_right .., Nat.add_lt_add_left hj _⟩)
    exact ⟨fun j hj => .inl (hff j hj), by simp, rfl, by simp⟩
  · intro j hj
    rw [hok.2.1]
    exact erase_other (b.apart (o := 0) (show Copy.main ≠ Copy.bak by decide) hj (Nat.le_of_eq (Nat.zero_add _)))

/-- The pool is written, with its header filled in. -/
theorem writeMain (ho : Owned userdataModule (Set.range b.addr) s.dev L)
    (hok : Stage.mainErased.Ok b s.dev.direct (queueOf userdataModule s.dev L)) {r : Ret}
    (ht : b.writeMain s = some (r, s')) :
    ∃ dev', s' = { s with dev := dev', pool := b.fillHeader s.pool s.config } ∧ (r ≠ .ok ∧ Refused b s L dev' ∨
      r = .ok ∧ ∃ L', Accepted b dev' L' .mainWritten ∧ Kept b dev'.direct (b.fillHeader s.pool s.config)) := by
  unfold Build.writeMain at ht
  simp only [Option.bind_eq_bind] at ht
  obtain ⟨v, hv, ht⟩ := Option.bind_eq_some_iff.1 ht
  cases v with
  | false => cases ht
  | true =>
    obtain ⟨⟨r', dev'⟩, hrun, ht⟩ := Option.bind_eq_some_iff.1 ht
    cases ht
    obtain ⟨hq, hff⟩ := hok
    have hclr : ∀ j < poolSize, Clears (s.dev.direct (b.addr .main + 0 + j)) (b.fillHeader s.pool s.config j) :=
      fun j hj => by
        rw [Nat.add_zero, hff j hj]
        exact ff_and _
    obtain ⟨L', ho', hres⟩ := ho.write (b.addr_mem .main) (b.addr_mod .main) (by decide) (by decide) hq hclr hrun
    refine ⟨dev', rfl, hres.imp (fun hf => ⟨hf.1, L', ho', hf.2.1, hf.2.2⟩) fun ⟨hr, hd, hq', _⟩ => ⟨hr, L', ?_⟩⟩
    have himage : ∀ j < poolSize, dev'.direct (b.addr .main + j) = b.fillHeader s.pool s.config j := fun j hj => by
      rw [hd, Nat.add_zero, program_of (by unfold InRange; omega), hff j hj, ff_and, Nat.add_sub_cancel_left]
    have hsame : SameBytes poolSize dev'.direct (b.addr .main) (b.fillHeader s.pool s.config) 0 := fun j hj => by
      rw [himage j hj, Nat.zero_add]
    have hvalid : b.recordIsValid dev'.direct (b.addr .main) = some true := by
      rw [recordIsValid_congr hsame]
      exact recordIsValid_fillHeader hv
    exact ⟨⟨ho', hq', hvalid⟩, hvalid, himage⟩

/-- One chunk goes from the main to the backup sector. -/
theorem copyChunk {n : Nat} (ho : Owned userdataModule (Set.range b.addr) s.dev L)
    (hok : (Stage.bakErased n).Ok b s.dev.direct (queueOf userdataModule s.dev L)) (hn : s.written_size = n)
    (hlt : n < poolSize) {r : Ret} (ht : b.copyChunk s = some (r, s')) :
    ∃ dev', s' = { s with dev := dev' } ∧ (r ≠ .ok ∧ Refused b s L dev' ∨
      r = .ok ∧ ∃ L', Accepted b dev' L' (.bakErased (n + chunkSize)) ∧
        SameBytes poolSize dev'.direct (b.addr .main) s.dev.direct (b.addr .main)) := by
  obtain ⟨⟨r₁, burn_buf⟩, hread, ht⟩ := Option.bind_eq_some_iff.1 ht
  simp only at ht
  split at ht
  · rename_i hr₁
    subst hr₁
    obtain ⟨⟨r', dev'⟩, hrun, ht⟩ := Option.bind_eq_some_iff.1 ht
    cases ht
    obtain ⟨hq, hcopy⟩ := hok
    rw [hn] at hread hrun
    have hfit : n + chunkSize ≤ poolSize := by
      have := hcopy.chunk
      simp only [chunkSize, poolSize] at *
      omega
    have hbuf := ho.read (b.addr_mem .main) (b.addr_mod .main) (hq _ (b.addr_ne (show Copy.main ≠ Copy.bak by decide))) hlt hfit hread
    have hclr : ∀ j < chunkSize, Clears (s.dev.direct (b.addr .bak + n + j)) (bufferOf burn_buf j) := fun j hj => by
      rw [hbuf j hj, Nat.add_assoc, Nat.add_assoc]
      rcases hcopy.rest (n + j) (by omega) with hff | hsame
      · rw [hff]
        exact ff_and _
      · rw [hsame]
        exact UInt8.and_self
    obtain ⟨L', ho', hres⟩ := ho.write (b.addr_mem .bak) (b.addr_mod .bak) hlt hfit hq hclr hrun
    refine ⟨dev', rfl, hres.imp (fun hf => ⟨hf.1, L', ho', hf.2.1, hf.2.2⟩) fun ⟨hr, hd, hq', _⟩ => ⟨hr, L', ?_⟩⟩
    have hm : SameBytes poolSize dev'.direct (b.addr .main) s.dev.direct (b.addr .main) := fun j hj => by
      rw [hd]
      exact program_other (b.apart (show Copy.main ≠ Copy.bak by decide) hj hfit)
    have hin : ∀ j, InRange n chunkSize j → dev'.direct (b.addr .bak + j) = s.dev.direct (b.addr .main + j) := by
      intro j hj
      have hrange : InRange (b.addr .bak + n) chunkSize (b.addr .bak + j) := by unfold InRange at *; omega
      have hsub : b.addr .bak + j - (b.addr .bak + n) = j - n := by omega
      have hadd : n + (j - n) = j := by unfold InRange at hj; omega
      have hc := hclr (j - n) (by unfold InRange at hj; omega)
      rw [hd, program_of hrange, hsub]
      rw [Nat.add_assoc, hadd] at hc
      rw [hc, hbuf (j - n) (by unfold InRange at hj; omega), Nat.add_assoc, hadd]
    have hout : ∀ j, ¬ InRange n chunkSize j → dev'.direct (b.addr .bak + j) = s.dev.direct (b.addr .bak + j) := by
      intro j hj
      rw [hd]
      exact program_other (by unfold InRange at *; omega)
    refine ⟨⟨ho', hq', fun j hj => ?_, fun j hj => ?_, ?_, hfit⟩, hm⟩
    · by_cases hr : InRange n chunkSize j
      · exact .inr (by rw [hin j hr, hm j hj])
      · rw [hout j hr, hm j hj]
        exact hcopy.rest j hj
    · rw [hm j (by omega)]
      by_cases hr : InRange n chunkSize j
      · exact hin j hr
      · rw [hout j hr]
        exact hcopy.copied j (by unfold InRange at hr; omega)
    · have := hcopy.chunk
      simp only [chunkSize] at *
      omega
  · cases ht

theorem onRet_cases {β : Type} {call : Option (Ret × Nv W)} {ok full : Nv W → Option β} {x : β}
    (h : Build.onRet call ok full = some x) :
    (∃ s₁, call = some (.ok, s₁) ∧ ok s₁ = some x) ∨ (∃ s₁, call = some (.bufferFull, s₁) ∧ full s₁ = some x) := by
  obtain ⟨⟨r, s₁⟩, hcall, h⟩ := Option.bind_eq_some_iff.1 h
  cases r with
  | ok => exact .inl ⟨s₁, hcall, h⟩
  | bufferFull => exact .inr ⟨s₁, hcall, h⟩
  | _ => cases h

/-- A change of the pool while the flag is set. -/
theorem Core.setPool {o : Option Pc} (h : Core b s L o) (hp : s.pending = true) (pool : Nat → UInt8) :
    Core b { s with pool } L o where
  owned := h.owned
  stage := h.stage
  kept hn := absurd hp (by rw [show s.pending = false from hn]; simp)
  dirty := h.dirty
  size := h.size
  fits pc hpc := (h.fits pc hpc).mono rfl id id fun _ _ _ => rfl

theorem drained_spec {m : Bool} (ho : Owned userdataModule (Set.range b.addr) s.dev L) (h : Build.drained s = some m) :
    m = true ↔ queueOf userdataModule s.dev L = [] := by
  obtain ⟨n, hn, h⟩ := Option.bind_eq_some_iff.1 h
  cases h
  rw [← ho.count hn, decide_eq_true_eq]

end NvRecord.LegacyFlush
