import LittleBuddy.Ota.Transfer
import LittleBuddy.Lib.Runs
/-!
# Durable breakpoints

Whatever breakpoint the record has, in RAM or on the flash, the bytes of the
image below it are on the flash: when the power fails, the transfer can go on
there. That holds in every run in which a transfer is not begun below the
breakpoint that is stored from an earlier one, and in which the power does not
fail while the first sector is rewritten for the magic number.
-/
open NorMem Norflash NvRecord NvRecord.Ota Runs

namespace Ota.Transfer

variable {W : Nat}

/-! ## The image on the flash -/

namespace Target

/-- Where the image starts. -/
def base (t : Target) : Nat := flashNcBase + t.offset

/-- The part of the flash that the image is for. -/
def Own (t : Target) (a : Nat) : Prop := t.base ≤ a ∧ a < t.base + t.size

/-- The image has its place, from a sector on. -/
structure Valid (t : Target) : Prop where
  aligned : t.offset % sectorSize = 0
  fits : t.offset + t.size ≤ 2 ^ 24
  pos : 0 < t.size

/-- The byte of the image, or in the first word that of the magic number that the last step puts there. -/
def Byte (t : Target) (j : Nat) (b : UInt8) : Prop :=
  b = t.image j ∨ (t.device = .app ∧ j < 4 ∧ b = UInt8.ofNat (normalBoot / 2 ^ (8 * j)))

/-- The first `n` bytes of the image. -/
def Has (t : Target) (n : Nat) (m : Mem) : Prop := ∀ j < n, t.Byte j (m (t.base + j))

end Target

/-- Both the record in RAM and the stored one have a breakpoint of at most the
bytes that the flash has of the image. -/
def Durable (s : State W) : Prop :=
  ∀ t ∈ s.target, t.Has (s.infos t.device.index).breakPoint.toNat s.sys.api.hal.flash ∧
    t.Has (s.stored t.device.index).breakPoint.toNat s.sys.api.hal.flash

/-- The first sector is erased for the magic number, and not programmed yet. -/
def State.rewriting (s : State W) : Bool :=
  match s.next, s.acts with
  | .verified, [_, _] => true
  | _, _ => false

/-! ## Conditions -/

/-- The flash modules that images go through. -/
def otaModule (m : ModId) : Prop := m = 2 ∨ m = 8

instance (m : ModId) : Decidable (otaModule m) := inferInstanceAs (Decidable (_ ∨ _))

/-- Other components call the flash API as in `QueueCond`, for their own modules
and away from the image. -/
def Others (e : Norflash.Event) (s : State W) : Prop :=
  QueueCond e s.sys ∧
    match e with
    | .erase mod_id addr _ => mod_id ≠ 2 ∧ mod_id ≠ 8 ∧ ∀ t ∈ s.target, ¬ t.Own addr
    | .write mod_id addr _ => mod_id ≠ 2 ∧ mod_id ≠ 8 ∧ ∀ t ∈ s.target, ¬ t.Own (addr / sectorSize * sectorSize)
    | _ => True

/-- A transfer begins where the flash has the image up to there, and its packets
bring the image in order. -/
def Transfers : Event → State W → Prop
  | .begin c image _, s =>
    let t : Target := ⟨image, c.device, c.flashOffset, c.imageSize⟩
    t.Valid ∧ c.startOffset ≤ c.imageSize ∧ c.user ≠ otaUserNum ∧ t.Has c.startOffset s.sys.api.hal.flash ∧
      ∀ i < t.size, OwnSector s.sys.api t.device.module.val (t.base + i * sectorSize)
  | .data bytes, s => s.env.currentStage = otaStageOngoing ∧ bytes.length < 2 ^ 16 ∧
    match s.target with
    | none => False
    | some t => s.env.receivedDataSize + bytes.length ≤ t.size ∧
      ∀ j < bytes.length, bufferOf bytes j = t.image (s.env.receivedDataSize + j)
  | .call e, s => Others e s
  | _, _ => True

/-- The next call is no synchronous programming, or it drains first. -/
def DrainsNext (m : ModId) (script : List FlushEnv) (api : ApiInfo W) : List FlashAct → Prop
  | .program _ _ _ true :: _ => Drains m script api
  | _ => True

/-- No transfer is begun below the breakpoint of an earlier one, the power does
not fail while the first sector is rewritten, and no synchronous programming
leaves its drain early. -/
def Keeps : Event → State W → Prop
  | .begin c _ _, s => (s.infos c.device.index).breakPoint.toNat ≤ c.startOffset ∧
    (s.stored c.device.index).breakPoint.toNat ≤ c.startOffset
  | .work script _, s => DrainsNext s.env.deviceId.module script s.sys.api s.acts
  | .reset, s => s.rewriting = true → ∀ t ∈ s.target, (s.stored t.device.index).breakPoint = 0
  | _, _ => True

def Cond (e : Event) (s : State W) : Prop := Transfers e s ∧ Keeps e s

/-- After power on: any flash, and any records. -/
def PowerOn (s : State W) : Prop :=
  ∃ flash infos, s = ⟨resetEnv, infos, infos, initial W flash, [], .idle, none⟩

section Decidable
variable (t : Target) (e : Event) (s : State W)

instance (j : Nat) (b : UInt8) : Decidable (t.Byte j b) := inferInstanceAs (Decidable (_ ∨ _))
instance (n : Nat) (m : Mem) : Decidable (t.Has n m) := inferInstanceAs (Decidable (∀ j < n, _))
instance (a : Nat) : Decidable (t.Own a) := inferInstanceAs (Decidable (_ ∧ _))

instance : Decidable t.Valid :=
  decidable_of_iff (t.offset % sectorSize = 0 ∧ t.offset + t.size ≤ 2 ^ 24 ∧ 0 < t.size)
    ⟨fun h => ⟨h.1, h.2.1, h.2.2⟩, fun h => ⟨h.aligned, h.fits, h.pos⟩⟩

instance (m : ModId) (script : List FlushEnv) (api : ApiInfo W) : Decidable (Drains m script api) :=
  inferInstanceAs (Decidable (_ ∨ _ ∨ ¬ (_ = none) ∨ _))

instance (m : ModId) (script : List FlushEnv) (api : ApiInfo W) : (acts : List FlashAct) →
    Decidable (DrainsNext m script api acts)
  | .program _ _ _ true :: _ => inferInstanceAs (Decidable (Drains m script api))
  | .program _ _ _ false :: _ | .erase _ :: _ | .flushPending :: _ | [] => .isTrue trivial

instance (e : Norflash.Event) : Decidable (Others e s) :=
  match e with
  | .erase .. | .write .. => inferInstanceAs (Decidable (_ ∧ _ ∧ _ ∧ ∀ t ∈ s.target, ¬ t.Own _))
  | .register _ | .flush _ | .flushDisable | .flushEnable => inferInstanceAs (Decidable (_ ∧ True))

instance (bytes : List UInt8) (env : Env) : (target : Option Target) → Decidable (match target with
    | none => False
    | some t => env.receivedDataSize + bytes.length ≤ t.size ∧
      ∀ j < bytes.length, bufferOf bytes j = t.image (env.receivedDataSize + j))
  | none => .isFalse id
  | some _ => inferInstanceAs (Decidable (_ ∧ ∀ j < _, _))

instance : Decidable (Transfers e s) :=
  match e with
  | .begin .. => inferInstanceAs (Decidable (_ ∧ _ ∧ _ ∧ _ ∧ ∀ i < _, _))
  | .data .. => inferInstanceAs (Decidable (_ ∧ _ ∧ _))
  | .call e => inferInstanceAs (Decidable (Others e s))
  | .work .. | .leave _ | .persist | .reset => .isTrue trivial

instance : Decidable (Keeps e s) :=
  match e with
  | .begin .. => inferInstanceAs (Decidable (_ ∧ _))
  | .work script _ => inferInstanceAs (Decidable (DrainsNext s.env.deviceId.module script s.sys.api s.acts))
  | .reset => inferInstanceAs (Decidable (_ → ∀ t ∈ s.target, _))
  | .data _ | .call _ | .leave _ | .persist => .isTrue trivial

instance : Decidable (Cond e s) := inferInstanceAs (Decidable (_ ∧ _))

end Decidable

/-! ## Pending operations -/

/-- Operations are pending on the page `busy` of the image at most, and elsewhere for others. -/
def pend (target : Option Target) (busy : Option Nat) (m : ModId) (a : Nat) : Prop :=
  if otaModule m then ∃ t ∈ target, m = t.device.module ∧ busy = some a else ∀ t ∈ target, ¬ t.Own a

section Pend
variable {t : Target} {busy : Option Nat} {m : ModId} {a : Nat} {d : Mem} {api : ApiInfo W}

theorem otaModule_module (d : Device) : otaModule d.module := by cases d <;> simp [otaModule, Device.module]

theorem pend_only (ho : t.Own a) : Only (pend (some t) busy) t.device.module a := by
  intro m hm hp
  unfold pend at hp
  split at hp
  · obtain ⟨t', ht', hm', -⟩ := hp
    cases ht'
    exact hm hm'
  · exact hp t rfl ho

theorem pend_mono (h : pend (some t) none m a) : pend (some t) busy m a := by
  unfold pend at h ⊢
  split at h
  · obtain ⟨-, -, -, hb⟩ := h
    cases hb
  · rename_i hm
    rw [if_neg hm]
    exact h

theorem pend_update (h : Function.update (pend (some t) busy) t.device.module (fun _ => False) m a) :
    pend (some t) none m a := by
  by_cases hm : m = t.device.module
  · rw [hm, Function.update_self] at h
    exact h.elim
  · rw [Function.update_of_ne hm] at h
    unfold pend at h ⊢
    split at h
    · obtain ⟨t', ht', hm', -⟩ := h
      cases ht'
      exact absurd hm' hm
    · rename_i hne
      rw [if_neg hne]
      exact h

theorem pend_none (a : Nat) : ¬ pend (some t) none t.device.module a := by
  unfold pend
  rw [if_pos (otaModule_module _)]
  rintro ⟨-, -, -, hb⟩
  cases hb

/-- Away from the busy page the flash has what was directly executed. -/
theorem flash_eq (hv : t.Valid) (h : LeadsTo (pend (some t) busy) d api) {j : Nat} (hj : j < t.size)
    (hbusy : busy ≠ some (t.base + j / sectorSize * sectorSize)) : api.hal.flash (t.base + j) = d (t.base + j) := by
  have haligned := hv.aligned
  have hpage : t.base + j = t.base + j / sectorSize * sectorSize + j % sectorSize := by
    have := Nat.div_add_mod' j sectorSize
    omega
  rw [hpage]
  refine h.flash ?_ (fun m hp => ?_) (Nat.mod_lt _ (by decide))
  · simp only [Target.base, flashNcBase, sectorSize] at *
    omega
  · unfold pend at hp
    split at hp
    · obtain ⟨-, -, -, hb⟩ := hp
      exact hbusy hb
    · refine hp t rfl ⟨Nat.le_add_right _ _, ?_⟩
      have := Nat.div_mul_le_self j sectorSize
      omega

theorem pageAddr_eq (hv : t.Valid) {k : Nat} (hk : k < t.size) : pageAddr (t.offset + k) = t.base + k := by
  have := hv.fits
  rw [pageAddr, Target.base, Nat.mod_eq_of_lt (by omega), Nat.add_assoc]

theorem checkAddr_eq (hv : t.Valid) {k : Nat} (hk : k < t.size) : checkAddr (t.offset + k) = t.base + k := by
  have := hv.fits
  rw [checkAddr, Target.base, Nat.mod_eq_of_lt (by simp only [flashNcBase]; omega), Nat.add_assoc]

end Pend

/-! ## Writing a sector -/

/-- How far `_flush_data_to_flash` is with the sector at `k`: the acts that are
left, what may be pending, and what the sector holds. -/
inductive Writing (t : Target) (s : Sys W) (k : Nat) (ptr : Nat → UInt8) (len : Nat) (syn : Bool) : List FlashAct → Prop
  | start : LeadsTo (pend (some t) none) s.direct s.api → Writing t s k ptr len syn (sectorActs (t.offset + k) ptr len syn)
  | erased : LeadsTo (pend (some t) (some (t.base + k))) s.direct s.api →
    (∀ j < sectorSize, s.direct (t.base + k + j) = 0xff) →
    Writing t s k ptr len syn [.program (t.offset + k) ptr len syn, .flushPending]
  | programmed : LeadsTo (pend (some t) (if syn then none else some (t.base + k))) s.direct s.api →
    (∀ j < len, s.direct (t.base + k + j) = ptr j) → Writing t s k ptr len syn [.flushPending]
  | flushed : LeadsTo (pend (some t) none) s.direct s.api → (∀ j < len, s.direct (t.base + k + j) = ptr j) →
    Writing t s k ptr len syn []

section Writing
variable {t : Target} {s s' : Sys W} {k len : Nat} {ptr : Nat → UInt8} {syn : Bool} {act : FlashAct} {acts : List FlashAct}
  {script script' : List FlushEnv}

/-- What may be pending, whatever is done already. -/
theorem Writing.leadsTo (h : Writing t s k ptr len syn acts) :
    ∃ busy, (busy = none ∨ busy = some (t.base + k)) ∧ LeadsTo (pend (some t) busy) s.direct s.api := by
  cases h with
  | start h => exact ⟨none, .inl rfl, h⟩
  | erased h => exact ⟨_, .inr rfl, h⟩
  | programmed h =>
    cases syn with
    | true => exact ⟨_, .inl rfl, h⟩
    | false => exact ⟨_, .inr rfl, h⟩
  | flushed h => exact ⟨none, .inl rfl, h⟩

/-- Erasing a page that nothing is pending on; also when it is left out. -/
theorem erase_page (hv : t.Valid) (hk : k % sectorSize = 0) (hks : k < t.size)
    (h : LeadsTo (pend (some t) none) s.direct s.api) {api : ApiInfo W}
    (hr : appFlashPageErase t.device.module (t.offset + k) script s.api = some (script', api)) :
    LeadsTo (pend (some t) (some (t.base + k))) (NorMem.erase s.direct (t.base + k) sectorSize) api := by
  have hown : t.Own (t.base + k) := ⟨Nat.le_add_right _ _, by omega⟩
  have haligned := hv.aligned
  have hbase : (t.base + k) % sectorSize = 0 := by
    simp only [Target.base, flashNcBase, sectorSize] at *
    omega
  have hmono : LeadsTo (pend (some t) (some (t.base + k))) s.direct s.api := h.mono fun _ _ => pend_mono
  unfold appFlashPageErase at hr
  rw [checkAddr_eq hv hks] at hr
  split at hr
  · rename_i hempty
    cases hr
    -- the page is blank, and nothing is pending on it
    have hblank : ∀ j < sectorSize, s.direct (t.base + k + j) = 0xff := by
      intro j hj
      have hflash : s.api.hal.flash (t.base + k + j) = 0xff :=
        beq_iff_eq.1 (List.all_eq_true.1 hempty j (List.mem_range.2 hj))
      rw [← hflash]
      refine (h.flash hbase (fun m hp => ?_) hj).symm
      by_cases hm : m = t.device.module
      · exact pend_none _ (hm ▸ hp)
      · exact pend_only hown m hm hp
    have hsame : NorMem.erase s.direct (t.base + k) sectorSize = s.direct := by
      funext a
      by_cases hin : InRange (t.base + k) sectorSize a
      · rw [erase_of hin, ← Nat.add_sub_cancel' hin.1, hblank _ (by unfold InRange at hin; omega)]
      · exact erase_other hin
    rw [hsame]
    exact hmono
  · rw [← pageAddr_eq hv hks] at hown hbase ⊢
    rw [← pageAddr_eq hv hks] at hmono
    refine eraseLoop_spec hmono hbase ?_ (pend_only hown) (h.eraseSafe pend_none) hr
    unfold pend
    rw [if_pos (otaModule_module _)]
    exact ⟨t, rfl, rfl, rfl⟩

/-- One call brings the sector on, and leaves the other ones. -/
theorem Writing.exec (hv : t.Valid) (hk : k % sectorSize = 0) (hks : k < t.size) (hlen : len ≤ sectorSize)
    (h : Writing t s k ptr len syn (act :: acts))
    (hdrains : ∀ o p l, act = .program o p l true → Drains t.device.module script s.api)
    (hr : act.exec t.device.module script s = some s') :
    Writing t s' k ptr len syn acts ∧ ∀ a, ¬ InRange (t.base + k) sectorSize a → s'.direct a = s.direct a := by
  have haddr := pageAddr_eq hv hks
  have haligned := hv.aligned
  have hbase : (t.base + k) % sectorSize = 0 := by
    simp only [Target.base, flashNcBase, sectorSize] at *
    omega
  have hpage : (t.base + k) / sectorSize * sectorSize = t.base + k := Nat.div_mul_cancel (Nat.dvd_of_mod_eq_zero hbase)
  have hown : t.Own (t.base + k) := ⟨Nat.le_add_right _ _, by omega⟩
  generalize hall : act :: acts = all at h
  cases h with
  | start h =>
    cases hall
    rw [FlashAct.exec] at hr
    obtain ⟨⟨script', api⟩, hcall, rfl⟩ := Option.map_eq_some_iff.1 hr
    have hblank : ∀ j < sectorSize, NorMem.erase s.direct (t.base + k) sectorSize (t.base + k + j) = 0xff :=
      fun j hj => erase_of ⟨Nat.le_add_right _ _, Nat.add_lt_add_left hj _⟩
    have hother : ∀ a, ¬ InRange (t.base + k) sectorSize a →
        NorMem.erase s.direct (t.base + k) sectorSize a = s.direct a := fun a ha => erase_other ha
    rw [haddr]
    exact ⟨.erased (erase_page hv hk hks h hcall) hblank, hother⟩
  | erased h hblank =>
    cases hall
    rw [FlashAct.exec] at hr
    obtain ⟨⟨script', api⟩, hcall, rfl⟩ := Option.map_eq_some_iff.1 hr
    rw [haddr]
    have hfit : pageAddr (t.offset + k) % sectorSize + len ≤ sectorSize := by
      rw [haddr, hbase, Nat.zero_add]
      exact hlen
    have hbytes : ∀ j < len, NorMem.program s.direct (t.base + k) len ptr (t.base + k + j) = ptr j := by
      intro j hj
      rw [program_of ⟨Nat.le_add_right _ _, Nat.add_lt_add_left hj _⟩, Nat.add_sub_cancel_left,
        hblank j (Nat.lt_of_lt_of_le hj hlen)]
      exact ff_and _
    have hother : ∀ a, ¬ InRange (t.base + k) sectorSize a →
        NorMem.program s.direct (t.base + k) len ptr a = s.direct a := by
      intro a ha
      refine program_other fun hin => ha ⟨hin.1, ?_⟩
      have := hin.2
      omega
    refine ⟨.programmed ?_ hbytes, hother⟩
    have honly : Only (pend (some t) (some (t.base + k))) t.device.module
        (pageAddr (t.offset + k) / sectorSize * sectorSize) := by
      rw [haddr, hpage]
      exact pend_only hown
    cases syn with
    | false =>
      have hbusy : pend (some t) (some (t.base + k)) t.device.module (pageAddr (t.offset + k) / sectorSize * sectorSize) := by
        unfold pend
        rw [if_pos (otaModule_module _), haddr, hpage]
        exact ⟨t, rfl, rfl, rfl⟩
      have hclr : ∀ j < len, Clears (s.direct (pageAddr (t.offset + k) + j)) (ptr j) := by
        intro j hj
        rw [haddr, hblank j (Nat.lt_of_lt_of_le hj hlen)]
        exact ff_and _
      have hleads := programAsync_spec h hbusy honly hfit hclr hcall
      rwa [haddr] at hleads
    | true =>
      have hleads := programSync_spec h (hdrains _ _ _ rfl) honly hfit hcall
      rw [haddr] at hleads
      exact hleads.mono fun _ _ => pend_update
  | programmed h hbytes =>
    cases hall
    rw [FlashAct.exec] at hr
    obtain ⟨⟨script', api⟩, hcall, rfl⟩ := Option.map_eq_some_iff.1 hr
    exact ⟨.flushed ((flushAll_spec h hcall).mono fun _ _ => pend_update) hbytes, fun _ _ => rfl⟩
  | flushed => cases hall

end Writing

/-! ## The invariant -/

/-- Nothing of a packet is left to do. -/
def Next.Resting : Next → Prop
  | .idle | .progress => True
  | _ => False

/-- The transfer goes on, with the first `n` bytes programmed and the next ones in the buffer. -/
structure Running (t : Target) (n : Nat) (env : Env) (sys : Sys W) : Prop where
  device : env.deviceId = t.device
  total : env.totalImageSize = t.size
  offset : env.newImageFlashOffset = t.offset
  stage : env.currentStage = otaStageOngoing
  user : env.currentUser ≠ otaUserNum
  at_n : env.newImageProgramOffset = n
  aligned : n % sectorSize = 0
  cached : ∀ j < env.dataCacheBufferOffset, env.dataCacheBuffer j = t.image (n + j)
  has : t.Has n sys.direct

/-- What is left of the packet is the image from there on. -/
structure Ahead (t : Target) (n : Nat) (env : Env) (rest : List UInt8) (len : Nat) : Prop where
  count : env.receivedDataSize + len = n + env.dataCacheBufferOffset + rest.length
  within : env.receivedDataSize + len ≤ t.size
  bytes : ∀ j < rest.length, bufferOf rest j = t.image (n + env.dataCacheBufferOffset + j)

/-- Where the code is, with `n` bytes of the image programmed. -/
inductive Phase (t : Target) (n : Nat) (env : Env) (sys : Sys W) : List FlashAct → Next → Prop
  | resting {next} : next.Resting → LeadsTo (pend (some t) none) sys.direct sys.api → n ≤ t.size → t.Has n sys.direct →
    (env.currentStage = otaStageIdle ∨ (env.currentStage = otaStageDone ∧ env.totalImageSize = t.size ∧ n = t.size)) →
    (env.currentUser = otaUserNum → env.dataCacheBufferOffset = 0) → Phase t n env sys [] next
  | waiting {next} : next.Resting → LeadsTo (pend (some t) none) sys.direct sys.api → Running t n env sys →
    env.dataCacheBufferOffset < cacheBufferSize → Ahead t n env [] 0 → Phase t n env sys [] next
  | copying {rest len} : LeadsTo (pend (some t) none) sys.direct sys.api → Running t n env sys →
    env.dataCacheBufferOffset < cacheBufferSize → Ahead t n env rest len → Phase t n env sys [] (.loop rest len)
  | writing {rest len acts} : Writing t sys n env.dataCacheBuffer cacheBufferSize false acts → Running t n env sys →
    env.dataCacheBufferOffset = cacheBufferSize → Ahead t n env rest len → Phase t n env sys acts (.programmed rest len)
  | copied {len} : LeadsTo (pend (some t) none) sys.direct sys.api → Running t n env sys →
    env.dataCacheBufferOffset < cacheBufferSize → Ahead t n env [] len → Phase t n env sys [] (.received len)
  | final {acts} : Running t n env sys → n + env.dataCacheBufferOffset = t.size →
    env.dataCacheBufferOffset < cacheBufferSize →
    ((acts = [] ∧ env.dataCacheBufferOffset = 0 ∧ LeadsTo (pend (some t) none) sys.direct sys.api) ∨
      (0 < env.dataCacheBufferOffset ∧ Writing t sys n env.dataCacheBuffer env.dataCacheBufferOffset true acts)) →
    Phase t n env sys acts .check
  | magic {acts} : env.deviceId = t.device → env.totalImageSize = t.size → env.currentUser ≠ otaUserNum → n = t.size →
    Writing t sys 0 env.dataCacheBuffer sectorSize true acts →
    (∀ j < t.size, j < sectorSize → t.Byte j (env.dataCacheBuffer j)) →
    (∀ j < t.size, sectorSize ≤ j ∨ acts.length = 3 → t.Byte j (sys.direct (t.base + j))) →
    Phase t n env sys acts .verified

/-- The breakpoints are not beyond what is programmed. -/
structure TransferInv (t : Target) (n : Nat) (s : State W) : Prop where
  valid : t.Valid
  ram : (s.infos t.device.index).breakPoint.toNat ≤ n
  stored : (s.stored t.device.index).breakPoint.toNat ≤ n
  phase : Phase t n s.env s.sys s.acts s.next

/-- Before the first transfer. -/
structure Unused (s : State W) : Prop where
  acts : s.acts = []
  next : s.next = .idle
  leads : LeadsTo (pend none none) s.sys.direct s.sys.api
  stage : s.env.currentStage = otaStageIdle
  fresh : s.env.currentUser = otaUserNum → s.env.dataCacheBufferOffset = 0

def Inv (s : State W) : Prop :=
  match s.target with
  | none => Unused s
  | some t => ∃ n, TransferInv t n s

section Phase
variable {t : Target} {n : Nat} {env : Env} {sys sys' : Sys W} {acts : List FlashAct} {next : Next}

theorem Phase.le (h : Phase t n env sys acts next) : n ≤ t.size := by
  cases h with
  | resting _ _ hle => exact hle
  | waiting _ _ _ _ ha | copying _ _ _ ha | writing _ _ _ ha | copied _ _ _ ha =>
    have := ha.count
    have := ha.within
    omega
  | final _ hsize => omega
  | magic _ _ _ hn => exact hn.le

theorem Phase.leadsTo (h : Phase t n env sys acts next) : ∃ busy, LeadsTo (pend (some t) busy) sys.direct sys.api := by
  cases h with
  | resting _ hl | waiting _ hl | copying hl | copied hl => exact ⟨_, hl⟩
  | writing hw | magic _ _ _ _ hw =>
    obtain ⟨busy, -, hl⟩ := hw.leadsTo
    exact ⟨busy, hl⟩
  | final _ _ _ hcase =>
    rcases hcase with ⟨-, -, hl⟩ | ⟨-, hw⟩
    · exact ⟨_, hl⟩
    · obtain ⟨busy, -, hl⟩ := hw.leadsTo
      exact ⟨busy, hl⟩

/-- The programmed bytes are on the flash, unless the first sector is being rewritten. -/
theorem Phase.flash (h : Phase t n env sys acts next) (hv : t.Valid)
    (hrw : ¬ ∃ a b, next = .verified ∧ acts = [a, b]) : t.Has n sys.api.hal.flash := by
  have hle := h.le
  -- with no page busy, or one behind the bytes
  have hflash : ∀ {busy : Option Nat}, LeadsTo (pend (some t) busy) sys.direct sys.api → t.Has n sys.direct →
      (busy = none ∨ (busy = some (t.base + n) ∧ n % sectorSize = 0)) → t.Has n sys.api.hal.flash := by
    intro busy hleads hhas hbusy j hj
    rw [flash_eq hv hleads (by omega)]
    · exact hhas j hj
    · rcases hbusy with rfl | ⟨rfl, hn⟩
      · simp
      · intro he
        have := Option.some.inj he
        have := Nat.div_mul_le_self j sectorSize
        omega
  cases h with
  | resting _ hleads _ hhas => exact hflash hleads hhas (.inl rfl)
  | waiting _ hleads hr | copying hleads hr | copied hleads hr => exact hflash hleads hr.has (.inl rfl)
  | writing hw hr =>
    obtain ⟨busy, hbusy, hleads⟩ := hw.leadsTo
    exact hflash hleads hr.has (hbusy.imp_right fun hb => ⟨hb, hr.aligned⟩)
  | final hr _ _ hcase =>
    rcases hcase with ⟨-, -, hleads⟩ | ⟨-, hw⟩
    · exact hflash hleads hr.has (.inl rfl)
    · obtain ⟨busy, hbusy, hleads⟩ := hw.leadsTo
      exact hflash hleads hr.has (hbusy.imp_right fun hb => ⟨hb, hr.aligned⟩)
  | magic _ _ _ hn hw hcache hrest =>
    have hpage : ∀ (hb : ∀ j < sectorSize, sys.direct (t.base + 0 + j) = env.dataCacheBuffer j), t.Has n sys.direct := by
      intro hb j hj
      by_cases hjs : j < sectorSize
      · have := hb j hjs
        rw [Nat.add_zero] at this
        exact this ▸ hcache j (by omega) hjs
      · exact hrest j (by omega) (.inl (by omega))
    cases hw with
    | start hleads => exact hflash hleads (fun j hj => hrest j (by omega) (.inr rfl)) (.inl rfl)
    | erased => exact absurd ⟨_, _, rfl, rfl⟩ hrw
    | programmed hleads hb => exact hflash hleads (hpage hb) (.inl rfl)
    | flushed hleads hb => exact hflash hleads (hpage hb) (.inl rfl)

end Phase

theorem State.rewriting_iff {s : State W} : s.rewriting = true ↔ ∃ a b, s.next = .verified ∧ s.acts = [a, b] := by
  unfold State.rewriting
  constructor
  · intro h
    split at h
    · rename_i a b hn ha
      exact ⟨a, b, hn, ha⟩
    · cases h
  · rintro ⟨a, b, hn, ha⟩
    rw [hn, ha]

theorem Inv.durable {s : State W} (h : Inv s) (hrw : s.rewriting = false) : Durable s := by
  intro t ht
  unfold Inv at h
  rw [Option.mem_def.1 ht] at h
  obtain ⟨n, h⟩ := h
  have hflash := h.phase.flash h.valid fun hex => by
    rw [State.rewriting_iff.2 hex] at hrw
    cases hrw
  have hle := h.ram
  have hle' := h.stored
  exact ⟨fun j hj => hflash j (by omega), fun j hj => hflash j (by omega)⟩

/-! ## Other components -/

section Others
variable {t : Target} {n : Nat} {s : State W} {sys sys' : Sys W} {target : Option Target} {busy : Option Nat}

/-- The pages of the image are as before. -/
def SamePages (target : Option Target) (d d' : Mem) : Prop :=
  ∀ t ∈ target, ∀ a, a % sectorSize = 0 → t.Own a → ∀ j < sectorSize, d' (a + j) = d (a + j)

theorem pend_other {m : ModId} {a : Nat} (h2 : m.val ≠ 2) (h8 : m.val ≠ 8) (ho : ∀ t ∈ target, ¬ t.Own a) :
    pend target busy m a := by
  unfold pend
  rw [if_neg]
  · exact ho
  · rintro (rfl | rfl)
    · exact h2 rfl
    · exact h8 rfl

theorem samePages_erase {d : Mem} {a : Nat} (ha : a % sectorSize = 0) (ho : ∀ t ∈ target, ¬ t.Own a) :
    SamePages target d (NorMem.erase d a sectorSize) := by
  intro t ht b hb hown j hj
  refine erase_other fun hin => ho t ht ?_
  obtain rfl : a = b := by
    simp only [InRange, sectorSize] at *
    omega
  exact hown

theorem samePages_program {d : Mem} {a len : Nat} {data : Nat → UInt8} (hfit : a % sectorSize + len ≤ sectorSize)
    (ho : ∀ t ∈ target, ¬ t.Own (a / sectorSize * sectorSize)) : SamePages target d (NorMem.program d a len data) := by
  intro t ht b hb hown j hj
  exact program_page rfl hfit hb (fun he => ho t ht (he ▸ hown)) hj d

theorem others_spec {e : Norflash.Event} (h : LeadsTo (pend s.target busy) s.sys.direct s.sys.api) (ho : Others e s)
    (hr : Norflash.step e s.sys = some sys') :
    LeadsTo (pend s.target busy) sys'.direct sys'.api ∧ SamePages s.target s.sys.direct sys'.direct := by
  obtain ⟨hc, hmod⟩ := ho
  cases e with
  | register r =>
    cases hr
    obtain ⟨L, hi, hpend⟩ := h
    obtain ⟨hi', hpool, -⟩ := Sys.register_inStep hi hc.1
    refine ⟨⟨L, hi', fun m n hn => hpend m n ?_⟩, fun _ _ _ _ _ _ _ => rfl⟩
    rwa [hpool] at hn
  | erase mod_id addr len =>
    obtain ⟨⟨ha, rfl⟩, hsafe, hown⟩ := hc
    obtain ⟨h2, h8, hpage⟩ := hmod
    obtain ⟨⟨r, s₁⟩, hcall, rfl⟩ := Option.map_eq_some_iff.1 hr
    refine ⟨h.erase ha (fun m hm => pend_other (hm ▸ h2) (hm ▸ h8) hpage) hsafe hown hcall, ?_⟩
    obtain ⟨⟨r₁, sc, api⟩, -, hcall⟩ := Option.bind_eq_some_iff.1 hcall
    cases hcall
    simp only
    split
    · exact samePages_erase ha hpage
    · exact fun _ _ _ _ _ _ _ => rfl
  | write mod_id addr data =>
    obtain ⟨⟨hfit, hclr⟩, -, hown⟩ := hc
    obtain ⟨h2, h8, hpage⟩ := hmod
    obtain ⟨⟨r, s₁⟩, hcall, rfl⟩ := Option.map_eq_some_iff.1 hr
    refine ⟨h.write hfit hclr (fun m hm => pend_other (hm ▸ h2) (hm ▸ h8) hpage) hown hcall, ?_⟩
    obtain ⟨⟨r₁, sc, api⟩, -, hcall⟩ := Option.bind_eq_some_iff.1 hcall
    cases hcall
    simp only
    split
    · exact samePages_program hfit hpage
    · exact fun _ _ _ _ _ _ _ => rfl
  | flush env =>
    obtain ⟨⟨code, rep, api⟩, hcall, hr⟩ := Option.bind_eq_some_iff.1 hr
    cases hr
    exact ⟨h.flushed hcall, fun _ _ _ _ _ _ _ => rfl⟩
  | flushDisable =>
    cases hr
    obtain ⟨L, hi, hpend⟩ := h
    refine ⟨⟨L, Sys.flushDisable_inStep hi, fun m n hn => hpend m n ?_⟩, fun _ _ _ _ _ _ _ => rfl⟩
    unfold norflashApiFlushDisable at hn
    split at hn <;> exact hn
  | flushEnable =>
    cases hr
    obtain ⟨L, hi, hpend⟩ := h
    refine ⟨⟨L, Sys.flushEnable_inStep hi, fun m n hn => hpend m n ?_⟩, fun _ _ _ _ _ _ _ => rfl⟩
    unfold norflashApiFlushEnable at hn
    split at hn <;> exact hn

theorem SamePages.byte (hsame : SamePages (some t) sys.direct sys'.direct) (hv : t.Valid) {j : Nat} (hj : j < t.size) :
    sys'.direct (t.base + j) = sys.direct (t.base + j) := by
  have haligned := hv.aligned
  have hpage : t.base + j = t.base + j / sectorSize * sectorSize + j % sectorSize := by
    have := Nat.div_add_mod' j sectorSize
    omega
  rw [hpage]
  refine hsame t rfl _ ?_ ⟨Nat.le_add_right _ _, ?_⟩ _ (Nat.mod_lt _ (by decide))
  · simp only [Target.base, flashNcBase, sectorSize] at *
    omega
  · have := Nat.div_mul_le_self j sectorSize
    omega

theorem Target.Has.same (h : t.Has n sys.direct) (hsame : SamePages (some t) sys.direct sys'.direct) (hv : t.Valid)
    (hn : n ≤ t.size) : t.Has n sys'.direct := by
  intro j hj
  rw [hsame.byte hv (by omega)]
  exact h j hj

theorem Writing.same {k len : Nat} {ptr : Nat → UInt8} {syn : Bool} {acts : List FlashAct}
    (h : Writing t sys k ptr len syn acts) (hv : t.Valid) (hk : k % sectorSize = 0) (hks : k < t.size)
    (hlen : len ≤ sectorSize) (hsame : SamePages (some t) sys.direct sys'.direct)
    (hleads : ∀ busy, LeadsTo (pend (some t) busy) sys.direct sys.api → LeadsTo (pend (some t) busy) sys'.direct sys'.api) :
    Writing t sys' k ptr len syn acts := by
  have haligned := hv.aligned
  have hbase : (t.base + k) % sectorSize = 0 := by
    simp only [Target.base, flashNcBase, sectorSize] at *
    omega
  have hpage : ∀ j < sectorSize, sys'.direct (t.base + k + j) = sys.direct (t.base + k + j) :=
    hsame t rfl _ hbase ⟨Nat.le_add_right _ _, by omega⟩
  cases h with
  | start h => exact .start (hleads _ h)
  | erased h hb => exact .erased (hleads _ h) fun j hj => (hpage j hj).trans (hb j hj)
  | programmed h hb => exact .programmed (hleads _ h) fun j hj => (hpage j (by omega)).trans (hb j hj)
  | flushed h hb => exact .flushed (hleads _ h) fun j hj => (hpage j (by omega)).trans (hb j hj)

theorem Running.same {env : Env} (h : Running t n env sys) (hsame : SamePages (some t) sys.direct sys'.direct)
    (hv : t.Valid) (hn : n ≤ t.size) : Running t n env sys' :=
  { h with has := h.has.same hsame hv hn }

/-- Where the code is does not depend on the others. -/
theorem Phase.same {env : Env} {acts : List FlashAct} {next : Next} (h : Phase t n env sys acts next) (hv : t.Valid)
    (hsame : SamePages (some t) sys.direct sys'.direct)
    (hleads : ∀ busy, LeadsTo (pend (some t) busy) sys.direct sys.api → LeadsTo (pend (some t) busy) sys'.direct sys'.api) :
    Phase t n env sys' acts next := by
  have hle := h.le
  cases h with
  | resting hn hl _ hhas hst hfresh => exact .resting hn (hleads _ hl) hle (hhas.same hsame hv hle) hst hfresh
  | waiting hn hl hr hlt ha => exact .waiting hn (hleads _ hl) (hr.same hsame hv hle) hlt ha
  | copying hl hr hlt ha => exact .copying (hleads _ hl) (hr.same hsame hv hle) hlt ha
  | writing hw hr hfull ha =>
    have hks : n < t.size := by
      have := ha.count
      have := ha.within
      simp only [cacheBufferSize] at hfull
      omega
    exact .writing (hw.same hv hr.aligned hks (by decide) hsame hleads) (hr.same hsame hv hle) hfull ha
  | copied hl hr hlt ha => exact .copied (hleads _ hl) (hr.same hsame hv hle) hlt ha
  | final hr hsize hlt hcase =>
    refine .final (hr.same hsame hv hle) hsize hlt (hcase.imp ?_ ?_)
    · exact fun ⟨hnil, h0, hl⟩ => ⟨hnil, h0, hleads _ hl⟩
    · exact fun ⟨hpos, hw⟩ => ⟨hpos, hw.same hv hr.aligned (by omega) hlt.le hsame hleads⟩
  | magic hd ht hu hn hw hcache hrest =>
    refine .magic hd ht hu hn (hw.same hv rfl hv.pos (Nat.le_refl _) hsame hleads) hcache fun j hj hcase => ?_
    rw [hsame.byte hv hj]
    exact hrest j hj hcase

end Others

/-! ## The steps of a command -/

section Work
variable {behind : Nat → UInt8} {t : Target} {n : Nat} {s s' : State W}

theorem State.updateInfo_spec {status : UInt8} {size : Nat} {session : CString}
    (h : s.updateInfo behind status size session = some s') :
    ∃ infos, s' = { s with infos } ∧ ∀ i, (infos i).breakPoint = (s.infos i).breakPoint ∨
      (status = otaStageIdle ∧ (infos i).breakPoint = 0) ∨ (status = otaStageDone ∧ (infos i).breakPoint = .ofNat size) := by
  obtain ⟨⟨update, infos⟩, hcall, rfl⟩ := Option.map_eq_some_iff.1 h
  exact ⟨infos, rfl, updateInfo_breakPoint hcall⟩

theorem State.updateProgress_spec {status : Bool} (h : s.updateProgress behind status = some s') :
    ∃ infos, s' = { s with infos } ∧ ∀ i, (infos i).breakPoint = (s.infos i).breakPoint ∨
      (s.env.currentStage = otaStageIdle ∧ (infos i).breakPoint = 0) ∨
      (s.env.currentStage = otaStageDone ∧ (infos i).breakPoint = .ofNat s.env.totalImageSize) := by
  cases status with
  | true => exact State.updateInfo_spec h
  | false =>
    cases h
    exact ⟨s.infos, rfl, fun _ => .inl rfl⟩

/-- Bringing the record up to date keeps its breakpoint within the image. -/
theorem Phase.progress_le {next : Next} {b : UInt32} (hrest : next.Resting) (h : Phase t n s.env s.sys s.acts next)
    (hram : (s.infos t.device.index).breakPoint.toNat ≤ n)
    (hb : b = (s.infos t.device.index).breakPoint ∨ (s.env.currentStage = otaStageIdle ∧ b = 0) ∨
      (s.env.currentStage = otaStageDone ∧ b = .ofNat s.env.totalImageSize)) : b.toNat ≤ n := by
  rcases hb with rfl | ⟨-, rfl⟩ | ⟨hdone, rfl⟩
  · exact hram
  · exact Nat.zero_le n
  · have htotal : s.env.totalImageSize = n := by
      generalize s.acts = acts at h
      cases h with
      | resting _ _ _ _ hst =>
        rcases hst with hidle | ⟨-, ht, hn⟩
        · rw [hdone] at hidle
          cases hidle
        · omega
      | waiting _ _ hr =>
        have := hr.stage
        rw [hdone] at this
        cases this
      | _ => exact hrest.elim
    rw [htotal, UInt32.toNat_ofNat']
    exact Nat.mod_le _ _

/-- Where the loop goes on. -/
theorem again_phase {env : Env} {sys : Sys W} {rest : List UInt8} {len : Nat}
    (hl : LeadsTo (pend (some t) none) sys.direct sys.api) (hr : Running t n env sys)
    (hlt : env.dataCacheBufferOffset < cacheBufferSize) (ha : Ahead t n env rest len) :
    Phase t n env sys [] (again rest len) := by
  unfold again
  split
  · rename_i hnil
    rw [List.isEmpty_iff.1 hnil] at ha
    exact .copied hl hr hlt ha
  · exact .copying hl hr hlt ha

theorem programAt_eq (hv : t.Valid) {env : Env} {sys : Sys W} (hr : Running t n env sys) (hn : n ≤ t.size) :
    env.programAt = t.offset + n := by
  have := hv.fits
  rw [Env.programAt, hr.at_n, hr.offset, Nat.mod_eq_of_lt (by omega), Nat.add_comm]

theorem bufferOf_drop (rest : List UInt8) (k j : Nat) : bufferOf (rest.drop k) j = bufferOf rest (k + j) := by
  simp [bufferOf, List.getD_eq_getElem?_getD]

/-- One iteration of the loop over a packet. -/
theorem copy_inv {rest : List UInt8} {len : Nat} (h : TransferInv t n s) (hacts : s.acts = [])
    (hl : LeadsTo (pend (some t) none) s.sys.direct s.sys.api) (hr : Running t n s.env s.sys)
    (hlt : s.env.dataCacheBufferOffset < cacheBufferSize) (ha : Ahead t n s.env rest len)
    (hcopy : s.copy rest len = some s') : TransferInv t n s' ∧ s'.target = s.target := by
  have hle := h.phase.le
  have hcount := ha.count
  have hwithin := ha.within
  -- what is copied, in terms of the image
  have hstep : ∀ k ≤ rest.length, s.env.dataCacheBufferOffset + k ≤ cacheBufferSize →
      Running t n { s.env with
        dataCacheBuffer := memcpy s.env.dataCacheBuffer s.env.dataCacheBufferOffset (bufferOf rest) k
        dataCacheBufferOffset := s.env.dataCacheBufferOffset + k } s.sys ∧
      Ahead t n { s.env with
        dataCacheBuffer := memcpy s.env.dataCacheBuffer s.env.dataCacheBufferOffset (bufferOf rest) k
        dataCacheBufferOffset := s.env.dataCacheBufferOffset + k } (rest.drop k) len := by
    intro k hk hfits
    refine ⟨{ hr with cached := fun j hj => ?_ }, ⟨?_, hwithin, fun j hj => ?_⟩⟩
    · by_cases hin : InRange s.env.dataCacheBufferOffset k j
      · simp only
        rw [memcpy_of hin, ha.bytes _ (by unfold InRange at hin; omega)]
        congr 1
        unfold InRange at hin
        omega
      · simp only
        rw [memcpy_other hin]
        exact hr.cached j (by unfold InRange at hin; simp only at hj; omega)
    · simp only [List.length_drop]
      omega
    · rw [List.length_drop] at hj
      rw [bufferOf_drop, ha.bytes _ (by omega)]
      congr 1
      simp only
      omega
  simp only [State.copy] at hcopy
  generalize hk : (if s.env.dataCacheBufferOffset + rest.length > cacheBufferSize then
    cacheBufferSize - s.env.dataCacheBufferOffset else rest.length) = k at hcopy
  have hkle : k ≤ rest.length ∧ s.env.dataCacheBufferOffset + k ≤ cacheBufferSize := by
    split at hk <;> omega
  obtain ⟨hr', ha'⟩ := hstep k hkle.1 hkle.2
  rw [if_neg (Nat.not_lt.2 hkle.2)] at hcopy
  split at hcopy
  · rename_i hfull
    -- the buffer is full, and goes to the sector behind the programmed bytes
    cases hcopy
    refine ⟨⟨h.valid, h.ram, h.stored, ?_⟩, rfl⟩
    have hprog := programAt_eq h.valid hr' hle
    have haligned : (t.offset + n) % sectorSize = 0 := by
      have := h.valid.aligned
      have := hr.aligned
      simp only [sectorSize] at *
      omega
    simp only
    rw [hprog, flushDataToFlash_sector haligned (by decide) (Nat.le_refl _)]
    exact .writing (.start hl) hr' hfull ha'
  · rename_i hroom
    cases hcopy
    refine ⟨⟨h.valid, h.ram, h.stored, ?_⟩, rfl⟩
    simp only [hacts]
    exact again_phase hl hr' (Nat.lt_of_le_of_ne hkle.2 hroom) ha'

/-- Rounded down to the granularity, the received bytes are all programmed. -/
theorem rounded_le {filled received : Nat} (hn : n % sectorSize = 0) (hfilled : filled < cacheBufferSize)
    (h : received = n + filled) : received / storeGranularity * storeGranularity ≤ n := by
  simp only [sectorSize, cacheBufferSize, storeGranularity] at *
  omega

/-- Behind the loop over a packet. -/
theorem received_inv {len : Nat} (h : TransferInv t n s) (hacts : s.acts = [])
    (hl : LeadsTo (pend (some t) none) s.sys.direct s.sys.api) (hr : Running t n s.env s.sys)
    (hlt : s.env.dataCacheBufferOffset < cacheBufferSize) (ha : Ahead t n s.env [] len)
    (hrec : s.received len = some s') : TransferInv t n s' ∧ s'.target = s.target := by
  have hle := h.phase.le
  have hcount : s.env.receivedDataSize + len = n + s.env.dataCacheBufferOffset := ha.count
  have hwithin := ha.within
  have hfits := h.valid.fits
  have hmod : (s.env.receivedDataSize + len) % 2 ^ 32 = s.env.receivedDataSize + len := Nat.mod_eq_of_lt (by omega)
  simp only [State.received, hmod] at hrec
  split at hrec
  · rename_i htotal
    -- the last bytes
    cases hrec
    rw [hr.total, hcount] at htotal
    refine ⟨⟨h.valid, h.ram, h.stored, ?_⟩, rfl⟩
    have hr' : Running t n { s.env with receivedDataSize := s.env.receivedDataSize + len } s.sys := { hr with }
    refine .final hr' htotal hlt ?_
    simp only
    split
    · rename_i hpos
      refine .inr ⟨Nat.pos_of_ne_zero hpos, ?_⟩
      have hprog := programAt_eq h.valid hr' hle
      have haligned : (t.offset + n) % sectorSize = 0 := by
        have := h.valid.aligned
        have := hr.aligned
        simp only [sectorSize] at *
        omega
      rw [hprog, flushDataToFlash_sector haligned (Nat.pos_of_ne_zero hpos) hlt.le]
      exact .start hl
    · rename_i hzero
      exact .inl ⟨rfl, not_not.1 hzero, hl⟩
  · have hwait : ∀ breakPoint, Phase t n { s.env with receivedDataSize := s.env.receivedDataSize + len, breakPoint } s.sys []
        .progress :=
      fun _ => .waiting trivial hl { hr with } hlt ⟨hcount, hwithin, fun j hj => absurd hj (Nat.not_lt_zero j)⟩
    split at hrec
    · obtain ⟨⟨update, infos⟩, hupdate, rfl⟩ := Option.map_eq_some_iff.1 hrec
      refine ⟨⟨h.valid, ?_, h.stored, ?_⟩, rfl⟩
      · rcases updateBreakpoint_breakPoint hupdate t.device.index with hb | hb
        · simp only [hb]
          exact h.ram
        · simp only [hb, UInt32.toNat_ofNat']
          exact Nat.le_trans (Nat.mod_le _ _) (rounded_le hr.aligned hlt hcount)
      · simp only [hacts]
        exact hwait _
    · cases hrec
      refine ⟨⟨h.valid, h.ram, h.stored, ?_⟩, rfl⟩
      simp only [hacts]
      exact hwait s.env.breakPoint

/-- The end of a transfer, with the whole image programmed. -/
theorem finish_inv {stage : UInt8} (hstage : stage = otaStageIdle ∨ stage = otaStageDone) (h : TransferInv t n s)
    (hacts : s.acts = []) (hl : LeadsTo (pend (some t) none) s.sys.direct s.sys.api) (hhas : t.Has t.size s.sys.direct)
    (htotal : s.env.totalImageSize = t.size) (huser : s.env.currentUser ≠ otaUserNum)
    (hfinish : s.finish behind stage = some s') : TransferInv t t.size s' ∧ s'.target = s.target := by
  have hram := Nat.le_trans h.ram h.phase.le
  have hphase : Phase t t.size { s.env with currentStage := stage } s.sys s.acts Next.progress := by
    rw [hacts]
    refine .resting trivial hl (Nat.le_refl _) hhas (hstage.imp_right fun hd => ⟨hd, htotal, rfl⟩) fun hu => ?_
    exact absurd hu huser
  unfold State.finish at hfinish
  split at hfinish
  · rename_i hidle
    obtain ⟨infos, rfl, hb⟩ := State.updateInfo_spec hfinish
    refine ⟨⟨h.valid, ?_, Nat.le_trans h.stored h.phase.le, hphase⟩, rfl⟩
    simp only
    rcases hb t.device.index with hb | ⟨-, hb⟩ | ⟨hd, -⟩
    · rw [hb]
      exact hram
    · rw [hb]
      exact Nat.zero_le _
    · rw [hidle] at hd
      cases hd
  · rename_i hidle
    obtain ⟨infos, rfl, hb⟩ := State.updateInfo_spec hfinish
    refine ⟨⟨h.valid, ?_, Nat.le_trans h.stored h.phase.le, hphase⟩, rfl⟩
    simp only
    rcases hb t.device.index with hb | ⟨hi, -⟩ | ⟨-, hb⟩
    · rw [hb]
      exact hram
    · exact absurd hi hidle
    · rw [hb, UInt32.toNat_ofNat', htotal]
      exact Nat.mod_le _ _

/-- A sector that is written makes the image complete up to there. -/
theorem Running.has_written {sys : Sys W} {env : Env} (hr : Running t n env sys) {len : Nat}
    (hlen : len = env.dataCacheBufferOffset) (hb : ∀ j < len, sys.direct (t.base + n + j) = env.dataCacheBuffer j) :
    t.Has (n + len) sys.direct := by
  intro j hj
  by_cases hjn : j < n
  · exact hr.has j hjn
  · have hbyte := hb (j - n) (by omega)
    rw [hr.cached _ (by omega), Nat.add_assoc, Nat.add_sub_cancel' (Nat.le_of_not_lt hjn)] at hbyte
    exact .inl hbyte

/-- The first sector with the magic number is still the image. -/
theorem magic_byte {dst m : Nat → UInt8} {j : Nat} (happ : t.device = .app) (hj : j < sectorSize)
    (hbyte : t.Byte j (m j)) : t.Byte j (putU32 (memcpy dst 0 m sectorSize) 0 normalBoot j) := by
  unfold putU32
  by_cases h4 : j < 4
  · rw [memcpy_of ⟨Nat.zero_le j, by omega⟩]
    exact .inr ⟨happ, h4, rfl⟩
  · rw [memcpy_other (fun hin => h4 (by have := hin.2; omega)), memcpy_of ⟨Nat.zero_le j, by omega⟩]
    exact hbyte

/-- Behind the last programming. -/
theorem check_inv {sane : Bool} (h : TransferInv t n s) (hacts : s.acts = []) (hr : Running t n s.env s.sys)
    (hl : LeadsTo (pend (some t) none) s.sys.direct s.sys.api) (hhas : t.Has t.size s.sys.direct)
    (hcheck : s.check behind sane = some s') : TransferInv t t.size s' ∧ s'.target = s.target := by
  have hle := h.phase.le
  unfold State.check at hcheck
  split at hcheck
  · rename_i happ
    rw [hr.device] at happ
    split at hcheck
    · exact finish_inv (.inl rfl) h hacts hl hhas hr.total hr.user hcheck
    · cases hcheck
      refine ⟨⟨h.valid, Nat.le_trans h.ram hle, Nat.le_trans h.stored hle, ?_⟩, rfl⟩
      have hstart : Writing t s.sys 0 (putU32 (memcpy s.env.dataCacheBuffer 0
        (fun j => s.sys.api.hal.flash (checkAddr s.env.newImageFlashOffset + j)) sectorSize) 0 normalBoot) sectorSize true
        (sectorActs (t.offset + 0) _ sectorSize true) := .start hl
      simp only [hr.offset] at hstart ⊢
      refine .magic hr.device hr.total hr.user rfl hstart (fun j hj hjs => ?_) fun j hj _ => hhas j hj
      refine magic_byte happ hjs ?_
      have haddr : checkAddr t.offset = t.base := checkAddr_eq h.valid h.valid.pos
      rw [haddr, flash_eq h.valid hl hj (by simp)]
      exact hhas j hj
  · exact finish_inv (.inr rfl) h hacts hl hhas hr.total hr.user hcheck

/-- The next call for the flash. -/
theorem act_inv {act : FlashAct} {acts : List FlashAct} {script : List FlushEnv} {sys : Sys W} (h : TransferInv t n s)
    (hacts : s.acts = act :: acts)
    (hdrains : ∀ o p l, act = .program o p l true → Drains s.env.deviceId.module script s.sys.api)
    (hexec : act.exec s.env.deviceId.module script s.sys = some sys) : TransferInv t n { s with sys, acts } := by
  refine ⟨h.valid, h.ram, h.stored, ?_⟩
  have hle := h.phase.le
  have hphase := h.phase
  -- the programmed bytes are in front of the sector
  have hfront : (∀ a, ¬ InRange (t.base + n) sectorSize a → sys.direct a = s.sys.direct a) →
      Running t n s.env s.sys → Running t n s.env sys := by
    intro hother hr
    refine { hr with has := fun j hj => ?_ }
    rw [hother _ fun hin => by have := hin.1; omega]
    exact hr.has j hj
  simp only
  generalize hnext : s.next = next at hphase
  generalize hall : s.acts = all at hphase
  rw [hacts] at hall
  cases hphase with
  | resting | waiting | copying | copied => cases hall
  | writing hw hr hfull ha =>
    subst hall
    have hks : n < t.size := by
      have := ha.count
      have := ha.within
      simp only [cacheBufferSize] at hfull
      omega
    rw [hr.device] at hdrains hexec
    obtain ⟨hw', hother⟩ := hw.exec h.valid hr.aligned hks (Nat.le_refl _) hdrains hexec
    exact .writing hw' (hfront hother hr) hfull ha
  | final hr hsize hlt hcase =>
    subst hall
    rcases hcase with ⟨hnil, -⟩ | ⟨hpos, hw⟩
    · cases hnil
    · rw [hr.device] at hdrains hexec
      obtain ⟨hw', hother⟩ := hw.exec h.valid hr.aligned (by omega) hlt.le hdrains hexec
      exact .final (hfront hother hr) hsize hlt (.inr ⟨hpos, hw'⟩)
  | magic hd ht hu hn hw hcache hrest =>
    subst hall
    rw [hd] at hdrains hexec
    obtain ⟨hw', hother⟩ := hw.exec h.valid rfl h.valid.pos (Nat.le_refl _) hdrains hexec
    refine .magic hd ht hu hn hw' hcache fun j hj hcase => ?_
    rcases hcase with hjs | hlen
    · rw [hother _ fun hin => by have := hin.2; omega]
      exact hrest j hj (.inl hjs)
    · cases hw <;> cases hlen

/-- A step of a command. -/
theorem work_inv {script : List FlushEnv} {ok : Bool} (h : TransferInv t n s) (hk : Keeps (.work script ok) s)
    (hr : s.work behind script ok = some s') : ∃ n', TransferInv t n' s' ∧ s'.target = s.target := by
  unfold State.work at hr
  split at hr
  · rename_i act acts hacts
    obtain ⟨sys, hexec, rfl⟩ := Option.map_eq_some_iff.1 hr
    refine ⟨n, act_inv h hacts (fun o p l he => ?_) hexec, rfl⟩
    subst he
    simpa only [Keeps, DrainsNext, hacts] using hk
  · rename_i hacts
    have hphase := h.phase
    rw [hacts] at hphase
    split at hr
    · cases hr
    · rename_i rest len hnext
      rw [hnext] at hphase
      cases hphase with
      | resting hrest | waiting hrest => exact hrest.elim
      | copying hl hrun hlt ha => exact ⟨n, copy_inv h hacts hl hrun hlt ha hr⟩
    · rename_i rest len hnext
      rw [hnext] at hphase
      cases hphase with
      | resting hrest | waiting hrest => exact hrest.elim
      | writing hw hrun hfull ha =>
        cases hr
        cases hw with
        | flushed hl hb =>
          have hcount := ha.count
          have hwithin := ha.within
          have hfits := h.valid.fits
          have hram := h.ram
          have hstored := h.stored
          have haligned := hrun.aligned
          simp only [cacheBufferSize] at hfull
          refine ⟨n + cacheBufferSize, ⟨h.valid, by simp only [State.programmed]; omega,
            by simp only [State.programmed]; omega, ?_⟩, rfl⟩
          simp only [State.programmed, hacts]
          refine again_phase hl ?_ (show 0 < cacheBufferSize by decide) ⟨?_, hwithin, fun j hj => ?_⟩
          · refine { hrun with at_n := ?_, aligned := ?_, cached := ?_, has := ?_ }
            · simp only [hrun.at_n, cacheBufferSize]
              omega
            · simp only [sectorSize, cacheBufferSize] at *
              omega
            · exact fun j hj => absurd hj (Nat.not_lt_zero j)
            · exact hrun.has_written hfull.symm hb
          · simp only [cacheBufferSize]
            omega
          · rw [ha.bytes j hj, hfull]
            simp
    · rename_i len hnext
      rw [hnext] at hphase
      cases hphase with
      | resting hrest | waiting hrest => exact hrest.elim
      | copied hl hrun hlt ha => exact ⟨n, received_inv h hacts hl hrun hlt ha hr⟩
    · rename_i hnext
      rw [hnext] at hphase
      cases hphase with
      | resting hrest | waiting hrest => exact hrest.elim
      | final hrun hsize hlt hcase =>
        rcases hcase with ⟨-, hzero, hl⟩ | ⟨hpos, hw⟩
        · have hn : n = t.size := by omega
          exact ⟨_, check_inv h hacts hrun hl (hn ▸ hrun.has) hr⟩
        · cases hw with
          | flushed hl hb => exact ⟨_, check_inv h hacts hrun hl (hsize ▸ hrun.has_written rfl hb) hr⟩
    · rename_i hnext
      rw [hnext] at hphase
      cases hphase with
      | resting hrest | waiting hrest => exact hrest.elim
      | magic hd ht hu hn hw hcache hrest =>
        cases hw with
        | flushed hl hb =>
          have hhas : t.Has t.size s.sys.direct := by
            intro j hj
            by_cases hjs : j < sectorSize
            · have := hb j hjs
              rw [Nat.add_zero] at this
              exact this ▸ hcache j hj hjs
            · exact hrest j hj (.inl (Nat.le_of_not_lt hjs))
          refine ⟨_, finish_inv ?_ h hacts hl hhas ht hu hr⟩
          cases ok
          · exact .inl rfl
          · exact .inr rfl
    · rename_i hnext
      rw [hnext] at hphase
      obtain ⟨infos, rfl, hb⟩ := State.updateProgress_spec hr
      have hrest : Next.Resting .progress := trivial
      have hphase' : Phase t n s.env s.sys [] Next.idle := by
        cases hphase with
        | resting _ hl hle hhas hst hfresh => exact .resting trivial hl hle hhas hst hfresh
        | waiting _ hl hrun hlt ha => exact .waiting trivial hl hrun hlt ha
      refine ⟨n, ⟨h.valid, ?_, h.stored, ?_⟩, rfl⟩
      · exact Phase.progress_le (s := s) hrest (hacts ▸ hphase) h.ram (hb t.device.index)
      · simp only [hacts]
        exact hphase'

end Work

/-! ## Runs -/

section Runs
variable {behind : Nat → UInt8} {t : Target} {n : Nat} {s s' : State W}

/-- Nothing is pending for images while nothing is left to do. -/
theorem Inv.idle (h : Inv s) (hidle : s.isIdle = true) :
    s.acts = [] ∧ s.next = .idle ∧ LeadsTo (pend s.target none) s.sys.direct s.sys.api := by
  unfold State.isIdle at hidle
  rw [Bool.and_eq_true, List.isEmpty_iff] at hidle
  obtain ⟨hacts, hnext⟩ := hidle
  split at hnext
  · rename_i hn
    refine ⟨hacts, hn, ?_⟩
    unfold Inv at h
    split at h
    · rename_i ht
      exact ht ▸ h.leads
    · rename_i t ht
      obtain ⟨n, h⟩ := h
      have hphase := h.phase
      rw [hacts, hn] at hphase
      rw [ht]
      cases hphase with
      | resting _ hl | waiting _ hl => exact hl
  · cases hnext

/-- A new image may go where nothing of others is pending. -/
theorem leadsTo_target {target : Option Target} {d : Mem} {api : ApiInfo W} (h : LeadsTo (pend target none) d api)
    (hv : t.Valid) (hown : ∀ i < t.size, OwnSector api t.device.module.val (t.base + i * sectorSize)) :
    LeadsTo (pend (some t) none) d api := by
  obtain ⟨L, hi, hpend⟩ := h
  refine ⟨L, hi, fun m n hn => ?_⟩
  have hp := hpend m n hn
  unfold pend at hp ⊢
  split at hp
  · obtain ⟨-, -, -, hb⟩ := hp
    cases hb
  · rename_i hm
    rw [if_neg hm]
    rintro t' ht' ⟨hge, hlt⟩
    cases ht'
    have haligned := hv.aligned
    have hfits : n.addr % sectorSize = 0 := (hi.queue.fits m n hn).1
    have hne : m ≠ t.device.module := fun he => hm (he ▸ otaModule_module _)
    have hsector : t.base + (n.addr - t.base) / sectorSize * sectorSize = n.addr := by
      simp only [Target.base, flashNcBase, sectorSize] at *
      omega
    have hfree := hown ((n.addr - t.base) / sectorSize) (by
      have := Nat.div_le_self (n.addr - t.base) sectorSize
      omega)
    rw [hsector] at hfree
    exact secOps_eq_nil.1 (alone_of_ownSector hi.sys rfl hfree m hne) n hn rfl

theorem begin_inv {c : BeginParam} {image : Nat → UInt8} {status : Bool} (h : Inv s)
    (hc : Cond (.begin c image status) s) (hr : step behind (.begin c image status) s = some s') : Inv s' := by
  obtain ⟨⟨hv, hstart, huser, hhas, hown⟩, hram, hstored⟩ := hc
  unfold step at hr
  simp only at hr
  split at hr
  · rename_i hidle
    obtain ⟨hacts, hnext, hl⟩ := h.idle hidle
    have hl' := leadsTo_target hl hv hown
    unfold State.begin at hr
    split at hr
    · cases hr
    · rename_i hassert
      simp only [not_or, not_not, not_and] at hassert
      obtain ⟨hidle, hnone, haligned⟩ := hassert
      have hfree : s.env.currentUser = otaUserNum := by
        by_contra hne
        exact huser (hnone hne)
      -- no user, so the buffer is empty
      have hempty : s.env.dataCacheBufferOffset = 0 := by
        unfold Inv at h
        split at h
        · exact h.fresh hfree
        · obtain ⟨n, h⟩ := h
          have hphase := h.phase
          rw [hacts, hnext] at hphase
          cases hphase with
          | resting _ _ _ _ _ hfresh => exact hfresh hfree
          | waiting _ _ hrun => exact absurd hfree hrun.user
      obtain ⟨infos, rfl, hb⟩ := State.updateProgress_spec hr
      unfold Inv
      refine ⟨c.startOffset, hv, ?_, hstored, ?_⟩
      · rcases hb c.device.index with hb | ⟨hi, -⟩ | ⟨hd, -⟩
        · simp only [hb]
          exact hram
        · cases hi
        · cases hd
      · simp only [hacts, hnext]
        refine .waiting trivial hl' ⟨rfl, rfl, rfl, rfl, huser, rfl, haligned, ?_, ?_⟩ ?_ ⟨?_, hstart, ?_⟩
        · exact fun j hj => absurd hj (by simp only [hempty]; exact Nat.not_lt_zero j)
        · intro j hj
          rw [← flash_eq hv hl' (Nat.lt_of_lt_of_le hj hstart) (by simp)]
          exact hhas j hj
        · simp only [hempty]
          decide
        · simp [hempty]
        · exact fun j hj => absurd hj (Nat.not_lt_zero j)
  · cases hr

theorem data_inv {bytes : List UInt8} (h : Inv s) (hc : Cond (.data bytes) s)
    (hr : step behind (.data bytes) s = some s') : Inv s' := by
  obtain ⟨⟨hstage, -, hbytes⟩, -⟩ := hc
  unfold step at hr
  simp only at hr
  split at hr
  · rename_i hidle
    obtain ⟨hacts, hnext, -⟩ := h.idle hidle
    cases hr
    unfold Inv at h ⊢
    split at hbytes
    · exact hbytes.elim
    · rename_i t ht
      simp only [ht] at h ⊢
      obtain ⟨n, h⟩ := h
      refine ⟨n, h.valid, h.ram, h.stored, ?_⟩
      have hphase := h.phase
      rw [hacts, hnext] at hphase
      simp only [hacts]
      cases hphase with
      | resting _ _ _ _ hst =>
        rw [hstage] at hst
        rcases hst with he | ⟨he, -⟩ <;> cases he
      | waiting _ hl hrun hlt ha =>
        obtain ⟨hwithin, himage⟩ := hbytes
        have hcount : s.env.receivedDataSize = n + s.env.dataCacheBufferOffset := ha.count
        refine .copying hl hrun hlt ⟨by omega, hwithin, fun j hj => ?_⟩
        rw [himage j hj, hcount]
  · cases hr

theorem leave_inv {status : Bool} (h : Inv s) (hr : step behind (.leave status) s = some s') : Inv s' := by
  unfold step at hr
  simp only at hr
  split at hr
  · rename_i hidle
    obtain ⟨hacts, hnext, hl⟩ := h.idle hidle
    obtain ⟨s₁, hup, rfl⟩ := Option.map_eq_some_iff.1 hr
    obtain ⟨infos, rfl, hb⟩ := State.updateProgress_spec hup
    unfold Inv at h ⊢
    cases ht : s.target with
    | none =>
      simp only [ht] at h ⊢
      exact ⟨hacts, hnext, h.leads, rfl, fun _ => rfl⟩
    | some t =>
      simp only [ht] at h hl ⊢
      obtain ⟨n, h⟩ := h
      have hphase := h.phase
      have hhas : t.Has n s.sys.direct := by
        rw [hacts, hnext] at hphase
        cases hphase with
        | resting _ _ _ hhas => exact hhas
        | waiting _ _ hrun => exact hrun.has
      refine ⟨n, h.valid, ?_, h.stored, ?_⟩
      · exact Phase.progress_le (s := s) (show s.next.Resting from hnext ▸ trivial) hphase h.ram (hb t.device.index)
      · simp only [hacts, hnext]
        exact .resting trivial hl h.phase.le hhas (.inl rfl) fun _ => rfl
  · cases hr

theorem reset_inv (h : Inv s) (hk : Keeps .reset s) (hr : step behind .reset s = some s') : Inv s' := by
  cases hr
  have hinit : ∀ target, LeadsTo (pend target none) s.sys.api.hal.flash (initial W s.sys.api.hal.flash).api := by
    intro target
    exact ⟨_, inStep_initial s.sys.api.hal.flash (.initial _), fun m n hn => absurd hn List.not_mem_nil⟩
  unfold Inv at h ⊢
  cases ht : s.target with
  | none => exact ⟨rfl, rfl, hinit none, rfl, fun _ => rfl⟩
  | some t =>
    simp only [ht] at h ⊢
    obtain ⟨n, h⟩ := h
    refine ⟨(s.stored t.device.index).breakPoint.toNat, h.valid, Nat.le_refl _, Nat.le_refl _, ?_⟩
    refine .resting trivial (hinit _) (Nat.le_trans h.stored h.phase.le) (fun j hj => ?_) (.inl rfl) fun _ => rfl
    by_cases hrw : s.rewriting = true
    · have hzero := hk hrw t ht
      rw [hzero] at hj
      exact absurd hj (Nat.not_lt_zero j)
    · have hflash := h.phase.flash h.valid fun hex => hrw (State.rewriting_iff.2 hex)
      exact hflash j (Nat.lt_of_lt_of_le hj h.stored)

/-- Every event keeps the breakpoints within what is programmed. -/
theorem step_inv {e : Event} (h : Inv s) (hc : Cond e s) (hr : step behind e s = some s') : Inv s' := by
  cases e with
  | begin c image status => exact begin_inv h hc hr
  | data bytes => exact data_inv h hc hr
  | leave status => exact leave_inv h hr
  | reset => exact reset_inv h hc.2 hr
  | work script ok =>
    unfold Inv at h
    cases ht : s.target with
    | none =>
      simp only [ht] at h
      simp [step, State.work, h.acts, h.next] at hr
    | some t =>
      simp only [ht] at h
      obtain ⟨n, h⟩ := h
      obtain ⟨n', h', ht'⟩ := work_inv h hc.2 hr
      unfold Inv
      rw [ht', ht]
      exact ⟨n', h'⟩
  | call e =>
    obtain ⟨sys, hcall, rfl⟩ := Option.map_eq_some_iff.1 hr
    unfold Inv at h ⊢
    cases ht : s.target with
    | none =>
      simp only [ht] at h ⊢
      have hleads : LeadsTo (pend s.target none) s.sys.direct s.sys.api := ht ▸ h.leads
      have hl := (others_spec hleads hc.1 hcall).1
      exact ⟨h.acts, h.next, ht ▸ hl, h.stage, h.fresh⟩
    | some t =>
      simp only [ht] at h ⊢
      obtain ⟨n, h⟩ := h
      refine ⟨n, h.valid, h.ram, h.stored, ?_⟩
      obtain ⟨busy, hl⟩ := h.phase.leadsTo
      rw [← ht] at hl
      exact h.phase.same h.valid (ht ▸ (others_spec hl hc.1 hcall).2) fun busy hl =>
        ht ▸ (others_spec (ht ▸ hl) hc.1 hcall).1
  | persist =>
    cases hr
    unfold Inv at h ⊢
    cases ht : s.target with
    | none =>
      simp only [ht] at h ⊢
      exact ⟨h.acts, h.next, ht ▸ h.leads, h.stage, h.fresh⟩
    | some t =>
      simp only [ht] at h ⊢
      obtain ⟨n, h⟩ := h
      exact ⟨n, h.valid, h.ram, h.ram, h.phase⟩

/-- In a run that meets the condition, the flash has the image up to both
breakpoints in every state, but for the one in which the first sector is erased
for the magic number. -/
theorem breakpoints_durable (behind : Nat → UInt8) (s : State W) (evs : List Event)
    (h : Run (step behind) Cond PowerOn s evs) (hrw : s.rewriting = false) : Durable s := by
  have hinv : Inv s := by
    refine h.inv Inv ?_ fun e s s' hi hc hr => step_inv hi hc hr
    rintro s ⟨flash, infos, rfl⟩
    refine ⟨rfl, rfl, ⟨_, inStep_initial flash (.initial _), fun m n hn => absurd hn List.not_mem_nil⟩, rfl, fun _ => rfl⟩
  exact hinv.durable hrw

/-- A power on with nothing on the flash and rebuilt records. -/
def blank : State 1 := ⟨resetEnv, rebuildOtaInfo, rebuildOtaInfo, initial 1 fun _ => 0, [], .idle, none⟩

theorem noNul_nil : (0 : UInt8) ∉ ([] : List UInt8) := by decide

/-- The image of `size` bytes `b`, for the hotword device. -/
def small (b : UInt8) (size : Nat) : Event :=
  .begin ⟨0, .hotword, size, 0, 0, ⟨[], noNul_nil⟩⟩ (fun _ => b) true

/-- An image of one byte, up to the end of its last command. -/
def oneByte : List Event :=
  let answers : List FlushEnv := [⟨true, .ok⟩, ⟨true, .ok⟩, ⟨true, .ok⟩]
  [.call (.register (eightSectors 8 flashNcBase)), small 7 1, .data [7]] ++ List.replicate 7 (.work answers true)

/-- The power fails when the image is complete and its breakpoint stored. -/
theorem breakpoints_durable_example : ∃ s : State 1, (s.stored 1).breakPoint = 1 ∧ s.target.isSome = true ∧ Durable s := by
  obtain ⟨s, hr, hg⟩ := exists_run_of_check (step fun _ => 0) Cond PowerOn (some blank)
    (oneByte ++ [.persist, .reset])
    (fun s => decide ((s.stored 1).breakPoint = 1 ∧ s.target.isSome = true ∧ s.rewriting = false))
    (by rintro s ⟨⟩; exact ⟨_, _, rfl⟩) (by decide +kernel)
  obtain ⟨hb, ht, hrw⟩ := of_decide_eq_true hg
  exact ⟨s, hb, ht, breakpoints_durable _ s _ hr hrw⟩

/-- The record in RAM has a breakpoint beyond what the flash has. -/
def State.beyond (s : State W) : Bool :=
  s.target.any fun t => !decide (t.Has (s.infos t.device.index).breakPoint.toNat s.sys.api.hal.flash)

/-- The next image is begun while the record has the breakpoint of the last one. -/
theorem breakpoint_of_last_image : ¬ ∀ (W : Nat) (behind : Nat → UInt8) (s : State W) (evs : List Event),
    Run (step behind) Transfers PowerOn s evs → s.rewriting = false → Durable s := by
  intro hclaim
  obtain ⟨s, hr, hg⟩ := exists_run_of_check (step fun _ => 0) Transfers PowerOn (some blank)
    (oneByte ++ [.leave true, small 9 2]) (fun s => !s.rewriting && s.beyond)
    (by rintro s ⟨⟩; exact ⟨_, _, rfl⟩) (by decide +kernel)
  rw [Bool.and_eq_true, Bool.not_eq_true'] at hg
  obtain ⟨t, ht, hnot⟩ := (Option.any_eq_true ..).1 hg.2
  have hhas := (hclaim 1 _ s _ hr hg.1 t ht).1
  simp [hhas] at hnot

end Runs

end Ota.Transfer
