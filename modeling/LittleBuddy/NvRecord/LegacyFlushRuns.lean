import LittleBuddy.Lib.Runs
import LittleBuddy.NvRecord.LegacyFlushStages
/-!
# Runs of the flush of the NV record

Each step of a flush keeps the invariant, and a synchronous flush that left
nothing undone has both sectors saved when it returns, or the flag set.
-/
open NorMem Norflash Runs

namespace NvRecord.LegacyFlush

variable {W : Nat} {b : Build} {s s' : Nv W} {L L' : ModId → List (Slot W)}

theorem not_dirty {t : NvState} {st : Stage} {P : Prop} (ht : t ≠ .mainErasing) (hst : st ≠ .mainErased) :
    t = .mainErasing ∨ st = .mainErased → P :=
  fun h => absurd h (not_or.2 ⟨ht, hst⟩)

/-! ## Asynchronous steps -/

section Async
variable {env : FlushEnv}

/-- The flag is set where the main sector is erased or to be written. -/
theorem Core.update_of_erases {o : Option Pc} (h : Core b s L o) (hc : s.callsMain = true)
    (he : Copy.erases .main s.state = true) : s.is_update = true := by
  rcases hs : s.state with _ | _ | _ | _ | _ | _ | _ | _ | _ | _ | _ <;> simp [Copy.erases, hs] at he
  · simpa [Nv.callsMain, hs] using hc
  · exact h.dirty (.inl hs)

theorem asyncMain_core (h : Core b s L (some .asyncMain)) (ht : b.asyncMain env s = some s') :
    ∃ L', Core b s' L' none := by
  have hc : s.callsMain = true := h.fits _ rfl
  unfold Build.asyncMain at ht
  split at ht
  · rename_i he
    have hu := h.update_of_erases hc he
    have hst : stageAt (some .asyncMain) s.state s.written_size = .rest := by
      rcases hs : s.state with _ | _ | _ | _ | _ | _ | _ | _ | _ | _ | _ <;> simp [Copy.erases, hs] at he <;> rfl
    have hrest := h.stage
    rw [hst] at hrest
    have h₁ : Core b { s with state := .mainErasing } L none :=
      ⟨h.owned, hrest, h.kept, fun _ => hu, fun hs => (by cases hs), by simp⟩
    rcases onRet_cases ht with ⟨s₁, hcall, ht⟩ | ⟨s₁, hcall, ht⟩ <;>
      obtain ⟨dev', rfl, ⟨hr, hres⟩ | ⟨hr, L', ho', hok⟩⟩ := eraseMain h₁.owned hrest hcall
    · exact absurd rfl hr
    · cases ht
      exact ⟨L', ho', hok, fun hp => absurd (pending_of_update hu) (by rw [show s.pending = false from hp]; simp),
        fun _ => hu, fun hs => (by cases hs), by simp⟩
    · obtain ⟨L₁, h₂⟩ := hres.core h₁
      obtain ⟨-, L₂, -, h₃⟩ := h₂.flushNow ht
      exact ⟨L₂, h₃⟩
    · cases hr
  split at ht
  · rename_i hw
    have hst : stageAt (some .asyncMain) s.state s.written_size = .mainErased := by
      rcases hs : s.state with _ | _ | _ | _ | _ | _ | _ | _ | _ | _ | _ <;> simp [Copy.writes, hs] at hw <;> rfl
    have hu := h.dirty (.inr hst)
    have herased := h.stage
    rw [hst] at herased
    have h₁ : Core b { s with state := .mainWritting } L none :=
      ⟨h.owned, herased, h.kept, fun _ => hu, fun hs => (by cases hs), by simp⟩
    rcases onRet_cases ht with ⟨s₁, hcall, ht⟩ | ⟨s₁, hcall, ht⟩ <;>
      obtain ⟨dev', rfl, ⟨hr, hres⟩ | ⟨hr, L', ⟨ho', hok⟩, hkept⟩⟩ := writeMain h₁.owned herased hcall
    · exact absurd rfl hr
    · cases ht
      exact ⟨L', ho', hok, fun _ => hkept, not_dirty nofun nofun, fun hs => (by cases hs), by simp⟩
    · obtain ⟨L₁, h₂⟩ := hres.core h₁
      obtain ⟨-, L₂, -, h₃⟩ := (h₂.setPool (pending_of_update hu) _).flushNow ht
      exact ⟨L₂, h₃⟩
    · cases hr
  · rename_i he hw
    have hs : s.state = .mainWritten := by
      rcases hs : s.state with _ | _ | _ | _ | _ | _ | _ | _ | _ | _ | _ <;>
        simp [Copy.erases, Copy.writes, Nv.callsMain, hs] at he hw hc ⊢
    obtain ⟨m, hm, ht⟩ := Option.bind_eq_some_iff.1 ht
    cases m with
    | true =>
      cases ht
      exact ⟨L, h.owned, (drained_spec h.owned hm).1 rfl, h.kept,
        not_dirty nofun nofun, fun hs => (by cases hs), by simp⟩
    | false =>
      obtain ⟨-, L₁, -, h₁⟩ := h.flushNow ht
      exact ⟨L₁, h₁.goto none rfl rfl (by simp)⟩

/-- The copying loop, from any number of chunks on. -/
theorem copyLoop_core (fuel : Nat) (h : Core b s L none) (hs : s.state = .bakWritting)
    (ht : b.copyLoop env fuel s = some s') : ∃ L', Core b s' L' none := by
  induction fuel generalizing s L with
  | zero => cases ht
  | succ fuel ih =>
    have hok := h.stage
    rw [hs] at hok
    have hlt := h.size hs rfl
    unfold Build.copyLoop at ht
    rcases onRet_cases ht with ⟨s₁, hcall, ht⟩ | ⟨s₁, hcall, ht⟩ <;>
      obtain ⟨dev', rfl, ⟨hr, hres⟩ | ⟨hr, L', ⟨ho', hok'⟩, hmain⟩⟩ := copyChunk h.owned hok rfl hlt hcall
    · exact absurd rfl hr
    · have hkept : s.pending = false → Kept b dev'.direct s.pool := fun hp => (h.kept hp).congr hmain
      simp only at ht
      split at ht
      · rename_i hn
        cases ht
        rw [hn] at hok'
        exact ⟨L', ho', hok', hkept, not_dirty nofun nofun, fun hs => (by cases hs), by simp⟩
      · rename_i hn
        have hst : stageAt none s.state (s.written_size + chunkSize) = .bakErased (s.written_size + chunkSize) := by
          rw [hs]
          rfl
        have h₂ : Core b { s with dev := dev', written_size := s.written_size + chunkSize } L' none := by
          refine ⟨ho', by rw [hst]; exact hok', hkept, fun hd => ?_, fun _ _ => Nat.lt_of_le_of_ne hok'.2.le hn, by simp⟩
          rcases hd with hd | hd
          · exact absurd (hs.symm.trans hd) (by simp)
          · rw [hst] at hd
            cases hd
        exact ih h₂ hs ht
    · obtain ⟨L₁, h₁⟩ := hres.core h
      obtain ⟨-, L₂, -, h₂⟩ := h₁.flushNow ht
      exact ⟨L₂, h₂⟩
    · cases hr

theorem asyncBak_core (h : Core b s L (some .asyncBak)) (ht : b.asyncBak env s = some s') : ∃ L', Core b s' L' none := by
  have hc : s.callsBak = true := h.fits _ rfl
  have hsize := fun hs => h.size hs rfl
  unfold Build.asyncBak at ht
  split at ht
  · rename_i he
    have hst : stageAt (some .asyncBak) s.state s.written_size = .mainDone := by
      rcases hs : s.state with _ | _ | _ | _ | _ | _ | _ | _ | _ | _ | _ <;> simp [Copy.erases, hs] at he <;> rfl
    have hdone := h.stage
    rw [hst] at hdone
    have h₁ : Core b { s with state := .bakErasing } L none :=
      ⟨h.owned, hdone, h.kept, not_dirty nofun nofun, fun hs => (by cases hs), by simp⟩
    rcases onRet_cases ht with ⟨s₁, hcall, ht⟩ | ⟨s₁, hcall, ht⟩ <;>
      obtain ⟨dev', rfl, ⟨hr, hres⟩ | ⟨hr, L', ⟨ho', hok⟩, hmain⟩⟩ := eraseBak h₁.owned hdone hcall
    · exact absurd rfl hr
    · cases ht
      exact ⟨L', ho', hok, fun hp => (h.kept hp).congr hmain,
        not_dirty nofun nofun, fun hs => (by cases hs), by simp⟩
    · obtain ⟨L₁, h₂⟩ := hres.core h₁
      obtain ⟨-, L₂, -, h₃⟩ := h₂.flushNow ht
      exact ⟨L₂, h₃⟩
    · cases hr
  split at ht
  · rename_i hw
    have hs : s.state = .bakErased ∨ s.state = .bakWritting := by simpa [Copy.writes] using hw
    have hok := h.stage
    refine copyLoop_core _ (s := { s with
      written_size := if s.state = .bakErased then 0 else s.written_size
      state := .bakWritting }) (L := L) ⟨h.owned, ?_, h.kept, not_dirty nofun nofun,
      fun _ _ => ?_, by simp⟩ rfl ht
    · rcases hs with hs | hs <;> rw [hs] at hok ⊢ <;> exact hok
    · rcases hs with hs | hs
      · rw [hs]
        exact Nat.zero_lt_succ _
      · rw [hs]
        exact hsize hs
  · rename_i he hw
    have hs : s.state = .bakWritten ∨ s.state = .bakDone := by
      rcases hs : s.state with _ | _ | _ | _ | _ | _ | _ | _ | _ | _ | _ <;>
        simp [Copy.erases, Copy.writes, Nv.callsBak, hs] at he hw hc ⊢
    obtain ⟨m, hm, ht⟩ := Option.bind_eq_some_iff.1 ht
    cases m with
    | true =>
      cases ht
      have hq := (drained_spec h.owned hm).1 rfl
      have hok := h.stage
      have hcopy : Copying b s.dev.direct poolSize := by
        rcases hs with hs | hs <;> rw [hs] at hok <;> exact hok.2
      exact ⟨L, h.owned, ⟨hq, hcopy⟩, h.kept, not_dirty nofun nofun, fun hs => (by cases hs), by simp⟩
    | false =>
      obtain ⟨-, L₁, -, h₁⟩ := h.flushNow ht
      exact ⟨L₁, h₁.goto none rfl rfl (by simp)⟩

end Async

/-! ## Synchronous steps -/

/-- What a synchronous flush owes when it returns. -/
def Good (b : Build) (s : Nv W) : Prop := s.pending = true ∨ ∀ c, b.Saved s c

/-- Both sectors hold the pool, once nothing is left in the queue. -/
theorem Core.good {o : Option Pc} (h : Core b s L o) (hq : queueOf userdataModule s.dev L = [])
    (hcopy : ∀ j < poolSize, s.dev.direct (b.addr .bak + j) = s.dev.direct (b.addr .main + j)) : Good b s := by
  cases hp : s.pending with
  | true => exact .inl hp
  | false =>
    have hk := h.kept hp
    have hflash : ∀ c, SameBytes poolSize s.dev.api.hal.flash (b.addr c) s.dev.direct (b.addr c) := fun c j hj =>
      h.owned.flash_eq (b.addr_mem c) (b.addr_mod c) (by rw [hq, secOps_nil]) hj
    have hmain : ∀ c, SameBytes poolSize s.dev.direct (b.addr c) s.dev.direct (b.addr .main) := fun c j hj => by
      cases c
      · rfl
      · exact hcopy j hj
    refine .inr fun c => ⟨?_, fun j hj => ?_⟩
    · rw [recordIsValid_congr (hflash c), recordIsValid_congr (hmain c)]
      exact hk.valid
    · rw [hflash c j hj, hmain c j hj]
      exact hk.equal j hj

/-- A step of a flush keeps the invariant, and pays what is owed when it is the last one. -/
def Steps (b : Build) (pc : Pc) (next : Option Pc) (s' : Nv W) : Prop :=
  ∃ L', Core b s' L' next ∧ (next = none → pc.isAsync = false → Good b s')

theorem Core.steps {pc : Pc} {p : Pc} (h : Core b s L (some p)) : Steps b pc (some p) s :=
  ⟨L, h, fun hn => (by cases hn)⟩

theorem fits_some {p : Pc} (h : p.Fits b s) : ∀ pc, some p = some pc → pc.Fits b s := by
  rintro _ ⟨⟩
  exact h

/-- The flush state goes on to `t`, and no operation is added. -/
theorem Core.set {o : Option Pc} (h : Core b s L o) (p : Pc) (t : NvState) (n : Nat)
    (hst : (stageAt (some p) t n).Ok b s.dev.direct (queueOf userdataModule s.dev L))
    (hdirty : t = .mainErasing ∨ stageAt (some p) t n = .mainErased → s.is_update = true)
    (hsize : t = .bakWritting → p.sized = true → n < poolSize)
    (hfit : p.Fits b { s with state := t, written_size := n }) :
    Core b { s with state := t, written_size := n } L (some p) :=
  ⟨h.owned, hst, h.kept, hdirty, hsize, fits_some hfit⟩

section Sync
variable {env : FlushEnv} {next : Option Pc} {c : Copy} {a : Bool}

theorem start_steps (h : Core b s L (some (.start a))) (ht : b.stepFlush env (.start a) s = some (next, s')) :
    Steps b (.start a) next s' := by
  have hfit : a = false → Due b s := h.fits _ rfl
  cases ht
  split
  · rename_i hc
    exact (h.goto (some (.main a)) rfl rfl (fits_some ⟨hc, hfit⟩)).steps
  · exact (h.goto (some (.bak a)) rfl rfl (fits_some hfit)).steps

theorem main_steps (h : Core b s L (some (.main a))) (ht : b.stepFlush env (.main a) s = some (next, s')) :
    Steps b (.main a) next s' := by
  obtain ⟨hc, hdue⟩ : s.callsMain = true ∧ (a = false → Due b s) := h.fits _ rfl
  simp only [Build.stepFlush] at ht
  split at ht
  · cases ht
    cases a with
    | true => exact ⟨L, h.goto none rfl rfl (by simp), fun _ ha => (by cases ha)⟩
    | false => exact (h.goto (some (.bak false)) rfl rfl (fits_some hdue)).steps
  split at ht
  · cases ht
    cases a with
    | true => exact (h.goto (some .asyncMain) rfl rfl (fits_some hc)).steps
    | false => exact (h.goto (some (.ifErase .main)) rfl rfl (fits_some ⟨hc, hdue rfl⟩)).steps
  · cases ht

/-- Where the backup part is not called, a flush that left nothing undone has nothing left to do. -/
theorem bak_steps (h : Core b s L (some (.bak a))) (ht : b.stepFlush env (.bak a) s = some (next, s')) :
    Steps b (.bak a) next s' := by
  have hdue : a = false → Due b s := h.fits _ rfl
  cases ht
  split
  · rename_i hc
    cases a with
    | true => exact (h.goto (some .asyncBak) rfl rfl (fits_some hc)).steps
    | false => exact (h.goto (some (.ifErase .bak)) rfl rfl (fits_some ⟨hc, hdue rfl⟩)).steps
  · rename_i hc
    refine ⟨L, h.goto none rfl rfl (by simp), fun _ ha => ?_⟩
    rcases hdue ha with hp | hs | hs | hs | ⟨hs, hcopy⟩
    · exact .inl hp
    · simp [Nv.callsBak, hs] at hc
    · simp [Nv.callsBak, hs] at hc
    · simp [Nv.callsBak, hs] at hc
    · have hq := h.stage
      rw [hs] at hq
      exact h.good hq hcopy

theorem ifErase_steps (h : Core b s L (some (.ifErase c))) (ht : b.stepFlush env (.ifErase c) s = some (next, s')) :
    Steps b (.ifErase c) next s' := by
  have hfit := h.fits _ rfl
  cases ht
  split
  · rename_i he
    refine (h.goto (some (.erase c)) rfl rfl (fits_some ⟨he, ?_⟩)).steps
    rintro rfl
    exact h.update_of_erases hfit.1 he
  · rename_i he
    refine (h.goto (some (.ifWrite c)) (by cases c <;> rfl) rfl (fits_some ?_)).steps
    cases c with
    | main =>
      refine ⟨?_, hfit.2⟩
      have hc : s.callsMain = true := hfit.1
      rcases hs : s.state with _ | _ | _ | _ | _ | _ | _ | _ | _ | _ | _ <;>
        simp [Copy.erases, Nv.callsMain, hs] at he hc ⊢
    | bak =>
      refine ⟨?_, hfit.2⟩
      have hc : s.callsBak = true := hfit.1
      rcases hs : s.state with _ | _ | _ | _ | _ | _ | _ | _ | _ | _ | _ <;>
        simp [Copy.erases, Nv.callsBak, hs] at he hc ⊢

theorem erase_steps (h : Core b s L (some (.erase c))) (ht : b.stepFlush env (.erase c) s = some (next, s')) :
    Steps b (.erase c) next s' := by
  obtain ⟨he, hu⟩ : c.erases s.state = true ∧ (c = .main → s.is_update = true) := h.fits _ rfl
  have hst := h.stage
  have hsize : s.state ≠ .bakWritting := fun hs => by rw [hs] at he; cases c <;> cases he
  simp only [Build.stepFlush] at ht
  cases c with
  | main =>
    have hq : queueOf userdataModule s.dev L = [] := by
      rcases hs : s.state with _ | _ | _ | _ | _ | _ | _ | _ | _ | _ | _ <;> rw [hs] at hst <;> simp [Copy.erases, hs] at he <;>
        exact hst
    rcases onRet_cases ht with ⟨s₁, hcall, ht⟩ | ⟨s₁, hcall, ht⟩ <;> cases ht <;>
      obtain ⟨dev', rfl, ⟨hr, hres⟩ | ⟨hr, L', ho', hok⟩⟩ := eraseMain h.owned hq hcall
    · exact absurd rfl hr
    · refine ⟨L', ⟨ho', hok, fun hp => ?_, fun _ => hu rfl, fun hs => absurd hs hsize, fits_some ⟨he, hu⟩⟩, fun hn => (by cases hn)⟩
      exact absurd (pending_of_update (hu rfl)) (by rw [show s.pending = false from hp]; simp)
    · obtain ⟨L₁, h₁⟩ := hres.core h
      exact (h₁.goto (some (.eraseFlush .main)) rfl rfl (fits_some ⟨he, hu⟩)).steps
    · cases hr
  | bak =>
    have hq : queueOf userdataModule s.dev L = [] := by
      rcases hs : s.state with _ | _ | _ | _ | _ | _ | _ | _ | _ | _ | _ <;> rw [hs] at hst <;> simp [Copy.erases, hs] at he <;>
        exact hst
    have hmain : s.state ≠ .mainErasing := fun hs => by rw [hs] at he; cases he
    rcases onRet_cases ht with ⟨s₁, hcall, ht⟩ | ⟨s₁, hcall, ht⟩ <;> cases ht <;>
      obtain ⟨dev', rfl, ⟨hr, hres⟩ | ⟨hr, L', ⟨ho', hok⟩, hsame⟩⟩ := eraseBak h.owned hq hcall
    · exact absurd rfl hr
    · exact ⟨L', ⟨ho', hok, fun hp => (h.kept hp).congr hsame, fun hd => (hd.elim (absurd · hmain) fun hd => (by cases hd)),
        fun hs => absurd hs hsize, fits_some ⟨he, hu⟩⟩, fun hn => (by cases hn)⟩
    · obtain ⟨L₁, h₁⟩ := hres.core h
      exact (h₁.goto (some (.eraseFlush .bak)) rfl rfl (fits_some ⟨he, hu⟩)).steps
    · cases hr

theorem setErased_steps (h : Core b s L (some (.setErased c)))
    (ht : b.stepFlush env (.setErased c) s = some (next, s')) : Steps b (.setErased c) next s' := by
  obtain ⟨-, hu⟩ : c.erases s.state = true ∧ (c = .main → s.is_update = true) := h.fits _ rfl
  cases ht
  cases c with
  | main =>
    exact (h.set (.ifWrite .main) .mainErased s.written_size h.stage (fun _ => hu rfl) (fun hs => (by cases hs))
      ⟨.inl rfl, .inl (pending_of_update (hu rfl))⟩).steps
  | bak =>
    exact (h.set (.ifWrite .bak) .bakErased s.written_size h.stage (not_dirty nofun nofun) (fun hs => (by cases hs))
      ⟨.inl rfl, .inr (.inr (.inr (.inl rfl)))⟩).steps

/-- A flush that finds the copy writing or written goes past both branches; the flag is set, if it left nothing undone. -/
theorem ifWrite_steps (h : Core b s L (some (.ifWrite c))) (ht : b.stepFlush env (.ifWrite c) s = some (next, s')) :
    Steps b (.ifWrite c) next s' := by
  have hfit := h.fits _ rfl
  cases c with
  | main =>
    obtain ⟨hs, hdue⟩ := hfit
    cases ht
    split
    · rename_i he
      exact (h.goto (some .mainWrite) rfl rfl (fits_some he)).steps
    · exact (h.goto (some (.bak false)) rfl rfl (fits_some fun _ => hdue)).steps
  | bak =>
    obtain ⟨hs, hdue⟩ := hfit
    cases ht
    split
    · rename_i he
      refine (h.goto (some .bakStart) ?_ rfl (fits_some he)).steps
      rw [he]
      rfl
    · rename_i he
      refine (h.goto (some (.bakEnd false)) rfl rfl (fits_some fun _ => ?_)).steps
      rcases hdue with hp | hd | hd | hd | ⟨hd, -⟩
      · exact .inr hp
      all_goals rcases hs with hs | hs | hs | hs <;> rw [hs] at hd he <;> first | exact absurd rfl he | cases hd

theorem mainWrite_steps (h : Core b s L (some .mainWrite)) (ht : b.stepFlush env .mainWrite s = some (next, s')) :
    Steps b .mainWrite next s' := by
  have hs : s.state = .mainErased := h.fits _ rfl
  have hst : stageAt (some .mainWrite) s.state s.written_size = .mainErased := by rw [hs]; rfl
  have hu := h.dirty (.inr hst)
  have herased := h.stage
  rw [hst] at herased
  have hsize : s.state ≠ .bakWritting := by simp [hs]
  simp only [Build.stepFlush] at ht
  rcases onRet_cases ht with ⟨s₁, hcall, ht⟩ | ⟨s₁, hcall, ht⟩ <;> cases ht <;>
    obtain ⟨dev', rfl, ⟨hr, hres⟩ | ⟨hr, L', ⟨ho', hok⟩, hkept⟩⟩ := writeMain h.owned herased hcall
  · exact absurd rfl hr
  · exact ⟨L', ⟨ho', hok, fun _ => hkept, fun _ => hu, fun hw => absurd hw hsize, fits_some hs⟩, fun hn => (by cases hn)⟩
  · obtain ⟨L₁, h₁⟩ := hres.core h
    exact ((h₁.setPool (pending_of_update hu) _).goto (some (.writeFlush .main)) rfl rfl (fits_some hs)).steps
  · cases hr

/-- The flag is taken back when the pool is as it was written, or a change of it is still to be reported. -/
theorem mainClear_steps (h : Core b s L (some .mainClear))
    (hc : s.awaiting = true ∨ ∀ j < poolSize, s.dev.direct (b.addr .main + j) = s.pool j)
    (ht : b.stepFlush env .mainClear s = some (next, s')) : Steps b .mainClear next s' := by
  have hs : s.state = .mainErased := h.fits _ rfl
  have hok := h.stage
  cases ht
  refine ⟨L, ⟨h.owned, hok, fun hp => ⟨hok.2, ?_⟩, not_dirty (by simp [hs]) nofun, fun hw => ?_, fits_some hs⟩, fun hn => (by cases hn)⟩
  · refine hc.resolve_left fun ha => ?_
    simp [Nv.pending, ha] at hp
  · exact absurd (hs.symm.trans hw) (by simp)

theorem bakChunk_steps (h : Core b s L (some .bakChunk)) (ht : b.stepFlush env .bakChunk s = some (next, s')) :
    Steps b .bakChunk next s' := by
  have hs : s.state = .bakWritting := h.fits _ rfl
  have hok := h.stage
  rw [hs] at hok
  have hsize := h.size hs rfl
  simp only [Build.stepFlush] at ht
  rcases onRet_cases ht with ⟨s₁, hcall, ht⟩ | ⟨s₁, hcall, ht⟩ <;> cases ht <;>
    obtain ⟨dev', rfl, ⟨hr, hres⟩ | ⟨hr, L', ⟨ho', hok'⟩, hsame⟩⟩ := copyChunk h.owned hok rfl hsize hcall
  · exact absurd rfl hr
  · exact ⟨L', ⟨ho', hok', fun hp => (h.kept hp).congr hsame, not_dirty (by simp [hs]) nofun, fun _ _ => hsize, fits_some hs⟩,
      fun hn => (by cases hn)⟩
  · obtain ⟨L₁, h₁⟩ := hres.core h
    exact (h₁.goto (some .bakFull) rfl rfl (fits_some hs)).steps
  · cases hr

/-- The copying loop goes on to `n` bytes. -/
theorem copying_steps {p q : Pc} {n : Nat} (h : Core b s L (some p)) (hs : s.state = .bakWritting)
    (hok : (stageAt (some q) .bakWritting n).Ok b s.dev.direct (queueOf userdataModule s.dev L))
    (hst : stageAt (some q) .bakWritting n ≠ .mainErased) (hsize : q.sized = true → n < poolSize)
    (hfit : q.Fits b { s with written_size := n }) : Steps b p (some q) { s with written_size := n } :=
  ⟨L, ⟨h.owned, hs ▸ hok, h.kept, not_dirty (by simp [hs]) (hs ▸ hst), fun _ => hsize, fits_some hfit⟩, fun hn => (by cases hn)⟩

theorem bakStartSize_steps (h : Core b s L (some .bakStartSize))
    (ht : b.stepFlush env .bakStartSize s = some (next, s')) : Steps b .bakStartSize next s' := by
  have hs : s.state = .bakWritting := h.fits _ rfl
  have hok := h.stage
  cases ht
  exact copying_steps h hs hok nofun (fun _ => Nat.zero_lt_succ _) hs

theorem bakAdvance_steps (h : Core b s L (some .bakAdvance))
    (ht : b.stepFlush env .bakAdvance s = some (next, s')) : Steps b .bakAdvance next s' := by
  have hs : s.state = .bakWritting := h.fits _ rfl
  have hok := h.stage
  rw [hs] at hok
  cases ht
  exact copying_steps h hs hok nofun nofun hs

theorem bakFull_steps (h : Core b s L (some .bakFull)) (ht : b.stepFlush env .bakFull s = some (next, s')) :
    Steps b .bakFull next s' := by
  have hs : s.state = .bakWritting := h.fits _ rfl
  have hok := h.stage
  rw [hs] at hok
  cases ht
  exact (h.set (.writeFlush .bak) .bakWritting s.written_size hok (not_dirty nofun nofun) (fun _ _ => h.size hs rfl) rfl).steps

theorem bakSetWritten_steps (h : Core b s L (some .bakSetWritten))
    (ht : b.stepFlush env .bakSetWritten s = some (next, s')) : Steps b .bakSetWritten next s' := by
  have hs : s.state = .bakWritten := h.fits _ rfl
  have hok := h.stage
  rw [hs] at hok
  cases ht
  exact (h.set (.drain .bak) .bakWritten s.written_size hok (not_dirty nofun nofun) (fun hs => (by cases hs)) rfl).steps

theorem bakIfWritten_steps (h : Core b s L (some .bakIfWritten))
    (ht : b.stepFlush env .bakIfWritten s = some (next, s')) : Steps b .bakIfWritten next s' := by
  have hs : s.state = .bakWritting := h.fits _ rfl
  have hok := h.stage
  rw [hs] at hok
  simp only [Build.stepFlush] at ht
  split at ht <;> rename_i hn <;> cases ht
  · rw [hn] at hok
    exact (h.set .bakSetWritten .bakWritten s.written_size hok (not_dirty nofun nofun)
      (fun hs => (by cases hs)) rfl).steps
  · refine ⟨L, ⟨h.owned, h.stage, h.kept, h.dirty, fun _ _ => ?_, fits_some hs⟩, fun hn => (by cases hn)⟩
    exact Nat.lt_of_le_of_ne hok.2.le hn

theorem drainCheck_steps (h : Core b s L (some (.drainCheck c)))
    (ht : b.stepFlush env (.drainCheck c) s = some (next, s')) : Steps b (.drainCheck c) next s' := by
  have hfit := h.fits _ rfl
  obtain ⟨m, hm, ht⟩ := Option.bind_eq_some_iff.1 ht
  split at ht <;> rename_i hdrained <;> cases ht
  · have hq := (drained_spec h.owned hm).1 hdrained
    have hok := h.stage
    cases c with
    | main =>
      have hs : s.state = .mainWritten := hfit
      exact (h.set (.setDone .main) s.state s.written_size hq (not_dirty (by simp [hs]) nofun)
        (fun hw => absurd (hs.symm.trans hw) (by simp)) hs).steps
    | bak =>
      have hs : s.state = .bakWritten := hfit
      rw [hs] at hok
      exact (h.set (.setDone .bak) s.state s.written_size ⟨hq, hok.2⟩ (not_dirty (by simp [hs]) nofun)
        (fun hw => absurd (hs.symm.trans hw) (by simp)) hs).steps
  · cases c with
    | main => exact (h.goto (some (.drain .main)) rfl rfl (fits_some hfit)).steps
    | bak => exact (h.goto (some (.drain .bak)) rfl rfl (fits_some hfit)).steps

theorem setDone_steps (h : Core b s L (some (.setDone c))) (ht : b.stepFlush env (.setDone c) s = some (next, s')) :
    Steps b (.setDone c) next s' := by
  have hok := h.stage
  cases ht
  cases c with
  | main =>
    exact (h.set (.bak false) .mainDone s.written_size hok (not_dirty nofun nofun) (fun hs => (by cases hs))
      fun _ => .inr (.inl rfl)).steps
  | bak =>
    exact (h.set (.bakEnd false) .bakDone s.written_size hok (not_dirty nofun nofun) (fun hs => (by cases hs))
      fun _ => .inl rfl).steps

/-- The end of the backup part. -/
theorem bakEnd_steps (h : Core b s L (some (.bakEnd a))) (ht : b.stepFlush env (.bakEnd a) s = some (next, s')) :
    Steps b (.bakEnd a) next s' := by
  have hfit : a = false → s.state = .bakDone ∨ s.pending = true := h.fits _ rfl
  cases ht
  split
  · rename_i hs
    have hok := h.stage
    rw [hs] at hok
    have h₁ : Core b { s with state := .idle } L none :=
      ⟨h.owned, hok.1, h.kept, not_dirty nofun nofun, fun hs => (by cases hs), by simp⟩
    exact ⟨L, h₁, fun _ _ => h₁.good hok.1 hok.2.copied⟩
  · rename_i hs
    exact ⟨L, h.goto none rfl rfl (by simp), fun _ ha => .inl ((hfit ha).resolve_left hs)⟩

end Sync

/-- Every step of a flush. -/
theorem stepFlush_steps {env : FlushEnv} {pc : Pc} {next : Option Pc} (h : Core b s L (some pc))
    (hc : pc = .mainClear → s.awaiting = true ∨ ∀ j < poolSize, s.dev.direct (b.addr .main + j) = s.pool j)
    (ht : b.stepFlush env pc s = some (next, s')) : Steps b pc next s' := by
  have hfit := h.fits _ rfl
  have hflush : ∀ {p : Pc}, (Build.flushNow env s).map (some p, ·) = some (next, s') →
      stageAt (some p) s.state s.written_size = stageAt (some pc) s.state s.written_size → pc.sized = true →
      (∀ dev' : Sys W, Pc.Fits b { s with dev := dev' } p) → Steps b pc next s' := by
    intro p ht hst hsz hp
    obtain ⟨s₁, hrun, he⟩ := Option.map_eq_some_iff.1 ht
    cases he
    obtain ⟨dev', L₁, rfl, h₁⟩ := h.flushNow hrun
    exact (h₁.goto (some p) hst hsz (fits_some (hp dev'))).steps
  cases pc with
  | start a => exact start_steps h ht
  | bak a => exact bak_steps h ht
  | main a => exact main_steps h ht
  | asyncMain =>
    obtain ⟨s₁, hrun, he⟩ := Option.map_eq_some_iff.1 ht
    cases he
    obtain ⟨L', h'⟩ := asyncMain_core h hrun
    exact ⟨L', h', fun _ ha => (by cases ha)⟩
  | asyncBak =>
    obtain ⟨s₁, hrun, he⟩ := Option.map_eq_some_iff.1 ht
    cases he
    obtain ⟨L', h'⟩ := asyncBak_core h hrun
    exact (h'.goto (some (.bakEnd true)) rfl rfl (fits_some fun ha => (by cases ha))).steps
  | ifErase c => exact ifErase_steps h ht
  | erase c => exact erase_steps h ht
  | eraseFlush c => exact hflush ht (by cases c <;> rfl) rfl fun _ => hfit
  | eraseFree c =>
    obtain ⟨n, -, he⟩ := Option.bind_eq_some_iff.1 ht
    cases he
    split
    · exact (h.goto (some (.eraseFlush c)) (by cases c <;> rfl) rfl (fits_some hfit)).steps
    · exact (h.goto (some (.erase c)) (by cases c <;> rfl) rfl (fits_some hfit)).steps
  | setErased c => exact setErased_steps h ht
  | ifWrite c => exact ifWrite_steps h ht
  | mainWrite => exact mainWrite_steps h ht
  | mainClear => exact mainClear_steps h (hc rfl) ht
  | mainSetWritten =>
    cases ht
    exact (h.set (.drain .main) .mainWritten s.written_size h.stage (not_dirty nofun nofun) (fun hs => (by cases hs)) rfl).steps
  | bakStart =>
    cases ht
    exact (h.set .bakStartSize .bakWritting s.written_size h.stage (not_dirty nofun nofun)
      (fun _ hz => (by cases hz)) rfl).steps
  | bakStartSize => exact bakStartSize_steps h ht
  | bakChunk => exact bakChunk_steps h ht
  | bakAdvance => exact bakAdvance_steps h ht
  | bakIfWritten => exact bakIfWritten_steps h ht
  | bakFull => exact bakFull_steps h ht
  | bakSetWritten => exact bakSetWritten_steps h ht
  | writeFlush c =>
    cases c with
    | main => exact hflush ht rfl rfl fun _ => hfit
    | bak => exact hflush ht rfl rfl fun _ => hfit
  | writeFree c =>
    obtain ⟨n, -, he⟩ := Option.bind_eq_some_iff.1 ht
    cases he
    cases c <;> split
    · exact (h.goto (some (.writeFlush .main)) rfl rfl (fits_some hfit)).steps
    · exact (h.goto (some .mainWrite) rfl rfl (fits_some hfit)).steps
    · exact (h.goto (some (.writeFlush .bak)) rfl rfl (fits_some hfit)).steps
    · exact (h.goto (some .bakChunk) rfl rfl (fits_some hfit)).steps
  | drain c =>
    cases c with
    | main => exact hflush ht rfl rfl fun _ => hfit
    | bak => exact hflush ht rfl rfl fun _ => hfit
  | drainCheck c => exact drainCheck_steps h ht
  | setDone c => exact setDone_steps h ht
  | bakEnd a => exact bakEnd_steps h ht

/-! ## Runs -/

/-- A flush is called while none is under way, and the other modules keep to their own sectors. -/
def Build.InTurn (b : Build) : Event → Nv W → Prop
  | .call _, s => s.flushes = []
  | .other e, s => Norflash.Foreign userdataModule (Set.range b.addr) e ∧ QueueCond e s.dev
  | _, _ => True

/-- A synchronous flush is called with the flag set, or before the copying to the backup sector has begun,
or when nothing is to be done; and it takes the flag back while the pool is as it was written. -/
def Build.Cond (b : Build) (e : Event) (s : Nv W) : Prop :=
  b.InTurn e s ∧
    match e with
    | .call false => s.pending = true ∨ s.state = .mainDone ∨ s.state = .bakErasing ∨ s.state = .bakErased ∨
        s.state = .idle ∧ ∀ j < poolSize, s.dev.api.hal.flash (b.addr .bak + j) = s.dev.api.hal.flash (b.addr .main + j)
    | .run k _ => s.flushes[k]? = some .mainClear →
        s.awaiting = true ∨ ∀ j < poolSize, s.dev.direct (b.addr .main + j) = s.pool j
    | _ => True

section Decidable
variable (b : Build)

instance : DecidablePred (· ∈ Set.range b.addr) := fun a => inferInstanceAs (Decidable (∃ c, b.addr c = a))

instance (e : Event) (s : Nv W) : Decidable (b.InTurn e s) :=
  match e with
  | .call _ => inferInstanceAs (Decidable (_ = _))
  | .other _ => inferInstanceAs (Decidable (_ ∧ _))
  | .mutate _ | .update | .run .. => inferInstanceAs (Decidable True)

instance (e : Event) (s : Nv W) : Decidable (b.Cond e s) :=
  match e with
  | .call false => inferInstanceAs (Decidable (_ ∧ (_ ∨ _ ∨ _ ∨ _ ∨ _ ∧ _)))
  | .run .. => inferInstanceAs (Decidable (_ ∧ (_ → _)))
  | .call true | .mutate _ | .update | .other _ => inferInstanceAs (Decidable (_ ∧ True))

end Decidable

/-- The invariant of a run. -/
def Inv (b : Build) (s : Nv W) : Prop :=
  ∃ L o, Core b s L o ∧ s.flushes = o.toList ∧ (s.returned = true → Good b s)

theorem bootDev (b : Build) (flash : Mem) : Owned userdataModule (Set.range b.addr) (W := W)
    ⟨(norflashApiRegister b.registration (initial W flash).api).2, flash⟩ fun _ => [] := by
  obtain ⟨hi, hp, -⟩ := Sys.register_inStep (inStep_initial (W := W) flash (SectorInv.initial flash)) (r := b.registration) rfl
  exact ⟨hi, fun a _ m _ => rfl⟩

theorem nvRecordOpen_inv (h : b.Opened s) : Inv b s := by
  obtain ⟨flash, fresh, config, ht⟩ := h
  have hdev := bootDev (W := W) b flash
  unfold Build.nvRecordOpen at ht
  simp only at ht
  split at ht
  · obtain ⟨m, hm, ht⟩ := Option.bind_eq_some_iff.1 ht
    obtain ⟨k, hk, ht⟩ := Option.bind_eq_some_iff.1 ht
    cases m <;> cases k
    · simp only at ht
      split at ht
      · cases ht
      · cases ht
        exact ⟨fun _ => [], none, ⟨hdev, rfl, by simp [Nv.pending], by simp, by simp, by simp⟩, rfl, by simp⟩
    · cases ht
      exact ⟨fun _ => [], some (.start false),
        ⟨hdev, rfl, by simp [Nv.pending], by simp, by simp, fits_some fun _ => .inl rfl⟩, rfl, by simp⟩
    · cases ht
      exact ⟨fun _ => [], some (.start false),
        ⟨hdev, rfl, by simp [Nv.pending], by simp [stageAt, stateStage], by simp, fits_some fun _ => .inl rfl⟩, rfl, by simp⟩
    · cases ht
      exact ⟨fun _ => [], none, ⟨hdev, rfl, fun _ => ⟨hm, fun _ _ => rfl⟩, by simp [stageAt, stateStage], by simp, by simp⟩,
        rfl, by simp⟩
  · cases ht

/-- A synchronous flush may be called: it will leave nothing undone. -/
theorem Core.call (h : Core b s L none) {a : Bool} (hc : b.Cond (.call a) s) :
    Core b { s with flushes := s.flushes ++ [.start a], returned := false } L (some (.start a)) := by
  refine ⟨h.owned, h.stage, h.kept, h.dirty, fun hs _ => h.size hs rfl, fits_some fun ha => ?_⟩
  subst ha
  obtain ⟨-, hp | hs | hs | hs | ⟨hs, hcopy⟩⟩ := hc
  · exact .inl hp
  · exact .inr (.inl hs)
  · exact .inr (.inr (.inl hs))
  · exact .inr (.inr (.inr (.inl hs)))
  · have hq := h.stage
    rw [hs] at hq
    have hflash : ∀ c, ∀ j < poolSize, s.dev.api.hal.flash (b.addr c + j) = s.dev.direct (b.addr c + j) := fun c j hj =>
      h.owned.flash_eq (b.addr_mem c) (b.addr_mod c) (by rw [show queueOf _ _ _ = [] from hq, secOps_nil]) hj
    refine .inr (.inr (.inr (.inr ⟨hs, fun j hj => ?_⟩)))
    have := hcopy j hj
    rwa [hflash .bak j hj, hflash .main j hj] at this

theorem step_inv {e : Event} (h : Inv b s) (hc : b.Cond e s) (ht : b.step e s = some s') : Inv b s' := by
  obtain ⟨L, o, hcore, hfl, -⟩ := h
  cases e with
  | mutate pool =>
    cases ht
    refine ⟨L, o, ⟨hcore.owned, hcore.stage, fun hp => ?_, hcore.dirty, hcore.size, fun pc hpc => ?_⟩, hfl, by simp⟩
    · simp [Nv.pending] at hp
    · exact (hcore.fits pc hpc).mono rfl id (fun _ => by simp [Nv.pending]) fun _ _ _ => rfl
  | update =>
    simp only [Build.step] at ht
    split at ht <;> cases ht
    · exact ⟨L, o, ⟨hcore.owned, hcore.stage, hcore.kept, hcore.dirty, hcore.size,
        fun pc hpc => (hcore.fits pc hpc).mono rfl id id fun _ _ _ => rfl⟩, hfl, by simp⟩
    · refine ⟨L, o, ⟨hcore.owned, hcore.stage, fun hp => ?_, fun _ => rfl, hcore.size, fun pc hpc => ?_⟩, hfl, by simp⟩
      · simp [Nv.pending] at hp
      · exact (hcore.fits pc hpc).mono rfl (fun _ => rfl) (fun _ => rfl) fun _ _ _ => rfl
  | call a =>
    cases ht
    have hnil : s.flushes = [] := hc.1
    cases o with
    | some pc => rw [hnil] at hfl; cases hfl
    | none => exact ⟨L, some (.start a), hcore.call hc, by simp [hnil], by simp⟩
  | run k env =>
    obtain ⟨pc, hk, ht⟩ := Option.bind_eq_some_iff.1 ht
    obtain ⟨⟨next, s₁⟩, hstep, ht⟩ := Option.bind_eq_some_iff.1 ht
    cases ht
    cases o with
    | none => rw [hfl] at hk; cases hk
    | some pc' =>
      -- the only flush under way is the one of the invariant
      obtain ⟨rfl, rfl⟩ : k = 0 ∧ pc' = pc := by
        rw [hfl] at hk
        cases k with
        | zero => exact ⟨rfl, Option.some_inj.mp hk⟩
        | succ k => simp at hk
      obtain ⟨L', hcore', hgood⟩ := stepFlush_steps hcore (fun hp => hc.2 (hp ▸ hk)) hstep
      refine ⟨L', next, ⟨hcore'.owned, hcore'.stage, hcore'.kept, hcore'.dirty, hcore'.size, fun p hp => ?_⟩, ?_, fun hr => ?_⟩
      · exact (hcore'.fits p hp).mono rfl id id fun _ _ _ => rfl
      · rw [hfl]
        cases next <;> rfl
      · simp only [Bool.and_eq_true, Option.isNone_iff_eq_none, Bool.not_eq_true'] at hr
        exact (hgood hr.1 hr.2).imp id fun hsaved c => ⟨(hsaved c).valid, (hsaved c).equal⟩
  | other e =>
    obtain ⟨dev', hrun, ht⟩ := Option.bind_eq_some_iff.1 ht
    cases ht
    obtain ⟨L', ho, hd, hf⟩ := hcore.owned.other (Set.forall_mem_range.2 b.addr_mod) hc.1.1 hc.1.2 hrun
    have hcore' := hcore.device ho (fun c => hd _ (b.addr_mem c)) hf
    exact ⟨L', o, ⟨hcore'.owned, hcore'.stage, hcore'.kept, hcore'.dirty, hcore'.size,
      fun pc hpc => (hcore'.fits pc hpc).mono rfl id id fun _ _ _ => rfl⟩, hfl, by simp⟩

/-- When a synchronous flush returns, both sectors hold a valid record equal to the pool, or the flag is still set. -/
theorem saved_of_run {evs : List Event} (h : Run b.step b.Cond b.Opened s evs) (hr : s.returned = true) :
    s.pending = true ∨ ∀ c, b.Saved s c := by
  have hinv : Inv b s := h.inv (Inv b) (fun _ h₀ => nvRecordOpen_inv h₀) fun _ _ _ hi hc ht => step_inv hi hc ht
  obtain ⟨L, o, -, -, hgood⟩ := hinv
  exact hgood hr

/-- The two sectors at `0x1000` and `0x2000`. -/
def board : Build where
  userdata_start := 0x1000
  userdata_len := 0x2000
  block_size := 0x8000
  page_size := 0x100
  pool_addr := 0x20000000
  aligned := rfl
  pool_lt := by decide

/-- An erased flash; the new record has no sections. -/
def firstBoot : Option (Nv 2) := board.nvRecordOpen (fun _ => 0xff) (putU32 (fun _ => 0) 32 0x20000028) 0x20000020

/-- An asynchronous step, from its call to its end. -/
def inSleep : List Event := .call true :: List.replicate 3 (.run 0 ⟨true, .ok⟩)

/-- After five asynchronous steps the main sector is done, and a synchronous flush does the rest. -/
theorem saved_of_run_async : ∃ s : Nv 2, (∀ c, board.Saved s c) ∧ s.pool 0 = 0x91 := by
  obtain ⟨s, hr, hg⟩ := exists_run_of_check board.step board.Cond board.Opened firstBoot
    ((List.replicate 5 inSleep).flatten ++ .call false :: List.replicate 111 (.run 0 ⟨true, .ok⟩))
    (fun s => s.returned && !s.pending && s.pool 0 == 0x91) (fun _ h => ⟨_, _, _, h⟩) (by decide +kernel)
  simp only [Bool.and_eq_true, Bool.not_eq_true', beq_iff_eq] at hg
  exact ⟨s, (saved_of_run hr hg.1.1).resolve_left (by simp [hg.1.2]), hg.2⟩

/-- The write of the main sector is only queued, the flag is taken back, and a synchronous
flush returns success with the sector still erased. -/
theorem flush_returns_early : ¬ ∀ (W : Nat) (b : Build) (s : Nv W) (evs : List Event),
    Run b.step b.InTurn b.Opened s evs → s.returned = true → s.pending = true ∨ ∀ c, b.Saved s c := by
  intro h
  obtain ⟨s, hr, hg⟩ := exists_run_of_check board.step board.InTurn board.Opened firstBoot
    (inSleep ++ inSleep ++ .call false :: List.replicate 5 (.run 0 ⟨true, .ok⟩))
    (fun s => s.returned && !s.pending && s.dev.api.hal.flash 0x1000 != s.pool 0) (fun _ h => ⟨_, _, _, h⟩)
    (by decide +kernel)
  simp only [Bool.and_eq_true, Bool.not_eq_true', bne_iff_ne, ne_eq] at hg
  rcases h 2 board s _ hr hg.1.1 with hp | hsaved
  · rw [hg.1.2] at hp
    cases hp
  · exact hg.2 ((hsaved .main).equal 0 (by decide))

end NvRecord.LegacyFlush
