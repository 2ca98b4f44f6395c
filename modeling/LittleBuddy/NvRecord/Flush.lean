import LittleBuddy.NvRecord.Stages
/-!
# The steps of a flush

`Core` is the invariant of the NV record while at most one flush is inside
`_flush_main` or `_flush_bak`: the flush state and how far that flush has come
determine the stage of the sectors. Every step keeps it and makes at most one
step of the store.
-/
open NorMem Norflash

namespace NvRecord

variable {W : Nat} {cfg : Config} {s s' : NvSys W} {L : ModId → List (Slot W)} {o : Option Pc}

/-- The stage when no flush is between a call and setting the state. -/
def stateStage : NvState → Nat → Stage
  | .idle, _ | .mainErasing, _ => .rest
  | .mainErased, _ | .mainWritting, _ => .mainErased
  | .mainWritten, _ => .mainWritten
  | .mainDone, _ | .bakErasing, _ => .mainDone
  | .bakErased, _ => .bakErased 0
  | .bakWritting, n => .bakErased n
  | .bakWritten, _ => .bakErased extensionSize
  | .bakDone, _ => .bakDone

/-- The stage, by the flush inside `_flush_main` or `_flush_bak`, if any. -/
def stageAt : Option Pc → NvState → Nat → Stage
  | some (.setErased .main), _, _ => .mainErased
  | some .mainClear, _, _ | some .mainSetWritten, _, _ => .mainWritten
  | some (.setDone .main), _, _ => .mainDone
  | some (.setErased .bak), _, _ | some .bakStart, _, _ | some .bakStartSize, _, _ => .bakErased 0
  | some .bakAdvance, _, n => .bakErased (n + pageSize)
  | some (.setDone .bak), _, _ => .bakDone
  | _, st, n => stateStage st n

/-- The flush states in which a flush can be there. -/
def Pc.fits (s : NvSys W) : Pc → Bool
  | .initEnd | .start _ | .selMain _ | .selBak _ => true
  | .asyncMain | .ifErase .main => s.callsMain
  | .erase .main | .eraseFlush .main | .eraseFree .main | .setErased .main => Copy.erases .main s.state && s.is_update
  | .ifWrite .main => Copy.writes .main s.state || s.state == .mainWritten
  | .mainWrite | .writeFlush .main | .writeFree .main | .mainClear | .mainSetWritten => Copy.writes .main s.state
  | .drain .main | .drainCheck .main | .setDone .main => s.state == .mainWritten
  | .asyncBak | .ifErase .bak | .bakEnd _ => s.callsBak
  | .erase .bak | .eraseFlush .bak | .eraseFree .bak | .setErased .bak => Copy.erases .bak s.state
  | .ifWrite .bak => Copy.writes .bak s.state || s.state == .bakWritten || s.state == .bakDone
  | .bakStart => Copy.writes .bak s.state
  | .bakStartSize | .bakPage | .bakAdvance | .bakIfWritten | .writeFlush .bak | .writeFree .bak => s.state == .bakWritting
  | .drain .bak | .drainCheck .bak | .setDone .bak => s.state == .bakWritten || s.state == .bakDone

/-- The invariant; `o` is the flush inside `_flush_main` or `_flush_bak`. -/
structure Core (cfg : Config) (s : NvSys W) (L : ModId → List (Slot W)) (o : Option Pc) : Prop where
  at_stage : At cfg s.dev L (stageAt o s.state s.written_size)
  fits : ∀ pc, o = some pc → pc.fits s = true
  requested : s.state = .mainErasing ∨ stageAt o s.state s.written_size = .mainErased → s.is_update = true
  size : s.state = .bakWritting → o ≠ some .bakStartSize → o ≠ some .bakIfWritten → s.written_size < extensionSize

/-- The store as the state and the flush show it. -/
def shown (cfg : Config) (s : NvSys W) (L : ModId → List (Slot W)) (o : Option Pc) : TwoCopy.Store (List UInt8) :=
  view cfg s L (stageAt o s.state s.written_size)

/-- The invariant holds afterwards, after at most one step of the store. -/
def Moves (cfg : Config) (s : NvSys W) (L : ModId → List (Slot W)) (o : Option Pc) (s' : NvSys W) (o' : Option Pc) : Prop :=
  ∃ L', Core cfg s' L' o' ∧ Refines (shown cfg s L o) (shown cfg s' L' o')

/-! ## Flush states -/

theorem stage_erasesMain {st : NvState} (h : Copy.erases .main st = true) (n : Nat) : stateStage st n = .rest := by
  cases st <;> simp_all [Copy.erases, stateStage]

theorem stage_writesMain {st : NvState} (h : Copy.writes .main st = true) (n : Nat) : stateStage st n = .mainErased := by
  cases st <;> simp_all [Copy.writes, stateStage]

theorem stage_erasesBak {st : NvState} (h : Copy.erases .bak st = true) (n : Nat) : stateStage st n = .mainDone := by
  cases st <;> simp_all [Copy.erases, stateStage]

theorem callsMain_cases (h : s.callsMain = true) :
    s.state = .idle ∧ s.is_update = true ∨ s.state = .mainErasing ∨ Copy.writes .main s.state = true ∨
      s.state = .mainWritten := by
  cases hs : s.state <;> simp_all [NvSys.callsMain, Copy.writes]

theorem callsBak_cases (h : s.callsBak = true) :
    Copy.erases .bak s.state = true ∨ s.state = .bakErased ∨ s.state = .bakWritting ∨ s.state = .bakWritten ∨
      s.state = .bakDone := by
  cases hs : s.state <;> simp_all [NvSys.callsBak, Copy.erases]

/-- A flush of the main copy that finds it to be erased has been asked for. -/
theorem Core.erasesMain (h : Core cfg s L o) (hc : s.callsMain = true) (he : Copy.erases .main s.state = true) :
    s.is_update = true := by
  rcases callsMain_cases hc with ⟨-, hu⟩ | hs | hw | hs
  · exact hu
  · exact h.requested (.inl hs)
  · cases hs : s.state <;> simp_all [Copy.erases, Copy.writes]
  · simp_all [Copy.erases]

/-! ## Moving -/

/-- From what an operation does to the device. -/
theorem Moves.of_leads {p : Option Pc}
    (hl : Leads cfg s L (stageAt o s.state s.written_size) s' (stageAt p s'.state s'.written_size))
    (hfit : ∀ pc, p = some pc → pc.fits s' = true)
    (hreq : s'.state = .mainErasing ∨ stageAt p s'.state s'.written_size = .mainErased → s'.is_update = true)
    (hsize : s'.state = .bakWritting → p ≠ some .bakStartSize → p ≠ some .bakIfWritten →
      s'.written_size < extensionSize) : Moves cfg s L o s' p := by
  obtain ⟨L', hat, hr⟩ := hl
  exact ⟨L', ⟨hat, hfit, hreq, hsize⟩, hr⟩

theorem fits_some {pc : Pc} (h : pc.fits s = true) : ∀ pc', some pc = some pc' → pc'.fits s = true := by
  rintro _ ⟨⟩
  exact h

/-- A step that only changes the flush state. -/
theorem Core.set (h : Core cfg s L o) {p : Option Pc} {t : NvState} {n : Nat}
    (hok : (stageAt p t n).Ok cfg s.dev.direct (nvQueue s.dev L))
    (hphase : (stageAt p t n).phase (nvQueue s.dev L) = (stageAt o s.state s.written_size).phase (nvQueue s.dev L))
    (hfit : ∀ pc, p = some pc → pc.fits { s with state := t, written_size := n } = true)
    (hreq : t = .mainErasing ∨ stageAt p t n = .mainErased → s.is_update = true)
    (hsize : t = .bakWritting → p ≠ some .bakStartSize → p ≠ some .bakIfWritten → n < extensionSize) :
    Moves cfg s L o { s with state := t, written_size := n } p := by
  refine ⟨L, ⟨⟨h.at_stage.inv, hok⟩, hfit, hreq, hsize⟩, .inl ?_⟩
  simp only [shown, view, hphase]

/-- The flush goes on without touching anything. -/
theorem Core.goto (h : Core cfg s L o) (o' : Option Pc) (hfit : ∀ pc, o' = some pc → pc.fits s = true)
    (hst : stageAt o' s.state s.written_size = stageAt o s.state s.written_size)
    (hsize : s.state = .bakWritting → o' ≠ some .bakStartSize → o' ≠ some .bakIfWritten →
      o ≠ some .bakStartSize ∧ o ≠ some .bakIfWritten) : Moves cfg s L o s o' := by
  refine h.set (hst ▸ h.at_stage.ok) (by rw [hst]) hfit (fun hm => h.requested (by rwa [hst] at hm)) fun hs h₁ h₂ => ?_
  exact h.size hs (hsize hs h₁ h₂).1 (hsize hs h₁ h₂).2

/-- Pending operations are executed, and the flush goes on. -/
theorem Core.flush (h : Core cfg s L o) {env : FlushEnv} (ht : Config.flushNow env s = some s') (o' : Option Pc)
    (hfit : ∀ pc, o' = some pc → pc.fits s = true)
    (hst : stageAt o' s.state s.written_size = stageAt o s.state s.written_size)
    (hsize : s.state = .bakWritting → o' ≠ some .bakStartSize → o' ≠ some .bakIfWritten →
      o ≠ some .bakStartSize ∧ o ≠ some .bakIfWritten) : Moves cfg s L o s' o' := by
  obtain ⟨dev', rfl, hset⟩ := h.at_stage.flushNow ht
  refine .of_leads (by simpa only [hst] using hset.leads) hfit (fun hm => h.requested ?_) fun hs h₁ h₂ => ?_
  · simpa only [hst] using hm
  · exact h.size hs (hsize hs h₁ h₂).1 (hsize hs h₁ h₂).2

theorem onRet_cases {β : Type} {call : Option (Ret × NvSys W)} {ok full : NvSys W → Option β} {x : β}
    (h : Config.onRet call ok full = some x) :
    (∃ s', call = some (.ok, s') ∧ ok s' = some x) ∨ ∃ s', call = some (.bufferFull, s') ∧ full s' = some x := by
  obtain ⟨⟨r, s'⟩, hcall, hx⟩ := Option.bind_eq_some_iff.1 h
  cases r with
  | ok => exact .inl ⟨s', hcall, hx⟩
  | bufferFull => exact .inr ⟨s', hcall, hx⟩
  | _ => cases hx

theorem drained_spec (h : DevInv cfg s.dev L) {b : Bool} (hb : Config.drained s = some b) :
    b = true ↔ nvQueue s.dev L = [] := by
  obtain ⟨n, hn, hb⟩ := Option.bind_eq_some_iff.1 hb
  cases hb
  rw [decide_eq_true_iff]
  exact h.count hn

/-! ## The asynchronous steps -/

theorem asyncMain_moves {env : FlushEnv} (h : Core cfg s L (some .asyncMain)) (ht : cfg.asyncMain env s = some s') :
    Moves cfg s L (some .asyncMain) s' none := by
  have hcalls : s.callsMain = true := h.fits _ rfl
  unfold Config.asyncMain at ht
  split at ht
  · rename_i he
    have hu := h.erasesMain hcalls he
    have hst : stageAt (some .asyncMain) s.state s.written_size = .rest := stage_erasesMain he _
    have hat : At cfg s.dev L .rest := hst ▸ h.at_stage
    rcases onRet_cases ht with ⟨s₁, hcall, ht⟩ | ⟨s₁, hcall, ht⟩
    · obtain ⟨⟨dev', rfl⟩, -, hok⟩ := hat.eraseMain (s := { s with state := .mainErasing }) hu hcall
      cases ht
      refine .of_leads ?_ (by simp) (fun _ => hu) (by simp)
      rw [hst]
      exact hok rfl
    · obtain ⟨⟨dev', rfl⟩, hfull, -⟩ := hat.eraseMain (s := { s with state := .mainErasing }) hu hcall
      obtain ⟨dev₂, rfl, hl⟩ := (hfull (by simp)).flushNow ht
      refine .of_leads ?_ (by simp) (fun _ => hu) (by simp)
      rw [hst]
      exact hl
  rename_i he
  split at ht
  · rename_i hw
    have hst : stageAt (some .asyncMain) s.state s.written_size = .mainErased := stage_writesMain hw _
    have hat : At cfg s.dev L .mainErased := hst ▸ h.at_stage
    have hu : s.is_update = true := h.requested (.inr hst)
    rcases onRet_cases ht with ⟨s₁, hcall, ht⟩ | ⟨s₁, hcall, ht⟩
    · obtain ⟨⟨dev', rfl⟩, -, hok⟩ := hat.writeMain (s := { s with state := .mainWritting }) hcall
      cases ht
      refine .of_leads ?_ (by simp) (by simp [stageAt, stateStage]) (by simp)
      rw [hst]
      exact hok rfl false (by simp)
    · obtain ⟨⟨dev', rfl⟩, hfull, -⟩ := hat.writeMain (s := { s with state := .mainWritting }) hcall
      obtain ⟨dev₂, rfl, hl⟩ := (hfull (by simp)).flushNow ht
      refine .of_leads ?_ (by simp) (fun _ => hu) (by simp)
      rw [hst]
      exact hl
  rename_i hw
  have hs : s.state = .mainWritten := by
    rcases callsMain_cases hcalls with ⟨hs, -⟩ | hs | hw' | hs
    · simp [hs, Copy.erases] at he
    · simp [hs, Copy.erases] at he
    · exact absurd hw' hw
    · exact hs
  have hst : stageAt (some .asyncMain) s.state s.written_size = .mainWritten := by simp [stageAt, hs, stateStage]
  obtain ⟨b, hb, ht⟩ := Option.bind_eq_some_iff.1 ht
  split at ht
  · rename_i hdrained
    cases ht
    have hq := (drained_spec h.at_stage.inv hb).1 hdrained
    have hok := h.at_stage.ok
    rw [hst] at hok
    have hphase : Stage.phase (nvQueue s.dev L) .mainDone = Stage.phase (nvQueue s.dev L) .mainWritten := by
      simp [Stage.phase, hq]
    exact h.set (p := none) (t := .mainDone) (n := s.written_size) ⟨hq, hok.2⟩ (by rw [hst]; exact hphase) (by simp)
      (by simp [stageAt, stateStage]) (by simp)
  · exact h.flush ht none (by simp) rfl (by simp [hs])

/-- The copying loop ends with the page that fills the sector, or with a full queue. -/
theorem copyLoop_spec {env : FlushEnv} (fuel : Nat) {s s' : NvSys W} {L : ModId → List (Slot W)}
    (hat : At cfg s.dev L (.bakErased s.written_size)) (hs : s.state = .bakWritting)
    (hlt : s.written_size < extensionSize) (ht : cfg.copyLoop env fuel s = some s') :
    ∃ dev' st' n', s' = { s with dev := dev', state := st', written_size := n' } ∧
      (st' = .bakWritting ∧ n' < extensionSize ∨ st' = .bakWritten) ∧
      ∃ L', At cfg dev' L' (stateStage st' n') ∧
        Copies (view cfg s L (.bakErased s.written_size)) (view cfg s' L' (stateStage st' n')) := by
  induction fuel generalizing s L with
  | zero => cases ht
  | succ fuel ih =>
    rcases onRet_cases ht with ⟨s₁, hcall, ht⟩ | ⟨s₁, hcall, ht⟩
    · obtain ⟨⟨dev₁, rfl⟩, -, hok⟩ := hat.copyPage rfl hlt hcall
      obtain ⟨L₁, hat₁, hcopy⟩ := hok rfl
      have hle : s.written_size + pageSize ≤ extensionSize := hat₁.ok.2.2.le
      simp only at ht
      split at ht
      · rename_i heq
        cases ht
        refine ⟨dev₁, .bakWritten, s.written_size + pageSize, rfl, .inr rfl, L₁, ?_, ?_⟩
        · rw [stateStage, ← heq]
          exact hat₁
        · rw [stateStage, ← heq]
          exact hcopy
      · rename_i hne
        have hlt' : s.written_size + pageSize < extensionSize := by omega
        obtain ⟨dev', st', n', rfl, hst, L', hat', hcopy'⟩ :=
          ih (s := { s with dev := dev₁, written_size := s.written_size + pageSize }) hat₁ hs hlt' ht
        exact ⟨dev', st', n', rfl, hst, L', hat', hcopy.trans hcopy'⟩
    · obtain ⟨⟨dev₁, rfl⟩, hfull, -⟩ := hat.copyPage rfl hlt hcall
      obtain ⟨L₁, hat₁, hv₁⟩ := hfull (by simp)
      obtain ⟨dev', rfl, hset⟩ := hat₁.flushNow ht
      obtain ⟨L', hat', hv'⟩ := hset.stays
      refine ⟨dev', s.state, s.written_size, rfl, .inl ⟨hs, hlt⟩, L', ?_, ?_⟩
      · rw [hs]
        exact hat'
      · rw [hs]
        exact .of_eq rfl (hv'.trans hv₁)

theorem asyncBak_moves {env : FlushEnv} (h : Core cfg s L (some .asyncBak)) (ht : cfg.asyncBak env s = some s') :
    Moves cfg s L (some .asyncBak) s' (some (.bakEnd true)) := by
  have hcalls : s.callsBak = true := h.fits _ rfl
  unfold Config.asyncBak at ht
  split at ht
  · rename_i he
    have hst : stageAt (some .asyncBak) s.state s.written_size = .mainDone := stage_erasesBak he _
    have hat : At cfg s.dev L .mainDone := hst ▸ h.at_stage
    rcases onRet_cases ht with ⟨s₁, hcall, ht⟩ | ⟨s₁, hcall, ht⟩
    · obtain ⟨⟨dev', rfl⟩, -, hok⟩ := hat.eraseBak (s := { s with state := .bakErasing }) hcall
      cases ht
      refine .of_leads ?_ (fits_some rfl) (by simp [stageAt, stateStage]) (by simp)
      rw [hst]
      exact hok rfl
    · obtain ⟨⟨dev', rfl⟩, hfull, -⟩ := hat.eraseBak (s := { s with state := .bakErasing }) hcall
      obtain ⟨dev₂, rfl, hl⟩ := (hfull (by simp)).flushNow ht
      refine .of_leads ?_ (fits_some rfl) (by simp [stageAt, stateStage]) (by simp)
      rw [hst]
      exact hl
  rename_i he
  split at ht
  · rename_i hw
    have hst : stageAt (some .asyncBak) s.state s.written_size =
        .bakErased (if s.state = .bakErased then 0 else s.written_size) := by
      cases hs : s.state <;> simp_all [Copy.writes, stageAt, stateStage]
    have hlt : (if s.state = .bakErased then 0 else s.written_size) < extensionSize := by
      split
      · decide
      · exact h.size (by cases hs : s.state <;> simp_all [Copy.writes]) (by simp) (by simp)
    have hat : At cfg s.dev L (.bakErased (if s.state = .bakErased then 0 else s.written_size)) := hst ▸ h.at_stage
    obtain ⟨dev', st', n', rfl, hend, L', hat', hcopy⟩ := copyLoop_spec (s := { s with
      written_size := if s.state = .bakErased then 0 else s.written_size
      state := .bakWritting }) (extensionSize / pageSize) hat rfl hlt ht
    refine .of_leads ?_ (fits_some ?_) ?_ ?_
    · rw [hst]
      exact ⟨L', hat', hcopy.refines⟩
    · rcases hend with ⟨rfl, -⟩ | rfl <;> rfl
    · rcases hend with ⟨rfl, -⟩ | rfl <;> simp [stageAt, stateStage]
    · rcases hend with ⟨rfl, hn⟩ | rfl
      · exact fun _ _ _ => hn
      · simp
  rename_i hw
  obtain ⟨b, hb, ht⟩ := Option.bind_eq_some_iff.1 ht
  have hs : s.state = .bakWritten ∨ s.state = .bakDone := by
    rcases callsBak_cases hcalls with he' | hs | hs | hs | hs
    · exact absurd he' he
    · simp [hs, Copy.writes] at hw
    · simp [hs, Copy.writes] at hw
    · exact .inl hs
    · exact .inr hs
  split at ht
  · rename_i hdrained
    cases ht
    have hq := (drained_spec h.at_stage.inv hb).1 hdrained
    have hok := h.at_stage.ok
    rcases hs with hs | hs <;> simp only [stageAt, hs, stateStage] at hok
    · exact h.set (p := some (.bakEnd true)) (t := .bakDone) (n := s.written_size) ⟨hq, hok.2⟩
        (by simp [stageAt, hs, stateStage, Stage.phase]) (fits_some rfl) (by simp [stageAt, stateStage]) (by simp)
    · exact h.set (p := some (.bakEnd true)) (t := .bakDone) (n := s.written_size) ⟨hq, hok.2⟩
        (by simp [stageAt, hs, stateStage]) (fits_some rfl) (by simp [stageAt, stateStage]) (by simp)
  · refine h.flush ht (some (.bakEnd true)) (fits_some hcalls) rfl fun hw' => ?_
    rcases hs with hs | hs <;> simp [hs] at hw'

/-! ## The synchronous steps -/

/-- What is left of a position when the flush has returned to the loop. -/
def focusOf (next : Option Pc) : Option Pc := next.filter fun pc => !pc.outside

theorem focusOf_outside {pc : Pc} (h : pc.outside = true) : focusOf (some pc) = none := by simp [focusOf, h]
theorem focusOf_inside {pc : Pc} (h : pc.outside = false) : focusOf (some pc) = some pc := by simp [focusOf, h]

section Sync
variable {env : FlushEnv} {next : Option Pc} {c : Copy}

theorem ifErase_moves (h : Core cfg s L (some (.ifErase c))) (ht : cfg.stepFlush env (.ifErase c) s = some (next, s')) :
    Moves cfg s L (some (.ifErase c)) s' (focusOf next) := by
  have hfit := h.fits _ rfl
  simp only [Config.stepFlush] at ht
  split at ht <;> rename_i he <;> cases ht
  · cases c with
    | main =>
      refine h.goto (some (.erase .main)) (fits_some ?_) rfl (by simp)
      simp [Pc.fits, he, h.erasesMain hfit he]
    | bak => exact h.goto (some (.erase .bak)) (fits_some he) rfl (by simp)
  · cases c with
    | main =>
      refine h.goto (some (.ifWrite .main)) (fits_some ?_) rfl (by simp)
      rcases callsMain_cases hfit with ⟨hs, -⟩ | hs | hw | hs
      · simp [hs, Copy.erases] at he
      · simp [hs, Copy.erases] at he
      · simp [Pc.fits, hw]
      · simp [Pc.fits, hs]
    | bak =>
      refine h.goto (some (.ifWrite .bak)) (fits_some ?_) rfl (by simp)
      rcases callsBak_cases hfit with he' | hs | hs | hs | hs
      · exact absurd he' he
      all_goals simp [Pc.fits, hs, Copy.writes]

theorem erase_moves (h : Core cfg s L (some (.erase c))) (ht : cfg.stepFlush env (.erase c) s = some (next, s')) :
    Moves cfg s L (some (.erase c)) s' (focusOf next) := by
  have hfit := h.fits _ rfl
  have hsize := fun hs => h.size hs (by simp) (by simp)
  simp only [Config.stepFlush] at ht
  cases c with
  | main =>
    obtain ⟨he, hu⟩ : Copy.erases .main s.state = true ∧ s.is_update = true := by simpa [Pc.fits] using hfit
    have hst : stageAt (some (.erase .main)) s.state s.written_size = .rest := stage_erasesMain he _
    have hat : At cfg s.dev L .rest := hst ▸ h.at_stage
    rcases onRet_cases ht with ⟨s₁, hcall, ht⟩ | ⟨s₁, hcall, ht⟩
    · obtain ⟨⟨dev', rfl⟩, -, hok⟩ := hat.eraseMain hu hcall
      cases ht
      have hl := hok rfl
      rw [← hst] at hl
      exact .of_leads hl (fits_some hfit) (fun _ => hu) fun hs _ _ => hsize hs
    · obtain ⟨⟨dev', rfl⟩, hfull, -⟩ := hat.eraseMain hu hcall
      cases ht
      have hl := (hfull (by simp)).leads
      rw [← hst] at hl
      exact .of_leads hl (fits_some hfit) (fun _ => hu) fun hs _ _ => hsize hs
  | bak =>
    have hst : stageAt (some (.erase .bak)) s.state s.written_size = .mainDone := stage_erasesBak hfit _
    have hat : At cfg s.dev L .mainDone := hst ▸ h.at_stage
    have hreq : s.state = .mainErasing → s.is_update = true := fun hs => h.requested (.inl hs)
    rcases onRet_cases ht with ⟨s₁, hcall, ht⟩ | ⟨s₁, hcall, ht⟩
    · obtain ⟨⟨dev', rfl⟩, -, hok⟩ := hat.eraseBak hcall
      cases ht
      have hl := hok rfl
      rw [← hst] at hl
      exact .of_leads hl (fits_some hfit) (fun hm => hreq (hm.resolve_right fun he => by cases he))
        fun hs _ _ => hsize hs
    · obtain ⟨⟨dev', rfl⟩, hfull, -⟩ := hat.eraseBak hcall
      cases ht
      have hl := (hfull (by simp)).leads
      rw [← hst] at hl
      exact .of_leads hl (fits_some hfit) h.requested fun hs _ _ => hsize hs

/-- Copying may start again from the first page. -/
theorem Copying.restart {d : Mem} {n : Nat} (h : Copying cfg d n) : Copying cfg d 0 :=
  ⟨h.rest, by simp, rfl, by simp⟩

theorem ifWrite_moves (h : Core cfg s L (some (.ifWrite c))) (ht : cfg.stepFlush env (.ifWrite c) s = some (next, s')) :
    Moves cfg s L (some (.ifWrite c)) s' (focusOf next) := by
  have hfit := h.fits _ rfl
  have hsize := fun hs => h.size hs (by simp) (by simp)
  simp only [Config.stepFlush] at ht
  split at ht <;> rename_i hw <;> cases ht
  · cases c with
    | main => exact h.goto (some .mainWrite) (fits_some hw) rfl (by simp)
    | bak =>
      have hok := h.at_stage.ok
      obtain ⟨n, hn⟩ : ∃ n, stageAt (some (.ifWrite .bak)) s.state s.written_size = .bakErased n := by
        cases hs : s.state <;> simp_all [Copy.writes, stageAt, stateStage]
      rw [hn] at hok
      refine h.set (p := some .bakStart) (t := s.state) (n := s.written_size) ⟨hok.1, hok.2.1, hok.2.2.restart⟩
        (by rw [hn]; rfl) (fits_some hw) (fun hm => ?_) fun hs _ _ => hsize hs
      exact h.requested (.inl (hm.resolve_right (by simp [stageAt])))
  · cases c with
    | main =>
      refine h.goto (some (.drain .main)) (fits_some ?_) rfl (by simp)
      simpa [Pc.fits, hw] using hfit
    | bak =>
      refine h.goto (some (.drain .bak)) (fits_some ?_) rfl (by simp)
      simpa [Pc.fits, hw] using hfit

theorem mainWrite_moves (h : Core cfg s L (some .mainWrite)) (ht : cfg.stepFlush env .mainWrite s = some (next, s')) :
    Moves cfg s L (some .mainWrite) s' (focusOf next) := by
  have hfit := h.fits _ rfl
  have hsize := fun hs => h.size hs (by simp) (by simp)
  have hst : stageAt (some .mainWrite) s.state s.written_size = .mainErased := stage_writesMain hfit _
  have hat : At cfg s.dev L .mainErased := hst ▸ h.at_stage
  have hu : s.is_update = true := h.requested (.inr hst)
  simp only [Config.stepFlush] at ht
  rcases onRet_cases ht with ⟨s₁, hcall, ht⟩ | ⟨s₁, hcall, ht⟩
  · obtain ⟨⟨dev', rfl⟩, -, hok⟩ := hat.writeMain hcall
    cases ht
    have hl := hok rfl s.is_update id
    rw [← hst] at hl
    exact .of_leads hl (fits_some hfit) (fun _ => hu) fun hs _ _ => hsize hs
  · obtain ⟨⟨dev', rfl⟩, hfull, -⟩ := hat.writeMain hcall
    cases ht
    have hl := (hfull (by simp)).leads
    rw [← hst] at hl
    exact .of_leads hl (fits_some hfit) (fun _ => hu) fun hs _ _ => hsize hs

theorem bakPage_moves (h : Core cfg s L (some .bakPage)) (ht : cfg.stepFlush env .bakPage s = some (next, s')) :
    Moves cfg s L (some .bakPage) s' (focusOf next) := by
  have hfit := h.fits _ rfl
  have hs : s.state = .bakWritting := by simpa [Pc.fits] using hfit
  have hsize := h.size hs (by simp) (by simp)
  have hst : stageAt (some .bakPage) s.state s.written_size = .bakErased s.written_size := by
    simp [stageAt, hs, stateStage]
  have hat : At cfg s.dev L (.bakErased s.written_size) := hst ▸ h.at_stage
  simp only [Config.stepFlush] at ht
  rcases onRet_cases ht with ⟨s₁, hcall, ht⟩ | ⟨s₁, hcall, ht⟩
  · obtain ⟨⟨dev', rfl⟩, -, hok⟩ := hat.copyPage rfl hsize hcall
    cases ht
    obtain ⟨L', hat', hcopy⟩ := hok rfl
    have hl : Leads cfg s L (stageAt (some .bakPage) s.state s.written_size) { s with dev := dev' } (.bakErased (s.written_size + pageSize)) := by
      rw [hst]
      exact ⟨L', hat', hcopy.refines⟩
    refine .of_leads hl (fits_some hfit) (fun hm => ?_) fun _ _ _ => hsize
    rcases hm with hm | hm
    · exact h.requested (.inl hm)
    · cases hm
  · obtain ⟨⟨dev', rfl⟩, hfull, -⟩ := hat.copyPage rfl hsize hcall
    cases ht
    have hl := (hfull (by simp)).leads
    rw [← hst] at hl
    exact .of_leads hl (fits_some hfit) h.requested fun _ _ _ => hsize

theorem bakIfWritten_moves (h : Core cfg s L (some .bakIfWritten))
    (ht : cfg.stepFlush env .bakIfWritten s = some (next, s')) : Moves cfg s L (some .bakIfWritten) s' (focusOf next) := by
  have hfit := h.fits _ rfl
  have hs : s.state = .bakWritting := by simpa [Pc.fits] using hfit
  have hok := h.at_stage.ok
  simp only [stageAt, hs, stateStage] at hok
  simp only [Config.stepFlush] at ht
  split at ht <;> rename_i hn <;> cases ht
  · rw [hn] at hok
    exact h.set (p := some (.drain .bak)) (t := .bakWritten) (n := s.written_size) hok
      (by simp [stageAt, hs, stateStage, Stage.phase]) (fits_some rfl) (by simp [stageAt, stateStage]) (by simp)
  · have hlt : s.written_size < extensionSize := Nat.lt_of_le_of_ne hok.2.2.le hn
    exact h.set (p := some .bakPage) (t := s.state) (n := s.written_size) h.at_stage.ok rfl (fits_some hfit)
      (by simp [stageAt, hs, stateStage]) fun _ _ _ => hlt

theorem drainCheck_moves (h : Core cfg s L (some (.drainCheck c)))
    (ht : cfg.stepFlush env (.drainCheck c) s = some (next, s')) :
    Moves cfg s L (some (.drainCheck c)) s' (focusOf next) := by
  have hfit := h.fits _ rfl
  have hsize := fun hs => h.size hs (by simp) (by simp)
  obtain ⟨b, hb, ht⟩ := Option.bind_eq_some_iff.1 ht
  split at ht <;> rename_i hdrained <;> cases ht
  · have hq := (drained_spec h.at_stage.inv hb).1 hdrained
    have hok := h.at_stage.ok
    cases c with
    | main =>
      have hs : s.state = .mainWritten := by simpa [Pc.fits] using hfit
      simp only [stageAt, hs, stateStage] at hok
      exact h.set (p := some (.setDone .main)) (t := s.state) (n := s.written_size) ⟨hq, hok.2⟩
        (by simp [stageAt, hs, stateStage, Stage.phase, hq]) (fits_some hfit) (by simp [stageAt, hs]) fun hs _ _ => hsize hs
    | bak =>
      have hs : s.state = .bakWritten ∨ s.state = .bakDone := by simpa [Pc.fits] using hfit
      rcases hs with hs | hs <;> simp only [stageAt, hs, stateStage] at hok
      · exact h.set (p := some (.setDone .bak)) (t := s.state) (n := s.written_size) ⟨hq, hok.2⟩
          (by simp [stageAt, hs, stateStage, Stage.phase]) (fits_some hfit) (by simp [stageAt, hs]) fun hs _ _ => hsize hs
      · exact h.set (p := some (.setDone .bak)) (t := s.state) (n := s.written_size) ⟨hq, hok.2⟩
          (by simp [stageAt, hs, stateStage]) (fits_some hfit) (by simp [stageAt, hs]) fun hs _ _ => hsize hs
  · cases c with
    | main => exact h.goto (some (.drain .main)) (fits_some hfit) rfl (by simp)
    | bak => exact h.goto (some (.drain .bak)) (fits_some hfit) rfl (by simp)

theorem setDone_moves (h : Core cfg s L (some (.setDone c))) (ht : cfg.stepFlush env (.setDone c) s = some (next, s')) :
    Moves cfg s L (some (.setDone c)) s' (focusOf next) := by
  cases ht
  cases c with
  | main =>
    exact h.set (p := none) (t := .mainDone) (n := s.written_size) h.at_stage.ok rfl (by simp)
      (by simp [stageAt, stateStage]) (by simp)
  | bak =>
    exact h.set (p := some (.bakEnd false)) (t := .bakDone) (n := s.written_size) h.at_stage.ok rfl (fits_some rfl)
      (by simp [stageAt, stateStage]) (by simp)

/-- The end of `_flush_bak`: when the backup copy is done, the store is at rest. -/
theorem bakEnd_moves {a : Bool} (h : Core cfg s L (some (.bakEnd a)))
    (ht : cfg.stepFlush env (.bakEnd a) s = some (next, s')) : Moves cfg s L (some (.bakEnd a)) s' (focusOf next) := by
  simp only [Config.stepFlush, Option.some.injEq, Prod.mk.injEq] at ht
  obtain ⟨rfl, rfl⟩ := ht
  have hnext : focusOf (if a then none else some (.start false)) = none := by cases a <;> rfl
  rw [hnext]
  split
  · rename_i hs
    have hok := h.at_stage.ok
    simp only [stageAt, hs, stateStage] at hok
    refine ⟨L, ⟨⟨h.at_stage.inv, hok.1⟩, by simp, by simp [stageAt, stateStage], by simp⟩, .inr ?_⟩
    have hstep := TwoCopy.Step.finish (s := shown cfg s L (some (.bakEnd a)))
      (by simp [shown, view, stageAt, hs, stateStage, Stage.phase]) hok.2.2.record
    exact hstep
  · exact h.goto none (by simp) rfl (by simp)

end Sync

/-- A step inside `_flush_main` or `_flush_bak`. Only `mainClear` takes the
request back later than the RAM was written. -/
theorem stepFlush_inside {env : FlushEnv} {pc : Pc} {next : Option Pc} (h : Core cfg s L (some pc))
    (hin : pc.outside = false) (ht : cfg.stepFlush env pc s = some (next, s')) :
    Moves cfg s L (some pc) s' (focusOf next) ∨ pc = .mainClear ∧ ∃ L', Core cfg s' L' (focusOf next) ∧
      shown cfg s' L' (focusOf next) = (shown cfg s L (some pc)).clear := by
  have hfit : pc.fits s = true := h.fits _ rfl
  cases pc with
  | initEnd => cases hin
  | start a => cases hin
  | selMain a => cases hin
  | selBak a => cases hin
  | asyncMain =>
    obtain ⟨s₁, hrun, he⟩ := Option.map_eq_some_iff.1 ht
    cases he
    exact .inl (asyncMain_moves h hrun)
  | asyncBak =>
    obtain ⟨s₁, hrun, he⟩ := Option.map_eq_some_iff.1 ht
    cases he
    exact .inl (asyncBak_moves h hrun)
  | ifErase c => exact .inl (ifErase_moves h ht)
  | erase c => exact .inl (erase_moves h ht)
  | eraseFlush c =>
    obtain ⟨s₁, hrun, he⟩ := Option.map_eq_some_iff.1 ht
    cases he
    cases c with
    | main => exact .inl (h.flush hrun (some (.eraseFree .main)) (fits_some hfit) rfl (by simp))
    | bak => exact .inl (h.flush hrun (some (.eraseFree .bak)) (fits_some hfit) rfl (by simp))
  | eraseFree c =>
    obtain ⟨n, -, he⟩ := Option.bind_eq_some_iff.1 ht
    cases he
    by_cases hn : n = 0 <;> simp only [hn, if_true, if_false] <;> cases c
    · exact .inl (h.goto (some (.eraseFlush .main)) (fits_some hfit) rfl (by simp))
    · exact .inl (h.goto (some (.eraseFlush .bak)) (fits_some hfit) rfl (by simp))
    · exact .inl (h.goto (some (.erase .main)) (fits_some hfit) rfl (by simp))
    · exact .inl (h.goto (some (.erase .bak)) (fits_some hfit) rfl (by simp))
  | setErased c =>
    cases ht
    cases c with
    | main =>
      obtain ⟨-, hu⟩ : Copy.erases .main s.state = true ∧ s.is_update = true := by simpa [Pc.fits] using hfit
      exact .inl (h.set (p := some (.ifWrite .main)) (t := .mainErased) (n := s.written_size) h.at_stage.ok rfl
        (fits_some rfl) (fun _ => hu) (by simp))
    | bak =>
      exact .inl (h.set (p := some (.ifWrite .bak)) (t := .bakErased) (n := s.written_size) h.at_stage.ok rfl
        (fits_some rfl) (by simp [stageAt, stateStage]) (by simp))
  | ifWrite c => exact .inl (ifWrite_moves h ht)
  | mainWrite => exact .inl (mainWrite_moves h ht)
  | mainClear =>
    cases ht
    have hs : s.state ≠ .mainErasing := fun hs => by simp [Pc.fits, hs, Copy.writes] at hfit
    refine .inr ⟨rfl, L, ⟨h.at_stage, fits_some hfit, fun hm => ?_, fun hw _ _ => h.size hw (by simp) (by simp)⟩, rfl⟩
    rcases hm with hm | hm
    · exact absurd hm hs
    · cases hm
  | mainSetWritten =>
    cases ht
    exact .inl (h.set (p := some (.drain .main)) (t := .mainWritten) (n := s.written_size) h.at_stage.ok rfl
      (fits_some rfl) (by simp [stageAt, stateStage]) (by simp))
  | bakStart =>
    cases ht
    exact .inl (h.set (p := some .bakStartSize) (t := .bakWritting) (n := s.written_size) h.at_stage.ok rfl
      (fits_some rfl) (by simp [stageAt]) (by simp))
  | bakStartSize =>
    cases ht
    have hs : s.state = .bakWritting := by simpa [Pc.fits] using hfit
    exact .inl (h.set (p := some .bakPage) (t := s.state) (n := 0) (by rw [hs]; exact h.at_stage.ok)
      (by rw [hs]; rfl) (fits_some hfit) (by simp [stageAt, hs, stateStage]) (by simp))
  | bakPage => exact .inl (bakPage_moves h ht)
  | bakAdvance =>
    cases ht
    have hs : s.state = .bakWritting := by simpa [Pc.fits] using hfit
    exact .inl (h.set (p := some .bakIfWritten) (t := s.state) (n := s.written_size + pageSize)
      (by rw [hs]; exact h.at_stage.ok) (by rw [hs]; rfl) (fits_some hfit) (by simp [stageAt, hs, stateStage]) (by simp))
  | bakIfWritten => exact .inl (bakIfWritten_moves h ht)
  | writeFlush c =>
    obtain ⟨s₁, hrun, he⟩ := Option.map_eq_some_iff.1 ht
    cases he
    cases c with
    | main => exact .inl (h.flush hrun (some (.writeFree .main)) (fits_some hfit) rfl (by simp))
    | bak => exact .inl (h.flush hrun (some (.writeFree .bak)) (fits_some hfit) rfl (by simp))
  | writeFree c =>
    obtain ⟨n, -, he⟩ := Option.bind_eq_some_iff.1 ht
    cases he
    by_cases hn : n = 0 <;> simp only [hn, if_true, if_false] <;> cases c
    · exact .inl (h.goto (some (.writeFlush .main)) (fits_some hfit) rfl (by simp))
    · exact .inl (h.goto (some (.writeFlush .bak)) (fits_some hfit) rfl (by simp))
    · exact .inl (h.goto (some .mainWrite) (fits_some hfit) rfl (by simp))
    · exact .inl (h.goto (some .bakPage) (fits_some hfit) rfl (by simp))
  | drain c =>
    obtain ⟨s₁, hrun, he⟩ := Option.map_eq_some_iff.1 ht
    cases he
    cases c with
    | main => exact .inl (h.flush hrun (some (.drainCheck .main)) (fits_some hfit) rfl (by simp))
    | bak => exact .inl (h.flush hrun (some (.drainCheck .bak)) (fits_some hfit) rfl (by simp))
  | drainCheck c => exact .inl (drainCheck_moves h ht)
  | setDone c => exact .inl (setDone_moves h ht)
  | bakEnd a => exact .inl (bakEnd_moves h ht)

end NvRecord
