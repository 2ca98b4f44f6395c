import LittleBuddy.NvRecord.Device
import LittleBuddy.NvRecord.Record
import LittleBuddy.Lib.TwoCopy
/-!
# The stages of a flush

`Stage` says what the two sectors and the queue look like while a record is
saved. `view` is the store of two copies that the sectors make up, and each
operation on the device is at most one step of that store (`Leads`).
-/
open NorMem Norflash

namespace NvRecord

variable {W : Nat} {cfg : Config} {s s' : NvSys W} {dev' : Sys W} {L L' : ModId → List (Slot W)}

/-- The first `n` bytes of the main sector are in the backup sector; the rest of
it is erased or as in the main sector. -/
structure Copying (cfg : Config) (d : Mem) (n : Nat) : Prop where
  rest : ∀ j < extensionSize, d (cfg.addr .bak + j) = 0xff ∨ d (cfg.addr .bak + j) = d (cfg.addr .main + j)
  copied : ∀ j < n, d (cfg.addr .bak + j) = d (cfg.addr .main + j)
  page : n % pageSize = 0
  le : n ≤ extensionSize

inductive Stage where
  | rest
  | mainErased
  | mainWritten
  | mainDone
  | bakErased (copied : Nat)
  | bakDone
  deriving DecidableEq

namespace Stage

/-- The sectors as direct execution leaves them, and the pending operations of the record. -/
def Ok (cfg : Config) (d : Mem) (q : List QNode) : Stage → Prop
  | rest => q = []
  | mainErased => OnlySec (cfg.addr .main) q ∧ ∀ j < extensionSize, d (cfg.addr .main + j) = 0xff
  | mainWritten => OnlySec (cfg.addr .main) q ∧ (cfg.record d (cfg.addr .main)).isSome = true
  | mainDone => q = [] ∧ (cfg.record d (cfg.addr .main)).isSome = true
  | bakErased n => OnlySec (cfg.addr .bak) q ∧ (cfg.record d (cfg.addr .main)).isSome = true ∧ Copying cfg d n
  | bakDone => q = [] ∧ (cfg.record d (cfg.addr .main)).isSome = true ∧ Copying cfg d extensionSize

def phase (q : List QNode) : Stage → TwoCopy.Phase
  | rest => .idle
  | mainErased => .mainErased
  | mainWritten => if q.isEmpty then .mainDone else .mainWritten
  | mainDone => .mainDone
  | bakErased _ => .bakErased
  | bakDone => .bakErased

end Stage

/-- The device is at the stage. -/
structure At (cfg : Config) (dev : Sys W) (L : ModId → List (Slot W)) (st : Stage) : Prop where
  inv : DevInv cfg dev L
  ok : st.Ok cfg dev.direct (nvQueue dev L)

/-- The two copies and the record in RAM. -/
def view (cfg : Config) (s : NvSys W) (L : ModId → List (Slot W)) (st : Stage) : TwoCopy.Store (List UInt8) where
  phase := st.phase (nvQueue s.dev L)
  main := cfg.record s.dev.direct (cfg.addr .main)
  bak := cfg.record s.dev.direct (cfg.addr .bak)
  ram := cfg.items s.ram 0
  update := s.is_update
  awaiting := s.awaiting

/-- At most one step of the store. -/
def Refines (a b : TwoCopy.Store (List UInt8)) : Prop := b = a ∨ TwoCopy.Step a b

/-- From the stage `st` in `s` to the stage `st'` in `s'`. -/
def Leads (cfg : Config) (s : NvSys W) (L : ModId → List (Slot W)) (st : Stage) (s' : NvSys W) (st' : Stage) : Prop :=
  ∃ L', At cfg s'.dev L' st' ∧ Refines (view cfg s L st) (view cfg s' L' st')

/-- A refused call: the stage and the store are as before. -/
def Stays (cfg : Config) (s : NvSys W) (L : ModId → List (Slot W)) (st : Stage) (s' : NvSys W) : Prop :=
  ∃ L', At cfg s'.dev L' st ∧ view cfg s' L' st = view cfg s L st

theorem Stays.leads {st : Stage} (h : Stays cfg s L st s') : Leads cfg s L st s' st := by
  obtain ⟨L', hat, hv⟩ := h
  exact ⟨L', hat, .inl hv⟩

theorem sameBytes_of {d d' : Mem} {c : Copy} (h : ∀ j < extensionSize, d' (cfg.addr c + j) = d (cfg.addr c + j)) :
    SameBytes extensionSize d' (cfg.addr c) d (cfg.addr c) := h

/-! ## Flushing -/

theorem OnlySec.flushed {a : Nat} {q q' : List QNode} (h : OnlySec a q) (hf : Flushed q q') : OnlySec a q' :=
  fun s hs => hf.secOps (h s hs)

theorem Copying.congr {d d' : Mem} {n : Nat} (h : Copying cfg d n)
    (hd : ∀ c, ∀ j < extensionSize, d' (cfg.addr c + j) = d (cfg.addr c + j)) : Copying cfg d' n where
  rest j hj := by rw [hd .bak j hj, hd .main j hj]; exact h.rest j hj
  copied j hj := by
    have hle := h.le
    rw [hd .bak j (by omega), hd .main j (by omega)]
    exact h.copied j hj
  page := h.page
  le := h.le

/-- Operations that are pending may be executed at any time. -/
theorem Stage.Ok.flushed {st : Stage} {d d' : Mem} {q q' : List QNode} (h : st.Ok cfg d q) (hf : Flushed q q')
    (hd : ∀ c, ∀ j < extensionSize, d' (cfg.addr c + j) = d (cfg.addr c + j)) : st.Ok cfg d' q' := by
  have hrec : cfg.record d' (cfg.addr .main) = cfg.record d (cfg.addr .main) := (sameBytes_of (hd .main)).record_eq
  have hnil : q = [] → q' = [] := fun hq => Flushed.nil (hq ▸ hf)
  cases st with
  | rest => exact hnil h
  | mainErased => exact ⟨h.1.flushed hf, fun j hj => by rw [hd .main j hj]; exact h.2 j hj⟩
  | mainWritten => exact ⟨h.1.flushed hf, hrec ▸ h.2⟩
  | mainDone => exact ⟨hnil h.1, hrec ▸ h.2⟩
  | bakErased n => exact ⟨h.1.flushed hf, hrec ▸ h.2.1, h.2.2.congr hd⟩
  | bakDone => exact ⟨hnil h.1, hrec ▸ h.2.1, h.2.2.congr hd⟩

/-- Nothing but the execution of pending operations has happened. -/
def Settles (cfg : Config) (s : NvSys W) (L : ModId → List (Slot W)) (st : Stage) (s' : NvSys W) : Prop :=
  ∃ L', At cfg s'.dev L' st ∧ Flushed (nvQueue s.dev L) (nvQueue s'.dev L') ∧
    view cfg s' L' st = { view cfg s L st with phase := st.phase (nvQueue s'.dev L') }

theorem At.device {st : Stage} (h : At cfg s.dev L st) (hdev : DevInv cfg dev' L')
    (hd : ∀ c, ∀ j < extensionSize, dev'.direct (cfg.addr c + j) = s.dev.direct (cfg.addr c + j))
    (hf : Flushed (nvQueue s.dev L) (nvQueue dev' L')) : Settles cfg s L st { s with dev := dev' } := by
  refine ⟨L', ⟨hdev, h.ok.flushed hf hd⟩, hf, ?_⟩
  simp only [view, (sameBytes_of (hd .main)).record_eq, (sameBytes_of (hd .bak)).record_eq]

theorem At.flushNow {st : Stage} (h : At cfg s.dev L st) {env : FlushEnv} (ht : Config.flushNow env s = some s') :
    ∃ dev', s' = { s with dev := dev' } ∧ Settles cfg s L st s' := by
  obtain ⟨dev', hrun, ht⟩ := Option.bind_eq_some_iff.1 ht
  cases ht
  obtain ⟨L', hdev, hd, hf⟩ := h.inv.flush hrun
  exact ⟨dev', rfl, h.device hdev (fun _ _ _ => by rw [hd]) hf⟩

/-- The store stays, or its main copy is now complete. -/
theorem Settles.leads {st : Stage} (h : Settles cfg s L st s') : Leads cfg s L st s' st := by
  obtain ⟨L', hat, hf, hv⟩ := h
  refine ⟨L', hat, ?_⟩
  rw [hv]
  by_cases hp : st.phase (nvQueue s'.dev L') = st.phase (nvQueue s.dev L)
  · exact .inl (by rw [hp]; rfl)
  · cases st with
    | mainWritten =>
      cases hq : nvQueue s.dev L with
      | nil =>
        rw [hq] at hf hp
        exact absurd (by rw [hf.nil]) hp
      | cons n q =>
        cases hq' : nvQueue s'.dev L' with
        | nil => exact .inr (.mainDone (by simp [view, Stage.phase, hq]))
        | cons n' q' => exact absurd (by simp [Stage.phase, hq, hq']) hp
    | _ => exact absurd rfl hp

/-- While the backup copy is written, the store stays. -/
theorem Settles.stays {n : Nat} (h : Settles cfg s L (.bakErased n) s') : Stays cfg s L (.bakErased n) s' := by
  obtain ⟨L', hat, -, hv⟩ := h
  exact ⟨L', hat, hv⟩

/-- Pending operations are executed after a refused call. -/
theorem Stays.flushNow {st : Stage} {s₁ : NvSys W} (h : Stays cfg s L st s₁) {env : FlushEnv}
    (ht : Config.flushNow env s₁ = some s') : ∃ dev', s' = { s₁ with dev := dev' } ∧ Leads cfg s L st s' st := by
  obtain ⟨L₁, hat, hv⟩ := h
  obtain ⟨dev', rfl, hset⟩ := hat.flushNow ht
  obtain ⟨L', hat', hr⟩ := hset.leads
  exact ⟨dev', rfl, L', hat', hv ▸ hr⟩

/-! ## Erasing -/

theorem SameBytes.of_erase (d : Mem) {c c' : Copy} (hc : c' ≠ c) :
    SameBytes extensionSize (NorMem.erase d (cfg.addr c) extensionSize) (cfg.addr c') d (cfg.addr c') := by
  have hne : cfg.addr c' ≠ cfg.addr c := by
    have := cfg.main_ne_bak
    cases c <;> cases c' <;> simp_all [this.symm]
  intro j hj
  exact erase_other (cfg.apart (o := 0) (cfg.addr_mod c) hne hj (by simp))

theorem Stays.of_same (st : Stage) (hat : At cfg dev' L' st) (hd : dev'.direct = s.dev.direct)
    (hq : nvQueue dev' L' = nvQueue s.dev L) {ram : Nat → UInt8} (hram : cfg.items ram 0 = cfg.items s.ram 0) :
    Stays cfg s L st { s with dev := dev', ram := ram } :=
  ⟨L', hat, by simp only [view, hd, hq, hram]⟩

theorem At.eraseMain (h : At cfg s.dev L .rest) (hu : s.is_update = true) {r : Ret}
    (ht : cfg.eraseCopy .main s = some (r, s')) :
    (∃ dev', s' = { s with dev := dev' }) ∧
      (r ≠ .ok → Stays cfg s L .rest s') ∧ (r = .ok → Leads cfg s L .rest s' .mainErased) := by
  obtain ⟨⟨r', dev'⟩, hrun, ht⟩ := Option.bind_eq_some_iff.1 ht
  cases ht
  obtain ⟨L', hdev, hres⟩ := h.inv.erase .main h.ok hrun
  refine ⟨⟨dev', rfl⟩, fun hne => ?_, fun hok => ?_⟩
  · rcases hres with ⟨-, hd, hq⟩ | ⟨hr, -⟩
    · exact Stays.of_same .rest ⟨hdev, hq⟩ hd (hq.trans h.ok.symm) rfl
    · exact absurd hr hne
  · rcases hres with ⟨hne, -⟩ | ⟨-, hd, hq⟩
    · exact absurd hok hne
    · have hff : ∀ j < extensionSize, dev'.direct (cfg.addr .main + j) = 0xff := fun j hj => by
        rw [hd]
        exact erase_of (by unfold InRange; omega)
      refine ⟨L', ⟨hdev, hq, hff⟩, .inr ?_⟩
      have hbak : cfg.record dev'.direct (cfg.addr .bak) = cfg.record s.dev.direct (cfg.addr .bak) := by
        rw [hd]
        exact (SameBytes.of_erase s.dev.direct (by decide)).record_eq
      have := TwoCopy.Step.eraseMain (s := view cfg s L .rest) rfl hu
      simp only [view, record_erased hff, hbak]
      exact this

theorem At.eraseBak (h : At cfg s.dev L .mainDone) {r : Ret} (ht : cfg.eraseCopy .bak s = some (r, s')) :
    (∃ dev', s' = { s with dev := dev' }) ∧
      (r ≠ .ok → Stays cfg s L .mainDone s') ∧ (r = .ok → Leads cfg s L .mainDone s' (.bakErased 0)) := by
  obtain ⟨⟨r', dev'⟩, hrun, ht⟩ := Option.bind_eq_some_iff.1 ht
  cases ht
  obtain ⟨hnil, hmain⟩ := h.ok
  obtain ⟨L', hdev, hres⟩ := h.inv.erase .bak hnil hrun
  refine ⟨⟨dev', rfl⟩, fun hne => ?_, fun hok => ?_⟩
  · rcases hres with ⟨-, hd, hq⟩ | ⟨hr, -⟩
    · exact Stays.of_same .mainDone ⟨hdev, hq, hd ▸ hmain⟩ hd (hq.trans hnil.symm) rfl
    · exact absurd hr hne
  · rcases hres with ⟨hne, -⟩ | ⟨-, hd, hq⟩
    · exact absurd hok hne
    · have hff : ∀ j < extensionSize, dev'.direct (cfg.addr .bak + j) = 0xff := fun j hj => by
        rw [hd]
        exact erase_of (by unfold InRange; omega)
      have hrec : cfg.record dev'.direct (cfg.addr .main) = cfg.record s.dev.direct (cfg.addr .main) := by
        rw [hd]
        exact (SameBytes.of_erase s.dev.direct (by decide)).record_eq
      refine ⟨L', ⟨hdev, hq, hrec ▸ hmain, fun j hj => .inl (hff j hj), by simp, rfl, by simp⟩, .inr ?_⟩
      have := TwoCopy.Step.eraseBak (s := view cfg s L .mainDone) rfl
      simp only [view, record_erased hff, hrec]
      exact this

/-! ## Writing the main copy -/

/-- The RAM is written; the request stays, or is taken back at once. -/
theorem At.writeMain (h : At cfg s.dev L .mainErased) {r : Ret} (ht : cfg.writeMain s = some (r, s')) :
    (∃ dev', s' = { s with dev := dev', ram := cfg.setCrc s.ram }) ∧
      (r ≠ .ok → Stays cfg s L .mainErased s') ∧
      (r = .ok → ∀ u, (u = true → s.is_update = true) →
        Leads cfg s L .mainErased { s' with is_update := u } .mainWritten) := by
  unfold Config.writeMain at ht
  simp only at ht
  split at ht
  · rename_i hvalid
    obtain ⟨⟨r', dev'⟩, hrun, ht⟩ := Option.bind_eq_some_iff.1 ht
    cases ht
    obtain ⟨hq, hff⟩ := h.ok
    have hclr : ∀ j < extensionSize, Clears (s.dev.direct (cfg.addr .main + 0 + j)) (cfg.setCrc s.ram j) :=
      fun j hj => by
        rw [Nat.add_zero, hff j hj]
        exact ff_and _
    obtain ⟨L', hdev, hres⟩ := h.inv.write .main (by decide) (by decide) hq hclr hrun
    refine ⟨⟨dev', rfl⟩, fun hne => ?_, fun hok u hu => ?_⟩
    · rcases hres with ⟨-, hd, hq'⟩ | ⟨hr, -⟩
      · exact Stays.of_same .mainErased ⟨hdev, hq' ▸ hq, hd ▸ hff⟩ hd hq' items_setCrc
      · exact absurd hr hne
    · rcases hres with ⟨hne, -⟩ | ⟨-, hd, hq', hpend⟩
      · exact absurd hok hne
      · have himage : ∀ j < extensionSize, dev'.direct (cfg.addr .main + j) = cfg.setCrc s.ram j := fun j hj => by
          rw [hd, Nat.add_zero, program_of (by unfold InRange; omega), hff j hj, ff_and, Nat.add_sub_cancel_left]
        have hmain := record_image hvalid himage
        have hbak : SameBytes extensionSize dev'.direct (cfg.addr .bak) s.dev.direct (cfg.addr .bak) := fun j hj => by
          rw [hd]
          exact program_other (cfg.apart (cfg.addr_mod .main) cfg.main_ne_bak.symm hj (by simp))
        refine ⟨L', ⟨hdev, hq', by rw [hmain]; rfl⟩, .inr ?_⟩
        have := TwoCopy.Step.writeMain (s := view cfg s L .mainErased) u rfl hu
        have hne : (nvQueue dev' L').isEmpty = false := by simpa using hpend
        simp only [view, hmain, hbak.record_eq, items_setCrc, Stage.phase, hne]
        exact this
  · cases ht

/-! ## Copying -/

/-- Only the backup copy has changed. -/
def Copies (a b : TwoCopy.Store (List UInt8)) : Prop := a.phase = .bakErased ∧ ∃ x, b = { a with bak := x }

theorem Copies.refines {a b : TwoCopy.Store (List UInt8)} (h : Copies a b) : Refines a b := by
  obtain ⟨hp, x, rfl⟩ := h
  exact .inr (.copyBak x hp)

theorem Copies.of_eq {a b : TwoCopy.Store (List UInt8)} (hp : a.phase = .bakErased) (h : b = a) : Copies a b :=
  ⟨hp, a.bak, h⟩

theorem Copies.trans {a b c : TwoCopy.Store (List UInt8)} (h : Copies a b) (h' : Copies b c) : Copies a c := by
  obtain ⟨hp, x, rfl⟩ := h
  obtain ⟨-, y, rfl⟩ := h'
  exact ⟨hp, y, rfl⟩

/-- One page goes from the main to the backup sector. -/
theorem At.copyPage {n : Nat} (h : At cfg s.dev L (.bakErased n)) (hn : s.written_size = n) (hlt : n < extensionSize) {r : Ret}
    (ht : cfg.copyPage s = some (r, s')) :
    (∃ dev', s' = { s with dev := dev' }) ∧ (r ≠ .ok → Stays cfg s L (.bakErased n) s') ∧
      (r = .ok → ∃ L', At cfg s'.dev L' (.bakErased (n + pageSize)) ∧
        Copies (view cfg s L (.bakErased n)) (view cfg s' L' (.bakErased (n + pageSize)))) := by
  obtain ⟨⟨r₁, burn_buf⟩, hread, ht⟩ := Option.bind_eq_some_iff.1 ht
  simp only at ht
  split at ht
  · rename_i hr₁
    subst hr₁
    obtain ⟨⟨r', dev'⟩, hrun, ht⟩ := Option.bind_eq_some_iff.1 ht
    cases ht
    obtain ⟨hq, hmain, hcopy⟩ := h.ok
    rw [hn] at hread hrun
    have hpage : n + pageSize ≤ extensionSize := by
      have := hcopy.page
      simp only [pageSize, extensionSize] at *
      omega
    have hbuf := h.inv.read (hq _ cfg.main_ne_bak) hlt hpage hread
    have hclr : ∀ j < pageSize, Clears (s.dev.direct (cfg.addr .bak + n + j)) (bufferOf burn_buf j) := fun j hj => by
      rw [hbuf j hj, Nat.add_assoc, Nat.add_assoc]
      rcases hcopy.rest (n + j) (by omega) with hff | hsame
      · rw [hff]
        exact ff_and _
      · rw [hsame]
        exact UInt8.and_self
    obtain ⟨L', hdev, hres⟩ := h.inv.write .bak hlt hpage hq hclr hrun
    refine ⟨⟨dev', rfl⟩, fun hne => ?_, fun hok => ?_⟩
    · rcases hres with ⟨-, hd, hq'⟩ | ⟨hr, -⟩
      · exact Stays.of_same (.bakErased n) ⟨hdev, hq' ▸ hq, hd ▸ hmain, hd ▸ hcopy⟩ hd hq' rfl
      · exact absurd hr hne
    rcases hres with ⟨hne, -⟩ | ⟨-, hd, hq', -⟩
    · exact absurd hok hne
    · have hm : ∀ j < extensionSize, dev'.direct (cfg.addr .main + j) = s.dev.direct (cfg.addr .main + j) := fun j hj => by
        rw [hd]
        exact program_other (cfg.apart (cfg.addr_mod .bak) cfg.main_ne_bak hj hpage)
      have hin : ∀ j, InRange n pageSize j → dev'.direct (cfg.addr .bak + j) = s.dev.direct (cfg.addr .main + j) := by
        intro j hj
        have hrange : InRange (cfg.addr .bak + n) pageSize (cfg.addr .bak + j) := by unfold InRange at *; omega
        have hsub : cfg.addr .bak + j - (cfg.addr .bak + n) = j - n := by omega
        have hadd : n + (j - n) = j := by unfold InRange at hj; omega
        have hc := hclr (j - n) (by unfold InRange at hj; omega)
        rw [hd, program_of hrange, hsub]
        rw [Nat.add_assoc, hadd] at hc
        rw [hc, hbuf (j - n) (by unfold InRange at hj; omega), Nat.add_assoc, hadd]
      have hout : ∀ j, ¬ InRange n pageSize j → dev'.direct (cfg.addr .bak + j) = s.dev.direct (cfg.addr .bak + j) := by
        intro j hj
        rw [hd]
        exact program_other (by unfold InRange at *; omega)
      refine ⟨L', ⟨hdev, hq', by rw [(sameBytes_of hm).record_eq]; exact hmain, fun j hj => ?_, fun j hj => ?_, ?_, hpage⟩,
        rfl, cfg.record dev'.direct (cfg.addr .bak), ?_⟩
      · by_cases hr : InRange n pageSize j
        · exact .inr (by rw [hin j hr, hm j hj])
        · rw [hout j hr, hm j hj]
          exact hcopy.rest j hj
      · rw [hm j (by omega)]
        by_cases hr : InRange n pageSize j
        · exact hin j hr
        · rw [hout j hr]
          exact hcopy.copied j (by unfold InRange at hr; omega)
      · have := hcopy.page
        simp only [pageSize] at *
        omega
      · simp only [view, (sameBytes_of hm).record_eq]
        rfl
  · cases ht

/-- What is copied completely is the same record. -/
theorem Copying.record {d : Mem} (h : Copying cfg d extensionSize) :
    cfg.record d (cfg.addr .bak) = cfg.record d (cfg.addr .main) := by
  have hs : SameBytes extensionSize d (cfg.addr .bak) d (cfg.addr .main) := h.copied
  exact hs.record_eq

end NvRecord
