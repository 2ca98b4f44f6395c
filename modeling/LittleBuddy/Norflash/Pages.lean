import LittleBuddy.Norflash.Sync
import LittleBuddy.Norflash.Theorems
/-!
# Erasing and programming pages

`app_flash_page_erase` and `app_flash_page_program` of
`services/norflash_api/norflash_api.cpp`, which other components erase and
program the flash with. They queue an operation, and flush while there is no
room for it. The erase first looks at the flash and is left out when the page is
blank there, whatever is still pending on it.
-/
open NorMem LinkedPool Runs

namespace Norflash

variable {W : Nat}

/-! ## The code -/

/-- The address that the blank check reads, `FLASH_NC_BASE + flashOffset`, and the
one that is erased or programmed, `FLASH_NC_BASE + (flashOffset & 0xFFFFFF)`. -/
def checkAddr (flashOffset : Nat) : Nat := (flashNcBase + flashOffset) % 2 ^ 32
def pageAddr (flashOffset : Nat) : Nat := flashNcBase + flashOffset % 2 ^ 24

/-- The blank check: no word of the page differs from `0xFFFFFFFF`. -/
def isEmptyPage (flash : Mem) (addr : Nat) : Bool := (List.range sectorSize).all fun j => flash (addr + j) == 0xff

/-- The loop of both helpers: try the operation, flush while there is no room for
it, `ASSERT` otherwise. Every flush takes an answer of the script at least. -/
def retryLoop (call : List FlushEnv → ApiInfo W → Option (Ret × List FlushEnv × ApiInfo W)) (m : ModId)
    (type : CountType) : Nat → List FlushEnv → ApiInfo W → Option (List FlushEnv × ApiInfo W)
  | 0, _, _ => none
  | rounds + 1, script, s => do
    let (ret, script, s) ← call script s
    match ret with
    | .ok => some (script, s)
    | .bufferFull => do
      let (script, s) ← appFlushPendingFlashOp m type script s
      retryLoop call m type rounds script s
    | _ => none

/-- `app_flash_page_erase` behind the blank check: the page is erased whatever it holds. -/
def eraseLoop (m : ModId) (flashOffset : Nat) (script : List FlushEnv) (s : ApiInfo W) :
    Option (List FlushEnv × ApiInfo W) :=
  retryLoop (norflashApiErase m.val (pageAddr flashOffset) sectorSize true) m .erasing (script.length + 1) script s

/-- `app_flash_page_erase`. -/
def appFlashPageErase (m : ModId) (flashOffset : Nat) (script : List FlushEnv) (s : ApiInfo W) :
    Option (List FlushEnv × ApiInfo W) :=
  if isEmptyPage s.hal.flash (checkAddr flashOffset) then some (script, s) else eraseLoop m flashOffset script s

/-- `app_flash_page_program`. -/
def appFlashPageProgram (m : ModId) (flashOffset : Nat) (ptr : Nat → UInt8) (len : Nat) (synWrite : Bool)
    (script : List FlushEnv) (s : ApiInfo W) : Option (List FlushEnv × ApiInfo W) :=
  retryLoop (norflashApiWrite m.val (pageAddr flashOffset) ptr len !synWrite) m .writting (script.length + 1) script s

/-- One round of `app_flush_pending_flash_op`. -/
theorem appFlushPendingFlashOp_cons {m : ModId} {type : CountType} {env : FlushEnv} {script script' : List FlushEnv}
    {s s' : ApiInfo W} (hr : appFlushPendingFlashOp m type (env :: script) s = some (script', s')) :
    ∃ code rep s₁, norflashApiFlush env s = some (code, rep, s₁) ∧
      ((script', s') = (script, s₁) ∨ appFlushPendingFlashOp m type script s₁ = some (script', s')) := by
  obtain ⟨⟨code, rep, s₁⟩, hone, hr⟩ := Option.bind_eq_some_iff.1 hr
  obtain ⟨done, hr⟩ : ∃ done, (if done = true then some (script, s₁) else appFlushPendingFlashOp m type script s₁) =
      some (script', s') := by
    cases type with
    | all =>
      obtain ⟨done, -, hr⟩ := Option.bind_eq_some_iff.1 hr
      exact ⟨done, hr⟩
    | _ =>
      obtain ⟨done, -, hr⟩ := Option.bind_eq_some_iff.1 hr
      exact ⟨done, hr⟩
  refine ⟨code, rep, s₁, hone, ?_⟩
  cases done with
  | true => exact .inl (Option.some.inj hr).symm
  | false => exact .inr hr

/-- What holds after the loop: `P` holds before every try, and a try that succeeds leads to `Q`. -/
theorem retryLoop_rule {call : List FlushEnv → ApiInfo W → Option (Ret × List FlushEnv × ApiInfo W)} {m : ModId}
    {type : CountType} {P Q : ApiInfo W → Prop}
    (hok : ∀ script s script' s', P s → call script s = some (.ok, script', s') → Q s')
    (hfull : ∀ script s script' s', P s → call script s = some (.bufferFull, script', s') → P s')
    (hflush : ∀ s env code rep s', P s → norflashApiFlush env s = some (code, rep, s') → P s')
    {rounds : Nat} {script script' : List FlushEnv} {s s' : ApiInfo W} (h : P s)
    (hr : retryLoop call m type rounds script s = some (script', s')) : Q s' := by
  have hpending : ∀ {script script' : List FlushEnv} {s s' : ApiInfo W}, P s →
      appFlushPendingFlashOp m type script s = some (script', s') → P s' := by
    intro script script' s s' h hr
    induction script generalizing s with
    | nil => cases hr
    | cons env script ih =>
      obtain ⟨code, rep, s₁, hone, hdone | hmore⟩ := appFlushPendingFlashOp_cons hr
      · cases hdone
        exact hflush _ _ _ _ _ h hone
      · exact ih (hflush _ _ _ _ _ h hone) hmore
  induction rounds generalizing script s with
  | zero => cases hr
  | succ rounds ih =>
    simp only [retryLoop, Option.bind_eq_bind, Option.bind_eq_some_iff] at hr
    obtain ⟨⟨ret, script₁, s₁⟩, htry, hr⟩ := hr
    cases ret with
    | ok =>
      cases hr
      exact hok _ _ _ _ h htry
    | bufferFull =>
      obtain ⟨⟨script₂, s₂⟩, hf, hr⟩ := Option.bind_eq_some_iff.1 hr
      exact ih (hpending (hfull _ _ _ _ h htry) hf) hr
    | _ => cases hr

/-! ## The content of the pages -/

/-- What the page holds once the operations that its module has pending are executed. -/
def pageContent (s : ApiInfo W) (m : ModId) (addr : Nat) : Option (List UInt8) :=
  (pendingOps s m).map fun q => (List.range sectorSize).map fun j => replay (secOps addr q) j (s.hal.flash (addr + j))

/-- The bytes of the page in `d`. -/
def pageBytes (d : Mem) (addr : Nat) : List UInt8 := (List.range sectorSize).map fun j => d (addr + j)

/-- The pages of `own` hold what `d` has there. -/
def Holds (own : Nat → Prop) (m : ModId) (d : Mem) (s : ApiInfo W) : Prop :=
  ∀ a, a % sectorSize = 0 → own a → pageContent s m a = some (pageBytes d a)

/-- Both states have the same content in the pages of `own`. -/
def SameContent (own : Nat → Prop) (m : ModId) (s s' : ApiInfo W) : Prop :=
  ∀ a, a % sectorSize = 0 → own a → pageContent s m a = pageContent s' m a

/-- The queues lead to `d`, and what they hold is where `pend` allows it. -/
def LeadsTo (pend : ModId → Nat → Prop) (d : Mem) (s : ApiInfo W) : Prop :=
  ∃ L, InStep SectorInv ⟨s, d⟩ L ∧ ∀ m, ∀ n ∈ queues s.pool L m, pend m n.addr

/-- No other module may have operations pending on the page. -/
def Only (pend : ModId → Nat → Prop) (m : ModId) (a : Nat) : Prop := ∀ m', m' ≠ m → ¬ pend m' a

section Content
variable {s s' : ApiInfo W} {own : Nat → Prop} {pend pend' : ModId → Nat → Prop} {d : Mem} {m : ModId} {a : Nat}

theorem Holds.same (h : Holds own m d s) (h' : Holds own m d s') : SameContent own m s s' :=
  fun a ha ho => (h a ha ho).trans (h' a ha ho).symm

theorem Only.alone {q : ModId → List QNode} (ho : Only pend m a) (h : ∀ m, ∀ n ∈ q m, pend m n.addr) : Alone q m a := by
  intro m' hm
  rw [secOps_eq_nil]
  rintro n hn rfl
  exact ho m' hm (h m' n hn)

theorem LeadsTo.ownSector (h : LeadsTo pend d s) (ho : Only pend m a) : OwnSector s m.val a := by
  obtain ⟨L, hi, hpend⟩ := h
  exact ownSector_of_alone hi.sys (ho.alone hpend)

theorem LeadsTo.mono (h : LeadsTo pend d s) (hp : ∀ m a, pend m a → pend' m a) : LeadsTo pend' d s := by
  obtain ⟨L, hi, hpend⟩ := h
  exact ⟨L, hi, fun m n hn => hp m _ (hpend m n hn)⟩

theorem LeadsTo.holds (h : LeadsTo pend d s) (hown : ∀ a, own a → Only pend m a) : Holds own m d s := by
  obtain ⟨L, hi, hpend⟩ := h
  intro a ha ho
  have hsector := hi.queue.sector a ha m ((hown a ho).alone hpend)
  rw [pageContent, pendingOps_of hi.sys, Option.map_some]
  refine congrArg some (List.map_congr_left fun j hj => ?_)
  exact (hsector.content j (List.mem_range.1 hj)).symm

/-- Where nothing may be pending, the flash is as directly executed. -/
theorem LeadsTo.flash (h : LeadsTo pend d s) (ha : a % sectorSize = 0) (hnone : ∀ m, ¬ pend m a) {j : Nat}
    (hj : j < sectorSize) : s.hal.flash (a + j) = d (a + j) := by
  obtain ⟨L, hi, hpend⟩ := h
  have halone : ∀ m, Alone (queues s.pool L) m a := fun m => Only.alone (fun m' _ => hnone m') hpend
  have hnil : secOps a (queues s.pool L 0) = [] := halone 1 0 (by decide)
  have hsector := (hi.queue.sector a ha 0 (halone 0)).content j hj
  rw [hnil] at hsector
  exact hsector.symm

/-- A module that may have nothing pending has nothing pending. -/
theorem LeadsTo.eraseSafe (h : LeadsTo pend d s) (hnone : ∀ a, ¬ pend m a) : EraseSafe s m.val a := by
  obtain ⟨L, hi, hpend⟩ := h
  intro m' hm' l hl
  obtain rfl : m' = m := Fin.ext hm'
  rw [pendingSlots_of hi.sys, Option.mem_some_iff] at hl
  subst hl
  have hnil : L m' = [] := by
    rw [List.eq_nil_iff_forall_not_mem]
    intro i hmem
    exact hnone _ (hpend m' _ (List.mem_map_of_mem hmem))
  rw [hnil]
  exact .nil

end Content

/-! ## Calls and flushes -/

section Calls
variable {s s' : ApiInfo W} {pend : ModId → Nat → Prop} {d : Mem} {m : ModId} {L : ModId → List (Slot W)} {r : Ret}
  {id a len : Nat} {script script' : List FlushEnv}

/-- An asynchronous call does not look at its script. -/
theorem norflashApiErase_async (hr : norflashApiErase id a len true script s = some (r, script', s')) :
    norflashApiErase id a len true [] s = some (r, [], s') := by
  unfold norflashApiErase at hr ⊢
  simp only [↓reduceIte] at hr ⊢
  split_ifs at hr ⊢
  all_goals try (cases hr; rfl)
  -- behind the checks
  obtain ⟨⟨result, mi, p⟩, hadd, hr⟩ := Option.bind_eq_some_iff.1 hr
  cases hr
  exact Option.bind_eq_some_iff.2 ⟨_, hadd, rfl⟩

theorem norflashApiWrite_async {buffer : Nat → UInt8}
    (hr : norflashApiWrite id a buffer len true script s = some (r, script', s')) :
    norflashApiWrite id a buffer len true [] s = some (r, [], s') := by
  unfold norflashApiWrite at hr ⊢
  simp only [↓reduceIte] at hr ⊢
  split_ifs at hr ⊢
  all_goals try (cases hr; rfl)
  -- behind the checks
  obtain ⟨⟨result, mi, p⟩, hadd, hr⟩ := Option.bind_eq_some_iff.1 hr
  cases hr
  exact Option.bind_eq_some_iff.2 ⟨_, hadd, rfl⟩

theorem InStep.flushed (h : InStep SectorInv ⟨s, d⟩ L) {env : FlushEnv} {code : Int} {rep : Option OperaResult}
    (hr : norflashApiFlush env s = some (code, rep, s')) :
    ∃ L', InStep SectorInv ⟨s', d⟩ L' ∧ ∀ m, Flushed (queues s.pool L m) (queues s'.pool L' m) := by
  have hflush : (⟨s, d⟩ : Sys W).flush env = some ⟨s', d⟩ := Option.bind_eq_some_iff.2 ⟨_, hr, rfl⟩
  obtain ⟨L', hi, -, hf⟩ := Sys.flush_inStep sectorInv_rules h hflush
  exact ⟨L', hi, hf⟩

theorem LeadsTo.flushed (h : LeadsTo pend d s) {env : FlushEnv} {code : Int} {rep : Option OperaResult}
    (hr : norflashApiFlush env s = some (code, rep, s')) : LeadsTo pend d s' := by
  obtain ⟨L, hi, hpend⟩ := h
  obtain ⟨L', hi', hf⟩ := hi.flushed hr
  refine ⟨L', hi', fun m n hn => ?_⟩
  obtain ⟨n₀, hn₀, ha⟩ := (hf m).addr n hn
  exact ha ▸ hpend m n₀ hn₀

/-- A call of a module changes the queue of that module at most. -/
theorem Called.keeps {s s' : Sys W} {L' : ModId → List (Slot W)} {f : ModId → List QNode}
    (hcalled : Called s s' L L' id d f r) (h : ∀ m, ∀ n ∈ queues s.api.pool L m, pend m n.addr)
    (hf : ∀ m : ModId, m.val = id → ∀ n ∈ f m, pend m n.addr) : ∀ m, ∀ n ∈ queues s'.api.pool L' m, pend m n.addr := by
  intro m n hn
  cases hcalled with
  | failed _ _ hq => exact h m n (hq ▸ hn)
  | @accepted m' hm' _ hq =>
    rw [hq] at hn
    by_cases hm : m = m'
    · subst hm
      rw [Function.update_self] at hn
      exact hf m hm' n hn
    · rw [Function.update_of_ne hm] at hn
      exact h m n hn

/-- An erase, asynchronous. -/
theorem LeadsTo.erase {s s' : Sys W} (h : LeadsTo pend s.direct s.api) (ha : a % sectorSize = 0)
    (hp : ∀ m : ModId, m.val = id → pend m a) (hsafe : EraseSafe s.api id a) (hown : OwnSector s.api id a)
    (hr : s.erase id a sectorSize = some (r, s')) : LeadsTo pend s'.direct s'.api := by
  obtain ⟨L, hi, hpend⟩ := h
  obtain ⟨L', hi', -, hcalled⟩ := Sys.erase_inStep sectorInv_rules hi ha hsafe hown hr
  refine ⟨L', hi', hcalled.keeps hpend fun m hm n hn => ?_⟩
  rcases enqErase_mem hn with hold | rfl
  · exact hpend m n hold
  · exact hp m hm

/-- A write, asynchronous. -/
theorem LeadsTo.write {s s' : Sys W} {data : Nat → UInt8} (h : LeadsTo pend s.direct s.api)
    (hfit : a % sectorSize + len ≤ sectorSize) (hclr : ∀ j < len, Clears (s.direct (a + j)) (data j))
    (hp : ∀ m : ModId, m.val = id → pend m (a / sectorSize * sectorSize))
    (hown : OwnSector s.api id (a / sectorSize * sectorSize)) (hr : s.write id a data len = some (r, s')) :
    LeadsTo pend s'.direct s'.api := by
  obtain ⟨L, hi, hpend⟩ := h
  obtain ⟨L', hi', -, hcalled⟩ := Sys.write_inStep sectorInv_rules hi hfit hclr hown (fun _ _ => trivial) hr
  refine ⟨L', hi', hcalled.keeps hpend fun m hm n hn => ?_⟩
  by_cases hna : n.addr = a / sectorSize * sectorSize
  · exact hna ▸ hp m hm
  · -- on another page the queue is as before
    have hother := (enqWrite_cases (a / sectorSize * sectorSize) (a % sectorSize) len data s.api.hal.flash
      (hi.queue.lock m)).other hna
    have hmem : secOps n.addr (queues s.api.pool L m) ≠ [] := by
      rw [← hother, Ne, secOps_eq_nil]
      exact fun hnone => hnone n hn rfl
    rw [Ne, secOps_eq_nil] at hmem
    obtain ⟨n₀, hn₀, ha⟩ : ∃ n₀ ∈ queues s.api.pool L m, n₀.addr = n.addr := by simpa using hmem
    exact ha ▸ hpend m n₀ hn₀

end Calls

/-! ## Erasing a page -/

/-- `EraseClean`, said of the queue. -/
def QClean (addr : Nat) (q : List QNode) : Prop :=
  (q.dropWhile (QNode.removable addr)).IsChain fun n n' => ¬ (n.removable addr = true ∧ n'.removable addr = true)

theorem eraseClean_iff {addr : Nat} {p : Pool W} {l : List (Slot W)} :
    EraseClean addr p l ↔ QClean addr (l.map p.view) := by
  unfold EraseClean NoPair QClean
  rw [List.dropWhile_map, List.isChain_map]
  rfl

theorem eraseSafe_iff {s : ApiInfo W} {L : ModId → List (Slot W)} (h : SysInv s L) {m : ModId} {a : Nat} :
    EraseSafe s m.val a ↔ QClean a (queues s.pool L m) := by
  unfold queues
  rw [← eraseClean_iff]
  constructor
  · intro hsafe
    exact hsafe m rfl _ (pendingSlots_of h m)
  · intro hclean m' hm' l hl
    obtain rfl : m' = m := Fin.ext hm'
    rw [pendingSlots_of h, Option.mem_some_iff] at hl
    exact hl ▸ hclean

/-- Flushing leaves no new neighbours. -/
theorem QClean.flushed {addr : Nat} {q q' : List QNode} (h : QClean addr q) (hf : Flushed q q') : QClean addr q' := by
  unfold QClean at h ⊢
  cases hf with
  | same => exact h
  | @done l n he =>
    rw [he, List.dropWhile_append] at h
    split at h
    · rename_i hnil
      rw [List.isEmpty_iff.1 hnil]
      exact .nil
    · exact h.left_of_append
  | @stopped l n he =>
    rw [he, List.dropWhile_append] at h
    have hlock : QNode.removable addr { n with lock := true } = false := by simp [QNode.removable]
    rw [List.dropWhile_append]
    split
    · simp [hlock]
    · rename_i hne
      rw [if_neg hne] at h
      rw [List.isChain_append] at h ⊢
      refine ⟨h.1, .singleton _, fun x hx y hy => ?_⟩
      obtain rfl : { n with lock := true } = y := by simpa using hy
      simp [hlock]

section Loops
variable {s s' : ApiInfo W} {own : Nat → Prop} {pend : ModId → Nat → Prop} {d : Mem} {m : ModId}
  {L : ModId → List (Slot W)} {flashOffset : Nat} {script script' : List FlushEnv}

/-- Whatever is flushed meanwhile, the loop erases the page and nothing else. -/
theorem eraseLoop_spec (hleads : LeadsTo pend d s) (ha : pageAddr flashOffset % sectorSize = 0)
    (hp : pend m (pageAddr flashOffset)) (hown : Only pend m (pageAddr flashOffset))
    (hsafe : EraseSafe s m.val (pageAddr flashOffset))
    (hr : eraseLoop m flashOffset script s = some (script', s')) :
    LeadsTo pend (NorMem.erase d (pageAddr flashOffset) sectorSize) s' := by
  let P : ApiInfo W → Prop := fun s => LeadsTo pend d s ∧ EraseSafe s m.val (pageAddr flashOffset)
  have hpend : ∀ m' : ModId, m'.val = m.val → pend m' (pageAddr flashOffset) := fun m' hm' => Fin.ext hm' ▸ hp
  -- one try, accepted or not
  have hcall : ∀ (script : List FlushEnv) (s : ApiInfo W) (script' : List FlushEnv) (s' : ApiInfo W) (r : Ret),
      norflashApiErase m.val (pageAddr flashOffset) sectorSize true script s = some (r, script', s') →
      (⟨s, d⟩ : Sys W).erase m.val (pageAddr flashOffset) sectorSize =
        some (r, ⟨s', if r = .ok then NorMem.erase d (pageAddr flashOffset) sectorSize else d⟩) :=
    fun _ _ _ _ _ hr => Option.bind_eq_some_iff.2 ⟨_, norflashApiErase_async hr, rfl⟩
  refine retryLoop_rule (P := P) (Q := LeadsTo pend (NorMem.erase d (pageAddr flashOffset) sectorSize))
    ?_ ?_ ?_ ⟨hleads, hsafe⟩ hr
  · rintro script s script' s' ⟨h, hsafe⟩ hr
    exact h.erase ha hpend hsafe (h.ownSector hown) (hcall _ _ _ _ _ hr)
  · rintro script s script' s' ⟨h, hsafe⟩ hr
    obtain ⟨L, hi, hq⟩ := h
    have hown' : OwnSector s m.val (pageAddr flashOffset) := LeadsTo.ownSector ⟨L, hi, hq⟩ hown
    obtain ⟨L', hi', -, hcalled⟩ := Sys.erase_inStep sectorInv_rules hi ha hsafe hown' (hcall _ _ _ _ _ hr)
    cases hcalled with
    | failed _ _ hsame =>
      refine ⟨⟨L', hi', fun m n hn => hq m n (hsame ▸ hn)⟩, (eraseSafe_iff hi'.sys).2 ?_⟩
      exact hsame ▸ (eraseSafe_iff hi.sys).1 hsafe
  · rintro s env code rep s' ⟨h, hsafe⟩ hr
    refine ⟨h.flushed hr, ?_⟩
    obtain ⟨L, hi, -⟩ := h
    obtain ⟨L', hi', hf⟩ := hi.flushed hr
    exact (eraseSafe_iff hi'.sys).2 (((eraseSafe_iff hi.sys).1 hsafe).flushed (hf m))

/-! ## Programming a page -/

variable {o len : Nat} {ptr : Nat → UInt8}

/-- An asynchronous program that only clears bits. -/
theorem programAsync_spec (hleads : LeadsTo pend d s) (hp : pend m (pageAddr o / sectorSize * sectorSize))
    (hown : Only pend m (pageAddr o / sectorSize * sectorSize)) (hfit : pageAddr o % sectorSize + len ≤ sectorSize)
    (hclr : ∀ j < len, Clears (d (pageAddr o + j)) (ptr j))
    (hr : appFlashPageProgram m o ptr len false script s = some (script', s')) :
    LeadsTo pend (program d (pageAddr o) len ptr) s' := by
  have htry : ∀ (script : List FlushEnv) (s : ApiInfo W) (script' : List FlushEnv) (s' : ApiInfo W) (r : Ret),
      LeadsTo pend d s →
      norflashApiWrite m.val (pageAddr o) ptr len true script s = some (r, script', s') →
      LeadsTo pend (if r = .ok then program d (pageAddr o) len ptr else d) s' := by
    intro script s script' s' r h hr
    have hcall : (⟨s, d⟩ : Sys W).write m.val (pageAddr o) ptr len =
        some (r, ⟨s', if r = .ok then program d (pageAddr o) len ptr else d⟩) :=
      Option.bind_eq_some_iff.2 ⟨_, norflashApiWrite_async hr, rfl⟩
    exact LeadsTo.write (s := ⟨s, d⟩) h hfit hclr (fun m' hm' => Fin.ext hm' ▸ hp) (h.ownSector hown) hcall
  exact retryLoop_rule (P := LeadsTo pend d) (Q := LeadsTo pend (program d (pageAddr o) len ptr))
    (fun _ _ _ _ h hr => htry _ _ _ _ _ h hr) (fun _ _ _ _ h hr => htry _ _ _ _ _ h hr) (fun _ _ _ _ _ h hr => h.flushed hr)
    hleads hr

/-- A synchronous call finds room always, and returns OK only behind its checks. -/
theorem syncWrite_ret {r : Ret} (hr : norflashApiWrite m.val (pageAddr o) ptr len false script s = some (r, script', s')) :
    r ≠ .bufferFull ∧ (r = .ok → s.is_inited = true ∧ (s.mod_info m).is_inited = true) := by
  cases norflashApiWrite_outcome hr with
  | refused hok hfull => exact ⟨hfull, fun h => absurd h hok⟩
  | queued _ _ hasync => cases hasync
  | drained hm hs hin =>
    cases Fin.ext hm
    refine ⟨?_, fun _ => ⟨hs, hin⟩⟩
    unfold syncResult
    split <;> simp

end Loops

/-! ## Draining -/

section Drain
variable {s s' : ApiInfo W} {pend : ModId → Nat → Prop} {d flash : Mem} {m : ModId} {q : ModId → List QNode}
  {L : ModId → List (Slot W)} {script script' : List FlushEnv}

/-- Executing all operations of a module. -/
theorem QInv.drain {I : Mem → Mem → Nat → List SecOp → Prop} {C : Nat → List QNode → Prop} (R : SectorRules I C)
    (h : QInv I d q flash) : QInv I d (Function.update q m []) (runQueue (q m) flash) := by
  suffices ∀ l, ∀ {q : ModId → List QNode} {flash : Mem}, QInv I d q flash → q m = l →
      QInv I d (Function.update q m []) (runQueue l flash) from this _ h rfl
  intro l
  induction l using List.reverseRecOn with
  | nil =>
    intro q flash h hq
    rw [← hq, Function.update_eq_self, hq]
    exact h
  | append_singleton l n ih =>
    intro q flash h hq
    rw [runQueue_concat]
    have := ih (h.finish R hq) (Function.update_self ..)
    rwa [Function.update_idem] at this

theorem Drained.inStep (hd : Drained s L m s') (h : InStep SectorInv ⟨s, d⟩ L) :
    InStep SectorInv ⟨s', d⟩ (Function.update L m []) where
  sys := hd.inv
  queue := by
    rw [hd.queue, hd.flash]
    exact h.queue.drain sectorInv_rules
  sector_len := h.sector_len.of_reg hd.reg

theorem Drained.leadsTo (hd : Drained s L m s') (h : InStep SectorInv ⟨s, d⟩ L)
    (hpend : ∀ m, ∀ n ∈ queues s.pool L m, pend m n.addr) : LeadsTo (Function.update pend m fun _ => False) d s' := by
  refine ⟨_, hd.inStep h, fun m' n hn => ?_⟩
  rw [hd.queue] at hn
  by_cases hm : m' = m
  · subst hm
    rw [Function.update_self] at hn
    cases hn
  · rw [Function.update_of_ne hm] at hn ⊢
    exact hpend m' n hn

/-- Before its own operation a synchronous call drains its module, unless it is
told not to and goes on at once. -/
theorem LeadsTo.drained (h : LeadsTo pend d s) (hin : (s.mod_info m).is_inited = true)
    (hrun : drainAll m script s = some (script', s')) :
    LeadsTo (Function.update pend m fun _ => False) d s' ∧ s'.hal.op = none ∨
      (s.allowed_cb = true ∧ s' = s ∧ ∃ env, script = env :: script' ∧ env.allowed = false) := by
  obtain ⟨L, hi, hpend⟩ := h
  have hmod : ∀ {b : Bool} {script : List FlushEnv} {s : ApiInfo W} {L : ModId → List (Slot W)},
      InStep SectorInv ⟨s, d⟩ L → (∀ m, ∀ n ∈ queues s.pool L m, pend m n.addr) → (s.mod_info m).is_inited = true →
      (∀ m', m' ≠ m → AtRest s L m') → drainMod m b script s = some (script', s') →
      LeadsTo (Function.update pend m fun _ => False) d s' ∧ s'.hal.op = none ∨
        (b = false ∧ s.allowed_cb = true ∧ s' = s ∧ ∃ env, script = env :: script' ∧ env.allowed = false) := by
    intro b script s L hi hpend hin hrest hrun
    rcases drainMod_spec hi.sys hin hrest hrun with hd | hleft
    · exact .inl ⟨hd.leadsTo hi hpend, hd.inv.hal hd.rest⟩
    · exact .inr hleft
  unfold drainAll at hrun
  cases hcur : s.cur_mod with
  | none =>
    simp only [hcur, Option.bind_eq_bind, Option.bind_some] at hrun
    have hrest : ∀ m', m' ≠ m → AtRest s L m' := fun m' _ => hi.sys.rest (by simp [hcur])
    exact (hmod hi hpend hin hrest hrun).imp_right And.right
  | some cur =>
    simp only [hcur] at hrun
    by_cases hm : m = cur
    · rw [if_neg (not_not.2 hm)] at hrun
      have hrest : ∀ m', m' ≠ m → AtRest s L m' := fun m' hm' =>
        hi.sys.rest fun hc => hm' ((Option.some.inj (hcur.symm.trans hc)).symm.trans hm.symm)
      exact (hmod hi hpend hin hrest hrun).imp_right And.right
    · rw [if_pos hm] at hrun
      obtain ⟨⟨b, script₁, s₁⟩, hfirst, hsecond⟩ := Option.bind_eq_some_iff.1 hrun
      rcases drainCurMod_spec hi.sys hcur hfirst with ⟨hr, rfl, rfl, rfl⟩ | ⟨l, c, -, rfl, hd⟩
      · have hrest : ∀ m', m' ≠ m → AtRest s₁ L m' := by
          intro m' _
          by_cases hc : m' = cur
          · exact hc ▸ hr
          · exact hi.sys.rest fun hc' => hc (Option.some.inj (hc'.symm.trans hcur))
        exact (hmod hi hpend hin hrest hsecond).imp_right And.right
      · -- the other module's operation is done first
        have hi₀ : InStep SectorInv ⟨s.setCur s.cur_mod_id s.cur_mod false, d⟩ L :=
          ⟨hi.sys.setCur hi.sys.cur_inited (.inr rfl) s.cur_mod_id false, hi.queue, hi.sector_len⟩
        obtain ⟨hi₁, hf⟩ := InStep.done sectorInv_rules hi₀ hd
        have hin₁ : (s₁.mod_info m).is_inited = true := by
          have := congrArg ModuleInfo.is_inited (hd.frame.reg m)
          exact this.trans hin
        have hpend₁ : ∀ m, ∀ n ∈ queues s₁.pool (Function.update L cur l) m, pend m n.addr := by
          intro m n hn
          obtain ⟨n₀, hn₀, ha⟩ := (hf m).addr n hn
          exact ha ▸ hpend m n₀ hn₀
        rcases hmod hi₁ hpend₁ hin₁ (fun m' _ => hd.rest m') hsecond with hdr | ⟨hb, -⟩
        · exact .inl hdr
        · cases hb

/-- A change of the flash in a page that nothing is pending on. -/
theorem QInv.both {d' flash' : Mem} {a : Nat} (h : QInv SectorInv d q flash) (ha : a % sectorSize = 0)
    (hnone : ∀ m, secOps a (q m) = []) (hself : ∀ j < sectorSize, flash (a + j) = d (a + j) → flash' (a + j) = d' (a + j))
    (hother : ∀ b, b % sectorSize = 0 → b ≠ a → ∀ j < sectorSize,
      d' (b + j) = d (b + j) ∧ flash' (b + j) = flash (b + j)) : QInv SectorInv d' q flash' where
  fits := h.fits
  lock := h.lock
  excl := h.excl
  sector b hb m halone := by
    have hsector := h.sector b hb m halone
    by_cases hba : b = a
    · subst hba
      rw [hnone m] at hsector ⊢
      exact ⟨fun j hj => (hself j hj (hsector.content j hj).symm).symm, trivial⟩
    · exact hsector.congr (fun j hj => (hother b hb hba j hj).1) fun j hj => (hother b hb hba j hj).2

theorem program_congr {f f' : Mem} {base len x : Nat} {data : Nat → UInt8} (h : f x = f' x) :
    program f base len data x = program f' base len data x := by
  unfold program
  rw [h]

/-- Programming inside a page leaves the others. -/
theorem program_page {base len a b j : Nat} {data : Nat → UInt8} (hpage : base / sectorSize * sectorSize = a)
    (hfit : base % sectorSize + len ≤ sectorSize) (hb : b % sectorSize = 0) (hba : b ≠ a) (hj : j < sectorSize) (f : Mem) :
    program f base len data (b + j) = f (b + j) := by
  refine program_other fun hin => ?_
  simp only [InRange, sectorSize] at *
  omega

/-- A synchronous program whose drain is not left early. -/
theorem programSync_spec {o len : Nat} {ptr : Nat → UInt8} (h : LeadsTo pend d s) (hdrains : Drains m script s)
    (hown : Only pend m (pageAddr o / sectorSize * sectorSize)) (hfit : pageAddr o % sectorSize + len ≤ sectorSize)
    (hr : appFlashPageProgram m o ptr len true script s = some (script', s')) :
    LeadsTo (Function.update pend m fun _ => False) (program d (pageAddr o) len ptr) s' := by
  simp only [appFlashPageProgram, retryLoop, Option.bind_eq_bind, Option.bind_eq_some_iff, Bool.not_true] at hr
  obtain ⟨⟨ret, script₁, s₁⟩, htry, hr⟩ := hr
  obtain ⟨hroom, hinited⟩ := syncWrite_ret htry
  obtain rfl : ret = .ok := by
    cases ret with
    | ok => rfl
    | bufferFull => exact absurd rfl hroom
    | _ => cases hr
  cases hr
  obtain ⟨hs, hm⟩ := hinited rfl
  have hacc : Accepts (((SyncCall.write (pageAddr o) len ptr).entry script).call m.val (pageAddr o) len s) := by
    intro r hcall
    obtain rfl : Ret.ok = r := by simpa [Entry.call, SyncCall.entry, htry] using hcall
    rfl
  have hexec := (SyncCall.write (pageAddr o) len ptr).exec_eq hs hm hacc
  have htry' : (SyncCall.write (pageAddr o) len ptr).exec m.val script s = some (.ok, script₁, s₁) := htry
  rw [htry'] at hexec
  obtain ⟨⟨sc, t⟩, hdrain, he⟩ := Option.map_eq_some_iff.1 hexec.symm
  simp only [Prod.mk.injEq] at he
  obtain ⟨hret, -, rfl⟩ := he
  -- the module is drained, and its own operation executed
  have hdone : LeadsTo (Function.update pend m fun _ => False) d t ∧ t.hal.op = none := by
    rcases h.drained hm hdrain with hdone | ⟨hcb, rfl, env, rfl, hno⟩
    · exact hdone
    · have hop : t.hal.op = none := by
        by_contra hop
        rw [SyncCall.hal_of_busy _ hop] at hret
        cases hret
      refine ⟨?_, hop⟩
      rcases hdrains with hcb' | hhead | hop' | hnil
      · rw [hcb] at hcb'
        cases hcb'
      · have := hhead env rfl
        rw [hno] at this
        cases this
      · exact absurd hop hop'
      · obtain ⟨L, hi, hpend⟩ := h
        have hL : L m = [] := Option.some.inj ((pendingSlots_of hi.sys m).symm.trans hnil)
        refine ⟨L, hi, fun m' n hn => ?_⟩
        by_cases hm' : m' = m
        · subst hm'
          rw [queues, hL] at hn
          cases hn
        · rw [Function.update_of_ne hm']
          exact hpend m' n hn
  obtain ⟨⟨L, hi, hpend⟩, hop⟩ := hdone
  rw [SyncCall.hal_of_free _ hop]
  refine ⟨L, ⟨hi.sys.setFlash hop.symm _, ?_, hi.sector_len⟩, hpend⟩
  have hmod : pageAddr o / sectorSize * sectorSize % sectorSize = 0 := Nat.mul_mod_left _ _
  have hnone : ∀ m', secOps (pageAddr o / sectorSize * sectorSize) (queues t.pool L m') = [] := by
    intro m'
    rw [secOps_eq_nil]
    intro n hn hna
    have := hpend m' n hn
    by_cases hm' : m' = m
    · subst hm'
      rw [Function.update_self] at this
      exact this
    · rw [Function.update_of_ne hm', hna] at this
      exact hown m' hm' this
  refine hi.queue.both hmod hnone (fun j _ heq => ?_) fun b hb hba j hj =>
    ⟨program_page rfl hfit hb hba hj _, program_page rfl hfit hb hba hj _⟩
  exact program_congr heq

/-- `app_flush_pending_flash_op` returns when nothing of the module is pending. -/
theorem flushAll_spec (h : LeadsTo pend d s) (hr : appFlushPendingFlashOp m .all script s = some (script', s')) :
    LeadsTo (Function.update pend m fun _ => False) d s' := by
  induction script generalizing s with
  | nil => cases hr
  | cons env script ih =>
    obtain ⟨⟨code, rep, s₁⟩, hone, hr⟩ := Option.bind_eq_some_iff.1 hr
    have h₁ := h.flushed hone
    obtain ⟨done, hfree, hr⟩ := Option.bind_eq_some_iff.1 hr
    cases done with
    | false => exact ih h₁ hr
    | true =>
      cases hr
      obtain ⟨L, hi, hpend⟩ := h₁
      refine ⟨L, hi, fun m' n hn => ?_⟩
      by_cases hm : m' = m
      · subst hm
        have hL : L m' = [] := by
          unfold norflashApiBufferIsFree at hfree
          split at hfree
          · rw [getEwCount_spec hi.sys.pool rfl] at hfree
            simpa using hfree
          · cases hfree
        rw [queues, hL] at hn
        cases hn
      · rw [Function.update_of_ne hm]
        exact hpend m' n hn

end Drain

/-! ## The blank check -/

/-- The program stays inside the page. -/
def InPage (flashOffset o len : Nat) : Prop :=
  pageAddr o / sectorSize * sectorSize = pageAddr flashOffset ∧ pageAddr o % sectorSize + len ≤ sectorSize

instance (flashOffset o len : Nat) : Decidable (InPage flashOffset o len) := inferInstanceAs (Decidable (_ ∧ _))

/-- Programs of a blank page, from two states with the same content. -/
theorem programs_same {s₁ s₂ t₁ t₂ : ApiInfo W} {own : Nat → Prop} {pend : ModId → Nat → Prop} {d : Mem} {m : ModId}
    {flashOffset o len : Nat} {ptr : Nat → UInt8} {script₁ script₁' script₂ script₂' : List FlushEnv} {synWrite : Bool}
    (h₁ : LeadsTo pend d s₁) (h₂ : LeadsTo pend d s₂) (hown : ∀ a, own a → Only pend m a) (hpend : ∀ a, pend m a)
    (ho : own (pageAddr flashOffset)) (hblank : ∀ j < sectorSize, d (pageAddr flashOffset + j) = 0xff)
    (hin : InPage flashOffset o len) (hdrains : synWrite = true → Drains m script₁ s₁ ∧ Drains m script₂ s₂)
    (hr₁ : appFlashPageProgram m o ptr len synWrite script₁ s₁ = some (script₁', t₁))
    (hr₂ : appFlashPageProgram m o ptr len synWrite script₂ s₂ = some (script₂', t₂)) : SameContent own m t₂ t₁ := by
  obtain ⟨hpage, hfit⟩ := hin
  have hown' : Only pend m (pageAddr o / sectorSize * sectorSize) := hpage ▸ hown _ ho
  cases synWrite with
  | false =>
    have hclr : ∀ j < len, Clears (d (pageAddr o + j)) (ptr j) := by
      intro j hj
      have hadd : pageAddr o + j = pageAddr flashOffset + (pageAddr o % sectorSize + j) := by
        have := Nat.div_add_mod' (pageAddr o) sectorSize
        omega
      rw [hadd, hblank _ (by omega)]
      exact ff_and _
    exact ((programAsync_spec h₂ (hpend _) hown' hfit hclr hr₂).holds hown).same
      ((programAsync_spec h₁ (hpend _) hown' hfit hclr hr₁).holds hown)
  | true =>
    obtain ⟨hd₁, hd₂⟩ := hdrains rfl
    have honly : ∀ a, own a → Only (Function.update pend m fun _ => False) m a := by
      intro a ha m' hm'
      rw [Function.update_of_ne hm']
      exact hown a ha m' hm'
    exact ((programSync_spec h₂ hd₂ hown' hfit hr₂).holds honly).same
      ((programSync_spec h₁ hd₁ hown' hfit hr₁).holds honly)

/-- With the blank check the erase leaves the content that the loop leaves, `s₁`,
and so does a program of the page behind it. -/
def LikeErased (m : ModId) (flashOffset : Nat) (script : List FlushEnv) (s s₁ : ApiInfo W) : Prop :=
  ∃ script₂ s₂, appFlashPageErase m flashOffset script s = some (script₂, s₂) ∧
    SameContent (OwnSector s m.val) m s₂ s₁ ∧
    ∀ o ptr len synWrite, InPage flashOffset o len → ∀ sc₁ sc₁' t₁ sc₂ sc₂' t₂,
      (synWrite = true → Drains m sc₁ s₁ ∧ Drains m sc₂ s₂) →
      appFlashPageProgram m o ptr len synWrite sc₁ s₁ = some (sc₁', t₁) →
      appFlashPageProgram m o ptr len synWrite sc₂ s₂ = some (sc₂', t₂) → SameContent (OwnSector s m.val) m t₂ t₁

/-- The erase may be left out of a page that is blank on the flash exactly if what
is pending on it leaves it blank. -/
theorem blank_check_iff (flash : Mem) (s : Sys W) (evs : List Event)
    (h : Run step QueueCond (· = initial W flash) s evs) (m : ModId) (flashOffset : Nat)
    (hpage : flashOffset % sectorSize = 0) (hown : OwnSector s.api m.val (pageAddr flashOffset))
    (hsafe : EraseSafe s.api m.val (pageAddr flashOffset)) (script script₁ : List FlushEnv) (s₁ : ApiInfo W)
    (hloop : eraseLoop m flashOffset script s.api = some (script₁, s₁)) :
    LikeErased m flashOffset script s.api s₁ ↔
      (isEmptyPage s.api.hal.flash (checkAddr flashOffset) = true →
        pageContent s.api m (pageAddr flashOffset) = some (List.replicate sectorSize 0xff)) := by
  obtain ⟨L, hL⟩ := inStep_of_run sectorInv_rules (.initial flash) (fun _ _ hc => hc) (fun _ _ _ _ _ _ _ _ _ => trivial) h
  have ha : pageAddr flashOffset % sectorSize = 0 := by
    simp only [pageAddr, flashNcBase, sectorSize] at *
    omega
  let pend : ModId → Nat → Prop := fun m' a => m' ≠ m → ¬ OwnSector s.api m.val a
  have honly : ∀ a, OwnSector s.api m.val a → Only pend m a := fun a ho m' hm' hp => hp hm' ho
  have hs : LeadsTo pend s.direct s.api := by
    refine ⟨L, hL, fun m' n hn hm' ho => ?_⟩
    exact secOps_eq_nil.1 (alone_of_ownSector hL.sys rfl ho m' hm') n hn rfl
  have hpend : ∀ a, pend m a := fun a hm => absurd rfl hm
  have hs₁ := eraseLoop_spec hs ha (hpend _) (honly _ hown) hsafe hloop
  have hbytes : pageBytes (NorMem.erase s.direct (pageAddr flashOffset) sectorSize) (pageAddr flashOffset) =
      List.replicate sectorSize 0xff := by
    rw [List.eq_replicate_iff]
    refine ⟨by simp [pageBytes], fun b hb => ?_⟩
    obtain ⟨j, hj, rfl⟩ := List.mem_map.1 hb
    exact erase_of (by have := List.mem_range.1 hj; unfold InRange; omega)
  constructor
  · rintro ⟨script₂, s₂, hcall, hsame, -⟩ hempty
    rw [appFlashPageErase, if_pos hempty] at hcall
    cases hcall
    rw [hsame _ ha hown, hs₁.holds honly _ ha hown, hbytes]
  · intro hblank
    by_cases hempty : isEmptyPage s.api.hal.flash (checkAddr flashOffset) = true
    · -- nothing is done, and nothing had to be
      have hcontent := (hs.holds honly _ ha hown).symm.trans (hblank hempty)
      have hff : ∀ j < sectorSize, s.direct (pageAddr flashOffset + j) = 0xff := by
        intro j hj
        have hmem : s.direct (pageAddr flashOffset + j) ∈ pageBytes s.direct (pageAddr flashOffset) :=
          List.mem_map_of_mem (List.mem_range.2 hj)
        rw [Option.some.inj hcontent] at hmem
        exact List.eq_of_mem_replicate hmem
      have hsame : NorMem.erase s.direct (pageAddr flashOffset) sectorSize = s.direct := by
        funext a
        by_cases hin : InRange (pageAddr flashOffset) sectorSize a
        · rw [erase_of hin, ← Nat.add_sub_cancel' hin.1, hff _ (by unfold InRange at hin; omega)]
        · exact erase_other hin
      rw [hsame] at hs₁
      refine ⟨script, s.api, if_pos hempty, (hs.holds honly).same (hs₁.holds honly), ?_⟩
      intro o ptr len synWrite hin sc₁ sc₁' t₁ sc₂ sc₂' t₂ hdrains hr₁ hr₂
      exact programs_same hs₁ hs honly hpend hown hff hin hdrains hr₁ hr₂
    · refine ⟨script₁, s₁, (if_neg hempty).trans hloop, (hs₁.holds honly).same (hs₁.holds honly), ?_⟩
      intro o ptr len synWrite hin sc₁ sc₁' t₁ sc₂ sc₂' t₂ hdrains hr₁ hr₂
      exact programs_same hs₁ hs₁ honly hpend hown (fun j hj => erase_of (by unfold InRange; omega)) hin hdrains hr₁ hr₂

/-- A page that is blank on the flash and that no pending operation is on. -/
theorem pageContent_blank {s : ApiInfo W} {m : ModId} {a : Nat} {q : List QNode} (hq : pendingOps s m = some q)
    (hnone : secOps a q = []) (hempty : isEmptyPage s.hal.flash a = true) :
    pageContent s m a = some (List.replicate sectorSize 0xff) := by
  rw [pageContent, hq, Option.map_some, hnone]
  refine congrArg some (List.eq_replicate_iff.2 ⟨by simp, fun b hb => ?_⟩)
  obtain ⟨j, hj, rfl⟩ := List.mem_map.1 hb
  exact beq_iff_eq.1 (List.all_eq_true.1 hempty j hj)

/-- A blank page while a write to another one is pending. -/
theorem blank_check_example : ∃ s : Sys 1, ∃ s₁, eraseLoop 0 0 [] s.api = some ([], s₁) ∧
    isEmptyPage s.api.hal.flash (checkAddr 0) = true ∧ LikeErased 0 0 [] s.api s₁ := by
  obtain ⟨s, hr, hg⟩ := run_of_check 1 QueueCond (fun _ => 0xff)
    [.register (eightSectors 0 flashNcBase), .write 0 (flashNcBase + 0x1000) [1]]
    (fun s => decide (OwnSector s.api 0 (pageAddr 0) ∧ EraseSafe s.api 0 (pageAddr 0)) &&
      isEmptyPage s.api.hal.flash (checkAddr 0) &&
      ((pendingOps s.api 0).any fun q => (secOps (pageAddr 0) q).isEmpty) &&
      (eraseLoop 0 0 [] s.api).any fun r => r.1.isEmpty) (by decide +kernel)
  simp only [Bool.and_eq_true, decide_eq_true_eq] at hg
  obtain ⟨⟨⟨⟨hown, hsafe⟩, hempty⟩, hnone⟩, hloop⟩ := hg
  obtain ⟨q, hq, hnone⟩ := (Option.any_eq_true ..).1 hnone
  have hcontent := pageContent_blank hq (List.isEmpty_iff.1 hnone) hempty
  obtain ⟨⟨script₁, s₁⟩, hloop, hnil⟩ := (Option.any_eq_true ..).1 hloop
  obtain rfl : script₁ = [] := List.isEmpty_iff.1 hnil
  exact ⟨s, s₁, hloop, hempty, (blank_check_iff _ s _ hr 0 0 rfl hown hsafe [] [] s₁ hloop).2 fun _ => hcontent⟩

/-- A byte is written to a blank page and is still pending when the page is to be
erased: the erase is left out and the byte stays. -/
theorem erase_left_out : ¬ ∀ (W : Nat) (flash : Mem) (s : Sys W) (evs : List Event),
    Run step QueueCond (· = initial W flash) s evs → ∀ (m : ModId) (flashOffset : Nat), flashOffset % sectorSize = 0 →
      OwnSector s.api m.val (pageAddr flashOffset) → EraseSafe s.api m.val (pageAddr flashOffset) →
        ∀ script script₁ s₁, eraseLoop m flashOffset script s.api = some (script₁, s₁) →
          LikeErased m flashOffset script s.api s₁ := by
  intro hclaim
  obtain ⟨s, hr, hg⟩ := run_of_check 1 QueueCond (fun _ => 0xff)
    [.register (eightSectors 0 flashNcBase), .write 0 flashNcBase [1]]
    (fun s => decide (OwnSector s.api 0 (pageAddr 0) ∧ EraseSafe s.api 0 (pageAddr 0)) &&
      isEmptyPage s.api.hal.flash (checkAddr 0) &&
      (eraseLoop 0 0 [] s.api).any fun r =>
        decide ((pageContent s.api 0 (pageAddr 0)).map List.head? ≠ (pageContent r.2 0 (pageAddr 0)).map List.head?))
    (by decide +kernel)
  simp only [Bool.and_eq_true, decide_eq_true_eq] at hg
  obtain ⟨⟨⟨hown, hsafe⟩, hempty⟩, hloop⟩ := hg
  obtain ⟨⟨script₁, s₁⟩, hloop, hne⟩ := (Option.any_eq_true ..).1 hloop
  obtain ⟨script₂, s₂, hcall, hsame, -⟩ := hclaim 1 _ s _ hr 0 0 rfl hown hsafe [] script₁ s₁ hloop
  rw [appFlashPageErase, if_pos hempty] at hcall
  cases hcall
  exact of_decide_eq_true hne (congrArg (Option.map List.head?) (hsame _ (by decide) hown))

end Norflash
