import LittleBuddy.Norflash.Queue
/-!
# What the queues stand for

`QInv I d q f`: every sector, with its pending operations `q`, satisfies `I` with
respect to the flash `f` and the memory `d` of direct execution. Queueing an
operation follows the direct memory, and executing the oldest one, in one go or
in steps, leaves it alone. `SectorInv` is the `I` for what a drained queue leaves
on the flash, `SectorShows` the one for what a read returns.
-/
open NorMem

namespace Norflash

/-! ## One sector -/

/-- The pending operations of the sector at `s` lead from the flash to `direct`. -/
structure SectorInv (direct flash : Mem) (s : Nat) (ops : List SecOp) : Prop where
  content : ∀ j < sectorSize, direct (s + j) = replay ops j (flash (s + j))
  pads : Pads sectorSize (fun j => flash (s + j)) ops

section Sector
variable {direct direct' flash flash' : Mem} {s : Nat} {ops older : List SecOp}

theorem SectorInv.congr (h : SectorInv direct flash s ops) (hd : ∀ j < sectorSize, direct' (s + j) = direct (s + j))
    (hf : ∀ j < sectorSize, flash' (s + j) = flash (s + j)) : SectorInv direct' flash' s ops where
  content j hj := by rw [hd j hj, hf j hj, h.content j hj]
  pads := by
    have hp : Pads sectorSize (fun j => flash (s + j)) (ops ++ []) := by simpa using h.pads
    have hp' : Pads sectorSize (fun j => flash' (s + j)) (ops ++ []) :=
      pads_congr (fun j hj => by exact hf j hj) trivial hp
    simpa using hp'

theorem SectorInv.erase {gone : List SecOp} (h : SectorInv direct flash s (gone ++ older))
    (hd : ∀ j < sectorSize, direct' (s + j) = 0xff) : SectorInv direct' flash s (.erase :: older) where
  content j hj := by rw [hd j hj, replay_cons, effect_erase]
  pads := by
    have hp : Pads sectorSize (fun j => flash (s + j)) older := pads_of_append h.pads
    exact hp

theorem SectorInv.finish {o : SecOp} (h : SectorInv direct flash s (ops ++ [o]))
    (hf : ∀ j < sectorSize, flash' (s + j) = o.effect j (flash (s + j))) : SectorInv direct flash' s ops where
  content j hj := by rw [h.content j hj, hf j hj, replay_finish]
  pads := pads_finish h.pads hf

theorem SectorInv.suspend {o : SecOp} (h : SectorInv direct flash s (ops ++ [o]))
    (hr : Resumable sectorSize o (fun j => flash (s + j)) fun j => flash' (s + j)) :
    SectorInv direct flash' s (ops ++ [o]) where
  content j hj := by rw [h.content j hj]; exact (replay_suspend hr ops hj).symm
  pads := pads_suspend hr h.pads

/-- A write follows the direct memory in each of its three ways. -/
theorem SectorInv.write {offs len : Nat} {data : Nat → UInt8} {q q' : List QNode}
    (h : SectorInv direct flash s (secOps s q)) (hw : WriteCase s offs len data flash q q')
    (hlen : offs + len ≤ sectorSize) (hc : ClearsAll offs len data fun j => direct (s + j))
    (hd : ∀ j < sectorSize, direct' (s + j) = programByte offs len data j (direct (s + j))) :
    SectorInv direct' flash s (secOps s q') := by
  cases hw with
  | @merged q₁ q₂ n o l bytes he hsec ha _ hop =>
    have hops : secOps s q = .program o l bytes :: secOps s q₂ := by
      simp [he, secOps_append, hsec, secOps_cons, ha, hop]
    have hops' : secOps s (q₁ ++ { n with op := .widen o l bytes offs len data } :: q₂) =
        .widen o l bytes offs len data :: secOps s q₂ := by
      simp [secOps_append, hsec, secOps_cons, ha]
    rw [hops] at h
    rw [hops']
    refine ⟨fun j hj => ?_, pads_widen h.pads⟩
    have hcont : ∀ i < sectorSize, direct (s + i) =
        (SecOp.program o l bytes).effect i (replay (secOps s q₂) i (flash (s + i))) := fun i hi => by
      rw [h.content i hi, replay_cons]
    rw [hd j hj, hcont j hj, replay_cons]
    have hclr : ClearsAll offs len data fun i =>
        (SecOp.program o l bytes).effect i (replay (secOps s q₂) i (flash (s + i))) := by
      intro i hi
      have hi' : i < sectorSize := by have := hi.2; omega
      have hci := hc i hi
      simp only [hcont i hi'] at hci
      exact hci
    exact (effect_widen (fun hr => h.pads.1 j hj hr) hclr).symm
  | @over_erase older hops =>
    rw [hops] at h
    rw [secOps_cons, if_pos rfl, hops]
    refine ⟨fun j hj => ?_, pads_new h.pads offs len data fun j _ => ?_⟩
    · rw [hd j hj, h.content j hj]
      exact (effect_new _ offs len data j _).symm
    · rw [replay_cons, effect_erase, UInt8.and_self]
  | over_flash hops _ =>
    rw [secOps_cons, if_pos rfl]
    refine ⟨fun j hj => ?_, pads_new h.pads offs len data fun j _ => ?_⟩
    · rw [hd j hj, h.content j hj, replay_cons, effect_new]
    · rcases hops with hops | ⟨o, l, bytes, hops⟩
      · rw [hops, replay_nil, UInt8.and_self]
      · rw [hops]
        exact pads_flash (fun i => flash (s + i)) o l bytes j

end Sector

/-! ## Operations and sectors -/

theorem sector_apart {s s' j : Nat} (hs : s % sectorSize = 0) (hs' : s' % sectorSize = 0) (hne : s ≠ s')
    (hj : j < sectorSize) {offs len : Nat} (hlen : offs + len ≤ sectorSize) : ¬ InRange (s' + offs) len (s + j) := by
  unfold InRange
  simp only [sectorSize] at *
  omega

theorem sector_apart' {s s' j : Nat} (hs : s % sectorSize = 0) (hs' : s' % sectorSize = 0) (hne : s ≠ s')
    (hj : j < sectorSize) {len : Nat} (hlen : len ≤ sectorSize) : ¬ InRange s' len (s + j) := by
  have := @sector_apart s s' j hs hs' hne hj 0 len (by omega)
  rwa [Nat.add_zero] at this

theorem inRange_sector {s j offs len : Nat} : InRange (s + offs) len (s + j) ↔ InRange offs len j := by
  unfold InRange
  omega

theorem sub_sector {s j offs : Nat} : s + j - (s + offs) = j - offs := by omega

section Node
variable {n : QNode} {s j : Nat}

theorem QNode.run_other (hn : n.Fits) (hs : s % sectorSize = 0) (hne : s ≠ n.addr) (hj : j < sectorSize) (flash : Mem) :
    n.run flash (s + j) = flash (s + j) := by
  obtain ⟨ha, hop⟩ := hn
  unfold QNode.run
  cases ho : n.op with
  | erase =>
    rw [ho] at hop
    exact erase_other (sector_apart' hs ha hne hj (by simp [hop]))
  | program offs len bytes =>
    rw [ho] at hop
    exact program_other (sector_apart hs ha hne hj hop)

theorem QNode.run_self (hn : n.Fits) (hj : j < sectorSize) (flash : Mem) :
    n.run flash (n.addr + j) = n.op.effect j (flash (n.addr + j)) := by
  obtain ⟨ha, hop⟩ := hn
  unfold QNode.run
  cases ho : n.op with
  | erase =>
    simp only [ho] at hop
    exact erase_of (by unfold InRange; omega)
  | program offs len bytes =>
    simp only
    by_cases hr : InRange offs len j
    · rw [program_of (inRange_sector.2 hr), effect_program_of hr, sub_sector, Nat.add_sub_cancel' hr.1]
    · rw [program_other fun h => hr (inRange_sector.1 h), effect_program_other hr]

theorem QNode.stop_other (hn : n.Fits) (hs : s % sectorSize = 0) (hne : s ≠ n.addr) (hj : j < sectorSize)
    (mid flash : Mem) : n.stop mid flash (s + j) = flash (s + j) := by
  obtain ⟨ha, hop⟩ := hn
  unfold QNode.stop
  cases ho : n.op with
  | erase =>
    rw [ho] at hop
    exact if_neg (sector_apart' hs ha hne hj (by simp [hop]))
  | program offs len bytes =>
    rw [ho] at hop
    exact if_neg (sector_apart hs ha hne hj hop)

theorem QNode.stop_resumable (n : QNode) (mid flash : Mem) :
    Resumable sectorSize n.op (fun j => flash (n.addr + j)) fun j => n.stop mid flash (n.addr + j) := by
  unfold QNode.stop
  cases ho : n.op with
  | erase => exact ⟨fun j _ => rfl, fun _ _ _ h => by cases h⟩
  | program offs len bytes =>
    simp only [programPart, inRange_sector, sub_sector]
    refine ⟨fun j _ => ?_, ?_⟩
    · by_cases hr : InRange offs len j
      · rw [effect_program_of hr, effect_program_of hr, if_pos hr, Nat.add_sub_cancel' hr.1, programPart_finish]
      · rw [effect_program_other hr, effect_program_other hr, if_neg hr]
    · rintro _ _ _ ⟨⟩ j _ hr
      exact if_neg hr

end Node

/-! ## All queues -/

/-- No other module has an operation pending on the sector. -/
def Alone (q : ModId → List QNode) (m : ModId) (s : Nat) : Prop := ∀ m', m' ≠ m → secOps s (q m') = []

/-- A relation between the direct memory, the flash and the pending operations
of a sector that all steps keep; a write may need `C` of the module's queue. -/
structure SectorRules (I : Mem → Mem → Nat → List SecOp → Prop) (C : Nat → List QNode → Prop) : Prop where
  congr : ∀ {d d' f f' s ops}, I d f s ops → (∀ j < sectorSize, d' (s + j) = d (s + j)) →
    (∀ j < sectorSize, f' (s + j) = f (s + j)) → I d' f' s ops
  erase : ∀ {d d' f s gone older}, I d f s (gone ++ older) → (∀ j < sectorSize, d' (s + j) = 0xff) →
    I d' f s (.erase :: older)
  write : ∀ {d d' f s offs len data q q'}, I d f s (secOps s q) → WriteCase s offs len data f q q' → C s q →
    offs + len ≤ sectorSize → ClearsAll offs len data (fun j => d (s + j)) →
    (∀ j < sectorSize, d' (s + j) = programByte offs len data j (d (s + j))) → I d' f s (secOps s q')
  finish : ∀ {d f f' s ops o}, I d f s (ops ++ [o]) → (∀ j < sectorSize, f' (s + j) = o.effect j (f (s + j))) →
    I d f' s ops
  suspend : ∀ {d f f' s ops o}, I d f s (ops ++ [o]) →
    Resumable sectorSize o (fun j => f (s + j)) (fun j => f' (s + j)) → I d f' s (ops ++ [o])

theorem sectorInv_rules : SectorRules SectorInv fun _ _ => True where
  congr := .congr
  erase := .erase
  write h hw _ := h.write hw
  finish := .finish
  suspend := .suspend

/-- Moreover the newest operation, or else the flash, shows the sector's content. -/
structure SectorShows (direct flash : Mem) (s : Nat) (ops : List SecOp) : Prop where
  inv : SectorInv direct flash s ops
  shows_content : ∀ j < sectorSize, newest ops (fun j => flash (s + j)) j = direct (s + j)

/-- A write must not come on top of a write that has been started: its image
would begin as the half-written flash. -/
theorem sectorShows_rules : SectorRules SectorShows fun s q => newestStarted s q = false where
  congr {d d' f f' s ops} h hd hf := by
    refine ⟨h.inv.congr hd hf, fun j hj => ?_⟩
    rw [hd j hj, ← h.shows_content j hj]
    cases ops with
    | nil => exact hf j hj
    | cons o ops => exact newest_head
  erase h hd := ⟨h.inv.erase hd, fun j hj => (hd j hj).symm⟩
  write {d d' f s offs len data q q'} h hw hc hlen hcl hd := by
    refine ⟨h.inv.write hw hlen hcl hd, fun j hj => ?_⟩
    rw [hd j hj]
    have hshow := h.shows_content j hj
    cases hw with
    | @merged q₁ q₂ n o l bytes he hsec ha _ hop =>
      subst he
      simp only [secOps_append, hsec, secOps_cons, ha, hop, List.nil_append, if_true] at hshow ⊢
      exact memcpy_content hshow hcl
    | over_erase hops =>
      rw [hops] at hshow
      rw [secOps_cons, if_pos rfl]
      exact memcpy_content hshow hcl
    | over_flash hops hall =>
      have hnil : secOps s q = [] := by
        rw [secOps_eq_nil]
        intro n hn ha
        unfold newestStarted at hc
        split at hc
        · rename_i n' hf
          obtain ⟨hw, hl⟩ := hall n' (List.mem_of_find?_eq_some hf) (by simpa using List.find?_some hf)
          simp [hw, hl] at hc
        · rename_i hf
          exact List.find?_eq_none.1 hf n hn (by simpa using ha)
      rw [hnil] at hshow
      rw [secOps_cons, if_pos rfl]
      exact memcpy_content hshow hcl
  finish {d f f' s ops o} h hf := by
    refine ⟨h.inv.finish hf, fun j hj => ?_⟩
    cases ops with
    | nil =>
      rw [h.inv.content j hj]
      exact hf j hj
    | cons o' ops =>
      rw [← h.shows_content j hj]
      exact newest_head
  suspend {d f f' s ops o} h hr := by
    refine ⟨h.inv.suspend hr, fun j hj => ?_⟩
    rw [← h.shows_content j hj]
    cases ops with
    | nil => exact newest_head
    | cons o' ops => exact newest_head

/-- Every sector satisfies `I`, and is pending in one module at most. -/
structure QInv (I : Mem → Mem → Nat → List SecOp → Prop) (direct : Mem) (q : ModId → List QNode) (flash : Mem) :
    Prop where
  fits : ∀ m, ∀ n ∈ q m, n.Fits
  lock : ∀ m, LockLast (q m)
  excl : ∀ s m m', secOps s (q m) ≠ [] → secOps s (q m') ≠ [] → m = m'
  sector : ∀ s, s % sectorSize = 0 → ∀ m, Alone q m s → I direct flash s (secOps s (q m))

section Steps
variable {I : Mem → Mem → Nat → List SecOp → Prop} {C : Nat → List QNode → Prop}
  {direct direct' flash flash' : Mem} {q : ModId → List QNode} {m : ModId} {l : List QNode}

theorem QInv.alone (h : QInv I direct q flash) {s : Nat} (hs : secOps s (q m) ≠ []) : Alone q m s := by
  intro m' hne
  by_contra hc
  exact hne (h.excl s m' m hc hs)

/-- Changing one module's queue: it is enough to look at the sectors that are
pending nowhere else. -/
theorem QInv.update (R : SectorRules I C) (h : QInv I direct q flash) (hfits : ∀ n ∈ l, n.Fits) (hlock : LockLast l)
    (hpend : ∀ s, secOps s l ≠ [] → Alone q m s)
    (hsec : ∀ s, s % sectorSize = 0 → Alone q m s → I direct flash s (secOps s (q m)) →
      I direct' flash' s (secOps s l))
    (hother : ∀ s, s % sectorSize = 0 → ¬ Alone q m s → ∀ j < sectorSize,
      direct' (s + j) = direct (s + j) ∧ flash' (s + j) = flash (s + j)) :
    QInv I direct' (Function.update q m l) flash' := by
  constructor
  · intro m'
    by_cases hm : m' = m
    · subst hm; rwa [Function.update_self]
    · rw [Function.update_of_ne hm]; exact h.fits m'
  · intro m'
    by_cases hm : m' = m
    · subst hm; rwa [Function.update_self]
    · rw [Function.update_of_ne hm]; exact h.lock m'
  · intro s m₁ m₂ h₁ h₂
    by_cases hm₁ : m₁ = m <;> by_cases hm₂ : m₂ = m
    · rw [hm₁, hm₂]
    · rw [hm₁, Function.update_self] at h₁
      rw [Function.update_of_ne hm₂] at h₂
      exact absurd (hpend s h₁ m₂ hm₂) h₂
    · rw [hm₂, Function.update_self] at h₂
      rw [Function.update_of_ne hm₁] at h₁
      exact absurd (hpend s h₂ m₁ hm₁) h₁
    · rw [Function.update_of_ne hm₁] at h₁
      rw [Function.update_of_ne hm₂] at h₂
      exact h.excl s m₁ m₂ h₁ h₂
  · intro s hs m₀ hal
    by_cases hm : m₀ = m
    · subst hm
      have hal' : Alone q m₀ s := fun m' hne => by simpa only [Function.update_of_ne hne] using hal m' hne
      rw [Function.update_self]
      exact hsec s hs hal' (h.sector s hs m₀ hal')
    · have hl : secOps s l = [] := by
        have := hal m (Ne.symm hm)
        rwa [Function.update_self] at this
      rw [Function.update_of_ne hm]
      by_cases hpm : Alone q m s
      · rw [hpm m₀ hm, ← hl]
        exact hsec s hs hpm (h.sector s hs m hpm)
      · have hal' : Alone q m₀ s := by
          have hne : secOps s (q m₀) ≠ [] := by
            intro hnil
            apply hpm
            intro m' hm'
            by_cases h0 : m' = m₀
            · rw [h0, hnil]
            · simpa only [Function.update_of_ne hm'] using hal m' h0
          exact h.alone hne
        exact R.congr (h.sector s hs m₀ hal') (fun j hj => (hother s hs hpm j hj).1) fun j hj => (hother s hs hpm j hj).2

/-- Direct execution of an accepted erase and its queueing. -/
theorem QInv.enqErase (R : SectorRules I C) (h : QInv I direct q flash) {addr : Nat} (ha : addr % sectorSize = 0) (hal : Alone q m addr) :
    QInv I (NorMem.erase direct addr sectorSize) (Function.update q m (enqErase addr sectorSize (q m))) flash := by
  obtain ⟨gone, older, hnew, hold⟩ := enqErase_self addr (h.lock m) sectorSize
  have hapart : ∀ s, s % sectorSize = 0 → s ≠ addr → ∀ j < sectorSize,
      NorMem.erase direct addr sectorSize (s + j) = direct (s + j) := fun s hs hne j hj =>
    erase_other (sector_apart' hs ha hne hj (by simp))
  refine h.update R ?_ (enqErase_lock (h.lock m) _) ?_ ?_ ?_
  · intro n hn
    rcases enqErase_mem hn with hn | rfl
    · exact h.fits m n hn
    · exact ⟨ha, rfl⟩
  · intro s hs
    by_cases hsa : s = addr
    · exact hsa ▸ hal
    · rw [enqErase_other hsa] at hs
      exact h.alone hs
  · intro s hs _ hinv
    by_cases hsa : s = addr
    · subst hsa
      rw [hnew]
      rw [hold] at hinv
      exact R.erase hinv fun j hj => erase_of (by unfold InRange; omega)
    · rw [enqErase_other hsa]
      exact R.congr hinv (hapart s hs hsa) fun j _ => rfl
  · intro s hs hns j hj
    exact ⟨hapart s hs (fun he => hns (he ▸ hal)) j hj, rfl⟩

/-- Direct execution of an accepted write and its queueing. -/
theorem QInv.enqWrite (R : SectorRules I C) (h : QInv I direct q flash) (m : ModId) (sec offs len : Nat)
    (data : Nat → UInt8) (hs : sec % sectorSize = 0)
    (hlen : offs + len ≤ sectorSize) (hC : C sec (q m)) (hal : Alone q m sec)
    (hc : ∀ j < len, Clears (direct (sec + offs + j)) (data j)) :
    QInv I (program direct (sec + offs) len data)
      (Function.update q m (enqWrite sec offs len data flash (q m))) flash := by
  have hw := enqWrite_cases sec offs len data flash (h.lock m)
  have hapart : ∀ s, s % sectorSize = 0 → s ≠ sec → ∀ j < sectorSize,
      program direct (sec + offs) len data (s + j) = direct (s + j) := fun s hs' hne j hj =>
    program_other (sector_apart hs' hs hne hj hlen)
  refine h.update R (hw.fits hs hlen (h.fits m)) (hw.lockLast (h.lock m)) ?_ ?_ ?_
  · intro s hs'
    by_cases hsa : s = sec
    · exact hsa ▸ hal
    · rw [hw.other hsa] at hs'
      exact h.alone hs'
  · intro s hs' _ hinv
    by_cases hsa : s = sec
    · subst hsa
      refine R.write hinv hw hC hlen (fun j hj => ?_) fun j _ => ?_
      · have := hc (j - offs) (by unfold InRange at hj; omega)
        rwa [Nat.add_assoc, Nat.add_sub_cancel' hj.1] at this
      · unfold program programByte
        simp only [inRange_sector, sub_sector]
    · rw [hw.other hsa]
      exact R.congr hinv (hapart s hs' hsa) fun j _ => rfl
  · intro s hs' hns j hj
    exact ⟨hapart s hs' (fun he => hns (he ▸ hal)) j hj, rfl⟩

theorem secOps_last {n : QNode} (q' : List QNode) : secOps n.addr (q' ++ [n]) = secOps n.addr q' ++ [n.op] := by
  rw [secOps_append, secOps_cons, if_pos rfl, secOps_nil]

theorem secOps_last_other {n : QNode} {s : Nat} (hs : s ≠ n.addr) (q' : List QNode) :
    secOps s (q' ++ [n]) = secOps s q' := by
  rw [secOps_append, secOps_cons, if_neg hs.symm, secOps_nil, List.append_nil]

/-- Executing the oldest operation of a module. -/
theorem QInv.finish (R : SectorRules I C) (h : QInv I direct q flash) {n : QNode} (hq : q m = l ++ [n]) :
    QInv I direct (Function.update q m l) (n.run flash) := by
  have hn : n.Fits := h.fits m n (by simp [hq])
  have hal : Alone q m n.addr := h.alone (by simp [hq, secOps_last])
  have hsub : ∀ s, secOps s l ≠ [] → secOps s (q m) ≠ [] := fun s hs => by simp [hq, secOps_append, hs]
  refine h.update R (fun n' hn' => h.fits m n' (by simp [hq, hn'])) ?_ (fun s hs => h.alone (hsub s hs)) ?_ ?_
  · intro q₁ n' q₂ he hl
    have := h.lock m q₁ n' (q₂ ++ [n]) (by simp [hq, he]) hl
    simp at this
  · intro s hs _ hinv
    rw [hq] at hinv
    by_cases hsa : s = n.addr
    · subst hsa
      rw [secOps_last] at hinv
      exact R.finish hinv fun j hj => n.run_self hn hj flash
    · rw [secOps_last_other hsa] at hinv
      exact R.congr hinv (fun j _ => rfl) fun j hj => n.run_other hn hs hsa hj flash
  · intro s hs hns j hj
    exact ⟨rfl, n.run_other hn hs (fun he => hns (he ▸ hal)) hj flash⟩

/-- Executing a part of the oldest operation of a module, which stays locked. -/
theorem QInv.stop (R : SectorRules I C) (h : QInv I direct q flash) {n : QNode} (hq : q m = l ++ [n]) (mid : Mem) :
    QInv I direct (Function.update q m (l ++ [{ n with lock := true }])) (n.stop mid flash) := by
  have hn : n.Fits := h.fits m n (by simp [hq])
  have hal : Alone q m n.addr := h.alone (by simp [hq, secOps_last])
  have hsame : ∀ s, secOps s (l ++ [{ n with lock := true }]) = secOps s (q m) := fun s => by
    simp [hq, secOps_append, secOps_cons]
  refine h.update R ?_ ?_ (fun s hs => h.alone (by rwa [← hsame])) ?_ ?_
  · intro n' hn'
    rcases List.mem_append.1 hn' with h' | h'
    · exact h.fits m n' (by simp [hq, h'])
    · rw [List.mem_singleton.1 h']
      exact hn
  · intro q₁ n' q₂ he hl
    rcases List.eq_nil_or_concat q₂ with rfl | ⟨q₃, c, rfl⟩
    · rfl
    · rw [List.concat_eq_append, ← List.cons_append, ← List.append_assoc] at he
      have hl' : l = q₁ ++ n' :: q₃ := (List.append_inj' he rfl).1
      have := h.lock m q₁ n' (q₃ ++ [n]) (by simp [hq, hl']) hl
      simp at this
  · intro s hs _ hinv
    rw [hsame]
    by_cases hsa : s = n.addr
    · subst hsa
      rw [hq, secOps_last] at hinv ⊢
      exact R.suspend hinv (n.stop_resumable mid flash)
    · exact R.congr hinv (fun j _ => rfl) fun j hj => n.stop_other hn hs hsa hj mid flash
  · intro s hs hns j hj
    exact ⟨rfl, n.stop_other hn hs (fun he => hns (he ▸ hal)) hj mid flash⟩

theorem QInv.initial {flash : Mem} (h : ∀ s, I flash flash s []) : QInv I flash (fun _ => []) flash := by
  refine ⟨by simp, fun _ q₁ n q₂ he => ?_, by simp, fun s _ _ _ => h s⟩
  simp at he

theorem SectorInv.initial (flash : Mem) (s : Nat) : SectorInv flash flash s [] := ⟨fun _ _ => rfl, trivial⟩

theorem SectorShows.initial (flash : Mem) (s : Nat) : SectorShows flash flash s [] :=
  ⟨.initial flash s, fun _ _ => rfl⟩

/-- With nothing pending, the flash is what direct execution gives. -/
theorem QInv.drained (h : QInv SectorInv direct q flash) (hq : ∀ m, q m = []) : flash = direct := by
  funext a
  have hs : a / sectorSize * sectorSize % sectorSize = 0 := Nat.mul_mod_left _ _
  have hj : a % sectorSize < sectorSize := Nat.mod_lt _ (by decide)
  have := (h.sector _ hs 0 fun m' _ => by rw [hq]; rfl).content _ hj
  rw [hq, secOps_nil, replay_nil, Nat.div_add_mod'] at this
  exact this.symm

end Steps

end Norflash
