import LittleBuddy.Norflash.Pool
import LittleBuddy.Norflash.Queue
/-!
# The list functions

What `_e_opera_add`, `_w_opera_add`, `_get_tail`, `_opera_del`, `_opera_read`
and the counting functions do to the lists in the pools, in terms of the
abstract queues of `Queue.lean`.
-/
open NorMem LinkedPool

namespace Norflash

variable {W : Nat}

/-! ## The abstract queues of a pool -/

namespace Pool

/-- The content of a node's buffer. -/
def bytes (p : Pool W) (i : Slot W) : Nat → UInt8 :=
  match (p.node i).buff with
  | some b => (p.data_list b).buffer
  | none => fun _ => 0xff

def op (p : Pool W) (i : Slot W) : SecOp :=
  match (p.node i).type with
  | .erasing => .erase
  | .writting => .program (p.node i).w_offs (p.node i).w_len (p.bytes i)

/-- The pending operation in a slot. -/
def view (p : Pool W) (i : Slot W) : QNode := ⟨(p.node i).addr, (p.node i).len, (p.node i).lock, p.op i⟩

@[simp] theorem view_addr (p : Pool W) (i : Slot W) : (p.view i).addr = (p.node i).addr := rfl
@[simp] theorem view_lock (p : Pool W) (i : Slot W) : (p.view i).lock = (p.node i).lock := rfl

@[simp] theorem view_isWrite (p : Pool W) (i : Slot W) : (p.view i).isWrite = ((p.node i).type == .writting) := by
  unfold QNode.isWrite view op
  cases (p.node i).type <;> rfl

theorem view_congr {p p' : Pool W} {i : Slot W} (h : (p'.node i).body = (p.node i).body)
    (hb : ∀ b, (p.node i).buff = some b → (p'.data_list b).buffer = (p.data_list b).buffer) :
    p'.view i = p.view i := by
  obtain ⟨ht, ha, hl, ho, hw, hbuff, hlk⟩ := body_congr h
  have hbytes : p'.bytes i = p.bytes i := by
    unfold bytes
    rw [hbuff]
    cases hc : (p.node i).buff with
    | none => rfl
    | some b => exact hb b hc
  simp only [view, op, ht, ha, hl, ho, hw, hlk, hbytes]

end Pool

theorem Dropped.view_eq {p p' : Pool W} {gone scope : List (Slot W)} (h : Dropped p p' gone scope) (j : Slot W) :
    p'.view j = p.view j :=
  Pool.view_congr (h.body j) fun b _ => h.buffer b

/-- The abstract queues of the lists `L`. -/
def queues (p : Pool W) (L : ModId → List (Slot W)) : ModId → List QNode := fun m => (L m).map p.view

theorem PoolOk.lockLast {head : ModId → Option (Slot W)} {p : Pool W} {L} (h : PoolOk head p L) (m : ModId) :
    LockLast (queues p L m) := by
  intro q₁ n q₂ he hl
  obtain ⟨l₁, l₂, hL, rfl, h₂⟩ := List.map_eq_append_iff.1 he
  obtain ⟨i, l₃, rfl, rfl, rfl⟩ := List.map_eq_cons_iff.1 h₂
  have hlast := h.lock_last m i (by simp [hL]) hl
  cases l₃ with
  | nil => rfl
  | cons j l₃ =>
    have hnd := h.nodup m
    rw [hL] at hlast hnd
    have hj : (j :: l₃).getLast? = some i := by simpa using hlast
    have := (List.nodup_cons.1 (List.nodup_append.1 hnd).2.1).1
    exact absurd (List.mem_of_getLast? hj) this

/-- The lists after a function has queued something for module `m`: its queue is
now `q`, the other queues and the locked nodes are as before. -/
structure Stepped (p p' : Pool W) (L : ModId → List (Slot W)) (head' : ModId → Option (Slot W)) (m : ModId)
    (q : List QNode) (L' : ModId → List (Slot W)) : Prop where
  ok : PoolOk head' p' L'
  queue : queues p' L' = Function.update (queues p L) m q
  locked : ∀ m', ∀ i ∈ L m', (p.node i).lock = true → i ∈ L' m' ∧ (p'.node i).body = (p.node i).body

theorem Stepped.trans {p p₁ p₂ : Pool W} {L L₁ L₂ : ModId → List (Slot W)} {head₁ head₂ : ModId → Option (Slot W)}
    {m : ModId} {q₁ q₂ : List QNode} (h₁ : Stepped p p₁ L head₁ m q₁ L₁) (h₂ : Stepped p₁ p₂ L₁ head₂ m q₂ L₂) :
    Stepped p p₂ L head₂ m q₂ L₂ where
  ok := h₂.ok
  queue := by rw [h₂.queue, h₁.queue, Function.update_idem]
  locked m' i hi hl := by
    obtain ⟨hi₁, hb₁⟩ := h₁.locked m' i hi hl
    obtain ⟨-, -, -, -, -, -, hlk⟩ := body_congr hb₁
    obtain ⟨hi₂, hb₂⟩ := h₂.locked m' i hi₁ (hlk.trans hl)
    exact ⟨hi₂, hb₂.trans hb₁⟩

theorem queues_update {p p' : Pool W} {L : ModId → List (Slot W)} {m : ModId} {l : List (Slot W)} {q : List QNode}
    (hl : l.map p'.view = q) (ho : ∀ m', m' ≠ m → ∀ i ∈ L m', p'.view i = p.view i) :
    queues p' (Function.update L m l) = Function.update (queues p L) m q := by
  funext m'
  by_cases hm : m' = m
  · subst hm; simp [queues, hl]
  · simpa [queues, Function.update_of_ne hm] using ho m' hm

/-- Dropping unlocked nodes of one list. -/
theorem PoolOk.stepped_drop {head : ModId → Option (Slot W)} {p p' : Pool W} {L : ModId → List (Slot W)}
    (h : PoolOk head p L) {m : ModId} (rem : QNode → Bool) {head' : Option (Slot W)}
    (hrem : ∀ n, rem n = true → n.lock = false) (hd : Dropped p p' ((L m).filter fun i => rem (p.view i)) (L m))
    (hc : Chain p'.next head' ((L m).filter fun i => !rem (p.view i))) :
    Stepped p p' L (Function.update head m head') m ((queues p L m).filter fun n => !rem n)
      (Function.update L m ((L m).filter fun i => !rem (p.view i))) where
  ok := h.drop hd hc
  queue := by
    refine queues_update ?_ fun _ _ i _ => hd.view_eq i
    rw [queues, List.filter_map, List.map_congr_left fun i _ => hd.view_eq i]
    rfl
  locked m' i hi hl := by
    refine ⟨?_, hd.body i⟩
    by_cases hm : m' = m
    · subst hm
      have hr : rem (p.view i) = false := by
        by_contra hr
        have := hrem _ (by simpa using hr)
        rw [Pool.view_lock, hl] at this
        cases this
      simp [hi, hr]
    · rwa [Function.update_of_ne hm]

/-- A new node at the front of one list. -/
theorem PoolOk.stepped_push {head : ModId → Option (Slot W)} {p : Pool W} {L : ModId → List (Slot W)}
    (h : PoolOk head p L) {i : Slot W} (m : ModId) (p' : Pool W) (hi : (p.opera_info_list i).is_used = false)
    (hother : ∀ j, j ≠ i → p'.node j = p.node j) (hnext : (p'.node i).next = head m)
    (hused : ∀ j, (p'.opera_info_list j).is_used = if j = i then true else (p.opera_info_list j).is_used)
    (hdata : ∀ b, (p'.data_list b).is_used = true ↔ (p'.node i).buff = some b ∨ (p.data_list b).is_used = true)
    (hfresh : ∀ b, (p'.node i).buff = some b → (p.data_list b).is_used = false)
    (htype : (p'.node i).buff.isSome = true ↔ (p'.node i).type = .writting) (hlock : (p'.node i).lock = false)
    (hbuf : ∀ b, (p.data_list b).is_used = true → (p'.data_list b).buffer = (p.data_list b).buffer) :
    Stepped p p' L (Function.update head m (some i)) m (p'.view i :: queues p L m) (Function.update L m (i :: L m)) := by
  have hold : ∀ m', ∀ j ∈ L m', p'.node j = p.node j := fun m' j hj =>
    hother j fun he => h.not_mem hi m' (he ▸ hj)
  have hview : ∀ m', ∀ j ∈ L m', p'.view j = p.view j := fun m' j hj =>
    Pool.view_congr (by rw [hold m' j hj]) fun b hb => hbuf b ((h.data_used b).2 ⟨m', j, hj, hb⟩)
  refine ⟨h.push hi hother hnext hused hdata hfresh htype hlock, ?_, fun m' j hj _ => ⟨?_, by rw [hold m' j hj]⟩⟩
  · refine queues_update ?_ fun m' _ => hview m'
    rw [List.map_cons, List.map_congr_left (hview m)]
    rfl
  · by_cases hm : m' = m
    · subst hm; simp [hj]
    · rwa [Function.update_of_ne hm]

theorem PoolOk.stepped_refl {head : ModId → Option (Slot W)} {p : Pool W} {L : ModId → List (Slot W)}
    (h : PoolOk head p L) (m : ModId) : Stepped p p L head m (queues p L m) L where
  ok := h
  queue := (Function.update_eq_self m _).symm
  locked _ _ hi _ := ⟨hi, rfl⟩

/-- The record of a free slot may hold anything. -/
theorem PoolOk.stepped_unused {head : ModId → Option (Slot W)} {p p' : Pool W} {L : ModId → List (Slot W)}
    (h : PoolOk head p L) {i : Slot W} (hi : (p.opera_info_list i).is_used = false) (m : ModId)
    (hother : ∀ j, j ≠ i → p'.node j = p.node j) (hnext : (p'.node i).next = (p.node i).next)
    (hused : ∀ j, (p'.opera_info_list j).is_used = (p.opera_info_list j).is_used) (hdata : p'.data_list = p.data_list) :
    Stepped p p' L head m (queues p L m) L := by
  have hold : ∀ m', ∀ j ∈ L m', p'.node j = p.node j := fun m' j hj =>
    hother j fun he => h.not_mem hi m' (he ▸ hj)
  refine ⟨h.congr (fun j => ?_) hused (fun b => by rw [hdata]) (fun m' j hj => ?_) fun m' j hj hl => ?_, ?_,
    fun m' j hj _ => ⟨hj, by rw [hold m' j hj]⟩⟩
  · rcases eq_or_ne j i with rfl | hj
    · exact hnext
    · rw [Pool.next, hother j hj, Pool.next]
  · rw [hold m' j hj]
    exact ⟨rfl, rfl⟩
  · exact h.lock_last m' j hj (by rwa [hold m' j hj] at hl)
  · rw [Function.update_eq_self]
    funext m'
    exact List.map_congr_left fun j hj => Pool.view_congr (by rw [hold m' j hj]) fun _ _ => by rw [hdata]

/-! ## `_e_opera_add` -/

/-- No two neighbours in the list are both removable. -/
def NoPair (rem : Slot W → Bool) : List (Slot W) → Prop := List.IsChain fun i j => ¬ (rem i = true ∧ rem j = true)

/-- Where the loop's `pre_node` must be right: it is the last node kept, unless
nothing was kept or the next node stays. -/
def PreOk (rem : Slot W → Bool) (kept : List (Slot W)) (pre : Option (Slot W)) (rest : List (Slot W)) : Prop :=
  kept = [] ∨ pre = kept.getLast? ∨ ∀ i ∈ rest.head?, rem i = false

/-- Unlinking the node after `kept`, given the right `pre_node`. -/
theorem unlink_spec {p : Pool W} {head pre : Option (Slot W)} (tmp : Option (Slot W)) {i : Slot W}
    {kept : List (Slot W)} (hk : Seg p.next head kept (some i)) (hnd : kept.Nodup) (hi : i ∉ kept)
    (hpre : kept = [] ∨ pre = kept.getLast?) :
    ∃ head' p', (if head = some i then some (tmp, p) else (p.setNext pre tmp).map (head, ·)) = some (head', p') ∧
      Seg p'.next head' kept tmp ∧ Dropped p p' [] kept := by
  cases hc : kept with
  | nil =>
    rw [hc] at hk
    exact ⟨tmp, p, if_pos (seg_nil.1 hk), rfl, .refl p []⟩
  | cons a kept' =>
    obtain ⟨c, hlast⟩ : ∃ c, kept.getLast? = some c := by
      rw [hc]; exact ⟨_, List.getLast?_eq_some_getLast (by simp)⟩
    have hne : head ≠ some i := by
      intro he
      rw [hc] at hk hi
      have := hk.1.symm.trans he
      simp only [Option.some.injEq] at this
      exact hi (by simp [this])
    have hpc : pre = some c := by
      rcases hpre with h | h
      · rw [hc] at h; cases h
      · rw [h, hlast]
    have hd : Dropped p (p.setNode c { p.node c with next := tmp }) [] kept :=
      dropped_setNext p tmp (List.mem_of_getLast? hlast)
    refine ⟨head, p.setNode c { p.node c with next := tmp }, ?_, ?_, hc ▸ hd⟩
    · rw [if_neg hne, hpc]; rfl
    · have hseg : Seg (p.setNode c { p.node c with next := tmp }).next head kept
          ((p.setNode c { p.node c with next := tmp }).next c) :=
        hk.relink hlast (fun b _ hb => by simp [Pool.next, hb]) hnd
      simpa [Pool.next, hc] using hseg

/-- The loop drops the removable nodes when no two of them are neighbours behind
a node that stays; otherwise `pre_node` would be a freed node. -/
theorem eOperaAddLoop_spec (addr : Nat) (rem : Slot W → Bool) (rest : List (Slot W)) :
    ∀ (kept : List (Slot W)) (p : Pool W) (head pre tmp : Option (Slot W)) (fuel : Nat),
    (∀ i ∈ rest, rem i = (p.view i).removable addr) →
    Seg p.next head kept tmp → Chain p.next tmp rest → (kept ++ rest).Nodup → rest.length ≤ fuel →
    (∀ i ∈ rest, (p.node i).lock = true → rest.getLast? = some i) →
    (kept = [] → NoPair rem (rest.dropWhile rem)) → (kept ≠ [] → NoPair rem rest) → PreOk rem kept pre rest →
    ∃ head' p', eOperaAddLoop addr fuel head p pre tmp = some (rest.any (fun i => (p.view i).mergesErase addr), head', p') ∧
      Chain p'.next head' (kept ++ rest.filter (fun i => !rem i)) ∧ Dropped p p' (rest.filter rem) (kept ++ rest) := by
  induction rest with
  | nil =>
    intro kept p head pre tmp fuel _ hk ht _ _ _ _ _ _
    cases ht
    refine ⟨head, p, by cases fuel <;> rfl, by simpa [Chain] using hk, ?_⟩
    simpa using Dropped.refl p kept
  | cons i rest ih =>
    intro kept p head pre tmp fuel hrem hk ht hnd hfuel hlock hclean₀ hclean hpre
    obtain ⟨rfl, hr⟩ := chain_cons.1 ht
    obtain ⟨fuel, rfl⟩ : ∃ f, fuel = f + 1 := ⟨fuel - 1, by simp at hfuel; omega⟩
    have hnext : p.next i = rest.head? := hr.head_eq
    have hri : rem i = (p.view i).removable addr := hrem i (by simp)
    have hir : i ∉ rest := (List.nodup_cons.1 (List.nodup_append.1 hnd).2.1).1
    have hik : i ∉ kept := fun h => (List.nodup_append.1 hnd).2.2 i h i (by simp) rfl
    have hlock' : ∀ j ∈ rest, (p.node j).lock = true → rest.getLast? = some j := by
      intro j hj hl
      have := hlock j (by simp [hj]) hl
      cases rest with
      | nil => cases hj
      | cons c rest => simpa using this
    by_cases hrm : rem i = true
    · -- `i` goes: unlink it, free it
      obtain ⟨ha, hl⟩ : (p.node i).addr = addr ∧ (p.node i).lock = false := by
        rw [hri] at hrm; exact QNode.removable_iff.1 hrm
      have hpre' : kept = [] ∨ pre = kept.getLast? := by
        rcases hpre with h | h | h
        · exact .inl h
        · exact .inr h
        · have := h i (by simp); rw [hrm] at this; cases this
      obtain ⟨head₁, p₁, hun, hk₁, hd₁⟩ := unlink_spec (p.next i) hk (List.nodup_append.1 hnd).1 hik hpre'
      have hd := hd₁.trans (dropped_freeOpra p₁ i kept) (List.Subset.refl _)
      generalize hp₂ : p₁.freeOpra i = p₂ at hd
      have hsub : ∀ j ∈ rest, j ∉ kept := fun j hj hjk => (List.nodup_append.1 hnd).2.2 j hjk j (by simp [hj]) rfl
      have hk₂ : Seg p₂.next head₁ kept (p.next i) := hk₁.congr fun a ha => by
        have := (dropped_freeOpra p₁ i []).next_eq (j := a) (by simp)
        rwa [hp₂] at this
      have hr₂ : Chain p₂.next (p.next i) rest := hr.congr fun a ha => hd.next_eq (hsub a ha)
      have hpair : kept ≠ [] → ∀ j ∈ rest.head?, rem j = false := fun h j hj => by
        have := (List.isChain_cons.1 (hclean h)).1 j hj
        simpa [hrm] using this
      obtain ⟨head', p', hrun, hc', hd'⟩ := ih kept p₂ head₁
        (if (p.next i).isSome then some i else pre) (p.next i) fuel
        (fun j hj => by rw [hd.view_eq]; exact hrem j (by simp [hj])) hk₂ hr₂
        (hnd.sublist ((List.sublist_cons_self i rest).append_left kept)) (by simpa using hfuel)
        (fun j hj hjl => hlock' j hj (by rwa [hd.lock_eq] at hjl))
        (fun h => by simpa [List.dropWhile_cons, hrm] using hclean₀ h)
        (fun h => (List.isChain_cons.1 (hclean h)).2)
        (if h : kept = [] then .inl h else .inr (.inr (hpair h)))
      refine ⟨head', p', ?_, by simpa [hrm] using hc', ?_⟩
      · have hni : (p.view i).mergesErase addr = false := by simp [QNode.mergesErase, hl]
        simp only [hd.view_eq] at hrun
        simp only [eOperaAddLoop, if_pos ha, if_pos hl, List.any_cons, hni, Bool.false_or]
        split at hun
        · rename_i hhead
          cases hun
          simpa only [if_pos hhead, Option.bind_eq_bind, Option.bind_some, hp₂] using hrun
        · rename_i hhead
          simpa only [if_neg hhead, hun, Option.bind_eq_bind, Option.bind_some, hp₂] using hrun
      · have hdt := (hd.mono (List.subset_append_left kept (i :: rest))).trans hd'
          ((List.sublist_cons_self i rest).append_left kept).subset
        simpa [hrm] using hdt
    · -- `i` stays
      have hrm : rem i = false := by simpa using hrm
      have hkc : Seg p.next head (kept ++ [i]) (p.next i) := seg_append.2 ⟨some i, hk, rfl, rfl⟩
      by_cases hmg : (p.view i).mergesErase addr = true
      · -- a locked erase is the last node, and the loop ends here
        obtain ⟨⟨ha, hl⟩, hty⟩ : ((p.node i).addr = addr ∧ (p.node i).lock = true) ∧ (p.node i).type = .erasing := by
          have := QNode.mergesErase_iff.1 hmg
          cases ht : (p.node i).type <;> simp_all
        have hrest : rest = [] := by
          cases rest with
          | nil => rfl
          | cons j r =>
            have hlast : (j :: r).getLast? = some i := by simpa using hlock i (by simp) hl
            exact absurd (List.mem_of_getLast? hlast) hir
        subst hrest
        refine ⟨head, p, by simp [eOperaAddLoop, ha, hl, hty, QNode.mergesErase], ?_, ?_⟩
        · simpa [hrm, Chain, hnext] using hkc
        · simpa [hrm] using Dropped.refl p _
      have hpre' : PreOk rem (kept ++ [i]) (if (p.next i).isSome then some i else pre) rest := by
        cases hrest : rest with
        | nil => exact .inr (.inr (by simp))
        | cons j r => exact .inr (.inl (by simp [hnext, hrest]))
      obtain ⟨head', p', hrun, hc', hd'⟩ := ih _ _ _ _ _ fuel (fun j hj => hrem j (by simp [hj])) hkc hr
        (by simpa using hnd) (by simpa using hfuel) hlock' (by simp) (fun _ => by
          by_cases h : kept = []
          · have := hclean₀ h
            rw [List.dropWhile_cons_of_neg (by simp [hrm])] at this
            exact (List.isChain_cons.1 this).2
          · exact (List.isChain_cons.1 (hclean h)).2) hpre'
      refine ⟨head', p', ?_, by simpa [hrm] using hc', by simpa [hrm] using hd'⟩
      have hnr : (p.node i).addr = addr → (p.node i).lock ≠ false := fun ha hl => by
        rw [hri] at hrm; simp [QNode.removable, ha, hl] at hrm
      have hne : (p.node i).addr = addr → (p.node i).type ≠ .erasing := fun ha ht =>
        hmg (by simpa [QNode.mergesErase, ha, ht] using hnr ha)
      simp only [List.any_cons, hmg, Bool.false_or]
      by_cases ha : (p.node i).addr = addr
      · simpa only [eOperaAddLoop, if_pos ha, if_neg (hnr ha), if_neg (hne ha)] using hrun
      · simpa only [eOperaAddLoop, if_neg ha] using hrun

/-- The nodes an erase of `addr` drops from the list: at most a run of them at
its head, and others with a node that stays in front of each. -/
def EraseClean (addr : Nat) (p : Pool W) (l : List (Slot W)) : Prop :=
  NoPair (fun i => (p.view i).removable addr) (l.dropWhile fun i => (p.view i).removable addr)

/-- What `_e_opera_add` does to a list it does not corrupt. -/
theorem eOperaAdd_spec {head : ModId → Option (Slot W)} {p : Pool W} {L : ModId → List (Slot W)}
    (h : PoolOk head p L) {m : ModId} {mi : ModuleInfo W} (hm : mi.opera_info = head m) (addr len : Nat)
    (hclean : EraseClean addr p (L m)) :
    ∃ r head' p' L', eOperaAdd mi addr len p = some (r, { mi with opera_info := head' }, p') ∧ (r = 0 ∨ r = 1) ∧
      Stepped p p' L (Function.update head m head') m
        (if r = 0 then enqErase addr len (queues p L m) else queues p L m) L' := by
  obtain ⟨head₁, p₁, hrun, hc, hd⟩ := eOperaAddLoop_spec addr (fun i => (p.view i).removable addr) (L m)
    [] p mi.opera_info mi.opera_info mi.opera_info (walkFuel W) (fun _ _ => rfl) rfl (hm ▸ h.chain m) (by simpa using h.nodup m)
    (h.length_le m) (h.lock_last m) (fun _ => hclean) (by simp) (.inl rfl)
  rw [List.nil_append] at hc hd
  have hs := h.stepped_drop (·.removable addr) (fun n hn => (QNode.removable_iff.1 hn).2) hd hc
  have hany : (L m).any (fun i => (p.view i).mergesErase addr) = (queues p L m).any (·.mergesErase addr) := by
    rw [queues, List.any_map]; rfl
  unfold eOperaAdd
  rw [hrun, hany]
  simp only [Option.bind_eq_bind, Option.bind_some]
  by_cases hmg : (queues p L m).any (·.mergesErase addr) = true
  · have hq : enqErase addr len (queues p L m) = (queues p L m).filter fun n => !n.removable addr := by
      rw [enqErase, if_pos hmg]
    exact ⟨0, head₁, p₁, _, by rw [if_pos hmg], .inl rfl, by rw [if_pos rfl, hq]; exact hs⟩
  · have hmg' : (queues p L m).any (·.mergesErase addr) = false := by simpa using hmg
    rcases halloc : p₁.mallocNode with ⟨_ | i, p₂⟩
    · -- no free slot: nothing can have been dropped
      obtain ⟨rfl, hfull⟩ := Pool.mallocNode_none halloc
      have hnone : ∀ n ∈ queues p L m, n.removable addr = false := by
        intro n hn
        obtain ⟨i, hi, rfl⟩ := List.mem_map.1 hn
        by_contra hr
        have hu := hd.used i
        rw [hfull i] at hu
        simp [hi, hr] at hu
      have hkeep : (queues p L m).filter (fun n => !n.removable addr) = queues p L m :=
        List.filter_eq_self.2 fun n hn => by simp [hnone n hn]
      rw [hkeep] at hs
      exact ⟨1, head₁, p₂, _, by simp [hmg'], .inr rfl, hs⟩
    · obtain ⟨hfree, rfl⟩ := Pool.mallocNode_some halloc
      have hpush := hs.ok.stepped_push m ((p₁.useNode i true).setNode i
        { type := .erasing, addr, len, w_offs := 0, w_len := 0, buff := none, lock := false, next := head₁ })
        hfree (fun j hj => by simp [hj]) (by simp) (by simp) (by simp) (by simp) (by simp) (by simp) (by simp)
      have hall := hs.trans hpush
      have hview : ((p₁.useNode i true).setNode i
          { type := .erasing, addr, len, w_offs := 0, w_len := 0, buff := none, lock := false, next := head₁ }).view i =
          ⟨addr, len, false, .erase⟩ := by
        simp [Pool.view, Pool.op]
      have hq : enqErase addr len (queues p L m) =
          ⟨addr, len, false, .erase⟩ :: (queues p L m).filter fun n => !n.removable addr := by
        rw [enqErase, if_neg hmg]
      rw [Function.update_idem, hview, hs.queue, Function.update_self, ← hq] at hall
      exact ⟨0, some i, _, _, by simp [hmg'], .inl rfl, hall⟩

/-! ## `_w_opera_add` -/

/-- What the search of `_w_opera_add` finds in any list. -/
theorem wOperaFind_eq (sec : Nat) (p : Pool W) (head : Option (Slot W)) :
    wOperaFind sec p head = ((visited p.next (walkFuel W) head).find? fun i => (p.view i).target sec).elim
      ((collect p.next (walkFuel W) head).map fun _ => .inr ()) fun i =>
        some (.inl (if (p.node i).type = .writting then .w_node i else .e_node i)) := by
  refine walk_search (fun i _ => ?_) _ _
  unfold QNode.target
  by_cases ha : (p.node i).addr = sec
  · cases ht : (p.node i).type <;> cases hl : (p.node i).lock <;> simp [ha, ht, hl]
  · simp [ha]

theorem wOperaFind_of_chain {p : Pool W} {head : Option (Slot W)} {l : List (Slot W)} (hc : Chain p.next head l)
    (hl : l.length ≤ walkFuel W) (sec : Nat) :
    wOperaFind sec p head = some ((l.find? fun i => (p.view i).target sec).elim (.inr ()) fun i =>
      .inl (if (p.node i).type = .writting then .w_node i else .e_node i)) := by
  have hcl := collect_of_chain hc hl
  rw [wOperaFind_eq, hcl, visited_of_collect hcl]
  cases l.find? fun i => (p.view i).target sec <;> rfl

/-- Merging a write into the node `i`. -/
theorem PoolOk.stepped_merge {head : ModId → Option (Slot W)} {p : Pool W} {L : ModId → List (Slot W)}
    (h : PoolOk head p L) {m : ModId} {sec : Nat} (offs len : Nat) (data : Nat → UInt8) {i : Slot W} {b : Buf W}
    (hfind : (L m).find? (fun i => (p.view i).target sec) = some i) (ht : (p.node i).type = .writting)
    (hb : (p.node i).buff = some b) :
    Stepped p ((p.setBuffer b (memcpy (p.data_list b).buffer offs data len)).setNode i
        { p.node i with
          w_offs := hullStart (p.node i).w_offs offs
          w_len := hullEnd ((p.node i).w_offs + (p.node i).w_len) (offs + len) - hullStart (p.node i).w_offs offs })
      L head m (replaceFirst (·.target sec) (·.merge offs len data) (queues p L m)) L := by
  generalize hp' : Pool.setNode _ i _ = p'
  obtain ⟨ht', l₁, l₂, hL, h₁⟩ := List.find?_eq_some_iff_append.1 hfind
  have hi : i ∈ L m := List.mem_of_find?_eq_some hfind
  have hnode : ∀ j, j ≠ i → p'.node j = p.node j := fun j hj => by simp [← hp', hj]
  have hnext : ∀ j, p'.next j = p.next j := fun j => by
    by_cases hj : j = i <;> simp [← hp', Pool.next, hj]
  have hview : ∀ m', ∀ j ∈ L m', j ≠ i → p'.view j = p.view j := fun m' j hj hne =>
    Pool.view_congr (by rw [hnode j hne]) fun c hc => by
      have : c ≠ b := fun he => hne (h.buff_inj m' j hj m i hi c hc (he ▸ hb))
      simp [← hp', this]
  have hfree : (p.node i).lock = false := (QNode.target_iff.1 ht').2 (by simp [ht])
  have hlocked : ∀ j, (p'.node j).lock = (p.node j).lock := fun j => by
    by_cases hj : j = i <;> simp [← hp', hj]
  have hview_i : p'.view i = (p.view i).merge offs len data := by
    simp [← hp', Pool.view, Pool.op, Pool.bytes, ht, hb, QNode.merge, SecOp.widen]
  refine ⟨h.congr hnext (by simp [← hp']) (by simp [← hp']) (fun _ j _ => ?_) fun m' j hj hl => ?_, ?_, ?_⟩
  · by_cases hj : j = i <;> simp [← hp', hj]
  · exact h.lock_last m' j hj (by rwa [hlocked] at hl)
  · have hq : (L m).map p'.view = replaceFirst (·.target sec) (·.merge offs len data) (queues p L m) := by
      have hnd := h.nodup m
      rw [hL] at hnd
      obtain ⟨-, hnd₂, hdis⟩ := List.nodup_append.1 hnd
      have h₁' : ∀ j ∈ l₁, p'.view j = p.view j := fun j hj =>
        hview m j (by simp [hL, hj]) fun he => hdis j hj i (by simp) he
      have h₂' : ∀ j ∈ l₂, p'.view j = p.view j := fun j hj =>
        hview m j (by simp [hL, hj]) fun he => (List.nodup_cons.1 hnd₂).1 (he ▸ hj)
      rw [queues, hL, List.map_append, List.map_cons, List.map_append, List.map_cons, replaceFirst_append _ ht', List.map_congr_left h₁', List.map_congr_left h₂', hview_i]
      intro n hn
      obtain ⟨j, hj, rfl⟩ := List.mem_map.1 hn
      simpa using h₁ j hj
    have := queues_update (L := L) hq fun m' hm j hj => hview m' j hj fun he => h.disjoint m' m hm j hj (he ▸ hi)
    rwa [Function.update_eq_self] at this
  · intro m' j hj hl
    have hne : j ≠ i := fun he => by rw [he, hfree] at hl; cases hl
    exact ⟨hj, by rw [hnode j hne]⟩

/-- Queueing a new write node with a new buffer. -/
theorem PoolOk.stepped_new {head : ModId → Option (Slot W)} {p : Pool W} {L : ModId → List (Slot W)}
    (h : PoolOk head p L) (m : ModId) {i : Slot W} {b : Buf W} (hi : (p.opera_info_list i).is_used = false)
    (hb : (p.data_list b).is_used = false) (sec sec_len offs len : Nat) (image : Nat → UInt8) :
    Stepped p ((((p.useNode i true).useBuff b true).setBuffer b image).setNode i
        { type := .writting, addr := sec, len := sec_len, w_offs := offs, w_len := len, buff := some b,
          lock := false, next := head m })
      L (Function.update head m (some i)) m (⟨sec, sec_len, false, .program offs len image⟩ :: queues p L m)
      (Function.update L m (i :: L m)) := by
  generalize hp' : Pool.setNode _ i _ = p'
  have hview : p'.view i = ⟨sec, sec_len, false, .program offs len image⟩ := by
    simp [← hp', Pool.view, Pool.op, Pool.bytes]
  rw [← hview]
  refine h.stepped_push m p' hi (fun j hj => by simp [← hp', hj]) (by simp [← hp']) (by simp [← hp']) (fun c => ?_)
    (fun c hc => ?_) (by simp [← hp']) (by simp [← hp']) fun c hc => ?_
  · rcases eq_or_ne c b with rfl | hcb
    · simp [← hp']
    · simp [← hp', hcb, hcb.symm]
  · have hcb : b = c := by simpa [← hp'] using hc
    exact hcb ▸ hb
  · have hcb : c ≠ b := fun he => by rw [he, hb] at hc; cases hc
    simp [← hp', hcb]

theorem wOperaNew_spec {head : ModId → Option (Slot W)} {p : Pool W} {L : ModId → List (Slot W)}
    (h : PoolOk head p L) {m : ModId} {mi : ModuleInfo W} (hm : mi.opera_info = head m) {sec offs len : Nat}
    {buff init : Nat → UInt8} {r : Int} {mi' : ModuleInfo W} {p' : Pool W}
    (hrun : wOperaNew mi sec offs len buff init p = some (r, mi', p')) :
    ∃ head' L', mi' = { mi with opera_info := head' } ∧ (r = 0 ∨ r = 1) ∧ (r = 0 → offs + len ≤ sectorSize) ∧
      Stepped p p' L (Function.update head m head') m
        (if r = 0 then ⟨sec, sectorSize, false, .program offs len (memcpy init offs buff len)⟩ :: queues p L m
          else queues p L m) L' := by
  have hsame : mi = { mi with opera_info := head m } := by rw [← hm]
  unfold wOperaNew at hrun
  rcases halloc : p.mallocNode with ⟨_ | i, p₁⟩
  · obtain ⟨rfl, -⟩ := Pool.mallocNode_none halloc
    rw [halloc] at hrun
    cases hrun
    refine ⟨head m, L, hsame, .inr rfl, by simp, ?_⟩
    rw [Function.update_eq_self]
    exact h.stepped_refl m
  · obtain ⟨hfree, rfl⟩ := Pool.mallocNode_some halloc
    rw [halloc] at hrun
    obtain ⟨⟨b, p₂⟩, hbuf, hrun⟩ := Option.bind_eq_some_iff.1 hrun
    cases b with
    | none =>
      cases Pool.mallocBuff_none hbuf
      cases hrun
      refine ⟨head m, L, hsame, .inr rfl, by simp, ?_⟩
      rw [Function.update_eq_self, if_neg (by simp)]
      refine h.stepped_unused hfree m (fun j hj => by simp [Pool.freeNode, hj]) (by simp [Pool.freeNode]) (fun j => ?_) rfl
      rcases eq_or_ne j i with rfl | hj
      · simp [Pool.freeNode, hfree]
      · simp [Pool.freeNode, hj]
    | some b =>
      obtain ⟨hsec, hdata, rfl⟩ := Pool.mallocBuff_some hbuf
      simp only at hrun
      split at hrun
      · cases hrun
      · rename_i hfit
        cases hrun
        have hst := h.stepped_new m hfree hdata sec sectorSize offs len (memcpy init offs buff len)
        exact ⟨some i, _, rfl, .inl rfl, fun _ => by omega, by rw [hm, hsec, if_pos rfl]; exact hst⟩

/-- What `_w_opera_add` does when it returns. -/
theorem wOperaAdd_spec {head : ModId → Option (Slot W)} {p : Pool W} {L : ModId → List (Slot W)}
    (h : PoolOk head p L) {m : ModId} {mi : ModuleInfo W} (hm : mi.opera_info = head m) {addr len : Nat}
    {buff : Nat → UInt8} {flash : Mem} {r : Int} {mi' : ModuleInfo W} {p' : Pool W}
    (hrun : wOperaAdd mi addr len buff p flash = some (r, mi', p')) :
    ∃ head' L', mi' = { mi with opera_info := head' } ∧ (r = 0 ∨ r = 1) ∧
      (r = 0 → addr - addr / mi.mod_sector_len * mi.mod_sector_len + len ≤ sectorSize) ∧
      Stepped p p' L (Function.update head m head') m
        (if r = 0 then enqWrite (addr / mi.mod_sector_len * mi.mod_sector_len)
            (addr - addr / mi.mod_sector_len * mi.mod_sector_len) len buff flash (queues p L m)
          else queues p L m) L' := by
  unfold wOperaAdd at hrun
  simp only [wOperaFind_of_chain (hm ▸ h.chain m) (h.length_le m), Option.bind_eq_bind, Option.bind_some] at hrun
  generalize addr / mi.mod_sector_len * mi.mod_sector_len = sec at hrun ⊢
  have hfindq : (queues p L m).find? (·.target sec) = ((L m).find? fun i => (p.view i).target sec).map p.view := by
    rw [queues, List.find?_map]; rfl
  unfold enqWrite
  rw [hfindq]
  cases hfind : (L m).find? fun i => (p.view i).target sec with
  | none =>
    rw [hfind] at hrun
    exact wOperaNew_spec h hm hrun
  | some i =>
    rw [hfind] at hrun
    cases ht : (p.node i).type with
    | erasing =>
      simp only [Option.elim_some, ht, reduceCtorEq, if_false] at hrun
      simpa [ht] using wOperaNew_spec h hm hrun
    | writting =>
      simp only [Option.elim_some, ht, if_true, Option.bind_eq_some_iff] at hrun
      obtain ⟨b, hb, hrun⟩ := hrun
      split at hrun
      · cases hrun
      · rename_i hfit
        cases hrun
        refine ⟨head m, L, by rw [← hm], .inl rfl, fun _ => by omega, ?_⟩
        rw [Function.update_eq_self]
        have hst := h.stepped_merge (addr - sec) len buff hfind ht hb
        rw [Option.map_some, if_pos rfl]
        simp only [Pool.view_isWrite, ht, beq_self_eq_true, if_true]
        rwa [← ht]

/-! ## Reading and counting -/

/-- `_opera_read` returns what the newest operation of the sector shows. -/
theorem operaRead_spec {head : ModId → Option (Slot W)} {p : Pool W} {L : ModId → List (Slot W)} (h : PoolOk head p L)
    {m : ModId} {mi : ModuleInfo W} (hm : mi.opera_info = head m) {addr sec : Nat}
    (hsec : addr / mi.mod_sector_len * mi.mod_sector_len = sec) (flash : Mem) :
    operaRead mi addr p flash =
      some fun j => newest (secOps sec (queues p L m)) (fun j => flash (sec + j)) (addr - sec + j) := by
  have hle : sec ≤ addr := hsec ▸ Nat.div_mul_le_self addr mi.mod_sector_len
  have hsearch : walkList (fun (_ : Unit) i (_ : Option (Slot W)) => if (p.node i).addr = sec then .inl i else .inr ())
      () (L m) = ((L m).find? fun i => decide ((p.node i).addr = sec)).elim (.inr ()) .inl :=
    walkList_search (fun i _ => by simp) (L m)
  have hfindq : ((queues p L m).find? fun n => decide (n.addr = sec)) =
      ((L m).find? fun i => decide ((p.node i).addr = sec)).map p.view := by
    rw [queues, List.find?_map]; rfl
  simp only [operaRead, hsec, walk_of_chain _ (hm ▸ h.chain m) (h.length_le m), hsearch, Option.bind_eq_bind,
    Option.bind_some]
  cases hfind : (L m).find? fun i => decide ((p.node i).addr = sec) with
  | none =>
    have hnil : secOps sec (queues p L m) = [] := by
      rw [hfind, Option.map_none, List.find?_eq_none] at hfindq
      exact secOps_eq_nil.2 fun n hn => by simpa using hfindq n hn
    rw [hnil]
    refine congrArg some (funext fun j => ?_)
    change flash (addr + j) = flash (sec + (addr - sec + j))
    congr 1
    omega
  | some i =>
    rw [hfind] at hfindq
    obtain ⟨older, hops⟩ := secOps_of_newest hfindq
    rw [hops]
    simp only [Option.elim_some]
    cases ht : (p.node i).type with
    | erasing =>
      have hop : (p.view i).op = .erase := by simp [Pool.view, Pool.op, ht]
      rw [hop]
      rfl
    | writting =>
      obtain ⟨b, hb⟩ := Option.isSome_iff_exists.1 ((h.typed m i (List.mem_of_find?_eq_some hfind)).2 ht)
      have hop : (p.view i).op = .program (p.node i).w_offs (p.node i).w_len (p.data_list b).buffer := by
        simp [Pool.view, Pool.op, Pool.bytes, ht, hb]
      rw [hop, hb]
      rfl

theorem getCount_spec {p : Pool W} {head : Option (Slot W)} {l : List (Slot W)} (hc : Chain p.next head l)
    (hl : l.length ≤ walkFuel W) (c : OpraInfo W → Bool) :
    getCount c head p = some (l.countP fun i => c (p.node i)) := by
  unfold getCount
  rw [walk_of_chain _ hc hl, walkList_count (c := fun i => c (p.node i))]
  simp

theorem getEwCount_spec {head : ModId → Option (Slot W)} {p : Pool W} {L : ModId → List (Slot W)} (h : PoolOk head p L)
    {m : ModId} {mi : ModuleInfo W} (hm : mi.opera_info = head m) : getEwCount mi p = some (L m).length := by
  unfold getEwCount
  rw [getCount_spec (hm ▸ h.chain m) (h.length_le m)]
  simp

/-! ## `_get_tail` and `_opera_del` -/

theorem getTail_spec {p : Pool W} {mi : ModuleInfo W} {l : List (Slot W)} (hc : Chain p.next mi.opera_info l)
    (hl : l.length ≤ walkFuel W) :
    getTail mi false p = some (l.getLast?, l.getLast?.elim p fun i => p.setNode i { p.node i with lock := true }) := by
  have hwalk : ∀ (l : List (Slot W)) (s : Option (Slot W) × Option (Slot W)), ∃ pre,
      walkList (ρ := Empty) (fun (s : Option (Slot W) × Option (Slot W)) i tmp =>
        .inr (some i, if tmp.isSome then some i else s.2)) s l = .inr (l.getLast?.or s.1, pre) := by
    intro l
    induction l with
    | nil => exact fun s => ⟨s.2, rfl⟩
    | cons i l ih =>
      intro s
      obtain ⟨pre, hpre⟩ := ih (some i, if l.head?.isSome then some i else s.2)
      refine ⟨pre, ?_⟩
      rw [walkList]
      simp only
      rw [hpre, List.getLast?_cons]
      cases l.getLast? <;> rfl
  obtain ⟨pre, hpre⟩ := hwalk l (none, mi.opera_info)
  unfold getTail
  rw [walk_of_chain _ hc hl, hpre]
  cases l.getLast? <;> rfl

theorem operaDel_walk {c : Slot W} {l : List (Slot W)} (hl : c ∉ l) (pre : Option (Slot W)) :
    walkList (fun (pre_node : Option (Slot W)) i tmp =>
      if i = c then .inl pre_node else .inr (if tmp.isSome then some i else pre_node)) pre (l ++ [c]) =
      .inl (l.getLast?.or pre) := by
  induction l generalizing pre with
  | nil => simp [walkList]
  | cons i l ih =>
    have hic : i ≠ c := fun he => hl (by simp [he])
    have hhead : (l ++ [c]).head?.isSome = true := by simp
    rw [List.cons_append, walkList, if_neg hic]
    simp only [hhead, if_true]
    rw [ih fun h => hl (by simp [h]), List.getLast?_cons]
    cases l.getLast? <;> rfl

/-- `_opera_del` of the last node takes it off its list. -/
theorem operaDel_spec {head : ModId → Option (Slot W)} {p : Pool W} {L : ModId → List (Slot W)} (h : PoolOk head p L)
    {m : ModId} {mi : ModuleInfo W} (hm : mi.opera_info = head m) {l : List (Slot W)} {c : Slot W}
    (hL : L m = l ++ [c]) :
    ∃ head' p', operaDel mi c p = some ({ mi with opera_info := head' }, p') ∧
      PoolOk (Function.update head m head') p' (Function.update L m l) ∧
      (∀ i, (p'.node i).body = (p.node i).body) ∧
      queues p' (Function.update L m l) = Function.update (queues p L) m (l.map p.view) := by
  have hchain : Chain p.next mi.opera_info (l ++ [c]) := hm ▸ hL ▸ h.chain m
  have hnd : (l ++ [c]).Nodup := hL ▸ h.nodup m
  have hcl : c ∉ l := fun hc => (List.nodup_append.1 hnd).2.2 c hc c (by simp) rfl
  obtain ⟨e, hseg, hce⟩ := seg_append.1 hchain
  obtain ⟨rfl, hend⟩ := seg_cons.1 hce
  -- unlinking
  have hun : ∃ head' p₁, (if mi.opera_info = some c then some (none, p) else
      (p.setNext (l.getLast?.or mi.opera_info) none).map (mi.opera_info, ·)) = some (head', p₁) ∧
      Chain p₁.next head' l ∧ Dropped p p₁ [] l := by
    refine unlink_spec none hseg (List.nodup_append.1 hnd).1 hcl ?_
    cases hlast : l.getLast? with
    | none => exact .inl (List.getLast?_eq_none_iff.1 hlast)
    | some a => exact .inr rfl
  obtain ⟨head', p₁, hun, hc₁, hd₁⟩ := hun
  have hfree : (match (p₁.node c).buff with
      | some b => p₁.freeBuff b
      | none => p₁).freeNode c = p₁.freeOpra c := by
    obtain ⟨ht, -, -, -, -, hb, -⟩ := body_congr (hd₁.body c)
    have htyped : (p₁.node c).buff.isSome = true ↔ (p₁.node c).type = .writting := by
      rw [hb, ht]
      exact h.typed m c (by simp [hL])
    unfold Pool.freeOpra
    cases hbc : (p₁.node c).buff <;> cases htc : (p₁.node c).type <;> simp [hbc, htc] at htyped ⊢
  have hd : Dropped p (p₁.freeOpra c) [c] (L m) := by
    have hsub : l ⊆ L m := by simp [hL]
    exact (hd₁.trans (dropped_freeOpra p₁ c l) (List.Subset.refl _)).mono hsub
  have hfilter : (L m).filter (fun i => decide (i = c)) = [c] ∧ (L m).filter (fun i => !decide (i = c)) = l := by
    have h₁ : l.filter (fun i => decide (i = c)) = [] := List.filter_eq_nil_iff.2 fun i hi => by
      simpa using fun he : i = c => hcl (he ▸ hi)
    have h₂ : l.filter (fun i => !decide (i = c)) = l := List.filter_eq_self.2 fun i hi => by
      simpa using fun he : i = c => hcl (he ▸ hi)
    rw [hL, List.filter_append, List.filter_append, h₁, h₂]
    simp
  have hnext : ∀ i ∈ l, (p₁.freeOpra c).next i = p₁.next i := fun i _ =>
    (dropped_freeOpra p₁ c []).next_eq (by simp)
  refine ⟨head', p₁.freeOpra c, ?_, ?_, hd.body, ?_⟩
  · unfold operaDel
    rw [walk_of_chain _ hchain (by rw [← hL]; exact h.length_le m), operaDel_walk hcl]
    simp only [Option.bind_eq_bind, Option.bind_some]
    split at hun
    · rename_i hhead
      cases hun
      simp only [if_pos hhead]
      exact congrArg (fun q => some (_, q)) hfree
    · rename_i hhead
      obtain ⟨p₂, hp₂, he⟩ := Option.map_eq_some_iff.1 hun
      cases he
      simp only [if_neg hhead, hp₂, Option.map_some, Option.bind_some]
      exact congrArg (fun q => some (_, q)) hfree
  · have hdrop : PoolOk (Function.update head m head') (p₁.freeOpra c)
        (Function.update L m ((L m).filter fun i => !decide (i = c))) :=
      h.drop (hfilter.1 ▸ hd) (hfilter.2 ▸ hc₁.congr hnext)
    rwa [hfilter.2] at hdrop
  · exact queues_update (List.map_congr_left fun i _ => hd.view_eq i) fun _ _ i _ => hd.view_eq i

end Norflash
