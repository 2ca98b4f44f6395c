import LittleBuddy.Norflash.Model
import Mathlib.Data.List.Chain
import Mathlib.Tactic.Common
/-!
# Lists in the pools

`PoolOk head p L`: from the list heads `head`, the pool `p` holds the lists of
slots `L`. Each operation on a list has one theorem here that says which lists
the pool holds afterwards; nothing later follows a `next` pointer again.
-/
open NorMem LinkedPool

namespace Norflash

variable {W : Nat}

/-! ## Pool updates -/

namespace Pool

@[simp] theorem node_setNode (p : Pool W) (i j : Slot W) (n : OpraInfo W) :
    (p.setNode i n).node j = if j = i then n else p.node j := by
  by_cases h : j = i <;> simp [node, setNode, Function.update, h]

@[simp] theorem used_setNode (p : Pool W) (i j : Slot W) (n : OpraInfo W) :
    ((p.setNode i n).opera_info_list j).is_used = (p.opera_info_list j).is_used := by
  by_cases h : j = i <;> simp [setNode, Function.update, h]

@[simp] theorem data_setNode (p : Pool W) (i : Slot W) (n : OpraInfo W) :
    (p.setNode i n).data_list = p.data_list := rfl

@[simp] theorem node_setBuffer (p : Pool W) (b : Buf W) (d : Nat → UInt8) : (p.setBuffer b d).node = p.node := rfl

@[simp] theorem list_setBuffer (p : Pool W) (b : Buf W) (d : Nat → UInt8) :
    (p.setBuffer b d).opera_info_list = p.opera_info_list := rfl

@[simp] theorem dataUsed_setBuffer (p : Pool W) (b c : Buf W) (d : Nat → UInt8) :
    ((p.setBuffer b d).data_list c).is_used = (p.data_list c).is_used := by
  by_cases h : c = b <;> simp [setBuffer, Function.update, h]

@[simp] theorem buffer_setBuffer (p : Pool W) (b c : Buf W) (d : Nat → UInt8) :
    ((p.setBuffer b d).data_list c).buffer = if c = b then d else (p.data_list c).buffer := by
  by_cases h : c = b <;> simp [setBuffer, Function.update, h]

@[simp] theorem node_useNode (p : Pool W) (i j : Slot W) (u : Bool) : (p.useNode i u).node j = p.node j := by
  by_cases h : j = i <;> simp [node, useNode, Function.update, h]

@[simp] theorem used_useNode (p : Pool W) (i j : Slot W) (u : Bool) :
    ((p.useNode i u).opera_info_list j).is_used = if j = i then u else (p.opera_info_list j).is_used := by
  by_cases h : j = i <;> simp [useNode, Function.update, h]

@[simp] theorem data_useNode (p : Pool W) (i : Slot W) (u : Bool) : (p.useNode i u).data_list = p.data_list := rfl

@[simp] theorem node_useBuff (p : Pool W) (b : Buf W) (u : Bool) : (p.useBuff b u).node = p.node := rfl

@[simp] theorem list_useBuff (p : Pool W) (b : Buf W) (u : Bool) :
    (p.useBuff b u).opera_info_list = p.opera_info_list := rfl

@[simp] theorem dataUsed_useBuff (p : Pool W) (b c : Buf W) (u : Bool) :
    ((p.useBuff b u).data_list c).is_used = if c = b then u else (p.data_list c).is_used := by
  by_cases h : c = b <;> simp [useBuff, Function.update, h]

@[simp] theorem buffer_useBuff (p : Pool W) (b c : Buf W) (u : Bool) :
    ((p.useBuff b u).data_list c).buffer = (p.data_list c).buffer := by
  by_cases h : c = b <;> simp [useBuff, Function.update, h]

theorem mallocNode_some {p p' : Pool W} {i : Slot W} (h : p.mallocNode = (some i, p')) :
    (p.opera_info_list i).is_used = false ∧ p' = p.useNode i true := by
  unfold mallocNode at h
  split at h
  · rename_i j hj
    simp only [Prod.mk.injEq, Option.some.injEq] at h
    obtain ⟨rfl, rfl⟩ := h
    exact ⟨by simpa using List.find?_some hj, rfl⟩
  · simp at h

theorem mallocNode_none {p p' : Pool W} (h : p.mallocNode = (none, p')) :
    p' = p ∧ ∀ i, (p.opera_info_list i).is_used = true := by
  unfold mallocNode at h
  split at h
  · simp at h
  · rename_i hn
    simp only [Prod.mk.injEq, true_and] at h
    refine ⟨h.symm, fun i => ?_⟩
    simpa using List.find?_eq_none.1 hn i (List.mem_finRange i)

theorem mallocBuff_some {p p' : Pool W} {size : Nat} {b : Buf W} (h : p.mallocBuff size = some (some b, p')) :
    size = sectorSize ∧ (p.data_list b).is_used = false ∧ p' = p.useBuff b true := by
  unfold mallocBuff at h
  split at h
  · rename_i hs
    split at h
    · rename_i c hc
      simp only [Option.some.injEq, Prod.mk.injEq] at h
      obtain ⟨rfl, rfl⟩ := h
      exact ⟨hs, by simpa using List.find?_some hc, rfl⟩
    · simp at h
  · cases h

theorem mallocBuff_none {p p' : Pool W} {size : Nat} (h : p.mallocBuff size = some (none, p')) : p' = p := by
  unfold mallocBuff at h
  split at h
  · split at h
    · simp at h
    · simp only [Option.some.injEq, Prod.mk.injEq, true_and] at h
      exact h.symm
  · cases h

end Pool

/-! ## The lists a pool holds -/

/-- The pool holds the lists `L` from the heads `head`: null-terminated lists
over disjoint sets of used slots, one buffer for each write, and a lock on the
last node only. -/
structure PoolOk (head : ModId → Option (Slot W)) (p : Pool W) (L : ModId → List (Slot W)) : Prop where
  chain : ∀ m, Chain p.next (head m) (L m)
  nodup : ∀ m, (L m).Nodup
  disjoint : ∀ m m', m ≠ m' → ∀ i ∈ L m, i ∉ L m'
  used : ∀ i, (p.opera_info_list i).is_used = true ↔ ∃ m, i ∈ L m
  data_used : ∀ b, (p.data_list b).is_used = true ↔ ∃ m, ∃ i ∈ L m, (p.node i).buff = some b
  buff_inj : ∀ m, ∀ i ∈ L m, ∀ m', ∀ j ∈ L m', ∀ b,
    (p.node i).buff = some b → (p.node j).buff = some b → i = j
  typed : ∀ m, ∀ i ∈ L m, (p.node i).buff.isSome = true ↔ (p.node i).type = .writting
  lock_last : ∀ m, ∀ i ∈ L m, (p.node i).lock = true → (L m).getLast? = some i

theorem PoolOk.length_le {head : ModId → Option (Slot W)} {p : Pool W} {L} (h : PoolOk head p L) (m : ModId) :
    (L m).length ≤ walkFuel W := by
  simpa using (h.nodup m).length_le_card

section Update
variable {head : ModId → Option (Slot W)} {p p' : Pool W} {L : ModId → List (Slot W)}

theorem PoolOk.not_mem (h : PoolOk head p L) {i : Slot W} (hi : (p.opera_info_list i).is_used = false) (m : ModId) :
    i ∉ L m := fun hm => by
  rw [(h.used i).2 ⟨m, hm⟩] at hi
  cases hi

theorem PoolOk.owner (h : PoolOk head p L) {i : Slot W} {m m' : ModId} (hm : i ∈ L m) (hm' : i ∈ L m') : m = m' := by
  by_contra hne
  exact h.disjoint m m' hne i hm hm'

/-- Changes to a node's range or lock leave the lists as they are. -/
theorem PoolOk.congr (h : PoolOk head p L) (hnext : ∀ i, p'.next i = p.next i)
    (hused : ∀ i, (p'.opera_info_list i).is_used = (p.opera_info_list i).is_used)
    (hdata : ∀ b, (p'.data_list b).is_used = (p.data_list b).is_used)
    (hnode : ∀ m, ∀ i ∈ L m, (p'.node i).buff = (p.node i).buff ∧ (p'.node i).type = (p.node i).type)
    (hlock : ∀ m, ∀ i ∈ L m, (p'.node i).lock = true → (L m).getLast? = some i) : PoolOk head p' L where
  chain m := (h.chain m).congr fun i _ => hnext i
  nodup := h.nodup
  disjoint := h.disjoint
  used i := by rw [hused, h.used]
  data_used b := by
    rw [hdata, h.data_used]
    refine exists_congr fun m => exists_congr fun i => and_congr_right fun hi => ?_
    rw [(hnode m i hi).1]
  buff_inj m i hi m' j hj b := by
    rw [(hnode m i hi).1, (hnode m' j hj).1]
    exact h.buff_inj m i hi m' j hj b
  typed m i hi := by
    rw [(hnode m i hi).1, (hnode m i hi).2]
    exact h.typed m i hi
  lock_last := hlock

/-- A new unlocked node at the front of one list. -/
theorem PoolOk.push (h : PoolOk head p L) {i : Slot W} {m : ModId} (hi : (p.opera_info_list i).is_used = false)
    (hother : ∀ j, j ≠ i → p'.node j = p.node j) (hnext : (p'.node i).next = head m)
    (hused : ∀ j, (p'.opera_info_list j).is_used = if j = i then true else (p.opera_info_list j).is_used)
    (hdata : ∀ b, (p'.data_list b).is_used = true ↔ (p'.node i).buff = some b ∨ (p.data_list b).is_used = true)
    (hfresh : ∀ b, (p'.node i).buff = some b → (p.data_list b).is_used = false)
    (htype : (p'.node i).buff.isSome = true ↔ (p'.node i).type = .writting) (hlock : (p'.node i).lock = false) :
    PoolOk (Function.update head m (some i)) p' (Function.update L m (i :: L m)) := by
  have hnot := h.not_mem hi
  have hold : ∀ {m' j}, j ∈ L m' → p'.node j = p.node j := fun hj => hother _ fun he => hnot _ (he ▸ hj)
  have hmem : ∀ {m' j}, j ∈ Function.update L m (i :: L m) m' → (j = i ∧ m' = m) ∨ j ∈ L m' := by
    intro m' j hj
    by_cases hm : m' = m
    · subst hm
      rw [Function.update_self, List.mem_cons] at hj
      exact hj.imp_left fun h => ⟨h, rfl⟩
    · rw [Function.update_of_ne hm] at hj
      exact .inr hj
  have hmem' : ∀ {m' j}, j ∈ L m' → j ∈ Function.update L m (i :: L m) m' := by
    intro m' j hj
    by_cases hm : m' = m
    · subst hm; simp [hj]
    · rwa [Function.update_of_ne hm]
  constructor
  · intro m'
    by_cases hm : m' = m
    · subst hm
      rw [Function.update_self, Function.update_self]
      refine ⟨rfl, ?_⟩
      rw [Pool.next, hnext]
      exact (h.chain m').congr fun j hj => by rw [Pool.next, hold hj, Pool.next]
    · rw [Function.update_of_ne hm, Function.update_of_ne hm]
      exact (h.chain m').congr fun j hj => by rw [Pool.next, hold hj, Pool.next]
  · intro m'
    by_cases hm : m' = m
    · subst hm
      rw [Function.update_self]
      exact List.nodup_cons.2 ⟨hnot m', h.nodup m'⟩
    · rw [Function.update_of_ne hm]
      exact h.nodup m'
  · intro m₁ m₂ hne j h₁ h₂
    rcases hmem h₁ with ⟨rfl, rfl⟩ | g₁ <;> rcases hmem h₂ with ⟨hj, rfl⟩ | g₂
    · exact hne rfl
    · exact hnot _ g₂
    · exact hnot _ (hj ▸ g₁)
    · exact h.disjoint m₁ m₂ hne j g₁ g₂
  · intro j
    rw [hused]
    constructor
    · intro hj
      split at hj
      · rename_i hji
        exact ⟨m, by simp [hji]⟩
      · obtain ⟨m', hm'⟩ := (h.used j).1 hj
        exact ⟨m', hmem' hm'⟩
    · rintro ⟨m', hj⟩
      rcases hmem hj with ⟨rfl, -⟩ | hj
      · simp
      · split
        · rfl
        · exact (h.used j).2 ⟨m', hj⟩
  · intro b
    rw [hdata, h.data_used]
    constructor
    · rintro (hb | ⟨m', j, hj, hb⟩)
      · exact ⟨m, i, by simp, hb⟩
      · exact ⟨m', j, hmem' hj, by rwa [hold hj]⟩
    · rintro ⟨m', j, hj, hb⟩
      rcases hmem hj with ⟨rfl, -⟩ | hj
      · exact .inl hb
      · exact .inr ⟨m', j, hj, by rwa [hold hj] at hb⟩
  · intro m₁ j₁ h₁ m₂ j₂ h₂ b hb₁ hb₂
    have hclash : ∀ {m' j}, j ∈ L m' → (p'.node i).buff = some b → (p'.node j).buff = some b → False := by
      intro m' j hj hbi hbj
      have := (h.data_used b).2 ⟨m', j, hj, by rwa [hold hj] at hbj⟩
      rw [hfresh b hbi] at this
      cases this
    rcases hmem h₁ with ⟨rfl, rfl⟩ | g₁ <;> rcases hmem h₂ with ⟨rfl, -⟩ | g₂
    · rfl
    · exact (hclash g₂ hb₁ hb₂).elim
    · exact (hclash g₁ hb₂ hb₁).elim
    · rw [hold g₁] at hb₁
      rw [hold g₂] at hb₂
      exact h.buff_inj m₁ j₁ g₁ m₂ j₂ g₂ b hb₁ hb₂
  · intro m' j hj
    rcases hmem hj with ⟨rfl, -⟩ | hj
    · exact htype
    · rw [hold hj]
      exact h.typed m' j hj
  · intro m' j hj hl
    rcases hmem hj with ⟨rfl, rfl⟩ | hj
    · rw [hlock] at hl; cases hl
    · have hlast := h.lock_last m' j hj (by rwa [hold hj] at hl)
      by_cases hm : m' = m
      · subst hm
        rw [Function.update_self, List.getLast?_cons, hlast]
        rfl
      · rwa [Function.update_of_ne hm]

end Update

/-- A node up to its `next` pointer. -/
def OpraInfo.body (n : OpraInfo W) : OpraInfo W := { n with next := none }

theorem body_congr {n n' : OpraInfo W} (h : n.body = n'.body) :
    n.type = n'.type ∧ n.addr = n'.addr ∧ n.len = n'.len ∧ n.w_offs = n'.w_offs ∧ n.w_len = n'.w_len ∧
      n.buff = n'.buff ∧ n.lock = n'.lock := by
  simpa [OpraInfo.body] using h

/-! ## Dropping nodes -/

/-- `p'` is `p` without the nodes `gone`: their slots and buffers are free, and
only `next` pointers of `scope` differ otherwise. -/
structure Dropped (p p' : Pool W) (gone scope : List (Slot W)) : Prop where
  body : ∀ j, (p'.node j).body = (p.node j).body
  node : ∀ j, j ∉ scope → p'.node j = p.node j
  used : ∀ j, (p'.opera_info_list j).is_used = ((p.opera_info_list j).is_used && decide (j ∉ gone))
  data_used : ∀ b, (p'.data_list b).is_used = true ↔ (p.data_list b).is_used = true ∧
    ∀ j ∈ gone, (p.node j).type = .writting → (p.node j).buff ≠ some b
  buffer : ∀ b, (p'.data_list b).buffer = (p.data_list b).buffer

theorem Dropped.refl (p : Pool W) (scope : List (Slot W)) : Dropped p p [] scope := by
  constructor <;> simp

theorem Dropped.mono {p p' : Pool W} {gone scope scope' : List (Slot W)} (h : Dropped p p' gone scope)
    (hs : scope ⊆ scope') : Dropped p p' gone scope' :=
  { h with node := fun j hj => h.node j fun hj' => hj (hs hj') }

theorem Dropped.trans {p p₁ p₂ : Pool W} {gone₁ gone₂ scope₁ scope₂ : List (Slot W)}
    (h₁ : Dropped p p₁ gone₁ scope₁) (h₂ : Dropped p₁ p₂ gone₂ scope₂) (hs : scope₂ ⊆ scope₁) :
    Dropped p p₂ (gone₁ ++ gone₂) scope₁ where
  body j := (h₂.body j).trans (h₁.body j)
  node j hj := (h₂.node j (fun h => hj (hs h))).trans (h₁.node j hj)
  used j := by
    rw [h₂.used, h₁.used, Bool.and_assoc, ← Bool.decide_and]
    simp only [List.mem_append, not_or]
  data_used b := by
    rw [h₂.data_used, h₁.data_used, and_assoc]
    refine and_congr_right fun _ => ?_
    have hb : ∀ j, (p₁.node j).type = (p.node j).type ∧ (p₁.node j).buff = (p.node j).buff := fun j => by
      obtain ⟨ht, -, -, -, -, hbf, -⟩ := body_congr (h₁.body j)
      exact ⟨ht, hbf⟩
    simp only [hb, List.mem_append]
    exact ⟨fun h j hj => hj.elim (h.1 j) (h.2 j), fun h => ⟨fun j hj => h j (.inl hj), fun j hj => h j (.inr hj)⟩⟩
  buffer b := (h₂.buffer b).trans (h₁.buffer b)

theorem dropped_freeOpra (p : Pool W) (i : Slot W) (scope : List (Slot W)) : Dropped p (p.freeOpra i) [i] scope := by
  unfold Pool.freeOpra
  split
  · rename_i c ht hc
    refine ⟨fun j => by simp [Pool.freeNode, Pool.freeBuff], fun j _ => by simp [Pool.freeNode, Pool.freeBuff],
      fun j => ?_, fun b => ?_, fun b => by simp [Pool.freeNode, Pool.freeBuff]⟩
    · by_cases hj : j = i <;> simp [Pool.freeNode, Pool.freeBuff, hj]
    · rcases eq_or_ne b c with rfl | hb
      · simp [Pool.freeNode, Pool.freeBuff, ht, hc]
      · simp [Pool.freeNode, Pool.freeBuff, ht, hc, hb, hb.symm]
  · rename_i hx
    refine ⟨fun j => by simp [Pool.freeNode], fun j _ => by simp [Pool.freeNode], fun j => ?_, fun b => ?_,
      fun b => by simp [Pool.freeNode]⟩
    · by_cases hj : j = i <;> simp [Pool.freeNode, hj]
    · have hn : (p.node i).type = .writting → (p.node i).buff ≠ some b := fun ht hc => hx b ht hc
      simpa [Pool.freeNode] using fun _ => hn

theorem dropped_setNext (p : Pool W) {i : Slot W} (tmp : Option (Slot W)) {scope : List (Slot W)} (hi : i ∈ scope) :
    Dropped p (p.setNode i { p.node i with next := tmp }) [] scope := by
  constructor
  · intro j
    by_cases hj : j = i <;> simp [OpraInfo.body, hj]
  · intro j hj
    have : j ≠ i := fun h => hj (h ▸ hi)
    simp [this]
  all_goals simp

theorem Dropped.lock_eq {p p' : Pool W} {gone scope : List (Slot W)} (h : Dropped p p' gone scope) (j : Slot W) :
    (p'.node j).lock = (p.node j).lock := by
  obtain ⟨-, -, -, -, -, -, hl⟩ := body_congr (h.body j)
  exact hl

theorem Dropped.next_eq {p p' : Pool W} {gone scope : List (Slot W)} (h : Dropped p p' gone scope)
    {j : Slot W} (hj : j ∉ scope) : p'.next j = p.next j := by
  rw [Pool.next, h.node j hj, Pool.next]

theorem filter_getLast? {α : Type} {l : List α} {f : α → Bool} {a : α} (h : l.getLast? = some a) (ha : f a = true) :
    (l.filter f).getLast? = some a := by
  obtain ⟨l', rfl⟩ := List.getLast?_eq_some_iff.1 h
  simp [ha]

/-- The nodes `rem` of one list dropped. -/
theorem PoolOk.drop {head : ModId → Option (Slot W)} {p p' : Pool W} {L : ModId → List (Slot W)}
    (h : PoolOk head p L) {m : ModId} {rem : Slot W → Bool} {head' : Option (Slot W)}
    (hd : Dropped p p' ((L m).filter rem) (L m)) (hc : Chain p'.next head' ((L m).filter fun i => !rem i)) :
    PoolOk (Function.update head m head') p' (Function.update L m ((L m).filter fun i => !rem i)) := by
  have hmem : ∀ {m' j}, j ∈ Function.update L m ((L m).filter fun i => !rem i) m' ↔
      j ∈ L m' ∧ j ∉ (L m).filter rem := by
    intro m' j
    by_cases hm : m' = m
    · subst hm
      simp +contextual [List.mem_filter]
    · rw [Function.update_of_ne hm]
      exact ⟨fun hj => ⟨hj, fun hg => h.disjoint m' m hm j hj (List.mem_filter.1 hg).1⟩, fun hj => hj.1⟩
  have hbody : ∀ j, (p'.node j).buff = (p.node j).buff ∧ (p'.node j).type = (p.node j).type := fun j => by
    obtain ⟨ht, -, -, -, -, hb, -⟩ := body_congr (hd.body j)
    exact ⟨hb, ht⟩
  constructor
  · intro m'
    by_cases hm : m' = m
    · subst hm
      rwa [Function.update_self, Function.update_self]
    · rw [Function.update_of_ne hm, Function.update_of_ne hm]
      exact (h.chain m').congr fun j hj => hd.next_eq (h.disjoint m' m hm j hj)
  · intro m'
    by_cases hm : m' = m
    · subst hm
      rw [Function.update_self]
      exact (h.nodup m').filter _
    · rw [Function.update_of_ne hm]
      exact h.nodup m'
  · intro m₁ m₂ hne j h₁ h₂
    exact h.disjoint m₁ m₂ hne j (hmem.1 h₁).1 (hmem.1 h₂).1
  · intro j
    simp only [hd.used, Bool.and_eq_true, decide_eq_true_eq, h.used, hmem, exists_and_right]
  · intro b
    rw [hd.data_used, h.data_used]
    constructor
    · rintro ⟨⟨m', j, hj, hb⟩, hg⟩
      have ht := (h.typed m' j hj).1 (by rw [hb]; rfl)
      exact ⟨m', j, hmem.2 ⟨hj, fun hjg => hg j hjg ht hb⟩, by rwa [(hbody j).1]⟩
    · rintro ⟨m', j, hj, hb⟩
      rw [(hbody j).1] at hb
      refine ⟨⟨m', j, (hmem.1 hj).1, hb⟩, fun k hk _ hkb => ?_⟩
      have := h.buff_inj m' j (hmem.1 hj).1 m k (List.mem_filter.1 hk).1 b hb hkb
      exact (hmem.1 hj).2 (this ▸ hk)
  · intro m₁ i h₁ m₂ j h₂ b hb₁ hb₂
    rw [(hbody _).1] at hb₁ hb₂
    exact h.buff_inj m₁ i (hmem.1 h₁).1 m₂ j (hmem.1 h₂).1 b hb₁ hb₂
  · intro m' j hj
    rw [(hbody j).1, (hbody j).2]
    exact h.typed m' j (hmem.1 hj).1
  · intro m' j hj hl
    rw [hd.lock_eq] at hl
    have hlast := h.lock_last m' j (hmem.1 hj).1 hl
    by_cases hm : m' = m
    · subst hm
      rw [Function.update_self] at hj ⊢
      exact filter_getLast? hlast (List.mem_filter.1 hj).2
    · rwa [Function.update_of_ne hm]

end Norflash
