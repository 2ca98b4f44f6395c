import LittleBuddy.Utils.MultiHeapAlloc
import LittleBuddy.Utils.MultiHeapChecks
/-!
# Programs that use the heap

A program allocates, resizes and frees arrays of words and writes them, in any
order. The `live` arrays are what it knows of the heap. No assertion finds it
corrupt, however it is used, and an array holds what was last written to it until it
is freed.
-/
open BlockHeap Runs

namespace MultiHeap

/-- The heap, and what the program has stored in it: the arrays of words by their pointers. -/
structure World where
  heap : Heap
  live : Nat → Option (List Nat)

inductive Call where
  | malloc (size : Nat)
  | free (p : Nat)
  | realloc (p size : Nat)
  /-- The program writes a word of an array. -/
  | store (p i v : Nat)

/-- Words of the memory, behind those of a list. -/
def words (s : Heap) (p k : Nat) (d : List Nat) : List Nat := (List.range k).map fun i => d.getD i (s.mem (p + 4 * i))

def call : Call → World → M World
  | .malloc size, w => do
    let (p, s) ← multiHeapMalloc size w.heap
    .ok ⟨s, if p = 0 then w.live else Function.update w.live p (some (words s p (alignUp size / 4) []))⟩
  | .free p, w => do
    let s ← multiHeapFree p w.heap
    .ok ⟨s, Function.update w.live p none⟩
  | .realloc p size, w => do
    let (q, s) ← multiHeapRealloc p size w.heap
    let rest := Function.update w.live p none
    .ok ⟨s,
      if q = 0 then if alignUp size = 0 then rest else w.live
      else Function.update rest q (some (words s q (alignUp size / 4) ((w.live p).getD [])))⟩
  | .store p i v, w =>
    .ok ⟨{ w.heap with mem := Function.update w.heap.mem (p + 4 * i) v },
      Function.update w.live p ((w.live p).map (·.set i v))⟩

/-- A program frees and resizes what it has allocated, and writes within its arrays. -/
def Legal : Call → World → Prop
  | .malloc _, _ => True
  | .free p, w => p = 0 ∨ (w.live p).isSome
  | .realloc p _, w => p = 0 ∨ (w.live p).isSome
  | .store p i _, w => i < ((w.live p).getD []).length

instance (c : Call) (w : World) : Decidable (Legal c w) := by
  cases c <;> rw [Legal] <;> infer_instance

def step (c : Call) (w : World) : Option World := (call c w).toOption

/-- The heap is registered in `size` bytes from `start` on, and nothing is allocated. -/
structure Registered (start size : Nat) (w : World) : Prop where
  heap : ∃ mem, multiHeapRegister mem start size = some w.heap
  live : ∀ p, w.live p = none
  aligned : 4 ∣ start
  top : start + size < 2 ^ 32

abbrev UsesHeap (start size : Nat) : World → List Call → Prop := Run step Legal (Registered start size)

/-! ## What the program knows -/

/-- The array of a block in use is what the program has stored there. -/
structure Stored (w : World) (b : Nat × Nat) (d : List Nat) : Prop where
  live : w.live (b.1 + 4) = some d
  room : 4 * d.length ≤ b.2
  data : ∀ (i : Nat) (hi : i < d.length), w.heap.mem (b.1 + 4 + 4 * i) = d[i]

/-- The arrays are in the blocks in use. -/
structure Knows (w : World) (used : List (Nat × Nat)) : Prop where
  stored : ∀ b ∈ used, ∃ d, Stored w b d
  live : ∀ p d, w.live p = some d → ∃ b ∈ used, p = b.1 + 4
  apart : (used.map Prod.fst).Nodup

/-- The heap is as it should be, and where it was registered. -/
structure Sound (start size : Nat) (w : World) : Prop where
  first : w.heap.first_block = start + 20
  last : w.heap.last_block + 8 = start + align size
  large : 48 ≤ align size
  blocks : ∃ L, Inv w.heap L ∧ Coalesced L ∧ Knows w (usedBlocks w.heap L)

variable {w w' : World} {used used' : List (Nat × Nat)} {s s' : Heap} {L : List Block} {b : Nat × Nat} {d : List Nat}
  {p n k : Nat}

theorem nodup_usedBlocks (s : Heap) (L : List Block) : ((usedBlocks s L).map Prod.fst).Nodup := by
  rw [List.Nodup, List.pairwise_map]
  refine (used_sorted 4 _ L).imp fun h => ?_
  omega

theorem Knows.perm (h : Knows w used) (hp : used'.Perm used) : Knows w used' where
  stored b hb := h.stored b (hp.mem_iff.1 hb)
  live p d hd := by
    obtain ⟨b, hb, heq⟩ := h.live p d hd
    exact ⟨b, hp.mem_iff.2 hb, heq⟩
  apart := (hp.map Prod.fst).nodup_iff.2 h.apart

/-- The contents and the entry of a block are as before. -/
theorem Stored.frame (h : Stored w b d) (hk : Keeps w.heap w'.heap [b]) (hl : w'.live (b.1 + 4) = w.live (b.1 + 4)) :
    Stored w' b d where
  live := hl.trans h.live
  room := h.room
  data i hi := by
    have := h.room
    rw [hk b List.mem_cons_self _ (by omega) (by omega)]
    exact h.data i hi

theorem Knows.frame (h : Knows w used) (hk : Keeps w.heap w'.heap used) (hl : w'.live = w.live) : Knows w' used where
  stored b hb := by
    obtain ⟨d, hd⟩ := h.stored b hb
    exact ⟨d, hd.frame (hk.subset fun p hp => List.mem_singleton.1 hp ▸ hb) (by rw [hl])⟩
  live p d hd := h.live p d (by rwa [← hl])
  apart := h.apart

/-- A block is given back. -/
theorem Knows.drop (h : Knows w ((p, n) :: used)) (hk : Keeps w.heap s' used) :
    Knows ⟨s', Function.update w.live (p + 4) none⟩ used := by
  obtain ⟨hout, hapart⟩ := List.nodup_cons.1 h.apart
  have hne : ∀ b ∈ used, b.1 + 4 ≠ p + 4 := by
    intro b hb heq
    exact hout (List.mem_map.2 ⟨b, hb, by omega⟩)
  refine ⟨fun b hb => ?_, fun q d hd => ?_, hapart⟩
  · obtain ⟨d, hd⟩ := h.stored b (List.mem_cons_of_mem _ hb)
    exact ⟨d, hd.frame (hk.subset fun p hp => List.mem_singleton.1 hp ▸ hb) (Function.update_of_ne (hne b hb) _ _)⟩
  · by_cases hq : q = p + 4
    · subst hq
      simp at hd
    · simp only at hd
      rw [Function.update_of_ne hq] at hd
      obtain ⟨b, hb, heq⟩ := h.live q d hd
      rcases List.mem_cons.1 hb with rfl | hb
      · exact absurd heq hq
      · exact ⟨b, hb, heq⟩

/-- A block is allocated. -/
theorem Knows.add (h : Knows w used) (hk : Keeps w.heap s' used) (hout : p ∉ used.map Prod.fst)
    (hroom : 4 * d.length ≤ n) (hdata : ∀ (i : Nat) (hi : i < d.length), s'.mem (p + 4 + 4 * i) = d[i]) :
    Knows ⟨s', Function.update w.live (p + 4) (some d)⟩ ((p, n) :: used) := by
  have hne : ∀ b ∈ used, b.1 + 4 ≠ p + 4 := by
    intro b hb heq
    exact hout (List.mem_map.2 ⟨b, hb, by omega⟩)
  refine ⟨fun b hb => ?_, fun q e he => ?_, List.nodup_cons.2 ⟨hout, h.apart⟩⟩
  · rcases List.mem_cons.1 hb with rfl | hb
    · exact ⟨d, by simp, hroom, hdata⟩
    · obtain ⟨e, he⟩ := h.stored b hb
      exact ⟨e, he.frame (hk.subset fun p hp => List.mem_singleton.1 hp ▸ hb) (Function.update_of_ne (hne b hb) _ _)⟩
  · by_cases hq : q = p + 4
    · exact ⟨(p, n), List.mem_cons_self, hq⟩
    · simp only at he
      rw [Function.update_of_ne hq] at he
      obtain ⟨b, hb, heq⟩ := h.live q e he
      exact ⟨b, List.mem_cons_of_mem _ hb, heq⟩

@[simp] theorem length_words (s : Heap) (p k : Nat) (d : List Nat) : (words s p k d).length = k := by
  rw [words, List.length_map, List.length_range]

theorem getElem_words (s : Heap) (p : Nat) {i : Nat} (hi : i < (words s p k d).length) :
    (words s p k d)[i] = d.getD i (s.mem (p + 4 * i)) := by
  simp [words]

theorem Knows.grow {n' : Nat} (h : Knows w ((p, n) :: used)) (hn : n ≤ n') : Knows w ((p, n') :: used) where
  stored b hb := by
    rcases List.mem_cons.1 hb with rfl | hb
    · obtain ⟨d, hd⟩ := h.stored (p, n) List.mem_cons_self
      exact ⟨d, hd.live, Nat.le_trans hd.room hn, hd.data⟩
    · exact h.stored b (List.mem_cons_of_mem _ hb)
  live q d hd := by
    obtain ⟨b, hb, heq⟩ := h.live q d hd
    rcases List.mem_cons.1 hb with rfl | hb
    · exact ⟨(p, n'), List.mem_cons_self, heq⟩
    · exact ⟨b, List.mem_cons_of_mem _ hb, heq⟩
  apart := h.apart

theorem Knows.null (h : Knows w used) : w.live 0 = none := by
  cases hd : w.live 0 with
  | none => rfl
  | some d =>
    obtain ⟨b, -, hb⟩ := h.live 0 d hd
    exact absurd hb (by omega)

theorem Knows.update_null (h : Knows w used) : Function.update w.live 0 none = w.live := by
  have := Function.update_eq_self 0 w.live
  rwa [h.null] at this

theorem Knows.entry (h : Knows w used) (hd : w.live p = some d) :
    ∃ n, (p - 4, n) ∈ used ∧ p = p - 4 + 4 ∧ Stored w (p - 4, n) d := by
  obtain ⟨⟨a, n⟩, hb, hp⟩ := h.live p d hd
  obtain ⟨e, he⟩ := h.stored _ hb
  have hlive := he.live
  simp only at hp hlive
  rw [← hp, hd] at hlive
  obtain rfl := Option.some.inj hlive
  obtain rfl : p - 4 = a := by omega
  exact ⟨n, hb, by omega, he⟩

theorem Sound.bounds {start size : Nat} (h : Sound start size w) (hd : w.live p = some d) :
    start + 32 < p ∧ p + 4 * d.length + 8 ≤ start + size := by
  obtain ⟨L, hinv, -, hk⟩ := h.blocks
  have hfirst := h.first
  have hlast := h.last
  have hsize : align size ≤ size := Nat.div_mul_le_self size 4
  obtain ⟨n, hb, hp, hst⟩ := hk.entry hd
  have hroom := hst.room
  have hbounds := used_bounds hb
  rw [Inv.end_eq (l := []) hinv, blockAt_nil] at hbounds
  simp only at hroom hbounds
  omega

/-! ## One call -/

section Calls
variable {start size : Nat} {c : Call}

/-- What a call does: it ends well, or the heap is too small. -/
def Fine (start size : Nat) (r : M World) : Prop := r = .error .shortage ∨ ∃ w', r = .ok w' ∧ Sound start size w'

theorem Sound.of_frame {blocks : List (Nat × Nat)} (h : Sound start size w) (hf : Frame w.heap w'.heap blocks)
    (hinv : Inv w'.heap L) (hc : Coalesced L) (hk : Knows w' (usedBlocks w'.heap L)) : Sound start size w' :=
  ⟨hf.first.trans h.first, hf.last ▸ h.last, h.large, L, hinv, hc, hk⟩

theorem fine_malloc (h : Sound start size w) (k : Nat) : Fine start size (call (.malloc k) w) := by
  obtain ⟨L, hinv, hc, hk⟩ := h.blocks
  have hzero : multiHeapMalloc k w.heap = .ok (0, w.heap) → Fine start size (call (.malloc k) w) := by
    intro heq
    refine .inr ⟨w, ?_, h⟩
    rw [call, heq]
    rfl
  by_cases hpos : alignUp k = 0
  · exact hzero (multiHeapMalloc_zero hpos)
  by_cases hfree : w.heap.free_bytes < alignUp k
  · left
    rw [call, multiHeapMalloc_shortage (by omega) hfree]
    rfl
  obtain ⟨best, -, ⟨-, hno⟩ | ⟨l₁, n, l₂, hfit, -⟩⟩ := search_spec hinv (Nat.pos_of_ne_zero hpos)
  · exact hzero (multiHeapMalloc_noFit hinv (by omega) (by omega) hno)
  · obtain ⟨s', heq, hinv', hframe⟩ := multiHeapMalloc_fit hinv (by omega) (by omega) hfit
    obtain ⟨n', hle, hc', hperm⟩ := perm_malloc hc hfit hframe
    have hout := (List.nodup_cons.1 ((hperm.map Prod.fst).nodup_iff.1 (nodup_usedBlocks s' _))).1
    refine .inr ⟨_, by rw [call, heq]; rfl, h.of_frame hframe hinv' hc' ?_⟩
    refine (Knows.add hk hframe.keeps hout ?_ fun i hi => ?_).perm hperm
    · rw [length_words]
      omega
    · rw [getElem_words]
      rfl

theorem fine_free (h : Sound start size w) (hp : p = 0 ∨ (w.live p).isSome) : Fine start size (call (.free p) w) := by
  obtain ⟨L, hinv, hc, hk⟩ := h.blocks
  rcases hp with rfl | hp
  · refine .inr ⟨w, ?_, h⟩
    have hz : multiHeapFree 0 w.heap = .ok w.heap := by simp [multiHeapFree]
    rw [call, hz, ok_bind, hk.update_null]
  · obtain ⟨d, hd⟩ := Option.isSome_iff_exists.1 hp
    obtain ⟨⟨a, n⟩, hb, rfl⟩ := hk.live p d hd
    obtain ⟨l, r, rfl, ha⟩ := exists_of_mem_used hb
    simp only at ha hinv hc hk
    subst ha
    obtain ⟨s', L', heq, hinv', hc', hused, hframe⟩ := multiHeapFree_spec hinv hc
    refine .inr ⟨_, by simp only [call]; rw [heq]; rfl, h.of_frame hframe hinv' hc' ?_⟩
    have hk' := hk.perm (perm_others w.heap l n r).symm
    rw [hused] at hframe ⊢
    exact hk'.drop hframe.keeps

theorem fine_realloc (h : Sound start size w) (hp : p = 0 ∨ (w.live p).isSome) (k : Nat) :
    Fine start size (call (.realloc p k) w) := by
  obtain ⟨L, hinv, hc, hk⟩ := h.blocks
  rcases hp with rfl | hp
  · have hz : call (.realloc 0 k) w = call (.malloc k) w := by
      have hr : multiHeapRealloc 0 k w.heap = multiHeapMalloc k w.heap := by
        simp only [multiHeapRealloc, if_true, multiHeapMalloc, alignUp_alignUp]
      rw [call, call, hr, hk.update_null, hk.null]
      simp only [ite_self]
      rfl
    rw [hz]
    exact fine_malloc h k
  · obtain ⟨d, hd⟩ := Option.isSome_iff_exists.1 hp
    obtain ⟨⟨a, n⟩, hb, rfl⟩ := hk.live p d hd
    obtain ⟨l, r, rfl, ha⟩ := exists_of_mem_used hb
    simp only at ha hinv hc hk hd
    subst ha
    by_cases hpos : alignUp k = 0
    · have hz : call (.realloc (blockAt w.heap l + 4) k) w = call (.free (blockAt w.heap l + 4)) w := by
        have hh : Header w.heap (blockAt w.heap l) ⟨n, false⟩ := hinv.header
        have hr : multiHeapRealloc (blockAt w.heap l + 4) k w.heap = (do
            let s ← multiHeapFree (blockAt w.heap l + 4) w.heap
            .ok (0, s)) := by
          simp only [multiHeapRealloc, getBlock, Nat.add_sub_cancel]
          rw [if_neg (by omega), hinv.assertValid, ok_bind, hh.isFree, ensure_of (by simp), ok_bind, if_pos hpos]
        simp only [call]
        rw [hr]
        cases multiHeapFree (blockAt w.heap l + 4) w.heap with
        | error e => rfl
        | ok s' => simp [hpos]
      rw [hz]
      exact fine_free h (.inr (by simp [hd]))
    rcases multiHeapRealloc_spec hinv hc (Nat.pos_of_ne_zero hpos) with herr | ⟨q, s', heq, hres⟩
    · left
      simp only [call]
      rw [herr]
      rfl
    have hk' := hk.perm (perm_others w.heap l n r).symm
    rcases hres with ⟨hinv', hc', hle, hperm, hframe⟩ | ⟨hinv', hc', hle, hperm, hframe, hcopy⟩
    · refine .inr ⟨⟨s', w.live⟩, ?_, h.of_frame hframe hinv' hc' ?_⟩
      · simp only [call]
        rw [heq, ok_bind]
        simp only [if_true, if_neg hpos]
      · have hkept : Knows ⟨s', w.live⟩ ((blockAt w.heap l, n) :: others w.heap l n r) := hk'.frame hframe.keeps rfl
        exact (hkept.grow hle).perm hperm
    · next L' p' n' =>
      have hdrop := hk'.drop hframe.keeps
      have hout := (List.nodup_cons.1 ((hperm.map Prod.fst).nodup_iff.1 (nodup_usedBlocks s' _))).1
      obtain ⟨e, he⟩ := hk'.stored _ List.mem_cons_self
      obtain rfl : e = d := Option.some.inj (he.live.symm.trans hd)
      have hroom := he.room
      simp only at hroom
      refine .inr ⟨_, by simp only [call]; rw [heq, ok_bind], h.of_frame hframe hinv' hc' ?_⟩
      simp only
      rw [if_neg (by omega), hd, Option.getD_some]
      refine (hdrop.add (Keeps.refl s' _) hout ?_ fun i hi => ?_).perm hperm
      · rw [length_words]
        omega
      · rw [length_words] at hi
        rw [getElem_words, List.getD_eq_getElem?_getD]
        by_cases hlt : i < e.length
        · rw [List.getElem?_eq_getElem hlt, Option.getD_some, ← he.data i hlt]
          exact hcopy (4 * i) (by omega) (by omega)
        · rw [List.getElem?_eq_none (by omega)]
          rfl

theorem fine_store (h : Sound start size w) {i : Nat} (hi : i < ((w.live p).getD []).length) (v : Nat) :
    Fine start size (call (.store p i v) w) := by
  obtain ⟨L, hinv, hc, hk⟩ := h.blocks
  obtain ⟨d, hd⟩ : ∃ d, w.live p = some d := by
    cases hd : w.live p with
    | none => simp [hd] at hi
    | some d => exact ⟨d, rfl⟩
  obtain ⟨⟨a, n⟩, hb, rfl⟩ := hk.live p d hd
  obtain ⟨l, r, rfl, ha⟩ := exists_of_mem_used hb
  simp only at ha hinv hc hk hd
  subst ha
  rw [hd, Option.getD_some] at hi
  have hk' := hk.perm (perm_others w.heap l n r).symm
  obtain ⟨e, he⟩ := hk'.stored _ List.mem_cons_self
  obtain rfl : e = d := Option.some.inj (he.live.symm.trans hd)
  have hroom := he.room
  simp only at hroom
  generalize hs' : ({ w.heap with mem := Function.update w.heap.mem (blockAt w.heap l + 4 + 4 * i) v } : Heap) = s'
  have hstore : Replaces w.heap s' l [⟨n, false⟩] [⟨n, false⟩] r := by
    subst hs'
    exact hinv.store (fun x hx => Function.update_of_ne (by omega) _ _) rfl rfl rfl rfl
  have hmem : s'.mem = Function.update w.heap.mem (blockAt w.heap l + 4 + 4 * i) v := by rw [← hs']
  have hframe := hstore.frame_others
  refine .inr ⟨_, by rw [call, hs'], h.of_frame hframe hstore.inv hc ?_⟩
  simp only
  rw [hd, Option.map_some]
  have hadd := (hk'.drop hframe.keeps).add (n := n) (d := e.set i v) (Keeps.refl s' _)
    (List.nodup_cons.1 hk'.apart).1 (by rwa [List.length_set]) (fun j hj => ?_)
  · rw [Function.update_idem] at hadd
    refine hadd.perm ?_
    rw [hframe.usedBlocks]
    exact perm_others w.heap l n r
  · rw [List.getElem_set]
    rw [List.length_set] at hj
    rw [hmem]
    split
    · next hij => rw [hij, Function.update_self]
    · rw [Function.update_of_ne (by omega)]
      exact he.data j hj

/-- A legal call of a heap that is as it should be. -/
theorem fine_call (h : Sound start size w) (hl : Legal c w) : Fine start size (call c w) := by
  cases c with
  | malloc k => exact fine_malloc h k
  | free p => exact fine_free h hl
  | realloc p k => exact fine_realloc h hl k
  | store p i v => exact fine_store h hl v

end Calls

/-! ## Any program -/

section Register
variable {mem : Nat → Nat} {start size : Nat}

theorem registered_inv (h : multiHeapRegister mem start size = some s) (ha : 4 ∣ start) (htop : start + size < 2 ^ 32) :
    Inv s [⟨align size - 44, true⟩] ∧ s.first_block = start + 20 ∧ s.last_block + 8 = start + align size ∧
      48 ≤ align size := by
  simp only [multiHeapRegister] at h
  have hstop : align (start + size) = start + align size := by
    rw [align, align]
    omega
  have hstart : align (start + 3) = start := by
    rw [align]
    omega
  have hd : 4 ∣ align size := Nat.dvd_mul_left 4 _
  have hle : align size ≤ size := Nat.div_mul_le_self size 4
  rw [hstop, hstart] at h
  split at h
  · cases h
  next hge =>
  have hs := Option.some.inj h
  have hlast : orFree (start + align size - 8) = start + align size - 8 + 1 := orFree_of_dvd (by omega)
  have hfree : orFree (start + 32) = start + 33 := orFree_of_dvd (by omega)
  rw [hlast, hfree] at hs
  have h₁ : s.first_block = start + 20 := by rw [← hs]; rfl
  have h₂ : s.last_block = start + align size - 8 := by rw [← hs]; rfl
  have h₃ : s.free_bytes = align size - 44 := by rw [← hs]; rfl
  have hmem : s.mem = Function.update (Function.update (Function.update (Function.update (Function.update (Function.update
      mem (start + 32) (start + align size - 8 + 1)) (start + 32 + 4) (start + align size - 8))
      (start + align size - 8) 1) (start + align size - 8 + 4) 0) (start + 20) (start + 33)) (start + 20 + 4)
      (start + 32) := by rw [← hs]; rfl
  refine ⟨⟨⟨⟨?_, ?_⟩, ?_, fun _ => ?_, ⟨?_, ?_⟩, ?_, fun _ => ?_, trivial⟩, ?_, ?_, ?_, ?_, ?_, ?_, ?_⟩, h₁, ?_, ?_⟩
  · exact ⟨2, rfl⟩
  · exact Nat.succ_pos 7
  · rw [h₁, hmem, Function.update_of_ne (by omega), Function.update_self]
    rfl
  · rw [h₁, hmem, Function.update_self]
    rfl
  · simp only
    omega
  · simp only
    omega
  · rw [h₁, show start + 20 + 4 + firstBlock.len = start + 32 from rfl, hmem, Function.update_of_ne (by omega),
      Function.update_of_ne (by omega), Function.update_of_ne (by omega), Function.update_of_ne (by omega),
      Function.update_of_ne (by omega), Function.update_self]
    simp only [headerWord, if_true]
    omega
  · rw [h₁, show start + 20 + 4 + firstBlock.len + 4 = start + 32 + 4 from rfl, hmem, Function.update_of_ne (by omega),
      Function.update_of_ne (by omega), Function.update_of_ne (by omega), Function.update_of_ne (by omega),
      Function.update_self, h₂]
    rfl
  · rw [h₁, h₂]
    simp only [span_cons, span_nil, show firstBlock.len = 8 from rfl]
    omega
  · rw [h₂, hmem, Function.update_of_ne (by omega), Function.update_of_ne (by omega), Function.update_of_ne (by omega),
      Function.update_self]
  · rw [h₂, hmem, Function.update_of_ne (by omega), Function.update_of_ne (by omega), Function.update_self]
  · omega
  · omega
  · omega
  · rw [h₃]
    rfl
  · omega
  · omega

theorem registered_sound (h : Registered start size w) : Sound start size w := by
  obtain ⟨mem, hheap⟩ := h.heap
  obtain ⟨hinv, hfirst, hlast, hlarge⟩ := registered_inv hheap h.aligned h.top
  refine ⟨hfirst, hlast, hlarge, _, hinv, ⟨by simp, trivial⟩, ?_⟩
  rw [usedBlocks, used_cons_free rfl, used_nil]
  refine ⟨by simp, fun p d hd => ?_, by simp⟩
  rw [h.live p] at hd
  cases hd

theorem UsesHeap.sound {calls : List Call} (h : UsesHeap start size w calls) : Sound start size w := by
  refine Run.inv (Sound start size) (fun s => registered_sound) (fun c w w' hs hl hc => ?_) h
  rcases fine_call hs hl with herr | ⟨w₁, heq, hs'⟩
  · rw [step, herr] at hc
    cases hc
  · rw [step, heq] at hc
    cases hc
    exact hs'

end Register

/-- The heap, once it is registered. -/
def registered (start size : Nat) : Option World :=
  (multiHeapRegister (fun _ => 0) start size).map fun s => ⟨s, fun _ => none⟩

theorem exists_usesHeap (start size : Nat) (calls : List Call) (good : World → Bool) (ha : 4 ∣ start)
    (htop : start + size < 2 ^ 32)
    (h : ((registered start size).bind (runAll step (fun c w => decide (Legal c w)) calls)).any good = true) :
    ∃ w, UsesHeap start size w calls ∧ good w = true := by
  refine exists_run_of_check step Legal (Registered start size) (registered start size) calls good (fun w hw => ?_) h
  obtain ⟨s, hs, rfl⟩ := Option.map_eq_some_iff.1 hw
  exact ⟨⟨_, hs⟩, fun _ => rfl, ha, htop⟩

/-- `multi_heap_get_info` is right: its free bytes are those of the heap, and its blocks in use are the arrays. -/
theorem info_counts_arrays {start size : Nat} {calls : List Call} (h : UsesHeap start size w calls) :
    ∃ (info : Info) (ps : List Nat), multiHeapGetInfo w.heap = .ok info ∧ info.total_free_bytes = w.heap.free_bytes ∧
      ps.Nodup ∧ (∀ p, p ∈ ps ↔ (w.live p).isSome) ∧ info.allocated_blocks = ps.length := by
  obtain ⟨L, hinv, -, hk⟩ := h.sound.blocks
  obtain ⟨info, heq, hfree, -, -, hblocks, -⟩ := multiHeapGetInfo_spec hinv
  refine ⟨info, (usedBlocks w.heap L).map fun b => b.1 + 4, heq, hfree, ?_, fun p => ?_, ?_⟩
  · have := hk.apart
    rw [List.Nodup, List.pairwise_map] at this ⊢
    exact this.imp fun hne heq => hne (Nat.add_right_cancel heq)
  · rw [List.mem_map, Option.isSome_iff_exists]
    constructor
    · rintro ⟨b, hb, rfl⟩
      obtain ⟨d, hd⟩ := hk.stored b hb
      exact ⟨d, hd.live⟩
    · rintro ⟨d, hd⟩
      obtain ⟨b, hb, heq⟩ := hk.live p d hd
      exact ⟨b, hb, heq.symm⟩
  · rw [hblocks, List.length_map]

theorem info_counts_two : ∃ w : World, ∃ (info : Info) (ps : List Nat), multiHeapGetInfo w.heap = .ok info ∧
    info.total_free_bytes = w.heap.free_bytes ∧
    ps.Nodup ∧ (∀ p, p ∈ ps ↔ (w.live p).isSome) ∧ info.allocated_blocks = ps.length ∧ 68 ∈ ps := by
  obtain ⟨w, hrun, hgood⟩ := exists_usesHeap 16 256 [.malloc 10, .malloc 20] (fun w => (w.live 68).isSome)
    (by decide) (by decide) (by decide +kernel)
  obtain ⟨info, ps, h₁, h₂, h₃, h₄, h₅⟩ := info_counts_arrays hrun
  exact ⟨w, info, ps, h₁, h₂, h₃, h₄, h₅, (h₄ 68).2 hgood⟩

/-- An array holds what was last stored in it, lies within the heap and apart from the other arrays. -/
theorem arrays_hold_data {start size : Nat} {calls : List Call} (h : UsesHeap start size w calls)
    {d : List Nat} (hd : w.live p = some d) :
    (∀ (i : Nat) (hi : i < d.length), w.heap.mem (p + 4 * i) = d[i]) ∧
      (start + 32 < p ∧ p + 4 * d.length + 8 ≤ start + size) ∧
      ∀ q e, w.live q = some e → q ≠ p → p + 4 * d.length ≤ q ∨ q + 4 * e.length ≤ p := by
  obtain ⟨L, hinv, -, hk⟩ := h.sound.blocks
  obtain ⟨n, hb, hp, hst⟩ := hk.entry hd
  have hroom := hst.room
  simp only at hroom
  refine ⟨fun i hi => ?_, h.sound.bounds hd, fun q e he hne => ?_⟩
  · have := hst.data i hi
    simp only at this
    rwa [← hp] at this
  · obtain ⟨k, hb', hq, hst'⟩ := hk.entry he
    have hroom' := hst'.room
    simp only at hroom'
    have := used_apart hb hb' (by
      intro heq
      have := (Prod.mk.inj heq).1
      omega)
    simp only at this
    omega

/-- The word is still there, in the block that the array has been moved to. -/
theorem moved_array_holds_data : ∃ (w : World) (d : List Nat), w.live 92 = some d ∧ d[1]? = some 7 ∧
    (∀ (i : Nat) (hi : i < d.length), w.heap.mem (92 + 4 * i) = d[i]) ∧
    ∀ q e, w.live q = some e → q ≠ 92 → 92 + 4 * d.length ≤ q ∨ q + 4 * e.length ≤ 92 := by
  obtain ⟨w, hrun, hgood⟩ := exists_usesHeap 16 256 [.malloc 10, .malloc 20, .store 52 1 7, .realloc 52 30]
    (fun w => (w.live 92).any fun d => d[1]? == some 7) (by decide) (by decide) (by decide +kernel)
  obtain ⟨d, hd, h7⟩ := (Option.any_eq_true _ _).1 hgood
  have := arrays_hold_data hrun hd
  exact ⟨w, d, hd, by simpa using h7, this.1, this.2.2⟩

/-- Once everything is freed the heap is one free block again, as it was registered. -/
theorem empty_as_registered {start size : Nat} {calls : List Call} (h : UsesHeap start size w calls)
    (hlive : ∀ p, w.live p = none) :
    Inv w.heap [⟨align size - 44, true⟩] ∧ w.heap.free_bytes = align size - 44 := by
  obtain ⟨L, hinv, hc, hk⟩ := h.sound.blocks
  have hfirst := h.sound.first
  have hlast := h.sound.last
  have hlarge := h.sound.large
  have hend := Inv.end_eq (l := []) hinv
  rw [blockAt_nil] at hend
  have hused : usedBlocks w.heap L = [] := by
    apply List.eq_nil_iff_forall_not_mem.2
    intro b hb
    obtain ⟨d, hd⟩ := hk.stored b hb
    have := hd.live
    rw [hlive] at this
    cases this
  obtain rfl : L = [⟨align size - 44, true⟩] := by
    refine coalesced_unique (h := 4) (a := blockAt w.heap []) (Nat.succ_pos 3) hc ⟨by simp, trivial⟩ ?_ ?_
    · simp only [span_cons, span_nil]
      omega
    · rw [used_cons_free rfl, used_nil]
      exact hused
  refine ⟨hinv, ?_⟩
  rw [hinv.free]
  rfl

theorem empty_as_registered_after_two : ∃ w : World, Inv w.heap [⟨212, true⟩] ∧ w.heap.free_bytes = 212 := by
  obtain ⟨w, hrun, hgood⟩ := exists_usesHeap 16 256 [.malloc 10, .malloc 20, .free 52, .free 68]
    (fun w => decide (∀ p ∈ List.range 272, w.live p = none)) (by decide) (by decide) (by decide +kernel)
  have hlive : ∀ p, w.live p = none := by
    intro p
    cases hd : w.live p with
    | none => rfl
    | some d =>
      have hbounds := hrun.sound.bounds hd
      rw [← hd]
      exact of_decide_eq_true hgood p (List.mem_range.2 (by omega))
  exact ⟨w, empty_as_registered hrun hlive⟩

end MultiHeap
