import Mathlib.Algebra.BigOperators.Group.List.Basic
import Mathlib.Algebra.Order.BigOperators.Group.List
import Mathlib.Algebra.Order.Monoid.NatCast
import Mathlib.Algebra.Order.Ring.Nat
import Mathlib.Data.List.Nodup
import Mathlib.Data.List.Perm.Basic
import Mathlib.Tactic.Common
/-!
# Making room by eviction

Spans are stored in a list, the oldest one first. To make room, a window is
opened over a span and grows over the ones around it: each step evicts the
nearest span above the window or the newest span below it, whichever is older,
and a span below takes the base of the window down with it.

The window stays free of the spans that are left, as long as each span taken
from below is the next one. `Skips` says of the spans alone that a span will be
left out on the way down.
-/

namespace Evict

variable {α : Type}

/-! ## Age -/

/-- `x` comes before `y` in the list. -/
def Older (l : List α) (x y : α) : Prop := [x, y].Sublist l

instance [DecidableEq α] (l : List α) (x y : α) : Decidable (Older l x y) :=
  inferInstanceAs (Decidable ([x, y].Sublist l))

section Older
variable {l : List α} {x y z t : α}

theorem Older.left_mem (h : Older l x y) : x ∈ l := h.subset (by simp)

theorem Older.right_mem (h : Older l x y) : y ∈ l := h.subset (by simp)

theorem older_cons : Older (t :: l) x y ↔ Older l x y ∨ x = t ∧ y ∈ l := by
  unfold Older
  rw [List.sublist_cons_iff]
  constructor
  · rintro (h | ⟨r, hr, hsub⟩)
    · exact .inl h
    · cases hr
      exact .inr ⟨rfl, List.singleton_sublist.1 hsub⟩
  · rintro (h | ⟨rfl, hy⟩)
    · exact .inl h
    · exact .inr ⟨[y], rfl, List.singleton_sublist.2 hy⟩

theorem older_getElem {i j : Nat} (hi : i < l.length) (hj : j < l.length) (hij : i < j) : Older l l[i] l[j] :=
  List.pairwise_iff_getElem.1 (List.pairwise_iff_forall_sublist.2 fun h => h) i j hi hj hij

theorem Older.irrefl (hl : l.Nodup) : ¬ Older l x x :=
  fun h => List.pairwise_iff_forall_sublist.1 hl h rfl

theorem Older.asymm (hl : l.Nodup) (h : Older l x y) : ¬ Older l y x := by
  induction l with
  | nil => exact fun h' => absurd h'.left_mem (by simp)
  | cons t l ih =>
    obtain ⟨ht, hl⟩ := List.nodup_cons.1 hl
    intro h'
    rw [older_cons] at h h'
    rcases h with h | ⟨rfl, hy⟩ <;> rcases h' with h' | ⟨rfl, hx⟩
    · exact ih hl h h'
    · exact ht h.right_mem
    · exact ht h'.right_mem
    · exact ht hy

theorem Older.trans (hl : l.Nodup) (h : Older l x y) (h' : Older l y z) : Older l x z := by
  induction l with
  | nil => exact absurd h.left_mem (by simp)
  | cons t l ih =>
    obtain ⟨ht, hl⟩ := List.nodup_cons.1 hl
    rw [older_cons] at h h' ⊢
    rcases h with h | ⟨rfl, hy⟩ <;> rcases h' with h' | ⟨rfl, hz⟩
    · exact .inl (ih hl h h')
    · exact absurd h.right_mem ht
    · exact .inr ⟨rfl, h'.right_mem⟩
    · exact absurd hy ht

variable [DecidableEq α]

theorem Older.of_erase (h : Older (l.erase t) x y) : Older l x y :=
  List.Sublist.trans h List.erase_sublist

theorem Older.erase (h : Older l x y) (hx : x ≠ t) (hy : y ≠ t) : Older (l.erase t) x y := by
  have := List.Sublist.erase t h
  rwa [List.erase_of_not_mem (by simp [hx.symm, hy.symm])] at this

end Older

/-! ## Windows -/

/-- The spans that are stored, the base of the window, and the room made so far. -/
structure Window (α : Type) where
  spans : List α
  base : Nat
  room : Nat

section Steps
variable (start size : α → Nat)

/-- The nearest span above is evicted if it is older than the newest one below,
and the newest one below otherwise. -/
inductive Step : Window α → Window α → Prop
  | up {l : List α} {a c i : Nat} (hi : i < l.length) (above : a < start l[i])
      (nearest : ∀ x ∈ l, a < start x → start l[i] ≤ start x)
      (older : ∀ x ∈ l, start x < a → ∃ k, ∃ _ : k < l.length, i < k ∧ start l[k] < a) :
      Step ⟨l, a, c⟩ ⟨l.eraseIdx i, a, c + size l[i]⟩
  | down {l : List α} {a c i : Nat} (hi : i < l.length) (below : start l[i] < a)
      (newest : ∀ k, ∀ _ : k < l.length, i < k → ¬ start l[k] < a)
      (older : ∀ x ∈ l, a < start x →
        ∃ k, ∃ _ : k < l.length, i < k ∧ a < start l[k] ∧ start l[k] ≤ start x) :
      Step ⟨l, a, c⟩ ⟨l.eraseIdx i, start l[i], c + size l[i]⟩

/-- The total size of the spans with a property. -/
def total (p : α → Prop) [DecidablePred p] (l : List α) : Nat := (l.map fun x => if p x then size x else 0).sum

/-- `t` and all spans between the window and `t` are older than some span below. -/
def Prior (l : List α) (a : Nat) (t : α) : Prop :=
  a < start t ∧ ∀ x ∈ l, a < start x → start x ≤ start t → ∃ b ∈ l, start b < a ∧ Older l x b

instance [DecidableEq α] (l : List α) (a : Nat) : DecidablePred (Prior start l a) := fun t =>
  inferInstanceAs (Decidable (a < start t ∧
    ∀ x ∈ l, a < start x → start x ≤ start t → ∃ b ∈ l, start b < a ∧ Older l x b))

/-- A span below the window lies under an older one, and all that is evicted
before it does not make the room that is called for. -/
def Skips [DecidableEq α] (w : Window α) (len : Nat) : Prop :=
  ∃ h ∈ w.spans, start h < w.base ∧ (∃ x ∈ w.spans, start h < start x ∧ start x < w.base ∧ Older w.spans x h) ∧
    w.room + total size (fun b => start b < w.base ∧ Older w.spans h b) w.spans +
      total size (Prior start w.spans w.base) w.spans < len

instance [DecidableEq α] (w : Window α) (len : Nat) : Decidable (Skips start size w len) :=
  inferInstanceAs (Decidable (∃ h ∈ w.spans, _))

/-- The spans do not overlap and end in front of `stop`. -/
structure Laid (stop : Nat) (l : List α) : Prop where
  nodup : l.Nodup
  apart : ∀ x ∈ l, ∀ y ∈ l, x ≠ y → start x + size x ≤ start y ∨ start y + size y ≤ start x
  pos : ∀ x ∈ l, 0 < size x
  inside : ∀ x ∈ l, start x + size x ≤ stop

/-- The window is free of the spans, and so is everything from the span below to
its base. -/
structure Clear (stop : Nat) (w : Window α) : Prop where
  low : ∀ x ∈ w.spans, start x < w.base → start x + size x ≤ w.base
  high : ∀ x ∈ w.spans, ¬ start x < w.base → w.base + w.room ≤ start x
  pos : 0 < w.room
  top : w.base + w.room ≤ stop

end Steps

/-! ## What a step keeps -/

section Step
variable {start size : α → Nat} {w w' : Window α} {len stop : Nat}

theorem Step.length_lt (h : Step start size w w') : w'.spans.length < w.spans.length := by
  cases h <;> rw [List.length_eraseIdx_of_lt (by assumption)] <;> dsimp only <;> omega

theorem Step.subset (h : Step start size w w') : ∀ x ∈ w'.spans, x ∈ w.spans := by
  intro x hx
  cases h <;> exact List.mem_of_mem_eraseIdx hx

/-- No room is lost: what the window gains, the spans lose. -/
theorem Step.sum (h : Step start size w w') :
    w'.room + (w'.spans.map size).sum = w.room + (w.spans.map size).sum := by
  cases h <;>
  · rename_i l a c i hi _ _ _
    have hperm := ((List.getElem_cons_eraseIdx_perm hi).map size).sum_eq
    rw [List.map_cons, List.sum_cons] at hperm
    dsimp only
    omega

theorem Step.base (h : Step start size w w') : w'.base = w.base ∨ ∃ x ∈ w.spans, w'.base = start x := by
  cases h with
  | up => exact .inl rfl
  | down hi => exact .inr ⟨_, List.getElem_mem hi, rfl⟩

theorem Laid.sublist {l l' : List α} (h : Laid start size stop l) (hl : l'.Sublist l) : Laid start size stop l' where
  nodup := h.nodup.sublist hl
  apart := fun x hx y hy => h.apart x (hl.subset hx) y (hl.subset hy)
  pos := fun x hx => h.pos x (hl.subset hx)
  inside := fun x hx => h.inside x (hl.subset hx)

theorem Laid.start_ne {l : List α} (h : Laid start size stop l) {x y : α} (hx : x ∈ l) (hy : y ∈ l) (hne : x ≠ y) :
    start x ≠ start y := by
  have hxpos := h.pos x hx
  have hypos := h.pos y hy
  rcases h.apart x hx y hy hne with hlt | hlt <;> omega

theorem Step.laid (h : Step start size w w') (hl : Laid start size stop w.spans) : Laid start size stop w'.spans := by
  cases h <;> exact hl.sublist (List.eraseIdx_sublist _ _)

theorem Clear.start_ne (h : Clear start size stop w) : ∀ x ∈ w.spans, start x ≠ w.base := by
  intro x hx hbase
  have hhigh := h.high x hx (by omega)
  have hpos := h.pos
  omega

theorem ne_of_mem_eraseIdx {l : List α} {i : Nat} {x : α} (hl : l.Nodup) (hi : i < l.length) (hx : x ∈ l.eraseIdx i) :
    x ≠ l[i] := by
  rintro rfl
  exact (List.nodup_cons.1 ((List.getElem_cons_eraseIdx_perm hi).nodup_iff.2 hl)).1 hx

/-- With the next span below, or the nearest above, the window grows over
nothing that is left. -/
theorem Step.clear (h : Step start size w w') (hl : Laid start size stop w.spans) (hclear : Clear start size stop w)
    (hnext : w'.base < w.base → ∀ x ∈ w.spans, start x < w.base → start x ≤ w'.base) : Clear start size stop w' := by
  have hroom := h.sum
  cases h with
  | @up l a c i hi above nearest older =>
    have hmem : l[i] ∈ l := List.getElem_mem hi
    have htop := hl.inside _ hmem
    have hhigh := hclear.high _ hmem (Nat.lt_asymm above)
    dsimp only at hhigh htop
    refine ⟨fun x hx => hclear.low x (List.mem_of_mem_eraseIdx hx), fun x hx hbase => ?_, ?_, ?_⟩
    · dsimp only at hx hbase ⊢
      have hx' : x ∈ l := List.mem_of_mem_eraseIdx hx
      have hne : x ≠ l[i] := ne_of_mem_eraseIdx hl.nodup hi hx
      have habove := hclear.high x hx' hbase
      have hpos := hclear.pos
      dsimp only at habove hpos
      have hnear := nearest x hx' (by omega)
      have hxpos := hl.pos x hx'
      rcases hl.apart _ hmem x hx' hne.symm with hlt | hlt <;> omega
    · exact Nat.add_pos_left hclear.pos _
    · dsimp only
      omega
  | @down l a c i hi below newest older =>
    have hmem : l[i] ∈ l := List.getElem_mem hi
    have hlow := hclear.low _ hmem below
    dsimp only at hlow
    have hnext := hnext below
    dsimp only at hnext
    refine ⟨fun x hx hbase => ?_, fun x hx hbase => ?_, ?_, ?_⟩
    · dsimp only at hx hbase ⊢
      have hx' : x ∈ l := List.mem_of_mem_eraseIdx hx
      have hpos := hl.pos _ hmem
      rcases hl.apart x hx' _ hmem (by rintro rfl; omega) with hlt | hlt <;> omega
    · dsimp only at hx hbase ⊢
      have hx' : x ∈ l := List.mem_of_mem_eraseIdx hx
      have hne : x ≠ l[i] := ne_of_mem_eraseIdx hl.nodup hi hx
      by_cases hxa : start x < a
      · -- a span between the one evicted and the window would be the next one
        have hle := hnext x hx' hxa
        have hxpos := hl.pos x hx'
        have hpos := hl.pos _ hmem
        rcases hl.apart x hx' _ hmem hne with hlt | hlt <;> omega
      · have habove := hclear.high x hx' hxa
        dsimp only at habove
        omega
    · exact Nat.add_pos_left hclear.pos _
    · have htop := hclear.top
      dsimp only at htop ⊢
      omega

theorem total_congr {p q : α → Prop} [DecidablePred p] [DecidablePred q] {l : List α} (h : ∀ x ∈ l, p x ↔ q x) :
    total size p l = total size q l :=
  congrArg List.sum (List.map_congr_left fun x hx => if_congr (h x hx) rfl rfl)

theorem total_eq_zero {p : α → Prop} [DecidablePred p] {l : List α} (h : ∀ x ∈ l, ¬ p x) : total size p l = 0 := by
  apply List.sum_eq_zero
  intro x hx
  obtain ⟨y, hy, rfl⟩ := List.mem_map.1 hx
  exact if_neg (h y hy)

/-- The newest span below is younger than the rest of them. -/
theorem older_newest {l : List α} {a i : Nat} (hi : i < l.length)
    (newest : ∀ k, ∀ _ : k < l.length, i < k → ¬ start l[k] < a) {y : α} (hy : y ∈ l) (hya : start y < a)
    (hne : y ≠ l[i]) : Older l y l[i] := by
  obtain ⟨k, hk, rfl⟩ := List.getElem_of_mem hy
  rcases Nat.lt_trichotomy k i with hki | rfl | hik
  · exact older_getElem hk hi hki
  · exact absurd rfl hne
  · exact absurd hya (newest k hk hik)

/-- No span above comes first when the newest one below is evicted. -/
theorem not_prior {l : List α} {a i : Nat} (hl : l.Nodup) (hi : i < l.length)
    (newest : ∀ k, ∀ _ : k < l.length, i < k → ¬ start l[k] < a)
    (older : ∀ x ∈ l, a < start x → ∃ k, ∃ _ : k < l.length, i < k ∧ a < start l[k] ∧ start l[k] ≤ start x)
    {y : α} (hy : y ∈ l) : ¬ Prior start l a y := by
  intro hp
  obtain ⟨k, hk, hik, habove, hle⟩ := older y hy hp.1
  obtain ⟨b, hb, hba, hold⟩ := hp.2 l[k] (List.getElem_mem hk) habove hle
  have hold' : Older l l[k] l[i] := by
    rcases eq_or_ne b l[i] with rfl | hne
    · exact hold
    · exact hold.trans hl (older_newest hi newest hb hba hne)
  exact hold'.asymm hl (older_getElem hi hk hik)

variable [DecidableEq α]

theorem total_erase {p : α → Prop} [DecidablePred p] {l : List α} {t : α} (ht : t ∈ l) :
    total size p l = (if p t then size t else 0) + total size p (l.erase t) :=
  (List.sum_map_erase (fun x => if p x then size x else 0) ht).symm

/-- While the room is too small, a span is only taken from below if it is the next one. -/
theorem Step.next (h : Step start size w w') (hl : w.spans.Nodup) (hskips : ¬ Skips start size w len)
    (hroom : w.room < len) : w'.base < w.base → ∀ x ∈ w.spans, start x < w.base → start x ≤ w'.base := by
  cases h with
  | up => exact fun h => absurd h (Nat.lt_irrefl _)
  | @down l a c i hi below newest older =>
    intro _ x hx hxa
    dsimp only at hx hxa hl hroom ⊢
    by_contra hlt
    refine hskips ⟨l[i], List.getElem_mem hi, below, ⟨x, hx, by omega, hxa,
      older_newest hi newest hx hxa (by rintro rfl; omega)⟩, ?_⟩
    -- nothing is younger than the newest span below, and no span above comes before it
    have hbelow : total size (fun b => start b < a ∧ Older l l[i] b) l = 0 := by
      refine total_eq_zero fun y hy hlater => ?_
      rcases eq_or_ne y l[i] with rfl | hne
      · exact hlater.2.irrefl hl
      · exact hlater.2.asymm hl (older_newest hi newest hy hlater.1 hne)
    have hprior : total size (Prior start l a) l = 0 :=
      total_eq_zero fun y hy => not_prior hl hi newest older hy
    rw [hbelow, hprior]
    exact hroom

theorem total_older {l : List α} {a a' : Nat} {b t : α} (hl : l.Nodup) (hb : b ≠ t)
    (h : ∀ y ∈ l, y ≠ t → (start y < a' ↔ start y < a)) :
    total size (fun y => start y < a' ∧ Older (l.erase t) b y) (l.erase t) =
      total size (fun y => start y < a ∧ Older l b y) (l.erase t) := by
  refine total_congr fun y hy => ?_
  have hy' : y ≠ t := by rintro rfl; exact hl.not_mem_erase hy
  rw [h y (List.mem_of_mem_erase hy) hy']
  exact and_congr_right fun _ => ⟨fun h => h.of_erase, fun h => h.erase hb hy'⟩

/-- The span evicted comes first, and the others come in the order in which they came before. -/
theorem prior_up {l : List α} {a i : Nat} (hlaid : Laid start size stop l) (hi : i < l.length) (above : a < start l[i])
    (nearest : ∀ x ∈ l, a < start x → start l[i] ≤ start x)
    (older : ∀ x ∈ l, start x < a → ∃ k, ∃ _ : k < l.length, i < k ∧ start l[k] < a) {b : α} (hb : b ∈ l)
    (hba : start b < a) : total size (Prior start l a) l =
      size l[i] + total size (Prior start (l.erase l[i]) a) (l.erase l[i]) := by
  have hmem : l[i] ∈ l := List.getElem_mem hi
  have hne : ∀ {y}, start y < a → y ≠ l[i] := by rintro _ hya rfl; omega
  have hfirst : Prior start l a l[i] := by
    refine ⟨above, fun y hy hya hle => ?_⟩
    obtain ⟨k, hk, hik, hbelow⟩ := older b hb hba
    rcases eq_or_ne y l[i] with rfl | hy'
    · exact ⟨l[k], List.getElem_mem hk, hbelow, older_getElem hi hk hik⟩
    · exact absurd (Nat.le_antisymm hle (nearest y hy hya)) (hlaid.start_ne hy hmem hy')
  rw [total_erase hmem, if_pos hfirst, Nat.add_left_cancel_iff]
  refine total_congr fun y _ => and_congr_right fun _ => ?_
  constructor
  · intro h z hz hza hzy
    obtain ⟨d, hd, hda, hold⟩ := h z (List.mem_of_mem_erase hz) hza hzy
    have hz' : z ≠ l[i] := by rintro rfl; exact hlaid.nodup.not_mem_erase hz
    exact ⟨d, (List.mem_erase_of_ne (hne hda)).2 hd, hda, hold.erase hz' (hne hda)⟩
  · intro h z hz hza hzy
    rcases eq_or_ne z l[i] with rfl | hz'
    · exact hfirst.2 _ hmem above (Nat.le_refl _)
    · obtain ⟨d, hd, hda, hold⟩ := h z ((List.mem_erase_of_ne hz').2 hz) hza hzy
      exact ⟨d, List.mem_of_mem_erase hd, hda, hold.of_erase⟩

/-- Behind the newest one below, no span above comes first either. -/
theorem prior_down {l : List α} {a i : Nat} (hl : l.Nodup) (hi : i < l.length) (below : start l[i] < a)
    (hbase : ∀ x ∈ l, start x ≠ a) (hnext : ∀ x ∈ l, start x < a → start x ≤ start l[i])
    (newest : ∀ k, ∀ _ : k < l.length, i < k → ¬ start l[k] < a)
    (older : ∀ x ∈ l, a < start x → ∃ k, ∃ _ : k < l.length, i < k ∧ a < start l[k] ∧ start l[k] ≤ start x) :
    total size (Prior start (l.erase l[i]) (start l[i])) (l.erase l[i]) = 0 := by
  refine total_eq_zero fun y hy hp => not_prior hl hi newest older (List.mem_of_mem_erase hy) (?_ : Prior start l a y)
  have hy' := List.mem_of_mem_erase hy
  have habove : a < start y := by
    rcases Nat.lt_trichotomy (start y) a with hya | hya | hya
    · exact absurd (hnext y hy' hya) (Nat.not_le_of_lt hp.1)
    · exact absurd hya (hbase y hy')
    · exact hya
  refine ⟨habove, fun z hz hza hzy => ?_⟩
  have hz' : z ≠ l[i] := by rintro rfl; omega
  obtain ⟨d, hd, hda, hold⟩ := hp.2 z ((List.mem_erase_of_ne hz').2 hz) (Nat.lt_trans below hza) hzy
  exact ⟨d, List.mem_of_mem_erase hd, Nat.lt_trans hda below, hold.of_erase⟩

/-- While only next ones are taken, a wrong span stays ahead, and none comes nearer. -/
theorem Step.skips_iff (h : Step start size w w') (hlaid : Laid start size stop w.spans)
    (hbase : ∀ x ∈ w.spans, start x ≠ w.base)
    (hnext : w'.base < w.base → ∀ x ∈ w.spans, start x < w.base → start x ≤ w'.base) :
    Skips start size w' len ↔ Skips start size w len := by
  have hl := hlaid.nodup
  unfold Skips
  cases h with
  | @up l a c i hi above nearest older =>
    have hmem : l[i] ∈ l := List.getElem_mem hi
    dsimp only at hl hlaid ⊢
    rw [← hl.erase_getElem i hi]
    have hne : ∀ {y}, start y < a → y ≠ l[i] := by rintro _ hya rfl; omega
    -- what the span evicted adds to the room, it takes from the spans that come first
    have hsum : ∀ b ∈ l, start b < a → c + total size (fun y => start y < a ∧ Older l b y) l +
        total size (Prior start l a) l = c + size l[i] +
          total size (fun y => start y < a ∧ Older (l.erase l[i]) b y) (l.erase l[i]) +
          total size (Prior start (l.erase l[i]) a) (l.erase l[i]) := by
      intro b hb hba
      rw [total_erase hmem, if_neg (by omega), total_older hl (hne hba) fun _ _ _ => Iff.rfl,
        prior_up hlaid hi above nearest older hb hba]
      omega
    constructor
    · rintro ⟨b, hb, hba, ⟨x, hx, hbx, hxa, hold⟩, hlt⟩
      have hb' := List.mem_of_mem_erase hb
      exact ⟨b, hb', hba, ⟨x, List.mem_of_mem_erase hx, hbx, hxa, hold.of_erase⟩, by rwa [hsum b hb' hba]⟩
    · rintro ⟨b, hb, hba, ⟨x, hx, hbx, hxa, hold⟩, hlt⟩
      exact ⟨b, (List.mem_erase_of_ne (hne hba)).2 hb, hba, ⟨x, (List.mem_erase_of_ne (hne hxa)).2 hx, hbx, hxa,
        hold.erase (hne hxa) (hne hba)⟩, by rwa [← hsum b hb hba]⟩
  | @down l a c i hi below newest older =>
    have hmem : l[i] ∈ l := List.getElem_mem hi
    have hnext := hnext below
    dsimp only at hl hlaid hbase hnext ⊢
    rw [← hl.erase_getElem i hi]
    have hlower : ∀ y ∈ l, y ≠ l[i] → (start y < start l[i] ↔ start y < a) := fun y hy hy' =>
      ⟨fun hlt => Nat.lt_trans hlt below,
        fun hya => Nat.lt_of_le_of_ne (hnext y hy hya) (hlaid.start_ne hy hmem hy')⟩
    -- what the span evicted adds to the room, it takes from the spans behind the wrong one
    have hsum : ∀ b ∈ l, start b < a → b ≠ l[i] → c + total size (fun y => start y < a ∧ Older l b y) l +
        total size (Prior start l a) l = c + size l[i] +
          total size (fun y => start y < start l[i] ∧ Older (l.erase l[i]) b y) (l.erase l[i]) +
          total size (Prior start (l.erase l[i]) (start l[i])) (l.erase l[i]) := by
      intro b hb hba hb'
      rw [total_erase hmem, if_pos ⟨below, older_newest hi newest hb hba hb'⟩, total_older hl hb' hlower,
        prior_down hl hi below hbase hnext newest older, total_eq_zero fun y hy => not_prior hl hi newest older hy]
      omega
    constructor
    · rintro ⟨b, hb, hba, ⟨x, hx, hbx, hxa, hold⟩, hlt⟩
      have hb' := List.mem_of_mem_erase hb
      have hne : b ≠ l[i] := by rintro rfl; exact hl.not_mem_erase hb
      refine ⟨b, hb', Nat.lt_trans hba below, ⟨x, List.mem_of_mem_erase hx, hbx, Nat.lt_trans hxa below,
        hold.of_erase⟩, ?_⟩
      rwa [hsum b hb' (Nat.lt_trans hba below) hne]
    · rintro ⟨b, hb, hba, ⟨x, hx, hbx, hxa, hold⟩, hlt⟩
      have hb' : b ≠ l[i] := by
        rintro rfl
        exact absurd (hnext x hx hxa) (Nat.not_le_of_lt hbx)
      have hx' : x ≠ l[i] := by
        rintro rfl
        exact hold.asymm hl (older_newest hi newest hb hba hb')
      refine ⟨b, (List.mem_erase_of_ne hb').2 hb, (hlower b hb hb').2 hba, ⟨x, (List.mem_erase_of_ne hx').2 hx, hbx,
        (hlower x hx hx').2 hxa, hold.erase hx' hb'⟩, ?_⟩
      rwa [← hsum b hb hba hb']

end Step
end Evict
