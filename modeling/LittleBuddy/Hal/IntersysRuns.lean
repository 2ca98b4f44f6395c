import LittleBuddy.Hal.Intersys
import Mathlib.Data.Fintype.Card
/-!
# Every message is delivered once

`Lists` ties the records to the messages in flight, at every place of the
transmit-done interrupt; `Turn` follows the receiver through the list that it
was told of. Both are kept by every step of a run whose calls are timely.
-/
open LinkedPool Runs

namespace Hal.Intersys

variable {c d : Chan} {r : Slot} {p : Option Slot} {m : Message} {l₁ l₂ x : List Slot}

/-! ## Fields of the records -/

namespace Chan

@[simp] theorem next_setNext : (c.setNext r p).next = Function.update c.next r p := by
  funext q
  by_cases hq : q = r
  · subst hq
    simp [next, setNext]
  · simp [next, setNext, hq]

@[simp] theorem message_setNext : (c.setNext r p).message = c.message := by
  funext q
  by_cases hq : q = r
  · subst hq
    simp [message, setNext]
  · simp [message, setNext, hq]

@[simp] theorem in_use_setNext : (c.setNext r p).in_use = c.in_use := by
  funext q
  by_cases hq : q = r
  · subst hq
    simp [in_use, setNext]
  · simp [in_use, setNext, hq]

@[simp] theorem next_fill : (c.fill r m).next = Function.update c.next r none := by
  funext q
  by_cases hq : q = r
  · subst hq
    simp [next, fill]
  · simp [next, fill, hq]

@[simp] theorem message_fill : (c.fill r m).message = Function.update c.message r m := by
  funext q
  by_cases hq : q = r
  · subst hq
    simp [message, fill]
  · simp [message, fill, hq]

@[simp] theorem in_use_fill : (c.fill r m).in_use = Function.update c.in_use r true := by
  funext q
  by_cases hq : q = r
  · subst hq
    simp [in_use, fill]
  · simp [in_use, fill, hq]

@[simp] theorem next_release : (c.release r).next = c.next := by
  funext q
  by_cases hq : q = r
  · subst hq
    simp [next, release]
  · simp [next, release, hq]

@[simp] theorem message_release : (c.release r).message = c.message := by
  funext q
  by_cases hq : q = r
  · subst hq
    simp [message, release]
  · simp [message, release, hq]

@[simp] theorem in_use_release : (c.release r).in_use = Function.update c.in_use r false := by
  funext q
  by_cases hq : q = r
  · subst hq
    simp [in_use, release]
  · simp [in_use, release, hq]

theorem freeRecord_some (h : c.freeRecord = some r) : c.in_use r = false := by
  have := List.find?_some h
  simpa using this

theorem link_busy (h : (c.fill r m).link r = some d) : d.chan_busy = c.chan_busy := by
  simp only [link, fill] at h
  split at h
  · cases h
    rfl
  · split at h
    · cases h
      rfl
    · obtain ⟨last, -, rfl⟩ := Option.map_eq_some_iff.1 h
      rfl

/-- The walk along a chain ends at its last record. -/
theorem lastFrom_eq {l : List Slot} {q : Slot} (h : Chain c.next (some q) l) {fuel : Nat} (hf : l.length ≤ fuel) :
    c.lastFrom fuel q = l.getLast? := by
  induction l generalizing q fuel with
  | nil => cases h
  | cons a l ih =>
    obtain ⟨ha, hl⟩ := chain_cons.1 h
    cases ha
    cases fuel with
    | zero => simp at hf
    | succ fuel =>
      rw [lastFrom]
      cases l with
      | nil =>
        rw [chain_nil.1 hl]
        rfl
      | cons b l =>
        have hb := (chain_cons.1 hl).1
        rw [hb] at hl ⊢
        dsimp only
        rw [ih hl (by simpa using hf), List.getLast?_cons_cons]

end Chan

theorem length_le_of_nodup {l : List Slot} (h : l.Nodup) : l.length ≤ MAX_SEND_RECORD_COUNT := by
  have := h.length_le_card
  rwa [Fintype.card_fin] at this

/-! ## The lists -/

/-- From `p`, the records of `l₁` are left of the list that the peer was told
of, and those of `l₂` wait. `x` is done with but not marked free yet. -/
structure Lists (c : Chan) (x : List Slot) (p : Option Slot) (l₁ l₂ : List Slot) : Prop where
  sent : Chain c.next p l₁
  waiting : Chain c.next c.send_pending_list_p l₂
  nodup : (x ++ (l₁ ++ l₂)).Nodup
  used : ∀ r, c.in_use r = true ↔ r ∈ x ++ (l₁ ++ l₂)
  accepted : c.accepted = c.done ++ (l₁ ++ l₂).map c.message

theorem Lists.fresh (h : Lists c x p l₁ l₂) (hr : c.in_use r = false) : r ∉ x ++ (l₁ ++ l₂) := by
  intro hmem
  rw [(h.used r).2 hmem] at hr
  cases hr

/-- A record that is not in use is filled: the lists stay. -/
theorem Lists.fill (h : Lists c x p l₁ l₂) (hr : c.in_use r = false) :
    Chain (c.fill r m).next p l₁ ∧ Chain (c.fill r m).next c.send_pending_list_p l₂ ∧
      (l₁ ++ l₂).map (c.fill r m).message = (l₁ ++ l₂).map c.message := by
  have hfresh := h.fresh hr
  simp only [List.mem_append, not_or] at hfresh
  obtain ⟨-, h1, h2⟩ := hfresh
  simp only [Chan.next_fill, Chan.message_fill]
  refine ⟨h.sent.update_of_notMem h1, h.waiting.update_of_notMem h2, ?_⟩
  apply List.map_congr_left
  intro q hq
  apply Function.update_of_ne
  rintro rfl
  exact (List.mem_append.1 hq).elim h1 h2

theorem Lists.nodup_push (h : Lists c x p l₁ l₂) (hr : c.in_use r = false) : (x ++ (l₁ ++ (l₂ ++ [r]))).Nodup := by
  rw [← List.append_assoc l₁, ← List.append_assoc x]
  apply List.nodup_append.2
  refine ⟨h.nodup, List.nodup_singleton r, ?_⟩
  intro q hq b hb
  rw [List.mem_singleton.1 hb]
  rintro rfl
  exact h.fresh hr hq

/-- The channel with other records and another waiting list, and one more message
accepted. -/
abbrev Chan.sent (c : Chan) (msgs : Slot → SendRecord) (q : Option Slot) (m : Message) : Chan :=
  { c with send_msgs := msgs, send_pending_list_p := q, accepted := c.accepted ++ [m], chan_busy := true }

/-- What a filled record adds to the records in use and to the messages in flight. -/
theorem Lists.push (h : Lists c x p l₁ l₂) (hr : c.in_use r = false) (huse : d.in_use = Function.update c.in_use r true)
    (hmsg : d.message = Function.update c.message r m) :
    (∀ q, d.in_use q = true ↔ q ∈ x ++ (l₁ ++ (l₂ ++ [r]))) ∧
      c.accepted ++ [m] = c.done ++ (l₁ ++ (l₂ ++ [r])).map d.message := by
  have hfresh := h.fresh hr
  constructor
  · intro q
    rw [huse, ← List.append_assoc l₁, ← List.append_assoc x, List.mem_append, List.mem_singleton]
    by_cases hq : q = r
    · subst hq
      simp
    · rw [Function.update_of_ne hq, h.used q]
      simp [hq]
  · have hmap : (l₁ ++ l₂).map d.message = (l₁ ++ l₂).map c.message := by
      apply List.map_congr_left
      intro q hq
      rw [hmsg]
      apply Function.update_of_ne
      rintro rfl
      exact hfresh (List.mem_append_right _ hq)
    rw [← List.append_assoc l₁, List.map_append, hmap, ← List.append_assoc, ← h.accepted]
    simp [hmsg]

/-- While the peer has a list, a record goes to the end of the waiting list, and
the records before it stay as they are. -/
theorem Lists.link (h : Lists c x p l₁ l₂) (hr : c.in_use r = false) (hlist : c.send_msg_list_p ≠ none) :
    ∃ msgs q, (c.fill r m).link r = some { c with send_msgs := msgs, send_pending_list_p := q } ∧
      (l₂ ≠ [] → q = c.send_pending_list_p) ∧ (∀ k ∈ x ++ l₁, msgs k = c.send_msgs k) ∧
      Lists (c.sent msgs q m) x p l₁ (l₂ ++ [r]) := by
  have hfresh := h.fresh hr
  obtain ⟨h1, h2, -⟩ := h.fill (m := m) hr
  obtain ⟨first, hfirst⟩ := Option.ne_none_iff_exists'.1 hlist
  have hother : ∀ k, k ≠ r → (c.fill r m).send_msgs k = c.send_msgs k := fun k hk => Function.update_of_ne hk _ _
  have hmem : ∀ k ∈ x ++ l₁, k ∈ x ++ (l₁ ++ l₂) := fun k hk => by
    rw [← List.append_assoc]
    exact List.mem_append_left _ hk
  cases hlast : l₂.getLast? with
  | none =>
    obtain rfl := List.getLast?_eq_none_iff.1 hlast
    have hnone := chain_nil.1 h.waiting
    obtain ⟨hused, haccepted⟩ := h.push (d := c.fill r m) hr Chan.in_use_fill Chan.message_fill
    refine ⟨(c.fill r m).send_msgs, some r, ?_, by simp, ?_, h1, ⟨rfl, ?_⟩, h.nodup_push hr, hused, haccepted⟩
    · simp only [Chan.link, Chan.fill, hfirst, hnone]
    · intro k hk
      apply hother
      rintro rfl
      exact hfresh (hmem k hk)
    · change (c.fill r m).next r = none
      simp
  | some last =>
    have hlm : last ∈ l₂ := List.mem_of_getLast? hlast
    have hlr : last ≠ r := by
      rintro rfl
      exact hfresh (List.mem_append_right _ (List.mem_append_right _ hlm))
    have hkeep : ∀ k ∈ x ++ l₁, k ≠ r ∧ k ≠ last := by
      intro k hk
      constructor
      · rintro rfl
        exact hfresh (hmem k hk)
      · rintro rfl
        have := h.nodup
        rw [← List.append_assoc] at this
        exact (List.nodup_append.1 this).2.2 k hk k hlm rfl
    have hnext : ((c.fill r m).setNext last (some r)).next =
        Function.update (Function.update c.next last (some r)) r none := by
      rw [Chan.next_setNext, Chan.next_fill, Function.update_comm hlr.symm]
    have hlen : l₂.length ≤ MAX_SEND_RECORD_COUNT :=
      length_le_of_nodup (List.nodup_append.1 (List.nodup_append.1 h.nodup).2.1).2.1
    obtain ⟨hused, haccepted⟩ := h.push (d := (c.fill r m).setNext last (some r)) hr
      (by rw [Chan.in_use_setNext, Chan.in_use_fill]) (by rw [Chan.message_setNext, Chan.message_fill])
    obtain ⟨head, hhead⟩ : ∃ head, c.send_pending_list_p = some head := by
      rw [h.waiting.head_eq]
      exact Option.ne_none_iff_exists'.1 (by rintro hn; simp [List.head?_eq_none_iff.1 hn] at hlm)
    refine ⟨((c.fill r m).setNext last (some r)).send_msgs, c.send_pending_list_p, ?_, fun _ => rfl, ?_, ?_, ?_,
      h.nodup_push hr, hused, haccepted⟩
    · have hwalk : (c.fill r m).lastFrom MAX_SEND_RECORD_COUNT head = some last := by
        rw [Chan.lastFrom_eq (by rwa [hhead] at h2) hlen, hlast]
      simp only [Chan.link, Chan.fill, hfirst, hhead] at hwalk ⊢
      simp [hwalk, Chan.setNext]
    · intro k hk
      obtain ⟨hkr, hkl⟩ := hkeep k hk
      exact (Function.update_of_ne hkl _ _).trans (hother k hkr)
    · change Chain ((c.fill r m).setNext last (some r)).next p l₁
      rw [hnext]
      apply h.sent.congr
      intro k hk
      obtain ⟨hkr, hkl⟩ := hkeep k (List.mem_append_right _ hk)
      rw [Function.update_of_ne hkr, Function.update_of_ne hkl]
    · change Chain ((c.fill r m).setNext last (some r)).next c.send_pending_list_p (l₂ ++ [r])
      rw [hnext]
      have hwait : Chain c.next c.send_pending_list_p (l₂ ++ []) := by simpa using h.waiting
      have hr' : r ∉ l₂ ++ [] := by
        rw [List.append_nil]
        intro hm
        exact hfresh (List.mem_append_right _ (List.mem_append_right _ hm))
      simpa using Chain.insert (i := r) hwait hlast hr'

/-! ## The receiver -/

/-- The receiver has nothing of a message. -/
def Quiet (c : Chan) : Prop := c.part = [] ∧ (c.rx = .clear ∨ (c.rx = .idle ∧ c.recv_pending_head = none))

/-- The receiver at the list that it was told of: no list, a list it has not
looked at, at one of its records, with the rest of one, at the end of the list,
and done with it. -/
inductive Turn (c : Chan) : List Slot → Prop
  | empty : Quiet c → c.send_ind = false → c.recv_done = false → c.owed = false → c.received = c.done → Turn c []
  | posted {r l} : Quiet c → c.send_ind = true → c.recv_done = false → c.owed = false → c.received = c.done →
      Turn c (r :: l)
  | taking {a r b} : c.rx = .slot r → c.part = [] → c.send_ind = false → c.recv_done = false → c.owed = false →
      c.received = c.done ++ a.map c.message → Turn c (a ++ r :: b)
  | resuming {a r b msg} : (c.rx = .idle ∨ (c.rx = .head ∧ c.send_ind = false)) → c.recv_pending_head = some msg →
      msg.next = c.next r → (msg.type, c.part ++ msg.data) = c.message r → c.recv_done = false → c.owed = false →
      c.received = c.done ++ a.map c.message → Turn c (a ++ r :: b)
  | taken {l} : c.rx = .done → c.part = [] → c.send_ind = false → c.recv_done = false → c.owed = false →
      c.received = c.done ++ l.map c.message → l ≠ [] → Turn c l
  | finished {l} : Quiet c → c.send_ind = false → c.recv_done = !c.owed → c.received = c.done ++ l.map c.message →
      l ≠ [] → Turn c l

theorem Turn.nil (h : Turn c []) :
    Quiet c ∧ c.send_ind = false ∧ c.recv_done = false ∧ c.owed = false ∧ c.received = c.done := by
  generalize hl : ([] : List Slot) = l at h
  cases h with
  | empty hquiet hind hdone howed hrec => exact ⟨hquiet, hind, hdone, howed, hrec⟩
  | posted => cases hl
  | taking | resuming => simp at hl
  | taken _ _ _ _ _ _ hne | finished _ _ _ _ hne => exact absurd hl.symm hne

/-- A send leaves the records of the list as they are. -/
theorem Turn.sent {l : List Slot} {msgs : Slot → SendRecord} {q : Option Slot} (h : Turn c l)
    (hkeep : ∀ k ∈ l, msgs k = c.send_msgs k) : Turn (c.sent msgs q m) l := by
  have hmessage : ∀ k ∈ l, (c.sent msgs q m).message k = c.message k := by
    intro k hk
    simp only [Chan.message, hkeep k hk]
  have hmap : ∀ a : List Slot, (∀ k ∈ a, k ∈ l) → a.map (c.sent msgs q m).message = a.map c.message := by
    intro a ha
    exact List.map_congr_left fun k hk => hmessage k (ha k hk)
  cases h with
  | empty hquiet hind hdone howed hrec => exact .empty hquiet hind hdone howed hrec
  | posted hquiet hind hdone howed hrec => exact .posted hquiet hind hdone howed hrec
  | @taking a r b hrx hpart hind hdone howed hrec =>
    refine .taking hrx hpart hind hdone howed ?_
    rw [hmap a fun k hk => List.mem_append_left _ hk]
    exact hrec
  | @resuming a r b msg hrx hhead hnext hmsg hdone howed hrec =>
    have hr : r ∈ a ++ r :: b := List.mem_append_right _ List.mem_cons_self
    refine .resuming hrx hhead ?_ ?_ hdone howed ?_
    · rw [hnext]
      simp only [Chan.next, hkeep r hr]
    · rw [hmessage r hr]
      exact hmsg
    · rw [hmap a fun k hk => List.mem_append_left _ hk]
      exact hrec
  | taken hrx hpart hind hdone howed hrec hne =>
    refine .taken hrx hpart hind hdone howed ?_ hne
    rw [hmap l fun _ => id]
    exact hrec
  | finished hquiet hind hdone hrec hne =>
    refine .finished hquiet hind hdone ?_ hne
    rw [hmap l fun _ => id]
    exact hrec

/-- The rest of the list is behind each of its records. -/
theorem chain_behind {next : Slot → Option Slot} {a b : List Slot} (h : Chain next p (a ++ r :: b)) : next r = b.head? := by
  rw [List.append_cons] at h
  exact (h.behind (by simp)).head_eq

/-- The handler takes a part of a message, or all that is left of it. -/
theorem Turn.message {a b : List Slot} {msg : Msg} {processed : Nat} (hchain : Chain c.next p (a ++ r :: b))
    (hlink : msg.next = c.next r) (hmsg : (msg.type, c.part ++ msg.data) = c.message r) (hind : c.send_ind = false)
    (hdone : c.recv_done = false) (howed : c.owed = false) (hrec : c.received = c.done ++ a.map c.message) :
    Turn (rxMessage c msg processed) (a ++ r :: b) := by
  have hnext : msg.next = b.head? := hlink.trans (chain_behind hchain)
  by_cases hpart : processed < msg.data.length
  · simp only [rxMessage, if_pos hpart]
    refine .resuming (.inl rfl) rfl hlink ?_ hdone howed hrec
    dsimp only
    rw [List.append_assoc, List.take_append_drop]
    exact hmsg
  · simp only [rxMessage, if_neg hpart]
    have hrec' : c.received ++ [(msg.type, c.part ++ msg.data)] = c.done ++ (a ++ [r]).map c.message := by
      rw [hrec, hmsg, List.map_append, List.append_assoc]
      rfl
    cases b with
    | nil =>
      refine .taken ?_ rfl hind hdone howed hrec' (by simp)
      rw [hnext]
      rfl
    | cons q b =>
      have hsplit : a ++ r :: q :: b = (a ++ [r]) ++ q :: b := List.append_cons ..
      rw [hsplit]
      refine .taking ?_ rfl hind hdone howed hrec'
      rw [hnext]
      rfl

theorem Turn.enter {l : List Slot} (h : Turn c l) (hchain : Chain c.next c.send_msg_list_p l) (hs : rxEnter c = some d) :
    Turn d l := by
  simp only [rxEnter] at hs
  split at hs
  · rename_i hrun
    obtain ⟨hrx, -, hind⟩ := hrun
    cases hs
    cases h with
    | empty _ hoff => simp [hind] at hoff
    | @posted r l hquiet _ hdone howed hrec =>
      obtain ⟨hpart, hclear | ⟨-, hhead⟩⟩ := hquiet
      · simp [hrx] at hclear
      · have hslot : (if c.recv_pending_head.isSome then Rx.head else rxLoop c.send_msg_list_p) = .slot r := by
          rw [hhead, (chain_cons.1 hchain).1]
          rfl
        exact .taking (a := []) hslot hpart rfl hdone howed (by simpa using hrec)
    | taking hslot => simp [hrx] at hslot
    | resuming _ hhead hnext hmsg hdone howed hrec =>
      exact .resuming (.inr ⟨by simp [hhead], rfl⟩) hhead hnext hmsg hdone howed hrec
    | taken hend => simp [hrx] at hend
    | finished _ hoff => simp [hind] at hoff
  · cases hs

theorem Quiet.handle {processed : Nat} (h : Quiet c) : rxHandle processed c = none := by
  obtain ⟨-, hrx | ⟨hrx, -⟩⟩ := h
  · simp [rxHandle, hrx]
  · simp [rxHandle, hrx]

theorem Quiet.not_done (h : Quiet c) : c.rx ≠ .done := by
  obtain ⟨-, hrx | ⟨hrx, -⟩⟩ := h
  · simp [hrx]
  · simp [hrx]

theorem Turn.handle {l : List Slot} {processed : Nat} (h : Turn c l) (hchain : Chain c.next c.send_msg_list_p l)
    (hs : rxHandle processed c = some d) : Turn d l := by
  cases h with
  | empty hquiet | posted hquiet | finished hquiet => simp [hquiet.handle] at hs
  | @taking a r b hrx hpart hind hdone howed hrec =>
    simp only [rxHandle, hrx, Option.some.injEq] at hs
    subst hs
    exact Turn.message hchain rfl (by rw [hpart]; rfl) hind hdone howed hrec
  | @resuming a r b msg hrx hhead hnext hmsg hdone howed hrec =>
    rcases hrx with hrx | ⟨hrx, hind⟩
    · simp [rxHandle, hrx] at hs
    · simp only [rxHandle, hrx, hhead, Option.map_some, Option.some.injEq] at hs
      subst hs
      exact Turn.message hchain hnext hmsg hind hdone howed hrec
  | taken hrx => simp [rxHandle, hrx] at hs

/-- The receiver clears what it has kept of the list that it is done with. -/
theorem Quiet.clear (h : Quiet c) : Quiet { c with recv_pending_head := none, rx := .idle } :=
  ⟨h.1, .inr ⟨rfl, rfl⟩⟩

theorem Turn.ends {l : List Slot} {flow : Bool} (h : Turn c l) (hs : rxEnd flow c = some d) : Turn d l := by
  simp only [rxEnd] at hs
  split at hs
  · rename_i hrx
    cases h with
    | taken _ hpart hind hdone howed hrec hne =>
      split at hs
      · cases hs
        exact .finished ⟨hpart, .inl rfl⟩ hind (by simp [hdone]) hrec hne
      · cases hs
        exact .finished ⟨hpart, .inl rfl⟩ hind (by simp [howed]) hrec hne
    | empty hquiet | posted hquiet | finished hquiet => exact absurd hrx hquiet.not_done
    | taking h' => simp [hrx] at h'
    | resuming h' => simp [hrx] at h'
  · rename_i hrx
    cases hs
    cases h with
    | empty hquiet hind hdone howed hrec => exact .empty hquiet.clear hind hdone howed hrec
    | posted hquiet hind hdone howed hrec => exact .posted hquiet.clear hind hdone howed hrec
    | finished hquiet hind hdone hrec hne => exact .finished hquiet.clear hind hdone hrec hne
    | taken h' => simp [hrx] at h'
    | taking h' => simp [hrx] at h'
    | resuming h' => simp [hrx] at h'
  · cases hs

/-- The receiver is done when it owes it. -/
theorem Turn.rxDone {l : List Slot} (h : Turn c l) (howed : c.owed = true) : Turn (halIntersysRxDone c) l := by
  cases h with
  | finished hquiet hind _ hrec hne => exact .finished hquiet hind rfl hrec hne
  | empty _ _ _ h' => simp [howed] at h'
  | posted _ _ _ h' => simp [howed] at h'
  | taking _ _ _ _ h' => simp [howed] at h'
  | resuming _ _ _ _ _ h' => simp [howed] at h'
  | taken _ _ _ _ h' => simp [howed] at h'

/-- The line is set for a rest that is still there. -/
theorem Turn.startSet {l : List Slot} {n : Nat} (h : Turn c l) (hhead : c.recv_pending_head.isSome = true)
    (hrx : c.rx = .idle) : Turn { c with sets := n, send_ind := true } l := by
  have hquiet : ¬ Quiet c := by
    rintro ⟨-, h' | ⟨-, h'⟩⟩
    · simp [hrx] at h'
    · simp [h'] at hhead
  cases h with
  | resuming _ hsome hnext hmsg hdone howed hrec => exact .resuming (.inl hrx) hsome hnext hmsg hdone howed hrec
  | empty h' => exact absurd h' hquiet
  | posted h' => exact absurd h' hquiet
  | finished h' => exact absurd h' hquiet
  | taking h' => simp [hrx] at h'
  | taken h' => simp [hrx] at h'

/-! ## The places of the transmit-done interrupt -/

/-- Both lines are off, and the receiver has nothing to do. -/
structure Calm (c : Chan) : Prop where
  quiet : Quiet c
  send_ind : c.send_ind = false
  recv_done : c.recv_done = false
  owed : c.owed = false

/-- The record that is done with and not marked free. -/
def held : Option Pc → List Slot
  | some (.free r) => [r]
  | _ => []

/-- Where the rest of the list of the peer begins. -/
def rest (c : Chan) : Option Pc → Option Slot
  | some (.handler r) => some r
  | some (.free r) | some (.next r) => c.next r
  | some .test | some .take | some .drop | some .clear | some .busy => none
  | _ => c.send_msg_list_p

/-- What else is known of the channel while the interrupt of its id is at a place. -/
def At (c : Chan) (l₁ l₂ : List Slot) : Option Pc → Prop
  | some (.handler _) | some (.free _) | some (.next _) | some .test =>
    c.chan_busy = true ∧ Calm c ∧ c.send_msg_list_p ≠ none ∧ c.received = c.done ++ l₁.map c.message
  | some .take => c.chan_busy = true ∧ Calm c ∧ c.send_msg_list_p ≠ none ∧ c.received = c.done ∧ l₂ ≠ []
  | some .drop =>
    c.chan_busy = true ∧ Calm c ∧ c.send_msg_list_p = c.send_pending_list_p ∧ c.received = c.done ∧ l₂ ≠ []
  | some .ind => c.chan_busy = true ∧ Calm c ∧ c.received = c.done ∧ l₁ ≠ []
  | some .clear => c.chan_busy = true ∧ Calm c ∧ c.received = c.done ∧ l₂ = []
  | some .busy => c.chan_busy = true ∧ Calm c ∧ c.received = c.done ∧ l₂ = [] ∧ c.send_msg_list_p = none
  | some .scan | some .unlock | none => Turn c l₁ ∧ (l₁ = [] → l₂ = []) ∧ (c.chan_busy = true ↔ l₁ ≠ [])

/-- The invariant of one channel. -/
def Ok (c : Chan) (pc : Option Pc) : Prop := ∃ l₁ l₂, Lists c (held pc) (rest c pc) l₁ l₂ ∧ At c l₁ l₂ pc

/-- The place of the interrupt, if it runs for the id. -/
def Sys.place (s : Sys) (id : Id) : Option Pc := s.isr.bind fun (id', pc) => if id' = id then some pc else none

/-- The steps of the receiver leave the sender alone, and what they do to a list
that they were told of, or when there is nothing to do, is known. -/
structure Receives (c d : Chan) : Prop where
  send_msgs : d.send_msgs = c.send_msgs
  list : d.send_msg_list_p = c.send_msg_list_p
  pending : d.send_pending_list_p = c.send_pending_list_p
  busy : d.chan_busy = c.chan_busy
  accepted : d.accepted = c.accepted
  done : d.done = c.done
  turn : ∀ l, Chain c.next c.send_msg_list_p l → Turn c l → Turn d l
  calm : Calm c → Calm d ∧ d.received = c.received

theorem Ok.receives {pc : Option Pc} (h : Ok c pc) (hc : Receives c d) : Ok d pc := by
  obtain ⟨l₁, l₂, hlists, hat⟩ := h
  have hnext : d.next = c.next := by
    funext q
    simp only [Chan.next, hc.send_msgs]
  have hmessage : d.message = c.message := by
    funext q
    simp only [Chan.message, hc.send_msgs]
  have huse : d.in_use = c.in_use := by
    funext q
    simp only [Chan.in_use, hc.send_msgs]
  have hrest : rest d pc = rest c pc := by
    unfold rest
    rw [hnext, hc.list]
  refine ⟨l₁, l₂, ⟨?_, ?_, hlists.nodup, ?_, ?_⟩, ?_⟩
  · rw [hnext, hrest]
    exact hlists.sent
  · rw [hnext, hc.pending]
    exact hlists.waiting
  · rw [huse]
    exact hlists.used
  · rw [hc.accepted, hc.done, hmessage]
    exact hlists.accepted
  · -- the receiver has a turn only where the interrupt does not look at the list
    cases pc with
    | none => exact ⟨hc.turn l₁ hlists.sent hat.1, hat.2.1, by rw [hc.busy]; exact hat.2.2⟩
    | some pc =>
      cases pc with
      | scan | unlock => exact ⟨hc.turn l₁ hlists.sent hat.1, hat.2.1, by rw [hc.busy]; exact hat.2.2⟩
      | handler _ | free _ | next _ | test | take | drop | ind | clear | busy =>
        obtain ⟨hcalm, hrec⟩ := hc.calm hat.2.1
        simp only [At, hc.busy, hc.list, hc.pending, hrec, hc.done, hmessage] at hat ⊢
        exact ⟨hat.1, hcalm, hat.2.2⟩

theorem receives_enter (h : rxEnter c = some d) : Receives c d := by
  have hturn : ∀ l, Chain c.next c.send_msg_list_p l → Turn c l → Turn d l := fun l hchain ht => ht.enter hchain h
  simp only [rxEnter] at h
  split at h
  · rename_i hrun
    cases h
    refine ⟨rfl, rfl, rfl, rfl, rfl, rfl, hturn, ?_⟩
    intro hcalm
    rw [hcalm.send_ind] at hrun
    exact absurd hrun.2.2 (by simp)
  · cases h

theorem rxMessage_sender (c : Chan) (msg : Msg) (processed : Nat) :
    ∃ head rec part rx, rxMessage c msg processed =
      { c with recv_pending_head := head, received := rec, part := part, rx := rx } := by
  unfold rxMessage
  split
  · exact ⟨_, _, _, _, rfl⟩
  · exact ⟨_, _, _, _, rfl⟩

theorem receives_handle {processed : Nat} (h : rxHandle processed c = some d) : Receives c d := by
  have hturn : ∀ l, Chain c.next c.send_msg_list_p l → Turn c l → Turn d l := fun l hchain ht => ht.handle hchain h
  have hcalm : Calm c → Calm d ∧ d.received = c.received := by
    intro hcalm
    rw [hcalm.quiet.handle] at h
    cases h
  have hmsg : ∃ msg, rxMessage c msg processed = d := by
    simp only [rxHandle] at h
    split at h
    · obtain ⟨msg, -, hmsg⟩ := Option.map_eq_some_iff.1 h
      exact ⟨msg, hmsg⟩
    · exact ⟨_, Option.some.inj h⟩
    · cases h
  obtain ⟨msg, rfl⟩ := hmsg
  obtain ⟨head, rec, part, rx, heq⟩ := rxMessage_sender c msg processed
  rw [heq] at hturn hcalm ⊢
  exact ⟨rfl, rfl, rfl, rfl, rfl, rfl, hturn, hcalm⟩

theorem receives_end {flow : Bool} (h : rxEnd flow c = some d) : Receives c d := by
  have hturn : ∀ l, Chain c.next c.send_msg_list_p l → Turn c l → Turn d l := fun l _ ht => ht.ends h
  simp only [rxEnd] at h
  split at h
  · rename_i hrx
    have hcalm (hcalm : Calm c) : Calm d ∧ d.received = c.received := absurd hrx hcalm.quiet.not_done
    split at h
    · cases h
      exact ⟨rfl, rfl, rfl, rfl, rfl, rfl, hturn, hcalm⟩
    · cases h
      exact ⟨rfl, rfl, rfl, rfl, rfl, rfl, hturn, hcalm⟩
  · cases h
    refine ⟨rfl, rfl, rfl, rfl, rfl, rfl, hturn, ?_⟩
    intro hcalm
    exact ⟨⟨hcalm.quiet.clear, hcalm.send_ind, hcalm.recv_done, hcalm.owed⟩, rfl⟩
  · cases h

theorem receives_rxDone (h : c.owed = true) : Receives c (halIntersysRxDone c) := by
  refine ⟨rfl, rfl, rfl, rfl, rfl, rfl, fun l _ ht => ht.rxDone h, ?_⟩
  intro hcalm
  rw [hcalm.owed] at h
  cases h

/-- The calls of the receiver that only count, or enable the interrupt. -/
theorem receives_calls (c : Chan) (enabled : Bool) (checks sets : Nat) :
    Receives c { c with recv_enabled := enabled, checks := checks, sets := sets } := by
  refine ⟨rfl, rfl, rfl, rfl, rfl, rfl, ?_, ?_⟩
  · intro l _ ht
    cases ht with
    | empty hquiet hind hdone howed hrec => exact .empty hquiet hind hdone howed hrec
    | posted hquiet hind hdone howed hrec => exact .posted hquiet hind hdone howed hrec
    | taking hrx hpart hind hdone howed hrec => exact .taking hrx hpart hind hdone howed hrec
    | resuming hrx hhead hnext hmsg hdone howed hrec => exact .resuming hrx hhead hnext hmsg hdone howed hrec
    | taken hrx hpart hind hdone howed hrec hne => exact .taken hrx hpart hind hdone howed hrec hne
    | finished hquiet hind hdone hrec hne => exact .finished hquiet hind hdone hrec hne
  · intro hcalm
    exact ⟨⟨hcalm.quiet, hcalm.send_ind, hcalm.recv_done, hcalm.owed⟩, rfl⟩

theorem receives_check (h : startCheck c = some d) : Receives c d := by
  simp only [startCheck] at h
  split at h
  · cases h
    exact receives_calls c c.recv_enabled _ _
  · cases h

theorem receives_startSet (h : startSet c = some d) (hhead : c.recv_pending_head.isSome = true) (hrx : c.rx = .idle) :
    Receives c d := by
  simp only [startSet] at h
  split at h
  · cases h
    refine ⟨rfl, rfl, rfl, rfl, rfl, rfl, fun l _ ht => ht.startSet hhead hrx, ?_⟩
    intro hcalm
    obtain ⟨-, h' | ⟨-, h'⟩⟩ := hcalm.quiet
    · simp [hrx] at h'
    · simp [h'] at hhead
  · cases h

/-! ## A send -/

/-- The places where a send of the id finds a list that it can use. -/
def Open : Option Pc → Prop
  | some (.next _) | some .clear | some .busy => False
  | _ => True

theorem chain_none {next : Slot → Option Slot} {l : List Slot} (h : Chain next none l) : l = [] :=
  h.unique (chain_nil.2 rfl)

/-- Where the peer has no list and the interrupt is not at one, nothing waits. -/
theorem Ok.list_none {pc : Option Pc} (h : Ok c pc) (hopen : Open pc) (hlist : c.send_msg_list_p = none) :
    (pc = none ∨ pc = some .scan ∨ pc = some .unlock) ∧ Lists c [] none [] [] ∧ Turn c [] := by
  obtain ⟨l₁, l₂, hlists, hat⟩ := h
  have idle (hrest : rest c pc = none) (hheld : held pc = []) (hturn : Turn c l₁) (hl : l₁ = [] → l₂ = []) :
      Lists c [] none [] [] ∧ Turn c [] := by
    rw [hrest, hheld] at hlists
    obtain rfl := chain_none hlists.sent
    obtain rfl := hl rfl
    exact ⟨hlists, hturn⟩
  cases pc with
  | none => exact ⟨.inl rfl, idle hlist rfl hat.1 hat.2.1⟩
  | some pc =>
    cases pc with
    | scan => exact ⟨.inr (.inl rfl), idle hlist rfl hat.1 hat.2.1⟩
    | unlock => exact ⟨.inr (.inr rfl), idle hlist rfl hat.1 hat.2.1⟩
    | handler _ | free _ | test => exact absurd hlist hat.2.2.1
    | take => exact absurd hlist hat.2.2.1
    | drop =>
      have hwaiting := hlists.waiting
      rw [← hat.2.2.1, hlist] at hwaiting
      exact absurd (chain_none hwaiting) hat.2.2.2.2
    | ind =>
      have hsent : Chain c.next c.send_msg_list_p l₁ := hlists.sent
      rw [hlist] at hsent
      exact absurd (chain_none hsent) hat.2.2.2
    | next _ | clear | busy => exact hopen.elim

/-- A record that goes to the end of the waiting list. -/
theorem Ok.send_waiting {pc : Option Pc} (h : Ok c pc) (hopen : Open pc) (hr : c.in_use r = false)
    (hlist : c.send_msg_list_p ≠ none) :
    ∃ msgs q, (c.fill r m).link r = some { c with send_msgs := msgs, send_pending_list_p := q } ∧
      Ok (c.sent msgs q m) pc := by
  obtain ⟨l₁, l₂, hlists, hat⟩ := h
  obtain ⟨msgs, q, hlink, hq, hkeep, hlists'⟩ := hlists.link (m := m) hr hlist
  have hmap : l₁.map (c.sent msgs q m).message = l₁.map c.message := by
    apply List.map_congr_left
    intro k hk
    simp only [Chan.message, hkeep k (List.mem_append_right _ hk)]
  have hrest : rest (c.sent msgs q m) pc = rest c pc := by
    cases pc with
    | none => rfl
    | some pc =>
      cases pc with
      | free r' =>
        have := hkeep r' (List.mem_append_left _ List.mem_cons_self)
        simp only [rest, Chan.next, this]
      | next _ => exact hopen.elim
      | handler _ | test | take | drop | ind | clear | busy | scan | unlock => rfl
  refine ⟨msgs, q, hlink, l₁, l₂ ++ [r], by rwa [hrest], ?_⟩
  have idle (hrest : rest c pc = c.send_msg_list_p) (hturn : Turn c l₁) :
      Turn (c.sent msgs q m) l₁ ∧ (l₁ = [] → l₂ ++ [r] = []) ∧ ((c.sent msgs q m).chan_busy = true ↔ l₁ ≠ []) := by
    have hne : l₁ ≠ [] := by
      rintro rfl
      rw [hrest] at hlists
      exact hlist (chain_nil.1 hlists.sent)
    exact ⟨hturn.sent fun k hk => hkeep k (List.mem_append_right _ hk), fun h => absurd h hne, by simp [hne]⟩
  cases pc with
  | none => exact idle rfl hat.1
  | some pc =>
    cases pc with
    | scan | unlock => exact idle rfl hat.1
    | handler _ | free _ | test =>
      obtain ⟨-, hcalm, -, hrec⟩ := hat
      refine ⟨rfl, ⟨hcalm.quiet, hcalm.send_ind, hcalm.recv_done, hcalm.owed⟩, hlist, ?_⟩
      rw [hmap]
      exact hrec
    | take =>
      obtain ⟨-, hcalm, -, hrec, -⟩ := hat
      exact ⟨rfl, ⟨hcalm.quiet, hcalm.send_ind, hcalm.recv_done, hcalm.owed⟩, hlist, hrec, by simp⟩
    | drop =>
      obtain ⟨-, hcalm, halias, hrec, hne⟩ := hat
      refine ⟨rfl, ⟨hcalm.quiet, hcalm.send_ind, hcalm.recv_done, hcalm.owed⟩, ?_, hrec, by simp⟩
      exact halias.trans (hq hne).symm
    | ind =>
      obtain ⟨-, hcalm, hrec, hne⟩ := hat
      exact ⟨rfl, ⟨hcalm.quiet, hcalm.send_ind, hcalm.recv_done, hcalm.owed⟩, hrec, hne⟩
    | next _ | clear | busy => exact hopen.elim

/-- A record that the peer is told of at once. -/
theorem Ok.send_first {pc : Option Pc} (h : Ok c pc) (hopen : Open pc) (hr : c.in_use r = false)
    (hlist : c.send_msg_list_p = none) :
    ∃ c₁, (c.fill r m).link r = some c₁ ∧ Ok { c₁ with accepted := c.accepted ++ [m], chan_busy := true } pc := by
  obtain ⟨hpc, hlists, hturn⟩ := h.list_none hopen hlist
  have hlink : (c.fill r m).link r = some { c.fill r m with send_msg_list_p := some r, send_ind := true } := by
    simp only [Chan.link, Chan.fill, hlist]
  refine ⟨_, hlink, [r], [], ?_, ?_⟩
  · obtain ⟨hused, haccepted⟩ := hlists.push (d := c.fill r m) hr Chan.in_use_fill Chan.message_fill
    have hwaiting : c.send_pending_list_p = none := chain_nil.1 hlists.waiting
    have hsent : Chain (c.fill r m).next (some r) [r] := ⟨rfl, by simp⟩
    rcases hpc with rfl | rfl | rfl
    all_goals exact ⟨hsent, hwaiting, by simp [held], hused, haccepted⟩
  · obtain ⟨hquiet, -, hdone, howed, hrec⟩ := hturn.nil
    rcases hpc with rfl | rfl | rfl
    all_goals exact ⟨.posted hquiet rfl hdone howed hrec, by simp, by simp⟩

/-! ## The transmit-done interrupt -/

/-- The interrupt comes when the receiver is done with a list. -/
theorem Ok.enter (h : Ok c none) (hdone : c.recv_done = true) :
    Ok { c with recv_done := false } (some (loop c.send_msg_list_p)) := by
  obtain ⟨l₁, l₂, hlists, hturn, -, hbusy⟩ := h
  cases hturn with
  | @finished l hquiet hind howed hrec hne =>
    obtain ⟨r, l, rfl⟩ := List.exists_cons_of_ne_nil hne
    have hsent : Chain c.next c.send_msg_list_p (r :: l) := hlists.sent
    have hfirst := (chain_cons.1 hsent).1
    rw [hfirst]
    refine ⟨r :: l, l₂, ⟨?_, hlists.waiting, hlists.nodup, hlists.used, hlists.accepted⟩, hbusy.2 hne,
      ⟨hquiet, hind, rfl, ?_⟩, ?_, hrec⟩
    · rwa [hfirst] at hsent
    · rw [hdone] at howed
      simpa using howed.symm
    · exact Option.some_ne_none r
  | empty _ _ h' => simp [hdone] at h'
  | posted _ _ h' => simp [hdone] at h'
  | taking _ _ _ h' => simp [hdone] at h'
  | resuming _ _ _ _ h' => simp [hdone] at h'
  | taken _ _ _ h' => simp [hdone] at h'

theorem Ok.handler (h : Ok c (some (.handler r))) :
    Ok { c with done := c.done ++ [c.message r] } (some (.free r)) := by
  obtain ⟨l₁, l₂, hlists, hbusy, hcalm, hlist, hrec⟩ := h
  cases l₁ with
  | nil => cases hlists.sent
  | cons q l₁ =>
    obtain ⟨hq, hsent⟩ := chain_cons.1 hlists.sent
    cases hq
    refine ⟨l₁, l₂, ⟨hsent, hlists.waiting, hlists.nodup, hlists.used, ?_⟩, hbusy,
      ⟨hcalm.quiet, hcalm.send_ind, hcalm.recv_done, hcalm.owed⟩, hlist, ?_⟩
    · dsimp only
      rw [hlists.accepted, List.append_assoc]
      rfl
    · dsimp only
      rw [hrec, List.append_assoc]
      rfl

theorem Ok.free (h : Ok c (some (.free r))) : Ok (c.release r) (some (.next r)) := by
  obtain ⟨l₁, l₂, hlists, hbusy, hcalm, hlist, hrec⟩ := h
  refine ⟨l₁, l₂, ⟨?_, ?_, ?_, ?_, ?_⟩, hbusy, ⟨hcalm.quiet, hcalm.send_ind, hcalm.recv_done, hcalm.owed⟩, hlist, ?_⟩
  · rw [Chan.next_release]
    change Chain c.next ((c.release r).next r) l₁
    rw [Chan.next_release]
    exact hlists.sent
  · rw [Chan.next_release]
    exact hlists.waiting
  · exact (List.nodup_cons.1 hlists.nodup).2
  · intro q
    have hused := hlists.used q
    rw [Chan.in_use_release]
    by_cases hq : q = r
    · subst hq
      have hnot : q ∉ l₁ ++ l₂ := (List.nodup_cons.1 hlists.nodup).1
      simpa [held] using hnot
    · rw [Function.update_of_ne hq, hused]
      simp [held, hq]
  · rw [Chan.message_release]
    exact hlists.accepted
  · rw [Chan.message_release]
    exact hrec

theorem Ok.next (h : Ok c (some (.next r))) : Ok c (some (loop (c.next r))) := by
  obtain ⟨l₁, l₂, hlists, hat⟩ := h
  have hsent : Chain c.next (c.next r) l₁ := hlists.sent
  cases hnext : c.next r with
  | none =>
    rw [hnext] at hsent
    exact ⟨l₁, l₂, ⟨hsent, hlists.waiting, hlists.nodup, hlists.used, hlists.accepted⟩, hat⟩
  | some q =>
    rw [hnext] at hsent
    exact ⟨l₁, l₂, ⟨hsent, hlists.waiting, hlists.nodup, hlists.used, hlists.accepted⟩, hat⟩

theorem Ok.test (h : Ok c (some .test)) : Ok c (some (if c.send_pending_list_p.isSome then .take else .clear)) := by
  obtain ⟨l₁, l₂, hlists, hbusy, hcalm, hlist, hrec⟩ := h
  obtain rfl := chain_none hlists.sent
  rw [List.map_nil, List.append_nil] at hrec
  cases hpending : c.send_pending_list_p with
  | none =>
    have hwaiting := hlists.waiting
    rw [hpending] at hwaiting
    exact ⟨[], l₂, hlists, hbusy, hcalm, hrec, chain_none hwaiting⟩
  | some q =>
    refine ⟨[], l₂, hlists, hbusy, hcalm, hlist, hrec, ?_⟩
    rintro rfl
    have := chain_nil.1 hlists.waiting
    simp [hpending] at this

theorem Ok.take (h : Ok c (some .take)) : Ok { c with send_msg_list_p := c.send_pending_list_p } (some .drop) := by
  obtain ⟨l₁, l₂, hlists, hbusy, hcalm, -, hrec, hne⟩ := h
  exact ⟨l₁, l₂, ⟨hlists.sent, hlists.waiting, hlists.nodup, hlists.used, hlists.accepted⟩, hbusy,
    ⟨hcalm.quiet, hcalm.send_ind, hcalm.recv_done, hcalm.owed⟩, rfl, hrec, hne⟩

theorem Ok.drop (h : Ok c (some .drop)) : Ok { c with send_pending_list_p := none } (some .ind) := by
  obtain ⟨l₁, l₂, hlists, hbusy, hcalm, halias, hrec, hne⟩ := h
  obtain rfl := chain_none hlists.sent
  have hwaiting := hlists.waiting
  rw [← halias] at hwaiting
  refine ⟨l₂, [], ⟨hwaiting, rfl, ?_, ?_, ?_⟩, hbusy, ⟨hcalm.quiet, hcalm.send_ind, hcalm.recv_done, hcalm.owed⟩, hrec, hne⟩
  · rw [List.append_nil]
    exact hlists.nodup
  · rw [List.append_nil]
    exact hlists.used
  · rw [List.append_nil]
    exact hlists.accepted

theorem Ok.ind (h : Ok c (some .ind)) : Ok { c with send_ind := true } none := by
  obtain ⟨l₁, l₂, hlists, hbusy, hcalm, hrec, hne⟩ := h
  obtain ⟨r, l, rfl⟩ := List.exists_cons_of_ne_nil hne
  exact ⟨r :: l, l₂, ⟨hlists.sent, hlists.waiting, hlists.nodup, hlists.used, hlists.accepted⟩,
    .posted hcalm.quiet rfl hcalm.recv_done hcalm.owed hrec, fun h => absurd h hne, by simp [hbusy]⟩

theorem Ok.clear (h : Ok c (some .clear)) : Ok { c with send_msg_list_p := none } (some .busy) := by
  obtain ⟨l₁, l₂, hlists, hbusy, hcalm, hrec, hnil⟩ := h
  exact ⟨l₁, l₂, ⟨hlists.sent, hlists.waiting, hlists.nodup, hlists.used, hlists.accepted⟩, hbusy,
    ⟨hcalm.quiet, hcalm.send_ind, hcalm.recv_done, hcalm.owed⟩, hrec, hnil, rfl⟩

theorem Ok.busy (h : Ok c (some .busy)) : Ok { c with chan_busy := false } (some .scan) := by
  obtain ⟨l₁, l₂, hlists, -, hcalm, hrec, rfl, hlist⟩ := h
  obtain rfl := chain_none hlists.sent
  refine ⟨[], [], ⟨hlist, hlists.waiting, hlists.nodup, hlists.used, hlists.accepted⟩,
    .empty hcalm.quiet hcalm.send_ind hcalm.recv_done hcalm.owed hrec, id, by simp⟩

/-- At the end of the interrupt the channel is as when it does not run. -/
theorem Ok.scan (h : Ok c (some .scan)) : Ok c none ∧ Ok c (some .unlock) := ⟨h, h⟩

theorem Ok.unlock (h : Ok c (some .unlock)) : Ok c none := h

/-! ## Both ids and the wake lock -/

variable {s t : Sys} {id : Id}

/-- Some id is busy. -/
def AnyBusy (s : Sys) : Prop := ∃ id, (s.chan id).chan_busy = true

/-- The wake lock is held while some id is busy, except where the interrupt is
about to find that none is. -/
def Lock (s : Sys) : Prop :=
  s.wake = s.busy_now ∧
    match s.isr with
    | some (_, .scan) => s.busy_now = true
    | some (_, .unlock) => s.busy_now = true ∧ ¬ AnyBusy s
    | _ => s.busy_now = true ↔ AnyBusy s

/-- The invariant of a run. -/
structure Inv (s : Sys) : Prop where
  chans : ∀ id, Ok (s.chan id) (s.place id)
  lock : Lock s

theorem anyBusy_iff : AnyBusy s ↔ (s.chan .id0).chan_busy = true ∨ (s.chan .id1).chan_busy = true := by
  constructor
  · rintro ⟨id, h⟩
    cases id with
    | id0 => exact .inl h
    | id1 => exact .inr h
  · rintro (h | h)
    · exact ⟨.id0, h⟩
    · exact ⟨.id1, h⟩

theorem anyBusy_move (hchan : t.chan = Function.update s.chan id c) (h : c.chan_busy = (s.chan id).chan_busy) :
    AnyBusy t ↔ AnyBusy s := by
  have hbusy : ∀ id', (t.chan id').chan_busy = (s.chan id').chan_busy := by
    intro id'
    rw [hchan]
    by_cases hid : id' = id
    · subst hid
      rw [Function.update_self, h]
    · rw [Function.update_of_ne hid]
  unfold AnyBusy
  simp only [hbusy]

theorem place_self {a : Option Pc} (h : s.isr = a.map (Prod.mk id)) : s.place id = a := by
  rw [Sys.place, h]
  cases a with
  | none => rfl
  | some a => simp

theorem place_other {a : Option Pc} {id' : Id} (h : s.isr = a.map (Prod.mk id)) (hid : id' ≠ id) : s.place id' = none := by
  rw [Sys.place, h]
  cases a with
  | none => rfl
  | some a => simp [hid.symm]

/-- The channel of one id changes, and the interrupt of that id moves on. -/
theorem chans_move {a b : Option Pc} (h : ∀ id, Ok (s.chan id) (s.place id)) (hisr : s.isr = a.map (Prod.mk id))
    (hisr' : t.isr = b.map (Prod.mk id)) (hchan : t.chan = Function.update s.chan id c) (hc : Ok c b) :
    ∀ id', Ok (t.chan id') (t.place id') := by
  intro id'
  by_cases hid : id' = id
  · subst hid
    rwa [hchan, Function.update_self, place_self hisr']
  · rw [hchan, Function.update_of_ne hid, place_other hisr' hid, ← place_other hisr hid]
    exact h id'

/-- The channel of one id changes, and no interrupt moves on. -/
theorem chans_set (h : ∀ id, Ok (s.chan id) (s.place id)) (hisr : t.isr = s.isr)
    (hchan : t.chan = Function.update s.chan id c) (hc : Ok c (s.place id)) : ∀ id', Ok (t.chan id') (t.place id') := by
  have hplace : t.place = s.place := by
    funext id'
    rw [Sys.place, Sys.place, hisr]
  intro id'
  rw [hplace]
  by_cases hid : id' = id
  · subst hid
    rwa [hchan, Function.update_self]
  · rw [hchan, Function.update_of_ne hid]
    exact h id'

/-- A step of the receiver. -/
theorem Inv.receives (h : Inv s) (hc : Receives (s.chan id) c) : Inv (s.set id c) := by
  refine ⟨chans_set h.chans rfl rfl ((h.chans id).receives hc), h.lock.1, ?_⟩
  have hlock := h.lock.2
  simp only [anyBusy_move (s := s) (t := s.set id c) rfl hc.busy]
  exact hlock

/-! ## Sends -/

theorem Apart.open_place (h : Apart id s) : Open (s.place id) := by
  unfold Apart at h
  rcases hisr : s.isr with _ | ⟨id', pc⟩
  · rw [Sys.place, hisr]
    trivial
  · rw [hisr] at h
    rw [Sys.place, hisr]
    by_cases hid : id' = id
    · subst hid
      cases pc with
      | next _ | clear | busy => exact absurd rfl h
      | unlock => exact h.elim
      | _ => simp [Open]
    · simp [hid, Open]

/-- The channel of an id that is marked as busy. -/
theorem markBusy_spec (id : Id) (s : Sys) :
    (markBusy id s).chan = Function.update s.chan id { s.chan id with chan_busy := true } ∧
      (markBusy id s).isr = s.isr := by
  unfold markBusy
  split
  · rename_i hbusy
    refine ⟨?_, rfl⟩
    rw [← hbusy, Function.update_eq_self]
  · dsimp only
    split
    · exact ⟨rfl, rfl⟩
    · exact ⟨rfl, rfl⟩

theorem lock_of_busy (hwake : s.wake = true) (hnow : s.busy_now = true) (hany : AnyBusy s)
    (hunlock : ∀ id', s.isr ≠ some (id', .unlock)) : Lock s := by
  refine ⟨by rw [hwake, hnow], ?_⟩
  split
  · exact hnow
  · rename_i hisr
    exact absurd hisr (hunlock _)
  · exact iff_of_true hnow hany

theorem Lock.markBusy (h : Lock s) (hunlock : ∀ id', s.isr ≠ some (id', .unlock)) : Lock (markBusy id s) := by
  have hany : ∀ b w, AnyBusy { s.set id { s.chan id with chan_busy := true } with busy_now := b, wake := w } :=
    fun _ _ => ⟨id, by simp [Sys.set]⟩
  unfold Intersys.markBusy
  split
  · exact h
  · dsimp only
    split
    · rename_i hnow
      have hnow : s.busy_now = true := hnow
      exact lock_of_busy (h.1.trans hnow) hnow (hany _ _) hunlock
    · exact lock_of_busy rfl rfl (hany _ _) hunlock

theorem Inv.send {opened : Id → MsgType → Bool} {ret : Int} (h : Inv s) (hapart : Apart id s)
    (hs : halIntersysSend opened id m s = some (ret, t)) : Inv t := by
  simp only [halIntersysSend] at hs
  split at hs
  · cases hs
    exact h
  · split at hs
    · cases hs
      exact h
    · rename_i r hfree
      obtain ⟨c₁, hlink, heq⟩ := Option.map_eq_some_iff.1 hs
      cases heq
      have hr := Chan.freeRecord_some hfree
      have hok : Ok { c₁ with accepted := (s.chan id).accepted ++ [m], chan_busy := true } (s.place id) := by
        by_cases hlist : (s.chan id).send_msg_list_p = none
        · obtain ⟨c₂, hlink₂, hok⟩ := (h.chans id).send_first (m := m) hapart.open_place hr hlist
          rw [hlink] at hlink₂
          cases hlink₂
          exact hok
        · obtain ⟨msgs, q, hlink₂, hok⟩ := (h.chans id).send_waiting (m := m) hapart.open_place hr hlist
          rw [hlink] at hlink₂
          cases hlink₂
          exact hok
      have hbusy : c₁.chan_busy = (s.chan id).chan_busy := Chan.link_busy hlink
      have hunlock : ∀ id', s.isr ≠ some (id', .unlock) := by
        intro id' hisr
        simp only [Apart, hisr] at hapart
      obtain ⟨hchan, hisr⟩ := markBusy_spec id (s.set id { c₁ with accepted := (s.chan id).accepted ++ [m] })
      refine ⟨chans_set h.chans hisr ?_ hok, ?_⟩
      · rw [hchan]
        simp [Sys.set]
      · apply Lock.markBusy
        · refine ⟨h.lock.1, ?_⟩
          have hlock := h.lock.2
          have hany := anyBusy_move (s := s) (t := s.set id { c₁ with accepted := (s.chan id).accepted ++ [m] }) rfl hbusy
          simp only [hany]
          exact hlock
        · exact hunlock

/-! ## The steps of the interrupt -/

/-- The places where the lock follows the ids that are busy. -/
def Ordinary : Option Pc → Prop
  | some .scan | some .unlock => False
  | _ => True

theorem lock_iff {a : Option Pc} (hisr : s.isr = a.map (Prod.mk id)) (hpc : Ordinary a) :
    Lock s ↔ s.wake = s.busy_now ∧ (s.busy_now = true ↔ AnyBusy s) := by
  unfold Lock
  rw [hisr]
  cases a with
  | none => rfl
  | some a =>
    cases a with
    | scan | unlock => exact hpc.elim
    | _ => rfl

/-- A step from one place to another that leaves the lock and the busy ids alone. -/
theorem Inv.move {a b : Option Pc} (h : Inv s) (hc : Ok c b) (hisr : s.isr = a.map (Prod.mk id))
    (hisr' : t.isr = b.map (Prod.mk id)) (hchan : t.chan = Function.update s.chan id c)
    (hbusy : c.chan_busy = (s.chan id).chan_busy) (hwake : t.wake = s.wake) (hnow : t.busy_now = s.busy_now)
    (hpc : Ordinary a) (hpc' : Ordinary b) : Inv t := by
  refine ⟨chans_move h.chans hisr hisr' hchan hc, ?_⟩
  obtain ⟨hlock, hany⟩ := (lock_iff hisr hpc).1 h.lock
  rw [lock_iff hisr' hpc', hwake, hnow, anyBusy_move hchan hbusy]
  exact ⟨hlock, hany⟩

theorem ordinary_loop (p : Option Slot) : Ordinary (some (loop p)) := by
  cases p with
  | none => trivial
  | some r => trivial

theorem Inv.enter (h : Inv s) (hs : txEnter id s = some t) : Inv t := by
  simp only [txEnter] at hs
  split at hs
  · rename_i hrun
    obtain ⟨hisr, hdone⟩ := hrun
    cases hs
    have hok := h.chans id
    rw [place_self (a := none) hisr] at hok
    exact h.move (a := none) (hok.enter hdone) hisr rfl rfl rfl rfl rfl trivial (ordinary_loop _)
  · cases hs

theorem Inv.tx {pc : Pc} (h : Inv s) (hisr : s.isr = some (id, pc)) : Inv (txStep id pc s) := by
  have hisr' : s.isr = (some pc).map (Prod.mk id) := hisr
  have hok := h.chans id
  rw [place_self hisr'] at hok
  have hself : s.chan = Function.update s.chan id (s.chan id) := (Function.update_eq_self id s.chan).symm
  cases pc with
  | handler r => exact h.move hok.handler hisr' rfl rfl rfl rfl rfl trivial trivial
  | free r => exact h.move hok.free hisr' rfl rfl rfl rfl rfl trivial trivial
  | next r => exact h.move hok.next hisr' rfl hself rfl rfl rfl trivial (ordinary_loop _)
  | test =>
    refine h.move hok.test hisr' rfl hself rfl rfl rfl trivial ?_
    cases (s.chan id).send_pending_list_p with
    | none => trivial
    | some q => trivial
  | take => exact h.move hok.take hisr' rfl rfl rfl rfl rfl trivial trivial
  | drop => exact h.move hok.drop hisr' rfl rfl rfl rfl rfl trivial trivial
  | ind => exact h.move (b := none) hok.ind hisr' rfl rfl rfl rfl rfl trivial trivial
  | clear => exact h.move hok.clear hisr' rfl rfl rfl rfl rfl trivial trivial
  | busy =>
    have hbusy : (s.chan id).chan_busy = true := by
      obtain ⟨l₁, l₂, -, hat⟩ := hok
      exact hat.1
    have hnow : s.busy_now = true := ((lock_iff hisr' trivial).1 h.lock).2.2 ⟨id, hbusy⟩
    simp only [txStep, if_pos hbusy]
    exact ⟨chans_move (b := some .scan) h.chans hisr' rfl rfl hok.busy, h.lock.1, hnow⟩
  | scan =>
    have hnow : s.busy_now = true := by
      have := h.lock.2
      rwa [hisr] at this
    unfold txStep
    dsimp only
    split
    · rename_i hany
      have hany : AnyBusy s := anyBusy_iff.2 (hany.resolve_left (by simp [hnow]))
      exact ⟨chans_move (b := none) h.chans hisr' rfl hself hok.scan.1, h.lock.1, iff_of_true hnow hany⟩
    · rename_i hnone
      have hnone : ¬ AnyBusy s := fun hany => hnone (.inr (anyBusy_iff.1 hany))
      exact ⟨chans_move (b := some .unlock) h.chans hisr' rfl hself hok.scan.2, h.lock.1, hnow, hnone⟩
  | unlock =>
    have hlock := h.lock.2
    rw [hisr] at hlock
    exact ⟨chans_move (b := none) h.chans hisr' rfl hself hok.unlock, rfl, iff_of_false (by simp [txStep]) hlock.2⟩

/-! ## What holds in every state -/

/-- The messages received are those accepted up to a record that is still in the
list, and a part that was taken belongs to it. -/
theorem Turn.received {l : List Slot} (h : Turn c l) : ∃ a b, l = a ++ b ∧ c.received = c.done ++ a.map c.message ∧
    (c.part ≠ [] → ∃ r b' rest, b = r :: b' ∧ c.message r = ((c.message r).1, c.part ++ rest)) := by
  cases h with
  | empty hquiet _ _ _ hrec => exact ⟨[], [], rfl, by simpa using hrec, fun h => absurd hquiet.1 h⟩
  | @posted r l hquiet _ _ _ hrec => exact ⟨[], r :: l, rfl, by simpa using hrec, fun h => absurd hquiet.1 h⟩
  | @taking a r b _ hpart _ _ _ hrec => exact ⟨a, r :: b, rfl, hrec, fun h => absurd hpart h⟩
  | @resuming a r b msg _ _ _ hmsg _ _ hrec =>
    refine ⟨a, r :: b, rfl, hrec, fun _ => ⟨r, b, msg.data, rfl, ?_⟩⟩
    rw [← hmsg]
  | taken _ hpart _ _ _ hrec => exact ⟨l, [], by simp, hrec, fun h => absurd hpart h⟩
  | finished hquiet _ _ hrec => exact ⟨l, [], by simp, hrec, fun h => absurd hquiet.1 h⟩

/-- The records of `a` are received and not yet done with, those of `b` are not
received, and a part that was taken belongs to the first of these. -/
def Reached (c : Chan) (a b : List Slot) : Prop :=
  c.received = c.done ++ a.map c.message ∧ c.accepted = c.received ++ b.map c.message ∧
    (c.part ≠ [] → ∃ r b' rest, b = r :: b' ∧ c.message r = ((c.message r).1, c.part ++ rest))

theorem Ok.received {pc : Option Pc} (h : Ok c pc) : ∃ a b, Reached c a b := by
  obtain ⟨l₁, l₂, hlists, hat⟩ := h
  have turn (hturn : Turn c l₁) : ∃ a b, Reached c a b := by
    obtain ⟨a, b, rfl, hrec, hpart⟩ := hturn.received
    refine ⟨a, b ++ l₂, hrec, ?_, ?_⟩
    · rw [hrec, hlists.accepted, List.append_assoc, List.append_assoc, ← List.map_append]
    · intro hne
      obtain ⟨r, b', rest, rfl, hmsg⟩ := hpart hne
      exact ⟨r, b' ++ l₂, rest, rfl, hmsg⟩
  have calm {a b : List Slot} (hl : l₁ ++ l₂ = a ++ b) (hcalm : Calm c) (hrec : c.received = c.done ++ a.map c.message) :
      ∃ a b, Reached c a b := by
    refine ⟨a, b, hrec, ?_, fun hne => absurd hcalm.quiet.1 hne⟩
    rw [hrec, hlists.accepted, hl, List.append_assoc, ← List.map_append]
  cases pc with
  | none => exact turn hat.1
  | some pc =>
    cases pc with
    | scan | unlock => exact turn hat.1
    | handler _ | free _ | next _ | test => exact calm rfl hat.2.1 hat.2.2.2
    | take | drop => exact calm (List.nil_append _).symm hat.2.1 (by simpa using hat.2.2.2.1)
    | ind | clear | busy => exact calm (List.nil_append _).symm hat.2.1 (by simpa using hat.2.2.1)

/-- While a message is in flight the id is busy. -/
theorem Ok.busy_of_flight {pc : Option Pc} (h : Ok c pc) (hne : c.done ≠ c.accepted) : c.chan_busy = true := by
  obtain ⟨l₁, l₂, hlists, hat⟩ := h
  have turn (hl : l₁ = [] → l₂ = []) (hbusy : c.chan_busy = true ↔ l₁ ≠ []) : c.chan_busy = true := by
    apply hbusy.2
    rintro rfl
    apply hne
    rw [hlists.accepted, hl rfl]
    simp
  cases pc with
  | none => exact turn hat.2.1 hat.2.2
  | some pc =>
    cases pc with
    | scan | unlock => exact turn hat.2.1 hat.2.2
    | _ => exact hat.1

/-- Outside of the interrupt, an id with a message in flight is moving. -/
theorem Ok.moving (h : Ok c none) (hne : c.done ≠ c.accepted) :
    c.send_ind = true ∨ c.recv_done = true ∨ c.rx ≠ .idle ∨ c.recv_pending_head.isSome = true ∨ c.owed = true := by
  obtain ⟨l₁, l₂, hlists, hturn, hl, -⟩ := h
  cases hturn with
  | empty =>
    apply absurd _ hne
    rw [hlists.accepted, hl rfl]
    simp
  | posted _ hind => exact .inl hind
  | taking hrx => exact .inr (.inr (.inl (by simp [hrx])))
  | resuming _ hhead => exact .inr (.inr (.inr (.inl (by simp [hhead]))))
  | taken hrx => exact .inr (.inr (.inl (by simp [hrx])))
  | finished _ _ hdone =>
    cases howed : c.owed with
    | true => simp
    | false => exact .inr (.inl (by simp [hdone, howed]))

/-- The walk of a send ends. -/
theorem Ok.link_isSome {pc : Option Pc} (h : Ok c pc) (hr : c.in_use r = false) : ((c.fill r m).link r).isSome = true := by
  obtain ⟨l₁, l₂, hlists, -⟩ := h
  by_cases hlist : c.send_msg_list_p = none
  · simp [Chan.link, Chan.fill, hlist]
  · obtain ⟨msgs, q, hlink, -⟩ := hlists.link (m := m) hr hlist
    rw [hlink]
    rfl

theorem Inv.served {cfg : Config} (h : Inv s) : Served cfg s := by
  refine ⟨?_, ?_, ?_, ?_, ?_, ?_, ?_⟩
  · intro id
    obtain ⟨a, b, hrec, hacc, -⟩ := (h.chans id).received
    rw [hacc]
    exact ⟨⟨_, hrec.symm⟩, List.prefix_append ..⟩
  · intro id hne
    obtain ⟨a, b, -, hacc, hpart⟩ := (h.chans id).received
    obtain ⟨r, b', rest, rfl, hmsg⟩ := hpart hne
    refine ⟨((s.chan id).message r).1, rest, ?_⟩
    rw [hacc, List.getElem?_append_right (Nat.le_refl _), Nat.sub_self, List.map_cons, List.getElem?_cons_zero, ← hmsg]
  · intro id
    obtain ⟨l₁, l₂, hlists, -⟩ := h.chans id
    exact ⟨l₁ ++ l₂, (List.nodup_append.1 hlists.nodup).2.1,
      fun r hr => (hlists.used r).2 (List.mem_append_right _ hr), hlists.accepted⟩
  · rintro ⟨id, hne⟩
    have hany : AnyBusy s := ⟨id, (h.chans id).busy_of_flight hne⟩
    have hlock := h.lock.2
    rw [h.lock.1]
    split at hlock
    · exact hlock
    · exact hlock.1
    · exact hlock.2 hany
  · intro hisr hall
    obtain ⟨hwake, hnow⟩ := (lock_iff (a := none) (show s.isr = none.map (Prod.mk Id.id0) from hisr) trivial).1 h.lock
    rw [hwake, ← Bool.not_eq_true, hnow]
    rintro ⟨id, hbusy⟩
    have hok := h.chans id
    rw [place_self (a := none) hisr] at hok
    obtain ⟨l₁, l₂, hlists, -, -, hiff⟩ := hok
    apply hiff.1 hbusy
    have hacc := hlists.accepted
    rw [hall id] at hacc
    have := List.self_eq_append_right.1 hacc
    simp only [List.map_eq_nil_iff, List.append_eq_nil_iff] at this
    exact this.1
  · intro id hne
    cases hplace : s.place id with
    | none =>
      have hok := h.chans id
      rw [hplace] at hok
      exact .inr (hok.moving hne)
    | some pc =>
      left
      obtain ⟨⟨id', pc'⟩, hisr, heq⟩ := Option.bind_eq_some_iff.1 hplace
      dsimp only at heq
      split at heq
      · rename_i hid
        exact ⟨pc', by rw [hisr, hid]⟩
      · cases heq
  · intro id m
    unfold halIntersysSend
    split
    · rfl
    · dsimp only
      split
      · rfl
      · rename_i r hfree
        rw [Option.isSome_map]
        exact (h.chans id).link_isSome (Chan.freeRecord_some hfree)

/-! ## Every run -/

theorem Inv.init (h : Init s) : Inv s := by
  obtain ⟨hchan, hnow, hwake, hisr⟩ := h
  refine ⟨?_, by rw [hwake, hnow], ?_⟩
  · intro id
    obtain ⟨huse, hlist, hpending, hbusy, hind, hdone, hhead, hrx, -, -, howed, hacc, hrec, hpart, hsent⟩ := hchan id
    rw [place_self (a := none) hisr]
    refine ⟨[], [], ⟨hlist, hpending, List.nodup_nil, ?_, ?_⟩, ?_, fun _ => rfl, by simp [hbusy]⟩
    · intro r
      simp [huse r, held]
    · simp [hacc, hsent]
    · exact .empty ⟨hpart, .inr ⟨hrx, hhead⟩⟩ hind hdone howed (by rw [hrec, hsent])
  · rw [hisr]
    apply iff_of_false
    · simp [hnow]
    · rintro ⟨id, hbusy⟩
      obtain ⟨-, -, -, hoff, -⟩ := hchan id
      simp [hoff] at hbusy

theorem Inv.step {cfg : Config} {e : Event} (h : Inv s) (htimely : Timely e s) (hs : step cfg e s = some t) : Inv t := by
  cases e with
  | send id m =>
    obtain ⟨⟨ret, s₁⟩, hsend, rfl⟩ := Option.map_eq_some_iff.1 hs
    exact h.send htimely hsend
  | txEnter id => exact h.enter hs
  | tx =>
    obtain ⟨⟨id, pc⟩, hisr, rfl⟩ := Option.map_eq_some_iff.1 hs
    exact h.tx hisr
  | rxEnter id =>
    obtain ⟨c, hc, rfl⟩ := Option.map_eq_some_iff.1 hs
    exact h.receives (receives_enter hc)
  | rxHandle id processed =>
    obtain ⟨c, hc, rfl⟩ := Option.map_eq_some_iff.1 hs
    exact h.receives (receives_handle hc)
  | rxEnd id =>
    obtain ⟨c, hc, rfl⟩ := Option.map_eq_some_iff.1 hs
    exact h.receives (receives_end hc)
  | rxDone id =>
    cases hs
    exact h.receives (receives_rxDone htimely)
  | startRecv id =>
    cases hs
    exact h.receives (receives_calls _ true _ _)
  | startCheck id =>
    obtain ⟨c, hc, rfl⟩ := Option.map_eq_some_iff.1 hs
    exact h.receives (receives_check hc)
  | startSet id =>
    obtain ⟨c, hc, rfl⟩ := Option.map_eq_some_iff.1 hs
    exact h.receives (receives_startSet hc htimely.1 htimely.2)
  | stopRecv id =>
    cases hs
    exact h.receives (receives_calls _ false _ _)

/-- In every run whose calls are timely, every message is delivered once, and the
records and the wake lock follow. -/
theorem messages_served {cfg : Config} {evs : List Event} (hrun : Run (step cfg) Timely Init s evs) : Served cfg s := by
  apply Inv.served
  exact hrun.inv Inv (fun _ => Inv.init) fun _ _ _ hs htimely h => hs.step htimely h

instance (e : Event) (s : Sys) : Decidable (Timely e s) := by
  cases e with
  | send id m =>
    unfold Timely Apart
    dsimp only
    split <;> infer_instance
  | _ => unfold Timely; infer_instance

def openedChan : Chan :=
  { send_msgs := fun _ => { msg := { next := none, type := .hci, data := [] }, in_use := false }
    send_msg_list_p := none, send_pending_list_p := none, chan_busy := false, send_ind := false, recv_done := false
    recv_pending_head := none, recv_enabled := true, rx := .idle, checks := 0, sets := 0, owed := false
    accepted := [], received := [], part := [], done := [] }

def opened : Sys := { chan := fun _ => openedChan, busy_now := false, wake := false, isr := none }

theorem init_opened : Init opened :=
  ⟨fun _ => ⟨fun _ => rfl, rfl, rfl, rfl, rfl, rfl, rfl, rfl, rfl, rfl, rfl, rfl, rfl, rfl, rfl⟩, rfl, rfl, rfl⟩

def bothTypes : Config := { opened := fun _ _ => true, need_flow_ctrl := fun _ => false }

/-- The interrupt from its beginning, for one record and an empty waiting list. -/
def doneLast : List Event := .txEnter .id0 :: List.replicate 8 .tx

/-- Two messages: the handler takes the first in two parts, and the second is
sent meanwhile. -/
theorem messages_served_two : ∃ s evs, Run (step bothTypes) Timely Init s evs ∧
    (s.chan .id0).done = [(.hci, [1, 2]), (.sys, [3])] ∧ Served bothTypes s := by
  obtain ⟨s, hrun, hgood⟩ := exists_run_of_check (step bothTypes) Timely Init (some opened)
    ([.send .id0 (.hci, [1, 2]), .rxEnter .id0, .rxHandle .id0 1, .send .id0 (.sys, [3]), .startRecv .id0, .startCheck .id0,
        .startSet .id0, .rxEnter .id0, .rxHandle .id0 1, .rxEnd .id0, .rxEnd .id0, .txEnter .id0] ++
      List.replicate 7 .tx ++ [.rxEnter .id0, .rxHandle .id0 1, .rxEnd .id0, .rxEnd .id0] ++ doneLast)
    (fun s => decide ((s.chan .id0).done = [(.hci, [1, 2]), (.sys, [3])]))
    (by rintro _ ⟨⟩; exact init_opened) (by decide)
  exact ⟨s, _, hrun, of_decide_eq_true hgood, messages_served hrun⟩

/-- A send comes when the interrupt has found nothing waiting and not cleared the
list yet: its message waits for a list that nobody is told of, and the wake
lock is released. -/
theorem lost_behind_test : ∃ s evs, Run (step bothTypes) (fun _ _ => True) Init s evs ∧
    (s.chan .id0).done ≠ (s.chan .id0).accepted ∧ s.wake = false ∧ ¬ Moving .id0 s ∧ ¬ Served bothTypes s := by
  obtain ⟨s, hrun, hgood⟩ := exists_run_of_check (step bothTypes) (fun _ _ => True) Init (some opened)
    ([.send .id0 (.hci, [1]), .rxEnter .id0, .rxHandle .id0 1, .rxEnd .id0, .rxEnd .id0, .txEnter .id0, .tx, .tx, .tx, .tx,
      .send .id0 (.hci, [2]), .tx, .tx, .tx, .tx])
    (fun s => decide ((s.chan .id0).done ≠ (s.chan .id0).accepted ∧ s.wake = false ∧ s.isr = none ∧
      (s.chan .id0).send_ind = false ∧ (s.chan .id0).recv_done = false ∧ (s.chan .id0).rx = .idle ∧
      (s.chan .id0).recv_pending_head.isSome = false ∧ (s.chan .id0).owed = false))
    (by rintro _ ⟨⟩; exact init_opened) (by decide)
  obtain ⟨hne, hwake, hisr, hind, hdone, hrx, hhead, howed⟩ := of_decide_eq_true hgood
  refine ⟨s, _, hrun, hne, hwake, ?_, ?_⟩
  · simp [Moving, hisr, hind, hdone, hrx, hhead, howed]
  · intro hserved
    have := hserved.awake ⟨.id0, hne⟩
    rw [hwake] at this
    cases this

end Hal.Intersys
