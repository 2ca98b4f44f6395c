import Mathlib.Data.List.Induction
import Mathlib.Tactic.Common
/-!
# Events in groups

A stream of hits of codes, cut into groups: a group holds hits of one code, and
ends when its time is over, at a stop, with the hit of another code, or when
it is full.
-/

namespace Sessions

variable {α τ : Type}

/-- What the stream tells: a hit, that it is a time with nothing under way, or
a stop. -/
inductive Mark (α τ : Type) where
  | hit (code : α) (time : τ)
  | idle (time : τ)
  | stop (code : α)
  deriving DecidableEq

/-- A group that has not ended. -/
structure Group (α τ : Type) where
  code : α
  count : Nat
  last : τ
  deriving DecidableEq

/-- The groups that have ended, in order, and the one that has not. -/
structure Groups (α τ : Type) where
  closed : List (α × Nat)
  current : Option (Group α τ)
  deriving DecidableEq

def Groups.empty : Groups α τ := ⟨[], none⟩

/-- The codes that are hit, in order. -/
def hits : List (Mark α τ) → List α
  | [] => []
  | .hit code _ :: ms => code :: hits ms
  | .idle _ :: ms => hits ms
  | .stop _ :: ms => hits ms

theorem hits_append (ms ms' : List (Mark α τ)) : hits (ms ++ ms') = hits ms ++ hits ms' := by
  induction ms with
  | nil => rfl
  | cons m ms ih => cases m <;> simp [hits, ih]

/-- Ends the current group. -/
def Groups.close (g : Groups α τ) : Groups α τ :=
  match g.current with
  | none => g
  | some x => ⟨g.closed ++ [(x.code, x.count)], none⟩

/-- The codes of all hits of the groups, in order. -/
def Groups.members (g : Groups α τ) : List α :=
  g.closed.flatMap (fun x => List.replicate x.2 x.1) ++
    match g.current with
    | none => []
    | some x => List.replicate x.count x.code

@[simp] theorem members_empty : (Groups.empty : Groups α τ).members = [] := rfl

@[simp] theorem members_close (g : Groups α τ) : g.close.members = g.members := by
  obtain ⟨closed, _ | x⟩ := g
  · rfl
  · simp only [Groups.close, Groups.members, List.flatMap_append, List.flatMap_cons, List.flatMap_nil, List.append_nil]

/-- A full group ends at once. -/
def Groups.closeFull (limit : Nat) (g : Groups α τ) : Groups α τ :=
  match g.current with
  | none => g
  | some x => if x.count ≥ limit then g.close else g

@[simp] theorem members_closeFull (limit : Nat) (g : Groups α τ) : (g.closeFull limit).members = g.members := by
  unfold Groups.closeFull
  split
  · rfl
  · split
    · exact members_close g
    · rfl

/-- Groups that have ended are not empty and not over the limit; the current
one is not full. -/
structure Groups.Sized (limit : Nat) (g : Groups α τ) : Prop where
  closed : ∀ x ∈ g.closed, 0 < x.2 ∧ x.2 ≤ limit
  current : ∀ x ∈ g.current, 0 < x.count ∧ x.count < limit

theorem Groups.Sized.close {limit : Nat} {g : Groups α τ} (h : g.Sized limit) : g.close.Sized limit := by
  obtain ⟨closed, _ | x⟩ := g
  · exact h
  · have hx := h.current x rfl
    refine ⟨?_, fun y hy => by simp [Groups.close] at hy⟩
    intro y hy
    rcases List.mem_append.1 hy with hy | hy
    · exact h.closed y hy
    · rw [List.mem_singleton.1 hy]
      exact ⟨hx.1, Nat.le_of_lt hx.2⟩

variable [DecidableEq α] (expired : τ → τ → Prop) [DecidableRel expired] (limit : Nat)

/-- A hit goes into the current group if that is of the same code. -/
def Groups.hit (g : Groups α τ) (code : α) (time : τ) : Groups α τ :=
  match g.current with
  | none => { g with current := some ⟨code, 1, time⟩ }
  | some x =>
    if x.code = code then { g with current := some ⟨code, x.count + 1, time⟩ }
    else { g.close with current := some ⟨code, 1, time⟩ }

/-- What a mark does to the groups. -/
def Groups.mark (g : Groups α τ) : Mark α τ → Groups α τ
  | .hit code time => (g.hit code time).closeFull limit
  | .idle time =>
    match g.current with
    | none => g
    | some x => if expired x.last time then g.close else g
  | .stop _ => g.close

/-- The groups of a stream. -/
def groups (ms : List (Mark α τ)) : Groups α τ := ms.foldl (Groups.mark expired limit) .empty

theorem groups_append (ms ms' : List (Mark α τ)) :
    groups expired limit (ms ++ ms') = ms'.foldl (Groups.mark expired limit) (groups expired limit ms) := by
  rw [groups, List.foldl_append, groups]

/-- No stop comes while a group is open. -/
def StopsAlone (ms : List (Mark α τ)) : Prop :=
  ∀ before code after, ms = before ++ .stop code :: after → (groups expired limit before).current = none

theorem StopsAlone.of_append {expired} [DecidableRel expired] {limit : Nat} {ms ms' : List (Mark α τ)}
    (h : StopsAlone expired limit (ms ++ ms')) : StopsAlone expired limit ms := by
  intro before code after heq
  apply h before code (after ++ ms')
  rw [heq, List.append_assoc, List.cons_append]

/-! ## Every hit is in one group -/

theorem members_hit (g : Groups α τ) (code : α) (time : τ) : (g.hit code time).members = g.members ++ [code] := by
  obtain ⟨closed, _ | x⟩ := g
  · simp [Groups.hit, Groups.members]
  · simp only [Groups.hit]
    split
    · next h => simp [Groups.members, h, List.replicate_succ']
    · have := members_close (⟨closed, some x⟩ : Groups α τ)
      simp only [Groups.close, Groups.members, List.append_nil] at this ⊢
      rw [this, List.replicate_one]

theorem members_mark (g : Groups α τ) (m : Mark α τ) : (g.mark expired limit m).members = g.members ++ hits [m] := by
  cases m with
  | hit code time => rw [Groups.mark, members_closeFull, members_hit, hits, hits]
  | idle time =>
    rw [hits, hits, List.append_nil, Groups.mark]
    split
    · rfl
    · split
      · exact members_close g
      · rfl
  | stop code => rw [hits, hits, List.append_nil, Groups.mark, members_close]

/-- The groups hold the hits of the stream, each once and in their order. -/
theorem members_groups (ms : List (Mark α τ)) : (groups expired limit ms).members = hits ms := by
  induction ms using List.reverseRecOn with
  | nil => rfl
  | append_singleton ms m ih => rw [groups_append, List.foldl_cons, List.foldl_nil, members_mark, ih, hits_append]

/-! ## Sizes -/

theorem Groups.Sized.hit {limit : Nat} {g : Groups α τ} (hlimit : 0 < limit) (h : g.Sized limit) (code : α) (time : τ) :
    ((g.hit code time).closeFull limit).Sized limit := by
  have hnew : ∀ (closed : List (α × Nat)) (n : Nat), (∀ x ∈ closed, 0 < x.2 ∧ x.2 ≤ limit) → 0 < n → n ≤ limit →
      ((⟨closed, some ⟨code, n, time⟩⟩ : Groups α τ).closeFull limit).Sized limit := by
    intro closed n hclosed hpos hle
    simp only [Groups.closeFull]
    split
    · refine ⟨?_, fun y hy => by simp [Groups.close] at hy⟩
      intro y hy
      rcases List.mem_append.1 hy with hy | hy
      · exact hclosed y hy
      · rw [List.mem_singleton.1 hy]
        exact ⟨hpos, hle⟩
    · exact ⟨hclosed, fun y hy => by cases hy; exact ⟨hpos, Nat.lt_of_not_le ‹_›⟩⟩
  obtain ⟨closed, _ | x⟩ := g
  · exact hnew closed 1 h.closed Nat.one_pos hlimit
  · have hx := h.current x rfl
    simp only [Groups.hit]
    split
    · exact hnew closed (x.count + 1) h.closed (Nat.succ_pos _) hx.2
    · exact hnew _ 1 h.close.closed Nat.one_pos hlimit

theorem groups_sized (hlimit : 0 < limit) (ms : List (Mark α τ)) : (groups expired limit ms).Sized limit := by
  induction ms using List.reverseRecOn with
  | nil => exact ⟨fun _ h => by simp [groups, Groups.empty] at h, fun _ h => by simp [groups, Groups.empty] at h⟩
  | append_singleton ms m ih =>
    rw [groups_append, List.foldl_cons, List.foldl_nil]
    cases m with
    | hit code time => exact ih.hit hlimit code time
    | idle time =>
      rw [Groups.mark]
      split
      · exact ih
      · split
        · exact ih.close
        · exact ih
    | stop code => exact ih.close

end Sessions
