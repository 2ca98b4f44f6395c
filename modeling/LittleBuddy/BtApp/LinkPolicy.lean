import LittleBuddy.Lib.Cursor
import LittleBuddy.Lib.Requests
import LittleBuddy.Lib.Runs
/-!
# Pending link-policy requests

`services/bt_app/app_bt_func.cpp` keeps the link policies that the controller
could not take yet in a ring with an in and an out cursor and no count. A policy
for a device that already waits replaces the waiting one. Next to the ring the
system carries the log of all requests whose devices still wait.
-/
open Cursor Requests Runs

namespace BtApp.LinkPolicy

/-! ## The code -/

/-- `PENDING_SET_LINKPOLICY_REQ_BUF_CNT`. -/
abbrev reqBufCnt : Nat := 5

/-- `BT_SET_LINKPOLICY_REQ_T`. -/
structure SetLinkpolicyReq (Dev Policy : Type) where
  remDev : Dev
  policy : Policy

/-- `pending_set_linkpolicy_req` and its cursors. -/
structure Pending (Dev Policy : Type) where
  req : Nat → SetLinkpolicyReq Dev Policy
  in_cursor : Nat
  out_cursor : Nat

variable {Dev Policy : Type} [DecidableEq Dev]

/-- The search loop of `app_bt_push_pending_set_linkpolicy`; the cursors are
less than a turn apart. -/
def findPending (s : Pending Dev Policy) (remDev : Dev) : Nat → Nat → Option Nat
  | 0, _ => none
  | n + 1, index =>
    if index = s.in_cursor then none
    else if remDev = (s.req index).remDev then some index
    else findPending s remDev n (next reqBufCnt index)

/-- `app_bt_push_pending_set_linkpolicy`. -/
def appBtPushPendingSetLinkpolicy (remDev : Dev) (policy : Policy) (s : Pending Dev Policy) : Pending Dev Policy :=
  match findPending s remDev reqBufCnt s.out_cursor with
  | some index => { s with req := Function.update s.req index { s.req index with policy } }
  | none => { s with req := Function.update s.req s.in_cursor ⟨remDev, policy⟩,
                     in_cursor := next reqBufCnt s.in_cursor }

/-- `app_bt_pop_pending_set_linkpolicy`. -/
def appBtPopPendingSetLinkpolicy (s : Pending Dev Policy) : Option (SetLinkpolicyReq Dev Policy) × Pending Dev Policy :=
  if s.out_cursor = s.in_cursor then (none, s)
  else (some (s.req s.out_cursor), { s with out_cursor := next reqBufCnt s.out_cursor })

/-- `app_bt_set_linkpolicy`, by whether the device is connected and whether the
stack answers `BT_STS_IN_PROGRESS`. -/
def appBtSetLinkpolicy (remDev : Dev) (policy : Policy) (connected inProgress : Bool) (s : Pending Dev Policy) :
    Pending Dev Policy :=
  if connected && inProgress then appBtPushPendingSetLinkpolicy remDev policy s else s

/-- What `app_bt_print_pending_set_linkpolicy_req` prints, the requests from the
out cursor up to the in cursor. -/
def Pending.entries (s : Pending Dev Policy) : List (Dev × Policy) :=
  (cells s.req reqBufCnt s.out_cursor (gap reqBufCnt s.out_cursor s.in_cursor)).map fun r => (r.remDev, r.policy)

/-! ## Runs -/

inductive Event (Dev Policy : Type) where
  | set (remDev : Dev) (policy : Policy) (connected inProgress : Bool)
  | pop

/-- The ring, the log of the requests whose devices wait, and each pop's result
with the one the log gives. -/
structure Sys (Dev Policy : Type) where
  code : Pending Dev Policy
  log : List (Dev × Policy)
  pops : List (Option (Dev × Policy) × Option (Dev × Policy))

def step : Event Dev Policy → Sys Dev Policy → Option (Sys Dev Policy)
  | .set remDev policy connected inProgress, s =>
    some { s with code := appBtSetLinkpolicy remDev policy connected inProgress s.code,
                  log := if connected && inProgress then s.log ++ [(remDev, policy)] else s.log }
  | .pop, s =>
    let (r, code) := appBtPopPendingSetLinkpolicy s.code
    some { code, log := match Requests.pop s.log with
                  | some e => serve e.1 s.log
                  | none => s.log,
           pops := s.pops ++ [(r.map fun r => (r.remDev, r.policy), Requests.pop s.log)] }

/-- Before the first request; the static array has any content. -/
def init (s : Sys Dev Policy) : Prop :=
  s.code.in_cursor = 0 ∧ s.code.out_cursor = 0 ∧ s.log = [] ∧ s.pops = []

/-- At most as many devices wait as the array has entries. -/
def FitsArray (e : Event Dev Policy) (s : Sys Dev Policy) : Prop :=
  match e with
  | .set remDev _ _ _ => remDev ∈ keys s.log ∨ (keys s.log).length < reqBufCnt
  | .pop => True

/-- A request for a device that does not wait leaves an entry free. -/
def FitsRing (e : Event Dev Policy) (s : Sys Dev Policy) : Prop :=
  match e with
  | .set remDev _ true true => remDev ∈ s.code.entries.map Prod.fst ∨ s.code.entries.length + 1 < reqBufCnt
  | _ => True

instance (e : Event Dev Policy) (s : Sys Dev Policy) : Decidable (FitsArray e s) :=
  match e with
  | .set .. => inferInstanceAs (Decidable (_ ∨ _))
  | .pop => inferInstanceAs (Decidable True)

instance (e : Event Dev Policy) (s : Sys Dev Policy) : Decidable (FitsRing e s) :=
  match e with
  | .set _ _ true true => inferInstanceAs (Decidable (_ ∨ _))
  | .set _ _ true false | .set _ _ false _ | .pop => inferInstanceAs (Decidable True)

/-- Every pop has returned the device of the oldest waiting request with the
policy of its latest, and the ring holds what waits. -/
structure Faithful (s : Sys Dev Policy) : Prop where
  entries : Shows s.code.entries s.log
  pops : ∀ p ∈ s.pops, p.1 = p.2

/-! ## What each call does to the entries -/

structure Cursors (s : Pending Dev Policy) : Prop where
  in_lt : s.in_cursor < reqBufCnt
  out_lt : s.out_cursor < reqBufCnt

variable {s : Pending Dev Policy} {remDev : Dev} {policy : Policy}

omit [DecidableEq Dev] in
theorem length_entries : s.entries.length = gap reqBufCnt s.out_cursor s.in_cursor := by simp [Pending.entries]

/-- The search finds the waiting device, or says that it does not wait. -/
theorem findPending_spec (h : Cursors s) (remDev : Dev) : ∀ n r, r < reqBufCnt → gap reqBufCnt r s.in_cursor < n →
    match findPending s remDev n r with
    | some index => index < reqBufCnt ∧ gap reqBufCnt r index < gap reqBufCnt r s.in_cursor ∧
        (s.req index).remDev = remDev
    | none => ∀ x ∈ cells s.req reqBufCnt r (gap reqBufCnt r s.in_cursor), x.remDev ≠ remDev := by
  intro n
  induction n with
  | zero => intro r _ hgap; omega
  | succ n ih =>
    intro r hr hgap
    unfold findPending
    by_cases hin : r = s.in_cursor
    · simp [hin, cells]
    · have hstep := gap_next_left hr h.in_lt hin
      rw [if_neg hin]
      by_cases hdev : remDev = (s.req r).remDev
      · rw [if_pos hdev]
        exact ⟨hr, by rw [gap_self]; omega, hdev.symm⟩
      · rw [if_neg hdev]
        have hrec := ih (next reqBufCnt r) (next_lt hr) (by omega)
        generalize hf : findPending s remDev n (next reqBufCnt r) = o at hrec ⊢
        cases o with
        | some index =>
          obtain ⟨hi, hlt, hd⟩ := hrec
          refine ⟨hi, ?_, hd⟩
          have hne : r ≠ index := by
            rintro rfl
            exact hdev hd.symm
          have := gap_next_left hr hi hne
          omega
        | none =>
          intro x hx
          rw [← hstep, cells, List.mem_cons] at hx
          rcases hx with rfl | hx
          · exact fun he => hdev he.symm
          · exact hrec x hx

theorem push_spec (hc : Cursors s) {log : List (Dev × Policy)} (hs : Shows s.entries log)
    (hfit : remDev ∈ s.entries.map Prod.fst ∨ s.entries.length + 1 < reqBufCnt) :
    Cursors (appBtPushPendingSetLinkpolicy remDev policy s) ∧
      Shows (appBtPushPendingSetLinkpolicy remDev policy s).entries (log ++ [(remDev, policy)]) := by
  have hfind := findPending_spec hc remDev reqBufCnt s.out_cursor hc.out_lt (gap_lt hc.out_lt hc.in_lt)
  unfold appBtPushPendingSetLinkpolicy
  generalize findPending s remDev reqBufCnt s.out_cursor = o at hfind ⊢
  cases o with
  | some index =>
    obtain ⟨hi, hlt, hdev⟩ := hfind
    refine ⟨⟨hc.in_lt, hc.out_lt⟩, ?_⟩
    have hlen : gap reqBufCnt s.out_cursor index < s.entries.length := by rwa [length_entries]
    have hget : s.entries[gap reqBufCnt s.out_cursor index].1 = remDev := by
      have hcell := getElem?_cells (a := s.req) hc.out_lt hi hlt
      rw [← hdev]
      have he : s.entries[gap reqBufCnt s.out_cursor index]? = some ((s.req index).remDev, (s.req index).policy) := by
        simp [Pending.entries, hcell]
      rw [List.getElem?_eq_getElem hlen, Option.some.injEq] at he
      rw [he]
    have hset := hs.set hlen hget policy
    have hle : gap reqBufCnt s.out_cursor s.in_cursor ≤ reqBufCnt := Nat.le_of_lt (gap_lt hc.out_lt hc.in_lt)
    unfold Pending.entries at hset ⊢
    rw [cells_update hc.out_lt hi hlt hle, List.map_set]
    simpa only [hdev] using hset
  | none =>
    have hnot : remDev ∉ s.entries.map Prod.fst := by
      simp only [Pending.entries, List.map_map, List.mem_map, Function.comp]
      rintro ⟨x, hx, he⟩
      exact hfind x hx he
    have hroom : next reqBufCnt s.in_cursor ≠ s.out_cursor := by
      intro hc'
      have := (next_eq_iff hc.out_lt hc.in_lt).1 hc'
      have := hfit.resolve_left hnot
      rw [length_entries] at this
      omega
    refine ⟨⟨next_lt hc.in_lt, hc.out_lt⟩, ?_⟩
    have hadd := hs.add hnot policy
    unfold Pending.entries at hadd ⊢
    simp only
    rw [gap_next_right hc.out_lt hroom, cells_push hc.out_lt hc.in_lt, List.map_append]
    exact hadd

theorem pop_spec (hc : Cursors s) {log : List (Dev × Policy)} (hs : Shows s.entries log) :
    Cursors (appBtPopPendingSetLinkpolicy s).2 ∧
      (appBtPopPendingSetLinkpolicy s).1.map (fun r => (r.remDev, r.policy)) = Requests.pop log ∧
      Shows (appBtPopPendingSetLinkpolicy s).2.entries
        (match Requests.pop log with
          | some e => serve e.1 log
          | none => log) := by
  unfold appBtPopPendingSetLinkpolicy
  by_cases hin : s.out_cursor = s.in_cursor
  · have hnil : s.entries = [] := by simp [Pending.entries, hin, cells]
    obtain rfl := Shows.pop_nil (hnil ▸ hs)
    rw [if_pos hin]
    exact ⟨hc, rfl, hs⟩
  · have hstep := gap_next_left hc.out_lt hc.in_lt hin
    have hcons : s.entries = ((s.req s.out_cursor).remDev, (s.req s.out_cursor).policy) ::
        Pending.entries { s with out_cursor := next reqBufCnt s.out_cursor } := by
      simp only [Pending.entries]
      rw [← hstep, cells, List.map_cons]
    obtain ⟨hpop, htail⟩ := Shows.pop (hcons ▸ hs)
    rw [if_neg hin, hpop]
    exact ⟨⟨hc.in_lt, next_lt hc.out_lt⟩, rfl, htail⟩

/-! ## Whole runs -/

/-- What every step of a run keeps. -/
structure Inv (s : Sys Dev Policy) : Prop where
  cursors : Cursors s.code
  faithful : Faithful s

theorem init_inv {s : Sys Dev Policy} (h : init s) : Inv s := by
  obtain ⟨hin, hout, hlog, hpops⟩ := h
  have hnil : s.code.entries = [] := by simp [Pending.entries, hin, hout, cells]
  refine ⟨⟨by simp [hin], by simp [hout]⟩, ?_, by simp [hpops]⟩
  rw [hnil, hlog]
  exact .nil

theorem step_inv {e : Event Dev Policy} {s s' : Sys Dev Policy} (h : Inv s) (hc : FitsRing e s)
    (ht : step e s = some s') : Inv s' := by
  cases e with
  | set remDev policy connected inProgress =>
    cases ht
    by_cases hb : connected = true ∧ inProgress = true
    · obtain ⟨rfl, rfl⟩ := hb
      obtain ⟨hcur, hshow⟩ := push_spec h.cursors h.faithful.entries hc
      exact ⟨hcur, hshow, h.faithful.pops⟩
    · have hf : (connected && inProgress) = false := by simpa using hb
      simp only [appBtSetLinkpolicy, hf, Bool.false_eq_true, if_false]
      exact h
  | pop =>
    cases ht
    obtain ⟨hcur, hres, hshow⟩ := pop_spec h.cursors h.faithful.entries
    refine ⟨hcur, hshow, fun p hp => ?_⟩
    rcases List.mem_append.1 hp with hp | hp
    · exact h.faithful.pops p hp
    · rw [List.mem_singleton.1 hp]
      exact hres

/-- As long as no request takes the last entry of the ring, it serves every
waiting device once, in order and with its latest policy. -/
theorem requests_served {s : Sys Dev Policy} {evs : List (Event Dev Policy)} (h : Run step FitsRing init s evs) :
    Faithful s := by
  exact (h.inv Inv (fun _ => init_inv) fun _ _ _ => step_inv).faithful

/-- The ring of a test: no request yet. -/
def noRequests : Sys Nat Nat := ⟨⟨fun _ => ⟨0, 0⟩, 0, 0⟩, [], []⟩

/-- Two devices, one of which asks again before it is served. -/
theorem requests_served_example : ∃ s : Sys Nat Nat, Faithful s ∧
    s.pops = [(some (1, 9), some (1, 9)), (some (2, 8), some (2, 8))] := by
  obtain ⟨s, hr, hg⟩ := exists_run_of_check step FitsRing init (some noRequests)
    [.set 1 7 true true, .set 2 8 true true, .set 1 9 true true, .pop, .pop]
    (fun s => decide (s.pops = [(some (1, 9), some (1, 9)), (some (2, 8), some (2, 8))]))
    (fun s hs => by cases hs; exact ⟨rfl, rfl, rfl, rfl⟩) (by decide +kernel)
  exact ⟨s, requests_served hr, of_decide_eq_true hg⟩

/-- Five waiting devices fill the array, and the ring looks empty: the next pop
returns nothing. -/
theorem requests_lost : ¬ ∀ (s : Sys Nat Nat) (evs : List (Event Nat Nat)),
    Run step FitsArray init s evs → Faithful s := by
  intro hclaim
  obtain ⟨s, hr, hg⟩ := exists_run_of_check step FitsArray init (some noRequests)
    [.set 1 0 true true, .set 2 0 true true, .set 3 0 true true, .set 4 0 true true, .set 5 0 true true, .pop]
    (fun s => decide (s.pops = [(none, some (1, 0))]))
    (fun s hs => by cases hs; exact ⟨rfl, rfl, rfl, rfl⟩) (by decide +kernel)
  have hpop := (hclaim s _ hr).pops
  rw [of_decide_eq_true hg] at hpop
  have := hpop _ (List.mem_singleton_self _)
  cases this

end BtApp.LinkPolicy
