import LittleBuddy.Lib.Arbiter
import Mathlib.Order.Fin.Basic
import Mathlib.Data.Fintype.Pi
/-!
# Arbitration of the system frequency

`platform/hal/hal_sysfreq.c`: every user of the system clock asks for a frequency,
and the clock runs at the largest one, or at the configured minimum where that is
larger. The code remembers one top user and scans the others only when that user
lowers its request.
-/
open Arbiter

namespace Hal.SysFreq

/-! ## The code -/

/-- `HAL_CMU_FREQ_T`, without the count `HAL_CMU_FREQ_QTY` behind the last one. -/
inductive CmuFreq
  | freq32K
  | freq26M
  | freq52M
  | freq78M
  | freq104M
  | freq208M
  deriving DecidableEq, Repr

/-- The value of the enumeration. -/
def CmuFreq.code : CmuFreq → Fin 6
  | freq32K => 0
  | freq26M => 1
  | freq52M => 2
  | freq78M => 3
  | freq104M => 4
  | freq208M => 5

theorem CmuFreq.code_injective : Function.Injective CmuFreq.code := by
  intro a b h
  cases a <;> cases b <;> first | rfl | cases h

instance : LinearOrder CmuFreq := LinearOrder.lift' CmuFreq.code CmuFreq.code_injective

instance : OrderBot CmuFreq where
  bot := .freq32K
  bot_le a := Fin.zero_le a.code

/-- `freq` as a caller passes it; none from `HAL_CMU_FREQ_QTY` on. -/
def CmuFreq.ofCode? : Nat → Option CmuFreq
  | 0 => some freq32K
  | 1 => some freq26M
  | 2 => some freq52M
  | 3 => some freq78M
  | 4 => some freq104M
  | 5 => some freq208M
  | _ => none

/-- `HAL_SYSFREQ_USER_QTY`. -/
abbrev userQty : Nat := 21

/-- The state of the module, and the frequency of the clock. `top_user` is none for
`HAL_SYSFREQ_USER_QTY`. -/
structure SysFreq where
  sysfreq_per_user : Fin userQty → CmuFreq
  top_user : Option (Fin userQty)
  min_sysfreq : CmuFreq
  cmu_sys_freq : CmuFreq

/-- At boot nobody has asked for a frequency, and the clock setup has chosen 26 MHz. -/
def SysFreq.init : SysFreq where
  sysfreq_per_user _ := .freq32K
  top_user := none
  min_sysfreq := .freq26M
  cmu_sys_freq := .freq26M

variable (s : SysFreq)

/-- `hal_sysfreq_revise_freq`. -/
def halSysfreqReviseFreq (freq : CmuFreq) : CmuFreq := if freq > s.min_sysfreq then freq else s.min_sysfreq

/-- `hal_sysfreq_get`. -/
def halSysfreqGet : CmuFreq :=
  match s.top_user with
  | some user => s.sysfreq_per_user user
  | none => s.cmu_sys_freq

/-- `hal_sysfreq_set_min_freq`. -/
def halSysfreqSetMinFreq (freq : CmuFreq) : SysFreq :=
  if s.min_sysfreq < freq then
    let s' := { s with min_sysfreq := freq }
    if s'.min_sysfreq > halSysfreqGet s' then { s' with cmu_sys_freq := s'.min_sysfreq } else s'
  else s

/-- The last part of `hal_sysfreq_req`, for a request below the frequency `cur`. -/
def reqLower (user : Fin userQty) (freq cur : CmuFreq) : SysFreq :=
  if s.top_user = some user ∨ s.top_user = none then
    let found :=
      if s.top_user = some user then
        scan s.sysfreq_per_user (s.sysfreq_per_user 0, 0) (List.finRange userQty).tail
      else (freq, user)
    let s' := { s with top_user := some found.2 }
    if found.1 ≠ cur then { s' with cmu_sys_freq := halSysfreqReviseFreq s found.1 } else s'
  else s

/-- `hal_sysfreq_req`, after its checks. -/
def reqChecked (user : Fin userQty) (freq : CmuFreq) : SysFreq :=
  let cur := halSysfreqGet s
  let s' := { s with sysfreq_per_user := Function.update s.sysfreq_per_user user freq }
  if freq = cur then { s' with top_user := some user }
  else if freq > cur then
    { s' with top_user := some user, cmu_sys_freq := halSysfreqReviseFreq s' freq }
  else reqLower s' user freq cur

/-- `hal_sysfreq_req`: the returned code, and the state. -/
def halSysfreqReq (user freq : Nat) : Nat × SysFreq :=
  if h : user < userQty then
    match CmuFreq.ofCode? freq with
    | none => (2, s)
    | some freq => (0, reqChecked s ⟨user, h⟩ freq)
  else (1, s)

/-! ## Calls -/

/-- A call from outside. -/
inductive Call
  | req (user freq : Nat)
  | setMin (freq : CmuFreq)

/-- The state after a call. -/
def exec : SysFreq → Call → SysFreq
  | s, .req user freq => (halSysfreqReq s user freq).2
  | s, .setMin freq => halSysfreqSetMinFreq s freq

/-- What user `u` asks for after `calls`: its last valid request. -/
def requested (calls : List Call) (u : Fin userQty) : CmuFreq :=
  calls.foldl (fun r call =>
    match call with
    | .req user freq => if user = u then (CmuFreq.ofCode? freq).getD r else r
    | .setMin _ => r) .freq32K

/-- The minimum configured by `calls`; a setting can only raise it. -/
def configuredMin (calls : List Call) : CmuFreq :=
  calls.foldl (fun m call =>
    match call with
    | .req _ _ => m
    | .setMin freq => max m freq) .freq26M

/-! ## What is kept -/

/-- The clock runs at the largest request or at the minimum, and the top user
asks for the largest. Without a top user nobody has asked for anything. -/
structure Arbitrated (s : SysFreq) : Prop where
  clock : s.cmu_sys_freq = max s.min_sysfreq (Finset.univ.sup s.sysfreq_per_user)
  top : ∀ u, s.top_user = some u → Top s.sysfreq_per_user u
  idle : s.top_user = none → ∀ u, s.sysfreq_per_user u = ⊥

theorem halSysfreqReviseFreq_eq (freq : CmuFreq) : halSysfreqReviseFreq s freq = max s.min_sysfreq freq := by
  unfold halSysfreqReviseFreq
  split
  · rename_i h
    exact (max_eq_right h.le).symm
  · rename_i h
    exact (max_eq_left (not_lt.1 h)).symm

theorem sup_idle {r : Fin userQty → CmuFreq} (h : ∀ u, r u = ⊥) : Finset.univ.sup r = ⊥ :=
  (Finset.sup_eq_bot_iff _ _).2 fun u _ => h u

theorem arbitrated_init : Arbitrated SysFreq.init where
  clock := by
    rw [sup_idle (r := SysFreq.init.sysfreq_per_user) fun _ => rfl]
    rfl
  top := by simp [SysFreq.init]
  idle _ _ := rfl

variable {s}

/-- A state with a top user is arbitrated once its clock runs at the revised request of the top. -/
theorem Arbitrated.of_top {u : Fin userQty} (htop : s.top_user = some u) (h : Top s.sysfreq_per_user u)
    (hclock : s.cmu_sys_freq = max s.min_sysfreq (s.sysfreq_per_user u)) : Arbitrated s where
  clock := by rw [h.sup_eq, hclock]
  top v hv := by
    cases htop.symm.trans hv
    exact h
  idle hnone := by simp [htop] at hnone

/-- No request is above the frequency that `hal_sysfreq_get` returns. -/
theorem Arbitrated.le_get (hs : Arbitrated s) (u : Fin userQty) : s.sysfreq_per_user u ≤ halSysfreqGet s := by
  unfold halSysfreqGet
  split
  · rename_i user h
    exact hs.top user h u
  · rename_i h
    rw [hs.idle h u]
    exact bot_le

/-- The clock runs at the frequency that `hal_sysfreq_get` returns or at the minimum. -/
theorem Arbitrated.clock_get (hs : Arbitrated s) : s.cmu_sys_freq = max s.min_sysfreq (halSysfreqGet s) := by
  unfold halSysfreqGet
  split
  · rename_i user h
    rw [hs.clock, (hs.top user h).sup_eq]
  · exact hs.clock.trans (by rw [hs.clock, max_eq_right (le_max_left _ _)])

/-- Without a top user the frequency is the minimum. -/
theorem Arbitrated.get_idle (hs : Arbitrated s) (h : s.top_user = none) : halSysfreqGet s = s.min_sysfreq := by
  have hget : halSysfreqGet s = s.cmu_sys_freq := by rw [halSysfreqGet, h]
  rw [hget, hs.clock, sup_idle (hs.idle h)]
  exact max_eq_left bot_le

theorem Arbitrated.setMin (hs : Arbitrated s) (freq : CmuFreq) : Arbitrated (halSysfreqSetMinFreq s freq) := by
  unfold halSysfreqSetMinFreq
  split
  · rename_i hlt
    have hget : halSysfreqGet { s with min_sysfreq := freq } = halSysfreqGet s := rfl
    have hclock := hs.clock
    dsimp only
    rw [hget]
    split
    · refine ⟨?_, hs.top, hs.idle⟩
      rename_i hgt
      exact (max_eq_left (Finset.sup_le fun u _ => (hs.le_get u).trans hgt.le)).symm
    · rename_i hle
      refine ⟨?_, hs.top, hs.idle⟩
      -- the new minimum is not above the frequency in use, nor was the old one
      cases htop : s.top_user with
      | none => exact absurd hlt (by rw [← hs.get_idle htop]; exact hle)
      | some u =>
        have hsup : halSysfreqGet s = Finset.univ.sup s.sysfreq_per_user := by
          rw [halSysfreqGet, htop, (hs.top u htop).sup_eq]
        rw [not_lt, hsup] at hle
        rw [hclock, max_eq_right hle, max_eq_right (hlt.le.trans hle)]
  · exact hs

theorem all_users (v : Fin userQty) : v = 0 ∨ v ∈ (List.finRange userQty).tail := by
  have h := List.mem_finRange v
  rw [List.finRange_succ, List.mem_cons] at h
  rwa [List.finRange_succ]

/-- A request below the frequency in use: only the top user makes a scan necessary. -/
theorem Arbitrated.reqLower (hs : Arbitrated s) {user : Fin userQty} {freq : CmuFreq} (hlt : freq < halSysfreqGet s) :
    Arbitrated (reqLower { s with sysfreq_per_user := Function.update s.sysfreq_per_user user freq } user freq
      (halSysfreqGet s)) := by
  have hclock := hs.clock_get
  cases htop : s.top_user with
  | none =>
    -- the first request of all: it is on top of users that ask for nothing
    have hother : Top (Function.update s.sysfreq_per_user user freq) user :=
      Top.raise fun v => (hs.idle htop v).trans_le bot_le
    simp only [Hal.SysFreq.reqLower, reduceCtorEq, or_true, if_true, if_false]
    rw [if_pos hlt.ne]
    apply Arbitrated.of_top rfl hother
    dsimp only
    rw [halSysfreqReviseFreq_eq, Function.update_self]
  | some u =>
    have hget : halSysfreqGet s = s.sysfreq_per_user u := by rw [halSysfreqGet, htop]
    by_cases hu : u = user
    · subst hu
      have hfound := scan_top (r := Function.update s.sysfreq_per_user u freq) 0 _ all_users
      have hfst := scan_fst (r := Function.update s.sysfreq_per_user u freq) 0 (List.finRange userQty).tail
      simp only [Hal.SysFreq.reqLower, true_or, if_true]
      split
      · apply Arbitrated.of_top rfl hfound
        dsimp only
        rw [halSysfreqReviseFreq_eq, hfst]
      · -- the scan finds an equal request: the clock stays as it is
        rename_i heq
        rw [not_not] at heq
        apply Arbitrated.of_top rfl hfound
        dsimp only
        rw [← hfst, heq]
        exact hclock
    · -- the top user is another one, and stays on top
      have hkeep : Top (Function.update s.sysfreq_per_user user freq) u :=
        (hs.top u htop).keep hu (hget ▸ hlt.le)
      simp only [Hal.SysFreq.reqLower, Option.some.injEq, hu, reduceCtorEq, or_self, if_false]
      apply Arbitrated.of_top (u := u) rfl hkeep
      dsimp only
      rw [Function.update_of_ne hu, ← hget]
      exact hclock

/-- A valid request, of any size. -/
theorem Arbitrated.reqChecked (hs : Arbitrated s) (user : Fin userQty) (freq : CmuFreq) :
    Arbitrated (reqChecked s user freq) := by
  unfold Hal.SysFreq.reqChecked
  dsimp only
  split
  · rename_i heq
    apply Arbitrated.of_top rfl (Top.raise fun v => heq ▸ hs.le_get v)
    dsimp only
    rw [Function.update_self, heq]
    exact hs.clock_get
  · rename_i hne
    split
    · rename_i hgt
      apply Arbitrated.of_top rfl (Top.raise fun v => (hs.le_get v).trans hgt.le)
      dsimp only
      rw [halSysfreqReviseFreq_eq, Function.update_self]
    · rename_i hngt
      exact hs.reqLower ((not_lt.1 hngt).lt_of_ne hne)

theorem Arbitrated.exec (hs : Arbitrated s) (call : Call) : Arbitrated (exec s call) := by
  cases call with
  | req user freq =>
    simp only [Hal.SysFreq.exec, halSysfreqReq]
    split
    · split
      · exact hs
      · exact hs.reqChecked _ _
    · exact hs
  | setMin freq => exact hs.setMin freq

/-! ## The code follows the requests -/

theorem reqLower_requests (user : Fin userQty) (freq cur : CmuFreq) :
    (reqLower s user freq cur).sysfreq_per_user = s.sysfreq_per_user ∧
      (reqLower s user freq cur).min_sysfreq = s.min_sysfreq := by
  unfold reqLower
  dsimp only
  split
  · generalize (if s.top_user = some user then _ else (freq, user)) = found
    constructor <;> split <;> rfl
  · exact ⟨rfl, rfl⟩

theorem reqChecked_requests {user : Fin userQty} {freq : CmuFreq} :
    (reqChecked s user freq).sysfreq_per_user = Function.update s.sysfreq_per_user user freq ∧
      (reqChecked s user freq).min_sysfreq = s.min_sysfreq := by
  unfold reqChecked
  dsimp only
  split
  · exact ⟨rfl, rfl⟩
  · split
    · exact ⟨rfl, rfl⟩
    · exact reqLower_requests user freq _

theorem setMin_requests {freq : CmuFreq} :
    (halSysfreqSetMinFreq s freq).sysfreq_per_user = s.sysfreq_per_user ∧
      (halSysfreqSetMinFreq s freq).min_sysfreq = max s.min_sysfreq freq := by
  unfold halSysfreqSetMinFreq
  split
  · rename_i hlt
    dsimp only
    split <;> exact ⟨rfl, (max_eq_right hlt.le).symm⟩
  · rename_i hnlt
    exact ⟨rfl, (max_eq_left (not_lt.1 hnlt)).symm⟩

theorem requested_setMin (calls : List Call) (freq : CmuFreq) :
    requested (calls ++ [.setMin freq]) = requested calls := by
  funext u
  simp only [requested, List.foldl_append, List.foldl_cons, List.foldl_nil]

theorem requested_req (calls : List Call) (user freq : Nat) (u : Fin userQty) :
    requested (calls ++ [.req user freq]) u =
      if user = u then (CmuFreq.ofCode? freq).getD (requested calls u) else requested calls u := by
  simp only [requested, List.foldl_append, List.foldl_cons, List.foldl_nil]

/-- The requests after a call are those of the callers so far. -/
theorem exec_requested (calls : List Call) (call : Call) (hs : s.sysfreq_per_user = requested calls) :
    (exec s call).sysfreq_per_user = requested (calls ++ [call]) := by
  cases call with
  | setMin freq => rw [exec, setMin_requests.1, hs, requested_setMin]
  | req user freq =>
    funext u
    rw [requested_req, exec, halSysfreqReq, ← hs]
    split
    · rename_i huser
      cases CmuFreq.ofCode? freq with
      | none => simp
      | some f =>
        dsimp only
        rw [reqChecked_requests.1, Function.update_apply, Option.getD_some]
        simp only [Fin.ext_iff, eq_comm]
    · rename_i huser
      have hne : user ≠ u := fun h => huser (h ▸ u.isLt)
      rw [if_neg hne]

theorem exec_min (call : Call) :
    (exec s call).min_sysfreq = match call with
      | .req _ _ => s.min_sysfreq
      | .setMin freq => max s.min_sysfreq freq := by
  cases call with
  | setMin freq => exact setMin_requests.2
  | req user freq =>
    simp only [exec, halSysfreqReq]
    split
    · split
      · rfl
      · exact reqChecked_requests.2
    · rfl

/-- The state after `calls` holds their requests and their minimum. -/
theorem exec_requests (calls : List Call) :
    (calls.foldl exec SysFreq.init).sysfreq_per_user = requested calls ∧
      (calls.foldl exec SysFreq.init).min_sysfreq = configuredMin calls := by
  induction calls using List.reverseRecOn with
  | nil => exact ⟨rfl, rfl⟩
  | append_singleton calls call ih =>
    rw [List.foldl_append]
    refine ⟨exec_requested calls call ih.1, ?_⟩
    rw [List.foldl_cons, List.foldl_nil, exec_min, ih.2, configuredMin, configuredMin, List.foldl_append]
    rfl

theorem arbitrated_calls (calls : List Call) : Arbitrated (calls.foldl exec SysFreq.init) := by
  induction calls using List.reverseRecOn with
  | nil => exact arbitrated_init
  | append_singleton calls call ih =>
    rw [List.foldl_append]
    exact ih.exec call

end Hal.SysFreq
