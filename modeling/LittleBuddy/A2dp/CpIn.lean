import LittleBuddy.Lib.Band
import LittleBuddy.Lib.Bytes
import LittleBuddy.Lib.Cursor
import LittleBuddy.Lib.Runs
import Mathlib.Order.Basic
/-!
# The input ring of the coprocessor

`apps/audioplayers/a2dp_decoder/a2dp_decoder_cp.c` passes encoded frames from the
MCU to the coprocessor (CP). The bytes of a frame lie in one piece in
`cp_in_cache`, its place and length in the entry of `in_frames` at the write
index. Both cores run at once: a put of the MCU is taken apart into its reads of
the shared indexes and its writes.
-/
open Bytes Cursor Runs

namespace A2dp.CpIn

/-! ## The code -/

/-- `CP_IN_FRAME_CNT`. -/
abbrev inFrameCnt : Nat := 100

/-- `CP_IN_CACHE_SIZE`. -/
abbrev inCacheSize : UInt32 := 10240

/-- `struct CP_IN_FRAME_INFO_T`. -/
structure InFrameInfo where
  pos : UInt32
  len : UInt32

structure Shared where
  cp_in_widx : Nat
  cp_in_ridx : Nat
  in_frames : Nat → InFrameInfo
  cp_in_cache : Nat → UInt8
  reset_frames : Bool

/-- A pointer of the caller and a length. -/
structure Piece where
  buf : Nat → UInt8
  len : UInt32

def Piece.bytes (p : Piece) : List UInt8 := read p.buf 0 p.len.toNat

/-- `get_in_frame_cnt`. -/
def getInFrameCnt (in_widx in_ridx : Nat) : Nat :=
  if in_widx ≥ in_ridx then in_widx - in_ridx else inFrameCnt - in_ridx + in_widx

/-- `get_in_frame_free_cnt`. -/
def getInFrameFreeCnt (in_widx in_ridx : Nat) : Nat :=
  (if in_widx ≥ in_ridx then inFrameCnt - in_widx + in_ridx else in_ridx - in_widx) - 1

/-- The index behind `i`, and the one before it. -/
def nextIdx (i : Nat) : Nat := if i + 1 ≥ inFrameCnt then i + 1 - inFrameCnt else i + 1

def prevIdx (i : Nat) : Nat := if i = 0 then inFrameCnt - 1 else i - 1

/-- `if (pos >= CP_IN_CACHE_SIZE) pos -= CP_IN_CACHE_SIZE`. -/
def wrapPos (pos : UInt32) : UInt32 := if pos ≥ inCacheSize then pos - inCacheSize else pos

/-- `(n + 3) & ~3`. -/
def align (n : UInt32) : UInt32 := (n + 3) / 4 * 4

/-- `in_wpos`, aligned, and `in_rpos` of a put. -/
def inWpos (sh : Shared) (in_widx in_ridx : Nat) : UInt32 :=
  let prev := sh.in_frames (prevIdx in_widx)
  wrapPos (align (if in_widx = in_ridx then 0 else wrapPos (prev.pos + prev.len)))

def inRpos (sh : Shared) (in_widx in_ridx : Nat) : UInt32 :=
  if in_widx = in_ridx then 0 else (sh.in_frames in_ridx).pos

/-- Where `a2dp_cp_put_in_frame` puts a frame, or the error it returns. -/
def place (in_wpos in_rpos aligned_len : UInt32) : Except Int UInt32 :=
  if in_wpos ≥ in_rpos then
    let free_len := if in_rpos = 0 then inCacheSize - in_wpos - 1 else inCacheSize - in_wpos
    if free_len < aligned_len then
      let free_len := if in_rpos > 0 then in_rpos - 1 else 0
      if free_len < aligned_len then .error 2 else .ok 0
    else .ok in_wpos
  else if in_rpos - in_wpos - 1 < aligned_len then .error 3
  else .ok in_wpos

/-- `memcpy(&cp_in_cache[pos], buf, len)`. -/
def memcpy (cache : Nat → UInt8) (pos : Nat) (p : Piece) : Nat → UInt8 := fun a =>
  if pos ≤ a ∧ a < pos + p.len.toNat then p.buf (a - pos) else cache a

/-- `a2dp_cp_get_in_frame`: place and length of the frame, `none` for -1 and 1. -/
def a2dpCpGetInFrame (sh : Shared) : Option InFrameInfo :=
  if sh.reset_frames then none
  else if sh.cp_in_widx = sh.cp_in_ridx then none
  else some (sh.in_frames sh.cp_in_ridx)

/-- `a2dp_cp_consume_in_frame`, and whether it has moved `cp_in_ridx`. -/
def a2dpCpConsumeInFrame (sh : Shared) : Shared × Bool :=
  if sh.reset_frames then (sh, false)
  else if sh.cp_in_widx = sh.cp_in_ridx then (sh, false)
  else ({ sh with cp_in_ridx := nextIdx sh.cp_in_ridx }, true)

/-! ## Two cores -/

/-- Where `a2dp_cp_put_in_frame` of the MCU is: it has read both indexes, it has
found room and is about to write the entry and the first piece, it is about to
write the second piece, or to move `cp_in_widx`. -/
inductive PutPc where
  | main
  | check (in_widx in_ridx : Nat) (p1 p2 : Piece)
  | copy1 (in_widx : Nat) (in_wpos : UInt32) (p1 p2 : Piece)
  | copy2 (in_widx : Nat) (in_wpos : UInt32) (p1 p2 : Piece)
  | publish (in_widx : Nat) (p1 p2 : Piece)

/-- `ret` is what the last put has returned, `held` the frame that the CP has got
and not consumed. `accepted` are the frames of all puts that returned 0, and
`consumed` says how many of them the CP has consumed. -/
structure Sys where
  sh : Shared
  put : PutPc
  ret : Int
  held : Option InFrameInfo
  accepted : List (List UInt8)
  consumed : Nat

/-- `put` begins a put, `putStep` goes on with it. The calls of the CP read
`cp_in_widx` once and are the only ones to write `cp_in_ridx`: each is one step. -/
inductive Event where
  | put (p1 p2 : Piece)
  | putStep
  | get
  | consume
  | resetFrame

def putStep (max_buffer_frames : Nat) (s : Sys) : Option Sys :=
  match s.put with
  | .main => none
  | .check in_widx in_ridx p1 p2 =>
    if max_buffer_frames < getInFrameCnt s.sh.cp_in_widx s.sh.cp_in_ridx then some { s with put := .main, ret := 1 }
    else if getInFrameFreeCnt in_widx in_ridx = 0 then some { s with put := .main, ret := 1 }
    else
      match place (inWpos s.sh in_widx in_ridx) (inRpos s.sh in_widx in_ridx) (align (p1.len + p2.len)) with
      | .error ret => some { s with put := .main, ret }
      | .ok in_wpos => some { s with put := .copy1 in_widx in_wpos p1 p2 }
  | .copy1 in_widx in_wpos p1 p2 =>
    some { s with
      sh.in_frames := Function.update s.sh.in_frames in_widx ⟨in_wpos, p1.len + p2.len⟩
      sh.cp_in_cache := memcpy s.sh.cp_in_cache in_wpos.toNat p1
      put := .copy2 in_widx (in_wpos + p1.len) p1 p2 }
  | .copy2 in_widx in_wpos p1 p2 =>
    some { s with sh.cp_in_cache := memcpy s.sh.cp_in_cache in_wpos.toNat p2, put := .publish in_widx p1 p2 }
  | .publish in_widx p1 p2 =>
    some { s with sh.cp_in_widx := nextIdx in_widx, put := .main, ret := 0,
                  accepted := s.accepted ++ [p1.bytes ++ p2.bytes] }

def step (max_buffer_frames : Nat) : Event → Sys → Option Sys
  | .put p1 p2, s =>
    match s.put with
    | .main =>
      if s.sh.reset_frames then some { s with ret := -1 }
      else some { s with put := .check s.sh.cp_in_widx s.sh.cp_in_ridx p1 p2 }
    | _ => none
  | .putStep, s => putStep max_buffer_frames s
  | .get, s =>
    match a2dpCpGetInFrame s.sh with
    | some frame => some { s with held := some frame }
    | none => some s
  | .consume, s =>
    match a2dpCpConsumeInFrame s.sh with
    | (sh, true) => some { s with sh, held := none, consumed := s.consumed + 1 }
    | (sh, false) => some { s with sh }
  | .resetFrame, s => some { s with sh.reset_frames := true }

/-- After `reset_frame_info`. -/
def init (s : Sys) : Prop :=
  s.sh.cp_in_widx = 0 ∧ s.sh.cp_in_ridx = 0 ∧ s.sh.reset_frames = false ∧ s.put = .main ∧ s.held = none ∧
    s.accepted = [] ∧ s.consumed = 0

/-! ## What is asked of the ring -/

/-- The entries from `cp_in_ridx` up to `cp_in_widx`. -/
def Shared.pending (sh : Shared) : List InFrameInfo :=
  cells sh.in_frames inFrameCnt sh.cp_in_ridx (getInFrameCnt sh.cp_in_widx sh.cp_in_ridx)

/-- Place and length as numbers. -/
def InFrameInfo.region (frame : InFrameInfo) : Nat × Nat := (frame.pos.toNat, frame.len.toNat)

/-- The bytes of a frame in the cache. -/
def Shared.bytesOf (sh : Shared) (frame : InFrameInfo) : List UInt8 :=
  read sh.cp_in_cache frame.pos.toNat frame.len.toNat

/-- The regions of the pending frames are inside of the cache and do not meet,
their bytes are those of the frames accepted and not consumed, in order, the CP
gets the first of them if there is one, and the frame that it has got is still
the first, with its bytes. -/
structure Kept (s : Sys) : Prop where
  inside : ∀ frame ∈ s.sh.pending, frame.pos.toNat + frame.len.toNat ≤ inCacheSize.toNat
  apart : (s.sh.pending.map InFrameInfo.region).Pairwise Band.Apart
  pending : s.sh.pending.map s.sh.bytesOf = s.accepted.drop s.consumed
  got : s.sh.reset_frames = false →
    (a2dpCpGetInFrame s.sh).map s.sh.bytesOf = s.accepted[s.consumed]?
  held : ∀ frame, s.held = some frame → s.accepted[s.consumed]? = some (s.sh.bytesOf frame)

/-- A put that has found room has less than 2^32 bytes, rounded up to a word. -/
def PutPc.Sized : PutPc → Prop
  | .copy1 _ _ p1 p2 => p1.len.toNat + p2.len.toNat + 3 < UInt32.size
  | _ => True

def Sized (e : Event) (s : Sys) : Prop :=
  match e with
  | .putStep => s.put.Sized
  | _ => True


/-! ## Places -/

/-- The length of a frame in words of the cache. -/
def wordLen (len : Nat) : Nat := (len + 3) / 4 * 4

theorem toNat_align {n : UInt32} (h : n.toNat + 3 < UInt32.size) : (align n).toNat = wordLen n.toNat := by
  have hadd : (n + 3).toNat = n.toNat + 3 := by
    rw [UInt32.toNat_add]
    exact Nat.mod_eq_of_lt h
  have hle : (n.toNat + 3) / 4 * 4 ≤ n.toNat + 3 := Nat.div_mul_le_self ..
  rw [align, UInt32.toNat_mul, UInt32.toNat_div, hadd]
  exact Nat.mod_eq_of_lt (lt_of_le_of_lt hle h)

theorem toNat_wrapPos {n : UInt32} (h : n.toNat ≤ inCacheSize.toNat) :
    (wrapPos n).toNat = n.toNat % inCacheSize.toNat := by
  unfold wrapPos
  split_ifs with hge
  · have hle := UInt32.le_iff_toNat_le.1 hge
    rw [UInt32.toNat_sub_of_le _ _ hge, Nat.le_antisymm h hle, Nat.mod_self, Nat.sub_self]
  · have hlt : n.toNat < inCacheSize.toNat := by
      rw [ge_iff_le, UInt32.le_iff_toNat_le] at hge
      omega
    exact (Nat.mod_eq_of_lt hlt).symm

/-- A place that is found is a room. -/
theorem room_of_place {in_wpos in_rpos aligned_len pos : UInt32} (hw : in_wpos.toNat < inCacheSize.toNat)
    (hr : in_rpos.toNat < inCacheSize.toNat) (h : place in_wpos in_rpos aligned_len = .ok pos) :
    Band.Room inCacheSize.toNat in_rpos.toNat in_wpos.toNat pos.toNat aligned_len.toNat := by
  have hcap : inCacheSize.toNat = 10240 := rfl
  have htail : (inCacheSize - in_wpos).toNat = 10240 - in_wpos.toNat :=
    UInt32.toNat_sub_of_le _ _ (UInt32.le_iff_toNat_le.2 hw.le)
  have hbehind : (if in_rpos = 0 then inCacheSize - in_wpos - 1 else inCacheSize - in_wpos).toNat =
      if in_rpos.toNat = 0 then 10240 - in_wpos.toNat - 1 else 10240 - in_wpos.toNat := by
    have hzero : in_rpos = 0 ↔ in_rpos.toNat = 0 := UInt32.toNat_inj.symm
    by_cases h0 : in_rpos = 0
    · have hle : (1 : UInt32) ≤ inCacheSize - in_wpos := by
        rw [UInt32.le_iff_toNat_le, htail]
        exact Nat.sub_pos_of_lt hw
      rw [if_pos h0, if_pos (hzero.1 h0), UInt32.toNat_sub_of_le _ _ hle, htail]
      rfl
    · rw [if_neg h0, if_neg (fun h => h0 (hzero.2 h)), htail]
  have hbefore : (if in_rpos > 0 then in_rpos - 1 else 0).toNat = in_rpos.toNat - 1 := by
    split_ifs with hpos
    · exact UInt32.toNat_sub_of_le _ _ (UInt32.le_iff_toNat_le.2 (UInt32.lt_iff_toNat_lt.1 hpos))
    · rw [gt_iff_lt, UInt32.lt_iff_toNat_lt] at hpos
      exact (Nat.sub_eq_zero_of_le (Nat.le_succ_of_le (Nat.not_lt.1 hpos))).symm
  -- from here on the comparisons are between numbers: give the two sizes of room names
  unfold place at h
  unfold Band.Room
  dsimp only at h
  generalize (if in_rpos = 0 then inCacheSize - in_wpos - 1 else inCacheSize - in_wpos) = behind at h hbehind
  generalize (if in_rpos > 0 then in_rpos - 1 else 0) = before at h hbefore
  rw [hcap] at hw hr ⊢
  split_ifs at h with hle hfull hfull' hfull''
  · -- before the first frame
    cases h
    rw [UInt32.lt_iff_toNat_lt, hbehind] at hfull
    rw [UInt32.lt_iff_toNat_lt, hbefore] at hfull'
    refine .inr (.inl ⟨rfl, UInt32.le_iff_toNat_le.1 hle, ?_⟩)
    split_ifs at hfull <;> omega
  · -- behind the last frame, up to the end
    cases h
    rw [UInt32.lt_iff_toNat_lt, hbehind] at hfull
    refine .inl ⟨rfl, UInt32.le_iff_toNat_le.1 hle, ?_⟩
    split_ifs at hfull <;> omega
  · -- behind the last frame, up to the first
    cases h
    rw [ge_iff_le, UInt32.le_iff_toNat_le, Nat.not_le] at hle
    have hle' : in_wpos ≤ in_rpos := UInt32.le_iff_toNat_le.2 hle.le
    have hgap : (in_rpos - in_wpos).toNat = in_rpos.toNat - in_wpos.toNat := UInt32.toNat_sub_of_le _ _ hle'
    have hone : (1 : UInt32) ≤ in_rpos - in_wpos := by
      rw [UInt32.le_iff_toNat_le, hgap]
      exact Nat.sub_pos_of_lt hle
    rw [UInt32.lt_iff_toNat_lt, UInt32.toNat_sub_of_le _ _ hone, hgap] at hfull''
    have h1 : (1 : UInt32).toNat = 1 := rfl
    exact .inr (.inr ⟨rfl, hle, by omega⟩)

/-! ## Frames in the cache -/

/-- The part of the cache that a frame takes up. -/
def InFrameInfo.area (frame : InFrameInfo) : Nat × Nat := (frame.pos.toNat, wordLen frame.len.toNat)

/-- The frames are laid round the cache, each at a word. -/
structure Stored (frames : List InFrameInfo) : Prop where
  laid : Band.Laid inCacheSize.toNat (frames.map InFrameInfo.area)
  word : ∀ frame ∈ frames, frame.pos.toNat % 4 = 0

variable {frames : List InFrameInfo} {sh : Shared} {w r : Nat}

theorem le_wordLen (len : Nat) : len ≤ wordLen len := by
  unfold wordLen
  omega

theorem Stored.inside (h : Stored frames) {frame : InFrameInfo} (hf : frame ∈ frames) :
    frame.pos.toNat + wordLen frame.len.toNat ≤ inCacheSize.toNat :=
  h.laid.inside frame.area (List.mem_map_of_mem hf)

theorem apart_of_area {frame frame' : InFrameInfo} (h : Band.Apart frame.area frame'.area) :
    Band.Apart frame.region frame'.region := by
  have hle := le_wordLen frame.len.toNat
  have hle' := le_wordLen frame'.len.toNat
  rcases h with h | h
  · exact .inl (le_trans (Nat.add_le_add_left hle _) h)
  · exact .inr (le_trans (Nat.add_le_add_left hle' _) h)

theorem Stored.apart (h : Stored frames) : (frames.map InFrameInfo.region).Pairwise Band.Apart := by
  have hareas := h.laid.apart
  rw [List.pairwise_map] at hareas ⊢
  exact hareas.imp apart_of_area

theorem Stored.suffix (dropped : List InFrameInfo) (h : Stored (dropped ++ frames)) : Stored frames := by
  have hlaid := h.laid
  rw [List.map_append] at hlaid
  exact ⟨hlaid.suffix, fun frame hf => h.word frame (List.mem_append_right _ hf)⟩

/-- The aligned place behind the last frame. -/
theorem toNat_inWpos {prev : InFrameInfo} (h : w ≠ r) (hprev : sh.in_frames (prevIdx w) = prev)
    (hfit : prev.pos.toNat + wordLen prev.len.toNat ≤ inCacheSize.toNat) (hword : prev.pos.toNat % 4 = 0) :
    (inWpos sh w r).toNat = (prev.pos.toNat + wordLen prev.len.toNat) % inCacheSize.toNat := by
  have hcap : inCacheSize.toNat = 10240 := rfl
  have hsize : UInt32.size = 4294967296 := rfl
  rw [hcap] at hfit ⊢
  have hle := le_wordLen prev.len.toNat
  have hend : (prev.pos + prev.len).toNat = prev.pos.toNat + prev.len.toNat := by
    rw [UInt32.toNat_add]
    exact Nat.mod_eq_of_lt (by omega)
  have hwrap := toNat_wrapPos (n := prev.pos + prev.len) (by rw [hend, hcap]; omega)
  rw [hend, hcap] at hwrap
  have halign : (align (wrapPos (prev.pos + prev.len))).toNat = wordLen ((prev.pos.toNat + prev.len.toNat) % 10240) := by
    rw [toNat_align (by omega), hwrap]
  rw [inWpos, hprev, if_neg h, toNat_wrapPos (by rw [halign, hcap]; unfold wordLen; omega), halign, hcap]
  unfold wordLen at hfit ⊢
  omega

/-- The place found for a put lies behind the frames that were pending when the
put read the indexes, even if the CP has consumed some of them since. -/
theorem Stored.snoc (h : Stored (cells sh.in_frames inFrameCnt r (gap inFrameCnt r w))) (hr : r < inFrameCnt)
    (hw : w < inFrameCnt) {aligned_len pos : UInt32}
    (hplace : place (inWpos sh w r) (inRpos sh w r) aligned_len = .ok pos) :
    Band.Laid inCacheSize.toNat ((cells sh.in_frames inFrameCnt r (gap inFrameCnt r w)).map InFrameInfo.area ++
      [(pos.toNat, aligned_len.toNat)]) ∧ pos.toNat % 4 = 0 := by
  have hcap : inCacheSize.toNat = 10240 := rfl
  by_cases hempty : w = r
  · -- the code takes 0 for both places: the entries it would read are stale
    subst hempty
    have hwpos : inWpos sh w w = 0 := by
      unfold inWpos
      dsimp only
      rw [if_pos rfl]
      rfl
    have hrpos : inRpos sh w w = 0 := if_pos rfl
    rw [hwpos, hrpos] at hplace
    have hroom := room_of_place (by decide) (by decide) hplace
    unfold Band.Room at hroom
    rw [hcap] at hroom
    have hzero : (0 : UInt32).toNat = 0 := rfl
    rw [hzero] at hroom
    rw [gap_self, cells, List.map_nil]
    exact ⟨Band.Laid.snoc (.inl rfl) (by decide) (fun _ => by omega) (fun p q hp => by cases hp), by omega⟩
  · -- `in_wpos` is the end of the last pending frame, `in_rpos` the place of the first
    have hlast := getLast?_cells (a := sh.in_frames) hr hw (Ne.symm hempty)
    have hhead : (cells sh.in_frames inFrameCnt r (gap inFrameCnt r w)).head? = some (sh.in_frames r) := by
      rw [← gap_next_left hr hw (Ne.symm hempty), cells, List.head?_cons]
    have hmem : sh.in_frames (prevIdx w) ∈ cells sh.in_frames inFrameCnt r (gap inFrameCnt r w) :=
      List.mem_of_getLast? hlast
    have hwpos := toNat_inWpos hempty rfl (h.inside hmem) (h.word _ hmem)
    have hrpos : inRpos sh w r = (sh.in_frames r).pos := if_neg hempty
    have hword := h.word _ hmem
    have hroom : Band.Room inCacheSize.toNat (sh.in_frames r).pos.toNat
        (((sh.in_frames (prevIdx w)).pos.toNat + wordLen (sh.in_frames (prevIdx w)).len.toNat) % inCacheSize.toNat)
        pos.toNat aligned_len.toNat := by
      rw [← hwpos, ← hrpos]
      refine room_of_place ?_ ?_ hplace
      · rw [hwpos]
        exact Nat.mod_lt _ (by decide)
      · rw [hrpos]
        exact h.laid.place_lt (by decide) _ (List.mem_map_of_mem (List.mem_of_mem_head? hhead))
    refine ⟨h.laid.snoc (by decide) (fun hnil => ?_) (fun p q hp hq => ?_), ?_⟩
    · rw [List.map_eq_nil_iff] at hnil
      rw [hnil] at hhead
      cases hhead
    · rw [List.head?_map, hhead] at hp
      rw [List.getLast?_map, hlast] at hq
      cases hp
      cases hq
      exact hroom
    · rw [hcap] at hroom
      unfold Band.Room at hroom
      unfold wordLen at hroom
      omega

/-! ## The pending frames -/

theorem nextIdx_eq {i : Nat} (h : i < inFrameCnt) : nextIdx i = next inFrameCnt i := by
  unfold nextIdx next
  split_ifs <;> omega

theorem pending_nil (h : sh.cp_in_widx = sh.cp_in_ridx) : sh.pending = [] := by
  rw [Shared.pending, h, show getInFrameCnt sh.cp_in_ridx sh.cp_in_ridx = 0 from gap_self]
  rfl

theorem pending_cons (hw : sh.cp_in_widx < inFrameCnt) (hr : sh.cp_in_ridx < inFrameCnt)
    (h : sh.cp_in_widx ≠ sh.cp_in_ridx) :
    sh.pending = sh.in_frames sh.cp_in_ridx :: Shared.pending { sh with cp_in_ridx := nextIdx sh.cp_in_ridx } := by
  have hgap := gap_next_left hr hw (Ne.symm h)
  calc sh.pending
      = cells sh.in_frames inFrameCnt sh.cp_in_ridx (gap inFrameCnt (next inFrameCnt sh.cp_in_ridx) sh.cp_in_widx + 1) := by
        rw [hgap]
        rfl
    _ = _ := by
        rw [cells, ← nextIdx_eq hr]
        rfl

theorem pending_snoc (hw : sh.cp_in_widx < inFrameCnt) (hr : sh.cp_in_ridx < inFrameCnt)
    (hroom : gap inFrameCnt sh.cp_in_ridx sh.cp_in_widx + 1 < inFrameCnt) :
    Shared.pending { sh with cp_in_widx := nextIdx sh.cp_in_widx } = sh.pending ++ [sh.in_frames sh.cp_in_widx] := by
  have hne : next inFrameCnt sh.cp_in_widx ≠ sh.cp_in_ridx := fun h => hroom.ne ((next_eq_iff hr hw).1 h)
  have hpush := cells_push hr hw (sh.in_frames sh.cp_in_widx) (a := sh.in_frames)
  rw [Function.update_eq_self, ← gap_next_right hr hne, ← nextIdx_eq hw] at hpush
  exact hpush

theorem pending_update (hw : sh.cp_in_widx < inFrameCnt) (hr : sh.cp_in_ridx < inFrameCnt) (frame : InFrameInfo)
    (cache : Nat → UInt8) :
    Shared.pending { sh with in_frames := Function.update sh.in_frames sh.cp_in_widx frame, cp_in_cache := cache } =
      sh.pending := cells_update_other hr hw le_rfl frame

theorem get_eq_head (hw : sh.cp_in_widx < inFrameCnt) (hr : sh.cp_in_ridx < inFrameCnt) (h : sh.reset_frames = false) :
    a2dpCpGetInFrame sh = sh.pending.head? := by
  rw [a2dpCpGetInFrame, h, if_neg Bool.false_ne_true]
  split_ifs with hempty
  · rw [pending_nil hempty]
    rfl
  · rw [pending_cons hw hr hempty]
    rfl

theorem read_memcpy_other {cache : Nat → UInt8} {pos : Nat} {p : Piece} {a n : Nat}
    (h : Band.Apart (a, n) (pos, p.len.toNat)) : read (memcpy cache pos p) a n = read cache a n := by
  apply read_congr
  intro x hx hx'
  refine if_neg fun hin => ?_
  rcases h with h | h <;> dsimp only at h <;> omega

theorem read_memcpy_self (cache : Nat → UInt8) (pos : Nat) (p : Piece) :
    read (memcpy cache pos p) pos p.len.toNat = p.bytes := by
  apply List.map_congr_left
  intro j hj
  have hlt := List.mem_range.1 hj
  rw [memcpy, if_pos (by omega), Nat.add_sub_cancel_left, Nat.zero_add]

/-! ## The invariant -/

/-- What a put under way relies on: the frames that were pending when it read
the indexes end with those that are pending now; the place found is behind the
pending frames; the bytes copied are there. -/
def PutAt (sh : Shared) : PutPc → Prop
  | .main => True
  | .check in_widx in_ridx _ _ => in_widx = sh.cp_in_widx ∧ in_ridx < inFrameCnt ∧
      Stored (cells sh.in_frames inFrameCnt in_ridx (gap inFrameCnt in_ridx in_widx)) ∧
      sh.pending <:+ cells sh.in_frames inFrameCnt in_ridx (gap inFrameCnt in_ridx in_widx)
  | .copy1 in_widx in_wpos p1 p2 => in_widx = sh.cp_in_widx ∧
      gap inFrameCnt sh.cp_in_ridx sh.cp_in_widx + 1 < inFrameCnt ∧ in_wpos.toNat % 4 = 0 ∧
      Band.Laid inCacheSize.toNat
        (sh.pending.map InFrameInfo.area ++ [(in_wpos.toNat, (align (p1.len + p2.len)).toNat)])
  | .copy2 in_widx in_wpos p1 p2 => in_widx = sh.cp_in_widx ∧
      gap inFrameCnt sh.cp_in_ridx sh.cp_in_widx + 1 < inFrameCnt ∧
      Stored (sh.pending ++ [sh.in_frames sh.cp_in_widx]) ∧
      (sh.in_frames sh.cp_in_widx).len.toNat = p1.len.toNat + p2.len.toNat ∧
      in_wpos.toNat = (sh.in_frames sh.cp_in_widx).pos.toNat + p1.len.toNat ∧
      read sh.cp_in_cache (sh.in_frames sh.cp_in_widx).pos.toNat p1.len.toNat = p1.bytes
  | .publish in_widx p1 p2 => in_widx = sh.cp_in_widx ∧
      gap inFrameCnt sh.cp_in_ridx sh.cp_in_widx + 1 < inFrameCnt ∧
      Stored (sh.pending ++ [sh.in_frames sh.cp_in_widx]) ∧
      sh.bytesOf (sh.in_frames sh.cp_in_widx) = p1.bytes ++ p2.bytes

structure Inv (s : Sys) : Prop where
  widx_lt : s.sh.cp_in_widx < inFrameCnt
  ridx_lt : s.sh.cp_in_ridx < inFrameCnt
  stored : Stored s.sh.pending
  pending : s.sh.pending.map s.sh.bytesOf = s.accepted.drop s.consumed
  consumed_le : s.consumed ≤ s.accepted.length
  held : ∀ frame, s.held = some frame → s.sh.pending.head? = some frame
  put : PutAt s.sh s.put

variable {s s' : Sys} {max_buffer_frames : Nat}

theorem Inv.head (h : Inv s) : s.sh.pending.head?.map s.sh.bytesOf = s.accepted[s.consumed]? := by
  rw [← List.head?_map, h.pending, List.head?_drop]

theorem Inv.kept (h : Inv s) : Kept s where
  inside frame hf := le_trans (Nat.add_le_add_left (le_wordLen _) _) (h.stored.inside hf)
  apart := h.stored.apart
  pending := h.pending
  got hreset := by rw [get_eq_head h.widx_lt h.ridx_lt hreset, h.head]
  held frame hheld := by rw [← h.head, h.held frame hheld, Option.map_some]

theorem init_inv (h : init s) : Inv s := by
  obtain ⟨hw, hr, -, hput, hheld, haccepted, hconsumed⟩ := h
  have hnil : s.sh.pending = [] := pending_nil (hw.trans hr.symm)
  exact {
    widx_lt := by rw [hw]; decide
    ridx_lt := by rw [hr]; decide
    stored := by rw [hnil]; exact ⟨.inl rfl, by simp⟩
    pending := by rw [hnil, haccepted, hconsumed]; rfl
    consumed_le := by rw [hconsumed]; exact Nat.zero_le _
    held := by simp [hheld]
    put := by rw [hput]; trivial }

/-! ## Steps -/

theorem PutAt.consume {pc : PutPc} (h : PutAt sh pc) (hw : sh.cp_in_widx < inFrameCnt) (hr : sh.cp_in_ridx < inFrameCnt)
    (hne : sh.cp_in_widx ≠ sh.cp_in_ridx) : PutAt { sh with cp_in_ridx := nextIdx sh.cp_in_ridx } pc := by
  have hcons := pending_cons hw hr hne
  have hgap := gap_next_left hr hw (Ne.symm hne)
  rw [← nextIdx_eq hr] at hgap
  cases pc with
  | main => trivial
  | check in_widx in_ridx p1 p2 =>
    obtain ⟨hwidx, hridx, hstored, hsuffix⟩ := h
    rw [hcons] at hsuffix
    exact ⟨hwidx, hridx, hstored, (List.suffix_cons _ _).trans hsuffix⟩
  | copy1 in_widx in_wpos p1 p2 =>
    obtain ⟨hwidx, hroom, hword, hlaid⟩ := h
    rw [hcons] at hlaid
    exact ⟨hwidx, by dsimp only; omega, hword, hlaid.tail⟩
  | copy2 in_widx in_wpos p1 p2 =>
    obtain ⟨hwidx, hroom, hstored, hbytes⟩ := h
    rw [hcons] at hstored
    exact ⟨hwidx, by dsimp only; omega, Stored.suffix [_] hstored, hbytes⟩
  | publish in_widx p1 p2 =>
    obtain ⟨hwidx, hroom, hstored, hbytes⟩ := h
    rw [hcons] at hstored
    exact ⟨hwidx, by dsimp only; omega, Stored.suffix [_] hstored, hbytes⟩

theorem Inv.consume (h : Inv s) (hne : s.sh.cp_in_widx ≠ s.sh.cp_in_ridx) :
    Inv { s with sh := { s.sh with cp_in_ridx := nextIdx s.sh.cp_in_ridx }, held := none, consumed := s.consumed + 1 } := by
  have hcons := pending_cons h.widx_lt h.ridx_lt hne
  have hstored := h.stored
  have hpending := h.pending
  rw [hcons] at hstored hpending
  exact {
    widx_lt := h.widx_lt
    ridx_lt := by
      dsimp only
      rw [nextIdx_eq h.ridx_lt]
      exact next_lt h.ridx_lt
    stored := Stored.suffix [_] hstored
    pending := by
      dsimp only
      rw [← List.tail_drop, ← hpending]
      rfl
    consumed_le := by
      have hlength := congrArg List.length hpending
      rw [List.length_map, List.length_cons, List.length_drop] at hlength
      dsimp only
      omega
    held := by rintro _ ⟨⟩
    put := h.put.consume h.widx_lt h.ridx_lt hne }

/-- A put begins: the frames it sees as pending are those that are. -/
theorem Inv.begin (h : Inv s) (p1 p2 : Piece) : Inv { s with put := .check s.sh.cp_in_widx s.sh.cp_in_ridx p1 p2 } :=
  { h with put := ⟨rfl, h.ridx_lt, h.stored, List.suffix_refl _⟩ }

/-- A put that returns. -/
theorem Inv.ret (h : Inv s) (ret : Int) : Inv { s with put := .main, ret } := { h with put := trivial }

theorem gap_of_free {w r : Nat} (hw : w < inFrameCnt) (hr : r < inFrameCnt) (h : getInFrameFreeCnt w r ≠ 0) :
    gap inFrameCnt r w + 1 < inFrameCnt := by
  unfold getInFrameFreeCnt at h
  unfold gap
  split_ifs at h ⊢ <;> omega

/-- There is an entry and a place. -/
theorem Inv.place (h : Inv s) {in_widx in_ridx : Nat} {p1 p2 : Piece} {in_wpos : UInt32}
    (hput : s.put = .check in_widx in_ridx p1 p2) (hfree : getInFrameFreeCnt in_widx in_ridx ≠ 0)
    (hplace : place (inWpos s.sh in_widx in_ridx) (inRpos s.sh in_widx in_ridx) (align (p1.len + p2.len)) = .ok in_wpos) :
    Inv { s with put := .copy1 in_widx in_wpos p1 p2 } := by
  have hat := h.put
  rw [hput] at hat
  obtain ⟨rfl, hridx, hstored, dropped, hdropped⟩ := hat
  obtain ⟨hlaid, hword⟩ := hstored.snoc hridx h.widx_lt hplace
  have hstale := gap_of_free h.widx_lt hridx hfree
  have hlength := congrArg List.length hdropped
  rw [List.length_append, Shared.pending, length_cells, length_cells] at hlength
  rw [← hdropped, List.map_append, List.append_assoc] at hlaid
  refine { h with put := ⟨rfl, ?_, hword, hlaid.suffix⟩ }
  exact lt_of_le_of_lt (Nat.succ_le_succ (hlength ▸ Nat.le_add_left ..)) hstale

theorem map_bytesOf_memcpy {pos : Nat} {p : Piece} {in_frames : Nat → InFrameInfo}
    (h : ∀ frame ∈ frames, Band.Apart frame.area (pos, p.len.toNat)) :
    frames.map ({ sh with in_frames, cp_in_cache := memcpy sh.cp_in_cache pos p } : Shared).bytesOf = frames.map sh.bytesOf := by
  apply List.map_congr_left
  intro frame hf
  refine read_memcpy_other ?_
  have hle := le_wordLen frame.len.toNat
  rcases h frame hf with hap | hap
  · exact .inl (le_trans (Nat.add_le_add_left hle _) hap)
  · exact .inr hap

/-- A copy into a part of the new frame's place leaves the pending frames alone. -/
theorem apart_part {pos len pos' len' : Nat} (h : Band.Laid inCacheSize.toNat (frames.map InFrameInfo.area ++ [(pos, len)]))
    (hpos : pos ≤ pos') (hlen : pos' + len' ≤ pos + len) :
    ∀ frame ∈ frames, Band.Apart frame.area (pos', len') := by
  intro frame hf
  rcases h.apart_last frame.area (List.mem_map_of_mem hf) with hap | hap
  · exact .inl (le_trans hap hpos)
  · exact .inr (le_trans hlen hap)

theorem Inv.copy1 (h : Inv s) {in_widx : Nat} {in_wpos : UInt32} {p1 p2 : Piece}
    (hput : s.put = .copy1 in_widx in_wpos p1 p2) (hsize : p1.len.toNat + p2.len.toNat + 3 < UInt32.size)
    (hs : putStep max_buffer_frames s = some s') : Inv s' := by
  have hat := h.put
  rw [hput] at hat
  obtain ⟨rfl, hroom, hword, hlaid⟩ := hat
  have hword32 : UInt32.size = 4294967296 := rfl
  have hlen : (p1.len + p2.len).toNat = p1.len.toNat + p2.len.toNat := by
    rw [UInt32.toNat_add]
    exact Nat.mod_eq_of_lt (by omega)
  have halign : (align (p1.len + p2.len)).toNat = wordLen (p1.len.toNat + p2.len.toNat) := by
    rw [toNat_align (by omega), hlen]
  rw [halign] at hlaid
  have hle := le_wordLen (p1.len.toNat + p2.len.toNat)
  have hinside : in_wpos.toNat + wordLen (p1.len.toNat + p2.len.toNat) ≤ 10240 :=
    hlaid.inside (in_wpos.toNat, wordLen (p1.len.toNat + p2.len.toNat)) (by simp)
  have hend : (in_wpos + p1.len).toNat = in_wpos.toNat + p1.len.toNat := by
    rw [UInt32.toNat_add]
    exact Nat.mod_eq_of_lt (by omega)
  have hkeep := pending_update h.widx_lt h.ridx_lt ⟨in_wpos, p1.len + p2.len⟩ (memcpy s.sh.cp_in_cache in_wpos.toNat p1)
  have hapart := apart_part hlaid (Nat.le_refl _) (Nat.add_le_add_left (le_trans (Nat.le_add_right _ p2.len.toNat) hle) _)
  rw [putStep, hput] at hs
  obtain rfl := Option.some.inj hs
  exact {
    widx_lt := h.widx_lt
    ridx_lt := h.ridx_lt
    stored := by rw [hkeep]; exact h.stored
    pending := by
      rw [hkeep]
      exact (map_bytesOf_memcpy hapart).trans h.pending
    consumed_le := h.consumed_le
    held := fun frame hheld => by rw [hkeep]; exact h.held frame hheld
    put := by
      refine ⟨rfl, hroom, ?_, ?_, ?_, ?_⟩
      · -- the entry at `cp_in_widx` is not pending yet, and gets the new place
        rw [hkeep]
        dsimp only
        rw [Function.update_self]
        refine ⟨?_, fun frame hf => ?_⟩
        · rwa [List.map_append, List.map_singleton, InFrameInfo.area, hlen]
        · rcases List.mem_append.1 hf with hf | hf
          · exact h.stored.word frame hf
          · rw [List.mem_singleton.1 hf]
            exact hword
      · dsimp only
        rw [Function.update_self, hlen]
      · dsimp only
        rw [Function.update_self, hend]
      · dsimp only
        rw [Function.update_self]
        exact read_memcpy_self .. }

theorem Inv.copy2 (h : Inv s) {in_widx : Nat} {in_wpos : UInt32} {p1 p2 : Piece}
    (hput : s.put = .copy2 in_widx in_wpos p1 p2) (hs : putStep max_buffer_frames s = some s') : Inv s' := by
  have hat := h.put
  rw [hput] at hat
  obtain ⟨rfl, hroom, hstored, hlen, hpos, hfirst⟩ := hat
  have hle := le_wordLen (s.sh.in_frames s.sh.cp_in_widx).len.toNat
  have hlaid := hstored.laid
  rw [List.map_append, List.map_singleton, InFrameInfo.area] at hlaid
  have hapart : ∀ frame ∈ s.sh.pending, Band.Apart frame.area (in_wpos.toNat, p2.len.toNat) :=
    apart_part hlaid (by omega) (by omega)
  rw [putStep, hput] at hs
  obtain rfl := Option.some.inj hs
  refine { h with pending := ?_, put := ⟨rfl, hroom, hstored, ?_⟩ }
  · exact (map_bytesOf_memcpy hapart).trans h.pending
  · have hkeep : read (memcpy s.sh.cp_in_cache in_wpos.toNat p2) (s.sh.in_frames s.sh.cp_in_widx).pos.toNat
        p1.len.toNat = p1.bytes := (read_memcpy_other (.inl hpos.symm.le)).trans hfirst
    rw [Shared.bytesOf, hlen, read_add, ← hpos]
    exact congrArg₂ (· ++ ·) hkeep (read_memcpy_self ..)

theorem Inv.publish (h : Inv s) {in_widx : Nat} {p1 p2 : Piece} (hput : s.put = .publish in_widx p1 p2)
    (hs : putStep max_buffer_frames s = some s') : Inv s' := by
  have hat := h.put
  rw [hput] at hat
  obtain ⟨rfl, hroom, hstored, hbytes⟩ := hat
  have hsnoc := pending_snoc h.widx_lt h.ridx_lt hroom
  rw [putStep, hput] at hs
  obtain rfl := Option.some.inj hs
  exact {
    widx_lt := by
      dsimp only
      rw [nextIdx_eq h.widx_lt]
      exact next_lt h.widx_lt
    ridx_lt := h.ridx_lt
    stored := by rw [hsnoc]; exact hstored
    pending := by
      rw [hsnoc, List.map_append, List.map_singleton, List.drop_append_of_le_length h.consumed_le, ← h.pending, ← hbytes]
      rfl
    consumed_le := by
      rw [List.length_append]
      exact Nat.le_add_right_of_le h.consumed_le
    held := fun frame hheld => by
      rw [hsnoc, List.head?_append, h.held frame hheld]
      rfl
    put := trivial }

theorem PutAt.resetFrame {pc : PutPc} (h : PutAt sh pc) : PutAt { sh with reset_frames := true } pc := by
  cases pc with
  | main | check | copy1 | copy2 | publish => exact h

/-- The check returns an error, or it has found an entry and a place. -/
theorem check_cases {in_widx in_ridx : Nat} {p1 p2 : Piece} (hput : s.put = .check in_widx in_ridx p1 p2)
    (hs : putStep max_buffer_frames s = some s') : (∃ ret, s' = { s with put := .main, ret }) ∨
    getInFrameFreeCnt in_widx in_ridx ≠ 0 ∧ ∃ in_wpos,
      place (inWpos s.sh in_widx in_ridx) (inRpos s.sh in_widx in_ridx) (align (p1.len + p2.len)) = .ok in_wpos ∧
      s' = { s with put := .copy1 in_widx in_wpos p1 p2 } := by
  rw [putStep, hput] at hs
  dsimp only at hs
  split_ifs at hs with hfull hfree
  · exact .inl ⟨1, (Option.some.inj hs).symm⟩
  · exact .inl ⟨1, (Option.some.inj hs).symm⟩
  · split at hs
    · exact .inl ⟨_, (Option.some.inj hs).symm⟩
    · rename_i hplace
      exact .inr ⟨hfree, _, hplace, (Option.some.inj hs).symm⟩

/-- A put begins unless another one is under way. -/
theorem put_cases {p1 p2 : Piece} (hs : step max_buffer_frames (.put p1 p2) s = some s') :
    s' = { s with ret := -1 } ∧ s.put = .main ∨ s' = { s with put := .check s.sh.cp_in_widx s.sh.cp_in_ridx p1 p2 } := by
  cases hput : s.put with
  | main =>
    rw [step, hput] at hs
    dsimp only at hs
    split at hs
    · exact .inl ⟨(Option.some.inj hs).symm, rfl⟩
    · exact .inr (Option.some.inj hs).symm
  | check | copy1 | copy2 | publish => simp [step, hput] at hs

theorem get_cases (hs : step max_buffer_frames .get s = some s') :
    s' = s ∨ ∃ frame, a2dpCpGetInFrame s.sh = some frame ∧ s' = { s with held := some frame } := by
  rw [step] at hs
  split at hs
  · rename_i frame hget
    exact .inr ⟨frame, hget, (Option.some.inj hs).symm⟩
  · exact .inl (Option.some.inj hs).symm

theorem consume_cases (hs : step max_buffer_frames .consume s = some s') :
    s' = s ∨ s.sh.cp_in_widx ≠ s.sh.cp_in_ridx ∧
      s' = { s with sh.cp_in_ridx := nextIdx s.sh.cp_in_ridx, held := none, consumed := s.consumed + 1 } := by
  rw [step, a2dpCpConsumeInFrame] at hs
  split_ifs at hs with hreset hempty
  · exact .inl (Option.some.inj hs).symm
  · exact .inl (Option.some.inj hs).symm
  · exact .inr ⟨hempty, (Option.some.inj hs).symm⟩

theorem step_inv (e : Event) (s s' : Sys) (h : Inv s) (hsized : Sized e s) (hs : step max_buffer_frames e s = some s') :
    Inv s' := by
  cases e with
  | put p1 p2 =>
    rcases put_cases hs with ⟨rfl, hmain⟩ | rfl
    · exact { h with put := by rw [hmain]; trivial }
    · exact h.begin p1 p2
  | putStep =>
    change putStep max_buffer_frames s = some s' at hs
    cases hput : s.put with
    | main => simp [putStep, hput] at hs
    | check in_widx in_ridx p1 p2 =>
      rcases check_cases hput hs with ⟨ret, rfl⟩ | ⟨hfree, in_wpos, hplace, rfl⟩
      · exact h.ret ret
      · exact h.place hput hfree hplace
    | copy1 in_widx in_wpos p1 p2 =>
      have hsize : p1.len.toNat + p2.len.toNat + 3 < UInt32.size := by
        simpa only [Sized, hput, PutPc.Sized] using hsized
      exact h.copy1 hput hsize hs
    | copy2 in_widx in_wpos p1 p2 => exact h.copy2 hput hs
    | publish in_widx p1 p2 => exact h.publish hput hs
  | get =>
    rcases get_cases hs with rfl | ⟨frame, hget, rfl⟩
    · exact h
    · have hreset : s.sh.reset_frames = false := by
        by_contra hreset
        simp [a2dpCpGetInFrame, hreset] at hget
      rw [get_eq_head h.widx_lt h.ridx_lt hreset] at hget
      refine { h with held := ?_ }
      rintro _ ⟨⟩
      exact hget
  | consume =>
    rcases consume_cases hs with rfl | ⟨hempty, rfl⟩
    · exact h
    · exact h.consume hempty
  | resetFrame =>
    obtain rfl := Option.some.inj hs
    exact { h with put := h.put.resetFrame }

/-! ## A put that fails -/

/-- Any event but the beginning of another put. -/
def Event.NotPut : Event → Prop
  | .put _ _ => False
  | _ => True

/-- All that the MCU writes in a put is as it was. -/
def SameFrames (sh₀ sh : Shared) : Prop :=
  sh.cp_in_widx = sh₀.cp_in_widx ∧ sh.in_frames = sh₀.in_frames ∧ sh.cp_in_cache = sh₀.cp_in_cache

/-- Up to its check, and after it has returned an error, a put has written nothing. -/
def Untouched (sh₀ : Shared) (s : Sys) : Prop :=
  match s.put with
  | .main => s.ret ≠ 0 → SameFrames sh₀ s.sh
  | .check _ _ _ _ => SameFrames sh₀ s.sh
  | _ => True

theorem untouched_put {p1 p2 : Piece} (hs : step max_buffer_frames (.put p1 p2) s = some s') : Untouched s.sh s' := by
  rcases put_cases hs with ⟨rfl, hmain⟩ | rfl
  · rw [Untouched, hmain]
    exact fun _ => ⟨rfl, rfl, rfl⟩
  · exact ⟨rfl, rfl, rfl⟩

theorem untouched_step {sh₀ : Shared} (e : Event) (s s' : Sys) (h : Untouched sh₀ s) (he : e.NotPut)
    (hs : step max_buffer_frames e s = some s') : Untouched sh₀ s' := by
  cases e with
  | put p1 p2 => exact he.elim
  | putStep =>
    change putStep max_buffer_frames s = some s' at hs
    cases hput : s.put with
    | main => simp [putStep, hput] at hs
    | check in_widx in_ridx p1 p2 =>
      rw [Untouched, hput] at h
      rcases check_cases hput hs with ⟨ret, rfl⟩ | ⟨-, in_wpos, -, rfl⟩
      · exact fun _ => h
      · trivial
    | copy1 | copy2 =>
      rw [putStep, hput] at hs
      obtain rfl := Option.some.inj hs
      trivial
    | publish =>
      rw [putStep, hput] at hs
      obtain rfl := Option.some.inj hs
      exact fun hne => absurd rfl hne
  | get =>
    rcases get_cases hs with rfl | ⟨frame, -, rfl⟩
    · exact h
    · exact h
  | consume =>
    rcases consume_cases hs with rfl | ⟨-, rfl⟩
    · exact h
    · exact h
  | resetFrame =>
    obtain rfl := Option.some.inj hs
    exact h

instance (pc : PutPc) : Decidable pc.Sized :=
  match pc with
  | .copy1 _ _ p1 p2 => inferInstanceAs (Decidable (p1.len.toNat + p2.len.toNat + 3 < UInt32.size))
  | .main | .check _ _ _ _ | .copy2 _ _ _ _ | .publish _ _ _ => isTrue trivial

instance (e : Event) (s : Sys) : Decidable (Sized e s) :=
  match e with
  | .putStep => inferInstanceAs (Decidable s.put.Sized)
  | .put _ _ | .get | .consume | .resetFrame => isTrue trivial

/-- After a reset, with an empty cache. -/
def emptied : Sys := ⟨⟨0, 0, fun _ => ⟨0, 0⟩, fun _ => 0, false⟩, .main, 0, none, [], 0⟩

theorem init_emptied : init emptied := ⟨rfl, rfl, rfl, rfl, rfl, rfl, rfl⟩

/-- A header of two bytes and three bytes of data. -/
def aFrame : Piece × Piece := (⟨bufferOf [7, 8], 2⟩, ⟨bufferOf [1, 2, 3], 3⟩)

end A2dp.CpIn
