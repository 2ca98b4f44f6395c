import LittleBuddy.Lib.Chunks
import Mathlib
/-!
# Mixing a ring tone into the playback

`app_ring_merge_more_data` of `services/bt_app/app_ring_merge.cpp` is called with
every playback buffer and mixes the next samples of the ring tone into it, once
(oneshot) or over and over (periodic).
-/
open Chunks

namespace BtApp.RingMerge

/-! ## The code -/

/-- `DataType`, the samples of a buffer, with the sum in
`app_ring_merge_track_2_in_1`: it can be heard for every ring sample. -/
class DataType (α : Type) where
  track2in1 : α → Int16 → α
  heard : ∀ r, ∃ s, track2in1 s r ≠ s

/-- `AUD_BITS_16`. -/
instance : DataType Int16 where
  track2in1 s r := (s >>> 1) + (r >>> 1)
  heard r := by
    by_cases h : r >>> 1 = 0
    · exact ⟨4, by rw [h]; decide⟩
    · exact ⟨0, by simpa using h⟩

/-- `AUD_BITS_24`: `convertTo<int32_t>` shifts the ring sample by 8 bits. -/
instance : DataType Int32 where
  track2in1 s r := (s >>> 1) + ((r.toInt32 <<< 8) >>> 1)
  heard r := by
    by_cases h : (r.toInt32 <<< 8) >>> 1 = 0
    · exact ⟨4, by rw [h]; decide⟩
    · exact ⟨0, by simpa using h⟩

/-- `pbuf` and `len`; the ring tones are arrays of at least one sample. -/
structure Tone where
  pbuf : Nat → Int16
  len : Nat
  len_pos : 0 < len

/-- `APP_RING_MERGE_STATUS`. -/
inductive Status where
  | stop
  | start
  | running
  deriving DecidableEq

/-- `app_ring_merge_config`, with the number of calls of
`app_ring_merge_finished_callback`. -/
structure Config where
  status : Status
  next : Nat
  finished : Nat

section
variable {α : Type} [DataType α] (t : Tone)

/-- `app_ring_merge_track_2_in_1` of `src_len` samples at `pBuf + at` with the ring at `pbuf + next`. -/
def track2in1 (at_ next src_len : Nat) (buf : List α) : List α :=
  mapFrom (fun i s => if at_ ≤ i ∧ i < at_ + src_len then DataType.track2in1 s (t.pbuf (next + (i - at_))) else s) 0 buf

/-- `app_ring_merge_finished_callback`, as far as this file goes. -/
def finishedCallback (c : Config) : Config := { c with status := .stop, finished := c.finished + 1 }

/-- `app_ring_merge_oneshot_more_data_impl`. -/
def oneshotMoreData (c : Config) (buf : List α) : List α × Config :=
  let need_len := buf.length
  if c.next = t.len then (buf, c)
  else if need_len > t.len then (track2in1 t 0 0 t.len buf, finishedCallback { c with next := t.len })
  else if t.len - c.next ≥ need_len then (track2in1 t 0 c.next need_len buf, { c with next := c.next + need_len })
  else (track2in1 t 0 c.next (t.len - c.next) buf, finishedCallback { c with next := t.len })

/-- The loop of `app_ring_merge_periodic_more_data_impl`: the buffer after it, and `next`. -/
def periodicLoop (next curr_size remain_size : Nat) (buf : List α) : List α × Nat :=
  if next ≠ 0 then
    let curr_size := t.len - next
    let buf := track2in1 t 0 next curr_size buf
    if remain_size - curr_size ≠ 0 then periodicLoop 0 curr_size (remain_size - curr_size) buf else (buf, 0)
  else if remain_size > t.len then
    let buf := track2in1 t curr_size 0 t.len buf
    if remain_size - t.len ≠ 0 then periodicLoop 0 (curr_size + t.len) (remain_size - t.len) buf else (buf, 0)
  else (track2in1 t curr_size 0 remain_size buf, remain_size)
termination_by remain_size + (if next = 0 then 0 else 1)
decreasing_by
  · rename_i hnext _
    rw [if_pos trivial, if_neg hnext]
    omega
  · have hpos := t.len_pos
    rw [if_pos trivial]
    omega

/-- `app_ring_merge_periodic_more_data_impl`. -/
def periodicMoreData (c : Config) (buf : List α) : List α × Config :=
  let need_len := buf.length
  if need_len > t.len then
    let (buf, next) := periodicLoop t c.next 0 need_len buf
    (buf, { c with next })
  else if t.len - c.next ≥ need_len then (track2in1 t 0 c.next need_len buf, { c with next := c.next + need_len })
  else
    let curr_size := t.len - c.next
    let next := need_len - curr_size
    (track2in1 t curr_size 0 next (track2in1 t 0 c.next curr_size buf), { c with next })

/-- `app_ring_merge_more_data` with a handler. -/
def moreData (handler : Config → List α → List α × Config) (c : Config) (buf : List α) : List α × Config :=
  if c.status = .stop then (buf, c) else handler { c with status := .running } buf

/-- `app_ring_merge_start`. -/
def start : Config := ⟨.start, 0, 0⟩

/-! ## What the two should do -/

/-- Sample `k` of the playback with the ring tone mixed in once. -/
def once (k : Nat) (s : α) : α := if k < t.len then DataType.track2in1 s (t.pbuf k) else s

/-- Sample `k` with the ring tone mixed in over and over. -/
def looped (k : Nat) (s : α) : α := DataType.track2in1 s (t.pbuf (k % t.len))

/-- Each ring sample is mixed in once, one behind the other, and the callback
has been called once if all have, else not at all. -/
def Played (bufs : List (List α)) (r : List α × Config) : Prop :=
  r.1 = mapFrom (once t) 0 bufs.flatten ∧ r.2.finished = if t.len ≤ bufs.flatten.length then 1 else 0

/-- Of the buffer in which a ring tone of `len` samples ends, by the lengths of
the buffers: it goes on behind the ring tone, and if it is longer than the
ring tone it is the first one. -/
def EndsInside (len : Nat) (ns : List Nat) : Prop :=
  ∀ before n after, ns = before ++ n :: after → before.sum < len → len ≤ before.sum + n →
    len ≠ before.sum + n ∧ (n ≤ len ∨ before.sum = 0)

/-! ## The oneshot merge -/

variable {t} {c : Config} {buf : List α}

theorem track2in1_eq_once {next src_len : Nat} (h : ∀ j, j < buf.length → (j < src_len ↔ next + j < t.len)) :
    track2in1 t 0 next src_len buf = mapFrom (once t) next buf := by
  refine mapFrom_eq_iff.2 fun j s hs => ?_
  have hj := h j (List.getElem?_eq_some_iff.1 hs).1
  simp only [Nat.zero_add, Nat.zero_le, true_and, Nat.sub_zero, once]
  by_cases hlt : j < src_len
  · rw [if_pos hlt, if_pos (hj.1 hlt)]
  · rw [if_neg hlt, if_neg fun h => hlt (hj.2 h)]

/-- A buffer that ends before the ring tone does. -/
theorem oneshot_before (h : c.next + buf.length < t.len) :
    oneshotMoreData t c buf = (mapFrom (once t) c.next buf, { c with next := c.next + buf.length }) := by
  simp only [oneshotMoreData]
  rw [if_neg (by omega), if_neg (by omega), if_pos (by omega), track2in1_eq_once (fun j hj => by omega)]

/-- The buffer in which it ends, if that is as it should be. -/
theorem oneshot_end (hnext : c.next < t.len) (hlen : t.len < c.next + buf.length)
    (hfirst : buf.length ≤ t.len ∨ c.next = 0) :
    oneshotMoreData t c buf = (mapFrom (once t) c.next buf, finishedCallback { c with next := t.len }) := by
  simp only [oneshotMoreData]
  rw [if_neg (by omega)]
  split
  · obtain hzero : c.next = 0 := by omega
    rw [hzero, track2in1_eq_once (fun j hj => by omega)]
  · rw [if_neg (by omega), track2in1_eq_once (fun j hj => by omega)]

/-- A buffer that ends together with it: no callback. -/
theorem oneshot_exact (hnext : c.next < t.len) (hlen : t.len = c.next + buf.length) :
    oneshotMoreData t c buf = (mapFrom (once t) c.next buf, { c with next := t.len }) := by
  simp only [oneshotMoreData]
  rw [if_neg (by omega), if_neg (by omega), if_pos (by omega), track2in1_eq_once (fun j hj => by omega), hlen]

/-- A later buffer that is longer than the ring tone: it is mixed in from its start again. -/
theorem oneshot_again (hnext : c.next < t.len) (hlen : t.len < buf.length) :
    (oneshotMoreData t c buf).1 = track2in1 t 0 0 t.len buf := by
  rw [oneshotMoreData, if_neg (by omega), if_pos hlen]

/-- The calls of `app_ring_merge_more_data`. -/
abbrev oneshotCalls (t : Tone) (c : Config) (bufs : List (List α)) : List α × Config :=
  calls (moreData (oneshotMoreData t)) c bufs

/-- When the ring tone is over or the merge has stopped, nothing happens any more. -/
theorem oneshotCalls_over {k : Nat} (hk : t.len ≤ k) (hc : c.status = .stop ∨ c.next = t.len) (bufs : List (List α)) :
    (oneshotCalls t c bufs).1 = mapFrom (once t) k bufs.flatten ∧ (oneshotCalls t c bufs).2.finished = c.finished := by
  have h := calls_eq_mapFrom (moreData (oneshotMoreData t)) (once t) k
    (fun k d => t.len ≤ k ∧ (d.status = .stop ∨ d.next = t.len) ∧ d.finished = c.finished) ?_ ⟨hk, hc, rfl⟩ bufs
  · exact ⟨h.1, h.2.2.2⟩
  · rintro k d buf ⟨hk, hd, hfin⟩
    have hself : mapFrom (once t) k buf = buf := mapFrom_eq_self fun j s _ => if_neg (by omega)
    rw [moreData]
    split
    · exact ⟨hself.symm, by omega, hd, hfin⟩
    · rename_i hrun
      have hend := hd.resolve_left hrun
      simp only [oneshotMoreData, hend, if_true]
      exact ⟨hself.symm, by omega, .inr trivial, hfin⟩

/-- `EndsInside`, call by call. -/
def EndsFrom (len : Nat) : Nat → List Nat → Prop
  | _, [] => True
  | next, n :: ns => if next + n < len then EndsFrom len (next + n) ns else len ≠ next + n ∧ (n ≤ len ∨ next = 0)

theorem endsFrom_iff {len next : Nat} {ns : List Nat} (hnext : next < len) : EndsFrom len next ns ↔
    ∀ before n after, ns = before ++ n :: after → next + before.sum < len → len ≤ next + before.sum + n →
      len ≠ next + before.sum + n ∧ (n ≤ len ∨ next + before.sum = 0) := by
  induction ns generalizing next with
  | nil => simp [EndsFrom]
  | cons m ns ih =>
    rw [EndsFrom]
    split
    · rename_i hlt
      rw [ih hlt]
      constructor
      · intro h before n after heq hbefore hle
        cases before with
        | nil =>
          obtain ⟨rfl, -⟩ := List.cons.inj heq
          simp only [List.sum_nil] at hle
          omega
        | cons b before =>
          obtain ⟨rfl, rfl⟩ := List.cons.inj heq
          rw [List.sum_cons, ← Nat.add_assoc] at hbefore hle ⊢
          exact h before n after rfl hbefore hle
      · rintro h before n after rfl hbefore hle
        have hcons := h (m :: before) n after rfl
        rw [List.sum_cons, ← Nat.add_assoc] at hcons
        exact hcons hbefore hle
    · rename_i hge
      constructor
      · rintro h before n after heq hbefore hle
        cases before with
        | nil =>
          obtain ⟨rfl, -⟩ := List.cons.inj heq
          exact h
        | cons b before =>
          obtain ⟨rfl, rfl⟩ := List.cons.inj heq
          rw [List.sum_cons] at hbefore
          omega
      · intro h
        have hnil := h [] m ns rfl
        simp only [List.sum_nil, Nat.add_zero] at hnil
        exact hnil hnext (by omega)

/-- What is left of the playback behind `k` samples of the ring tone. -/
def PlayedFrom (t : Tone) (k : Nat) (c : Config) (bufs : List (List α)) : Prop :=
  (oneshotCalls t c bufs).1 = mapFrom (once t) k bufs.flatten ∧
    (oneshotCalls t c bufs).2.finished = c.finished + if t.len ≤ k + bufs.flatten.length then 1 else 0

omit [DataType α] in
theorem moreData_running (handler : Config → List α → List α × Config) (hc : c.status ≠ .stop) (buf : List α) :
    moreData handler c buf = handler { c with status := .running } buf := by rw [moreData, if_neg hc]

theorem PlayedFrom.cons_before {bufs : List (List α)} (hc : c.status ≠ .stop)
    (h : c.next + buf.length < t.len) : PlayedFrom t c.next c (buf :: bufs) ↔
      PlayedFrom t (c.next + buf.length) { c with status := .running, next := c.next + buf.length } bufs := by
  simp only [PlayedFrom, oneshotCalls, calls, moreData_running _ hc]
  rw [oneshot_before (by exact h), List.flatten_cons, append_eq_mapFrom_iff (by simp), List.length_append,
    ← Nat.add_assoc]
  exact ⟨fun h => ⟨h.1.2, h.2⟩, fun h => ⟨⟨rfl, h.1⟩, h.2⟩⟩

theorem PlayedFrom.cons_end {bufs : List (List α)} (hc : c.status ≠ .stop) (hnext : c.next < t.len)
    (hlen : t.len < c.next + buf.length) (hfirst : buf.length ≤ t.len ∨ c.next = 0) :
    PlayedFrom t c.next c (buf :: bufs) := by
  obtain ⟨hout, hfin⟩ := oneshotCalls_over (t := t) (k := c.next + buf.length)
    (c := finishedCallback { c with status := .running, next := t.len }) (by omega) (.inl rfl) bufs
  simp only [PlayedFrom, oneshotCalls, calls, moreData_running _ hc]
  rw [oneshot_end (by exact hnext) (by exact hlen) (by exact hfirst), List.flatten_cons,
    append_eq_mapFrom_iff (by simp), if_pos (by rw [List.length_append]; omega)]
  exact ⟨⟨rfl, hout⟩, hfin⟩

/-- If a buffer ends together with the ring tone, the callback is never called. -/
theorem not_playedFrom_exact {bufs : List (List α)} (hc : c.status ≠ .stop) (hnext : c.next < t.len)
    (hlen : t.len = c.next + buf.length) : ¬ PlayedFrom t c.next c (buf :: bufs) := by
  obtain ⟨-, hfin⟩ := oneshotCalls_over (t := t) (k := t.len)
    (c := { c with status := .running, next := t.len }) (Nat.le_refl _) (.inr rfl) bufs
  simp only [PlayedFrom, oneshotCalls, calls, moreData_running _ hc]
  rw [oneshot_exact (by exact hnext) (by exact hlen), List.flatten_cons, List.length_append, if_pos (by omega)]
  rintro ⟨-, h⟩
  have : c.finished = c.finished + 1 := hfin.symm.trans h
  omega

/-- A later buffer that is longer than the ring tone, with a sample at which it
can be heard that the ring tone goes on behind its end. -/
theorem not_playedFrom_again {bufs : List (List α)} (hc : c.status ≠ .stop) (hnext : c.next < t.len)
    (hlen : t.len < buf.length) (hpos : 0 < c.next) {s : α} (hs : buf[t.len - c.next]? = some s)
    (hheard : DataType.track2in1 s (t.pbuf (t.len - c.next)) ≠ s) : ¬ PlayedFrom t c.next c (buf :: bufs) := by
  rintro ⟨h, -⟩
  simp only [oneshotCalls, calls, moreData_running _ hc] at h
  have hlength : (oneshotMoreData t { c with status := .running } buf).1.length = buf.length := by
    rw [oneshot_again (by exact hnext) hlen]
    simp [track2in1]
  rw [List.flatten_cons, append_eq_mapFrom_iff hlength, oneshot_again (by exact hnext) hlen, track2in1,
    mapFrom_eq_iff] at h
  have hmixed := h.1 _ _ hs
  rw [if_pos (by omega), once, if_neg (by omega)] at hmixed
  simp only [Nat.zero_add, Nat.sub_zero] at hmixed
  exact hheard hmixed

/-- Buffers of these lengths, at whose samples a ring sample can be heard. -/
theorem exists_heard (α : Type) [DataType α] (r : Int16) (ns : List Nat) : ∃ bufs : List (List α),
    bufs.map List.length = ns ∧ ∀ buf ∈ bufs, ∀ s ∈ buf, DataType.track2in1 s r ≠ s := by
  obtain ⟨s, hs⟩ := DataType.heard (α := α) r
  refine ⟨ns.map (List.replicate · s), ?_, fun buf hbuf s' hs' => ?_⟩
  · rw [List.map_map]
    exact (List.map_congr_left fun n _ => List.length_replicate).trans (List.map_id ns)
  · obtain ⟨n, -, rfl⟩ := List.mem_map.1 hbuf
    rw [List.eq_of_mem_replicate hs']
    exact hs

/-- The buffers before the one in which the ring tone ends do no harm; the rest
depends on that one. -/
theorem playedFrom_iff (hc : c.status ≠ .stop) (hnext : c.next < t.len) (ns : List Nat) :
    (∀ bufs : List (List α), bufs.map List.length = ns → PlayedFrom t c.next c bufs) ↔ EndsFrom t.len c.next ns := by
  induction ns generalizing c with
  | nil => simp [EndsFrom, PlayedFrom, oneshotCalls, calls, Nat.not_le.2 hnext]
  | cons n ns ih =>
    obtain ⟨_ | ⟨buf, bufs⟩, hlens, hheard⟩ := exists_heard α (t.pbuf (t.len - c.next)) (n :: ns)
    · cases hlens
    obtain ⟨rfl, hlens'⟩ := List.cons.inj hlens
    rw [EndsFrom]
    split
    · rename_i hlt
      rw [← ih (c := { c with status := .running, next := c.next + buf.length }) (by simp) hlt]
      constructor
      · intro h rest hrest
        exact (PlayedFrom.cons_before hc hlt).1 (h (buf :: rest) (by rw [List.map_cons, hrest]))
      · rintro h (_ | ⟨first, rest⟩) hrest
        · cases hrest
        · obtain ⟨hlen, hrest⟩ := List.cons.inj hrest
          rw [← hlen] at hlt h
          exact (PlayedFrom.cons_before hc hlt).2 (h rest hrest)
    · rename_i hge
      constructor
      · intro h
        have hplayed := h (buf :: bufs) hlens
        refine ⟨fun heq => not_playedFrom_exact hc hnext heq hplayed, ?_⟩
        by_contra hlong
        have hlt : t.len - c.next < buf.length := by omega
        exact not_playedFrom_again hc hnext (by omega) (by omega) (List.getElem?_eq_getElem hlt)
          (hheard buf List.mem_cons_self _ (List.getElem_mem hlt)) hplayed
      · rintro ⟨hne, hfirst⟩ (_ | ⟨first, rest⟩) hrest
        · cases hrest
        · obtain ⟨hlen, -⟩ := List.cons.inj hrest
          exact .cons_end hc hnext (by omega) (by omega)

/-! ## The periodic merge -/

theorem periodicLoop_spec (curr_size remain_size : Nat) (buf : List α) (hlen : buf.length = curr_size + remain_size) :
    (periodicLoop t 0 curr_size remain_size buf).1 = mapFrom (fun i s =>
        if curr_size ≤ i then DataType.track2in1 s (t.pbuf ((i - curr_size) % t.len)) else s) 0 buf ∧
      (periodicLoop t 0 curr_size remain_size buf).2 ≤ t.len ∧
      (periodicLoop t 0 curr_size remain_size buf).2 % t.len = remain_size % t.len := by
  have hpos := t.len_pos
  induction remain_size using Nat.strongRecOn generalizing curr_size buf with
  | ind remain_size ih =>
    rw [periodicLoop, if_neg (by simp)]
    split
    · rename_i hmore
      rw [if_pos (by omega)]
      obtain ⟨hout, hle, hmod⟩ := ih (remain_size - t.len) (by omega) (curr_size + t.len)
        (track2in1 t curr_size 0 t.len buf) (by simp only [track2in1, length_mapFrom]; omega)
      refine ⟨?_, hle, ?_⟩
      · rw [hout, track2in1, mapFrom_mapFrom]
        refine mapFrom_eq_iff.2 fun i s _ => ?_
        simp only [Nat.zero_add]
        by_cases hlater : curr_size + t.len ≤ i
        · -- one round of the ring further on
          rw [if_pos hlater, if_neg (by omega), if_pos (by omega),
            Nat.mod_eq_sub_mod (a := i - curr_size) (by omega), Nat.sub_sub]
        · rw [if_neg hlater]
          by_cases hround : curr_size ≤ i
          · rw [if_pos ⟨hround, by omega⟩, if_pos hround, Nat.mod_eq_of_lt (by omega)]
          · rw [if_neg (fun h => hround h.1), if_neg hround]
      · rw [hmod, ← Nat.mod_eq_sub_mod (by omega)]
    · rename_i hlast
      refine ⟨?_, by dsimp only; omega, rfl⟩
      dsimp only
      rw [track2in1]
      refine mapFrom_eq_iff.2 fun i s hs => ?_
      have hi := (List.getElem?_eq_some_iff.1 hs).1
      simp only [Nat.zero_add]
      by_cases hround : curr_size ≤ i
      · rw [if_pos ⟨hround, by omega⟩, if_pos hround]
        -- the ring may end together with the buffer
        rw [Nat.mod_eq_of_lt (by omega)]
      · rw [if_neg (fun h => hround h.1), if_neg hround]

/-- A call mixes in the ring from `next` on, over and over. -/
theorem periodic_spec (hnext : c.next ≤ t.len) (buf : List α) :
    (periodicMoreData t c buf).1 = mapFrom (looped t) c.next buf ∧ (periodicMoreData t c buf).2.next ≤ t.len ∧
      (periodicMoreData t c buf).2.next % t.len = (c.next + buf.length) % t.len ∧
      (periodicMoreData t c buf).2.status = c.status ∧ (periodicMoreData t c buf).2.finished = c.finished := by
  have hpos := t.len_pos
  rw [periodicMoreData]
  dsimp only
  split
  · rename_i hlong
    by_cases hzero : c.next = 0
    · obtain ⟨hout, hle, hmod⟩ := periodicLoop_spec (t := t) 0 buf.length buf (Nat.zero_add _).symm
      rw [hzero]
      refine ⟨hout.trans (mapFrom_eq_iff.2 fun i s _ => ?_), hle, ?_, rfl, rfl⟩
      · simp [looped]
      · rw [Nat.zero_add]
        exact hmod
    · -- the rest of the ring, and then from its start
      obtain ⟨hout, hle, hmod⟩ := periodicLoop_spec (t := t) (t.len - c.next) (buf.length - (t.len - c.next))
        (track2in1 t 0 c.next (t.len - c.next) buf) (by simp only [track2in1, length_mapFrom]; omega)
      rw [periodicLoop, if_pos hzero]
      dsimp only
      rw [if_pos (by omega)]
      refine ⟨hout.trans ?_, hle, ?_, rfl, rfl⟩
      · rw [track2in1, mapFrom_mapFrom]
        refine mapFrom_eq_iff.2 fun i s _ => ?_
        simp only [Nat.zero_add, Nat.zero_le, true_and, Nat.sub_zero, looped]
        by_cases hrest : i < t.len - c.next
        · rw [if_neg (by omega), if_pos hrest, Nat.mod_eq_of_lt (by omega)]
        · rw [if_pos (by omega), if_neg hrest, Nat.mod_eq_sub_mod (a := c.next + i) (by omega),
            show c.next + i - t.len = i - (t.len - c.next) by omega]
      · rw [hmod, Nat.mod_eq_sub_mod (a := c.next + buf.length) (by omega),
          show c.next + buf.length - t.len = buf.length - (t.len - c.next) by omega]
  · split
    · rename_i hfits
      refine ⟨?_, by dsimp only; omega, rfl, rfl, rfl⟩
      dsimp only
      rw [track2in1]
      refine mapFrom_eq_iff.2 fun i s hs => ?_
      have hi := (List.getElem?_eq_some_iff.1 hs).1
      simp only [Nat.zero_add, Nat.zero_le, true_and, Nat.sub_zero, looped]
      rw [if_pos hi, Nat.mod_eq_of_lt (by omega)]
    · rename_i hwraps
      refine ⟨?_, by dsimp only; omega, ?_, rfl, rfl⟩
      · dsimp only
        rw [track2in1, track2in1, mapFrom_mapFrom]
        refine mapFrom_eq_iff.2 fun i s hs => ?_
        have hi := (List.getElem?_eq_some_iff.1 hs).1
        simp only [Nat.zero_add, Nat.zero_le, true_and, Nat.sub_zero, looped]
        by_cases hrest : i < t.len - c.next
        · rw [if_neg (by omega), if_pos hrest, Nat.mod_eq_of_lt (by omega)]
        · rw [if_pos (by omega), if_neg hrest, Nat.mod_eq_sub_mod (by omega), Nat.mod_eq_of_lt (by omega),
            show c.next + i - t.len = i - (t.len - c.next) by omega]
      · dsimp only
        rw [Nat.mod_eq_sub_mod (a := c.next + buf.length) (by omega),
          show c.next + buf.length - t.len = buf.length - (t.len - c.next) by omega]

/-- The state of the periodic merge behind `k` samples. -/
structure Periodic (t : Tone) (k : Nat) (c : Config) : Prop where
  status : c.status ≠ .stop
  next : c.next ≤ t.len
  mod : c.next % t.len = k % t.len
  finished : c.finished = 0

theorem looped_congr {k k' : Nat} (h : k % t.len = k' % t.len) (buf : List α) :
    mapFrom (looped t) k buf = mapFrom (looped t) k' buf :=
  mapFrom_eq_iff.2 fun j s _ => by rw [looped, looped, Nat.add_mod, h, ← Nat.add_mod]

theorem Periodic.call {k : Nat} (h : Periodic t k c) (buf : List α) :
    (moreData (periodicMoreData t) c buf).1 = mapFrom (looped t) c.next buf ∧
      Periodic t (k + buf.length) (moreData (periodicMoreData t) c buf).2 := by
  obtain ⟨hout, hnext, hmod, hstatus, hfin⟩ := periodic_spec (t := t) (c := { c with status := .running }) h.next buf
  rw [moreData_running _ h.status]
  refine ⟨hout, ⟨by rw [hstatus]; simp, hnext, ?_, by rw [hfin]; exact h.finished⟩⟩
  rw [hmod, Nat.add_mod, h.mod, ← Nat.add_mod]

/-- After any calls the periodic merge is at the sample of the ring that is next. -/
theorem periodic_calls (t : Tone) (bufs : List (List α)) :
    (calls (moreData (periodicMoreData t)) start bufs).1 = mapFrom (looped t) 0 bufs.flatten ∧
      Periodic t bufs.flatten.length (calls (moreData (periodicMoreData t)) start bufs).2 := by
  have h := calls_eq_mapFrom (moreData (periodicMoreData t)) (looped t) 0 (Periodic t)
    (fun k c buf hc => ⟨(hc.call buf).1.trans (looped_congr hc.mod buf), (hc.call buf).2⟩)
    (s := start) ⟨by decide, Nat.zero_le _, rfl, rfl⟩ bufs
  rwa [Nat.zero_add] at h

/-- For every ring tone. The oneshot merge does what it should for all buffers
of these lengths exactly if the ring tone does not end together with one of
them, and ends in a buffer that is not longer than the ring tone or is the first
one. The periodic merge mixes into sample `i` of a buffer the ring sample at
`next + i`, modulo the length, whatever the buffers before. -/
theorem ring_merge_iff (α : Type) [DataType α] (t : Tone) :
    (∀ ns : List Nat, (∀ bufs : List (List α), bufs.map List.length = ns → Played t bufs (oneshotCalls t start bufs)) ↔
      EndsInside t.len ns) ∧
    ∀ (bufs : List (List α)) (buf : List α),
      let c := (calls (moreData (periodicMoreData t)) start bufs).2
      c.next ≤ t.len ∧ c.next % t.len = bufs.flatten.length % t.len ∧
        (moreData (periodicMoreData t) c buf).1 =
          mapFrom (fun i s => DataType.track2in1 s (t.pbuf ((c.next + i) % t.len))) 0 buf := by
  refine ⟨fun ns => ?_, fun bufs buf => ?_⟩
  · have h := playedFrom_iff (α := α) (t := t) (c := start) (by decide) t.len_pos ns
    rw [endsFrom_iff (by exact t.len_pos)] at h
    simpa [PlayedFrom, Played, EndsInside, start] using h
  · obtain ⟨-, hc⟩ := periodic_calls t bufs
    refine ⟨hc.next, hc.mod, (hc.call buf).1.trans (mapFrom_eq_iff.2 fun i s _ => ?_)⟩
    rw [looped, Nat.zero_add]

end

/-- A ring tone of four samples. -/
def fourSamples : Tone := ⟨fun _ => 8, 4, by decide⟩

/-- In two buffers of two samples it ends together with the second one: the
callback is not called, then or later. -/
theorem never_finished : ¬ Played fourSamples [[0, 0], [0, 0], [0, 0]]
    (oneshotCalls (α := Int16) fourSamples start [[0, 0], [0, 0], [0, 0]]) := by
  rintro ⟨-, h⟩
  exact absurd h (by decide)

end BtApp.RingMerge
