import Mathlib
/-!
# The format of a trace

`hal_trace_printf` and `hal_trace_dump` of `platform/hal/hal_trace.c` put the
pieces of a message into a local buffer, one behind the other, and output it.
`snprintf` returns the length that a piece would have if it were not truncated.
-/

namespace Hal.TraceFormat

/-! ## The code -/

/-- The local arrays. -/
inductive Local where
  | ctx
  | buf
  deriving DecidableEq

/-- What is done with them: `n` bytes are written at an offset; `snprintf` or `vsnprintf` writes at an offset, with
the size that it is given, and returns a length; the beginning of `buf` is output. -/
inductive Access where
  | write (target : Local) (offset n : Nat)
  | snprintf (target : Local) (offset size ret : Nat)
  | output (len : Nat)
  deriving DecidableEq

/-- `size - len`, as an `unsigned int`. -/
def remaining (size len : Nat) : Nat := (size + 2 ^ 32 - len % 2 ^ 32) % 2 ^ 32

/-- Where the code runs: on the other processor, in an interrupt, in a thread with a number, or elsewhere. -/
inductive Context where
  | cp
  | isr
  | threadId
  | fixed

/-- The build, and what is set for the traces. -/
structure Config where
  useTraceId : Bool
  traceTimeStamp : Bool
  crash_handling : Bool
  trace_max_level : Nat
  trace_mod_map : Nat → Bool

/-- The fields of `attr`. -/
structure Attr where
  level : Nat
  module : Nat
  argNum : Nat
  noLf : Bool
  noTs : Bool
  noId : Bool

/-- What the calls of `snprintf` and `vsnprintf` return: for `ctx`, the time, the end of the time stamp and the
message. -/
structure Lengths where
  ctx : Nat
  time : Nat
  stamp : Nat
  message : Nat

/-- `sizeof(ctx)`. -/
abbrev ctxSize : Nat := 10

/-- `sizeof(buf)` in `hal_trace_printf_internal` and in `hal_trace_dump`. -/
def bufSize (cfg : Config) : Nat := if cfg.useTraceId then 60 else 120

abbrev dumpBufSize : Nat := 255

/-- `ctx` is filled. -/
def fillCtx (ret : Nat) : Context → List Access
  | .cp | .fixed => [.write .ctx 0 4, .write .ctx (ctxSize - 1) 1]
  | .isr =>
    [.snprintf .ctx 0 ctxSize ret, if ret + 1 < ctxSize then .write .ctx ret 2 else .write .ctx (ctxSize - 2) 2,
      .write .ctx (ctxSize - 1) 1]
  | .threadId => [.snprintf .ctx 0 ctxSize ret, .write .ctx (ctxSize - 1) 1]

/-- `n` bytes go behind the first `len`, if this many and one more fit. -/
def putFitting (offset size n len : Nat) : List Access × Nat :=
  if len + n < size then ([.write .buf (offset + len) n], len + n) else ([], len)

/-- `hal_trace_print_time`: the time, the level, the module and `ctx`. -/
def halTracePrintTime (cfg : Config) (context : Context) (l : Lengths) (size : Nat) : List Access × Nat :=
  if cfg.traceTimeStamp = false ∨ cfg.crash_handling then ([], 0)
  else
    let level := putFitting 0 size 2 l.time
    let module := putFitting 0 size 7 level.2
    (fillCtx l.ctx context ++ .snprintf .buf 0 (remaining size 0) l.time :: level.1 ++ module.1 ++
      [.snprintf .buf module.2 (remaining size module.2) l.stamp], module.2 + l.stamp)

/-- The end of a line; it needs room for one byte more than the line feed alone. -/
def putNewline (offset size len : Nat) : List Access × Nat :=
  let cr : List Access × Nat := if len + 2 < size then ([.write .buf (offset + len) 1], len + 1) else ([], len)
  let lf := putFitting offset size 1 cr.2
  (cr.1 ++ lf.1, lf.2)

/-- `hal_trace_format_va`, on the buffer from `offset` on. -/
def halTraceFormatVa (noLf : Bool) (offset size ret : Nat) : List Access × Nat :=
  let line := if noLf then ([], ret) else putNewline offset size ret
  (.snprintf .buf offset size ret :: line.1, line.2)

/-- `hal_trace_format_id`: a head of 8 bytes and at most ten arguments. -/
def halTraceFormatId (argNum size : Nat) : Option (List Access × Nat) :=
  if size < 8 + 40 then none
  else
    let num := if argNum > 10 then 10 else argNum
    some ([.write .buf 0 8, .write .buf 8 (4 * num)], 8 + 4 * num)

/-- The trace is not wanted. -/
def Filtered (cfg : Config) (attr : Attr) : Prop :=
  cfg.crash_handling = false ∧
    (attr.level > cfg.trace_max_level ∨ attr.level > 0 ∧ cfg.trace_mod_map attr.module = false)

instance (cfg : Config) (attr : Attr) : Decidable (Filtered cfg attr) := inferInstanceAs (Decidable (_ ∧ _))

/-- `hal_trace_printf_internal`. -/
def halTracePrintfInternal (cfg : Config) (attr : Attr) (context : Context) (l : Lengths) : List Access :=
  if Filtered cfg attr then []
  else
    let size := bufSize cfg
    match if cfg.useTraceId ∧ attr.noId = false then halTraceFormatId attr.argNum size else none with
    | some id => id.1 ++ [.output id.2]
    | none =>
      let time := if attr.noTs then ([], 0) else halTracePrintTime cfg context l (remaining size 0)
      let va := halTraceFormatVa attr.noLf time.2 (remaining size time.2) l.message
      time.1 ++ va.1 ++ [.output (time.2 + va.2)]

/-- The loop of `hal_trace_dump` over the elements from `i` on, `n` of them. -/
def dumpLoop (ret : Nat → Nat) : Nat → Nat → Nat → List Access × Nat
  | 0, _, len => ([], len)
  | n + 1, i, len =>
    if len < dumpBufSize then
      let rest := dumpLoop ret n (i + 1) (len + ret i)
      (.snprintf .buf len (remaining dumpBufSize len) (ret i) :: rest.1, rest.2)
    else ([], len)

/-- The width that the elements are read with. -/
def elementWidth (size : Nat) : Nat := if size = 4 then 4 else if size = 2 then 2 else 1

/-- `hal_trace_dump`; `ret` are the lengths for elements of a width. -/
def halTraceDump (size count : Nat) (ret : Nat → Nat → Nat) : List Access :=
  let elements := dumpLoop (ret (elementWidth size)) count 0 0
  let line := putNewline 0 dumpBufSize elements.2
  .write .buf 0 dumpBufSize :: elements.1 ++ line.1 ++ [.output (line.2 + 1)]

/-! ## Staying in the buffers -/

/-- Inside an array of this size: `snprintf` gets the size that remains, not a wrapped one. -/
def Access.Inside (sizes : Local → Nat) : Access → Prop
  | .write target offset n => offset + n ≤ sizes target
  | .snprintf target offset size ret =>
    offset + min (ret + 1) size ≤ sizes target ∧ (size : Int) = (sizes target : Int) - offset
  | .output len => len ≤ sizes .buf

/-- A call. -/
inductive Call where
  | printf (cfg : Config) (attr : Attr) (context : Context) (l : Lengths)
  | dump (size count : Nat) (ret : Nat → Nat → Nat)

def Call.accesses : Call → List Access
  | .printf cfg attr context l => halTracePrintfInternal cfg attr context l
  | .dump size count ret => halTraceDump size count ret

def Call.sizes : Call → Local → Nat
  | _, .ctx => ctxSize
  | .printf cfg _ _ _, .buf => bufSize cfg
  | .dump _ _ _, .buf => dumpBufSize

/-- All that a call does is inside its arrays. -/
def Call.Safe (c : Call) : Prop := ∀ a ∈ c.accesses, a.Inside c.sizes

/-- The length of a time stamp that is not truncated; the level and the module are left out where they do not fit. -/
def stampLength (size : Nat) (l : Lengths) : Nat :=
  (if l.time + 9 < size then l.time + 9 else if l.time + 2 < size then l.time + 2 else l.time) + l.stamp

/-- The untruncated pieces fit in the buffer. -/
def Call.Fits : Call → Prop
  | .printf cfg attr _ l =>
    Filtered cfg attr ∨ cfg.useTraceId ∧ attr.noId = false ∨
      (if attr.noTs ∨ cfg.traceTimeStamp = false ∨ cfg.crash_handling then 0 else stampLength (bufSize cfg) l) + l.message ≤
        bufSize cfg
  | .dump size count ret => ((List.range count).map (ret (elementWidth size))).sum < dumpBufSize

section Pieces

variable {sizes : Local → Nat} {offset size n len ret : Nat} {as bs : List Access} {l : Lengths}

/-- All of these are inside. -/
def InsideAll (sizes : Local → Nat) (as : List Access) : Prop := ∀ a ∈ as, a.Inside sizes

theorem insideAll_append : InsideAll sizes (as ++ bs) ↔ InsideAll sizes as ∧ InsideAll sizes bs := List.forall_mem_append

theorem insideAll_cons {a : Access} : InsideAll sizes (a :: as) ↔ a.Inside sizes ∧ InsideAll sizes as := List.forall_mem_cons

theorem insideAll_nil : InsideAll sizes [] := List.forall_mem_nil _

theorem insideAll_singleton {a : Access} : InsideAll sizes [a] ↔ a.Inside sizes := List.forall_mem_singleton

theorem remaining_eq (hlen : len ≤ size) (hsize : size < 2 ^ 31) : remaining size len = size - len := by
  rw [remaining]
  omega

/-- A call of `snprintf` is inside exactly when it begins inside. -/
theorem snprintf_inside_iff {target : Local} (hsize : sizes target < 2 ^ 31) :
    (Access.snprintf target offset (remaining (sizes target) offset) ret).Inside sizes ↔ offset ≤ sizes target := by
  constructor
  · rintro ⟨-, hsize⟩
    omega
  · intro hle
    rw [remaining_eq hle hsize]
    exact ⟨by omega, by omega⟩

/-- What is put only where it fits is inside, and stays below the end. -/
theorem putFitting_spec (hsize : offset + size ≤ sizes .buf) (n len : Nat) :
    InsideAll sizes (putFitting offset size n len).1 ∧ len ≤ (putFitting offset size n len).2 ∧
      (len < size → (putFitting offset size n len).2 < size) ∧ (size ≤ len → (putFitting offset size n len).2 = len) := by
  rw [putFitting]
  split
  · refine ⟨insideAll_singleton.mpr ?_, Nat.le_add_right _ _, fun _ => ‹_›, fun hle => by omega⟩
    change offset + len + n ≤ sizes .buf
    omega
  · exact ⟨insideAll_nil, Nat.le_refl _, fun h => h, fun _ => rfl⟩

theorem putNewline_spec (hsize : offset + size ≤ sizes .buf) (len : Nat) :
    InsideAll sizes (putNewline offset size len).1 ∧ len ≤ (putNewline offset size len).2 ∧
      (len < size → (putNewline offset size len).2 < size) ∧ (size ≤ len → (putNewline offset size len).2 = len) := by
  rw [putNewline]
  by_cases hcr : len + 2 < size
  · simp only [if_pos hcr]
    obtain ⟨hinside, hle, hlt, -⟩ := putFitting_spec hsize 1 (len + 1)
    refine ⟨insideAll_append.mpr ⟨insideAll_singleton.mpr ?_, hinside⟩, by omega, fun _ => hlt (by omega), fun hge => by omega⟩
    change offset + len + 1 ≤ sizes .buf
    omega
  · simp only [if_neg hcr, List.nil_append]
    exact putFitting_spec hsize 1 len

/-- A message and its end are inside, and no more than the buffer is output, exactly when the message fits. -/
theorem halTraceFormatVa_inside_iff (hsize : sizes .buf < 2 ^ 31) (noLf : Bool) (offset ret : Nat) :
    InsideAll sizes ((halTraceFormatVa noLf offset (remaining (sizes .buf) offset) ret).1 ++
      [.output (offset + (halTraceFormatVa noLf offset (remaining (sizes .buf) offset) ret).2)]) ↔
      offset + ret ≤ sizes .buf := by
  have hline : offset ≤ sizes .buf →
      InsideAll sizes (if noLf then ([], ret) else putNewline offset (remaining (sizes .buf) offset) ret).1 ∧
        ret ≤ (if noLf then ([], ret) else putNewline offset (remaining (sizes .buf) offset) ret).2 ∧
        (offset + ret ≤ sizes .buf →
          offset + (if noLf then ([], ret) else putNewline offset (remaining (sizes .buf) offset) ret).2 ≤ sizes .buf) := by
    intro hoffset
    cases noLf with
    | true => exact ⟨insideAll_nil, Nat.le_refl _, fun h => h⟩
    | false =>
      rw [if_neg Bool.false_ne_true, remaining_eq hoffset hsize]
      have hend : offset + (sizes .buf - offset) ≤ sizes .buf := by omega
      obtain ⟨hinside, hle, hlt, hge⟩ := putNewline_spec hend ret
      refine ⟨hinside, hle, fun hfits => ?_⟩
      rcases Nat.lt_or_ge ret (sizes .buf - offset) with hless | hfull
      · have := hlt hless
        omega
      · rw [hge hfull]
        exact hfits
  rw [halTraceFormatVa]
  simp only [List.cons_append, insideAll_cons, insideAll_append, insideAll_nil, and_true, snprintf_inside_iff hsize]
  constructor
  · rintro ⟨hoffset, -, hout⟩
    obtain ⟨-, hle, -⟩ := hline hoffset
    exact Nat.le_trans (Nat.add_le_add_left hle offset) hout
  · intro hfits
    have hoffset : offset ≤ sizes .buf := by omega
    obtain ⟨hinside, -, hout⟩ := hline hoffset
    exact ⟨hoffset, hinside, hout hfits⟩

theorem fillCtx_inside (hctx : sizes .ctx = ctxSize) (ret : Nat) (context : Context) :
    InsideAll sizes (fillCtx ret context) := by
  have hwrite (offset n : Nat) (hfits : offset + n ≤ 10) : (Access.write .ctx offset n).Inside sizes := by
    rw [Access.Inside, hctx]
    exact hfits
  have hsnprintf : (Access.snprintf .ctx 0 ctxSize ret).Inside sizes := by
    rw [Access.Inside, hctx]
    exact ⟨by omega, by omega⟩
  cases context with
  | cp => exact insideAll_cons.mpr ⟨hwrite 0 4 (by decide), insideAll_singleton.mpr (hwrite 9 1 (by decide))⟩
  | fixed => exact insideAll_cons.mpr ⟨hwrite 0 4 (by decide), insideAll_singleton.mpr (hwrite 9 1 (by decide))⟩
  | threadId => exact insideAll_cons.mpr ⟨hsnprintf, insideAll_singleton.mpr (hwrite 9 1 (by decide))⟩
  | isr =>
    refine insideAll_cons.mpr ⟨hsnprintf, insideAll_cons.mpr ⟨?_, insideAll_singleton.mpr (hwrite 9 1 (by decide))⟩⟩
    split
    · rename_i hfits
      have hfits : ret + 1 < 10 := hfits
      exact hwrite ret 2 (by omega)
    · exact hwrite 8 2 (by decide)

/-- The pieces of a time stamp are inside exactly when the time fits. -/
theorem halTracePrintTime_inside_iff {cfg : Config} (hsize : sizes .buf < 2 ^ 31) (hctx : sizes .ctx = ctxSize)
    (hstamp : ¬(cfg.traceTimeStamp = false ∨ cfg.crash_handling)) (context : Context) (l : Lengths) :
    (InsideAll sizes (halTracePrintTime cfg context l (sizes .buf)).1 ↔ l.time ≤ sizes .buf) ∧
      (halTracePrintTime cfg context l (sizes .buf)).2 = stampLength (sizes .buf) l := by
  rw [halTracePrintTime, if_neg hstamp]
  have hend : 0 + sizes .buf ≤ sizes .buf := Nat.le_of_eq (Nat.zero_add _)
  obtain ⟨hlevel, hle, hlt, hge⟩ := putFitting_spec hend 2 l.time
  obtain ⟨hmodule, hle', hlt', hge'⟩ := putFitting_spec hend 7 (putFitting 0 (sizes .buf) 2 l.time).2
  constructor
  · simp only [insideAll_append, insideAll_cons, insideAll_nil, and_true, snprintf_inside_iff hsize]
    constructor
    · rintro ⟨-, hlast⟩
      omega
    · intro hfits
      refine ⟨⟨⟨fillCtx_inside hctx l.ctx context, Nat.zero_le _, hlevel⟩, hmodule⟩, ?_⟩
      rcases Nat.lt_or_ge l.time (sizes .buf) with hless | hfull
      · exact Nat.le_of_lt (hlt' (hlt hless))
      · rw [hge' (by rw [hge hfull]; exact hfull), hge hfull]
        exact hfits
  · change (putFitting 0 (sizes .buf) 7 (putFitting 0 (sizes .buf) 2 l.time).2).2 + l.stamp = _
    rw [stampLength]
    congr 1
    simp only [putFitting]
    split_ifs <;> omega

/-- The loop ends with all elements, or with the buffer full. -/
theorem dumpLoop_spec (hsize : sizes .buf = dumpBufSize) (ret : Nat → Nat) (n i len : Nat) :
    InsideAll sizes (dumpLoop ret n i len).1 ∧
      ((dumpLoop ret n i len).2 < dumpBufSize ↔ len + ((List.range' i n).map ret).sum < dumpBufSize) := by
  induction n generalizing i len with
  | zero => exact ⟨insideAll_nil, Iff.rfl⟩
  | succ n ih =>
    rw [dumpLoop]
    by_cases hroom : len < dumpBufSize
    · obtain ⟨hinside, hend⟩ := ih (i + 1) (len + ret i)
      rw [if_pos hroom, List.range'_succ, List.map_cons, List.sum_cons, ← Nat.add_assoc]
      refine ⟨insideAll_cons.mpr ⟨?_, hinside⟩, hend⟩
      rw [← hsize, snprintf_inside_iff (by rw [hsize]; decide), hsize]
      exact Nat.le_of_lt hroom
    · rw [if_neg hroom]
      exact ⟨insideAll_nil, iff_of_false hroom fun h => hroom (Nat.lt_of_le_of_lt (Nat.le_add_right _ _) h)⟩

theorem bufSize_lt (cfg : Config) : bufSize cfg < 2 ^ 31 := by
  rw [bufSize]
  split
  · decide
  · decide

/-- A trace with an id is inside. -/
theorem halTraceFormatId_inside (hsize : sizes .buf = 60) (argNum : Nat) :
    ∃ id, halTraceFormatId argNum 60 = some id ∧ InsideAll sizes (id.1 ++ [.output id.2]) := by
  have hnum : (if argNum > 10 then 10 else argNum) ≤ 10 := by
    split
    · exact Nat.le_refl 10
    · omega
  refine ⟨_, if_neg (by decide), ?_⟩
  simp only [List.cons_append, List.nil_append, insideAll_cons, insideAll_nil, and_true, Access.Inside, hsize]
  omega

/-- The same for a message behind what is there already. -/
theorem line_inside_iff (hsize : sizes .buf < 2 ^ 31) (noLf : Bool) (offset ret : Nat) (as : List Access) :
    InsideAll sizes (as ++ (halTraceFormatVa noLf offset (remaining (sizes .buf) offset) ret).1 ++
      [.output (offset + (halTraceFormatVa noLf offset (remaining (sizes .buf) offset) ret).2)]) ↔
      InsideAll sizes as ∧ offset + ret ≤ sizes .buf := by
  rw [List.append_assoc, insideAll_append, halTraceFormatVa_inside_iff hsize]

end Pieces

theorem printf_safe_iff (cfg : Config) (attr : Attr) (context : Context) (l : Lengths) :
    (Call.printf cfg attr context l).Safe ↔ (Call.printf cfg attr context l).Fits := by
  obtain ⟨sizes, hsizes⟩ : ∃ sizes, sizes = (Call.printf cfg attr context l).sizes := ⟨_, rfl⟩
  have hbuf : sizes .buf = bufSize cfg := by rw [hsizes, Call.sizes]
  have hctx : sizes .ctx = ctxSize := by rw [hsizes, Call.sizes]
  have hlt : sizes .buf < 2 ^ 31 := hbuf ▸ bufSize_lt cfg
  rw [Call.Safe, ← hsizes, Call.Fits, Call.accesses, halTracePrintfInternal, ← hbuf]
  change InsideAll sizes _ ↔ _
  by_cases hfiltered : Filtered cfg attr
  · rw [if_pos hfiltered]
    exact iff_of_true insideAll_nil (.inl hfiltered)
  rw [if_neg hfiltered]
  by_cases hid : cfg.useTraceId ∧ attr.noId = false
  · have hsize : sizes .buf = 60 := by rw [hbuf, bufSize, if_pos hid.1]
    obtain ⟨id, heq, hinside⟩ := halTraceFormatId_inside hsize attr.argNum
    simp only [if_pos hid, hsize, heq]
    exact iff_of_true hinside (.inr (.inl hid))
  simp only [if_neg hid]
  simp only [hfiltered, hid, false_or]
  by_cases hnone : attr.noTs ∨ cfg.traceTimeStamp = false ∨ cfg.crash_handling
  · have htime : (if attr.noTs then ([], 0) else halTracePrintTime cfg context l (remaining (sizes .buf) 0)) =
        (([], 0) : List Access × Nat) := by
      split
      · rfl
      · rename_i hts
        exact if_pos (hnone.resolve_left hts)
    rw [htime, if_pos hnone, line_inside_iff hlt]
    exact and_iff_right insideAll_nil
  · obtain ⟨hts, hstamp⟩ := not_or.mp hnone
    obtain ⟨hinside, hend⟩ := halTracePrintTime_inside_iff hlt hctx hstamp context l
    rw [if_neg hts, if_neg hnone, remaining_eq (Nat.zero_le _) hlt, Nat.sub_zero, line_inside_iff hlt, hinside, hend]
    have hle : l.time ≤ stampLength (sizes .buf) l := by
      rw [stampLength]
      split_ifs <;> omega
    exact and_iff_right_of_imp fun hfits => by omega

theorem dump_safe_iff (size count : Nat) (ret : Nat → Nat → Nat) :
    (Call.dump size count ret).Safe ↔ (Call.dump size count ret).Fits := by
  obtain ⟨sizes, hsizes⟩ : ∃ sizes, sizes = (Call.dump size count ret).sizes := ⟨_, rfl⟩
  have hbuf : sizes .buf = dumpBufSize := by rw [hsizes, Call.sizes]
  rw [Call.Safe, ← hsizes, Call.Fits, Call.accesses, halTraceDump]
  change InsideAll sizes _ ↔ _
  obtain ⟨hinside, hend⟩ := dumpLoop_spec hbuf (ret (elementWidth size)) count 0 0
  have hbound : 0 + dumpBufSize ≤ sizes .buf := Nat.le_of_eq (by rw [hbuf, Nat.zero_add])
  obtain ⟨hline, hle, hlt, -⟩ := putNewline_spec hbound (dumpLoop (ret (elementWidth size)) count 0 0).2
  rw [Nat.zero_add, ← List.range_eq_range'] at hend
  rw [← hend]
  simp only [List.cons_append, insideAll_append, insideAll_cons, insideAll_nil, and_true, Access.Inside, hbuf]
  constructor
  · rintro ⟨-, -, hout⟩
    omega
  · intro hfits
    exact ⟨Nat.le_of_eq (Nat.zero_add _), ⟨hinside, hline⟩, hlt hfits⟩

/-- A call stays inside its buffers exactly when its untruncated pieces fit. -/
theorem formatting_safe_iff (c : Call) : c.Safe ↔ c.Fits := by
  cases c with
  | printf cfg attr context l => exact printf_safe_iff cfg attr context l
  | dump size count ret => exact dump_safe_iff size count ret

/-- The default build, and an error without filters. -/
abbrev plain : Config := ⟨false, false, false, 2, fun _ => true⟩

abbrev error : Attr := ⟨1, 0, 1, false, false, false⟩

/-- A message of 200 characters is cut, but 200 bytes are output. -/
theorem message_past_the_end : .output 200 ∈ (Call.printf plain error .fixed ⟨0, 0, 0, 200⟩).accesses ∧
    ¬(Call.printf plain error .fixed ⟨0, 0, 0, 200⟩).Safe := by
  have hmem : Access.output 200 ∈ (Call.printf plain error .fixed ⟨0, 0, 0, 200⟩).accesses :=
    List.mem_of_mem_getLast? (by decide)
  refine ⟨hmem, fun hsafe => ?_⟩
  have hout : 200 ≤ 120 := hsafe _ hmem
  exact absurd hout (by decide)

end Hal.TraceFormat
