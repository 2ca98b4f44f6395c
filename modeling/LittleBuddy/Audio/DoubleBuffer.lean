import LittleBuddy.Audio.DmaBuffer
/-!
# Which streams are double buffered

A stream that the assertions accept is double buffered where the size of a transfer
fits in its 16 bits, the playback of separated channels has two of them, and the way
back from the last channel to the first one fits in its 16 bits.
-/

namespace Audioflinger.StreamCfg

variable {c : StreamCfg} {i i' t t' : Nat} {a b : Int}

/-! ## Sizes -/

theorem le_roundCnt (n : Nat) : n ≤ roundCnt n := by
  unfold roundCnt
  split_ifs with h1 h2
  · omega
  · exact Nat.le_of_lt Nat.lt_log2_self
  · exact Nat.le_refl n

theorem roundCnt_even {n : Nat} (h : roundCnt n ≤ maxAudioBufferCount) : roundCnt n ∈ [2, 4, 8, 16] := by
  have hall : ∀ n ≤ 16, roundCnt n ≤ maxAudioBufferCount → roundCnt n ∈ [2, 4, 8, 16] := by decide
  exact hall n ((le_roundCnt n).trans h) h

theorem Accepted.bufferCount (h : c.Accepted) : c.bufferCount ∈ [2, 4, 8, 16] := by
  unfold StreamCfg.bufferCount
  split_ifs with hdyn
  · exact roundCnt_even (h.count hdyn).2
  · simp

theorem Accepted.two_le (h : c.Accepted) : 2 ≤ c.bufferCount := by
  have := h.bufferCount
  simp at this
  omega

theorem Accepted.count_le (h : c.Accepted) : c.bufferCount ≤ 16 := by
  have := h.bufferCount
  simp at this
  omega

theorem Accepted.even (h : c.Accepted) : c.bufferCount = 2 * (c.bufferCount / 2) := by
  have := h.bufferCount
  simp at this
  omega

theorem sampSize_pos : 0 < c.sampSize := by
  unfold sampSize
  split <;> omega

theorem burstSize_pos : 0 < c.burstSize := by
  unfold burstSize
  split <;> omega

theorem Accepted.size' (h : c.Accepted) : c.data_size = c.bufferCount * c.descXferSize := by
  rw [← h.size, Nat.mul_comm]

/-- With separated channels a descriptor has a number of whole rows. -/
theorem Accepted.rows (h : c.Accepted) (hs : c.Separated) :
    ∃ rows, c.descXferSize = c.sampSize * (c.channel_num * (rows * c.burstSize)) := by
  have hunit : c.burstSize * c.sampSize * c.channel_num ∣ c.align := by
    rw [align, if_pos hs]
    dsimp only
    split_ifs
    · exact Nat.dvd_mul_right _ _
    · exact Nat.dvd_mul_right _ _
    · exact Nat.dvd_refl _
  obtain ⟨rows, hrows⟩ := hunit.trans (Nat.dvd_of_mod_eq_zero h.aligned)
  refine ⟨rows, ?_⟩
  rw [hrows]
  ring

/-- A descriptor has a number of whole samples. -/
theorem Accepted.samples (h : c.Accepted) : c.descXferSize = c.sampSize * (c.descXferSize / c.sampSize) := by
  have hdvd : c.sampSize ∣ c.descXferSize := by
    by_cases hs : c.Separated
    · obtain ⟨rows, hrows⟩ := h.rows hs
      exact ⟨_, hrows⟩
    · have haligned := Nat.dvd_of_mod_eq_zero h.aligned
      rw [align, if_neg hs] at haligned
      apply Nat.dvd_trans _ haligned
      rcases h.bits with hb | hb | hb <;> simp [sampSize, hb]
  exact (Nat.mul_div_cancel' hdvd).symm

theorem Accepted.total (h : c.Accepted) : c.data_size / c.sampSize = c.bufferCount * (c.descXferSize / c.sampSize) := by
  apply Nat.div_eq_of_eq_mul_right sampSize_pos
  calc c.data_size = c.bufferCount * (c.sampSize * (c.descXferSize / c.sampSize)) := by rw [← h.samples, h.size']
    _ = c.sampSize * (c.bufferCount * (c.descXferSize / c.sampSize)) := by ring

/-- Where the number of descriptors is dynamic none of them is too long. -/
theorem Accepted.dynamic_le (h : c.Accepted) (hdyn : c.dynamic = true) : c.descXferSize / c.sampSize ≤ maxDescXferSize := by
  have hcnt : (c.data_size / c.sampSize + maxDescXferSize - 1) / maxDescXferSize ≤ c.bufferCount := by
    rw [StreamCfg.bufferCount, if_pos hdyn]
    exact le_roundCnt _
  have hpos : 0 < c.bufferCount := Nat.lt_of_lt_of_le Nat.two_pos h.two_le
  rw [h.total] at hcnt
  generalize c.descXferSize / c.sampSize = n at *
  have hle : c.bufferCount * n ≤ c.bufferCount * maxDescXferSize := by
    have := Nat.lt_mul_of_div_lt (Nat.lt_succ_of_le hcnt) (by decide)
    unfold maxDescXferSize at *
    omega
  exact Nat.le_of_mul_le_mul_left hle hpos

/-! ## The layout -/

variable (c) in
/-- What a stream has to fit in. -/
structure Fits : Prop where
  fixed : c.dynamic = false → c.data_size / 4 / c.sampSize < 2 ^ 16
  playback : c.Separated → c.stream = .playback → c.data_size = 0 ∨ c.channel_num = 2
  capture : c.Separated → c.data_size / c.sampSize / c.channel_num * (c.channel_num - 1) ≤ 2 ^ 15

instance : Decidable c.Fits :=
  decidable_of_iff _
    ⟨fun h => ⟨h.1, h.2.1, h.2.2⟩, fun h => (⟨h.1, h.2, h.3⟩ : _ ∧ _ ∧ _)⟩

variable (c) in
/-- The samples of the buffer as the descriptors go over them. -/
def layout : Interleave :=
  if hs : c.Separated then
    { lanes := c.channel_num
      pieces := c.bufferCount
      burst := c.burstSize
      rows := c.srcTsize / c.channel_num / c.burstSize
      lanes_pos := Nat.lt_trans Nat.zero_lt_one hs.2
      burst_pos := burstSize_pos }
  else
    { lanes := 1
      pieces := c.bufferCount
      burst := 1
      rows := c.srcTsize
      lanes_pos := Nat.one_pos
      burst_pos := Nat.one_pos }

theorem srcTsize_eq (h : c.Accepted) (hfit : c.dynamic = false → c.data_size / 4 / c.sampSize < 2 ^ 16) :
    c.srcTsize = c.descXferSize / c.sampSize := by
  apply Nat.mod_eq_of_lt
  cases hdyn : c.dynamic with
  | true =>
    have hle := h.dynamic_le hdyn
    unfold maxDescXferSize at hle
    omega
  | false =>
    have hcount : c.bufferCount = 4 := by simp [bufferCount, hdyn]
    rw [descXferSize, hcount]
    exact hfit hdyn

theorem layout_pieces : c.layout.pieces = c.bufferCount := by
  unfold layout
  split <;> rfl

theorem layout_lanes (hs : c.Separated) : c.layout.lanes = c.channel_num := by simp [layout, hs]

section Layout

variable (h : c.Accepted) (hsize : c.srcTsize = c.descXferSize / c.sampSize)
include h hsize

theorem descXferSize_eq : c.descXferSize = c.sampSize * c.srcTsize := by
  rw [hsize]
  exact h.samples

/-- A separated channel has the rows of a descriptor's transfers. -/
theorem separated_rows (hs : c.Separated) :
    c.srcTsize = c.channel_num * (c.srcTsize / c.channel_num / c.burstSize * c.burstSize) := by
  obtain ⟨rows, hrows⟩ := h.rows hs
  have htsize : c.srcTsize = c.channel_num * (rows * c.burstSize) := by
    rw [hsize, hrows, Nat.mul_div_cancel_left _ sampSize_pos]
  have hchannel : c.srcTsize / c.channel_num = rows * c.burstSize := by
    rw [htsize, Nat.mul_div_cancel_left _ (Nat.lt_trans Nat.zero_lt_one hs.2)]
  rw [hchannel, Nat.mul_div_cancel _ burstSize_pos, ← htsize]

theorem layout_items : c.layout.items = c.srcTsize := by
  unfold layout Interleave.items Interleave.width
  split_ifs with hs
  · exact (separated_rows h hsize hs).symm
  · simp

theorem layout_size : c.sampSize * (c.layout.lanes * c.layout.stride) = c.data_size := by
  have hitems := layout_items h hsize
  rw [h.size', descXferSize_eq h hsize, ← hitems, ← layout_pieces]
  unfold Interleave.items Interleave.stride
  ring

theorem addr_eq : (c.dmaDesc i).addr = c.data_ptr + c.sampSize * (i * c.layout.width) := by
  have hitems := layout_items h hsize
  have hdesc := descXferSize_eq h hsize
  unfold dmaDesc
  dsimp only
  by_cases hs : c.Separated
  · have hchan : c.chanDescXferSize = c.sampSize * c.layout.width := by
      apply Nat.div_eq_of_eq_mul_right (Nat.lt_trans Nat.zero_lt_one hs.2)
      rw [hdesc, ← hitems, Interleave.items, layout_lanes hs]
      ring
    rw [if_pos hs, hchan]
    ring
  · have hwidth : c.layout.width = c.srcTsize := by simp [layout, hs, Interleave.width]
    rw [if_neg hs, hdesc, hwidth]
    ring

theorem chanXferCnt_eq (hs : c.Separated) : c.chanXferCnt = c.layout.stride := by
  have hitems := layout_items h hsize
  rw [Interleave.items, layout_lanes hs] at hitems
  apply Nat.div_eq_of_eq_mul_right (Nat.lt_trans Nat.zero_lt_one hs.2)
  rw [← hitems, Interleave.stride, layout_pieces]
  ring

theorem chan_eq : c.data_size / c.sampSize / c.channel_num = c.chanXferCnt := by
  rw [h.total, ← hsize, chanXferCnt, Nat.mul_comm]

/-- The ways to the next channel and back fit in their 16 bits. -/
theorem dma2dCfg_eq (hs : c.Separated)
    (hfit : c.data_size / c.sampSize / c.channel_num * (c.channel_num - 1) ≤ 2 ^ 15) :
    c.dma2dCfg = ⟨c.layout.burst, c.layout.lanes, c.layout.stride - c.layout.burst,
      -(c.layout.stride * (c.layout.lanes - 1))⟩ := by
  have hburst : c.layout.burst = c.burstSize := by simp [layout, hs]
  have hchan := hs.2
  have hback : c.layout.stride * (c.channel_num - 1) ≤ 2 ^ 15 := by rwa [chan_eq h hsize, chanXferCnt_eq h hsize hs] at hfit
  have hnext : c.layout.stride ≤ 2 ^ 15 := (Nat.le_mul_of_pos_right _ (by omega)).trans hback
  have hbsize : 0 < c.burstSize ∧ c.burstSize ≤ 4 := by
    unfold burstSize
    split <;> omega
  unfold dma2dCfg
  rw [chanXferCnt_eq h hsize hs, layout_lanes hs, hburst]
  congr 1
  · apply Int.bmod_eq_of_le <;> omega
  · have hcast : ((c.channel_num - 1 : Nat) : Int) = c.channel_num - 1 := by omega
    rw [← hcast]
    apply Int.bmod_eq_of_le <;> norm_cast <;> omega

end Layout

variable (c) in
/-- A lane of the buffer, `chan_size` with separated channels. -/
def laneSize : Nat := c.sampSize * c.layout.stride

theorem laneSize_even (h : c.Accepted) : c.laneSize = 2 * (c.laneSize / 2) := by
  have hdvd : 2 ∣ c.laneSize := by
    rw [laneSize, Interleave.stride, layout_pieces]
    exact Dvd.dvd.mul_left (Dvd.dvd.mul_right ⟨_, h.even⟩ _) _
  omega

/-! ## Double buffering -/

section Fits

variable (h : c.Accepted) (hfit : c.Fits)
include h hfit

/-- A transfer is where the layout has its sample. -/
theorem transferAddr_eq (ht : t < c.srcTsize) : c.transferAddr i t = (c.data_ptr + c.sampSize * c.layout.place i t : Nat) := by
  have hsize := srcTsize_eq h hfit.fixed
  have hoffset : c.transferOffset t = c.layout.lane t * c.layout.stride + c.layout.inner t := by
    by_cases hs : c.Separated
    · have hdma : c.dma2d = some c.dma2dCfg := by
        rw [dma2d, if_pos hs]
        cases hstream : c.stream with
        | playback =>
          -- there is a transfer, so the buffer is not empty
          rcases hfit.playback hs hstream with hzero | htwo
          · rw [hsize, descXferSize, hzero] at ht
            simp at ht
          · exact if_pos htwo
        | capture => rfl
      rw [transferOffset, hdma, dma2dCfg_eq h hsize hs (hfit.capture hs)]
      exact Interleave.walk_eq t
    · have hdma : c.dma2d = none := if_neg hs
      rw [transferOffset, hdma]
      simp [layout, hs, Interleave.lane, Interleave.inner]
  rw [transferAddr, hoffset, addr_eq h hsize, Interleave.place]
  push_cast
  ring

/-- The bytes of a transfer are those of its sample. -/
theorem covers_iff : c.Covers i t a ↔ i < c.layout.pieces ∧ t < c.layout.items ∧
    ∃ r < c.sampSize, a = (c.data_ptr + (c.layout.place i t * c.sampSize + r) : Nat) := by
  have hsize := srcTsize_eq h hfit.fixed
  rw [layout_items h hsize, layout_pieces]
  unfold Covers
  refine and_congr_right fun _ => and_congr_right fun ht => ?_
  rw [transferAddr_eq h hfit ht, Nat.mul_comm c.sampSize]
  constructor
  · rintro ⟨hlo, hhi⟩
    refine ⟨(a - (c.data_ptr + c.layout.place i t * c.sampSize : Nat)).toNat, ?_, ?_⟩ <;> omega
  · rintro ⟨r, hr, rfl⟩
    omega

theorem inBuffer_of_covers (hc : c.Covers i t a) : c.InBuffer a := by
  have hsize := srcTsize_eq h hfit.fixed
  obtain ⟨hi, ht, r, hr, rfl⟩ := (covers_iff h hfit).1 hc
  have hlt := Interleave.mul_add_lt (Interleave.place_lt hi ht) hr
  rw [Nat.mul_comm (c.layout.lanes * c.layout.stride), layout_size h hsize] at hlt
  unfold InBuffer
  omega

/-- Every byte of the buffer is that of a place in the layout. -/
theorem exists_covers (ha : c.InBuffer a) : ∃ i t, c.Covers i t a := by
  have hsize := srcTsize_eq h hfit.fixed
  obtain ⟨hlo, hhi⟩ := ha
  obtain ⟨n, rfl⟩ : ∃ n : Nat, a = (c.data_ptr + n : Nat) := ⟨(a - c.data_ptr).toNat, by omega⟩
  have hplace : n / c.sampSize < c.layout.lanes * c.layout.stride := by
    apply Nat.div_lt_of_lt_mul
    rw [layout_size h hsize]
    omega
  obtain ⟨i, t, hi, ht, he⟩ := Interleave.exists_place hplace
  refine ⟨i, t, (covers_iff h hfit).2 ⟨hi, ht, n % c.sampSize, Nat.mod_lt n sampSize_pos, ?_⟩⟩
  rw [he, Nat.div_add_mod']

theorem covers_unique (hc : c.Covers i t a) (hc' : c.Covers i' t' a) : i = i' ∧ t = t' := by
  obtain ⟨hi, ht, r, hr, ha⟩ := (covers_iff h hfit).1 hc
  obtain ⟨hi', ht', r', hr', ha'⟩ := (covers_iff h hfit).1 hc'
  have hbyte : c.layout.place i t * c.sampSize + r = c.layout.place i' t' * c.sampSize + r' := by omega
  exact Interleave.place_inj hi ht hi' ht' (Interleave.mul_add_inj hr hr' hbyte).1

/-! ### The halves -/

theorem laneSize_of_separated (hs : c.Separated) : c.laneSize = c.data_size / c.channel_num := by
  have hsize := layout_size h (srcTsize_eq h hfit.fixed)
  symm
  apply Nat.div_eq_of_eq_mul_right (Nat.lt_trans Nat.zero_lt_one hs.2)
  rw [← hsize, layout_lanes hs, laneSize]
  ring

theorem laneSize_of_not_separated (hs : ¬ c.Separated) : c.laneSize = c.data_size := by
  have hsize := layout_size h (srcTsize_eq h hfit.fixed)
  have hlanes : c.layout.lanes = 1 := by simp [layout, hs]
  rw [← hsize, hlanes, laneSize, Nat.one_mul]

/-- In its lane a byte is in the half of its descriptor. -/
theorem half_of_covers (hc : c.Covers i t a) :
    ∃ n : Nat, a = (c.data_ptr + n : Nat) ∧ n < c.data_size ∧
      (n % c.laneSize < c.laneSize / 2 ↔ i < c.bufferCount / 2) := by
  obtain ⟨hlo, hhi⟩ := inBuffer_of_covers h hfit hc
  obtain ⟨hi, ht, r, hr, rfl⟩ := (covers_iff h hfit).1 hc
  refine ⟨_, rfl, by omega, ?_⟩
  have hinner := Interleave.inner_lt ht
  have hpart := Interleave.part_lt hi ht
  have hmod : (c.layout.place i t * c.sampSize + r) % c.laneSize =
      (i * c.layout.width + c.layout.inner t) * c.sampSize + r := by
    have hsplit : c.layout.place i t * c.sampSize + r =
        c.layout.lane t * c.laneSize + ((i * c.layout.width + c.layout.inner t) * c.sampSize + r) := by
      unfold Interleave.place laneSize
      ring
    rw [hsplit]
    apply Interleave.mul_add_mod
    rw [laneSize, Nat.mul_comm c.sampSize]
    exact Interleave.mul_add_lt hpart hr
  have hhalf : c.laneSize / 2 = c.bufferCount / 2 * c.layout.width * c.sampSize := by
    apply Nat.div_eq_of_eq_mul_right Nat.two_pos
    rw [laneSize, Interleave.stride, layout_pieces]
    nth_rewrite 1 [h.even]
    ring
  rw [hmod, hhalf]
  constructor
  · intro hlt
    by_contra hge
    have hle : c.bufferCount / 2 * c.layout.width * c.sampSize ≤ i * c.layout.width * c.sampSize :=
      Nat.mul_le_mul_right _ (Nat.mul_le_mul_right _ (Nat.le_of_not_lt hge))
    rw [Nat.add_mul] at hlt
    omega
  · intro hlt
    exact Interleave.mul_add_lt (Interleave.mul_add_lt hlt hinner) hr

/-- The handler gets the upper half of the lanes where the DMA is in the lower one. -/
theorem ppIndex_eq {n : Nat} (hn : n < c.data_size) (pp_index : PP) :
    c.ppIndex pp_index (c.data_ptr + n) = if n % c.laneSize < c.laneSize / 2 then .pang else .ping := by
  have hpos : (c.data_ptr + n + 2 ^ 32 - c.data_ptr) % 2 ^ 32 = n := by
    have := c.data_size_lt
    omega
  unfold ppIndex
  dsimp only
  rw [hpos]
  by_cases hs : c.Separated
  · have hlane : 0 < c.laneSize := by
      apply Nat.pos_of_ne_zero
      intro hzero
      have hsize := layout_size h (srcTsize_eq h hfit.fixed)
      have hmul : c.sampSize * (c.layout.lanes * c.layout.stride) = c.layout.lanes * c.laneSize := by
        unfold laneSize
        ring
      rw [hmul, hzero] at hsize
      omega
    rw [if_pos hs, if_pos (Nat.le_of_lt hn), ← laneSize_of_separated h hfit hs, if_pos (Nat.mod_lt n hlane)]
  · rw [if_neg hs, laneSize_of_not_separated h hfit hs, if_pos hn, Nat.mod_eq_of_lt hn]

theorem buf_eq {n : Nat} (hn : n < c.data_size) (pp_index : PP) :
    c.buf pp_index (c.data_ptr + n) = c.data_ptr + if n % c.laneSize < c.laneSize / 2 then c.laneSize / 2 else 0 := by
  have hhalf : (if c.Separated then c.data_size / c.channel_num / 2 else c.data_size / 2) = c.laneSize / 2 := by
    split_ifs with hs
    · rw [laneSize_of_separated h hfit hs]
    · rw [laneSize_of_not_separated h hfit hs]
  unfold buf
  rw [ppIndex_eq h hfit hn, hhalf]
  split_ifs <;> rfl

/-- The bytes that are handed with a half of the first lane are in that half of their lanes. -/
theorem half_of_handed {n off : Nat} (hoff : off = 0 ∨ off = c.laneSize / 2)
    (hhanded : c.Handed (c.data_ptr + off) (c.data_ptr + n : Nat)) :
    off ≤ n % c.laneSize ∧ n % c.laneSize < off + c.laneSize / 2 := by
  have heven := laneSize_even h
  unfold Handed len at hhanded
  by_cases hs : c.Separated
  · rw [if_pos hs, Nat.div_right_comm, ← laneSize_of_separated h hfit hs] at hhanded
    obtain ⟨ch, -, hlo, hhi⟩ := hhanded
    obtain ⟨m, hm⟩ : ∃ m, n = ch * c.laneSize + m := ⟨n - ch * c.laneSize, by omega⟩
    have hmod : n % c.laneSize = m := by
      rw [hm]
      apply Interleave.mul_add_mod
      omega
    omega
  · rw [if_neg hs, ← laneSize_of_not_separated h hfit hs] at hhanded
    have hmod : n % c.laneSize = n := Nat.mod_eq_of_lt (by omega)
    omega

theorem not_handed (hc : c.Covers i t a) (hc' : c.Covers i' t' b) (hhalf : c.SameHalf i i') {n : Nat} (hn : a = n)
    (pp_index : PP) : ¬ c.Handed (c.buf pp_index n) b := by
  obtain ⟨m, ha, hm, hmhalf⟩ := half_of_covers h hfit hc
  obtain ⟨m', rfl, -, hmhalf'⟩ := half_of_covers h hfit hc'
  obtain rfl : n = c.data_ptr + m := by omega
  intro hhanded
  rw [buf_eq h hfit hm] at hhanded
  have hbytes := half_of_handed h hfit (by split_ifs <;> simp) hhanded
  have hsame := hmhalf.trans (hhalf.trans hmhalf'.symm)
  split_ifs at hbytes <;> omega

end Fits

/-! ### The ring -/

theorem interrupts_eq (h : c.Accepted) :
    c.interrupts = [c.bufferCount / 2 * (c.srcTsize * c.sampSize), c.bufferCount * (c.srcTsize * c.sampSize)] := by
  have hfilter : (List.range c.bufferCount).filter (fun i => (c.dmaDesc i).irq) = [c.bufferCount / 2 - 1, c.bufferCount - 1] := by
    have hall : ∀ cnt ∈ [2, 4, 8, 16], (List.range cnt).filter (fun i => i = cnt - 1 || i = cnt / 2 - 1) = [cnt / 2 - 1, cnt - 1] := by
      decide
    exact hall _ h.bufferCount
  have hpos := h.two_le
  have hmiddle : c.bufferCount / 2 - 1 + 1 = c.bufferCount / 2 := by omega
  have hend : c.bufferCount - 1 + 1 = c.bufferCount := by omega
  rw [interrupts, hfilter, List.map_cons, List.map_singleton, hmiddle, hend]

theorem next_eq (hi : i < c.bufferCount) : (c.dmaDesc i).next = (i + 1) % c.bufferCount := by
  unfold dmaDesc
  dsimp only
  split_ifs with hend
  · have : i + 1 = c.bufferCount := by omega
    rw [this, Nat.mod_self]
  · exact (Nat.mod_eq_of_lt (by omega)).symm

theorem doubleBuffered_of_fits (h : c.Accepted) (hfit : c.Fits) : c.DoubleBuffered where
  covers := by
    intro a ha
    obtain ⟨i, t, hc⟩ := exists_covers h hfit ha
    refine ⟨(i, t), hc, ?_⟩
    rintro ⟨i', t'⟩ hc'
    obtain ⟨rfl, rfl⟩ := covers_unique h hfit hc' hc
    rfl
  inside := by
    intro i t a hc
    exact inBuffer_of_covers h hfit hc
  ring := by
    intro i hi
    exact next_eq hi
  limit := by
    intro _ i _
    exact h.tsize
  interrupts := by
    have hdesc : c.srcTsize * c.sampSize = c.descXferSize := by
      rw [Nat.mul_comm, ← descXferSize_eq h (srcTsize_eq h hfit.fixed)]
    have hmiddle : c.data_size / 2 = c.bufferCount / 2 * c.descXferSize := by
      apply Nat.div_eq_of_eq_mul_right Nat.two_pos
      rw [← Nat.mul_assoc, ← h.even, h.size']
    rw [interrupts_eq h, hdesc, hmiddle, ← h.size']
  handed := by
    intro pp_index a i t hc i' t' b hc' hhalf
    exact not_handed h hfit hc hc' hhalf rfl pp_index

/-! ### What does not fit -/

/-- A transfer size that loses its upper bits shortens the turn. -/
theorem srcTsize_of_doubleBuffered (h : c.Accepted) (hd : c.DoubleBuffered) : c.srcTsize = c.descXferSize / c.sampSize := by
  have hend := hd.interrupts
  rw [interrupts_eq h, List.cons.injEq, List.cons.injEq, h.size'] at hend
  have hdesc := Nat.eq_of_mul_eq_mul_left (Nat.lt_of_lt_of_le Nat.two_pos h.two_le) hend.2.1
  rw [← hdesc, Nat.mul_div_cancel _ sampSize_pos]

/-- Without its two dimensions a playback of separated channels does not come to the end of the buffer. -/
theorem channel_num_of_doubleBuffered (h : c.Accepted) (hd : c.DoubleBuffered) (hs : c.Separated)
    (hstream : c.stream = .playback) : c.data_size = 0 ∨ c.channel_num = 2 := by
  apply Classical.byContradiction
  rw [not_or]
  rintro ⟨hne, htwo⟩
  have hdma : c.dma2d = none := by
    rw [dma2d, if_pos hs, hstream]
    exact if_neg htwo
  have hlast : c.InBuffer (c.data_ptr + c.data_size - 1) := by
    unfold InBuffer
    omega
  obtain ⟨⟨i, t⟩, ⟨hi, ht, -, hhi⟩, -⟩ := hd.covers _ hlast
  have hdesc := descXferSize_eq h (srcTsize_of_doubleBuffered h hd)
  have htrans : c.sampSize * (t + 1) ≤ c.descXferSize := by
    rw [hdesc]
    exact Nat.mul_le_mul_left _ ht
  have hstart : c.chanDescXferSize * i ≤ c.chanDescXferSize * (c.bufferCount - 1) :=
    Nat.mul_le_mul_left _ (by omega)
  have hpos : 0 < c.descXferSize := by
    apply Nat.pos_of_ne_zero
    intro hzero
    rw [h.size', hzero] at hne
    exact hne rfl
  have hchan : c.chanDescXferSize < c.descXferSize := Nat.div_lt_self hpos hs.2
  have hshort : c.chanDescXferSize * (c.bufferCount - 1) < c.descXferSize * (c.bufferCount - 1) := by
    apply Nat.mul_lt_mul_of_pos_right hchan
    have := h.two_le
    omega
  have hsize : c.descXferSize * (c.bufferCount - 1) + c.descXferSize = c.data_size := by
    rw [← Nat.mul_succ, ← h.size]
    congr 1
    have := h.two_le
    omega
  simp only [transferAddr, transferOffset, hdma, dmaDesc, if_pos hs] at hhi
  rw [Nat.mul_succ] at htrans
  push_cast at hhi
  have hcast : (c.sampSize : Int) * t = (c.sampSize * t : Nat) := by push_cast; rfl
  have hcast' : (c.chanDescXferSize : Int) * i = (c.chanDescXferSize * i : Nat) := by push_cast; rfl
  rw [hcast, hcast'] at hhi
  omega

/-- The samples of the channels together are those of the descriptors. -/
theorem chan_total (h : c.Accepted) (hsize : c.srcTsize = c.descXferSize / c.sampSize) (hs : c.Separated) :
    c.channel_num * c.chanXferCnt = c.bufferCount * c.srcTsize := by
  have hitems := layout_items h hsize
  rw [Interleave.items, layout_lanes hs] at hitems
  rw [chanXferCnt_eq h hsize hs, Interleave.stride, layout_pieces, ← hitems]
  ring

/-- Where the way back to the first channel loses its upper bits, the second row of a
capture begins `2 ^ 16` samples too far. -/
theorem second_row (hs : c.Separated) (hstream : c.stream = .capture) (hchan : c.chanXferCnt ≤ 2 ^ 15)
    (hlo : 2 ^ 15 < c.chanXferCnt * (c.channel_num - 1)) (hhi : c.chanXferCnt * (c.channel_num - 1) < 2 ^ 16) :
    c.transferOffset (c.channel_num * 4) = 2 ^ 16 + 4 := by
  have hlanes := hs.2
  have hburst : c.burstSize = 4 := by simp [burstSize, hstream]
  have hnext : c.dma2dCfg.xmodify = c.chanXferCnt - 4 := by
    unfold dma2dCfg
    dsimp only
    rw [hburst]
    apply Int.bmod_eq_of_le <;> omega
  have hback : c.dma2dCfg.ymodify = 2 ^ 16 - c.chanXferCnt * (c.channel_num - 1) := by
    have hcast : (c.chanXferCnt : Int) * (c.channel_num - 1) = (c.chanXferCnt * (c.channel_num - 1) : Nat) := by
      push_cast [Nat.cast_sub (Nat.le_of_lt hlanes)]
      rfl
    unfold dma2dCfg
    dsimp only
    rw [hcast, ← Int.add_bmod_right, Int.bmod_eq_of_le] <;> omega
  have hdma : c.dma2d = some c.dma2dCfg := by rw [dma2d, if_pos hs, hstream]
  have hrow := @Interleave.walk_row 4 c.channel_num (by omega) (by omega) c.dma2dCfg.xmodify c.dma2dCfg.ymodify
  rw [transferOffset, hdma]
  dsimp only
  rw [show c.dma2dCfg.burst = 4 from hburst, show c.dma2dCfg.xcount = c.channel_num from rfl, hrow, hnext, hback]
  push_cast
  ring

/-- No transfer is `2 ^ 16` samples behind the first one. -/
theorem transferOffset_lt (h : c.Accepted) (hd : c.DoubleBuffered) (ht : t < c.srcTsize) : c.transferOffset t < 2 ^ 16 := by
  have hsize := srcTsize_of_doubleBuffered h hd
  have hcovers : c.Covers 0 t (c.transferAddr 0 t) := by
    refine ⟨Nat.lt_of_lt_of_le Nat.two_pos h.two_le, ht, Int.le_refl _, ?_⟩
    have := c.sampSize_pos
    omega
  have hinside := (hd.inside _ _ _ hcovers).2
  have hsamples : c.data_size = c.sampSize * (c.bufferCount * c.srcTsize) := by
    rw [h.size', descXferSize_eq h hsize]
    ring
  have hle : c.bufferCount * c.srcTsize ≤ 16 * 4095 := Nat.mul_le_mul h.count_le h.tsize
  rw [transferAddr, addr_eq h hsize, Nat.zero_mul, Nat.mul_zero, Nat.add_zero, hsamples, Int.natCast_mul c.sampSize] at hinside
  have hlt : (c.sampSize : Int) * c.transferOffset t < c.sampSize * (c.bufferCount * c.srcTsize : Nat) :=
    Int.lt_of_add_lt_add_left hinside
  have hoffset := Int.lt_of_mul_lt_mul_left hlt (Int.natCast_nonneg _)
  omega

/-- A way back to the first channel that loses its upper bits leads out of the buffer. -/
theorem back_of_doubleBuffered (h : c.Accepted) (hd : c.DoubleBuffered) (hs : c.Separated) :
    c.data_size / c.sampSize / c.channel_num * (c.channel_num - 1) ≤ 2 ^ 15 := by
  have hsize := srcTsize_of_doubleBuffered h hd
  have hchannels := hs.2
  have htotal := chan_total h hsize hs
  have hle : c.bufferCount * c.srcTsize ≤ 16 * 4095 := Nat.mul_le_mul h.count_le h.tsize
  have hrest : c.channel_num * c.chanXferCnt = c.chanXferCnt * (c.channel_num - 1) + c.chanXferCnt := by
    rw [← Nat.mul_succ, Nat.mul_comm]
    congr 1
    omega
  rw [chan_eq h hsize]
  by_contra hback
  have hlong : 2048 < c.srcTsize := by
    by_contra hshort
    have : c.bufferCount * c.srcTsize ≤ 16 * 2048 := Nat.mul_le_mul h.count_le (Nat.le_of_not_lt hshort)
    omega
  -- two channels would fit, so the stream is a capture
  have htwo : c.channel_num ≠ 2 := by
    intro htwo
    rw [htwo] at hback htotal
    omega
  have hstream : c.stream = .capture := by
    cases hstream : c.stream with
    | capture => rfl
    | playback =>
      rcases channel_num_of_doubleBuffered h hd hs hstream with hzero | he
      · rw [hsize, descXferSize, hzero, Nat.zero_div, Nat.zero_div] at hlong
        omega
      · exact absurd he htwo
  have hchan : 3 * c.chanXferCnt ≤ c.channel_num * c.chanXferCnt := Nat.mul_le_mul_right _ (by omega)
  have hrow := second_row hs hstream (by omega) (by omega) (by omega)
  have hlt := transferOffset_lt h hd (t := c.channel_num * 4) (by have := c.channel_num_le; omega)
  omega

theorem fits_of_doubleBuffered (h : c.Accepted) (hd : c.DoubleBuffered) : c.Fits where
  fixed := by
    intro hdyn
    have hsize := srcTsize_of_doubleBuffered h hd
    have hcount : c.bufferCount = 4 := by simp [bufferCount, hdyn]
    have htsize := h.tsize
    rw [hsize, descXferSize, hcount] at htsize
    exact Nat.lt_of_le_of_lt htsize (by decide)
  playback := by
    intro hs hstream
    exact channel_num_of_doubleBuffered h hd hs hstream
  capture := by
    intro hs
    exact back_of_doubleBuffered h hd hs

/-- An accepted stream is double buffered if and only if it fits. -/
theorem doubleBuffered_iff (h : c.Accepted) : c.DoubleBuffered ↔ c.Fits :=
  ⟨fits_of_doubleBuffered h, doubleBuffered_of_fits h⟩

/-- The capture of two separated channels, with a dynamic number of descriptors. -/
def twoChannelCapture : StreamCfg where
  dynamic := true
  stream := .capture
  bits := .bits16
  channel_num := 2
  channel_num_le := by decide
  chan_sep_buf := true
  data_ptr := 0x20000000
  data_size := 1024
  data_size_lt := by decide
  data_end := by decide

theorem doubleBuffered_iff_two : twoChannelCapture.DoubleBuffered :=
  (doubleBuffered_iff ⟨by decide, by decide, by decide, by decide, by decide⟩).2 (by decide)

/-- The playback of four separated channels over TDM. -/
def fourChannelPlayback : StreamCfg :=
  { twoChannelCapture with
    dynamic := false
    stream := .playback
    channel_num := 4
    channel_num_le := by decide }

/-- The descriptors begin a channel's part apart and have no two dimensions, so they overlap. -/
theorem four_channels_overlap :
    fourChannelPlayback.Accepted ∧ fourChannelPlayback.Covers 0 32 (0x20000000 + 64) ∧
      fourChannelPlayback.Covers 1 0 (0x20000000 + 64) ∧ ¬ fourChannelPlayback.DoubleBuffered := by
  have hfirst : fourChannelPlayback.Covers 0 32 (0x20000000 + 64) := ⟨by decide, by decide, by decide, by decide⟩
  have hsecond : fourChannelPlayback.Covers 1 0 (0x20000000 + 64) := ⟨by decide, by decide, by decide, by decide⟩
  refine ⟨⟨by decide, by decide, by decide, by decide, by decide⟩, hfirst, hsecond, ?_⟩
  intro hd
  obtain ⟨_, -, hunique⟩ := hd.covers (0x20000000 + 64) ⟨by decide, by decide⟩
  have he := (hunique (0, 32) hfirst).trans (hunique (1, 0) hsecond).symm
  exact absurd he (by decide)

end Audioflinger.StreamCfg
