import LittleBuddy.Lib.Runs
import Mathlib
/-!
# The incoming number

`services/bt_app/app_media_player.cpp` announces the number of a call: the
digits are kept in `Media_player_number`, and the player puts their sounds into
the SBC queue, as much at a time as there is room. `announces_iff` says when the
number announced is the one that was passed.
-/
open Runs

namespace BtApp.Number

/-! ## The code -/

/-- `MAX_PHB_NUMBER`. -/
abbrev maxPhbNumber : Nat := 20

/-- A string, by its characters in front of the terminator. -/
structure CString where
  chars : List UInt8
  nonzero : ∀ c ∈ chars, c ≠ 0

/-- `media_sound_map`, the sounds of the ten digits. -/
structure SoundMap where
  data : Fin 10 → List UInt8
  fsize_lt : ∀ d, (data d).length < 2 ^ 32

/-- `tPlayContContext`; the numbers count as `uint32_t`. -/
structure PlayContContext where
  total : Nat
  n : Nat
  fread : Nat
  array : List UInt8

/-- `Media_player_number` and `pCont_context`. -/
structure Player where
  number : List UInt8
  ctx : PlayContContext

/-- The state at power-on, of zeros. -/
def start : Player := ⟨.replicate maxPhbNumber 0, ⟨0, 0, 0, .replicate maxPhbNumber 0⟩⟩

/-- `IsDigit`. -/
def isDigit (c : UInt8) : Bool := 48 ≤ c && c ≤ 57

/-- The loop of `media_Set_IncomingNumber`, over the characters that are left. -/
def setLoop : List UInt8 → Nat → List UInt8 → List UInt8
  | [], _, number => number
  | c :: rest, cnt, number =>
    if c = 0 then number
    else if isDigit c then setLoop rest (cnt + 1) (number.set cnt c)
    else setLoop rest cnt number

/-- `media_Set_IncomingNumber`. -/
def mediaSetIncomingNumber (pNumber : CString) (p : Player) : Player :=
  { p with number := setLoop (pNumber.chars.take maxPhbNumber) 0 p.number }

/-- `strlen(Media_player_number)`, where `behind` bytes follow the array before
the next zero. -/
def strlen (behind : Nat) (number : List UInt8) : Nat :=
  if 0 ∈ number then (number.takeWhile (· ≠ 0)).length else number.length + behind

/-- `media_Play_init_audio` for `AUD_ID_BT_CALL_INCOMING_NUMBER`. -/
def mediaPlayInitAudio (behind : Nat) (p : Player) : Player :=
  let total := strlen behind p.number
  { p with ctx := ⟨total, 0, 0, p.number.mapIdx fun i c => if i < total then c - 48 else 0⟩ }

variable (sounds : SoundMap)

/-- The sound of a place in the array; `none` behind the end of the array or of
the map. -/
def soundAt (ctx : PlayContContext) (n : Nat) : Option (List UInt8) :=
  match ctx.array[n]? with
  | none => none
  | some digit => if h : digit.toNat < 10 then some (sounds.data ⟨digit.toNat, h⟩) else none

/-- A sound of `fsize` bytes goes on: how many bytes are stored, and the context. -/
def storeSound (ctx : PlayContContext) (fsize available_len : Nat) : Nat × PlayContContext :=
  let left := (fsize + 2 ^ 32 - ctx.fread % 2 ^ 32) % 2 ^ 32
  let store_len := if left > available_len then available_len else left
  let fread := (ctx.fread + store_len) % 2 ^ 32
  (store_len, if fread = fsize % 2 ^ 32 then { ctx with n := ctx.n + 1, fread := 0 } else { ctx with fread := fread })

theorem storeSound_total (ctx : PlayContContext) (fsize available_len : Nat) :
    (storeSound ctx fsize available_len).2.total = ctx.total := by
  unfold storeSound
  dsimp only
  split_ifs <;> rfl

/-- A sound comes to its end, or takes some of the room. -/
theorem storeSound_cases (ctx : PlayContContext) (fsize : Nat) {available_len : Nat} (h : available_len ≠ 0) :
    (storeSound ctx fsize available_len).2.n = ctx.n + 1 ∨
      (storeSound ctx fsize available_len).2.n = ctx.n ∧ 0 < (storeSound ctx fsize available_len).1 := by
  unfold storeSound
  dsimp only
  generalize hleft : (fsize + 2 ^ 32 - ctx.fread % 2 ^ 32) % 2 ^ 32 = left
  by_cases hend : (ctx.fread + if left > available_len then available_len else left) % 2 ^ 32 = fsize % 2 ^ 32
  · exact Or.inl (by rw [if_pos hend])
  · right
    rw [if_neg hend]
    refine ⟨rfl, ?_⟩
    split_ifs at hend ⊢ with hroom
    · omega
    · rcases Nat.eq_zero_or_pos left with hzero | hpos
      · exact absurd (by omega) hend
      · exact hpos

/-- The loop of `app_play_continue_sbc_more_data`: the bytes that it puts into a
queue with `available_len` bytes of room, and the context behind it. -/
def continueLoop (ctx : PlayContContext) (available_len : Nat) : Option (List UInt8 × PlayContContext) :=
  match soundAt sounds ctx ctx.n with
  | none => none
  | some pdata =>
    if _h : available_len = 0 then some ([], ctx)
    else
      let stored := (pdata.drop ctx.fread).take (storeSound ctx pdata.length available_len).1
      if _hn : (storeSound ctx pdata.length available_len).2.n < (storeSound ctx pdata.length available_len).2.total then
        (continueLoop (storeSound ctx pdata.length available_len).2
          (available_len - (storeSound ctx pdata.length available_len).1)).map fun r => (stored ++ r.1, r.2)
      else some (stored, (storeSound ctx pdata.length available_len).2)
termination_by ctx.total - ctx.n + available_len
decreasing_by
  rw [storeSound_total] at _hn ⊢
  rcases storeSound_cases ctx pdata.length _h with hc | hc <;> omega

/-- `app_play_continue_sbc_more_data`, up to its call of the decoder. -/
def appPlayContinueSbcMoreData (available_len : Nat) (ctx : PlayContContext) : Option (List UInt8 × PlayContContext) :=
  if ctx.n < ctx.total then continueLoop sounds ctx available_len else some ([], ctx)

/-- Calls with the room that each of them finds: all the bytes put. -/
def moreData (ctx : PlayContContext) : List Nat → Option (List UInt8 × PlayContContext)
  | [] => some ([], ctx)
  | available_len :: rest =>
    match appPlayContinueSbcMoreData sounds available_len ctx with
    | none => none
    | some (put, ctx') => (moreData ctx' rest).map fun r => (put ++ r.1, r.2)

/-- What is done with the player. -/
inductive Step where
  | setIncomingNumber (pNumber : CString)
  | playInitAudio (behind : Nat)
  | continueMoreData (available_len : Nat)

/-- A step; none where the code reads behind an array. -/
def step : Step → Player → Option Player
  | .setIncomingNumber pNumber, p => some (mediaSetIncomingNumber pNumber p)
  | .playInitAudio behind, p => some (mediaPlayInitAudio behind p)
  | .continueMoreData available_len, p =>
    (appPlayContinueSbcMoreData sounds available_len p.ctx).map fun r => { p with ctx := r.2 }

/-- The number that a step passes. -/
def Step.number? : Step → Option CString
  | .setIncomingNumber pNumber => some pNumber
  | .playInitAudio _ | .continueMoreData _ => none

/-! ## What is announced -/

/-- The digits of a number. -/
def CString.digits (s : CString) : List UInt8 := s.chars.filter isDigit

/-- The digits that the code looks at. -/
def CString.kept (s : CString) : List UInt8 := (s.chars.take maxPhbNumber).filter isDigit

/-- The digits that a context will go through; none if there are more than in the array. -/
def announced (ctx : PlayContContext) : Option (List UInt8) :=
  if ctx.total ≤ ctx.array.length then some (ctx.array.take ctx.total) else none

/-- The sound of a digit, and the sounds of digits. -/
def soundOf (c : UInt8) : List UInt8 := if h : (c - 48).toNat < 10 then sounds.data ⟨(c - 48).toNat, h⟩ else []

def soundsOf (digits : List UInt8) : List UInt8 := digits.flatMap (soundOf sounds)

/-- The number is passed to the player and announced: the digits are those of the
number, and the bytes put are those of their sounds, as many as there was room for. -/
def Announces (behind : Nat) (p : Player) (s : CString) : Prop :=
  announced (mediaPlayInitAudio behind (mediaSetIncomingNumber s p)).ctx = some (s.digits.map (· - 48)) ∧
  ∀ rooms, (moreData sounds (mediaPlayInitAudio behind (mediaSetIncomingNumber s p)).ctx rooms).map Prod.fst =
    some ((soundsOf sounds s.digits).take rooms.sum)

/-- What stays in `Media_player_number` behind the digits of `s`. -/
def leftover (p : Player) (s : CString) : List UInt8 := (p.number.drop s.kept.length).takeWhile (· ≠ 0)

/-! ## The player -/

variable {sounds} {ctx : PlayContContext} {ds : List UInt8} {avail : Nat}

/-- The player goes through the digits `ds`. -/
structure Plays (sounds : SoundMap) (ds : List UInt8) (ctx : PlayContContext) : Prop where
  total : ctx.total = ds.length
  sound : ∀ n c, ds[n]? = some c → soundAt sounds ctx n = some (soundOf sounds c)
  n_le : ctx.n ≤ ctx.total
  fread_le : ∀ c, ds[ctx.n]? = some c → ctx.fread ≤ (soundOf sounds c).length
  fread_end : ctx.n = ctx.total → ctx.fread = 0

/-- The bytes that are still to be put. -/
def toPut (sounds : SoundMap) (ds : List UInt8) (ctx : PlayContContext) : List UInt8 :=
  (soundsOf sounds (ds.drop ctx.n)).drop ctx.fread

theorem soundOf_length_lt (c : UInt8) : (soundOf sounds c).length < 2 ^ 32 := by
  unfold soundOf
  split
  · exact sounds.fsize_lt _
  · decide

theorem storeSound_eq {fsize : Nat} (hf : ctx.fread ≤ fsize) (hs : fsize < 2 ^ 32) :
    storeSound ctx fsize avail = if fsize - ctx.fread ≤ avail then (fsize - ctx.fread, { ctx with n := ctx.n + 1, fread := 0 })
      else (avail, { ctx with fread := ctx.fread + avail }) := by
  have hleft : (fsize + 2 ^ 32 - ctx.fread % 2 ^ 32) % 2 ^ 32 = fsize - ctx.fread := by omega
  unfold storeSound
  simp only [hleft]
  by_cases h : fsize - ctx.fread ≤ avail
  · rw [if_pos h, if_neg (by omega), if_pos (by omega)]
  · rw [if_neg h, if_pos (by omega), if_neg (by omega), Nat.mod_eq_of_lt (by omega)]

theorem toPut_eq {c : UInt8} (h : Plays sounds ds ctx) (hc : ds[ctx.n]? = some c) : toPut sounds ds ctx =
    (soundOf sounds c).drop ctx.fread ++ soundsOf sounds (ds.drop (ctx.n + 1)) := by
  obtain ⟨hn, hget⟩ := List.getElem?_eq_some_iff.1 hc
  unfold toPut
  rw [List.drop_eq_getElem_cons hn, hget, soundsOf, List.flatMap_cons, List.drop_append_of_le_length (h.fread_le c hc)]
  rfl

/-- The bytes of the loop are the next ones, as many as there is room for. -/
theorem continueLoop_eq (avail : Nat) (ctx : PlayContContext) (h : Plays sounds ds ctx) (hn : ctx.n < ctx.total) :
    ∃ ctx', continueLoop sounds ctx avail = some ((toPut sounds ds ctx).take avail, ctx') ∧ Plays sounds ds ctx' ∧
      toPut sounds ds ctx' = (toPut sounds ds ctx).drop avail := by
  induction hm : ctx.total - ctx.n + avail using Nat.strongRecOn generalizing ctx avail with
  | ind m ih =>
    obtain ⟨c, hc⟩ : ∃ c, ds[ctx.n]? = some c := ⟨_, List.getElem?_eq_getElem (h.total ▸ hn)⟩
    have hf := h.fread_le c hc
    have hput := toPut_eq h hc
    rw [continueLoop, h.sound _ _ hc]
    dsimp only
    by_cases hzero : avail = 0
    · subst hzero
      rw [dif_pos rfl]
      exact ⟨ctx, rfl, h, rfl⟩
    rw [dif_neg hzero, storeSound_eq hf (soundOf_length_lt c)]
    by_cases hroom : (soundOf sounds c).length - ctx.fread ≤ avail
    · -- the sound comes to its end
      simp only [if_pos hroom]
      have hlen : ((soundOf sounds c).drop ctx.fread).length = (soundOf sounds c).length - ctx.fread := List.length_drop
      have hall : ((soundOf sounds c).drop ctx.fread).take ((soundOf sounds c).length - ctx.fread) =
          (soundOf sounds c).drop ctx.fread := List.take_of_length_le (Nat.le_of_eq hlen)
      have hfit : ((soundOf sounds c).drop ctx.fread).length ≤ avail := Nat.le_trans (Nat.le_of_eq hlen) hroom
      have hnext : Plays sounds ds { ctx with n := ctx.n + 1, fread := 0 } :=
        ⟨h.total, h.sound, hn, fun _ _ => Nat.zero_le _, fun _ => rfl⟩
      have hrest : toPut sounds ds { ctx with n := ctx.n + 1, fread := 0 } = soundsOf sounds (ds.drop (ctx.n + 1)) := rfl
      by_cases hmore : ctx.n + 1 < ctx.total
      · obtain ⟨ctx', he, hp, hd⟩ := ih _ (by dsimp only; omega) (avail - ((soundOf sounds c).length - ctx.fread)) _ hnext
          hmore rfl
        rw [dif_pos hmore, he, Option.map_some, hall, hput, hrest, List.take_append, List.take_of_length_le hfit, hlen]
        refine ⟨ctx', rfl, hp, ?_⟩
        rw [hd, hrest, List.drop_append, hlen, List.drop_of_length_le hfit, List.nil_append]
      · rw [dif_neg hmore, hall, hput]
        have hnil : ds.drop (ctx.n + 1) = [] := List.drop_of_length_le (by rw [← h.total]; omega)
        rw [hnil, show soundsOf sounds [] = [] from rfl, List.append_nil, List.take_of_length_le hfit,
          List.drop_of_length_le hfit]
        exact ⟨_, rfl, hnext, by rw [hrest, hnil]; rfl⟩
    · -- there is no room for all of it, and the next round finds none
      simp only [if_neg hroom]
      have hnext : Plays sounds ds { ctx with fread := ctx.fread + avail } := by
        refine ⟨h.total, h.sound, h.n_le, ?_, fun he => absurd he (Nat.ne_of_lt hn)⟩
        intro c' hc'
        obtain rfl : c = c' := Option.some.inj (hc.symm.trans hc')
        show ctx.fread + avail ≤ _
        omega
      obtain ⟨ctx', he, hp, hd⟩ := ih _ (by dsimp only; omega) (avail - avail) _ hnext hn rfl
      rw [dif_pos hn, he, Option.map_some, Nat.sub_self, List.take_zero, List.append_nil, hput,
        List.take_append_of_le_length (by rw [List.length_drop]; omega)]
      refine ⟨ctx', rfl, hp, ?_⟩
      rw [hd, Nat.sub_self, List.drop_zero, toPut_eq hnext hc, List.drop_append_of_le_length (by rw [List.length_drop]; omega),
        List.drop_drop]

theorem appPlayContinueSbcMoreData_eq (avail : Nat) (h : Plays sounds ds ctx) :
    ∃ ctx', appPlayContinueSbcMoreData sounds avail ctx = some ((toPut sounds ds ctx).take avail, ctx') ∧
      Plays sounds ds ctx' ∧ toPut sounds ds ctx' = (toPut sounds ds ctx).drop avail := by
  unfold appPlayContinueSbcMoreData
  by_cases hn : ctx.n < ctx.total
  · rw [if_pos hn]
    exact continueLoop_eq avail ctx h hn
  · have hnil : toPut sounds ds ctx = [] := by
      unfold toPut
      rw [List.drop_of_length_le (l := ds) (by rw [← h.total]; omega)]
      exact List.drop_nil
    rw [if_neg hn]
    exact ⟨ctx, by rw [hnil, List.take_nil], h, by rw [hnil, List.drop_nil]⟩

/-- However the room is cut, the bytes put are the first ones. -/
theorem moreData_eq (rooms : List Nat) (h : Plays sounds ds ctx) :
    (moreData sounds ctx rooms).map Prod.fst = some ((toPut sounds ds ctx).take rooms.sum) := by
  induction rooms generalizing ctx with
  | nil => simp [moreData]
  | cons avail rooms ih =>
    obtain ⟨ctx', he, hp, hd⟩ := appPlayContinueSbcMoreData_eq avail h
    have hrest := ih hp
    rw [moreData, he, List.sum_cons, List.take_add, ← hd]
    obtain ⟨r, hr, hr'⟩ := Option.map_eq_some_iff.1 hrest
    simp only [hr, Option.map_some, hr']

/-! ## The digits that are kept -/

variable {p : Player} {s : CString} {behind : Nat} {c : UInt8} {evs : List Step}

theorem isDigit_ne_zero (h : isDigit c = true) : c ≠ 0 := by
  rintro rfl
  exact absurd h (by decide)

theorem isDigit_lt (h : isDigit c = true) : (c - 48).toNat < 10 := by
  simp only [isDigit, Bool.and_eq_true, decide_eq_true_eq, UInt8.le_iff_toNat_le] at h
  have h48 : (48 : UInt8).toNat = 48 := rfl
  have h57 : (57 : UInt8).toNat = 57 := rfl
  rw [UInt8.toNat_sub_of_le _ _ (UInt8.le_iff_toNat_le.2 h.1)]
  omega

theorem digits_eq (s : CString) : s.digits = s.kept ++ (s.chars.drop maxPhbNumber).filter isDigit := by
  unfold CString.digits CString.kept
  rw [← List.filter_append, List.take_append_drop]

theorem kept_length_le (s : CString) : s.kept.length ≤ maxPhbNumber := by
  unfold CString.kept
  exact Nat.le_trans (List.length_filter_le ..) (List.length_take_le ..)

theorem kept_isDigit (s : CString) : ∀ c ∈ s.kept, isDigit c = true := fun _ hc => (List.mem_filter.1 hc).2

theorem setLoop_eq (l : List UInt8) (hl : ∀ c ∈ l, c ≠ 0) (cnt : Nat) (number : List UInt8)
    (hlen : cnt + (l.filter isDigit).length ≤ number.length) : setLoop l cnt number =
      number.take cnt ++ l.filter isDigit ++ number.drop (cnt + (l.filter isDigit).length) := by
  induction l generalizing cnt number with
  | nil => simp [setLoop]
  | cons c l ih =>
    have hc : c ≠ 0 := hl c List.mem_cons_self
    have hl' : ∀ c ∈ l, c ≠ 0 := fun c h => hl c (List.mem_cons_of_mem _ h)
    rw [setLoop, if_neg hc]
    by_cases hd : isDigit c
    · rw [List.filter_cons_of_pos hd, List.length_cons] at hlen ⊢
      have hset : number.set cnt c = number.take cnt ++ c :: number.drop (cnt + 1) :=
        List.set_eq_take_append_cons_drop.trans (if_pos (by omega))
      have htake : (number.take cnt).length = cnt := by
        rw [List.length_take]
        omega
      rw [if_pos hd, ih hl' _ _ (by rw [List.length_set]; omega), hset]
      rw [List.take_append, htake, List.take_of_length_le (l := number.take cnt) (by omega), Nat.add_sub_cancel_left,
        List.take_succ_cons, List.take_zero, List.drop_append, htake,
        List.drop_of_length_le (l := number.take cnt) (by omega)]
      rw [show cnt + 1 + (l.filter isDigit).length - cnt = (l.filter isDigit).length + 1 by omega, List.drop_succ_cons,
        List.drop_drop, show cnt + 1 + (l.filter isDigit).length = cnt + ((l.filter isDigit).length + 1) by omega]
      simp
    · rw [List.filter_cons_of_neg hd] at hlen ⊢
      rw [if_neg hd]
      exact ih hl' cnt number hlen

/-- The digits kept come over what was there. -/
theorem number_set (hp : p.number.length = maxPhbNumber) (s : CString) :
    (mediaSetIncomingNumber s p).number = s.kept ++ p.number.drop s.kept.length := by
  have h := setLoop_eq (s.chars.take maxPhbNumber) (fun c hc => s.nonzero c (List.mem_of_mem_take hc)) 0 p.number
    (by rw [Nat.zero_add, hp]; exact kept_length_le s)
  rw [List.take_zero, List.nil_append, Nat.zero_add] at h
  exact h

theorem number_length (h : Run (step sounds) (fun _ _ => True) (· = start) p evs) : p.number.length = maxPhbNumber := by
  refine h.inv (fun p => p.number.length = maxPhbNumber) ?_ ?_
  · rintro _ rfl
    rfl
  · intro e p p' hp _ he
    cases e with
    | setIncomingNumber s =>
      obtain rfl := Option.some.inj he
      have hk := kept_length_le s
      rw [number_set hp, List.length_append, List.length_drop, hp]
      omega
    | playInitAudio behind =>
      obtain rfl := Option.some.inj he
      exact hp
    | continueMoreData avail =>
      obtain ⟨r, -, rfl⟩ := Option.map_eq_some_iff.1 he
      exact hp

/-- Without a zero everything behind the digits stays. -/
theorem leftover_full (h0 : 0 ∉ p.number.drop s.kept.length) : leftover p s = p.number.drop s.kept.length := by
  apply List.takeWhile_eq_self_iff.2
  intro c hc
  rw [decide_eq_true_eq]
  rintro rfl
  exact h0 hc

theorem strlen_set (hp : p.number.length = maxPhbNumber) (behind : Nat) (s : CString) :
    strlen behind (mediaSetIncomingNumber s p).number =
      s.kept.length + (leftover p s).length + if 0 ∈ p.number.drop s.kept.length then 0 else behind := by
  have hkept : ∀ c ∈ s.kept, (decide (c ≠ 0)) = true := fun c hc => by
    simpa using isDigit_ne_zero (kept_isDigit s c hc)
  have hmem : 0 ∈ s.kept ++ p.number.drop s.kept.length ↔ 0 ∈ p.number.drop s.kept.length := by
    rw [List.mem_append]
    exact or_iff_right fun h0 => isDigit_ne_zero (kept_isDigit s 0 h0) rfl
  unfold strlen
  rw [number_set hp]
  by_cases h0 : 0 ∈ p.number.drop s.kept.length
  · rw [if_pos (hmem.2 h0), if_pos h0, List.takeWhile_append_of_pos hkept, List.length_append]
    rfl
  · rw [if_neg (mt hmem.1 h0), if_neg h0]
    rw [leftover_full h0, List.length_append]

theorem take_array (number : List UInt8) (total : Nat) :
    (number.mapIdx fun i c => if i < total then c - 48 else 0).take total = (number.take total).map (· - 48) := by
  apply List.ext_getElem?
  intro i
  rw [List.getElem?_map, List.getElem?_take, List.getElem?_take, List.getElem?_mapIdx]
  by_cases hi : i < total
  · simp only [if_pos hi]
  · simp only [if_neg hi, Option.map_none]

/-- The digits announced are those kept with what stays behind them, if the array
or a zero behind it ends them. -/
theorem announced_set (hp : p.number.length = maxPhbNumber) (behind : Nat) (s : CString) :
    announced (mediaPlayInitAudio behind (mediaSetIncomingNumber s p)).ctx =
      if 0 ∈ p.number.drop s.kept.length ∨ behind = 0 then some ((s.kept ++ leftover p s).map (· - 48)) else none := by
  have hk := kept_length_le s
  have hstrlen := strlen_set hp behind s
  have hprefix : leftover p s <+: p.number.drop s.kept.length := List.takeWhile_prefix _
  have hleft : (leftover p s).length ≤ maxPhbNumber - s.kept.length := by
    have := hprefix.length_le
    rwa [List.length_drop, hp] at this
  have hlen : (mediaSetIncomingNumber s p).number.length = maxPhbNumber := by
    rw [number_set hp, List.length_append, List.length_drop, hp]
    omega
  unfold announced mediaPlayInitAudio
  dsimp only
  rw [List.length_mapIdx, hlen]
  by_cases hend : 0 ∈ p.number.drop s.kept.length ∨ behind = 0
  · have htotal : strlen behind (mediaSetIncomingNumber s p).number = (s.kept ++ leftover p s).length := by
      rw [hstrlen, List.length_append]
      rcases hend with h0 | rfl
      · rw [if_pos h0, Nat.add_zero]
      · rw [ite_self, Nat.add_zero]
    have htake : (mediaSetIncomingNumber s p).number.take (s.kept ++ leftover p s).length = s.kept ++ leftover p s := by
      rw [number_set hp]
      exact (List.prefix_iff_eq_take.1 ((List.prefix_append_right_inj s.kept).2 hprefix)).symm
    rw [if_pos hend, htotal, if_pos (by rw [List.length_append]; omega), take_array, htake]
  · obtain ⟨h0, hbehind⟩ := not_or.1 hend
    -- without a zero the digits fill the array, and more bytes follow
    have hfull : (leftover p s).length = maxPhbNumber - s.kept.length := by
      rw [leftover_full h0, List.length_drop, hp]
    rw [if_neg hend, hstrlen, if_neg h0, if_neg (by omega)]

/-- The player goes through the digits announced. -/
theorem plays_init {ds : List UInt8} (hds : ∀ c ∈ ds, isDigit c = true)
    (h : announced (mediaPlayInitAudio behind p).ctx = some (ds.map (· - 48))) :
    Plays sounds ds (mediaPlayInitAudio behind p).ctx := by
  unfold announced at h
  split_ifs at h with hlen
  have htake := Option.some.inj h
  have htotal : (mediaPlayInitAudio behind p).ctx.total = ds.length := by
    have := congrArg List.length htake
    rwa [List.length_take, List.length_map, Nat.min_eq_left hlen] at this
  refine ⟨htotal, ?_, Nat.zero_le _, fun _ _ => Nat.zero_le _, fun _ => rfl⟩
  intro n c hc
  have hn : n < (mediaPlayInitAudio behind p).ctx.total := by
    rw [htotal]
    exact (List.getElem?_eq_some_iff.1 hc).1
  have hget : (mediaPlayInitAudio behind p).ctx.array[n]? = some (c - 48) := by
    rw [← List.getElem?_take_of_lt hn, htake, List.getElem?_map, hc]
    rfl
  have hdigit := isDigit_lt (hds c (List.mem_of_getElem? hc))
  unfold soundAt soundOf
  simp only [hget, dif_pos hdigit]

/-- After any run the number passed is announced exactly if what stays behind its
digits are those past the 20 characters that the code looks at, and they end in
the array or in front of a zero. -/
theorem announces_iff (sounds : SoundMap) (p : Player) (evs : List Step)
    (h : Run (step sounds) (fun _ _ => True) (· = start) p evs) (behind : Nat) (s : CString) :
    Announces sounds behind p s ↔ leftover p s = (s.chars.drop maxPhbNumber).filter isDigit ∧
      (0 ∈ p.number.drop s.kept.length ∨ behind = 0) := by
  have hp := number_length h
  have hann := announced_set hp behind s
  have hinj : ∀ a b : UInt8, a - 48 = b - 48 → a = b := by
    intro a b hab
    have := congrArg (· + 48) hab
    simpa using this
  constructor
  · rintro ⟨hd, -⟩
    rw [hann] at hd
    split_ifs at hd with hend
    have heq := (List.map_inj_right hinj).1 (Option.some.inj hd)
    rw [digits_eq] at heq
    exact ⟨List.append_cancel_left heq, hend⟩
  · rintro ⟨hleft, hend⟩
    rw [if_pos hend, hleft, ← digits_eq] at hann
    have hplays : Plays sounds s.digits (mediaPlayInitAudio behind (mediaSetIncomingNumber s p)).ctx :=
      plays_init (fun c hc => (List.mem_filter.1 hc).2) hann
    refine ⟨hann, fun rooms => ?_⟩
    rw [moreData_eq rooms hplays]
    rfl

/-! ## What stays from earlier numbers -/

/-- The numbers that a run has passed. -/
def passed (evs : List Step) : List CString := evs.filterMap Step.number?

/-- The array has as many digits as the longest number so far, and then zeros. -/
structure Filled (number : List UInt8) (numbers : List CString) (digits : List UInt8) : Prop where
  number_eq : number = digits ++ .replicate (maxPhbNumber - digits.length) 0
  length_le : digits.length ≤ maxPhbNumber
  nonzero : ∀ c ∈ digits, c ≠ 0
  longest : ∀ t ∈ numbers, t.kept.length ≤ digits.length
  reached : digits = [] ∨ ∃ t ∈ numbers, t.kept.length = digits.length

theorem Filled.set {numbers : List CString} {digits : List UInt8} (hf : Filled p.number numbers digits) (s : CString) :
    Filled (mediaSetIncomingNumber s p).number (numbers ++ [s]) (s.kept ++ digits.drop s.kept.length) := by
  have hk := kept_length_le s
  have hlen := hf.length_le
  have hp : p.number.length = maxPhbNumber := by
    rw [hf.number_eq, List.length_append, List.length_replicate]
    omega
  have hlength : (s.kept ++ digits.drop s.kept.length).length = max s.kept.length digits.length := by
    rw [List.length_append, List.length_drop]
    omega
  refine ⟨?_, by rw [hlength]; omega, ?_, ?_, ?_⟩
  · rw [number_set hp, hlength, hf.number_eq, List.drop_append, List.drop_replicate, List.append_assoc]
    congr 3
    omega
  · intro c hc
    rcases List.mem_append.1 hc with hc | hc
    · exact isDigit_ne_zero (kept_isDigit s c hc)
    · exact hf.nonzero c (List.mem_of_mem_drop hc)
  · intro t ht
    rw [hlength]
    rcases List.mem_append.1 ht with ht | ht
    · exact Nat.le_trans (hf.longest t ht) (Nat.le_max_right ..)
    · rw [List.mem_singleton.1 ht]
      exact Nat.le_max_left ..
  · rw [hlength]
    rcases Nat.le_total digits.length s.kept.length with hle | hle
    · exact Or.inr ⟨s, List.mem_append_right _ (List.mem_singleton_self s), (Nat.max_eq_left hle).symm⟩
    · rcases hf.reached with rfl | ⟨t, ht, he⟩
      · exact Or.inr ⟨s, List.mem_append_right _ (List.mem_singleton_self s), (Nat.max_eq_left (Nat.zero_le _)).symm⟩
      · exact Or.inr ⟨t, List.mem_append_left _ ht, he.trans (Nat.max_eq_right hle).symm⟩

theorem run_filled (h : Run (step sounds) (fun _ _ => True) (· = start) p evs) :
    ∃ digits, Filled p.number (passed evs) digits := by
  induction h with
  | nil h =>
    subst h
    exact ⟨[], rfl, Nat.zero_le _, nofun, nofun, Or.inl rfl⟩
  | @snoc p p' evs e _ _ he ih =>
    obtain ⟨digits, hf⟩ := ih
    have hpassed : passed (evs ++ [e]) = passed evs ++ e.number?.toList := by
      unfold passed
      rw [List.filterMap_append]
      cases e <;> rfl
    rw [hpassed]
    cases e with
    | setIncomingNumber s =>
      obtain rfl := Option.some.inj he
      exact ⟨_, hf.set s⟩
    | playInitAudio behind =>
      obtain rfl := Option.some.inj he
      exact ⟨digits, (List.append_nil (passed evs)).symm ▸ hf⟩
    | continueMoreData avail =>
      obtain ⟨r, -, rfl⟩ := Option.map_eq_some_iff.1 he
      exact ⟨digits, (List.append_nil (passed evs)).symm ▸ hf⟩

/-- Nothing stays behind the digits exactly if no earlier number had more of them. -/
theorem leftover_eq_nil_iff (h : Run (step sounds) (fun _ _ => True) (· = start) p evs) (s : CString) :
    leftover p s = [] ↔ ∀ t ∈ passed evs, t.kept.length ≤ s.kept.length := by
  obtain ⟨digits, hf⟩ := run_filled h
  have hleft : leftover p s = digits.drop s.kept.length := by
    unfold leftover
    rw [hf.number_eq, List.drop_append, List.takeWhile_append_of_pos, List.drop_replicate]
    · rw [List.takeWhile_replicate, if_neg (by simp), List.append_nil]
    · intro c hc
      simpa using hf.nonzero c (List.mem_of_mem_drop hc)
  rw [hleft, List.drop_eq_nil_iff]
  constructor
  · exact fun hle t ht => Nat.le_trans (hf.longest t ht) hle
  · intro hle
    rcases hf.reached with rfl | ⟨t, ht, he⟩
    · exact Nat.zero_le _
    · exact he ▸ hle t ht

theorem digit_ne_zero : ∀ d : Fin 10, 48 + UInt8.ofNat d.val ≠ 0 := by decide

/-- A number of digits. -/
def ofDigits (ds : List (Fin 10)) : CString :=
  ⟨ds.map fun d => 48 + UInt8.ofNat d.val, by
    intro c hc
    obtain ⟨d, -, rfl⟩ := List.mem_map.1 hc
    exact digit_ne_zero d⟩

/-- Sounds of one byte. -/
def shortSounds : SoundMap := ⟨fun d => [UInt8.ofNat d.val], by decide⟩

/-- The first number. -/
theorem first_number_announced : Announces shortSounds 0 start (ofDigits [1, 2, 3]) :=
  (announces_iff shortSounds start [] (.nil rfl) 0 (ofDigits [1, 2, 3])).2 ⟨by decide, Or.inr rfl⟩

/-- A shorter number is announced with the end of the one before it. -/
theorem earlier_digits_announced : ∃ p, Run (step shortSounds) (fun _ _ => True) (· = start) p
      [.setIncomingNumber (ofDigits [1, 2, 3]), .playInitAudio 0] ∧
    ¬ Announces shortSounds 0 p (ofDigits [7]) := by
  have hstart : Run (step shortSounds) (fun _ _ => True) (· = start) start [] := .nil rfl
  refine ⟨_, (hstart.snoc trivial rfl).snoc trivial rfl, ?_⟩
  rintro ⟨hd, -⟩
  revert hd
  decide

end BtApp.Number
