import LittleBuddy.Apps.AudioQueue
import LittleBuddy.Lib.Ledger
import Mathlib.Data.List.TakeWhile
/-!
# Runs of the audio queue

Under the condition `Sound` the list holds the request of the open stream and,
if that is a prompt, the prompts that wait for it (`Holds`). Each request keeps
this, and a request that does not meet the condition breaks the agreement at once.
-/
open Runs Ledger

namespace Apps.AudioQueue

variable {hasAudio : Nat → Bool} {s : Sys} {waiting : List Status} {p r : Status}

/-- What plays for an open stream. -/
def playing (hasAudio : Nat → Bool) (stream : Option Status) (k : Kind) : Bool :=
  match stream with
  | none => false
  | some p => decide (p.id.kind = k) && (decide (k ≠ .prompt) || hasAudio p.aud_id)

def isRing (a : Status) : Bool := decide (a.id = .playBack ∧ a.aud_id = AUD_ID_BT_CALL_INCOMING_CALL)

/-- The list is the open stream and the prompts that wait for it. -/
structure Holds (hasAudio : Nat → Bool) (s : Sys) (waiting : List Status) : Prop where
  list : s.audio_list = s.gStreamplayer.toList ++ waiting
  prompts : ∀ a ∈ waiting, a.id = .playBack
  behind : waiting ≠ [] → ∃ p, s.gStreamplayer = some p ∧ p.id = .playBack
  room : s.audio_list.length ≤ 4 ∧ (s.audio_list.length = 4 → s.audio_list.any isRing = true)
  kept : Kept Status.no s.audio_list (fun a => a ∈ s.accepted) (fun a => a ∈ s.closed ∨ a ∈ s.cancelled) s.requests
  served : Served Status.no s.started waiting s.requests
  plays : s.isRun = playing hasAudio s.gStreamplayer
  done : ∀ a ∈ s.accepted, a.id = .playBack → a ∈ s.started ∨ a ∈ s.cancelled ∨ a ∈ waiting

theorem Holds.init (h : Init s) : Holds hasAudio s [] := by
  subst h
  refine ⟨rfl, by simp, by simp, by simp, .nil (by simp) (by simp), .nil, ?_, by simp⟩
  funext k
  rfl

/-! ## The players -/

theorem kind_eq_prompt {id : Player} : id.kind = .prompt ↔ id = .playBack := by cases id <;> simp [Player.kind]

/-- A player that is told what it does already is left as it is. -/
theorem btPlayer_eq (k : Kind) (on : Bool) (s : Sys) :
    btPlayer k on s = { s with isRun := Function.update s.isRun k on } := by
  unfold btPlayer
  split_ifs with h
  · rw [Function.update_eq_self_iff.2 h.symm]
  · rfl

theorem appPlayAudioOff_eq (s : Sys) : appPlayAudioOff s = btPlayer .prompt false s := rfl

/-- Only the player of the open stream runs. -/
theorem update_playing (hr : s.isRun = playing hasAudio (some p)) : Function.update s.isRun p.id.kind false = fun _ => false := by
  funext k
  by_cases hk : k = p.id.kind
  · rw [hk, Function.update_self]
  · rw [Function.update_of_ne hk, hr, playing, decide_eq_false (Ne.symm hk), Bool.false_and]

theorem close_open (hg : s.gStreamplayer = some p) (hr : s.isRun = playing hasAudio (some p)) :
    appBtStreamClose p.id s =
      (0, { s with isRun := fun _ => false, gStreamplayer := none, closed := s.closed ++ [p] }) := by
  have hoff := update_playing hr
  unfold appBtStreamClose
  cases hk : p.id.kind <;> simp [hg, appPlayAudioOff_eq, btPlayer_eq, ← hoff, hk]

theorem startPlayer_idle (hr : s.isRun = fun _ => false) :
    startPlayer hasAudio p s = { s with
      isRun := playing hasAudio (some p), gStreamplayer := some p,
      started := if p.id = .playBack then s.started ++ [p] else s.started } := by
  have hplay : playing hasAudio (some p) =
      Function.update (fun _ => false) p.id.kind (decide (p.id.kind ≠ .prompt) || hasAudio p.aud_id) := by
    funext k
    by_cases hk : k = p.id.kind
    · rw [hk, Function.update_self, playing, decide_eq_true rfl, Bool.true_and]
    · rw [Function.update_of_ne hk, playing, decide_eq_false (Ne.symm hk), Bool.false_and]
  unfold startPlayer
  cases hk : p.id.kind with
  | sco =>
    have hid : p.id ≠ .playBack := fun h => by simp [h, Player.kind] at hk
    simp [btPlayer_eq, hr, hplay, hk, hid]
  | sbc =>
    have hid : p.id ≠ .playBack := fun h => by simp [h, Player.kind] at hk
    simp [btPlayer_eq, hr, hplay, hk, hid]
  | prompt =>
    have hid : p.id = .playBack := kind_eq_prompt.1 hk
    cases ha : hasAudio p.aud_id with
    | true => simp [appPlayAudioOn, hr, hplay, hid, ha, Player.kind]
    | false =>
      -- a prompt without audio is handed over and does not run
      simp [appPlayAudioOn, hr, hplay, hid, ha, Player.kind]

/-! ## The list -/

theorem Holds.streamExist (h : Holds hasAudio s waiting) :
    appAudioListStreamExist s = true ↔ ∃ p, s.gStreamplayer = some p ∧ p.id ≠ .playBack := by
  unfold appAudioListStreamExist
  simp only [h.list, List.any_eq_true, List.mem_append, Option.mem_toList, decide_eq_true_eq]
  constructor
  · rintro ⟨a, ha | ha, hid⟩
    · exact ⟨a, ha, hid⟩
    · exact absurd (h.prompts a ha) hid
  · rintro ⟨p, hp, hid⟩
    exact ⟨p, .inl hp, hid⟩

theorem Holds.playbackExist (h : Holds hasAudio s waiting) :
    appAudioListPlaybackExist s = true ↔ ∃ p, s.gStreamplayer = some p ∧ p.id = .playBack := by
  unfold appAudioListPlaybackExist
  simp only [h.list, List.any_eq_true, List.mem_append, Option.mem_toList, decide_eq_true_eq]
  constructor
  · rintro ⟨a, ha | ha, hid⟩
    · exact ⟨a, ha, hid⟩
    · exact h.behind (List.ne_nil_of_mem ha)
  · rintro ⟨p, hp, hid⟩
    exact ⟨p, .inl hp, hid⟩

/-- Nothing waits for a stream that is not a prompt. -/
theorem Holds.alone (h : Holds hasAudio s waiting) (hp : ∀ p, s.gStreamplayer = some p → p.id ≠ .playBack) : waiting = [] := by
  by_contra hne
  obtain ⟨p, hg, hid⟩ := h.behind hne
  exact hp p hg hid

theorem countFilter_eq (list : List Status) : countFilter 0 list = decide (3 ≤ list.length) := by
  match list with
  | [] => rfl
  | [_] => rfl
  | [_, _] => rfl
  | a :: b :: c :: list => simp [countFilter]

/-- With one ring at most, and other prompts only behind two entries, the list stays short. -/
theorem Holds.room_joins (h : Holds hasAudio s waiting) (hid : r.id = .playBack) (hfilter : appAudioListFilterExist r s = false) :
    (s.audio_list ++ [r]).length ≤ 4 ∧ ((s.audio_list ++ [r]).length = 4 → (s.audio_list ++ [r]).any isRing = true) := by
  obtain ⟨hroom, hfour⟩ := h.room
  rw [appAudioListFilterExist, if_pos hid] at hfilter
  rw [List.length_append, List.length_singleton, List.any_append]
  split_ifs at hfilter with hring
  · have hnew : [r].any isRing = true := by simp [isRing, hid, hring]
    have hthree : s.audio_list.length ≠ 4 := fun h4 => Bool.false_ne_true (hfilter.symm.trans (hfour h4))
    exact ⟨by omega, fun _ => by rw [hnew, Bool.or_true]⟩
  · rw [countFilter_eq, decide_eq_false_iff_not] at hfilter
    exact ⟨by omega, fun h4 => by omega⟩

theorem Holds.numbered (h : Holds hasAudio s waiting) : Holds hasAudio { s with requests := s.requests + 1 } waiting :=
  ⟨h.list, h.prompts, h.behind, h.room, h.kept.skip, h.served.skip, h.plays, h.done⟩

/-- The open stream is closed, and no prompt waits. -/
theorem Holds.ends (h : Holds hasAudio s []) (hg : s.gStreamplayer = some p) :
    Holds hasAudio { s with
      audio_list := [], isRun := fun _ => false, gStreamplayer := none, closed := s.closed ++ [p] } [] := by
  have hlist : s.audio_list = [p] := by simpa [hg] using h.list
  have hkept := h.kept
  rw [hlist] at hkept
  refine ⟨rfl, by simp, by simp, by simp, hkept.drop fun b => ?_, h.served, ?_, h.done⟩
  · rw [List.mem_append, List.mem_singleton]
    tauto
  · funext k
    rfl

/-- The open prompt is closed and the next one is opened. -/
theorem Holds.follows (h : Holds hasAudio s (r :: waiting)) (hg : s.gStreamplayer = some p) :
    Holds hasAudio { s with
      audio_list := r :: waiting, isRun := playing hasAudio (some r), gStreamplayer := some r, closed := s.closed ++ [p],
      started := s.started ++ [r] } waiting := by
  have hlist : s.audio_list = p :: r :: waiting := by simpa [hg] using h.list
  have hkept := h.kept
  rw [hlist] at hkept
  refine ⟨rfl, fun a ha => h.prompts a (List.mem_cons_of_mem r ha), fun _ => ⟨r, rfl, h.prompts r List.mem_cons_self⟩, ?_,
    hkept.drop fun b => ?_, h.served.serve, rfl, fun a ha hid => ?_⟩
  · have hroom := h.room.1
    rw [hlist] at hroom
    simp only [List.length_cons] at hroom ⊢
    exact ⟨by omega, fun h4 => by omega⟩
  · rw [List.mem_append, List.mem_singleton]
    tauto
  · rcases h.done a ha hid with hs | hc | hw
    · exact .inl (List.mem_append_left _ hs)
    · exact .inr (.inl hc)
    · rcases List.mem_cons.1 hw with rfl | hw
      · exact .inl (List.mem_append_right _ List.mem_cons_self)
      · exact .inr (.inr hw)

/-- A stream is opened while nothing is open. -/
theorem Holds.begins (h : Holds hasAudio s []) (hg : s.gStreamplayer = none) (hr : r.no = s.requests) :
    Holds hasAudio { s with
      audio_list := [r], isRun := playing hasAudio (some r), gStreamplayer := some r, requests := s.requests + 1,
      accepted := s.accepted ++ [r], started := if r.id = .playBack then s.started ++ [r] else s.started } [] := by
  have hlist : s.audio_list = [] := by simpa [hg] using h.list
  have hkept := h.kept
  rw [hlist] at hkept
  refine ⟨rfl, by simp, by simp, by simp, hkept.take hr fun b => by simp, ?_, rfl, fun a ha hid => ?_⟩
  · by_cases hid : r.id = .playBack
    · rw [if_pos hid]
      exact (h.served.join hr).serve
    · rw [if_neg hid]
      exact h.served.skip
  · rcases List.mem_append.1 ha with ha | ha
    · rcases h.done a ha hid with hs | hc | hw
      · refine .inl ?_
        split_ifs
        · exact List.mem_append_left _ hs
        · exact hs
      · exact .inr (.inl hc)
      · cases hw
    · obtain rfl := List.mem_singleton.1 ha
      rw [if_pos hid]
      exact .inl (List.mem_append_right _ List.mem_cons_self)

/-- A prompt is put behind the open one. -/
theorem Holds.joins (h : Holds hasAudio s waiting) (hg : s.gStreamplayer = some p) (hp : p.id = .playBack)
    (hid : r.id = .playBack) (hr : r.no = s.requests) (hfilter : appAudioListFilterExist r s = false) :
    Holds hasAudio { s with
      audio_list := s.audio_list ++ [r], requests := s.requests + 1, accepted := s.accepted ++ [r] } (waiting ++ [r]) := by
  refine ⟨?_, fun a ha => ?_, fun _ => ⟨p, hg, hp⟩, ?_, h.kept.take hr fun b => by simp, h.served.join hr, h.plays,
    fun a ha hid => ?_⟩
  · show s.audio_list ++ [r] = s.gStreamplayer.toList ++ (waiting ++ [r])
    rw [h.list, List.append_assoc]
  · rcases List.mem_append.1 ha with ha | ha
    · exact h.prompts a ha
    · exact (List.mem_singleton.1 ha) ▸ hid
  · exact h.room_joins hid hfilter
  · rcases List.mem_append.1 ha with ha | ha
    · rcases h.done a ha hid with hs | hc | hw
      · exact .inl hs
      · exact .inr (.inl hc)
      · exact .inr (.inr (List.mem_append_left _ hw))
    · exact .inr (.inr (List.mem_append_right _ ha))

theorem Holds.clears (h : Holds hasAudio s waiting) :
    Holds hasAudio { s with
      audio_list := [], isRun := fun _ => false, gStreamplayer := none, closed := s.closed ++ s.gStreamplayer.toList,
      cancelled := s.cancelled ++ s.audio_list } [] := by
  refine ⟨rfl, by simp, by simp, by simp, h.kept.clear fun b => ?_, h.served.clear, ?_, fun a ha hid => ?_⟩
  · have hopen : b ∈ s.gStreamplayer.toList → b ∈ s.audio_list := fun hb => h.list ▸ List.mem_append_left waiting hb
    rw [List.mem_append, List.mem_append]
    tauto
  · funext k
    rfl
  · rcases h.done a ha hid with hs | hc | hw
    · exact .inl hs
    · exact .inr (.inl (List.mem_append_left _ hc))
    · exact .inr (.inl (List.mem_append_right _ (h.list ▸ List.mem_append_right _ hw)))

/-! ## Requests -/

theorem close_other {id : Player} (h : ∀ p, s.gStreamplayer = some p → p.id ≠ id) : appBtStreamClose id s = (-1, s) := by
  unfold appBtStreamClose
  cases hg : s.gStreamplayer with
  | none => rfl
  | some p => simp [h p hg]

theorem rmv_absent {close : Option Player} {pos : QPos} (hprompt : close = some .playBack → appAudioListPlaybackExist s = false)
    (hstream : close ≠ some .playBack → appAudioListStreamExist s = false) :
    appAudioListRmvCallback close pos false s = some (none, s) := by
  unfold appAudioListRmvCallback
  by_cases hempty : s.audio_list.length = 0
  · rw [if_pos hempty]
  rw [if_neg hempty]
  by_cases hclose : close = some .playBack
  · have hnone : (s.audio_list.dropWhile fun a => decide (a.id ≠ .playBack)) = [] := by
      rw [List.dropWhile_eq_nil_iff]
      simpa [appAudioListPlaybackExist] using hprompt hclose
    rw [if_pos hclose, hnone]
  · rw [if_neg hclose, hstream hclose, if_neg Bool.false_ne_true]

/-- The first prompt is removed and the next one is opened, if one waits. -/
theorem rmv_prompt {pos : QPos} (hl : s.audio_list = p :: waiting) (hid : p.id = .playBack) (hw : ∀ a ∈ waiting, a.id = .playBack) :
    appAudioListRmvCallback (some .playBack) pos false s = some (waiting.head?, { s with audio_list := waiting }) := by
  have hstream : appAudioListStreamExist s = false := by simpa [appAudioListStreamExist, hl, hid] using hw
  unfold appAudioListRmvCallback
  cases waiting with
  | nil => simp [hl, hid, hstream]
  | cons q waiting => simp [hl, hid, hw q List.mem_cons_self]

theorem rmv_stream {close : Option Player} (pos : QPos) (hclose : close ≠ some .playBack) (hexist : appAudioListStreamExist s = true) :
    appAudioListRmvCallback close pos false s = some (none, { s with
      audio_list := match pos with | .head => s.audio_list.tail | .tail => s.audio_list.dropLast }) := by
  have hne : s.audio_list.length ≠ 0 := by
    intro hlen
    rw [List.length_eq_zero_iff] at hlen
    simp [appAudioListStreamExist, hlen] at hexist
  unfold appAudioListRmvCallback
  rw [if_neg hne, if_neg hclose, if_pos hexist]
  cases pos <;> rfl

/-- The close of what is not open leaves everything as it is, unless a stream is in the list. -/
theorem step_close_other {id : Player} (h : Holds hasAudio s waiting) (hg : ∀ p, s.gStreamplayer = some p → p.id ≠ id)
    (hexist : id ≠ .playBack → appAudioListStreamExist s = false) : step hasAudio (.settingClose id) s = some s := by
  have hprompt : some id = some Player.playBack → appAudioListPlaybackExist s = false := by
    intro hid
    rw [← Bool.not_eq_true, h.playbackExist]
    rintro ⟨p, hp, hpid⟩
    exact hg p hp (hpid.trans (Option.some.inj hid).symm)
  simp only [step, close_other hg, rmv_absent hprompt fun hid => hexist fun he => hid (congrArg some he), Option.bind_some]

theorem step_close_stream (h : Holds hasAudio s waiting) (hg : s.gStreamplayer = some p) (hid : p.id ≠ .playBack) :
    step hasAudio (.settingClose p.id) s = some { s with
      audio_list := [], isRun := fun _ => false, gStreamplayer := none, closed := s.closed ++ [p] } := by
  obtain rfl : waiting = [] := h.alone fun q hq => (Option.some.inj (hg.symm.trans hq)) ▸ hid
  have hlist : s.audio_list = [p] := by simpa [hg] using h.list
  simp only [step, close_open hg (hg ▸ h.plays)]
  rw [rmv_stream .head (by simpa using hid) (by simp [appAudioListStreamExist, hlist, hid])]
  simp [hlist]

theorem step_close_prompt (h : Holds hasAudio s waiting) (hg : s.gStreamplayer = some p) (hid : p.id = .playBack) :
    step hasAudio (.settingClose .playBack) s =
      let s := { s with audio_list := waiting, isRun := fun _ => false, gStreamplayer := none, closed := s.closed ++ [p] }
      match waiting.head? with
      | none => some s
      | some r => some { s with
          isRun := playing hasAudio (some r), gStreamplayer := some r, started := s.started ++ [r] } := by
  have hlist : s.audio_list = p :: waiting := by simpa [hg] using h.list
  have hclose := close_open hg (hg ▸ h.plays)
  rw [hid] at hclose
  have hrmv : appAudioListRmvCallback (some .playBack) .head false
      { s with isRun := fun _ => false, gStreamplayer := none, closed := s.closed ++ [p] } =
      some (waiting.head?, { s with
        audio_list := waiting, isRun := fun _ => false, gStreamplayer := none, closed := s.closed ++ [p] }) :=
    rmv_prompt hlist hid h.prompts
  simp only [step, hclose, hrmv, Option.bind_some]
  cases hw : waiting.head? with
  | none => rfl
  | some r =>
    have hr : r.id = .playBack := h.prompts r (List.mem_of_mem_head? hw)
    simp [appBtStreamOpen, startPlayer_idle, hr]

theorem step_closeall (s : Sys) : step hasAudio .settingCloseall s = some { s with
    audio_list := [], isRun := fun _ => false, gStreamplayer := none, closed := s.closed ++ s.gStreamplayer.toList,
    cancelled := s.cancelled ++ s.audio_list } := by
  have hoff : Function.update (Function.update (Function.update s.isRun .sco false) .sbc false) .prompt false = fun _ => false := by
    funext k
    cases k <;> simp [Function.update]
  simp [step, appBtStreamCloseall, appPlayAudioOff_eq, btPlayer_eq, hoff]

theorem Holds.alloc (h : Holds hasAudio s waiting) : ¬ s.audio_list.length ≥ poolBlocks := by
  have hroom : s.audio_list.length ≤ 4 := h.room.1
  unfold poolBlocks
  omega

theorem append_waits (h : Holds hasAudio s waiting) (hid : r.id = .playBack) (hp : appAudioListPlaybackExist s = true)
    (hfilter : appAudioListFilterExist r s = false) : appAudioListAppend r s = putData r r false false s := by
  unfold appAudioListAppend
  have hmax : ¬ s.audio_list.length ≥ MAX_AUDIO_BUF_LIST := h.alloc
  rw [if_pos hid, hfilter, if_neg Bool.false_ne_true, if_pos hp, if_neg hmax, if_neg h.alloc]

theorem append_filtered (hid : r.id = .playBack) (hfilter : appAudioListFilterExist r s = true) :
    appAudioListAppend r s = (false, s) := by
  unfold appAudioListAppend
  rw [if_pos hid, if_pos hfilter]

theorem append_prompt (h : Holds hasAudio s waiting) (hid : r.id = .playBack) (hp : appAudioListPlaybackExist s = false)
    (hfilter : appAudioListFilterExist r s = false) : appAudioListAppend r s = putData r r false true s := by
  unfold appAudioListAppend
  rw [if_pos hid, hfilter, if_neg Bool.false_ne_true, hp, if_neg Bool.false_ne_true, if_neg h.alloc]

theorem append_stream (h : Holds hasAudio s waiting) (hid : r.id ≠ .playBack) :
    appAudioListAppend r s = putData r r true true s := by
  unfold appAudioListAppend
  rw [if_neg hid, if_neg h.alloc]

theorem open_idle (hg : s.gStreamplayer = none) (hr : s.isRun = fun _ => false) :
    appBtStreamOpen hasAudio r s = some { s with
      isRun := playing hasAudio (some r), gStreamplayer := some r,
      started := if r.id = .playBack then s.started ++ [r] else s.started } := by
  unfold appBtStreamOpen
  rw [hg]
  exact congrArg some (startPlayer_idle hr)

/-- Another stream takes the place of the open one, and the last entry is removed. -/
theorem open_over (hg : s.gStreamplayer = some p) (hr : s.isRun = playing hasAudio (some p)) (hexist : appAudioListStreamExist s = true) :
    appBtStreamOpen hasAudio r s = some { s with
      audio_list := s.audio_list.dropLast, isRun := playing hasAudio (some r), gStreamplayer := some r,
      closed := s.closed ++ [p], started := if r.id = .playBack then s.started ++ [r] else s.started } := by
  have hrmv : appAudioListRmvCallback none .tail false
      { s with isRun := fun _ => false, gStreamplayer := none, closed := s.closed ++ [p] } =
      some (none, { s with
        audio_list := s.audio_list.dropLast, isRun := fun _ => false, gStreamplayer := none, closed := s.closed ++ [p] }) :=
    rmv_stream .tail (by simp) hexist
  unfold appBtStreamOpen
  rw [hg]
  simp [close_open hg hr, hrmv, startPlayer_idle]

theorem step_open_waits {aud_id : Nat} (h : Holds hasAudio s waiting) (hp : appAudioListPlaybackExist s = true) :
    step hasAudio (.settingOpen .playBack aud_id) s =
      if appAudioListFilterExist ⟨.playBack, aud_id, s.requests⟩ s then some { s with requests := s.requests + 1 }
      else some { s with
        audio_list := s.audio_list ++ [⟨.playBack, aud_id, s.requests⟩], requests := s.requests + 1,
        accepted := s.accepted ++ [⟨.playBack, aud_id, s.requests⟩] } := by
  split_ifs with hfilter
  · have happend : appAudioListAppend ⟨.playBack, aud_id, s.requests⟩ { s with requests := s.requests + 1 } =
        (false, { s with requests := s.requests + 1 }) := append_filtered rfl hfilter
    simp [step, happend]
  · have happend := append_waits h.numbered (r := ⟨.playBack, aud_id, s.requests⟩) rfl hp (Bool.eq_false_iff.2 hfilter)
    simp [step, happend, putData]

/-- A prompt is refused only behind others. -/
theorem Holds.not_filtered (h : Holds hasAudio s waiting) (hp : appAudioListPlaybackExist s = false) (r : Status) :
    appAudioListFilterExist r s = false := by
  have hnone : ∀ a ∈ s.audio_list, a.id ≠ .playBack := by simpa [appAudioListPlaybackExist] using hp
  unfold appAudioListFilterExist
  split_ifs with hid hring
  · rw [← Bool.not_eq_true, List.any_eq_true]
    rintro ⟨a, ha, hring⟩
    exact hnone a ha (of_decide_eq_true hring).1
  · obtain rfl : waiting = [] := by
      cases waiting with
      | nil => rfl
      | cons q waiting =>
        have hq : q ∈ s.audio_list := h.list ▸ List.mem_append_right _ List.mem_cons_self
        exact absurd (h.prompts q List.mem_cons_self) (hnone q hq)
    rw [countFilter_eq, decide_eq_false_iff_not, h.list, List.append_nil]
    cases s.gStreamplayer <;> simp
  · rfl

/-- What comes while no prompt is in the list is accepted and opened. -/
theorem step_open {id : Player} {aud_id : Nat} (h : Holds hasAudio s waiting) (hp : id = .playBack → appAudioListPlaybackExist s = false) :
    step hasAudio (.settingOpen id aud_id) s = appBtStreamOpen hasAudio ⟨id, aud_id, s.requests⟩ { s with
      audio_list := if id = .playBack then s.audio_list ++ [⟨id, aud_id, s.requests⟩] else ⟨id, aud_id, s.requests⟩ :: s.audio_list,
      requests := s.requests + 1, accepted := s.accepted ++ [⟨id, aud_id, s.requests⟩] } := by
  by_cases hid : id = .playBack
  · have happend := append_prompt h.numbered (r := ⟨id, aud_id, s.requests⟩) hid (hp hid) (h.numbered.not_filtered (hp hid) _)
    simp only [step, happend, putData, if_true, if_pos hid, if_neg Bool.false_ne_true]
  · have happend := append_stream h.numbered (r := ⟨id, aud_id, s.requests⟩) hid
    simp [step, happend, putData, hid]

theorem step_open_idle {id : Player} {aud_id : Nat} (h : Holds hasAudio s []) (hg : s.gStreamplayer = none) :
    step hasAudio (.settingOpen id aud_id) s = some { s with
      audio_list := [⟨id, aud_id, s.requests⟩], isRun := playing hasAudio (some ⟨id, aud_id, s.requests⟩),
      gStreamplayer := some ⟨id, aud_id, s.requests⟩, requests := s.requests + 1,
      accepted := s.accepted ++ [⟨id, aud_id, s.requests⟩],
      started := if id = .playBack then s.started ++ [⟨id, aud_id, s.requests⟩] else s.started } := by
  have hlist : s.audio_list = [] := by simpa [hg] using h.list
  have hidle : s.isRun = fun _ => false := by
    rw [h.plays, hg]
    rfl
  rw [step_open h fun _ => by simp [appAudioListPlaybackExist, hlist]]
  refine (open_idle ?_ ?_).trans ?_
  · exact hg
  · exact hidle
  · simp [hlist]

/-- A stream takes the place of the open one; the last entry is removed. -/
theorem step_open_over {id : Player} {aud_id : Nat} (h : Holds hasAudio s waiting) (hg : s.gStreamplayer = some p) (hid : id ≠ .playBack) :
    step hasAudio (.settingOpen id aud_id) s = some { s with
      audio_list := (⟨id, aud_id, s.requests⟩ :: s.audio_list).dropLast, isRun := playing hasAudio (some ⟨id, aud_id, s.requests⟩),
      gStreamplayer := some ⟨id, aud_id, s.requests⟩, requests := s.requests + 1,
      accepted := s.accepted ++ [⟨id, aud_id, s.requests⟩], closed := s.closed ++ [p] } := by
  rw [step_open h fun h => absurd h hid]
  refine (open_over (p := p) ?_ ?_ ?_).trans ?_
  · exact hg
  · exact hg ▸ h.plays
  · simp [appAudioListStreamExist, hid]
  · simp [hid]

/-- A prompt takes the place of an open stream, and its own entry is removed. -/
theorem step_open_prompt_over {aud_id : Nat} (h : Holds hasAudio s waiting) (hg : s.gStreamplayer = some p) (hp : p.id ≠ .playBack) :
    step hasAudio (.settingOpen .playBack aud_id) s = some { s with
      isRun := playing hasAudio (some ⟨.playBack, aud_id, s.requests⟩), gStreamplayer := some ⟨.playBack, aud_id, s.requests⟩,
      requests := s.requests + 1, accepted := s.accepted ++ [⟨.playBack, aud_id, s.requests⟩], closed := s.closed ++ [p],
      started := s.started ++ [⟨.playBack, aud_id, s.requests⟩] } := by
  have hlist : s.audio_list = [p] := by
    obtain rfl : waiting = [] := h.alone fun q hq => (Option.some.inj (hg.symm.trans hq)) ▸ hp
    simpa [hg] using h.list
  rw [step_open h fun _ => by simp [appAudioListPlaybackExist, hlist, hp]]
  refine (open_over (p := p) ?_ ?_ ?_).trans ?_
  · exact hg
  · exact hg ▸ h.plays
  · simp [appAudioListStreamExist, hlist, hp]
  · simp

/-! ## Agreement -/

theorem Holds.agrees (h : Holds hasAudio s waiting) : Agrees hasAudio s := by
  refine ⟨fun p hg => ⟨?_, fun hid => ?_⟩, fun a => ?_, fun k => ?_, h.served.order, fun a ha hid => ?_⟩
  · have hmem : p ∈ s.audio_list := h.list ▸ List.mem_append_left waiting (by simp [hg])
    exact List.count_eq_one_of_mem h.kept.nodup hmem
  · obtain rfl : waiting = [] := h.alone fun q hq => (Option.some.inj (hg.symm.trans hq)) ▸ hid
    simp [h.list, hg]
  · rw [h.kept.held_iff, not_or]
  · rw [h.plays]
    cases s.gStreamplayer with
    | none => simp [playing]
    | some p => simp [playing, imp_iff_not_or]
  · rcases h.done a ha hid with hs | hc | hw
    · exact .inl hs
    · exact .inr (.inl hc)
    · exact .inr (.inr ⟨h.list ▸ List.mem_append_right _ hw, h.behind (List.ne_nil_of_mem hw)⟩)

/-- Each request that meets the condition keeps the list. -/
theorem Holds.step {e : Event} (h : Holds hasAudio s waiting) (hc : Sound e s) :
    ∃ s' waiting', AudioQueue.step hasAudio e s = some s' ∧ Holds hasAudio s' waiting' := by
  cases e with
  | settingOpen id aud_id =>
    by_cases hid : id = .playBack
    · subst hid
      by_cases hp : appAudioListPlaybackExist s = true
      · obtain ⟨p, hg, hpid⟩ := h.playbackExist.1 hp
        rw [step_open_waits h hp]
        split_ifs with hfilter
        · exact ⟨_, waiting, rfl, h.numbered⟩
        · exact ⟨_, _, rfl, h.joins hg hpid rfl rfl (Bool.eq_false_iff.2 hfilter)⟩
      · have hg : s.gStreamplayer = none := hc.resolve_right hp
        obtain rfl : waiting = [] := h.alone fun p hq => by simp [hg] at hq
        exact ⟨_, [], step_open_idle h hg, h.begins hg rfl⟩
    · have hc : ∀ p, s.gStreamplayer = some p → p.id = .playBack → s.audio_list.length ≤ 1 := by
        cases id <;> first | exact hc | exact absurd rfl hid
      cases hg : s.gStreamplayer with
      | none =>
        obtain rfl : waiting = [] := h.alone fun p hq => by simp [hg] at hq
        exact ⟨_, [], step_open_idle h hg, h.begins hg rfl⟩
      | some p =>
        -- the open stream is the only entry, so that the last entry is its own
        obtain rfl : waiting = [] := by
          by_cases hp : p.id = .playBack
          · have hlen := hc p hg hp
            rw [h.list, hg] at hlen
            exact List.eq_nil_of_length_eq_zero (by simpa using hlen)
          · exact h.alone fun q hq => (Option.some.inj (hg.symm.trans hq)) ▸ hp
        have hlist : s.audio_list = [p] := by simpa [hg] using h.list
        have hbegins := (h.ends hg).begins (r := ⟨id, aud_id, s.requests⟩) rfl rfl
        refine ⟨_, [], step_open_over h hg hid, ?_⟩
        simpa [hlist, hid] using hbegins
  | settingClose id =>
    by_cases hid : id = .playBack
    · subst hid
      by_cases hp : ∃ p, s.gStreamplayer = some p ∧ p.id = .playBack
      · obtain ⟨p, hg, hpid⟩ := hp
        rw [step_close_prompt h hg hpid]
        cases waiting with
        | nil => exact ⟨_, [], rfl, h.ends hg⟩
        | cons r waiting => exact ⟨_, waiting, rfl, h.follows hg⟩
      · have hother : ∀ p, s.gStreamplayer = some p → p.id ≠ .playBack := fun p hg hpid => hp ⟨p, hg, hpid⟩
        exact ⟨s, waiting, step_close_other h hother fun h => absurd rfl h, h⟩
    · have hc : ∀ p, s.gStreamplayer = some p → p.id ≠ .playBack → p.id = id := by
        cases id <;> first | exact hc | exact absurd rfl hid
      by_cases hp : ∃ p, s.gStreamplayer = some p ∧ p.id ≠ .playBack
      · obtain ⟨p, hg, hpid⟩ := hp
        obtain rfl : p.id = id := hc p hg hpid
        obtain rfl : waiting = [] := h.alone fun q hq => (Option.some.inj (hg.symm.trans hq)) ▸ hpid
        exact ⟨_, [], step_close_stream h hg hpid, h.ends hg⟩
      · have hother : ∀ p, s.gStreamplayer = some p → p.id ≠ id := fun p hg he => hp ⟨p, hg, he ▸ hid⟩
        have hexist : appAudioListStreamExist s = false := by
          rw [← Bool.not_eq_true, h.streamExist]
          exact hp
        exact ⟨s, waiting, step_close_other h hother fun _ => hexist, h⟩
  | settingCloseall => exact ⟨_, [], step_closeall s, h.clears⟩

/-- A request that does not meet the condition breaks the agreement, without a failed assertion. -/
theorem Holds.breaks {e : Event} (h : Holds hasAudio s waiting) (hc : ¬ Sound e s) :
    ∃ s', AudioQueue.step hasAudio e s = some s' ∧ ¬ Agrees hasAudio s' := by
  cases e with
  | settingOpen id aud_id =>
    by_cases hid : id = .playBack
    · subst hid
      simp only [Sound, not_or] at hc
      obtain ⟨p, hg⟩ := Option.ne_none_iff_exists'.1 hc.1
      have hpid : p.id ≠ .playBack := fun hp => hc.2 (h.playbackExist.2 ⟨p, hg, hp⟩)
      refine ⟨_, step_open_prompt_over h hg hpid, fun ha => ?_⟩
      -- the new prompt has no entry
      have hmem : ⟨.playBack, aud_id, s.requests⟩ ∈ s.audio_list := by
        rw [← List.count_pos_iff, (ha.one_entry _ rfl).1]
        exact Nat.one_pos
      exact Nat.lt_irrefl _ (h.kept.below _ ((h.kept.held_iff _).1 hmem).1)
    · have hc : ∃ p, s.gStreamplayer = some p ∧ p.id = .playBack ∧ 1 < s.audio_list.length := by
        cases id <;> first | simpa [Sound] using hc | exact absurd rfl hid
      obtain ⟨p, hg, hpid, hlen⟩ := hc
      refine ⟨_, step_open_over h hg hid, fun ha => ?_⟩
      -- the entry of the closed prompt stays
      have hlist : s.audio_list = p :: waiting := by simpa [hg] using h.list
      obtain ⟨q, rest, rfl⟩ : ∃ q rest, waiting = q :: rest := by
        cases waiting with
        | nil => simp [hlist] at hlen
        | cons q rest => exact ⟨q, rest, rfl⟩
      have hstays := (ha.entries p).1 (by simp [hlist])
      exact hstays.2.1 (List.mem_append_right _ List.mem_cons_self)
  | settingClose id =>
    have hc : id ≠ .playBack ∧ ∃ p, s.gStreamplayer = some p ∧ p.id ≠ .playBack ∧ p.id ≠ id := by
      cases id <;> first | exact absurd trivial hc | exact ⟨by simp, by simpa [Sound] using hc⟩
    obtain ⟨hid, p, hg, hpid, hne⟩ := hc
    have hlist : s.audio_list = [p] := by
      obtain rfl : waiting = [] := h.alone fun q hq => (Option.some.inj (hg.symm.trans hq)) ▸ hpid
      simpa [hg] using h.list
    have hclose : some id ≠ some Player.playBack := fun h => hid (Option.some.inj h)
    have hrmv := rmv_stream .head hclose (h.streamExist.2 ⟨p, hg, hpid⟩)
    have hother : ∀ q, s.gStreamplayer = some q → q.id ≠ id := fun q hq => (Option.some.inj (hg.symm.trans hq)) ▸ hne
    refine ⟨{ s with audio_list := [] }, ?_, fun ha => ?_⟩
    · simp [AudioQueue.step, close_other hother, hrmv, hlist]
    · have hcount : ([] : List Status).count p = 1 := (ha.one_entry p hg).1
      cases hcount
  | settingCloseall => exact absurd trivial hc

instance (e : Event) (s : Sys) : Decidable (Sound e s) :=
  match e with
  | .settingOpen id _ =>
    match id with
    | .playBack => inferInstanceAs (Decidable (_ ∨ _))
    | .hfpPcm | .hfpCvsd | .hfpVendor | .a2dpSbc | .a2dpAac | .a2dpVendor =>
      inferInstanceAs (Decidable (∀ p, s.gStreamplayer = some p → p.id = .playBack → s.audio_list.length ≤ 1))
  | .settingClose id =>
    match id with
    | .playBack => .isTrue trivial
    | .hfpPcm | .hfpCvsd | .hfpVendor | .a2dpSbc | .a2dpAac | .a2dpVendor => inferInstanceAs (Decidable (∀ p, s.gStreamplayer = some p → _))
  | .settingCloseall => .isTrue trivial

/-- In every run whose requests meet the condition the list and what plays are in
agreement. The next request keeps this if and only if it meets the condition, and
no assertion of the callback fails. -/
theorem queue_agrees {evs : List Event} (hrun : Run (step hasAudio) Sound Init s evs) :
    Agrees hasAudio s ∧ ∀ e, ∃ s', step hasAudio e s = some s' ∧ (Agrees hasAudio s' ↔ Sound e s) := by
  obtain ⟨waiting, h⟩ : ∃ waiting, Holds hasAudio s waiting := by
    refine hrun.inv (fun s => ∃ waiting, Holds hasAudio s waiting) (fun s h => ⟨[], Holds.init h⟩) ?_
    rintro e s s' ⟨waiting, h⟩ hc hs
    obtain ⟨t, waiting', ht, hholds⟩ := h.step hc
    obtain rfl := Option.some.inj (hs.symm.trans ht)
    exact ⟨waiting', hholds⟩
  refine ⟨h.agrees, fun e => ?_⟩
  by_cases hc : Sound e s
  · obtain ⟨s', waiting', hs, hholds⟩ := h.step hc
    exact ⟨s', hs, iff_of_true hholds.agrees hc⟩
  · obtain ⟨s', hs, hbad⟩ := h.breaks hc
    exact ⟨s', hs, iff_of_false hbad hc⟩

/-- After `app_audio_open`. -/
def opened : Sys := ⟨[], none, fun _ => false, 0, [], [], [], []⟩

/-- Music, and then two prompts that follow each other. -/
theorem queue_agrees_prompts : ∃ s evs, Run (step fun _ => true) Sound Init s evs ∧ s.started.map Status.aud_id = [1, 2] ∧
    Agrees (fun _ => true) s := by
  obtain ⟨s, hrun, hgood⟩ := exists_run_of_check (step fun _ => true) Sound Init (some opened)
    [.settingOpen .a2dpSbc 0, .settingClose .a2dpSbc, .settingOpen .playBack 1, .settingOpen .playBack 2,
      .settingClose .playBack] (fun s => s.started.map Status.aud_id = [1, 2]) (by rintro _ ⟨⟩; rfl) (by decide)
  exact ⟨s, _, hrun, of_decide_eq_true hgood, (queue_agrees hrun).1⟩

/-- A prompt is opened over music: its own entry is removed, and that of the music stays. -/
theorem prompt_without_entry : ∃ s evs, Run (step fun _ => true) (fun _ _ => True) Init s evs ∧
    (s.audio_list = [⟨.a2dpSbc, 0, 0⟩] ∧ s.gStreamplayer = some ⟨.playBack, 0, 1⟩) ∧ ¬ Agrees (fun _ => true) s := by
  obtain ⟨s, hrun, hgood⟩ := exists_run_of_check (step fun _ => true) (fun _ _ => True) Init (some opened)
    [.settingOpen .a2dpSbc 0, .settingOpen .playBack 0]
    (fun s => s.audio_list = [⟨.a2dpSbc, 0, 0⟩] ∧ s.gStreamplayer = some ⟨.playBack, 0, 1⟩) (by rintro _ ⟨⟩; rfl) (by decide)
  have hbad : s.audio_list = [⟨.a2dpSbc, 0, 0⟩] ∧ s.gStreamplayer = some ⟨.playBack, 0, 1⟩ := of_decide_eq_true hgood
  refine ⟨s, _, hrun, hbad, fun ha => ?_⟩
  have hcount := (ha.one_entry _ hbad.2).1
  rw [hbad.1] at hcount
  cases hcount

end Apps.AudioQueue
