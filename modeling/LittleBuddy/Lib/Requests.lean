import Mathlib.Data.List.Nodup
import Mathlib.Tactic.Common
/-!
# Coalesced requests

A queue in which a later request for a key replaces the value of one that still
waits. It is described by the log of all requests whose keys still wait, oldest
first: keys are served in the order of their first request, each once and with
the value of its latest one. A list of entries `Shows` such a log.
-/

namespace Requests

variable {κ ν : Type} [DecidableEq κ]

/-- The waiting keys, in the order of their first request. -/
def keys (log : List (κ × ν)) : List κ := (log.map Prod.fst).eraseDups

/-- The value of the latest request for a key. -/
def latest (k : κ) (log : List (κ × ν)) : Option ν := (log.reverse.find? fun e => decide (e.1 = k)).map Prod.snd

/-- The request that is served next. -/
def pop (log : List (κ × ν)) : Option (κ × ν) := log.head?.bind fun e => (latest e.1 log).map fun v => (e.1, v)

/-- The log when a key no longer waits. -/
def serve (k : κ) (log : List (κ × ν)) : List (κ × ν) := log.filter fun e => decide (e.1 ≠ k)

/-- The entries of the waiting keys. -/
structure Shows (q log : List (κ × ν)) : Prop where
  keys : q.map Prod.fst = keys log
  nodup : (q.map Prod.fst).Nodup
  latest : ∀ e ∈ q, latest e.1 log = some e.2

variable {q log : List (κ × ν)} {k : κ} {v : ν}

theorem latest_append_self : latest k (log ++ [(k, v)]) = some v := by simp [latest]

theorem latest_append_other {k' : κ} (h : k ≠ k') : latest k' (log ++ [(k, v)]) = latest k' log := by
  simp [latest, h]

theorem latest_serve_other {k' : κ} (h : k' ≠ k) : latest k' (serve k log) = latest k' log := by
  unfold latest serve
  rw [← List.filter_reverse]
  induction log.reverse with
  | nil => rfl
  | cons e l ih =>
    by_cases he : e.1 = k
    · have hk' : ¬ e.1 = k' := fun hc => h (hc.symm.trans he)
      simpa [List.filter_cons, he, List.find?_cons, hk', h.symm] using ih
    · by_cases hk' : e.1 = k'
      · simp [hk', h]
      · simpa [List.filter_cons, he, List.find?_cons, hk'] using ih

theorem keys_append_mem (h : k ∈ keys log) : keys (log ++ [(k, v)]) = keys log := by
  have hk : k ∈ log.map Prod.fst := List.mem_eraseDups.1 h
  unfold keys
  rw [List.map_append, List.eraseDups_append]
  simp [List.removeAll, hk]

theorem keys_append_notMem (h : k ∉ keys log) : keys (log ++ [(k, v)]) = keys log ++ [k] := by
  have hk : k ∉ log.map Prod.fst := fun hc => h (List.mem_eraseDups.2 hc)
  unfold keys
  rw [List.map_append, List.eraseDups_append]
  simp [List.removeAll, hk, List.eraseDups_cons]

theorem Shows.nil : Shows ([] : List (κ × ν)) [] := ⟨rfl, List.nodup_nil, by simp⟩

/-- A request for a key that does not wait goes to the end. -/
theorem Shows.add (h : Shows q log) (hk : k ∉ q.map Prod.fst) (v : ν) : Shows (q ++ [(k, v)]) (log ++ [(k, v)]) where
  keys := by
    rw [keys_append_notMem (h.keys ▸ hk), List.map_append, h.keys]
    rfl
  nodup := by
    rw [List.map_append]
    refine List.nodup_append.2 ⟨h.nodup, by simp, ?_⟩
    intro a ha b hb hab
    rw [List.map_singleton, List.mem_singleton] at hb
    rw [hab, hb] at ha
    exact hk ha
  latest e he := by
    rcases List.mem_append.1 he with he | he
    · have hne : k ≠ e.1 := fun hc => hk (hc ▸ List.mem_map_of_mem he)
      rw [latest_append_other hne]
      exact h.latest e he
    · rw [List.mem_singleton.1 he, latest_append_self]

theorem Shows.fst_inj (h : Shows q log) {i j : Nat} (hi : i < q.length) (hj : j < q.length) (he : q[i].1 = q[j].1) :
    i = j := by
  have hi' : i < (q.map Prod.fst).length := by simpa using hi
  have hj' : j < (q.map Prod.fst).length := by simpa using hj
  have hinj : (q.map Prod.fst)[i] = (q.map Prod.fst)[j] ↔ i = j := h.nodup.getElem_inj_iff
  exact hinj.1 (by rw [List.getElem_map, List.getElem_map, he])

/-- A request for a waiting key replaces its value. -/
theorem Shows.set (h : Shows q log) {i : Nat} (hi : i < q.length) (hk : q[i].1 = k) (v : ν) :
    Shows (q.set i (k, v)) (log ++ [(k, v)]) := by
  have hmap : (q.set i (k, v)).map Prod.fst = q.map Prod.fst := by
    have hi' : i < (q.map Prod.fst).length := by simpa using hi
    have hget : k = (q.map Prod.fst)[i] := by rw [List.getElem_map, hk]
    rw [List.map_set, hget, List.set_getElem_self]
  have hmem : k ∈ Requests.keys log := by
    rw [← h.keys, ← hk]
    exact List.mem_map_of_mem (List.getElem_mem hi)
  refine ⟨?_, ?_, fun e he => ?_⟩
  · rw [hmap, h.keys, keys_append_mem hmem]
  · rw [hmap]
    exact h.nodup
  · obtain ⟨j, hj, rfl⟩ := List.getElem_of_mem he
    rw [List.length_set] at hj
    rw [List.getElem_set]
    split
    · exact latest_append_self
    · rename_i hij
      have hne : k ≠ q[j].1 := fun hc => hij (h.fst_inj hi hj (hk.trans hc))
      rw [latest_append_other hne]
      exact h.latest _ (List.getElem_mem hj)

/-- Serving the first entry. -/
theorem Shows.pop {e : κ × ν} (h : Shows (e :: q) log) : pop log = some e ∧ Shows q (serve e.1 log) := by
  cases log with
  | nil =>
    have := h.keys
    simp [Requests.keys] at this
  | cons e₀ log =>
    have hkeys := h.keys
    simp only [Requests.keys, List.map_cons, List.eraseDups_cons, List.cons.injEq] at hkeys
    obtain ⟨hk, htail⟩ := hkeys
    have hlast : Requests.latest e.1 (e₀ :: log) = some e.2 := h.latest e (by simp)
    have hnd := List.nodup_cons.1 (h.nodup : (e.1 :: q.map Prod.fst).Nodup)
    refine ⟨?_, ?_, hnd.2, fun e' he' => ?_⟩
    · simp [Requests.pop, ← hk, hlast]
    · rw [htail]
      unfold Requests.keys serve
      rw [List.filter_cons_of_neg (by simp [hk]), hk, List.filter_map]
      congr 3
      funext x
      by_cases hx : x.1 = e₀.1 <;> simp [hx]
    · have hne : e'.1 ≠ e.1 := fun hc => hnd.1 (hc ▸ List.mem_map_of_mem he')
      rw [latest_serve_other hne]
      exact h.latest e' (by simp [he'])

theorem Shows.pop_nil (h : Shows [] log) : log = [] := by
  cases log with
  | nil => rfl
  | cons e log =>
    have := h.keys
    simp [Requests.keys, List.eraseDups_cons] at this

end Requests
