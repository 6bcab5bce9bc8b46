import Mathlib.Data.List.TakeWhile
import Mathlib.Data.List.Count

/-!
# Sliding windows

A rate limiter keeps the times of recent events in a queue and, before it admits another event, drops
the times at the front of the queue that are too old. Times that are dropped late do no harm, and
neither does it matter that a whole queue is dropped together when it is empty: as long as the clock
does not go back, no window of the given span ever holds more events than the limit.
-/

namespace Window

variable {span limit clock now : Nat} {log queue : List Nat}

/-- The queue without the times at its front that have left the window. -/
def prune (span now : Nat) (queue : List Nat) : List Nat :=
  queue.dropWhile fun t => decide (t + span ≤ now)

/-- The number of events in the window that ends at a time. -/
def within (span time : Nat) (log : List Nat) : Nat :=
  log.countP fun t => decide (t ≤ time ∧ time < t + span)

/-- No window holds more events than the limit. -/
def Bounded (span limit : Nat) (log : List Nat) : Prop := ∀ time, within span time log ≤ limit

/-- The queue is what is left of the log after times have been dropped that are out of every window
to come. -/
def Kept (span clock : Nat) (log queue : List Nat) : Prop :=
  ∃ dropped, log = dropped ++ queue ∧ ∀ t ∈ dropped, t + span ≤ clock

theorem Kept.nil (span clock : Nat) : Kept span clock [] [] := ⟨[], rfl, nofun⟩

theorem Kept.mono (h : Kept span clock log queue) (hclock : clock ≤ now) : Kept span now log queue := by
  obtain ⟨dropped, hlog, hdropped⟩ := h
  exact ⟨dropped, hlog, fun t ht => Nat.le_trans (hdropped t ht) hclock⟩

theorem Kept.prune (h : Kept span clock log queue) (hclock : clock ≤ now) :
    Kept span now log (prune span now queue) := by
  obtain ⟨dropped, hlog, hdropped⟩ := h
  refine ⟨dropped ++ queue.takeWhile fun t => decide (t + span ≤ now), ?_, fun t ht => ?_⟩
  · rw [List.append_assoc, Window.prune, List.takeWhile_append_dropWhile, hlog]
  · rcases List.mem_append.mp ht with ht | ht
    · exact Nat.le_trans (hdropped t ht) hclock
    · have hold := List.mem_takeWhile_imp ht
      exact of_decide_eq_true hold

theorem count_prune {time : Nat} (h : now < time + span) (queue : List Nat) :
    (prune span now queue).count time = queue.count time := by
  have hzero : (queue.takeWhile fun t => decide (t + span ≤ now)).count time = 0 := by
    rw [List.count_eq_zero]
    intro hmem
    have hold : time + span ≤ now := by
      have hold := List.mem_takeWhile_imp hmem
      exact of_decide_eq_true hold
    omega
  have hsplit := List.takeWhile_append_dropWhile (p := fun t => decide (t + span ≤ now)) (l := queue)
  rw [← hsplit, List.count_append, hzero, Nat.zero_add, hsplit, prune]

theorem Kept.push (h : Kept span clock log queue) (time : Nat) :
    Kept span clock (log ++ [time]) (queue ++ [time]) := by
  obtain ⟨dropped, hlog, hdropped⟩ := h
  exact ⟨dropped, by rw [hlog, List.append_assoc], hdropped⟩

theorem Bounded.nil (span limit : Nat) : Bounded span limit [] := fun _ => Nat.zero_le _

theorem Kept.within_le (h : Kept span clock log queue) {time : Nat} (htime : clock ≤ time) :
    within span time log ≤ queue.length := by
  obtain ⟨dropped, hlog, hdropped⟩ := h
  have hzero : within span time dropped = 0 := by
    rw [within, List.countP_eq_zero]
    intro t ht
    have hold := hdropped t ht
    simp only [decide_eq_true_eq, not_and, Nat.not_lt]
    omega
  rw [hlog, within, List.countP_append, ← within, hzero, Nat.zero_add]
  exact List.countP_le_length

/-- An event that is admitted when the queue is short of the limit leaves every window bounded. -/
theorem Bounded.push (h : Bounded span limit log) (hkept : Kept span now log queue)
    (hroom : queue.length < limit) : Bounded span limit (log ++ [now]) := by
  intro time
  rw [within, List.countP_append, ← within]
  by_cases htime : now ≤ time
  · have hle := hkept.within_le htime
    have hone : [now].countP (fun t => decide (t ≤ time ∧ time < t + span)) ≤ 1 :=
      List.countP_le_length
    omega
  · have hzero : [now].countP (fun t => decide (t ≤ time ∧ time < t + span)) = 0 := by
      rw [List.countP_eq_zero]
      intro t ht
      rw [List.mem_singleton.mp ht, decide_eq_true_eq]
      exact fun hwithin => htime hwithin.1
    rw [hzero]
    exact h time

end Window
