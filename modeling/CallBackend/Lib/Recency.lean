import Mathlib.Data.List.Dedup
import Mathlib.Data.List.Nodup
import Mathlib.Data.Finset.Card

/-!
# Recency windows

A cache of limited size that moves an element to its end whenever the element is presented, and drops
the oldest elements when it is too full, holds exactly the elements presented last: `recent limit
history` are the distinct elements of the history, ordered by their last presentation, of which the
last `limit` count.
-/

namespace Recency

variable {α : Type} [DecidableEq α] {limit : Nat} {history window : List α} {x : α}

def lastOf (limit : Nat) (l : List α) : List α := l.drop (l.length - limit)

/-- The window after one more presentation. -/
def present (limit : Nat) (window : List α) (x : α) : List α :=
  lastOf limit (window.erase x ++ [x])

/-- The distinct elements of a history, the one presented last at the end, and of these the last. -/
def recent (limit : Nat) (history : List α) : List α := lastOf limit history.dedup

omit [DecidableEq α] in
theorem lastOf_append {front back : List α} (h : limit ≤ back.length) :
    lastOf limit (front ++ back) = lastOf limit back := by
  have hcount : (front ++ back).length - limit = front.length + (back.length - limit) := by
    rw [List.length_append]
    omega
  rw [lastOf, lastOf, hcount, ← List.drop_drop, List.drop_left]

omit [DecidableEq α] in
theorem exists_append_lastOf (limit : Nat) (l : List α) : ∃ front, l = front ++ lastOf limit l ∧
    (front = [] ∨ (lastOf limit l).length = limit) := by
  refine ⟨l.take (l.length - limit), (List.take_append_drop _ l).symm, ?_⟩
  by_cases h : l.length ≤ limit
  · rw [Nat.sub_eq_zero_of_le h]
    exact .inl rfl
  · refine .inr ?_
    rw [lastOf, List.length_drop]
    omega

theorem dedup_append_singleton (history : List α) (x : α) :
    (history ++ [x]).dedup = history.dedup.erase x ++ [x] := by
  induction history with
  | nil => rfl
  | cons a history ih =>
    by_cases hmem : a ∈ history
    · rw [List.cons_append, List.dedup_cons_of_mem (List.mem_append_left _ hmem), ih,
        List.dedup_cons_of_mem hmem]
    · rw [List.dedup_cons_of_notMem hmem]
      by_cases hax : a = x
      · have hlast : a ∈ history ++ [x] := by simp [hax]
        have habsent : x ∉ history.dedup := by
          rw [List.mem_dedup, ← hax]
          exact hmem
        rw [List.cons_append, List.dedup_cons_of_mem hlast, ih, hax, List.erase_cons_head,
          List.erase_of_not_mem habsent]
      · have hnot : a ∉ history ++ [x] := by simp [hmem, hax]
        rw [List.cons_append, List.dedup_cons_of_notMem hnot, ih, List.erase_cons_tail (by simp [hax]),
          List.cons_append]

theorem present_recent (hlimit : 1 ≤ limit) (history : List α) (x : α) :
    present limit (recent limit history) x = recent limit (history ++ [x]) := by
  obtain ⟨front, hsplit, hfull⟩ := exists_append_lastOf limit history.dedup
  obtain ⟨back, hback⟩ : ∃ back, back = lastOf limit history.dedup := ⟨_, rfl⟩
  rw [← hback] at hsplit hfull
  have hnodup : (front ++ back).Nodup := hsplit ▸ history.nodup_dedup
  rw [present, recent, recent, ← hback, dedup_append_singleton, hsplit]
  rcases hfull with hnil | hfull
  · rw [hnil, List.nil_append]
  · by_cases hx : x ∈ back
    · have hfront : x ∉ front := fun hfront => List.disjoint_of_nodup_append hnodup hfront hx
      have hlength : limit ≤ (back.erase x ++ [x]).length := by
        rw [List.length_append, List.length_erase_of_mem hx, List.length_singleton]
        omega
      rw [List.erase_append_right _ hfront, List.append_assoc, lastOf_append hlength]
    · have hlength : limit ≤ (back ++ [x]).length := by
        rw [List.length_append]
        omega
      have herase : (front ++ back).erase x = front.erase x ++ back := by
        by_cases hfront : x ∈ front
        · exact List.erase_append_left _ hfront
        · rw [List.erase_append_right _ hfront, List.erase_of_not_mem hx, List.erase_of_not_mem hfront]
      rw [herase, List.append_assoc, List.erase_of_not_mem hx, lastOf_append hlength]

end Recency
