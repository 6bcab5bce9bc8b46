import Mathlib.Algebra.Order.BigOperators.Group.List
import Mathlib.Algebra.Order.Ring.Nat

/-!
# Tallies

Counters that are kept beside a list of records: how many tokens of a semaphore are out, how much of
a budget is used. Each record has a weight, the counter is the sum of the weights, and a record that
changes moves the counter by the difference.
-/

namespace Tally

variable {α : Type} {weight weight' : α → Nat} {items : List α} {item item' : α} {n : Nat}

def tally (weight : α → Nat) (items : List α) : Nat := (items.map weight).sum

theorem tally_push (weight : α → Nat) (items : List α) (item : α) :
    tally weight (items ++ [item]) = tally weight items + weight item := by
  rw [tally, List.map_append, List.sum_append, List.map_singleton, List.sum_singleton, tally]

theorem tally_set (weight : α → Nat) (item' : α) (h : items[n]? = some item) :
    tally weight (items.set n item') + weight item = tally weight items + weight item' := by
  induction items generalizing n with
  | nil => exact nomatch h
  | cons first rest ih =>
    cases n with
    | zero =>
      rw [List.getElem?_cons_zero, Option.some.injEq] at h
      simp only [List.set_cons_zero, tally, List.map_cons, List.sum_cons, h]
      omega
    | succ n =>
      rw [List.getElem?_cons_succ] at h
      have hrest := ih h
      simp only [List.set_cons_succ, tally, List.map_cons, List.sum_cons] at hrest ⊢
      omega

theorem tally_set_same (h : items[n]? = some item) (hweight : weight item' = weight item) :
    tally weight (items.set n item') = tally weight items := by
  have hset := tally_set weight item' h
  omega

theorem weight_le_tally (weight : α → Nat) (h : items[n]? = some item) : weight item ≤ tally weight items :=
  List.le_sum_of_mem (List.mem_map_of_mem (List.mem_of_getElem? h))

theorem tally_le_tally (h : ∀ item ∈ items, weight item ≤ weight' item) :
    tally weight items ≤ tally weight' items :=
  List.sum_le_sum h

theorem tally_toNat (p : α → Bool) (items : List α) :
    tally (fun item => (p item).toNat) items = items.countP p := by
  induction items with
  | nil => rfl
  | cons first rest ih =>
    rw [tally, List.map_cons, List.sum_cons, ← tally, ih, List.countP_cons]
    cases p first with
    | false => exact Nat.zero_add _
    | true => exact Nat.add_comm _ _

theorem countP_set (p : α → Bool) (item' : α) (h : items[n]? = some item) :
    (items.set n item').countP p + (p item).toNat = items.countP p + (p item').toNat := by
  rw [← tally_toNat, ← tally_toNat]
  exact tally_set (fun item => (p item).toNat) item' h

theorem countP_add {p q r : α → Bool} (h : ∀ item ∈ items, (p item).toNat + (q item).toNat = (r item).toNat) :
    items.countP p + items.countP q = items.countP r := by
  rw [← tally_toNat, ← tally_toNat, ← tally_toNat, tally, tally, tally, ← List.sum_map_add,
    List.map_congr_left h]

end Tally
