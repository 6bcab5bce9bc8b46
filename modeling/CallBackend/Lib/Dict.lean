import Mathlib.Data.List.Nodup
import Mathlib.Data.Finset.Basic
import Mathlib.Algebra.Order.BigOperators.Group.List
import Mathlib.Algebra.Order.Ring.Nat

/-!
# Insertion-ordered dictionaries

A finite map that remembers the order in which its keys were first assigned: assigning to a key that
is present replaces the value in place, assigning to a new key appends it, and erasing a key closes
the gap. Keys are distinct by construction. Every fact a client needs is a fact about `get?`; the
list below it is only visible to code that iterates.
-/

namespace Dict

variable {κ ν : Type} [DecidableEq κ]

/-! ### Association lists -/

def lookup : List (κ × ν) → κ → Option ν
  | [], _ => none
  | (a, b) :: rest, k => if a = k then some b else lookup rest k

/-- Rebinds a key where it stands, or appends the binding. -/
def assign : List (κ × ν) → κ → ν → List (κ × ν)
  | [], k, v => [(k, v)]
  | (a, b) :: rest, k, v => if a = k then (a, v) :: rest else (a, b) :: assign rest k v

theorem lookup_assign (l : List (κ × ν)) (k j : κ) (v : ν) :
    lookup (assign l k v) j = if k = j then some v else lookup l j := by
  induction l with
  | nil => simp [assign, lookup]
  | cons entry rest ih =>
    obtain ⟨a, b⟩ := entry
    by_cases hak : a = k
    · subst hak
      by_cases haj : a = j <;> simp [assign, lookup, haj]
    · by_cases haj : a = j
      · subst haj
        simp [assign, lookup, hak, Ne.symm hak]
      · simp [assign, lookup, hak, haj, ih]

theorem keys_assign (l : List (κ × ν)) (k : κ) (v : ν) :
    (assign l k v).map Prod.fst =
      if k ∈ l.map Prod.fst then l.map Prod.fst else l.map Prod.fst ++ [k] := by
  induction l with
  | nil => simp [assign]
  | cons entry rest ih =>
    obtain ⟨a, b⟩ := entry
    by_cases hak : a = k
    · subst hak
      simp [assign]
    · have hka : k ≠ a := Ne.symm hak
      simp only [assign, hak, if_false, List.map_cons, ih, List.mem_cons, hka, false_or]
      split_ifs <;> rfl

theorem lookup_filter (l : List (κ × ν)) (k j : κ) :
    lookup (l.filter fun entry => entry.1 ≠ k) j = if k = j then none else lookup l j := by
  induction l with
  | nil => simp [lookup]
  | cons entry rest ih =>
    obtain ⟨a, b⟩ := entry
    by_cases hak : a = k
    · subst hak
      rw [List.filter_cons_of_neg (by simp), ih]
      by_cases haj : a = j <;> simp [lookup, haj]
    · rw [List.filter_cons_of_pos (by simpa using hak), lookup, ih, lookup]
      by_cases haj : a = j
      · have hkj : k ≠ j := fun h => hak (haj.trans h.symm)
        simp [haj, hkj]
      · simp [haj]

theorem assign_assign (l : List (κ × ν)) (k : κ) (v w : ν) : assign (assign l k v) k w = assign l k w := by
  induction l with
  | nil => simp [assign]
  | cons entry rest ih =>
    obtain ⟨a, b⟩ := entry
    by_cases hak : a = k
    · simp [assign, hak]
    · simp [assign, hak, ih]

variable {l : List (κ × ν)}

theorem assign_of_lookup_eq_some {k : κ} {v : ν} (h : lookup l k = some v) :
    assign l k v = l := by
  induction l with
  | nil => cases h
  | cons entry rest ih =>
    obtain ⟨a, b⟩ := entry
    by_cases hak : a = k
    · rw [lookup, if_pos hak, Option.some.injEq] at h
      rw [assign, if_pos hak, h]
    · rw [lookup, if_neg hak] at h
      rw [assign, if_neg hak, ih h]

theorem assign_of_lookup_eq_none {k : κ} {v : ν} (h : lookup l k = none) :
    assign l k v = l ++ [(k, v)] := by
  induction l with
  | nil => rfl
  | cons entry rest ih =>
    rw [lookup] at h
    split_ifs at h with hk
    rw [assign, if_neg hk, ih h]
    rfl

theorem filter_assign (l : List (κ × ν)) (k : κ) (v : ν) :
    (assign l k v).filter (fun entry => entry.1 ≠ k) = l.filter fun entry => entry.1 ≠ k := by
  induction l with
  | nil => simp [assign]
  | cons entry rest ih =>
    obtain ⟨a, b⟩ := entry
    by_cases hak : a = k
    · simp [assign, hak]
    · rw [assign, if_neg hak, List.filter_cons_of_pos (by simpa using hak),
        List.filter_cons_of_pos (by simpa using hak), ih]

theorem filter_of_lookup_eq_none {k : κ} (h : lookup l k = none) :
    (l.filter fun entry => entry.1 ≠ k) = l := by
  induction l with
  | nil => rfl
  | cons entry rest ih =>
    obtain ⟨a, b⟩ := entry
    by_cases hak : a = k
    · simp [lookup, hak] at h
    · rw [lookup, if_neg hak] at h
      rw [List.filter_cons_of_pos (by simpa using hak), ih h]

theorem lookup_eq_some_iff (hl : (l.map Prod.fst).Nodup) (k : κ) (v : ν) :
    lookup l k = some v ↔ (k, v) ∈ l := by
  induction l with
  | nil => simp [lookup]
  | cons entry rest ih =>
    obtain ⟨a, b⟩ := entry
    simp only [List.map_cons, List.nodup_cons] at hl
    by_cases hak : a = k
    · subst hak
      have hnot : (a, v) ∉ rest := fun hmem => hl.1 (List.mem_map.2 ⟨(a, v), hmem, rfl⟩)
      simp [lookup, hnot, eq_comm]
    · have hne : (k, v) ≠ (a, b) := fun h => hak (congrArg Prod.fst h).symm
      simp only [lookup, hak, if_false, ih hl.2, List.mem_cons, hne, false_or]

end Dict

/-- A dictionary with insertion-ordered, distinct keys. -/
structure Dict (κ ν : Type) where
  entries : List (κ × ν)
  nodup : (entries.map Prod.fst).Nodup

namespace Dict

variable {κ ν : Type}

def empty : Dict κ ν := ⟨[], List.nodup_nil⟩

instance : EmptyCollection (Dict κ ν) := ⟨empty⟩

instance : Inhabited (Dict κ ν) := ⟨empty⟩

def keys (d : Dict κ ν) : List κ := d.entries.map Prod.fst

def values (d : Dict κ ν) : List ν := d.entries.map Prod.snd

def size (d : Dict κ ν) : Nat := d.entries.length

variable [DecidableEq κ]

def get? (d : Dict κ ν) (k : κ) : Option ν := lookup d.entries k

def set (d : Dict κ ν) (k : κ) (v : ν) : Dict κ ν where
  entries := assign d.entries k v
  nodup := by
    rw [keys_assign]
    split_ifs with hk
    · exact d.nodup
    · exact List.nodup_append.2 ⟨d.nodup, List.nodup_singleton k, fun a ha b hb => by
        rw [List.mem_singleton] at hb
        exact fun hab => hk (hb ▸ hab ▸ ha)⟩

def erase (d : Dict κ ν) (k : κ) : Dict κ ν where
  entries := d.entries.filter fun entry => entry.1 ≠ k
  nodup := d.nodup.sublist (List.filter_sublist.map _)

@[simp] theorem get?_empty (k : κ) : (∅ : Dict κ ν).get? k = none := rfl

theorem get?_set (d : Dict κ ν) (k j : κ) (v : ν) :
    (d.set k v).get? j = if k = j then some v else d.get? j :=
  lookup_assign d.entries k j v

@[simp] theorem get?_set_self (d : Dict κ ν) (k : κ) (v : ν) : (d.set k v).get? k = some v := by
  rw [get?_set, if_pos rfl]

theorem get?_set_of_ne (d : Dict κ ν) {k j : κ} (v : ν) (h : k ≠ j) :
    (d.set k v).get? j = d.get? j := by
  rw [get?_set, if_neg h]

theorem get?_erase (d : Dict κ ν) (k j : κ) :
    (d.erase k).get? j = if k = j then none else d.get? j :=
  lookup_filter d.entries k j

@[simp] theorem get?_erase_self (d : Dict κ ν) (k : κ) : (d.erase k).get? k = none := by
  rw [get?_erase, if_pos rfl]

theorem get?_erase_of_ne (d : Dict κ ν) {k j : κ} (h : k ≠ j) :
    (d.erase k).get? j = d.get? j := by
  rw [get?_erase, if_neg h]

variable {d : Dict κ ν}

theorem get?_erase_eq_some {k j : κ} {v : ν} (h : (d.erase k).get? j = some v) :
    k ≠ j ∧ d.get? j = some v := by
  rw [get?_erase] at h
  split_ifs at h with hkj
  exact ⟨hkj, h⟩

theorem set_set (d : Dict κ ν) (k : κ) (v w : ν) : (d.set k v).set k w = d.set k w := by
  simp only [set, assign_assign]

theorem erase_set (d : Dict κ ν) (k : κ) (v : ν) : (d.set k v).erase k = d.erase k := by
  simp only [erase, set, filter_assign]

theorem erase_of_get?_eq_none {k : κ} (h : d.get? k = none) : d.erase k = d := by
  cases d
  simp only [erase, filter_of_lookup_eq_none h]

theorem set_of_get?_eq_some {k : κ} {v : ν} (h : d.get? k = some v) : d.set k v = d := by
  cases d
  simp only [set, assign_of_lookup_eq_some h]

theorem size_erase_le (d : Dict κ ν) (k : κ) : (d.erase k).size ≤ d.size := List.length_filter_le ..

theorem mem_entries_iff (d : Dict κ ν) (k : κ) (v : ν) : (k, v) ∈ d.entries ↔ d.get? k = some v :=
  (lookup_eq_some_iff d.nodup k v).symm

theorem mem_keys_iff (d : Dict κ ν) (k : κ) : k ∈ d.keys ↔ ∃ v, d.get? k = some v := by
  simp only [keys, List.mem_map, Prod.exists, exists_and_right, exists_eq_right, mem_entries_iff]

theorem size_set (d : Dict κ ν) (k : κ) (v : ν) :
    (d.set k v).size = if d.get? k = none then d.size + 1 else d.size := by
  have hkeys := congrArg List.length (keys_assign d.entries k v)
  rw [List.length_map] at hkeys
  refine hkeys.trans ?_
  have hmem : k ∈ d.entries.map Prod.fst ↔ d.get? k ≠ none := by
    rw [Option.ne_none_iff_exists']
    exact mem_keys_iff d k
  by_cases hk : d.get? k = none
  · rw [if_neg (fun h => hmem.1 h hk), if_pos hk]
    simp [size]
  · rw [if_pos (hmem.2 hk), if_neg hk]
    simp [size]

theorem size_set_le (d : Dict κ ν) (k : κ) (v : ν) : (d.set k v).size ≤ d.size + 1 := by
  rw [size_set]
  split_ifs
  · exact Nat.le_refl _
  · exact Nat.le_succ _

theorem countP_assign_le (l : List (κ × ν)) (k : κ) (v : ν) (p : ν → Bool) :
    ((assign l k v).map Prod.snd).countP p ≤ (l.map Prod.snd).countP p + if p v then 1 else 0 := by
  induction l with
  | nil => simp [assign]
  | cons entry rest ih =>
    obtain ⟨a, b⟩ := entry
    by_cases hak : a = k
    · simp only [assign, if_pos hak, List.map_cons, List.countP_cons]
      omega
    · simp only [assign, if_neg hak, List.map_cons, List.countP_cons]
      omega

theorem countP_set_le (d : Dict κ ν) (k : κ) (v : ν) (p : ν → Bool) :
    (d.set k v).values.countP p ≤ d.values.countP p + if p v then 1 else 0 :=
  countP_assign_le d.entries k v p

theorem countP_erase_le (d : Dict κ ν) (k : κ) (p : ν → Bool) :
    (d.erase k).values.countP p ≤ d.values.countP p :=
  (List.filter_sublist.map Prod.snd).countP_le

theorem mem_values_iff (d : Dict κ ν) (v : ν) : v ∈ d.values ↔ ∃ k, d.get? k = some v := by
  simp only [values, List.mem_map, Prod.exists, exists_eq_right, mem_entries_iff]

def filter (p : κ → ν → Bool) (d : Dict κ ν) : Dict κ ν where
  entries := d.entries.filter fun entry => p entry.1 entry.2
  nodup := d.nodup.sublist (List.Sublist.map Prod.fst List.filter_sublist)

theorem get?_filter (p : κ → ν → Bool) (d : Dict κ ν) (k : κ) :
    (d.filter p).get? k = (d.get? k).filter (p k) := by
  ext v
  rw [← mem_entries_iff, Option.filter_eq_some_iff, ← mem_entries_iff]
  exact List.mem_filter

omit [DecidableEq κ] in
theorem size_filter_le (p : κ → ν → Bool) (d : Dict κ ν) : (d.filter p).size ≤ d.size :=
  List.length_filter_le ..

omit [DecidableEq κ] in
theorem countP_filter_le (p : κ → ν → Bool) (d : Dict κ ν) (q : ν → Bool) :
    (d.filter p).values.countP q ≤ d.values.countP q :=
  (List.filter_sublist.map Prod.snd).countP_le

def popOldest (d : Dict κ ν) : Dict κ ν where
  entries := d.entries.tail
  nodup := d.nodup.sublist ((List.tail_sublist _).map Prod.fst)

theorem get?_popOldest {k : κ} {v : ν} (h : d.popOldest.get? k = some v) :
    d.get? k = some v := by
  rw [← mem_entries_iff] at h ⊢
  exact List.mem_of_mem_tail h

omit [DecidableEq κ] in
theorem size_popOldest (d : Dict κ ν) : d.popOldest.size = d.size - 1 := List.length_tail

def mapValues {μ : Type} (f : ν → μ) (d : Dict κ ν) : Dict κ μ where
  entries := d.entries.map fun entry => (entry.1, f entry.2)
  nodup := by simpa only [List.map_map, Function.comp_def] using d.nodup

theorem get?_mapValues {μ : Type} (f : ν → μ) (d : Dict κ ν) (k : κ) :
    (d.mapValues f).get? k = (d.get? k).map f := by
  change lookup (d.entries.map fun entry => (entry.1, f entry.2)) k = (lookup d.entries k).map f
  induction d.entries with
  | nil => rfl
  | cons entry rest ih =>
    simp only [List.map_cons, lookup, ih]
    split_ifs <;> rfl

theorem mapValues_set {μ : Type} (f : ν → μ) (d : Dict κ ν) (k : κ) (v : ν) :
    (d.set k v).mapValues f = (d.mapValues f).set k (f v) := by
  have h : ∀ l : List (κ × ν), (assign l k v).map (fun entry => (entry.1, f entry.2)) =
      assign (l.map fun entry => (entry.1, f entry.2)) k (f v) := by
    intro l
    induction l with
    | nil => rfl
    | cons entry rest ih =>
      simp only [assign, List.map_cons]
      split_ifs
      · rfl
      · rw [List.map_cons, ih]
  simp only [mapValues, set, h]

theorem mapValues_erase {μ : Type} (f : ν → μ) (d : Dict κ ν) (k : κ) :
    (d.erase k).mapValues f = (d.mapValues f).erase k := by
  simp only [mapValues, erase, List.filter_map, Function.comp_def]

omit [DecidableEq κ] in
theorem values_mapValues {μ : Type} (f : ν → μ) (d : Dict κ ν) :
    (d.mapValues f).values = d.values.map f := by
  simp only [mapValues, values, List.map_map, Function.comp_def]

/-! ### Sums over the values -/

/-- The sum of a weight over all values. -/
def sum (d : Dict κ ν) (weight : ν → Nat) : Nat := (d.values.map weight).sum

omit [DecidableEq κ] in
theorem sum_le_sum {weight weight' : ν → Nat} (h : ∀ v, weight v ≤ weight' v) :
    d.sum weight ≤ d.sum weight' :=
  List.sum_le_sum fun v _ => h v

theorem sum_assign (l : List (κ × ν)) (k : κ) (v : ν) (weight : ν → Nat) :
    ((assign l k v).map fun entry => weight entry.2).sum +
        ((lookup l k).map weight).getD 0 =
      (l.map fun entry => weight entry.2).sum + weight v := by
  induction l with
  | nil => simp [assign, lookup]
  | cons entry rest ih =>
    obtain ⟨a, b⟩ := entry
    by_cases hak : a = k
    · simp [assign, lookup, hak]
      omega
    · simp only [assign, lookup, hak, if_false, List.map_cons, List.sum_cons]
      omega

theorem sum_set (d : Dict κ ν) (k : κ) (v : ν) (weight : ν → Nat) :
    (d.set k v).sum weight + ((d.get? k).map weight).getD 0 = d.sum weight + weight v := by
  have h := sum_assign d.entries k v weight
  simpa [sum, values, set, get?, List.map_map, Function.comp_def] using h

theorem sum_filter (hl : (l.map Prod.fst).Nodup) (k : κ) (weight : ν → Nat) :
    ((l.filter fun entry => entry.1 ≠ k).map fun entry => weight entry.2).sum +
        ((lookup l k).map weight).getD 0 =
      (l.map fun entry => weight entry.2).sum := by
  induction l with
  | nil => rfl
  | cons entry rest ih =>
    obtain ⟨a, b⟩ := entry
    rw [List.map_cons, List.nodup_cons] at hl
    by_cases hak : a = k
    · subst hak
      have habsent : lookup rest a = none := by
        by_contra hne
        obtain ⟨v, hv⟩ := Option.ne_none_iff_exists'.1 hne
        exact hl.1 (List.mem_map.2 ⟨(a, v), (lookup_eq_some_iff hl.2 a v).1 hv, rfl⟩)
      rw [List.filter_cons_of_neg (by simp), filter_of_lookup_eq_none habsent]
      simp [lookup, Nat.add_comm]
    · have := ih hl.2
      rw [List.filter_cons_of_pos (by simpa using hak), lookup, if_neg hak, List.map_cons,
        List.sum_cons, List.map_cons, List.sum_cons]
      omega

theorem sum_erase (d : Dict κ ν) (k : κ) (weight : ν → Nat) :
    (d.erase k).sum weight + ((d.get? k).map weight).getD 0 = d.sum weight := by
  have h := sum_filter d.nodup k weight
  simpa [sum, values, erase, get?, List.map_map, Function.comp_def] using h

theorem sum_erase_le (d : Dict κ ν) (k : κ) (weight : ν → Nat) : (d.erase k).sum weight ≤ d.sum weight := by
  have h := d.sum_erase k weight
  omega

end Dict
