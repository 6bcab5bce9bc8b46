import Mathlib.Logic.Relation
import Mathlib.Tactic.SplitIfs

/-!
# Labelled transition systems

Runs of a system whose every step meets a condition on the state it starts from and the label it
carries; the condition `fun _ _ => True` gives all runs. An invariant is shown once, by what one
step keeps.
-/

/-- A transition system with labelled steps. -/
structure System (σ ι : Type) where
  init : σ → Prop
  step : σ → ι → σ → Prop

namespace System

variable {σ ι : Type}

/-- States reached by runs whose steps all meet `ok`. -/
inductive Reachable (S : System σ ι) (ok : σ → ι → Prop) : σ → Prop
  | init {s : σ} : S.init s → Reachable S ok s
  | step {s s' : σ} {a : ι} : Reachable S ok s → ok s a → S.step s a s' → Reachable S ok s'

/-- Runs between two states whose steps all meet `ok`. -/
inductive Path (S : System σ ι) (ok : σ → ι → Prop) (s : σ) : σ → Prop
  | refl : Path S ok s s
  | step {t t' : σ} {a : ι} : Path S ok s t → ok t a → S.step t a t' → Path S ok s t'

/-- Every step is allowed. -/
def anyStep (_ : σ) (_ : ι) : Prop := True

instance (s : σ) (a : ι) : Decidable (anyStep s a) := isTrue trivial

variable {S : System σ ι} {ok : σ → ι → Prop}

/-- What holds initially and is kept by every allowed step holds in every state reached. -/
theorem Reachable.invariant {I : σ → Prop} (hinit : ∀ s, S.init s → I s)
    (hstep : ∀ s a s', I s → ok s a → S.step s a s' → I s') {s : σ} (h : S.Reachable ok s) : I s := by
  induction h with
  | init hs => exact hinit _ hs
  | step _ hok hs ih => exact hstep _ _ _ ih hok hs

theorem Reachable.mono {ok' : σ → ι → Prop} (hok : ∀ s a, ok s a → ok' s a) {s : σ}
    (h : S.Reachable ok s) : S.Reachable ok' s := by
  induction h with
  | init hs => exact .init hs
  | step _ ha hs ih => exact .step ih (hok _ _ ha) hs

theorem Path.reachable {s t : σ} (hs : S.Reachable ok s) (h : S.Path ok s t) : S.Reachable ok t := by
  induction h with
  | refl => exact hs
  | step _ hok hstep ih => exact .step ih hok hstep

/-- What every allowed step from a reachable state keeps is kept along every run. -/
theorem Path.stable {I : σ → Prop} {s t : σ} (hs : S.Reachable ok s) (hI : I s)
    (hstep : ∀ t a t', S.Reachable ok t → I t → ok t a → S.step t a t' → I t')
    (h : S.Path ok s t) : I t := by
  induction h with
  | refl => exact hI
  | step hpath hok hst ih => exact hstep _ _ _ (hpath.reachable hs) ih hok hst

/-- A sequence of labels that are always allowed, and whose steps all succeed, is a run. -/
theorem Path.of_foldlM {next : σ → ι → Option σ} (hstep : ∀ s a s', next s a = some s' → S.step s a s')
    {s t u : σ} {labels : List ι} (hok : ∀ a ∈ labels, ∀ t, ok t a) (h : S.Path ok s t)
    (hrun : labels.foldlM next t = some u) : S.Path ok s u := by
  induction labels generalizing t with
  | nil => exact Option.some.inj hrun ▸ h
  | cons a rest ih =>
    rw [List.foldlM_cons, Option.bind_eq_bind, Option.bind_eq_some_iff] at hrun
    obtain ⟨t', hnext, hrun⟩ := hrun
    exact ih (fun b hb => hok b (.tail _ hb))
      (h.step (hok a (.head _) t) (hstep t a t' hnext)) hrun

/-! ### Runs of a deterministic system -/

/-- Every label of the sequence meets the condition where it occurs. -/
def Meets (next : σ → ι → σ) (ok : σ → ι → Prop) : σ → List ι → Prop
  | _, [] => True
  | s, a :: rest => ok s a ∧ Meets next ok (next s a) rest

instance decidableMeets (next : σ → ι → σ) (ok : σ → ι → Prop) [∀ s a, Decidable (ok s a)] :
    ∀ s labels, Decidable (Meets next ok s labels)
  | _, [] => isTrue trivial
  | s, a :: rest =>
    have := decidableMeets next ok (next s a) rest
    inferInstanceAs (Decidable (ok s a ∧ Meets next ok (next s a) rest))

/-- A sequence of labels that meets what a step needs, and the condition, is a run. -/
theorem Path.of_meets {next : σ → ι → σ} {enabled : σ → ι → Prop}
    (hstep : ∀ s a, enabled s a → S.step s a (next s a)) {s t : σ} {labels : List ι}
    (h : S.Path ok s t) (hmeets : Meets next (fun s a => enabled s a ∧ ok s a) t labels) :
    S.Path ok s (labels.foldl next t) := by
  induction labels generalizing t with
  | nil => exact h
  | cons a rest ih => exact ih (h.step hmeets.1.2 (hstep t a hmeets.1.1)) hmeets.2

/-- The step of a partial function, where it is defined. -/
theorem step_getD {next : σ → ι → Option σ} (hstep : ∀ s a s', next s a = some s' → S.step s a s')
    (s : σ) (a : ι) (h : (next s a).isSome = true) : S.step s a ((next s a).getD s) := by
  obtain ⟨s', hnext⟩ := Option.isSome_iff_exists.mp h
  rw [hnext]
  exact hstep s a s' hnext

/-! ### Systems of many calls

The calls of a system are kept in a list and named by their places in it. -/

section Calls

variable {α : Type} {calls : List α} {call call' other : α} {n m : Nat}

theorem lookup_set (hcall : calls[n]? = some call) (h : (calls.set n call')[m]? = some other) :
    (m = n ∧ other = call') ∨ (m ≠ n ∧ calls[m]? = some other) := by
  by_cases hm : m = n
  · subst hm
    have hlt := (List.getElem?_eq_some_iff.mp hcall).1
    rw [List.getElem?_set_self hlt] at h
    exact .inl ⟨rfl, (Option.some.inj h).symm⟩
  · rw [List.getElem?_set_ne (Ne.symm hm)] at h
    exact .inr ⟨hm, h⟩

theorem lookup_push (h : (calls ++ [call])[m]? = some other) :
    (m = calls.length ∧ other = call) ∨ (m < calls.length ∧ calls[m]? = some other) := by
  rw [List.getElem?_append] at h
  split_ifs at h with hlt
  · exact .inr ⟨hlt, h⟩
  · rw [List.getElem?_singleton] at h
    split_ifs at h with hm
    exact .inl ⟨by omega, (Option.some.inj h).symm⟩

end Calls

end System
