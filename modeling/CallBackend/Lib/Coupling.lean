import CallBackend.Lib.Exec

/-!
# Two runs of stateful computations

`Coupled S R m m'` compares a run of `m` with a run of `m'` in the same environment: from states that
are related by `S` both return values related by `R`, or both raise the same exception, and either
way the states they leave are related by `S` again. With `m = m'` and a relation that forgets part of
the state this says that the computation is confined: it does not let the forgotten part through.
-/

namespace Exec

variable {ρ σ ε α β γ δ : Type} {S : σ → σ → Prop} {R : α → β → Prop} {Q : γ → δ → Prop}

/-- Related values, or the same exception. -/
inductive Matches (R : α → β → Prop) : Except ε α → Except ε β → Prop
  | ok {a : α} {b : β} (h : R a b) : Matches R (.ok a) (.ok b)
  | error (e : ε) : Matches R (.error e) (.error e)

theorem Matches.of_eq {r r' : Except ε α} (h : r = r') : Matches Eq r r' := by
  subst h
  cases r with
  | ok a => exact .ok rfl
  | error e => exact .error e

theorem Matches.eq {r r' : Except ε α} (h : Matches Eq r r') : r = r' := by
  cases h with
  | ok h => exact congrArg Except.ok h
  | error e => rfl

theorem Matches.map_eq {r : Except ε α} {r' : Except ε β} {f : α → γ} {g : β → γ}
    (h : Matches (fun a b => f a = g b) r r') : r.map f = r'.map g := by
  cases h with
  | ok h => exact congrArg Except.ok h
  | error e => rfl

def Coupled (S : σ → σ → Prop) (R : α → β → Prop) (m : Exec ρ σ ε α) (m' : Exec ρ σ ε β) : Prop :=
  ∀ env s s', S s s' → Matches R (m env s).1 (m' env s').1 ∧ S (m env s).2 (m' env s').2

/-- The computation does not let through what the relation forgets. -/
abbrev Confined (S : σ → σ → Prop) (m : Exec ρ σ ε α) : Prop := Coupled S Eq m m

variable {m' : Exec ρ σ ε β} {m : Exec ρ σ ε α}

theorem Coupled.mono {R' : α → β → Prop}
    (h : Coupled S R m m') (himp : ∀ a b, R a b → R' a b) : Coupled S R' m m' := by
  intro env s s' hs
  obtain ⟨hresult, hs'⟩ := h env s s' hs
  refine ⟨?_, hs'⟩
  generalize (m env s).1 = r at hresult ⊢
  generalize (m' env s').1 = r' at hresult ⊢
  cases hresult with
  | ok hab => exact .ok (himp _ _ hab)
  | error e => exact .error e

/-- What holds of every value of the first computation may be used of the two values. -/
theorem Coupled.and_wp {P : α → Prop} (h : Coupled S R m m')
    (hwp : ∀ env s, wp m env s (fun a _ => P a) fun _ _ => True) :
    Coupled S (fun a b => R a b ∧ P a) m m' := by
  intro env s s' hs
  obtain ⟨hresult, hs'⟩ := h env s s' hs
  have hvalue := hwp env s
  refine ⟨?_, hs'⟩
  rcases hm : m env s with ⟨r, t⟩
  rw [hm] at hresult
  generalize (m' env s').1 = r' at hresult ⊢
  cases hresult with
  | ok hab => exact .ok ⟨hab, wp_ok hvalue hm⟩
  | error e => exact .error e

theorem coupled_pure {a : α} {b : β} (h : R a b) :
    Coupled S R (pure a : Exec ρ σ ε α) (pure b : Exec ρ σ ε β) :=
  fun _ _ _ hs => ⟨.ok h, hs⟩

theorem coupled_raise (e : ε) : Coupled S R (raise e : Exec ρ σ ε α) (raise e : Exec ρ σ ε β) :=
  fun _ _ _ hs => ⟨.error e, hs⟩

theorem coupled_get : Coupled S S (get : Exec ρ σ ε σ) get := fun _ _ _ hs => ⟨.ok hs, hs⟩

theorem coupled_ask : Coupled S Eq (ask : Exec ρ σ ε ρ) ask := fun _ _ _ hs => ⟨.ok rfl, hs⟩

theorem coupled_modify {f f' : σ → σ} (h : ∀ s s', S s s' → S (f s) (f' s')) :
    Coupled S Eq (modify f : Exec ρ σ ε Unit) (modify f') :=
  fun _ s s' hs => ⟨.ok rfl, h s s' hs⟩

theorem coupled_lift {r : Except ε α} {r' : Except ε β} (h : Matches R r r') :
    Coupled S R (lift r : Exec ρ σ ε α) (lift r' : Exec ρ σ ε β) :=
  fun _ _ _ hs => ⟨h, hs⟩

theorem Coupled.bind {f : α → Exec ρ σ ε γ}
    {f' : β → Exec ρ σ ε δ} (h : Coupled S R m m')
    (hf : ∀ a b, R a b → Coupled S Q (f a) (f' b)) : Coupled S Q (m >>= f) (m' >>= f') := by
  intro env s s' hs
  obtain ⟨hresult, hs'⟩ := h env s s' hs
  rcases hm : m env s with ⟨r, t⟩
  rcases hm' : m' env s' with ⟨r', t'⟩
  rw [hm, hm'] at hresult hs'
  cases hresult with
  | ok hab =>
    rw [bind_ok hm, bind_ok hm']
    exact hf _ _ hab env t t' hs'
  | error e =>
    rw [bind_error hm, bind_error hm']
    exact ⟨.error e, hs'⟩

/-- The rule of `bind` where both runs have the same value in between. -/
theorem Coupled.bind_same {m m' : Exec ρ σ ε α} {f : α → Exec ρ σ ε γ} {f' : α → Exec ρ σ ε δ}
    (h : Coupled S Eq m m') (hf : ∀ a, Coupled S Q (f a) (f' a)) :
    Coupled S Q (m >>= f) (m' >>= f') :=
  h.bind fun a _ hab => hab ▸ hf a

theorem Coupled.rescue {handler : ε → Exec ρ σ ε α}
    {handler' : ε → Exec ρ σ ε β} (h : Coupled S R m m')
    (hhandler : ∀ e, Coupled S R (handler e) (handler' e)) :
    Coupled S R (rescue m handler) (rescue m' handler') := by
  intro env s s' hs
  obtain ⟨hresult, hs'⟩ := h env s s' hs
  rcases hm : m env s with ⟨r, t⟩
  rcases hm' : m' env s' with ⟨r', t'⟩
  rw [hm, hm'] at hresult hs'
  cases hresult with
  | ok hab =>
    rw [rescue_ok hm, rescue_ok hm']
    exact ⟨.ok hab, hs'⟩
  | error e =>
    rw [rescue_error hm, rescue_error hm']
    exact hhandler e env t t' hs'

theorem coupled_ite {p p' : Prop} [Decidable p] [Decidable p'] {m n : Exec ρ σ ε α}
    {m' n' : Exec ρ σ ε β} (hp : p ↔ p') (h : p → Coupled S R m m') (h' : ¬p → Coupled S R n n') :
    Coupled S R (if p then m else n) (if p' then m' else n') := by
  by_cases hcond : p
  · rw [if_pos hcond, if_pos (hp.mp hcond)]
    exact h hcond
  · rw [if_neg hcond, if_neg fun hcond' => hcond (hp.mpr hcond')]
    exact h' hcond

theorem coupled_ensure {p p' : Prop} [Decidable p] [Decidable p'] (hp : p ↔ p') (e : ε) :
    Coupled S Eq (ensure p e : Exec ρ σ ε Unit) (ensure p' e) :=
  coupled_ite hp (fun _ => coupled_pure rfl) fun _ => coupled_raise e

theorem coupled_require {o : Option α} (e : ε) :
    Coupled S Eq (require o e : Exec ρ σ ε α) (require o e) := by
  cases o with
  | none => exact coupled_raise e
  | some a => exact coupled_pure rfl

theorem coupled_guard {p p' : Prop} [Decidable p] [Decidable p'] {e : ε} {f : γ → Exec ρ σ ε α}
    {f' : γ → Exec ρ σ ε β} {n : Exec ρ σ ε α} {n' : Exec ρ σ ε β} (hp : p ↔ p')
    (h : ¬p → Coupled S R n n') :
    Coupled S R (if p then raise e >>= f else n) (if p' then raise e >>= f' else n') :=
  coupled_ite hp (fun _ => (coupled_raise (R := fun _ _ => False) e).bind fun _ _ h => h.elim) h

theorem coupled_forEach {action action' : α → Exec ρ σ ε Unit} {items : List α}
    (h : ∀ a ∈ items, Coupled S Eq (action a) (action' a)) :
    Coupled S Eq (forEach action items) (forEach action' items) := by
  induction items with
  | nil => exact coupled_pure rfl
  | cons a rest ih =>
    exact (h a (.head _)).bind_same fun _ =>
      ih fun b hb => h b (.tail a hb)

end Exec
