import Mathlib.Order.Defs.Unbundled
import Mathlib.Tactic.SplitIfs

/-!
# Stateful computations that keep their state when they fail

`Exec ρ σ ε α` reads an environment, changes a state and returns a value or raises. Unlike a
transaction, a computation that raises leaves the state as it was at the raise: this is how
imperative code with exceptions behaves, and where its partial updates come from.

`wp` is the weakest precondition, with one postcondition for the normal return and one for the
raise; its rules follow the constructors, so a proof about a computation is a walk through its text.
-/

theorem except_bind_eq_ok {ε α β : Type} {x : Except ε α} {f : α → Except ε β} {b : β} :
    (x >>= f) = .ok b ↔ ∃ a, x = .ok a ∧ f a = .ok b := by
  cases x with
  | error e => simp [Bind.bind, Except.bind]
  | ok a => simp [Bind.bind, Except.bind]

theorem except_toOption_eq_some {ε α : Type} {x : Except ε α} {a : α} :
    x.toOption = some a ↔ x = .ok a := by
  cases x with
  | error e => simp [Except.toOption]
  | ok b => simp [Except.toOption]

/-- A computation over an environment, a state and exceptions. -/
def Exec (ρ σ ε α : Type) : Type := ρ → σ → Except ε α × σ

namespace Exec

variable {ρ σ ε α β : Type}

def bind (m : Exec ρ σ ε α) (f : α → Exec ρ σ ε β) : Exec ρ σ ε β := fun env s =>
  match m env s with
  | (.ok a, s') => f a env s'
  | (.error e, s') => (.error e, s')

instance : Monad (Exec ρ σ ε) where
  pure a := fun _ s => (.ok a, s)
  bind := bind

def ask : Exec ρ σ ε ρ := fun env s => (.ok env, s)

def get : Exec ρ σ ε σ := fun _ s => (.ok s, s)

def modify (f : σ → σ) : Exec ρ σ ε Unit := fun _ s => (.ok (), f s)

def raise (e : ε) : Exec ρ σ ε α := fun _ s => (.error e, s)

def rescue (m : Exec ρ σ ε α) (handler : ε → Exec ρ σ ε α) : Exec ρ σ ε α := fun env s =>
  match m env s with
  | (.ok a, s') => (.ok a, s')
  | (.error e, s') => handler e env s'

def ensure (p : Prop) [Decidable p] (e : ε) : Exec ρ σ ε Unit :=
  if p then pure () else raise e

/-- The value of an option, or a raise. -/
def require (o : Option α) (e : ε) : Exec ρ σ ε α :=
  match o with
  | some a => pure a
  | none => raise e

/-- A pure computation that may raise. -/
def lift (r : Except ε α) : Exec ρ σ ε α := fun _ s => (r, s)

/-- Runs an action on every element, in order, until one raises. -/
def forEach (action : α → Exec ρ σ ε Unit) : List α → Exec ρ σ ε Unit
  | [] => pure ()
  | a :: rest => do
    action a
    forEach action rest

section Run

variable {m : Exec ρ σ ε α} {f : α → Exec ρ σ ε β} {handler : ε → Exec ρ σ ε α} {env : ρ} {s s' : σ}
  {a : α} {e : ε}

theorem bind_ok (h : m env s = (.ok a, s')) : (m >>= f) env s = f a env s' := by
  change bind m f env s = _
  simp only [bind, h]

theorem bind_error (h : m env s = (.error e, s')) : (m >>= f) env s = (.error e, s') := by
  change bind m f env s = _
  simp only [bind, h]

theorem rescue_ok (h : m env s = (.ok a, s')) : rescue m handler env s = (.ok a, s') := by
  simp only [rescue, h]

theorem rescue_error (h : m env s = (.error e, s')) : rescue m handler env s = handler e env s' := by
  simp only [rescue, h]

theorem get_bind (f : σ → Exec ρ σ ε α) : (get >>= f) env s = f s env s := rfl

theorem ask_bind (f : ρ → Exec ρ σ ε α) : (ask >>= f) env s = f env env s := rfl

theorem modify_bind (g : σ → σ) (f : Unit → Exec ρ σ ε α) :
    (modify g >>= f) env s = f () env (g s) := rfl

theorem ensure_bind {p : Prop} [Decidable p] (h : p) (f : Unit → Exec ρ σ ε α) :
    (ensure p e >>= f) env s = f () env s := by
  rw [ensure, if_pos h]
  rfl

end Run

instance : LawfulMonad (Exec ρ σ ε) := LawfulMonad.mk' _
  (fun m => by
    funext env s
    change bind m (fun a _ s => (.ok a, s)) env s = m env s
    unfold bind
    rcases m env s with ⟨_ | _, s'⟩ <;> rfl)
  (fun _ _ => rfl)
  (fun m f g => by
    funext env s
    change bind (bind m f) g env s = bind m (fun a => bind (f a) g) env s
    unfold bind
    rcases m env s with ⟨_ | _, s'⟩ <;> rfl)

theorem forEach_append (action : α → Exec ρ σ ε Unit) (xs ys : List α) :
    forEach action (xs ++ ys) = (do forEach action xs; forEach action ys) := by
  induction xs with
  | nil => simp [forEach]
  | cons a rest ih => simp [forEach, ih]

theorem forEach_map (action : β → Exec ρ σ ε Unit) (f : α → β) (xs : List α) :
    forEach action (xs.map f) = forEach (fun a => action (f a)) xs := by
  induction xs with
  | nil => rfl
  | cons a rest ih => rw [List.map_cons, forEach, forEach, ih]

/-! ### Weakest preconditions -/

/-- From this environment and state, a normal return satisfies `post` and a raise satisfies `fail`. -/
def wp (m : Exec ρ σ ε α) (env : ρ) (s : σ) (post : α → σ → Prop) (fail : ε → σ → Prop) : Prop :=
  match m env s with
  | (.ok a, s') => post a s'
  | (.error e, s') => fail e s'

variable {m : Exec ρ σ ε α} {env : ρ} {s s' : σ} {a : α} {e : ε} {p : σ → Prop}
  {post post' : α → σ → Prop} {fail fail' : ε → σ → Prop}

instance (m : Exec ρ σ ε α) [∀ a s', Decidable (post a s')] [∀ e s', Decidable (fail e s')] :
    Decidable (wp m env s post fail) := by
  unfold wp
  split <;> infer_instance

theorem wp_ok (h : wp m env s post fail)
    (hm : m env s = (.ok a, s')) : post a s' := by
  simpa only [wp, hm] using h

theorem wp_error (h : wp m env s post fail)
    (hm : m env s = (.error e, s')) : fail e s' := by
  simpa only [wp, hm] using h

/-- A property of the final state, however the computation ended. -/
theorem wp_final (h : wp m env s (fun _ => p) (fun _ => p)) : p (m env s).2 := by
  unfold wp at h
  split at h <;> rename_i hm <;> rw [hm] <;> exact h

/-- A property of the value, if there is one, and of the final state. -/
theorem wp_outcome {p : Option α → σ → Prop}
    (h : wp m env s (fun a => p (some a)) (fun _ => p none)) : p (m env s).1.toOption (m env s).2 := by
  unfold wp at h
  split at h <;> rename_i hm <;> rw [hm] <;> exact h

theorem wp_of_ok (hm : m env s = (.ok a, s')) (h : post a s') :
    wp m env s post fail := by
  simpa only [wp, hm] using h

theorem wp_total (h : wp m env s post fun _ _ => False) :
    ∃ a s', m env s = (.ok a, s') ∧ post a s' := by
  unfold wp at h
  split at h
  · rename_i a s' hm
    exact ⟨a, s', hm, h⟩
  · exact h.elim

theorem wp_of_final (h : p (m env s).2) :
    wp m env s (fun _ => p) (fun _ => p) := by
  unfold wp
  split <;> rename_i hm <;> rw [hm] at h <;> exact h

theorem wp_mono (h : wp m env s post fail) (hpost : ∀ a s', post a s' → post' a s')
    (hfail : ∀ e s', fail e s' → fail' e s') : wp m env s post' fail' := by
  unfold wp at h ⊢
  split at h
  · exact hpost _ _ h
  · exact hfail _ _ h

theorem wp_and (h : wp m env s post fail) (h' : wp m env s post' fail') :
    wp m env s (fun a s' => post a s' ∧ post' a s') (fun e s' => fail e s' ∧ fail' e s') := by
  unfold wp at h h' ⊢
  split at h <;> simp_all

theorem wp_true (m : Exec ρ σ ε α) : wp m env s (fun _ _ => True) fun _ _ => True := by
  unfold wp
  split <;> trivial

theorem wp_of_forall (h : ∀ a s', post a s') : wp m env s post fun _ _ => True :=
  wp_mono (wp_true m) (fun a s' _ => h a s') fun _ _ _ => trivial

@[simp] theorem wp_pure (a : α) : wp (pure a : Exec ρ σ ε α) env s post fail ↔ post a s := Iff.rfl

@[simp] theorem wp_bind (m : Exec ρ σ ε β) (f : β → Exec ρ σ ε α) :
    wp (m >>= f) env s post fail ↔ wp m env s (fun b s' => wp (f b) env s' post fail) fail := by
  change wp (bind m f) env s post fail ↔ _
  unfold wp bind
  rcases m env s with ⟨r, s'⟩
  cases r <;> rfl

@[simp] theorem wp_ask {post : ρ → σ → Prop} :
    wp (ask : Exec ρ σ ε ρ) env s post fail ↔ post env s := Iff.rfl

@[simp] theorem wp_get {post : σ → σ → Prop} :
    wp (get : Exec ρ σ ε σ) env s post fail ↔ post s s := Iff.rfl

@[simp] theorem wp_modify (f : σ → σ) {post : Unit → σ → Prop} :
    wp (modify f : Exec ρ σ ε Unit) env s post fail ↔ post () (f s) := Iff.rfl

@[simp] theorem wp_raise (e : ε) : wp (raise e : Exec ρ σ ε α) env s post fail ↔ fail e s := Iff.rfl

/-- The rules of the plain statements of a `do` block, which are used together. -/
theorem wp_do : (∀ {α β : Type} {m : Exec ρ σ ε β} {f : β → Exec ρ σ ε α} {post : α → σ → Prop},
      wp (m >>= f) env s post fail ↔ wp m env s (fun b s' => wp (f b) env s' post fail) fail) ∧
    (∀ {α : Type} {a : α} {post : α → σ → Prop}, wp (pure a : Exec ρ σ ε α) env s post fail ↔ post a s) ∧
    (∀ {post : ρ → σ → Prop}, wp (ask : Exec ρ σ ε ρ) env s post fail ↔ post env s) ∧
    (∀ {post : σ → σ → Prop}, wp (get : Exec ρ σ ε σ) env s post fail ↔ post s s) ∧
    (∀ {f : σ → σ} {post : Unit → σ → Prop}, wp (modify f : Exec ρ σ ε Unit) env s post fail ↔ post () (f s)) ∧
    ∀ {α : Type} {e : ε} {post : α → σ → Prop}, wp (raise e : Exec ρ σ ε α) env s post fail ↔ fail e s :=
  ⟨wp_bind _ _, wp_pure _, wp_ask, wp_get, wp_modify _, wp_raise _⟩

@[simp] theorem wp_lift (r : Except ε α) :
    wp (lift r : Exec ρ σ ε α) env s post fail ↔
      (∀ a, r = .ok a → post a s) ∧ ∀ e, r = .error e → fail e s := by
  cases r <;> simp [wp, lift]

@[simp] theorem wp_rescue (m : Exec ρ σ ε α) (handler : ε → Exec ρ σ ε α) :
    wp (rescue m handler) env s post fail ↔
      wp m env s post (fun e s' => wp (handler e) env s' post fail) := by
  unfold wp rescue
  rcases m env s with ⟨r, s'⟩
  cases r <;> rfl

@[simp] theorem wp_ensure (p : Prop) [Decidable p] (e : ε) {post : Unit → σ → Prop} :
    wp (ensure p e : Exec ρ σ ε Unit) env s post fail ↔ (p → post () s) ∧ (¬p → fail e s) := by
  unfold ensure
  split_ifs with hp <;> simp [hp]

@[simp] theorem wp_require (o : Option α) (e : ε) :
    wp (require o e : Exec ρ σ ε α) env s post fail ↔
      (∀ a, o = some a → post a s) ∧ (o = none → fail e s) := by
  cases o <;> simp [require]

theorem wp_ite (p : Prop) [Decidable p] (m n : Exec ρ σ ε α) :
    wp (if p then m else n) env s post fail ↔
      (p → wp m env s post fail) ∧ (¬p → wp n env s post fail) := by
  split_ifs with hp <;> simp [hp]

/-- The loop rule: an invariant every iteration keeps, and a postcondition it meets at the end. -/
theorem wp_forEach {action : α → Exec ρ σ ε Unit} {items : List α} {inv : σ → Prop}
    (hstep : ∀ a ∈ items, ∀ s, inv s → wp (action a) env s (fun _ => inv) fail)
    (hinit : inv s) : wp (forEach action items) env s (fun _ => inv) fail := by
  induction items generalizing s with
  | nil => exact hinit
  | cons a rest ih =>
    rw [forEach, wp_bind]
    refine wp_mono (hstep a (.head _) s hinit) (fun _ s' hs' => ?_) fun _ _ h => h
    exact ih (fun b hb => hstep b (.tail _ hb)) hs'

/-! ### Computations that move the state along a relation -/

/-- From every state, and however it ends, the computation leads along the relation. -/
def Moves (R : σ → σ → Prop) (m : Exec ρ σ ε α) : Prop := ∀ env s, R s (m env s).2

section Moves

variable {R : σ → σ → Prop}

theorem Moves.wp (h : Moves R m) :
    wp m env s (fun _ => R s) fun _ => R s :=
  wp_of_final (h env s)

theorem moves_of_wp (h : ∀ env s, Exec.wp m env s (fun _ => R s) fun _ => R s) :
    Moves R m :=
  fun env s => wp_final (p := R s) (h env s)

theorem moves_ite {p : Prop} [Decidable p] {n : Exec ρ σ ε α} (hm : Moves R m) (hn : Moves R n) :
    Moves R (if p then m else n) := by
  split_ifs
  · exact hm
  · exact hn

variable [IsPreorder σ R]

theorem moves_bind {m : Exec ρ σ ε β} {f : β → Exec ρ σ ε α} (h : Moves R m)
    (hf : ∀ b, Moves R (f b)) : Moves R (m >>= f) := by
  apply moves_of_wp
  intro env s
  rw [wp_bind]
  refine wp_mono h.wp (fun b s' hs' => ?_) fun _ _ hs' => hs'
  exact wp_mono (hf b).wp (fun _ _ => Trans.trans hs') fun _ _ => Trans.trans hs'

theorem moves_forEach {action : α → Exec ρ σ ε Unit} (h : ∀ a, Moves R (action a)) {items : List α} :
    Moves R (forEach action items) := by
  apply moves_of_wp
  intro env s
  refine wp_forEach (fun a _ s' hs' => ?_) (refl s)
  exact wp_mono (h a).wp (fun _ _ => Trans.trans hs') fun _ _ => Trans.trans hs'

theorem moves_pure : Moves R (pure a : Exec ρ σ ε α) := fun _ s => refl s

theorem moves_get : Moves R (get : Exec ρ σ ε σ) := fun _ s => refl s

theorem moves_ask : Moves R (ask : Exec ρ σ ε ρ) := fun _ s => refl s

theorem moves_lift {r : Except ε α} : Moves R (lift r : Exec ρ σ ε α) := fun _ s => refl s

theorem moves_raise : Moves R (raise e : Exec ρ σ ε α) := fun _ s => refl s

theorem moves_ensure {p : Prop} [Decidable p] : Moves R (ensure p e : Exec ρ σ ε Unit) :=
  moves_ite moves_pure moves_raise

theorem moves_require {o : Option α} : Moves R (require o e : Exec ρ σ ε α) := by
  cases o with
  | none => exact moves_raise
  | some a => exact moves_pure

end Moves

end Exec
