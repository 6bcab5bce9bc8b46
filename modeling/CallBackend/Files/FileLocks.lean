import CallBackend.Files.Types
import CallBackend.Lib.System
import CallBackend.Lib.Tally

/-!
# The locks of files

`file_lock` keeps an entry for each id in use: a reentrant lock, and the number of calls that refer to
the entry. A call counts itself before it waits for the lock, and uncounts itself after it has released
it, both in sections under the lock of the store; the entry is deleted with its last reference. Inside
the lock a call raises for a malformed id, and otherwise locks one of the lock files that the native
data plane uses too.

The sections under the lock of the store are one step each. A lock is taken by the calls that have
acquired it and not released it. Ids are compared as the keys of a dictionary are.
-/

namespace CallBackend.Files

open Function

inductive LockPhase where
  /-- The call is counted, and waits for the lock of its entry. -/
  | waiting
  /-- It has the lock of its entry. -/
  | locked
  /-- It has the lock file as well, and the body runs. -/
  | inside
  /-- The lock file is closed, or something was raised before it was locked. -/
  | closing
  /-- The lock of the entry is released, and the call is still counted. -/
  | leaving
  | over
  deriving DecidableEq

/-- The phases with the lock of the entry. -/
def LockPhase.locks : LockPhase → Bool
  | .locked | .inside | .closing => true
  | .waiting | .leaving | .over => false

/-- A call of `file_lock`, with the entry it refers to. -/
structure LockCall (ι : Type) where
  thread : Nat
  fileId : ι
  entry : Nat
  phase : LockPhase
  deriving DecidableEq

/-- The locks of a `FileStore`, with the calls of `file_lock`. Entries are numbered as they are made. -/
structure FileLocks (ι : Type) [DecidableEq ι] where
  fileLocks : Dict ι Nat := ∅
  /-- The reference counts of the entries. -/
  counts : Nat → Int := fun _ => 0
  created : Nat := 0
  /-- The lock files that other processes have locked. -/
  native : String → Bool := fun _ => false
  calls : List (LockCall ι) := []

/-- What `file_lock` takes from an id. -/
structure LockIds (ι : Type) where
  wellFormed : ι → Bool
  /-- `file_id[:2]`. -/
  lockFile : ι → String

inductive LockStep where
  | acquire
  /-- The id is malformed. -/
  | refuse
  /-- The lock file cannot be opened or locked. -/
  | fail
  | flock
  /-- The body ends, or raises. -/
  | finish
  | release
  | leave

inductive LockAction (ι : Type) where
  | enter (thread : Nat) (id : ι)
  | call (n : Nat) (step : LockStep)
  /-- Another process locks a lock file, or unlocks it. -/
  | native (file : String) (locked : Bool)

variable {ι : Type} [DecidableEq ι]

namespace FileLocks

/-- `file_locks.setdefault(file_id, [threading.RLock(), 0])`. -/
def setdefault (s : FileLocks ι) (id : ι) : Nat × FileLocks ι :=
  match s.fileLocks.get? id with
  | some e => (e, s)
  | none =>
    (s.created, { s with
      fileLocks := s.fileLocks.set id s.created
      counts := update s.counts s.created 0
      created := s.created + 1 })

def enter (s : FileLocks ι) (thread : Nat) (id : ι) : FileLocks ι :=
  let (e, t) := s.setdefault id
  { t with
    counts := update t.counts e (t.counts e + 1)
    calls := t.calls ++ [⟨thread, id, e, .waiting⟩] }

def move (s : FileLocks ι) (n : Nat) (call : LockCall ι) (phase : LockPhase) : FileLocks ι :=
  { s with calls := s.calls.set n { call with phase } }

def leave (s : FileLocks ι) (n : Nat) (call : LockCall ι) : FileLocks ι :=
  let count := s.counts call.entry - 1
  { s.move n call .over with
    counts := update s.counts call.entry count
    fileLocks := if count = 0 then s.fileLocks.erase call.fileId else s.fileLocks }

/-- No other thread has the lock of the call's entry. -/
def lockFree (s : FileLocks ι) (call : LockCall ι) : Bool :=
  s.calls.all fun other => other.entry ≠ call.entry || !other.phase.locks || other.thread = call.thread

/-- Nobody has the lock file. -/
def fileFree (ids : LockIds ι) (s : FileLocks ι) (file : String) : Bool :=
  !s.native file && s.calls.all fun other => ids.lockFile other.fileId ≠ file || other.phase ≠ .inside

/-- A step of a call. -/
def nextCall (ids : LockIds ι) (s : FileLocks ι) (n : Nat) (call : LockCall ι) :
    LockStep → Option (FileLocks ι)
  | .acquire => if call.phase = .waiting ∧ s.lockFree call then some (s.move n call .locked) else none
  | .refuse =>
    if call.phase = .locked ∧ ids.wellFormed call.fileId = false then some (s.move n call .closing)
    else none
  | .fail =>
    if call.phase = .locked ∧ ids.wellFormed call.fileId = true then some (s.move n call .closing)
    else none
  | .flock =>
    if call.phase = .locked ∧ ids.wellFormed call.fileId = true ∧
        s.fileFree ids (ids.lockFile call.fileId) then
      some (s.move n call .inside)
    else none
  | .finish => if call.phase = .inside then some (s.move n call .closing) else none
  | .release => if call.phase = .closing then some (s.move n call .leaving) else none
  | .leave => if call.phase = .leaving then some (s.leave n call) else none

def next (ids : LockIds ι) (s : FileLocks ι) : LockAction ι → Option (FileLocks ι)
  | .enter thread id => some (s.enter thread id)
  | .call n step => s.calls[n]?.bind fun call => s.nextCall ids n call step
  | .native file locked =>
    if locked = false ∨ s.fileFree ids file then
      some { s with native := update s.native file locked }
    else none

end FileLocks

/-- All interleavings of the calls. -/
def fileLocking (ids : LockIds ι) : System (FileLocks ι) (LockAction ι) where
  init s := s = {}
  step s a s' := s.next ids a = some s'

/-! ### The calls of an entry and of an id -/

def LockCall.waits (call : LockCall ι) (id : ι) : Bool := call.fileId = id && call.phase = .waiting

def LockCall.holds (call : LockCall ι) (id : ι) : Bool :=
  call.fileId = id && (call.phase.locks || call.phase = .leaving)

def FileLocks.waiters (s : FileLocks ι) (id : ι) : Nat := s.calls.countP (·.waits id)

def FileLocks.holders (s : FileLocks ι) (id : ι) : Nat := s.calls.countP (·.holds id)

def LockCall.uses (e : Nat) (call : LockCall ι) : Bool := call.entry = e && call.phase ≠ .over

def FileLocks.users (s : FileLocks ι) (e : Nat) : Nat := s.calls.countP (LockCall.uses e)

structure FileLocks.Sound (ids : LockIds ι) (s : FileLocks ι) : Prop where
  registered : ∀ {n : Nat} {call : LockCall ι}, s.calls[n]? = some call → call.phase ≠ .over →
    s.fileLocks.get? call.fileId = some call.entry
  created : ∀ {id : ι} {e : Nat}, s.fileLocks.get? id = some e → e < s.created
  counted : ∀ e, s.counts e = s.users e
  used : ∀ {id : ι} {e : Nat}, s.fileLocks.get? id = some e → s.users e ≠ 0
  distinct : ∀ {id id' : ι} {e : Nat}, s.fileLocks.get? id = some e → s.fileLocks.get? id' = some e → id = id'
  exclusive : ∀ {n m : Nat} {call other : LockCall ι}, s.calls[n]? = some call → s.calls[m]? = some other →
    call.phase.locks = true → other.phase.locks = true → other.entry = call.entry → other.thread = call.thread
  apart : ∀ {n m : Nat} {call other : LockCall ι}, s.calls[n]? = some call → s.calls[m]? = some other →
    call.phase = .inside → other.phase = .inside →
    ids.lockFile other.fileId = ids.lockFile call.fileId → m = n

variable {ids : LockIds ι} {s : FileLocks ι} {n : Nat} {call : LockCall ι}

theorem LockPhase.ne_over_of_locks {phase : LockPhase} (h : phase.locks = true) : phase ≠ .over := by
  rintro rfl
  cases h

theorem FileLocks.users_pos (hcall : s.calls[n]? = some call) (hlive : call.phase ≠ .over) :
    s.users call.entry ≠ 0 := by
  have hpos := List.countP_pos_iff.2 ⟨call, List.mem_of_getElem? hcall,
    show call.uses call.entry = true by simp [LockCall.uses, hlive]⟩
  exact hpos.ne'

/-- The calls that wait for the lock of an id or hold it are those that refer to its entry. -/
theorem FileLocks.Sound.users_eq (h : s.Sound ids) {id : ι} {e : Nat} (hget : s.fileLocks.get? id = some e) :
    s.waiters id + s.holders id = s.users e := by
  refine Tally.countP_add fun call hmem => ?_
  obtain ⟨n, hcall⟩ := List.mem_iff_getElem?.1 hmem
  have hsame : call.phase ≠ .over → (call.fileId = id ↔ call.entry = e) := by
    intro hlive
    have hregistered := h.registered hcall hlive
    constructor
    · rintro rfl
      exact Option.some.inj (hregistered.symm.trans hget)
    · rintro rfl
      exact h.distinct hregistered hget
  rw [LockCall.waits, LockCall.holds, LockCall.uses]
  cases hphase : call.phase <;> simp [hphase, LockPhase.locks] at hsame ⊢ <;> simp [hsame]

theorem FileLocks.Sound.move (h : s.Sound ids) (hcall : s.calls[n]? = some call)
    (hlive : call.phase ≠ .over) {phase : LockPhase} (hphase : phase ≠ .over)
    (hlocks : phase.locks = true → call.phase.locks = true ∨ s.lockFree call = true)
    (hinside : phase = .inside → s.fileFree ids (ids.lockFile call.fileId) = true) :
    (s.move n call phase).Sound ids := by
  have hentry := h.registered hcall hlive
  have husers : ∀ e, (s.move n call phase).users e = s.users e := by
    intro e
    have hset := Tally.countP_set (LockCall.uses e) { call with phase } hcall
    simp only [LockCall.uses, hlive, hphase, ne_eq, not_false_eq_true, decide_true, Bool.and_true] at hset
    exact Nat.add_right_cancel hset
  have hfree : ∀ {m : Nat} {other : LockCall ι}, s.calls[m]? = some other → phase.locks = true →
      other.phase.locks = true → other.entry = call.entry → other.thread = call.thread := by
    intro m other hother hphase hlocks' hentry
    obtain hbefore | hfree := hlocks hphase
    · exact h.exclusive hcall hother hbefore hlocks' hentry
    · have hall := List.all_eq_true.1 hfree other (List.mem_of_getElem? hother)
      simpa [hentry, hlocks'] using hall
  have hapart : ∀ {m : Nat} {other : LockCall ι}, s.calls[m]? = some other → phase = .inside →
      other.phase = .inside → ids.lockFile other.fileId ≠ ids.lockFile call.fileId := by
    intro m other hother hphase hinside' hsame
    have hfile := hinside hphase
    rw [fileFree, Bool.and_eq_true, List.all_eq_true] at hfile
    have hall := hfile.2 other (List.mem_of_getElem? hother)
    simp [hsame, hinside'] at hall
  constructor
  case registered =>
    intro m other hother hover
    obtain ⟨-, rfl⟩ | ⟨-, hother⟩ := System.lookup_set hcall hother
    · exact hentry
    · exact h.registered hother hover
  case created => exact h.created
  case counted =>
    intro e
    rw [husers]
    exact h.counted e
  case used =>
    intro id e hget
    rw [husers]
    exact h.used hget
  case distinct => exact h.distinct
  case exclusive =>
    intro m k other third hother hthird hlocks hlocks' hentry
    obtain ⟨-, rfl⟩ | ⟨-, hother⟩ := System.lookup_set hcall hother
    · obtain ⟨-, rfl⟩ | ⟨-, hthird⟩ := System.lookup_set hcall hthird
      · rfl
      · exact hfree hthird hlocks hlocks' hentry
    · obtain ⟨-, rfl⟩ | ⟨-, hthird⟩ := System.lookup_set hcall hthird
      · exact (hfree hother hlocks' hlocks hentry.symm).symm
      · exact h.exclusive hother hthird hlocks hlocks' hentry
  case apart =>
    intro m k other third hother hthird hinside hinside' hfile
    obtain ⟨rfl, rfl⟩ | ⟨-, hother⟩ := System.lookup_set hcall hother
    · obtain ⟨rfl, -⟩ | ⟨-, hthird⟩ := System.lookup_set hcall hthird
      · rfl
      · exact absurd hfile (hapart hthird hinside hinside')
    · obtain ⟨-, rfl⟩ | ⟨-, hthird⟩ := System.lookup_set hcall hthird
      · exact absurd hfile.symm (hapart hother hinside' hinside)
      · exact h.apart hother hthird hinside hinside' hfile

theorem FileLocks.Sound.leave (h : s.Sound ids) (hcall : s.calls[n]? = some call)
    (hphase : call.phase = .leaving) : (s.leave n call).Sound ids := by
  have hlive : call.phase ≠ .over := by
    rw [hphase]
    decide
  have hentry := h.registered hcall hlive
  have hcount := h.counted call.entry
  have husers : ∀ e, (s.leave n call).users e + (decide (call.entry = e)).toNat = s.users e := by
    intro e
    have hset := Tally.countP_set (LockCall.uses e) { call with phase := .over } hcall
    simp only [LockCall.uses, hlive, ne_eq, not_true_eq_false, not_false_eq_true, decide_true, decide_false,
      Bool.and_true, Bool.and_false, Bool.toNat_false, add_zero] at hset
    exact hset
  have hself := husers call.entry
  rw [decide_eq_true rfl, Bool.toNat_true] at hself
  -- The entry is deleted exactly when no other call refers to it.
  have hlocks : (s.leave n call).fileLocks =
      if (s.leave n call).users call.entry = 0 then s.fileLocks.erase call.fileId else s.fileLocks := by
    have hzero : s.counts call.entry - 1 = 0 ↔ (s.leave n call).users call.entry = 0 := by omega
    exact if_congr hzero rfl rfl
  have hother : ∀ {id : ι} {e : Nat}, s.fileLocks.get? id = some e → call.fileId ≠ id →
      (s.leave n call).users e = s.users e := by
    intro id e hget hid
    have he : call.entry ≠ e := by
      rintro rfl
      exact hid (h.distinct hentry hget)
    rw [← husers e, decide_eq_false he]
    rfl
  have hget : ∀ {id : ι} {e : Nat}, (s.leave n call).fileLocks.get? id = some e →
      s.fileLocks.get? id = some e ∧ (s.leave n call).users e ≠ 0 := by
    intro id e hget
    rw [hlocks] at hget
    by_cases hnone : (s.leave n call).users call.entry = 0
    · rw [if_pos hnone] at hget
      obtain ⟨hid, hget⟩ := Dict.get?_erase_eq_some hget
      rw [hother hget hid]
      exact ⟨hget, h.used hget⟩
    · rw [if_neg hnone] at hget
      refine ⟨hget, ?_⟩
      by_cases hid : call.fileId = id
      · subst hid
        rw [← Option.some.inj (hentry.symm.trans hget)]
        exact hnone
      · rw [hother hget hid]
        exact h.used hget
  have hkeep : ∀ {m : Nat} {other : LockCall ι}, (s.leave n call).calls[m]? = some other →
      other.phase ≠ .over → s.calls[m]? = some other := by
    intro m other hnew hover
    obtain ⟨-, rfl⟩ | ⟨-, hold⟩ := System.lookup_set hcall hnew
    · exact absurd rfl hover
    · exact hold
  constructor
  case registered =>
    intro m other hnew hover
    have hregistered := h.registered (hkeep hnew hover) hover
    rw [hlocks]
    split_ifs with hnone
    · refine (Dict.get?_erase_of_ne _ ?_).trans hregistered
      intro hid
      rw [← hid, hentry, Option.some.injEq] at hregistered
      rw [hregistered] at hnone
      exact FileLocks.users_pos hnew hover hnone
    · exact hregistered
  case created => exact fun h' => h.created (hget h').1
  case counted =>
    intro e
    have he := husers e
    have hcounts := h.counted e
    change update s.counts call.entry _ e = _
    by_cases hsame : call.entry = e
    · subst hsame
      rw [update_self]
      omega
    · rw [update_of_ne (Ne.symm hsame), hcounts, ← he, decide_eq_false hsame]
      rfl
  case used => exact fun h' => (hget h').2
  case distinct => exact fun h₁ h₂ => h.distinct (hget h₁).1 (hget h₂).1
  case exclusive =>
    intro m k other third hnew hnew' hlocks hlocks'
    exact h.exclusive (hkeep hnew (LockPhase.ne_over_of_locks hlocks))
      (hkeep hnew' (LockPhase.ne_over_of_locks hlocks')) hlocks hlocks'
  case apart =>
    intro m k other third hnew hnew' hinside hinside'
    exact h.apart (hkeep hnew (by rw [hinside]; decide)) (hkeep hnew' (by rw [hinside']; decide)) hinside hinside'

theorem FileLocks.Sound.setdefault (h : s.Sound ids) {id : ι} {e : Nat} {t : FileLocks ι}
    (ht : s.setdefault id = (e, t)) :
    t.calls = s.calls ∧ t.counts = s.counts ∧ t.fileLocks.get? id = some e ∧
      (∀ {id' : ι} {e' : Nat}, t.fileLocks.get? id' = some e' → e' < t.created ∧
        (id' = id ∧ e' = e ∨ s.fileLocks.get? id' = some e' ∧ e' ≠ e)) ∧
      ∀ {id' : ι} {e' : Nat}, s.fileLocks.get? id' = some e' → t.fileLocks.get? id' = some e' := by
  unfold FileLocks.setdefault at ht
  cases hget : s.fileLocks.get? id with
  | some e₀ =>
    rw [hget] at ht
    cases ht
    refine ⟨rfl, rfl, hget, fun {id' e'} hget' => ⟨h.created hget', ?_⟩, fun hget' => hget'⟩
    by_cases he : e' = e
    · subst he
      exact .inl ⟨h.distinct hget' hget, rfl⟩
    · exact .inr ⟨hget', he⟩
  | none =>
    rw [hget] at ht
    cases ht
    have hunused : s.users s.created = 0 := by
      refine List.countP_eq_zero.2 fun call hmem huses => ?_
      obtain ⟨n, hcall⟩ := List.mem_iff_getElem?.1 hmem
      simp only [LockCall.uses, ne_eq, Bool.and_eq_true, decide_eq_true_eq] at huses
      exact (h.created (h.registered hcall huses.2)).ne huses.1
    refine ⟨rfl, ?_, Dict.get?_set_self .., fun {id' e'} hget' => ?_, fun {id' e'} hget' => ?_⟩
    · refine update_eq_self_iff.2 ?_
      rw [h.counted, hunused]
      rfl
    · rw [Dict.get?_set] at hget'
      split_ifs at hget' with hid
      · obtain rfl := Option.some.inj hget'
        exact ⟨Nat.lt_succ_self _, .inl ⟨hid.symm, rfl⟩⟩
      · have hlt := h.created hget'
        exact ⟨Nat.lt_succ_of_lt hlt, .inr ⟨hget', hlt.ne⟩⟩
    · refine (Dict.get?_set_of_ne _ _ ?_).trans hget'
      rintro rfl
      cases hget.symm.trans hget'

theorem FileLocks.Sound.enter (h : s.Sound ids) (thread : Nat) (id : ι) : (s.enter thread id).Sound ids := by
  rcases ht : s.setdefault id with ⟨e, t⟩
  obtain ⟨hcalls, hcounts, hself, hold, hkept⟩ := h.setdefault ht
  have henter : s.enter thread id = { t with
      counts := update s.counts e (s.counts e + 1)
      calls := s.calls ++ [⟨thread, id, e, .waiting⟩] } := by
    rw [FileLocks.enter, ht]
    simp only [hcalls, hcounts]
  have husers : ∀ e', (s.enter thread id).users e' = s.users e' + (decide (e = e')).toNat := by
    intro e'
    rw [henter, users, users, List.countP_append]
    simp [LockCall.uses, List.countP_cons, Bool.toNat]
  have hlookup : ∀ {m : Nat} {other : LockCall ι}, (s.enter thread id).calls[m]? = some other →
      other = ⟨thread, id, e, .waiting⟩ ∨ s.calls[m]? = some other := by
    intro m other hnew
    rw [henter] at hnew
    exact (System.lookup_push hnew).imp And.right And.right
  rw [henter] at husers hlookup ⊢
  constructor
  case registered =>
    intro m other hnew hover
    obtain rfl | hother := hlookup hnew
    · exact hself
    · exact hkept (h.registered hother hover)
  case created => exact fun hget => (hold hget).1
  case counted =>
    intro e'
    rw [husers]
    dsimp only
    by_cases he : e = e'
    · subst he
      rw [update_self, h.counted, decide_eq_true rfl]
      rfl
    · rw [update_of_ne (Ne.symm he), h.counted, decide_eq_false he]
      rfl
  case used =>
    intro id' e' hget
    rw [husers]
    obtain ⟨-, ⟨-, rfl⟩ | ⟨hget, -⟩⟩ := hold hget
    · rw [decide_eq_true rfl]
      exact Nat.succ_ne_zero _
    · have hused := h.used hget
      omega
  case distinct =>
    intro id₁ id₂ e' hget₁ hget₂
    obtain ⟨-, ⟨rfl, rfl⟩ | ⟨hget₁, hne⟩⟩ := hold hget₁
    · obtain ⟨-, ⟨rfl, -⟩ | ⟨-, hne⟩⟩ := hold hget₂
      · rfl
      · exact absurd rfl hne
    · obtain ⟨-, ⟨-, he⟩ | ⟨hget₂, -⟩⟩ := hold hget₂
      · exact absurd he hne
      · exact h.distinct hget₁ hget₂
  case exclusive =>
    intro m k other third hnew hnew' hlocks hlocks'
    obtain rfl | hother := hlookup hnew
    · cases hlocks
    · obtain rfl | hthird := hlookup hnew'
      · cases hlocks'
      · exact h.exclusive hother hthird hlocks hlocks'
  case apart =>
    intro m k other third hnew hnew' hinside hinside'
    obtain rfl | hother := hlookup hnew
    · cases hinside
    · obtain rfl | hthird := hlookup hnew'
      · cases hinside'
      · exact h.apart hother hthird hinside hinside'

theorem sound_nextCall {step : LockStep} {s' : FileLocks ι} (h : s.Sound ids)
    (hcall : s.calls[n]? = some call) (hnext : s.nextCall ids n call step = some s') : s'.Sound ids := by
  have hclose : call.phase.locks = true → (s.move n call .closing).Sound ids := fun hlocks =>
    h.move hcall (LockPhase.ne_over_of_locks hlocks) (by decide) (fun _ => .inl hlocks) fun hne => by cases hne
  cases step with
  | acquire =>
    obtain ⟨⟨hphase, hfree⟩, rfl⟩ := Option.ite_some_none_eq_some.1 hnext
    exact h.move hcall (by rw [hphase]; decide) (by decide) (fun _ => .inr hfree) fun hne => by cases hne
  | refuse =>
    obtain ⟨⟨hphase, -⟩, rfl⟩ := Option.ite_some_none_eq_some.1 hnext
    exact hclose (by rw [hphase]; rfl)
  | fail =>
    obtain ⟨⟨hphase, -⟩, rfl⟩ := Option.ite_some_none_eq_some.1 hnext
    exact hclose (by rw [hphase]; rfl)
  | flock =>
    obtain ⟨⟨hphase, -, hfree⟩, rfl⟩ := Option.ite_some_none_eq_some.1 hnext
    exact h.move hcall (by rw [hphase]; decide) (by decide) (fun _ => .inl (by rw [hphase]; rfl))
      fun _ => hfree
  | finish =>
    obtain ⟨hphase, rfl⟩ := Option.ite_some_none_eq_some.1 hnext
    exact hclose (by rw [hphase]; rfl)
  | release =>
    obtain ⟨hphase, rfl⟩ := Option.ite_some_none_eq_some.1 hnext
    exact h.move hcall (by rw [hphase]; decide) (by decide) (fun hne => by cases hne) fun hne => by cases hne
  | leave =>
    obtain ⟨hphase, rfl⟩ := Option.ite_some_none_eq_some.1 hnext
    exact h.leave hcall hphase

theorem sound_of_reachable (h : (fileLocking ids).Reachable System.anyStep s) : s.Sound ids := by
  refine h.invariant ?_ ?_
  · rintro s rfl
    refine ⟨?_, ?_, fun _ => rfl, ?_, ?_, ?_, ?_⟩ <;> intros <;> contradiction
  · intro s a s' hs _ hstep
    cases a with
    | enter thread id =>
      cases hstep
      exact hs.enter thread id
    | call n step =>
      obtain ⟨call, hcall, hnext⟩ := Option.bind_eq_some_iff.1 hstep
      exact sound_nextCall hs hcall hnext
    | native file locked =>
      obtain ⟨-, hnext⟩ := Option.ite_none_right_eq_some.1 hstep
      cases hnext
      exact ⟨hs.registered, hs.created, hs.counted, hs.used, hs.distinct, hs.exclusive, hs.apart⟩

/-- One call at a time is in the body for an id, those that have the lock are calls of one thread, all
that wait for it or hold it use the entry in the dictionary, which counts them, and there is an entry
as long as there are any. -/
theorem file_lock_entries (h : (fileLocking ids).Reachable System.anyStep s) (id : ι) :
    (∀ (n m : Nat) (call other : LockCall ι), s.calls[n]? = some call → s.calls[m]? = some other →
      call.fileId = id → other.fileId = id → call.phase = .inside → other.phase = .inside → m = n) ∧
    (∀ call ∈ s.calls, ∀ other ∈ s.calls, call.fileId = id → other.fileId = id →
      call.phase.locks = true → other.phase.locks = true → other.thread = call.thread) ∧
    (∀ call ∈ s.calls, (call.waits id = true ∨ call.holds id = true) →
      s.fileLocks.get? id = some call.entry) ∧
    (∀ e, s.fileLocks.get? id = some e → s.counts e = s.waiters id + s.holders id) ∧
    (s.fileLocks.get? id = none ↔ s.waiters id + s.holders id = 0) := by
  have hsound := sound_of_reachable h
  have hentry : ∀ call ∈ s.calls, (call.waits id = true ∨ call.holds id = true) →
      s.fileLocks.get? id = some call.entry := by
    intro call hmem huses
    obtain ⟨n, hcall⟩ := List.mem_iff_getElem?.1 hmem
    simp only [LockCall.waits, LockCall.holds, Bool.and_eq_true, decide_eq_true_eq] at huses
    obtain rfl : call.fileId = id := huses.elim And.left And.left
    refine hsound.registered hcall fun hover => ?_
    rw [hover] at huses
    simp [LockPhase.locks] at huses
  refine ⟨?_, ?_, hentry, ?_, ?_⟩
  · rintro n m call other hcall hother rfl hid hphase hphase'
    exact hsound.apart hcall hother hphase hphase' (by rw [hid])
  · rintro call hmem other hmem' hid hid' hlocks hlocks'
    obtain ⟨n, hcall⟩ := List.mem_iff_getElem?.1 hmem
    obtain ⟨m, hother⟩ := List.mem_iff_getElem?.1 hmem'
    have hsame := hentry call hmem (.inr (by simp [LockCall.holds, hid, hlocks]))
    rw [hentry other hmem' (.inr (by simp [LockCall.holds, hid', hlocks'])), Option.some.injEq] at hsame
    exact hsound.exclusive hcall hother hlocks hlocks' hsame
  · intro e hget
    rw [hsound.counted, ← hsound.users_eq hget]
    rfl
  · constructor
    · intro hnone
      rw [Nat.add_eq_zero_iff, FileLocks.waiters, FileLocks.holders, List.countP_eq_zero, List.countP_eq_zero]
      constructor
      · intro call hmem hwaits
        cases hnone.symm.trans (hentry call hmem (.inl hwaits))
      · intro call hmem hholds
        cases hnone.symm.trans (hentry call hmem (.inr hholds))
    · intro hzero
      cases hget : s.fileLocks.get? id with
      | none => rfl
      | some e =>
        rw [hsound.users_eq hget] at hzero
        exact absurd hzero (hsound.used hget)

namespace Sample

def lockIds : LockIds String where
  wellFormed := idPattern
  lockFile id := String.ofList (id.toList.take 2)

def sharedFile : String := "00000000000000000000000000000000"

/-- The first thread is in the body, the second waits, and a third has been refused. -/
def lockRun : List (LockAction String) :=
  [.enter 1 sharedFile, .enter 2 sharedFile, .enter 3 "x", .call 0 .acquire, .call 0 .flock,
    .call 2 .acquire, .call 2 .refuse, .call 2 .release, .call 2 .leave]

end Sample

open Sample in
/-- The entry of the two threads counts them both. -/
theorem file_lock_entries_two : ∃ s, (fileLocking lockIds).Reachable System.anyStep s ∧
    s.fileLocks.get? sharedFile = some 0 ∧ s.waiters sharedFile = 1 ∧ s.holders sharedFile = 1 ∧
    s.counts 0 = s.waiters sharedFile + s.holders sharedFile ∧
    (s.fileLocks.get? "x" = none ↔ s.waiters "x" + s.holders "x" = 0) := by
  have hrun : ∃ s, lockRun.foldlM (FileLocks.next lockIds) {} = some s ∧
      s.fileLocks.get? sharedFile = some 0 ∧ s.waiters sharedFile = 1 ∧ s.holders sharedFile = 1 := by
    refine ⟨_, rfl, by decide, by decide, by decide⟩
  obtain ⟨s, hrun, hentry, hwaits, hholds⟩ := hrun
  have hreach : (fileLocking lockIds).Reachable System.anyStep s :=
    (System.Path.of_foldlM (fun _ _ _ h => h) (fun _ _ _ => trivial) .refl hrun).reachable (.init rfl)
  exact ⟨s, hreach, hentry, hwaits, hholds, (file_lock_entries hreach sharedFile).2.2.2.1 0 hentry,
    (file_lock_entries hreach "x").2.2.2.2⟩

end CallBackend.Files
