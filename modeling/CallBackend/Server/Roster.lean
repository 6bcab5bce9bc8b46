import CallBackend.Server.Types

/-!
# The roster of sessions

The server keeps track of a session in four places: the session manager has it under its id, the
logical index leads to it from its logical id, its metadata says that logical id, and the link it is
bound to lists the logical id. The roster is the part of the state these places make up, and it is in
order if they agree.

Several operations take a session out of one place after the other. While they are under way the
session is leaving, and the places need not agree on it.
-/

namespace CallBackend.Server

open Function

structure Roster where
  provisional : SessionId → Bool
  link : SessionId → Option ConnId
  name : SessionId → Option LogicalId
  registry : List SessionId
  index : LogicalId → Option SessionId
  closed : ConnId → Bool
  ids : ConnId → List LogicalId
  cleanup : ConnId → Cleanup

namespace Roster

def Absent (r : Roster) (id : SessionId) : Prop := ∀ logicalId, r.index logicalId ≠ some id

def holder (r : Roster) (c : ConnId) (logicalId : LogicalId) : Set SessionId :=
  fun id => r.index logicalId = some id ∧ r.link id = some c

structure Ordered (r : Roster) (leaving : Set SessionId) : Prop where
  entry : ∀ logicalId id, r.index logicalId = some id →
    r.name id = some logicalId ∧ ∃ c, r.link id = some c ∧
      (id ∉ leaving → id ∈ r.registry ∧ logicalId ∈ r.ids c ∧
        ∀ rest, r.cleanup c = .running rest → logicalId ∈ rest)
  listed : ∀ c logicalId, r.closed c = false → logicalId ∈ r.ids c → ∃ id, id ∈ r.holder c logicalId
  parked : ∀ id, r.Absent id → r.link id = none ∧
    (id ∈ r.registry → id ∉ leaving → r.provisional id = false)
  stopped : ∀ c rest, r.cleanup c = .running rest → r.closed c = true
  distinct : ∀ c, (r.ids c).Nodup
  once : r.registry.Nodup

/-! ### What happens to a roster -/

def leave (r : Roster) (c : ConnId) (logicalId : LogicalId) : Roster :=
  { r with ids := update r.ids c ((r.ids c).erase logicalId) }

def unbound (r : Roster) (id : SessionId) : Roster :=
  { r with
    link := update r.link id none
    index := fun logicalId =>
      if r.name id = some logicalId ∧ r.index logicalId = some id then none else r.index logicalId
    ids := fun c =>
      if r.link id = some c then
        match r.name id with
        | some logicalId => (r.ids c).erase logicalId
        | none => r.ids c
      else r.ids c }

def unregistered (r : Roster) (id : SessionId) : Roster :=
  { r with registry := r.registry.erase id }

def unnamed (r : Roster) (id : SessionId) : Roster :=
  { r with name := update r.name id none }

def promoted (r : Roster) (id : SessionId) : Roster :=
  { r with provisional := update r.provisional id false }

def entered (r : Roster) (id : SessionId) (c : ConnId) (logicalId : LogicalId) : Roster :=
  { r with
    provisional := update r.provisional id true
    link := update r.link id (some c)
    name := update r.name id (some logicalId)
    registry := r.registry ++ [id]
    index := update r.index logicalId (some id)
    ids := update r.ids c ((r.ids c).insert logicalId) }

def bound (r : Roster) (id : SessionId) (c : ConnId) (logicalId : LogicalId) : Roster :=
  { r with
    link := update r.link id (some c)
    ids := update r.ids c ((r.ids c).insert logicalId) }

def shut (r : Roster) (c : ConnId) : Roster :=
  { r with closed := update r.closed c true }

def cleaning (r : Roster) (c : ConnId) (cleanup : Cleanup) : Roster :=
  { r with cleanup := update r.cleanup c cleanup }

def emptied (r : Roster) (c : ConnId) : Roster :=
  { r.cleaning c .ended with ids := update r.ids c [] }

structure Shrinks (r r' : Roster) : Prop where
  index : ∀ logicalId id, r'.index logicalId = some id → r.index logicalId = some id
  link : ∀ id c, r'.link id = some c → r.link id = some c
  ids : ∀ c, ∀ logicalId ∈ r'.ids c, logicalId ∈ r.ids c
  registry : ∀ id ∈ r'.registry, id ∈ r.registry
  closed : r'.closed = r.closed

theorem Shrinks.refl (r : Roster) : r.Shrinks r :=
  ⟨fun _ _ h => h, fun _ _ h => h, fun _ _ h => h, fun _ h => h, rfl⟩

theorem Shrinks.trans {r r' r'' : Roster} (h : r.Shrinks r') (h' : r'.Shrinks r'') : r.Shrinks r'' :=
  ⟨fun name id hindex => h.index name id (h'.index name id hindex),
    fun id c hlink => h.link id c (h'.link id c hlink),
    fun c name hmem => h.ids c name (h'.ids c name hmem),
    fun id hmem => h.registry id (h'.registry id hmem), h'.closed.trans h.closed⟩

variable {id : SessionId}

theorem Shrinks.absent {r r' : Roster} (h : r.Shrinks r') (habsent : r.Absent id) :
    r'.Absent id :=
  fun name hindex => habsent name (h.index name id hindex)

variable {logicalId : LogicalId}

theorem Shrinks.free {r r' : Roster} (h : r.Shrinks r')
    (hfree : r.index logicalId = none) : r'.index logicalId = none := by
  cases hindex : r'.index logicalId with
  | none => rfl
  | some id => rw [h.index logicalId id hindex] at hfree; cases hfree

theorem shrinks_unbound (r : Roster) (id : SessionId) : r.Shrinks (r.unbound id) := by
  refine ⟨fun name other hindex => ?_, fun other c hlink => ?_, fun c name hmem => ?_, fun _ h => h, rfl⟩
  · simp only [Roster.unbound] at hindex
    split_ifs at hindex
    exact hindex
  · by_cases heq : other = id
    · simp [Roster.unbound, heq] at hlink
    · simpa only [Roster.unbound, update_of_ne heq] using hlink
  · simp only [Roster.unbound] at hmem
    split_ifs at hmem with hlink
    · cases hname : r.name id with
      | none => simpa only [hname] using hmem
      | some own =>
        simp only [hname] at hmem
        exact List.mem_of_mem_erase hmem
    · exact hmem

theorem shrinks_registry (r : Roster) {registry : List SessionId} (h : ∀ id ∈ registry, id ∈ r.registry) :
    r.Shrinks { r with registry } :=
  ⟨fun _ _ h => h, fun _ _ h => h, fun _ _ h => h, h, rfl⟩

/-- Links are not reopened, only closed links are cleaned up, and of the links only those in `grows`
take logical ids or sessions on. -/
structure Evolves (grows : Set ConnId) (r r' : Roster) : Prop where
  closed : ∀ c, r.closed c = true → r'.closed c = true
  stopped : (∀ c rest, r.cleanup c = .running rest → r.closed c = true) →
    ∀ c rest, r'.cleanup c = .running rest → r'.closed c = true
  ids : ∀ c ∉ grows, ∀ logicalId ∈ r'.ids c, logicalId ∈ r.ids c
  link : ∀ c ∉ grows, ∀ id, r'.link id = some c → r.link id = some c

section Evolves

variable {grows : Set ConnId} {r r' r'' : Roster} {c : ConnId}

theorem Evolves.refl (r : Roster) : r.Evolves grows r :=
  ⟨fun _ h => h, fun h => h, fun _ _ _ h => h, fun _ _ _ h => h⟩

theorem Evolves.trans (h : r.Evolves grows r') (h' : r'.Evolves grows r'') : r.Evolves grows r'' :=
  ⟨fun c hc => h'.closed c (h.closed c hc), fun hr => h'.stopped (h.stopped hr),
    fun c hc name hmem => h.ids c hc name (h'.ids c hc name hmem),
    fun c hc id hlink => h.link c hc id (h'.link c hc id hlink)⟩

theorem Evolves.mono {grows' : Set ConnId} (h : r.Evolves grows r') (hsub : grows ⊆ grows') :
    r.Evolves grows' r' :=
  ⟨h.closed, h.stopped, fun c hc => h.ids c fun hmem => hc (hsub hmem),
    fun c hc => h.link c fun hmem => hc (hsub hmem)⟩

theorem Shrinks.evolves (h : r.Shrinks r') (hcleanup : r'.cleanup = r.cleanup) : r.Evolves grows r' := by
  refine ⟨fun c hc => h.closed ▸ hc, fun hr c rest hrunning => ?_, fun c _ => h.ids c,
    fun c _ id => h.link id c⟩
  rw [h.closed]
  exact hr c rest (hcleanup ▸ hrunning)

theorem evolves_unbound (id : SessionId) : r.Evolves grows (r.unbound id) :=
  (shrinks_unbound r id).evolves rfl

theorem evolves_shut : r.Evolves grows (r.shut c) := by
  have hclosed : ∀ d, r.closed d = true → (r.shut c).closed d = true := by
    intro d hd
    by_cases heq : d = c
    · simp [Roster.shut, heq]
    · simpa only [Roster.shut, update_of_ne heq] using hd
  exact ⟨hclosed, fun hr d rest hrunning => hclosed d (hr d rest hrunning), fun _ _ _ h => h,
    fun _ _ _ h => h⟩

theorem evolves_cleaning {cleanup : Cleanup}
    (hclosed : (∀ d rest, r.cleanup d = .running rest → r.closed d = true) → cleanup ≠ .ended →
      r.closed c = true) : r.Evolves grows (r.cleaning c cleanup) := by
  refine ⟨fun _ h => h, fun hr d rest hrunning => ?_, fun _ _ _ h => h, fun _ _ _ h => h⟩
  by_cases heq : d = c
  · simp only [Roster.cleaning, heq, update_self] at hrunning
    rw [heq]
    exact hclosed hr (by simp [hrunning])
  · simp only [Roster.cleaning, update_of_ne heq] at hrunning
    exact hr d rest hrunning

theorem evolves_ids {ids : List LogicalId} (h : c ∉ grows → ∀ logicalId ∈ ids, logicalId ∈ r.ids c) :
    r.Evolves grows { r with ids := update r.ids c ids } := by
  refine ⟨fun _ h => h, fun hr => hr, fun d hd name hmem => ?_, fun _ _ _ h => h⟩
  by_cases heq : d = c
  · subst heq
    simp only [update_self] at hmem
    exact h hd name hmem
  · simpa only [update_of_ne heq] using hmem

theorem evolves_link (h : c ∈ grows) :
    r.Evolves grows { r with link := update r.link id (some c) } := by
  refine ⟨fun _ h => h, fun hr => hr, fun _ _ _ h => h, fun d hd other hlink => ?_⟩
  by_cases heq : other = id
  · simp only [heq, update_self, Option.some.injEq] at hlink
    exact absurd (hlink ▸ h) hd
  · simpa only [update_of_ne heq] using hlink

theorem evolves_bound (h : c ∈ grows) :
    r.Evolves grows (r.bound id c logicalId) :=
  (evolves_link h).trans (evolves_ids fun hc => absurd h hc)

theorem evolves_entered (h : c ∈ grows) :
    r.Evolves grows (r.entered id c logicalId) := by
  have hbound : r.Evolves grows (r.bound id c logicalId) := evolves_bound h
  exact ⟨hbound.closed, hbound.stopped, hbound.ids, hbound.link⟩

end Evolves

section Ordered

variable {r : Roster} {leaving : Set SessionId} {id : SessionId} {c : ConnId} {logicalId : LogicalId}

theorem Ordered.name_unique (h : r.Ordered leaving) {other : LogicalId}
    (hindex : r.index logicalId = some id) (hother : r.index other = some id) :
    other = logicalId := by
  have hname := (h.entry logicalId id hindex).1
  rw [(h.entry other id hother).1, Option.some.injEq] at hname
  exact hname

theorem Ordered.mono {leaving' : Set SessionId} (h : r.Ordered leaving) (hsub : leaving ⊆ leaving') :
    r.Ordered leaving' := by
  refine ⟨fun logicalId id hindex => ?_, h.listed, fun id habsent => ?_, h.stopped, h.distinct, h.once⟩
  · obtain ⟨hname, c, hlink, hplaces⟩ := h.entry logicalId id hindex
    exact ⟨hname, c, hlink, fun hid => hplaces fun hmem => hid (hsub hmem)⟩
  · obtain ⟨hlink, hproved⟩ := h.parked id habsent
    exact ⟨hlink, fun hregistered hid => hproved hregistered fun hmem => hid (hsub hmem)⟩

theorem Ordered.settle (h : r.Ordered (insert id leaving)) (habsent : r.Absent id)
    (hdone : id ∈ r.registry → r.provisional id = false) : r.Ordered leaving := by
  refine ⟨fun logicalId other hindex => ?_, h.listed, fun other hother => ?_, h.stopped, h.distinct,
    h.once⟩
  · obtain ⟨hname, c, hlink, hplaces⟩ := h.entry logicalId other hindex
    have hne : other ≠ id := fun heq => habsent logicalId (heq ▸ hindex)
    exact ⟨hname, c, hlink, fun hstays => hplaces fun hmem => hstays (hmem.resolve_left hne)⟩
  · obtain ⟨hlink, hproved⟩ := h.parked other hother
    refine ⟨hlink, fun hregistered hstays => ?_⟩
    by_cases heq : other = id
    · rw [heq] at hregistered ⊢
      exact hdone hregistered
    · exact hproved hregistered fun hmem => hstays (hmem.resolve_left heq)

theorem mem_holder {other : SessionId} : other ∈ r.holder c logicalId ↔
    r.index logicalId = some other ∧ r.link other = some c := Iff.rfl

theorem Ordered.leave (h : r.Ordered ∅) : (r.leave c logicalId).Ordered (r.holder c logicalId) := by
  have hsub : ∀ d, ∀ name ∈ (r.leave c logicalId).ids d, name ∈ r.ids d ∧ (d = c → name ≠ logicalId) := by
    intro d name hname
    by_cases heq : d = c
    · subst heq
      simp only [Roster.leave, update_self, (h.distinct d).mem_erase_iff] at hname
      exact ⟨hname.2, fun _ => hname.1⟩
    · simp only [Roster.leave, update_of_ne heq] at hname
      exact ⟨hname, fun heq' => absurd heq' heq⟩
  constructor
  · intro name id hindex
    obtain ⟨hname, d, hlink, hplaces⟩ := h.entry name id hindex
    refine ⟨hname, d, hlink, fun hstays => ?_⟩
    obtain ⟨hregistered, hmem, hrest⟩ := hplaces (Set.notMem_empty id)
    refine ⟨hregistered, ?_, hrest⟩
    by_cases heq : d = c
    · subst heq
      have hne : name ≠ logicalId := fun heq => hstays ⟨heq ▸ hindex, hlink⟩
      simpa only [Roster.leave, update_self] using (List.mem_erase_of_ne hne).2 hmem
    · simpa only [Roster.leave, update_of_ne heq] using hmem
  · intro d name hopen hmem
    exact h.listed d name hopen (hsub d name hmem).1
  · intro id habsent
    obtain ⟨hlink, hproved⟩ := h.parked id habsent
    exact ⟨hlink, fun hregistered _ => hproved hregistered (Set.notMem_empty id)⟩
  · exact h.stopped
  · intro d
    by_cases heq : d = c
    · simpa only [Roster.leave, heq, update_self] using (h.distinct c).erase logicalId
    · simpa only [Roster.leave, update_of_ne heq] using h.distinct d
  · exact h.once

/-- The next round of a clean-up is for one logical id, whose session is left to it. -/
theorem Ordered.advance {rest : List LogicalId} (h : r.Ordered ∅)
    (hcleanup : r.cleanup c = .running (logicalId :: rest)) :
    (r.cleaning c (.running rest)).Ordered (r.holder c logicalId) := by
  constructor
  · intro name id hindex
    obtain ⟨hname, d, hlink, hplaces⟩ := h.entry name id hindex
    refine ⟨hname, d, hlink, fun hstays => ?_⟩
    obtain ⟨hregistered, hmem, hrest⟩ := hplaces (Set.notMem_empty id)
    refine ⟨hregistered, hmem, fun rest' hrunning => ?_⟩
    by_cases heq : d = c
    · subst heq
      simp only [Roster.cleaning, update_self, Cleanup.running.injEq] at hrunning
      have hne : name ≠ logicalId := fun heq => hstays ⟨heq ▸ hindex, hlink⟩
      rw [← hrunning]
      exact (List.mem_cons.1 (hrest _ hcleanup)).resolve_left hne
    · simp only [Roster.cleaning, update_of_ne heq] at hrunning
      exact hrest rest' hrunning
  · exact h.listed
  · intro id habsent
    obtain ⟨hlink, hproved⟩ := h.parked id habsent
    exact ⟨hlink, fun hregistered _ => hproved hregistered (Set.notMem_empty id)⟩
  · intro d rest' hrunning
    by_cases heq : d = c
    · rw [heq]
      exact h.stopped c _ hcleanup
    · simp only [Roster.cleaning, update_of_ne heq] at hrunning
      exact h.stopped d rest' hrunning
  · exact h.distinct
  · exact h.once

theorem Ordered.cleaning {cleanup : Cleanup} (h : r.Ordered ∅)
    (hcleanup : ∀ rest, cleanup = .running rest → rest = r.ids c ∧ r.closed c = true) :
    (r.cleaning c cleanup).Ordered ∅ := by
  refine ⟨fun name id hindex => ?_, h.listed, h.parked, fun d rest hrunning => ?_, h.distinct, h.once⟩
  · obtain ⟨hname, d, hlink, hplaces⟩ := h.entry name id hindex
    refine ⟨hname, d, hlink, fun hstays => ?_⟩
    obtain ⟨hregistered, hmem, hrest⟩ := hplaces hstays
    refine ⟨hregistered, hmem, fun rest hrunning => ?_⟩
    by_cases heq : d = c
    · subst heq
      simp only [Roster.cleaning, update_self] at hrunning
      rw [(hcleanup rest hrunning).1]
      exact hmem
    · simp only [Roster.cleaning, update_of_ne heq] at hrunning
      exact hrest rest hrunning
  · by_cases heq : d = c
    · subst heq
      simp only [Roster.cleaning, update_self] at hrunning
      exact (hcleanup rest hrunning).2
    · simp only [Roster.cleaning, update_of_ne heq] at hrunning
      exact h.stopped d rest hrunning

theorem Ordered.shut (h : r.Ordered leaving) : (r.shut c).Ordered leaving := by
  have hclosed : ∀ d, (r.shut c).closed d = false → r.closed d = false := by
    intro d hopen
    by_cases heq : d = c
    · simp [Roster.shut, heq] at hopen
    · simpa only [Roster.shut, update_of_ne heq] using hopen
  refine ⟨h.entry, fun d name hopen => h.listed d name (hclosed d hopen), h.parked,
    fun d rest hrunning => ?_, h.distinct, h.once⟩
  have hold := h.stopped d rest hrunning
  cases hstill : (r.shut c).closed d with
  | true => rfl
  | false => rw [hclosed d hstill] at hold; cases hold

/-- A clean-up that has gone through all its logical ids leaves no session on its link. -/
theorem Ordered.emptied (h : r.Ordered ∅) (hcleanup : r.cleanup c = .running []) :
    (r.emptied c).Ordered ∅ := by
  have hclosed := h.stopped c _ hcleanup
  have hended : (r.cleaning c .ended).Ordered ∅ := h.cleaning fun _ h => nomatch h
  constructor
  · intro name id hindex
    obtain ⟨hname, d, hlink, hplaces⟩ := hended.entry name id hindex
    refine ⟨hname, d, hlink, fun hstays => ?_⟩
    obtain ⟨hregistered, hmem, hrest⟩ := hplaces hstays
    have hne : d ≠ c := by
      rintro rfl
      obtain ⟨-, d', hlink', hplaces'⟩ := h.entry name id hindex
      obtain rfl : d' = d := Option.some.inj (hlink'.symm.trans hlink)
      exact List.not_mem_nil ((hplaces' hstays).2.2 [] hcleanup)
    refine ⟨hregistered, ?_, hrest⟩
    simp only [Roster.emptied, update_of_ne hne]
    exact hmem
  · intro d name hopen hmem
    have hne : d ≠ c := by
      rintro rfl
      rw [show r.closed d = false from hopen] at hclosed
      cases hclosed
    simp only [Roster.emptied, update_of_ne hne] at hmem
    exact h.listed d name hopen hmem
  · exact hended.parked
  · exact hended.stopped
  · intro d
    by_cases heq : d = c
    · simp only [Roster.emptied, heq, update_self, List.nodup_nil]
    · simpa only [Roster.emptied, update_of_ne heq] using h.distinct d
  · exact h.once

theorem Ordered.promoted (h : r.Ordered leaving) : (r.promoted id).Ordered leaving := by
  refine ⟨h.entry, h.listed, fun other habsent => ?_, h.stopped, h.distinct, h.once⟩
  obtain ⟨hlink, hproved⟩ := h.parked other habsent
  refine ⟨hlink, fun hregistered hstays => ?_⟩
  by_cases heq : other = id
  · simp only [Roster.promoted, heq, update_self]
  · simpa only [Roster.promoted, update_of_ne heq] using hproved hregistered hstays

theorem Ordered.unnamed (h : r.Ordered leaving) (habsent : r.Absent id) :
    (r.unnamed id).Ordered leaving := by
  refine ⟨fun logicalId other hindex => ?_, h.listed, h.parked, h.stopped, h.distinct, h.once⟩
  have hne : other ≠ id := fun heq => habsent logicalId (heq ▸ hindex)
  simpa only [Roster.unnamed, update_of_ne hne] using h.entry logicalId other hindex

theorem index_unbound (h : r.Ordered leaving) {other : SessionId} :
    (r.unbound id).index logicalId = some other ↔ r.index logicalId = some other ∧ other ≠ id := by
  simp only [Roster.unbound]
  split_ifs with hown
  · simp only [hown.2, Option.some.injEq, false_iff, not_and, not_not]
    exact fun heq => heq.symm
  · refine ⟨fun hindex => ⟨hindex, ?_⟩, fun hindex => hindex.1⟩
    rintro rfl
    exact hown ⟨(h.entry logicalId other hindex).1, hindex⟩

theorem absent_unbound (h : r.Ordered leaving) : (r.unbound id).Absent id :=
  fun _ hindex => ((index_unbound h).1 hindex).2 rfl

theorem ids_unbound (h : r.Ordered leaving) {d : ConnId} :
    logicalId ∈ (r.unbound id).ids d ↔
      logicalId ∈ r.ids d ∧ ¬(r.name id = some logicalId ∧ r.link id = some d) := by
  simp only [Roster.unbound]
  split_ifs with hlink
  · cases hname : r.name id with
    | none => simp
    | some name =>
      simp only [(h.distinct d).mem_erase_iff, Option.some.injEq, hlink, and_true]
      rw [and_comm, ne_comm]
  · simp [hlink]

theorem Ordered.unbound (h : r.Ordered leaving) (id : SessionId) :
    (r.unbound id).Ordered (insert id leaving) := by
  constructor
  · intro name other hindex
    obtain ⟨hindex, hne⟩ := (index_unbound h).1 hindex
    obtain ⟨hname, c, hlink, hplaces⟩ := h.entry name other hindex
    refine ⟨hname, c, ?_, fun hstays => ?_⟩
    · simpa only [Roster.unbound, update_of_ne hne] using hlink
    · obtain ⟨hregistered, hmem, hrest⟩ := hplaces fun hmem => hstays (Set.mem_insert_of_mem id hmem)
      refine ⟨hregistered, (ids_unbound h).2 ⟨hmem, fun hboth => ?_⟩, hrest⟩
      -- The session's own name is not another's, unless it has a stale one and no link.
      by_cases habsent : r.Absent id
      · rw [(h.parked id habsent).1] at hboth
        cases hboth.2
      · simp only [Absent, not_forall, not_not] at habsent
        obtain ⟨own, hown⟩ := habsent
        have hsame := (h.entry own id hown).1
        rw [hboth.1, Option.some.injEq] at hsame
        rw [← hsame] at hown
        exact hne (Option.some.inj (hindex.symm.trans hown))
  · intro c name hopen hmem
    obtain ⟨hmem, hnot⟩ := (ids_unbound h).1 hmem
    obtain ⟨other, hindex, hlink⟩ := h.listed c name hopen hmem
    have hne : other ≠ id := by
      rintro rfl
      exact hnot ⟨(h.entry name other hindex).1, hlink⟩
    refine ⟨other, (index_unbound h).2 ⟨hindex, hne⟩, ?_⟩
    simpa only [Roster.unbound, update_of_ne hne] using hlink
  · intro other habsent
    by_cases heq : other = id
    · subst heq
      refine ⟨by simp [Roster.unbound], fun _ hstays => ?_⟩
      exact absurd (Set.mem_insert other leaving) hstays
    · have hbefore : r.Absent other :=
        fun name hindex => habsent name ((index_unbound h).2 ⟨hindex, heq⟩)
      obtain ⟨hlink, hproved⟩ := h.parked other hbefore
      refine ⟨?_, fun hregistered hstays => ?_⟩
      · simpa only [Roster.unbound, update_of_ne heq] using hlink
      · exact hproved hregistered fun hmem => hstays (Set.mem_insert_of_mem id hmem)
  · exact h.stopped
  · intro c
    simp only [Roster.unbound]
    split_ifs with hlink
    · cases r.name id with
      | none => exact h.distinct c
      | some name => exact (h.distinct c).erase name
    · exact h.distinct c
  · exact h.once

theorem Ordered.unregistered (h : r.Ordered leaving) (id : SessionId) :
    (r.unregistered id).Ordered (insert id leaving) := by
  refine ⟨fun name other hindex => ?_, h.listed, fun other habsent => ?_, h.stopped, h.distinct,
    h.once.erase id⟩
  · obtain ⟨hname, c, hlink, hplaces⟩ := h.entry name other hindex
    refine ⟨hname, c, hlink, fun hstays => ?_⟩
    obtain ⟨hregistered, hmem⟩ := hplaces fun hmem => hstays (Set.mem_insert_of_mem id hmem)
    have hne : other ≠ id := fun heq => hstays (heq ▸ Set.mem_insert other leaving)
    exact ⟨(List.mem_erase_of_ne hne).2 hregistered, hmem⟩
  · obtain ⟨hlink, hproved⟩ := h.parked other habsent
    exact ⟨hlink, fun hregistered hstays => hproved (List.mem_of_mem_erase hregistered)
      fun hmem => hstays (Set.mem_insert_of_mem id hmem)⟩

theorem Ordered.unregistered_all (h : r.Ordered leaving) (ids : List SessionId) :
    Ordered { r with registry := r.registry.diff ids } (leaving ∪ {id | id ∈ ids}) := by
  induction ids generalizing r leaving with
  | nil => exact h.mono Set.subset_union_left
  | cons id rest ih =>
    rw [List.diff_cons]
    refine (ih (h.unregistered id)).mono ?_
    rintro other ((rfl | hmem) | hmem)
    · exact .inr (.head _)
    · exact .inl hmem
    · exact .inr (.tail id hmem)

theorem Ordered.dropped (h : r.Ordered (insert id leaving)) (hgone : id ∉ r.registry) :
    (r.unbound id).Ordered leaving := by
  have hleaving := h.unbound id
  rw [Set.insert_idem] at hleaving
  exact hleaving.settle (absent_unbound h) fun hmem => absurd hmem hgone

theorem Ordered.unbound_only (h : r.Ordered leaving) (hsub : leaving ⊆ {id}) :
    (r.unbound id).Ordered (insert id ∅) := by
  refine (h.unbound id).mono (Set.insert_subset (Set.mem_insert id ∅) ?_)
  rwa [LawfulSingleton.insert_empty_eq]

theorem Ordered.removed (h : r.Ordered leaving) (hsub : leaving ⊆ {id}) :
    ((r.unbound id).unregistered id).Ordered ∅ := by
  have hleaving := (h.unbound_only hsub).unregistered id
  rw [Set.insert_idem] at hleaving
  exact hleaving.settle (absent_unbound h) fun hmem => absurd hmem h.once.not_mem_erase

theorem Ordered.released (h : r.Ordered leaving) (hsub : leaving ⊆ {id})
    (hproved : r.provisional id = false) : ((r.unbound id).unnamed id).Ordered ∅ :=
  ((h.unbound_only hsub).settle (absent_unbound h) fun _ => hproved).unnamed (absent_unbound h)

theorem mem_insert_ids {d : ConnId} {name : LogicalId} :
    name ∈ update r.ids c ((r.ids c).insert logicalId) d ↔
      name ∈ r.ids d ∨ d = c ∧ name = logicalId := by
  by_cases heq : d = c
  · subst heq
    rw [update_self, List.mem_insert_iff]
    simp only [true_and]
    exact or_comm
  · simp [heq]

theorem nodup_insert_ids (h : ∀ d, (r.ids d).Nodup) (d : ConnId) :
    (update r.ids c ((r.ids c).insert logicalId) d).Nodup := by
  by_cases heq : d = c
  · rw [heq, update_self]
    exact (h c).insert
  · rw [update_of_ne heq]
    exact h d

theorem Ordered.entered (h : r.Ordered ∅) (hopen : r.closed c = false)
    (hfree : r.index logicalId = none) (hnew : id ∉ r.registry) (habsent : r.Absent id) :
    (r.entered id c logicalId).Ordered ∅ := by
  have hindex : ∀ name other, (r.entered id c logicalId).index name = some other →
      name = logicalId ∧ other = id ∨ name ≠ logicalId ∧ other ≠ id ∧ r.index name = some other := by
    intro name other hindex
    by_cases heq : name = logicalId
    · simp only [Roster.entered, heq, update_self, Option.some.injEq] at hindex
      exact .inl ⟨heq, hindex.symm⟩
    · simp only [Roster.entered, update_of_ne heq] at hindex
      exact .inr ⟨heq, fun hid => habsent name (hid ▸ hindex), hindex⟩
  have hidle : ∀ rest, r.cleanup c ≠ .running rest := by
    intro rest hrunning
    rw [h.stopped c rest hrunning] at hopen
    cases hopen
  constructor
  · intro name other hentry
    rcases hindex name other hentry with ⟨rfl, rfl⟩ | ⟨-, hne, hbefore⟩
    · refine ⟨by simp [Roster.entered], c, by simp [Roster.entered], fun _ => ⟨?_, ?_, ?_⟩⟩
      · simp [Roster.entered]
      · exact mem_insert_ids.2 (.inr ⟨rfl, rfl⟩)
      · intro rest hrunning
        exact absurd hrunning (hidle rest)
    · obtain ⟨hname, d, hlink, hplaces⟩ := h.entry name other hbefore
      simp only [Roster.entered, update_of_ne hne]
      refine ⟨hname, d, hlink, fun hstays => ?_⟩
      obtain ⟨hregistered, hmem, hrest⟩ := hplaces hstays
      exact ⟨List.mem_append_left _ hregistered, mem_insert_ids.2 (.inl hmem), hrest⟩
  · intro d name hopen' hmem
    have hself : id ∈ (r.entered id c logicalId).holder c logicalId := by
      constructor <;> simp [Roster.entered]
    rcases mem_insert_ids.1 hmem with hmem | ⟨rfl, rfl⟩
    · obtain ⟨other, hbefore, hlink⟩ := h.listed d name hopen' hmem
      have hne : other ≠ id := fun heq => habsent name (heq ▸ hbefore)
      have hname : name ≠ logicalId := by
        rintro rfl
        rw [hfree] at hbefore
        cases hbefore
      refine ⟨other, ?_⟩
      simp only [mem_holder, Roster.entered, update_of_ne hne, update_of_ne hname]
      exact ⟨hbefore, hlink⟩
    · exact ⟨id, hself⟩
  · intro other hother
    have hne : other ≠ id := by
      rintro rfl
      exact hother logicalId (by simp [Roster.entered])
    have hbefore : r.Absent other := by
      intro name hentry
      refine hother name ?_
      have hname : name ≠ logicalId := by
        rintro rfl
        rw [hfree] at hentry
        cases hentry
      simpa only [Roster.entered, update_of_ne hname] using hentry
    obtain ⟨hlink, hproved⟩ := h.parked other hbefore
    simp only [Roster.entered, update_of_ne hne, List.mem_append, List.mem_singleton, hne,
      or_false]
    exact ⟨hlink, hproved⟩
  · exact h.stopped
  · exact nodup_insert_ids h.distinct
  · exact List.Nodup.append h.once (List.nodup_singleton id) (List.disjoint_singleton.2 hnew)

theorem Ordered.bound (h : r.Ordered ∅) (hopen : r.closed c = false)
    (hindex : r.index logicalId = some id)
    (hfree : ∀ old, r.link id = some old → old ≠ c → r.closed old = true) :
    (r.bound id c logicalId).Ordered ∅ := by
  have hidle : ∀ rest, r.cleanup c ≠ .running rest := by
    intro rest hrunning
    rw [h.stopped c rest hrunning] at hopen
    cases hopen
  constructor
  · intro name other hentry
    obtain ⟨hname, d, hlink, hplaces⟩ := h.entry name other hentry
    obtain ⟨hregistered, hmem, hrest⟩ := hplaces (Set.notMem_empty other)
    refine ⟨hname, ?_⟩
    by_cases heq : other = id
    · obtain rfl : name = logicalId := h.name_unique hindex (heq ▸ hentry)
      refine ⟨c, by simp [Roster.bound, heq], fun _ => ⟨hregistered, ?_, ?_⟩⟩
      · exact mem_insert_ids.2 (.inr ⟨rfl, rfl⟩)
      · intro rest hrunning
        exact absurd hrunning (hidle rest)
    · refine ⟨d, ?_, fun _ => ⟨hregistered, mem_insert_ids.2 (.inl hmem), hrest⟩⟩
      simpa only [Roster.bound, update_of_ne heq] using hlink
  · intro d name hopen' hmem
    rcases mem_insert_ids.1 hmem with hmem | ⟨rfl, rfl⟩
    · obtain ⟨other, hentry, hlink⟩ := h.listed d name hopen' hmem
      refine ⟨other, hentry, ?_⟩
      by_cases heq : other = id
      · have hsame : d = c := by
          by_contra hne
          have hclosed := hfree d (heq ▸ hlink) hne
          rw [show r.closed d = false from hopen'] at hclosed
          cases hclosed
        simp [Roster.bound, heq, hsame]
      · simpa only [Roster.bound, update_of_ne heq] using hlink
    · exact ⟨id, hindex, by simp [Roster.bound]⟩
  · intro other habsent
    have hne : other ≠ id := fun heq => habsent logicalId (heq ▸ hindex)
    simpa only [Roster.bound, update_of_ne hne] using h.parked other habsent
  · exact h.stopped
  · exact nodup_insert_ids h.distinct
  · exact h.once

end Ordered

end Roster

end CallBackend.Server
