import CallBackend.Files.Transfers

/-!
# Native uploads and the backend's own writes

A `create`, a request and a cleanup hold the lock of their file, so no transfer is at work on it; they
leave its rows alone or remove them all. A `put` holds the lock too while it writes, but not against
the commit of a transfer that has given up: the rows it has looked at may be out of date. If it then
writes where such a commit has put a row, or is going to put one, the row no longer has its bytes.
-/

namespace CallBackend.Files

open Exec Function

/-! ### Steps under the lock -/

section Locked

variable {setup : Setup} {net net' : Net} {id : FileId} {env : StoreEnv}

theorem Net.Unlocked.no_writer (h : net.Unlocked id) {n : Nat} {transfer : Transfer} {lease : String}
    {rest : List (Nat × Bytes)} (htransfer : net.transfers[n]? = some transfer) (hid : transfer.id = id) :
    transfer.phase ≠ .writing lease rest := by
  intro hphase
  refine h.transfers transfer (List.mem_of_getElem? htransfer) (live_of_writing hphase) ?_
  rw [hid]

theorem Net.Unlocked.no_put (h : net.Unlocked id) {put : Put} (hmem : put ∈ net.puts) (hid : put.id = id) :
    put.live ≠ true := by
  intro hlive
  refine h.puts put hmem hlive ?_
  rw [hid]

theorem Net.Unlocked.frame (h : net.Unlocked id) (hholders : Holders net net') : net'.Unlocked id := by
  constructor
  · intro transfer hmem hlive
    obtain ⟨n, htransfer⟩ := List.mem_iff_getElem?.mp hmem
    obtain ⟨before, hbefore, hid, hlive'⟩ := hholders.transfers n transfer htransfer hlive
    rw [← hid]
    exact h.transfers before (List.mem_of_getElem? hbefore) hlive'
  · intro put hmem hlive
    obtain ⟨p, hput⟩ := List.mem_iff_getElem?.mp hmem
    obtain ⟨before, hbefore, hid, hlive'⟩ := hholders.puts p put hput hlive
    rw [← hid]
    exact h.puts before (List.mem_of_getElem? hbefore) hlive'

/-- A file without rows, and without a lease or a row of its own, that nobody has locked. -/
theorem Net.Unlocked.cleared (h : net.Unlocked id) (hchunks : ∀ index, (net.store.chunks id).get? index = none)
    (hquiet : net.store.files.get? id = none ∨ net.store.nativeWrites.get? id = none) :
    net.Intact setup id where
  matched := by
    intro index digest hchunk
    rw [hchunks index] at hchunk
    cases hchunk
  pending := by
    rintro transfer ⟨n, token, -, -, -, lease, hlease, -⟩ hrow
    rcases hquiet with hnone | hnone
    · exact absurd hnone hrow
    · rw [hnone] at hlease
      cases hlease
  writing := fun n transfer lease rest htransfer hid hphase => absurd hphase (h.no_writer htransfer hid)
  putting := fun put hmem hid hlive => absurd hlive (h.no_put hmem hid)

theorem holders_store (net : Net) (st : Store) : Holders net { net with store := st } :=
  holders_same rfl rfl

theorem Net.Keeps.trans {net₁ net₂ : Net} (h : net.Keeps setup net₁ id) (h' : net₁.Keeps setup net₂ id) :
    net.Keeps setup net₂ id := ⟨h'.intact, h.grown.trans h'.grown⟩

theorem Net.Intact.stored (h : net.Intact setup id) {st : Store} (hidle : Idle id net.store st) :
    net.Keeps setup { net with store := st } id :=
  h.idles hidle (follows_refl id _) (settles_of (kin_refl id _) (fun _ _ hcommit => hcommit) fun _ => hidle.leased)
    fun _ hmem _ _ => hmem

theorem Net.Drawn.stored (h : net.Drawn) {st : Store}
    (hleases : ∀ id lease, st.nativeWrites.get? id = some lease → net.store.nativeWrites.get? id = some lease) :
    Net.Drawn { net with store := st } :=
  h.frame le_rfl (fun _ _ hcommit => hcommit) hleases h.writing rfl

/-- A step under the lock of some files, from which it may remove all rows. -/
theorem Net.Safe.stored (h : net.Safe setup) {st : Store} (heffect : ∀ id, Idle id net.store st ∨
      net.Unlocked id ∧ (∀ index, (st.chunks id).get? index = none) ∧
        (st.files.get? id = none ∨ st.nativeWrites.get? id = none) ∧
        ∀ lease, st.nativeWrites.get? id = some lease → net.store.nativeWrites.get? id = some lease) :
    net.Evolves setup { net with store := st } := by
  refine ⟨h.exclusive.frame (holders_store net _), h.drawn.stored fun id lease hlease => ?_, fun id => ?_⟩
  · rcases heffect id with hidle | ⟨-, -, -, hleases⟩
    · exact hidle.leases lease hlease
    · exact hleases lease hlease
  · rcases heffect id with hidle | ⟨hunlocked, hchunks, hquiet, -⟩
    · exact ((h.intact id).stored hidle).advances
    · exact ⟨(hunlocked.frame (holders_store net st)).cleared hchunks hquiet, .inr hchunks⟩

variable {user : String} {data : Json} {own : FileId}

theorem create_evolves (h : net.Safe setup)
    (hunlocked : ∀ file, NewFile.parse data = .ok file → net.Unlocked file.id) (env : StoreEnv) :
    net.Evolves setup { net with store := (create user data env net.store).2 } := by
  refine h.stored fun id => (create_effect user data env net.store id).imp_right ?_
  rintro ⟨⟨file, hfile, rfl⟩, hrow, hchunks, hlease⟩
  refine ⟨hunlocked file hfile, ?_, .inr hlease, ?_⟩
  · rw [hchunks]
    exact (h.intact file.id).matched.no_chunks hrow
  · rw [hlease]
    exact nofun

theorem request_evolves (h : net.Safe setup) (hunlocked : net.Unlocked own)
    (hdelete : (data.get "op").text? = some "delete" →
      ∀ n, net.store.operations + 2 ≤ n → env.succeeds n = true) :
    net.Evolves setup { net with store := (fileRequest user own data env net.store).2 } := by
  refine h.stored fun id => (request_effect user own data env net.store id hdelete).imp_right ?_
  rintro ⟨rfl, hcleared⟩
  refine ⟨hunlocked, hcleared.chunks, .inr hcleared.lease, ?_⟩
  rw [hcleared.lease]
  exact nofun

theorem removeOrphan_evolves (h : net.Safe setup) (hunlocked : net.Unlocked own) (env : StoreEnv) :
    net.Evolves setup { net with store := (removeOrphan own env net.store).2 } := by
  refine h.stored fun id => (removeOrphan_effect own env net.store id).imp_right ?_
  rintro ⟨rfl, hrow, hfiles, hchunks, hleases⟩
  rw [hfiles, hchunks, hleases]
  exact ⟨hunlocked, (h.intact own).matched.no_chunks hrow, .inl hrow, fun _ hlease => hlease⟩

/-! ### Cleaning up -/

def Net.executes (setup : Setup) (net : Net) (meantime : List (Nat × StoreEnv)) : Net :=
  meantime.foldl (fun net entry => net.execute setup entry.1 entry.2) net

theorem executes_holders (setup : Setup) (net : Net) (meantime : List (Nat × StoreEnv)) :
    Holders net (net.executes setup meantime) := by
  induction meantime generalizing net with
  | nil => exact holders_same rfl rfl
  | cons entry meantime ih => exact (execute_holders setup net entry.1 entry.2).trans (ih _)

theorem executes_keep (hdigest : setup.Hex)
    {meantime : List (Nat × StoreEnv)} (hdrawn : net.Drawn)
    (hdistinct : (meantime.map fun entry => entry.2.token).Nodup)
    (hfresh : ∀ entry ∈ meantime, entry.2.token ∉ net.issued) :
    (net.executes setup meantime).Drawn ∧
      ∀ id, net.Intact setup id → net.Keeps setup (net.executes setup meantime) id := by
  induction meantime generalizing net with
  | nil => exact ⟨hdrawn, fun _ h => h.keeps⟩
  | cons entry meantime ih =>
    rw [List.map_cons, List.nodup_cons] at hdistinct
    have hfirst := hfresh entry (.head _)
    have hlater : ∀ other ∈ meantime, other.2.token ∉ (net.execute setup entry.1 entry.2).issued := by
      intro other hmem hissued
      rcases execute_issued hissued with hsame | hbefore
      · exact hdistinct.1 (List.mem_map.mpr ⟨other, hmem, hsame⟩)
      · exact hfresh other (.tail _ hmem) hbefore
    obtain ⟨hdrawn', hkeeps'⟩ := ih (execute_drawn hdrawn entry.1 entry.2) hdistinct.2 hlater
    refine ⟨hdrawn', fun id h => ?_⟩
    have hkeeps := execute_keeps hdigest hdrawn hfirst h entry.1
    exact hkeeps.trans (hkeeps' id hkeeps.intact)

theorem unlink_effect (own : FileId) (env : StoreEnv) (st : Store) :
    wp (unlink own) env st
      (fun _ st' => (∀ id, own ≠ id → Idle id st st') ∧ st'.nativeWrites = st.nativeWrites)
      fun _ st' => ∀ id, Idle id st st' := by
  simp only [unlink, wp_do]
  refine wp_operate (fun n => ⟨fun id hid => ⟨rfl, rfl, ?_, fun _ h => h⟩, rfl⟩)
    fun n id => ⟨rfl, rfl, rfl, fun _ h => h⟩
  exact update_of_ne (Ne.symm hid) _ _

/-- What a cleanup comes to: the unlink fails, or the rows are removed after some messages. -/
theorem sweep_cases (setup : Setup) (net : Net) (own : FileId) (now : Nat) (env : StoreEnv)
    (meantime : List (Nat × StoreEnv)) (env' : StoreEnv) :
    (∃ st, (∀ id, Idle id net.store st) ∧
      net.sweep setup own now env meantime env' = { net with store := st }) ∨
    ∃ st between, (∀ id, own ≠ id → Idle id net.store st) ∧ st.nativeWrites = net.store.nativeWrites ∧
      between = Net.executes setup { net with store := st } meantime ∧
      net.sweep setup own now env meantime env' =
        { between with store := (sweepRows own now env' between.store).2 } := by
  have hwp := unlink_effect own env net.store
  unfold Net.sweep
  split
  · rename_i st hrun
    obtain ⟨hidle, hleases⟩ := wp_ok hwp hrun
    exact .inr ⟨st, _, hidle, hleases, rfl, rfl⟩
  · rename_i st hrun
    exact .inl ⟨st, wp_error hwp hrun, rfl⟩

theorem sweep_holders (setup : Setup) (net : Net) (own : FileId) (now : Nat) (env : StoreEnv)
    (meantime : List (Nat × StoreEnv)) (env' : StoreEnv) :
    Holders net (net.sweep setup own now env meantime env') := by
  rcases sweep_cases setup net own now env meantime env' with ⟨st, -, hnext⟩ | ⟨st, between, -, -, rfl, hnext⟩
  · rw [hnext]
    exact holders_store net st
  · rw [hnext]
    exact ((holders_store net st).trans (executes_holders setup _ meantime)).trans (holders_store _ _)

theorem sweep_evolves (hdigest : setup.Hex) (h : net.Safe setup)
    {env env' : StoreEnv} {meantime : List (Nat × StoreEnv)} (henv : env'.Faultless)
    (hdistinct : (meantime.map fun entry => entry.2.token).Nodup)
    (hfresh : ∀ entry ∈ meantime, entry.2.token ∉ net.issued) (hunlocked : net.Unlocked own) (now : Nat) :
    net.Evolves setup (net.sweep setup own now env meantime env') := by
  have hholders := sweep_holders setup net own now env meantime env'
  rcases sweep_cases setup net own now env meantime env' with
    ⟨st, hidle, hnext⟩ | ⟨st, between, hidle, hleases, hbetween, hnext⟩
  · rw [hnext]
    exact h.stored fun id => .inl (hidle id)
  have hdrawn : Net.Drawn { net with store := st } := h.drawn.stored fun _ _ hlease => by rwa [hleases] at hlease
  obtain ⟨hdrawn', hkeeps⟩ := executes_keep hdigest hdrawn hdistinct hfresh
  rw [← hbetween] at hdrawn' hkeeps
  have hunlocked' := hunlocked.frame hholders
  rw [hnext] at hholders hunlocked' ⊢
  refine ⟨h.exclusive.frame hholders, hdrawn'.stored fun id lease hlease => ?_, fun id => ?_⟩
  · obtain ⟨hothers, hcleared⟩ := sweepRows_effect henv own now between.store id
    by_cases hid : own = id
    · subst hid
      rw [hcleared.lease] at hlease
      cases hlease
    · exact (hothers hid).leases lease hlease
  · obtain ⟨hothers, hcleared⟩ := sweepRows_effect henv own now between.store id
    by_cases hid : own = id
    · subst hid
      exact ⟨hunlocked'.cleared hcleared.chunks (.inr hcleared.lease), .inr hcleared.chunks⟩
    · have hfirst := (h.intact id).stored (hidle id hid)
      have hsecond := hkeeps id hfirst.intact
      exact ((hfirst.trans hsecond).trans (hsecond.intact.stored (hothers hid))).advances

end Locked

/-! ### Puts -/

section Puts

variable {setup : Setup} {net net' : Net} {id : FileId} {p : Nat} {put put' : Put} {env : StoreEnv} {st st' : Store}
  {row : FileRow} {writes : Writes}

theorem Checked.fits (h : Checked setup env st id row writes) :
    st.files.get? id = some row ∧ writes.Fits setup row := by
  cases h with
  | put batch hrow _ => exact ⟨hrow, checkBatch_fits (st.chunks id) (Writes.fits_empty setup row) batch⟩
  | putBatch user upload result hrow _ _ _ hchecked => exact ⟨hrow, (checkUpload_proper hchecked).2⟩

theorem Checked.putting (h : Checked setup env st id row writes) :
    Putting setup st ⟨id, row, writes, writes.entries.insertionSort fun a b => a.1 ≤ b.1, true⟩ := by
  have hperm := List.perm_insertionSort (fun a b : Nat × Bytes × Digest => a.1 ≤ b.1) writes.entries
  refine ⟨?_, h.fits.2, ⟨?_, hperm.subset⟩, fun entry hentry => .inl (hperm.symm.subset hentry)⟩
  · dsimp only
    rw [h.fits.1]
    rfl
  · exact hperm.nodup_iff.mpr (List.Nodup.of_map _ writes.nodup)

theorem beginPut_keeps (h : net.Intact setup id) {own : FileId}
    (hchecked : Checked setup env net.store own row writes) :
    net.Keeps setup (net.beginPut own row writes) id := by
  refine ⟨⟨h.matched, h.pending, h.writing, fun put hmem hid hlive => ?_⟩, (idle_refl net.store id).grown⟩
  rcases List.mem_append.mp hmem with hmem | hmem
  · exact h.putting put hmem hid hlive
  · cases List.mem_singleton.mp hmem
    exact hchecked.putting

theorem beginPut_exclusive (h : net.Exclusive) {own : FileId} (hunlocked : net.Unlocked own) (row : FileRow)
    (writes : Writes) : (net.beginPut own row writes).Exclusive where
  transfers := h.transfers
  puts := by
    intro p q put other hput hother hlive hlive' hstripe
    rcases System.lookup_push hput with ⟨hp, rfl⟩ | ⟨-, hp⟩ <;>
      rcases System.lookup_push hother with ⟨hq, rfl⟩ | ⟨-, hq⟩
    · rw [hp, hq]
    · exact absurd hstripe.symm (hunlocked.puts other (List.mem_of_getElem? hq) hlive')
    · exact absurd hstripe (hunlocked.puts put (List.mem_of_getElem? hp) hlive)
    · exact h.puts p q put other hp hq hlive hlive' hstripe
  apart := by
    intro n p transfer put htransfer hput hlive hlive'
    rcases System.lookup_push hput with ⟨-, rfl⟩ | ⟨-, hp⟩
    · exact hunlocked.transfers transfer (List.mem_of_getElem? htransfer) hlive
    · exact h.apart n p transfer put htransfer hp hlive hlive'

theorem Net.Exclusive.intact_put (h : net.Exclusive) (hput : net.puts[p]? = some put) (hlive : put.live = true)
    (htransfers : net'.transfers = net.transfers) (hputs : net'.puts = net.puts.set p put')
    (hmatched : net'.store.Matched setup put.id)
    (hpending : ∀ other, net'.Pending put.id other → net'.store.files.get? put.id ≠ none →
      ∀ chunk ∈ other.chunks, chunk.2.length ≤ chunkSize + chunkOverhead ∧
        ((net'.store.chunks put.id).get? chunk.1 ≠ none ∨ net'.store.Holds put.id chunk.1 chunk.2))
    (hputting : put'.live = true → Putting setup net'.store put') : net'.Intact setup put.id where
  matched := hmatched
  pending := hpending
  writing := by
    intro n transfer lease rest htransfer hid hphase
    rw [htransfers] at htransfer
    refine absurd ?_ (h.apart n p transfer put htransfer hput (live_of_writing hphase) hlive)
    rw [hid]
  putting := by
    intro other hmem hid hlive'
    rw [hputs] at hmem
    obtain ⟨q, hother⟩ := List.mem_iff_getElem?.mp hmem
    rcases System.lookup_set hput hother with ⟨rfl, rfl⟩ | ⟨hne, hsame⟩
    · exact hputting hlive'
    · refine absurd (h.puts q p other put hsame hput hlive' hlive ?_) hne
      rw [hid]

theorem Net.Intact.beside_put (h : net.Intact setup id) (hput : net.puts[p]? = some put) (hid : put'.id ≠ id)
    (hidle : Idle id net.store st') : net.Keeps setup { net with store := st', puts := net.puts.set p put' } id := by
  refine h.idles hidle (follows_refl id _)
    (settles_of (kin_refl id _) (fun _ _ hcommit => hcommit) fun _ => hidle.leased) fun other hmem hother _ => ?_
  obtain ⟨q, hq⟩ := List.mem_iff_getElem?.mp hmem
  rcases System.lookup_set hput hq with ⟨-, rfl⟩ | ⟨-, hsame⟩
  · exact absurd hother hid
  · exact List.mem_of_getElem? hsame

variable {entry : Nat × Bytes × Digest}

theorem Putting.sized (h : Putting setup st put) (hentry : entry ∈ put.writes.entries) :
    entry.2.1.length ≤ chunkSize + chunkOverhead :=
  (h.fits entry hentry).1.trans_le (chunkLength_le put.row _)

theorem Putting.write {rest : List (Nat × Bytes × Digest)} {touched : Nat → Prop}
    (h : Putting setup st put) (hrest : put.rest = entry :: rest)
    (hwrite : Rewritten put.id touched st st') (htouched : ∀ index, touched index → index = entry.1)
    (hheld : st'.Holds put.id entry.1 entry.2.1) :
    Putting setup st' { put with rest } := by
  obtain ⟨hnodup, hsub⟩ := h.rest
  rw [hrest] at hnodup hsub
  refine ⟨by rw [hwrite.files]; exact h.row, h.fits,
    ⟨(List.nodup_cons.mp hnodup).2, fun _ hfound => hsub (.tail _ hfound)⟩, fun found hfound => ?_⟩
  by_cases hindex : found.1 = entry.1
  · have hsame : found = entry :=
      List.inj_on_of_nodup_map put.writes.nodup hfound (hsub (.head _)) hindex
    rw [hsame]
    exact .inr hheld
  · rcases h.written found hfound with hleft | hbefore
    · rw [hrest] at hleft
      rcases List.mem_cons.mp hleft with rfl | hleft
      · exact absurd rfl hindex
      · exact .inl hleft
    · exact .inr (hwrite.held _ _ (fun ht => hindex (htouched _ ht)) (h.sized hfound) hbefore)

/-- A write of a put touches at most a slot that has no row and that no commit under way names. -/
theorem put_lands (hexclusive : net.Exclusive) (h : ∀ id, net.Intact setup id)
    (hput : net.puts[p]? = some put) (hlive : put.live = true) {rest : List (Nat × Bytes × Digest)}
    (hrest : put.rest = entry :: rest) {touched : Nat → Prop}
    (hwrite : Rewritten put.id touched net.store st')
    (htouched : ∀ index, touched index → index = entry.1 ∧ (net.store.chunks put.id).get? index = none ∧
      ∀ transfer, net.Pending put.id transfer → ∀ chunk ∈ transfer.chunks, chunk.1 ≠ index)
    (hnext : put' = put.stopped ∨ (put' = { put with rest } ∧ st'.Holds put.id entry.1 entry.2.1))
    (id : FileId) :
    net.Keeps setup { net with store := st', puts := net.puts.set p put' } id := by
  have hid' : put'.id = put.id := by
    rcases hnext with rfl | ⟨rfl, -⟩ <;> rfl
  by_cases hid : put.id = id
  · subst hid
    have hnew : ∀ index, touched index → (net.store.chunks put.id).get? index = none :=
      fun index ht => (htouched index ht).2.1
    have hputting := (h put.id).putting put (List.mem_of_getElem? hput) rfl hlive
    refine ⟨hexclusive.intact_put hput hlive rfl rfl (hwrite.matched hnew (h put.id).matched) ?_ ?_,
      hwrite.grown hnew⟩
    · rintro other ⟨m, token, hcommit, hother, hother', hleased⟩ hrow chunk hmem
      have hpending : net.Pending put.id other := ⟨m, token, hcommit, hother, hother', hwrite.leased hleased⟩
      rw [hwrite.files] at hrow
      obtain ⟨hsize, hheld⟩ := (h put.id).pending other hpending hrow chunk hmem
      refine ⟨hsize, hheld.imp (fun hchunk => by rw [hwrite.chunks]; exact hchunk) fun hheld => ?_⟩
      exact hwrite.held _ _ (fun ht => (htouched _ ht).2.2 other hpending chunk hmem rfl) hsize hheld
    · intro hlive'
      rcases hnext with rfl | ⟨rfl, hheld⟩
      · cases hlive'
      · exact hputting.write hrest hwrite (fun index ht => (htouched index ht).1) hheld
  · exact (h id).beside_put hput (by rwa [hid']) (hwrite.idle (Ne.symm hid))

/-- What the next write of a put would overwrite: nothing that is not there already, or a slot without
a row that no pending commit names. -/
def Net.Apart (net : Net) (p : Nat) : Prop :=
  ∀ put entry rest, net.puts[p]? = some put → put.live = true → put.rest = entry :: rest →
    net.store.Holds put.id entry.1 entry.2.1 ∨
    ((net.store.chunks put.id).get? entry.1 = none ∧
      ∀ transfer, net.Pending put.id transfer → ∀ chunk ∈ transfer.chunks, chunk.1 ≠ entry.1)

theorem writePut_cases (h : ∀ id, net.Intact setup id) (hapart : net.Apart p) (env : StoreEnv) :
    net.writePut p env = net ∨ ∃ put entry rest touched st' put', net.puts[p]? = some put ∧ put.live = true ∧
      put.rest = entry :: rest ∧ Rewritten put.id touched net.store st' ∧
      (∀ index, touched index → index = entry.1 ∧ (net.store.chunks put.id).get? index = none ∧
        ∀ transfer, net.Pending put.id transfer → ∀ chunk ∈ transfer.chunks, chunk.1 ≠ index) ∧
      (put' = put.stopped ∨ (put' = { put with rest } ∧ st'.Holds put.id entry.1 entry.2.1)) ∧
      net.writePut p env = { net with store := st', puts := net.puts.set p put' } := by
  unfold Net.writePut
  cases hput : net.puts[p]? with
  | none => exact .inl rfl
  | some put =>
    dsimp only
    split
    · rename_i entry rest hlive hrest
      have hputting := (h put.id).putting put (List.mem_of_getElem? hput) rfl hlive
      have hentry : entry ∈ put.writes.entries := by
        refine hputting.rest.2 ?_
        rw [hrest]
        exact .head _
      obtain ⟨touched, htouched, hwp⟩ : ∃ touched : Nat → Prop,
          (∀ index, touched index → index = entry.1 ∧ (net.store.chunks put.id).get? index = none ∧
            ∀ transfer, net.Pending put.id transfer → ∀ chunk ∈ transfer.chunks, chunk.1 ≠ index) ∧
          wp (writeSlot put.id entry.1 entry.2.1) env net.store
            (fun _ st' => Rewritten put.id touched net.store st' ∧
              ((net.store.blobs put.id).isSome = true → st'.Holds put.id entry.1 entry.2.1))
            fun _ st' => Rewritten put.id touched net.store st' := by
        rcases hapart put entry rest hput hlive hrest with hheld | ⟨hnone, hnamed⟩
        · exact ⟨fun _ => False, fun _ h => h.elim, wp_mono (wp_writeSlot_held hheld (hputting.sized hentry))
            (fun _ _ hwrite => ⟨hwrite.1, fun _ => hwrite.2⟩) fun _ _ hwrite => hwrite⟩
        · refine ⟨(· = entry.1), ?_, wp_writeSlot_rewritten (hputting.sized hentry)⟩
          rintro _ rfl
          exact ⟨rfl, hnone, hnamed⟩
      split_ifs with hblob
      · split
        · rename_i st' hrun
          have hwrite := wp_ok hwp hrun
          exact .inr ⟨put, entry, rest, touched, st', _, rfl, hlive, hrest, hwrite.1, htouched,
            .inr ⟨rfl, hwrite.2 hblob⟩, rfl⟩
        · rename_i st' hrun
          have hwrite := wp_error hwp hrun
          exact .inr ⟨put, entry, rest, touched, st', _, rfl, hlive, hrest, hwrite, htouched, .inl rfl, rfl⟩
      · exact .inr ⟨put, entry, rest, touched, net.store, _, rfl, hlive, hrest, rewritten_refl _, htouched,
          .inl rfl, rfl⟩
    · exact .inl rfl

theorem writePut_evolves (h : net.Safe setup) (hapart : net.Apart p) (env : StoreEnv) :
    net.Evolves setup (net.writePut p env) := by
  rcases writePut_cases h.intact hapart env with
    hsame | ⟨put, entry, rest, touched, st', put', hput, hlive, hrest, hwrite, htouched, hnext, heq⟩
  · rw [hsame]
    exact h.evolves
  rw [heq]
  refine ⟨h.exclusive.frame (holders_setPut hput rfl rfl ?_ fun _ => hlive),
    h.drawn.frame le_rfl (fun _ _ hcommit => hcommit) (fun id lease hlease => ?_) h.drawn.writing rfl,
    fun id => (put_lands h.exclusive h.intact hput hlive hrest hwrite htouched hnext id).advances⟩
  · rcases hnext with rfl | ⟨rfl, -⟩ <;> rfl
  · rw [← hwrite.leases]
    exact hlease

variable (st) in
theorem wp_insertChunks_new {ι : Type} (index : ι → Nat) (digest : ι → Digest) (items : List ι) :
    wp (forEach (fun item => insertChunk id (index item) (digest item)) items) env st
      (fun _ _ => ∀ item ∈ items, (st.chunks id).get? (index item) = none) fun _ _ => True := by
  induction items generalizing st with
  | nil => exact nofun
  | cons item rest ih =>
    simp only [forEach, insertChunk, wp_do, wp_ensure]
    refine wp_operate (fun n => ⟨fun hnone => ?_, fun _ => trivial⟩) fun _ => trivial
    refine wp_mono (ih _) (fun _ _ hrest other hother => ?_) fun _ _ _ => trivial
    rcases List.mem_cons.mp hother with rfl | hother
    · exact hnone
    · have hlater := hrest other hother
      dsimp only at hlater
      rw [update_self] at hlater
      by_cases hindex : index item = index other
      · rw [hindex, Dict.get?_set_self] at hlater
        cases hlater
      · rwa [Dict.get?_set_of_ne _ _ hindex] at hlater

theorem indexChunks_effect (id : FileId) (writes : Writes) (env : StoreEnv) (st : Store) :
    (∀ other, Idle other st (indexChunks id writes env st).2) ∨
      (writes.New (st.chunks id) ∧ ∃ n, (indexChunks id writes env st).2 = st.indexed id writes n) := by
  refine wp_final (p := fun st' : Store => (∀ other, Idle other st st') ∨
    (writes.New (st.chunks id) ∧ ∃ n, st' = st.indexed id writes n)) ?_
  have hsame : ∀ n, ∀ other, Idle other st { st with operations := n } :=
    fun n other => ⟨rfl, rfl, rfl, fun _ h => h⟩
  simp only [indexChunks, wp_bind]
  refine wp_operate (fun n => wp_transaction ?_) fun n => .inl (hsame n)
  have hinserted : wp (forEach (fun entry : Nat × Bytes × Digest => insertChunk id entry.1 entry.2.2) writes.entries)
      env { st with operations := n }
      (fun _ st' => (∀ entry ∈ writes.entries, (st.chunks id).get? entry.1 = none) ∧
        ∃ k, st' = st.indexed id writes k)
      fun _ st' => True ∧ ∃ chunks k, st' = { st with chunks, operations := k } :=
    wp_and (wp_insertChunks_new { st with operations := n } _ _ writes.entries)
      (wp_insertChunks (fun entry : Nat × Bytes × Digest => entry.1) (fun entry => entry.2.2) writes.entries
        (fun k => ⟨k, rfl⟩) fun chunks k => ⟨_, k, rfl⟩)
  refine wp_mono hinserted (fun _ st' hst' => ?_) fun _ st' hst' => ?_
  · obtain ⟨hnew, k, rfl⟩ := hst'
    refine ⟨fun m => .inr ⟨fun index hindex => ?_, m, rfl⟩, fun m => .inl (hsame m)⟩
    obtain ⟨entry, hentry, rfl⟩ := List.mem_map.mp hindex
    exact hnew entry hentry
  · obtain ⟨-, chunks, k, rfl⟩ := hst'
    exact .inl (hsame k)

theorem insertPut_cases (net : Net) (p : Nat) (env : StoreEnv) :
    net.insertPut p env = net ∨ ∃ put st', net.puts[p]? = some put ∧ put.live = true ∧ put.rest = [] ∧
      ((∀ id, Idle id net.store st') ∨ (put.writes.New (net.store.chunks put.id) ∧
        ∃ n, st' = net.store.indexed put.id put.writes n)) ∧
      net.insertPut p env = { net with store := st', puts := net.puts.set p put.stopped } := by
  unfold Net.insertPut
  cases hput : net.puts[p]? with
  | none => exact .inl rfl
  | some put =>
    dsimp only
    split
    · rename_i hlive hrest
      exact .inr ⟨put, _, rfl, hlive, hrest, indexChunks_effect put.id put.writes env net.store, rfl⟩
    · exact .inl rfl

theorem Writes.Fits.congr {row' : FileRow} (h : writes.Fits setup row) (hsize : row.size = row'.size) :
    writes.Fits setup row' := by
  intro entry hentry
  obtain ⟨hlength, hdigest⟩ := h entry hentry
  exact ⟨hlength.trans (FileRow.chunkLength_congr hsize entry.1), hdigest⟩

theorem put_indexed (hexclusive : net.Exclusive) (h : ∀ id, net.Intact setup id) (hput : net.puts[p]? = some put)
    (hlive : put.live = true) (hrest : put.rest = []) (hnew : put.writes.New (net.store.chunks put.id)) (n : Nat)
    (id : FileId) : net.Keeps setup { net with
      store := net.store.indexed put.id put.writes n, puts := net.puts.set p put.stopped } id := by
  have hputting := (h put.id).putting put (List.mem_of_getElem? hput) rfl hlive
  have hadded : (net.store.indexed put.id put.writes n).chunks put.id =
      put.writes.addTo (net.store.chunks put.id) := update_self ..
  have hrow : ∀ index digest, (net.store.chunks put.id).get? index = some digest →
      ((net.store.indexed put.id put.writes n).chunks put.id).get? index = some digest := by
    intro index digest hchunk
    have hnone : put.writes.get? index = none := by
      by_contra hsome
      obtain ⟨value, hvalue⟩ := Option.ne_none_iff_exists'.mp hsome
      have hentry := (put.writes.mem_entries_iff index value).mpr hvalue
      rw [hnew index (List.mem_map_of_mem hentry)] at hchunk
      cases hchunk
    rw [hadded, Writes.get?_addTo, hnone]
    exact hchunk
  by_cases hid : put.id = id
  · subst hid
    obtain ⟨row, hfile, hsize⟩ := Option.map_eq_some_iff.mp hputting.row
    refine ⟨hexclusive.intact_put hput hlive rfl rfl ?_ ?_ nofun, fun index digest hchunk => ?_⟩
    · refine (h put.id).matched.indexed hfile (hputting.fits.congr hsize.symm) (fun entry hentry => ?_) n
      rcases hputting.written entry hentry with hleft | hheld
      · rw [hrest] at hleft
        cases hleft
      · exact hheld
    · intro other hpending hfiles chunk hmem
      obtain ⟨hsized, hheld⟩ := (h put.id).pending other hpending hfiles chunk hmem
      refine ⟨hsized, hheld.imp_left fun hchunk => ?_⟩
      obtain ⟨digest, hdigest⟩ := Option.ne_none_iff_exists'.mp hchunk
      dsimp only
      rw [hrow chunk.1 digest hdigest]
      exact nofun
    · exact ⟨hrow index digest hchunk, rfl, fun _ _ hheld => hheld⟩
  · refine (h id).beside_put hput hid ⟨rfl, ?_, rfl, fun _ hlease => hlease⟩
    exact update_of_ne (Ne.symm hid) _ _

theorem insertPut_evolves (h : net.Safe setup) (p : Nat) (env : StoreEnv) :
    net.Evolves setup (net.insertPut p env) := by
  rcases insertPut_cases net p env with hsame | ⟨put, st', hput, hlive, hrest, hst', hnext⟩
  · rw [hsame]
    exact h.evolves
  rw [hnext]
  refine ⟨h.exclusive.frame (holders_setPut hput rfl rfl rfl fun _ => hlive),
    h.drawn.frame le_rfl (fun _ _ hcommit => hcommit) (fun id lease hlease => ?_) h.drawn.writing rfl,
    fun id => Net.Keeps.advances ?_⟩
  · rcases hst' with hidle | ⟨-, n, rfl⟩
    · exact (hidle id).leases lease hlease
    · exact hlease
  · rcases hst' with hidle | ⟨hnew, n, rfl⟩
    · refine (h.intact id).idles (hidle id) (follows_refl id _)
        (settles_of (kin_refl id _) (fun _ _ hcommit => hcommit) fun _ => (hidle id).leased)
        fun other hmem _ hlive' => ?_
      obtain ⟨q, hq⟩ := List.mem_iff_getElem?.mp hmem
      rcases System.lookup_set hput hq with ⟨-, rfl⟩ | ⟨-, hsame⟩
      · cases hlive'
      · exact List.mem_of_getElem? hsame
    · exact put_indexed h.exclusive h.intact hput hlive hrest hnew n id

end Puts

/-! ### Runs -/

theorem safe_empty (setup : Setup) : Net.Safe setup {} := by
  have htransfers : ∀ (n : Nat) (transfer : Transfer), ({} : Net).transfers[n]? ≠ some transfer :=
    fun _ transfer => (Option.some_ne_none transfer).symm
  have hputs : ∀ (p : Nat) (put : Put), ({} : Net).puts[p]? ≠ some put :=
    fun _ put => (Option.some_ne_none put).symm
  have hmessages : ∀ message, message ∉ ({} : Net).messages := fun _ => List.not_mem_nil
  refine ⟨⟨?_, ?_, ?_⟩, ⟨?_, ?_, ?_⟩, fun id => ⟨?_, ?_, ?_, ?_⟩⟩
  · exact fun n _ transfer _ h => absurd h (htransfers n transfer)
  · exact fun p _ put _ h => absurd h (hputs p put)
  · exact fun n _ transfer _ h => absurd h (htransfers n transfer)
  · exact fun n lease h => absurd h (hmessages _)
  · exact fun _ lease h => absurd h (Option.some_ne_none lease).symm
  · exact fun n transfer _ _ h => absurd h (htransfers n transfer)
  · exact fun _ digest h => absurd h (Option.some_ne_none digest).symm
  · exact fun _ ⟨_, _, h, _⟩ => absurd h (hmessages _)
  · exact fun n transfer _ _ h => absurd h (htransfers n transfer)
  · exact fun put h => absurd h List.not_mem_nil

/-- No deletion and no cleanup meets a fault behind the removal of the blob. -/
def Action.Thorough (st : Store) : Action → Prop
  | .request _ _ data env =>
    (data.get "op").text? = some "delete" → ∀ n, st.operations + 2 ≤ n → env.succeeds n = true
  | .sweep _ _ _ _ env' => env'.Faultless
  | _ => True

/-- Moreover no put overwrites what a late commit has added or is going to add. -/
def Net.Careful (net : Net) (action : Action) : Prop :=
  action.Thorough net.store ∧ ∀ p env, action = .writePut p env → net.Apart p

variable {setup : Setup} {net : Net}

theorem next_evolves (hdigest : setup.Hex) (h : net.Safe setup)
    {action : Action} (hcareful : net.Careful action) (henabled : net.Enabled setup action) :
    net.Evolves setup (net.next setup action) := by
  obtain ⟨hthorough, hapart⟩ := hcareful
  cases action with
  | start user own chunks => exact start_evolves h henabled user chunks
  | execute k env =>
    exact ⟨h.exclusive.frame (execute_holders setup net k env), execute_drawn h.drawn k env,
      fun id => (execute_keeps hdigest h.drawn henabled (h.intact id) k).advances⟩
  | write n env => exact write_evolves h n env
  | sync n env => exact sync_evolves h n env
  | giveUp n => exact giveUp_evolves h n
  | create user data env => exact create_evolves h henabled env
  | request user own data env => exact request_evolves h henabled hthorough
  | sweep own now env meantime env' =>
    obtain ⟨hunlocked, hdistinct, hfresh⟩ := henabled
    exact sweep_evolves hdigest h hthorough hdistinct hfresh hunlocked now
  | removeOrphan own env => exact removeOrphan_evolves h henabled env
  | beginPut own row writes env =>
    exact ⟨beginPut_exclusive h.exclusive henabled.1 row writes, h.drawn.frame le_rfl (fun _ _ h => h)
      (fun _ _ h => h) h.drawn.writing rfl, fun id => (beginPut_keeps (h.intact id) henabled.2).advances⟩
  | writePut p env => exact writePut_evolves h (hapart p env rfl) env
  | insertPut p env => exact insertPut_evolves h p env

theorem reachable_safe (hdigest : setup.Hex)
    (h : (fileNet setup).Reachable Net.Careful net) : net.Safe setup := by
  refine h.invariant (fun net hinit => ?_) fun net action net' hsafe hcareful hstep => ?_
  · rw [hinit]
    exact safe_empty setup
  · rw [hstep.2]
    obtain ⟨hexclusive, hdrawn, hadvances⟩ := next_evolves hdigest hsafe hcareful hstep.1
    exact ⟨hexclusive, hdrawn, fun id => (hadvances id).intact⟩

/-! ### What the table says -/

def Store.chunkAt (st : Store) (id : FileId) (index : Nat) : Option Bytes := do
  let row ← st.files.get? id
  let blob ← st.blobs id
  return blob.read (slot index) (row.chunkLength index)

def Store.Faithful (setup : Setup) (st : Store) : Prop :=
  ∀ id index digest, (st.chunks id).get? index = some digest →
    ∃ content, st.chunkAt id index = some content ∧ setup.sha256 content = digest

section Rows

variable {setup : Setup} {net net' : Net} {id : FileId} {st st' : Store} {index : Nat} {digest : Digest}

theorem chunkAt_eq {row : FileRow} {content : Bytes} (hrow : st.files.get? id = some row)
    (hheld : st.Holds id index content) (hlength : content.length = row.chunkLength index) :
    st.chunkAt id index = some content := by
  obtain ⟨blob, hblob, hread⟩ := hheld
  rw [Store.chunkAt, hrow, hblob]
  rw [hlength] at hread
  exact congrArg some hread

theorem Net.Safe.faithful (h : net.Safe setup) : net.store.Faithful setup := by
  intro id index digest hchunk
  obtain ⟨row, blob, content, hrow, hblob, hlength, hread, hsha⟩ := (h.intact id).matched index digest hchunk
  exact ⟨content, chunkAt_eq hrow ⟨blob, hblob, hread⟩ hlength, hsha⟩

theorem Net.Advances.row_kept {digest' : Digest} (hmatched : net.store.Matched setup id)
    (h : net.Advances setup net' id) (hchunk : (net.store.chunks id).get? index = some digest)
    (hchunk' : (net'.store.chunks id).get? index = some digest') :
    digest' = digest ∧ net'.store.chunkAt id index = net.store.chunkAt id index := by
  rcases h.rows with hgrown | hnone
  · obtain ⟨hstays, hfiles, hheld⟩ := hgrown index digest hchunk
    rw [hstays, Option.some.injEq] at hchunk'
    obtain ⟨row, blob, content, hrow, hblob, hlength, hread, -⟩ := hmatched index digest hchunk
    rw [hrow, Option.map_some] at hfiles
    obtain ⟨row', hrow', hsize⟩ := Option.map_eq_some_iff.mp hfiles
    have hbytes := hheld content (hlength.trans_le (chunkLength_le row index)) ⟨blob, hblob, hread⟩
    refine ⟨hchunk'.symm, ?_⟩
    rw [chunkAt_eq hrow ⟨blob, hblob, hread⟩ hlength,
      chunkAt_eq hrow' hbytes (hlength.trans (FileRow.chunkLength_congr hsize.symm index))]
  · rw [hnone index] at hchunk'
    cases hchunk'

end Rows

def Action.puts : Action → Bool
  | .beginPut .. => true
  | .writePut .. => true
  | .insertPut .. => true
  | _ => false

/-- The system without the backend's own writes. -/
def uploadNet (setup : Setup) : System Net Action where
  init := (fileNet setup).init
  step net action net' := action.puts = false ∧ (fileNet setup).step net action net'

theorem careful_of_upload {action : Action} (hputs : action.puts = false)
    (h : action.Thorough net.store) : net.Careful action := by
  refine ⟨h, ?_⟩
  rintro p env rfl
  cases hputs

theorem reachable_upload {ok ok' : Net → Action → Prop}
    (hok : ∀ net action, action.puts = false → ok net action → ok' net action)
    (h : (uploadNet setup).Reachable ok net) : (fileNet setup).Reachable ok' net := by
  induction h with
  | init hinit => exact .init hinit
  | step _ hstepOk hstep ih => exact .step ih (hok _ _ hstep.1 hstepOk) hstep.2

/-- In every run of uploads, creations, requests and cleanups in which no deletion or cleanup meets a
fault behind the removal of the blob, the table tells what is in the blobs; and a row that stays keeps
its digest and its bytes. -/
theorem native_rows_keep_their_bytes {setup : Setup} (hdigest : ∀ data, digestPattern (setup.sha256 data) = true)
    {net : Net} (h : (uploadNet setup).Reachable (fun net action => action.Thorough net.store) net) :
    net.store.Faithful setup ∧
      ∀ action net', action.Thorough net.store → (uploadNet setup).step net action net' →
        ∀ id index digest digest', (net.store.chunks id).get? index = some digest →
          (net'.store.chunks id).get? index = some digest' →
          digest' = digest ∧ net'.store.chunkAt id index = net.store.chunkAt id index := by
  have hcareful := reachable_upload (fun _ _ hputs hthorough => careful_of_upload hputs hthorough) h
  have hsafe := reachable_safe hdigest hcareful
  refine ⟨hsafe.faithful, ?_⟩
  rintro action _ hthorough ⟨hputs, henabled, rfl⟩ id index digest digest' hchunk hchunk'
  have hstep := next_evolves hdigest hsafe (careful_of_upload hputs hthorough) henabled
  exact (hstep.advances id).row_kept (hsafe.intact id).matched hchunk hchunk'

/-- In every run in which moreover each write of a put either repeats what is in its slot or goes to a
slot that has no row and that no pending commit names, the table tells what is in the blobs. -/
theorem writers_keep_apart {setup : Setup} (hdigest : ∀ data, digestPattern (setup.sha256 data) = true)
    {net : Net} (h : (fileNet setup).Reachable Net.Careful net) : net.store.Faithful setup :=
  (reachable_safe hdigest h).faithful

/-! ### Runs that lose bytes -/

instance (net : Net) (id : FileId) : Decidable (net.Unlocked id) :=
  decidable_of_iff ((∀ transfer ∈ net.transfers, transfer.live = true → stripe transfer.id ≠ stripe id) ∧
    ∀ put ∈ net.puts, put.live = true → stripe put.id ≠ stripe id)
    ⟨fun h => ⟨h.1, h.2⟩, fun h => ⟨h.transfers, h.puts⟩⟩

namespace Sample

def raceId : FileId := "00112233445566778899aabbccddeeff"

def raceChunk (byte : UInt8) : Bytes := List.replicate 28 byte

/-- SHA-256 of the two chunks of the run. -/
def raceSetup : Setup where
  sha256 data :=
    if data = raceChunk 1 then "22dfc40c154d98ebea12e7f903423d6c49f543265dd67003210b02c013cb637a"
    else "37921f86e47cf596b11ce24dc7af03e6ad93875fbf23597729b3620acf8865fd"

theorem raceSetup_digest (data : Bytes) : digestPattern (raceSetup.sha256 data) = true := by
  dsimp only [raceSetup]
  split_ifs
  · decide +kernel
  · decide +kernel

def raceEnv (token : String) : StoreEnv := ⟨seconds 1, 0, token, fun _ => true, fun _ => 0⟩

def raceCreation : Json :=
  .obj [("op", .str "create"), ("id", .str raceId), ("size", .int 0), ("ttl", .int 3600),
    ("envelope", .str "AAAA"), ("manifest", .str "AAAA")]

def firstToken : String := "0123456789abcdef0123456789abcdef"

def secondToken : String := "fedcba9876543210fedcba9876543210"

/-- An upload up to its commit, which is under way. -/
def uploadSteps : List Action :=
  [.create "alice" raceCreation (raceEnv ""),
   .start "alice" raceId [(0, raceChunk 1)],
   .execute 0 (raceEnv firstToken),
   .write 0 (raceEnv ""),
   .sync 0 (raceEnv "")]

def raceRow : FileRow := ⟨"alice", 0, 3601, 1, .uploading, "AAAA", "AAAA"⟩

def afterUpload : Net where
  store := {
    files := (∅ : FileTable).set raceId raceRow
    blobs := update (update (fun _ => none) raceId (some {})) raceId (some ⟨raceChunk 1⟩)
    nativeWrites := (∅ : Dict FileId Lease).set raceId
      (leaseFor (raceEnv firstToken) raceRow [⟨0, 28, raceSetup.sha256 (raceChunk 1)⟩])
    operations := 6 }
  transfers := [⟨"alice", raceId, [(0, raceChunk 1)], .committing firstToken⟩]
  messages := [.commit 0 firstToken]
  issued := [firstToken]

theorem afterUpload_eq : uploadSteps.foldl (Net.next raceSetup) {} = afterUpload := by rfl

theorem afterUpload_reachable :
    (uploadNet raceSetup).Reachable (fun net action => action.Thorough net.store) afterUpload := by
  have hmeets : System.Meets (Net.next raceSetup)
      (fun net action => (action.puts = false ∧ net.Enabled raceSetup action) ∧ action.Thorough net.store) {} uploadSteps :=
    ⟨⟨⟨rfl, fun _ _ => ⟨nofun, nofun⟩⟩, trivial⟩, ⟨⟨rfl, ⟨nofun, nofun⟩⟩, trivial⟩,
      ⟨⟨rfl, List.not_mem_nil⟩, trivial⟩, ⟨⟨rfl, trivial⟩, trivial⟩, ⟨⟨rfl, trivial⟩, trivial⟩, trivial⟩
  have hstep : ∀ net action, action.puts = false ∧ net.Enabled raceSetup action →
      (uploadNet raceSetup).step net action (net.next raceSetup action) := fun _ _ h => ⟨h.1, h.2, rfl⟩
  rw [← afterUpload_eq]
  exact (System.Path.of_meets hstep .refl hmeets).reachable (.init rfl)

def afterCommit : Net where
  store := {
    files := (∅ : FileTable).set raceId raceRow
    chunks := update (fun _ => ∅) raceId ((∅ : Dict Nat Digest).set 0 (raceSetup.sha256 (raceChunk 1)))
    blobs := afterUpload.store.blobs
    operations := 8 }
  transfers := [⟨"alice", raceId, [(0, raceChunk 1)], .ended⟩]
  issued := [secondToken, firstToken]

theorem afterCommit_eq : afterUpload.next raceSetup (.execute 0 (raceEnv secondToken)) = afterCommit := by rfl

theorem afterCommit_reachable :
    (uploadNet raceSetup).Reachable (fun net action => action.Thorough net.store) afterCommit := by
  have hstep : (uploadNet raceSetup).step afterUpload (.execute 0 (raceEnv secondToken)) afterCommit :=
    ⟨rfl, (by decide : secondToken ∉ [firstToken]), afterCommit_eq.symm⟩
  have hthorough : (Action.execute 0 (raceEnv secondToken)).Thorough afterUpload.store := trivial
  exact .step afterUpload_reachable hthorough hstep

/-- The first operation behind the removal of the blob fails. -/
def faultyEnv (operations : Nat) : StoreEnv :=
  ⟨seconds 1, 0, "", fun n => decide (n ≠ operations + 2), fun _ => 0⟩

def afterDelete : Net :=
  afterCommit.next raceSetup
    (.request "alice" raceId (.obj [("op", .str "delete")]) (faultyEnv afterCommit.store.operations))

/-- What a put of another chunk writes. -/
def raceWrites (byte : UInt8) : Writes := (∅ : Writes).set 0 (raceChunk byte, raceSetup.sha256 (raceChunk byte))

theorem race_checked (byte : UInt8) :
    Checked raceSetup (raceEnv "") (afterUpload.giveUp 0).store raceId raceRow (raceWrites byte) := by
  have hcount : ¬raceRow.count - 1 < 0 := by decide
  have hfits : ¬(0 ∈ ([] : List Nat) ∨ (raceChunk byte).length ≠ raceRow.chunkLength 0) :=
    not_or.mpr ⟨List.not_mem_nil, not_not_intro (List.length_replicate.trans (by decide))⟩
  have hsome : ¬([(0, raceChunk byte)] = [] ∨ batchChunks < 1) := not_or.mpr ⟨List.cons_ne_nil _ _, by decide⟩
  refine .putBatch "alice" (.binary [(0, raceChunk byte)]) ([0], raceWrites byte) rfl rfl rfl (by decide) ?_
  rw [checkUpload]
  refine (if_neg hsome).trans ?_
  rw [List.foldlM_cons, addUploaded_eq fun _ => rfl, if_neg hcount, if_neg hfits]
  rfl

/-- The transfer has given up; its commit is executed behind the check of a put. -/
def beforeWrite (byte : UInt8) : Net where
  store := afterCommit.store
  transfers := afterCommit.transfers
  issued := afterCommit.issued
  puts := [⟨raceId, raceRow, raceWrites byte, (raceWrites byte).entries, true⟩]

theorem beforeWrite_eq (byte : UInt8) :
    ((afterUpload.giveUp 0).beginPut raceId raceRow (raceWrites byte)).execute raceSetup 0 (raceEnv secondToken) =
      beforeWrite byte := by rfl

def afterRace (byte : UInt8) : Net := ((beforeWrite byte).writePut 0 (raceEnv "")).insertPut 0 (raceEnv "")

theorem race_reachable (byte : UInt8) {ok : Net → Action → Prop}
    (hok : ∀ net action, (∀ p env, action ≠ .writePut p env) → action.Thorough net.store → ok net action)
    (hwrite : ok (beforeWrite byte) (.writePut 0 (raceEnv ""))) :
    (fileNet raceSetup).Reachable ok (afterRace byte) := by
  have hstep : ∀ {net : Net} (action : Action), (fileNet raceSetup).Reachable ok net →
      (∀ p env, action ≠ .writePut p env) → action.Thorough net.store → net.Enabled raceSetup action →
      (fileNet raceSetup).Reachable ok (net.next raceSetup action) :=
    fun action h hno hthorough henabled => .step h (hok _ action hno hthorough) ⟨henabled, rfl⟩
  have hupload : (fileNet raceSetup).Reachable ok afterUpload := by
    refine reachable_upload (fun net action hputs hthorough => hok net action ?_ hthorough) afterUpload_reachable
    rintro p env rfl
    cases hputs
  have hgiveUp := hstep (.giveUp 0) hupload nofun trivial trivial
  have hbegin := hstep (.beginPut raceId raceRow (raceWrites byte) (raceEnv "")) hgiveUp nofun trivial
    ⟨(by decide : (afterUpload.giveUp 0).Unlocked raceId), race_checked byte⟩
  have hcommit := hstep (.execute 0 (raceEnv secondToken)) hbegin nofun trivial
    (by decide : secondToken ∉ [firstToken])
  have hwritten : (fileNet raceSetup).Reachable ok ((beforeWrite byte).writePut 0 (raceEnv "")) := by
    refine .step ?_ hwrite ⟨trivial, rfl⟩
    rw [← beforeWrite_eq]
    exact hcommit
  exact hstep (.insertPut 0 (raceEnv "")) hwritten nofun trivial trivial

end Sample

open Sample in
/-- A `delete` removes the blob and is rolled back: the row of a committed chunk stays. -/
theorem rolled_back_delete_loses_bytes :
    (∀ data, digestPattern (raceSetup.sha256 data) = true) ∧
      (uploadNet raceSetup).Reachable System.anyStep afterDelete ∧ ¬afterDelete.store.Faithful raceSetup := by
  refine ⟨raceSetup_digest, .step (afterCommit_reachable.mono fun _ _ _ => trivial) trivial ⟨rfl, ?_, rfl⟩,
    fun hfaithful => ?_⟩
  · exact (by decide : afterCommit.Unlocked raceId)
  · have hchunk : (afterDelete.store.chunks raceId).get? 0 = some (raceSetup.sha256 (raceChunk 1)) := by rfl
    have hnone : afterDelete.store.chunkAt raceId 0 = none := by rfl
    obtain ⟨content, hcontent, -⟩ := hfaithful raceId 0 _ hchunk
    rw [hnone] at hcontent
    cases hcontent

open Sample in
theorem native_rows_keep_their_bytes_upload :
    (afterCommit.store.chunks raceId).get? 0 = some (raceSetup.sha256 (raceChunk 1)) ∧
      afterCommit.store.Faithful raceSetup :=
  ⟨by rfl, (native_rows_keep_their_bytes raceSetup_digest afterCommit_reachable).1⟩

open Sample in
/-- A put writes over a chunk whose row a late commit has inserted behind its check; its own insert then
fails. -/
theorem put_overwrites_late_commit :
    (∀ data, digestPattern (raceSetup.sha256 data) = true) ∧
      (fileNet raceSetup).Reachable (fun net action => action.Thorough net.store) (afterRace 2) ∧
      ¬(afterRace 2).store.Faithful raceSetup := by
  refine ⟨raceSetup_digest, race_reachable 2 (fun _ _ _ h => h) trivial, fun hfaithful => ?_⟩
  have hchunk : ((afterRace 2).store.chunks raceId).get? 0 = some (raceSetup.sha256 (raceChunk 1)) := by rfl
  have hother : (afterRace 2).store.chunkAt raceId 0 = some (raceChunk 2) := by rfl
  obtain ⟨content, hcontent, hdigest⟩ := hfaithful raceId 0 _ hchunk
  rw [hother, Option.some.injEq] at hcontent
  rw [← hcontent] at hdigest
  exact absurd hdigest (by decide)

open Sample in
theorem writers_keep_apart_same_chunk :
    ((afterRace 1).store.chunks raceId).get? 0 = some (raceSetup.sha256 (raceChunk 1)) ∧
      (afterRace 1).store.Faithful raceSetup := by
  refine ⟨by rfl, writers_keep_apart raceSetup_digest (race_reachable 1 ?_ ⟨trivial, ?_⟩)⟩
  · exact fun _ _ hno hthorough => ⟨hthorough, fun p env heq => absurd heq (hno p env)⟩
  · -- the put writes what is there already
    rintro p env heq put entry rest hput - hrest
    cases heq
    cases hput
    cases hrest
    exact .inl ⟨⟨raceChunk 1⟩, rfl, rfl⟩

end CallBackend.Files
