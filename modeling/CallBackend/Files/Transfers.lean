import CallBackend.Files.Integrity

/-!
# The steps of a native upload

Each step of a transfer, and each message of it that the backend executes, keeps what holds for every
file. The lock keeps the writers of a file apart. Messages are executed without it: a granted lease
replaces the one before, and so ends whatever has still been pending; a commit finds its lease and
with it the bytes.
-/

namespace CallBackend.Files

open Exec

/-! ### Steps of the Go process -/

/-- A step keeps what holds for a file, and its rows. -/
structure Net.Keeps (setup : Setup) (net net' : Net) (id : FileId) : Prop where
  intact : net'.Intact setup id
  grown : Grown id net.store net'.store

/-- What a step does to a file: what holds for it still does, and every row is still there, unless
there is none left. -/
structure Net.Advances (setup : Setup) (net net' : Net) (id : FileId) : Prop where
  intact : net'.Intact setup id
  rows : Grown id net.store net'.store ∨ ∀ index, (net'.store.chunks id).get? index = none

structure Net.Safe (setup : Setup) (net : Net) : Prop where
  exclusive : net.Exclusive
  drawn : net.Drawn
  intact : ∀ id, net.Intact setup id

structure Net.Evolves (setup : Setup) (net net' : Net) : Prop where
  exclusive : net'.Exclusive
  drawn : net'.Drawn
  advances : ∀ id, net.Advances setup net' id

section Steps

variable {setup : Setup} {net net' : Net} {id : FileId} {n : Nat} {transfer : Transfer} {env : StoreEnv}

theorem Net.Keeps.advances (h : net.Keeps setup net' id) : net.Advances setup net' id :=
  ⟨h.intact, .inl h.grown⟩

theorem Net.Intact.keeps (h : net.Intact setup id) : net.Keeps setup net id :=
  ⟨h, (idle_refl net.store id).grown⟩

theorem Net.Safe.evolves (h : net.Safe setup) : net.Evolves setup net :=
  ⟨h.exclusive, h.drawn, fun id => (h.intact id).keeps.advances⟩

theorem Net.Intact.idles (h : net.Intact setup id) (hidle : Idle id net.store net'.store)
    (htransfers : Follows id net.transfers net'.transfers) (hsettles : Settles id net net')
    (hputs : ∀ put ∈ net'.puts, put.id = id → put.live = true → put ∈ net.puts) :
    net.Keeps setup net' id :=
  ⟨h.frame hidle htransfers hsettles hputs, hidle.grown⟩

theorem Net.Intact.stops (h : net.Intact setup id) (htransfer : net.transfers[n]? = some transfer) :
    net.Keeps setup { net with transfers := net.transfers.set n transfer.stopped } id :=
  h.idles (idle_refl _ _) (follows_set htransfer fun _ => nofun)
    (settles_of (kin_set htransfer rfl rfl) (fun _ _ hcommit => hcommit) fun _ hleased => hleased)
    fun _ hmem _ _ => hmem

variable {lease : String} {rest : List (Nat × Bytes)}

theorem live_of_writing (h : transfer.phase = .writing lease rest) :
    transfer.live = true := by
  rw [Transfer.live, h]
  rfl

theorem Net.Exclusive.intact (h : net.Exclusive) (htransfer : net.transfers[n]? = some transfer)
    (hlive : transfer.live = true) {transfer' : Transfer}
    (htransfers : net'.transfers = net.transfers.set n transfer') (hputs : net'.puts = net.puts)
    (hmatched : net'.store.Matched setup transfer.id)
    (hpending : ∀ other, net'.Pending transfer.id other → net'.store.files.get? transfer.id ≠ none →
      ∀ chunk ∈ other.chunks, chunk.2.length ≤ chunkSize + chunkOverhead ∧
        ((net'.store.chunks transfer.id).get? chunk.1 ≠ none ∨
          net'.store.Holds transfer.id chunk.1 chunk.2))
    (hwriting : ∀ lease rest, transfer'.phase = .writing lease rest →
      Underway net'.store transfer' lease rest ∧ ∀ other, ¬net'.Pending transfer.id other) :
    net'.Intact setup transfer.id where
  matched := hmatched
  pending := hpending
  writing := by
    intro m other lease rest hother hid hphase
    rw [htransfers] at hother
    rcases System.lookup_set htransfer hother with ⟨rfl, rfl⟩ | ⟨hne, hsame⟩
    · exact hwriting lease rest hphase
    · refine absurd (h.transfers m n other transfer hsame htransfer (live_of_writing hphase) hlive ?_) hne
      rw [hid]
  putting := by
    intro put hmem hid hputLive
    rw [hputs] at hmem
    obtain ⟨p, hp⟩ := List.mem_iff_getElem?.mp hmem
    refine absurd ?_ (h.apart n p transfer put htransfer hp hlive hputLive)
    rw [hid]

variable {own : FileId} {touched : Nat → Prop} {st st' : Store}

theorem Rewritten.idle (h : Rewritten own touched st st') (hid : id ≠ own) : Idle id st st' :=
  ⟨by rw [h.files], by rw [h.chunks], h.others id hid, fun _ hlease => by rwa [h.leases] at hlease⟩

theorem Rewritten.grown (h : Rewritten id touched st st')
    (hnew : ∀ index, touched index → (st.chunks id).get? index = none) : Grown id st st' := by
  intro index digest hchunk
  refine ⟨by rw [h.chunks]; exact hchunk, by rw [h.files],
    fun content hsize hheld => h.held index content ?_ hsize hheld⟩
  intro htouched
  rw [hnew index htouched] at hchunk
  cases hchunk

theorem Rewritten.leased (h : Rewritten own touched st st') {token : String}
    (hleased : st'.Leased id token) : st.Leased id token := by
  rw [Store.Leased, h.leases] at hleased
  exact hleased

theorem Underway.write {chunk : Nat × Bytes} (h : Underway st transfer lease (chunk :: rest))
    (hwrite : Rewritten transfer.id (· = chunk.1) st st')
    (hheld : st'.Holds transfer.id chunk.1 chunk.2) {phase : Phase} :
    Underway st' { transfer with phase } lease rest := by
  refine ⟨h.distinct, h.sized, (List.sublist_cons_self _ _).trans h.planned, fun other hmem => ?_,
    fun hleased other hmem => ?_⟩
  · rw [hwrite.chunks]
    exact h.unindexed other (.tail _ hmem)
  · rw [hwrite.chunks]
    have hchunk : chunk ∈ transfer.chunks := h.planned.subset (.head _)
    by_cases hindex : other.1 = chunk.1
    · have hsame : other = chunk := List.inj_on_of_nodup_map h.distinct hmem hchunk hindex
      rw [hsame]
      exact .inr (.inr hheld)
    · rcases h.written (hwrite.leased hleased) other hmem with hrow | hrest | hother
      · exact .inl hrow
      · rcases List.mem_cons.mp hrest with rfl | hrest
        · exact absurd rfl hindex
        · exact .inr (.inl hrest)
      · exact .inr (.inr (hwrite.held _ _ hindex (h.sized other hmem) hother))

theorem write_lands (hexclusive : net.Exclusive) (h : ∀ id, net.Intact setup id)
    (htransfer : net.transfers[n]? = some transfer) {chunk : Nat × Bytes}
    (hphase : transfer.phase = .writing lease (chunk :: rest))
    (hwrite : Rewritten transfer.id (· = chunk.1) net.store st') {phase : Phase}
    (hnext : phase = .ended ∨ (phase = .writing lease rest ∧ st'.Holds transfer.id chunk.1 chunk.2))
    (id : FileId) : net.Keeps setup
      { net with store := st', transfers := net.transfers.set n { transfer with phase } } id := by
  by_cases hid : id = transfer.id
  · -- nobody else is at work on the file, and no commit for it is pending
    subst hid
    obtain ⟨hunderway, hquiet⟩ := (h transfer.id).writing n transfer lease _ htransfer rfl hphase
    have hnew : ∀ index, index = chunk.1 → (net.store.chunks transfer.id).get? index = none := by
      rintro _ rfl
      exact hunderway.unindexed chunk (.head _)
    have hsettles : Settles transfer.id net
        { net with store := st', transfers := net.transfers.set n { transfer with phase } } :=
      settles_of (kin_set htransfer rfl rfl) (fun _ _ hcommit => hcommit) fun _ => hwrite.leased
    have hquiet' := hsettles.quiet hquiet
    refine ⟨hexclusive.intact htransfer (live_of_writing hphase) rfl rfl
      (hwrite.matched hnew (h transfer.id).matched) (fun other hpending => absurd hpending (hquiet' other)) ?_,
      hwrite.grown hnew⟩
    intro lease' rest' hphase'
    rcases hnext with rfl | ⟨rfl, hheld⟩
    · cases hphase'
    · cases hphase'
      exact ⟨hunderway.write hwrite hheld, hquiet'⟩
  · exact (h id).idles (hwrite.idle hid) (follows_set htransfer fun hsame => absurd hsame.symm hid)
      (settles_of (kin_set htransfer rfl rfl) (fun _ _ hcommit => hcommit) fun _ => hwrite.leased)
      fun _ hmem _ _ => hmem

theorem write_cases (h : ∀ id, net.Intact setup id) (n : Nat) (env : StoreEnv) :
    net.write n env = net ∨ ∃ transfer lease chunk rest st' phase, net.transfers[n]? = some transfer ∧
      transfer.phase = .writing lease (chunk :: rest) ∧ Rewritten transfer.id (· = chunk.1) net.store st' ∧
      (phase = .ended ∨ (phase = .writing lease rest ∧ st'.Holds transfer.id chunk.1 chunk.2)) ∧
      net.write n env = { net with store := st', transfers := net.transfers.set n { transfer with phase } } := by
  unfold Net.write
  cases htransfer : net.transfers[n]? with
  | none => exact .inl rfl
  | some transfer =>
    dsimp only
    split
    · rename_i lease chunk rest hphase
      obtain ⟨hunderway, -⟩ := (h transfer.id).writing n transfer lease _ htransfer rfl hphase
      have hwp : wp (writeSlot transfer.id chunk.1 chunk.2) env net.store _ _ :=
        wp_writeSlot_rewritten (hunderway.sized chunk (hunderway.planned.subset (.head _)))
      split_ifs with hblob
      · split
        · rename_i st' hrun
          have hwrite := wp_ok hwp hrun
          exact .inr ⟨transfer, lease, chunk, rest, st', _, rfl, hphase, hwrite.1, .inr ⟨rfl, hwrite.2 hblob⟩, rfl⟩
        · rename_i st' hrun
          have hwrite := wp_error hwp hrun
          exact .inr ⟨transfer, lease, chunk, rest, st', _, rfl, hphase, hwrite, .inl rfl, rfl⟩
      · exact .inr ⟨transfer, lease, chunk, rest, net.store, _, rfl, hphase, rewritten_refl _, .inl rfl, rfl⟩
    · exact .inl rfl

theorem write_evolves (h : net.Safe setup) (n : Nat) (env : StoreEnv) : net.Evolves setup (net.write n env) := by
  rcases write_cases h.intact n env with
    hsame | ⟨transfer, lease, chunk, rest, st', phase, htransfer, hphase, hwrite, hphase', hnext⟩
  · rw [hsame]
    exact h.evolves
  rw [hnext]
  refine ⟨h.exclusive.frame (holders_set htransfer rfl rfl rfl fun _ => live_of_writing hphase),
    h.drawn.frame List.length_set.ge (fun _ _ hcommit => hcommit) (fun id found hfound => ?_)
      (fun m other lease' rest' hother hwriting => ?_) rfl,
    fun id => (write_lands h.exclusive h.intact htransfer hphase hwrite hphase' id).advances⟩
  · rw [← hwrite.leases]
    exact hfound
  · rcases System.lookup_set htransfer hother with ⟨rfl, rfl⟩ | ⟨-, hsame⟩
    · rcases hphase' with rfl | ⟨rfl, -⟩
      · cases hwriting
      · cases hwriting
        exact h.drawn.writing m transfer lease _ htransfer hphase
    · exact h.drawn.writing m other lease' rest' hsame hwriting

theorem Net.Drawn.unwriting (h : net.Drawn) {transfer' : Transfer} (htransfer : net.transfers[n]? = some transfer)
    (hno : ∀ lease rest, transfer'.phase ≠ .writing lease rest) (m : Nat) (other : Transfer) (lease : String)
    (rest : List (Nat × Bytes)) (hother : (net.transfers.set n transfer')[m]? = some other)
    (hphase : other.phase = .writing lease rest) : lease ∈ net.issued := by
  rcases System.lookup_set htransfer hother with ⟨rfl, rfl⟩ | ⟨-, hsame⟩
  · exact absurd hphase (hno lease rest)
  · exact h.writing m other lease rest hsame hphase

theorem giveUp_evolves (h : net.Safe setup) (n : Nat) : net.Evolves setup (net.giveUp n) := by
  unfold Net.giveUp
  cases htransfer : net.transfers[n]? with
  | none => exact h.evolves
  | some transfer =>
    exact ⟨h.exclusive.frame (holders_set htransfer rfl rfl rfl nofun),
      h.drawn.frame List.length_set.ge (fun _ _ hcommit => hcommit) (fun _ _ hlease => hlease)
        (h.drawn.unwriting htransfer nofun) rfl, fun id => ((h.intact id).stops htransfer).advances⟩

theorem idle_operate (error : StoreExn) (env : StoreEnv) (st : Store) :
    Idle id st (operate error env st).2 := by
  refine wp_final (p := Idle id st) ?_
  refine wp_operate (fun n => ?_) fun n => ?_
  · exact ⟨rfl, rfl, rfl, fun _ h => h⟩
  · exact ⟨rfl, rfl, rfl, fun _ h => h⟩

theorem commit_sent (hexclusive : net.Exclusive) (h : ∀ id, net.Intact setup id)
    (htransfer : net.transfers[n]? = some transfer) (hphase : transfer.phase = .writing lease [])
    (hidle : ∀ id, Idle id net.store st') (id : FileId) : net.Keeps setup
      { net with
        store := st'
        transfers := net.transfers.set n { transfer with phase := .committing lease }
        messages := net.messages ++ [.commit n lease] } id := by
  obtain ⟨hunderway, hquiet⟩ := (h transfer.id).writing n transfer lease _ htransfer rfl hphase
  have hsent : ∀ m token, Message.commit m token ∈ net.messages ++ [.commit n lease] →
      .commit m token ∈ net.messages ∨ (m = n ∧ token = lease) := by
    intro m token hcommit
    rcases List.mem_append.mp hcommit with hcommit | hcommit
    · exact .inl hcommit
    · cases List.mem_singleton.mp hcommit
      exact .inr ⟨rfl, rfl⟩
  have hkin : Kin id net.transfers (net.transfers.set n { transfer with phase := .committing lease }) :=
    kin_set htransfer rfl rfl
  by_cases hid : id = transfer.id
  · subst hid
    refine ⟨hexclusive.intact htransfer (live_of_writing hphase) rfl rfl
      ((hidle transfer.id).matched (h transfer.id).matched) ?_ nofun, (hidle transfer.id).grown⟩
    rintro other ⟨m, token, hcommit, hother, hother', hleased⟩ - chunk hmem
    have hleased' := (hidle transfer.id).leased hleased
    rcases hsent m token hcommit with hold | ⟨rfl, rfl⟩
    · obtain ⟨before, hbefore, hbeforeId, -⟩ := hkin m other hother hother'
      exact absurd ⟨m, token, hold, hbefore, hbeforeId, hleased'⟩ (hquiet before)
    · have hchunk : chunk ∈ transfer.chunks := by
        rcases System.lookup_set htransfer hother with ⟨-, rfl⟩ | ⟨hne, -⟩
        · exact hmem
        · exact absurd rfl hne
      refine ⟨hunderway.sized chunk hchunk, ?_⟩
      rw [(hidle transfer.id).chunks]
      rcases hunderway.written hleased' chunk hchunk with hrow | hrest | hheld
      · exact .inl hrow
      · cases hrest
      · exact .inr (hheld.congr (hidle transfer.id).blobs)
  · refine (h id).idles (hidle id) (follows_set htransfer fun _ => nofun) ?_ fun _ hmem _ _ => hmem
    rintro other ⟨m, token, hcommit, hother, hother', hleased⟩
    obtain ⟨before, hbefore, hbeforeId, hchunks⟩ := hkin m other hother hother'
    rcases hsent m token hcommit with hold | ⟨rfl, -⟩
    · exact ⟨before, ⟨m, token, hold, hbefore, hbeforeId, (hidle id).leased hleased⟩, hchunks⟩
    · rw [htransfer, Option.some.injEq] at hbefore
      rw [hbefore] at hid
      exact absurd hbeforeId.symm hid

theorem sync_cases (net : Net) (n : Nat) (env : StoreEnv) :
    net.sync n env = net ∨ ∃ transfer lease st', net.transfers[n]? = some transfer ∧
      transfer.phase = .writing lease [] ∧ (∀ id, Idle id net.store st') ∧
      (net.sync n env = { net with store := st', transfers := net.transfers.set n transfer.stopped } ∨
        net.sync n env = { net with
          store := st'
          transfers := net.transfers.set n { transfer with phase := .committing lease }
          messages := net.messages ++ [.commit n lease] }) := by
  unfold Net.sync
  cases htransfer : net.transfers[n]? with
  | none => exact .inl rfl
  | some transfer =>
    dsimp only
    split
    · rename_i lease hphase
      have hidle : ∀ id, Idle id net.store (operate .osError env net.store).2 :=
        fun id => idle_operate .osError env net.store
      split
      · rename_i st' hrun
        rw [hrun] at hidle
        exact .inr ⟨transfer, lease, st', rfl, hphase, hidle, .inr rfl⟩
      · rename_i st' hrun
        rw [hrun] at hidle
        exact .inr ⟨transfer, lease, st', rfl, hphase, hidle, .inl rfl⟩
    · exact .inl rfl

theorem sync_evolves (h : net.Safe setup) (n : Nat) (env : StoreEnv) : net.Evolves setup (net.sync n env) := by
  rcases sync_cases net n env with hsame | ⟨transfer, lease, st', htransfer, hphase, hidle, hnext | hnext⟩
  · rw [hsame]
    exact h.evolves
  · rw [hnext]
    refine ⟨h.exclusive.frame (holders_set htransfer rfl rfl rfl fun _ => live_of_writing hphase),
      h.drawn.frame List.length_set.ge (fun _ _ hcommit => hcommit) (fun id => (hidle id).leases)
        (h.drawn.unwriting htransfer nofun) rfl, fun id => Net.Keeps.advances ?_⟩
    exact (h.intact id).idles (hidle id) (follows_set htransfer fun _ => nofun)
      (settles_of (kin_set htransfer rfl rfl) (fun _ _ hcommit => hcommit) fun _ => (hidle id).leased)
      fun _ hmem _ _ => hmem
  · rw [hnext]
    refine ⟨h.exclusive.frame (holders_set htransfer rfl rfl rfl fun _ => live_of_writing hphase),
      ⟨fun m token hcommit => ?_,
        fun id found hfound => h.drawn.leases id found ((hidle id).leases found hfound),
        h.drawn.unwriting htransfer nofun⟩,
      fun id => (commit_sent h.exclusive h.intact htransfer hphase hidle id).advances⟩
    have hlength : (net.transfers.set n { transfer with phase := .committing lease }).length =
      net.transfers.length := List.length_set
    rw [hlength]
    rcases List.mem_append.mp hcommit with hcommit | hcommit
    · exact h.drawn.messages m token hcommit
    · cases List.mem_singleton.mp hcommit
      exact ⟨(List.getElem?_eq_some_iff.mp htransfer).1, h.drawn.writing n transfer lease [] htransfer hphase⟩

theorem start_keeps (hdrawn : net.Drawn) (h : net.Intact setup id) (user : String) (own : FileId)
    (chunks : List (Nat × Bytes)) : net.Keeps setup (net.start user own chunks) id := by
  refine h.idles (idle_refl _ _) ?_ ?_ fun _ hmem _ _ => hmem
  · intro n transfer lease rest htransfer hid hphase
    rcases System.lookup_push htransfer with ⟨-, rfl⟩ | ⟨-, hsame⟩
    · cases hphase
    · exact ⟨transfer, hsame, hid, rfl, hphase⟩
  · rintro transfer ⟨n, token, hcommit, htransfer, hid, hleased⟩
    have hsent : .commit n token ∈ net.messages := by
      rcases List.mem_append.mp hcommit with hcommit | hcommit
      · exact hcommit
      · cases List.mem_singleton.mp hcommit
    -- no commit has been sent for a transfer that has yet to begin
    rcases System.lookup_push htransfer with ⟨rfl, -⟩ | ⟨-, hsame⟩
    · exact absurd (hdrawn.messages _ token hsent).1 (lt_irrefl _)
    · exact ⟨transfer, ⟨n, token, hsent, hsame, hid, hleased⟩, rfl⟩

theorem start_exclusive (h : net.Exclusive) (hunlocked : net.Unlocked own) (user : String)
    (chunks : List (Nat × Bytes)) : (net.start user own chunks).Exclusive where
  transfers := by
    intro n m transfer other htransfer hother hlive hlive' hstripe
    rcases System.lookup_push htransfer with ⟨hn, rfl⟩ | ⟨-, hn⟩ <;>
      rcases System.lookup_push hother with ⟨hm, rfl⟩ | ⟨-, hm⟩
    · rw [hn, hm]
    · exact absurd hstripe.symm (hunlocked.transfers other (List.mem_of_getElem? hm) hlive')
    · exact absurd hstripe (hunlocked.transfers transfer (List.mem_of_getElem? hn) hlive)
    · exact h.transfers n m transfer other hn hm hlive hlive' hstripe
  puts := h.puts
  apart := by
    intro n p transfer put htransfer hput hlive hlive'
    rcases System.lookup_push htransfer with ⟨-, rfl⟩ | ⟨-, hn⟩
    · exact fun hstripe => hunlocked.puts put (List.mem_of_getElem? hput) hlive' hstripe.symm
    · exact h.apart n p transfer put hn hput hlive hlive'

theorem start_drawn (h : net.Drawn) (user : String) (own : FileId) (chunks : List (Nat × Bytes)) :
    (net.start user own chunks).Drawn := by
  refine h.frame ?_ (fun n token hcommit => ?_) (fun _ _ hlease => hlease)
    (fun n transfer lease rest htransfer hphase => ?_) rfl
  · rw [Net.start, List.length_append]
    exact Nat.le_add_right ..
  · rcases List.mem_append.mp hcommit with hcommit | hcommit
    · exact hcommit
    · cases List.mem_singleton.mp hcommit
  · rcases System.lookup_push htransfer with ⟨-, rfl⟩ | ⟨-, hsame⟩
    · cases hphase
    · exact h.writing n transfer lease rest hsame hphase

theorem start_evolves (h : net.Safe setup) (hunlocked : net.Unlocked own) (user : String)
    (chunks : List (Nat × Bytes)) : net.Evolves setup (net.start user own chunks) :=
  ⟨start_exclusive h.exclusive hunlocked user chunks, start_drawn h.drawn user own chunks,
    fun id => (start_keeps h.drawn (h.intact id) user own chunks).advances⟩

end Steps

/-! ### Messages -/

section Messages

variable {setup : Setup} {net net' : Net} {id : FileId} {n : Nat} {transfer : Transfer} {env : StoreEnv}

theorem answered_id (transfer : Transfer) (reply : Except StoreExn Reply) :
    (transfer.answered reply).id = transfer.id := by
  unfold Transfer.answered
  split
  · split
    · split_ifs <;> rfl
    · rfl
  · rfl
  · rfl

theorem answered_chunks (transfer : Transfer) (reply : Except StoreExn Reply) :
    (transfer.answered reply).chunks = transfer.chunks := by
  unfold Transfer.answered
  split
  · split
    · split_ifs <;> rfl
    · rfl
  · rfl
  · rfl

theorem answered_live {reply : Except StoreExn Reply} (h : (transfer.answered reply).live = true) :
    transfer.live = true := by
  cases hphase : transfer.phase with
  | ended =>
    unfold Transfer.answered at h
    rw [hphase] at h
    exact h
  | preparing => rw [Transfer.live, hphase]; rfl
  | writing lease rest => exact live_of_writing hphase
  | committing lease => rw [Transfer.live, hphase]; rfl

variable {lease : String}

/-- Whoever writes after an answer has been at the same place before, or has been granted a lease. -/
theorem answered_writing {reply : Except StoreExn Reply} {rest : List (Nat × Bytes)}
    (h : (transfer.answered reply).phase = .writing lease rest) :
    transfer.phase = .writing lease rest ∨
      ∃ write received, reply.toOption = some (.plan write received lease) ∧
        rest = planned write transfer.chunks := by
  unfold Transfer.answered at h
  split at h
  · split at h
    · split_ifs at h
      · cases h
        exact .inr ⟨_, _, rfl, rfl⟩
      · cases h
    · cases h
  · cases h
  · exact .inl h

theorem fileId?_eq_some {own : FileId} (h : fileId? (.str own) = some id) : idPattern own = true ∧ own = id := by
  rw [fileId?] at h
  split_ifs at h with hpattern
  exact ⟨hpattern, Option.some.inj h⟩

theorem request_id (message : Message) (transfer : Transfer) :
    (message.request setup transfer).get "id" = .str transfer.id := by
  cases message <;> rfl

theorem Net.Drawn.quiet (hdrawn : net.Drawn) (hfresh : env.token ∉ net.issued)
    (hmessages : ∀ n token, .commit n token ∈ net'.messages → .commit n token ∈ net.messages)
    (hlease : ∀ token, net'.store.Leased id token → token = env.token) (other : Transfer) :
    ¬net'.Pending id other := by
  rintro ⟨m, token, hcommit, -, -, hleased⟩
  have hdrawn' := (hdrawn.messages m token (hmessages m token hcommit)).2
  rw [hlease token hleased] at hdrawn'
  exact hfresh hdrawn'

variable {st st' : Store}

theorem Underway.released {rest : List (Nat × Bytes)} (h : Underway st transfer lease rest)
    (hchunks : st'.chunks = st.chunks) (hlease : ¬st'.Leased transfer.id lease) :
    Underway st' transfer lease rest := by
  refine ⟨h.distinct, h.sized, h.planned, fun chunk hmem => ?_, fun hleased => absurd hleased hlease⟩
  rw [hchunks]
  exact h.unindexed chunk hmem

variable {row : FileRow} {put : List Nat × Writes} {native : List Descriptor × List Nat}

theorem Tally.underway (h : Tally setup row (st.chunks transfer.id) transfer.chunks put native) :
    Underway st transfer lease (planned native.2 transfer.chunks) := by
  refine ⟨h.distinct, fun chunk hmem => (h.length chunk hmem).trans_le (chunkLength_le row _),
    List.filter_sublist, fun chunk hmem => ?_, fun _ chunk hmem => ?_⟩
  · rw [h.planned_eq] at hmem
    exact of_decide_eq_true (List.mem_filter.mp hmem).2
  · rw [h.planned_eq]
    by_cases hrow : (st.chunks transfer.id).get? chunk.1 = none
    · exact .inr (.inl (List.mem_filter.mpr ⟨hmem, decide_eq_true hrow⟩))
    · exact .inl hrow

/-- The state behind the execution of a message. -/
def Net.executed (net : Net) (k n : Nat) (env : StoreEnv) (result : Except StoreExn Reply × Store)
    (transfer : Transfer) : Net :=
  { net with
    store := result.2
    transfers := net.transfers.set n (transfer.answered result.1)
    messages := net.messages.eraseIdx k
    issued := env.token :: net.issued }

variable {k : Nat} {result : Except StoreExn Reply × Store}

theorem executed_sent {m : Nat} {token : String}
    (h : .commit m token ∈ (net.executed k n env result transfer).messages) : .commit m token ∈ net.messages :=
  List.mem_of_mem_eraseIdx h

theorem executed_idle (h : net.Intact setup id) (htransfer : net.transfers[n]? = some transfer)
    (hidle : Idle id net.store result.2)
    (hno : transfer.id = id → ∀ write received lease, result.1.toOption ≠ some (.plan write received lease)) :
    net.Keeps setup (net.executed k n env result transfer) id := by
  refine h.idles hidle (follows_set htransfer fun hid lease rest hphase => ?_)
    (settles_of (kin_set htransfer (answered_id _ _).symm (answered_chunks _ _).symm) (fun _ _ => executed_sent)
      fun _ => hidle.leased) fun _ hmem _ _ => hmem
  rw [answered_id] at hid
  rcases answered_writing hphase with hbefore | ⟨write, received, hplan, -⟩
  · exact ⟨hid, (answered_chunks _ _).symm, hbefore⟩
  · exact absurd hplan (hno hid write received lease)

theorem executed_plan (hdigest : setup.Hex) (hdrawn : net.Drawn)
    (hfresh : env.token ∉ net.issued) (h : net.Intact setup transfer.id)
    (htransfer : net.transfers[n]? = some transfer) {write received : List Nat}
    (houtcome : NativeOutcome env transfer.user (nativeRequest setup "prepare" transfer.id transfer.chunks "")
      net.store (some (.plan write received lease)) result.2)
    (hreply : result.1.toOption = some (.plan write received lease)) :
    net.Keeps setup (net.executed k n env result transfer) transfer.id := by
  obtain ⟨htoken, _, _, _, haccepted, -⟩ := houtcome.of_plan
  have hid : idPattern transfer.id = true := (fileId?_eq_some haccepted.named).1
  obtain ⟨row, put, native, hadmitted, hstore⟩ := admitted_of_plan hdigest hid houtcome
  have hchunks : result.2.chunks = net.store.chunks := by rw [hstore]; rfl
  -- apart from the leases nothing has changed
  have hidle : ∀ id, Idle id net.store { result.2 with nativeWrites := ∅ } := by
    intro id
    rw [hstore]
    exact ⟨rfl, rfl, rfl, nofun⟩
  have hleased : ∀ token, result.2.Leased transfer.id token → token = env.token := by
    rintro token ⟨found, hfound, rfl⟩
    rw [hstore, Store.leased] at hfound
    dsimp only at hfound
    rw [Dict.get?_set_self, Option.some.injEq] at hfound
    rw [← hfound]
    rfl
  have hquiet : ∀ other, ¬(net.executed k n env result transfer).Pending transfer.id other :=
    hdrawn.quiet hfresh (fun _ _ => executed_sent) hleased
  -- those who have been writing have lost their lease
  have hold : ∀ (m : Nat) (other : Transfer) lease rest, net.transfers[m]? = some other →
      other.id = transfer.id → other.phase = .writing lease rest → Underway result.2 other lease rest := by
    intro m other lease rest hother hother' hphase
    refine (h.writing m other lease rest hother hother' hphase).1.released hchunks fun hfound => ?_
    rw [hother'] at hfound
    have hused := hdrawn.writing m other lease rest hother hphase
    rw [hleased lease hfound] at hused
    exact hfresh hused
  refine ⟨⟨(hidle transfer.id).matched h.matched, fun other hpending => absurd hpending (hquiet other), ?_, ?_⟩,
    (hidle transfer.id).grown⟩
  · intro m other lease' rest hother hother' hphase
    refine ⟨?_, hquiet⟩
    rcases System.lookup_set htransfer hother with ⟨rfl, rfl⟩ | ⟨-, hsame⟩
    · rcases answered_writing hphase with hbefore | ⟨write', received', hplan, rfl⟩
      · exact (hold m transfer lease' rest htransfer rfl hbefore).congr (answered_id _ _).symm
          (answered_chunks _ _).symm
      · rw [hreply] at hplan
        cases hplan
        have htally := hadmitted.tally
        rw [← hchunks] at htally
        exact htally.underway.congr (answered_id _ _).symm (answered_chunks _ _).symm
    · exact hold m other lease' rest hsame hother' hphase
  · intro put' hmem hput hlive
    have hkept := (hidle put'.id).putting (h.putting put' hmem hput hlive)
    exact ⟨hkept.row, hkept.fits, hkept.rest, hkept.written⟩

variable {chunks : List (Nat × Bytes)}

theorem Tally.fits {stored : Dict Nat Digest} (h : Tally setup row stored chunks put native) :
    put.2.Fits setup row := by
  intro found hfound
  rw [h.entries] at hfound
  obtain ⟨chunk, hchunk, rfl⟩ := List.mem_map.mp hfound
  exact ⟨h.length chunk (List.mem_filter.mp hchunk).1, rfl⟩

theorem Tally.get?_of_stored {stored : Dict Nat Digest} (h : Tally setup row stored chunks put native)
    {index : Nat} (hindex : stored.get? index ≠ none) :
    put.2.get? index = none := by
  by_contra hsome
  obtain ⟨value, hvalue⟩ := Option.ne_none_iff_exists'.mp hsome
  have hmem := (put.2.mem_entries_iff index value).mpr hvalue
  exact hindex (h.fresh_keys index (List.mem_map_of_mem hmem))

theorem get_lease_nil {op : String} :
    (nativeRequest setup op id chunks "").get "lease" = .null := by
  rw [nativeRequest, if_pos rfl]
  split_ifs <;> rfl

theorem leased_of_admits {found : Lease} {now : Nanos} {binding : Binding}
    (hfound : st.nativeWrites.get? id = some found)
    (hadmits : found.admits ((nativeRequest setup "commit" id chunks lease).get "lease") now binding = true) :
    st.Leased id lease := by
  rw [Lease.admits, Bool.and_eq_true, Bool.and_eq_true] at hadmits
  have htoken := of_decide_eq_true hadmits.1.1
  by_cases hlease : lease = ""
  · rw [hlease, get_lease_nil] at htoken
    cases htoken
  · rw [get_lease hlease] at htoken
    exact ⟨found, hfound, (Option.some.inj htoken).symm⟩

theorem executed_commit (hdigest : setup.Hex)
    (h : net.Intact setup transfer.id) (htransfer : net.transfers[n]? = some transfer)
    (hcommit : .commit n lease ∈ net.messages) {chunks : List Descriptor} {new : List Nat}
    {found : Lease} {c : Nat}
    (haccepted : Accepted env transfer.user (nativeRequest setup "commit" transfer.id transfer.chunks lease)
      net.store "commit" transfer.id row chunks new)
    (hfound : net.store.nativeWrites.get? transfer.id = some found)
    (hadmits : found.admits ((nativeRequest setup "commit" transfer.id transfer.chunks lease).get "lease")
      env.monotonic (row.binding chunks) = true)
    (hreply : ∀ write received lease, result.1.toOption ≠ some (.plan write received lease))
    (hstore : result.2 = net.store.committed transfer.id (chunks.filter fun chunk => chunk.index ∈ new) c) :
    net.Keeps setup (net.executed k n env result transfer) transfer.id := by
  have hrow := haccepted.uploads.stored
  have hpending : net.Pending transfer.id transfer :=
    ⟨n, lease, hcommit, htransfer, rfl, leased_of_admits hfound hadmits⟩
  have hheld := h.pending transfer hpending (by rw [hrow]; exact fun h => by cases h)
  obtain ⟨put, -, -, htally⟩ := tally_of_parsed hdigest haccepted.parsed
  have hchunks : result.2.chunks transfer.id = put.2.addTo (net.store.chunks transfer.id) := by
    rw [hstore, Store.committed, htally.addTo_eq]
    exact Function.update_self ..
  have hblobs : result.2.blobs = net.store.blobs := by rw [hstore]; rfl
  have hfiles : result.2.files = net.store.files := by rw [hstore]; rfl
  have hquiet : ∀ other, ¬(net.executed k n env result transfer).Pending transfer.id other := by
    rintro other ⟨m, token, -, -, -, _, hlease, -⟩
    rw [Net.executed, hstore, Store.committed] at hlease
    dsimp only at hlease
    rw [Dict.get?_erase_self] at hlease
    cases hlease
  have hmatched : result.2.Matched setup transfer.id := by
    have hindexed := h.matched.indexed hrow htally.fits (fun entry hentry => ?_) c
    · have hadded : (net.store.indexed transfer.id put.2 c).chunks transfer.id =
          put.2.addTo (net.store.chunks transfer.id) := Function.update_self ..
      rw [Store.Matched, hadded] at hindexed
      rw [Store.Matched, hchunks, hblobs, hfiles]
      exact hindexed
    · -- a chunk without a row has been written
      rw [htally.entries] at hentry
      obtain ⟨chunk, hchunk, rfl⟩ := List.mem_map.mp hentry
      obtain ⟨hmem, hnone⟩ := List.mem_filter.mp hchunk
      exact (hheld chunk hmem).2.resolve_left (not_not_intro (of_decide_eq_true hnone))
  refine ⟨⟨hmatched, fun other hother => absurd hother (hquiet other), ?_, ?_⟩, ?_⟩
  · -- nobody can be writing while the commit is pending
    intro m other lease' rest hother hother' hphase
    rcases System.lookup_set htransfer hother with ⟨rfl, rfl⟩ | ⟨-, hsame⟩
    · rcases answered_writing hphase with hbefore | ⟨write, received, hplan, -⟩
      · exact absurd hpending ((h.writing m transfer lease' rest htransfer rfl hbefore).2 transfer)
      · exact absurd hplan (hreply write received lease')
    · exact absurd hpending ((h.writing m other lease' rest hsame hother' hphase).2 transfer)
  · intro put' hmem hput hlive
    obtain ⟨hsize, hfits, hrest, hwritten⟩ := h.putting put' hmem hput hlive
    refine ⟨?_, hfits, hrest, fun entry hentry => (hwritten entry hentry).imp_right fun hheld => ?_⟩
    · exact (congrArg (fun files : FileTable => (files.get? put'.id).map FileRow.size) hfiles).trans hsize
    · exact hheld.congr (congrFun hblobs _)
  · intro index digest hchunk
    refine ⟨?_, congrArg (fun files : FileTable => (files.get? transfer.id).map FileRow.size) hfiles,
      fun content _ hheld => hheld.congr (congrFun hblobs _)⟩
    change (result.2.chunks transfer.id).get? index = some digest
    rw [hchunks, Writes.get?_addTo, htally.get?_of_stored (by rw [hchunk]; exact fun h => by cases h)]
    exact hchunk

theorem Message.request_commit (n : Nat) (lease : String) (transfer : Transfer) :
    (Message.commit n lease).request setup transfer =
      nativeRequest setup "commit" transfer.id transfer.chunks lease := rfl

theorem executed_own (hdigest : setup.Hex) (hdrawn : net.Drawn)
    (hfresh : env.token ∉ net.issued) {message : Message} (hmessage : message ∈ net.messages)
    (htransfer : net.transfers[message.number]? = some transfer) (h : net.Intact setup transfer.id)
    (houtcome : NativeOutcome env transfer.user (message.request setup transfer) net.store
      result.1.toOption result.2) :
    net.Keeps setup (net.executed k message.number env result transfer) transfer.id := by
  obtain ⟨reply, st'⟩ := result
  dsimp only at houtcome
  generalize hoption : reply.toOption = option at houtcome
  cases houtcome with
  | unchanged c hno =>
    refine executed_idle h htransfer ⟨rfl, rfl, rfl, fun _ hlease => hlease⟩ fun _ => ?_
    rw [hoption]
    exact hno
  | purged =>
    refine executed_idle h htransfer ⟨rfl, rfl, rfl, purged_leases _ _⟩ fun _ => ?_
    rw [hoption]
    exact nofun
  | prepared haccepted =>
    cases message with
    | prepare m => exact executed_plan hdigest hdrawn hfresh h htransfer (.prepared haccepted) hoption
    | commit m lease =>
      have hasked := haccepted.asked
      rw [Message.request_commit, get_op] at hasked
      exact absurd (Option.some.inj hasked) (by decide)
  | committed c haccepted hfound hadmits =>
    cases message with
    | prepare m =>
      have hasked := haccepted.asked
      rw [Message.request, get_op] at hasked
      exact absurd (Option.some.inj hasked) (by decide)
    | commit m lease =>
      obtain rfl := (fileId?_eq_some haccepted.named).2
      refine executed_commit hdigest h htransfer hmessage haccepted hfound hadmits ?_ rfl
      rw [hoption]
      exact nofun

theorem execute_eq {message : Message} (hmessage : net.messages[k]? = some message)
    (htransfer : net.transfers[message.number]? = some transfer) :
    net.execute setup k env = net.executed k message.number env
      (nativeFileRequest transfer.user (message.request setup transfer) env net.store) transfer := by
  rw [Net.execute, hmessage]
  dsimp only
  rw [htransfer]
  rfl

theorem execute_cases (setup : Setup) (net : Net) (k : Nat) (env : StoreEnv) :
    net.execute setup k env = net ∨ ∃ message transfer result, message ∈ net.messages ∧
      net.transfers[message.number]? = some transfer ∧
      NativeOutcome env transfer.user (message.request setup transfer) net.store result.1.toOption result.2 ∧
      net.execute setup k env = net.executed k message.number env result transfer := by
  cases hmessage : net.messages[k]? with
  | none =>
    rw [Net.execute, hmessage]
    exact .inl rfl
  | some message =>
    cases htransfer : net.transfers[message.number]? with
    | none =>
      rw [Net.execute, hmessage]
      dsimp only
      rw [htransfer]
      exact .inl rfl
    | some transfer =>
      exact .inr ⟨message, transfer, _, List.mem_of_getElem? hmessage, htransfer,
        wp_outcome comes_nativeFileRequest, execute_eq hmessage htransfer⟩

theorem execute_keeps (hdigest : setup.Hex) (hdrawn : net.Drawn)
    (hfresh : env.token ∉ net.issued) (h : net.Intact setup id) (k : Nat) :
    net.Keeps setup (net.execute setup k env) id := by
  rcases execute_cases setup net k env with hsame | ⟨message, transfer, result, hmessage, htransfer, houtcome, hnext⟩
  · rw [hsame]
    exact h.keeps
  · rw [hnext]
    by_cases hid : transfer.id = id
    · subst hid
      exact executed_own hdigest hdrawn hfresh hmessage htransfer h houtcome
    · refine executed_idle h htransfer (houtcome.idle fun hnamed => ?_) fun hsame => absurd hsame hid
      rw [request_id] at hnamed
      exact hid (fileId?_eq_some hnamed).2

theorem execute_holders (setup : Setup) (net : Net) (k : Nat) (env : StoreEnv) :
    Holders net (net.execute setup k env) := by
  rcases execute_cases setup net k env with hsame | ⟨message, transfer, result, -, htransfer, -, hnext⟩
  · rw [hsame]
    exact holders_same rfl rfl
  · rw [hnext]
    exact holders_set htransfer rfl rfl (answered_id _ _).symm answered_live

theorem NativeOutcome.leases {user : String} {data : Json} {reply : Option Reply}
    (h : NativeOutcome env user data st reply st') {lease : Lease}
    (hlease : st'.nativeWrites.get? id = some lease) :
    st.nativeWrites.get? id = some lease ∨ lease.token = env.token := by
  cases h with
  | unchanged c _ => exact .inl hlease
  | purged => exact .inl (purged_leases _ _ _ hlease)
  | prepared haccepted =>
    rename_i own row chunks new
    dsimp only [Store.leased] at hlease
    by_cases hid : own = id
    · subst hid
      rw [Dict.get?_set_self] at hlease
      cases hlease
      exact .inr rfl
    · rw [Dict.get?_set_of_ne _ _ hid] at hlease
      exact .inl (purged_leases _ _ _ hlease)
  | committed c _ _ _ =>
    rename_i own _ _ _ _ _ _ _
    dsimp only [Store.committed] at hlease
    by_cases hid : own = id
    · subst hid
      rw [Dict.get?_erase_self] at hlease
      cases hlease
    · rw [Dict.get?_erase_of_ne _ hid] at hlease
      exact .inl hlease

theorem execute_issued {token : String} (h : token ∈ (net.execute setup k env).issued) :
    token = env.token ∨ token ∈ net.issued := by
  rcases execute_cases setup net k env with hsame | ⟨message, transfer, result, -, -, -, hnext⟩
  · rw [hsame] at h
    exact .inr h
  · rw [hnext] at h
    exact List.mem_cons.mp h

theorem execute_drawn (h : net.Drawn) (k : Nat) (env : StoreEnv) : (net.execute setup k env).Drawn := by
  rcases execute_cases setup net k env with hsame | ⟨message, transfer, result, -, htransfer, houtcome, hnext⟩
  · rw [hsame]
    exact h
  · rw [hnext]
    refine ⟨fun m lease hcommit => ?_, fun own lease hlease => ?_, fun m other lease rest hother hphase => ?_⟩
    · obtain ⟨hlt, hdrawn⟩ := h.messages m lease (executed_sent hcommit)
      exact ⟨hlt.trans_eq List.length_set.symm, .tail _ hdrawn⟩
    · rcases houtcome.leases hlease with hbefore | htoken
      · exact .tail _ (h.leases own lease hbefore)
      · rw [htoken]
        exact .head _
    · rcases System.lookup_set htransfer hother with ⟨rfl, rfl⟩ | ⟨-, hsame⟩
      · rcases answered_writing hphase with hbefore | ⟨write, received, hplan, -⟩
        · exact .tail _ (h.writing _ transfer lease rest htransfer hbefore)
        · rw [hplan] at houtcome
          rw [houtcome.of_plan.1]
          exact .head _
      · exact .tail _ (h.writing m other lease rest hsame hphase)

end Messages

end CallBackend.Files
