import CallBackend.Files.Effect

/-!
# Resuming an upload

`status` lists the chunks that are there, a page at a time: the reply names the index at which the
next page begins, unless this page is the last. The owner of an upload who follows the pages from the
first sees every chunk that was there at the beginning once, in order, whatever is committed between
two pages.
-/

namespace CallBackend.Files

open Exec

def statusRequest (id : FileId) (start : Nat) : Json :=
  .obj [("op", .str "status"), ("id", .str id), ("start", .int start)]

/-- Asks for a page and, as long as there is one, for the next; each request finds the store and the
clock as they are then. The pages, if every request is served. -/
def resume (user : String) (id : FileId) (envs : Nat → StoreEnv) (stores : Nat → Store) :
    Nat → Nat → Nat → Option (List (List Nat))
  | 0, _, _ => none
  | fuel + 1, page, start =>
    match (fileRequest user id (statusRequest id start) (envs page) (stores page)).1 with
    | .ok (.status received none) => some [received]
    | .ok (.status received (some next)) =>
      (resume user id envs stores fuel (page + 1) next).map (received :: ·)
    | _ => none

/-- Someone asks for the status of their own file of this size, which has not expired, and no database
operation fails. -/
structure Served (user : String) (id : FileId) (size : Nat) (env : StoreEnv) (st : Store) : Prop where
  pattern : idPattern id = true
  stored : ∃ row, st.files.get? id = some row ∧ row.owner = user ∧ row.size = size ∧
    row.state ≠ .deleted ∧ row.lapsed env.now = false
  faultless : env.Faultless

def countOf (size : Nat) : Nat := max 1 ((size + (chunkSize - 1)) / chunkSize)

/-! ### One page -/

section Page

variable {user : String} {id : FileId} {size start : Nat} {env : StoreEnv} {st : Store}

def Store.indicesFrom (st : Store) (id : FileId) (start : Nat) : List Nat :=
  ((st.chunks id).keys.filter fun index => decide (start ≤ index)).insertionSort (· ≤ ·)

theorem mem_indicesFrom {index : Nat} :
    index ∈ st.indicesFrom id start ↔ index ∈ (st.chunks id).keys ∧ start ≤ index := by
  rw [Store.indicesFrom, List.mem_insertionSort, List.mem_filter, decide_eq_true_eq]

theorem indicesFrom_increasing (st : Store) (id : FileId) (start : Nat) :
    (st.indicesFrom id start).Pairwise (· < ·) := by
  have hsorted : (st.indicesFrom id start).Pairwise (· ≤ ·) := List.pairwise_insertionSort _ _
  have hdistinct : (st.indicesFrom id start).Nodup :=
    (List.perm_insertionSort _ _).nodup_iff.mpr ((st.chunks id).nodup.filter _)
  exact (hsorted.and hdistinct).imp fun h => lt_of_le_of_ne h.1 h.2

theorem fileRequest_status (h : Served user id size env st) (hstart : start ≤ countOf size) :
    (fileRequest user id (statusRequest id start) env st).1 =
      .ok (statusPage ((st.indicesFrom id start).take 4097)) := by
  obtain ⟨row, hrow, howner, hsize, hstate, hlive⟩ := h.stored
  have hcount : row.count = countOf size := by rw [FileRow.count, hsize]; rfl
  have hinteger : integer (.int start) 0 row.count = .ok start := by
    rw [integer, if_pos ⟨Int.natCast_nonneg start, by rw [hcount]; exact_mod_cast hstart⟩,
      Int.toNat_natCast]
  have hserved : wp (fileRequest user id (statusRequest id start)) env st
      (fun reply _ => reply = statusPage ((st.indicesFrom id start).take 4097)) fun _ _ => False := by
    rw [fileRequest, wp_bind]
    refine wp_row_stored h.pattern hrow hstate ?_
    have hop : ((statusRequest id start).get "op").text? = some "status" := rfl
    dsimp only
    rw [hop, if_neg fun hforeign => hforeign.2.2 howner, if_neg (by decide), wp_bind]
    refine wp_transaction_faultless h.faultless ?_
    rw [operation, wp_bind]
    refine wp_row_stored h.pattern hrow hstate ?_
    rw [if_neg (by decide)]
    rw [wp_bind, wp_ask]
    dsimp only
    rw [hlive, if_neg Bool.false_ne_true, if_pos rfl, wp_bind, status, wp_bind, wp_lift]
    have hdata : (statusRequest id start).find? "start" = some (.int start) := rfl
    rw [hdata, Option.getD_some, hinteger]
    refine ⟨?_, fun _ h => by cases h⟩
    rintro _ ⟨⟩
    exact rfl
  obtain ⟨reply, st', hrun, rfl⟩ := wp_total hserved
  rw [hrun]

theorem statusPage_take (indices : List Nat) :
    statusPage (indices.take 4097) =
      .status (indices.take 4096) (if h : 4096 < indices.length then some (indices[4095] + 1) else none) := by
  rw [statusPage, List.take_take, List.length_take]
  by_cases hmore : 4096 < indices.length
  · rw [if_pos (by omega), dif_pos hmore, List.getElem?_take_of_lt (by decide),
      List.getElem?_eq_getElem (by omega)]
    rfl
  · rw [if_neg (by omega), dif_neg hmore]
    rfl

end Page

/-! ### All pages -/

section Pages

variable {user : String} {id : FileId} {size : Nat} {envs : Nat → StoreEnv} {stores : Nat → Store}

/-- An upload that goes on while its pages are read: chunks are added, none is lost. -/
structure Ongoing (user : String) (id : FileId) (size : Nat) (envs : Nat → StoreEnv)
    (stores : Nat → Store) : Prop where
  served : ∀ page, Served user id size (envs page) (stores page)
  inRange : ∀ page, ∀ index ∈ ((stores page).chunks id).keys, index < countOf size
  grows : ∀ page, ((stores page).chunks id).keys ⊆ ((stores (page + 1)).chunks id).keys

theorem le_getElem_of_mem_take {indices : List Nat} (h : indices.Pairwise (· < ·)) {n : Nat}
    (hn : n < indices.length) {index : Nat} (hmem : index ∈ indices.take (n + 1)) :
    index ≤ indices[n] := by
  obtain ⟨i, hi, rfl⟩ := List.mem_iff_getElem.mp hmem
  rw [List.length_take] at hi
  rw [List.getElem_take]
  rcases Nat.lt_or_ge i n with hlt | hge
  · exact Nat.le_of_lt (List.pairwise_iff_getElem.mp h i n (by omega) hn hlt)
  · have heq : i = n := by omega
    subst heq
    exact Nat.le_refl _

theorem add_le_getElem {indices : List Nat} (h : indices.Pairwise (· < ·)) {start : Nat}
    (hstart : ∀ index ∈ indices, start ≤ index) {n : Nat} (hn : n < indices.length) :
    start + n ≤ indices[n] := by
  induction n with
  | zero => exact hstart _ (List.getElem_mem hn)
  | succ n ih =>
    have hlt := List.pairwise_iff_getElem.mp h n (n + 1) (by omega) hn (Nat.lt_succ_self n)
    have hprev := ih (by omega)
    omega

/-- From any page on: every request is served, the indices increase, and none that was there is
missed. -/
theorem resume_from (h : Ongoing user id size envs stores) (page fuel : Nat) {start : Nat}
    (hstart : start ≤ countOf size) (hfuel : countOf size < start + fuel) :
    ∃ pages, resume user id envs stores fuel page start = some pages ∧
      pages.flatten.Pairwise (· < ·) ∧ (∀ index ∈ pages.flatten, start ≤ index) ∧
      (∀ index ∈ pages.flatten, ∃ later, index ∈ ((stores later).chunks id).keys) ∧
      ∀ index ∈ ((stores page).chunks id).keys, start ≤ index → index ∈ pages.flatten := by
  induction fuel generalizing page start with
  | zero => omega
  | succ fuel ih =>
    have hincreasing := indicesFrom_increasing (stores page) id start
    have hmem : ∀ index, index ∈ (stores page).indicesFrom id start ↔
        index ∈ ((stores page).chunks id).keys ∧ start ≤ index := fun index => mem_indicesFrom
    rw [resume, fileRequest_status (h.served page) hstart, statusPage_take]
    by_cases hmore : 4096 < ((stores page).indicesFrom id start).length
    · rw [dif_pos hmore]
      dsimp only
      -- the last index of the page is in range, so the next start is
      have hlast : ((stores page).indicesFrom id start)[4095] < countOf size :=
        h.inRange page _ ((hmem _).mp (List.getElem_mem (by omega))).1
      have hreach : start + 4095 ≤ ((stores page).indicesFrom id start)[4095] :=
        add_le_getElem hincreasing (fun index hin => ((hmem index).mp hin).2) (by omega)
      have hbefore : ∀ index ∈ ((stores page).indicesFrom id start).take 4096,
          index ≤ ((stores page).indicesFrom id start)[4095] :=
        fun index hin => le_getElem_of_mem_take hincreasing (by omega) hin
      obtain ⟨pages, hresume, hpages, hlow, hsource, hall⟩ :=
        @ih (page + 1) (((stores page).indicesFrom id start)[4095] + 1) (by omega) (by omega)
      refine ⟨_ :: pages, by rw [hresume]; rfl, ?_, ?_, ?_, ?_⟩
      · rw [List.flatten_cons, List.pairwise_append]
        refine ⟨hincreasing.sublist (List.take_sublist _ _), hpages, fun first hfirst second hsecond => ?_⟩
        have hle := hbefore first hfirst
        have hge := hlow second hsecond
        omega
      · intro index hin
        rw [List.flatten_cons, List.mem_append] at hin
        rcases hin with hin | hin
        · exact ((hmem index).mp (List.mem_of_mem_take hin)).2
        · have hge := hlow index hin
          omega
      · intro index hin
        rw [List.flatten_cons, List.mem_append] at hin
        rcases hin with hin | hin
        · exact ⟨page, ((hmem index).mp (List.mem_of_mem_take hin)).1⟩
        · exact hsource index hin
      · intro index hin hge
        rw [List.flatten_cons, List.mem_append]
        by_cases hlater : ((stores page).indicesFrom id start)[4095] + 1 ≤ index
        · exact .inr (hall index (h.grows page hin) hlater)
        · -- what is not behind the page is on it
          left
          obtain ⟨i, hi, rfl⟩ := List.mem_iff_getElem.mp ((hmem index).mpr ⟨hin, hge⟩)
          have hi' : i < 4096 := by
            by_contra hbig
            have hlt := List.pairwise_iff_getElem.mp hincreasing 4095 i (by omega) hi (by omega)
            omega
          rw [List.mem_take_iff_getElem]
          exact ⟨i, by omega, rfl⟩
    · rw [dif_neg hmore]
      have hwhole : ((stores page).indicesFrom id start).take 4096 = (stores page).indicesFrom id start :=
        List.take_of_length_le (by omega)
      refine ⟨[(stores page).indicesFrom id start], by rw [hwhole], ?_, ?_, ?_, ?_⟩
      · rw [List.flatten_singleton]
        exact hincreasing
      · intro index hin
        rw [List.flatten_singleton] at hin
        exact ((hmem index).mp hin).2
      · intro index hin
        rw [List.flatten_singleton] at hin
        exact ⟨page, ((hmem index).mp hin).1⟩
      · intro index hin hge
        rw [List.flatten_singleton]
        exact (hmem index).mpr ⟨hin, hge⟩

/-- Following the pages from the first ends, every request being served. The indices increase, so that
none comes twice; all that were there before the first page are listed, and nothing that is never
there. If nothing is committed meanwhile, they are the indices of the chunks. -/
theorem resume_lists_committed (h : Ongoing user id size envs stores) :
    ∃ pages, resume user id envs stores (countOf size + 1) 0 0 = some pages ∧
      pages.flatten.Pairwise (· < ·) ∧
      (∀ index ∈ ((stores 0).chunks id).keys, index ∈ pages.flatten) ∧
      (∀ index ∈ pages.flatten, ∃ page, index ∈ ((stores page).chunks id).keys) ∧
      ((∀ page, (stores page).chunks id = (stores 0).chunks id) →
        pages.flatten = ((stores 0).chunks id).keys.insertionSort (· ≤ ·)) := by
  obtain ⟨pages, hresume, hpages, -, hsource, hall⟩ :=
    resume_from h 0 (countOf size + 1) (Nat.zero_le _) (by omega)
  refine ⟨pages, hresume, hpages, fun index hin => hall index hin (Nat.zero_le _), hsource, ?_⟩
  intro hsame
  have hsorted : pages.flatten.Pairwise (· ≤ ·) := hpages.imp Nat.le_of_lt
  have hperm : pages.flatten.Perm (((stores 0).chunks id).keys.insertionSort (· ≤ ·)) := by
    refine ((List.perm_ext_iff_of_nodup (hpages.imp Nat.ne_of_lt) ((stores 0).chunks id).nodup).mpr
      fun index => ⟨fun hin => ?_, fun hin => hall index hin (Nat.zero_le _)⟩).trans
        (List.perm_insertionSort _ _).symm
    obtain ⟨page, hkey⟩ := hsource index hin
    rwa [hsame page] at hkey
  exact hperm.eq_of_pairwise (fun _ _ _ _ => Nat.le_antisymm) hsorted (List.pairwise_insertionSort _ _)

end Pages

namespace Sample

def resumedId : FileId := "0123456789abcdef0123456789abcdef"

/-- The first chunks of a file are there. -/
def resumed (count : Nat) : Store where
  files := (∅ : FileTable).set resumedId ⟨"alice", 134250496, 100, 0, .uploading, "", ""⟩
  chunks := Function.update (fun _ => ∅) resumedId
    ⟨(List.range count).map (·, ""), by simp [List.nodup_range, Function.comp_def]⟩

theorem keys_resumed (count : Nat) : ((resumed count).chunks resumedId).keys = List.range count := by
  simp [resumed, Dict.keys, Function.comp_def]

def resumedEnv : StoreEnv := ⟨seconds 1, 0, "", fun _ => true, fun _ => 0⟩

theorem indicesFrom_resumed (count : Nat) : (resumed count).indicesFrom resumedId 0 = List.range count := by
  rw [Store.indicesFrom, keys_resumed, List.filter_eq_self.2 fun _ _ => decide_eq_true (Nat.zero_le _)]
  exact List.pairwise_le_range.insertionSort_eq

theorem ongoing_resumed {count : Nat} (h : count ≤ 4097) :
    Ongoing "alice" resumedId 134250496 (fun _ => resumedEnv) (fun _ => resumed count) := by
  refine ⟨fun _ => ⟨by decide +kernel, ⟨_, rfl, by decide +kernel⟩, fun _ => rfl⟩, fun _ index hin => ?_,
    fun _ => List.Subset.refl _⟩
  rw [keys_resumed, List.mem_range] at hin
  exact hin.trans_le h

theorem fileRequest_resumed {count : Nat} (h : count ≤ 4097) (hmore : 4096 < count) :
    (fileRequest "alice" resumedId (statusRequest resumedId 0) resumedEnv (resumed count)).1 =
      .ok (.status (List.range 4096) (some 4096)) := by
  have hlength : 4096 < ((resumed count).indicesFrom resumedId 0).length := by
    rwa [indicesFrom_resumed, List.length_range]
  rw [fileRequest_status ((ongoing_resumed h).served 0) (Nat.zero_le _), statusPage_take, dif_pos hlength]
  simp only [indicesFrom_resumed, List.take_range, List.getElem_range, min_eq_left hmore.le]

theorem flatten_behind {n : Nat} {rest : List (List Nat)}
    (h : (List.range n :: rest).flatten = List.range (n + 1)) : rest.flatten = [n] := by
  rw [List.flatten_cons, List.range_succ] at h
  exact List.append_cancel_left h

end Sample

open Sample in
/-- The second page starts where the first one says. -/
theorem resume_lists_committed_second :
    Ongoing "alice" resumedId 134250496 (fun _ => resumedEnv) (fun _ => resumed 4097) ∧
      ∃ rest, resume "alice" resumedId (fun _ => resumedEnv) (fun _ => resumed 4097) 4098 0 0 =
        some (List.range 4096 :: rest) ∧ rest.flatten = [4096] := by
  have hongoing := ongoing_resumed (Nat.le_refl 4097)
  obtain ⟨pages, hresume, -, -, -, hsame⟩ := resume_lists_committed hongoing
  have hall : pages.flatten = List.range 4097 := by
    rw [hsame fun _ => rfl, keys_resumed]
    exact List.pairwise_le_range.insertionSort_eq
  have hpages := hresume
  rw [resume, fileRequest_resumed (Nat.le_refl 4097) (by decide)] at hpages
  obtain ⟨rest, -, rfl⟩ := Option.map_eq_some_iff.1 hpages
  exact ⟨hongoing, rest, hresume, flatten_behind hall⟩

end CallBackend.Files
