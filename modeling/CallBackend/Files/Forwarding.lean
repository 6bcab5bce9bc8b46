import CallBackend.Files.Store

/-!
# What the Go front end forwards

The Go process reads an application payload first. It serves the bulk operations itself, rejects
those it cannot serve, and forwards everything else to Python as a control message. It decides on
its own reading of the JSON text, in which a member is matched to a field of `fileRequest` exactly
or, failing that, in any case; Python then reads the same text again with exact member names.

Decoding the text and its lengths on the way are parameters of the model: the tree keeps the
members of an object in the order of the text, with repetitions.
-/

namespace CallBackend.Files

open Json

inductive Lane where
  | reliable
  | datagram
  deriving DecidableEq, Repr

structure Wire where
  /-- The document, when `json.Valid` accepts the text. -/
  parse : Bytes → Option Json
  /-- The length of the control line that carries the payload. -/
  controlLength : Bytes → Nat
  /-- The length of the payload as Python encodes it again, when its text is Unicode. -/
  encodedLength : Bytes → Option Nat

/-! ### The reading of `encoding/json` -/

/-- Case folding of member names: besides the ASCII letters, the Kelvin sign and the long s. -/
def foldChar (c : Char) : Char :=
  if 'A' ≤ c ∧ c ≤ 'Z' then Char.ofNat (c.toNat + 32)
  else if c = 'K' then 'k'
  else if c = '\u017f' then 's'
  else c

def foldName (name : String) : String := String.ofList (name.toList.map foldChar)

inductive Field where
  | type | op | id | index | chunk | chunks | indices | lease
  deriving DecidableEq, Repr

def Field.name : Field → String
  | .type => "type"
  | .op => "op"
  | .id => "id"
  | .index => "index"
  | .chunk => "chunk"
  | .chunks => "chunks"
  | .indices => "indices"
  | .lease => "lease"

def Field.all : List Field := [.type, .op, .id, .index, .chunk, .chunks, .indices, .lease]

/-- The field a member is decoded into: the one of this name, else the one of the folded name. -/
def matchField (name : String) : Option Field :=
  (Field.all.find? (·.name = name)).or (Field.all.find? (·.name = foldName name))

def acceptsString : Json → Bool
  | .str _ | .null => true
  | _ => false

def acceptsInt : Json → Bool
  | .int n => -2 ^ 63 ≤ n ∧ n < 2 ^ 63
  | .null => true
  | _ => false

def acceptsArray (element : Json → Bool) : Json → Bool
  | .arr items => items.all element
  | .null => true
  | _ => false

def acceptsChunk : Json → Bool
  | .obj fields => fields.all fun (name, value) =>
    if foldName name = "index" ∨ foldName name = "length" then acceptsInt value
    else if foldName name = "digest" then acceptsString value
    else true
  | .null => true
  | _ => false

def Field.accepts : Field → Json → Bool
  | .type | .op | .id | .chunk | .lease => acceptsString
  | .index => acceptsInt
  | .chunks => acceptsArray acceptsChunk
  | .indices => acceptsArray acceptsInt

/-- `fileRequest`, without the two arrays and the lease, which nothing below reads. -/
structure FileRequest where
  type : String := ""
  op : String := ""
  id : String := ""
  index : Int := 0
  chunk : String := ""
  deriving DecidableEq, Repr

/-- Decoding a string: `null` leaves the field as it is. -/
def decodeString (old : String) (value : Json) : String := value.text?.getD old

def decodeInt (old : Int) : Json → Int
  | .int n => n
  | _ => old

def FileRequest.set (r : FileRequest) (field : Field) (value : Json) : FileRequest :=
  match field with
  | .type => { r with type := decodeString r.type value }
  | .op => { r with op := decodeString r.op value }
  | .id => { r with id := decodeString r.id value }
  | .index => { r with index := decodeInt r.index value }
  | .chunk => { r with chunk := decodeString r.chunk value }
  | .chunks | .indices | .lease => r

def FileRequest.member (r : FileRequest) (member : String × Json) : Option FileRequest :=
  match matchField member.1 with
  | some field => if field.accepts member.2 then some (r.set field member.2) else none
  | none => some r

/-- `json.Unmarshal` into a `fileRequest`. -/
def unmarshal : Json → Option FileRequest
  | .obj fields => fields.foldlM FileRequest.member {}
  | .null => some {}
  | _ => none

/-! ### The two processes -/

inductive Verdict where
  | invalidRequest
  /-- `parseBatch`, then `fileOperation`. -/
  | batch (data : Bytes)
  /-- `fileDownloadBatch`. -/
  | download (r : FileRequest)
  /-- `fileOperation`; for a `put` after its chunk has been decoded and checked. -/
  | operate (r : FileRequest)
  /-- The text becomes the `metadata` of a control message. -/
  | forward (text : Bytes)
  deriving DecidableEq, Repr

def reliably (lane : Lane) (verdict : Verdict) : Verdict :=
  if lane = .reliable then verdict else .invalidRequest

/-- The branches of `application` once the request has been decoded. -/
def applicationRequest (lane : Lane) (r : FileRequest) (text : Bytes) : Verdict :=
  if r.type = "file_request" ∧ r.op = "get_batch" then reliably lane (.download r)
  else if r.type = "file_request" ∧ (r.op = "get" ∨ r.op = "put") then reliably lane (.operate r)
  else if r.type = "file_request" ∧ r.op = "put_batch" then .invalidRequest
  else .forward text

def application (wire : Wire) (lane : Lane) (payload : Bytes) : Verdict :=
  match payload with
  | [] => .invalidRequest
  | first :: text =>
    if first = 1 then reliably lane (.batch text)
    else if first ≠ 0 ∨ 64 * 1024 < payload.length then .invalidRequest
    else match (wire.parse text).bind unmarshal with
      | none => .invalidRequest
      | some r => applicationRequest lane r text

/-- The types of message that `install_files` registers its handler for. -/
def fileTypes : List String := ["file_request", "file_binary"]

/-- `handle_application_message` and the handler of `install_files`: the data that `FileStore.request`
is called with. -/
def handleApplicationMessage (lane : Lane) (value : Json) : Option Json :=
  match value with
  | .obj _ =>
    if (value.get "type").text?.any (· ∈ fileTypes) ∧ lane = .reliable then some value else none
  | _ => none

/-- The data of the request that Python's file store serves for a payload, if it comes to that: the
control line and the payload encoded again have to keep within their limits. -/
def served (wire : Wire) (lane : Lane) (payload : Bytes) : Option Json :=
  match application wire lane payload with
  | .forward text =>
    if wire.controlLength payload < 128 * 1024 ∧
        (wire.encodedLength payload).any (· ≤ 64 * 1024) then
      (wire.parse text).bind fun document => handleApplicationMessage lane document.loads
    else none
  | _ => none

/-- `FileStore.request` goes on to `put`, `put_batch` or `get`. -/
def isBulk (data : Json) : Bool :=
  match route data with
  | .ok (.put _) | .ok (.putBatch _) => true
  | .ok (.file _) => (data.get "op").text? = some "get"
  | _ => false

/-! ### What Go reads in a member -/

theorem foldName_name (field : Field) : foldName field.name = field.name := by
  cases field <;> decide

theorem Field.name_injective {f g : Field} (h : f.name = g.name) : f = g := by
  cases f <;> cases g <;> first | rfl | exact absurd h (by decide)

theorem Field.mem_all (field : Field) : field ∈ Field.all := by
  cases field <;> decide

variable {name : String}

/-- A field's name is its own folding, so looking for the exact name first changes nothing. -/
theorem matchField_eq_some {field : Field} :
    matchField name = some field ↔ foldName name = field.name := by
  have hfind : ∀ (text : String) (f : Field), Field.all.find? (·.name = text) = some f → f.name = text :=
    fun text f h => by simpa using List.find?_some h
  constructor
  · intro h
    rcases Option.or_eq_some_iff.mp h with hexact | ⟨-, hfolded⟩
    · rw [← hfind _ _ hexact, foldName_name]
    · exact (hfind _ _ hfolded).symm
  · intro h
    have hsome : (matchField name).isSome := by
      rw [matchField, Option.isSome_or, Bool.or_eq_true]
      right
      exact List.find?_isSome.mpr ⟨field, field.mem_all, by simp [h]⟩
    obtain ⟨found, hfound⟩ := Option.isSome_iff_exists.mp hsome
    have hname : foldName name = found.name := by
      rcases Option.or_eq_some_iff.mp hfound with hexact | ⟨-, hfolded⟩
      · rw [← hfind _ _ hexact, foldName_name]
      · exact (hfind _ _ hfolded).symm
    rw [hfound, Field.name_injective (hname.symm.trans h)]

def decoded (key : String) (old : String) (fields : List (String × Json)) : String :=
  fields.foldl (fun text field => if foldName field.1 = key then decodeString text field.2 else text) old

/-- The string a member under another spelling of the name leaves, after the last exact one. -/
def overriding (key : String) (fields : List (String × Json)) : Option String :=
  fields.foldl (fun text field =>
    if field.1 = key then none
    else if foldName field.1 = key then field.2.text?.or text
    else text) none

variable {fields : List (String × Json)}

theorem decoded_eq_overriding {key : String} (hkey : foldName key = key) (old : String) {s : String}
    (hlast : last key fields = some (.str s)) :
    decoded key old fields = (overriding key fields).getD s := by
  -- the three loops run over the same members; whenever the last exact member is a string, what Go
  -- has read so far is the overriding text, or else that string
  suffices hinv : ∀ (found : Option Json) (text : String) (winner : Option String),
      (∀ s, found = some (.str s) → text = winner.getD s) →
      ∀ s, fields.foldl (fun found field => if field.1 = key then some field.2 else found) found =
          some (.str s) →
        decoded key text fields =
          (fields.foldl (fun text field =>
            if field.1 = key then none
            else if foldName field.1 = key then field.2.text?.or text
            else text) winner).getD s by
    exact hinv none old none (by simp) s hlast
  clear hlast s
  induction fields with
  | nil =>
    intro found text winner hstart s hfound
    exact hstart s hfound
  | cons field rest ih =>
    obtain ⟨name, value⟩ := field
    intro found text winner hstart s hfound
    rw [decoded, List.foldl_cons, List.foldl_cons] at *
    refine ih _ _ _ ?_ s hfound
    intro s' hs'
    by_cases hexact : name = key
    · obtain rfl : value = .str s' := by simpa [hexact] using hs'
      simp [hexact, hkey, decodeString, text?]
    · have hprev : text = winner.getD s' := hstart s' (by simpa [hexact] using hs')
      by_cases hfold : foldName name = key
      · simp only [hexact, hfold, if_false, if_true, decodeString]
        cases value.text? with
        | none => simpa using hprev
        | some t => simp
      · simpa [hexact, hfold] using hprev

/-- Every member that Go reads has a value of its field's type. -/
def WellTyped (fields : List (String × Json)) : Prop :=
  ∀ member ∈ fields, ∀ field : Field, foldName member.1 = field.name → field.accepts member.2 = true

variable {r r' : FileRequest} {value : Json}

theorem FileRequest.member_eq_some :
    r.member (name, value) = some r' ↔
      (∀ field : Field, foldName name = field.name → field.accepts value = true) ∧
        r' = match matchField name with
          | some field => r.set field value
          | none => r := by
  unfold FileRequest.member
  cases hmatch : matchField name with
  | none =>
    have hnone : ∀ field : Field, foldName name ≠ field.name := fun field h => by
      rw [matchField_eq_some.mpr h] at hmatch
      cases hmatch
    refine ⟨fun h => ⟨fun field hf => absurd hf (hnone field), (Option.some.inj h).symm⟩, ?_⟩
    rintro ⟨-, rfl⟩
    rfl
  | some field =>
    have hname := matchField_eq_some.mp hmatch
    have hunique : (∀ f : Field, foldName name = f.name → f.accepts value = true) ↔
        field.accepts value = true := by
      refine ⟨fun h => h field hname, fun h f hf => ?_⟩
      rwa [Field.name_injective (hf.symm.trans hname)]
    rw [hunique]
    by_cases haccepts : field.accepts value = true <;> simp [haccepts, eq_comm]

/-- A member changes the text of a field exactly when its folded name is the field's. -/
theorem FileRequest.member_text (h : r.member (name, value) = some r') :
    r'.type = (if foldName name = "type" then decodeString r.type value else r.type) ∧
      r'.op = (if foldName name = "op" then decodeString r.op value else r.op) := by
  obtain ⟨-, rfl⟩ := FileRequest.member_eq_some.mp h
  cases hmatch : matchField name with
  | none =>
    have hnone : ∀ field : Field, foldName name ≠ field.name := fun field hf => by
      rw [matchField_eq_some.mpr hf] at hmatch
      cases hmatch
    exact ⟨(if_neg (hnone .type)).symm, (if_neg (hnone .op)).symm⟩
  | some field =>
    rw [matchField_eq_some.mp hmatch]
    cases field <;> simp [Field.name, FileRequest.set]

theorem unmarshal_text (h : fields.foldlM FileRequest.member r = some r') :
    r'.type = decoded "type" r.type fields ∧ r'.op = decoded "op" r.op fields := by
  induction fields generalizing r with
  | nil =>
    obtain rfl : r = r' := by simpa using h
    exact ⟨rfl, rfl⟩
  | cons field rest ih =>
    rw [List.foldlM_cons, Option.bind_eq_bind, Option.bind_eq_some_iff] at h
    obtain ⟨next, hnext, hrest⟩ := h
    obtain ⟨htype, hop⟩ := FileRequest.member_text hnext
    obtain ⟨htypes, hops⟩ := ih hrest
    rw [htypes, hops, htype, hop]
    exact ⟨rfl, rfl⟩

theorem unmarshal_isSome (r : FileRequest) :
    (∃ r', fields.foldlM FileRequest.member r = some r') ↔ WellTyped fields := by
  induction fields generalizing r with
  | nil => simp [WellTyped]
  | cons field rest ih =>
    obtain ⟨name, value⟩ := field
    simp only [List.foldlM_cons, Option.bind_eq_bind, Option.bind_eq_some_iff]
    constructor
    · rintro ⟨r', next, hnext, hrest⟩
      have htail := (ih next).mp ⟨r', hrest⟩
      intro member hmember
      rcases List.mem_cons.mp hmember with rfl | hin
      · exact (FileRequest.member_eq_some.mp hnext).1
      · exact htail member hin
    · intro htyped
      have hhead := htyped (name, value) (.head _)
      obtain ⟨r', hrest⟩ := (ih _).mpr fun member hin => htyped member (.tail _ hin)
      exact ⟨r', _, FileRequest.member_eq_some.mpr ⟨hhead, rfl⟩, hrest⟩

/-! ### What Python makes of it -/

/-- The operations that Go serves or rejects itself. -/
def nativeOps : List String := ["get_batch", "get", "put", "put_batch"]

def bulkOps : List String := ["put", "put_batch", "get"]

variable {lane : Lane}

theorem applicationRequest_eq_forward {text text' : Bytes} :
    applicationRequest lane r text = .forward text' ↔
      text' = text ∧ ¬(r.type = "file_request" ∧ r.op ∈ nativeOps) := by
  have hreliably : ∀ verdict, verdict ≠ .forward text' → reliably lane verdict ≠ .forward text' := by
    intro verdict hne
    unfold reliably
    split_ifs
    · exact hne
    · simp
  unfold applicationRequest
  split_ifs with hbatch hsingle hput
  · simp [hreliably, nativeOps, hbatch]
  · rcases hsingle with ⟨htype, hop | hop⟩ <;> simp [hreliably, nativeOps, htype, hop]
  · simp [nativeOps, hput]
  · have hother : ¬(r.type = "file_request" ∧ r.op ∈ nativeOps) := by
      simp only [nativeOps, List.mem_cons, List.not_mem_nil, or_false]
      tauto
    refine ⟨fun h => ⟨(Verdict.forward.inj h).symm, hother⟩, ?_⟩
    rintro ⟨rfl, -⟩
    rfl

theorem application_eq_forward {wire : Wire} {payload text : Bytes} :
    application wire lane payload = .forward text ↔
      payload = 0 :: text ∧ payload.length ≤ 64 * 1024 ∧ ∃ document r,
        wire.parse text = some document ∧ unmarshal document = some r ∧
          ¬(r.type = "file_request" ∧ r.op ∈ nativeOps) := by
  constructor
  · intro h
    unfold application at h
    split at h
    · cases h
    · rename_i first rest
      split_ifs at h with hbatch hrefused
      · unfold reliably at h
        split_ifs at h
      · push Not at hrefused
        split at h
        · cases h
        · rename_i r hread
          obtain ⟨document, hparse, hdecode⟩ := Option.bind_eq_some_iff.mp hread
          obtain ⟨rfl, hother⟩ := applicationRequest_eq_forward.mp h
          exact ⟨by rw [hrefused.1], hrefused.2, document, r, hparse, hdecode, hother⟩
  · rintro ⟨rfl, hlength, document, r, hparse, hdecode, hother⟩
    have hread : (wire.parse text).bind unmarshal = some r :=
      Option.bind_eq_some_iff.mpr ⟨document, hparse, hdecode⟩
    simp only [application, hread]
    rw [if_neg (by decide), if_neg (by simp only [not_or]; exact ⟨by simp, by omega⟩)]
    exact applicationRequest_eq_forward.mpr ⟨rfl, hother⟩

variable {data : Json}

theorem handleApplicationMessage_loads {document : Json} :
    handleApplicationMessage lane document.loads = some data ↔
      ∃ fields, document = .obj fields ∧ lane = .reliable ∧
        (∃ kind ∈ fileTypes, last "type" fields = some (.str kind)) ∧ data = loads (.obj fields) := by
  cases document with
  | obj fields =>
    have htype : ((loads (.obj fields)).get "type").text?.any (· ∈ fileTypes) = true ↔
        ∃ kind ∈ fileTypes, last "type" fields = some (.str kind) := by
      simp only [Option.any_eq_true, text?_get_loads, Option.bind_eq_some_iff, text?_eq_some,
        exists_eq_left, decide_eq_true_eq, and_comm]
    have hhandle : handleApplicationMessage lane (loads (.obj fields)) =
        if ((loads (.obj fields)).get "type").text?.any (· ∈ fileTypes) ∧ lane = .reliable then
          some (loads (.obj fields)) else none := by
      rw [loads]
      rfl
    rw [hhandle]
    constructor
    · intro h
      split_ifs at h with hasked
      exact ⟨fields, rfl, hasked.2, htype.mp hasked.1, (Option.some.inj h).symm⟩
    · rintro ⟨_, ⟨⟩, hlane, hkind, rfl⟩
      rw [if_pos ⟨htype.mpr hkind, hlane⟩]
  | _ => simp [handleApplicationMessage, loads]

theorem isBulk_iff :
    isBulk data = true ↔
      (∃ op ∈ bulkOps, (data.get "op").text? = some op) ∧ (fileId? (data.get "id")).isSome := by
  unfold isBulk route
  generalize (data.get "op").text? = op
  by_cases hcapabilities : op = some "capabilities"
  · simp [hcapabilities, bulkOps]
  by_cases hlist : op = some "list"
  · simp [hlist, bulkOps]
  rw [if_neg hcapabilities, if_neg hlist]
  cases fileId? (data.get "id") with
  | none => simp
  | some id =>
    by_cases hput : op = some "put"
    · simp [hput, bulkOps]
    by_cases hbatch : op = some "put_batch"
    · simp [hbatch, bulkOps]
    by_cases hcreate : op = some "create"
    · simp [hcreate, bulkOps]
    · simp [hput, hbatch, hcreate, bulkOps]

theorem fileId?_isSome :
    (fileId? value).isSome = true ↔ ∃ id, value.text? = some id ∧ idPattern id = true := by
  cases value with
  | str s => by_cases hid : idPattern s = true <;> simp [fileId?, text?, hid]
  | _ => simp [fileId?, text?]

theorem isBulk_loads :
    isBulk (loads (.obj fields)) = true ↔
      (∃ op ∈ bulkOps, last "op" fields = some (.str op)) ∧
        ∃ id, last "id" fields = some (.str id) ∧ idPattern id = true := by
  simp only [isBulk_iff, fileId?_isSome, text?_get_loads, Option.bind_eq_some_iff, text?_eq_some,
    exists_eq_right]

theorem served_eq_some {wire : Wire} {payload : Bytes} :
    served wire lane payload = some data ↔
      ∃ text fields r, payload = 0 :: text ∧ payload.length ≤ 64 * 1024 ∧
        wire.parse text = some (.obj fields) ∧ fields.foldlM FileRequest.member {} = some r ∧
        ¬(r.type = "file_request" ∧ r.op ∈ nativeOps) ∧ wire.controlLength payload < 128 * 1024 ∧
        (wire.encodedLength payload).any (· ≤ 64 * 1024) ∧ lane = .reliable ∧
        (∃ kind ∈ fileTypes, last "type" fields = some (.str kind)) ∧ data = loads (.obj fields) := by
  constructor
  · intro h
    unfold served at h
    split at h
    · rename_i text hforward
      split_ifs at h with hlimits
      obtain ⟨document, hparse, hdata⟩ := Option.bind_eq_some_iff.mp h
      obtain ⟨fields, rfl, hlane, htype, rfl⟩ := handleApplicationMessage_loads.mp hdata
      obtain ⟨hpayload, hlength, document, r, hparse', hdecode, hother⟩ :=
        application_eq_forward.mp hforward
      obtain rfl : document = .obj fields := Option.some.inj (hparse'.symm.trans hparse)
      exact ⟨text, fields, r, hpayload, hlength, hparse, hdecode, hother, hlimits.1, hlimits.2,
        hlane, htype, rfl⟩
    · cases h
  · rintro ⟨text, fields, r, hpayload, hlength, hparse, hdecode, hother, hcontrol, hencoded, hlane,
      htype, rfl⟩
    have hforward : application wire lane payload = .forward text :=
      application_eq_forward.mpr ⟨hpayload, hlength, _, r, hparse, hdecode, hother⟩
    simp only [served, hforward]
    rw [if_pos ⟨hcontrol, hencoded⟩, hparse]
    exact handleApplicationMessage_loads.mpr ⟨fields, rfl, hlane, htype, rfl⟩

/-! ### Disguised requests -/

/-- A bulk request whose exact members Python serves, while Go takes it for something else: its type
is `file_binary`, or a later spelling in another case overrides the type or the operation. -/
structure Disguised (wire : Wire) (lane : Lane) (payload : Bytes) (fields : List (String × Json)) :
    Prop where
  framed : ∃ text, payload = 0 :: text ∧ wire.parse text = some (.obj fields)
  limits : payload.length ≤ 64 * 1024 ∧ wire.controlLength payload < 128 * 1024 ∧
    (wire.encodedLength payload).any (· ≤ 64 * 1024)
  reliable : lane = .reliable
  typed : WellTyped fields
  file : ∃ id, last "id" fields = some (.str id) ∧ idPattern id = true
  disguise : ∃ kind ∈ fileTypes, ∃ op ∈ bulkOps, last "type" fields = some (.str kind) ∧
    last "op" fields = some (.str op) ∧
    ((overriding "type" fields).getD kind ≠ "file_request" ∨
      (overriding "op" fields).getD op ∉ nativeOps)

/-- What Go sees of a request is what overriding spellings leave of its type and operation. -/
theorem unseen_iff {kind op : String} (hdecode : fields.foldlM FileRequest.member {} = some r)
    (htype : last "type" fields = some (.str kind)) (hop : last "op" fields = some (.str op)) :
    ¬(r.type = "file_request" ∧ r.op ∈ nativeOps) ↔
      (overriding "type" fields).getD kind ≠ "file_request" ∨
        (overriding "op" fields).getD op ∉ nativeOps := by
  obtain ⟨hreadType, hreadOp⟩ := unmarshal_text hdecode
  rw [decoded_eq_overriding (show foldName "type" = "type" from foldName_name .type) _ htype] at hreadType
  rw [decoded_eq_overriding (show foldName "op" = "op" from foldName_name .op) _ hop] at hreadOp
  rw [hreadType, hreadOp, not_and_or]

/-- No bulk operation is served by Python, unless the request is disguised. -/
theorem forwarded_not_bulk_iff (wire : Wire) (lane : Lane) (payload : Bytes) :
    (∀ data, served wire lane payload = some data → isBulk data = false) ↔
      ¬∃ fields, Disguised wire lane payload fields := by
  constructor
  · rintro h ⟨fields, hdisguised⟩
    obtain ⟨text, hpayload, hparse⟩ := hdisguised.framed
    obtain ⟨hlength, hcontrol, hencoded⟩ := hdisguised.limits
    obtain ⟨r, hdecode⟩ := (unmarshal_isSome {}).mpr hdisguised.typed
    obtain ⟨kind, hkind, op, hbulk, htype, hop, hdisguise⟩ := hdisguised.disguise
    have hunseen := (unseen_iff hdecode htype hop).mpr hdisguise
    have hserved : served wire lane payload = some (loads (.obj fields)) :=
      served_eq_some.mpr ⟨text, fields, r, hpayload, hlength, hparse, hdecode, hunseen, hcontrol,
        hencoded, hdisguised.reliable, ⟨kind, hkind, htype⟩, rfl⟩
    have hisBulk := isBulk_loads.mpr ⟨⟨op, hbulk, hop⟩, hdisguised.file⟩
    rw [h _ hserved] at hisBulk
    cases hisBulk
  · intro h data hserved
    obtain ⟨text, fields, r, hpayload, hlength, hparse, hdecode, hunseen, hcontrol, hencoded, hlane,
      ⟨kind, hkind, htype⟩, rfl⟩ := served_eq_some.mp hserved
    by_contra hbulk
    obtain ⟨⟨op, hmem, hop⟩, hfile⟩ := isBulk_loads.mp (Bool.not_eq_false _ ▸ hbulk)
    exact h ⟨fields, ⟨text, hpayload, hparse⟩, ⟨hlength, hcontrol, hencoded⟩, hlane,
      (unmarshal_isSome {}).mp ⟨r, hdecode⟩, hfile,
      kind, hkind, op, hmem, htype, hop, (unseen_iff hdecode htype hop).mp hunseen⟩

namespace Sample

/-- The text `{"type":"file_binary","op":"put","id":"aa…"}` as a tree. -/
def binaryPut : Json :=
  .obj [("type", .str "file_binary"), ("op", .str "put"),
    ("id", .str "aaaaaaaaaaaaaaaaaaaaaaaaaaaaaaaa")]

/-- The text `{"type":"file_request","op":"put","Op":"status","id":"aa…"}` as a tree. -/
def disguisedPut : Json :=
  .obj [("type", .str "file_request"), ("op", .str "put"), ("Op", .str "status"),
    ("id", .str "aaaaaaaaaaaaaaaaaaaaaaaaaaaaaaaa")]

def ascii (text : String) : Bytes := text.toList.map fun c => UInt8.ofNat c.toNat

def binaryText : Bytes :=
  ascii ("\x7b\"type\":\"file_binary\",\"op\":\"put\"," ++
    "\"id\":\"aaaaaaaaaaaaaaaaaaaaaaaaaaaaaaaa\"\x7d")

def disguisedText : Bytes :=
  ascii ("\x7b\"type\":\"file_request\",\"op\":\"put\",\"Op\":\"status\"," ++
    "\"id\":\"aaaaaaaaaaaaaaaaaaaaaaaaaaaaaaaa\"\x7d")

def wire : Wire where
  parse text := [(binaryText, binaryPut), (disguisedText, disguisedPut)].lookup text
  controlLength payload := payload.length + 128
  encodedLength payload := some payload.length

end Sample

open Sample in
/-- Go takes neither request for a file operation it serves, and forwards both; Python puts the
chunk. -/
theorem disguised_put_served :
    (served wire .reliable (0 :: binaryText)).any isBulk = true ∧
      (served wire .reliable (0 :: disguisedText)).any isBulk = true := by
  decide +kernel

end CallBackend.Files
