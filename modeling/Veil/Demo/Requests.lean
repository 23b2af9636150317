/-
# The demo's requests

`tools/demo/src/api.rs`, and `services/api/src/error.rs`, whose answers it reads.  The client learns
what a request came to from the status alone: 404 is an answer like any other for `get`, an error
for `need`, and every other failure is an error that quotes the body.

Each request meets the database as it is at that moment.  `Backend` gives every request a database
of its own, or none if the API cannot be reached; `Service.over` is the client on top of it.  The
lemmas of section 3 say, for each method, which handler's answer a result is, and `notes_of_serves`
what the loop over the pages of the listing comes to.
-/
import Veil.Api.Lookups
import Veil.Api.ServedPaths
import Veil.Demo.Client

namespace Veil

open Tx

/-! ## 1. What the API answers -/

namespace Api

/-- A string as JSON writes it: quotes, backslashes and control characters are escaped. -/
def jsonString (text : String) : String :=
  let quote := Char.ofNat 34
  let backslash := Char.ofNat 92
  let escape (c : Char) : List Char :=
    if c = quote ∨ c = backslash then [backslash, c]
    else if c.toNat = 8 then [backslash, 'b']
    else if c.toNat = 9 then [backslash, 't']
    else if c.toNat = 10 then [backslash, 'n']
    else if c.toNat = 12 then [backslash, 'f']
    else if c.toNat = 13 then [backslash, 'r']
    else if c.toNat < 32 then backslash :: 'u' :: Digits.hexDigits 4 c.toNat
    else [c]
  String.ofList (quote :: text.toList.flatMap escape ++ [quote])

namespace ApiError

/-- The status of the response and a stable code. -/
def parts : ApiError → Nat × String
  | .badRequest _ => (400, "bad_request")
  | .notFound _ => (404, "not_found")
  | .conflict _ => (409, "conflict")
  | .unavailable _ => (503, "unavailable")
  | .internal _ => (500, "internal")
  | .inconsistent _ => (500, "internal")

/-- The message.  Internal failures are reported without their cause. -/
def text : ApiError → String
  | .badRequest message => message
  | .notFound message => message
  | .conflict message => message
  | .unavailable message => message
  | .internal _ => "internal error"
  | .inconsistent _ => "internal error"

def body (error : ApiError) : String :=
  "\x7b" ++ jsonString "error" ++ ":\x7b" ++ jsonString "code" ++ ":" ++ jsonString error.parts.2 ++
    "," ++ jsonString "message" ++ ":" ++ jsonString error.text ++ "\x7d\x7d"

end ApiError

end Api

namespace Demo

open Api (ApiError)

/-- A status as it is displayed. -/
def statusText (status : Nat) : String :=
  let reason := if status = 400 then "Bad Request"
    else if status = 404 then "Not Found"
    else if status = 409 then "Conflict"
    else if status = 500 then "Internal Server Error"
    else if status = 503 then "Service Unavailable"
    else "<unknown status code>"
  s!"{status} {reason}"

/-! ## 2. The client -/

section Get

variable {α : Type}

/-- GETs `path`: no value on 404.  No answer at all is a failed connection. -/
def get (base path : String) (answer : Option (Except ApiError α)) :
    Except DemoError (Option α) :=
  let url := s!"{base}{path}"
  match answer with
  | none => .error (.request s!"GET {url}")
  | some (.ok value) => .ok (some value)
  | some (.error error) =>
    if error.parts.1 = 404 then .ok none
    else
      let status := statusText error.parts.1
      let body := error.body
      .error (.request s!"GET {url}: {status} {body}")

def need (base path : String) (answer : Option (Except ApiError α)) : Except DemoError α := do
  let found ← get base path answer
  okOr found (.request s!"GET {path}: not found")

theorem get_eq_some {base path : String} {answer : Option (Except ApiError α)} {value : α} :
    get base path answer = .ok (some value) ↔ answer = some (.ok value) := by
  unfold get
  dsimp only
  split
  · simp
  · simp
  · split <;> simp

theorem need_eq_ok {base path : String} {answer : Option (Except ApiError α)} {value : α} :
    need base path answer = .ok value ↔ answer = some (.ok value) := by
  simp only [need, bind_eq_ok, okOr_eq_ok, exists_eq_right, get_eq_some]

end Get

/-- The fields the client reads of a path the API serves. -/
def Path.ofApi (path : Api.MerklePath) : Path :=
  ⟨path.leafIndex, path.leaf, path.pathElements, path.pathIndices, path.root⟩

def PublicKey.ofApi (key : Api.PublicKey) : PublicKey := ⟨key.encryptionKey, key.noteKey⟩

/-- The pool as the client reads it. -/
structure Pool where
  levels : Nat
  nextIndex : Nat
  root : String

def Pool.ofApi (state : Api.PoolState) : Pool := ⟨state.levels, state.nextIndex, state.root⟩

/-- **The API**, with the endpoint only `shield` uses. -/
structure Service extends Client where
  pool : Except DemoError Pool

/-- The database each request meets, if it meets one. -/
structure Backend where
  /-- By the number of the request within a listing. -/
  notes : (request : Nat) → Option Database
  nullifier : (nullifier : String) → Option Database
  poolPath : (leafIndex : Nat) → Option Database
  allowlistPath : (leaf : String) → Option Database
  publicKey : (owner : String) → Option Database
  pool : Option Database

section Over

variable (strkey : Strkey) (base : String) (c : Contracts) (backend : Backend)

/-- One page of the listing. -/
def notePage (request : Nat) (cursor : Option Nat) :
    Except DemoError (List Note × Option Nat) := do
  let first := cursor.getD 0
  let page ← need base s!"/v1/notes?cursor={first}&limit=1000"
    ((backend.notes request).map fun db => Api.Routes.notes db c.pool ⟨cursor, some 1000⟩)
  .ok (page.items.map Note.ofApi, page.nextCursor)

/-- Every note from `cursor` on, with at most `requests` requests. -/
def notes (requests cursor : Nat) : Except DemoError (List Note) := do
  let collected ← Paging.collect (notePage base c backend) requests 0 (some cursor) []
  okOr collected (.request "no more requests")

/-- The client of the API that runs on `backend`. -/
def Service.over (requests : Nat) : Service where
  notes := notes base c backend requests
  isSpent nullifier := do
    let status ← need base s!"/v1/pool/nullifiers/{nullifier}"
      ((backend.nullifier nullifier).map fun db => Api.Routes.nullifier db c.pool nullifier)
    .ok status.spent
  poolPath leafIndex := do
    let path ← need base s!"/v1/pool/leaves/{leafIndex}/path"
      ((backend.poolPath leafIndex).map fun db => Api.poolPath db c.pool leafIndex)
    .ok (.ofApi path)
  allowlistPath leaf := do
    let found ← get base s!"/v1/allowlist/leaves/{leaf}/path"
      ((backend.allowlistPath leaf).map fun db => Api.Routes.allowlistPath db c.allowlist leaf)
    .ok (found.map .ofApi)
  publicKey owner := do
    let found ← get base s!"/v1/public-keys/{owner}"
      ((backend.publicKey owner).map fun db => Api.Routes.publicKey strkey db c.pool owner)
    .ok (found.map .ofApi)
  pool := do
    let state ← need base "/v1/pool" (backend.pool.map fun db => Api.poolState db c.pool)
    .ok (.ofApi state)

end Over

/-! ## 3. Whose answer a result is -/

section Results

variable {strkey : Strkey} {base : String} {c : Contracts} {backend : Backend} {requests : Nat}

theorem notePage_eq_ok {request : Nat} {cursor : Option Nat} {items : List Note}
    {next : Option Nat} : notePage base c backend request cursor = .ok (items, next) ↔
      ∃ db page, backend.notes request = some db ∧
        Api.Routes.notes db c.pool ⟨cursor, some 1000⟩ = .ok page ∧
        items = page.items.map Note.ofApi ∧ next = page.nextCursor := by
  simp only [notePage, bind_eq_ok, need_eq_ok, Option.map_eq_some_iff, Except.ok.injEq,
    Prod.mk.injEq]
  constructor
  · rintro ⟨page, ⟨db, hdb, hpage⟩, rfl, rfl⟩
    exact ⟨db, page, hdb, hpage, rfl, rfl⟩
  · rintro ⟨db, page, hdb, hpage, rfl, rfl⟩
    exact ⟨page, ⟨db, hdb, hpage⟩, rfl, rfl⟩

/-- A note of the listing is on a page of some request. -/
theorem mem_notes {cursor : Nat} {listed : List Note} {note : Note}
    (h : notes base c backend requests cursor = .ok listed) (hnote : note ∈ listed) :
    ∃ request db page item cursor, backend.notes request = some db ∧
      Api.Routes.notes db c.pool ⟨cursor, some 1000⟩ = .ok page ∧ item ∈ page.items ∧
      note = .ofApi item := by
  obtain ⟨collected, hcollected, h⟩ := bind_eq_ok.mp h
  rw [okOr_eq_ok.mp h] at hcollected
  rcases Paging.mem_of_collect hcollected hnote with hnone | ⟨request, cursor, items, next, hpage,
    hitem⟩
  · cases hnone
  · obtain ⟨db, page, hdb, hroute, rfl, -⟩ := notePage_eq_ok.mp hpage
    obtain ⟨item, hmem, rfl⟩ := List.mem_map.mp hitem
    exact ⟨request, db, page, item, cursor, hdb, hroute, hmem, rfl⟩

/-- **The loop over the pages ends with the whole listing**, as the last request saw it. -/
theorem notes_of_serves {dbs : Nat → Database} {items : Nat → List Api.Note} {bound : Nat}
    (hserves : Paging.Serves (fun note : Api.Note => note.leafIndex + 1) items (fun _ => 1000)
      (Api.noteRequest dbs c.pool fun _ => some 1000))
    (hbackend : ∀ i, backend.notes i = some (dbs i)) (hbound : ∀ i, (items i).length ≤ bound)
    (hrequests : bound < requests) :
    ∃ j, notes base c backend requests 0 = .ok ((items j).map Note.ofApi) := by
  obtain ⟨j, hcollect⟩ := hserves.collect_eq hbound hrequests
  have hpage : ∀ i cursor page next,
      Api.noteRequest dbs c.pool (fun _ => some 1000) i cursor = .ok (page, next) →
      notePage base c backend i cursor = .ok (page.map Note.ofApi, next) := by
    intro i cursor page next hrequest
    rw [Api.noteRequest] at hrequest
    cases hroute : Api.Routes.notes (dbs i) c.pool ⟨cursor, some 1000⟩ with
    | error e =>
      rw [hroute] at hrequest
      cases hrequest
    | ok served =>
      rw [hroute] at hrequest
      obtain ⟨rfl, rfl⟩ := Prod.mk.inj (Except.ok.inj hrequest)
      exact notePage_eq_ok.mpr ⟨_, served, hbackend i, hroute, rfl, rfl⟩
  -- the client starts at cursor 0, which stands for none
  have hstart : notePage base c backend 0 (some 0) = notePage base c backend 0 none := rfl
  have hmapped := Paging.collect_map Note.ofApi hpage hcollect
  refine ⟨j, ?_⟩
  rw [notes, Paging.collect_congr [] hstart]
  rw [List.map_nil] at hmapped
  rw [hmapped]
  rfl

theorem isSpent_eq_ok {nullifier : String} {spent : Bool} :
    (Service.over strkey base c backend requests).isSpent nullifier = .ok spent ↔
      ∃ db status, backend.nullifier nullifier = some db ∧
        Api.Routes.nullifier db c.pool nullifier = .ok status ∧ spent = status.spent := by
  simp only [Service.over, bind_eq_ok, need_eq_ok, Option.map_eq_some_iff, Except.ok.injEq]
  constructor
  · rintro ⟨status, ⟨db, hdb, hstatus⟩, rfl⟩
    exact ⟨db, status, hdb, hstatus, rfl⟩
  · rintro ⟨db, status, hdb, hstatus, rfl⟩
    exact ⟨status, ⟨db, hdb, hstatus⟩, rfl⟩

/-- A nullifier in the client's text is looked up, and found if it is stored.  Any other text than
64 digits is a bad request. -/
theorem isSpent_scalarHex {v : F} {db : Database}
    (hdb : backend.nullifier (scalarHex v) = some db) :
    (Service.over strkey base c backend requests).isSpent (scalarHex v) =
      .ok (Api.nullifier db c.pool v.val).isSome := by
  have hroute := Api.Routes.nullifier_displayU256 db c.pool
    (Network.lt_two_pow_of_lt (ZMod.val_lt v))
  rw [← scalarHex_eq] at hroute
  exact isSpent_eq_ok.mpr ⟨db, _, hdb, hroute, rfl⟩

theorem poolPath_eq_ok {leafIndex : Nat} {path : Path} :
    (Service.over strkey base c backend requests).poolPath leafIndex = .ok path ↔
      ∃ db served, backend.poolPath leafIndex = some db ∧
        Api.poolPath db c.pool leafIndex = .ok served ∧ path = .ofApi served := by
  simp only [Service.over, bind_eq_ok, need_eq_ok, Option.map_eq_some_iff, Except.ok.injEq]
  constructor
  · rintro ⟨served, ⟨db, hdb, hserved⟩, rfl⟩
    exact ⟨db, served, hdb, hserved, rfl⟩
  · rintro ⟨db, served, hdb, hserved, rfl⟩
    exact ⟨served, ⟨db, hdb, hserved⟩, rfl⟩

theorem allowlistPath_eq_some {leaf : String} {path : Path} :
    (Service.over strkey base c backend requests).allowlistPath leaf = .ok (some path) ↔
      ∃ db served, backend.allowlistPath leaf = some db ∧
        Api.Routes.allowlistPath db c.allowlist leaf = .ok served ∧ path = .ofApi served := by
  simp only [Service.over, bind_eq_ok, Except.ok.injEq, Option.map_eq_some_iff]
  constructor
  · rintro ⟨_, hget, served, rfl, rfl⟩
    obtain ⟨db, hdb, hserved⟩ := Option.map_eq_some_iff.mp (get_eq_some.mp hget)
    exact ⟨db, served, hdb, hserved, rfl⟩
  · rintro ⟨db, served, hdb, hserved, rfl⟩
    exact ⟨some served, get_eq_some.mpr (Option.map_eq_some_iff.mpr ⟨db, hdb, hserved⟩), served,
      rfl, rfl⟩

theorem publicKey_eq_some {owner : String} {db : Database} {served : Api.PublicKey}
    (hdb : backend.publicKey owner = some db)
    (hserved : Api.Routes.publicKey strkey db c.pool owner = .ok served) :
    (Service.over strkey base c backend requests).publicKey owner = .ok (some (.ofApi served)) := by
  have hget : get base s!"/v1/public-keys/{owner}" ((backend.publicKey owner).map fun db =>
      Api.Routes.publicKey strkey db c.pool owner) = .ok (some served) :=
    get_eq_some.mpr (Option.map_eq_some_iff.mpr ⟨db, hdb, hserved⟩)
  simp only [Service.over, hget, ok_bind, Option.map_some]

end Results

end Demo

end Veil
