import VardrMap.ApiSurface
import VardrMap.Deliverables.Revisions

/-!
# Several clients on one surface

Calls that capture and delete exchanges, statement by statement. A capture stores its operation
unless it is there, waits for another capture that is just storing it, and adds one to the count
in the database. A deletion reads the count with the operation and writes one less at its commit,
whatever has been stored in between.
-/
namespace VardrMap.ApiSurface
open Lib

/-! ## The calls -/

/-- What a call keeps to itself until it ends: the key of an operation that it inserts, and the
rows that it writes. -/
inductive Lock where
  | operation (key : OperationKey)
  | endpoint (id : String)
  | exchange (id : String)
  deriving DecidableEq

/-- What is stored, and which call has which lock. -/
structure Shared where
  db : Db
  endpoints : Table ObservedEndpoint
  exchanges : Table CapturedExchange
  holder : Lock → Option ℕ

/-- A capture whose operation has a row: a stored one as it was read, or one that the call has
inserted. -/
structure Placed where
  capture : Capture
  now : Instant
  endpoint : ObservedEndpoint
  inserted : Bool

inductive Answer where
  | captured (key : OperationKey) (row : CapturedExchange)
  | deleted (exchangeId : String)

/-- How far a call is, with what it has read. -/
inductive Phase where
  | idle
  | looking (capture : Capture)
  | missing (capture : Capture) (now : Instant)
  | conflicting (capture : Capture) (now : Instant)
  | placed (p : Placed)
  | captured (p : Placed) (row : CapturedExchange)
  | counted (p : Placed) (row : CapturedExchange)
  | deleting (row : CapturedExchange)
  | loaded (row : CapturedExchange) (endpoint : ObservedEndpoint)
  | flushed (row : CapturedExchange) (endpoint : ObservedEndpoint)
  | ended (result : Except Refusal Answer)

/-- The statements of the calls: `create` goes on with `look`, `insert` and `again` for the
operation, then with `capture`, `update` and `commit`; `delete` with `load`, `flush` and
`commit`. A call may `abort` wherever the database or its client gives it up. -/
inductive Statement where
  | create (request : HttpRequest) (programId : String) (payload : ExchangeCreate)
  | look (now : Instant)
  | insert (newId : String)
  | again
  | capture (newId : String) (createdAt : Instant)
  | update
  | commit
  | delete (request : HttpRequest) (programId exchangeId : String)
  | load
  | flush
  | abort (e : Refusal)

/-- A statement of a call, or a change of anything but the surface. -/
inductive Action where
  | call (c : ℕ) (s : Statement)
  | edit (db : Db)

abbrev Calls := Clients Shared Phase

/-- The row of an operation. -/
def Shared.endpointOf (s : Shared) (key : OperationKey) : Option ObservedEndpoint :=
  s.endpoints.rows.find? fun e => e.operation == key

/-- No other call has the lock. -/
def Shared.free (s : Shared) (l : Lock) (c : ℕ) : Bool := (s.holder l).all (· == c)

def Shared.lock (s : Shared) (l : Lock) (c : ℕ) : Shared :=
  { s with holder := fun l' => if l' = l then some c else s.holder l' }

/-- The locks of a call that ends. -/
def Shared.release (s : Shared) (c : ℕ) : Shared :=
  { s with holder := fun l => if s.holder l = some c then none else s.holder l }

/-- A call ends, with what is stored then. -/
def finish (w : Calls) (c : ℕ) (s : Shared) (result : Except Refusal Answer) : Calls :=
  w.commit c (s.release c) (.ended result) id

/-- A call ends without having stored anything. -/
def refuse (w : Calls) (c : ℕ) (e : Refusal) : Calls := finish w c w.shared (.error e)

/-- The operation is read, or missing. -/
def look (w : Calls) (c : ℕ) (capture : Capture) (now : Instant) : Calls :=
  match w.shared.endpointOf capture.key with
  | some endpoint => w.enter c (.placed ⟨capture, now, endpoint, false⟩)
  | none => w.enter c (.missing capture now)

/-- The nested insert: it waits for another one of the operation, and fails beside a stored
one. -/
def insert (w : Calls) (c : ℕ) (capture : Capture) (now : Instant) (newId : String) :
    Option Calls :=
  if (w.shared.endpointOf capture.key).isSome || (w.shared.endpoints.get? newId).isSome then
    some (w.enter c (.conflicting capture now))
  else if w.shared.free (.operation capture.key) c && w.shared.free (.endpoint newId) c then
    some (w.commit c ((w.shared.lock (.operation capture.key) c).lock (.endpoint newId) c)
      (.placed ⟨capture, now, capture.endpoint newId now, true⟩) id)
  else none

/-- The operation that another call has stored. -/
def again (w : Calls) (c : ℕ) (capture : Capture) (now : Instant) : Calls :=
  match w.shared.endpointOf capture.key with
  | some endpoint => w.enter c (.placed ⟨capture, now, endpoint, false⟩)
  | none => refuse w c .noRow

/-- `UPDATE` takes the row of the operation. -/
def update (w : Calls) (c : ℕ) (p : Placed) (row : CapturedExchange) : Option Calls :=
  if w.shared.free (.endpoint p.endpoint.id) c then
    some (w.commit c (w.shared.lock (.endpoint p.endpoint.id) c) (.counted p row) id)
  else none

/-- The operations after the capture: its row has one observation more. -/
def Shared.observe (s : Shared) (p : Placed) : Option (Table ObservedEndpoint) :=
  if p.inserted then s.endpoints.insert (p.endpoint.observed p.now)
  else (s.endpoints.get? p.endpoint.id).map fun e => s.endpoints.put (e.observed p.now)

/-- What a capture has stored at its commit. -/
def Shared.store (s : Shared) (p : Placed) (row : CapturedExchange) : Except Refusal Shared := do
  let endpoints ← found (s.observe p) .integrity
  let exchanges ← found (s.exchanges.insert row) .integrity
  return { s with endpoints, exchanges }

/-- The operation of the exchange, with its count. -/
def load (w : Calls) (c : ℕ) (row : CapturedExchange) : Calls :=
  match w.shared.endpoints.get? row.endpointId with
  | some endpoint => w.enter c (.loaded row endpoint)
  | none => refuse w c (.raised .attributeError)

/-- `max(0, endpoint.observation_count - 1)`. -/
def lowered (n : ℕ) : ℕ := n - 1

/-- The flush takes the rows that it writes. An operation is written when its count changes. -/
def flush (w : Calls) (c : ℕ) (row : CapturedExchange) (endpoint : ObservedEndpoint) :
    Option Calls :=
  if lowered endpoint.observationCount = endpoint.observationCount then
    if w.shared.free (.exchange row.id) c then
      some (w.commit c (w.shared.lock (.exchange row.id) c) (.flushed row endpoint) id)
    else none
  else if w.shared.free (.endpoint endpoint.id) c && w.shared.free (.exchange row.id) c then
    some (w.commit c ((w.shared.lock (.endpoint endpoint.id) c).lock (.exchange row.id) c)
      (.flushed row endpoint) id)
  else none

/-- What a deletion has stored at its commit: the count that it wrote is one less than the one
that it had read. -/
def Shared.remove (s : Shared) (row : CapturedExchange) (endpoint : ObservedEndpoint) :
    Except Refusal Shared := do
  let n := endpoint.observationCount
  let exchanges := s.exchanges.filter fun x => x.id ≠ row.id
  if lowered n = n then return { s with exchanges }
  let stored ← found (s.endpoints.get? endpoint.id) .noRow
  let endpoints := s.endpoints.put { stored with observationCount := lowered n }
  return { s with endpoints, exchanges }

/-- The commit of a call whose statements leave this. -/
def commit (w : Calls) (c : ℕ) (stored : Except Refusal Shared) (answer : Answer) : Calls :=
  match stored with
  | .ok s => finish w c s (.ok answer)
  | .error e => refuse w c e

section
variable [Unicode]

/-- The caller and the exchange of `delete_exchange`. -/
def deletable (identity : Identity) (s : Shared) (request : HttpRequest)
    (programId exchangeId : String) : Except Refusal CapturedExchange := do
  let user ← getCurrentUser identity s.db request
  let _ ← writableEngagement s.db programId user
  found ((s.exchanges.get? exchangeId).filter fun x => x.programId == programId)
    (.http 404 "API exchange not found")

/-- `delete_exchange` up to the operation. -/
def delete (identity : Identity) (w : Calls) (c : ℕ) (request : HttpRequest)
    (programId exchangeId : String) : Calls :=
  match deletable identity w.shared request programId exchangeId with
  | .ok row => w.enter c (.deleting row)
  | .error e => refuse w c e

variable [WordTable] [Parsers.Sanitizer]

/-- The caller, the body and the engagement, in the order of their checks. -/
def captureRequest (identity : Identity) (s : Shared) (request : HttpRequest) (programId : String)
    (payload : ExchangeCreate) : Except Refusal Capture := do
  let user ← getCurrentUser identity s.db request
  let payload ← payload.validate
  let _ ← writableEngagement s.db programId user
  captureOf programId payload

/-- `create_exchange` up to the lookup. -/
def create (identity : Identity) (w : Calls) (c : ℕ) (request : HttpRequest)
    (programId : String) (payload : ExchangeCreate) : Calls :=
  match captureRequest identity w.shared request programId payload with
  | .ok capture => w.enter c (.looking capture)
  | .error e => refuse w c e

/-- The exchange is inserted, beside its operation and under a new key. -/
def capture (loads : Text → Option Json) (w : Calls) (c : ℕ) (p : Placed) (newId : String)
    (createdAt : Instant) : Option Calls :=
  let row := p.capture.exchange loads p.endpoint.id newId p.now createdAt
  if (w.shared.exchanges.get? newId).isSome then some (refuse w c .integrity)
  else if w.shared.free (.exchange newId) c then
    some (w.commit c (w.shared.lock (.exchange newId) c) (.captured p row) id)
  else none

/-- One statement, or an edit of what is not the surface. -/
def next (identity : Identity) (loads : Text → Option Json) (w : Calls) : Action → Option Calls
  | .edit db => some { w with shared := { w.shared with db } }
  | .call c s =>
    match w.phase c, s with
    | .ended _, _ => none
    | _, .abort e => some (refuse w c e)
    | .idle, .create request programId payload =>
      some (create identity w c request programId payload)
    | .looking x, .look now => some (look w c x now)
    | .missing x now, .insert newId => insert w c x now newId
    | .conflicting x now, .again => some (again w c x now)
    | .placed p, .capture newId createdAt => capture loads w c p newId createdAt
    | .captured p row, .update => update w c p row
    | .counted p row, .commit =>
      some (commit w c (w.shared.store p row) (.captured p.capture.key row))
    | .idle, .delete request programId exchangeId =>
      some (delete identity w c request programId exchangeId)
    | .deleting row, .load => some (load w c row)
    | .loaded row endpoint, .flush => flush w c row endpoint
    | .flushed row endpoint, .commit =>
      some (commit w c (w.shared.remove row endpoint) (.deleted row.id))
    | _, _ => none

end

/-- Nothing is stored of the surface, and no call has begun. -/
def start (db : Db) : Calls := .start ⟨db, .empty, .empty, fun _ => none⟩ .idle

/-! ## Exact counts -/

/-- The number of stored exchanges of an operation. -/
def Shared.number (s : Shared) (endpointId : String) : ℕ :=
  s.exchanges.count fun x => x.endpointId == endpointId

/-- Every operation has one row, which counts its stored exchanges, and every stored exchange
has its operation. -/
structure Shared.Exact (s : Shared) : Prop where
  counted : ∀ id e, s.endpoints.get? id = some e → e.observationCount = s.number id
  unique : ∀ id id' e e', s.endpoints.get? id = some e → s.endpoints.get? id' = some e' →
    e.operation = e'.operation → e = e'
  stored : ∀ id x, s.exchanges.get? id = some x → ∃ e, s.endpoints.get? x.endpointId = some e

/-- The count that a deletion has read is the stored one. When its exchange is already gone, the
count was read before that, or it was zero, and is not written. -/
def Shared.Current (s : Shared) (row : CapturedExchange) (endpoint : ObservedEndpoint) : Prop :=
  match s.exchanges.get? row.id with
  | some x => x.endpointId = endpoint.id ∧
      ∀ e ∈ s.endpoints.get? endpoint.id, endpoint.observationCount = e.observationCount
  | none => endpoint.observationCount = 0 ∨
      ∀ e ∈ s.endpoints.get? endpoint.id, endpoint.observationCount = e.observationCount + 1

instance (s : Shared) (row : CapturedExchange) (endpoint : ObservedEndpoint) :
    Decidable (s.Current row endpoint) := by
  unfold Shared.Current
  split <;> infer_instance

/-- The step is no commit of a deletion that has read another count. -/
def Undisturbed (w : Calls) : Action → Prop
  | .call c .commit =>
    match w.phase c with
    | .flushed row endpoint => w.shared.Current row endpoint
    | _ => True
  | _ => True

instance (w : Calls) (a : Action) : Decidable (Undisturbed w a) := by
  unfold Undisturbed
  split
  · split <;> infer_instance
  · infer_instance

/-! ## What the operations leave -/

variable {s s' : Shared} {c : ℕ}

theorem Shared.endpointOf_eq_some {key : OperationKey} {e : ObservedEndpoint}
    (h : s.endpointOf key = some e) : s.endpoints.get? e.id = some e ∧ e.operation = key :=
  ⟨Table.get?_of_mem (List.mem_of_find?_eq_some h), by simpa using List.find?_some h⟩

theorem Shared.endpointOf_eq_none {key : OperationKey} (h : s.endpointOf key = none) {id : String}
    {e : ObservedEndpoint} (he : s.endpoints.get? id = some e) : e.operation ≠ key := by
  simpa using List.find?_eq_none.mp h e (Table.mem_of_get? he)

/-- Without its row an operation has no exchange. -/
theorem Shared.Exact.number_eq_zero (h : s.Exact) {id : String}
    (hid : s.endpoints.get? id = none) : s.number id = 0 := by
  refine List.countP_eq_zero.mpr fun x hx hxid => ?_
  obtain ⟨e, he⟩ := h.stored x.id x (Table.get?_of_mem hx)
  rw [beq_iff_eq.mp hxid, hid] at he
  cases he

/-- The row of a placed capture is that of its operation: a stored one, or one that nobody else
can store in the meantime. -/
def Placed.Holds (s : Shared) (c : ℕ) (p : Placed) : Prop :=
  p.endpoint.operation = p.capture.key ∧
    if p.inserted then
      s.holder (.operation p.capture.key) = some c ∧ p.endpoint.observationCount = 0 ∧
        ∀ id e, s.endpoints.get? id = some e → e.operation ≠ p.capture.key
    else ∃ e, s.endpoints.get? p.endpoint.id = some e ∧ e.operation = p.capture.key

/-- The row of the operation after a capture, and that it is the only one. -/
theorem Placed.Holds.observe {p : Placed} {endpoints : Table ObservedEndpoint}
    (hp : p.Holds s c) (hs : s.Exact) (h : s.observe p = some endpoints) :
    ∃ e, (∀ id, endpoints.get? id = if p.endpoint.id = id then some e else s.endpoints.get? id) ∧
      e.operation = p.capture.key ∧ e.observationCount = s.number p.endpoint.id + 1 ∧
      ∀ id e', s.endpoints.get? id = some e' → e'.operation = p.capture.key →
        id = p.endpoint.id := by
  obtain ⟨hop, hp⟩ := hp
  unfold Shared.observe at h
  split at h
  · rename_i hinserted
    rw [if_pos hinserted] at hp
    obtain ⟨-, hcount, hnew⟩ := hp
    refine ⟨p.endpoint.observed p.now, Table.get?_insert h, hop, ?_, ?_⟩
    · have hfree : s.endpoints.get? p.endpoint.id = none :=
        Table.get?_of_insert (r := p.endpoint.observed p.now) h
      rw [hs.number_eq_zero hfree]
      exact congrArg (· + 1) hcount
    · exact fun id e' he' hop' => absurd hop' (hnew id e' he')
  · rename_i hinserted
    rw [if_neg hinserted] at hp
    obtain ⟨e, he, hop'⟩ := hp
    rw [he] at h
    obtain rfl := Option.some.inj h
    have hid : e.id = p.endpoint.id := Table.key_of_get? he
    refine ⟨e.observed p.now, fun id => ?_, hop', ?_, fun id e' he' hop'' => ?_⟩
    · have hput := Table.get?_put (r := e.observed p.now) (hid ▸ he) id
      rw [hput]
      exact if_congr (by rw [← hid]; rfl) rfl rfl
    · exact congrArg (· + 1) (hs.counted _ e he)
    · obtain rfl := hs.unique _ _ _ _ he he' (hop'.trans hop''.symm)
      exact (Table.key_of_get? he').symm.trans hid

/-- A capture counts itself. -/
theorem Shared.Exact.store {p : Placed} {row : CapturedExchange} (hs : s.Exact)
    (hp : p.Holds s c) (hrow : row.endpointId = p.endpoint.id) (h : s.store p row = .ok s') :
    s'.Exact := by
  obtain ⟨endpoints, hendpoints, h⟩ := bind_eq_ok h
  obtain ⟨exchanges, hexchanges, h⟩ := bind_eq_ok h
  obtain rfl := Except.ok.inj h
  obtain ⟨e, hget, hop, hcount, halone⟩ := hp.observe hs (found_eq_ok hendpoints)
  have hexchanges := found_eq_ok hexchanges
  have hnumber (id : String) : Shared.number { s with endpoints, exchanges } id =
      s.number id + if p.endpoint.id = id then 1 else 0 := by
    refine (Table.count_insert hexchanges _).trans ?_
    simp [Shared.number, hrow]
  constructor
  · intro id e' he'
    rw [hget] at he'
    rw [hnumber]
    split at he'
    · rename_i hid
      rw [if_pos hid, ← hid, ← Option.some.inj he', hcount]
    · rename_i hid
      rw [if_neg hid, hs.counted id e' he']
      rfl
  · intro id id' e₁ e₂ he₁ he₂ hop₁₂
    rw [hget] at he₁ he₂
    split at he₁ <;> split at he₂
    · exact (Option.some.inj he₁).symm.trans (Option.some.inj he₂)
    · rename_i hid'
      obtain rfl := Option.some.inj he₁
      exact absurd (halone id' e₂ he₂ (hop₁₂.symm.trans hop)).symm hid'
    · rename_i hid _
      obtain rfl := Option.some.inj he₂
      exact absurd (halone id e₁ he₁ (hop₁₂.trans hop)).symm hid
    · exact hs.unique id id' e₁ e₂ he₁ he₂ hop₁₂
  · intro id x hx
    rw [hget]
    split
    · exact ⟨e, rfl⟩
    · rename_i hid
      obtain ⟨-, rfl⟩ | hx := Table.of_get?_insert hexchanges hx
      · exact absurd hrow.symm hid
      · exact hs.stored id x hx

/-- What a deletion leaves of the operations. -/
theorem Shared.remove_eq_ok {row : CapturedExchange} {endpoint e : ObservedEndpoint}
    (he : s.endpoints.get? endpoint.id = some e) (h : s.remove row endpoint = .ok s') :
    (∀ l, s'.holder l = s.holder l) ∧
      s'.exchanges = s.exchanges.filter (fun x => x.id ≠ row.id) ∧
      ∃ n, (n = if endpoint.observationCount = 0 then e.observationCount
          else endpoint.observationCount - 1) ∧
        ∀ id, s'.endpoints.get? id =
          if endpoint.id = id then some { e with observationCount := n }
          else s.endpoints.get? id := by
  have hid : e.id = endpoint.id := Table.key_of_get? he
  unfold Shared.remove at h
  dsimp only at h
  split at h
  · rename_i hn
    obtain rfl := Except.ok.inj h
    have hzero : endpoint.observationCount = 0 := by
      unfold lowered at hn
      omega
    refine ⟨fun _ => rfl, rfl, e.observationCount, (if_pos hzero).symm, fun id => ?_⟩
    split
    · rename_i hid'
      exact hid' ▸ he
    · rfl
  · rename_i hn
    obtain ⟨stored, hstored, h⟩ := bind_eq_ok h
    obtain rfl := Option.some.inj (he.symm.trans (found_eq_ok hstored))
    obtain rfl := Except.ok.inj h
    have hzero : endpoint.observationCount ≠ 0 := by
      unfold lowered at hn
      omega
    refine ⟨fun _ => rfl, rfl, endpoint.observationCount - 1, (if_neg hzero).symm, fun id => ?_⟩
    have hput := Table.get?_put
      (r := { e with observationCount := lowered endpoint.observationCount }) (hid ▸ he) id
    refine hput.trans (if_congr ?_ rfl rfl)
    rw [← hid]
    rfl

theorem Shared.remove_isOk {row : CapturedExchange} {endpoint e : ObservedEndpoint}
    (he : s.endpoints.get? endpoint.id = some e) : ∃ s', s.remove row endpoint = .ok s' := by
  unfold Shared.remove
  rw [he]
  dsimp only
  split
  · exact ⟨_, rfl⟩
  · exact ⟨_, rfl⟩

/-- A deletion counts itself if and only if the count that it read is current. -/
theorem Shared.Exact.remove_iff {row : CapturedExchange} {endpoint e : ObservedEndpoint}
    (hs : s.Exact) (he : s.endpoints.get? endpoint.id = some e)
    (h : s.remove row endpoint = .ok s') : s'.Exact ↔ s.Current row endpoint := by
  obtain ⟨-, hexchanges, n, hn, hget⟩ := Shared.remove_eq_ok he h
  have hnumber (id : String) : s'.number id +
      (if (s.exchanges.get? row.id).any (fun x => x.endpointId == id) then 1 else 0) =
        s.number id := by
    unfold Shared.number
    rw [hexchanges]
    exact Table.count_erase s.exchanges row.id _
  have hcount : e.observationCount = s.number endpoint.id := hs.counted _ e he
  have hnew : s'.Exact ↔ n = s'.number endpoint.id ∧ ∀ id e', endpoint.id ≠ id →
      s.endpoints.get? id = some e' → s'.number id = s.number id := by
    refine ⟨fun h' => ⟨?_, fun id e' hid he' => ?_⟩, fun h' => ⟨?_, ?_, ?_⟩⟩
    · exact h'.counted endpoint.id { e with observationCount := n } (by rw [hget, if_pos rfl])
    · rw [← hs.counted id e' he']
      exact (h'.counted id e' (by rw [hget, if_neg hid, he'])).symm
    · intro id e' he'
      rw [hget] at he'
      split at he'
      · rename_i hid
        rw [← Option.some.inj he', ← hid]
        exact h'.1
      · rename_i hid
        rw [h'.2 id e' hid he']
        exact hs.counted id e' he'
    · intro id id' e₁ e₂ he₁ he₂ hop
      rw [hget] at he₁ he₂
      split at he₁ <;> split at he₂
      · exact (Option.some.inj he₁).symm.trans (Option.some.inj he₂)
      · rename_i hid hid'
        obtain rfl := Option.some.inj he₁
        obtain rfl := hs.unique _ _ _ _ he he₂ hop
        exact absurd ((Table.key_of_get? he).symm.trans (Table.key_of_get? he₂)) hid'
      · rename_i hid hid'
        obtain rfl := Option.some.inj he₂
        obtain rfl := hs.unique _ _ _ _ he₁ he hop
        exact absurd ((Table.key_of_get? he).symm.trans (Table.key_of_get? he₁)) hid
      · exact hs.unique _ _ _ _ he₁ he₂ hop
    · intro id x hx
      rw [hexchanges, Table.get?_filter, Option.filter_eq_some_iff] at hx
      obtain ⟨e', he'⟩ := hs.stored id x hx.1
      rw [hget]
      split
      · exact ⟨_, rfl⟩
      · exact ⟨e', he'⟩
  rw [hnew]
  unfold Shared.Current
  cases hx : s.exchanges.get? row.id with
  | none =>
    simp only [hx, Option.any_none, Bool.false_eq_true, if_false, add_zero] at hnumber
    simp only [he, Option.mem_def, Option.some.injEq, forall_eq']
    rw [hnumber, ← hcount, hn]
    constructor
    · rintro ⟨h', -⟩
      split at h'
      · exact .inl ‹_›
      · exact .inr (by omega)
    · refine fun h' => ⟨?_, fun id _ _ _ => hnumber id⟩
      split <;> omega
  | some x =>
    obtain ⟨e₁, he₁⟩ := hs.stored _ x hx
    simp only [hx, Option.any_some, beq_iff_eq] at hnumber
    simp only [he, Option.mem_def, Option.some.injEq, forall_eq']
    constructor
    · rintro ⟨h', hothers⟩
      have hid : x.endpointId = endpoint.id := by
        by_contra hid
        have h₁ := hnumber x.endpointId
        rw [if_pos rfl, hothers _ e₁ (Ne.symm hid) he₁] at h₁
        omega
      have h₁ := hnumber endpoint.id
      rw [if_pos hid] at h₁
      refine ⟨hid, ?_⟩
      split at hn <;> omega
    · rintro ⟨hid, hread⟩
      have h₁ := hnumber endpoint.id
      rw [if_pos hid] at h₁
      refine ⟨?_, fun id e' hne _ => ?_⟩
      · split at hn <;> omega
      · have h₂ := hnumber id
        rwa [if_neg fun heq => hne (hid.symm.trans heq)] at h₂

/-! ## The invariant -/

/-- The rows that a call has read or written, against what is stored. -/
def Phase.Holds (s : Shared) (c : ℕ) : Phase → Prop
  | placed p => p.Holds s c
  | captured p row | counted p row => p.Holds s c ∧ row.endpointId = p.endpoint.id
  | loaded _ endpoint | flushed _ endpoint => ∃ e, s.endpoints.get? endpoint.id = some e
  | ended (.ok (.captured key row)) =>
    ∃ e, s.endpoints.get? row.endpointId = some e ∧ e.operation = key
  | _ => True

/-- The counts are exact, and every call is where it has come. -/
structure Guarded (w : Calls) : Prop where
  exact : w.shared.Exact
  phase : ∀ c, (w.phase c).Holds w.shared c

/-- What the others do spares a call: operations stay, and the one that the call inserts is not
stored by them. -/
structure Shared.Spares (s s' : Shared) (c : ℕ) : Prop where
  kept : ∀ id e, s.endpoints.get? id = some e →
    ∃ e', s'.endpoints.get? id = some e' ∧ e'.operation = e.operation
  locked : ∀ key, s.holder (.operation key) = some c → s'.holder (.operation key) = some c
  alone : ∀ key id e', s.holder (.operation key) = some c → s'.endpoints.get? id = some e' →
    e'.operation = key → ∃ id e, s.endpoints.get? id = some e ∧ e.operation = key

theorem Placed.Holds.frame {p : Placed} (h : p.Holds s c) (hs : s.Spares s' c) :
    p.Holds s' c := by
  obtain ⟨hop, h⟩ := h
  refine ⟨hop, ?_⟩
  split at h
  · rw [if_pos ‹_›]
    obtain ⟨hlock, hcount, hnew⟩ := h
    refine ⟨hs.locked _ hlock, hcount, fun id e' he' hop => ?_⟩
    obtain ⟨id, e, he, hop⟩ := hs.alone _ id e' hlock he' hop
    exact hnew id e he hop
  · rw [if_neg ‹_›]
    obtain ⟨e, he, hop⟩ := h
    obtain ⟨e', he', hop'⟩ := hs.kept _ e he
    exact ⟨e', he', hop'.trans hop⟩

theorem Phase.Holds.frame {x : Phase} (h : x.Holds s c) (hs : s.Spares s' c) :
    x.Holds s' c := by
  cases x with
  | placed p => exact Placed.Holds.frame h hs
  | captured p row => exact ⟨h.1.frame hs, h.2⟩
  | counted p row => exact ⟨h.1.frame hs, h.2⟩
  | loaded row endpoint =>
    obtain ⟨e, he⟩ := h
    obtain ⟨e', he', -⟩ := hs.kept _ e he
    exact ⟨e', he'⟩
  | flushed row endpoint =>
    obtain ⟨e, he⟩ := h
    obtain ⟨e', he', -⟩ := hs.kept _ e he
    exact ⟨e', he'⟩
  | ended result =>
    rcases result with - | ⟨key, row⟩ | -
    · trivial
    · obtain ⟨e, he, hop⟩ := h
      obtain ⟨e', he', hop'⟩ := hs.kept _ e he
      exact ⟨e', he', hop'.trans hop⟩
    · trivial
  | _ => trivial

theorem Shared.Spares.trans {s₁ : Shared} (h : s.Spares s₁ c) (h' : s₁.Spares s' c) :
    s.Spares s' c where
  kept id e he := by
    obtain ⟨e₁, he₁, hop₁⟩ := h.kept id e he
    obtain ⟨e', he', hop'⟩ := h'.kept id e₁ he₁
    exact ⟨e', he', hop'.trans hop₁⟩
  locked key hlock := h'.locked key (h.locked key hlock)
  alone key id e' hlock he' hop := by
    obtain ⟨id₁, e₁, he₁, hop₁⟩ := h'.alone key id e' (h.locked key hlock) he' hop
    exact h.alone key id₁ e₁ hlock he₁ hop₁

/-- With the same operations, all that is spared is a lock. -/
theorem Shared.Spares.of_holder (hs : s'.endpoints = s.endpoints)
    (h : ∀ key, s.holder (.operation key) = some c → s'.holder (.operation key) = some c) :
    s.Spares s' c where
  kept _ e he := ⟨e, hs ▸ he, rfl⟩
  locked := h
  alone _ id e' _ he' hop := ⟨id, e', hs ▸ he', hop⟩

theorem Shared.Spares.lock {l : Lock} {d : ℕ} (hfree : s.free l c = true) (hd : d ≠ c) :
    s.Spares (s.lock l c) d := by
  refine .of_holder rfl fun key hlock => ?_
  unfold Shared.lock
  dsimp only
  rw [if_neg]
  · exact hlock
  · rintro rfl
    simp only [Shared.free, hlock, Option.all_some, beq_iff_eq] at hfree
    exact hd hfree

theorem Shared.Spares.release {d : ℕ} (hd : d ≠ c) : s.Spares (s.release c) d := by
  refine .of_holder rfl fun key hlock => ?_
  unfold Shared.release
  dsimp only
  rw [hlock, if_neg]
  exact fun heq => hd (Option.some.inj heq)

theorem Shared.Exact.of_eq (h : s.Exact) (hendpoints : s'.endpoints = s.endpoints)
    (hexchanges : s'.exchanges = s.exchanges) : s'.Exact where
  counted id e he := by
    have hnumber : s'.number id = s.number id := by rw [Shared.number, hexchanges]; rfl
    exact hnumber ▸ h.counted id e (hendpoints ▸ he)
  unique id id' e e' he he' := h.unique id id' e e' (hendpoints ▸ he) (hendpoints ▸ he')
  stored id x hx := hendpoints ▸ h.stored id x (hexchanges ▸ hx)

/-- A capture stores no operation but its own. -/
theorem Shared.Spares.store {p : Placed} {row : CapturedExchange} {d : ℕ} (hs : s.Exact)
    (hp : p.Holds s c) (hd : d ≠ c) (h : s.store p row = .ok s') : s.Spares s' d := by
  obtain ⟨endpoints, hendpoints, h⟩ := bind_eq_ok h
  obtain ⟨exchanges, -, h⟩ := bind_eq_ok h
  obtain rfl := Except.ok.inj h
  obtain ⟨e, hget, hop, -, halone⟩ := hp.observe hs (found_eq_ok hendpoints)
  refine ⟨fun id e₁ he₁ => ?_, fun _ hlock => hlock, fun key id e' hlock he' hop' => ?_⟩
  · rw [hget]
    split
    · rename_i hid
      have hop₁ : e₁.operation = p.capture.key := by
        have hstored := hp.2
        split at hstored
        · have hnew := found_eq_ok hendpoints
          unfold Shared.observe at hnew
          rw [if_pos ‹_›] at hnew
          have hfree : s.endpoints.get? p.endpoint.id = none :=
            Table.get?_of_insert (r := p.endpoint.observed p.now) hnew
          rw [← hid, hfree] at he₁
          cases he₁
        · obtain ⟨e₂, he₂, hop₂⟩ := hstored
          rw [hid, he₁] at he₂
          exact Option.some.inj he₂ ▸ hop₂
      exact ⟨e, rfl, hop.trans hop₁.symm⟩
    · exact ⟨e₁, he₁, rfl⟩
  · rw [hget] at he'
    split at he'
    · obtain rfl := Option.some.inj he'
      have hstored := hp.2
      split at hstored
      · rw [hop'.symm.trans hop] at hlock
        exact absurd (Option.some.inj (hlock.symm.trans hstored.1)) hd
      · obtain ⟨e₂, he₂, hop₂⟩ := hstored
        exact ⟨_, e₂, he₂, hop₂.trans (hop.symm.trans hop')⟩
    · exact ⟨id, e', he', hop'⟩

theorem Shared.Spares.remove {row : CapturedExchange} {endpoint e : ObservedEndpoint} {d : ℕ}
    (he : s.endpoints.get? endpoint.id = some e) (h : s.remove row endpoint = .ok s') :
    s.Spares s' d := by
  obtain ⟨hholder, -, n, -, hget⟩ := Shared.remove_eq_ok he h
  refine ⟨fun id e₁ he₁ => ?_, fun key hlock => (hholder _).trans hlock,
    fun key id e' _ he' hop => ?_⟩
  · rw [hget]
    split
    · rename_i hid
      obtain rfl := Option.some.inj (he.symm.trans (hid ▸ he₁))
      exact ⟨_, rfl, rfl⟩
    · exact ⟨e₁, he₁, rfl⟩
  · rw [hget] at he'
    split at he'
    · obtain rfl := Option.some.inj he'
      exact ⟨endpoint.id, e, he, hop⟩
    · exact ⟨id, e', he', hop⟩

variable {w w' : Calls}

theorem Guarded.enter {x : Phase} (h : Guarded w) (hx : x.Holds w.shared c) :
    Guarded (w.enter c x) := ⟨h.exact, Clients.forall_enter hx h.phase⟩

theorem Guarded.commit {x : Phase} (h : Guarded w) (hs : s'.Exact)
    (hspares : ∀ d ≠ c, w.shared.Spares s' d) (hx : x.Holds s' c) :
    Guarded (w.commit c s' x id) :=
  ⟨hs, Clients.forall_commit hx fun d hd => (h.phase d).frame (hspares d hd)⟩

/-- A call that ends releases its locks. -/
theorem Guarded.finish {result : Except Refusal Answer} (h : Guarded w) (hs : s'.Exact)
    (hspares : ∀ d ≠ c, w.shared.Spares s' d) (hx : (Phase.ended result).Holds (s'.release c) c) :
    Guarded (finish w c s' result) :=
  h.commit (hs.of_eq rfl rfl) (fun d hd => (hspares d hd).trans (.release hd)) hx

theorem Guarded.refuse (h : Guarded w) (e : Refusal) : Guarded (refuse w c e) :=
  h.finish h.exact (fun _ _ => .of_holder rfl fun _ => id) trivial

/-- A call takes a lock that no other one has. -/
theorem Guarded.lock {l : Lock} {x : Phase} (h : Guarded w) (hfree : w.shared.free l c = true)
    (hx : x.Holds (w.shared.lock l c) c) : Guarded (w.commit c (w.shared.lock l c) x id) :=
  h.commit (h.exact.of_eq rfl rfl) (fun _ hd => .lock hfree hd) hx

/-! ## The statements -/

/-- An operation that was read is the stored one. -/
theorem Placed.Holds.read {capture : Capture} {now : Instant} {e : ObservedEndpoint}
    (h : s.endpointOf capture.key = some e) : Placed.Holds s c ⟨capture, now, e, false⟩ := by
  obtain ⟨he, hop⟩ := Shared.endpointOf_eq_some h
  exact ⟨hop, e, he, hop⟩

theorem Guarded.look {x : Capture} {now : Instant} (h : Guarded w) :
    Guarded (look w c x now) := by
  unfold ApiSurface.look
  split
  · exact h.enter (Placed.Holds.read ‹_›)
  · exact h.enter trivial

theorem Guarded.again {x : Capture} {now : Instant} (h : Guarded w) :
    Guarded (again w c x now) := by
  unfold ApiSurface.again
  split
  · exact h.enter (Placed.Holds.read ‹_›)
  · exact h.refuse _

/-- Whoever inserts an operation has its key for itself. -/
theorem Guarded.insert {x : Capture} {now : Instant} {newId : String} (h : Guarded w)
    (hnext : insert w c x now newId = some w') : Guarded w' := by
  unfold ApiSurface.insert at hnext
  split at hnext
  · exact Option.some.inj hnext ▸ h.enter trivial
  rename_i hstored
  split at hnext
  · rename_i hfree
    obtain rfl := Option.some.inj hnext
    simp only [Bool.or_eq_true, not_or, Option.isSome_iff_ne_none, not_not] at hstored
    rw [Bool.and_eq_true] at hfree
    refine h.commit (h.exact.of_eq rfl rfl) (fun d hd => ?_) ⟨rfl, ?_⟩
    · exact (Shared.Spares.lock hfree.1 hd).trans (.of_holder rfl fun key hlock => hlock)
    · refine ⟨?_, rfl, fun id e he => Shared.endpointOf_eq_none hstored.1 he⟩
      simp [Shared.lock]
  · cases hnext

theorem Placed.Holds.lock {p : Placed} {l : Lock} (h : p.Holds s c) : p.Holds (s.lock l c) c := by
  refine h.frame (.of_holder rfl fun key hlock => ?_)
  unfold Shared.lock
  dsimp only
  split
  · rfl
  · exact hlock

theorem Guarded.update {p : Placed} {row : CapturedExchange} (h : Guarded w)
    (hc : w.phase c = .captured p row) (hnext : update w c p row = some w') : Guarded w' := by
  unfold ApiSurface.update at hnext
  split at hnext
  · have hp : (Phase.captured p row).Holds w.shared c := hc ▸ h.phase c
    exact Option.some.inj hnext ▸ h.lock ‹_› ⟨hp.1.lock, hp.2⟩
  · cases hnext

theorem Guarded.load {row : CapturedExchange} (h : Guarded w) : Guarded (load w c row) := by
  unfold ApiSurface.load
  split
  · rename_i e he
    have hid : e.id = row.endpointId := Table.key_of_get? he
    exact h.enter ⟨e, (congrArg w.shared.endpoints.get? hid).trans he⟩
  · exact h.refuse _

theorem Guarded.flush {row : CapturedExchange} {endpoint : ObservedEndpoint} (h : Guarded w)
    (hc : w.phase c = .loaded row endpoint) (hnext : flush w c row endpoint = some w') :
    Guarded w' := by
  have hstored : (Phase.loaded row endpoint).Holds w.shared c := hc ▸ h.phase c
  unfold ApiSurface.flush at hnext
  split at hnext
  · split at hnext
    · exact Option.some.inj hnext ▸ h.lock ‹_› hstored
    · cases hnext
  · split at hnext
    · rename_i hfree
      rw [Bool.and_eq_true] at hfree
      obtain rfl := Option.some.inj hnext
      refine h.commit (h.exact.of_eq rfl rfl) (fun d hd => ?_) hstored
      have hexchange :
          (w.shared.lock (.endpoint endpoint.id) c).free (.exchange row.id) c = true := by
        simpa [Shared.free, Shared.lock] using hfree.2
      exact (Shared.Spares.lock hfree.1 hd).trans (.lock hexchange hd)
    · cases hnext

/-- The commit of a capture. -/
theorem Guarded.store {p : Placed} {row : CapturedExchange} (h : Guarded w)
    (hc : w.phase c = .counted p row) :
    Guarded (ApiSurface.commit w c (w.shared.store p row) (.captured p.capture.key row)) := by
  have hp : (Phase.counted p row).Holds w.shared c := hc ▸ h.phase c
  unfold ApiSurface.commit
  split
  · rename_i s hs
    refine h.finish (h.exact.store hp.1 hp.2 hs) (fun d hd => .store h.exact hp.1 hd hs) ?_
    obtain ⟨endpoints, hendpoints, hs⟩ := bind_eq_ok hs
    obtain ⟨exchanges, -, hs⟩ := bind_eq_ok hs
    obtain rfl := Except.ok.inj hs
    obtain ⟨e, hget, hop, -⟩ := hp.1.observe h.exact (found_eq_ok hendpoints)
    exact ⟨e, (hget _).trans (if_pos hp.2.symm), hop⟩
  · exact h.refuse _

/-- The commit of a deletion whose count is current. -/
theorem Guarded.remove {row : CapturedExchange} {endpoint : ObservedEndpoint} (h : Guarded w)
    (hc : w.phase c = .flushed row endpoint) (hcurrent : w.shared.Current row endpoint) :
    Guarded (ApiSurface.commit w c (w.shared.remove row endpoint) (.deleted row.id)) := by
  have hstored : (Phase.flushed row endpoint).Holds w.shared c := hc ▸ h.phase c
  obtain ⟨e, he⟩ := hstored
  unfold ApiSurface.commit
  split
  · rename_i s hs
    exact h.finish ((h.exact.remove_iff he hs).mpr hcurrent) (fun _ _ => .remove he hs) trivial
  · exact h.refuse _

section
variable [Unicode] [WordTable] [Parsers.Sanitizer] {identity : Identity}
  {loads : Text → Option Json}

theorem Guarded.create {request : HttpRequest} {programId : String} {payload : ExchangeCreate}
    (h : Guarded w) : Guarded (create identity w c request programId payload) := by
  unfold ApiSurface.create
  split
  · exact h.enter trivial
  · exact h.refuse _

omit [WordTable] [Parsers.Sanitizer] in
theorem Guarded.delete {request : HttpRequest} {programId exchangeId : String} (h : Guarded w) :
    Guarded (delete identity w c request programId exchangeId) := by
  unfold ApiSurface.delete
  split
  · exact h.enter trivial
  · exact h.refuse _

theorem Guarded.capture {p : Placed} {newId : String} {createdAt : Instant} (h : Guarded w)
    (hc : w.phase c = .placed p) (hnext : capture loads w c p newId createdAt = some w') :
    Guarded w' := by
  have hp : (Phase.placed p).Holds w.shared c := hc ▸ h.phase c
  unfold ApiSurface.capture at hnext
  dsimp only at hnext
  split at hnext
  · exact Option.some.inj hnext ▸ h.refuse _
  split at hnext
  · exact Option.some.inj hnext ▸ h.lock ‹_› ⟨Placed.Holds.lock hp, rfl⟩
  · cases hnext

theorem Guarded.step {a : Action} (h : Guarded w) (hnext : next identity loads w a = some w')
    (ha : Undisturbed w a) : Guarded w' := by
  cases a with
  | edit db =>
    obtain rfl := Option.some.inj hnext
    exact ⟨h.exact.of_eq rfl rfl, fun d => (h.phase d).frame (.of_holder rfl fun _ => id)⟩
  | call c s =>
    unfold next at hnext
    dsimp only at hnext
    split at hnext
    · cases hnext
    · exact Option.some.inj hnext ▸ h.refuse _
    · exact Option.some.inj hnext ▸ h.create
    · exact Option.some.inj hnext ▸ h.look
    · exact h.insert hnext
    · exact Option.some.inj hnext ▸ h.again
    · exact h.capture ‹_› hnext
    · exact h.update ‹_› hnext
    · exact Option.some.inj hnext ▸ h.store ‹_›
    · exact Option.some.inj hnext ▸ h.delete
    · exact Option.some.inj hnext ▸ h.load
    · exact h.flush ‹_› hnext
    · rename_i row endpoint hc
      refine Option.some.inj hnext ▸ h.remove hc ?_
      simpa [Undisturbed, hc] using ha
    · cases hnext

/-- An interleaving of calls and edits, every step under a condition. -/
abbrev Interleaving (identity : Identity) (loads : Text → Option Json)
    (meets : Calls → Action → Prop) := Lib.Run (Taken (next identity loads) meets)

omit [Unicode] [WordTable] [Parsers.Sanitizer] in
theorem start_guarded (db : Db) : Guarded (start db) where
  exact := ⟨nofun, nofun, nofun⟩
  phase _ := trivial

theorem Interleaving.guarded {db : Db} {actions : List Action}
    (h : Interleaving identity loads Undisturbed (start db) actions w) : Guarded w :=
  h.invariant Guarded
    (fun hw hs => by cases hs with | step hnext ha => exact hw.step hnext ha) (start_guarded db)

/-- Only the commit of a deletion can leave a count that is not exact. -/
theorem Guarded.undisturbed {a : Action} (h : Guarded w)
    (hnext : next identity loads w a = some w') (hexact : w'.shared.Exact) : Undisturbed w a := by
  unfold Undisturbed
  split
  · rename_i c
    split
    · rename_i row endpoint hc
      have hstored : (Phase.flushed row endpoint).Holds w.shared c := hc ▸ h.phase c
      obtain ⟨e, he⟩ := hstored
      obtain ⟨s, hs⟩ : ∃ s, w.shared.remove row endpoint = .ok s := Shared.remove_isOk he
      unfold next at hnext
      simp only [hc, ApiSurface.commit, hs, Option.some.injEq] at hnext
      obtain rfl := hnext
      exact (h.exact.remove_iff he hs).mp (hexact.of_eq rfl rfl)
    · trivial
  · trivial

/-- While every deletion commits against the count that it has read, the counts are exact in
every state of a run, and an operation with a capture has one row; and the counts stay exact in
a next step if and only if it is such a step too. -/
theorem counts_exact_iff {db : Db} {actions : List Action}
    (h : Interleaving identity loads Undisturbed (start db) actions w) :
    w.shared.Exact ∧
      (∀ c key row, w.phase c = .ended (.ok (.captured key row)) →
        ∃! e, e ∈ w.shared.endpoints.rows ∧ e.operation = key) ∧
      ∀ a w', next identity loads w a = some w' → (w'.shared.Exact ↔ Undisturbed w a) := by
  have hw := Interleaving.guarded h
  refine ⟨hw.exact, fun c key row hc => ?_, fun a w' hnext => ⟨hw.undisturbed hnext, ?_⟩⟩
  · have hended : (Phase.ended (.ok (.captured key row))).Holds w.shared c := hc ▸ hw.phase c
    obtain ⟨e, he, hop⟩ := hended
    refine ⟨e, ⟨Table.mem_of_get? he, hop⟩, fun e' he' => ?_⟩
    exact hw.exact.unique _ _ e' e (Table.get?_of_mem he'.1) he (he'.2.trans hop.symm)
  · exact fun ha => (hw.step hnext ha).exact

end

/-- The call has ended with an answer. -/
def Phase.answered : Phase → Bool
  | ended (.ok _) => true
  | _ => false

def examplePayload : ExchangeCreate where
  method := "get"
  url := "https://api.example.com/v1"
  pathTemplate := none
  sourceTool := "proxy"
  identityLabel := ""
  requestHeaders := ""
  requestBody := ""
  responseHeaders := ""
  responseBody := ""
  responseStatus := some 200
  responseLength := none
  responseMime := ""
  responseTimeMs := none
  note := ""
  capturedAt := none

/-- The call of the one member. -/
def exampleRequest : HttpRequest := ⟨none, some "owner"⟩

/-- Two captures of an operation that both miss it, and a deletion after them. -/
def exampleExact : List Action :=
  [.call 1 (.create exampleRequest "e1" examplePayload),
    .call 2 (.create exampleRequest "e1" examplePayload), .call 1 (.look 0), .call 2 (.look 0),
    .call 1 (.insert "o1"), .call 1 (.capture "x1" 0), .call 1 .update, .call 1 .commit,
    .call 2 (.insert "o2"), .call 2 .again, .call 2 (.capture "x2" 0), .call 2 .update,
    .call 2 .commit, .call 3 (.delete exampleRequest "e1" "x1"), .call 3 .load, .call 3 .flush,
    .call 3 .commit]

theorem counts_exact_iff_example : ∃ w : Calls,
    w.shared.Exact ∧ (w.shared.endpoints.get? "o1").map (·.observationCount) = some 1 ∧
      w.shared.exchanges.rows.map (·.id) = ["x2"] := by
  let _ := Unicode.ascii
  let _ := WordTable.ascii
  let _ : Parsers.Sanitizer := ⟨id⟩
  let taken := exampleExact.foldlM
    (fun s a => if Undisturbed s a then next Deliverables.exampleSessions (fun _ => none) s a
      else none) (start Deliverables.exampleEngagements)
  have hrows : taken.map (fun w => ((w.shared.endpoints.get? "o1").map (·.observationCount),
      w.shared.exchanges.rows.map (·.id))) = some (some 1, ["x2"]) := by decide +kernel
  obtain ⟨w, hw, hrows⟩ := Option.map_eq_some_iff.mp hrows
  have h : Interleaving Deliverables.exampleSessions (fun _ => none) Undisturbed
      (start Deliverables.exampleEngagements) exampleExact w := Lib.Run.of_foldlM hw
  exact ⟨w, (counts_exact_iff h).1, congrArg Prod.fst hrows, congrArg Prod.snd hrows⟩

/-- A deletion that reads the count before a second capture, and commits after it. -/
def exampleLost : List Action :=
  [.call 1 (.create exampleRequest "e1" examplePayload), .call 1 (.look 0),
    .call 1 (.insert "o1"), .call 1 (.capture "x1" 0), .call 1 .update, .call 1 .commit,
    .call 3 (.delete exampleRequest "e1" "x1"), .call 3 .load,
    .call 2 (.create exampleRequest "e1" examplePayload), .call 2 (.look 0),
    .call 2 (.capture "x2" 0), .call 2 .update, .call 2 .commit, .call 3 .flush, .call 3 .commit]

/-- The second capture is lost to the count: it is stored, and the operation counts nothing. -/
theorem counts_counterexample : ∃ w : Calls,
    @Interleaving Unicode.ascii WordTable.ascii ⟨id⟩ Deliverables.exampleSessions (fun _ => none)
      (fun _ _ => True) (start Deliverables.exampleEngagements) exampleLost w ∧
    (∀ c ∈ [1, 2, 3], (w.phase c).answered = true) ∧ ¬w.shared.Exact := by
  let _ := Unicode.ascii
  let _ := WordTable.ascii
  let _ : Parsers.Sanitizer := ⟨id⟩
  let taken := exampleLost.foldlM
    (fun s a => if True then next Deliverables.exampleSessions (fun _ => none) s a else none)
    (start Deliverables.exampleEngagements)
  have hrows : taken.map (fun w => ([1, 2, 3].all fun c => (w.phase c).answered,
      (w.shared.endpoints.get? "o1").map (·.observationCount), w.shared.number "o1")) =
        some (true, some 0, 1) := by decide +kernel
  obtain ⟨w, hw, hrows⟩ := Option.map_eq_some_iff.mp hrows
  simp only [Prod.mk.injEq] at hrows
  obtain ⟨hended, hcount, hnumber⟩ := hrows
  refine ⟨w, Lib.Run.of_foldlM hw, List.all_eq_true.mp hended, fun hexact => ?_⟩
  obtain ⟨e, he, hzero⟩ := Option.map_eq_some_iff.mp hcount
  have hone := hexact.counted "o1" e he
  omega

end VardrMap.ApiSurface
