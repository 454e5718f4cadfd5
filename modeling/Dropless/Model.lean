import Mathlib.Algebra.Group.Int.Defs
import Mathlib.Algebra.Group.Nat.Defs
import Mathlib.Data.List.Sort
import Dropless.Txn.Logic

/-! The rows of the engine and the tables they are filed in: `model.rs` and the five
migrations. A `timestamptz` is a number of microseconds, a `uuid` its 128 bits, an
`integer` column an `Int32`, a `bytea` a list of bytes. -/
namespace Dropless

abbrev Time := Int
abbrev Uuid := BitVec 128
abbrev Bytes := List UInt8

def seconds (n : Int) : Time := n * 1000000

def hexDigit (n : Nat) : Char := if n < 10 then .ofNat (48 + n) else .ofNat (87 + n)

def hexText (width value : Nat) : List Char :=
  (List.range width).map fun i => hexDigit (value / 16 ^ (width - 1 - i) % 16)

/- The hyphenated lowercase form that `Uuid::to_string` prints. -/
def uuidText (u : Uuid) : String :=
  .ofList (hexText 8 (u.toNat / 2 ^ 96) ++ '-' :: hexText 4 (u.toNat / 2 ^ 80) ++
    '-' :: hexText 4 (u.toNat / 2 ^ 64) ++ '-' :: hexText 4 (u.toNat / 2 ^ 48) ++
    '-' :: hexText 12 u.toNat)

/- `serde_json::Value`; a number is kept as the text it prints. -/
inductive Value where
  | null
  | bool (b : Bool)
  | number (text : String)
  | string (s : String)
  | array (items : List Value)
  | object (fields : List (String × Value))

namespace Value

/- `Value::get` with a string key: objects only. -/
def get : Value → String → Option Value
  | .object fields, name => (fields.find? (·.1 = name)).map (·.2)
  | _, _ => none

def asStr : Value → Option String
  | .string s => some s
  | _ => none

end Value

/- What `sqlx` reports; only a unique violation is told apart by the callers. -/
inductive DbError where
  | unique
  | foreignKey
  | other
deriving DecidableEq

inductive CoreError where
  | db (e : DbError)
  | signing (msg : String)
  | notFound (msg : String)
  | invalid (msg : String)
deriving DecidableEq

inductive DeliveryStatus where
  | pending
  | inProgress
  | succeeded
  | failed
  | dead
deriving DecidableEq

structure Consumer where
  id : Uuid
  tenantId : String
  uid : String
  name : Option String
  createdAt : Time
  updatedAt : Time

structure Event where
  id : Uuid
  tenantId : String
  consumerId : Option Uuid
  eventType : String
  payload : Value
  createdAt : Time

structure Endpoint where
  id : Uuid
  tenantId : String
  consumerId : Option Uuid
  url : String
  secret : String
  disabled : Bool
  circuitState : String
  circuitOpenUntil : Option Time
  consecutiveFailures : Int32
  eventTypes : Option (List String)
  createdAt : Time
  updatedAt : Time
deriving DecidableEq

structure Delivery where
  id : Uuid
  eventId : Uuid
  endpointId : Uuid
  tenantId : String
  status : DeliveryStatus
  attemptCount : Int32
  nextAttemptAt : Time
  lockedUntil : Option Time
  lockedBy : Option String
  idempotencyKey : String
  lastError : Option String
  createdAt : Time
  updatedAt : Time
deriving DecidableEq

structure DeliveryAttempt where
  id : Uuid
  deliveryId : Uuid
  attemptNumber : Int32
  statusCode : Option Int32
  responseSnippet : Option String
  error : Option String
  startedAt : Time
  finishedAt : Time
deriving DecidableEq

structure DeadLetter where
  id : Uuid
  deliveryId : Uuid
  eventId : Uuid
  endpointId : Uuid
  reason : Option String
  createdAt : Time
deriving DecidableEq

structure ApiKey where
  id : Uuid
  tenantId : String
  keyHash : String
  createdAt : Time
deriving DecidableEq

structure InboundSource where
  id : Uuid
  tenantId : String
  slug : String
  provider : String
  secret : String
  disabled : Bool
  createdAt : Time
  updatedAt : Time
deriving DecidableEq

structure InboundEvent where
  id : Uuid
  sourceId : Uuid
  tenantId : String
  sourceEventId : Option String
  eventType : String
  rawBody : Bytes
  eventId : Option Uuid
  receivedAt : Time
deriving DecidableEq

namespace Endpoint

/- `str::strip_suffix('*')`. -/
def stripStar (pattern : String) : Option (List Char) :=
  if pattern.toList.getLast? = some '*' then some pattern.toList.dropLast else none

def subscribesTo (e : Endpoint) (eventType : String) : Bool :=
  match e.eventTypes with
  | none => true
  | some [] => true
  | some list => list.any fun p =>
      if p = "*" then true
      else match stripStar p with
        | some stem => stem.isPrefixOf eventType.toList
        | none => p = eventType

end Endpoint

inductive Table where
  | endpoints
  | events
  | deliveries
  | deliveryAttempts
  | deadLetters
  | apiKeys
  | inboundSources
  | inboundEvents
  | consumers
deriving DecidableEq

structure Key where
  table : Table
  id : Uuid
deriving DecidableEq

/- The unique constraints besides the primary keys. -/
inductive Index where
  | delivery (event endpoint : Uuid)
  | keyHash (hash : String)
  | slug (slug : String)
  | inbound (source : Uuid) (sourceEvent : String)
  | consumer (tenant uid : String)
deriving DecidableEq

inductive Row where
  | endpoint (r : Endpoint)
  | event (r : Event)
  | delivery (r : Delivery)
  | attempt (r : DeliveryAttempt)
  | deadLetter (r : DeadLetter)
  | apiKey (r : ApiKey)
  | source (r : InboundSource)
  | inbound (r : InboundEvent)
  | consumer (r : Consumer)

namespace Row

def key : Row → Key
  | .endpoint r => ⟨.endpoints, r.id⟩
  | .event r => ⟨.events, r.id⟩
  | .delivery r => ⟨.deliveries, r.id⟩
  | .attempt r => ⟨.deliveryAttempts, r.id⟩
  | .deadLetter r => ⟨.deadLetters, r.id⟩
  | .apiKey r => ⟨.apiKeys, r.id⟩
  | .source r => ⟨.inboundSources, r.id⟩
  | .inbound r => ⟨.inboundEvents, r.id⟩
  | .consumer r => ⟨.consumers, r.id⟩

def index : Row → List Index
  | .delivery r => [.delivery r.eventId r.endpointId]
  | .apiKey r => [.keyHash r.keyHash]
  | .source r => [.slug r.slug]
  | .inbound r => (r.sourceEventId.map (.inbound r.sourceId)).toList
  | .consumer r => [.consumer r.tenantId r.uid]
  | _ => []

end Row

def schema : Txn.Schema Row Key Index := ⟨Row.key, Row.index⟩

abbrev Db := Txn.Store schema
abbrev Write := Txn.Write Row

/-- A row type together with its table. -/
class Record (α : Type) where
  table : Table
  id : α → Uuid
  row : α → Row
  ofRow : Row → Option α
  ofRow_iff : ∀ {r a}, ofRow r = some a ↔ r = row a
  ofRow_table : ∀ {r}, r.key.table = table → (ofRow r).isSome
  key_row : ∀ a, (row a).key = ⟨table, id a⟩

namespace Row

def endpoint? : Row → Option Endpoint | .endpoint r => some r | _ => none
def event? : Row → Option Event | .event r => some r | _ => none
def delivery? : Row → Option Delivery | .delivery r => some r | _ => none
def attempt? : Row → Option DeliveryAttempt | .attempt r => some r | _ => none
def deadLetter? : Row → Option DeadLetter | .deadLetter r => some r | _ => none
def apiKey? : Row → Option ApiKey | .apiKey r => some r | _ => none
def source? : Row → Option InboundSource | .source r => some r | _ => none
def inbound? : Row → Option InboundEvent | .inbound r => some r | _ => none
def consumer? : Row → Option Consumer | .consumer r => some r | _ => none

end Row

instance : Record Endpoint where
  table := .endpoints
  id := Endpoint.id
  row := .endpoint
  ofRow := Row.endpoint?
  ofRow_iff {r a} := by cases r <;> simp [Row.endpoint?]
  ofRow_table {r} h := by cases r <;> first | rfl | cases h
  key_row _ := rfl

instance : Record Event where
  table := .events
  id := Event.id
  row := .event
  ofRow := Row.event?
  ofRow_iff {r a} := by cases r <;> simp [Row.event?]
  ofRow_table {r} h := by cases r <;> first | rfl | cases h
  key_row _ := rfl

instance : Record Delivery where
  table := .deliveries
  id := Delivery.id
  row := .delivery
  ofRow := Row.delivery?
  ofRow_iff {r a} := by cases r <;> simp [Row.delivery?]
  ofRow_table {r} h := by cases r <;> first | rfl | cases h
  key_row _ := rfl

instance : Record DeliveryAttempt where
  table := .deliveryAttempts
  id := DeliveryAttempt.id
  row := .attempt
  ofRow := Row.attempt?
  ofRow_iff {r a} := by cases r <;> simp [Row.attempt?]
  ofRow_table {r} h := by cases r <;> first | rfl | cases h
  key_row _ := rfl

instance : Record DeadLetter where
  table := .deadLetters
  id := DeadLetter.id
  row := .deadLetter
  ofRow := Row.deadLetter?
  ofRow_iff {r a} := by cases r <;> simp [Row.deadLetter?]
  ofRow_table {r} h := by cases r <;> first | rfl | cases h
  key_row _ := rfl

instance : Record ApiKey where
  table := .apiKeys
  id := ApiKey.id
  row := .apiKey
  ofRow := Row.apiKey?
  ofRow_iff {r a} := by cases r <;> simp [Row.apiKey?]
  ofRow_table {r} h := by cases r <;> first | rfl | cases h
  key_row _ := rfl

instance : Record InboundSource where
  table := .inboundSources
  id := InboundSource.id
  row := .source
  ofRow := Row.source?
  ofRow_iff {r a} := by cases r <;> simp [Row.source?]
  ofRow_table {r} h := by cases r <;> first | rfl | cases h
  key_row _ := rfl

instance : Record InboundEvent where
  table := .inboundEvents
  id := InboundEvent.id
  row := .inbound
  ofRow := Row.inbound?
  ofRow_iff {r a} := by cases r <;> simp [Row.inbound?]
  ofRow_table {r} h := by cases r <;> first | rfl | cases h
  key_row _ := rfl

instance : Record Consumer where
  table := .consumers
  id := Consumer.id
  row := .consumer
  ofRow := Row.consumer?
  ofRow_iff {r a} := by cases r <;> simp [Row.consumer?]
  ofRow_table {r} h := by cases r <;> first | rfl | cases h
  key_row _ := rfl

namespace Db

variable {α β : Type} [Record α] [Record β]

def all (α : Type) [Record α] (db : Db) : List α := db.rows.filterMap Record.ofRow

def find? (db : Db) (id : Uuid) : Option α :=
  (db.get? ⟨Record.table α, id⟩).bind Record.ofRow

end Db

end Dropless
