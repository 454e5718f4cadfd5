import Dropless.Model

/-! The SQL statements of `store.rs`, one definition under each function's name. A
statement maps the rows it sees to its answer and to the row versions it writes;
`now` is the transaction's start time. Rows that `SKIP LOCKED` passes over are an
argument, since they depend on the locks of other transactions. -/
namespace Dropless

structure ConsumerSummary where
  id : Uuid
  tenantId : String
  uid : String
  name : Option String
  endpoints : Nat
  events : Nat
  createdAt : Time

namespace Store

variable {α : Type} [Record α]

def amended (old new : α) : Write := ⟨some (Record.row old), Record.row new⟩

/- `INSERT`, refused when a primary key or unique index is taken. -/
def insert (db : Db) (a : α) : Except DbError (List Write) :=
  if db.get? (Record.row a).key = none ∧ db.Admits (Record.row a) then .ok [⟨none, Record.row a⟩]
  else .error .unique

/- `UPDATE .. WHERE id = $1 AND guard`: the updated row, if one matched. -/
def update (db : Db) (id : Uuid) (guard : α → Bool) (set : α → α) : Option α × List Write :=
  match (db.find? id : Option α) with
  | some a => if guard a then (some (set a), [amended a (set a)]) else (none, [])
  | none => (none, [])

/- `REFERENCES`, checked against the rows the statement sees. -/
def references (α : Type) [Record α] (db : Db) (id : Uuid) : Except DbError Unit :=
  if (db.find? id : Option α).isSome then .ok () else .error .foreignKey

def referencesOpt (α : Type) [Record α] (db : Db) : Option Uuid → Except DbError Unit
  | none => .ok ()
  | some id => references α db id

def orderBy (time : α → Time) (rows : List α) : List α :=
  rows.insertionSort fun a b => time a ≤ time b

def orderByDesc (time : α → Time) (rows : List α) : List α :=
  rows.insertionSort fun a b => time b ≤ time a

def select (db : Db) (p : α → Bool) : List α := (db.all α).filter p

section Endpoints

def createEndpoint (id : Uuid) (tenantId : String) (consumerId : Option Uuid)
    (url secret : String) (eventTypes : Option (List String)) (now : Time) (db : Db) :
    Except DbError (Endpoint × List Write) := do
  referencesOpt Consumer db consumerId
  let row : Endpoint :=
    { id, tenantId, consumerId, url, secret, disabled := false, circuitState := "closed",
      circuitOpenUntil := none, consecutiveFailures := 0, eventTypes, createdAt := now,
      updatedAt := now }
  return (row, ← insert db row)

def activeEndpointsForScope (tenantId : String) (consumerId : Option Uuid) (db : Db) :
    List Endpoint :=
  orderBy Endpoint.createdAt (select db fun e =>
    e.tenantId = tenantId ∧ e.disabled = false ∧ e.consumerId = consumerId)

def listEndpoints (tenantId : String) (db : Db) : List Endpoint :=
  orderBy Endpoint.createdAt (select db fun e => e.tenantId = tenantId)

def listEndpointsForConsumer (consumerId : Uuid) (db : Db) : List Endpoint :=
  orderBy Endpoint.createdAt (select db fun e => e.consumerId = some consumerId)

def updateEndpoint (id : Uuid) (tenantId : String) (url : Option String)
    (disabled : Option Bool) (eventTypes : Option (List String)) (now : Time) (db : Db) :
    Option Endpoint × List Write :=
  update db id (fun e => e.tenantId = tenantId) fun e =>
    { e with
      url := url.getD e.url, disabled := disabled.getD e.disabled,
      eventTypes := eventTypes.or e.eventTypes, updatedAt := now }

def updateCircuit (endpointId : Uuid) (state : String) (openUntil : Option Time)
    (consecutiveFailures : Int32) (now : Time) (db : Db) : Unit × List Write :=
  ((), (update db endpointId (fun _ => true) fun e : Endpoint =>
    { e with
      circuitState := state, circuitOpenUntil := openUntil,
      consecutiveFailures := consecutiveFailures, updatedAt := now }).2)

def probeDue (now : Time) (e : Endpoint) : Bool :=
  (e.circuitState = "open" ∨ e.circuitState = "half_open") ∧
    e.circuitOpenUntil.all fun u => u ≤ now

def tryAcquireProbe (endpointId : Uuid) (leaseSecs : Int32) (now : Time) (db : Db) :
    Bool × List Write :=
  let (row, writes) := update db endpointId (probeDue now) fun e : Endpoint =>
    { e with
      circuitState := "half_open", circuitOpenUntil := some (now + seconds leaseSecs.toInt),
      updatedAt := now }
  (row.isSome, writes)

end Endpoints

section Consumers

/- `ON CONFLICT (tenant_id, uid) DO UPDATE`. -/
def createConsumer (id : Uuid) (tenantId uid : String) (name : Option String) (now : Time)
    (db : Db) : Except DbError (Consumer × List Write) :=
  match select db fun c : Consumer => c.tenantId = tenantId ∧ c.uid = uid with
  | c :: _ =>
    let row := { c with name := name.or c.name, updatedAt := now }
    .ok (row, [amended c row])
  | [] => do
    let row : Consumer := { id, tenantId, uid, name, createdAt := now, updatedAt := now }
    return (row, ← insert db row)

def getConsumer (tenantId uid : String) (db : Db) : Option Consumer :=
  (select db fun c : Consumer => c.tenantId = tenantId ∧ c.uid = uid).head?

def listConsumers (tenantId : String) (db : Db) : List ConsumerSummary :=
  (orderByDesc Consumer.createdAt (select db fun c => c.tenantId = tenantId)).map fun c =>
    { id := c.id, tenantId := c.tenantId, uid := c.uid, name := c.name,
      endpoints := (select db fun e : Endpoint => e.consumerId = some c.id).length,
      events := (select db fun e : Event => e.consumerId = some c.id).length,
      createdAt := c.createdAt }

end Consumers

section Inbound

def createInboundSource (id : Uuid) (tenantId slug provider secret : String) (now : Time)
    (db : Db) : Except DbError (InboundSource × List Write) := do
  let row : InboundSource :=
    { id, tenantId, slug, provider, secret, disabled := false, createdAt := now, updatedAt := now }
  return (row, ← insert db row)

def getInboundSourceBySlug (slug : String) (db : Db) : Option InboundSource :=
  (select db fun s : InboundSource => s.slug = slug).head?

def listInboundSources (tenantId : String) (db : Db) : List InboundSource :=
  orderBy InboundSource.createdAt (select db fun s => s.tenantId = tenantId)

/- The conflict target is the partial index: a NULL event id never conflicts. -/
def insertInboundEvent (id sourceId : Uuid) (tenantId : String) (sourceEventId : Option String)
    (eventType : String) (rawBody : Bytes) (now : Time) (db : Db) :
    Except DbError (Option Uuid × List Write) := do
  references InboundSource db sourceId
  let row : InboundEvent :=
    { id, sourceId, tenantId, sourceEventId, eventType, rawBody, eventId := none,
      receivedAt := now }
  if sourceEventId.isSome ∧ (select db fun r : InboundEvent =>
      r.sourceId = sourceId ∧ r.sourceEventId = sourceEventId) ≠ [] then
    return (none, [])
  else
    return (some id, ← insert db row)

def linkInboundEvent (inboundId eventId : Uuid) (db : Db) : Except DbError (Unit × List Write) := do
  references Event db eventId
  return ((), (update db inboundId (fun _ => true) fun r : InboundEvent =>
    { r with eventId := some eventId }).2)

end Inbound

section Events

def insertEvent (id : Uuid) (tenantId : String) (consumerId : Option Uuid) (eventType : String)
    (payload : Value) (now : Time) (db : Db) : Except DbError (Event × List Write) := do
  referencesOpt Consumer db consumerId
  let row : Event := { id, tenantId, consumerId, eventType, payload, createdAt := now }
  return (row, ← insert db row)

def listEvents (tenantId : String) (limit offset : Nat) (db : Db) : List Event :=
  ((orderByDesc Event.createdAt (select db fun e => e.tenantId = tenantId)).drop offset).take limit

def listEventsForConsumer (consumerId : Uuid) (limit offset : Nat) (db : Db) : List Event :=
  ((orderByDesc Event.createdAt (select db fun e => e.consumerId = some consumerId)).drop
    offset).take limit

def getEvent (id : Uuid) (db : Db) : Option Event := db.find? id

def getEndpoint (id : Uuid) (db : Db) : Option Endpoint := db.find? id

end Events

section Deliveries

/- The idempotency key is the delivery id; the other columns take their defaults. -/
def insertDelivery (id eventId endpointId : Uuid) (tenantId : String) (now : Time) (db : Db) :
    Except DbError (Unit × List Write) := do
  references Event db eventId
  references Endpoint db endpointId
  let row : Delivery :=
    { id, eventId, endpointId, tenantId, status := .pending, attemptCount := 0,
      nextAttemptAt := now, lockedUntil := none, lockedBy := none,
      idempotencyKey := uuidText id, lastError := none, createdAt := now, updatedAt := now }
  return ((), ← insert db row)

def getDelivery (id : Uuid) (db : Db) : Option Delivery := db.find? id

def deliveriesForEvent (eventId : Uuid) (db : Db) : List Delivery :=
  orderBy Delivery.createdAt (select db fun d => d.eventId = eventId)

def attemptsForDelivery (deliveryId : Uuid) (db : Db) : List DeliveryAttempt :=
  (select db fun a : DeliveryAttempt => a.deliveryId = deliveryId).insertionSort fun a b =>
    a.attemptNumber ≤ b.attemptNumber

/-- The claim predicate: due and retryable, or in progress with an expired lock. -/
def due (now : Time) (d : Delivery) : Bool :=
  ((d.status = .pending ∨ d.status = .failed) ∧ d.nextAttemptAt ≤ now) ∨
    (d.status = .inProgress ∧ d.lockedUntil.any fun u => u < now)

def claim (workerId : String) (lockSecs : Int32) (now : Time) (d : Delivery) : Delivery :=
  { d with
    status := .inProgress, lockedBy := some workerId,
    lockedUntil := some (now + seconds lockSecs.toInt), updatedAt := now }

/- `LIMIT` refuses a negative count. `RETURNING` promises no order; it is taken to be that of the
subquery. -/
def claimDueDeliveries (workerId : String) (batch : Int) (lockSecs : Int32) (now : Time)
    (skipped : List Uuid) (db : Db) : Except DbError (List Delivery × List Write) :=
  if batch < 0 then .error .other
  else
    let picked := (orderBy Delivery.nextAttemptAt
      (select db fun d => due now d ∧ d.id ∉ skipped)).take batch.toNat
    .ok (picked.map (claim workerId lockSecs now),
      picked.map fun d => amended d (claim workerId lockSecs now d))

def recordAttempt (a : DeliveryAttempt) (db : Db) : Except DbError (Unit × List Write) := do
  references Delivery db a.deliveryId
  return ((), ← insert db a)

/-- The lease guard: `locked_by = $w AND locked_until > now()`. -/
def leased (workerId : String) (now : Time) (d : Delivery) : Bool :=
  d.lockedBy = some workerId ∧ d.lockedUntil.any fun u => now < u

def underLease (id : Uuid) (workerId : String) (set : Delivery → Delivery) (now : Time)
    (db : Db) : Bool × List Write :=
  let (row, writes) := update db id (leased workerId now) fun d =>
    { set d with lockedBy := none, lockedUntil := none, updatedAt := now }
  (row.isSome, writes)

def markSucceeded (id : Uuid) (workerId : String) (attemptCount : Int32) (now : Time) (db : Db) :
    Bool × List Write :=
  underLease id workerId
    (fun d => { d with status := .succeeded, attemptCount, lastError := none }) now db

def markFailed (id : Uuid) (workerId : String) (attemptCount : Int32) (nextAttemptAt : Time)
    (error : String) (now : Time) (db : Db) : Bool × List Write :=
  underLease id workerId
    (fun d => { d with status := .failed, attemptCount, nextAttemptAt, lastError := some error })
    now db

def deferDelivery (id : Uuid) (workerId : String) (nextAttemptAt : Time) (now : Time) (db : Db) :
    Bool × List Write :=
  underLease id workerId (fun d => { d with status := .failed, nextAttemptAt }) now db

/- The `UPDATE` of `mark_dead_on`; it does not set `attempt_count`. -/
def markDeadUpdate (id : Uuid) (workerId reason : String) (now : Time) (db : Db) :
    Bool × List Write :=
  underLease id workerId (fun d => { d with status := .dead, lastError := some reason }) now db

/- The `INSERT` of `mark_dead_on`. -/
def insertDeadLetter (id deliveryId eventId endpointId : Uuid) (reason : String) (now : Time)
    (db : Db) : Except DbError (Unit × List Write) := do
  references Delivery db deliveryId
  let row : DeadLetter :=
    { id, deliveryId, eventId, endpointId, reason := some reason, createdAt := now }
  return ((), ← insert db row)

def resetForReplay (deliveryId : Uuid) (now : Time) (db : Db) : Bool × List Write :=
  let (row, writes) := update db deliveryId (fun _ => true) fun d : Delivery =>
    { d with
      status := .pending, nextAttemptAt := now, lockedBy := none, lockedUntil := none,
      updatedAt := now }
  (row.isSome, writes)

end Deliveries

section ApiKeys

def tenantForApiKey (keyHash : String) (db : Db) : Option String :=
  (select db fun k : ApiKey => k.keyHash = keyHash).head?.map (·.tenantId)

/- `ON CONFLICT (key_hash) DO NOTHING`. -/
def insertApiKey (id : Uuid) (tenantId keyHash : String) (now : Time) (db : Db) :
    Except DbError (Unit × List Write) :=
  if (select db fun k : ApiKey => k.keyHash = keyHash) ≠ [] then .ok ((), [])
  else do
    let row : ApiKey := { id, tenantId, keyHash, createdAt := now }
    return ((), ← insert db row)

end ApiKeys

section Admin

structure TenantStat where
  tenantId : String
  endpoints : Nat
  events : Nat
  succeeded : Nat
  failed : Nat
  dead : Nat

def tenantStat (db : Db) (tenantId : String) : TenantStat where
  tenantId := tenantId
  endpoints := (select db fun e : Endpoint => e.tenantId = tenantId).length
  events := (select db fun e : Event => e.tenantId = tenantId).length
  succeeded := (select db fun d : Delivery => d.tenantId = tenantId ∧ d.status = .succeeded).length
  failed := (select db fun d : Delivery => d.tenantId = tenantId ∧ d.status = .failed).length
  dead := (select db fun d : Delivery => d.tenantId = tenantId ∧ d.status = .dead).length

/- Busiest first; how texts compare is the database's collation. -/
def adminTenantStats (collation : String → String → Bool) (db : Db) : List TenantStat :=
  (((db.all ApiKey).map (·.tenantId)).eraseDups.map (tenantStat db)).insertionSort fun a b =>
    b.events < a.events ∨ (b.events = a.events ∧ collation a.tenantId b.tenantId)

structure RecentFailure where
  tenantId : String
  eventType : String
  endpointUrl : String
  status : DeliveryStatus
  attemptCount : Int32
  lastError : Option String
  updatedAt : Time
  deliveryId : Uuid

def recentFailure (db : Db) (d : Delivery) : Option RecentFailure := do
  let ev : Event ← db.find? d.eventId
  let e : Endpoint ← db.find? d.endpointId
  return { tenantId := d.tenantId, eventType := ev.eventType, endpointUrl := e.url, status :=
    d.status, attemptCount := d.attemptCount, lastError := d.lastError, updatedAt := d.updatedAt,
           deliveryId := d.id }

def adminRecentFailures (limit : Nat) (db : Db) : List RecentFailure :=
  (((select db fun d => d.status = .failed ∨ d.status = .dead).filterMap
    (recentFailure db)).insertionSort fun a b => b.updatedAt ≤ a.updatedAt).take limit

end Admin

end Store

end Dropless
