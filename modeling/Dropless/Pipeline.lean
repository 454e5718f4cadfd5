import Dropless.Client

/-! The programs of the core crate: the outbox and the inbox (`outbox.rs`,
`inbox.rs`) and the dispatch worker (`dispatcher.rs`). -/
namespace Dropless

structure Enqueued where
  eventId : Uuid
  deliveryIds : List Uuid
deriving DecidableEq

inductive Accepted where
  | duplicate
  | bridged (inboundId eventId : Uuid) (deliveryIds : List Uuid)
deriving DecidableEq

/- One delivery per endpoint, the ids in the order of the endpoints. -/
def insertDeliveries (eventId : Uuid) (tenantId : String) : List Endpoint → Io (List Uuid)
  | [] => pure []
  | e :: rest => do
    let deliveryId ← newUuid
    query (.insertDelivery deliveryId eventId e.id tenantId)
    let ids ← insertDeliveries eventId tenantId rest
    return deliveryId :: ids

namespace Outbox

def enqueueMessage (tenantId : String) (consumerId : Option Uuid) (eventType : String)
    (payload : Value) : Io Enqueued := do
  let eventId ← newUuid
  begin
  let _ ← query (.insertEvent eventId tenantId consumerId eventType payload)
  let endpoints : List Endpoint ← query (.activeEndpointsForScope tenantId consumerId)
  let deliveryIds ← insertDeliveries eventId tenantId (endpoints.filter (·.subscribesTo eventType))
  commit
  return { eventId, deliveryIds }

end Outbox

namespace Inbox

def accept (source : InboundSource) (sourceEventId : Option String) (eventType : String)
    (rawBody : Bytes) (payload : Value) : Io Accepted := do
  begin
  let inboundId ← newUuid
  let inserted : Option Uuid ← query
    (.insertInboundEvent inboundId source.id source.tenantId sourceEventId eventType rawBody)
  match inserted with
  | none =>
    rollback
    return .duplicate
  | some inboundId =>
    let eventId ← newUuid
    let _ ← query (.insertEvent eventId source.tenantId none eventType payload)
    let endpoints : List Endpoint ← query (.activeEndpointsForScope source.tenantId none)
    let deliveryIds ←
      insertDeliveries eventId source.tenantId (endpoints.filter (·.subscribesTo eventType))
    query (.linkInboundEvent inboundId eventId)
    commit
    return .bridged inboundId eventId deliveryIds

end Inbox

structure DispatcherConfig where
  workerCount : Nat
  batchSize : Int
  lockSecs : Int32
  retry : RetryPolicy
  circuit : CircuitPolicy

/- The text that `CoreError` prints; the detail of a database error is left out. -/
def CoreError.text : CoreError → String
  | .db _ => "database error: "
  | .signing m => "signing error: " ++ m
  | .notFound m => "not found: " ++ m
  | .invalid m => "invalid value: " ++ m

namespace Dispatcher

def responseSnippetLen : Nat := 500

def disabledRecheckSecs : Int := 60

def default : DispatcherConfig := ⟨4, 32, 30, .default, Circuit.default⟩

def isCharBoundary : List Char → Nat → Bool
  | _, 0 => true
  | [], _ => false
  | c :: cs, n => c.utf8Size ≤ n ∧ isCharBoundary cs (n - c.utf8Size)

/- The loop of `truncate`: back off to a character boundary. -/
def backOff (cs : List Char) : Nat → Nat
  | 0 => 0
  | n + 1 => if isCharBoundary cs (n + 1) then n + 1 else backOff cs n

def sliceTo : List Char → Nat → List Char
  | [], _ => []
  | c :: cs, n => if c.utf8Size ≤ n then c :: sliceTo cs (n - c.utf8Size) else []

def truncate (s : String) (max : Nat) : String :=
  if s.utf8ByteSize ≤ max then s else .ofList (sliceTo s.toList (backOff s.toList max))

example : truncate "hello" 3 = "hel" ∧ truncate "✓" 2 = "" := by decide

def backoff (p : RetryPolicy) (attempt : Int32) : Io Nat := do
  if p.ceilingMillis attempt = 0 then return 0
  else
    let drawn : Fin (p.ceilingMillis attempt + 1) ← ask (.jitter (p.ceilingMillis attempt))
    return drawn

def recordAttempt (deliveryId : Uuid) (attemptNumber : Int32) (statusCode : Option Int32)
    (responseSnippet error : Option String) (startedAt finishedAt : Time) : Io Unit := do
  let id ← newUuid
  query (.recordAttempt
    { id, deliveryId, attemptNumber, statusCode, responseSnippet, error, startedAt, finishedAt })

def markDeadOn (d : Delivery) (workerId reason : String) : Io Bool := do
  let applied : Bool ← query (.markDeadUpdate d.id workerId reason)
  if applied then
    let id ← newUuid
    query (.insertDeadLetter id d.id d.eventId d.endpointId reason)
    return true
  else return false

def markDead (d : Delivery) (workerId reason : String) : Io Unit := do
  begin
  let applied ← markDeadOn d workerId reason
  if applied then commit else rollback

def updateCircuit (endpointId : Uuid) (u : CircuitUpdate) : Io Unit :=
  query (.updateCircuit endpointId u.state u.openUntil u.consecutiveFailures)

/- Dead-letter an exhausted delivery, or schedule its retry. -/
def failed (cfg : DispatcherConfig) (workerId : String) (d : Delivery) (attemptNumber : Int32)
    (error : String) : Io Bool := do
  if cfg.retry.isExhausted attemptNumber then markDeadOn d workerId error
  else
    let now ← utcNow
    let millis ← backoff cfg.retry attemptNumber
    query (.markFailed d.id workerId attemptNumber (now + RetryPolicy.delay millis) error)

def fail (cfg : DispatcherConfig) (workerId : String) (d : Delivery) (e : Endpoint)
    (attemptNumber : Int32) (statusCode : Option Int32) (snippet : Option String)
    (error : String) (startedAt finishedAt : Time) : Io Unit := do
  begin
  recordAttempt d.id attemptNumber statusCode snippet (some error) startedAt finishedAt
  let applied ← failed cfg workerId d attemptNumber error
  if applied then
    let now ← utcNow
    updateCircuit e.id (Circuit.onFailure e cfg.circuit now)
    commit
  else rollback

/- The outcome transaction of a 2xx answer. -/
def succeed (workerId : String) (d : Delivery) (e : Endpoint) (attemptNumber code : Int32)
    (snippet : String) (startedAt finishedAt : Time) : Io Unit := do
  begin
  recordAttempt d.id attemptNumber (some code) (some snippet) none startedAt finishedAt
  let applied : Bool ← query (.markSucceeded d.id workerId attemptNumber)
  if applied then
    updateCircuit e.id Circuit.onSuccess
    commit
  else rollback

/- What the answer of the POST leads to. -/
def resolve (cfg : DispatcherConfig) (workerId : String) (d : Delivery) (e : Endpoint)
    (attemptNumber : Int32) (startedAt finishedAt : Time) : Except String Response → Io Unit
  | .ok resp =>
    let snippet := truncate resp.text responseSnippetLen
    if resp.isSuccess then
      succeed workerId d e attemptNumber resp.code snippet startedAt finishedAt
    else
      fail cfg workerId d e attemptNumber (some resp.code) (some snippet)
        ("non-2xx status " ++ toString resp.code.toInt) startedAt finishedAt
  | .error err => fail cfg workerId d e attemptNumber none none err startedAt finishedAt

/- From the event on: serialize, sign, POST, record. -/
def deliver (κ : Prims) (cfg : DispatcherConfig) (workerId : String) (d : Delivery)
    (e : Endpoint) (now : Time) : Io Unit := do
  let found : Option Event ← query (.getEvent d.eventId)
  match found with
  | none => markDead d workerId "event no longer exists"
  | some event =>
    match κ.toVec event.payload with
    | .error err => markDead d workerId ("payload not serializable: " ++ err)
    | .ok body =>
      let attemptNumber := d.attemptCount + 1
      let timestamp := Int64.ofInt (now / 1000000)
      match Signing.signatureHeaders κ e.secret (uuidText d.id) timestamp body with
      | .error err => markDead d workerId ("cannot sign request: " ++ err.text)
      | .ok headers =>
        let startedAt ← utcNow
        -- `send()` with the client's redirects, which `build_client` leaves at their default: the
        -- answer is the last one
        let result ← ask (.post
          { url := e.url, idempotencyKey := d.idempotencyKey, webhookId := headers.id,
            webhookTimestamp := headers.timestamp, webhookSignature := headers.signature,
            eventType := event.eventType, body })
        let finishedAt ← utcNow
        resolve cfg workerId d e attemptNumber startedAt finishedAt result

def deferDelivery (d : Delivery) (workerId : String) (next : Time) : Io Unit := do
  let _ ← query (.deferDelivery d.id workerId next)

/- From the endpoint on: the disabled flag and the circuit breaker. -/
def consult (κ : Prims) (cfg : DispatcherConfig) (workerId : String) (d : Delivery)
    (e : Endpoint) (now : Time) : Io Unit := do
  if e.disabled then deferDelivery d workerId (now + seconds disabledRecheckSecs)
  else match Circuit.gate e now with
    | .skip deadline => deferDelivery d workerId deadline
    | .probe =>
      let acquired : Bool ← query (.tryAcquireProbe e.id (Circuit.probeLease cfg.circuit))
      if acquired then deliver κ cfg workerId d e now
      else deferDelivery d workerId (now + cfg.circuit.openDuration)
    | .allow => deliver κ cfg workerId d e now

def processOne (κ : Prims) (cfg : DispatcherConfig) (workerId : String) (d : Delivery) :
    Io Unit := do
  let now ← utcNow
  let found : Option Endpoint ← query (.getEndpoint d.endpointId)
  match found with
  | none => markDead d workerId "endpoint no longer exists"
  | some e => consult κ cfg workerId d e now

end Dispatcher

end Dropless
