import Dropless.Pipeline

namespace Dropless

abbrev Headers := List (String × Bytes)

namespace Api

/- `HeaderValue::to_str`: visible ASCII and tab only. -/
def toStr (value : Bytes) : Option String :=
  if value.all fun b => (32 ≤ b ∧ b < 127) ∨ b = 9 then
    some (.ofList (value.map fun b => .ofNat b.toNat))
  else none

def headerStr (headers : Headers) (name : String) : Option String :=
  (headers.find? (·.1 = name)).bind fun h => toStr h.2

/- `serde` skips the secret of an endpoint or a source. -/
def hideSecret (e : Endpoint) : Endpoint := { e with secret := "" }

def hideSourceSecret (s : InboundSource) : InboundSource := { s with secret := "" }

inductive Body where
  | empty
  | text (s : String)
  | error (message : String)
  | message (id : Uuid) (deliveryIds : List Uuid)
  | events (events : List Event)
  | eventDetail (event : Event) (deliveries : List Delivery)
  | deliveryDetail (delivery : Delivery) (attempts : List DeliveryAttempt)
  | endpoint (e : Endpoint)
  | createdEndpoint (e : Endpoint) (secret : String)
  | endpoints (es : List Endpoint)
  | consumer (c : Consumer)
  | consumers (cs : List ConsumerSummary)
  | createdSource (s : InboundSource) (secret : String)
  | sources (ss : List InboundSource)
  | accepted (eventId : Uuid) (deliveries : Nat)
  | duplicate

structure Answer where
  status : Nat
  retryAfter : Option Nat
  body : Body

def answer (status : Nat) (body : Body) : Answer := ⟨status, none, body⟩

/- `impl From<CoreError> for ApiError`. -/
def apiError : CoreError → Answer
  | .notFound m => answer 404 (.error m)
  | .invalid m => answer 400 (.error m)
  | .db .unique => answer 409 (.error "already exists")
  | _ => answer 500 (.error "internal error")

def orNotFound {α : Type} (what : String) : Option α → Io α
  | some a => pure a
  | none => throw (.notFound what)

inductive Request where
  | createMessage (eventType : String) (payload : Value)
  | listMessages (limit offset : Option Int)
  | getMessage (id : Uuid)
  | getDeliveryDetail (id : Uuid)
  | replayDelivery (id : Uuid)
  | createEndpoint (url : String) (secret : Option String) (eventTypes : Option (List String))
  | listEndpoints
  | getEndpoint (id : Uuid)
  | updateEndpoint (id : Uuid) (url : Option String) (disabled : Option Bool)
      (eventTypes : Option (List String))
  | createConsumer (uid : String) (name : Option String)
  | listConsumers
  | getConsumer (uid : String)
  | createConsumerEndpoint (uid url : String) (secret : Option String)
      (eventTypes : Option (List String))
  | listConsumerEndpoints (uid : String)
  | createConsumerMessage (uid eventType : String) (payload : Value)
  | listConsumerMessages (uid : String) (limit offset : Option Int)
  | createInboundSource (slug provider : String) (secret : Option String)
  | listInboundSources

section Handlers

variable (κ : Prims) (tenant : String)

def rateLimited (retryAfter : Nat) : Answer :=
  ⟨429, some retryAfter, .error "rate limit exceeded"⟩

def enqueued (e : Enqueued) : Answer := answer 201 (.message e.eventId e.deliveryIds)

def createMessage (eventType : String) (payload : Value) : Io Answer := do
  let limited : Option Nat ← ask (.rateLimit tenant)
  match limited with
  | some retryAfter => return rateLimited retryAfter
  | none => return enqueued (← Outbox.enqueueMessage tenant none eventType payload)

def pageLimit (limit : Option Int) : Nat := (min (max (limit.getD 50) 1) 200).toNat

def pageOffset (offset : Option Int) : Nat := (max (offset.getD 0) 0).toNat

def listMessages (limit offset : Option Int) : Io Answer := do
  let events ← query (.listEvents tenant (pageLimit limit) (pageOffset offset))
  return answer 200 (.events events)

def getMessage (id : Uuid) : Io Answer := do
  let event : Event ← orNotFound ("event " ++ uuidText id) (← query (.getEvent id))
  if event.tenantId ≠ tenant then throw (.notFound ("event " ++ uuidText id))
  let deliveries ← query (.deliveriesForEvent id)
  return answer 200 (.eventDetail event deliveries)

def getDeliveryDetail (id : Uuid) : Io Answer := do
  let found : Option Delivery ← query (.getDelivery id)
  let delivery ← orNotFound ("delivery " ++ uuidText id) (found.filter (·.tenantId = tenant))
  let attempts ← query (.attemptsForDelivery id)
  return answer 200 (.deliveryDetail delivery attempts)

def requireDelivery (id : Uuid) : Io Delivery := do
  orNotFound ("delivery " ++ uuidText id) (← query (.getDelivery id))

def replayDelivery (id : Uuid) : Io Answer := do
  let delivery ← requireDelivery id
  if delivery.tenantId ≠ tenant then throw (.notFound ("delivery " ++ uuidText id))
  let _ ← query (.resetForReplay id)
  return answer 202 .empty

def storeEndpoint (consumerId : Option Uuid) (url secret : String)
    (eventTypes : Option (List String)) : Io Endpoint := do
  let id ← newUuid
  query (.createEndpoint id tenant consumerId url secret eventTypes)

def secretOr (given : Option String) : Io String :=
  match given with
  | some secret => pure secret
  | none => ask .generateSecret

def createEndpoint (url : String) (secret : Option String)
    (eventTypes : Option (List String)) : Io Answer := do
  let secret ← secretOr secret
  let e ← storeEndpoint tenant none url secret eventTypes
  return answer 201 (.createdEndpoint (hideSecret e) secret)

def listEndpoints : Io Answer := do
  let es : List Endpoint ← query (.listEndpoints tenant)
  return answer 200 (.endpoints (es.map hideSecret))

def getEndpoint (id : Uuid) : Io Answer := do
  let found : Option Endpoint ← query (.getEndpoint id)
  let e ← orNotFound ("endpoint " ++ uuidText id) (found.filter (·.tenantId = tenant))
  return answer 200 (.endpoint (hideSecret e))

def updateEndpoint (id : Uuid) (url : Option String) (disabled : Option Bool)
    (eventTypes : Option (List String)) : Io Answer := do
  let found : Option Endpoint ← query (.updateEndpoint id tenant url disabled eventTypes)
  let e ← orNotFound ("endpoint " ++ uuidText id) found
  return answer 200 (.endpoint (hideSecret e))

def resolveConsumer (uid : String) : Io Consumer := do
  orNotFound ("consumer " ++ uid) (← query (.getConsumer tenant uid))

def storeConsumer (uid : String) (name : Option String) : Io Consumer := do
  let id ← newUuid
  query (.createConsumer id tenant uid name)

def createConsumer (uid : String) (name : Option String) : Io Answer := do
  if trim uid.toList = [] then throw (.invalid "uid must not be empty")
  return answer 201 (.consumer (← storeConsumer tenant uid name))

def listConsumers : Io Answer := do
  return answer 200 (.consumers (← query (.listConsumers tenant)))

def getConsumer (uid : String) : Io Answer := do
  return answer 200 (.consumer (← resolveConsumer tenant uid))

def createConsumerEndpoint (uid url : String) (secret : Option String)
    (eventTypes : Option (List String)) : Io Answer := do
  let consumer ← resolveConsumer tenant uid
  let secret ← secretOr secret
  let e ← storeEndpoint tenant (some consumer.id) url secret eventTypes
  return answer 201 (.createdEndpoint (hideSecret e) secret)

def listConsumerEndpoints (uid : String) : Io Answer := do
  let consumer ← resolveConsumer tenant uid
  let es : List Endpoint ← query (.listEndpointsForConsumer consumer.id)
  return answer 200 (.endpoints (es.map hideSecret))

def createConsumerMessage (uid eventType : String) (payload : Value) : Io Answer := do
  let limited : Option Nat ← ask (.rateLimit tenant)
  match limited with
  | some retryAfter => return rateLimited retryAfter
  | none =>
    let consumer ← resolveConsumer tenant uid
    return enqueued (← Outbox.enqueueMessage tenant (some consumer.id) eventType payload)

def listConsumerMessages (uid : String) (limit offset : Option Int) : Io Answer := do
  let consumer ← resolveConsumer tenant uid
  let events ← query (.listEventsForConsumer consumer.id (pageLimit limit) (pageOffset offset))
  return answer 200 (.events events)

def storeInboundSource (slug provider secret : String) : Io InboundSource := do
  let id ← newUuid
  query (.createInboundSource id tenant slug provider secret)

/- `?` on a pure result. -/
def ofExcept {α : Type} : Except CoreError α → Io α
  | .ok a => pure a
  | .error e => throw e

def checkedSecret : Option String → Io String
  | some s =>
    if s.utf8ByteSize < 16 then throw (.invalid "secret must be at least 16 characters")
    else pure s
  | none => ask .generateSecret

def createInboundSource (slug provider : String) (secret : Option String) : Io Answer := do
  let _ ← ofExcept (Inbound.parseProvider κ provider)
  let secret ← checkedSecret secret
  let source ← storeInboundSource tenant slug provider secret
  return answer 201 (.createdSource (hideSourceSecret source) secret)

def listInboundSources : Io Answer := do
  let sources : List InboundSource ← query (.listInboundSources tenant)
  return answer 200 (.sources (sources.map hideSourceSecret))

def handle : Request → Io Answer
  | .createMessage type payload => createMessage tenant type payload
  | .listMessages limit offset => listMessages tenant limit offset
  | .getMessage id => getMessage tenant id
  | .getDeliveryDetail id => getDeliveryDetail tenant id
  | .replayDelivery id => replayDelivery tenant id
  | .createEndpoint url secret types => createEndpoint tenant url secret types
  | .listEndpoints => listEndpoints tenant
  | .getEndpoint id => getEndpoint tenant id
  | .updateEndpoint id url disabled types => updateEndpoint tenant id url disabled types
  | .createConsumer uid name => createConsumer tenant uid name
  | .listConsumers => listConsumers tenant
  | .getConsumer uid => getConsumer tenant uid
  | .createConsumerEndpoint uid url secret types =>
      createConsumerEndpoint tenant uid url secret types
  | .listConsumerEndpoints uid => listConsumerEndpoints tenant uid
  | .createConsumerMessage uid type payload => createConsumerMessage tenant uid type payload
  | .listConsumerMessages uid limit offset => listConsumerMessages tenant uid limit offset
  | .createInboundSource slug provider secret => createInboundSource κ tenant slug provider secret
  | .listInboundSources => listInboundSources tenant

end Handlers

section Auth

variable (κ : Prims)

def sha256Hex (bytes : Bytes) : String := hexEncode (κ.sha256 bytes)

def hashKey (key : List Char) : String := sha256Hex κ (utf8 key)

def bearerToken (headers : Headers) : Option (List Char) :=
  ((headerStr headers "authorization").bind fun v =>
    stripPrefix "Bearer ".toList v.toList).map trim

/- The `auth` middleware around the handlers; a refusal has no body. -/
def serve (headers : Headers) (request : Request) : Io Answer := do
  match bearerToken headers with
  | none => return answer 401 .empty
  | some token =>
    match ← outcome (query (.tenantForApiKey (hashKey κ token))) with
    | .error _ => return answer 500 .empty
    | .ok found =>
      match (found : Option String) with
      | none => return answer 401 .empty
      | some tenant =>
        match ← outcome (handle κ tenant request) with
        | .ok a => return a
        | .error e => return apiError e

end Auth

section Ingest

variable (κ : Prims)

def tolerance : Int64 := 300

def stripeKey (raw : Bytes) : String :=
  ((((κ.fromSlice raw).getD .null).get "id").bind Value.asStr).getD (sha256Hex κ raw)

def stripeType (raw : Bytes) : String :=
  ((((κ.fromSlice raw).getD .null).get "type").bind Value.asStr).getD "stripe.event"

def webhookId (headers : Headers) : String := (headerStr headers "webhook-id").getD ""

def webhookTimestamp (headers : Headers) : Int64 :=
  ((headerStr headers "webhook-timestamp").bind fun s => parseI64 s.toList).getD 0

def hmacKey (headers : Headers) (raw : Bytes) : String :=
  if webhookId headers = "" then sha256Hex κ raw else webhookId headers

/- The verdict, the dedup key and the event type of a request. -/
def examine (source : InboundSource) (provider : Provider) (headers : Headers) (raw : Bytes)
    (now : Int64) : Except CoreError Unit × String × String :=
  match provider with
  | .stripe =>
    (Inbound.verifyStripe κ source.secret ((headerStr headers "stripe-signature").getD "") raw now
      tolerance, stripeKey κ raw, stripeType κ raw)
  | .github =>
    (Inbound.verifyGithub κ source.secret ((headerStr headers "x-hub-signature-256").getD "") raw,
      sha256Hex κ raw, (headerStr headers "x-github-event").getD "github.event")
  | .hmac =>
    (Inbound.verifyHmac κ source.secret (webhookId headers) (webhookTimestamp headers) raw
      ((headerStr headers "webhook-signature").getD "") now tolerance,
      hmacKey κ headers raw, (headerStr headers "dropless-event-type").getD "inbound.event")

def payloadOf (raw : Bytes) : Value :=
  (κ.fromSlice raw).getD (.object [("raw", .string (κ.lossyText raw))])

def unauthorized : Answer := answer 401 (.error "unauthorized")

def ingested : Except CoreError Accepted → Answer
  | .ok (.bridged _ eventId deliveryIds) => answer 202 (.accepted eventId deliveryIds.length)
  | .ok .duplicate => answer 200 .duplicate
  | .error _ => answer 500 (.text "ingest failed")

def receive (source : InboundSource) (headers : Headers) (raw : Bytes) : Io Answer := do
  match Inbound.parseProvider κ source.provider with
  | .error _ => return answer 500 (.text "misconfigured provider")
  | .ok provider =>
    let now ← utcNow
    match examine κ source provider headers raw (.ofInt (now / 1000000)) with
    | (.error _, _, _) => return unauthorized
    | (.ok _, key, type) =>
      return ingested (← outcome (Inbox.accept source (some key) type raw (payloadOf κ raw)))

def ingest (slug : String) (headers : Headers) (raw : Bytes) : Io Answer := do
  match ← outcome (query (.getInboundSourceBySlug slug)) with
  | .error _ => return answer 503 (.text "db unavailable")
  | .ok found =>
    match (found : Option InboundSource) with
    | none => return unauthorized
    | some source =>
      if source.disabled then return unauthorized else receive κ source headers raw

end Ingest

end Api

namespace Cli

inductive Command where
  | createApiKey (tenant key : String)
  | createEndpoint (tenant url secret : String) (eventTypes : List String)
      (consumer : Option String)
  | createConsumer (tenant uid : String) (name : Option String)
  | createInboundSource (tenant slug provider secret : String)

def resolve (tenant : String) : Option String → Io (Option Uuid)
  | none => pure none
  | some uid => do
    let c : Consumer ← Api.orNotFound "no such consumer for this tenant"
      (← query (.getConsumer tenant uid))
    return some c.id

/- The id that a command prints; `create-api-key` prints none. -/
def run (κ : Prims) : Command → Io (Option Uuid)
  | .createApiKey tenant key => do
    let id ← newUuid
    query (.insertApiKey id tenant (Api.hashKey κ key.toList))
    return none
  | .createEndpoint tenant url secret types consumer => do
    let consumerId ← resolve tenant consumer
    let e ← Api.storeEndpoint tenant consumerId url secret (if types = [] then none else some types)
    return some e.id
  | .createConsumer tenant uid name => do
    let c ← Api.storeConsumer tenant uid name
    return some c.id
  | .createInboundSource tenant slug provider secret =>
    match Inbound.parseProvider κ provider with
    | .error _ => throw (.invalid "invalid provider (expected stripe | github | hmac)")
    | .ok _ => do
      let s ← Api.storeInboundSource tenant slug provider secret
      return some s.id

end Cli

end Dropless
