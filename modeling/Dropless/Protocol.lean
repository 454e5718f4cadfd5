import Dropless.Engine

/-! What each job may ask, make durable and answer, as a function of the calls it has
made. Every later fact about runs takes the programs through these predicates, so a
change to a program is a change here and in its proof below. -/
namespace Dropless

abbrev ran (q : Stmt) (out : q.Out) : Ran := ⟨q, out⟩

def Told (calls : Calls) (q : Stmt) (out : q.Out) : Prop :=
  (⟨.stmt q, (.ok out : Except DbError q.Out)⟩ : Σ op : Op, op.Ans) ∈ calls

def Heard (calls : Calls) (c : Call) (r : c.Reply) : Prop :=
  (⟨.env c, r⟩ : Σ op : Op, op.Ans) ∈ calls

/- The scope of a publisher or a new endpoint: the tenant, or a consumer it looked up. -/
def Scoped (calls : Calls) (tenant : String) (consumer : Option Uuid) : Prop :=
  consumer = none ∨ ∃ uid c, Told calls (.getConsumer tenant uid) (some c) ∧ consumer = some c.id

section Dispatch

variable (κ : Prims) (cfg : DispatcherConfig) (w : String) (d : Delivery) (calls : Calls)

/-- The endpoint was read, enabled, and let through by its circuit at `now`. -/
structure Passed (e : Endpoint) (now : Time) : Prop where
  endpoint : Told calls (.getEndpoint d.endpointId) (some e)
  clock : Heard calls .utcNow now
  enabled : e.disabled = false
  gate : Circuit.gate e now = .allow ∨ (Circuit.gate e now = .probe ∧
    Told calls (.tryAcquireProbe e.id (Circuit.probeLease cfg.circuit)) true)

structure Sent (e : Endpoint) (now : Time) (req : Request) : Prop where
  passed : Passed cfg d calls e now
  made : ∃ ev body headers, Told calls (.getEvent d.eventId) (some ev) ∧
    κ.toVec ev.payload = .ok body ∧
    Signing.signatureHeaders κ e.secret (uuidText d.id) (.ofInt (now / 1000000)) body
      = .ok headers ∧
    req = { url := e.url, idempotencyKey := d.idempotencyKey, webhookId := headers.id,
            webhookTimestamp := headers.timestamp, webhookSignature := headers.signature,
            eventType := ev.eventType, body }

structure Tried (e : Endpoint) (now : Time) (req : Request) (a : DeliveryAttempt) : Prop where
  sent : Sent κ cfg d calls e now req
  delivery : a.deliveryId = d.id
  number : a.attemptNumber = d.attemptCount + 1

def Succeeded (req : Request) (a : DeliveryAttempt) : Prop :=
  a.error = none ∧ ∃ resp, Heard calls (.post req) (.ok resp) ∧ resp.isSuccess = true ∧
    a.statusCode = some resp.code

def Failed (req : Request) (a : DeliveryAttempt) (error : String) : Prop :=
  a.error = some error ∧
    ((∃ resp, Heard calls (.post req) (.ok resp) ∧ resp.isSuccess = false ∧
      a.statusCode = some resp.code) ∨
     (Heard calls (.post req) (.error error) ∧ a.statusCode = none))

/-- The reasons for dead-lettering without an attempt. -/
def Hopeless : Prop :=
  Told calls (.getEndpoint d.endpointId) none ∨ Told calls (.getEvent d.eventId) none ∨
    (∃ ev err, Told calls (.getEvent d.eventId) (some ev) ∧ κ.toVec ev.payload = .error err) ∨
    ∃ (e : Endpoint) (now : Int64) (body : Bytes) (err : CoreError),
      Signing.signatureHeaders κ e.secret (uuidText d.id) now body = .error err

def circuitRan (id : Uuid) (u : CircuitUpdate) : Ran :=
  ran (.updateCircuit id u.state u.openUntil u.consecutiveFailures) ()

/-- The transactions that `process_one` may commit. -/
inductive Settles : List Ran → Prop where
  | succeeded {e now req a} (tried : Tried κ cfg d calls e now req a)
      (succeeded : Succeeded calls req a) :
      Settles [ran (.recordAttempt a) (), ran (.markSucceeded d.id w a.attemptNumber) true,
        circuitRan e.id Circuit.onSuccess]
  | failed {e now req a error next t} (tried : Tried κ cfg d calls e now req a)
      (failed : Failed calls req a error)
      (left : cfg.retry.isExhausted a.attemptNumber = false) :
      Settles [ran (.recordAttempt a) (), ran (.markFailed d.id w a.attemptNumber next error) true,
        circuitRan e.id (Circuit.onFailure e cfg.circuit t)]
  | exhausted {e now req a error id t} (tried : Tried κ cfg d calls e now req a)
      (failed : Failed calls req a error)
      (spent : cfg.retry.isExhausted a.attemptNumber = true) :
      Settles [ran (.recordAttempt a) (), ran (.markDeadUpdate d.id w error) true,
        ran (.insertDeadLetter id d.id d.eventId d.endpointId error) (),
        circuitRan e.id (Circuit.onFailure e cfg.circuit t)]
  | hopeless {reason id} (hopeless : Hopeless κ d calls) :
      Settles [ran (.markDeadUpdate d.id w reason) true,
        ran (.insertDeadLetter id d.id d.eventId d.endpointId reason) ()]

/-- The statements that `process_one` runs on their own; it reads the endpoint once, after
the clock. -/
inductive Steers : Stmt → Prop where
  | endpoint {now} (first : calls = [⟨.env .utcNow, now⟩]) : Steers (.getEndpoint d.endpointId)
  | event : Steers (.getEvent d.eventId)
  | defer {next e} (read : Told calls (.getEndpoint d.endpointId) (some e)) :
      Steers (.deferDelivery d.id w next)
  | probe {e now} (read : Told calls (.getEndpoint d.endpointId) (some e))
      (gate : Circuit.gate e now = .probe) :
      Steers (.tryAcquireProbe e.id (Circuit.probeLease cfg.circuit))

end Dispatch

section FanOut

def fanOut (eventId : Uuid) (tenant : String) (es : List Endpoint) (ids : List Uuid) : List Ran :=
  List.zipWith (fun e id => ran (.insertDelivery id eventId e.id tenant) ()) es ids

/-- The event, the endpoints of its scope, and one delivery for each that subscribes. -/
inductive Publishes (tenant : String) (consumer : Option Uuid) (type : String) (payload : Value) :
    Enqueued → List Ran → Prop where
  | mk {eventId row es ids} (each : ids.length = (es.filter (·.subscribesTo type)).length) :
      Publishes tenant consumer type payload ⟨eventId, ids⟩
        (ran (.insertEvent eventId tenant consumer type payload) row ::
          ran (.activeEndpointsForScope tenant consumer) es ::
          fanOut eventId tenant (es.filter (·.subscribesTo type)) ids)

/-- The raw row, a tenant-level publication, and the link between them. -/
inductive Bridges (source : InboundSource) (key : Option String) (type : String) (raw : Bytes)
    (payload : Value) : Uuid → Enqueued → List Ran → Prop where
  | mk {id stored enq unit} (inner : Publishes source.tenantId none type payload enq unit) :
      Bridges source key type raw payload stored enq
        (ran (.insertInboundEvent id source.id source.tenantId key type raw) (some stored) ::
          unit ++ [ran (.linkInboundEvent stored enq.eventId) ()])

/- The type and the payload that a request publishes. -/
def Api.Request.publishes : Api.Request → Option (String × Value)
  | .createMessage type payload => some (type, payload)
  | .createConsumerMessage _ type payload => some (type, payload)
  | _ => none

/-- What a job may publish. -/
inductive Publishing (calls : Calls) : Job → String → Option Uuid → String → Value → Prop where
  | direct {tenant consumer type payload} :
      Publishing calls (.enqueueMessage tenant consumer type payload) tenant consumer type payload
  | request {headers request tenant consumer type payload}
      (scope : Scoped calls tenant consumer)
      (content : request.publishes = some (type, payload)) :
      Publishing calls (.serve headers request) tenant consumer type payload

/-- What a job may bridge; an ingest request, only after verification. -/
inductive Bridging (κ : Prims) (calls : Calls) :
    Job → InboundSource → Option String → String → Bytes → Value → Prop where
  | direct {source key type raw payload} :
      Bridging κ calls (.accept source key type raw payload) source key type raw payload
  | verified {slug headers raw source provider now key type}
      (found : Told calls (.getInboundSourceBySlug slug) (some source))
      (parsed : Inbound.parseProvider κ source.provider = .ok provider)
      (examined : Api.examine κ source provider headers raw now = (.ok (), key, type)) :
      Bridging κ calls (.ingest slug headers raw) source (some key) type raw (Api.payloadOf κ raw)

end FanOut

/-- The single statements of the API and the commands. -/
inductive Admin (calls : Calls) : Stmt → Prop where
  | read {q} (quiet : q.target = none) : Admin calls q
  | updateEndpoint {id tenant url disabled types} :
      Admin calls (.updateEndpoint id tenant url disabled types)
  | resetForReplay {id} : Admin calls (.resetForReplay id)
  | createEndpoint {id tenant consumer url secret types} (scope : Scoped calls tenant consumer) :
      Admin calls (.createEndpoint id tenant consumer url secret types)
  | createConsumer {id tenant uid name} : Admin calls (.createConsumer id tenant uid name)
  | createInboundSource {id tenant slug provider secret} :
      Admin calls (.createInboundSource id tenant slug provider secret)
  | insertApiKey {id tenant hash} : Admin calls (.insertApiKey id tenant hash)

section Spec

variable (κ : Prims) (cfg : DispatcherConfig)

inductive Commits (calls : Calls) : Job → List Ran → Prop where
  | settle {w d unit} (settles : Settles κ cfg w d calls unit) :
      Commits calls (.processOne w d) unit
  | publish {job tenant consumer type payload enq unit}
      (may : Publishing calls job tenant consumer type payload)
      (publishes : Publishes tenant consumer type payload enq unit) : Commits calls job unit
  | bridge {job source key type raw payload stored enq unit}
      (may : Bridging κ calls job source key type raw payload)
      (bridges : Bridges source key type raw payload stored enq unit) : Commits calls job unit

def Alone (calls : Calls) : Job → Stmt → Prop
  | .claim w, q => q = .claimDueDeliveries w cfg.batchSize cfg.lockSecs ∧ calls = []
  | .processOne w d, q => Steers cfg w d calls q
  | .enqueueMessage .., _ => False
  | .accept .., _ => False
  | .ingest .., q => q.target = none
  | _, q => Admin calls q

/-- A statement inside a transaction; the dedup insert comes first, a circuit is updated
after its endpoint was read, and events, sources and consumers are looked up before. -/
def Inside (calls : Calls) (unit : List Ran) : Stmt → Prop
  | .insertInboundEvent .. => unit = []
  | .claimDueDeliveries .. => False
  | .getEndpoint _ => False
  | .getEvent _ => False
  | .getInboundSourceBySlug _ => False
  | .getConsumer .. => False
  | .tryAcquireProbe .. => False
  | .updateCircuit id .. => ∃ asked, ∃ e : Endpoint, Told calls (.getEndpoint asked) (some e) ∧
      id = e.id
  | _ => True

def allows (job : Job) (past : Past) : Op → Prop
  | .commit => ∃ unit, past.tx = some unit ∧ Commits κ cfg past.calls job unit
  | .stmt q => match past.tx with
    | none => Alone cfg past.calls job q
    | some unit => Inside past.calls unit q
  | .env (.post req) => ∃ w d e now, job = .processOne w d ∧ Sent κ cfg d past.calls e now req
  | _ => True

def Published (job : Job) (past : Past) (enq : Enqueued) : Prop :=
  ∃ tenant consumer type payload unit, Publishing past.calls job tenant consumer type payload ∧
    Publishes tenant consumer type payload enq unit ∧ unit ∈ past.known

def Bridged (job : Job) (past : Past) (stored : Uuid) (enq : Enqueued) : Prop :=
  ∃ source key type raw payload unit, Bridging κ past.calls job source key type raw payload ∧
    Bridges source key type raw payload stored enq unit ∧ unit ∈ past.known

def Repeated (job : Job) (past : Past) : Prop :=
  (∀ call ∈ past.calls, call.1 ≠ .commit) ∧ ∃ id source key type raw payload,
    Bridging κ past.calls job source key type raw payload ∧
    Told past.calls (.insertInboundEvent id source.id source.tenantId key type raw) none

def ensures (job : Job) (past : Past) : Result → Prop
  | .claimed (.ok ds) => ∃ w, job = .claim w ∧
      Told past.calls (.claimDueDeliveries w cfg.batchSize cfg.lockSecs) ds
  | .enqueued (.ok enq) => Published job past enq
  | .accepted (.ok .duplicate) => Repeated κ job past
  | .accepted (.ok (.bridged stored event ids)) => Bridged κ job past stored ⟨event, ids⟩
  | .answered (.ok ⟨_, _, .message id ids⟩) => Published job past ⟨id, ids⟩
  | .answered (.ok ⟨_, _, .accepted event n⟩) => ∃ stored ids, n = ids.length ∧
      Bridged κ job past stored ⟨event, ids⟩
  | .answered (.ok ⟨_, _, .duplicate⟩) => Repeated κ job past
  | _ => True

end Spec

end Dropless
