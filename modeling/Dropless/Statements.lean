import Dropless.Tables

/-! The statements as calls: their syntax, what they answer, and how the database
runs them. Postgres refuses a text or JSON parameter that holds U+0000. -/
namespace Dropless

inductive Stmt where
  | createEndpoint (id : Uuid) (tenantId : String) (consumerId : Option Uuid)
      (url secret : String) (eventTypes : Option (List String))
  | activeEndpointsForScope (tenantId : String) (consumerId : Option Uuid)
  | listEndpoints (tenantId : String)
  | listEndpointsForConsumer (consumerId : Uuid)
  | updateEndpoint (id : Uuid) (tenantId : String) (url : Option String)
      (disabled : Option Bool) (eventTypes : Option (List String))
  | updateCircuit (endpointId : Uuid) (state : String) (openUntil : Option Time)
      (consecutiveFailures : Int32)
  | tryAcquireProbe (endpointId : Uuid) (leaseSecs : Int32)
  | createConsumer (id : Uuid) (tenantId uid : String) (name : Option String)
  | getConsumer (tenantId uid : String)
  | listConsumers (tenantId : String)
  | createInboundSource (id : Uuid) (tenantId slug provider secret : String)
  | getInboundSourceBySlug (slug : String)
  | listInboundSources (tenantId : String)
  | insertInboundEvent (id sourceId : Uuid) (tenantId : String) (sourceEventId : Option String)
      (eventType : String) (rawBody : Bytes)
  | linkInboundEvent (inboundId eventId : Uuid)
  | insertEvent (id : Uuid) (tenantId : String) (consumerId : Option Uuid) (eventType : String)
      (payload : Value)
  | listEvents (tenantId : String) (limit offset : Nat)
  | listEventsForConsumer (consumerId : Uuid) (limit offset : Nat)
  | getEvent (id : Uuid)
  | getEndpoint (id : Uuid)
  | insertDelivery (id eventId endpointId : Uuid) (tenantId : String)
  | getDelivery (id : Uuid)
  | deliveriesForEvent (eventId : Uuid)
  | attemptsForDelivery (deliveryId : Uuid)
  | claimDueDeliveries (workerId : String) (batch : Int) (lockSecs : Int32)
  | recordAttempt (a : DeliveryAttempt)
  | markSucceeded (id : Uuid) (workerId : String) (attemptCount : Int32)
  | markFailed (id : Uuid) (workerId : String) (attemptCount : Int32) (nextAttemptAt : Time)
      (error : String)
  | deferDelivery (id : Uuid) (workerId : String) (nextAttemptAt : Time)
  | markDeadUpdate (id : Uuid) (workerId reason : String)
  | insertDeadLetter (id deliveryId eventId endpointId : Uuid) (reason : String)
  | resetForReplay (deliveryId : Uuid)
  | tenantForApiKey (keyHash : String)
  | insertApiKey (id : Uuid) (tenantId keyHash : String)

mutual

def Value.texts : Value → List String
  | .string s => [s]
  | .array items => Value.textsOfList items
  | .object fields => Value.textsOfFields fields
  | _ => []

def Value.textsOfList : List Value → List String
  | [] => []
  | v :: vs => v.texts ++ Value.textsOfList vs

def Value.textsOfFields : List (String × Value) → List String
  | [] => []
  | (name, v) :: fields => name :: v.texts ++ Value.textsOfFields fields

end

namespace Stmt

@[reducible] def Out : Stmt → Type
  | .createEndpoint .. => Endpoint
  | .activeEndpointsForScope .. => List Endpoint
  | .listEndpoints .. => List Endpoint
  | .listEndpointsForConsumer .. => List Endpoint
  | .updateEndpoint .. => Option Endpoint
  | .updateCircuit .. => Unit
  | .tryAcquireProbe .. => Bool
  | .createConsumer .. => Consumer
  | .getConsumer .. => Option Consumer
  | .listConsumers .. => List ConsumerSummary
  | .createInboundSource .. => InboundSource
  | .getInboundSourceBySlug .. => Option InboundSource
  | .listInboundSources .. => List InboundSource
  | .insertInboundEvent .. => Option Uuid
  | .linkInboundEvent .. => Unit
  | .insertEvent .. => Event
  | .listEvents .. => List Event
  | .listEventsForConsumer .. => List Event
  | .getEvent .. => Option Event
  | .getEndpoint .. => Option Endpoint
  | .insertDelivery .. => Unit
  | .getDelivery .. => Option Delivery
  | .deliveriesForEvent .. => List Delivery
  | .attemptsForDelivery .. => List DeliveryAttempt
  | .claimDueDeliveries .. => List Delivery
  | .recordAttempt .. => Unit
  | .markSucceeded .. => Bool
  | .markFailed .. => Bool
  | .deferDelivery .. => Bool
  | .markDeadUpdate .. => Bool
  | .insertDeadLetter .. => Unit
  | .resetForReplay .. => Bool
  | .tenantForApiKey .. => Option String
  | .insertApiKey .. => Unit

/- The text parameters that a statement binds, the strings of a JSON one included. -/
def texts : Stmt → List String
  | .createEndpoint _ tenant _ url secret types => [tenant, url, secret] ++ types.getD []
  | .activeEndpointsForScope tenant _ => [tenant]
  | .listEndpoints tenant => [tenant]
  | .updateEndpoint _ tenant url _ types => [tenant] ++ url.toList ++ types.getD []
  | .updateCircuit _ state _ _ => [state]
  | .createConsumer _ tenant uid name => [tenant, uid] ++ name.toList
  | .getConsumer tenant uid => [tenant, uid]
  | .listConsumers tenant => [tenant]
  | .createInboundSource _ tenant slug provider secret => [tenant, slug, provider, secret]
  | .getInboundSourceBySlug slug => [slug]
  | .listInboundSources tenant => [tenant]
  | .insertInboundEvent _ _ tenant key type _ => [tenant, type] ++ key.toList
  | .insertEvent _ tenant _ type payload => [tenant, type] ++ payload.texts
  | .listEvents tenant _ _ => [tenant]
  | .insertDelivery _ _ _ tenant => [tenant]
  | .claimDueDeliveries worker _ _ => [worker]
  | .recordAttempt a => a.responseSnippet.toList ++ a.error.toList
  | .markSucceeded _ worker _ => [worker]
  | .markFailed _ worker _ _ error => [worker, error]
  | .deferDelivery _ worker _ => [worker]
  | .markDeadUpdate _ worker reason => [worker, reason]
  | .insertDeadLetter _ _ _ _ reason => [reason]
  | .tenantForApiKey hash => [hash]
  | .insertApiKey _ tenant hash => [tenant, hash]
  | _ => []

def admitted (q : Stmt) : Bool := q.texts.all fun s => !s.toList.contains '\x00'

def run : (q : Stmt) → Time → List Uuid → Db → Except DbError (q.Out × List Write)
  | .createEndpoint id tenant consumer url secret types, now, _, db =>
      Store.createEndpoint id tenant consumer url secret types now db
  | .activeEndpointsForScope tenant consumer, _, _, db =>
      .ok (Store.activeEndpointsForScope tenant consumer db, [])
  | .listEndpoints tenant, _, _, db => .ok (Store.listEndpoints tenant db, [])
  | .listEndpointsForConsumer consumer, _, _, db =>
      .ok (Store.listEndpointsForConsumer consumer db, [])
  | .updateEndpoint id tenant url disabled types, now, _, db =>
      .ok (Store.updateEndpoint id tenant url disabled types now db)
  | .updateCircuit id state openUntil failures, now, _, db =>
      .ok (Store.updateCircuit id state openUntil failures now db)
  | .tryAcquireProbe id lease, now, _, db => .ok (Store.tryAcquireProbe id lease now db)
  | .createConsumer id tenant uid name, now, _, db =>
      Store.createConsumer id tenant uid name now db
  | .getConsumer tenant uid, _, _, db => .ok (Store.getConsumer tenant uid db, [])
  | .listConsumers tenant, _, _, db => .ok (Store.listConsumers tenant db, [])
  | .createInboundSource id tenant slug provider secret, now, _, db =>
      Store.createInboundSource id tenant slug provider secret now db
  | .getInboundSourceBySlug slug, _, _, db => .ok (Store.getInboundSourceBySlug slug db, [])
  | .listInboundSources tenant, _, _, db => .ok (Store.listInboundSources tenant db, [])
  | .insertInboundEvent id source tenant key type raw, now, _, db =>
      Store.insertInboundEvent id source tenant key type raw now db
  | .linkInboundEvent inbound event, _, _, db => Store.linkInboundEvent inbound event db
  | .insertEvent id tenant consumer type payload, now, _, db =>
      Store.insertEvent id tenant consumer type payload now db
  | .listEvents tenant limit offset, _, _, db => .ok (Store.listEvents tenant limit offset db, [])
  | .listEventsForConsumer consumer limit offset, _, _, db =>
      .ok (Store.listEventsForConsumer consumer limit offset db, [])
  | .getEvent id, _, _, db => .ok (Store.getEvent id db, [])
  | .getEndpoint id, _, _, db => .ok (Store.getEndpoint id db, [])
  | .insertDelivery id event endpoint tenant, now, _, db =>
      Store.insertDelivery id event endpoint tenant now db
  | .getDelivery id, _, _, db => .ok (Store.getDelivery id db, [])
  | .deliveriesForEvent event, _, _, db => .ok (Store.deliveriesForEvent event db, [])
  | .attemptsForDelivery id, _, _, db => .ok (Store.attemptsForDelivery id db, [])
  | .claimDueDeliveries worker batch lockSecs, now, skipped, db =>
      Store.claimDueDeliveries worker batch lockSecs now skipped db
  | .recordAttempt a, _, _, db => Store.recordAttempt a db
  | .markSucceeded id worker count, now, _, db => .ok (Store.markSucceeded id worker count now db)
  | .markFailed id worker count next error, now, _, db =>
      .ok (Store.markFailed id worker count next error now db)
  | .deferDelivery id worker next, now, _, db => .ok (Store.deferDelivery id worker next now db)
  | .markDeadUpdate id worker reason, now, _, db =>
      .ok (Store.markDeadUpdate id worker reason now db)
  | .insertDeadLetter id delivery event endpoint reason, now, _, db =>
      Store.insertDeadLetter id delivery event endpoint reason now db
  | .resetForReplay id, now, _, db => .ok (Store.resetForReplay id now db)
  | .tenantForApiKey hash, _, _, db => .ok (Store.tenantForApiKey hash db, [])
  | .insertApiKey id tenant hash, now, _, db => Store.insertApiKey id tenant hash now db

def exec (q : Stmt) (now : Time) (skipped : List Uuid) (db : Db) :
    Except DbError (q.Out × List Write) :=
  if q.admitted then q.run now skipped db else .error .other

theorem exec_ok {q : Stmt} {now : Time} {skipped : List Uuid} {db : Db} {out ws}
    (h : q.exec now skipped db = .ok (out, ws)) : q.run now skipped db = .ok (out, ws) := by
  simp only [exec] at h
  split at h
  · exact h
  · cases h

end Stmt

end Dropless
