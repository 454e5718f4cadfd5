import Dropless.Statements

/-! What a statement may write, said once: nothing, one fresh row, or amended rows
that keep every column the code treats as fixed. Validity of its writes, the table
they are in and the fixed columns follow from the shape. -/
namespace Dropless

namespace Row

/- The row with its mutable columns blanked. -/
def frozen : Row → Row
  | .endpoint r => .endpoint
      { r with
        url := "", disabled := false, circuitState := "", circuitOpenUntil := none,
        consecutiveFailures := 0, eventTypes := none, updatedAt := 0 }
  | .delivery r => .delivery
      { r with
        status := .pending, attemptCount := 0, nextAttemptAt := 0, lockedUntil := none,
        lockedBy := none, lastError := none, updatedAt := 0 }
  | .inbound r => .inbound { r with eventId := none }
  | .consumer r => .consumer { r with name := none, updatedAt := 0 }
  | r => r

theorem frozen_key (r : Row) : r.frozen.key = r.key := by cases r <;> rfl

theorem frozen_index (r : Row) : r.frozen.index = r.index := by cases r <;> rfl

theorem amends_of_frozen {a b : Row} (same : b.frozen = a.frozen) :
    Txn.Store.Amends schema a b := by
  constructor
  · change b.key = a.key
    rw [← frozen_key b, same, frozen_key]
  · change b.index = a.index
    rw [← frozen_index b, same, frozen_index]

end Row

/-- The columns that no statement changes, of two versions of a delivery. -/
structure Delivery.Fixed (d d' : Delivery) : Prop where
  id : d.id = d'.id
  eventId : d.eventId = d'.eventId
  endpointId : d.endpointId = d'.endpointId
  tenantId : d.tenantId = d'.tenantId
  idempotencyKey : d.idempotencyKey = d'.idempotencyKey

structure Endpoint.Fixed (e e' : Endpoint) : Prop where
  id : e.id = e'.id
  tenantId : e.tenantId = e'.tenantId
  consumerId : e.consumerId = e'.consumerId
  secret : e.secret = e'.secret

structure Consumer.Fixed (c c' : Consumer) : Prop where
  id : c.id = c'.id
  tenantId : c.tenantId = c'.tenantId
  uid : c.uid = c'.uid
  createdAt : c.createdAt = c'.createdAt

theorem Delivery.fixed {d d' : Delivery}
    (same : (Row.delivery d).frozen = (Row.delivery d').frozen) : d.Fixed d' := by
  obtain ⟨id, event, endpoint, tenant, _, _, _, _, _, key, _⟩ :=
    Delivery.mk.inj (Row.delivery.inj same)
  exact ⟨id, event, endpoint, tenant, key⟩

theorem Endpoint.fixed {e e' : Endpoint}
    (same : (Row.endpoint e).frozen = (Row.endpoint e').frozen) : e.Fixed e' := by
  obtain ⟨id, tenant, consumer, _, secret, _⟩ := Endpoint.mk.inj (Row.endpoint.inj same)
  exact ⟨id, tenant, consumer, secret⟩

theorem Consumer.fixed {c c' : Consumer}
    (same : (Row.consumer c).frozen = (Row.consumer c').frozen) : c.Fixed c' := by
  obtain ⟨id, tenant, uid, _, created, _⟩ := Consumer.mk.inj (Row.consumer.inj same)
  exact ⟨id, tenant, uid, created⟩

namespace Stmt

def target : Stmt → Option Table
  | .createEndpoint .. | .updateEndpoint .. | .updateCircuit .. | .tryAcquireProbe .. =>
      some .endpoints
  | .createConsumer .. => some .consumers
  | .createInboundSource .. => some .inboundSources
  | .insertInboundEvent .. | .linkInboundEvent .. => some .inboundEvents
  | .insertEvent .. => some .events
  | .insertDelivery .. | .claimDueDeliveries .. | .markSucceeded .. | .markFailed ..
  | .deferDelivery .. | .markDeadUpdate .. | .resetForReplay .. => some .deliveries
  | .recordAttempt .. => some .deliveryAttempts
  | .insertDeadLetter .. => some .deadLetters
  | .insertApiKey .. => some .apiKeys
  | _ => none

end Stmt

inductive Shape (db : Db) (table : Option Table) : List Write → Prop where
  | none : Shape db table []
  | fresh (r : Row) (absent : db.get? r.key = none) (fits : db.Admits r)
      (place : table = some r.key.table) : Shape db table [⟨none, r⟩]
  | amend (pairs : List (Row × Row)) (distinct : (pairs.map fun p => p.1.key).Nodup)
      (each : ∀ p ∈ pairs, db.get? p.1.key = some p.1 ∧ p.2.frozen = p.1.frozen ∧
        table = some p.1.key.table) : Shape db table (pairs.map fun p => ⟨some p.1, p.2⟩)

namespace Shape

variable {db : Db} {table : Option Table} {ws : List Write}

theorem valid (h : Shape db table ws) : db.Valid ws := by
  cases h with
  | none => trivial
  | fresh r absent fits _ => exact ⟨⟨absent, fits⟩, trivial⟩
  | amend pairs distinct each =>
    exact Txn.Store.valid_amends pairs distinct fun p hp =>
      ⟨(each p hp).1, Row.amends_of_frozen (each p hp).2.1⟩

theorem in_table (h : Shape db table ws) : ∀ w ∈ ws, table = some w.after.key.table := by
  intro w hw
  cases h with
  | none => cases hw
  | fresh r _ _ place =>
    have eq : w = ⟨Option.none, r⟩ := by simpa using hw
    subst eq
    exact place
  | amend pairs _ each =>
    obtain ⟨p, hp, rfl⟩ := List.mem_map.mp hw
    obtain ⟨_, same, place⟩ := each p hp
    have key : p.2.key = p.1.key := (Row.amends_of_frozen same).1
    exact place.trans (congrArg (fun k : Key => some k.table) key.symm)

theorem keeps_frozen (h : Shape db table ws) :
    ∀ w ∈ ws, ∀ b, w.before = some b → w.after.frozen = b.frozen := by
  intro w hw b hb
  cases h with
  | none => cases hw
  | fresh r _ _ _ =>
    have eq : w = ⟨Option.none, r⟩ := by simpa using hw
    subst eq
    cases hb
  | amend pairs _ each =>
    obtain ⟨p, hp, rfl⟩ := List.mem_map.mp hw
    cases hb
    exact (each p hp).2.1

theorem apart (h : Shape db table ws) : ws.Pairwise fun v w => v.after.key ≠ w.after.key := by
  cases h with
  | none => exact .nil
  | fresh r _ _ _ => exact List.pairwise_singleton _ _
  | amend pairs distinct each =>
    rw [List.pairwise_map]
    have keys : ∀ p ∈ pairs, p.2.key = p.1.key := fun p hp =>
      (Row.amends_of_frozen (each p hp).2.1).1
    refine (List.pairwise_map.mp distinct).imp_of_mem ?_
    intro p q hp hq differ same
    exact differ ((keys p hp).symm.trans (same.trans (keys q hq)))

theorem of_insert {α : Type} [Record α] {a : α} (place : table = some (Record.table α))
    (h : Store.insert db a = .ok ws) : Shape db table ws := by
  obtain ⟨rfl, absent, fits⟩ := Store.insert_ok h
  exact .fresh _ absent fits (by rw [Record.key_row, place])

theorem of_update {α : Type} [Record α] {id : Uuid} {guard : α → Bool} {set : α → α}
    (place : table = some (Record.table α))
    (same : ∀ a, (Record.row (set a)).frozen = (Record.row a).frozen) :
    Shape db table (Store.update db id guard set).2 := by
  rcases Store.update_cases db id guard set with ⟨a, found, _, eq⟩ | ⟨_, eq⟩
  · rw [eq]
    refine .amend [(Record.row a, Record.row (set a))] (List.nodup_singleton _) ?_
    intro p hp
    have one : p = (Record.row a, Record.row (set a)) := by simpa using hp
    subst one
    refine ⟨?_, same a, by rw [Record.key_row, place]⟩
    exact Txn.Store.get?_of_mem (Txn.Store.get?_some (Db.find?_eq_some.mp found)).1
  · rw [eq]
    exact .none

end Shape

theorem bind_ok {ε α β : Type} {x : Except ε α} {f : α → Except ε β} {b : β} :
    (x >>= f) = .ok b ↔ ∃ a, x = .ok a ∧ f a = .ok b := by
  cases x with
  | error e =>
    constructor
    · intro h
      cases h
    · rintro ⟨_, h, _⟩
      cases h
  | ok a =>
    constructor
    · exact fun h => ⟨a, rfl, h⟩
    · rintro ⟨_, h, g⟩
      cases h
      exact g

namespace Store

variable {db : Db} {now : Time} {ws : List Write}

theorem createEndpoint_ok {id tenant consumer url secret types out}
    (h : createEndpoint id tenant consumer url secret types now db = .ok (out, ws)) :
    out = { id, tenantId := tenant, consumerId := consumer, url, secret, disabled := false,
            circuitState := "closed", circuitOpenUntil := none, consecutiveFailures := 0,
            eventTypes := types, createdAt := now, updatedAt := now } ∧
      referencesOpt Consumer db consumer = .ok () ∧ insert db out = .ok ws := by
  simp only [createEndpoint, bind_ok] at h
  obtain ⟨_, exists_, written, hw, eq⟩ := h
  cases eq
  exact ⟨rfl, exists_, hw⟩

theorem insertEvent_ok {id tenant consumer type payload out}
    (h : insertEvent id tenant consumer type payload now db = .ok (out, ws)) :
    out = { id, tenantId := tenant, consumerId := consumer, eventType := type, payload,
            createdAt := now } ∧
      referencesOpt Consumer db consumer = .ok () ∧ insert db out = .ok ws := by
  simp only [insertEvent, bind_ok] at h
  obtain ⟨_, exists_, written, hw, eq⟩ := h
  cases eq
  exact ⟨rfl, exists_, hw⟩

/- A delivery as the schema's defaults make it. -/
def newDelivery (id eventId endpointId : Uuid) (tenantId : String) (now : Time) : Delivery :=
  { id, eventId, endpointId, tenantId, status := .pending, attemptCount := 0,
    nextAttemptAt := now, lockedUntil := none, lockedBy := none,
    idempotencyKey := uuidText id, lastError := none, createdAt := now, updatedAt := now }

theorem insertDelivery_ok {id event endpoint tenant out}
    (h : insertDelivery id event endpoint tenant now db = .ok (out, ws)) :
    references Event db event = .ok () ∧ references Endpoint db endpoint = .ok () ∧
      insert db (newDelivery id event endpoint tenant now) = .ok ws := by
  simp only [insertDelivery, bind_ok] at h
  obtain ⟨_, he, _, hp, written, hw, eq⟩ := h
  cases eq
  exact ⟨he, hp, hw⟩

theorem createConsumer_ok {id tenant uid name out}
    (h : createConsumer id tenant uid name now db = .ok (out, ws)) :
    (∃ c, db.find? c.id = some c ∧ c.tenantId = tenant ∧ c.uid = uid ∧
      out = { c with name := name.or c.name, updatedAt := now } ∧ ws = [amended c out]) ∨
    (out = { id, tenantId := tenant, uid, name, createdAt := now, updatedAt := now } ∧
      insert db out = .ok ws) := by
  simp only [createConsumer] at h
  split at h
  · rename_i c rest found
    cases h
    have mem := mem_select.mp (found ▸ List.mem_cons_self : c ∈ select db _)
    obtain ⟨hf, ok⟩ := mem
    simp only [decide_eq_true_eq] at ok
    exact .inl ⟨c, hf, ok.1, ok.2, rfl, rfl⟩
  · simp only [bind_ok] at h
    obtain ⟨written, hw, eq⟩ := h
    cases eq
    exact .inr ⟨rfl, hw⟩

theorem createInboundSource_ok {id tenant slug provider secret out}
    (h : createInboundSource id tenant slug provider secret now db = .ok (out, ws)) :
    out = { id, tenantId := tenant, slug, provider, secret, disabled := false, createdAt := now,
            updatedAt := now } ∧ insert db out = .ok ws := by
  simp only [createInboundSource, bind_ok] at h
  obtain ⟨written, hw, eq⟩ := h
  cases eq
  exact ⟨rfl, hw⟩

def newInbound (id sourceId : Uuid) (tenantId : String) (sourceEventId : Option String)
    (eventType : String) (rawBody : Bytes) (now : Time) : InboundEvent :=
  { id, sourceId, tenantId, sourceEventId, eventType, rawBody, eventId := none, receivedAt := now }

theorem insertInboundEvent_ok {id source tenant key type raw out}
    (h : insertInboundEvent id source tenant key type raw now db = .ok (out, ws)) :
    (out = none ∧ ws = [] ∧ key.isSome = true ∧
      ∃ r : InboundEvent, db.find? r.id = some r ∧ r.sourceId = source ∧ r.sourceEventId = key) ∨
    (out = some id ∧ references InboundSource db source = .ok () ∧
      insert db (newInbound id source tenant key type raw now) = .ok ws) := by
  simp only [insertInboundEvent, bind_ok] at h
  obtain ⟨_, exists_, h⟩ := h
  split at h
  · rename_i taken
    cases h
    obtain ⟨r, hr⟩ := List.exists_mem_of_ne_nil _ taken.2
    obtain ⟨hf, ok⟩ := mem_select.mp hr
    simp only [decide_eq_true_eq] at ok
    exact .inl ⟨rfl, rfl, taken.1, r, hf, ok.1, ok.2⟩
  · simp only [bind_ok] at h
    obtain ⟨written, hw, eq⟩ := h
    cases eq
    exact .inr ⟨rfl, exists_, hw⟩

theorem linkInboundEvent_ok {inbound event out}
    (h : linkInboundEvent inbound event db = .ok (out, ws)) : references Event db event = .ok () ∧
      ws = (update db inbound (fun _ => true) fun r : InboundEvent =>
        { r with eventId := some event }).2 := by
  simp only [linkInboundEvent, bind_ok] at h
  obtain ⟨_, exists_, eq⟩ := h
  cases eq
  exact ⟨exists_, rfl⟩

theorem recordAttempt_ok {a out} (h : recordAttempt a db = .ok (out, ws)) :
    references Delivery db a.deliveryId = .ok () ∧ insert db a = .ok ws := by
  simp only [recordAttempt, bind_ok] at h
  obtain ⟨_, exists_, written, hw, eq⟩ := h
  cases eq
  exact ⟨exists_, hw⟩

theorem insertDeadLetter_ok {id delivery event endpoint reason out}
    (h : insertDeadLetter id delivery event endpoint reason now db = .ok (out, ws)) :
    references Delivery db delivery = .ok () ∧
      insert db (⟨id, delivery, event, endpoint, some reason, now⟩ : DeadLetter) = .ok ws := by
  simp only [insertDeadLetter, bind_ok] at h
  obtain ⟨_, exists_, written, hw, eq⟩ := h
  cases eq
  exact ⟨exists_, hw⟩

theorem insertApiKey_ok {id tenant hash out}
    (h : insertApiKey id tenant hash now db = .ok (out, ws)) :
    ws = [] ∨ insert db (⟨id, tenant, hash, now⟩ : ApiKey) = .ok ws := by
  simp only [insertApiKey] at h
  split at h
  · cases h
    exact .inl rfl
  · simp only [bind_ok] at h
    obtain ⟨written, hw, eq⟩ := h
    cases eq
    exact .inr hw

end Store

namespace Stmt

theorem run_shape {q : Stmt} {now : Time} {skipped : List Uuid} {db : Db} {out ws}
    (h : q.run now skipped db = .ok (out, ws)) : Shape db q.target ws := by
  cases q with
  | createEndpoint => exact .of_insert rfl (Store.createEndpoint_ok h).2.2
  | createConsumer =>
    rcases Store.createConsumer_ok h with ⟨c, found, _, _, rfl, rfl⟩ | ⟨_, hw⟩
    · refine .amend [(.consumer c, .consumer { c with name := _, updatedAt := _ })]
        (List.nodup_singleton _) ?_
      intro p hp
      rw [List.mem_singleton.mp hp]
      exact ⟨Db.find?_eq_some.mp found, rfl, rfl⟩
    · exact .of_insert rfl hw
  | createInboundSource => exact .of_insert rfl (Store.createInboundSource_ok h).2
  | insertInboundEvent =>
    rcases Store.insertInboundEvent_ok h with ⟨_, rfl, _⟩ | ⟨_, _, hw⟩
    · exact .none
    · exact .of_insert rfl hw
  | linkInboundEvent =>
    obtain ⟨_, rfl⟩ := Store.linkInboundEvent_ok h
    exact .of_update rfl fun _ => rfl
  | insertEvent => exact .of_insert rfl (Store.insertEvent_ok h).2.2
  | insertDelivery => exact .of_insert rfl (Store.insertDelivery_ok h).2.2
  | recordAttempt => exact .of_insert rfl (Store.recordAttempt_ok h).2
  | insertDeadLetter => exact .of_insert rfl (Store.insertDeadLetter_ok h).2
  | insertApiKey =>
    rcases Store.insertApiKey_ok h with rfl | hw
    · exact .none
    · exact .of_insert rfl hw
  | claimDueDeliveries workerId batch lockSecs =>
    obtain ⟨picked, distinct, found, _, rfl⟩ := Store.claimDueDeliveries_ok h
    have pairs : _ → _ → Shape db (some .deliveries) _ := Shape.amend
      (picked.map fun d => (Row.delivery d, Row.delivery (Store.claim workerId lockSecs now d)))
    rw [List.map_map, List.map_map] at pairs
    refine pairs ?_ ?_
    · have ids : (picked.map fun d => (⟨.deliveries, d.id⟩ : Key)).Nodup := by
        have inj : Function.Injective fun id : Uuid => (⟨.deliveries, id⟩ : Key) :=
          fun _ _ eq => (Key.mk.injEq .. ▸ eq).2
        simpa [Function.comp_def] using distinct.map inj
      exact ids
    · intro p hp
      obtain ⟨d, hd, rfl⟩ := List.mem_map.mp hp
      exact ⟨Db.find?_eq_some.mp (found d hd).1, rfl, rfl⟩
  | updateEndpoint | updateCircuit | tryAcquireProbe | markSucceeded | markFailed
  | deferDelivery | markDeadUpdate | resetForReplay =>
    obtain rfl : _ = ws := congrArg Prod.snd (Except.ok.inj h)
    exact .of_update rfl fun _ => rfl
  | _ =>
    cases h
    exact .none

theorem exec_shape {q : Stmt} {now : Time} {skipped : List Uuid} {db : Db} {out ws}
    (h : q.exec now skipped db = .ok (out, ws)) : Shape db q.target ws := run_shape (exec_ok h)

end Stmt

end Dropless
