import Dropless.Scenario
import Dropless.Txn.Solo

namespace Dropless

open Txn (Tries Solo Reach)

def Matches (type : String) : Option (List String) → Prop
  | none => True
  | some list => list = [] ∨ ∃ p ∈ list, p = "*" ∨ p = type ∨
      ∃ stem : String, p = stem ++ "*" ∧ stem.toList <+: type.toList

/-- The endpoint is to receive events of this type that are published in this scope. -/
structure Receives (tenant : String) (consumer : Option Uuid) (type : String) (e : Endpoint) :
    Prop where
  enabled : e.disabled = false
  tenant : e.tenantId = tenant
  consumer : e.consumerId = consumer
  listed : Matches type e.eventTypes

structure Awaits (tenant : String) (event : Uuid) (now : Time) (d : Delivery) : Prop where
  event : d.eventId = event
  tenant : d.tenantId = tenant
  pending : d.status = .pending
  attempts : d.attemptCount = 0
  key : d.idempotencyKey = uuidText d.id
  unlocked : d.lockedBy = none ∧ d.lockedUntil = none
  due : d.nextAttemptAt = now

section Matching

theorem stripStar_eq_some {p : String} {stem : List Char} :
    Endpoint.stripStar p = some stem ↔ p.toList = stem ++ ['*'] := by
  unfold Endpoint.stripStar
  constructor
  · intro h
    split at h
    · rename_i last
      rw [← Option.some.inj h]
      exact (List.dropLast_append_getLast? _ last).symm
    · cases h
  · intro h
    simp [h]

theorem subscribesTo_iff (e : Endpoint) (type : String) :
    e.subscribesTo type = true ↔ Matches type e.eventTypes := by
  unfold Endpoint.subscribesTo
  cases e.eventTypes with
  | none => simp [Matches]
  | some list =>
    cases list with
    | nil => simp [Matches]
    | cons p rest =>
      simp only [List.any_eq_true, Matches, reduceCtorEq, false_or]
      refine exists_congr fun p => and_congr_right fun _ => ?_
      by_cases star : p = "*"
      · simp [star]
      · have ends (stem : String) : p = stem ++ "*" ↔ Endpoint.stripStar p = some stem.toList := by
          rw [stripStar_eq_some, ← String.toList_inj]
          simp
        simp only [star, if_false, false_or, ends]
        cases h : Endpoint.stripStar p with
        | none => simp
        | some stem =>
          have whole : p.toList = stem ++ ['*'] := stripStar_eq_some.mp h
          constructor
          · intro head
            exact .inr ⟨.ofList stem, by simp, by simpa using head⟩
          · rintro (rfl | ⟨stem', same, head⟩)
            · simp [whole]
            · cases Option.some.inj same
              simpa using head

instance (tenant : String) (consumer : Option Uuid) (type : String) (e : Endpoint) :
    Decidable (Receives tenant consumer type e) :=
  decidable_of_iff (e.disabled = false ∧ e.tenantId = tenant ∧ e.consumerId = consumer ∧
      e.subscribesTo type = true)
    ⟨fun h => ⟨h.1, h.2.1, h.2.2.1, (subscribesTo_iff e type).mp h.2.2.2⟩,
      fun h => ⟨h.enabled, h.tenant, h.consumer, (subscribesTo_iff e type).mpr h.listed⟩⟩

end Matching

/-- One waiting delivery for each endpoint that is to receive the event. -/
structure Covers (db : Db) (tenant : String) (consumer : Option Uuid) (type : String) (now : Time)
    (enq : Enqueued) (new : List Delivery) : Prop where
  ids : new.map (·.id) = enq.deliveryIds
  awaits : ∀ d ∈ new, Awaits tenant enq.eventId now d
  endpoints : (new.map (·.endpointId)).Perm
    (((Db.all Endpoint db).filter fun e => Receives tenant consumer type e).map (·.id))

/-- One new event, and the deliveries that cover it. -/
structure FansOut (db : Db) (tenant : String) (consumer : Option Uuid) (type : String)
    (payload : Value) (now : Time) (enq : Enqueued) (db' : Db) : Prop where
  event : Db.all Event db' = Db.all Event db ++
    [⟨enq.eventId, tenant, consumer, type, payload, now⟩]
  deliveries : ∃ new : List Delivery, Db.all Delivery db' = Db.all Delivery db ++ new ∧
    Covers db tenant consumer type now enq new

def Keeps (db db' : Db) (but : Key → Prop) : Prop := ∀ k, ¬ but k → db'.get? k = db.get? k

section Rules

variable {κ : Prims} {cfg : DispatcherConfig} {α : Type} {safe : Db → Prop} {db : Db}
  {tx : Txn.Tx Row Time lang} {post : Db → Option (Txn.Tx Row Time lang) → α → Prop}

theorem tries_ask {c : Call} {f : c.Reply → Io α} {inside : Option (Txn.Tx Row Time lang)}
    (ok : safe db) (next : ∀ r, Tries (engine κ cfg) safe db inside (f r) post) :
    Tries (engine κ cfg) safe db inside (ask c >>= f) post := by
  refine Txn.tries_bind ⟨ok, ?_⟩
  intro ans db' tx' does
  cases does with
  | drop gone => cases gone
  | env =>
    refine ⟨ok, ?_⟩
    rintro r ⟨⟩
    exact next ans

theorem tries_begin {f : Unit → Io α} {inside : Option (Txn.Tx Row Time lang)} (ok : safe db)
    (next : ∀ t, Tries (engine κ cfg) safe db (some ⟨t, []⟩) (f ()) post) :
    Tries (engine κ cfg) safe db inside (begin >>= f) post := by
  refine Txn.tries_bind ⟨ok, ?_⟩
  intro ans db' tx' does
  cases does with
  | begin t =>
    refine ⟨ok, ?_⟩
    rintro r ⟨⟩
    exact next t
  | drop gone =>
    cases gone with
    | begin e =>
      refine ⟨ok, ?_⟩
      rintro r ⟨⟩

theorem tries_rollback {f : Unit → Io α} {inside : Option (Txn.Tx Row Time lang)} (ok : safe db)
    (next : Tries (engine κ cfg) safe db none (f ()) post) :
    Tries (engine κ cfg) safe db inside (rollback >>= f) post := by
  refine Txn.tries_bind ⟨ok, ?_⟩
  intro ans db' tx' does
  cases does with
  | drop gone =>
    refine ⟨ok, ?_⟩
    cases ans with
    | ok u =>
      rintro r ⟨⟩
      exact next
    | error e => rintro r ⟨⟩

/- An error after the commit leaves the rows committed: its acknowledgement was lost. -/
theorem tries_commit {f : Unit → Io α} (ok : safe db) (durable : safe (db.apply tx.writes))
    (next : Tries (engine κ cfg) safe (db.apply tx.writes) none (f ()) post) :
    Tries (engine κ cfg) safe db (some tx) (commit >>= f) post := by
  refine Txn.tries_bind ⟨ok, ?_⟩
  intro ans db' tx' does
  cases does with
  | commit =>
    refine ⟨durable, ?_⟩
    cases ans with
    | ok u =>
      rintro r ⟨⟩
      exact next
    | error e => rintro r ⟨⟩
  | drop gone =>
    cases gone with
    | commit e =>
      refine ⟨ok, ?_⟩
      rintro r ⟨⟩

theorem tries_query {q : Stmt} {f : q.Out → Io α} (ok : safe db) (valid : db.Valid tx.writes)
    (next : ∀ c out ws tx', q.run tx.time c (db.apply tx.writes) = .ok (out, ws) →
      tx'.time = tx.time → tx'.writes = tx.writes ++ ws → db.Valid tx'.writes →
      Tries (engine κ cfg) safe db (some tx') (f out) post) :
    Tries (engine κ cfg) safe db (some tx) (query q >>= f) post := by
  refine Txn.tries_bind ⟨ok, ?_⟩
  intro ans db' tx' does
  cases does with
  | @query _ _ c out ws ran =>
    refine ⟨ok, ?_⟩
    rintro r ⟨⟩
    have writes := Txn.Tx.writes_append tx ⟨q, out, ws⟩
    refine next c out ws _ (Stmt.exec_ok ran) rfl writes ?_
    exact writes ▸ Txn.Store.valid_append.mpr ⟨valid, (Stmt.exec_shape ran).valid⟩
  | drop gone =>
    cases gone with
    | stmt _ e =>
      refine ⟨ok, ?_⟩
      rintro r ⟨⟩

end Rules

section Publish

variable {κ : Prims} {cfg : DispatcherConfig} {α : Type} {safe : Db → Prop} {db : Db}
  {tx : Txn.Tx Row Time lang} {post : Db → Option (Txn.Tx Row Time lang) → α → Prop}

def newDeliveries (eventId : Uuid) (tenant : String) (now : Time) (es : List Endpoint)
    (ids : List Uuid) : List Delivery :=
  (es.zip ids).map fun p => Store.newDelivery p.2 eventId p.1.id tenant now

def inserts {β : Type} [Record β] (rows : List β) : List Write :=
  rows.map fun r => ⟨none, Record.row r⟩

theorem tries_insertDeliveries {eventId : Uuid} {tenant : String} {es : List Endpoint}
    {post : Db → Option (Txn.Tx Row Time lang) → List Uuid → Prop} (ok : safe db)
    (valid : db.Valid tx.writes)
    (next : ∀ ids tx', ids.length = es.length → tx'.time = tx.time →
      tx'.writes = tx.writes ++ inserts (newDeliveries eventId tenant tx.time es ids) →
      db.Valid tx'.writes → post db (some tx') ids) :
    Tries (engine κ cfg) safe db (some tx) (insertDeliveries eventId tenant es) post := by
  induction es generalizing tx post with
  | nil =>
    refine Txn.tries_pure ok ?_
    exact next [] tx rfl rfl (by simp [inserts, newDeliveries]) valid
  | cons e es ih =>
    refine tries_ask ok fun id => tries_query ok valid fun c _ ws tx₁ run time₁ writes₁ valid₁ => ?_
    obtain ⟨rfl, _⟩ := Store.insert_ok (Store.insertDelivery_ok run).2.2
    refine Txn.tries_bind (ih valid₁ fun ids tx' each time eq valid' => Txn.tries_pure ok ?_)
    refine next (id :: ids) tx' (congrArg (· + 1) each) (time.trans time₁) ?_ valid'
    rw [eq, time₁, writes₁, List.append_assoc]
    rfl

theorem newDeliveries_covers {eventId : Uuid} {tenant : String} {consumer : Option Uuid}
    {type : String} {now : Time} {ids : List Uuid} {view : Db}
    (same : Db.all Endpoint view = Db.all Endpoint db)
    (each : ids.length =
      ((Store.activeEndpointsForScope tenant consumer view).filter (·.subscribesTo type)).length) :
    Covers db tenant consumer type now ⟨eventId, ids⟩ (newDeliveries eventId tenant now
      ((Store.activeEndpointsForScope tenant consumer view).filter (·.subscribesTo type)) ids) := by
  have chosen : ((Store.activeEndpointsForScope tenant consumer view).filter
      (·.subscribesTo type)).Perm
      ((Db.all Endpoint db).filter fun e => Receives tenant consumer type e) := by
    refine ((List.perm_insertionSort _ _).filter _).trans ?_
    rw [Store.select, same, List.filter_filter]
    refine List.Perm.of_eq (List.filter_congr fun e _ => ?_)
    rw [Bool.eq_iff_iff]
    simp only [Bool.and_eq_true, decide_eq_true_eq]
    constructor
    · rintro ⟨listed, own, enabled, scope⟩
      exact ⟨enabled, own, scope, (subscribesTo_iff e type).mp listed⟩
    · intro h
      exact ⟨(subscribesTo_iff e type).mpr h.listed, h.tenant, h.enabled, h.consumer⟩
  generalize (Store.activeEndpointsForScope tenant consumer view).filter (·.subscribesTo type) = es
    at each chosen
  refine ⟨?_, ?_, ?_⟩
  · rw [newDeliveries, List.map_map]
    exact List.map_snd_zip each.le
  · intro d hd
    obtain ⟨p, _, rfl⟩ := List.mem_map.mp hd
    exact ⟨rfl, rfl, rfl, rfl, rfl, ⟨rfl, rfl⟩, rfl⟩
  · have kept : (newDeliveries eventId tenant now es ids).map (·.endpointId) =
        ((es.zip ids).map Prod.fst).map (·.id) := by
      rw [newDeliveries, List.map_map, List.map_map]
      rfl
    rw [kept, List.map_fst_zip each.ge]
    exact chosen.map _

/-- The part that both functions share, inside their transaction. -/
theorem tries_publish {eventId : Uuid} {tenant : String} {consumer : Option Uuid} {type : String}
    {payload : Value} {f : List Uuid → Io α} (ok : safe db) (valid : db.Valid tx.writes)
    (outside : ∀ w ∈ tx.writes, w.after.key.table ≠ .endpoints)
    (next : ∀ ids tx' new, tx'.time = tx.time → db.Valid tx'.writes →
      tx'.writes = tx.writes ++ inserts
        [(⟨eventId, tenant, consumer, type, payload, tx.time⟩ : Event)] ++ inserts new →
      Covers db tenant consumer type tx.time ⟨eventId, ids⟩ new →
      Tries (engine κ cfg) safe db (some tx') (f ids) post) :
    Tries (engine κ cfg) safe db (some tx)
      (query (.insertEvent eventId tenant consumer type payload) >>= fun _ =>
        query (.activeEndpointsForScope tenant consumer) >>= fun es =>
        insertDeliveries eventId tenant (es.filter (·.subscribesTo type)) >>= f) post := by
  refine tries_query ok valid fun c row ws tx₁ run time₁ writes₁ valid₁ => ?_
  obtain ⟨rfl, _, inserted⟩ := Store.insertEvent_ok run
  obtain ⟨rfl, _⟩ := Store.insert_ok inserted
  refine tries_query ok valid₁ fun c es ws tx₂ run time₂ writes₂ valid₂ => ?_
  obtain ⟨rfl, rfl⟩ := Prod.mk.inj (Except.ok.inj run)
  refine Txn.tries_bind (tries_insertDeliveries ok valid₂ fun ids tx' each time writes valid' => ?_)
  rw [time₂, time₁] at time writes
  refine next ids tx' _ time valid' ?_ (newDeliveries_covers ?_ each)
  · rw [writes, writes₂, writes₁, List.append_nil]
    rfl
  · refine Db.all_apply_outside valid₁ ?_
    rw [writes₁]
    intro w hw
    rcases List.mem_append.mp hw with hw | hw
    · exact outside w hw
    · rw [List.mem_singleton.mp hw]
      exact nofun

theorem filterMap_inserts {β : Type} [Record β] (rows : List β) :
    ((inserts rows).filterMap fun w => (Record.ofRow w.after : Option β)) = rows := by
  have own (r : β) : Record.ofRow (Record.row r) = some r := Record.ofRow_iff.mpr rfl
  simp [inserts, List.filterMap_map, own]

theorem inserts_before {β : Type} [Record β] {rows : List β} {w : Write} (mem : w ∈ inserts rows) :
    w.before = none ∧ w.after.key.table = Record.table β := by
  obtain ⟨r, _, rfl⟩ := List.mem_map.mp mem
  exact ⟨rfl, congrArg Key.table (Record.key_row r)⟩

theorem all_apply_inserts {β : Type} [Record β] {rows : List β} {pre rest : List Write}
    (valid : db.Valid (pre ++ inserts rows ++ rest))
    (before : ∀ w ∈ pre, w.after.key.table ≠ Record.table β)
    (after : ∀ w ∈ rest, w.after.key.table ≠ Record.table β) :
    Db.all β (db.apply (pre ++ inserts rows ++ rest)) = Db.all β db ++ rows := by
  rw [Db.all_apply_fresh valid]
  · rw [List.filterMap_append, List.filterMap_append, Db.filterMap_outside before,
      Db.filterMap_outside after, filterMap_inserts, List.nil_append, List.append_nil]
  · intro w hw same
    rcases List.mem_append.mp hw with hw | hw
    · rcases List.mem_append.mp hw with hw | hw
      · exact absurd same (before w hw)
      · exact (inserts_before hw).1
    · exact absurd same (after w hw)

theorem fansOut_apply {tenant : String} {consumer : Option Uuid} {type : String} {payload : Value}
    {now : Time} {enq : Enqueued} {new : List Delivery} {ws : List Write} (pre rest : List Write)
    (valid : db.Valid ws)
    (split : ws = pre ++
      inserts [(⟨enq.eventId, tenant, consumer, type, payload, now⟩ : Event)] ++
        inserts new ++ rest)
    (outside : ∀ w ∈ pre ++ rest, w.after.key.table ≠ .events ∧ w.after.key.table ≠ .deliveries)
    (covers : Covers db tenant consumer type now enq new) :
    FansOut db tenant consumer type payload now enq (db.apply ws) := by
  constructor
  · rw [List.append_assoc] at split
    subst split
    refine all_apply_inserts valid (fun w hw => (outside w (List.mem_append_left _ hw)).1) ?_
    intro w hw
    rcases List.mem_append.mp hw with hw | hw
    · rw [(inserts_before hw).2]
      exact nofun
    · exact (outside w (List.mem_append_right _ hw)).1
  · subst split
    refine ⟨new, all_apply_inserts valid ?_ ?_, covers⟩
    · intro w hw
      rcases List.mem_append.mp hw with hw | hw
      · exact (outside w (List.mem_append_left _ hw)).2
      · rw [(inserts_before hw).2]
        exact nofun
    · exact fun w hw => (outside w (List.mem_append_right _ hw)).2

theorem mem_publication {event : Event} {new : List Delivery} {pre rest : List Write} {w : Write}
    (mem : w ∈ pre ++ inserts [event] ++ inserts new ++ rest) :
    w.after.key.table = .events ∨ w.after.key.table = .deliveries ∨ w ∈ pre ++ rest := by
  rcases List.mem_append.mp mem with mem | mem
  · rcases List.mem_append.mp mem with mem | mem
    · rcases List.mem_append.mp mem with mem | mem
      · exact .inr (.inr (List.mem_append_left _ mem))
      · exact .inl (inserts_before mem).2
    · exact .inr (.inl (inserts_before mem).2)
  · exact .inr (.inr (List.mem_append_right _ mem))

theorem keeps_apply {ws : List Write} {but : Key → Prop} (valid : db.Valid ws)
    (each : ∀ w ∈ ws, but w.after.key) : Keeps db (db.apply ws) but := by
  intro k other
  refine Txn.Store.get?_apply_of_ne valid fun w hw same => other ?_
  exact same ▸ each w hw

end Publish

def Enqueues (db : Db) (tenant : String) (consumer : Option Uuid) (type : String) (payload : Value)
    (enq : Enqueued) (db' : Db) : Prop :=
  ∃ now, FansOut db tenant consumer type payload now enq db' ∧
    Keeps db db' fun k => k.table = .events ∨ k.table = .deliveries

/-- All that a bridged inbound event does: a publication for its tenant, and its own row. -/
def Accepts (db : Db) (source : InboundSource) (type : String) (payload : Value) (stored : Uuid)
    (enq : Enqueued) (db' : Db) : Prop :=
  ∃ now, FansOut db source.tenantId none type payload now enq db' ∧
    Keeps db db' fun k => k.table = .events ∨ k.table = .deliveries ∨ k = ⟨.inboundEvents, stored⟩

section Programs

variable {κ : Prims} {cfg : DispatcherConfig} {db : Db}

theorem tries_enqueueMessage (tenant : String) (consumer : Option Uuid) (type : String)
    (payload : Value) : Tries (engine κ cfg)
      (fun db' => db' = db ∨ ∃ enq, Enqueues db tenant consumer type payload enq db') db none
      (Outbox.enqueueMessage tenant consumer type payload)
      fun db' _ enq => Enqueues db tenant consumer type payload enq db' := by
  refine tries_ask (.inl rfl) fun eventId => tries_begin (.inl rfl) fun t => ?_
  refine tries_publish (.inl rfl) trivial (by simp [Txn.Tx.writes]) ?_
  intro ids tx new time valid writes covers
  have split : tx.writes = [] ++
    inserts [(⟨eventId, tenant, consumer, type, payload, t⟩ : Event)] ++
      inserts new ++ [] := by
    rw [writes, List.append_nil]
    rfl
  have published : Enqueues db tenant consumer type payload ⟨eventId, ids⟩
    (db.apply tx.writes) := by
    refine ⟨t, fansOut_apply [] [] valid split (by simp) covers, keeps_apply valid fun w hw => ?_⟩
    rcases mem_publication (split ▸ hw) with events | deliveries | none
    · exact .inl events
    · exact .inr deliveries
    · cases none
  exact tries_commit (.inl rfl) (.inr ⟨_, published⟩)
    (Txn.tries_pure (.inr ⟨_, published⟩) published)

theorem link_writes {stored event : Uuid} {view : Db} {ws : List Write}
    (run : Store.linkInboundEvent stored event view = .ok ((), ws)) :
    ∀ w ∈ ws, w.after.key = ⟨.inboundEvents, stored⟩ := by
  obtain ⟨_, rfl⟩ := Store.linkInboundEvent_ok run
  intro w hw
  obtain ⟨a, same, _, rfl, _⟩ := Store.mem_update hw
  rw [← same]
  rfl

theorem tries_accept (source : InboundSource) (key : Option String) (type : String) (raw : Bytes)
    (payload : Value) : Tries (engine κ cfg)
      (fun db' => db' = db ∨ ∃ stored enq, Accepts db source type payload stored enq db') db none
      (Inbox.accept source key type raw payload)
      fun db' _ answer => match answer with
        | .duplicate => db' = db
        | .bridged stored event ids => Accepts db source type payload stored ⟨event, ids⟩ db' := by
  refine tries_begin (.inl rfl) fun t => tries_ask (.inl rfl) fun inboundId => ?_
  refine tries_query (.inl rfl) trivial fun c inserted ws tx₁ run time₁ writes₁ valid₁ => ?_
  rcases Store.insertInboundEvent_ok run with ⟨rfl, _⟩ | ⟨rfl, _, new⟩
  · exact tries_rollback (.inl rfl) (Txn.tries_pure (.inl rfl) rfl)
  · obtain ⟨rfl, _⟩ := Store.insert_ok new
    have first : ∀ w ∈ tx₁.writes, w.after.key = ⟨.inboundEvents, inboundId⟩ := by
      rw [writes₁]
      intro w hw
      rw [List.mem_singleton.mp hw]
      rfl
    refine tries_ask (.inl rfl) fun eventId => tries_publish (.inl rfl) valid₁ ?_ ?_
    · intro w hw
      rw [first w hw]
      exact nofun
    · intro ids tx₂ new time₂ valid₂ writes₂ covers
      refine tries_query (.inl rfl) valid₂ fun c _ ws tx run time writes valid => ?_
      have own : ∀ w ∈ tx₁.writes ++ ws, w.after.key = ⟨.inboundEvents, inboundId⟩ := fun w hw =>
        (List.mem_append.mp hw).elim (first w) (link_writes run w)
      have split := writes
      rw [writes₂] at split
      have bridged : Accepts db source type payload inboundId ⟨eventId, ids⟩
        (db.apply tx.writes) := by
        refine ⟨tx₁.time, fansOut_apply tx₁.writes ws valid split (fun w hw => ?_) covers,
          keeps_apply valid fun w hw => ?_⟩
        · rw [own w hw]
          exact ⟨nofun, nofun⟩
        · rcases mem_publication (split ▸ hw) with events | deliveries | inbound
          · exact .inl events
          · exact .inr (.inl deliveries)
          · exact .inr (.inr (own w inbound))
      exact tries_commit (.inl rfl) (.inr ⟨_, _, bridged⟩)
        (Txn.tries_pure (.inr ⟨_, _, bridged⟩) bridged)

theorem solo_conclude {α : Type} {safe : Db → Prop} {post : Db → α → Prop}
    {result : Except CoreError α → Result} (inj : Function.Injective result) {x : Io α}
    (tries : Tries (engine κ cfg) safe db none x fun db' _ a => post db' a) :
    Solo (engine κ cfg) safe
      (fun db' _ res => safe db' ∧ ∀ a, res = result (.ok a) → post db' a) db none
      (conclude result x) := by
  refine (Txn.solo_bind x.run _).mpr (Txn.Solo.mono tries fun db' tx r h => ⟨h.1, fun a eq => ?_⟩)
  exact h.2 a (inj eq)

end Programs

abbrev Launched (κ : Prims) (cfg : DispatcherConfig) (db : Db) (pid : Pid) (job : Job) (t : State) :
    Prop :=
  Reach (engine κ cfg) Txn.startsNone ((Txn.State.start db).launch (engine κ cfg) pid job []) t

/-- On every database and with a failure or crash anywhere, a publication leaves nothing
or its exact fan-out, and is acknowledged only with the latter; a bridged inbound event
adds what a publication for its tenant adds. A message is answered over HTTP only after
the fan-out of the type and payload of its request was made durable. -/
theorem commit_then_acknowledge (κ : Prims) (cfg : DispatcherConfig) (db : Db) (pid : Pid)
    (t : State) :
    (∀ tenant consumer type payload,
      Launched κ cfg db pid (.enqueueMessage tenant consumer type payload) t →
      (t.db = db ∨ ∃ enq, Enqueues db tenant consumer type payload enq t.db) ∧
      ∀ enq, .finished pid (.enqueueMessage tenant consumer type payload)
        (.enqueued (.ok enq)) ∈ t.log → Enqueues db tenant consumer type payload enq t.db) ∧
    (∀ source key type raw payload,
      Launched κ cfg db pid (.accept source key type raw payload) t →
      (t.db = db ∨ ∃ stored enq, Accepts db source type payload stored enq t.db) ∧
      (∀ stored event ids, .finished pid (.accept source key type raw payload)
        (.accepted (.ok (.bridged stored event ids))) ∈ t.log →
        Accepts db source type payload stored ⟨event, ids⟩ t.db) ∧
      (.finished pid (.accept source key type raw payload) (.accepted (.ok .duplicate)) ∈ t.log →
        t.db = db)) ∧
    ∀ headers request status wait event ids, Run κ cfg Txn.anyStep db t →
      .finished pid (.serve headers request)
        (.answered (.ok ⟨status, wait, .message event ids⟩)) ∈ t.log →
      ∃ time unit tenant consumer type payload,
        .applied pid (.serve headers request) time unit ∈ t.log ∧
        request.publishes = some (type, payload) ∧
        Publishes tenant consumer type payload ⟨event, ids⟩ unit := by
  refine ⟨?_, ?_, ?_⟩
  · intro tenant consumer type payload reach
    have solo := @solo_conclude κ cfg db _ _ _ Result.enqueued
      (fun _ _ eq => Result.enqueued.inj eq) _ (tries_enqueueMessage tenant consumer type payload)
    obtain ⟨safe, ended⟩ := Txn.solo_reach (fun _ => rfl) solo reach
    exact ⟨safe, fun enq mem => ended _ mem enq rfl⟩
  · intro source key type raw payload reach
    have solo := @solo_conclude κ cfg db _ _ _ Result.accepted
      (fun _ _ eq => Result.accepted.inj eq) _ (tries_accept source key type raw payload)
    obtain ⟨safe, ended⟩ := Txn.solo_reach (fun _ => rfl) solo reach
    exact ⟨safe, fun stored event ids mem => ended _ mem _ rfl, fun mem => ended _ mem _ rfl⟩
  · intro headers request status wait event ids reach mem
    obtain ⟨past, ⟨tenant, consumer, type, payload, unit, may, publishes, known⟩, _, applied⟩ :=
      Txn.finished_past (protocol κ cfg) reach mem
    obtain ⟨time, entry⟩ := applied unit known
    cases may with
    | request _ content =>
      exact ⟨time, unit, tenant, consumer, type, payload, entry, content, publishes⟩

def subscribed : List Move :=
  .spawn (.client 0) (.command (.createEndpoint "t" "http://a" "s" ["a.*"] none)) ::
    go 3 (.client 0) 0 1 (.error "") ++
  .spawn (.client 0) (.command (.createEndpoint "t" "http://b" "s" ["b"] none)) ::
    go 3 (.client 0) 0 2 (.error "") ++
  .spawn (.client 0) (.command (.createEndpoint "u" "http://c" "s" [] none)) ::
    go 3 (.client 0) 0 4 (.error "") ++
  .spawn (.client 0) (.command (.createInboundSource "t" "hooks" "github" "s")) ::
    go 3 (.client 0) 0 1 (.error "")

def passedOn : Job :=
  .accept ⟨1, "t", "hooks", "github", "s", false, 0, 0⟩ (some "k") "a.b" [1, 2] .null

theorem commit_then_acknowledge_subscribed : ∃ (db : Db) (t u : State),
    (Db.all Endpoint db).map (·.id) = [1, 2, 4] ∧
    Launched plain Dispatcher.default db (.client 0) (.enqueueMessage "t" none "a.b" .null) t ∧
    Enqueues db "t" none "a.b" .null ⟨2, [3]⟩ t.db ∧
    Launched plain Dispatcher.default db (.client 0) passedOn u ∧
    Accepts db ⟨1, "t", "hooks", "github", "s", false, 0, 0⟩ "a.b" .null 5 ⟨5, [5]⟩ u.db := by
  have played : ∃ s t u : State,
      replay plain Dispatcher.default (.start .empty) subscribed = some s ∧
      Txn.play (engine plain Dispatcher.default) (fun s t => Txn.startsNone s t)
        ((Txn.State.start s.db).launch (engine plain Dispatcher.default) (.client 0)
          (.enqueueMessage "t" none "a.b" .null) [])
        (go 4 (.client 0) 0 2 (.error "") ++ go 4 (.client 0) 0 3 (.error "")) = some t ∧
      Txn.play (engine plain Dispatcher.default) (fun s t => Txn.startsNone s t)
        ((Txn.State.start s.db).launch (engine plain Dispatcher.default) (.client 0) passedOn [])
        (go 11 (.client 0) 0 5 (.error "")) = some u ∧
      (Db.all Endpoint s.db).map (·.id) = [1, 2, 4] ∧ t.log.head? = some (.finished (.client 0)
        (.enqueueMessage "t" none "a.b" .null) (.enqueued (.ok ⟨2, [3]⟩))) ∧
      u.log.head? = some (.finished (.client 0) passedOn (.accepted (.ok (.bridged 5 5 [5])))) :=
    ⟨_, _, _, rfl, rfl, rfl, rfl, rfl, rfl⟩
  obtain ⟨s, t, u, _, sent, bridged, three, last, last'⟩ := played
  have reach : Launched plain Dispatcher.default s.db (.client 0)
      (.enqueueMessage "t" none "a.b" .null) t :=
    Txn.play_reach (fun a b ok => of_decide_eq_true ok) sent
  have reach' : Launched plain Dispatcher.default s.db (.client 0) passedOn u :=
    Txn.play_reach (fun a b ok => of_decide_eq_true ok) bridged
  have all := commit_then_acknowledge plain Dispatcher.default s.db (.client 0) t
  have all' := commit_then_acknowledge plain Dispatcher.default s.db (.client 0) u
  refine ⟨s.db, t, u, three, reach, ?_, reach', ?_⟩
  · exact (all.1 "t" none "a.b" .null reach).2 _ (List.mem_of_head? last)
  · exact (all'.2.1 _ _ _ _ _ reach').2.1 _ _ _ (List.mem_of_head? last')

end Dropless
