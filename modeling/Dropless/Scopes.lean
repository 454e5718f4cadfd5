import Dropless.ApiKeys
import Dropless.Inbox
import Dropless.Posts

/-! Isolation of what is sent. The scope of a delivery is stored with it, with its event, with its
endpoint and with their consumer, and nothing in the schema ties the copies together. Every
operation that creates a row takes the scope from one place, and no operation changes it. -/
namespace Dropless

open Txn (Durable)

variable {κ : Prims} {cfg : DispatcherConfig} {cond : State → State → Prop} {db : Db}
  {s t : State} {pid : Pid} {p : Proc} {tx : Txn.Tx Row Time lang}

section Offered

/- The jobs that a deployment offers: the dispatcher, the API, ingest and the commands. -/
def Job.offered : Job → Bool
  | .claim _ | .processOne .. | .serve .. | .ingest .. | .command _ => true
  | _ => false

def starts : Entry → Bool
  | .started _ job => job.offered
  | _ => true

/-- Only such jobs are started. -/
def Offered (s t : State) : Prop := ∀ e ∈ Txn.since s t, starts e = true

instance (s t : State) : Decidable (Offered s t) :=
  inferInstanceAs (Decidable (∀ e ∈ Txn.since s t, starts e = true))

theorem reach_offered (reach : Run κ cfg Offered db s) (live : s.procs.lookup pid = some p) :
    p.job.offered = true := by
  induction reach generalizing p with
  | start => cases live
  | @next s t before step ok ih =>
    obtain ⟨new, log, moved⟩ := Txn.step_moved step live
    cases moved with
    | same old => exact ih old
    | called old job => exact job ▸ ih old
    | spawned _ _ _ _ new =>
      refine ok (.started pid p.job) ?_
      rw [Txn.since_eq log, new]
      exact List.mem_cons_self
    | followed _ _ _ _ new =>
      refine ok (.started pid p.job) ?_
      rw [Txn.since_eq log, new]
      exact List.mem_cons_self

end Offered

section Owners

/-- The consumer of a scope, if it has one, belongs to its tenant. -/
def Belongs (db : Db) (tenant : String) (consumer : Option Uuid) : Prop :=
  ∀ id, consumer = some id → ∃ c : Consumer, db.find? id = some c ∧ c.tenantId = tenant

theorem Belongs.kept {db db' : Db} {tenant : String} {consumer : Option Uuid}
    (belongs : Belongs db tenant consumer)
    (kept : ∀ k r, db.get? k = some r → ∃ r', db'.get? k = some r' ∧ r'.frozen = r.frozen) :
    Belongs db' tenant consumer := by
  intro id eq
  obtain ⟨c, found, tenant_⟩ := belongs id eq
  obtain ⟨c', found', same⟩ := find_kept kept found
  exact ⟨c', found', (Consumer.fixed same).tenantId.trans tenant_⟩

theorem scoped_belongs {tenant : String} {consumer : Option Uuid} (reach : Run κ cfg cond db s)
    (live : s.procs.lookup pid = some p) (scope : Scoped p.calls tenant consumer) :
    Belongs s.db tenant consumer := by
  rintro id rfl
  rcases scope with none | ⟨uid, c, told, eq⟩
  · cases none
  cases eq
  obtain ⟨a, q, now, ch, ws, before, later, _, _, _, allowed, run⟩ := told_origin reach live told
  cases inside : q.tx with
  | some tx =>
    simp only [allows, Txn.Proc.past, inside, Option.map_some] at allowed
    exact allowed.elim
  | none =>
    simp only [Txn.writes_none inside] at run
    have read : Store.getConsumer tenant uid a.db = some c := congrArg Prod.fst (Except.ok.inj run)
    obtain ⟨found, match_⟩ := Store.mem_select.mp (List.mem_of_head? read)
    obtain ⟨c', there, same⟩ := reach_find before later found
    exact ⟨c', there, (Consumer.fixed same).tenantId.trans (of_decide_eq_true match_).1⟩

end Owners

section Events

theorem commits_event {calls : Calls} {job : Job} {unit : List Ran} {event : Uuid} {tenant : String}
    {consumer : Option Uuid} {type : String} {payload : Value} {row : Event}
    (commits : Commits κ cfg calls job unit)
    (mem : ran (.insertEvent event tenant consumer type payload) row ∈ unit) :
    Publishing calls job tenant consumer type payload ∨ consumer = none := by
  cases commits with
  | settle settles => cases settles <;> simp [circuitRan] at mem
  | publish may publishes =>
    rcases publishes.mem_cases mem with ⟨_, eq⟩ | ⟨_, eq⟩ | ⟨_, _, _, eq⟩
    · cases eq
      exact .inl may
    · cases eq
    · cases eq
  | bridge may bridges =>
    rcases bridges.mem_cases mem with ⟨_, eq⟩ | ⟨_, eq⟩ | ⟨_, eq⟩ | ⟨_, _, _, eq⟩ | eq
    · cases eq
    · cases eq
      exact .inr rfl
    · cases eq
    · cases eq
    · cases eq

theorem event_cases (durable : Durable (protocol κ cfg) s pid p tx) {ev : Event}
    (mem : ev ∈ Db.all Event (s.db.apply tx.writes)) :
    ev ∈ Db.all Event s.db ∨ ∃ row,
      ran (.insertEvent ev.id ev.tenantId ev.consumerId ev.eventType ev.payload) row
        ∈ tx.done.map Txn.Done.ran ∧
      (Publishing p.calls p.job ev.tenantId ev.consumerId ev.eventType ev.payload ∨
        ev.consumerId = none) := by
  rw [all_after (events_appended tx.time) durable] at mem
  rcases List.mem_append.mp mem with old | new
  · exact .inl old
  obtain ⟨x, here, made⟩ := List.mem_filterMap.mp new
  unfold eventOf at made
  split at made
  · cases made
    refine .inr ⟨_, here, ?_⟩
    rcases unit_allowed durable with commits | ⟨d, one, alone⟩
    · exact commits_event commits here
    · rw [one, List.map_singleton, List.mem_singleton] at here
      have target : d.stmt.target = some .events := (congrArg (fun x : Ran => x.1.target) here).symm
      exact ((alone_outside alone).1 target).elim
  · cases made

theorem reach_events (reach : Run κ cfg Offered .empty s) :
    ∀ ev ∈ Db.all Event s.db, Belongs s.db ev.tenantId ev.consumerId := by
  refine Txn.reach_db (protocol κ cfg) (fun db => ∀ ev ∈ Db.all Event db,
    Belongs db ev.tenantId ev.consumerId) .start (fun _ none => (List.not_mem_nil none).elim)
      ?_ reach
  intro a pid p tx before durable good ev mem
  have kept := fun k r => durable_keeps durable (k := k) (r := r)
  rcases event_cases durable mem with old | ⟨_, _, may | none⟩
  · exact (good ev old).kept kept
  · have offered := reach_offered before durable.live
    generalize job : p.job = job' at may offered
    cases may with
    | direct => cases offered
    | request scope _ => exact (scoped_belongs before durable.live scope).kept kept
  · intro id eq
    cases none.symm.trans eq

/- Every event was published in its scope. -/
theorem reach_published (reach : Run κ cfg cond .empty s) :
    ∀ ev ∈ Db.all Event s.db, ∃ pid job time unit row, .applied pid job time unit ∈ s.log ∧
      ran (.insertEvent ev.id ev.tenantId ev.consumerId ev.eventType ev.payload) row ∈ unit := by
  refine Txn.reach_invariant (protocol κ cfg) (fun db log => ∀ ev ∈ Db.all Event db,
    ∃ pid job time unit row, .applied pid job time unit ∈ log ∧
      ran (.insertEvent ev.id ev.tenantId ev.consumerId ev.eventType ev.payload) row ∈ unit)
    (fun _ none => (List.not_mem_nil none).elim) ?_ reach
  intro a b _ _ good _ outcome ev mem
  cases outcome with
  | quiet es same log _ =>
    obtain ⟨pid, job, time, unit, row, applied, made⟩ := good ev (same ▸ mem)
    exact ⟨pid, job, time, unit, row, log ▸ List.mem_append_right _ applied, made⟩
  | durable pid p tx op ans same log _ durable _ =>
    rw [log]
    rcases event_cases durable (same ▸ mem) with old | ⟨row, made, _⟩
    · obtain ⟨pid, job, time, unit, row, applied, made⟩ := good ev old
      exact ⟨pid, job, time, unit, row,
        List.mem_cons_of_mem _ (List.mem_cons_of_mem _ applied), made⟩
    · exact ⟨pid, p.job, tx.time, _, row, List.mem_cons_of_mem _ List.mem_cons_self, made⟩

end Events

section Deliveries

/-- The delivery, its event and its endpoint are in one scope. -/
structure Aligned (db : Db) (d : Delivery) (ev : Event) (e : Endpoint) : Prop where
  event : db.find? d.eventId = some ev
  endpoint : db.find? d.endpointId = some e
  tenant : d.tenantId = ev.tenantId ∧ ev.tenantId = e.tenantId
  consumer : ev.consumerId = e.consumerId

theorem Aligned.kept {db db' : Db} {d d' : Delivery} {ev : Event} {e : Endpoint}
    (aligned : Aligned db d ev e) (same : (Row.delivery d').frozen = (Row.delivery d).frozen)
    (kept : ∀ k r, db.get? k = some r → ∃ r', db'.get? k = some r' ∧ r'.frozen = r.frozen) :
    ∃ e', Aligned db' d' ev e' := by
  have same := Delivery.fixed same
  obtain ⟨ev', event, eq⟩ := find_kept kept aligned.event
  obtain rfl : ev' = ev := Row.event.inj eq
  obtain ⟨e', endpoint, eq⟩ := find_kept kept aligned.endpoint
  have own := Endpoint.fixed eq
  refine ⟨e', same.eventId ▸ event, same.endpointId ▸ endpoint, ⟨?_, ?_⟩, ?_⟩
  · rw [same.tenantId, aligned.tenant.1]
  · rw [aligned.tenant.2, own.tenantId]
  · rw [aligned.consumer, own.consumerId]

theorem published_endpoint {calls : Calls} {job : Job} {unit : List Ran} {id event endpoint : Uuid}
    {tenant : String} (commits : Commits κ cfg calls job unit)
    (mem : ran (.insertDelivery id event endpoint tenant) () ∈ unit) :
    ∃ consumer type payload row es, ∃ e ∈ es, endpoint = e.id ∧
      ran (.insertEvent event tenant consumer type payload) row ∈ unit ∧
      ran (.activeEndpointsForScope tenant consumer) es ∈ unit := by
  obtain ⟨consumer, type, payload, enq, pre, inner, post, rfl, publishes, rfl, outside, _⟩ :=
    commits_published commits mem
  have inside := mem_inner outside mem (by simp [Stmt.target])
  have part : ∀ x ∈ inner, x ∈ pre ++ inner ++ post := fun x here =>
    List.mem_append_left _ (List.mem_append_right _ here)
  cases publishes with
  | @mk eventId row es ids each =>
    have read := part _ (List.mem_cons_of_mem _ List.mem_cons_self)
    rcases List.mem_cons.mp inside with eq | inside
    · cases eq
    rcases List.mem_cons.mp inside with eq | inside
    · cases eq
    obtain ⟨e, listed, _, _, eq⟩ := mem_fanOut inside
    cases eq
    exact ⟨consumer, type, payload, row, es, e, List.mem_of_mem_filter listed, rfl,
      part _ List.mem_cons_self, read⟩

theorem unit_read (reach : Run κ cfg cond db s) (durable : Durable (protocol κ cfg) s pid p tx)
    {tenant : String} {consumer : Option Uuid} {es : List Endpoint} {e : Endpoint}
    (mem : ran (.activeEndpointsForScope tenant consumer) es ∈ tx.done.map Txn.Done.ran)
    (listed : e ∈ es) : ∃ e' : Endpoint, Db.find? (s.db.apply tx.writes) e.id = some e' ∧
      e'.tenantId = tenant ∧ e'.consumerId = consumer := by
  obtain ⟨d, hd, eq⟩ := List.mem_map.mp mem
  obtain ⟨ws, rfl⟩ := Txn.done_of_ran eq
  obtain ⟨pre, post, done⟩ := List.append_of_mem hd
  obtain ⟨c, view, exec, kept⟩ := unit_view reach durable done
  have run := Stmt.exec_ok (q := .activeEndpointsForScope tenant consumer) exec
  obtain rfl : Store.activeEndpointsForScope tenant consumer view = es :=
    congrArg Prod.fst (Except.ok.inj run)
  obtain ⟨found, scope⟩ := Store.mem_select.mp (Store.mem_orderBy.mp listed)
  obtain ⟨tenant_, _, consumer_⟩ := of_decide_eq_true scope
  obtain ⟨e', there, same⟩ := find_kept kept found
  have same := Endpoint.fixed same
  exact ⟨e', there, same.tenantId.trans tenant_, same.consumerId.trans consumer_⟩

theorem reach_aligned (reach : Run κ cfg cond .empty s) :
    ∀ id (d : Delivery), Db.find? s.db id = some d → ∃ ev e, Aligned s.db d ev e := by
  refine Txn.reach_db (protocol κ cfg) (fun db => ∀ id (d : Delivery), Db.find? db id = some d →
    ∃ ev e, Aligned db d ev e) .start ?_ ?_ reach
  · intro id d none
    cases none
  intro a pid p tx before durable good id d found
  rcases delivery_cases durable found with
    ⟨r, here, same⟩ | ⟨event, endpoint, tenant, rfl, mem, commits⟩
  · obtain ⟨ev, e, aligned⟩ := good id r here
    obtain ⟨e', aligned'⟩ := aligned.kept same fun k r => durable_keeps durable (k := k) (r := r)
    exact ⟨ev, e', aligned'⟩
  · obtain ⟨consumer, type, payload, row, es, e, listed, rfl, inserted, read⟩ :=
      published_endpoint commits mem
    obtain ⟨e', there, tenant_, consumer_⟩ := unit_read before durable read listed
    exact ⟨_, e', (published_event durable inserted).2, there, ⟨rfl, tenant_.symm⟩, consumer_.symm⟩

end Deliveries

theorem posts_url (reach : Run κ cfg cond db s) {d : Delivery} {req : Request}
    (posts : Posts s d req) :
    ∃ a, ∃ e : Endpoint, Run κ cfg cond db a ∧ Txn.Reach (engine κ cfg) cond a s ∧
      Db.find? a.db d.endpointId = some e ∧ req.url = e.url := by
  obtain ⟨pid, p, w, k, at_, job⟩ := posts
  obtain ⟨w', d', e, now, same, passed, ev, body, headers, told, encoded, signed, rfl⟩ :=
    Txn.allowed_at (Txn.reach_sound (protocol κ cfg) reach) at_
  cases job.symm.trans same
  obtain ⟨a, before, later, read⟩ := read_row reach at_.1 passed.endpoint
  exact ⟨a, e, before, later, read, rfl⟩

/-- In any run of the jobs that a deployment offers, every delivery, its event and its endpoint are
in one scope, whose consumer belongs to the tenant. So a POST, whenever it is made, goes to a URL
of an endpoint with a payload that was published in the scope of that endpoint. -/
theorem scope_isolation (κ : Prims) (cfg : DispatcherConfig) (s : State)
    (reach : Run κ cfg Offered .empty s) :
    (∀ d ∈ Db.all Delivery s.db, ∃ ev e, Aligned s.db d ev e ∧
      Belongs s.db d.tenantId ev.consumerId) ∧
    ∀ d req, Posts s d req → ∃ (ev : Event) (e : Endpoint), Db.find? s.db d.endpointId = some e ∧
      κ.toVec ev.payload = .ok req.body ∧
      (∃ a, ∃ e' : Endpoint, Run κ cfg Offered .empty a ∧ Txn.Reach (engine κ cfg) Offered a s ∧
        Db.find? a.db d.endpointId = some e' ∧ req.url = e'.url) ∧
      (∃ pid job time unit row, .applied pid job time unit ∈ s.log ∧
        ran (.insertEvent ev.id e.tenantId e.consumerId ev.eventType ev.payload) row ∈ unit) ∧
      Belongs s.db e.tenantId e.consumerId := by
  constructor
  · intro d mem
    obtain ⟨ev, e, aligned⟩ := reach_aligned reach _ d (Db.mem_all.mp mem)
    refine ⟨ev, e, aligned, ?_⟩
    rw [aligned.tenant.1]
    exact reach_events reach ev (Db.mem_all_of_find? aligned.event)
  · intro d req posts
    obtain ⟨row, ev, e, ts, carried⟩ := posts_carried reach posts
    obtain ⟨ev', e', aligned⟩ := reach_aligned reach _ row carried.stored
    have fixed := Delivery.fixed carried.frozen
    obtain rfl : ev' = ev := Option.some.inj
      (aligned.event.symm.trans (fixed.eventId ▸ carried.event))
    obtain rfl : e' = e := Option.some.inj
      (aligned.endpoint.symm.trans (fixed.endpointId ▸ carried.endpoint))
    have stored := Db.mem_all_of_find? carried.event
    have published := reach_published reach ev' stored
    have belongs := reach_events reach ev' stored
    rw [aligned.tenant.2, aligned.consumer] at published belongs
    exact ⟨ev', e', carried.endpoint, carried.body, posts_url reach posts, published, belongs⟩

def consumed : List Move :=
  .spawn (.client 0) (.command (.createApiKey "t" "k")) :: go 3 (.client 0) 0 1 (.error "") ++
  .spawn (.client 0) (.command (.createConsumer "t" "c" none)) :: go 3 (.client 0) 0 1
    (.error "") ++
  .spawn (.client 0) (.command (.createEndpoint "t" "http://a" "s" [] (some "c"))) ::
    go 4 (.client 0) 0 1 (.error "") ++
  .spawn (.client 0) (.serve [("authorization", utf8 "Bearer k".toList)]
    (.createConsumerMessage "c" "x" .null)) ::
    go 11 (.client 0) 0 2 (.error "") ++
  .spawn (.worker 0 0) (.claim (workerId 0)) :: go 6 (.worker 0 0) 0 4 (.error "")

theorem scope_isolation_consumed :
    ∃ (s : State) (d : Delivery) (req : Request) (ev : Event) (e : Endpoint),
    Run keyAnswer Dispatcher.default Offered .empty s ∧ Posts s d req ∧
    Db.find? s.db d.endpointId = some e ∧ keyAnswer.toVec ev.payload = .ok req.body ∧
    e.consumerId = some 1 ∧ Belongs s.db e.tenantId e.consumerId := by
  have played : ((Txn.play (engine keyAnswer Dispatcher.default) (fun s t => Offered s t)
    (.start .empty) consumed).bind fun s => (pending s (.worker 0 0)).bind fun x =>
        (Db.find? s.db x.1.endpointId : Option Endpoint).map (·.consumerId)) = some (some 1) := by
    decide +kernel
  obtain ⟨s, replayed, rest⟩ := Option.bind_eq_some_iff.mp played
  obtain ⟨⟨d, req⟩, here, rest⟩ := Option.bind_eq_some_iff.mp rest
  obtain ⟨e, found, consumer⟩ := Option.map_eq_some_iff.mp rest
  have reach : Run keyAnswer Dispatcher.default Offered .empty s :=
    Txn.play_reach (fun a b ok => of_decide_eq_true ok) replayed
  have posts := pending_posts here
  obtain ⟨ev, e', found', body, _, _, belongs⟩ :=
    (scope_isolation keyAnswer Dispatcher.default s reach).2 d req posts
  obtain rfl : e' = e := Option.some.inj (found'.symm.trans found)
  exact ⟨s, d, req, ev, e', reach, posts, found', body, consumer, belongs⟩

end Dropless
