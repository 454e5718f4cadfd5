import Dropless.FanOut
import Dropless.Snapshots
import Dropless.Txn.Stint

namespace Dropless

open Txn (Durable Settled Stint)

variable {κ : Prims} {cfg : DispatcherConfig} {cond : State → State → Prop} {db : Db}
  {s t : State} {pid : Pid} {p : Proc} {tx : Txn.Tx Row Time lang}

section Rows

variable {source : InboundSource} {key : Option String} {type : String} {raw : Bytes}
  {payload : Value} {stored : Uuid} {enq : Enqueued}

/- The row as the last statement of its transaction leaves it. -/
def linkedRow (id : Uuid) (source : InboundSource) (key : Option String) (type : String)
    (raw : Bytes) (now : Time) (event : Uuid) : InboundEvent :=
  { Store.newInbound id source.id source.tenantId key type raw now with eventId := some event }

theorem link_row {inbound event : Uuid} {view : Db} {r : InboundEvent} {out : Unit}
    {ws : List Write} (run : Store.linkInboundEvent inbound event view = .ok (out, ws))
    (found : view.find? inbound = some r) :
    ws = [Store.amended r { r with eventId := some event }] := by
  obtain ⟨_, rfl⟩ := Store.linkInboundEvent_ok run
  simp [Store.update, found]

theorem bridged_row (reach : Run κ cfg cond db s) (durable : Durable (protocol κ cfg) s pid p tx)
    (bridges : Bridges source key type raw payload stored enq (tx.done.map Txn.Done.ran)) :
    Db.find? s.db stored = (none : Option InboundEvent) ∧
      Db.find? (s.db.apply tx.writes) stored =
        some (linkedRow stored source key type raw tx.time enq.eventId) := by
  generalize unit : tx.done.map Txn.Done.ran = unit' at bridges
  cases bridges with
  | @mk id stored enq mid inner =>
    obtain ⟨ws, more, done, rest⟩ := Txn.done_cons unit
    obtain ⟨mids, lasts, rfl, _, last⟩ := List.map_eq_append_iff.mp rest
    obtain ⟨ws', more, rfl, none⟩ := Txn.done_cons last
    cases List.map_eq_nil_iff.mp none
    have first := done ▸ List.mem_cons_self
    obtain ⟨c, view, exec⟩ := durable.ran _ first
    rcases Store.insertInboundEvent_ok (Stmt.exec_ok exec) with ⟨absurd, _⟩ | ⟨same, _, inserted⟩
    · cases absurd
    obtain rfl := Option.some.inj same
    obtain ⟨rfl, _⟩ := Store.insert_ok inserted
    refine ⟨unit_new durable first (List.mem_singleton_self _), ?_⟩
    -- the link finds the row that the first statement inserted
    obtain ⟨c', view', link, r, found, same⟩ := unit_sees reach durable
      (done : tx.done = (_ :: mids) ++ _ :: []) List.mem_cons_self (List.mem_singleton_self _)
    have run := Stmt.exec_ok (q := .linkInboundEvent stored enq.eventId) link
    have writes := link_row run found
    have last : tx.done = (_ :: mids) ++ _ :: [] := done
    have there := unit_written durable last (writes ▸ List.mem_singleton_self _) rfl
      (fun _ none => (List.not_mem_nil none).elim)
    simp only [Record.row, Row.frozen, Store.newInbound, Row.inbound.injEq,
      InboundEvent.mk.injEq] at same
    simp only [Record.id, same] at there
    rw [there]
    simp only [linkedRow, Store.newInbound]

theorem commits_inbound {calls : Calls} {job : Job} {unit : List Ran} {x : Ran}
    (commits : Commits κ cfg calls job unit) (mem : x ∈ unit)
    (place : x.1.target = some .inboundEvents) :
    ∃ source key type raw payload stored enq, Bridging κ calls job source key type raw payload ∧
      Bridges source key type raw payload stored enq unit ∧
      ((∃ id, x = ran (.insertInboundEvent id source.id source.tenantId key type raw)
        (some stored)) ∨ x = ran (.linkInboundEvent stored enq.eventId) ()) := by
  cases commits with
  | settle settles => cases settles.closing mem <;> cases place
  | publish may publishes =>
    rcases publishes.mem_cases mem with ⟨_, rfl⟩ | ⟨_, rfl⟩ | ⟨_, _, _, rfl⟩ <;> cases place
  | bridge may bridges =>
    refine ⟨_, _, _, _, _, _, _, may, bridges, ?_⟩
    rcases bridges.mem_cases mem with first | ⟨_, rfl⟩ | ⟨_, rfl⟩ | ⟨_, _, _, rfl⟩ | last
    · exact .inl first
    · cases place
    · cases place
    · cases place
    · exact .inr last

/-- The inversion lemma for inbound rows: a unit leaves a row as it was, or bridges it. -/
theorem inbound_turn (reach : Run κ cfg cond db s) (durable : Durable (protocol κ cfg) s pid p tx)
    {id : Uuid} {r : InboundEvent} (found : Db.find? (s.db.apply tx.writes) id = some r) :
    Db.find? s.db id = some r ∨ (Db.find? s.db id = (none : Option InboundEvent) ∧
      ∃ source key type raw payload enq, Bridging κ p.calls p.job source key type raw payload ∧
        Bridges source key type raw payload id enq (tx.done.map Txn.Done.ran) ∧
        r = linkedRow id source key type raw tx.time enq.eventId) := by
  rcases row_written durable found with
    old | ⟨pre, q, out, ws, post, w, c, view, done, exec, mem, after, _⟩
  · exact .inl old
  have place : q.target = some .inboundEvents := by
    have here := (Stmt.exec_shape exec).in_table w mem
    rw [after, Record.key_row r] at here
    exact here
  have member : ran q out ∈ tx.done.map Txn.Done.ran := by
    rw [done]
    exact List.mem_map_of_mem (List.mem_append_right _ List.mem_cons_self)
  rcases unit_allowed durable with commits | ⟨d, one, alone⟩
  · obtain ⟨source, key, type, raw, payload, stored, enq, may, bridges, which⟩ :=
      commits_inbound commits member place
    obtain ⟨absent, there⟩ := bridged_row reach durable bridges
    have same : stored = id := by
      have wid : w.after.key = ⟨.inboundEvents, stored⟩ := by
        rcases which with ⟨id, eq⟩ | eq
        · cases eq
          rcases Store.insertInboundEvent_ok (Stmt.exec_ok exec) with
            ⟨absurd, _⟩ | ⟨out, _, inserted⟩
          · cases absurd
          · cases out
            rw [Store.mem_insert inserted mem]
            rfl
        · cases eq
          exact link_writes (Stmt.exec_ok exec) w mem
      rw [after, Record.key_row r, Db.find?_id found] at wid
      exact (Key.mk.inj wid).2.symm
    subst same
    exact .inr ⟨absent, source, key, type, raw, payload, enq, may, bridges,
      Option.some.inj (found.symm.trans there)⟩
  · obtain ⟨rfl, rfl, rfl⟩ := alone_split one done
    exact ((alone_outside alone).2.2.2 place).elim

theorem inbound_unique {r r' : InboundEvent} {key : String} (here : r ∈ Db.all InboundEvent db)
    (there : r' ∈ Db.all InboundEvent db) (source : r.sourceId = r'.sourceId)
    (left : r.sourceEventId = some key) (right : r'.sourceEventId = some key) : r = r' := by
  refine Db.eq_of_index (i := .inbound r.sourceId key) here there ?_ ?_
  · simp [Record.row, Row.index, left]
  · simp [Record.row, Row.index, right, source]

theorem inbound_kept (reach : Run κ cfg cond db s) (later : Txn.Reach (engine κ cfg) cond s t)
    {id : Uuid} {r : InboundEvent} (found : Db.find? s.db id = some r) :
    Db.find? t.db id = some r := by
  refine Txn.reach_db (protocol κ cfg) (fun db => Db.find? db id = some r) reach found ?_ later
  intro a pid p tx before durable here
  obtain ⟨r', there, _⟩ := find_kept (fun _ _ => durable_keeps durable) here
  rcases inbound_turn before durable there with old | ⟨absent, _⟩
  · rw [there, ← old, here]
  · cases here.symm.trans absent

/-- The unit that bridged a row. -/
structure Origin (κ : Prims) (cfg : DispatcherConfig) (cond : State → State → Prop) (s : State)
    (pid : Pid) (p : Proc) (tx : Txn.Tx Row Time lang) (a b : State) (source : InboundSource)
    (key : Option String) (type : String) (payload : Value) (enq : Enqueued) (r : InboundEvent) :
    Prop where
  settled : Settled (protocol κ cfg) cond .empty s pid p tx a b
  may : Bridging κ p.calls p.job source key type r.rawBody payload
  bridges : Bridges source key type r.rawBody payload r.id enq (tx.done.map Txn.Done.ran)
  row : r = linkedRow r.id source key type r.rawBody tx.time enq.eventId

theorem inbound_origin (reach : Run κ cfg cond .empty s) {id : Uuid} {r : InboundEvent}
    (found : Db.find? s.db id = some r) :
    ∃ pid p tx a b source key type payload enq,
      Origin κ cfg cond s pid p tx a b source key type payload enq r := by
  induction reach with
  | start => cases found
  | @next s t before step ok ih =>
    have older : Db.find? s.db id = some r → ∃ pid p tx a b source key type payload enq,
        Origin κ cfg cond t pid p tx a b source key type payload enq r := by
      intro old
      obtain ⟨pid, p, tx, a, b, source, key, type, payload, enq, origin⟩ := ih old
      exact ⟨pid, p, tx, a, b, source, key, type, payload, enq,
        { origin with
          settled := { origin.settled with later := .next origin.settled.later step ok } }⟩
    cases Txn.step_outcome (Txn.reach_sound (protocol κ cfg) before) step with
    | quiet es same _ _ => exact older (same ▸ found)
    | durable pid p tx op ans same log _ unit _ =>
      rcases inbound_turn before unit (same ▸ found) with
        old | ⟨_, source, key, type, raw, payload, enq, may, bridges, rfl⟩
      · exact older old
      · exact ⟨pid, p, tx, s, t, source, key, type, payload, enq,
          ⟨before, step, ok, .start, unit, same, op, ans, log⟩, may, bridges, rfl⟩

end Rows

section Fans

/-- The event is there, and its deliveries go to exactly these endpoints, one to each. -/
structure Fanned (db : Db) (ev : Event) (es : List Endpoint) : Prop where
  event : db.find? ev.id = some ev
  reached : ∀ e ∈ es, ∃ d ∈ Db.all Delivery db, d.eventId = ev.id ∧ d.endpointId = e.id
  only : ∀ d ∈ Db.all Delivery db, d.eventId = ev.id →
    d.tenantId = ev.tenantId ∧ ∃ e ∈ es, d.endpointId = e.id

theorem delivery_unique {d d' : Delivery} (here : d ∈ Db.all Delivery db)
    (there : d' ∈ Db.all Delivery db) (event : d.eventId = d'.eventId)
    (endpoint : d.endpointId = d'.endpointId) : d = d' := by
  have left : Index.delivery d.eventId d.endpointId ∈ (Row.delivery d).index :=
    List.mem_singleton_self _
  exact Db.eq_of_index here there left (by rw [event, endpoint]; exact List.mem_singleton_self _)

variable {calls : Calls} {job : Job} {unit : List Ran} {tenant : String} {consumer : Option Uuid}
  {type : String} {payload : Value} {enq : Enqueued}

theorem Bridges.split {source : InboundSource} {key : Option String} {raw : Bytes} {stored : Uuid}
    (bridges : Bridges source key type raw payload stored enq unit) :
    ∃ pre inner post, unit = pre ++ inner ++ post ∧
      Publishes source.tenantId none type payload enq inner ∧
      ∀ x ∈ pre ++ post, x.1.target = some .inboundEvents := by
  cases bridges with
  | mk inner =>
    refine ⟨[_], _, [_], rfl, inner, ?_⟩
    simp [Stmt.target]

theorem mem_inner {pre inner post : List Ran} {x : Ran}
    (outside : ∀ x ∈ pre ++ post, x.1.target = some .inboundEvents) (mem : x ∈ pre ++ inner ++ post)
    (other : x.1.target ≠ some .inboundEvents) : x ∈ inner := by
  rcases List.mem_append.mp mem with mem | mem
  · rcases List.mem_append.mp mem with mem | mem
    · exact (other (outside x (List.mem_append_left _ mem))).elim
    · exact mem
  · exact (other (outside x (List.mem_append_right _ mem))).elim

theorem commits_published {id event endpoint : Uuid} (commits : Commits κ cfg calls job unit)
    (mem : ran (.insertDelivery id event endpoint tenant) () ∈ unit) :
    ∃ consumer type payload enq pre inner post, unit = pre ++ inner ++ post ∧
      Publishes tenant consumer type payload enq inner ∧ enq.eventId = event ∧
      (∀ x ∈ pre ++ post, x.1.target = some .inboundEvents) ∧
      (Publishing calls job tenant consumer type payload ∨ consumer = none) := by
  cases commits with
  | settle settles => cases settles <;> simp [circuitRan] at mem
  | publish may publishes =>
    rcases publishes.mem_cases mem with ⟨_, eq⟩ | ⟨_, eq⟩ | ⟨e, id, _, eq⟩
    · cases eq
    · cases eq
    · cases eq
      exact ⟨_, _, _, _, [], unit, [], by simp, publishes, rfl, by simp, .inl may⟩
  | bridge may bridges =>
    rcases bridges.mem_cases mem with ⟨_, eq⟩ | ⟨_, eq⟩ | ⟨_, eq⟩ | ⟨e, id, _, eq⟩ | eq
    · cases eq
    · cases eq
    · cases eq
    · cases eq
      obtain ⟨pre, inner, post, split, publishes, outside⟩ := bridges.split
      exact ⟨_, _, _, _, pre, inner, post, split, publishes, rfl, outside, .inr rfl⟩
    · cases eq

theorem Publishes.event (publishes : Publishes tenant consumer type payload enq unit) :
    ∃ row, ran (.insertEvent enq.eventId tenant consumer type payload) row ∈ unit := by
  cases publishes with
  | mk each => exact ⟨_, List.mem_cons_self⟩

theorem mem_fanOut_of (tenant : String) (eventId : Uuid) {es : List Endpoint} {ids : List Uuid}
    {e : Endpoint} (each : ids.length = es.length) (mem : e ∈ es) :
    ∃ id, ran (.insertDelivery id eventId e.id tenant) () ∈ fanOut eventId tenant es ids := by
  induction es generalizing ids with
  | nil => cases mem
  | cons x es ih =>
    cases ids with
    | nil => cases each
    | cons id ids =>
      rcases List.mem_cons.mp mem with rfl | mem
      · exact ⟨id, List.mem_cons_self⟩
      · obtain ⟨id', later⟩ := ih (Nat.succ.inj each) mem
        exact ⟨id', List.mem_cons_of_mem _ later⟩

theorem published_event (durable : Durable (protocol κ cfg) s pid p tx) {event : Uuid} {row : Event}
    (mem : ran (.insertEvent event tenant consumer type payload) row ∈ tx.done.map Txn.Done.ran) :
    Db.find? s.db event = (none : Option Event) ∧ Db.find? (s.db.apply tx.writes) event =
      some (⟨event, tenant, consumer, type, payload, tx.time⟩ : Event) := by
  obtain ⟨ws, c, view, hd, run⟩ := unit_ran durable mem
  obtain ⟨rfl, _, inserted⟩ := Store.insertEvent_ok run
  obtain ⟨rfl, _⟩ := Store.insert_ok inserted
  obtain ⟨b, found, same⟩ := unit_kept durable hd (List.mem_singleton_self _)
  refine ⟨unit_new durable hd (List.mem_singleton_self _), ?_⟩
  obtain rfl : b = _ := Row.event.inj same
  exact found

theorem published_delivery (durable : Durable (protocol κ cfg) s pid p tx)
    {id event endpoint : Uuid}
    (mem : ran (.insertDelivery id event endpoint tenant) () ∈ tx.done.map Txn.Done.ran) :
    ∃ d ∈ Db.all Delivery (s.db.apply tx.writes), d.eventId = event ∧ d.endpointId = endpoint := by
  obtain ⟨ws, c, view, hd, run⟩ := unit_ran durable mem
  obtain ⟨_, _, inserted⟩ := Store.insertDelivery_ok run
  obtain ⟨rfl, _⟩ := Store.insert_ok inserted
  obtain ⟨b, found, same⟩ := unit_kept durable hd (List.mem_singleton_self _)
  have same := Delivery.fixed same
  exact ⟨b, Db.mem_all_of_find? found, same.eventId, same.endpointId⟩

theorem Fanned.kept {ev : Event} {es : List Endpoint} (fanned : Fanned s.db ev es)
    (durable : Durable (protocol κ cfg) s pid p tx) : Fanned (s.db.apply tx.writes) ev es where
  event := by
    obtain ⟨ev', found, same⟩ := find_kept (fun _ _ => durable_keeps durable) fanned.event
    obtain rfl : ev' = ev := Row.event.inj same
    exact found
  reached e mem := by
    obtain ⟨d, here, event, endpoint⟩ := fanned.reached e mem
    obtain ⟨d', found, same⟩ := find_kept (fun _ _ => durable_keeps durable) (Db.mem_all.mp here)
    have same := Delivery.fixed same
    exact ⟨d', Db.mem_all_of_find? found, same.eventId.trans event, same.endpointId.trans endpoint⟩
  only d mem event := by
    rcases delivery_cases durable (Db.mem_all.mp mem) with
      ⟨r, here, same⟩ | ⟨event', endpoint, tenant, new, inserted, commits⟩
    · have same := Delivery.fixed same
      obtain ⟨tenant, e, listed, endpoint⟩ :=
        fanned.only r (Db.mem_all_of_find? here) (same.eventId.symm.trans event)
      exact ⟨same.tenantId.trans tenant, e, listed, same.endpointId.trans endpoint⟩
    · obtain ⟨_, _, _, enq, pre, inner, post, unit, publishes, rfl, _⟩ :=
        commits_published commits inserted
      obtain ⟨row, first⟩ := publishes.event
      have absent := (published_event durable (unit ▸ List.mem_append_left _
        (List.mem_append_right _ first))).1
      have same : enq.eventId = ev.id := by
        rw [← event, new]
        rfl
      rw [same] at absent
      cases fanned.event.symm.trans absent

theorem reach_fanned {ev : Event} {es : List Endpoint} (reach : Run κ cfg cond db s)
    (later : Txn.Reach (engine κ cfg) cond s t) (fanned : Fanned s.db ev es) : Fanned t.db ev es :=
  Txn.reach_db (protocol κ cfg) (fun db => Fanned db ev es) reach fanned
    (fun _ _ _ _ _ durable fanned => fanned.kept durable) later

/- The endpoints that the unit read: those of an earlier state that are to receive the event. -/
theorem read_endpoints {first last : List Ran} {es : List Endpoint} (reach : Run κ cfg cond db s)
    (durable : Durable (protocol κ cfg) s pid p tx)
    (unit : tx.done.map Txn.Done.ran = first ++ ran (.activeEndpointsForScope tenant consumer)
      es :: last) (outside : ∀ x ∈ first, x.1.target ≠ some .endpoints) :
    ∃ a q, Run κ cfg cond db a ∧ Txn.Reach (engine κ cfg) cond a s ∧ a.procs.lookup pid = some q ∧
      q.job = p.job ∧ ∀ e, e ∈ es.filter (·.subscribesTo type) ↔
        e ∈ Db.all Endpoint a.db ∧ Receives tenant consumer type e := by
  obtain ⟨pre, rest, done, rfl, restRan⟩ := List.map_eq_append_iff.mp unit
  obtain ⟨ws, post, rfl, _⟩ := Txn.done_cons restRan
  obtain ⟨a, before, later, valid, ⟨c, exec⟩, q, live, job, _⟩ :=
    Txn.unit_traced reach durable pre _ post done
  have run := Stmt.exec_ok (q := .activeEndpointsForScope tenant consumer) exec
  refine ⟨a, q, before, later, live, job, fun e => ?_⟩
  obtain rfl : Store.activeEndpointsForScope tenant consumer
      (a.db.apply (pre.flatMap Txn.Done.writes)) = es := congrArg Prod.fst (Except.ok.inj run)
  have same : Db.all Endpoint (a.db.apply (pre.flatMap Txn.Done.writes)) =
    Db.all Endpoint a.db := by
    refine Db.all_apply_outside valid fun w mem place => ?_
    obtain ⟨d, hd, hw⟩ := List.mem_flatMap.mp mem
    obtain ⟨c, view, ran⟩ := durable.ran d (done ▸ List.mem_append_left _ hd)
    have target := (Stmt.exec_shape ran).in_table w hw
    rw [place] at target
    exact outside d.ran (List.mem_map_of_mem hd) target
  simp only [Store.activeEndpointsForScope, List.mem_filter, Store.mem_orderBy, Store.select, same,
    subscribesTo_iff]
  constructor
  · rintro ⟨⟨mem, scope⟩, listed⟩
    obtain ⟨tenant_, enabled, consumer_⟩ := of_decide_eq_true scope
    exact ⟨mem, enabled, tenant_, consumer_, listed⟩
  · rintro ⟨mem, receives⟩
    exact ⟨⟨mem, decide_eq_true ⟨receives.tenant, receives.enabled, receives.consumer⟩⟩,
      receives.listed⟩

/-- A unit that publishes leaves the event with its fan-out to the endpoints that were to
receive it at some time during the job. -/
theorem published_fanned {pre inner post : List Ran} (reach : Run κ cfg cond .empty s)
    (durable : Durable (protocol κ cfg) s pid p tx)
    (unit : tx.done.map Txn.Done.ran = pre ++ inner ++ post)
    (publishes : Publishes tenant consumer type payload enq inner)
    (outside : ∀ x ∈ pre ++ post, x.1.target = some .inboundEvents) :
    ∃ a q es, Run κ cfg cond .empty a ∧ Txn.Reach (engine κ cfg) cond a s ∧
      a.procs.lookup pid = some q ∧ q.job = p.job ∧
      (∀ e, e ∈ es ↔ e ∈ Db.all Endpoint a.db ∧ Receives tenant consumer type e) ∧
      Fanned (s.db.apply tx.writes) ⟨enq.eventId, tenant, consumer, type, payload, tx.time⟩ es := by
  obtain ⟨row, first⟩ := publishes.event
  obtain ⟨absent, there⟩ := published_event durable
    (unit ▸ List.mem_append_left _ (List.mem_append_right _ first))
  cases publishes with
  | @mk eventId made es ids each =>
    have read : tx.done.map Txn.Done.ran =
        (pre ++ [ran (.insertEvent eventId tenant consumer type payload) made]) ++
        ran (.activeEndpointsForScope tenant consumer) es ::
          (fanOut eventId tenant (es.filter (·.subscribesTo type)) ids ++ post) := by
      simp [unit]
    have quiet : ∀ x ∈ pre ++ [ran (.insertEvent eventId tenant consumer type payload) made],
        x.1.target ≠ some .endpoints := by
      intro x mem place
      rcases List.mem_append.mp mem with mem | mem
      · cases place.symm.trans (outside x (List.mem_append_left _ mem))
      · rw [List.mem_singleton.mp mem] at place
        cases place
    obtain ⟨a, q, earlier, later, live, job, listed⟩ := read_endpoints reach durable read quiet
    refine ⟨a, q, es.filter (·.subscribesTo type), earlier, later, live, job, listed, there, ?_, ?_⟩
    · intro e mem
      obtain ⟨id, inserted⟩ := mem_fanOut_of tenant eventId each mem
      have ran_ : ran (.insertDelivery id eventId e.id tenant) () ∈ tx.done.map Txn.Done.ran := by
        rw [read]
        exact List.mem_append_right _ (List.mem_cons_of_mem _ (List.mem_append_left _ inserted))
      exact published_delivery durable ran_
    · intro d mem event
      rcases delivery_cases durable (Db.mem_all.mp mem) with
        ⟨r, here, same⟩ | ⟨event', endpoint, tenant', new, inserted, _⟩
      · -- an older delivery would refer to an event that was not there
        obtain ⟨⟨ev, found⟩, _⟩ := reach_referenced reach _ r here
        rw [← (Delivery.fixed same).eventId, event, absent] at found
        cases found
      · have inner := mem_inner outside (unit ▸ inserted) (by simp [Stmt.target])
        rcases List.mem_cons.mp inner with eq | inner
        · cases eq
        rcases List.mem_cons.mp inner with eq | inner
        · cases eq
        obtain ⟨e, listed, id, _, eq⟩ := mem_fanOut inner
        cases eq
        rw [new]
        exact ⟨rfl, e, listed, rfl⟩

end Fans

section Told

def Job.received : Job → Option Bytes
  | .accept _ _ _ raw _ => some raw
  | .ingest _ _ raw => some raw
  | _ => none

def Result.acknowledged : Result → Option Uuid
  | .accepted (.ok (.bridged _ event _)) => some event
  | .answered (.ok ⟨_, _, .accepted event _⟩) => some event
  | _ => none

def Result.isDuplicate : Result → Bool
  | .accepted (.ok .duplicate) => true
  | .answered (.ok ⟨_, _, .duplicate⟩) => true
  | _ => false

variable {job : Job} {past : Past} {res : Result} {event : Uuid}

theorem ensures_acknowledged (holds : ensures κ cfg job past res)
    (told : res.acknowledged = some event) :
    ∃ stored ids, Bridged κ job past stored ⟨event, ids⟩ := by
  unfold Result.acknowledged at told
  split at told
  · cases told
    exact ⟨_, _, holds⟩
  · cases told
    obtain ⟨stored, ids, _, bridged⟩ := holds
    exact ⟨stored, ids, bridged⟩
  · cases told

theorem ensures_duplicate (holds : ensures κ cfg job past res) (told : res.isDuplicate = true) :
    Repeated κ job past := by
  unfold Result.isDuplicate at told
  split at told
  · exact holds
  · exact holds
  · cases told

theorem Bridging.received {calls : Calls} {source : InboundSource} {key : Option String}
    {type : String} {raw : Bytes} {payload : Value}
    (may : Bridging κ calls job source key type raw payload) :
    job.received = some raw := by
  cases may <;> rfl

/-- A committed inbound row and what was committed with it: the job that made it durable had
received its bytes, and published a tenant-level event for the tenant of its source. The event
goes to exactly the endpoints that were to receive it when the job read them. -/
structure Committed (κ : Prims) (cfg : DispatcherConfig) (s : State) (r : InboundEvent) (pid : Pid)
    (job : Job) (source : InboundSource) (ev : Event) : Prop where
  received : job.received = some r.rawBody
  given : ∃ calls : Calls, (∀ call ∈ calls, .called pid job call.1 call.2 ∈ s.log) ∧
    Bridging κ calls job source r.sourceEventId r.eventType r.rawBody ev.payload
  durable : ∃ time unit enq, .applied pid job time unit ∈ s.log ∧
    Bridges source r.sourceEventId r.eventType r.rawBody ev.payload r.id enq unit
  owner : r.sourceId = source.id ∧ r.tenantId = source.tenantId
  linked : r.eventId = some ev.id
  level : ev.tenantId = source.tenantId ∧ ev.consumerId = none
  complete : ∃ a p es, Run κ cfg Txn.anyStep .empty a ∧ Txn.Reach (engine κ cfg) Txn.anyStep a s ∧
    a.procs.lookup pid = some p ∧ p.job = job ∧
    (∀ e, e ∈ es ↔ e ∈ Db.all Endpoint a.db ∧ Receives source.tenantId none r.eventType e) ∧
    Fanned s.db ev es

theorem bridged_committed {tx : Txn.Tx Row Time lang} {a b : State} {calls : Calls}
    {source : InboundSource} {key : Option String} {type : String} {raw : Bytes} {payload : Value}
    {stored : Uuid} {enq : Enqueued}
    (settled : Settled (protocol κ cfg) Txn.anyStep .empty s pid p tx a b)
    (logged : ∀ call ∈ calls, .called pid p.job call.1 call.2 ∈ s.log)
    (may : Bridging κ calls p.job source key type raw payload)
    (bridges : Bridges source key type raw payload stored enq (tx.done.map Txn.Done.ran)) :
    Committed κ cfg s (linkedRow stored source key type raw tx.time enq.eventId) pid p.job source
      ⟨enq.eventId, source.tenantId, none, type, payload, tx.time⟩ := by
  have reached : Run κ cfg Txn.anyStep .empty b := .next settled.before settled.step settled.ok
  obtain ⟨new, log⟩ := Txn.reach_log settled.later
  obtain ⟨op, ans, last⟩ := settled.log
  obtain ⟨pre, inner, post, split, publishes, outside⟩ := bridges.split
  obtain ⟨c, q, es, earlier, between, live, job, listed, fanned⟩ :=
    published_fanned settled.before settled.durable split publishes outside
  rw [← settled.db] at fanned
  refine
    { received := may.received
      given := ⟨calls, logged, may⟩
      durable := ⟨tx.time, _, enq, ?_, bridges⟩
      owner := ⟨rfl, rfl⟩
      linked := rfl
      level := ⟨rfl, rfl⟩
      complete := ⟨c, q, es, earlier, ?_, live, job, listed, reach_fanned reached settled.later
        fanned⟩ }
  · rw [log, last]
    exact List.mem_append_right _ (List.mem_cons_of_mem _ List.mem_cons_self)
  · exact (between.trans (.next .start settled.step settled.ok)).trans settled.later

theorem inbound_committed (reach : Run κ cfg Txn.anyStep .empty s) {id : Uuid} {r : InboundEvent}
    (found : Db.find? s.db id = some r) :
    ∃ pid job source ev, Committed κ cfg s r pid job source ev := by
  obtain ⟨pid, p, tx, a, b, source, key, type, payload, enq, settled, may, bridges, row⟩ :=
    inbound_origin reach found
  obtain ⟨new, log⟩ := Txn.reach_log settled.later
  obtain ⟨op, ans, last⟩ := settled.log
  have logged : ∀ call ∈ p.calls, .called pid p.job call.1 call.2 ∈ s.log := by
    intro call mem
    have here := ((Txn.reach_sound (protocol κ cfg) settled.before).each _ p
      settled.durable.live).logged
    rw [log, last]
    exact List.mem_append_right _ (List.mem_cons_of_mem _ (List.mem_cons_of_mem _ (here call mem)))
  have committed := bridged_committed settled logged may bridges
  rw [← row] at committed
  exact ⟨pid, p.job, source, _, committed⟩

variable {newer rest : List Entry}

/-- Behind an answer that reports an event as bridged: the unit that its own job made durable,
since it was started. -/
theorem acknowledged_unit (reach : Run κ cfg cond .empty s)
    (split : s.log = newer ++ .finished pid job res :: rest)
    (told : res.acknowledged = some event) :
    ∃ a seg older calls source key type raw payload stored ids time unit, Run κ cfg cond .empty a ∧
      Txn.Reach (engine κ cfg) cond a s ∧ a.log = rest ∧ rest = seg ++ .started pid job :: older ∧
      (∀ job res, .finished pid job res ∉ seg) ∧ .applied pid job time unit ∈ seg ∧
      (∀ call ∈ calls, .called pid job call.1 call.2 ∈ rest) ∧
      Bridging κ calls job source key type raw payload ∧
      Bridges source key type raw payload stored ⟨event, ids⟩ unit := by
  obtain ⟨a, p, before, later, log, live, rfl, holds⟩ :=
    Txn.finished_at (protocol κ cfg) reach split
  obtain ⟨stored, ids, source, key, type, raw, payload, unit, may, bridges, known⟩ :=
    ensures_acknowledged holds told
  obtain ⟨seg, older, stint⟩ := Txn.reach_stint (protocol κ cfg) before live
  obtain ⟨time, applied⟩ := stint.known unit known
  have logged := ((Txn.reach_sound (protocol κ cfg) before).each _ p live).logged
  exact ⟨a, seg, older, p.calls, source, key, type, raw, payload, stored, ids, time, unit,
    before, later, log, log ▸ stint.log, stint.unfinished, applied, log ▸ logged, may, bridges⟩

theorem applied_bridged {source : InboundSource} {key : Option String} {type : String} {raw : Bytes}
    {payload : Value} {stored : Uuid} {enq : Enqueued} {time : Time} {unit : List Ran}
    (reach : Run κ cfg cond .empty s) (split : s.log = newer ++ .applied pid job time unit :: rest)
    (bridges : Bridges source key type raw payload stored enq unit) :
    ∃ a, Run κ cfg cond .empty a ∧ a.log = rest ∧
      Db.find? a.db stored = (none : Option InboundEvent) ∧
      Db.find? s.db stored = some (linkedRow stored source key type raw time enq.eventId) := by
  obtain ⟨a, b, p, tx, settled, log, rfl, rfl, rfl⟩ := Txn.applied_at (protocol κ cfg) reach split
  obtain ⟨absent, there⟩ := bridged_row settled.before settled.durable bridges
  rw [← settled.db] at there
  exact ⟨a, settled.before, log, absent,
    inbound_kept (.next settled.before settled.step settled.ok) settled.later there⟩

theorem bridged_apart {source source' : InboundSource} {key key' : Option String}
    {type type' : String} {raw raw' : Bytes} {payload payload' : Value} {stored stored' : Uuid}
    {enq enq' : Enqueued}
    {pid' : Pid} {job' : Job} {time time' : Time} {unit unit' : List Ran}
    (reach : Run κ cfg cond .empty s) (split : s.log = newer ++ .applied pid job time unit :: rest)
    (older : .applied pid' job' time' unit' ∈ rest)
    (bridges : Bridges source key type raw payload stored enq unit)
    (bridges' : Bridges source' key' type' raw' payload' stored' enq' unit') :
    stored ≠ stored' := by
  rintro rfl
  obtain ⟨a, before, rfl, absent, _⟩ := applied_bridged reach split bridges
  obtain ⟨newer', rest', split'⟩ := List.append_of_mem older
  obtain ⟨_, _, _, _, found⟩ := applied_bridged before split' bridges'
  cases found.symm.trans absent

theorem entries_apart {l : List Entry} {e e' : Entry} (here : e ∈ l) (there : e' ∈ l)
    (other : e ≠ e') :
    (∃ newer rest, l = newer ++ e :: rest ∧ e' ∈ rest) ∨
      ∃ newer rest, l = newer ++ e' :: rest ∧ e ∈ rest := by
  obtain ⟨newer, rest, rfl⟩ := List.append_of_mem here
  rcases List.mem_append.mp there with mem | mem
  · obtain ⟨front, back, rfl⟩ := List.append_of_mem mem
    refine .inr ⟨front, back ++ e :: rest, by simp, ?_⟩
    exact List.mem_append_right _ List.mem_cons_self
  · refine .inl ⟨newer, rest, rfl, ?_⟩
    exact (List.mem_cons.mp mem).resolve_left other.symm

/- What a job made durable and what an earlier answer stands on are two entries: if they had one
process, its earlier answer would lie between them. -/
theorem units_apart {pid' : Pid} {job' : Job} {res' : Result} {time time' : Time}
    {unit unit' : List Ran} {seg older newer' rest' : List Entry}
    (since : rest = seg ++ .started pid job :: older)
    (unfinished : ∀ job res, .finished pid job res ∉ seg)
    (applied : .applied pid job time unit ∈ seg)
    (split' : rest = newer' ++ .finished pid' job' res' :: rest')
    (applied' : .applied pid' job' time' unit' ∈ rest') :
    (∃ new old, rest = new ++ .applied pid job time unit :: old ∧
        .applied pid' job' time' unit' ∈ old) ∨
      ∃ new old, rest = new ++ .applied pid' job' time' unit' :: old ∧
        .applied pid job time unit ∈ old := by
  by_cases same : pid' = pid
  · subst same
    obtain ⟨between, tail⟩ := Txn.split_old (since.symm.trans split') (unfinished job' res')
    obtain ⟨new, old, rfl⟩ := List.append_of_mem applied
    refine .inl ⟨new, old ++ .started pid' job :: older, by simp [since], ?_⟩
    rw [tail]
    exact List.mem_append_right _ (List.mem_append_right _ (List.mem_cons_of_mem _ applied'))
  · refine entries_apart (since ▸ List.mem_append_left _ applied) ?_ fun eq => same ?_
    · rw [split']
      exact List.mem_append_right _ (List.mem_cons_of_mem _ applied')
    · cases eq
      rfl

theorem acknowledged_apart {pid' : Pid} {job' : Job} {res' : Result} {event' : Uuid}
    {newer' rest' : List Entry} (reach : Run κ cfg cond .empty s)
    (split : s.log = newer ++ .finished pid job res :: rest)
    (split' : rest = newer' ++ .finished pid' job' res' :: rest')
    (told : res.acknowledged = some event) (told' : res'.acknowledged = some event') :
    ∃ calls source key type raw payload calls' source' key' type' raw' payload',
      (∀ call ∈ calls, .called pid job call.1 call.2 ∈ s.log) ∧
      (∀ call ∈ calls', .called pid' job' call.1 call.2 ∈ s.log) ∧
      Bridging κ calls job source key type raw payload ∧
      Bridging κ calls' job' source' key' type' raw' payload' ∧
      ∀ k, source.id = source'.id → key = some k → key' ≠ some k := by
  obtain ⟨a, seg, older, calls, source, key, type, raw, payload, stored, ids, time, unit, before,
    later, log, since, unfinished, applied, logged, may, bridges⟩ := acknowledged_unit reach split told
  obtain ⟨a', seg', older', calls', source', key', type', raw', payload', stored', ids', time',
    unit', _, _, log', since', _, applied', logged', may', bridges'⟩ :=
      acknowledged_unit before (log.trans split') told'
  have mem' : .applied pid' job' time' unit' ∈ rest' := since' ▸ List.mem_append_left _ applied'
  have apart : stored ≠ stored' := by
    rcases units_apart since unfinished applied split' mem' with ⟨_, _, cut, old⟩ | ⟨_, _, cut, old⟩
    · exact bridged_apart before (log.trans cut) old bridges bridges'
    · exact (bridged_apart before (log.trans cut) old bridges' bridges).symm
  have inner : ∀ e ∈ rest', e ∈ a.log := fun e mem => by
    rw [log, split']
    exact List.mem_append_right _ (List.mem_cons_of_mem _ mem)
  have outer : ∀ e ∈ a.log, e ∈ s.log := fun e mem => by
    rw [split, ← log]
    exact List.mem_append_right _ (List.mem_cons_of_mem _ mem)
  refine ⟨calls, source, key, type, raw, payload, calls', source', key', type', raw', payload',
    fun call mem => outer _ (log ▸ logged call mem), fun call mem =>
      outer _ (inner _ (logged' call mem)),
    may, may', ?_⟩
  rintro k same rfl rfl
  obtain ⟨_, _, cut⟩ := List.append_of_mem (since ▸ List.mem_append_left _ applied)
  obtain ⟨_, _, cut'⟩ := List.append_of_mem (inner _ mem')
  obtain ⟨_, _, _, _, found⟩ := applied_bridged before (log.trans cut) bridges
  obtain ⟨_, _, _, _, found'⟩ := applied_bridged before cut' bridges'
  have row := inbound_unique (Db.mem_all_of_find? found) (Db.mem_all_of_find? found') same rfl rfl
  exact apart (congrArg InboundEvent.id row)

theorem acknowledged_committed (reach : Run κ cfg Txn.anyStep .empty s)
    (split : s.log = newer ++ .finished pid job res :: rest)
    (told : res.acknowledged = some event) :
    ∃ a, Run κ cfg Txn.anyStep .empty a ∧ Txn.Reach (engine κ cfg) Txn.anyStep a s ∧ a.log = rest ∧
      ∃ r ∈ Db.all InboundEvent a.db, ∃ source ev,
        Committed κ cfg a r pid job source ev ∧ ev.id = event := by
  obtain ⟨a, seg, older, calls, source, key, type, raw, payload, stored, ids, time, unit,
    before, later, rfl, log, _, applied, logged, may, bridges⟩ := acknowledged_unit reach split told
  have mem := log ▸ List.mem_append_left _ applied
  obtain ⟨newer', rest', split'⟩ := List.append_of_mem mem
  obtain ⟨_, _, _, _, found⟩ := applied_bridged before split' bridges
  obtain ⟨c, d, p, tx, settled, _, rfl, rfl, rfl⟩ := Txn.applied_at (protocol κ cfg) before split'
  exact ⟨a, before, later, rfl, _, Db.mem_all_of_find? found, source, _,
    bridged_committed settled logged may bridges, rfl⟩

theorem Bridging.reads {calls : Calls} {source : InboundSource} {key : Option String}
    {type : String} {raw : Bytes} {payload : Value} {q : Stmt}
    (may : Bridging κ calls job source key type raw payload)
    (outside : past.tx = none) (alone : allows κ cfg job past (.stmt q)) : q.target = none := by
  simp only [allows, outside] at alone
  cases may with
  | direct => exact alone.elim
  | verified => exact alone

/-- A dedup insert that was refused: the row it met was committed then, and is there now. The
insert is the first statement of its transaction, so the row is not its own. -/
theorem refused_row {source : InboundSource} {key : Option String} {type : String} {raw : Bytes}
    {payload : Value} {id : Uuid} (reach : Run κ cfg cond db s) (live : s.procs.lookup pid = some p)
    (may : Bridging κ p.calls p.job source key type raw payload)
    (refused : Told p.calls (.insertInboundEvent id source.id source.tenantId key type raw) none) :
    ∃ r ∈ Db.all InboundEvent s.db, r.sourceId = source.id ∧ r.sourceEventId = key ∧
      key.isSome := by
  obtain ⟨a, q, now, c, ws, before, later, _, _, _, allowed, run⟩ := told_origin reach live refused
  cases inside : q.tx with
  | none => cases may.reads (by simp [Txn.Proc.past, inside]) allowed
  | some tx =>
    simp only [allows, Txn.Proc.past, inside, Option.map_some, Inside, List.map_eq_nil_iff]
      at allowed
    simp only [Txn.writes_some inside, Txn.Tx.writes, allowed, List.flatMap_nil] at run
    rcases Store.insertInboundEvent_ok run with ⟨_, _, some_, r, found, source_, key_⟩ | ⟨absurd, _⟩
    · exact ⟨r, Db.mem_all_of_find? (inbound_kept before later found), source_, key_, some_⟩
    · cases absurd

theorem duplicate_row (reach : Run κ cfg cond .empty s)
    (split : s.log = newer ++ .finished pid job res :: rest) (told : res.isDuplicate = true) :
    ∃ a seg older calls source key type raw payload, ∃ r ∈ Db.all InboundEvent a.db,
      Run κ cfg cond .empty a ∧ Txn.Reach (engine κ cfg) cond a s ∧ a.log = rest ∧
      rest = seg ++ .started pid job :: older ∧
      (∀ call ∈ calls, .called pid job call.1 call.2 ∈ rest) ∧
      Bridging κ calls job source (some key) type raw payload ∧
      r.sourceId = source.id ∧ r.sourceEventId = some key ∧
      ∀ job' time unit, .applied pid job' time unit ∈ seg → ∀ x ∈ unit, x.1.target = none := by
  obtain ⟨a, p, before, later, log, live, rfl, holds⟩ :=
    Txn.finished_at (protocol κ cfg) reach split
  obtain ⟨clean, id, source, key, type, raw, payload, may, refused⟩ := ensures_duplicate holds told
  obtain ⟨seg, older, stint⟩ := Txn.reach_stint (protocol κ cfg) before live
  have logged := ((Txn.reach_sound (protocol κ cfg) before).each _ p live).logged
  obtain ⟨r, here, source_, key_, some_⟩ := refused_row before live may refused
  obtain ⟨key, rfl⟩ := Option.isSome_iff_exists.mp some_
  refine ⟨a, seg, older, p.calls, source, key, type, raw, payload, r, here, before, later, log,
    log ▸ stint.log, log ▸ logged, may, source_, key_, fun job' time unit mem => ?_⟩
  obtain ⟨_, made⟩ := stint.own job' time unit mem
  cases made with
  | committed made => exact (clean _ made rfl).elim
  | alone one outside allowed =>
    subst one
    intro x mem
    rw [List.mem_singleton.mp mem]
    exact may.reads outside allowed

end Told

/-- Inbound bridging is exactly-once per key, and never acknowledges a lost event, in any run of
any jobs with a failure or crash anywhere. A key has at most one row, ever; every row holds the
bytes received and is linked to a tenant-level event with its complete fan-out; an event is
reported as bridged after that was committed, and as a duplicate when it is, by a job that
changed nothing. -/
theorem inbound_exactly_once (κ : Prims) (cfg : DispatcherConfig) (s : State)
    (reach : Run κ cfg Txn.anyStep .empty s) :
    (∀ a, Run κ cfg Txn.anyStep .empty a → Txn.Reach (engine κ cfg) Txn.anyStep a s →
      ∀ r ∈ Db.all InboundEvent a.db, ∀ r' ∈ Db.all InboundEvent s.db, ∀ key,
        r.sourceId = r'.sourceId → r.sourceEventId = some key → r'.sourceEventId = some key →
          r = r') ∧
    (∀ r ∈ Db.all InboundEvent s.db, ∃ pid job source ev, Committed κ cfg s r pid job source ev) ∧
    (∀ pid job res event newer rest, s.log = newer ++ .finished pid job res :: rest →
      res.acknowledged = some event → ∃ a, Run κ cfg Txn.anyStep .empty a ∧
        Txn.Reach (engine κ cfg) Txn.anyStep a s ∧ a.log = rest ∧
        ∃ r ∈ Db.all InboundEvent a.db, ∃ source ev,
          Committed κ cfg a r pid job source ev ∧ ev.id = event) ∧
    ∀ pid job res newer rest, s.log = newer ++ .finished pid job res :: rest →
      res.isDuplicate = true → ∃ a seg older, Run κ cfg Txn.anyStep .empty a ∧
        Txn.Reach (engine κ cfg) Txn.anyStep a s ∧ a.log = rest ∧
        rest = seg ++ .started pid job :: older ∧
        (∃ calls source key type raw payload,
          (∀ call ∈ calls, .called pid job call.1 call.2 ∈ rest) ∧
          Bridging κ calls job source (some key) type raw payload ∧
          ∃ r ∈ Db.all InboundEvent a.db, r.sourceId = source.id ∧ r.sourceEventId = some key ∧
            ∃ pid' job' source' ev, Committed κ cfg a r pid' job' source' ev) ∧
        ∀ job' time unit, .applied pid job' time unit ∈ seg → ∀ x ∈ unit, x.1.target = none := by
  refine ⟨?_, ?_, ?_, ?_⟩
  · intro a before later r here r' there key source left right
    have kept := Db.mem_all_of_find? (inbound_kept before later (Db.mem_all.mp here))
    exact inbound_unique kept there source left right
  · exact fun r mem => inbound_committed reach (Db.mem_all.mp mem)
  · exact fun pid job res event newer rest split told => acknowledged_committed reach split told
  · intro pid job res newer rest split told
    obtain ⟨a, seg, older, calls, source, key, type, raw, payload, r, here, before, later,
      log, since, logged, may, source_, key_, reads⟩ := duplicate_row reach split told
    exact ⟨a, seg, older, before, later, log, since,
      ⟨calls, source, key, type, raw, payload, logged, may,
      r, here, source_, key_, inbound_committed before (Db.mem_all.mp here)⟩, reads⟩

def raced : List Move :=
  .spawn (.client 0) (.command (.createEndpoint "t" "http://a" "s" [] none)) ::
    go 3 (.client 0) 0 1 (.error "") ++
  .spawn (.client 0) (.command (.createInboundSource "t" "hooks" "github" "s")) ::
    go 3 (.client 0) 0 1 (.error "") ++
  .spawn (.client 0) (.accept ⟨1, "t", "hooks", "github", "s", false, 0, 0⟩ (some "k") "x"
    [1, 2] .null) ::
    go 3 (.client 0) 0 5 (.error "") ++
  .spawn (.client 1) (.accept ⟨1, "t", "hooks", "github", "s", false, 0, 0⟩ (some "k") "x"
    [1, 2] .null) ::
    go 2 (.client 1) 0 6 (.error "") ++ go 8 (.client 0) 0 5 (.error "") ++ go 3 (.client 1) 0 6
      (.error "")

theorem inbound_exactly_once_raced : ∃ (s : State) (r : InboundEvent),
    Run plain Dispatcher.default Txn.anyStep .empty s ∧ Db.all InboundEvent s.db = [r] ∧
    r.rawBody = [1, 2] ∧ r.eventId = some 5 ∧
    (∃ rest, s.log = .finished (.client 1)
      (.accept ⟨1, "t", "hooks", "github", "s", false, 0, 0⟩ (some "k") "x" [1, 2] .null)
      (.accepted (.ok .duplicate)) :: rest) ∧
    ∃ pid job source ev, Committed plain Dispatcher.default s r pid job source ev := by
  have played : ∃ s : State, replay plain Dispatcher.default (.start .empty) raced = some s ∧
      Db.all InboundEvent s.db = [⟨5, 1, "t", some "k", "x", [1, 2], some 5, 0⟩] ∧
      s.log.head? = some (.finished (.client 1)
        (.accept ⟨1, "t", "hooks", "github", "s", false, 0, 0⟩ (some "k") "x" [1, 2] .null)
        (.accepted (.ok .duplicate))) := ⟨_, rfl, rfl, rfl⟩
  obtain ⟨s, played, one, head⟩ := played
  have reach := replay_reach played
  have all := inbound_exactly_once plain Dispatcher.default s reach
  have log := List.head?_eq_some_iff.mp head
  exact ⟨s, _, reach, one, rfl, rfl, log, all.2.1 _ (one ▸ List.mem_singleton_self _)⟩

end Dropless
