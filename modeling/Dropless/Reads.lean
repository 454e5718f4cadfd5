import Dropless.Scopes
import Dropless.Txn.Ties

namespace Dropless

open Api (Answer answer bearerToken hashKey pageLimit pageOffset)
open Txn (Durable Reach)

section Gives

variable {α β : Type} {Φ : Past → Op → Prop} {past : Past}

theorem runs_outcome_then {x : Io α} {f : Except CoreError α → Io β}
    {P : Past → Except CoreError α → Prop} {Q : Past → β → Prop} (first : Txn.Along Φ P past x)
    (next : ∀ now r, P now r → Txn.Runs Φ now (f r) Q) :
    Txn.Runs Φ past (outcome x >>= f) Q :=
  (Txn.runs_bind _ _ _).mpr (runs_outcome.mpr (first.mono next))

theorem along_each {x : Io α} {f : α → Io β} {P : Past → Except CoreError α → Prop}
    {Q : Past → Except CoreError β → Prop} (first : Txn.Along Φ P past x)
    (good : ∀ now a, P now (.ok a) → Txn.Along Φ Q now (f a))
    (bad : ∀ now e, P now (.error e) → Q now (.error e)) : Txn.Along Φ Q past (x >>= f : Io β) := by
  refine (Txn.along_then x f past).mpr (first.mono fun now r h => ?_)
  cases r with
  | ok a => exact good now a h
  | error e => exact bad now e h

theorem along_query {q : Stmt} {P : Past → Except CoreError q.Out → Prop} (may : Φ past (.stmt q))
    (good : ∀ out : q.Out,
      P (past.after (.stmt q : Op) (.ok out : Except DbError q.Out)) (.ok out))
    (bad : ∀ e : DbError,
      P (past.after (.stmt q : Op) (.error e : Except DbError q.Out)) (.error (.db e))) :
    Txn.Along Φ P past (query q) := by
  refine ⟨may, fun ans => ?_⟩
  cases ans with
  | ok out => exact good out
  | error e => exact bad e

theorem along_orNotFound {what : String} {found : Option α} {f : α → Io β}
    {Q : Past → Except CoreError β → Prop}
    (some_ : ∀ a, found = some a → Txn.Along Φ Q past (f a))
    (none_ : found = none → Q past (.error (.notFound what))) :
    Txn.Along Φ Q past (Api.orNotFound what found >>= f : Io β) := by
  cases found with
  | some a => exact some_ a rfl
  | none => exact none_ rfl

end Gives

section Replies

variable (κ : Prims)

def First (calls : Calls) (q : Stmt) (out : q.Out) : Prop :=
  ∃ later, calls = later ++ [⟨.stmt q, (.ok out : Except DbError q.Out)⟩]

def Api.Request.reads : Api.Request → Bool
  | .listMessages _ _ | .getMessage _ => true
  | _ => false

/-- The result of a handler, in terms of what its request was told. -/
def Handled (past : Past) (tenant : String) :
    Api.Request → Except CoreError Answer → Prop
  | .listMessages limit offset, .ok a => ∃ page, a = answer 200 (.events page) ∧
      Told past.calls (.listEvents tenant (pageLimit limit) (pageOffset offset)) page
  | .getMessage id, .ok a => ∃ ev ds, a = answer 200 (.eventDetail ev ds) ∧
      Told past.calls (.getEvent id) (some ev) ∧ Told past.calls (.deliveriesForEvent id) ds
  | .getMessage id, .error e => (∃ failure, e = .db failure) ∨
      Told past.calls (.getEvent id) none ∨
      ∃ ev, Told past.calls (.getEvent id) (some ev) ∧ ev.tenantId ≠ tenant
  | .createConsumer uid name, .ok a => ∃ id c, a = answer 201 (.consumer c) ∧
      [ran (.createConsumer id tenant uid name) c] ∈ past.known
  | request, .ok a => ∀ type payload id ids, request.publishes = some (type, payload) →
      a.body = .message id ids →
      ∃ consumer, ∃ unit ∈ past.known, Publishes tenant consumer type payload ⟨id, ids⟩ unit
  | _, .error _ => True

theorem apiError_body (e : CoreError) : ∃ m, (Api.apiError e).body = .error m := by
  unfold Api.apiError
  split <;> exact ⟨_, rfl⟩

theorem Handled.published {past : Past} {tenant : String} {request : Api.Request}
    {r : Except CoreError Answer} {type : String} {payload : Value} {id : Uuid} {ids : List Uuid}
    (result : Handled past tenant request r) (publishes : request.publishes = some (type, payload))
    (answers : answered r = answer 201 (.message id ids)) :
    ∃ consumer, ∃ unit ∈ past.known, Publishes tenant consumer type payload ⟨id, ids⟩ unit := by
  cases r with
  | error e =>
    obtain ⟨m, body⟩ := apiError_body e
    cases (congrArg Answer.body answers).symm.trans body
  | ok a =>
    obtain rfl : a = answer 201 (.message id ids) := answers
    cases request with
    | createMessage | createConsumerMessage => exact result type payload id ids publishes rfl
    | _ => cases publishes

theorem Handled.created {past : Past} {tenant uid : String} {name : Option String} {c : Consumer}
    {r : Except CoreError Answer} (result : Handled past tenant (.createConsumer uid name) r)
    (answers : answered r = answer 201 (.consumer c)) :
    ∃ id, [ran (.createConsumer id tenant uid name) c] ∈ past.known := by
  cases r with
  | error e =>
    obtain ⟨m, body⟩ := apiError_body e
    cases (congrArg Answer.body answers).symm.trans body
  | ok a =>
    obtain ⟨id, c', rfl, known⟩ := result
    cases answers
    exact ⟨id, known⟩

/-- The answer to a request. -/
inductive Replies (headers : Headers) (request : Api.Request) (past : Past) : Answer → Prop where
  | anonymous (none : bearerToken headers = none) : Replies headers request past (answer 401 .empty)
  | unknown {token} (bearer : bearerToken headers = some token)
      (told : First past.calls (.tenantForApiKey (hashKey κ token)) none) :
      Replies headers request past (answer 401 .empty)
  | broken : Replies headers request past (answer 500 .empty)
  | handled {token tenant r} (bearer : bearerToken headers = some token)
      (told : First past.calls (.tenantForApiKey (hashKey κ token)) (some tenant))
      (result : Handled past tenant request r) : Replies headers request past (answered r)

end Replies

section Along

variable {κ : Prims} {cfg : DispatcherConfig} {tenant : String} {past : Past}

def Plain (request : Api.Request) (past : Past) (_ : Op) : Prop :=
  request.reads = true → past.tx = none

theorem along_listMessages {limit offset : Option Int} (outside : past.tx = none) :
    Txn.Along (Plain (.listMessages limit offset))
      (fun now r => Handled now tenant (.listMessages limit offset) r) past
      (Api.listMessages tenant limit offset) := by
  refine along_each (along_query (P := fun now r => ∀ page, r = .ok page →
    Told now.calls (.listEvents tenant (pageLimit limit) (pageOffset offset)) page)
    (fun _ => outside) ?_ ?_) ?_ ?_
  · rintro out page ⟨⟩
    exact List.mem_cons_self
  · rintro e page ⟨⟩
  · intro now page told
    exact ⟨page, rfl, told page rfl⟩
  · exact fun now e _ => trivial

theorem after_outside {q : Stmt} {ans : Except DbError q.Out} (outside : past.tx = none) :
    (past.after (.stmt q : Op) ans).tx = none := by
  cases ans with
  | ok out => exact after_alone outside
  | error e => rfl

theorem along_getMessage {id : Uuid} (outside : past.tx = none) :
    Txn.Along (Plain (.getMessage id)) (fun now r => Handled now tenant (.getMessage id) r) past
      (Api.getMessage tenant id) := by
  refine along_each (along_query (P := fun now r => now.tx = none ∧ match r with
    | .ok found => Told now.calls (.getEvent id) found
    | .error e => ∃ failure, e = .db failure) (fun _ => outside) ?_ ?_) ?_ ?_
  · exact fun out => ⟨after_outside outside, List.mem_cons_self⟩
  · exact fun e => ⟨after_outside outside, e, rfl⟩
  · rintro now found ⟨outside, told⟩
    refine along_orNotFound ?_ ?_
    · rintro ev rfl
      dsimp only
      split
      · rename_i foreign
        exact .inr (.inr ⟨ev, told, foreign⟩)
      · refine along_each (along_query (P := fun now' r => now.calls ⊆ now'.calls ∧ match r with
          | .ok ds => Told now'.calls (.deliveriesForEvent id) ds
          | .error e => ∃ failure, e = .db failure) (fun _ => outside) ?_ ?_) ?_ ?_
        · exact fun out => ⟨List.subset_cons_self _ _, List.mem_cons_self⟩
        · exact fun e => ⟨List.subset_cons_self _ _, e, rfl⟩
        · rintro now' ds ⟨sub, shown⟩
          exact ⟨ev, ds, rfl, told.mono sub, shown⟩
        · exact fun now' e failed => .inl failed.2
    · rintro rfl
      exact .inr (.inl told)
  · exact fun now e failed => .inl failed.2

theorem along_publishes {consumer : Option Uuid} {type : String} {payload : Value}
    {Ψ : Past → Op → Prop} (may : ∀ now op, Ψ now op) :
    Txn.Along Ψ (fun now r => ∀ a id ids, r = .ok a → a.body = .message id ids →
      ∃ consumer, ∃ unit ∈ now.known, Publishes tenant consumer type payload ⟨id, ids⟩ unit) past
      (do return Api.enqueued (← Outbox.enqueueMessage tenant consumer type payload) :
        Io Answer) := by
  have runs : Txn.Runs (allows plain Dispatcher.default
      (.enqueueMessage tenant consumer type payload)) past _ _ :=
    Outbox.runs_enqueueMessage fun _ _ => .direct
  refine along_each (Txn.Along.relax runs fun now op _ => may now op) ?_ ?_
  · rintro now enq published _ id ids ⟨⟩ ⟨⟩
    obtain ⟨_, _, _, _, unit, may, publishes, known⟩ := published _ rfl
    cases may with
    | direct => exact ⟨consumer, unit, known, publishes⟩
  · rintro now e _ a id ids ⟨⟩

theorem along_createConsumer {uid : String} {name : Option String} (outside : past.tx = none) :
    Txn.Along (Plain (.createConsumer uid name))
      (fun now r => Handled now tenant (.createConsumer uid name) r) past
      (Api.createConsumer tenant uid name) := by
  unfold Api.createConsumer
  split
  · trivial
  · refine ⟨nofun, fun id => ?_⟩
    refine along_each (x := query (.createConsumer id tenant uid name)) (along_query
      (P := fun now r => ∀ c, r = .ok c → [ran (.createConsumer id tenant uid name) c] ∈ now.known)
      nofun ?_ ?_) ?_ ?_
    · rintro c _ ⟨⟩
      refine List.mem_append_left _ ?_
      change _ ∈ if past.tx.isNone then _ else _
      rw [outside]
      exact List.mem_singleton_self _
    · rintro e c ⟨⟩
    · intro now c told
      exact ⟨id, c, rfl, told c rfl⟩
    · exact fun now e _ => trivial

theorem along_handle {request : Api.Request} (outside : past.tx = none) :
    Txn.Along (Plain request) (fun now r => Handled now tenant request r) past
      (Api.handle κ tenant request) := by
  cases request with
  | listMessages limit offset => exact along_listMessages outside
  | getMessage id => exact along_getMessage outside
  | createConsumer uid name => exact along_createConsumer outside
  | createMessage type payload =>
    refine ⟨nofun, fun limited => ?_⟩
    cases limited with
    | some retry => exact fun _ _ _ _ _ => nofun
    | none =>
      refine Txn.Along.mono (along_publishes fun _ _ => nofun) fun now r told => ?_
      cases r with
      | error e => trivial
      | ok a =>
        rintro _ _ id ids ⟨⟩ body
        exact told a id ids rfl body
  | createConsumerMessage uid type payload =>
    refine ⟨nofun, fun limited => ?_⟩
    cases limited with
    | some retry => exact fun _ _ _ _ _ => nofun
    | none =>
      refine along_each (Txn.along_any (fun _ _ => nofun) (fun _ _ => trivial) _ _) ?_ ?_
      · intro now consumer _
        refine Txn.Along.mono (along_publishes fun _ _ => nofun) fun now r told => ?_
        cases r with
        | error e => trivial
        | ok a =>
          rintro _ _ id ids ⟨⟩ body
          exact told a id ids rfl body
      · exact fun _ _ _ => trivial
  | _ =>
    refine Txn.along_any (fun _ _ => nofun) (fun now r => ?_) _ _
    cases r with
    | error e => trivial
    | ok a => exact fun _ _ _ _ => nofun

theorem along_serve {headers : Headers} {request : Api.Request} :
    Txn.Along (Plain request)
      (fun now r => ∀ a, r = .ok a → Replies κ headers request now a) .start
      (Api.serve κ headers request) := by
  unfold Api.serve
  split
  · rename_i none
    rintro a ⟨⟩
    exact .anonymous none
  · rename_i token bearer
    refine runs_outcome_then (P := fun now r => now.tx = none ∧ ∀ found, r = .ok found →
      First now.calls (.tenantForApiKey (hashKey κ token)) found) ?_ ?_
    · refine along_query (fun _ => rfl) (fun out => ⟨rfl, ?_⟩) (fun e => ⟨rfl, nofun⟩)
      rintro found ⟨⟩
      exact ⟨[], rfl⟩
    · rintro now r ⟨outside, told⟩
      cases r with
      | error e =>
        rintro a ⟨⟩
        exact .broken
      | ok found =>
        have told := told found rfl
        cases found with
        | none =>
          rintro a ⟨⟩
          exact .unknown bearer told
        | some tenant =>
          refine runs_outcome_then (along_handle outside).grows ?_
          rintro now' r ⟨result, new, calls⟩
          obtain ⟨later, first⟩ := told
          have told : First now'.calls (.tenantForApiKey (hashKey κ token)) (some tenant) :=
            ⟨new ++ later, by rw [calls, first, List.append_assoc]⟩
          cases r with
          | ok a =>
            rintro _ ⟨⟩
            exact .handled bearer told result
          | error e =>
            rintro _ ⟨⟩
            exact .handled bearer told result

end Along

section Telling

variable {κ : Prims} {cfg : DispatcherConfig}

/-- What stands behind the answers of the API. -/
def telling (κ : Prims) (cfg : DispatcherConfig) : Txn.Spec (engine κ cfg) where
  allows job past op := ∀ headers request, job = .serve headers request → Plain request past op
  ensures job past res := ∀ headers request a, job = .serve headers request →
    res = .answered (.ok a) → Replies κ headers request past a
  along job := by
    cases job with
    | serve headers request =>
      refine (Txn.along_bind _ _ _).mpr ?_
      refine (along_serve.mono fun now r told => ?_).relax fun now op plain => ?_
      · rintro _ _ a ⟨⟩ eq
        cases r with
        | ok b =>
          cases eq
          exact told _ rfl
        | error e => cases eq
      · rintro _ _ ⟨⟩
        exact plain
    | _ => exact Txn.along_any (fun _ _ _ _ => nofun) (fun _ _ _ _ _ => nofun) _ _

end Telling

section Keys

variable {κ : Prims} {cfg : DispatcherConfig} {cond : State → State → Prop} {db : Db} {s t : State}

theorem tenant_kept {hash tenant : String} (reach : Run κ cfg cond db s)
    (later : Reach (engine κ cfg) cond s t)
    (found : Store.tenantForApiKey hash s.db = some tenant) :
    Store.tenantForApiKey hash t.db = some tenant := by
  obtain ⟨key, first, rfl⟩ := Option.map_eq_some_iff.mp found
  obtain ⟨here, own⟩ := Store.mem_select.mp (List.mem_of_head? first)
  obtain ⟨key', there, same⟩ := reach_find reach later here
  obtain rfl : key' = key := Row.apiKey.inj same
  have member : key' ∈ Store.select t.db fun k : ApiKey => k.keyHash = hash :=
    Store.mem_select.mpr ⟨there, own⟩
  obtain ⟨head, rest, rows⟩ := List.exists_cons_of_ne_nil (List.ne_nil_of_mem member)
  obtain ⟨found', own'⟩ := Store.mem_select.mp (rows ▸ List.mem_cons_self : head ∈ Store.select _ _)
  have unique : head = key' := by
    refine Db.eq_of_index (i := .keyHash hash) (Db.mem_all.mpr found') (Db.mem_all.mpr there) ?_ ?_
    · exact List.mem_singleton.mpr (congrArg _ (of_decide_eq_true own').symm)
    · exact List.mem_singleton.mpr (congrArg _ (of_decide_eq_true own).symm)
  simp only [Store.tenantForApiKey, rows, unique]
  rfl

end Keys

section Served

variable {κ : Prims} {cfg : DispatcherConfig} {cond : State → State → Prop} {db : Db}
  {s t : State} {pid : Pid} {headers : Headers} {request : Api.Request} {a : Answer}

/- A statement ran on the committed rows of a state of this part of the run. -/
def RanOn (κ : Prims) (cfg : DispatcherConfig) (cond : State → State → Prop) (s t : State)
    (q : Stmt) (out : q.Out) : Prop :=
  ∃ b now c ws, Reach (engine κ cfg) cond s b ∧ Reach (engine κ cfg) cond b t ∧
    q.run now c b.db = .ok (out, ws)

/-- A request that was sent after a state, and answered. -/
theorem served_since (before : Run κ cfg cond db s) (later : Reach (engine κ cfg) cond s t)
    (idle : s.procs.lookup pid = none)
    (mem : .finished pid (.serve headers request) (.answered (.ok a)) ∈ Txn.since s t) :
    ∃ past, Replies κ headers request past a ∧
      (∀ unit ∈ past.known, ∃ time, .applied pid (.serve headers request) time unit ∈ t.log) ∧
      (∀ q out, First past.calls q out → RanOn κ cfg cond s t q out) ∧
      (request.reads = true → ∀ q out, Told past.calls q out → RanOn κ cfg cond s t q out) := by
  obtain ⟨past, ensured, known, calls⟩ := Txn.finished_since (telling κ cfg) before later idle mem
  refine ⟨past, ensured headers request a rfl rfl, known, ?_, ?_⟩
  · rintro q out ⟨newer, first⟩
    obtain ⟨b, p, early, late, live, _, fresh, _, now, c, ws, exec⟩ := calls newer _ [] first
    have outside := Txn.fresh_outside (before.trans early) live fresh
    rw [Txn.writes_none outside] at exec
    exact ⟨b, now, c, ws, early, late, Stmt.exec_ok exec⟩
  · intro reads q out told
    obtain ⟨pre, post, split⟩ := List.append_of_mem told
    obtain ⟨b, p, early, late, _, _, _, allowed, now, c, ws, exec⟩ := calls pre _ post split
    have outside : p.tx = none := Option.map_eq_none_iff.mp (allowed headers request rfl reads)
    rw [Txn.writes_none outside] at exec
    exact ⟨b, now, c, ws, early, late, Stmt.exec_ok exec⟩

theorem tenant_since {token : List Char} {tenant : String} {out : Option String}
    (before : Run κ cfg cond db s)
    (found : Store.tenantForApiKey (hashKey κ token) s.db = some tenant)
    (ran : RanOn κ cfg cond s t (.tenantForApiKey (hashKey κ token)) out) : out = some tenant := by
  obtain ⟨b, now, c, ws, early, _, run⟩ := ran
  have told : Store.tenantForApiKey (hashKey κ token) b.db = out :=
    congrArg Prod.fst (Except.ok.inj run)
  rw [← told]
  exact tenant_kept before early found

end Served

section Written

variable {κ : Prims} {cfg : DispatcherConfig} {cond : State → State → Prop} {db : Db}
  {s t : State} {pid : Pid} {p : Proc} {tx : Txn.Tx Row Time lang} {tenant : String}
  {consumer : Option Uuid} {type : String} {payload : Value} {enq : Enqueued} {unit : List Ran}

/-- The event is there, with exactly these deliveries. -/
structure Delivered (db : Db) (ev : Event) (ids : List Uuid) : Prop where
  event : db.find? ev.id = some ev
  distinct : ids.Nodup
  exactly : ∀ id, id ∈ ids ↔ ∃ d ∈ Db.all Delivery db, d.id = id ∧ d.eventId = ev.id

def deliveryOf (now : Time) : Ran → Option Delivery
  | ⟨.insertDelivery id event endpoint tenant, _⟩ =>
      some (Store.newDelivery id event endpoint tenant now)
  | _ => none

theorem fanOut_ids (event : Uuid) (now : Time) {es : List Endpoint} {ids : List Uuid}
    (each : ids.length = es.length) :
    ((fanOut event tenant es ids).filterMap (deliveryOf now)).map (·.id) = ids := by
  induction es generalizing ids with
  | nil =>
    obtain rfl := List.length_eq_zero_iff.mp each
    rfl
  | cons e es ih =>
    cases ids with
    | nil => cases each
    | cons id ids => exact congrArg (id :: ·) (ih (Nat.succ.inj each))

theorem Publishes.files (publishes : Publishes tenant consumer type payload enq unit) :
    ∀ x ∈ unit, Filing x := by
  intro x mem
  rcases publishes.mem_cases mem with ⟨_, rfl⟩ | ⟨_, rfl⟩ | ⟨_, _, _, rfl⟩
  · exact .event
  · exact .endpoints
  · exact .delivery

theorem Publishes.ids (publishes : Publishes tenant consumer type payload enq unit) (now : Time) :
    (unit.filterMap (deliveryOf now)).map (·.id) = enq.deliveryIds ∧
      ∀ d ∈ unit.filterMap (deliveryOf now), d.eventId = enq.eventId := by
  constructor
  · cases publishes with
    | mk each => exact fanOut_ids _ now each
  · intro d mem
    obtain ⟨x, listed, eq⟩ := List.mem_filterMap.mp mem
    rcases publishes.mem_cases listed with ⟨_, rfl⟩ | ⟨_, rfl⟩ | ⟨_, _, _, rfl⟩
    · cases eq
    · cases eq
    · cases eq
      rfl

theorem Delivered.kept {ev : Event} {ids : List Uuid} (delivered : Delivered s.db ev ids)
    (durable : Durable (protocol κ cfg) s pid p tx) :
    Delivered (s.db.apply tx.writes) ev ids where
  event := by
    obtain ⟨ev', found, same⟩ := find_kept (fun _ _ => durable_keeps durable) delivered.event
    obtain rfl : ev' = ev := Row.event.inj same
    exact found
  distinct := delivered.distinct
  exactly id := by
    rw [delivered.exactly id]
    constructor
    · rintro ⟨d, here, rfl, event⟩
      obtain ⟨d', found, same⟩ := find_kept (fun _ _ => durable_keeps durable) (Db.mem_all.mp here)
      have same := Delivery.fixed same
      exact ⟨d', Db.mem_all_of_find? found, same.id, same.eventId.trans event⟩
    · rintro ⟨d, mem, rfl, event⟩
      rcases delivery_cases durable (Db.mem_all.mp mem) with
        ⟨r, here, same⟩ | ⟨event', endpoint, tenant, new, inserted, commits⟩
      · have same := Delivery.fixed same
        exact ⟨r, Db.mem_all_of_find? here, same.id.symm, same.eventId.symm.trans event⟩
      · -- a new delivery would come with its event
        obtain ⟨_, _, _, enq, pre, inner, post, unit, publishes, rfl, _⟩ :=
          commits_published commits inserted
        obtain ⟨row, first⟩ := publishes.event
        have absent := (published_event durable (unit ▸ List.mem_append_left _
          (List.mem_append_right _ first))).1
        have same : enq.eventId = ev.id := by
          rw [← event, new]
          rfl
        rw [same] at absent
        cases delivered.event.symm.trans absent

theorem Delivered.shown {ev : Event} {ids : List Uuid} (delivered : Delivered db ev ids) :
    ((Store.deliveriesForEvent ev.id db).map (·.id)).Perm ids := by
  have perm : (Store.deliveriesForEvent ev.id db).Perm
      (Store.select db fun d : Delivery => d.eventId = ev.id) := List.perm_insertionSort _ _
  refine (perm.map _).trans ((List.perm_ext_iff_of_nodup ?_ delivered.distinct).mpr fun id => ?_)
  · exact (Store.all_nodup (α := Delivery) db).sublist (List.filter_sublist.map _)
  · rw [delivered.exactly id]
    simp only [List.mem_map, Store.select, List.mem_filter, decide_eq_true_eq]
    constructor
    · rintro ⟨d, ⟨mem, event⟩, same⟩
      exact ⟨d, mem, same, event⟩
    · rintro ⟨d, mem, same, event⟩
      exact ⟨d, ⟨mem, event⟩, same⟩

end Written

def lastAnswer : List Entry → Option (Pid × Headers × Api.Request × Answer)
  | .finished pid (.serve headers request) (.answered (.ok a)) :: _ =>
      some (pid, headers, request, a)
  | _ => none

theorem lastAnswer_mem {log : List Entry} {pid : Pid} {headers : Headers} {request : Api.Request}
    {a : Answer} (h : lastAnswer log = some (pid, headers, request, a)) :
    .finished pid (.serve headers request) (.answered (.ok a)) ∈ log := by
  unfold lastAnswer at h
  split at h
  · cases h
    exact List.mem_cons_self
  · cases h

def askedBack : List Move × List Move :=
  (.spawn (.client 0) (.command (.createApiKey "t" "k")) :: go 3 (.client 0) 0 1 (.error "") ++
    .spawn (.client 0) (.command (.createEndpoint "t" "http://a" "s" [] none)) ::
    go 3 (.client 0) 0 1 (.error "") ++
    .spawn (.client 0) (.serve (bearer "k") (.createMessage "x" .null)) ::
    go 10 (.client 0) 0 2 (.error ""),
   .spawn (.client 1) (.serve (bearer "k") (.getMessage 2)) :: go 4 (.client 1) 0 3 (.error ""))

section Paging

variable {κ : Prims} {cfg : DispatcherConfig} {cond : State → State → Prop} {db : Db} {s t : State}
  {tenant : String}

/- The events of a tenant, in the order in which they are listed. -/
def timeline (tenant : String) (db : Db) : List Event :=
  Store.orderByDesc Event.createdAt (Store.select db fun e => e.tenantId = tenant)

theorem timeline_grown (tenant : String) (reach : Run κ cfg cond db s)
    (later : Reach (engine κ cfg) cond s t) :
    (timeline tenant s.db).Sublist (timeline tenant t.db) := by
  obtain ⟨more, rows⟩ := reach_appended _ events_appended reach later
  have total : Std.Total fun a b : Event => b.createdAt ≤ a.createdAt :=
    ⟨fun a b => Int.le_total b.createdAt a.createdAt⟩
  have trans : IsTrans Event fun a b => b.createdAt ≤ a.createdAt :=
    ⟨fun a b c first second => Int.le_trans second first⟩
  simp only [timeline, Store.orderByDesc, Store.select, ← rows, List.filter_append]
  exact Txn.sorted_grown _ _

/-- Pages of `GET /v1/messages`, each asked for after the one before it was answered. -/
inductive Paged (κ : Prims) (cfg : DispatcherConfig) (headers : Headers) (limit : Option Int) :
    Nat → State → List (List Event) → State → Prop where
  | none {k s} : Paged κ cfg headers limit k s [] s
  | page {k : Nat} {s t u pid page pages} (later : Reach (engine κ cfg) Txn.anyStep s t)
      (idle : s.procs.lookup pid = none)
      (read : .finished pid (.serve headers (.listMessages limit (some (k * pageLimit limit))))
        (.answered (.ok (answer 200 (.events page)))) ∈ Txn.since s t)
      (rest : Paged κ cfg headers limit (k + 1) t pages u) :
      Paged κ cfg headers limit k s (page :: pages) u

theorem page_read {headers : Headers} {token : List Char} {limit offset : Option Int} {pid : Pid}
    {page : List Event} (run : Run κ cfg cond db s) (bearer : bearerToken headers = some token)
    (key : Store.tenantForApiKey (hashKey κ token) s.db = some tenant)
    (later : Reach (engine κ cfg) cond s t) (idle : s.procs.lookup pid = none)
    (read : .finished pid (.serve headers (.listMessages limit offset))
      (.answered (.ok (answer 200 (.events page)))) ∈ Txn.since s t) :
    ∃ b, Reach (engine κ cfg) cond s b ∧ Reach (engine κ cfg) cond b t ∧
      page = ((timeline tenant b.db).drop (pageOffset offset)).take (pageLimit limit) := by
  obtain ⟨past, replies, _, first, told⟩ := served_since run later idle read
  generalize body : answer 200 (.events page) = a at replies
  cases replies with
  | anonymous => cases body
  | unknown => cases body
  | broken => cases body
  | @handled _ _ r bearer' lookup result =>
    obtain rfl := Option.some.inj (bearer.symm.trans bearer')
    obtain rfl := Option.some.inj (tenant_since run key (first _ _ lookup))
    cases r with
    | error e =>
      obtain ⟨m, error⟩ := apiError_body e
      cases (congrArg Answer.body body).trans error
    | ok a =>
      obtain ⟨_, rfl, shown⟩ := result
      cases body
      obtain ⟨b, now, c, ws, early, late, ran⟩ := told rfl _ _ shown
      exact ⟨b, early, late, (congrArg Prod.fst (Except.ok.inj ran)).symm⟩

theorem paged_pages {headers : Headers} {token : List Char} {limit : Option Int} {k : Nat}
    {pages : List (List Event)} (run : Run κ cfg Txn.anyStep db s)
    (bearer : bearerToken headers = some token)
    (key : Store.tenantForApiKey (hashKey κ token) s.db = some tenant)
    (paged : Paged κ cfg headers limit k s pages t) :
    Txn.Pages (pageLimit limit) k (timeline tenant s.db) pages := by
  induction paged with
  | none => exact .none
  | @page k s t u pid page pages later idle read rest ih =>
    obtain ⟨b, early, late, rfl⟩ := page_read run bearer key later idle read
    have offset : pageOffset (some (k * pageLimit limit : Int)) = k * pageLimit limit := by
      have whole : (k * pageLimit limit : Int) = (k * pageLimit limit : Nat) := by push_cast; rfl
      rw [pageOffset, whole, Option.getD_some, Int.max_eq_left (Int.natCast_nonneg _),
        Int.toNat_natCast]
    have reached := run.trans early
    rw [offset]
    refine .page (timeline_grown tenant run early) (Txn.Pages.earlier ?_
      (timeline_grown tenant reached late))
    exact ih (reached.trans late) (tenant_kept run later key)

end Paging

/-- Whoever reads `GET /v1/messages` page by page, up to a short page, is shown every event
that the tenant had when the first page was asked for, whatever is published meanwhile. -/
theorem paging_complete (κ : Prims) (cfg : DispatcherConfig) (s t : State) (headers : Headers)
    (tenant : String) (limit : Option Int) (pages : List (List Event)) (last : List Event)
    (run : Run κ cfg Txn.anyStep .empty s) (key : authenticated κ headers s.db = some tenant)
    (paged : Paged κ cfg headers limit 0 s pages t) (ends : pages.getLast? = some last)
    (short : last.length < pageLimit limit) :
    ∀ ev ∈ Db.all Event s.db, ev.tenantId = tenant → ev ∈ pages.flatten := by
  intro ev mem own
  obtain ⟨token, bearer, found⟩ := Option.bind_eq_some_iff.mp key
  refine (paged_pages run bearer found paged).mem ends short ?_
  rw [Nat.zero_mul, List.drop_zero]
  exact (List.perm_insertionSort _ _).mem_iff.mpr
    (List.mem_filter.mpr ⟨mem, decide_eq_true own⟩)

section Pager

variable {κ : Prims} {cfg : DispatcherConfig} {headers : Headers} {limit : Option Int} {k : Nat}
  {s t : State}

def pageRead (headers : Headers) (limit : Option Int) (k : Nat) (s t : State) :
    Option (List Event) :=
  match lastAnswer (Txn.since s t) with
  | some (pid, headers', .listMessages limit' (some offset), ⟨200, none, .events page⟩) =>
      if headers' = headers ∧ limit' = limit ∧ offset = k * pageLimit limit ∧
        (s.procs.lookup pid).isNone then some page else none
  | _ => none

def readPages (κ : Prims) (cfg : DispatcherConfig) (headers : Headers) (limit : Option Int) :
    Nat → State → List (List Move) → Option (List (List Event))
  | _, _, [] => some []
  | k, s, moves :: rest =>
    (replay κ cfg s moves).bind fun t => (pageRead headers limit k s t).bind fun page =>
      (readPages κ cfg headers limit (k + 1) t rest).map (page :: ·)

theorem readPages_paged {rest : List (List Move)} {pages : List (List Event)}
    (h : readPages κ cfg headers limit k s rest = some pages) :
    ∃ t, Paged κ cfg headers limit k s pages t := by
  induction rest generalizing k s pages with
  | nil =>
    cases h
    exact ⟨s, .none⟩
  | cons moves rest ih =>
    obtain ⟨t, moved, h⟩ := Option.bind_eq_some_iff.mp h
    obtain ⟨page, read, h⟩ := Option.bind_eq_some_iff.mp h
    obtain ⟨pages, more, rfl⟩ := Option.map_eq_some_iff.mp h
    obtain ⟨u, paged⟩ := ih more
    unfold pageRead at read
    split at read
    · rename_i answered
      split at read
      · rename_i same
        obtain ⟨rfl, rfl, rfl, idle⟩ := same
        cases read
        exact ⟨u, .page (replay_reach moved) (Option.isNone_iff_eq_none.mp idle)
          (lastAnswer_mem answered) paged⟩
      · cases read
    · cases read

end Pager

def threePages : List (List Move) :=
  [.spawn (.client 1) (.serve (bearer "k") (.listMessages (some 1) (some 0))) ::
      go 3 (.client 1) 0 3 (.error ""),
    .spawn (.client 0) (.serve (bearer "k") (.createMessage "y" .null)) ::
      go 10 (.client 0) 1 4 (.error "") ++
    .spawn (.client 1) (.serve (bearer "k") (.listMessages (some 1) (some 1))) ::
      go 3 (.client 1) 0 3 (.error ""),
    .spawn (.client 1) (.serve (bearer "k") (.listMessages (some 1) (some 2))) ::
      go 3 (.client 1) 0 3 (.error "")]

theorem paging_complete_shifted : ∃ (s t : State) (pages : List (List Event)) (ev : Event),
    Run keyAnswer Dispatcher.default Txn.anyStep .empty s ∧
    authenticated keyAnswer (bearer "k") s.db = some "t" ∧
    Paged keyAnswer Dispatcher.default (bearer "k") (some 1) 0 s pages t ∧
    pages.map (·.map (·.id)) = [[2], [2], []] ∧ ev ∈ Db.all Event s.db ∧ ev ∈ pages.flatten := by
  have played : ((replay keyAnswer Dispatcher.default (.start .empty) askedBack.1).bind fun s =>
      (readPages keyAnswer Dispatcher.default (bearer "k") (some 1) 0 s threePages).map fun pages =>
        (pages.map (·.map (·.id)), authenticated keyAnswer (bearer "k") s.db,
          (Db.all Event s.db).map (·.tenantId))) =
      some ([[2], [2], []], some "t", ["t"]) := by decide +kernel
  obtain ⟨s, first, rest⟩ := Option.bind_eq_some_iff.mp played
  obtain ⟨pages, read, eq⟩ := Option.map_eq_some_iff.mp rest
  simp only [Prod.mk.injEq] at eq
  obtain ⟨ids, key, owners⟩ := eq
  obtain ⟨t, paged⟩ := readPages_paged read
  obtain ⟨ev, more, rows, own, _⟩ := List.map_eq_cons_iff.mp owners
  have run : Run keyAnswer Dispatcher.default Txn.anyStep .empty s := replay_reach first
  have here : ev ∈ Db.all Event s.db := rows ▸ List.mem_cons_self
  obtain ⟨last, ends, none⟩ : ∃ last, pages.getLast? = some last ∧ last = [] := by
    have ends := congrArg List.getLast? ids
    rw [List.getLast?_map] at ends
    obtain ⟨last, found, none⟩ := Option.map_eq_some_iff.mp ends
    exact ⟨last, found, List.map_eq_nil_iff.mp none⟩
  refine ⟨s, t, pages, ev, run, key, paged, ids, here, ?_⟩
  exact paging_complete keyAnswer Dispatcher.default s t (bearer "k") "t" (some 1) pages last run
    key paged ends (none ▸ by decide) ev here own

end Dropless
