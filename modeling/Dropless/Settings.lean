import Dropless.Breaker
import Dropless.Reads

/-! Endpoints and consumers as registers. Their columns are set by single statements that
many processes run at once, some of them from rows read long before; what they hold is
what the statements made of them, one after the other, in the order of their commits. -/
namespace Dropless

open Api (Answer answer bearerToken hashKey)
open Txn (Durable Reach)

theorem unit_commits_or_alone {κ : Prims} {cfg : DispatcherConfig} {s : State} {pid : Pid}
    {p : Proc} {tx : Txn.Tx Row Time lang} (durable : Durable (protocol κ cfg) s pid p tx) :
    Commits κ cfg p.calls p.job (tx.done.map Txn.Done.ran) ∨
      ∃ q out ws c, tx.done = [⟨q, out, ws⟩] ∧ Stmt.exec q tx.time c s.db = .ok (out, ws) := by
  rcases durable.allowed with ⟨inside, unit, same, commits⟩ | ⟨_, ⟨q, out, ws⟩, c, one, _, exec⟩
  · have eq : some (tx.done.map Txn.Done.ran) = some unit := by
      rw [← same]
      simp [Txn.Proc.past, inside]
    exact .inl (Option.some.inj eq ▸ commits)
  · exact .inr ⟨q, out, ws, c, one, exec⟩

section Endpoints

/- The columns that a tenant sets. -/
structure Settings where
  url : String
  disabled : Bool
  eventTypes : Option (List String)
deriving DecidableEq

def Endpoint.settings (e : Endpoint) : Settings := ⟨e.url, e.disabled, e.eventTypes⟩

/- What a `PATCH` makes of them. -/
def Settings.patch (url : Option String) (disabled : Option Bool)
    (eventTypes : Option (List String)) (c : Settings) : Settings :=
  ⟨url.getD c.url, disabled.getD c.disabled, eventTypes.or c.eventTypes⟩

/-- What a statement makes of the settings of an endpoint: its creation, or an update that
found it. -/
def configured (id : Uuid) (old : Option Settings) : Time × Ran → Option Settings
  | (_, ⟨.createEndpoint id' _ _ url _ types, _⟩) =>
      if id' = id then some ⟨url, false, types⟩ else old
  | (_, ⟨.updateEndpoint id' _ url disabled types, some _⟩) =>
      if id' = id then old.map (.patch url disabled types) else old
  | _ => old

variable {κ : Prims} {cfg : DispatcherConfig} {cond : State → State → Prop} {s : State} {pid : Pid}
  {p : Proc} {tx : Txn.Tx Row Time lang} {id : Uuid}

/- The circuit is written over the settings as they are. -/
theorem circuit_keeps {q : Stmt} {out : q.Out} {ws : List Write} {now : Time} {c : List Uuid}
    {view : Db} {endpoint : Uuid} {u : CircuitUpdate} (exec : q.exec now c view = .ok (out, ws))
    (is : ran q out = circuitRan endpoint u) :
    ∀ w ∈ ws, ∀ e : Endpoint, w.after = Record.row e →
      ∃ b : Endpoint, w.before = some (Record.row b) ∧ e.settings = b.settings := by
  cases is
  intro w mem e after
  obtain ⟨_, rfl⟩ := Prod.mk.inj (Except.ok.inj (Stmt.exec_ok exec))
  obtain ⟨b, _, _, rfl, _⟩ := Store.mem_update mem
  cases after
  exact ⟨b, rfl, rfl⟩

theorem committed_settings (durable : Durable (protocol κ cfg) s pid p tx)
    (commits : Commits κ cfg p.calls p.job (tx.done.map Txn.Done.ran)) :
    (Db.find? (s.db.apply tx.writes) id).map Endpoint.settings =
      (Db.find? s.db id).map Endpoint.settings := by
  refine Db.column_apply durable.valid (fun w mem e after => ?_) id
  obtain ⟨d, hd, hw⟩ := Txn.mem_writes mem
  obtain ⟨c, view, exec⟩ := durable.ran d hd
  have place : d.stmt.target = some .endpoints := by
    rw [(Stmt.exec_shape exec).in_table w hw, after, Record.key_row]
    rfl
  obtain ⟨_, _, _, _, endpoint, u, is, _⟩ :=
    commits_endpoints commits (List.mem_map_of_mem hd) place
  exact circuit_keeps exec is w hw e after

theorem committed_configured {calls : Calls} {job : Job} {unit : List Ran} {x : Ran} {now : Time}
    (commits : Commits κ cfg calls job unit) (mem : x ∈ unit) (old : Option Settings) :
    configured id old (now, x) = old := by
  rcases commits.settles_or_files with ⟨w, d, rfl, settles⟩ | files
  · cases settles.closing mem <;> rfl
  · cases files x mem <;> rfl

theorem foldl_same {α β : Type} {f : β → α → β} {l : List α} (same : ∀ a ∈ l, ∀ b, f b a = b)
    (b : β) : l.foldl f b = b := by
  induction l with
  | nil => rfl
  | cons a l ih =>
    rw [List.foldl_cons, same a List.mem_cons_self]
    exact ih fun x mem => same x (List.mem_cons_of_mem _ mem)

theorem Store.updateEndpoint_ok {db : Db} {id : Uuid} {tenant : String} {url : Option String}
    {disabled : Option Bool} {types : Option (List String)} {now : Time} {out : Option Endpoint}
    {ws : List Write} (h : updateEndpoint id tenant url disabled types now db = (out, ws)) :
    (∃ e e' : Endpoint, db.find? id = some e ∧ e'.id = id ∧
      e'.settings = e.settings.patch url disabled types ∧ out = some e' ∧ ws = [amended e e']) ∨
    (out = none ∧ ws = []) := by
  rcases update_cases db id (fun e : Endpoint => e.tenantId = tenant) fun e =>
    { e with
      url := url.getD e.url, disabled := disabled.getD e.disabled,
      eventTypes := types.or e.eventTypes, updatedAt := now } with ⟨e, found, _, eq⟩ | ⟨_, eq⟩
  · cases eq.symm.trans h
    refine .inl ⟨e, _, found, ?_, ?_, rfl, rfl⟩
    · exact Db.find?_id found
    · rfl
  · cases eq.symm.trans h
    exact .inr ⟨rfl, rfl⟩

theorem alone_configured {q : Stmt} {out : q.Out} {ws : List Write} {now : Time} {c : List Uuid}
    {db : Db} (exec : q.exec now c db = .ok (out, ws)) :
    (Db.find? (db.apply ws) id).map Endpoint.settings =
      configured id ((Db.find? db id).map Endpoint.settings) (now, ran q out) := by
  have valid := (Stmt.exec_shape exec).valid
  have run := Stmt.exec_ok exec
  cases q with
  | createEndpoint id' tenant consumer url secret types =>
    obtain ⟨rfl, _, inserted⟩ := Store.createEndpoint_ok run
    obtain ⟨rfl, _, fits⟩ := Store.insert_ok inserted
    rw [Txn.Store.apply, Txn.Store.apply, Db.find?_put fits]
    simp only [configured, Record.id]
    split <;> rfl
  | updateEndpoint id' tenant url disabled types =>
    rcases Store.updateEndpoint_ok (Except.ok.inj run) with
      ⟨e, e', found, own, set, rfl, rfl⟩ | ⟨rfl, rfl⟩
    · rw [Txn.Store.apply, Txn.Store.apply, Store.amended, Db.find?_put valid.1.2]
      simp only [configured, Record.id]
      split
      · rename_i here
        obtain rfl : id' = id := own.symm.trans here
        rw [if_pos rfl, found, Option.map_some, set]
        rfl
      · rename_i other
        rw [if_neg fun here => other (own.trans here)]
    · rfl
  | updateCircuit endpoint state openUntil failures =>
    exact Db.column_apply valid (circuit_keeps exec (u := ⟨state, openUntil, failures⟩) rfl) id
  | tryAcquireProbe endpoint lease =>
    refine Db.column_apply valid (fun w mem e after => ?_) id
    obtain ⟨_, rfl⟩ := Prod.mk.inj (Except.ok.inj run)
    obtain ⟨b, _, _, rfl, _⟩ := Store.mem_update mem
    cases after
    exact ⟨b, rfl, rfl⟩
  | _ =>
    rw [Db.find?_apply_outside valid fun w mem => ?_]
    · rfl
    · intro same
      cases ((Stmt.exec_shape exec).in_table w mem).trans (congrArg some same)

theorem durable_configured (durable : Durable (protocol κ cfg) s pid p tx) :
    (Db.find? (s.db.apply tx.writes) id).map Endpoint.settings =
      (tx.done.map fun d => (tx.time, d.ran)).foldl (configured id)
        ((Db.find? s.db id).map Endpoint.settings) := by
  rcases unit_commits_or_alone durable with commits | ⟨q, out, ws, c, one, exec⟩
  · rw [committed_settings durable commits, foldl_same]
    intro x mem old
    obtain ⟨d, hd, rfl⟩ := List.mem_map.mp mem
    exact committed_configured commits (List.mem_map_of_mem hd) old
  · have writes : tx.writes = ws := by simp [Txn.Tx.writes, one]
    rw [writes, one]
    exact alone_configured exec

end Endpoints

/-- The settings of an endpoint are at all times what its creation and the updates that found
it make of them, in the order of their commits. -/
theorem endpoint_settings (κ : Prims) (cfg : DispatcherConfig) (s : State) (id : Uuid)
    (run : Run κ cfg Txn.anyStep .empty s) :
    (Db.find? s.db id).map Endpoint.settings =
      (Txn.durables s.log).foldl (configured id) none := by
  refine Txn.reach_replayed (protocol κ cfg)
    (fun db : Db => (Db.find? db id).map Endpoint.settings) (configured id) ?_ run
  exact fun a pid p tx _ durable => durable_configured durable

def patchedTwice : List Move :=
  published ++ .spawn (.worker 0 0) (.claim (workerId 0)) ::
    go 6 (.worker 0 0) 1 4 (.ok ⟨200, ""⟩) ++
  .spawn (.client 0) (.updateEndpoint 1 "t" (some "http://b") none none) ::
    go 2 (.client 0) 2 5 (.error "") ++
  .spawn (.client 1) (.updateEndpoint 1 "t" none (some true) none) ::
    go 2 (.client 1) 3 5 (.error "") ++
  go 9 (.worker 0 0) 4 6 (.ok ⟨200, ""⟩)

theorem endpoint_settings_patched : ∃ s : State,
    Run plain Dispatcher.default Txn.anyStep .empty s ∧
    (Db.find? s.db 1).map Endpoint.settings = some ⟨"http://b", true, none⟩ ∧
    (Db.all Delivery s.db).map (·.status) = [.succeeded] := by
  have played : ((replay plain Dispatcher.default (.start .empty) patchedTwice).map fun s =>
      ((Txn.durables s.log).foldl (configured 1) none, (Db.all Delivery s.db).map (·.status))) =
      some (some ⟨"http://b", true, none⟩, [.succeeded]) := by decide +kernel
  obtain ⟨s, replayed, eq⟩ := Option.map_eq_some_iff.mp played
  obtain ⟨folded, status⟩ := Prod.mk.inj eq
  have run : Run plain Dispatcher.default Txn.anyStep .empty s := replay_reach replayed
  refine ⟨s, run, ?_, status⟩
  rw [endpoint_settings plain Dispatcher.default s 1 run, folded]

section Consumers

variable {κ : Prims} {cfg : DispatcherConfig} {cond : State → State → Prop} {s : State} {pid : Pid}
  {p : Proc} {tx : Txn.Tx Row Time lang} {tenant uid : String} {db : Db}

structure Label where
  id : Uuid
  name : Option String
  createdAt : Time
deriving DecidableEq

def Consumer.label (c : Consumer) : Label := ⟨c.id, c.name, c.createdAt⟩

/-- What a statement makes of the consumer with a uid: the first creation files it, a later one
may rename it. -/
def labelled (tenant uid : String) (old : Option Label) : Time × Ran → Option Label
  | (now, ⟨.createConsumer id tenant' uid' name, _⟩) =>
      if tenant' = tenant ∧ uid' = uid then
        some (old.elim ⟨id, name, now⟩ fun c => { c with name := name.or c.name })
      else old
  | _ => old

theorem getConsumer_put {row : Consumer} (fits : db.Admits (Record.row row))
    (old : ∀ c : Consumer, db.find? row.id = some c → c.tenantId = row.tenantId ∧ c.uid = row.uid) :
    Store.getConsumer tenant uid (db.put (Record.row row)) =
      if row.tenantId = tenant ∧ row.uid = uid then some row
      else Store.getConsumer tenant uid db := by
  split
  · rename_i own
    refine Store.getConsumer_iff.mpr ⟨?_, own⟩
    rw [Db.find?_put fits]
    exact if_pos rfl
  · rename_i other
    refine Option.ext fun c => ?_
    rw [Store.getConsumer_iff, Store.getConsumer_iff, Db.find?_put fits]
    by_cases same : row.id = c.id
    · rw [show Record.id row = row.id from rfl, if_pos same]
      constructor
      · rintro ⟨eq, own⟩
        obtain rfl := Option.some.inj eq
        exact (other own).elim
      · rintro ⟨found, own⟩
        obtain ⟨left, right⟩ := old c (same ▸ found)
        exact (other ⟨left ▸ own.1, right ▸ own.2⟩).elim
    · rw [show Record.id row = row.id from rfl, if_neg same]

theorem getConsumer_outside {ws : List Write} (valid : db.Valid ws)
    (other : ∀ w ∈ ws, w.after.key.table ≠ .consumers) :
    Store.getConsumer tenant uid (db.apply ws) = Store.getConsumer tenant uid db := by
  simp only [Store.getConsumer, Store.select, Db.all_apply_outside (α := Consumer) valid other]

theorem getConsumer_free {row : Consumer} {ws : List Write}
    (inserted : Store.insert db row = .ok ws) :
    Store.getConsumer row.tenantId row.uid db = none := by
  obtain ⟨_, absent, fits⟩ := Store.insert_ok inserted
  cases here : Store.getConsumer row.tenantId row.uid db with
  | none => rfl
  | some c =>
    obtain ⟨found, tenant_, uid_⟩ := Store.getConsumer_iff.mp here
    obtain ⟨mem, key⟩ := Txn.Store.get?_some (Db.find?_eq_some.mp found)
    refine (fits _ mem (fun same => ?_) (.inr ⟨.consumer row.tenantId row.uid, ?_, ?_⟩)).elim
    · have there := Txn.Store.get?_of_mem mem
      rw [same] at there
      cases there.symm.trans absent
    · exact List.mem_singleton.mpr (by rw [← tenant_, ← uid_])
    · exact List.mem_singleton_self _

theorem createConsumer_row {id : Uuid} {name : Option String} {now : Time} {c : Consumer}
    {ws : List Write} (h : Store.createConsumer id tenant uid name now db = .ok (c, ws)) :
    ∃ before, (c.tenantId = tenant ∧ c.uid = uid) ∧ ws = [⟨before, Record.row c⟩] := by
  rcases Store.createConsumer_ok h with ⟨c, found, rfl, rfl, rfl, rfl⟩ | ⟨rfl, inserted⟩
  · exact ⟨_, ⟨rfl, rfl⟩, rfl⟩
  · exact ⟨none, ⟨rfl, rfl⟩, (Store.insert_ok inserted).1⟩

theorem alone_labelled {q : Stmt} {out : q.Out} {ws : List Write} {now : Time} {c : List Uuid}
    (exec : q.exec now c db = .ok (out, ws)) :
    (Store.getConsumer tenant uid (db.apply ws)).map Consumer.label =
      labelled tenant uid ((Store.getConsumer tenant uid db).map Consumer.label)
        (now, ran q out) := by
  have valid := (Stmt.exec_shape exec).valid
  have run := Stmt.exec_ok exec
  cases q with
  | createConsumer id tenant' uid' name =>
    rcases Store.createConsumer_ok run with ⟨c, found, rfl, rfl, rfl, rfl⟩ | ⟨rfl, inserted⟩
    · have fits : db.Admits (Record.row _) := valid.1.2
      rw [Txn.Store.apply, Txn.Store.apply, Store.amended, getConsumer_put fits]
      · simp only [labelled]
        split
        · rename_i own
          rw [← own.1, ← own.2, Store.getConsumer_iff.mpr ⟨found, rfl, rfl⟩]
          rfl
        · rfl
      · intro c' found'
        obtain rfl : c' = c := Option.some.inj (found'.symm.trans found)
        exact ⟨rfl, rfl⟩
    · have free := getConsumer_free inserted
      obtain ⟨rfl, absent, fits⟩ := Store.insert_ok inserted
      rw [Txn.Store.apply, Txn.Store.apply, getConsumer_put fits]
      · simp only [labelled]
        split
        · rename_i own
          rw [← own.1, ← own.2, free]
          rfl
        · rfl
      · intro c' found'
        have none : Db.find? db id = (none : Option Consumer) := Db.find?_none.mpr absent
        cases found'.symm.trans none
  | _ =>
    rw [getConsumer_outside valid fun w mem => ?_]
    · rfl
    · intro same
      cases ((Stmt.exec_shape exec).in_table w mem).trans (congrArg some same)

theorem committed_consumers (tenant uid : String) {calls : Calls} {job : Job} {unit : List Ran}
    {x : Ran} (commits : Commits κ cfg calls job unit) (mem : x ∈ unit) :
    x.1.target ≠ some .consumers ∧ ∀ now old, labelled tenant uid old (now, x) = old := by
  rcases commits.settles_or_files with ⟨w, d, rfl, settles⟩ | files
  · cases settles.closing mem <;> exact ⟨nofun, fun _ _ => rfl⟩
  · cases files x mem <;> exact ⟨nofun, fun _ _ => rfl⟩

theorem consumer_labels (tenant uid : String) (run : Run κ cfg cond .empty s) :
    (Store.getConsumer tenant uid s.db).map Consumer.label =
      (Txn.durables s.log).foldl (labelled tenant uid) none := by
  refine Txn.reach_replayed (protocol κ cfg)
    (fun db : Db => (Store.getConsumer tenant uid db).map Consumer.label) (labelled tenant uid) ?_ run
  intro a pid p tx _ durable
  rcases unit_commits_or_alone durable with commits | ⟨q, out, ws, c, one, exec⟩
  · rw [getConsumer_outside durable.valid fun w mem same => ?_, foldl_same]
    · intro x mem old
      obtain ⟨d, hd, rfl⟩ := List.mem_map.mp mem
      exact (committed_consumers tenant uid commits (List.mem_map_of_mem hd)).2 _ old
    · obtain ⟨d, hd, hw⟩ := Txn.mem_writes mem
      obtain ⟨c, view, exec⟩ := durable.ran d hd
      refine (committed_consumers tenant uid commits (List.mem_map_of_mem hd)).1 ?_
      exact ((Stmt.exec_shape exec).in_table w hw).trans (congrArg some same)
  · have writes : tx.writes = ws := by simp [Txn.Tx.writes, one]
    rw [writes, one]
    exact alone_labelled exec

/- A consumer that a request was answered with is there from then on. -/
theorem consumer_answered {headers : Headers} {name : Option String} {c : Consumer}
    (run : Run κ cfg cond .empty s) (key : authenticated κ headers s.db = some tenant)
    (created : .finished pid (.serve headers (.createConsumer uid name))
      (.answered (.ok (answer 201 (.consumer c)))) ∈ s.log) :
    ∃ r, Store.getConsumer tenant uid s.db = some r ∧ r.id = c.id ∧ r.createdAt = c.createdAt := by
  have since : Txn.since (.start .empty) s = s.log := Txn.since_eq (List.append_nil _).symm
  obtain ⟨past, replies, known, first, _⟩ :=
    served_since .start run rfl (since.symm ▸ created)
  generalize body : answer 201 (.consumer c) = a at replies
  cases replies with
  | anonymous => cases body
  | unknown => cases body
  | broken => cases body
  | @handled token tenant' r bearer told result =>
    -- the tenant of the key then is the tenant of the key now
    obtain ⟨b, now, ch, ws, early, late, ran_⟩ := first _ _ told
    have then_ : Store.tenantForApiKey (hashKey κ token) s.db = some tenant' :=
      tenant_kept early late (congrArg Prod.fst (Except.ok.inj ran_))
    simp only [authenticated, bearer, Option.bind_some, then_] at key
    obtain rfl := Option.some.inj key
    obtain ⟨id, unit⟩ := result.created body.symm
    obtain ⟨time, applied⟩ := known _ unit
    obtain ⟨newer, rest, split⟩ := List.append_of_mem applied
    obtain ⟨b, b', p, tx, settled, _, _, _, done⟩ := Txn.applied_at (protocol κ cfg) run split
    obtain ⟨written, _, one, none⟩ := Txn.done_cons done
    rw [List.map_eq_nil_iff.mp none] at one
    obtain ⟨ch, view, exec⟩ := settled.durable.ran _ (one ▸ List.mem_singleton_self _)
    obtain ⟨before, own, writes⟩ := createConsumer_row (Stmt.exec_ok exec)
    have there := alone_written (a := c) settled.durable one (w := ⟨before, Record.row c⟩)
      (writes ▸ List.mem_singleton_self _) rfl
    rw [← settled.db] at there
    obtain ⟨r, found, same⟩ := reach_find (.next settled.before settled.step settled.ok)
      settled.later there
    have same := Consumer.fixed same
    refine ⟨r, Store.getConsumer_iff.mpr ⟨same.id ▸ found, ?_, ?_⟩, same.id, same.createdAt⟩
    · exact same.tenantId.trans own.1
    · exact same.uid.trans own.2

end Consumers

/-- The consumer with a uid is filed once, by the first creation to commit, and its name is the
last one that was given; every client that created it was told that same id. -/
theorem consumer_get_or_create (κ : Prims) (cfg : DispatcherConfig) (s : State)
    (tenant uid : String) (run : Run κ cfg Txn.anyStep .empty s) :
    (Store.getConsumer tenant uid s.db).map Consumer.label =
      (Txn.durables s.log).foldl (labelled tenant uid) none ∧
    ∀ pid headers name c, authenticated κ headers s.db = some tenant →
      .finished pid (.serve headers (.createConsumer uid name))
        (.answered (.ok (answer 201 (.consumer c)))) ∈ s.log →
      ∃ r, Store.getConsumer tenant uid s.db = some r ∧ r.id = c.id ∧ r.createdAt = c.createdAt :=
  ⟨consumer_labels tenant uid run, fun _ _ _ _ key created => consumer_answered run key created⟩

def createdTwice : List Move :=
  .spawn (.client 0) (.command (.createApiKey "t" "k")) :: go 3 (.client 0) 0 1 (.error "") ++
  .spawn (.client 0) (.serve (bearer "k") (.createConsumer "c" none)) ::
    go 2 (.client 0) 0 1 (.error "") ++
  .spawn (.client 1) (.serve (bearer "k") (.createConsumer "c" (some "n"))) ::
    go 4 (.client 1) 1 2 (.error "") ++
  go 2 (.client 0) 2 3 (.error "")

def createdLast (headers : Headers) (uid : String) (s : State) : Bool :=
  match lastAnswer s.log with
  | some (_, headers', .createConsumer uid' _, ⟨code, none, .consumer _⟩) =>
      headers' = headers ∧ uid' = uid ∧ code = 201
  | _ => false

theorem consumer_get_or_create_twice : ∃ (s : State) (pid : Pid) (headers : Headers)
    (name : Option String) (c : Consumer),
    Run keyAnswer Dispatcher.default Txn.anyStep .empty s ∧
    .finished pid (.serve headers (.createConsumer "c" name))
      (.answered (.ok (answer 201 (.consumer c)))) ∈ s.log ∧
    (Store.getConsumer "t" "c" s.db).map Consumer.label = some ⟨c.id, some "n", c.createdAt⟩ := by
  have played : ((replay keyAnswer Dispatcher.default (.start .empty) createdTwice).map fun s =>
      (authenticated keyAnswer (bearer "k") s.db, (Txn.durables s.log).foldl (labelled "t" "c") none,
        createdLast (bearer "k") "c" s)) =
        some (some "t", some ⟨2, some "n", 1⟩, true) := by decide +kernel
  obtain ⟨s, replayed, eq⟩ := Option.map_eq_some_iff.mp played
  simp only [Prod.mk.injEq] at eq
  obtain ⟨key, folded, last⟩ := eq
  have run : Run keyAnswer Dispatcher.default Txn.anyStep .empty s := replay_reach replayed
  obtain ⟨label, told⟩ := consumer_get_or_create keyAnswer Dispatcher.default s "t" "c" run
  unfold createdLast at last
  split at last
  · rename_i pid headers uid name code c answered
    obtain ⟨rfl, rfl, rfl⟩ := of_decide_eq_true last
    have created := lastAnswer_mem answered
    obtain ⟨r, found, id, at_⟩ := told pid _ name c key created
    refine ⟨s, pid, _, name, c, run, created, ?_⟩
    rw [folded, found] at label
    have named : r.name = some "n" := congrArg Label.name (Option.some.inj label)
    rw [found, Option.map_some, Consumer.label, id, at_, named]
  · cases last

end Dropless
