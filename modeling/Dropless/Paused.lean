import Dropless.Resolution
import Dropless.Settings
import Dropless.Timeline

/-! Disabling an endpoint while workers are under way. A worker reads the flag once, before
it sends, so a request may still go out after the update that disabled the endpoint; what
is left is what the workers that had read the endpoint by then send, each once. -/
namespace Dropless

open Txn (Durable Reach)

section Once

variable {κ : Prims} {cfg : DispatcherConfig}

def IsPost (op : Op) : Prop := ∃ req, op = .env (.post req)

theorem makes_conclude {α : Type} {result : Except CoreError α → Result} {x : Io α} {op : Op}
    {k : op.Ans → Prog Result} (made : Txn.Makes op k (conclude result x)) :
    ∃ k', Txn.Makes op k' x.run ∧ k = fun ans => conclude result (ExceptT.mk (k' ans)) := by
  rcases Txn.makes_bind made with inner | ⟨r, after⟩
  · exact inner
  · cases after

theorem along_posts (job : Job) :
    Txn.Along (fun now op => IsPost op → ∀ call ∈ now.calls, ¬ IsPost call.1) (fun _ _ => True)
      .start (program κ cfg job) := by
  by_cases worker : ∃ w d, job = .processOne w d
  · obtain ⟨w, d, rfl⟩ := worker
    refine Txn.along_once (fun call none => by cases none) ?_
    rintro _ k ans _ k' ⟨req, rfl⟩ made ⟨req', rfl⟩ again
    obtain ⟨k₁, inner, rfl⟩ := makes_conclude made
    obtain ⟨e, started, rfl⟩ := processOne_posts inner
    obtain ⟨k₂, after, _⟩ := makes_conclude again
    obtain ⟨finished, after⟩ := makes_after after quiet_utcNow
    exact quiet_resolve _ _ after
  · refine ((along_program job).relax ?_).mono fun _ _ _ => trivial
    rintro now _ allowed ⟨req, rfl⟩
    obtain ⟨w, d, _, _, rfl, _⟩ := allowed
    exact (worker ⟨w, d, rfl⟩).elim

def sendsOnce (κ : Prims) (cfg : DispatcherConfig) : Txn.Spec (engine κ cfg) where
  allows _ now op := IsPost op → ∀ call ∈ now.calls, ¬ IsPost call.1
  ensures _ _ _ := True
  along := along_posts

end Once

section Off

variable {κ : Prims} {cfg : DispatcherConfig} {s t : State} {db : Db} {id : Uuid}

def Off (db : Db) (id : Uuid) : Prop := ((db.find? id).map Endpoint.settings).any (·.disabled)

instance : Decidable (Off db id) := inferInstanceAs (Decidable (_ = true))

def reenables (id : Uuid) : Ran → Bool
  | ⟨.updateEndpoint id' _ _ (some false) _, some _⟩ => id' = id
  | _ => false

/-- Steps that do not enable the endpoint. -/
def StaysOff (id : Uuid) (a b : State) : Prop :=
  ∀ x ∈ Txn.durables (Txn.since a b), reenables id x.2 = false

instance (a b : State) : Decidable (StaysOff id a b) :=
  inferInstanceAs (Decidable (∀ x ∈ Txn.durables (Txn.since a b), reenables id x.2 = false))

theorem alone_off {q : Stmt} {out : q.Out} {ws : List Write} {now : Time} {c : List Uuid}
    (exec : q.exec now c db = .ok (out, ws)) (off : Off db id)
    (calm : reenables id (ran q out) = false) : Off (db.apply ws) id := by
  unfold Off at off ⊢
  rw [alone_configured exec]
  generalize found : (Db.find? db id : Option Endpoint) = row at off
  cases row with
  | none => cases off
  | some e =>
    cases q with
    | createEndpoint id' =>
      obtain ⟨rfl, _, inserted⟩ := Store.createEndpoint_ok (Stmt.exec_ok exec)
      obtain ⟨_, free, _⟩ := Store.insert_ok inserted
      simp only [configured]
      split
      · rename_i same
        subst same
        cases (Db.find?_eq_some.mp found).symm.trans free
      · exact off
    | updateEndpoint id' tenant url disabled types =>
      cases out with
      | none => exact off
      | some e' =>
        simp only [configured]
        split
        · rename_i same
          cases disabled with
          | none => exact off
          | some flag =>
            cases flag with
            | true => rfl
            | false =>
              simp only [reenables, same] at calm
              cases calm
        · exact off
    | _ => exact off

theorem step_off (before : Run κ cfg Txn.anyStep db s) (step : Txn.Step (engine κ cfg) s t)
    (calm : StaysOff id s t) (off : Off s.db id) : Off t.db id := by
  cases Txn.step_outcome (Txn.reach_sound (protocol κ cfg) before) step with
  | quiet _ same => exact same ▸ off
  | durable pid p tx op ans same log _ durable =>
    rw [same]
    rcases unit_commits_or_alone durable with commits | ⟨q, out, ws, c, one, exec⟩
    · unfold Off at off ⊢
      rw [committed_settings durable commits]
      exact off
    · have writes : tx.writes = ws := by simp [Txn.Tx.writes, one]
      rw [writes]
      refine alone_off exec off (calm (tx.time, ran q out) ?_)
      have written : t.log = [_, _] ++ s.log := log
      rw [Txn.since_eq written]
      simp [Txn.durables, Txn.Entry.durables, one, Txn.Done.ran]

theorem reach_off (before : Run κ cfg Txn.anyStep db s)
    (later : Reach (engine κ cfg) (StaysOff id) s t) (off : Off s.db id) : Off t.db id := by
  induction later with
  | start => exact off
  | next mid step calm ih =>
    exact step_off (before.trans (mid.weaken fun _ _ _ => trivial)) step calm ih

end Off

section Drain

variable {κ : Prims} {cfg : DispatcherConfig} {s t : State} {db : Db} {id : Uuid} {pid : Pid}
  {p : Proc}

/-- The process has read the endpoint of its delivery, enabled. -/
def Armed (id : Uuid) (p : Proc) : Prop :=
  ∃ e : Endpoint, Told p.calls (.getEndpoint id) (some e) ∧ e.disabled = false

/-- A worker is under way with a delivery of the endpoint, which it has read enabled. -/
def InFlight (s : State) (id : Uuid) (pid : Pid) (d : Delivery) : Prop :=
  ∃ p w, s.procs.lookup pid = some p ∧ p.job = .processOne w d ∧ d.endpointId = id ∧ Armed id p

theorem answered_read {e : Option Endpoint}
    (allowed : allows κ cfg p.job p.past (.stmt (.getEndpoint id)))
    (answered : Txn.Answered (engine κ cfg) s p (.stmt (.getEndpoint id)) (.ok e)) :
    Db.find? s.db id = e := by
  obtain ⟨now, c, ws, exec⟩ := answered
  cases open_ : p.tx with
  | some tx =>
    simp only [allows, Txn.Proc.past, open_, Option.map_some] at allowed
    exact allowed.elim
  | none =>
    rw [Txn.writes_none open_] at exec
    have read : (Stmt.getEndpoint id).run now c s.db = .ok (e, ws) := Stmt.exec_ok exec
    exact congrArg Prod.fst (Except.ok.inj read)

/-- Once the endpoint is disabled, whoever goes on armed was so before, and all that its
process did since, it did in this job. -/
theorem armed_since (before : Run κ cfg Txn.anyStep db s) (off : Off s.db id)
    (later : Reach (engine κ cfg) (StaysOff id) s t) (live : t.procs.lookup pid = some p)
    (armed : Armed id p) :
    (∃ p₀, s.procs.lookup pid = some p₀ ∧ p₀.job = p.job ∧ Armed id p₀) ∧
      ∀ job op ans, .called pid job op ans ∈ Txn.since s t →
        (⟨op, ans⟩ : Σ op : Op, op.Ans) ∈ p.calls := by
  induction later generalizing p with
  | start =>
    refine ⟨⟨p, live, rfl, armed⟩, fun job op ans mem => ?_⟩
    rw [Txn.since_self] at mem
    cases mem
  | @next a b mid step calm ih =>
    have reach := before.trans (mid.weaken fun _ _ _ => trivial)
    have sound := Txn.reach_sound (protocol κ cfg) reach
    obtain ⟨new, log, moved⟩ := Txn.step_moved step live
    have since : Txn.since s b = new ++ Txn.since s a := by
      rw [Txn.since_trans mid (.next .start step calm), Txn.since_eq log]
    rw [since]
    cases moved with
    | same old others =>
      obtain ⟨origin, made⟩ := ih old armed
      refine ⟨origin, fun job op ans mem => ?_⟩
      rcases List.mem_append.mp mem with fresh | mem
      · exact (others _ fresh rfl).elim
      · exact made job op ans mem
    | @called q op ans old job _ calls written _ =>
      obtain ⟨e, told, enabled⟩ := armed
      obtain ⟨allowed, answered⟩ := Txn.called_answered sound step old log written
      have earlier : Armed id q := by
        unfold Told at told
        rw [calls] at told
        rcases List.mem_cons.mp told with head | told
        · cases head
          have off := reach_off before mid off
          rw [Off, answered_read allowed answered] at off
          simp [Endpoint.settings, enabled] at off
        · exact ⟨e, told, enabled⟩
      obtain ⟨⟨p₀, live₀, same, armed₀⟩, made⟩ := ih old earlier
      refine ⟨⟨p₀, live₀, same.trans job.symm, armed₀⟩, fun job' op' ans' mem => ?_⟩
      rw [calls]
      rcases List.mem_append.mp mem with fresh | mem
      · have head : (.called pid job' op' ans' : Entry) = .called pid q.job op ans := by
          rcases written with rfl | ⟨_, _, rfl⟩
          · exact List.mem_singleton.mp fresh
          · rcases List.mem_cons.mp fresh with head | none
            · exact head
            · cases List.mem_singleton.mp none
        cases head
        exact List.mem_cons_self
      · exact List.mem_cons_of_mem _ (made job' op' ans' mem)
    | spawned _ _ calls =>
      obtain ⟨_, told, _⟩ := armed
      simp [Told, calls] at told
    | followed _ _ _ calls =>
      obtain ⟨_, told, _⟩ := armed
      simp [Told, calls] at told

def posted (id : Uuid) : Entry → Option (Pid × Delivery)
  | .called pid (.processOne _ d) (.env (.post _)) _ =>
      if d.endpointId = id then some (pid, d) else none
  | _ => none

theorem posted_some {e : Entry} {x : Pid × Delivery} (h : posted id e = some x) :
    ∃ w req ans, e = .called x.1 (.processOne w x.2) (.env (.post req)) ans ∧
      x.2.endpointId = id := by
  unfold posted at h
  split at h
  · rename_i pid w d req ans
    split at h
    · cases h
      exact ⟨w, req, ans, rfl, ‹_›⟩
    · cases h
  · cases h

theorem posted_armed (reach : Run κ cfg Txn.anyStep db s) (step : Txn.Step (engine κ cfg) s t)
    {new : List Entry} (log : t.log = new ++ s.log) {e : Entry} (mem : e ∈ new)
    {x : Pid × Delivery} (here : posted id e = some x) :
    ∃ p w, s.procs.lookup x.1 = some p ∧ p.job = .processOne w x.2 ∧ x.2.endpointId = id ∧
      Armed id p ∧ ∀ call ∈ p.calls, ¬ IsPost call.1 := by
  obtain ⟨w, req, ans, rfl, own⟩ := posted_some here
  have first := Txn.step_outcome (Txn.reach_sound (sendsOnce κ cfg) reach) step
  have outcome := Txn.step_outcome (Txn.reach_sound (protocol κ cfg) reach) step
  rcases Txn.outcome_entry outcome log mem with
    ⟨p, live, job, allowed, _⟩ | ⟨_, _, _, _, _, eq, _⟩
  · rcases Txn.outcome_entry first log mem with ⟨q, live', _, once, _⟩ | ⟨_, _, _, _, _, eq, _⟩
    · obtain rfl : q = p := Option.some.inj (live'.symm.trans live)
      obtain ⟨w', d', e, now, same, sent⟩ := allowed
      cases same
      exact ⟨q, w, live, job, own, ⟨e, own ▸ sent.passed.endpoint, sent.passed.enabled⟩,
        once ⟨req, rfl⟩⟩
    · cases eq
  · cases eq

/-- After the endpoint was disabled, each process sends at most one request for it, and only
for the delivery that it was under way with. -/
theorem reach_posted (before : Run κ cfg Txn.anyStep db s) (off : Off s.db id)
    (later : Reach (engine κ cfg) (StaysOff id) s t) :
    (((Txn.since s t).filterMap (posted id)).map Prod.fst).Nodup ∧
      ∀ x ∈ (Txn.since s t).filterMap (posted id), InFlight s id x.1 x.2 := by
  induction later with
  | start =>
    rw [Txn.since_self]
    exact ⟨List.nodup_nil, fun x none => by cases none⟩
  | @next a b mid step calm ih =>
    have reach := before.trans (mid.weaken fun _ _ _ => trivial)
    obtain ⟨e, new, log, others⟩ := Txn.step_head step
    have since : Txn.since s b = (e :: new) ++ Txn.since s a := by
      rw [Txn.since_trans mid (.next .start step calm), Txn.since_eq log]
    have rest : new.filterMap (posted id) = [] := by
      refine List.filterMap_eq_nil_iff.mpr fun x mem => Option.eq_none_iff_forall_ne_some.mpr ?_
      intro y here
      obtain ⟨w, req, ans, rfl, _⟩ := posted_some here
      exact others _ _ _ _ mem
    rw [since, List.filterMap_append, List.filterMap_cons]
    cases here : posted id e with
    | none => simpa only [rest, List.nil_append] using ih
    | some x =>
      obtain ⟨p, w, live, job, own, armed, first⟩ :=
        posted_armed reach step log List.mem_cons_self here
      obtain ⟨⟨p₀, live₀, job₀, armed₀⟩, made⟩ := armed_since before off mid live armed
      have new : x.1 ∉ ((Txn.since s a).filterMap (posted id)).map Prod.fst := by
        intro again
        obtain ⟨y, mem, same⟩ := List.mem_map.mp again
        obtain ⟨e', old, here'⟩ := List.mem_filterMap.mp mem
        obtain ⟨w', req, ans, rfl, _⟩ := posted_some here'
        exact first _ (made _ _ ans (same ▸ old)) ⟨req, rfl⟩
      simp only [rest, List.cons_append, List.nil_append, List.map_cons, List.nodup_cons]
      refine ⟨⟨new, ih.1⟩, fun y mem => ?_⟩
      rcases List.mem_cons.mp mem with rfl | mem
      · exact ⟨p₀, w, live₀, job₀.trans job, own, armed₀⟩
      · exact ih.2 y mem

theorem Settles.tried {w : String} {d : Delivery} {calls : Calls} {unit : List Ran}
    {a : DeliveryAttempt} (settles : Settles κ cfg w d calls unit)
    (mem : a ∈ unit.filterMap attemptOf) : ∃ e now req, Tried κ cfg d calls e now req a := by
  cases settles with
  | succeeded tried | failed tried | exhausted tried =>
    obtain rfl := List.mem_singleton.mp (show a ∈ [_] from mem)
    exact ⟨_, _, _, tried⟩
  | hopeless reason => simp [attemptOf] at mem

theorem attempt_armed {tx : Txn.Tx Row Time lang} (durable : Durable (protocol κ cfg) s pid p tx)
    {a : DeliveryAttempt} (mem : a ∈ (tx.done.map Txn.Done.ran).filterMap attemptOf) :
    ∃ w d, p.job = .processOne w d ∧ d.id = a.deliveryId ∧ Armed d.endpointId p := by
  obtain ⟨x, here, eq⟩ := List.mem_filterMap.mp mem
  rcases unit_allowed durable with commits | ⟨one, unit, alone⟩
  · rcases commits.settles_or_files with ⟨w, d, job, settles⟩ | files
    · obtain ⟨e, now, req, tried⟩ := settles.tried mem
      exact ⟨w, d, job, tried.delivery.symm, e, tried.sent.passed.endpoint,
        tried.sent.passed.enabled⟩
    · cases files x here <;> cases eq
  · rw [unit] at here
    obtain rfl := List.mem_singleton.mp here
    obtain ⟨q, out, ws⟩ := one
    cases q with
    | recordAttempt => exact ((alone_outside alone).2.1 rfl).elim
    | _ => cases eq

/-- A worker under way with a delivery of the endpoint has recorded this attempt since. -/
structure Recorded (s t : State) (id : Uuid) (pid : Pid) (w : String) (d : Delivery)
    (a : DeliveryAttempt) : Prop where
  delivery : d.id = a.deliveryId
  unit : ∃ time unit, .applied pid (.processOne w d) time unit ∈ Txn.since s t ∧
    ran (.recordAttempt a) () ∈ unit
  under : d.endpointId = id → InFlight s id pid d

theorem Recorded.grown {u : State} {w : String} {d : Delivery} {a : DeliveryAttempt}
    {new : List Entry} (recorded : Recorded s t id pid w d a)
    (since : Txn.since s u = new ++ Txn.since s t) : Recorded s u id pid w d a := by
  obtain ⟨time, unit, applied, own⟩ := recorded.unit
  have applied := since ▸ List.mem_append_right new applied
  exact ⟨recorded.delivery, ⟨time, unit, applied, own⟩, recorded.under⟩

theorem attemptOf_mem {unit : List Ran} {a : DeliveryAttempt} (mem : a ∈ unit.filterMap attemptOf) :
    ran (.recordAttempt a) () ∈ unit := by
  obtain ⟨⟨q, out⟩, here, eq⟩ := List.mem_filterMap.mp mem
  cases q with
  | recordAttempt => exact Option.some.inj eq ▸ here
  | _ => cases eq

theorem reach_attempted (before : Run κ cfg Txn.anyStep db s) (off : Off s.db id)
    (later : Reach (engine κ cfg) (StaysOff id) s t) {a : DeliveryAttempt}
    (mem : a ∈ Db.all DeliveryAttempt t.db) :
    a ∈ Db.all DeliveryAttempt s.db ∨ ∃ (pid : Pid) (w : String) (d r : Delivery),
      Db.find? t.db a.deliveryId = some r ∧ r.endpointId = d.endpointId ∧
        Recorded s t id pid w d a := by
  induction later with
  | start => exact .inl mem
  | @next x y mid step calm ih =>
    have reach := before.trans (mid.weaken fun _ _ _ => trivial)
    have next : Reach (engine κ cfg) Txn.anyStep x y := .next .start step trivial
    obtain ⟨new, grown⟩ := Txn.reach_log next
    have since : Txn.since s y = new ++ Txn.since s x := by
      rw [Txn.since_trans mid (.next .start step calm), Txn.since_eq grown]
    have older : a ∈ Db.all DeliveryAttempt x.db → a ∈ Db.all DeliveryAttempt s.db ∨
        ∃ (pid : Pid) (w : String) (d r : Delivery), Db.find? y.db a.deliveryId = some r ∧
          r.endpointId = d.endpointId ∧ Recorded s y id pid w d a := by
      intro mem
      rcases ih mem with old | ⟨pid, w, d, r, found, same, recorded⟩
      · exact .inl old
      · obtain ⟨r', found', frozen⟩ := reach_find reach next found
        exact .inr ⟨pid, w, d, r', found', (Delivery.fixed frozen).endpointId.trans same,
          recorded.grown since⟩
    cases Txn.step_outcome (Txn.reach_sound (protocol κ cfg) reach) step with
    | quiet _ same => exact older (same ▸ mem)
    | durable pid p tx op ans same log _ durable =>
      rw [same, all_after (attempts_appended tx.time) durable] at mem
      rcases List.mem_append.mp mem with mem | fresh
      · exact older mem
      · obtain ⟨w, d, job, own, armed⟩ := attempt_armed durable fresh
        obtain ⟨r, found, frozen⟩ := reach_held reach durable.live (holds_job job)
        obtain ⟨r', found', frozen'⟩ := reach_find reach next found
        have fixed := Delivery.fixed (Eq.trans frozen' frozen)
        obtain rfl : new = [_, _] := List.append_cancel_right (grown.symm.trans log)
        have applied : .applied pid (.processOne w d) tx.time (tx.done.map Txn.Done.ran) ∈
            Txn.since s y := by
          rw [since, ← job]
          exact List.mem_cons_of_mem _ List.mem_cons_self
        refine .inr ⟨pid, w, d, r', own ▸ found', fixed.endpointId, own,
          ⟨_, _, applied, attemptOf_mem fresh⟩, ?_⟩
        rintro rfl
        obtain ⟨⟨p₀, live, same, armed₀⟩, _⟩ := armed_since before off mid durable.live armed
        exact ⟨p₀, w, live, same.trans job, rfl, armed₀⟩

end Drain

/-- Disabling an endpoint stops it: until it is enabled again, the only requests for it are
one each from the workers that had read it by then, and each attempt on one of its deliveries
is recorded by such a worker, in a unit of its job for that delivery. -/
theorem disabled_drains (κ : Prims) (cfg : DispatcherConfig) (db : Db) (s t : State) (id : Uuid)
    (run : Run κ cfg Txn.anyStep db s) (off : Off s.db id)
    (later : Reach (engine κ cfg) (StaysOff id) s t) :
    (((Txn.since s t).filterMap (posted id)).map Prod.fst).Nodup ∧
    (∀ x ∈ (Txn.since s t).filterMap (posted id), InFlight s id x.1 x.2) ∧
    ∀ a ∈ Db.all DeliveryAttempt t.db, a ∉ Db.all DeliveryAttempt s.db →
      ∀ r : Delivery, Db.find? t.db a.deliveryId = some r → r.endpointId = id →
        ∃ pid w d time unit, InFlight s id pid d ∧ d.id = a.deliveryId ∧
          .applied pid (.processOne w d) time unit ∈ Txn.since s t ∧
          ran (.recordAttempt a) () ∈ unit := by
  obtain ⟨once, sent⟩ := reach_posted run off later
  refine ⟨once, sent, fun a mem new r found own => ?_⟩
  rcases reach_attempted run off later mem with old | ⟨pid, w, d, r', found', same, recorded⟩
  · exact (new old).elim
  · obtain rfl : r' = r := Option.some.inj (found'.symm.trans found)
    obtain ⟨time, unit, applied, row⟩ := recorded.unit
    exact ⟨pid, w, d, time, unit, recorded.under (same.symm.trans own), recorded.delivery, applied,
      row⟩

def disabledLate : List Move × List Move :=
  (published ++ .spawn (.worker 0 0) (.claim (workerId 0)) ::
      go 4 (.worker 0 0) 1 4 (.error "refused") ++
    .spawn (.client 0) (.updateEndpoint 1 "t" none (some true) none) ::
      go 2 (.client 0) 2 5 (.error ""),
   go 14 (.worker 0 0) 3 6 (.error "refused") ++
    .spawn (.worker 0 1) (.claim (workerId 1)) ::
      go 6 (.worker 0 1) 40000000 7 (.error "refused"))

theorem disabled_drains_late : ∃ (s t : State) (d : Delivery),
    Run plain Dispatcher.default Txn.anyStep .empty s ∧ Off s.db 1 ∧
    Reach (engine plain Dispatcher.default) (StaysOff 1) s t ∧
    ((Txn.since s t).filterMap (posted 1)).map Prod.fst = [.worker 0 0] ∧
    InFlight s 1 (.worker 0 0) d ∧
    (Db.all Delivery t.db).map (fun r => (r.attemptCount, r.nextAttemptAt)) =
      [(1, 100000000)] := by
  have played : ((replay plain Dispatcher.default (.start .empty) disabledLate.1).bind fun s =>
      (Txn.play (engine plain Dispatcher.default) (fun a b => decide (StaysOff 1 a b)) s
        disabledLate.2).map fun t => (decide (Off s.db 1),
          ((Txn.since s t).filterMap (posted 1)).map Prod.fst,
          (Db.all Delivery t.db).map fun r => (r.attemptCount, r.nextAttemptAt))) =
      some (true, [.worker 0 0], [(1, 100000000)]) := by decide +kernel
  obtain ⟨s, first, rest⟩ := Option.bind_eq_some_iff.mp played
  obtain ⟨t, second, eq⟩ := Option.map_eq_some_iff.mp rest
  simp only [Prod.mk.injEq, decide_eq_true_eq] at eq
  obtain ⟨off, sent, rows⟩ := eq
  have run : Run plain Dispatcher.default Txn.anyStep .empty s := replay_reach first
  have later : Reach (engine plain Dispatcher.default) (StaysOff 1) s t :=
    Txn.play_reach (fun _ _ ok => of_decide_eq_true ok) second
  obtain ⟨_, under, _⟩ := disabled_drains plain Dispatcher.default .empty s t 1 run off later
  obtain ⟨x, mem, who⟩ := List.mem_map.mp (sent ▸ List.mem_singleton_self (Pid.worker 0 0))
  exact ⟨s, t, x.2, run, off, later, sent, who ▸ under x mem, rows⟩

end Dropless
