import Dropless.Scenario

namespace Dropless

open Txn (Durable Reach anyStep)

inductive Standing where
  | waiting
  | held
  | delivered
  | buried
deriving DecidableEq

/-- Where a delivery stands. A waiting or held row says when it can be claimed; a
delivered one has its 2xx answer in the attempt log and in the run. -/
def Stands (db : Db) (log : List Entry) (d : Delivery) : Standing → Prop
  | .waiting => (d.status = .pending ∨ d.status = .failed) ∧ d.lockedBy = none ∧
      d.lockedUntil = none ∧ ∀ now, d.nextAttemptAt ≤ now → Store.due now d = true
  | .held => d.status = .inProgress ∧ d.lockedBy.isSome ∧
      ∃ deadline, d.lockedUntil = some deadline ∧ ∀ now, deadline < now → Store.due now d = true
  | .delivered => d.status = .succeeded ∧ d.lockedBy = none ∧ d.lockedUntil = none ∧
      ∃ a ∈ Db.all DeliveryAttempt db, a.deliveryId = d.id ∧
        ∃ pid w snapshot req resp,
          .called pid (.processOne w snapshot) (.env (.post req)) (.ok resp) ∈ log ∧
          req.webhookId = uuidText d.id ∧ resp.isSuccess = true ∧ a.statusCode = some resp.code
  | .buried => d.status = .dead ∧ d.lockedBy = none ∧ d.lockedUntil = none ∧
      ∃ l ∈ Db.all DeadLetter db, l.deliveryId = d.id

section Standing

variable {db db' : Db} {log log' : List Entry} {d : Delivery}

theorem Stands.unique {k l : Standing} (h : Stands db log d k) (g : Stands db log d l) : k = l := by
  cases k <;> cases l <;> first
    | rfl
    | (have status := h.1; have status' := g.1; simp_all)

theorem Stands.mono {k : Standing} (h : Stands db log d k)
    (attempts : Db.all DeliveryAttempt db ⊆ Db.all DeliveryAttempt db')
    (letters : Db.all DeadLetter db ⊆ Db.all DeadLetter db') (grows : log ⊆ log') :
    Stands db' log' d k := by
  cases k with
  | waiting => exact h
  | held => exact h
  | delivered =>
    obtain ⟨status, by_, until_, a, ha, own, pid, w, snap, req, resp, called, rest⟩ := h
    exact ⟨status, by_, until_, a, attempts ha, own, pid, w, snap, req, resp, grows called, rest⟩
  | buried =>
    obtain ⟨status, by_, until_, l, hl, own⟩ := h
    exact ⟨status, by_, until_, l, letters hl, own⟩

theorem stands_waiting (status : d.status = .pending ∨ d.status = .failed)
    (by_ : d.lockedBy = none) (until_ : d.lockedUntil = none) : Stands db log d .waiting := by
  refine ⟨status, by_, until_, fun now late => ?_⟩
  simp only [Store.due, decide_eq_true_eq]
  exact .inl ⟨status, late⟩

end Standing

section Invariant

variable {κ : Prims} {cfg : DispatcherConfig} {cond : State → State → Prop} {s t : State}

theorem signatureHeaders_id {secret id : String} {timestamp : Int64} {body : Bytes}
    {headers : Signing.SignatureHeaders}
    (h : Signing.signatureHeaders κ secret id timestamp body = .ok headers) : headers.id = id := by
  simp only [Signing.signatureHeaders, bind_ok] at h
  obtain ⟨sig, _, eq⟩ := h
  cases eq
  rfl

theorem Sent.webhookId {d : Delivery} {calls : Calls} {e : Endpoint} {now : Time} {req : Request}
    (h : Sent κ cfg d calls e now req) : req.webhookId = uuidText d.id := by
  obtain ⟨ev, body, headers, _, _, signed, rfl⟩ := h.made
  exact signatureHeaders_id signed

theorem turn_stands {pid : Pid} {p : Proc} {tx : Txn.Tx Row Time lang} {b : Option Delivery}
    {r : Delivery} {log : List Entry} (sound : Txn.Sound (protocol κ cfg) s)
    (durable : Durable (protocol κ cfg) s pid p tx) (grows : s.log ⊆ log)
    (turn : Turn κ cfg p.calls tx.time p.job (tx.done.map Txn.Done.ran) b r) :
    ∃ k, Stands (s.db.apply tx.writes) log r k := by
  have attempts := all_after (attempts_appended tx.time) durable
  have letters := all_after (deadLetters_appended tx.time) durable
  have logged := (sound.each pid p durable.live).logged
  generalize unit : tx.done.map Txn.Done.ran = done at turn attempts letters
  generalize job : p.job = job' at turn
  cases turn with
  | published => exact ⟨.waiting, stands_waiting (.inl rfl) rfl rfl⟩
  | claimed first due mem =>
    refine ⟨.held, rfl, rfl, _, rfl, fun now late => ?_⟩
    simp only [Store.due, decide_eq_true_eq]
    exact .inr ⟨rfl, decide_eq_true late⟩
  | @succeeded w d e at_ req a r tried succeeded same leased =>
    obtain ⟨_, resp, heard, ok, code⟩ := succeeded
    refine ⟨.delivered, rfl, rfl, rfl, a, ?_, tried.delivery.trans same.symm, pid, w, d, req,
      resp, ?_⟩
    · rw [attempts]
      exact List.mem_append_right _ List.mem_cons_self
    · refine ⟨grows (job ▸ logged _ heard), ?_, ok, code⟩
      rw [tried.sent.webhookId]
      exact congrArg uuidText same.symm
  | failed => exact ⟨.waiting, stands_waiting (.inr rfl) rfl rfl⟩
  | @exhausted w d e at_ req a error fresh t r tried failed spent same leased =>
    refine ⟨.buried, rfl, rfl, rfl, ⟨fresh, d.id, d.eventId, d.endpointId, error, tx.time⟩, ?_,
      same.symm⟩
    rw [letters]
    exact List.mem_append_right _ List.mem_cons_self
  | @hopeless w d reason fresh r hopeless same leased =>
    refine ⟨.buried, rfl, rfl, rfl, ⟨fresh, d.id, d.eventId, d.endpointId, reason, tx.time⟩, ?_,
      same.symm⟩
    rw [letters]
    exact List.mem_append_right _ List.mem_cons_self
  | deferred => exact ⟨.waiting, stands_waiting (.inr rfl) rfl rfl⟩
  | reset => exact ⟨.waiting, stands_waiting (.inl rfl) rfl rfl⟩

theorem reach_stands (reach : Run κ cfg cond .empty s) :
    ∀ id d, Db.find? s.db id = some d → ∃ k, Stands s.db s.log d k := by
  refine Txn.reach_invariant (protocol κ cfg)
    (fun db log => ∀ id d, Db.find? db id = some d → ∃ k, Stands db log d k) ?_ ?_ reach
  · intro id d none
    cases none
  · intro s t before sound good ok outcome id d found
    cases outcome with
    | quiet es same log noted =>
      rw [same] at found ⊢
      obtain ⟨k, stands⟩ := good id d found
      exact ⟨k, stands.mono (fun _ h => h) (fun _ h => h) (log ▸ List.subset_append_right _ _)⟩
    | durable pid p tx op ans same log noted durable _ =>
      have grows : s.log ⊆ t.log := log ▸ List.subset_append_right [_, _] _
      rw [same] at found ⊢
      rcases delivery_turn durable found with old | turn
      · obtain ⟨k, stands⟩ := good id d old
        refine ⟨k, stands.mono ?_ ?_ grows⟩
        · rw [all_after (attempts_appended tx.time) durable]
          exact List.subset_append_left _ _
        · rw [all_after (deadLetters_appended tx.time) durable]
          exact List.subset_append_left _ _
      · exact turn_stands sound durable grows turn

/-- A delivery that was ever committed is in every later state, for the same event and
endpoint, and stands in exactly one way. -/
theorem no_delivery_lost (κ : Prims) (cfg : DispatcherConfig) {s t : State} {id : Uuid}
    {d : Delivery} (before : Run κ cfg anyStep .empty s)
    (later : Reach (engine κ cfg) anyStep s t) (committed : Db.find? s.db id = some d) :
    ∃ d', Db.find? t.db id = some d' ∧ d'.id = d.id ∧ d'.eventId = d.eventId ∧
      d'.endpointId = d.endpointId ∧ ∃! k, Stands t.db t.log d' k := by
  obtain ⟨d', found, same⟩ := reach_find before later committed
  obtain ⟨k, stands⟩ := reach_stands (before.trans later) id d' found
  have same := Delivery.fixed same
  refine ⟨d', found, same.id, same.eventId, same.endpointId, k, stands, ?_⟩
  exact fun l other => other.unique stands

theorem no_delivery_lost_delivered :
    ∃ (s t : State) (d : Delivery), Run plain Dispatcher.default anyStep .empty s ∧
    Reach (engine plain Dispatcher.default) anyStep s t ∧ Db.find? s.db 3 = some d ∧
    d.status = .pending ∧ ∃ d', Db.find? t.db 3 = some d' ∧ ∃! k, Stands t.db t.log d' k := by
  have played : ((replay plain Dispatcher.default (.start .empty) published).bind fun s =>
      (replay plain Dispatcher.default s
        (attempted (.worker 0 0) 0 1 4 (.ok ⟨200, "ok"⟩))).bind fun t =>
      (Db.find? s.db 3).bind fun d : Delivery =>
      if d.status = .pending then some (s, t, d) else none).isSome := by
    decide
  obtain ⟨⟨s, t, d⟩, played⟩ := Option.isSome_iff_exists.mp played
  simp only [Option.bind_eq_some_iff, Option.ite_none_right_eq_some] at played
  obtain ⟨_, before, _, later, _, found, pending, eq⟩ := played
  cases eq
  obtain ⟨d', found', _, _, _, stands⟩ := no_delivery_lost plain Dispatcher.default
    (replay_reach before) (replay_reach later) found
  exact ⟨s, t, d, replay_reach before, replay_reach later, found, pending, d', found', stands⟩

end Invariant

end Dropless
