import Dropless.Performed
import Dropless.Effects
import Dropless.Text
import Dropless.Scenario

/-! The transaction that follows a POST. Whatever the subscriber answered and whatever
happened to the database in between, a worker that still holds its lease resolves the
delivery in one transaction, exactly when the snippet it keeps of the answer is a text
that Postgres takes. -/
namespace Dropless

open Dispatcher

section Posts

variable {κ : Prims} {cfg : DispatcherConfig} {w : String} {d : Delivery} {e : Endpoint}

/- Every call that a program can come to is of this kind. -/
def Only {α : Type} (may : Op → Prop) (x : Io α) : Prop := ∀ op k, Txn.Makes op k x.run → may op

def Quiet : Op → Prop
  | .env (.post _) | .stmt (.deferDelivery ..) => False
  | _ => True

section Rules

variable {α β : Type} {may : Op → Prop}

theorem only_pure (a : α) : Only may (pure a : Io α) := fun _ _ made => nomatch made

theorem only_query {q : Stmt} (ok : may (.stmt q)) : Only may (query q) :=
  fun _ _ made => Txn.makes_once made ▸ ok

theorem only_begin (ok : may .begin) : Only may begin := fun _ _ made => Txn.makes_once made ▸ ok

theorem only_commit (ok : may .commit) : Only may commit :=
  fun _ _ made => Txn.makes_once made ▸ ok

theorem only_rollback (ok : may .rollback) : Only may rollback :=
  fun _ _ made => Txn.makes_once made ▸ ok

theorem only_ask {c : Call} (ok : may (.env c)) : Only may (ask c) :=
  fun _ _ made => Txn.makes_once made ▸ ok

theorem only_bind {x : Io α} {f : α → Io β} (first : Only may x) (rest : ∀ a, Only may (f a)) :
    Only may (x >>= f) := by
  intro op k made
  rcases Txn.makes_then made with ⟨k', inner, _⟩ | ⟨a, after⟩
  · exact first op k' inner
  · exact rest a op k after

theorem makes_after {x : Io α} {f : α → Io β} {req : Request}
    {k : (Txn.Op.env (.post req) : Op).Ans → Prog (Except CoreError β)}
    (made : Txn.Makes (.env (.post req) : Op) k (x >>= f).run) (first : Only Quiet x) :
    ∃ a, Txn.Makes (.env (.post req) : Op) k (f a).run := by
  rcases Txn.makes_then made with ⟨k', inner, _⟩ | after
  · exact (first _ k' inner).elim
  · exact after

end Rules

theorem quiet_utcNow : Only Quiet utcNow := only_ask trivial

theorem quiet_recordAttempt {id : Uuid} {n : Int32} {code : Option Int32}
    {snippet error : Option String} {started finished : Time} :
    Only Quiet (recordAttempt id n code snippet error started finished) :=
  only_bind (only_ask trivial) fun _ => only_query trivial

theorem quiet_markDeadOn {reason : String} : Only Quiet (markDeadOn d w reason) := by
  refine only_bind (only_query trivial) fun applied => ?_
  cases applied with
  | true =>
    refine only_bind (only_ask trivial) fun _ => only_bind (only_query ?_) fun _ => only_pure _
    trivial
  | false => exact only_pure _

theorem quiet_markDead {reason : String} : Only Quiet (markDead d w reason) := by
  refine only_bind (only_begin trivial) fun _ => only_bind quiet_markDeadOn fun applied => ?_
  cases applied with
  | true => exact only_commit trivial
  | false => exact only_rollback trivial

theorem quiet_backoff {p : RetryPolicy} {n : Int32} : Only Quiet (backoff p n) := by
  unfold backoff
  split
  · exact only_pure _
  · exact only_bind (only_ask trivial) fun _ => only_pure _

theorem quiet_failed {n : Int32} {error : String} : Only Quiet (failed cfg w d n error) := by
  unfold failed
  split
  · exact quiet_markDeadOn
  · refine only_bind (only_ask trivial) fun _ => only_bind quiet_backoff fun _ => ?_
    exact only_query trivial

theorem quiet_fail {n : Int32} {code : Option Int32} {snippet : Option String} {error : String}
    {started finished : Time} :
    Only Quiet (fail cfg w d e n code snippet error started finished) := by
  refine only_bind (only_begin trivial) fun _ => only_bind quiet_recordAttempt fun _ => ?_
  refine only_bind quiet_failed fun applied => ?_
  cases applied with
  | true =>
    refine only_bind quiet_utcNow fun _ => only_bind (only_query ?_) fun _ => only_commit trivial
    trivial
  | false => exact only_rollback trivial

theorem quiet_succeed {n code : Int32} {snippet : String} {started finished : Time} :
    Only Quiet (succeed w d e n code snippet started finished) := by
  refine only_bind (only_begin trivial) fun _ => only_bind quiet_recordAttempt fun _ => ?_
  refine only_bind (only_query trivial) fun applied => ?_
  cases applied with
  | true => exact only_bind (only_query trivial) fun _ => only_commit trivial
  | false => exact only_rollback trivial

theorem quiet_resolve {n : Int32} {started finished : Time} {result : Except String Response} :
    Only Quiet (resolve cfg w d e n started finished result) := by
  cases result with
  | error err => exact quiet_fail
  | ok resp =>
    simp only [resolve]
    split
    · exact quiet_succeed
    · exact quiet_fail

theorem only_deliver {now : Time} :
    Only (fun op => Quiet op ∨ ∃ req, op = .env (.post req)) (deliver κ cfg w d e now) := by
  have still {α : Type} {x : Io α} (quiet : Only Quiet x) :
      Only (fun op => Quiet op ∨ ∃ req, op = .env (.post req)) x :=
    fun op k made => .inl (quiet op k made)
  refine only_bind (still (only_query trivial)) fun found => ?_
  cases found with
  | none => exact still quiet_markDead
  | some event =>
    simp only
    split
    · exact still quiet_markDead
    · split
      · exact still quiet_markDead
      · refine only_bind (still (only_ask trivial)) fun started => ?_
        refine only_bind (only_ask (.inr ⟨_, rfl⟩)) fun result => ?_
        exact still (only_bind (only_ask trivial) fun finished => quiet_resolve)

/- What a worker does with the answer to a POST. -/
def afterPost (cfg : DispatcherConfig) (w : String) (d : Delivery) (e : Endpoint) (started : Time)
    (result : Except String Response) : Io Unit := do
  let finished ← utcNow
  resolve cfg w d e (d.attemptCount + 1) started finished result

variable {req : Request} {k : Except String Response → Prog (Except CoreError Unit)}

theorem deliver_posts {now : Time}
    (made : Txn.Makes (.env (.post req) : Op) k (deliver κ cfg w d e now).run) :
    ∃ started, k = fun result => (afterPost cfg w d e started result).run := by
  obtain ⟨found, made⟩ := makes_after made (only_query trivial)
  cases found with
  | none => exact (quiet_markDead _ _ made).elim
  | some event =>
    simp only at made
    split at made
    · exact (quiet_markDead _ _ made).elim
    · split at made
      · exact (quiet_markDead _ _ made).elim
      · obtain ⟨started, made⟩ := makes_after made quiet_utcNow
        rcases Txn.makes_then made with ⟨k', inner, eq⟩ | ⟨result, after⟩
        · cases inner with
          | here => exact ⟨started, eq⟩
          | later ans rest => cases rest
        · obtain ⟨finished, made⟩ := makes_after after quiet_utcNow
          exact (quiet_resolve _ _ made).elim

/-- Every POST of `process_one` is followed by its outcome. -/
theorem processOne_posts (made : Txn.Makes (.env (.post req) : Op) k (processOne κ cfg w d).run) :
    ∃ e started, k = fun result => (afterPost cfg w d e started result).run := by
  obtain ⟨now, made⟩ := makes_after made quiet_utcNow
  obtain ⟨found, made⟩ := makes_after made (only_query trivial)
  cases found with
  | none => exact (quiet_markDead _ _ made).elim
  | some e =>
    have deferred : ∀ next, Only (fun op => ¬ ∃ req, op = .env (.post req))
        (Dispatcher.deferDelivery d w next) := fun next =>
      only_bind (only_query fun post => nomatch post) fun _ => only_pure _
    simp only [consult] at made
    split at made
    · exact (deferred _ _ _ made ⟨_, rfl⟩).elim
    · split at made
      · exact (deferred _ _ _ made ⟨_, rfl⟩).elim
      · obtain ⟨acquired, made⟩ := makes_after made (only_query trivial)
        cases acquired with
        | true => exact ⟨e, deliver_posts made⟩
        | false => exact (deferred _ _ _ made ⟨_, rfl⟩).elim
      · exact ⟨e, deliver_posts made⟩

end Posts

section Outcome

variable {κ : Prims} {cfg : DispatcherConfig} {W : World} {db : Db} {n m : Nat} {t : Time}
  {done : List (Txn.Done Row lang)} {us : List (List Ran)} {w : String} {d r : Delivery}
    {e : Endpoint}

theorem underLease_held {v : Db} {id : Uuid} (set : Delivery → Delivery)
    (found : v.find? id = some r) (leased : Store.leased w t r = true) :
    Store.underLease id w set t v = (true, [Store.amended r (Store.released t (set r))]) := by
  simp [Store.underLease, Store.update, found, leased, Store.released]

theorem perform_record (κ : Prims) (cfg : DispatcherConfig) (t : Time) (us : List (List Ran))
    (num : Int32) (code : Option Int32) (snippet error : Option String)
    (started finished : Time) {id : Uuid} (fresh : Fresh W n m db) (drawn : n < m)
    (found : db.find? id = some r) (free : ∀ s ∈ snippet.toList ++ error.toList, nulFree s) :
    perform κ cfg W (.inside n db t [] us)
      (recordAttempt id num code snippet error started finished) =
      (.ok (), .inside (n + 2) db t [⟨.recordAttempt
        ⟨W.answer n .newUuid, id, num, code, snippet, error, started, finished⟩, (), [⟨none, .attempt
          ⟨W.answer n .newUuid, id, num, code, snippet, error, started, finished⟩⟩]⟩] us) := by
  generalize row : (⟨W.answer n .newUuid, id, num, code, snippet, error, started, finished⟩ :
    DeliveryAttempt) = a
  have ran : (Stmt.recordAttempt a).exec t W.choice db = .ok ((), [⟨none, .attempt a⟩]) := by
    have own : a.deliveryId = id := row ▸ rfl
    have new : db.find? a.id = (none : Option DeliveryAttempt) :=
      row ▸ fresh.find drawn (Nat.le_refl n)
    have stored : Store.insert db a = .ok [⟨none, .attempt a⟩] :=
      insert_fresh new (admits_plain rfl)
    rw [exec_admitted (q := .recordAttempt a) (row ▸ free)]
    simp only [Stmt.run, Store.recordAttempt, own, references_ok found, stored]
    rfl
  rw [recordAttempt, newUuid, perform_ask, row]
  exact perform_first ran

theorem perform_record_refused (num : Int32) (code : Option Int32) (snippet error : Option String)
    (started finished : Time) {id : Uuid} {s : String} (mem : s ∈ snippet.toList)
    (nul : ¬ nulFree s) :
    perform κ cfg W (.inside n db t [] us)
      (recordAttempt id num code snippet error started finished) =
      (.error (.db .other), .outside (n + 2) db us) := by
  rw [recordAttempt, newUuid, perform_ask]
  exact perform_first_error (exec_refused (List.mem_append_left _ mem) nul)

theorem perform_circuit (κ : Prims) (cfg : DispatcherConfig) (W : World) (n : Nat) (db : Db)
    (t : Time) (done : List (Txn.Done Row lang)) (us : List (List Ran)) (id : Uuid)
    {u : CircuitUpdate}
    (free : nulFree u.state) : ∃ ws,
      (view db done).Valid ws ∧ (∀ v ∈ ws, v.after.key.table = .endpoints) ∧
      perform κ cfg W (.inside n db t done us) (Dispatcher.updateCircuit id u) =
        (.ok (), .inside (n + 1) db t
        (done ++ [⟨.updateCircuit id u.state u.openUntil u.consecutiveFailures, (), ws⟩]) us) := by
  have ran : (Stmt.updateCircuit id u.state u.openUntil u.consecutiveFailures).exec t W.choice
      (view db done) = .ok (Store.updateCircuit id u.state u.openUntil u.consecutiveFailures t
        (view db done)) := exec_admitted fun s mem => List.mem_singleton.mp mem ▸ free
  have shape := Stmt.exec_shape ran
  refine ⟨_, shape.valid, fun v mem => ?_, perform_query ran⟩
  exact (Option.some.inj (shape.in_table v mem)).symm

theorem onFailure_free (policy : CircuitPolicy) (now : Time) :
    nulFree (Circuit.onFailure e policy now).state := by
  have closed : nulFree "closed" := by decide
  have open_ : nulFree "open" := by decide
  simp only [Circuit.onFailure]
  split
  · exact open_
  · exact closed

theorem found_recorded (a : DeliveryAttempt) (found : db.find? d.id = some r) :
    Db.find? (db.put (.attempt a)) d.id = some r :=
  (Db.find?_put_outside (admits_plain rfl) (fun same => Table.noConfusion same) _).trans found

theorem amended_fits (a : DeliveryAttempt) {r' : Delivery} (found : db.find? d.id = some r)
    (kept : (Row.delivery r').frozen = (Row.delivery r).frozen) :
    (db.put (.attempt a)).Admits (.delivery r') := by
  refine (Txn.Store.amends_accepts ?_ (Row.amends_of_frozen kept)).2
  exact Txn.Store.get?_of_mem (Txn.Store.get?_some (Db.find?_eq_some.mp (found_recorded a found))).1

theorem found_amended (a : DeliveryAttempt) {r' : Delivery} (found : db.find? d.id = some r)
    (kept : (Row.delivery r').frozen = (Row.delivery r).frozen) :
    Db.find? ((db.put (.attempt a)).put (.delivery r')) d.id = some r' := by
  have key : (Row.delivery r').key = (Row.delivery r).key := (Row.amends_of_frozen kept).1
  have same : r'.id = d.id := (congrArg Key.id key).trans (Db.find?_id found)
  exact (Db.find?_put (a := r') (amended_fits a found kept) d.id).trans (if_pos same)

/-- What an outcome leaves on top of its attempt: a new version of the delivery, and writes to
other tables. -/
structure Leaves (db : Db) (a : DeliveryAttempt) (r : Delivery) (status : DeliveryStatus)
    (r' : Delivery) (rest : List Write) (v : Db) : Prop where
  rows : v = ((db.put (.attempt a)).put (.delivery r')).apply rest
  valid : ((db.put (.attempt a)).put (.delivery r')).Valid rest
  other : ∀ w ∈ rest, w.after.key.table ≠ .deliveries ∧ w.after.key.table ≠ .deliveryAttempts
  kept : (Row.delivery r').frozen = (Row.delivery r).frozen
  status : r'.status = status

namespace Leaves

variable {a : DeliveryAttempt} {status : DeliveryStatus} {r' : Delivery} {rest : List Write}
  {v : Db}

theorem attempts (leaves : Leaves db a r status r' rest v)
    (new : db.find? a.id = (none : Option DeliveryAttempt)) (found : db.find? d.id = some r) :
    Db.all DeliveryAttempt v = Db.all DeliveryAttempt db ++ [a] := by
  rw [leaves.rows, Db.all_apply_outside leaves.valid fun v mem => (leaves.other v mem).2,
    Db.all_put_outside (amended_fits a found leaves.kept) fun same => Table.noConfusion same]
  exact Db.all_put_fresh (a := a) (Db.find?_none.mp new) (admits_plain rfl)

theorem row (leaves : Leaves db a r status r' rest v) (found : db.find? d.id = some r) :
    Db.find? v d.id = some r' := by
  rw [leaves.rows, Db.find?_apply_outside leaves.valid fun v mem => (leaves.other v mem).1]
  exact found_amended a found leaves.kept

theorem more (leaves : Leaves db a r status r' rest v) {ws : List Write} (valid : v.Valid ws)
    (other : ∀ w ∈ ws, w.after.key.table ≠ .deliveries ∧ w.after.key.table ≠ .deliveryAttempts) :
    Leaves db a r status r' (rest ++ ws) (v.apply ws) where
  rows := by rw [leaves.rows, Txn.Store.apply_append]
  valid := Txn.Store.valid_append.mpr ⟨leaves.valid, leaves.rows ▸ valid⟩
  other v mem := (List.mem_append.mp mem).elim (leaves.other v) (other v)
  kept := leaves.kept
  status := leaves.status

end Leaves

/-- The delivery is out of progress in one transaction, with one more attempt. -/
structure Resolved (d : Delivery) (status : DeliveryStatus) (db : Db) (us : List (List Ran))
    (ended : Except CoreError Unit × Scene) : Prop where
  returned : ended.1 = .ok ()
  once : ∃ unit, ended.2.units = unit :: us
  attempt : ∃ a : DeliveryAttempt, Db.all DeliveryAttempt ended.2.db =
    Db.all DeliveryAttempt db ++ [a] ∧ a.deliveryId = d.id ∧ a.attemptNumber = d.attemptCount + 1
  row : ∃ r : Delivery, Db.find? ended.2.db d.id = some r ∧ r.status = status

variable (κ cfg us)

theorem perform_settle {a : DeliveryAttempt} {r' : Delivery} {rest : List Write}
    {status : DeliveryStatus} (leaves : Leaves db a r status r' rest (view db done))
    (number : a.deliveryId = d.id ∧ a.attemptNumber = d.attemptCount + 1)
    (new : db.find? a.id = (none : Option DeliveryAttempt)) (found : db.find? d.id = some r)
    (id : Uuid) {u : CircuitUpdate} (free : nulFree u.state) :
    Resolved d status db us (perform κ cfg W (.inside n db t done us) (do
      Dispatcher.updateCircuit id u
      commit)) := by
  obtain ⟨ws, valid, endpoints, ran⟩ := perform_circuit κ cfg W n db t done us id free
  have whole := leaves.more valid fun v mem => by
    rw [endpoints v mem]
    exact ⟨nofun, nofun⟩
  rw [← view_push db done ⟨.updateCircuit id u.state u.openUntil u.consecutiveFailures, (), ws⟩]
    at whole
  rw [perform_bind_ok ran]
  exact ⟨rfl, ⟨_, rfl⟩, ⟨a, whole.attempts new found, number⟩, r', whole.row found, whole.status⟩

theorem perform_succeed (e : Endpoint) (code : Int32) {snippet : String} (started finished : Time)
    (fresh : Fresh W n m db) (drawn : n + 1 < m) (worker : nulFree w)
    (found : db.find? d.id = some r) (leased : Store.leased w (W.time n) r = true)
    (free : nulFree snippet) :
    Resolved d .succeeded db us (perform κ cfg W (.outside n db us)
      (succeed w d e (d.attemptCount + 1) code snippet started finished)) := by
  have recorded := perform_record κ cfg (W.time n) us (d.attemptCount + 1) (some code)
    (some snippet) none started finished (fresh.later (Nat.le_succ n)) drawn found (by simpa using free)
  have new : db.find? (W.answer (n + 1) .newUuid) = (none : Option DeliveryAttempt) :=
    fresh.find drawn (Nat.le_succ n)
  generalize row : (⟨W.answer (n + 1) .newUuid, d.id, d.attemptCount + 1, some code,
    some snippet, none, started, finished⟩ : DeliveryAttempt) = a at recorded
  generalize set : Store.released (W.time n)
    { r with status := .succeeded, attemptCount := d.attemptCount + 1, lastError := none } = r'
  have marked : (Stmt.markSucceeded d.id w (d.attemptCount + 1)).exec (W.time n) W.choice
      (view db [⟨.recordAttempt a, (), [⟨none, .attempt a⟩]⟩]) =
        .ok (true, [Store.amended r r']) := by
    rw [exec_admitted (q := .markSucceeded ..) (List.forall_mem_singleton.mpr worker), ← set]
    exact congrArg Except.ok (underLease_held _ (found_recorded a found) leased)
  rw [succeed, perform_begin, perform_bind_ok recorded, perform_bind_ok (perform_query marked)]
  have leaves : Leaves db a r .succeeded r' []
    (view db [⟨.recordAttempt a, (), [⟨none, .attempt a⟩]⟩,
      ⟨.markSucceeded d.id w (d.attemptCount + 1), true, [Store.amended r r']⟩]) :=
    ⟨rfl, trivial, fun v none => (List.not_mem_nil none).elim, set ▸ rfl, set ▸ rfl⟩
  exact perform_settle κ cfg us leaves (row ▸ ⟨rfl, rfl⟩) (row ▸ new) found e.id (by decide)

theorem perform_dead {a : DeliveryAttempt} {reason : String}
    (seen : view db done = db.put (.attempt a)) (fresh : Fresh W n m (db.put (.attempt a)))
    (drawn : n + 1 < m) (worker : nulFree w)
    (free : nulFree reason) (found : db.find? d.id = some r) (leased : Store.leased w t r = true) :
    ∃ n' more rest r', perform κ cfg W (.inside n db t done us) (markDeadOn d w reason) =
        (.ok true, .inside n' db t (done ++ more) us) ∧
      Leaves db a r .dead r' rest (view db (done ++ more)) := by
  obtain ⟨r', set⟩ : ∃ r', r' =
    Store.released t { r with status := .dead, lastError := some reason } := ⟨_, rfl⟩
  have kept : (Row.delivery r').frozen = (Row.delivery r).frozen := set ▸ rfl
  let first : Txn.Done Row lang := ⟨.markDeadUpdate d.id w reason, true, [Store.amended r r']⟩
  have texts : ∀ s ∈ [w, reason], nulFree s :=
    List.forall_mem_cons.mpr ⟨worker, List.forall_mem_singleton.mpr free⟩
  have marked : (Stmt.markDeadUpdate d.id w reason).exec t W.choice (view db done) =
      .ok (true, [Store.amended r r']) := by
    rw [exec_admitted (q := .markDeadUpdate ..) texts, seen, set]
    exact congrArg Except.ok (underLease_held _ (found_recorded a found) leased)
  have leaves : Leaves db a r .dead r' [] (view db (done ++ [first])) := by
    refine ⟨?_, trivial, fun v none => (List.not_mem_nil none).elim, kept, set ▸ rfl⟩
    rw [view_push, seen]
    rfl
  obtain ⟨letter, row⟩ : ∃ letter : DeadLetter, letter =
    ⟨W.answer (n + 1) .newUuid, d.id, d.eventId, d.endpointId, some reason, t⟩ := ⟨_, rfl⟩
  have new : Db.find? (view db (done ++ [first])) letter.id = (none : Option DeadLetter) := by
    rw [leaves.rows, row]
    exact (Db.find?_put_outside (amended_fits a found kept) (fun same => Table.noConfusion same)
      _).trans (fresh.find drawn (Nat.le_succ n))
  have stored : Store.insert (view db (done ++ [first])) letter =
      .ok [⟨none, .deadLetter letter⟩] :=
    insert_fresh new (admits_plain rfl)
  have buried : (Stmt.insertDeadLetter (W.answer (n + 1) .newUuid) d.id d.eventId d.endpointId
      reason).exec t W.choice (view db (done ++ [first])) =
      .ok ((), [⟨none, .deadLetter letter⟩]) := by
    rw [exec_admitted (q := .insertDeadLetter ..) (List.forall_mem_singleton.mpr free)]
    simp only [Stmt.run, Store.insertDeadLetter, references_ok (leaves.row found), ← row, stored]
    rfl
  have valid : (view db (done ++ [first])).Valid [⟨none, .deadLetter letter⟩] :=
    ⟨⟨Db.find?_none.mp new, admits_plain rfl⟩, trivial⟩
  have whole := leaves.more valid fun v mem => by
    rw [List.mem_singleton.mp mem]
    exact ⟨fun same => Table.noConfusion same, fun same => Table.noConfusion same⟩
  let second : Txn.Done Row lang :=
    ⟨.insertDeadLetter (W.answer (n + 1) .newUuid) d.id d.eventId d.endpointId
    reason, (), [⟨none, .deadLetter letter⟩]⟩
  rw [← view_push db (done ++ [first]) second, List.append_assoc] at whole
  refine ⟨n + 3, [first] ++ [second], _, r', ?_, whole⟩
  rw [markDeadOn, perform_bind_ok (perform_query marked)]
  simp only [if_true]
  rw [newUuid, perform_ask, perform_bind_ok (perform_query buried), List.append_assoc]
  rfl

theorem perform_retry {a : DeliveryAttempt} {error : String}
    (seen : view db done = db.put (.attempt a)) (worker : nulFree w) (free : nulFree error)
    (found : db.find? d.id = some r)
    (leased : Store.leased w t r = true) (num : Int32) (next : Time) :
    ∃ r', perform κ cfg W (.inside n db t done us) (query (.markFailed d.id w num next error)) =
        (.ok true, .inside (n + 1) db t
          (done ++ [⟨.markFailed d.id w num next error, true, [Store.amended r r']⟩]) us) ∧
      Leaves db a r .failed r' []
        (view db (done ++ [⟨.markFailed d.id w num next error, true, [Store.amended r r']⟩])) := by
  obtain ⟨r', set⟩ : ∃ r', r' = Store.released t { r with
    status := .failed, attemptCount := num, nextAttemptAt := next, lastError := some error } :=
      ⟨_, rfl⟩
  have texts : ∀ s ∈ [w, error], nulFree s :=
    List.forall_mem_cons.mpr ⟨worker, List.forall_mem_singleton.mpr free⟩
  have marked : (Stmt.markFailed d.id w num next error).exec t W.choice (view db done) =
      .ok (true, [Store.amended r r']) := by
    rw [exec_admitted (q := .markFailed ..) texts, seen, set]
    exact congrArg Except.ok (underLease_held _ (found_recorded a found) leased)
  refine ⟨r', perform_query marked, ?_, trivial, fun v none =>
    (List.not_mem_nil none).elim, set ▸ rfl, set ▸ rfl⟩
  rw [view_push, seen]
  rfl

def failedStatus (cfg : DispatcherConfig) (num : Int32) : DeliveryStatus :=
  if cfg.retry.isExhausted num then .dead else .failed

theorem perform_failed {a : DeliveryAttempt} {error : String}
    (seen : view db done = db.put (.attempt a)) (fresh : Fresh W n m (db.put (.attempt a)))
    (drawn : n + 1 < m) (worker : nulFree w)
    (free : nulFree error) (found : db.find? d.id = some r) (leased : Store.leased w t r = true)
    (num : Int32) :
    ∃ n' more rest r', perform κ cfg W (.inside n db t done us) (failed cfg w d num error) =
        (.ok true, .inside n' db t (done ++ more) us) ∧
      Leaves db a r (failedStatus cfg num) r' rest (view db (done ++ more)) := by
  unfold failed failedStatus
  split
  · exact perform_dead κ cfg us seen fresh drawn worker free found leased
  · rw [utcNow, perform_ask]
    unfold backoff
    split
    · obtain ⟨r', ran, leaves⟩ :=
        perform_retry κ cfg us (n := n + 1) seen worker free found leased num
        (W.answer n .utcNow + RetryPolicy.delay 0)
      exact ⟨_, _, _, r', ran, leaves⟩
    · obtain ⟨r', ran, leaves⟩ :=
        perform_retry κ cfg us (n := n + 2) seen worker free found leased num
        (W.answer n .utcNow + RetryPolicy.delay
          (W.answer (n + 1) (.jitter (cfg.retry.ceilingMillis num))).val)
      exact ⟨_, _, _, r', ran, leaves⟩

theorem perform_fail (e : Endpoint) (code : Int32) {snippet error : String}
    (started finished : Time) (fresh : Fresh W n m db) (drawn : n + 4 < m) (worker : nulFree w)
    (found : db.find? d.id = some r) (leased : Store.leased w (W.time n) r = true)
    (free : nulFree snippet) (said : nulFree error) :
    Resolved d (failedStatus cfg (d.attemptCount + 1)) db us (perform κ cfg W (.outside n db us)
      (fail cfg w d e (d.attemptCount + 1) (some code) (some snippet) error started finished)) := by
  have texts : ∀ s ∈ (some snippet).toList ++ (some error).toList, nulFree s := by simp [free, said]
  have recorded := perform_record κ cfg (W.time n) us (d.attemptCount + 1) (some code)
    (some snippet) (some error) started finished (fresh.later (Nat.le_succ n)) (by omega) found texts
  have new : db.find? (W.answer (n + 1) .newUuid) = (none : Option DeliveryAttempt) :=
    fresh.find (by omega) (Nat.le_succ n)
  have fresh' : Fresh W (n + 3) m
    (db.put (.attempt ⟨W.answer (n + 1) .newUuid, d.id, d.attemptCount + 1,
      some code, some snippet, some error, started, finished⟩)) :=
    (fresh.later (Nat.le_add_right n 3)).put (admits_plain rfl) (by omega) (by omega) rfl
  generalize row : (⟨W.answer (n + 1) .newUuid, d.id, d.attemptCount + 1, some code, some snippet,
    some error, started, finished⟩ : DeliveryAttempt) = a at recorded fresh'
  obtain ⟨n', more, rest, r', ran, leaves⟩ := perform_failed κ cfg us (t := W.time n)
    (show view db [⟨.recordAttempt a, (), [⟨none, .attempt a⟩]⟩] = db.put (.attempt a) from rfl)
      fresh' drawn worker said found leased (d.attemptCount + 1)
  rw [fail, perform_begin, perform_bind_ok recorded, perform_bind_ok ran, if_pos rfl, utcNow,
    perform_ask]
  exact perform_settle κ cfg us leaves (row ▸ ⟨rfl, rfl⟩) (row ▸ new) found e.id
    (onFailure_free cfg.circuit (W.answer n' .utcNow))

end Outcome

section Texts

theorem nulFree_append {a b : String} (first : nulFree a) (second : nulFree b) :
    nulFree (a ++ b) := by
  simp only [nulFree, String.toList_append, List.mem_append]
  exact fun mem => mem.elim first second

theorem toDigits_free (n : Nat) : '\x00' ∉ Nat.toDigits 10 n := by
  intro nul
  have bounds := toDigits_digit nul
  revert bounds
  decide

theorem toString_free (n : Int) : nulFree (toString n) := by
  simp only [nulFree, Int.toString_eq_repr, Int.repr_eq_if]
  split
  · simpa using toDigits_free n.toNat
  · simpa using toDigits_free (-n).toNat

theorem workerId_free (i : Nat) : nulFree (workerId i) :=
  nulFree_append (by decide) (toString_free i)

end Texts

def resolvedStatus (cfg : DispatcherConfig) (d : Delivery) (resp : Response) : DeliveryStatus :=
  if resp.isSuccess then .succeeded else failedStatus cfg (d.attemptCount + 1)

theorem perform_nul (κ : Prims) (cfg : DispatcherConfig) (W : World) (n : Nat) (db : Db)
    (us : List (List Ran)) (w : String) (d : Delivery) (e : Endpoint) (started : Time)
    {resp : Response}
    (nul : ¬ nulFree (truncate resp.text responseSnippetLen)) :
    ∃ m, perform κ cfg W (.outside n db us) (afterPost cfg w d e started (.ok resp)) =
      (.error (.db .other), .outside m db us) := by
  rw [afterPost, utcNow, perform_ask]
  simp only [resolve]
  split
  · rw [succeed, perform_begin, perform_bind_error
      (perform_record_refused _ _ _ _ _ _ (Option.mem_toList.mpr rfl) nul)]
    exact ⟨_, rfl⟩
  · rw [fail, perform_begin, perform_bind_error
      (perform_record_refused _ _ _ _ _ _ (Option.mem_toList.mpr rfl) nul)]
    exact ⟨_, rfl⟩

/-- However the database has changed when the answer to a POST comes in: a worker that still
holds its lease resolves the delivery exactly when the snippet of the answer has no U+0000. -/
theorem completed_post_resolves (κ : Prims) (cfg : DispatcherConfig) (i : Nat) (d : Delivery)
    (req : Request) (k : Except String Response → Prog (Except CoreError Unit))
    (made : Txn.Makes (.env (.post req) : Op) k (processOne κ cfg (workerId i) d).run)
    (resp : Response) (W : World) (n : Nat) (db : Db) (us : List (List Ran))
    (fresh : Fresh W n (n + 6) db)
    (r : Delivery) (found : db.find? d.id = some r)
    (leased : Store.leased (workerId i) (W.time (n + 1)) r = true) :
    Resolved d (resolvedStatus cfg d resp) db us
      (perform κ cfg W (.outside n db us) (.mk (k (.ok resp)))) ↔
      nulFree (truncate resp.text responseSnippetLen) := by
  obtain ⟨e, started, rfl⟩ := processOne_posts made
  change Resolved d _ db us
    (perform κ cfg W (.outside n db us) (afterPost cfg (workerId i) d e started (.ok resp))) ↔ _
  constructor
  · intro resolved
    by_contra nul
    obtain ⟨m, refused⟩ := perform_nul κ cfg W n db us (workerId i) d e started nul
    have returned := resolved.returned
    rw [refused] at returned
    cases returned
  · intro free
    have fresh' := fresh.later (Nat.le_succ n)
    rw [afterPost, utcNow, perform_ask]
    simp only [resolve, resolvedStatus]
    split
    · exact perform_succeed κ cfg us e _ started _ fresh' (by omega) (workerId_free i) found
        leased free
    · exact perform_fail κ cfg us e _ started _ fresh' (by omega) (workerId_free i) found
        leased free (nulFree_append (by decide) (toString_free _))

def claimedDelivery : Delivery := Store.claim (workerId 0) 30 1 (Store.newDelivery 3 2 1 "t" 0)

def claimed : List Move :=
  published ++ .spawn (.worker 0 0) (.claim (workerId 0)) :: go 1 (.worker 0 0) 1 4 (.error "")

theorem claimed_run : ∃ s : State, Run plain Dispatcher.default Txn.anyStep .empty s ∧
    Db.find? s.db 3 = some claimedDelivery ∧ ∀ r ∈ s.db.rows, r.key.id.toNat < 1000 := by
  have played : ∃ s, replay plain Dispatcher.default (.start .empty) claimed = some s ∧
      Db.find? s.db 3 = some claimedDelivery ∧ s.db.rows.map (·.key.id) = [1, 2, 3] :=
    ⟨_, rfl, rfl, rfl⟩
  obtain ⟨s, played, found, ids⟩ := played
  refine ⟨s, replay_reach played, found, fun r mem => ?_⟩
  have id : r.key.id ∈ ([1, 2, 3] : List Uuid) := ids ▸ List.mem_map_of_mem mem
  revert id
  generalize r.key.id = id
  simp only [List.mem_cons, List.not_mem_nil, or_false]
  rintro (rfl | rfl | rfl) <;> decide

theorem claimed_posts : ∃ req k, Txn.Makes (.env (.post req) : Op) k
    (processOne plain Dispatcher.default (workerId 0) claimedDelivery).run := by
  let e : Endpoint := ⟨1, "t", none, "http://a", "s", false, "closed", none, 0, none, 0, 0⟩
  let ev : Event := ⟨2, "t", none, "x", .null, 0⟩
  exact ⟨_, _, .later (1 : Time)
    (.later (.ok (some e)) (.later (.ok (some ev)) (.later (1 : Time) .here)))⟩

theorem completed_post_resolves_refused : ∃ (s : State) (req : Request)
    (k : Except String Response → Prog (Except CoreError Unit)),
    Run plain Dispatcher.default Txn.anyStep .empty s ∧ Db.find? s.db 3 = some claimedDelivery ∧
    Txn.Makes (.env (.post req) : Op) k
      (processOne plain Dispatcher.default (workerId 0) claimedDelivery).run ∧
    Resolved claimedDelivery .failed s.db []
      (perform plain Dispatcher.default (steady 2) (.outside 4 s.db [])
        (.mk (k (.ok ⟨500, "no"⟩)))) := by
  obtain ⟨s, reach, found, small⟩ := claimed_run
  obtain ⟨req, k, made⟩ := claimed_posts
  have fresh : Fresh (steady 2) 4 (4 + 6) s.db :=
    (steady_fresh 2 (by decide) small).later (Nat.zero_le 4)
  refine ⟨s, req, k, reach, found, made, ?_⟩
  exact (completed_post_resolves plain Dispatcher.default 0 claimedDelivery req k made ⟨500, "no"⟩
    (steady 2) 4 s.db [] fresh claimedDelivery found rfl).mpr (by decide)

/- A 200 whose body is one U+0000: nothing is recorded, and the delivery stays in progress. -/
theorem nul_snippet_unresolved : ∃ (s : State) (req : Request)
    (k : Except String Response → Prog (Except CoreError Unit)),
    Run plain Dispatcher.default Txn.anyStep .empty s ∧ Db.find? s.db 3 = some claimedDelivery ∧
    claimedDelivery.status = .inProgress ∧ Fresh (steady 2) 4 (4 + 6) s.db ∧
    Store.leased (workerId 0) ((steady 2).time 5) claimedDelivery = true ∧
    Txn.Makes (.env (.post req) : Op) k
      (processOne plain Dispatcher.default (workerId 0) claimedDelivery).run ∧
    (perform plain Dispatcher.default (steady 2) (.outside 4 s.db [])
      (.mk (k (.ok ⟨200, "\x00"⟩)))).2.db = s.db ∧ ¬ Resolved claimedDelivery .succeeded s.db []
      (perform plain Dispatcher.default (steady 2) (.outside 4 s.db [])
        (.mk (k (.ok ⟨200, "\x00"⟩)))) := by
  obtain ⟨s, reach, found, small⟩ := claimed_run
  obtain ⟨req, k, made⟩ := claimed_posts
  have fresh : Fresh (steady 2) 4 (4 + 6) s.db :=
    (steady_fresh 2 (by decide) small).later (Nat.zero_le 4)
  obtain ⟨e, started, rfl⟩ := processOne_posts made
  obtain ⟨m, refused⟩ := perform_nul plain Dispatcher.default (steady 2) 4 s.db [] (workerId 0)
    claimedDelivery e
    started (show ¬ nulFree (truncate (Response.mk 200 "\x00").text responseSnippetLen) by decide)
  refine ⟨s, req, _, reach, found, rfl, fresh, rfl, made, congrArg (·.2.db) refused,
    fun resolved => ?_⟩
  cases (congrArg Prod.fst refused).symm.trans resolved.returned

end Dropless
