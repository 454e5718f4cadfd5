import Dropless.Budget

namespace Dropless

open Txn (Durable anyStep)

/-- The highest-numbered attempt of a delivery records an error. -/
def LastFailed (db : Db) (id : Uuid) : Prop :=
  attemptsOf db id ≠ [] ∧ ∀ a ∈ attemptsOf db id,
    (∀ b ∈ attemptsOf db id, b.attemptNumber ≤ a.attemptNumber) → a.error ≠ none

instance (db : Db) (id : Uuid) : Decidable (LastFailed db id) :=
  inferInstanceAs (Decidable (_ ∧ _))

def unreplayed : Entry → Bool
  | .applied _ _ _ unit => unit.all fun x => match x with
    | ⟨.resetForReplay _, out⟩ => out = false
    | _ => true
  | _ => true

def defersTried (db : Db) : Entry → Bool
  | .applied _ _ _ unit => unit.all fun x => match x with
    | ⟨.deferDelivery id _ _, out⟩ => out = false ∨ attemptsOf db id ≠ []
    | _ => true
  | _ => true

def Unreplayed (s t : State) : Prop := ∀ e ∈ Txn.since s t, unreplayed e = true

/-- The steps among them that defer only what was attempted. -/
def Attempted (s t : State) : Prop :=
  Unreplayed s t ∧ ∀ e ∈ Txn.since s t, defersTried s.db e = true

instance (s t : State) : Decidable (Unreplayed s t) :=
  inferInstanceAs (Decidable (∀ e ∈ Txn.since s t, unreplayed e = true))

instance (s t : State) : Decidable (Attempted s t) := inferInstanceAs (Decidable (_ ∧ _))

/-- The status of a delivery agrees with its log. -/
structure Agrees (attempts : List DeliveryAttempt) (r : Delivery) : Prop where
  errors : r.status ≠ .succeeded → ∀ a ∈ attempts, a.error ≠ none
  tried : r.status = .failed ∨ r.status = .dead → attempts ≠ []

section Agrees

variable {attempts : List DeliveryAttempt} {a : DeliveryAttempt} {r r' : Delivery}

theorem Agrees.move (agrees : Agrees attempts r) (before : r.status ≠ .succeeded)
    (tried : r'.status = .failed ∨ r'.status = .dead → attempts ≠ []) : Agrees attempts r' where
  errors _ := agrees.errors before
  tried := tried

theorem Agrees.fail (agrees : Agrees attempts r) (before : r.status ≠ .succeeded)
    (bad : a.error ≠ none) : Agrees (attempts ++ [a]) r' where
  errors _ := by
    simp only [List.forall_mem_append, List.forall_mem_singleton]
    exact ⟨agrees.errors before, bad⟩
  tried _ := by simp

theorem Agrees.lastFailed {db : Db} {id : Uuid} (agrees : Agrees (attemptsOf db id) r)
    (status : r.status = .failed ∨ r.status = .dead) : LastFailed db id := by
  refine ⟨agrees.tried status, fun a mem _ => agrees.errors ?_ a mem⟩
  rcases status with status | status <;> simp [status]

end Agrees

section Runs

variable {κ : Prims} {cfg : DispatcherConfig} {cond : State → State → Prop} {s t : State}
  {pid : Pid} {p : Proc} {tx : Txn.Tx Row Time lang} {id : Uuid} {r r' : Delivery}

theorem unit_agrees (total : κ.Total) (reach : Run κ cfg cond .empty s)
    (durable : Durable (protocol κ cfg) s pid p tx)
    (kept : unreplayed (.applied pid p.job tx.time (tx.done.map Txn.Done.ran)) = true)
    (tried_ : defersTried s.db (.applied pid p.job tx.time (tx.done.map Txn.Done.ran)) = true)
    (old : ∀ r, Db.find? s.db id = some r → Agrees (attemptsOf s.db id) r)
    (found : Db.find? (s.db.apply tx.writes) id = some r') :
    Agrees (attemptsOf (s.db.apply tx.writes) id) r' := by
  rcases delivery_account durable found with ⟨same, log⟩ | ⟨turn, log⟩
  · rw [log]
    exact old r' same
  · have hopeless := fun w d job => hopeless_never (w := w) (d := d) total reach durable.live job
    rw [log]
    generalize unit : tx.done.map Txn.Done.ran = done at turn kept tried_ ⊢
    generalize job : p.job = job' at turn hopeless kept tried_
    generalize before : (Db.find? s.db id : Option Delivery) = b at turn
    generalize tx.time = now at turn kept tried_
    have ids := Db.find?_id found
    cases turn with
    | published mem commits =>
      rw [reach_orphan reach id before, ← unit, fresh_attempts durable before]
      exact ⟨fun _ a none => (List.not_mem_nil none).elim, by simp [Store.newDelivery]⟩
    | claimed first due mem =>
      refine (List.append_nil (attemptsOf s.db id)).symm ▸ (old _ before).move (due_open due).1 ?_
      simp [Store.claim]
    | @succeeded w d e t req a r tried ok same leased =>
      refine ⟨fun other => absurd rfl other, ?_⟩
      simp [Store.released]
    | @failed w d e t req a error next at_ r tried bad left same leased =>
      obtain rfl : d.id = id := same.symm.trans ids
      rw [newAttempts_tried tried.delivery rfl]
      exact (old _ before).fail (leased_open reach before leased).1 (by simp [bad.1])
    | @exhausted w d e t req a error fresh at_ r tried bad spent same leased =>
      obtain rfl : d.id = id := same.symm.trans ids
      rw [newAttempts_tried tried.delivery rfl]
      exact (old _ before).fail (leased_open reach before leased).1 (by simp [bad.1])
    | hopeless reason same leased => exact (hopeless _ _ rfl reason).elim
    | @deferred w d next r same leased =>
      refine (List.append_nil (attemptsOf s.db id)).symm ▸
        (old _ before).move (leased_open reach before leased).1 fun _ => ?_
      obtain rfl : d.id = id := same.symm.trans ids
      simpa [defersTried] using tried_
    | @reset _ r admin => simp [unreplayed] at kept

theorem reach_agrees (total : κ.Total) (reach : Run κ cfg Attempted .empty s) (id : Uuid)
    (r : Delivery) (found : Db.find? s.db id = some r) : Agrees (attemptsOf s.db id) r := by
  induction reach generalizing r with
  | start => cases found
  | @next s t before step ok ih =>
    cases Txn.step_outcome (Txn.reach_sound (protocol κ cfg) before) step with
    | quiet es same log noted =>
      rw [same] at found ⊢
      exact ih r found
    | durable pid p tx op ans same log noted durable _ =>
      have new : .applied pid p.job tx.time (tx.done.map Txn.Done.ran) ∈ Txn.since s t := by
        rw [Txn.since_eq (show t.log = [_, _] ++ s.log from log)]
        exact List.mem_cons_of_mem _ List.mem_cons_self
      rw [same] at found ⊢
      exact unit_agrees total before durable (ok.1 _ new) (ok.2 _ new) ih found

end Runs

/-- Where nothing is deferred before its first attempt, and without replays, `failed` means a
failed attempt, and so do the counter and the feed of the operator. -/
theorem failed_status (κ : Prims) (cfg : DispatcherConfig) (total : κ.Total) (s : State)
    (reach : Run κ cfg Attempted .empty s) :
    (∀ id (r : Delivery), Db.find? s.db id = some r → r.status = .failed → LastFailed s.db id) ∧
    (∀ collation, ∀ stat ∈ Store.adminTenantStats collation s.db,
      stat.failed = (Store.select s.db fun d : Delivery =>
        d.tenantId = stat.tenantId ∧ d.status = .failed ∧ LastFailed s.db d.id).length) ∧
    ∀ limit, ∀ f ∈ Store.adminRecentFailures limit s.db, LastFailed s.db f.deliveryId := by
  have agrees : ∀ d ∈ Db.all Delivery s.db, d.status = .failed ∨ d.status = .dead →
      LastFailed s.db d.id := fun d mem status =>
    (reach_agrees total reach d.id d (Db.mem_all.mp mem)).lastFailed status
  refine ⟨fun id r found status => ?_, fun collation stat mem => ?_, fun limit f mem => ?_⟩
  · exact (reach_agrees total reach id r found).lastFailed (.inl status)
  · rw [Store.adminTenantStats, List.mem_insertionSort] at mem
    obtain ⟨tenant, -, rfl⟩ := List.mem_map.mp mem
    refine congrArg List.length (List.filter_congr fun d mem => ?_)
    refine decide_eq_decide.mpr ⟨fun ⟨own, status⟩ => ?_, fun ⟨own, status, _⟩ => ⟨own, status⟩⟩
    exact ⟨own, status, agrees d mem (.inl status)⟩
  · rw [Store.adminRecentFailures] at mem
    have joined := (List.mem_insertionSort _).mp (List.mem_of_mem_take mem)
    obtain ⟨d, picked, row⟩ := List.mem_filterMap.mp joined
    obtain ⟨here, status⟩ := List.mem_filter.mp picked
    simp only [Store.recentFailure, Option.bind_eq_bind, Option.bind_eq_some_iff, Option.pure_def,
      Option.some.injEq] at row
    obtain ⟨ev, -, e, -, rfl⟩ := row
    exact agrees d here (of_decide_eq_true status)

theorem failed_status_deferred : ∃ (s : State) (r : Delivery), plain.Total ∧
    Run plain Dispatcher.default Attempted .empty s ∧ Db.find? s.db 3 = some r ∧
    r.status = .failed ∧ LastFailed s.db 3 := by
  have played : ((Txn.play (engine plain Dispatcher.default) (fun s t => Attempted s t)
      (.start .empty) (published ++ refused (.worker 0 0) 0 1 4 ++
        .spawn (.client 0) (.updateEndpoint 1 "t" none (some true) none) ::
          go 2 (.client 0) 0 0 (.error "") ++
        .spawn (.worker 0 0) (.claim (workerId 0)) :: go 6 (.worker 0 0) 90000000 0
          (.error ""))).bind fun s : State =>
      (Db.find? s.db 3).bind fun r : Delivery =>
      if r.status = .failed ∧ r.updatedAt = 90000000 then some (s, r) else none).isSome := by
    decide
  obtain ⟨⟨s, r⟩, played⟩ := Option.isSome_iff_exists.mp played
  simp only [Option.bind_eq_some_iff, Option.ite_none_right_eq_some] at played
  obtain ⟨_, played, _, found, ⟨status, -⟩, eq⟩ := played
  cases eq
  have total : plain.Total := ⟨fun _ => ⟨_, rfl⟩, fun _ => rfl⟩
  have reach : Run plain Dispatcher.default Attempted .empty s :=
    Txn.play_reach (fun a b ok => of_decide_eq_true ok) played
  exact ⟨s, r, total, reach, found, status,
    (failed_status plain Dispatcher.default total s reach).1 3 r found status⟩

/- The endpoint is disabled before the first attempt: the delivery is `failed`, and nothing
was ever sent. -/
theorem deferred_unattempted : ¬ ∀ (κ : Prims) (cfg : DispatcherConfig) (s : State),
    Run κ cfg Unreplayed .empty s → ∀ id (r : Delivery), Db.find? s.db id = some r →
      r.status = .failed → LastFailed s.db id := by
  intro all
  have played : ((Txn.play (engine plain Dispatcher.default) (fun s t => Unreplayed s t)
      (.start .empty) (published ++
        .spawn (.client 0) (.updateEndpoint 1 "t" none (some true) none) ::
          go 2 (.client 0) 0 0 (.error "") ++
        .spawn (.worker 0 0) (.claim (workerId 0)) :: go 6 (.worker 0 0) 1 0 (.error ""))).bind
      fun s : State => (Db.find? s.db 3).bind fun r : Delivery =>
      if r.status = .failed ∧ attemptsOf s.db 3 = [] then some (s, r) else none).isSome := by
    decide
  obtain ⟨⟨s, r⟩, played⟩ := Option.isSome_iff_exists.mp played
  simp only [Option.bind_eq_some_iff, Option.ite_none_right_eq_some] at played
  obtain ⟨_, played, _, found, ⟨status, none⟩, eq⟩ := played
  cases eq
  have reach : Run plain Dispatcher.default Unreplayed .empty s :=
    Txn.play_reach (fun a b ok => of_decide_eq_true ok) played
  exact (all plain Dispatcher.default s reach 3 r found status).1 none

end Dropless
