import Dropless.Budget

namespace Dropless

open Txn (Durable Reach anyStep)

variable {κ : Prims} {cfg : DispatcherConfig} {cond : State → State → Prop} {s t : State}
  {pid : Pid} {p : Proc} {tx : Txn.Tx Row Time lang} {calls : Calls} {job : Job}
  {unit : List Ran} {now : Time} {id : Uuid} {r : Delivery} {db : Db}

def lettersOf (db : Db) (id : Uuid) : List DeadLetter :=
  (Db.all DeadLetter db).filter fun l => l.deliveryId = id

def newLetters (now : Time) (id : Uuid) (unit : List Ran) : List DeadLetter :=
  (unit.filterMap (deadLetterOf now)).filter fun l => l.deliveryId = id

section Letters

theorem lettersOf_after (durable : Durable (protocol κ cfg) s pid p tx) (id : Uuid) :
    lettersOf (s.db.apply tx.writes) id =
      lettersOf s.db id ++ newLetters tx.time id (tx.done.map Txn.Done.ran) := by
  rw [lettersOf, all_after (deadLetters_appended tx.time) durable, List.filter_append]
  rfl

theorem letters_of_one {l : DeadLetter} (one : unit.filterMap (deadLetterOf now) = [l])
    (own : l.deliveryId = id) : newLetters now id unit = [l] := by
  simp [newLetters, one, own]

theorem letter_marked {l : DeadLetter} (commits : Commits κ cfg calls job unit)
    (mem : l ∈ unit.filterMap (deadLetterOf now)) :
    ∃ x ∈ unit, ∃ w, marked x = some (l.deliveryId, w) := by
  rcases commits.settles_or_files with ⟨w, d, rfl, settles⟩ | files
  · cases settles with
    | succeeded tried ok => simp [deadLetterOf, circuitRan] at mem
    | failed tried bad left => simp [deadLetterOf, circuitRan] at mem
    | exhausted tried bad spent =>
      obtain rfl := List.mem_singleton.mp (show l ∈ [_] from mem)
      exact ⟨_, List.mem_cons_of_mem _ List.mem_cons_self, w, rfl⟩
    | hopeless reason =>
      obtain rfl := List.mem_singleton.mp (show l ∈ [_] from mem)
      exact ⟨_, List.mem_cons_self, w, rfl⟩
  · obtain ⟨x, here, eq⟩ := List.mem_filterMap.mp mem
    cases files x here <;> cases eq

theorem unmarked_letters (durable : Durable (protocol κ cfg) s pid p tx)
    (unmarked : ∀ x ∈ tx.done.map Txn.Done.ran, ∀ w, marked x ≠ some (id, w)) :
    newLetters tx.time id (tx.done.map Txn.Done.ran) = [] := by
  refine List.filter_eq_nil_iff.mpr fun l mem own => ?_
  rcases unit_allowed durable with commits | ⟨one, eq, alone⟩
  · obtain ⟨x, here, w, marks⟩ := letter_marked commits mem
    exact unmarked x here w (of_decide_eq_true own ▸ marks)
  · obtain ⟨x, here, eq'⟩ := List.mem_filterMap.mp mem
    rw [eq] at here
    obtain rfl := List.mem_singleton.mp here
    obtain ⟨q, out, ws⟩ := one
    cases q with
    | insertDeadLetter => exact (alone_outside alone).2.2.1 rfl
    | _ => cases eq'

theorem fresh_letters (durable : Durable (protocol κ cfg) s pid p tx)
    (before : Db.find? s.db id = (none : Option Delivery)) :
    newLetters tx.time id (tx.done.map Txn.Done.ran) = [] := by
  refine unmarked_letters durable fun x mem w marks => ?_
  obtain ⟨_, r, _, _, _, here, _⟩ := marked_row durable mem marks
  cases here.symm.trans before

/-- The inversion lemma for a delivery together with its dead letters. -/
theorem delivery_letters (durable : Durable (protocol κ cfg) s pid p tx)
    (found : Db.find? (s.db.apply tx.writes) id = some r) :
    (Db.find? s.db id = some r ∧ lettersOf (s.db.apply tx.writes) id = lettersOf s.db id) ∨
    (Turn κ cfg p.calls tx.time p.job (tx.done.map Txn.Done.ran) (Db.find? s.db id) r ∧
      lettersOf (s.db.apply tx.writes) id =
        lettersOf s.db id ++ newLetters tx.time id (tx.done.map Txn.Done.ran)) := by
  have after := lettersOf_after durable id
  by_cases hit : ∃ x ∈ tx.done.map Txn.Done.ran, ∃ w, marked x = some (id, w)
  · obtain ⟨x, mem, w, marks⟩ := hit
    obtain ⟨_, r₀, r', _, _, before, _, found', turn⟩ := marked_row durable mem marks
    obtain rfl : r' = r := Option.some.inj (found'.symm.trans found)
    exact .inr ⟨before ▸ turn, after⟩
  · rcases delivery_turn durable found with old | turn
    · refine .inl ⟨old, ?_⟩
      rw [after, unmarked_letters durable fun x mem w marks => hit ⟨x, mem, w, marks⟩,
        List.append_nil]
    · exact .inr ⟨turn, after⟩

end Letters

section Ledger

/- How often the delivery was replayed. -/
def replayCount (log : List Entry) (id : Uuid) : Nat := (log.filter (replays id)).length

/-- The dead letters of a delivery against its row and the replays of it. -/
structure Ledger (db : Db) (log : List Entry) (id : Uuid) (d : Delivery) : Prop where
  count : (lettersOf db id).length + (if d.status = .dead then 0 else 1) ≤ replayCount log id + 1
  names : ∀ l ∈ lettersOf db id, l.eventId = d.eventId ∧ l.endpointId = d.endpointId
  reason : d.status = .dead → (lettersOf db id).getLast?.map DeadLetter.reason = some d.lastError

theorem replayCount_grows (log more : List Entry) (id : Uuid) :
    replayCount log id ≤ replayCount (more ++ log) id := by
  rw [replayCount, replayCount, List.filter_append, List.length_append]
  exact Nat.le_add_left _ _

theorem Ledger.mono {log log' : List Entry} {db' : Db} {r' : Delivery} (ledger : Ledger db log id r)
    (letters : lettersOf db' id = lettersOf db id)
    (grows : replayCount log id ≤ replayCount log' id)
    (frozen : (Row.delivery r').frozen = (Row.delivery r).frozen)
    (status : r'.status = .dead ↔ r.status = .dead)
    (error : r.status = .dead → r'.lastError = r.lastError) : Ledger db' log' id r' := by
  have fixed := Delivery.fixed frozen
  refine ⟨?_, fun l mem => ?_, fun dead => ?_⟩
  · have count := ledger.count
    simp only [letters, status]
    omega
  · rw [fixed.eventId, fixed.endpointId]
    exact ledger.names l (letters ▸ mem)
  · rw [letters, error (status.mp dead)]
    exact ledger.reason (status.mp dead)

theorem Ledger.alive {log log' : List Entry} {db' : Db} {r' : Delivery}
    (ledger : Ledger db log id r) (letters : lettersOf db' id = lettersOf db id ++ [])
    (grows : replayCount log id ≤ replayCount log' id)
    (frozen : (Row.delivery r').frozen = (Row.delivery r).frozen) (alive : r.status ≠ .dead)
    (alive' : r'.status ≠ .dead) : Ledger db' log' id r' :=
  ledger.mono (letters.trans (List.append_nil _)) grows frozen
    ⟨fun dead => (alive' dead).elim, fun dead => (alive dead).elim⟩ fun dead => (alive dead).elim

theorem Ledger.buried {log log' : List Entry} {db' : Db} {r' : Delivery} {l : DeadLetter}
    (ledger : Ledger db log id r) (letters : lettersOf db' id = lettersOf db id ++ [l])
    (grows : replayCount log id ≤ replayCount log' id)
    (frozen : (Row.delivery r').frozen = (Row.delivery r).frozen) (alive : r.status ≠ .dead)
    (dead : r'.status = .dead) (event : l.eventId = r.eventId)
    (endpoint : l.endpointId = r.endpointId) (reason : l.reason = r'.lastError) :
    Ledger db' log' id r' := by
  have fixed := Delivery.fixed frozen
  refine ⟨?_, fun x mem => ?_, fun _ => ?_⟩
  · have count := ledger.count
    rw [if_neg alive] at count
    rw [letters, List.length_append, if_pos dead, List.length_singleton]
    omega
  · rw [fixed.eventId, fixed.endpointId]
    rw [letters] at mem
    rcases List.mem_append.mp mem with old | new
    · exact ledger.names x old
    · rw [List.mem_singleton.mp new]
      exact ⟨event, endpoint⟩
  · rw [letters, List.getLast?_append, List.getLast?_singleton, Option.some_or, Option.map_some,
      reason]

/- The row that a worker is at has the event and the endpoint that the worker claimed. -/
theorem job_row (reach : Run κ cfg cond .empty s) (durable : Durable (protocol κ cfg) s pid p tx)
    {w : String} {d : Delivery} (job : p.job = .processOne w d)
    (found : Db.find? s.db d.id = some r) :
    d.eventId = r.eventId ∧ d.endpointId = r.endpointId := by
  obtain ⟨r', found', frozen⟩ := reach_held reach durable.live (holds_job job)
  obtain rfl := Option.some.inj (found'.symm.trans found)
  have fixed := Delivery.fixed frozen
  exact ⟨fixed.eventId.symm, fixed.endpointId.symm⟩

theorem unit_ledger (reach : Run κ cfg cond .empty s)
    (durable : Durable (protocol κ cfg) s pid p tx) {log : List Entry}
    (logged : ∃ e, log = [e, .applied pid p.job tx.time (tx.done.map Txn.Done.ran)] ++ s.log)
    (good : ∀ d, Db.find? s.db id = some d → Ledger s.db s.log id d)
    (absent : Db.find? s.db id = (none : Option Delivery) → lettersOf s.db id = [])
    (found : Db.find? (s.db.apply tx.writes) id = some r) :
    Ledger (s.db.apply tx.writes) log id r := by
  obtain ⟨e, rfl⟩ := logged
  have grows := replayCount_grows s.log
    [e, .applied pid p.job tx.time (tx.done.map Txn.Done.ran)] id
  rcases delivery_letters durable found with ⟨old, letters⟩ | ⟨turn, letters⟩
  · exact (good r old).mono letters grows rfl Iff.rfl fun _ => rfl
  · have own := fun {w d r} => job_row (r := r) (w := w) (d := d) reach durable
    have none : Db.find? s.db id = none → _ := fresh_letters durable
    generalize tx.done.map Txn.Done.ran = done at turn letters grows none ⊢
    generalize p.job = job' at turn own grows ⊢
    generalize before : (Db.find? s.db id : Option Delivery) = b at turn
    generalize tx.time = now at turn letters grows none ⊢
    have ids := Db.find?_id found
    cases turn with
    | published mem commits =>
      rw [absent before, none before] at letters
      refine ⟨?_, fun l mem => ?_, nofun⟩
      · rw [letters]
        exact Nat.le_add_left _ _
      · rw [letters] at mem
        cases mem
    | claimed first due mem =>
      exact (good _ before).alive letters grows rfl (due_open due).2 nofun
    | succeeded tried ok same leased =>
      exact (good _ before).alive letters grows rfl (leased_open reach before leased).2 nofun
    | failed tried bad left same leased =>
      exact (good _ before).alive letters grows rfl (leased_open reach before leased).2 nofun
    | deferred same leased =>
      exact (good _ before).alive letters grows rfl (leased_open reach before leased).2 nofun
    | @exhausted w d e at_ req a error fresh t r tried bad spent same leased =>
      obtain rfl : d.id = id := same.symm.trans ids
      obtain ⟨event, endpoint⟩ := own rfl before
      refine (good _ before).buried (l := ⟨fresh, d.id, d.eventId, d.endpointId, some error, now⟩)
        ?_ grows rfl (leased_open reach before leased).2 rfl event endpoint rfl
      exact letters.trans (congrArg _ (letters_of_one rfl rfl))
    | @hopeless w d reason fresh r hopeless same leased =>
      obtain rfl : d.id = id := same.symm.trans ids
      obtain ⟨event, endpoint⟩ := own rfl before
      refine (good _ before).buried (l := ⟨fresh, d.id, d.eventId, d.endpointId, some reason, now⟩)
        ?_ grows rfl (leased_open reach before leased).2 rfl event endpoint rfl
      exact letters.trans (congrArg _ (letters_of_one rfl rfl))
    | @reset _ r admin =>
      obtain rfl : r.id = id := ids
      have ledger := good _ before
      have letters : lettersOf (s.db.apply tx.writes) r.id = lettersOf s.db r.id :=
        letters.trans (List.append_nil _)
      have more : replayCount s.log r.id < replayCount ([e, .applied pid job' now
          [ran (.resetForReplay r.id) true]] ++ s.log) r.id := by
        have hit : replays r.id (.applied pid job' now [ran (.resetForReplay r.id) true]) = true :=
          by simp [replays]
        simp only [replayCount, List.filter_append, List.length_append]
        have some : 0 < (List.filter (replays r.id) [e, .applied pid job' now
          [ran (.resetForReplay r.id) true]]).length :=
          List.length_pos_of_mem (List.mem_filter.mpr ⟨by simp, hit⟩)
        omega
      have count := ledger.count
      refine ⟨?_, fun l mem => ledger.names l (letters ▸ mem), fun dead => by cases dead⟩
      rw [letters, if_neg]
      · split at count <;> omega
      · intro dead
        cases dead

theorem reach_unlettered (reach : Run κ cfg cond .empty s) (id : Uuid)
    (none : Db.find? s.db id = (none : Option Delivery)) : lettersOf s.db id = [] := by
  revert id
  refine Txn.reach_db (protocol κ cfg)
    (fun db => ∀ id, Db.find? db id = (Option.none : Option Delivery) → lettersOf db id = [])
    .start (fun _ _ => rfl) ?_ reach
  intro a pid p tx before durable good id none
  have gone : Db.find? a.db id = (Option.none : Option Delivery) :=
    Option.eq_none_iff_forall_ne_some.mpr fun d here => find_overlay here none
  rw [lettersOf_after durable, good id gone, fresh_letters durable gone]
  rfl

theorem reach_ledger (reach : Run κ cfg cond .empty s) (id : Uuid) (d : Delivery)
    (found : Db.find? s.db id = some d) : Ledger s.db s.log id d := by
  induction reach generalizing d with
  | start => cases found
  | @next s t before step ok ih =>
    cases Txn.step_outcome (Txn.reach_sound (protocol κ cfg) before) step with
    | quiet es same log noted =>
      rw [same] at found ⊢
      rw [log]
      exact (ih d found).mono rfl (replayCount_grows _ _ id) rfl Iff.rfl fun _ => rfl
    | durable pid p tx op ans same log noted durable _ =>
      rw [same] at found ⊢
      exact unit_ledger before durable ⟨_, log⟩ ih (reach_unlettered before id) found

end Ledger

/-- In every run: events, attempts and dead letters are only ever appended to. A delivery has at
most one dead letter for each time it was replayed, and one more only while it is dead; all of
them name its event and its endpoint, and the last one of a dead delivery its last error. -/
theorem dead_letter_ledger (κ : Prims) (cfg : DispatcherConfig) (s : State)
    (reach : Run κ cfg anyStep .empty s) :
    (∀ id (d : Delivery), Db.find? s.db id = some d →
      (lettersOf s.db id).length + (if d.status = .dead then 0 else 1) ≤
        replayCount s.log id + 1 ∧
      (∀ l ∈ lettersOf s.db id, l.eventId = d.eventId ∧ l.endpointId = d.endpointId) ∧
      (d.status = .dead →
        (lettersOf s.db id).getLast?.map DeadLetter.reason = some d.lastError)) ∧
    ∀ t, Reach (engine κ cfg) anyStep s t →
      Db.all Event s.db <+: Db.all Event t.db ∧
      Db.all DeliveryAttempt s.db <+: Db.all DeliveryAttempt t.db ∧
      Db.all DeadLetter s.db <+: Db.all DeadLetter t.db := by
  refine ⟨fun id d found => ?_, fun t later => ⟨?_, ?_, ?_⟩⟩
  · have ledger := reach_ledger reach id d found
    exact ⟨ledger.count, ledger.names, ledger.reason⟩
  · exact reach_appended _ events_appended reach later
  · exact reach_appended (fun _ => attemptOf) attempts_appended reach later
  · exact reach_appended _ deadLetters_appended reach later

def givenUp : List Move × List Move :=
  (published ++ refused (.worker 0 0) 0 1 4,
    .spawn (.client 0) (.resetForReplay 3) :: go 2 (.client 0) 2 0 (.error "") ++
      refused (.worker 0 0) 0 3 5)

theorem dead_letter_ledger_replayed : ∃ (cfg : DispatcherConfig) (s t : State) (d : Delivery),
    Run plain cfg anyStep .empty s ∧ Reach (engine plain cfg) anyStep s t ∧
    (lettersOf s.db 3).length = 1 ∧ (lettersOf t.db 3).length = 2 ∧ replayCount t.log 3 = 1 ∧
    Db.find? t.db 3 = some d ∧ d.status = .dead ∧
    (lettersOf t.db 3).getLast?.map DeadLetter.reason = some d.lastError ∧
    Db.all DeadLetter s.db <+: Db.all DeadLetter t.db := by
  let cfg : DispatcherConfig :=
    { Dispatcher.default with retry := { RetryPolicy.default with maxAttempts := 1 } }
  have played : ((replay plain cfg (.start .empty) givenUp.1).bind fun s =>
      (replay plain cfg s givenUp.2).bind fun t => (Db.find? t.db 3).bind fun d : Delivery =>
        if (lettersOf s.db 3).length = 1 ∧ (lettersOf t.db 3).length = 2 ∧
          replayCount t.log 3 = 1 ∧ d.status = .dead then some (s, t, d) else none).isSome := by
    decide +kernel
  obtain ⟨⟨s, t, d⟩, played⟩ := Option.isSome_iff_exists.mp played
  simp only [Option.bind_eq_some_iff, Option.ite_none_right_eq_some] at played
  obtain ⟨_, before, _, later, _, found, ⟨first, second, count, dead⟩, eq⟩ := played
  cases eq
  have reach := replay_reach before
  have later := replay_reach later
  have ledger := (dead_letter_ledger plain cfg t (reach.trans later)).1 3 d found
  have grown := (dead_letter_ledger plain cfg s reach).2 t later
  exact ⟨cfg, s, t, d, reach, later, first, second, count, found, dead, ledger.2.2 dead, grown.2.2⟩

end Dropless
