import Dropless.Fencing

namespace Dropless

open Txn (Durable anyStep)

def attemptsOf (db : Db) (id : Uuid) : List DeliveryAttempt :=
  (Db.all DeliveryAttempt db).filter fun a => a.deliveryId = id

def newAttempts (id : Uuid) (unit : List Ran) : List DeliveryAttempt :=
  (unit.filterMap attemptOf).filter fun a => a.deliveryId = id

section Account

variable {κ : Prims} {cfg : DispatcherConfig} {s : State} {pid : Pid} {p : Proc}
  {tx : Txn.Tx Row Time lang} {calls : Calls} {job : Job} {unit : List Ran} {id : Uuid}

theorem attemptsOf_after (durable : Durable (protocol κ cfg) s pid p tx) (id : Uuid) :
    attemptsOf (s.db.apply tx.writes) id =
      attemptsOf s.db id ++ newAttempts id (tx.done.map Txn.Done.ran) := by
  rw [attemptsOf, all_after (attempts_appended tx.time) durable, List.filter_append]
  rfl

theorem attempt_marked {a : DeliveryAttempt} (commits : Commits κ cfg calls job unit)
    (mem : a ∈ unit.filterMap attemptOf) :
    ∃ x ∈ unit, ∃ w, marked x = some (a.deliveryId, w) := by
  rcases commits.settles_or_files with ⟨w, d, rfl, settles⟩ | files
  · cases settles with
    | succeeded tried ok =>
      obtain rfl := List.mem_singleton.mp (show a ∈ [_] from mem)
      exact ⟨_, List.mem_cons_of_mem _ List.mem_cons_self, w, by rw [tried.delivery]; rfl⟩
    | failed tried bad left =>
      obtain rfl := List.mem_singleton.mp (show a ∈ [_] from mem)
      exact ⟨_, List.mem_cons_of_mem _ List.mem_cons_self, w, by rw [tried.delivery]; rfl⟩
    | exhausted tried bad spent =>
      obtain rfl := List.mem_singleton.mp (show a ∈ [_] from mem)
      exact ⟨_, List.mem_cons_of_mem _ List.mem_cons_self, w, by rw [tried.delivery]; rfl⟩
    | hopeless reason => simp [attemptOf] at mem
  · obtain ⟨x, here, eq⟩ := List.mem_filterMap.mp mem
    cases files x here <;> cases eq

theorem unmarked_attempts (durable : Durable (protocol κ cfg) s pid p tx)
    (unmarked : ∀ x ∈ tx.done.map Txn.Done.ran, ∀ w, marked x ≠ some (id, w)) :
    newAttempts id (tx.done.map Txn.Done.ran) = [] := by
  refine List.filter_eq_nil_iff.mpr fun a mem own => ?_
  rcases unit_allowed durable with commits | ⟨one, eq, alone⟩
  · obtain ⟨x, hx, w, marks⟩ := attempt_marked commits mem
    exact unmarked x hx w (of_decide_eq_true own ▸ marks)
  · obtain ⟨x, hx, eq'⟩ := List.mem_filterMap.mp mem
    rw [eq] at hx
    obtain rfl := List.mem_singleton.mp hx
    obtain ⟨q, out, ws⟩ := one
    cases q with
    | recordAttempt => exact (alone_outside alone).2.1 rfl
    | _ => cases eq'

theorem fresh_attempts (durable : Durable (protocol κ cfg) s pid p tx)
    (before : Db.find? s.db id = (none : Option Delivery)) :
    newAttempts id (tx.done.map Txn.Done.ran) = [] := by
  refine unmarked_attempts durable fun x mem w marks => ?_
  obtain ⟨_, r, _, _, _, here, _⟩ := marked_row durable mem marks
  cases here.symm.trans before

/-- The inversion lemma for a delivery together with its attempts. -/
theorem delivery_account (durable : Durable (protocol κ cfg) s pid p tx) {r : Delivery}
    (found : Db.find? (s.db.apply tx.writes) id = some r) :
    (Db.find? s.db id = some r ∧ attemptsOf (s.db.apply tx.writes) id = attemptsOf s.db id) ∨
    (Turn κ cfg p.calls tx.time p.job (tx.done.map Txn.Done.ran) (Db.find? s.db id) r ∧
      attemptsOf (s.db.apply tx.writes) id =
        attemptsOf s.db id ++ newAttempts id (tx.done.map Txn.Done.ran)) := by
  have after := attemptsOf_after durable id
  by_cases hit : ∃ x ∈ tx.done.map Txn.Done.ran, ∃ w, marked x = some (id, w)
  · obtain ⟨x, mem, w, marks⟩ := hit
    obtain ⟨_, r₀, r', _, _, before, _, found', turn⟩ := marked_row durable mem marks
    obtain rfl : r' = r := Option.some.inj (found'.symm.trans found)
    exact .inr ⟨before ▸ turn, after⟩
  · rcases delivery_turn durable found with old | turn
    · refine .inl ⟨old, ?_⟩
      rw [after, unmarked_attempts durable fun x mem w marks => hit ⟨x, mem, w, marks⟩,
        List.append_nil]
    · exact .inr ⟨turn, after⟩

end Account

/-- The attempts are numbered 1, 2, .. and the row counts them. -/
structure Exact (db : Db) (id : Uuid) (r : Delivery) : Prop where
  numbers : (attemptsOf db id).map (·.attemptNumber.toInt) =
    (List.range (attemptsOf db id).length).map fun i : Nat => (i : Int) + 1
  count : r.attemptCount.toInt = (attemptsOf db id).length

/- No failed attempt that is committed is the last one, and no counter is full: the row of
a delivery that is out of attempts does not count the last of them. -/
def numbered (cfg : DispatcherConfig) : Entry → Bool
  | .applied _ (.processOne _ d) _ unit => (unit.filterMap attemptOf).all fun a =>
      d.attemptCount ≠ Int32.maxValue ∧
        (a.error = none ∨ cfg.retry.isExhausted (d.attemptCount + 1) = false)
  | _ => true

section Exact

variable {κ : Prims} {cfg : DispatcherConfig} {s : State} {pid : Pid} {p : Proc}
  {tx : Txn.Tx Row Time lang} {id : Uuid} {db : Db}

theorem Exact.next {db' : Db} {r r' : Delivery} {a : DeliveryAttempt} (exact_ : Exact db id r)
    (log : attemptsOf db' id = attemptsOf db id ++ [a]) (room : r.attemptCount ≠ Int32.maxValue)
    (number : a.attemptNumber = r.attemptCount + 1) (count : r'.attemptCount = a.attemptNumber) :
    Exact db' id r' := by
  have next : a.attemptNumber.toInt = (attemptsOf db id).length + 1 := by
    rw [number, toInt_succ room, exact_.count]
  constructor
  · rw [log, List.map_append, exact_.numbers, List.length_append, List.length_singleton,
      List.range_succ, List.map_append, List.map_singleton, List.map_singleton, next]
  · rw [count, next, log, List.length_append]
    simp

theorem Exact.same {db' : Db} {r r' : Delivery} (exact_ : Exact db id r)
    (log : attemptsOf db' id = attemptsOf db id) (count : r'.attemptCount = r.attemptCount) :
    Exact db' id r' := by
  constructor
  · rw [log]
    exact exact_.numbers
  · rw [log, count]
    exact exact_.count

/- Under fencing an outcome finds the row that its attempt was numbered from. -/
theorem turn_fenced {w : String} {d r : Delivery} {x : Ran} (fence : Fence cfg s)
    (named : ∀ pid p, s.procs.lookup pid = some p → Named pid p)
    (durable : Durable (protocol κ cfg) s pid p tx) (job : p.job = .processOne w d)
    (mem : x ∈ tx.done.map Txn.Done.ran) (marks : marked x = some (d.id, w))
    (found : Db.find? s.db d.id = some r) : r = d := by
  obtain ⟨d', job', _, found', _⟩ := marked_fenced fence named durable mem marks
  obtain rfl : d = d' := by
    rw [job] at job'
    cases job'
    rfl
  exact Option.some.inj (found.symm.trans found')

theorem newAttempts_tried {a : DeliveryAttempt} {rest : List Ran} (own : a.deliveryId = id)
    (others : rest.filterMap attemptOf = []) :
    newAttempts id (ran (.recordAttempt a) () :: rest) = [a] := by
  simp [newAttempts, attemptOf, own, others]

theorem numbered_room {w : String} {d : Delivery} {time : Time} {a : DeliveryAttempt}
    {rest : List Ran} (counted : numbered cfg
      (.applied pid (.processOne w d) time (ran (.recordAttempt a) () :: rest)) = true) :
    d.attemptCount ≠ Int32.maxValue ∧
      (a.error = none ∨ cfg.retry.isExhausted (d.attemptCount + 1) = false) :=
  of_decide_eq_true (List.all_eq_true.mp counted a List.mem_cons_self)

theorem unit_exact (fence : Fence cfg s)
    (named : ∀ pid p, s.procs.lookup pid = some p → Named pid p)
    (durable : Durable (protocol κ cfg) s pid p tx)
    (counted : numbered cfg (.applied pid p.job tx.time (tx.done.map Txn.Done.ran)) = true)
    (orphan : Db.find? s.db id = (none : Option Delivery) → attemptsOf s.db id = [])
    (old : ∀ r, Db.find? s.db id = some r → Exact s.db id r) {r' : Delivery}
    (found : Db.find? (s.db.apply tx.writes) id = some r') :
    Exact (s.db.apply tx.writes) id r' := by
  rcases delivery_account durable found with ⟨same, log⟩ | ⟨turn, log⟩
  · exact (old r' same).same log rfl
  · have fenced := fun w d r x job mem marks => turn_fenced (w := w) (d := d) (r := r) (x := x)
      fence named durable job mem marks
    generalize unit : tx.done.map Txn.Done.ran = done at turn log counted fenced
    generalize job : p.job = job' at turn counted fenced
    generalize before : (Db.find? s.db id : Option Delivery) = b at turn
    generalize tx.time = now at turn counted
    have ids := Db.find?_id found
    cases turn with
    | published mem commits =>
      rw [orphan before, ← unit, fresh_attempts durable before] at log
      constructor
      · rw [log]
        rfl
      · rw [log]
        rfl
    | claimed first due mem => exact (old _ before).same (log.trans (List.append_nil _)) rfl
    | @succeeded w d e t req a r tried ok same leased =>
      obtain rfl : d.id = id := same.symm.trans ids
      obtain rfl := fenced w d r _ rfl (List.mem_cons_of_mem _ List.mem_cons_self) rfl before
      rw [newAttempts_tried tried.delivery rfl] at log
      have room := numbered_room counted
      exact (old _ before).next log room.1 tried.number rfl
    | @failed w d e t req a error next at_ r tried bad left same leased =>
      obtain rfl : d.id = id := same.symm.trans ids
      obtain rfl := fenced w d r _ rfl (List.mem_cons_of_mem _ List.mem_cons_self) rfl before
      rw [newAttempts_tried tried.delivery rfl] at log
      have room := numbered_room counted
      exact (old _ before).next log room.1 tried.number rfl
    | @exhausted w d e t req a error fresh at_ r tried bad spent same leased =>
      have room := numbered_room counted
      rw [← tried.number, spent, bad.1] at room
      rcases room.2 with none | left
      · cases none
      · cases left
    | hopeless reason same leased => exact (old _ before).same (log.trans (List.append_nil _)) rfl
    | deferred same leased => exact (old _ before).same (log.trans (List.append_nil _)) rfl
    | reset admin => exact (old _ before).same (log.trans (List.append_nil _)) rfl

theorem reach_orphan {cond : State → State → Prop} (reach : Run κ cfg cond .empty s) (id : Uuid)
    (none : Db.find? s.db id = (none : Option Delivery)) : attemptsOf s.db id = [] := by
  revert id
  refine Txn.reach_db (protocol κ cfg)
    (fun db => ∀ id, Db.find? db id = (Option.none : Option Delivery) → attemptsOf db id = [])
    .start (fun _ _ => rfl) ?_ reach
  intro a pid p tx before durable good id none
  have gone : Db.find? a.db id = (Option.none : Option Delivery) := by
    refine Db.find?_none.mpr ?_
    by_contra some
    have kept : ((a.db.apply tx.writes).get? _).isSome :=
      Txn.Store.get?_apply_isSome (Option.isSome_iff_ne_none.mpr some)
    rw [Db.find?_none.mp none] at kept
    cases kept
  rw [attemptsOf_after durable, good id gone, fresh_attempts durable gone]
  rfl

/-- The condition under which the timeline is exact. -/
def Counted (cfg : DispatcherConfig) (s t : State) : Prop :=
  Distinct s ∧ ∀ e ∈ Txn.since s t, numbered cfg e = true

instance (s t : State) : Decidable (Counted cfg s t) := inferInstanceAs (Decidable (_ ∧ _))

theorem reach_exact (reach : Run κ cfg (Counted cfg) .empty s) (id : Uuid) (r : Delivery)
    (found : Db.find? s.db id = some r) : Exact s.db id r := by
  induction reach generalizing r with
  | start => cases found
  | @next s t before step ok ih =>
    have sound := Txn.reach_sound (protocol κ cfg) before
    have fence := reach_fence (fun _ _ ok => unshared_of_distinct ok.1) before
    cases Txn.step_outcome sound step with
    | quiet es same log noted =>
      rw [same] at found ⊢
      exact ih r found
    | durable pid p tx op ans same log noted durable _ =>
      have counted := ok.2 (.applied pid p.job tx.time (tx.done.map Txn.Done.ran)) <| by
        rw [Txn.since_eq (show t.log = [_, _] ++ s.log from log)]
        exact List.mem_cons_of_mem _ List.mem_cons_self
      rw [same] at found ⊢
      exact unit_exact fence (reach_named before) durable counted (reach_orphan before id) ih found

end Exact

structure Timeline (db : Db) (id : Uuid) (r : Delivery) : Prop where
  apart : ((attemptsOf db id).map (·.attemptNumber)).Nodup
  numbers : (attemptsOf db id).map (·.attemptNumber.toInt) =
    (List.range (attemptsOf db id).length).map fun i : Nat => (i : Int) + 1
  count : r.status ≠ .inProgress → r.attemptCount.toInt = (attemptsOf db id).length

/-- While worker ids are distinct, no failed attempt is the last one and no counter is
full, the attempt log of every delivery is an exact timeline. -/
theorem exact_timeline (κ : Prims) (cfg : DispatcherConfig) (s : State)
    (reach : Run κ cfg (Counted cfg) .empty s) (id : Uuid) (r : Delivery)
    (found : Db.find? s.db id = some r) : Timeline s.db id r := by
  obtain ⟨numbers, count⟩ := reach_exact reach id r found
  refine ⟨?_, numbers, fun _ => count⟩
  have apart : (((attemptsOf s.db id).map (·.attemptNumber)).map Int32.toInt).Nodup := by
    rw [List.map_map]
    exact numbers.symm ▸ List.nodup_range.map fun i j eq => by omega
  exact apart.of_map _

theorem exact_timeline_retried : ∃ (s : State) (r : Delivery),
    Run plain Dispatcher.default (Counted Dispatcher.default) .empty s ∧
    Db.find? s.db 3 = some r ∧ (attemptsOf s.db 3).length = 2 ∧ Timeline s.db 3 r := by
  have played : ((Txn.play (engine plain Dispatcher.default)
      (fun s t => Counted Dispatcher.default s t) (.start .empty)
      (published ++ refused (.worker 0 0) 0 1 4 ++
        attempted (.worker 0 0) 0 90000000 5 (.ok ⟨200, "ok"⟩))).bind fun s : State =>
      (Db.find? s.db 3).bind fun r : Delivery =>
      if (attemptsOf s.db 3).length = 2 then some (s, r) else none).isSome := by
    decide
  obtain ⟨⟨s, r⟩, played⟩ := Option.isSome_iff_exists.mp played
  simp only [Option.bind_eq_some_iff, Option.ite_none_right_eq_some] at played
  obtain ⟨_, played, _, found, two, eq⟩ := played
  cases eq
  have reach : Run plain Dispatcher.default (Counted Dispatcher.default) .empty s :=
    Txn.play_reach (fun a b ok => of_decide_eq_true ok) played
  exact ⟨s, r, reach, found, two, exact_timeline plain Dispatcher.default s reach 3 r found⟩

/- One attempt allowed: it fails, and the dead row still counts none. -/
theorem last_attempt_uncounted : ¬ ∀ (κ : Prims) (cfg : DispatcherConfig) (s : State),
    Run κ cfg (fun s _ => Distinct s) .empty s →
    ∀ id r, Db.find? s.db id = some r → Timeline s.db id r := by
  intro all
  let cfg : DispatcherConfig :=
    { Dispatcher.default with retry := { RetryPolicy.default with maxAttempts := 1 } }
  have played : ((Txn.play (engine plain cfg) (fun s _ => Distinct s) (.start .empty)
      (published ++ refused (.worker 0 0) 0 1 4)).bind fun s : State =>
      (Db.find? s.db 3).bind fun r : Delivery =>
      if r.status = .dead ∧ r.attemptCount = 0 ∧ (attemptsOf s.db 3).length = 1 then some (s, r)
      else none).isSome := by
    decide
  obtain ⟨⟨s, r⟩, played⟩ := Option.isSome_iff_exists.mp played
  simp only [Option.bind_eq_some_iff, Option.ite_none_right_eq_some] at played
  obtain ⟨_, played, _, found, ⟨dead, none, one⟩, eq⟩ := played
  cases eq
  have timeline := all plain cfg s (Txn.play_reach (fun a b ok => of_decide_eq_true ok) played)
    3 r found
  have count := timeline.count (by simp [dead])
  rw [none, one] at count
  cases count

end Dropless
