import Dropless.NoLoss
import Dropless.Resolution
import Dropless.Snapshots
import Dropless.Timeline
import Dropless.Txn.Stint

namespace Dropless

open Txn (Durable Reach anyStep)

def replays (id : Uuid) : Entry → Bool
  | .applied _ _ _ unit => unit.any fun x => match x with
    | ⟨.resetForReplay deliveryId, out⟩ => deliveryId = id ∧ out = true
    | _ => false
  | _ => false

/-- What a delivery that was never replayed has spent of its budget. -/
structure Spent (max : Int32) (attempts : List DeliveryAttempt) (r : Delivery) : Prop where
  bound : (attempts.length : Int) ≤ max.toInt
  waiting : r.status ≠ .succeeded → r.status ≠ .dead →
    r.attemptCount.toInt = attempts.length ∧ (attempts.length : Int) < max.toInt
  failed : r.status ≠ .succeeded → ∀ a ∈ attempts, a.error ≠ none
  dead : r.status = .dead → (attempts.length : Int) = max.toInt

structure Budget (cfg : DispatcherConfig) (db : Db) (log : List Entry) (id : Uuid) (r : Delivery) :
    Prop where
  dead : r.status = .dead → ∃ a ∈ attemptsOf db id, a.error ≠ none ∧
    cfg.retry.maxAttempts ≤ a.attemptNumber
  spent : (∀ e ∈ log, replays id e = false) → Spent cfg.retry.maxAttempts (attemptsOf db id) r

section Spent

variable {max : Int32} {attempts : List DeliveryAttempt} {r r' : Delivery} {a : DeliveryAttempt}

theorem Spent.move (spent : Spent max attempts r)
    (before : r.status ≠ .succeeded ∧ r.status ≠ .dead)
    (after : r'.status ≠ .succeeded ∧ r'.status ≠ .dead)
    (count : r'.attemptCount = r.attemptCount) : Spent max attempts r' where
  bound := spent.bound
  waiting _ _ := count ▸ spent.waiting before.1 before.2
  failed _ := spent.failed before.1
  dead dead := absurd dead after.2

theorem Spent.number (spent : Spent max attempts r)
    (before : r.status ≠ .succeeded ∧ r.status ≠ .dead)
    (number : a.attemptNumber = r.attemptCount + 1) :
    a.attemptNumber.toInt = attempts.length + 1 ∧ (attempts.length : Int) < max.toInt := by
  obtain ⟨count, room⟩ := spent.waiting before.1 before.2
  refine ⟨?_, room⟩
  rw [number, toInt_succ, count]
  rintro full
  have upper := max.toInt_lt
  rw [full, Int32.toInt_maxValue] at count
  omega

theorem Spent.succeed (spent : Spent max attempts r)
    (before : r.status ≠ .succeeded ∧ r.status ≠ .dead) (after : r'.status = .succeeded) :
    Spent max (attempts ++ [a]) r' := by
  have room := (spent.waiting before.1 before.2).2
  refine ⟨?_, fun other => absurd after other, fun other => absurd after other, ?_⟩
  · rw [List.length_append, List.length_singleton]
    push_cast
    omega
  · intro dead
    cases after.symm.trans dead

theorem Spent.fail (spent : Spent max attempts r)
    (before : r.status ≠ .succeeded ∧ r.status ≠ .dead)
    (number : a.attemptNumber = r.attemptCount + 1) (bad : a.error ≠ none)
    (after : (r'.status = .failed ∧ r'.attemptCount = a.attemptNumber ∧ ¬ max ≤ a.attemptNumber) ∨
      (r'.status = .dead ∧ max ≤ a.attemptNumber)) : Spent max (attempts ++ [a]) r' := by
  obtain ⟨next, room⟩ := spent.number before number
  have length : ((attempts ++ [a]).length : Int) = attempts.length + 1 := by simp
  have each : ∀ b ∈ attempts ++ [a], b.error ≠ none := by
    intro b hb
    rcases List.mem_append.mp hb with hb | hb
    · exact spent.failed before.1 b hb
    · exact List.mem_singleton.mp hb ▸ bad
  rw [Int32.le_iff_toInt_le, next] at after
  rcases after with ⟨status, count, left⟩ | ⟨status, reached⟩
  · refine ⟨by omega, fun _ _ => ⟨?_, by omega⟩, fun _ => each, ?_⟩
    · rw [count, next, length]
    · intro dead
      cases status.symm.trans dead
  · refine ⟨by omega, fun _ other => absurd status other, fun _ => each, fun _ => by omega⟩

end Spent

section Budget

variable {κ : Prims} {cfg : DispatcherConfig} {cond : State → State → Prop} {s t : State}
  {pid : Pid} {p : Proc} {tx : Txn.Tx Row Time lang} {id : Uuid} {r r' : Delivery} {db db' : Db}
  {log log' : List Entry}

theorem Budget.mono (budget : Budget cfg db log id r) (same : attemptsOf db' id = attemptsOf db id)
    (grows : log ⊆ log') : Budget cfg db' log' id r := by
  refine ⟨?_, fun never => ?_⟩
  · rw [same]
    exact budget.dead
  · rw [same]
    exact budget.spent fun e he => never e (grows he)

theorem Budget.move (budget : Budget cfg db log id r) (same : attemptsOf db' id = attemptsOf db id)
    (grows : log ⊆ log') (before : r.status ≠ .succeeded ∧ r.status ≠ .dead)
    (after : r'.status ≠ .succeeded ∧ r'.status ≠ .dead)
    (count : r'.attemptCount = r.attemptCount) : Budget cfg db' log' id r' := by
  refine ⟨fun dead => absurd dead after.2, fun never => ?_⟩
  rw [same]
  exact (budget.spent fun e he => never e (grows he)).move before after count

theorem due_open {now : Time} (due : Store.due now r = true) :
    r.status ≠ .succeeded ∧ r.status ≠ .dead := by
  simp only [Store.due, decide_eq_true_eq] at due
  rcases due with ⟨status | status, _⟩ | ⟨status, _⟩ <;> simp [status]

/- A lease is only ever on a delivery in progress. -/
theorem leased_open {w : String} {now : Time} (reach : Run κ cfg cond .empty s)
    (found : Db.find? s.db id = some r) (leased : Store.leased w now r = true) :
    r.status ≠ .succeeded ∧ r.status ≠ .dead := by
  simp only [Store.leased, decide_eq_true_eq] at leased
  obtain ⟨k, stands⟩ := reach_stands reach id r found
  cases k with
  | held => simp [stands.1]
  | waiting => cases stands.2.1.symm.trans leased.1
  | delivered => cases stands.2.1.symm.trans leased.1
  | buried => cases stands.2.1.symm.trans leased.1

theorem unit_budget (total : κ.Total) (positive : 1 ≤ cfg.retry.maxAttempts)
    (reach : Run κ cfg (fun s _ => Distinct s) .empty s)
    (durable : Durable (protocol κ cfg) s pid p tx)
    (logged : .applied pid p.job tx.time (tx.done.map Txn.Done.ran) :: s.log ⊆ log)
    (old : ∀ r, Db.find? s.db id = some r → Budget cfg s.db s.log id r)
    (found : Db.find? (s.db.apply tx.writes) id = some r') :
    Budget cfg (s.db.apply tx.writes) log id r' := by
  have grows : s.log ⊆ log := fun e he => logged (List.mem_cons_of_mem _ he)
  rcases delivery_account durable found with ⟨same, attempts⟩ | ⟨turn, attempts⟩
  · exact (old r' same).mono attempts grows
  · have fence := reach_fence (fun _ _ ok => unshared_of_distinct ok) reach
    have fenced := fun w d r x job mem marks => turn_fenced (w := w) (d := d) (r := r) (x := x)
      fence (reach_named reach) durable job mem marks
    have hopeless := fun w d job => hopeless_never (w := w) (d := d) total reach durable.live job
    generalize unit : tx.done.map Txn.Done.ran = done at turn attempts fenced logged
    generalize job : p.job = job' at turn fenced hopeless logged
    generalize before : (Db.find? s.db id : Option Delivery) = b at turn
    generalize tx.time = now at turn logged
    have ids := Db.find?_id found
    cases turn with
    | published mem commits =>
      rw [reach_orphan reach id before, ← unit, fresh_attempts durable before] at attempts
      refine ⟨nofun, fun _ => ?_⟩
      rw [attempts]
      have room : (1 : Int) ≤ cfg.retry.maxAttempts.toInt := Int32.le_iff_toInt_le.mp positive
      refine ⟨?_, fun _ _ => ⟨rfl, ?_⟩, fun _ a none => (List.not_mem_nil none).elim, nofun⟩
      · exact Int.le_trans (by decide) room
      · exact Int.lt_of_lt_of_le (by decide) room
    | claimed first due mem =>
      exact (old _ before).move (attempts.trans (List.append_nil _)) grows (due_open due)
        ⟨nofun, nofun⟩ rfl
    | @succeeded w d e t req a r tried ok same leased =>
      obtain rfl : d.id = id := same.symm.trans ids
      rw [newAttempts_tried tried.delivery rfl] at attempts
      refine ⟨nofun, fun never => ?_⟩
      rw [attempts]
      exact ((old _ before).spent fun e he => never e (grows he)).succeed
        (leased_open reach before leased) rfl
    | @failed w d e t req a error next at_ r tried bad left same leased =>
      obtain rfl : d.id = id := same.symm.trans ids
      obtain rfl := fenced w d r _ rfl (List.mem_cons_of_mem _ List.mem_cons_self) rfl before
      rw [newAttempts_tried tried.delivery rfl] at attempts
      refine ⟨nofun, fun never => ?_⟩
      rw [attempts]
      exact ((old _ before).spent fun e he => never e (grows he)).fail
        (leased_open reach before leased) tried.number (by simp [bad.1])
        (.inl ⟨rfl, rfl, of_decide_eq_false left⟩)
    | @exhausted w d e t req a error fresh at_ r tried bad spent same leased =>
      obtain rfl : d.id = id := same.symm.trans ids
      obtain rfl := fenced w d r _ rfl (List.mem_cons_of_mem _ List.mem_cons_self) rfl before
      rw [newAttempts_tried tried.delivery rfl] at attempts
      refine ⟨fun _ => ?_, fun never => ?_⟩
      · rw [attempts]
        exact ⟨a, List.mem_append_right _ List.mem_cons_self, by simp [bad.1],
          of_decide_eq_true spent⟩
      · rw [attempts]
        exact ((old _ before).spent fun e he => never e (grows he)).fail
          (leased_open reach before leased) tried.number (by simp [bad.1])
          (.inr ⟨rfl, of_decide_eq_true spent⟩)
    | hopeless reason same leased => exact (hopeless _ _ rfl reason).elim
    | deferred same leased =>
      exact (old _ before).move (attempts.trans (List.append_nil _)) grows
        (leased_open reach before leased) ⟨nofun, nofun⟩ rfl
    | @reset _ r admin =>
      refine ⟨nofun, fun never => ?_⟩
      have hit := never _ (logged List.mem_cons_self)
      obtain rfl : r.id = id := ids
      simp [replays] at hit

theorem reach_budget (total : κ.Total) (positive : 1 ≤ cfg.retry.maxAttempts)
    (reach : Run κ cfg (fun s _ => Distinct s) .empty s) (id : Uuid) (r : Delivery)
    (found : Db.find? s.db id = some r) : Budget cfg s.db s.log id r := by
  induction reach generalizing r with
  | start => cases found
  | @next s t before step ok ih =>
    cases Txn.step_outcome (Txn.reach_sound (protocol κ cfg) before) step with
    | quiet es same log noted =>
      rw [same] at found ⊢
      exact (ih r found).mono rfl (log ▸ List.subset_append_right _ _)
    | durable pid p tx op ans same log noted durable _ =>
      rw [same] at found ⊢
      exact unit_budget total positive before durable (log ▸ List.subset_cons_self _ _) ih found

end Budget

section Deferral

/- The units of claims, and of the runs of `process_one` that end in a deferral: the
endpoint is read, a probe may be refused, and the delivery is put off. -/
def defers : Entry → Bool
  | .applied _ _ _ unit => unit.all fun x => match x with
    | ⟨.claimDueDeliveries .., _⟩ => true
    | ⟨.getEndpoint _, _⟩ => true
    | ⟨.tryAcquireProbe .., out⟩ => out = false
    | ⟨.deferDelivery .., _⟩ => true
    | _ => false
  | _ => true

/-- Nothing but claims and deferrals becomes durable. -/
def Defers (s t : State) : Prop := ∀ e ∈ Txn.since s t, defers e = true

instance (s t : State) : Decidable (Defers s t) :=
  inferInstanceAs (Decidable (∀ e ∈ Txn.since s t, defers e = true))

structure Untouched (db db' : Db) : Prop where
  counts : ∀ id (d : Delivery), Db.find? db id = some d →
    ∃ d' : Delivery, Db.find? db' id = some d' ∧ d'.attemptCount = d.attemptCount
  attempts : Db.all DeliveryAttempt db' = Db.all DeliveryAttempt db
  letters : Db.all DeadLetter db' = Db.all DeadLetter db
  endpoints : Db.all Endpoint db' = Db.all Endpoint db

variable {κ : Prims} {cfg : DispatcherConfig} {cond : State → State → Prop} {s t : State} {db : Db}
  {pid : Pid} {p : Proc} {tx : Txn.Tx Row Time lang}

theorem defers_place (durable : Durable (protocol κ cfg) s pid p tx)
    (defer : defers (.applied pid p.job tx.time (tx.done.map Txn.Done.ran)) = true) :
    ∀ w ∈ tx.writes, w.after.key.table = .deliveries := by
  intro w hw
  obtain ⟨⟨q, out, ws⟩, hd, hw⟩ := Txn.mem_writes hw
  obtain ⟨c, view, exec⟩ := durable.ran _ hd
  have kind := List.all_eq_true.mp defer _ (List.mem_map_of_mem hd)
  have place := (Stmt.exec_shape exec).in_table w hw
  have run := Stmt.exec_ok exec
  cases q with
  | claimDueDeliveries | deferDelivery => exact (Option.some.inj place).symm
  | getEndpoint => cases place
  | tryAcquireProbe id lease =>
    -- a probe that was not acquired matched no row
    obtain ⟨same, rfl⟩ := Prod.mk.inj (Except.ok.inj run)
    obtain ⟨_, _, _, _, updated⟩ := Store.mem_update hw
    have hit : true = out := (congrArg Option.isSome updated).symm.trans same
    cases hit
    cases kind
  | _ => cases kind

theorem unit_untouched (durable : Durable (protocol κ cfg) s pid p tx)
    (defer : defers (.applied pid p.job tx.time (tx.done.map Txn.Done.ran)) = true) :
    Untouched s.db (s.db.apply tx.writes) := by
  have place := defers_place durable defer
  refine ⟨fun id d found => ?_, Db.all_apply_outside durable.valid ?_,
    Db.all_apply_outside durable.valid ?_, Db.all_apply_outside durable.valid ?_⟩
  · obtain ⟨d', found', _⟩ := find_kept (fun _ _ => durable_keeps durable) found
    refine ⟨d', found', ?_⟩
    rcases delivery_turn durable found' with old | turn
    · exact congrArg Delivery.attemptCount (Option.some.inj (old.symm.trans found))
    · rw [found] at turn
      generalize tx.done.map Txn.Done.ran = unit at turn defer
      generalize p.job = job at turn defer
      cases turn with
      | claimed | deferred => rfl
      | succeeded | failed | exhausted | hopeless | reset => cases defer
  · exact fun w hw => place w hw ▸ nofun
  · exact fun w hw => place w hw ▸ nofun
  · exact fun w hw => place w hw ▸ nofun

theorem Untouched.trans {a b c : Db} (ab : Untouched a b) (bc : Untouched b c) : Untouched a c := by
  refine ⟨fun id d found => ?_, bc.attempts.trans ab.attempts, bc.letters.trans ab.letters,
    bc.endpoints.trans ab.endpoints⟩
  obtain ⟨d', found', same⟩ := ab.counts id d found
  obtain ⟨d'', found'', same'⟩ := bc.counts id d' found'
  exact ⟨d'', found'', same'.trans same⟩

theorem reach_untouched (before : Run κ cfg anyStep db s)
    (later : Reach (engine κ cfg) Defers s t) : Untouched s.db t.db := by
  induction later with
  | start => exact ⟨fun _ d found => ⟨d, found, rfl⟩, rfl, rfl, rfl⟩
  | @next a b mid step ok ih =>
    have reach := before.trans (mid.weaken fun _ _ _ => trivial)
    cases Txn.step_outcome (Txn.reach_sound (protocol κ cfg) reach) step with
    | quiet es same log noted => exact same ▸ ih
    | durable pid p tx op ans same log noted durable _ =>
      have new : Txn.since a b = [_, _] := Txn.since_eq log
      rw [same]
      exact ih.trans (unit_untouched durable
        (ok _ (new ▸ List.mem_cons_of_mem _ List.mem_cons_self)))

end Deferral

section PutOff

variable {κ : Prims} {cfg : DispatcherConfig} {w : String} {d : Delivery} {past : Past}

def IsDefer : Op → Prop
  | .stmt (.deferDelivery ..) => True
  | _ => False

/-- The calls of `process_one` up to a deferral, and the deferral. -/
def Deferring (w : String) (d : Delivery) : (Σ op : Op, op.Ans) → Prop
  | ⟨.env .utcNow, _⟩ => True
  | ⟨.stmt (.getEndpoint id), _⟩ => id = d.endpointId
  | ⟨.stmt (.tryAcquireProbe ..), ans⟩ => ans = (.ok false : Except DbError Bool)
  | ⟨.stmt (.deferDelivery id workerId _), _⟩ => id = d.id ∧ workerId = w
  | _ => False

def Kept (now : Past) : Prop := ∀ call ∈ now.calls, ¬ IsDefer call.1

def Mere (w : String) (d : Delivery) (now : Past) : Prop := ∀ call ∈ now.calls, Deferring w d call

theorem Kept.after {op : Op} {ans : op.Ans} (kept : Kept past) (other : ¬ IsDefer op) :
    Kept (past.after op ans) := List.forall_mem_cons.mpr ⟨other, kept⟩

theorem Mere.after {op : Op} {ans : op.Ans} (mere : Mere w d past)
    (one : Deferring w d ⟨op, ans⟩) : Mere w d (past.after op ans) :=
  List.forall_mem_cons.mpr ⟨one, mere⟩

/- Nothing is called after a deferral, and what ends in one has called nothing else. -/
abbrev Puts {α : Type} (w : String) (d : Delivery) (past : Past) (x : Io α) : Prop :=
  Txn.Along (fun now _ => Kept now) (fun now _ => Kept now ∨ Mere w d now) past x

theorem puts_never {α : Type} {x : Io α} (never : Only (fun op => ¬ IsDefer op) x)
    (kept : Kept past) : Puts w d past x :=
  (Txn.along_free (show ∀ op k, IsDefer op → ¬ Txn.Makes op k x from
    fun op k same made => never op k made same) kept).mono fun _ _ => .inl

theorem quiet_never {op : Op} (quiet : Quiet op) : ¬ IsDefer op := by
  cases op with
  | stmt q => cases q <;> first | exact id | exact quiet.elim
  | _ => exact id

theorem puts_deliver {e : Endpoint} {now : Time} (kept : Kept past) :
    Puts w d past (Dispatcher.deliver κ cfg w d e now) := by
  refine puts_never (fun op k made => ?_) kept
  rcases only_deliver op k made with quiet | ⟨req, rfl⟩
  · exact quiet_never quiet
  · exact id

theorem puts_deferDelivery {next : Time} (kept : Kept past) (mere : Mere w d past) :
    Puts w d past (Dispatcher.deferDelivery d w next) := by
  refine (Txn.along_then _ _ _).mpr ⟨kept, fun ans => ?_⟩
  have ended : Mere w d (past.after (.stmt (.deferDelivery d.id w next)) ans) :=
    mere.after ⟨rfl, rfl⟩
  cases ans with
  | error e => exact .inr ended
  | ok out => exact .inr ended

theorem puts_consult {e : Endpoint} {now : Time} (kept : Kept past) (mere : Mere w d past) :
    Puts w d past (Dispatcher.consult κ cfg w d e now) := by
  unfold Dispatcher.consult
  split
  · exact puts_deferDelivery kept mere
  · split
    · exact puts_deferDelivery kept mere
    · refine (Txn.along_then _ _ _).mpr ⟨kept, fun ans => ?_⟩
      cases ans with
      | error e => exact .inl (kept.after id)
      | ok acquired =>
        cases acquired with
        | true => exact puts_deliver (kept.after id)
        | false => exact puts_deferDelivery (kept.after id) (mere.after rfl)
    · exact puts_deliver kept

theorem puts_processOne : Puts w d .start (Dispatcher.processOne κ cfg w d) := by
  have kept : Kept .start := fun call mem => by cases mem
  refine (Txn.along_then _ _ _).mpr ⟨kept, fun now => ?_⟩
  refine (Txn.along_then _ _ _).mpr ⟨kept.after id, fun ans => ?_⟩
  cases ans with
  | error e => exact .inl ((kept.after id).after id)
  | ok found =>
    cases found with
    | none =>
      refine puts_never (fun op k made => quiet_never ?_) ((kept.after id).after id)
      exact quiet_markDead op k made
    | some e =>
      have mere : Mere w d .start := fun call mem => by cases mem
      have clock : Mere w d (Txn.Past.start.after (.env .utcNow : Op) now) := mere.after trivial
      exact puts_consult ((kept.after id).after id) (clock.after rfl)

def deferral (κ : Prims) (cfg : DispatcherConfig) : Txn.Spec (engine κ cfg) where
  allows job now _ := ∀ w d, job = .processOne w d → Kept now
  ensures job now _ := ∀ w d, job = .processOne w d → Kept now ∨ Mere w d now
  along job := by
    by_cases worker : ∃ w d, job = .processOne w d
    · obtain ⟨w, d, rfl⟩ := worker
      refine (Txn.along_bind _ _ _).mpr ((puts_processOne.relax ?_).mono ?_)
      · intro now op kept w' d' _
        exact kept
      · intro now r ended w' d' same
        cases same
        exact ended
    · have other : ∀ w d, job ≠ .processOne w d := fun w d same => worker ⟨w, d, same⟩
      exact Txn.along_any (fun _ _ w d same => (other w d same).elim)
        (fun _ _ w d same => (other w d same).elim) _ _

variable {cond : State → State → Prop} {db : Db} {s : State} {pid : Pid} {p : Proc}

/-- The run of `process_one` ends with the deferral: it called nothing else, and all that it
made durable are units of a deferral. -/
structure PutOff (s : State) (pid : Pid) (p : Proc) (w : String) (d : Delivery) : Prop where
  ended : ∃ res, p.prog = .ret res
  calls : ∀ call ∈ p.calls, Deferring w d call
  units : ∃ seg older, s.log = seg ++ .started pid p.job :: older ∧
    ∀ e ∈ seg, e.pid = pid → defers e = true

theorem made_defers {unit : List Ran} {time : Time} (made : Txn.Made (deferral κ cfg) p unit)
    (mere : ∀ call ∈ p.calls, Deferring w d call) :
    defers (.applied pid p.job time unit) = true := by
  cases made with
  | committed mem => exact (mere _ mem).elim
  | @alone q out ans past one outside allowed mem told =>
    subst one
    have deferring := mere _ mem
    cases q with
    | getEndpoint | deferDelivery => rfl
    | tryAcquireProbe id lease =>
      have refused : ans = .ok false := deferring
      rcases told with ok | ⟨e, lost⟩
      · cases refused.symm.trans ok
        rfl
      · cases refused.symm.trans lost
    | _ => exact deferring.elim

theorem reach_putOff (reach : Run κ cfg cond db s) (live : s.procs.lookup pid = some p)
    (job : p.job = .processOne w d) (call : ∃ call ∈ p.calls, IsDefer call.1) :
    PutOff s pid p w d := by
  obtain ⟨call, mem, defer⟩ := call
  have along := ((Txn.reach_sound (deferral κ cfg) reach).each pid p live).along
  generalize head : p.prog = prog at along
  cases prog with
  | call op k => exact (along.1 w d job call mem defer).elim
  | ret res =>
    have mere := (along w d job).resolve_left fun kept => kept call mem defer
    obtain ⟨seg, older, stint⟩ := Txn.reach_stint (deferral κ cfg) reach live
    refine ⟨⟨res, head⟩, mere, seg, older, stint.log, fun e here own => ?_⟩
    cases e with
    | applied pid' job' time unit =>
      obtain rfl : pid' = pid := own
      obtain ⟨rfl, made⟩ := stint.own job' time unit here
      exact made_defers made mere
    | _ => rfl

end PutOff

/-- The retry budget: a delivery is dead only after a failed attempt whose number reaches the
limit; never replayed, it has at most as many attempts as the limit, and exactly as many, all
failed, if it is dead; no number of deferrals counts as one, and a worker that puts its delivery
off does nothing else. -/
theorem retry_budget (κ : Prims) (cfg : DispatcherConfig) (total : κ.Total)
    (positive : 1 ≤ cfg.retry.maxAttempts) :
    (∀ s, Run κ cfg (fun s _ => Distinct s) .empty s → ∀ id (r : Delivery),
      Db.find? s.db id = some r →
      (r.status = .dead → ∃ a ∈ attemptsOf s.db id, a.error ≠ none ∧
        cfg.retry.maxAttempts ≤ a.attemptNumber) ∧
      ((∀ e ∈ s.log, replays id e = false) →
        ((attemptsOf s.db id).length : Int) ≤ cfg.retry.maxAttempts.toInt ∧
        (r.status = .dead → ((attemptsOf s.db id).length : Int) = cfg.retry.maxAttempts.toInt ∧
          ∀ a ∈ attemptsOf s.db id, a.error ≠ none))) ∧
    (∀ db s t, Run κ cfg anyStep db s → Reach (engine κ cfg) Defers s t →
      Untouched s.db t.db) ∧
    (∀ db s, Run κ cfg anyStep db s → ∀ pid p w d, s.procs.lookup pid = some p →
      p.job = .processOne w d → (∃ call ∈ p.calls, IsDefer call.1) → PutOff s pid p w d) := by
  refine ⟨fun s reach id r found => ?_, fun db s t => reach_untouched,
    fun db s reach pid p w d => reach_putOff reach⟩
  have budget := reach_budget total positive reach id r found
  refine ⟨budget.dead, fun never => ?_⟩
  have spent := budget.spent never
  refine ⟨spent.bound, fun dead => ⟨spent.dead dead, spent.failed ?_⟩⟩
  simp [dead]

def puttingOff (s : State) (pid : Pid) : Option (String × Delivery) :=
  (s.procs.lookup pid).bind fun p => match p.job, p.calls with
    | .processOne w d, ⟨.stmt (.deferDelivery ..), _⟩ :: _ => some (w, d)
    | _, _ => none

theorem puttingOff_call {s : State} {pid : Pid} {w : String} {d : Delivery}
    (h : puttingOff s pid = some (w, d)) : ∃ p, s.procs.lookup pid = some p ∧
      p.job = .processOne w d ∧ ∃ call ∈ p.calls, IsDefer call.1 := by
  obtain ⟨p, live, here⟩ := Option.bind_eq_some_iff.mp h
  split at here
  · rename_i job calls
    cases here
    refine ⟨p, live, job, _, calls ▸ List.mem_cons_self, ?_⟩
    trivial
  · cases here

theorem retry_budget_spent : ∃ (cfg : DispatcherConfig) (s t u : State) (p : Proc) (w : String)
    (d r : Delivery), 1 ≤ cfg.retry.maxAttempts ∧ plain.Total ∧
    Run plain cfg anyStep .empty s ∧ Reach (engine plain cfg) Defers s t ∧
    s.log.length < t.log.length ∧ Untouched s.db t.db ∧ PutOff t (.worker 0 0) p w d ∧
    Run plain cfg (fun s _ => Distinct s) .empty u ∧ Db.find? u.db 3 = some r ∧
    r.status = .dead ∧ (∀ e ∈ u.log, replays 3 e = false) ∧
    ((attemptsOf u.db 3).length : Int) = cfg.retry.maxAttempts.toInt := by
  let cfg : DispatcherConfig :=
    { Dispatcher.default with retry := { RetryPolicy.default with maxAttempts := 1 } }
  have total : plain.Total := ⟨fun _ => ⟨_, rfl⟩, fun _ => rfl⟩
  have positive : 1 ≤ cfg.retry.maxAttempts := by decide
  have budget := retry_budget plain cfg total positive
  have deferred : ((replay plain cfg (.start .empty) (published ++
      .spawn (.client 0) (.updateEndpoint 1 "t" none (some true) none) ::
        go 2 (.client 0) 0 0 (.error ""))).bind fun s : State =>
      (Txn.play (engine plain cfg) (fun s t => Defers s t) s
        (.spawn (.worker 0 0) (.claim (workerId 0)) :: go 5 (.worker 0 0) 1 0 (.error ""))).bind
        fun t : State => (puttingOff t (.worker 0 0)).bind fun x =>
          if s.log.length < t.log.length then some (s, t, x) else none).isSome := by
    decide
  obtain ⟨⟨s, t, w, d⟩, deferred⟩ := Option.isSome_iff_exists.mp deferred
  simp only [Option.bind_eq_some_iff, Option.ite_none_right_eq_some] at deferred
  obtain ⟨_, before, _, later, _, putting, longer, eq⟩ := deferred
  cases eq
  have before := replay_reach before
  have later : Reach (engine plain cfg) Defers s t :=
    Txn.play_reach (fun a b ok => of_decide_eq_true ok) later
  obtain ⟨p, live, job, call⟩ := puttingOff_call putting
  have whole := before.trans (later.weaken fun _ _ _ => trivial)
  have spent : ((Txn.play (engine plain cfg) (fun s _ => Distinct s) (.start .empty)
      (published ++ refused (.worker 0 0) 0 1 4)).bind fun s : State =>
      (Db.find? s.db 3).bind fun r : Delivery =>
      if r.status = .dead ∧ ∀ e ∈ s.log, replays 3 e = false then some (s, r)
      else none).isSome := by
    decide
  obtain ⟨⟨u, r⟩, spent⟩ := Option.isSome_iff_exists.mp spent
  simp only [Option.bind_eq_some_iff, Option.ite_none_right_eq_some] at spent
  obtain ⟨_, spent, _, found, ⟨dead, never⟩, eq⟩ := spent
  cases eq
  have reach : Run plain cfg (fun s _ => Distinct s) .empty u :=
    Txn.play_reach (fun a b ok => of_decide_eq_true ok) spent
  refine ⟨cfg, s, t, u, p, w, d, r, positive, total, before, later, longer, ?_, ?_, reach, found,
    dead, never, ?_⟩
  · exact budget.2.1 .empty s t before later
  · exact budget.2.2 .empty t whole (.worker 0 0) p w d live job call
  · exact (((budget.1 u reach 3 r found).2 never).2 dead).1

end Dropless
