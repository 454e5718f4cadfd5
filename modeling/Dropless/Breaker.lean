import Dropless.Scenario
import Dropless.Snapshots

namespace Dropless

open Txn (Durable anyStep)

def Endpoint.circuit (e : Endpoint) : CircuitUpdate :=
  ⟨e.circuitState, e.circuitOpenUntil, e.consecutiveFailures⟩

section Wired

variable {κ : Prims} {cfg : DispatcherConfig} {s : State} {pid : Pid} {p : Proc}
  {tx : Txn.Tx Row Time lang} {calls : Calls} {now : Time} {job : Job} {unit : List Ran}

/-- The versions of an endpoint that a statement writes, with what they replace. -/
inductive Rewired (now : Time) : (q : Stmt) → q.Out → Option Endpoint → Endpoint → Prop where
  | created {id tenant consumer url secret types e} (new : e.circuit = Circuit.onSuccess) :
      Rewired now (.createEndpoint id tenant consumer url secret types) e none e
  | patched {id tenant url disabled types b e} (kept : e.circuit = b.circuit) :
      Rewired now (.updateEndpoint id tenant url disabled types) (some e) (some b) e
  | settled {id state openUntil failures b e} (own : b.id = id)
      (set : e.circuit = ⟨state, openUntil, failures⟩) :
      Rewired now (.updateCircuit id state openUntil failures) () (some b) e
  | probed {id lease b e} (own : b.id = id) (due : Store.probeDue now b = true)
      (set : e.circuit =
        ⟨"half_open", some (now + seconds lease.toInt), b.consecutiveFailures⟩) :
      Rewired now (.tryAcquireProbe id lease) true (some b) e

theorem wrote_endpoint {q : Stmt} {out : q.Out} {ws : List Write} {w : Write} {e : Endpoint}
    {skipped : List Uuid} {view : Db} (h : q.exec now skipped view = .ok (out, ws)) (mem : w ∈ ws)
    (after : w.after = .endpoint e) :
    ∃ b : Option Endpoint, w.before = b.map Row.endpoint ∧ Rewired now q out b e := by
  have place : q.target = some .endpoints := by
    rw [(Stmt.exec_shape h).in_table w mem, after]
    rfl
  have run := Stmt.exec_ok h
  cases q with
  | createEndpoint id tenant consumer url secret types =>
    obtain ⟨rfl, _, inserted⟩ := Store.createEndpoint_ok run
    have eq := Store.mem_insert inserted mem
    subst eq
    cases after
    exact ⟨none, rfl, .created rfl⟩
  | updateEndpoint id tenant url disabled types =>
    obtain ⟨same, rfl⟩ := Prod.mk.inj (Except.ok.inj run)
    obtain ⟨b, _, _, rfl, updated⟩ := Store.mem_update mem
    cases after
    obtain rfl : some _ = out := updated.symm.trans same
    exact ⟨some b, rfl, .patched rfl⟩
  | updateCircuit id state openUntil failures =>
    obtain ⟨_, rfl⟩ := Prod.mk.inj (Except.ok.inj run)
    obtain ⟨b, own, _, rfl, _⟩ := Store.mem_update mem
    cases after
    exact ⟨some b, rfl, .settled own rfl⟩
  | tryAcquireProbe id lease =>
    obtain ⟨same, rfl⟩ := Prod.mk.inj (Except.ok.inj run)
    obtain ⟨b, own, due, rfl, updated⟩ := Store.mem_update mem
    cases after
    obtain rfl : true = out := (congrArg Option.isSome updated).symm.trans same
    exact ⟨some b, rfl, .probed own due rfl⟩
  | _ => cases place

variable (κ cfg)

/-- What a durable unit does to the circuit of an endpoint. -/
inductive Wired (calls : Calls) (now : Time) : Job → List Ran → Option Endpoint → Endpoint →
    Prop where
  | created {job unit e} (new : e.circuit = Circuit.onSuccess) : Wired calls now job unit none e
  | patched {job id tenant url disabled types b e} (kept : e.circuit = b.circuit) :
      Wired calls now job [ran (.updateEndpoint id tenant url disabled types) (some e)] (some b) e
  | succeeded {w d unit b e} (settles : Settles κ cfg w d calls unit)
      (mem : circuitRan b.id Circuit.onSuccess ∈ unit) (set : e.circuit = Circuit.onSuccess) :
      Wired calls now (.processOne w d) unit (some b) e
  | failed {w d unit b e at_} {read : Endpoint} (settles : Settles κ cfg w d calls unit)
      (mem : circuitRan b.id (Circuit.onFailure read cfg.circuit at_) ∈ unit)
      (set : e.circuit = Circuit.onFailure read cfg.circuit at_) :
      Wired calls now (.processOne w d) unit (some b) e
  | probed {w d b e} (due : Store.probeDue now b = true)
      (set : e.circuit = ⟨"half_open",
        some (now + seconds (Circuit.probeLease cfg.circuit).toInt), b.consecutiveFailures⟩) :
      Wired calls now (.processOne w d)
        [ran (.tryAcquireProbe b.id (Circuit.probeLease cfg.circuit)) true] (some b) e

variable {κ cfg}

theorem rewired_target {q : Stmt} {out : q.Out} {b : Option Endpoint} {e : Endpoint}
    (rewired : Rewired now q out b e) : q.target = some .endpoints := by
  cases rewired <;> rfl

theorem alone_endpoints {q : Stmt} (alone : Alone cfg calls job q)
    (place : q.target = some .endpoints) :
    (∃ id tenant consumer url secret types,
      q = .createEndpoint id tenant consumer url secret types) ∨
    (∃ id tenant url disabled types, q = .updateEndpoint id tenant url disabled types) ∨
    (∃ w d id, job = .processOne w d ∧
      q = .tryAcquireProbe id (Circuit.probeLease cfg.circuit)) := by
  have admin : Admin calls q → (∃ id tenant consumer url secret types,
      q = .createEndpoint id tenant consumer url secret types) ∨
      (∃ id tenant url disabled types, q = .updateEndpoint id tenant url disabled types) := by
    intro admin
    cases admin with
    | read quiet => cases quiet.symm.trans place
    | createEndpoint => exact .inl ⟨_, _, _, _, _, _, rfl⟩
    | updateEndpoint => exact .inr ⟨_, _, _, _, _, rfl⟩
    | _ => cases place
  cases job with
  | claim w =>
    obtain ⟨rfl, _⟩ := alone
    cases place
  | processOne w d =>
    cases alone with
    | probe => exact .inr (.inr ⟨w, d, _, rfl, rfl⟩)
    | _ => cases place
  | enqueueMessage | accept => cases alone
  | ingest => cases (show q.target = none from alone).symm.trans place
  | updateEndpoint | resetForReplay | serve | command =>
    exact (admin alone).imp_right .inl

theorem wired_alone {q : Stmt} {out : q.Out} {b : Option Endpoint} {e : Endpoint}
    (alone : Alone cfg calls job q) (rewired : Rewired now q out b e) :
    Wired κ cfg calls now job [ran q out] b e := by
  rcases alone_endpoints alone (rewired_target rewired) with
    ⟨_, _, _, _, _, _, rfl⟩ | ⟨_, _, _, _, _, rfl⟩ | ⟨w, d, id, rfl, rfl⟩
  · cases rewired with
    | created new => exact .created new
  · cases rewired with
    | patched kept => exact .patched kept
  · cases rewired with
    | probed own due set => exact own ▸ .probed due set

theorem commits_endpoints {q : Stmt} {out : q.Out} (commits : Commits κ cfg calls job unit)
    (mem : ran q out ∈ unit) (place : q.target = some .endpoints) :
    ∃ w d, job = .processOne w d ∧ Settles κ cfg w d calls unit ∧ ∃ id u,
      ran q out = circuitRan id u ∧
        (u = Circuit.onSuccess ∨ ∃ e t, u = Circuit.onFailure e cfg.circuit t) := by
  rcases commits.settles_or_files with ⟨w, d, rfl, settles⟩ | files
  · refine ⟨_, _, rfl, settles, ?_⟩
    have closing := settles.closing mem
    generalize eq : ran q out = x at closing
    cases closing with
    | circuit next => exact ⟨_, _, rfl, next⟩
    | _ =>
      cases eq
      cases place
  · have filing := files _ mem
    generalize eq : ran q out = x at filing
    cases filing <;> cases eq <;> cases place

/-- The inversion lemma for endpoint rows. -/
theorem endpoint_wired (durable : Durable (protocol κ cfg) s pid p tx) {id : Uuid} {e : Endpoint}
    (found : Db.find? (s.db.apply tx.writes) id = some e) :
    Db.find? s.db id = some e ∨
      Wired κ cfg p.calls tx.time p.job (tx.done.map Txn.Done.ran) (Db.find? s.db id) e := by
  rcases row_written durable found with
    old | ⟨pre, q, out, ws, post, w, c, view, done, exec, mem, after, row⟩
  · exact .inl old
  · refine .inr ?_
    obtain ⟨b, before, rewired⟩ := wrote_endpoint exec mem after
    have place := rewired_target rewired
    have unit : tx.done.map Txn.Done.ran =
        pre.map Txn.Done.ran ++ ran q out :: post.map Txn.Done.ran := by
      rw [done, List.map_append, List.map_cons]
      rfl
    rcases unit_allowed durable with commits | ⟨one, eq, alone⟩
    · have mem := unit ▸ List.mem_append_right (pre.map Txn.Done.ran) List.mem_cons_self
      obtain ⟨w, d, job, settles, id', u, eq, kind⟩ := commits_endpoints commits mem place
      have apart := settles.targets
      rw [unit, List.map_append, List.map_cons, List.nodup_append] at apart
      rw [row b before (.inl fun x hx same => apart.2.2 _ (List.mem_map_of_mem hx) _
        List.mem_cons_self (same.trans place.symm)), job]
      rw [eq] at mem
      cases eq
      cases rewired with
      | settled own set =>
        rw [← own] at mem
        rcases kind with rfl | ⟨read, t, rfl⟩
        · exact .succeeded settles mem set
        · exact .failed settles mem set
    · obtain ⟨rfl, rfl, rfl⟩ := alone_split eq done
      rw [row b before (.inl fun x hx => by cases hx), unit]
      exact wired_alone alone rewired

end Wired

section Coherent

/-- The circuit is tripped: `open`, or `half_open` while a probe is under way. -/
def CircuitUpdate.Tripped (c : CircuitUpdate) : Prop := c.state = "open" ∨ c.state = "half_open"

instance (c : CircuitUpdate) : Decidable c.Tripped :=
  inferInstanceAs (Decidable (_ ∨ _))

/-- What ties the columns of a circuit together. -/
structure Coherent (policy : CircuitPolicy) (c : CircuitUpdate) : Prop where
  known : c.state = "closed" ∨ c.Tripped
  closed : c.state = "closed" → c.openUntil = none ∧
    (1 ≤ policy.failureThreshold → c.consecutiveFailures < policy.failureThreshold)
  tripped : c.Tripped → c.openUntil.isSome ∧ policy.failureThreshold ≤ c.consecutiveFailures

variable {κ : Prims} {cfg : DispatcherConfig} {cond : State → State → Prop} {s : State}
  {policy : CircuitPolicy}

theorem onSuccess_coherent : Coherent policy Circuit.onSuccess where
  known := .inl rfl
  closed _ := by
    refine ⟨rfl, fun positive => Int32.lt_iff_toInt_lt.mpr ?_⟩
    exact Int32.le_iff_toInt_le.mp positive
  tripped h := absurd h (by decide)

theorem onFailure_coherent (e : Endpoint) (now : Time) :
    Coherent policy (Circuit.onFailure e policy now) := by
  unfold Circuit.onFailure
  dsimp only
  split
  · rename_i reached
    exact ⟨.inr (.inl rfl), fun h => by simp at h, fun _ => ⟨rfl, reached⟩⟩
  · rename_i below
    refine ⟨.inl rfl, fun _ => ⟨rfl, fun _ => Int32.not_le.mp below⟩, fun h => ?_⟩
    simp [CircuitUpdate.Tripped] at h

theorem probed_coherent {b : Endpoint} {now deadline : Time}
    (due : Store.probeDue now b = true) (coherent : Coherent policy b.circuit) :
    Coherent policy ⟨"half_open", some deadline, b.consecutiveFailures⟩ := by
  simp only [Store.probeDue, decide_eq_true_eq] at due
  exact ⟨.inr (.inr rfl), fun h => by simp at h, fun _ => ⟨rfl, (coherent.tripped due.1).2⟩⟩

theorem reach_coherent (reach : Run κ cfg cond .empty s) :
    ∀ id (e : Endpoint), Db.find? s.db id = some e → Coherent cfg.circuit e.circuit := by
  refine Txn.reach_db (protocol κ cfg)
    (fun db => ∀ id (e : Endpoint), Db.find? db id = some e → Coherent cfg.circuit e.circuit)
    .start ?_ ?_ reach
  · intro id e none
    cases none
  · intro s pid p tx _ durable good id e found
    rcases endpoint_wired durable found with old | wired
    · exact good id e old
    · generalize p.job = job at wired
      generalize tx.done.map Txn.Done.ran = unit at wired
      generalize before : (Db.find? s.db id : Option Endpoint) = b at wired
      cases wired with
      | created new => exact new ▸ onSuccess_coherent
      | patched kept => exact kept ▸ good id _ before
      | succeeded _ _ set => exact set ▸ onSuccess_coherent
      | failed _ _ set => exact set ▸ onFailure_coherent _ _
      | probed due set => exact set ▸ probed_coherent due (good id _ before)

end Coherent

section Failures

variable {κ : Prims} {cfg : DispatcherConfig} {cond : State → State → Prop} {s : State} {pid : Pid}
  {p : Proc} {tx : Txn.Tx Row Time lang} {w : String} {d : Delivery} {db : Db}

theorem circuit_set (reach : Run κ cfg cond db s) (durable : Durable (protocol κ cfg) s pid p tx)
    {id : Uuid} {u : CircuitUpdate} {pre : List Ran}
    (unit : tx.done.map Txn.Done.ran = pre ++ [circuitRan id u]) :
    ∃ e : Endpoint, Db.find? (s.db.apply tx.writes) id = some e ∧ e.circuit = u := by
  obtain ⟨front, last, done, _, eq⟩ := List.map_eq_append_iff.mp unit
  obtain ⟨x, rfl, same⟩ := List.map_eq_singleton_iff.mp eq
  obtain ⟨ws, rfl⟩ := Txn.done_of_ran (show x.ran = ran (.updateCircuit id _ _ _) () from same)
  obtain ⟨a, before, later, valid, ⟨c, ran⟩, q, live, job, allowed⟩ :=
    Txn.unit_traced reach durable front _ [] done
  have here : Db.find? (a.db.apply (front.flatMap Txn.Done.writes)) id ≠
    (none : Option Endpoint) := by
    cases open_ : q.tx with
    | some tx =>
      simp only [protocol, allows, Txn.Proc.past, open_, Option.map_some] at allowed
      obtain ⟨asked, e, told, rfl⟩ := allowed
      obtain ⟨a', before', later', found⟩ := read_row before live told
      obtain ⟨e', found', _⟩ := reach_find before' later' found
      rw [show e.id = asked from Db.find?_id found]
      exact find_overlay found'
    | none =>
      simp only [protocol, allows, Txn.Proc.past, open_, Option.map_none] at allowed
      rcases alone_endpoints allowed rfl with
        ⟨_, _, _, _, _, _, no⟩ | ⟨_, _, _, _, _, no⟩ | ⟨_, _, _, _, no⟩ <;>
        cases no
  rcases Store.update_cases (a.db.apply (front.flatMap Txn.Done.writes)) id (fun _ => true)
    (fun e : Endpoint => { e with
      circuitState := u.state, circuitOpenUntil := u.openUntil,
      consecutiveFailures := u.consecutiveFailures, updatedAt := tx.time }) with
    ⟨b, found, _, eq⟩ | ⟨miss, _⟩
  · have writes : ws = [Store.amended b _] :=
      (congrArg Prod.snd (Except.ok.inj (Stmt.exec_ok ran))).symm.trans (congrArg Prod.snd eq)
    have row := unit_written durable done (writes ▸ List.mem_cons_self) rfl
      fun e none => (List.not_mem_nil none).elim
    have ids : b.id = id := Db.find?_id found
    exact ⟨_, ids ▸ row, rfl⟩
  · obtain ⟨b, found⟩ := Option.ne_none_iff_exists'.mp here
    cases miss b found

theorem failed_unit (durable : Durable (protocol κ cfg) s pid p tx)
    (job : p.job = .processOne w d) {a : DeliveryAttempt}
    (mem : a ∈ (tx.done.map Txn.Done.ran).filterMap attemptOf) (failed : a.error ≠ none) :
    ∃ e now t pre, Passed cfg d p.calls e now ∧
      tx.done.map Txn.Done.ran = pre ++ [circuitRan e.id (Circuit.onFailure e cfg.circuit t)] := by
  rcases unit_allowed durable with commits | ⟨one, eq, alone⟩
  · rw [job] at commits
    generalize tx.done.map Txn.Done.ran = unit at commits mem
    cases commits with
    | settle settles =>
      cases settles with
      | succeeded tried ok =>
        obtain rfl := List.mem_singleton.mp (show a ∈ [_] from mem)
        exact absurd ok.1 failed
      | failed tried => exact ⟨_, _, _, [_, _], tried.sent.passed, rfl⟩
      | exhausted tried => exact ⟨_, _, _, [_, _, _], tried.sent.passed, rfl⟩
      | hopeless => simp [attemptOf] at mem
    | publish may => cases may
    | bridge may => cases may
  · obtain ⟨x, hx, eq'⟩ := List.mem_filterMap.mp mem
    rw [eq] at hx
    obtain rfl := List.mem_singleton.mp hx
    obtain ⟨q, out, ws⟩ := one
    cases q with
    | recordAttempt => exact absurd rfl (alone_outside alone).2.1
    | _ => cases eq'

/-- The endpoint before and after the commit of a failed attempt. -/
theorem failure_written (reach : Run κ cfg cond .empty s)
    (durable : Durable (protocol κ cfg) s pid p tx) (job : p.job = .processOne w d)
    {a : DeliveryAttempt} (mem : a ∈ (tx.done.map Txn.Done.ran).filterMap attemptOf)
    (failed : a.error ≠ none) :
    ∃ (read row row' : Endpoint) (now t : Time), Passed cfg d p.calls read now ∧
      Db.find? s.db d.endpointId = some row ∧
      Db.find? (s.db.apply tx.writes) d.endpointId = some row' ∧
      row'.circuit = Circuit.onFailure read cfg.circuit t := by
  obtain ⟨e, now, t, pre, passed, unit⟩ := failed_unit durable job mem failed
  obtain ⟨a, before, later, found⟩ := read_row reach durable.live passed.endpoint
  obtain ⟨row, here, _⟩ := reach_find before later found
  obtain ⟨row', after, set⟩ := circuit_set reach durable unit
  rw [show e.id = d.endpointId from Db.find?_id found] at after
  exact ⟨e, row, row', now, t, passed, here, after, set⟩

end Failures

section Counting

def failure : Entry → Option (Pid × String × Delivery)
  | .applied pid (.processOne w d) _ unit =>
      if (unit.filterMap attemptOf).any fun a => a.error ≠ none then some (pid, w, d) else none
  | _ => none

/-- The failure is counted, and does not close a tripped circuit. -/
structure Counts (row row' : Endpoint) : Prop where
  counted : row'.consecutiveFailures = saturatingSucc row.consecutiveFailures
  tripped : row.circuit.Tripped → row'.circuitState ≠ "closed"

/-- The row that was read has the failure count of the row, or both are at the end of it. -/
def Current (read row : Endpoint) : Prop :=
  read.consecutiveFailures = row.consecutiveFailures ∨
    (Int32.maxValue - 1 ≤ read.consecutiveFailures ∧ Int32.maxValue - 1 ≤ row.consecutiveFailures)

theorem saturatingSucc_eq {m n : Int32} : saturatingSucc m = saturatingSucc n ↔
    m = n ∨ (Int32.maxValue - 1 ≤ m ∧ Int32.maxValue - 1 ≤ n) := by
  have last : (Int32.maxValue - 1).toInt = 2 ^ 31 - 2 := by decide
  rw [← Int32.toInt_inj, ← Int32.toInt_inj, Int32.le_iff_toInt_le, Int32.le_iff_toInt_le,
    saturatingSucc_toInt, saturatingSucc_toInt, last]
  have hm := m.toInt_lt
  have hn := n.toInt_lt
  omega

theorem le_saturatingSucc (n : Int32) : n ≤ saturatingSucc n := by
  have upper := n.toInt_lt
  rw [Int32.le_iff_toInt_le, saturatingSucc_toInt]
  omega

theorem onFailure_count (e : Endpoint) (policy : CircuitPolicy) (now : Time) :
    (Circuit.onFailure e policy now).consecutiveFailures =
      saturatingSucc e.consecutiveFailures := by
  unfold Circuit.onFailure
  dsimp only
  split <;> rfl

theorem onFailure_open {e : Endpoint} {policy : CircuitPolicy} {now : Time}
    (reached : policy.failureThreshold ≤ saturatingSucc e.consecutiveFailures) :
    (Circuit.onFailure e policy now).state = "open" := by
  simp only [Circuit.onFailure, if_pos reached]

theorem counts_iff {policy : CircuitPolicy} {read row row' : Endpoint} {t : Time}
    (set : row'.circuit = Circuit.onFailure read policy t)
    (coherent : Coherent policy row.circuit) : Counts row row' ↔ Current read row := by
  have count : row'.consecutiveFailures = saturatingSucc read.consecutiveFailures :=
    (congrArg CircuitUpdate.consecutiveFailures set).trans (onFailure_count read policy t)
  constructor
  · intro counts
    exact saturatingSucc_eq.mp (count.symm.trans counts.counted)
  · intro current
    have same := saturatingSucc_eq.mpr current
    refine ⟨count.trans same, fun tripped closed => ?_⟩
    have reached : policy.failureThreshold ≤ saturatingSucc read.consecutiveFailures :=
      same ▸ Int32.le_trans (coherent.tripped tripped).2 (le_saturatingSucc _)
    have opened := (congrArg CircuitUpdate.state set).trans (onFailure_open reached)
    have no : "closed" = "open" := closed.symm.trans opened
    simp at no

theorem failure_applied {e : Entry} {pid : Pid} {w : String} {d : Delivery}
    (fails : failure e = some (pid, w, d)) :
    ∃ time unit, e = .applied pid (.processOne w d) time unit ∧
      ∃ a ∈ unit.filterMap attemptOf, a.error ≠ none := by
  cases e with
  | applied qid job time unit =>
    cases job with
    | processOne =>
      simp only [failure, Option.ite_none_right_eq_some] at fails
      obtain ⟨any, eq⟩ := fails
      cases eq
      obtain ⟨a, mem, bad⟩ := List.any_eq_true.mp any
      exact ⟨time, unit, rfl, a, mem, of_decide_eq_true bad⟩
    | _ => cases fails
  | _ => cases fails

theorem failure_step {κ : Prims} {cfg : DispatcherConfig} {cond : State → State → Prop}
    {s t : State} {e : Entry} {pid : Pid} {w : String} {d : Delivery}
    (reach : Run κ cfg cond .empty s)
    (step : Txn.Step (engine κ cfg) s t) (new : e ∈ Txn.since s t)
    (fails : failure e = some (pid, w, d)) :
    ∃ (p : Proc) (read row row' : Endpoint) (now at_ : Time), s.procs.lookup pid = some p ∧
      p.job = .processOne w d ∧ Passed cfg d p.calls read now ∧
      Db.find? s.db d.endpointId = some row ∧ Db.find? t.db d.endpointId = some row' ∧
      row'.circuit = Circuit.onFailure read cfg.circuit at_ := by
  obtain ⟨time, unit, rfl, a, mem, bad⟩ := failure_applied fails
  obtain ⟨new', log⟩ := Txn.step_log step
  rw [Txn.since_eq log] at new
  rcases Txn.outcome_entry (Txn.step_outcome (Txn.reach_sound (protocol κ cfg) reach) step) log new
    with none | ⟨_, p, tx, _, _, eq, same, durable, _⟩
  · cases none
  · simp only [Txn.Entry.applied.injEq] at eq
    obtain ⟨rfl, job, rfl, rfl⟩ := eq
    obtain ⟨read, row, row', now, at_, passed, before, after, set⟩ :=
      failure_written reach durable job.symm mem bad
    exact ⟨p, read, row, row', now, at_, durable.live, job.symm, passed, before, same ▸ after, set⟩

end Counting

/-- A commit of a failed attempt counts the failure, and leaves a tripped circuit tripped, if
and only if the failure count that `process_one` read is still the one of the row. -/
theorem failure_counted (κ : Prims) (cfg : DispatcherConfig) (s t : State) (e : Entry) (pid : Pid)
    (w : String) (d : Delivery) (reach : Run κ cfg anyStep .empty s)
    (step : Txn.Step (engine κ cfg) s t) (new : e ∈ Txn.since s t)
    (fails : failure e = some (pid, w, d)) :
    ∃ (p : Proc) (read row row' : Endpoint), s.procs.lookup pid = some p ∧
      p.job = .processOne w d ∧
      (∀ out, Told p.calls (.getEndpoint d.endpointId) out ↔ out = some read) ∧
      Db.find? s.db d.endpointId = some row ∧ Db.find? t.db d.endpointId = some row' ∧
      (Counts row row' ↔ Current read row) := by
  obtain ⟨p, read, row, row', now, at_, live, job, passed, before, after, set⟩ :=
    failure_step reach step new fails
  refine ⟨p, read, row, row', live, job, fun out => ⟨fun told => ?_, ?_⟩, before, after,
    counts_iff set (reach_coherent reach _ row before)⟩
  · exact (read_once reach live job told passed.endpoint).2
  · rintro rfl
    exact passed.endpoint

theorem failure_counted_first : ∃ (s t : State) (e : Entry) (d : Delivery) (p : Proc)
    (read row row' : Endpoint), Run plain Dispatcher.default anyStep .empty s ∧
    Txn.Step (engine plain Dispatcher.default) s t ∧ e ∈ Txn.since s t ∧
    failure e = some (.worker 0 0, workerId 0, d) ∧ s.procs.lookup (.worker 0 0) = some p ∧
    Told p.calls (.getEndpoint d.endpointId) (some read) ∧
    Db.find? s.db d.endpointId = some row ∧ Db.find? t.db d.endpointId = some row' ∧
    row'.consecutiveFailures = 1 ∧ Current read row := by
  have played : ((lastStep plain Dispatcher.default (published ++
      .spawn (.worker 0 0) (.claim (workerId 0)) :: go 16 (.worker 0 0) 1 4 (.error "refused"))
      (.go (.worker 0 0) 1 [] (world 1 4 (.error "")))).bind fun x : State × State =>
      ((Txn.since x.1 x.2).findSome? failure).bind fun f : Pid × String × Delivery =>
      (Db.find? x.1.db f.2.2.endpointId).bind fun row : Endpoint =>
      (Db.find? x.2.db f.2.2.endpointId).bind fun row' : Endpoint =>
      if f.1 = .worker 0 0 ∧ f.2.1 = workerId 0 ∧ row.consecutiveFailures = 0 ∧
        row.circuitState = "closed" ∧ row'.consecutiveFailures = 1 then some (x, f, row, row')
      else none).isSome := by
    decide
  obtain ⟨⟨⟨s, t⟩, ⟨pid, w, d⟩, row, row'⟩, played⟩ := Option.isSome_iff_exists.mp played
  simp only [Option.bind_eq_some_iff, Option.ite_none_right_eq_some] at played
  obtain ⟨_, played, _, fails, _, before, _, after, ⟨who, own, zero, closed, one⟩, eq⟩ := played
  cases eq
  subst who own
  obtain ⟨reach, step⟩ := lastStep_run played
  obtain ⟨e, new, fails⟩ := List.exists_of_findSome?_eq_some fails
  obtain ⟨p, read, b, b', live, _, told, before', after', counts⟩ :=
    failure_counted plain Dispatcher.default s t e _ _ d reach step new fails
  obtain rfl : row = b := Option.some.inj (before.symm.trans before')
  obtain rfl : row' = b' := Option.some.inj (after.symm.trans after')
  refine ⟨s, t, e, d, p, read, row, row', reach, step, new, fails, live, (told _).mpr rfl, before,
    after, one, counts.mp ⟨?_, fun tripped => ?_⟩⟩
  · rw [zero, one]
    decide
  · simp [CircuitUpdate.Tripped, Endpoint.circuit, closed] at tripped

/- Worker 0 reads the endpoint and waits for its answer; meanwhile worker 1 fails twice, and
the circuit opens. The failure of worker 0 is then counted from the old row, which closes
the circuit and drops both of the others. -/
theorem failure_lost : ¬ ∀ (κ : Prims) (cfg : DispatcherConfig) (s t : State) (e : Entry)
    (pid : Pid) (w : String) (d : Delivery) (row row' : Endpoint), Run κ cfg anyStep .empty s →
    Txn.Step (engine κ cfg) s t → e ∈ Txn.since s t → failure e = some (pid, w, d) →
    Db.find? s.db d.endpointId = some row → Db.find? t.db d.endpointId = some row' →
    Counts row row' := by
  intro all
  let cfg : DispatcherConfig :=
    { Dispatcher.default with batchSize := 1, circuit :=
      { Circuit.default with failureThreshold := 2 } }
  have played : ((lastStep plain cfg (published ++
      .spawn (.client 0) (.enqueueMessage "t" none "x" .null) ::
        go 4 (.client 0) 0 4 (.error "") ++ go 4 (.client 0) 0 5 (.error "") ++
      .spawn (.worker 0 0) (.claim (workerId 0)) :: go 8 (.worker 0 0) 1 6 (.error "refused") ++
      refused (.worker 0 1) 1 2 7 ++ refused (.worker 0 1) 1 3 8 ++
      go 8 (.worker 0 0) 4 9 (.error ""))
      (.go (.worker 0 0) 4 [] (world 4 9 (.error "")))).bind fun x : State × State =>
      ((Txn.since x.1 x.2).findSome? failure).bind fun f : Pid × String × Delivery =>
      (Db.find? x.1.db f.2.2.endpointId).bind fun row : Endpoint =>
      (Db.find? x.2.db f.2.2.endpointId).bind fun row' : Endpoint =>
      if row.consecutiveFailures = 2 ∧ row.circuitState = "open" ∧ row'.consecutiveFailures = 1 ∧
        row'.circuitState = "closed" then some (x, f, row, row') else none).isSome := by
    decide
  obtain ⟨⟨⟨s, t⟩, ⟨pid, w, d⟩, row, row'⟩, played⟩ := Option.isSome_iff_exists.mp played
  simp only [Option.bind_eq_some_iff, Option.ite_none_right_eq_some] at played
  obtain ⟨_, played, _, fails, _, before, _, after, ⟨_, tripped, _, closed⟩, eq⟩ := played
  cases eq
  obtain ⟨reach, step⟩ := lastStep_run played
  obtain ⟨e, new, fails⟩ := List.exists_of_findSome?_eq_some fails
  have counts := all plain cfg s t e pid w d row row' reach step new fails before after
  exact counts.tripped (.inl tripped) closed

end Dropless
