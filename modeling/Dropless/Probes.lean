import Mathlib.Algebra.Order.Group.Abs
import Mathlib.Algebra.Order.Group.Int
import Dropless.Breaker

namespace Dropless

open Txn (Durable anyStep)

section Gate

variable {db : Db}

/- The Rust test and the SQL guard agree. -/
theorem gate_probe {e : Endpoint} (tripped : e.circuit.Tripped) (now : Time) :
    Circuit.gate e now = .probe ↔ Store.probeDue now e = true := by
  have state : e.circuitState = "open" ∨ e.circuitState = "half_open" := tripped
  cases deadline : e.circuitOpenUntil with
  | none => rcases state with state | state <;> simp [Circuit.gate, Store.probeDue, state, deadline]
  | some u =>
    rcases state with state | state <;>
      simp [Circuit.gate, Store.probeDue, state, deadline, apply_ite (· = Gate.probe)]

theorem gate_tripped {e : Endpoint} {now : Time} (probe : Circuit.gate e now = .probe) :
    e.circuit.Tripped := by
  unfold Circuit.gate at probe
  split at probe
  · exact .inl ‹_›
  · split at probe
    · exact .inr ‹_›
    · cases probe

theorem tryAcquireProbe_iff {id : Uuid} {e : Endpoint} (found : db.find? id = some e)
    (lease : Int32) (now : Time) :
    (Store.tryAcquireProbe id lease now db).1 = true ↔ Store.probeDue now e = true := by
  simp only [Store.tryAcquireProbe]
  rcases Store.update_cases db id (Store.probeDue now) (fun e : Endpoint => { e with
    circuitState := "half_open", circuitOpenUntil := some (now + seconds lease.toInt),
    updatedAt := now }) with ⟨b, found', due, eq⟩ | ⟨miss, eq⟩
  · obtain rfl : b = e := Option.some.inj (found'.symm.trans found)
    simp [eq, due]
  · simp [eq, miss e found]

end Gate

section Acquired

def acquires (id : Uuid) : Entry → Option Time
  | .applied _ _ time unit =>
      if unit.any fun x => match x with
        | ⟨.tryAcquireProbe endpointId _, out⟩ => endpointId = id ∧ out = true
        | _ => false
      then some time else none
  | _ => none

/- The circuit of the endpoint was written by `update_circuit`. -/
def rewires (id : Uuid) : Entry → Bool
  | .applied _ _ _ unit => unit.any fun x => match x with
    | ⟨.updateCircuit endpointId .., _⟩ => endpointId = id
    | _ => false
  | _ => false

/- The probes since the last circuit update. -/
def probes (id : Uuid) : List Entry → List Time
  | [] => []
  | e :: log => match acquires id e with
    | some t => t :: probes id log
    | none => if rewires id e then [] else probes id log

theorem mem_probes {id : Uuid} {mid older : List Entry} {first : Entry} {t : Time}
    (acquired : acquires id first = some t) (quiet : ∀ e ∈ mid, rewires id e = false) :
    t ∈ probes id (mid ++ first :: older) := by
  induction mid with
  | nil => simp [probes, acquired]
  | cons e mid ih =>
    have rest := ih fun x hx => quiet x (List.mem_cons_of_mem _ hx)
    simp only [List.cons_append, probes, quiet e List.mem_cons_self]
    cases acquires id e with
    | none => exact rest
    | some t' => exact List.mem_cons_of_mem _ rest

theorem probes_unapplied {id : Uuid} {es log : List Entry}
    (quiet : ∀ e ∈ es, acquires id e = none ∧ rewires id e = false) :
    probes id (es ++ log) = probes id log := by
  induction es with
  | nil => rfl
  | cons e es ih =>
    obtain ⟨none, no⟩ := quiet e List.mem_cons_self
    simp only [List.cons_append, probes, none, no]
    exact ih fun x hx => quiet x (List.mem_cons_of_mem _ hx)

variable {κ : Prims} {cfg : DispatcherConfig} {cond : State → State → Prop} {s : State} {pid : Pid}
  {p : Proc} {tx : Txn.Tx Row Time lang} {id : Uuid} {db : Db}

theorem noted_quiet {e : Entry} (noted : Txn.Noted (protocol κ cfg) s e) :
    acquires id e = none ∧ rewires id e = false := by
  cases e with
  | applied => exact noted.elim
  | _ => exact ⟨rfl, rfl⟩

theorem probe_acquired (durable : Durable (protocol κ cfg) s pid p tx) {t : Time}
    (acquired : acquires id (.applied pid p.job tx.time (tx.done.map Txn.Done.ran)) = some t) :
    t = tx.time ∧ ∃ b b' : Endpoint, Db.find? s.db id = some b ∧
      Store.probeDue tx.time b = true ∧ Db.find? (s.db.apply tx.writes) id = some b' ∧
      b'.circuitOpenUntil = some (tx.time + seconds (Circuit.probeLease cfg.circuit).toInt) := by
  simp only [acquires, Option.ite_none_right_eq_some, List.any_eq_true] at acquired
  obtain ⟨⟨x, mem, hit⟩, eq⟩ := acquired
  refine ⟨(Option.some.inj eq).symm, ?_⟩
  obtain ⟨⟨q, out, ws⟩, hd, rfl⟩ := List.mem_map.mp mem
  obtain ⟨c, view, exec⟩ := durable.ran _ hd
  have run := Stmt.exec_ok exec
  cases q with
  | tryAcquireProbe endpoint lease =>
    obtain ⟨rfl, rfl⟩ : endpoint = id ∧ out = true := of_decide_eq_true hit
    rcases unit_allowed durable with commits | ⟨one, single, alone⟩
    · obtain ⟨_, _, _, _, _, _, no, _⟩ := commits_endpoints commits mem rfl
      cases no
    · rw [single] at hd
      obtain rfl := List.mem_singleton.mp hd
      rcases alone_endpoints alone rfl with
        ⟨_, _, _, _, _, _, no⟩ | ⟨_, _, _, _, _, no⟩ | ⟨w, d, _, _, same⟩
      · cases no
      · cases no
      cases same
      obtain ⟨yes, writes⟩ := Prod.mk.inj (Except.ok.inj run)
      rcases Store.update_cases view endpoint (Store.probeDue tx.time) (fun e : Endpoint => { e with
        circuitState := "half_open",
        circuitOpenUntil := some (tx.time + seconds (Circuit.probeLease cfg.circuit).toInt),
        updatedAt := tx.time }) with ⟨b, found, due, eq⟩ | ⟨_, eq⟩
      · have writes : ws = [Store.amended b _] := writes.symm.trans (congrArg Prod.snd eq)
        have first : Store.amended b _ ∈ ws := writes ▸ List.mem_cons_self
        have ids : b.id = endpoint := Db.find?_id found
        have before := replaced durable (show tx.done = [] ++ _ :: [] from single) first
          fun e none => (List.not_mem_nil none).elim
        have after := alone_written durable single first rfl
        exact ⟨b, _, ids ▸ Db.find?_eq_some.mpr before, due, ids ▸ after, rfl⟩
      · cases (congrArg (fun x => x.1.isSome) eq).symm.trans yes
  | _ => cases hit

theorem circuit_kept (durable : Durable (protocol κ cfg) s pid p tx)
    (none : acquires id (.applied pid p.job tx.time (tx.done.map Txn.Done.ran)) = none)
    (unwired : rewires id (.applied pid p.job tx.time (tx.done.map Txn.Done.ran)) = false)
    {e e' : Endpoint} (before : Db.find? s.db id = some e)
    (after : Db.find? (s.db.apply tx.writes) id = some e') : e'.circuit = e.circuit := by
  have updated : ∀ u, circuitRan id u ∉ tx.done.map Txn.Done.ran := by
    intro u mem
    have hit := List.any_eq_false.mp unwired _ mem
    simp [circuitRan] at hit
  rcases endpoint_wired durable after with old | wired
  · rw [Option.some.inj (before.symm.trans old)]
  · have ids : e.id = id := Db.find?_id before
    rw [before] at wired
    generalize p.job = job at wired none
    generalize tx.done.map Txn.Done.ran = unit at wired none updated
    cases wired with
    | patched kept => exact kept
    | succeeded _ mem => exact absurd (ids ▸ mem) (updated _)
    | failed _ mem => exact absurd (ids ▸ mem) (updated _)
    | probed => simp [acquires, ids] at none

/-- Every probe since the last circuit update is a lease before the deadline of the row. -/
def Leased (cfg : DispatcherConfig) (id : Uuid) (s : State) : Prop :=
  ∀ t ∈ probes id s.log, ∃ (e : Endpoint) (u : Time), Db.find? s.db id = some e ∧
    e.circuitOpenUntil = some u ∧ t + seconds (Circuit.probeLease cfg.circuit).toInt ≤ u

theorem due_deadline {e : Endpoint} {u now : Time} (due : Store.probeDue now e = true)
    (deadline : e.circuitOpenUntil = some u) : u ≤ now := by
  simp only [Store.probeDue, deadline, decide_eq_true_eq, Option.all_some] at due
  exact due.2

theorem reach_leased (reach : Run κ cfg cond db s)
    (forward : 0 ≤ seconds (Circuit.probeLease cfg.circuit).toInt) : Leased cfg id s := by
  induction reach with
  | start =>
    intro t none
    cases none
  | @next s t before step ok ih =>
    cases Txn.step_outcome (Txn.reach_sound (protocol κ cfg) before) step with
    | quiet es same log noted =>
      intro time mem
      rw [log, probes_unapplied fun e he => noted_quiet (noted e he)] at mem
      exact same ▸ ih time mem
    | durable pid p tx op ans same log noted durable _ =>
      intro time mem
      rw [same]
      rw [log] at mem
      change time ∈ probes id (.applied pid p.job tx.time
        (tx.done.map Txn.Done.ran) :: s.log) at mem
      rw [probes] at mem
      split at mem
      · rename_i now acquired
        obtain ⟨rfl, b, b', here, due, after, deadline⟩ := probe_acquired durable acquired
        refine ⟨b', _, after, deadline, ?_⟩
        rcases List.mem_cons.mp mem with rfl | mem
        · exact Int.le_refl _
        · obtain ⟨e, u, found, old, apart⟩ := ih time mem
          obtain rfl : e = b := Option.some.inj (found.symm.trans here)
          calc time + _ ≤ u := apart
            _ ≤ tx.time := due_deadline due old
            _ ≤ tx.time + _ := Int.le_add_of_nonneg_right forward
      · rename_i none
        split at mem
        · cases mem
        · rename_i unwired
          obtain ⟨e, u, found, old, apart⟩ := ih time mem
          obtain ⟨e', after, _⟩ := find_kept (fun _ _ => durable_keeps durable) found
          have kept := circuit_kept durable none (Bool.eq_false_iff.mpr unwired) found after
          exact ⟨e', u, after, (congrArg CircuitUpdate.openUntil kept).trans old, apart⟩

end Acquired

section Protocol

variable {κ : Prims} {cfg : DispatcherConfig} {cond : State → State → Prop} {s t : State} {db : Db}
  {pid : Pid} {p : Proc} {w : String} {d : Delivery} {id : Uuid}

theorem probes_apart (reach : Run κ cfg cond db s) {newer mid older : List Entry}
    {first second : Entry} {t₁ t₂ : Time}
    (log : s.log = newer ++ second :: (mid ++ first :: older))
    (taken : acquires id first = some t₁) (again : acquires id second = some t₂)
    (quiet : ∀ e ∈ mid, rewires id e = false)
    (forward : 0 ≤ seconds (Circuit.probeLease cfg.circuit).toInt) :
    t₁ + seconds (Circuit.probeLease cfg.circuit).toInt ≤ t₂ := by
  cases second with
  | applied qid job time unit =>
    obtain ⟨a, b, p, tx, settled, rest, rfl, rfl, rfl⟩ :=
      Txn.applied_at (protocol κ cfg) reach log
    obtain ⟨rfl, e, _, here, due, _⟩ := probe_acquired settled.durable again
    have leased : Leased cfg id a := reach_leased settled.before forward
    obtain ⟨e', u, found, deadline, apart⟩ := leased t₁ (rest ▸ mem_probes taken quiet)
    obtain rfl : e' = e := Option.some.inj (found.symm.trans here)
    exact Int.le_trans apart (due_deadline due deadline)
  | _ => cases again

/- The process was let through as a probe. -/
def probing (calls : Calls) : Bool :=
  calls.any fun c => match c with
    | ⟨.stmt (.tryAcquireProbe ..), .ok out⟩ => out
    | _ => false

theorem probing_told {calls : Calls} (probe : probing calls = true) :
    ∃ id lease, Told calls (.tryAcquireProbe id lease) true := by
  obtain ⟨⟨op, ans⟩, mem, hit⟩ := List.any_eq_true.mp probe
  cases op with
  | stmt q =>
    cases q with
    | tryAcquireProbe id lease =>
      cases ans with
      | ok out =>
        obtain rfl : out = true := hit
        exact ⟨id, lease, mem⟩
      | error => cases hit
    | _ => cases hit
  | _ => cases hit

theorem probe_read (reach : Run κ cfg cond .empty s) (live : s.procs.lookup pid = some p)
    (job : p.job = .processOne w d) {read : Endpoint}
    (told : Told p.calls (.getEndpoint d.endpointId) (some read)) (probe : probing p.calls = true) :
    cfg.circuit.failureThreshold ≤ read.consecutiveFailures := by
  obtain ⟨id, lease, probe⟩ := probing_told probe
  obtain ⟨a, p', now, c, ws, before, later, live', _, sub, allowed, _⟩ :=
    told_origin reach live probe
  rw [job] at allowed
  cases open_ : p'.tx with
  | some tx =>
    simp only [allows, Txn.Proc.past, open_, Option.map_some] at allowed
    exact allowed.elim
  | none =>
    simp only [allows, Txn.Proc.past, open_, Option.map_none] at allowed
    cases allowed with
    | probe asked gate =>
      obtain ⟨_, same⟩ := read_once reach live job (sub asked) told
      obtain rfl := Option.some.inj same
      obtain ⟨a', before', _, found⟩ := read_row reach live told
      exact ((reach_coherent before' _ _ found).tripped (gate_tripped gate)).2

theorem probe_failed (reach : Run κ cfg cond .empty s) (step : Txn.Step (engine κ cfg) s t)
    {e : Entry} (new : e ∈ Txn.since s t) (fails : failure e = some (pid, w, d))
    (live : s.procs.lookup pid = some p) (probe : probing p.calls = true) :
    ∃ row : Endpoint, Db.find? t.db d.endpointId = some row ∧ row.circuitState = "open" := by
  obtain ⟨p', read, row, row', now, at_, live', job, passed, before, after, set⟩ :=
    failure_step reach step new fails
  obtain rfl : p' = p := Option.some.inj (live'.symm.trans live)
  have reached := probe_read reach live job passed.endpoint probe
  refine ⟨row', after, (congrArg CircuitUpdate.state set).trans (onFailure_open ?_)⟩
  exact Int32.le_trans reached (le_saturatingSucc _)

end Protocol

/-- The circuit row invariant and the probe protocol. -/
theorem circuit_protocol (κ : Prims) (cfg : DispatcherConfig)
    (threshold : 1 ≤ cfg.circuit.failureThreshold)
    (s : State) (reach : Run κ cfg anyStep .empty s) :
    (∀ id (e : Endpoint), Db.find? s.db id = some e →
      (e.circuitState = "closed" ∧ e.circuitOpenUntil = none ∧
        e.consecutiveFailures < cfg.circuit.failureThreshold) ∨
      ((e.circuitState = "open" ∨ e.circuitState = "half_open") ∧
        cfg.circuit.failureThreshold ≤ e.consecutiveFailures ∧
        ∃ u, e.circuitOpenUntil = some u ∧ ∀ now lease,
          (Circuit.gate e now = .probe ↔ u ≤ now) ∧
          ((Store.tryAcquireProbe id lease now s.db).1 = true ↔ u ≤ now))) ∧
    (∀ t e pid p w d, Txn.Step (engine κ cfg) s t → e ∈ Txn.since s t →
      failure e = some (pid, w, d) → s.procs.lookup pid = some p → probing p.calls = true →
      ∃ row : Endpoint, Db.find? t.db d.endpointId = some row ∧ row.circuitState = "open") ∧
    (∀ id newer second mid first older t₁ t₂,
      s.log = newer ++ second :: (mid ++ first :: older) → acquires id first = some t₁ →
      acquires id second = some t₂ → (∀ e ∈ mid, rewires id e = false) →
      seconds (Circuit.probeLease cfg.circuit).toInt ≤ |t₂ - t₁| ∧
      (0 ≤ seconds (Circuit.probeLease cfg.circuit).toInt →
        t₁ + seconds (Circuit.probeLease cfg.circuit).toInt ≤ t₂)) := by
  refine ⟨fun id e found => ?_, ?_, ?_⟩
  · have coherent := reach_coherent reach id e found
    rcases coherent.known with closed | tripped
    · obtain ⟨none, below⟩ := coherent.closed closed
      exact .inl ⟨closed, none, below threshold⟩
    · obtain ⟨deadline, reached⟩ := coherent.tripped tripped
      obtain ⟨u, deadline⟩ := Option.isSome_iff_exists.mp deadline
      have due : ∀ now, Store.probeDue now e = true ↔ u ≤ now := by
        intro now
        have deadline : e.circuitOpenUntil = some u := deadline
        have state : e.circuitState = "open" ∨ e.circuitState = "half_open" := tripped
        simp [Store.probeDue, deadline, state]
      refine .inr ⟨tripped, reached, u, deadline, fun now lease => ⟨?_, ?_⟩⟩
      · exact (gate_probe tripped now).trans (due now)
      · exact (tryAcquireProbe_iff found lease now).trans (due now)
  · intro t e pid p w d step new fails live probe
    exact probe_failed reach step new fails live probe
  · intro id newer second mid first older t₁ t₂ log taken again quiet
    have apart := probes_apart reach log taken again quiet
    refine ⟨?_, apart⟩
    rcases Int.le_total 0 (seconds (Circuit.probeLease cfg.circuit).toInt) with forward | backward
    · exact Int.le_trans (Int.le_sub_left_of_add_le (apart forward)) (le_abs_self _)
    · exact Int.le_trans backward (abs_nonneg _)

/- The endpoint trips at 1 us. A worker takes the probe at 40 s and crashes; another takes it
at 80 s, and its POST fails too. -/
theorem circuit_protocol_probes : ∃ (cfg : DispatcherConfig) (s t : State) (row : Endpoint),
    1 ≤ cfg.circuit.failureThreshold ∧ Run plain cfg anyStep .empty s ∧
    Txn.Step (engine plain cfg) s t ∧ Db.find? t.db 1 = some row ∧ row.circuitState = "open" ∧
    ∃ newer second mid first older, s.log = newer ++ second :: (mid ++ first :: older) ∧
      acquires 1 first = some (seconds 40) ∧ acquires 1 second = some (seconds 80) ∧
      seconds 40 + seconds (Circuit.probeLease cfg.circuit).toInt ≤ seconds 80 := by
  let cfg : DispatcherConfig :=
    { Dispatcher.default with circuit := { Circuit.default with failureThreshold := 1 } }
  let idle : Entry → Bool := fun e => acquires 1 e = none
  have played : ((lastStep plain cfg (published ++ refused (.worker 0 0) 0 1 4 ++
      .spawn (.worker 0 0) (.claim (workerId 0)) :: go 5 (.worker 0 0) (seconds 40) 5 (.error "") ++
      .crash (.worker 0 0) ::
      .spawn (.worker 0 0) (.claim (workerId 0)) :: go 17 (.worker 0 0) (seconds 80) 6 (.error ""))
      (.go (.worker 0 0) (seconds 80) [] (world 0 0 (.error "")))).bind fun x : State × State =>
      (x.1.procs.lookup (.worker 0 0)).bind fun p : Proc =>
      ((Txn.since x.1 x.2).findSome? failure).bind fun f : Pid × String × Delivery =>
      (x.1.log.dropWhile idle).head?.bind fun second : Entry =>
      (((x.1.log.dropWhile idle).tail).dropWhile idle).head?.bind fun first : Entry =>
      if f.1 = .worker 0 0 ∧ f.2.2.endpointId = 1 ∧ probing p.calls ∧
        acquires 1 first = some (seconds 40) ∧ acquires 1 second = some (seconds 80) ∧
        ∀ e ∈ ((x.1.log.dropWhile idle).tail).takeWhile idle, rewires 1 e = false
      then some (x, p, f, second, first) else none).isSome := by
    decide
  obtain ⟨⟨⟨s, t⟩, p, ⟨pid, w, d⟩, second, first⟩, played⟩ := Option.isSome_iff_exists.mp played
  simp only [Option.bind_eq_some_iff, Option.ite_none_right_eq_some] at played
  obtain ⟨_, played, _, live, _, fails, _, head, _, next,
    ⟨who, own, probe, taken, again, quiet⟩, eq⟩ :=
    played
  cases eq
  subst who
  obtain ⟨reach, step⟩ := lastStep_run played
  obtain ⟨e, new, fails⟩ := List.exists_of_findSome?_eq_some fails
  obtain ⟨_, reopens, apart⟩ := circuit_protocol plain cfg (by decide) s reach
  obtain ⟨row, found, opened⟩ := reopens t e _ p w d step new fails live probe
  have split : ∀ (log : List Entry) (e : Entry), (log.dropWhile idle).head? = some e →
      log = log.takeWhile idle ++ e :: (log.dropWhile idle).tail := by
    intro log e head
    rw [← List.eq_cons_of_mem_head? head, List.takeWhile_append_dropWhile]
  have log := split _ _ head
  rw [split _ _ next] at log
  refine ⟨cfg, s, t, row, by decide, reach, step, own ▸ found, opened, _, second, _, first, _, log,
    taken, again, ?_⟩
  exact (apart 1 _ second _ first _ _ _ log taken again quiet).2 (by decide)

end Dropless
