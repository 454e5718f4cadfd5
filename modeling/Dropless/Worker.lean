import Dropless.Scenario
import Dropless.Txn.Embed

/-! The worker loop of `dispatcher.rs` as it is written: look at the shutdown flag, claim,
process the batch one by one with a look at the flag before each, wait when there is nothing
to do. The engine has a worker claim once and queues its batch behind it; here that is shown
to be what the loop does, call by call. -/
namespace Dropless

/- What the loop looks at and waits for. -/
inductive Wait where
  | borrow
  | idle
  | sleepOrShutdown
deriving DecidableEq

/- The flag is `*shutdown.borrow()`; a wait ends for any of the reasons in its `select!`. -/
@[reducible] def Wait.Reply : Wait → Type
  | .borrow => Bool
  | .idle => Unit
  | .sleepOrShutdown => Unit

abbrev loopLang : Txn.Lang := lang.extend Wait Wait.Reply

namespace Dispatcher

def borrow : Txn.Prog loopLang Bool :=
  .call (.env (.inr .borrow) : Txn.Op loopLang) fun r : Bool => .ret r

def idle : Txn.Prog loopLang Unit :=
  .call (.env (.inr .idle) : Txn.Op loopLang) fun _ : Unit => .ret ()

def sleepOrShutdown : Txn.Prog loopLang Unit :=
  .call (.env (.inr .sleepOrShutdown) : Txn.Op loopLang) fun _ : Unit => .ret ()

/- How a pass through the loop ends: `break`, or on to the next. -/
inductive Pass where
  | stop
  | next
deriving DecidableEq

/- The `for` loop over the claimed rows; an error of `process_one` is logged. -/
def batch (κ : Prims) (cfg : DispatcherConfig) (workerId : String) :
    List Delivery → Txn.Prog loopLang Unit
  | [] => pure ()
  | d :: ds => do
    if ← borrow then return ()
    else
      let _ ← (processOne κ cfg workerId d).run.up
      batch κ cfg workerId ds

/- One pass through the loop of `run_worker`. -/
def runWorker (κ : Prims) (cfg : DispatcherConfig) (workerId : String) :
    Txn.Prog loopLang Pass := do
  if ← borrow then return .stop
  else
    match ← (query (.claimDueDeliveries workerId cfg.batchSize cfg.lockSecs)).run.up with
    | .error _ =>
      sleepOrShutdown
      return .next
    | .ok [] =>
      idle
      return .next
    | .ok (d :: ds) =>
      batch κ cfg workerId (d :: ds)
      return .next

end Dispatcher

open Dispatcher (Pass runWorker batch processOne)

/- What a process of the server is at: the worker loop, or a client's job. -/
inductive Task where
  | runWorker (workerId : String)
  | run (job : Job)

inductive Ended where
  | passed (p : Pass)
  | ran (r : Result)

def task (κ : Prims) (cfg : DispatcherConfig) : Task → Txn.Prog loopLang Ended
  | .runWorker w => (runWorker κ cfg w).bind fun p => .ret (.passed p)
  | .run job => (program κ cfg job).up.bind fun r => .ret (.ran r)

def again : Task → Ended → List Task
  | .runWorker w, .passed .next => [.runWorker w]
  | _, _ => []

/- `spawn_workers` starts one loop for each index. -/
def startable (cfg : DispatcherConfig) : Pid → Task → Bool
  | .worker _ i, .runWorker w => i < cfg.workerCount ∧ w = workerId i
  | .client n, .run job => entry cfg (.client n) job
  | _, _ => false

/-- The processes of `serve` with their loops. -/
def server (κ : Prims) (cfg : DispatcherConfig) :
    Txn.Machine schema loopLang Time (List Uuid) Pid Task Ended where
  exec q now skipped db := Stmt.exec q now skipped db
  exec_valid h := (Stmt.exec_shape h).valid
  prog := task κ cfg
  follow := again
  entry := startable cfg

section Tidy

variable {α β : Type} {κ : Prims} {cfg : DispatcherConfig} {w : String} {d : Delivery}

def anyCall (_ : Past) (_ : Op) : Prop := True

def Faults (x : Io α) : Prop :=
  ∀ past, Txn.Along anyCall (fun now r => ∀ e, r = .error e → now.tx = none) past x.run

def Closes (x : Io α) : Prop := ∀ past, Txn.Along anyCall (fun now _ => now.tx = none) past x.run

def Tidy (x : Io α) : Prop := ∀ past : Past, past.tx = none →
  Txn.Along anyCall (fun now _ => now.tx = none) past x.run

theorem faults_pure (a : α) : Faults (pure a : Io α) := fun _ _ eq => nomatch eq

theorem faults_ask (c : Call) : Faults (ask c) := fun _ => ⟨trivial, fun _ _ eq => nomatch eq⟩

theorem faults_query (q : Stmt) : Faults (query q) := fun past => by
  refine ⟨trivial, fun r e eq => ?_⟩
  cases r with
  | error err => rfl
  | ok out => cases eq

theorem faults_begin : Faults begin := fun past => by
  refine ⟨trivial, fun r e eq => ?_⟩
  cases r with
  | error err => rfl
  | ok out => cases eq

theorem faults_bind {x : Io α} {f : α → Io β} (first : Faults x) (rest : ∀ a, Faults (f a)) :
    Faults (x >>= f) := by
  intro past
  refine (Txn.along_then x f past).mpr ((first past).mono fun now r ends => ?_)
  cases r with
  | error e => exact fun e' eq => ends e rfl
  | ok a => exact rest a now

theorem closes_commit : Closes commit := fun _ => ⟨trivial, fun _ => rfl⟩

theorem closes_rollback : Closes rollback := fun _ => ⟨trivial, fun _ => rfl⟩

theorem closes_bind {x : Io α} {f : α → Io β} (first : Faults x) (rest : ∀ a, Closes (f a)) :
    Closes (x >>= f) := by
  intro past
  refine (Txn.along_then x f past).mpr ((first past).mono fun now r ends => ?_)
  cases r with
  | error e => exact ends e rfl
  | ok a => exact rest a now

theorem Closes.tidy {x : Io α} (closes : Closes x) : Tidy x := fun past _ => closes past

theorem tidy_pure (a : α) : Tidy (pure a : Io α) := fun _ outside => outside

theorem tidy_ask (c : Call) : Tidy (ask c) := fun _ outside => ⟨trivial, fun _ => outside⟩

theorem tidy_query (q : Stmt) : Tidy (query q) := fun past outside => by
  refine ⟨trivial, fun r => ?_⟩
  cases r with
  | error err => rfl
  | ok out => exact congrArg (Option.map _) outside

theorem tidy_bind {x : Io α} {f : α → Io β} (first : Tidy x) (rest : ∀ a, Tidy (f a)) :
    Tidy (x >>= f) := by
  intro past outside
  refine (Txn.along_then x f past).mpr ((first past outside).mono fun now r ends => ?_)
  cases r with
  | error e => exact ends
  | ok a => exact rest a now ends

open Dispatcher

theorem faults_recordAttempt {id : Uuid} {n : Int32} {code : Option Int32}
    {snippet error : Option String} {started finished : Time} :
    Faults (recordAttempt id n code snippet error started finished) :=
  faults_bind (faults_ask _) fun _ => faults_query _

theorem faults_markDeadOn {reason : String} : Faults (markDeadOn d w reason) := by
  refine faults_bind (faults_query _) fun applied => ?_
  cases applied with
  | true => exact faults_bind (faults_ask _) fun _ => faults_bind (faults_query _) fun _ =>
      faults_pure _
  | false => exact faults_pure _

theorem faults_failed {n : Int32} {error : String} : Faults (failed cfg w d n error) := by
  unfold failed
  split
  · exact faults_markDeadOn
  · refine faults_bind (faults_ask _) fun _ => faults_bind ?_ fun _ => faults_query _
    unfold backoff
    split
    · exact faults_pure _
    · exact faults_bind (faults_ask _) fun _ => faults_pure _

theorem closes_markDead {reason : String} : Closes (markDead d w reason) := by
  refine closes_bind faults_begin fun _ => closes_bind faults_markDeadOn fun applied => ?_
  cases applied with
  | true => exact closes_commit
  | false => exact closes_rollback

theorem closes_fail {e : Endpoint} {n : Int32} {code : Option Int32} {snippet : Option String}
    {error : String} {started finished : Time} :
    Closes (fail cfg w d e n code snippet error started finished) := by
  refine closes_bind faults_begin fun _ => closes_bind faults_recordAttempt fun _ => ?_
  refine closes_bind faults_failed fun applied => ?_
  cases applied with
  | true => exact closes_bind (faults_ask _) fun _ => closes_bind (faults_query _) fun _ =>
      closes_commit
  | false => exact closes_rollback

theorem closes_succeed {e : Endpoint} {n code : Int32} {snippet : String}
    {started finished : Time} : Closes (succeed w d e n code snippet started finished) := by
  refine closes_bind faults_begin fun _ => closes_bind faults_recordAttempt fun _ => ?_
  refine closes_bind (faults_query _) fun applied => ?_
  cases applied with
  | true => exact closes_bind (faults_query _) fun _ => closes_commit
  | false => exact closes_rollback

theorem closes_resolve {e : Endpoint} {n : Int32} {started finished : Time}
    {result : Except String Response} :
    Closes (resolve cfg w d e n started finished result) := by
  cases result with
  | error err => exact closes_fail
  | ok resp =>
    simp only [resolve]
    split
    · exact closes_succeed
    · exact closes_fail

theorem tidy_deliver {e : Endpoint} {now : Time} : Tidy (deliver κ cfg w d e now) := by
  refine tidy_bind (tidy_query _) fun found => ?_
  cases found with
  | none => exact closes_markDead.tidy
  | some event =>
    simp only
    split
    · exact closes_markDead.tidy
    · split
      · exact closes_markDead.tidy
      · refine tidy_bind (tidy_ask _) fun _ => tidy_bind (tidy_ask _) fun _ => ?_
        exact tidy_bind (tidy_ask _) fun _ => closes_resolve.tidy

theorem tidy_processOne : Tidy (processOne κ cfg w d) := by
  refine tidy_bind (tidy_ask _) fun now => tidy_bind (tidy_query _) fun found => ?_
  have deferred : ∀ next, Tidy (Dispatcher.deferDelivery d w next) := fun next =>
    tidy_bind (tidy_query _) fun _ => tidy_pure _
  cases found with
  | none => exact closes_markDead.tidy
  | some e =>
    simp only [consult]
    split
    · exact deferred _
    · split
      · exact deferred _
      · refine tidy_bind (tidy_query _) fun acquired => ?_
        cases acquired with
        | true => exact tidy_deliver
        | false => exact deferred _
      · exact tidy_deliver

end Tidy

section Places

variable (κ : Prims) (cfg : DispatcherConfig) (w : String)

def remaining (ds : List Delivery) : Txn.Prog loopLang Ended :=
  (batch κ cfg w ds).bind fun _ => .ret (.passed .next)

def onClaimed : Except CoreError (List Delivery) → Txn.Prog loopLang Ended
  | .error _ => Dispatcher.sleepOrShutdown.bind fun _ => .ret (.passed .next)
  | .ok [] => Dispatcher.idle.bind fun _ => .ret (.passed .next)
  | .ok (d :: ds) => remaining κ cfg w (d :: ds)

def claiming : Txn.Prog loopLang Ended :=
  .call (.stmt (.claimDueDeliveries w cfg.batchSize cfg.lockSecs) : Txn.Op loopLang)
    fun r : Except DbError (List Delivery) => onClaimed κ cfg w (raise r)

/- The flag is looked at before a claim, and before each delivery. -/
def checked (flag : Bool) (pass : Pass) (rest : Txn.Prog loopLang Ended) : Txn.Prog loopLang Ended :=
  if flag then .ret (.passed pass) else rest

theorem task_runWorker : task κ cfg (.runWorker w) =
    .call (.env (.inr .borrow) : Txn.Op loopLang)
      fun flag : Bool => checked flag .stop (claiming κ cfg w) := by
  refine congrArg (Txn.Prog.call (.env (.inr .borrow) : Txn.Op loopLang)) (funext fun flag => ?_)
  cases flag with
  | true => rfl
  | false =>
    refine congrArg (Txn.Prog.call _) (funext fun r => ?_)
    match r with
    | .error e => rfl
    | .ok [] => rfl
    | .ok (d :: ds) =>
      exact Txn.Prog.bind_assoc (batch κ cfg w (d :: ds)) (fun _ => .ret Pass.next)
        fun p => .ret (Ended.passed p)

theorem remaining_cons (d : Delivery) (ds : List Delivery) : remaining κ cfg w (d :: ds) =
    .call (.env (.inr .borrow) : Txn.Op loopLang) fun flag : Bool =>
      checked flag .next ((processOne κ cfg w d).run.up.bind fun _ => remaining κ cfg w ds) := by
  refine congrArg (Txn.Prog.call (.env (.inr .borrow) : Txn.Op loopLang)) (funext fun flag => ?_)
  cases flag with
  | true => rfl
  | false => exact Txn.Prog.bind_assoc (processOne κ cfg w d).run.up (fun _ => batch κ cfg w ds) _

/- Places in the loop where the worker holds nothing. -/
inductive Resting : Txn.Prog loopLang Ended → Prop where
  | top : Resting (task κ cfg (.runWorker w))
  | sleeping : Resting (Dispatcher.sleepOrShutdown.bind fun _ => .ret (.passed .next))
  | idling : Resting (Dispatcher.idle.bind fun _ => .ret (.passed .next))
  | ended {pass : Pass} : Resting (.ret (.passed pass))

abbrev LoopProc := Txn.Proc Row Time loopLang Task Ended

/-- Where a worker is in its loop, and the process that stands for it in the engine: none
between batches, and in a batch one that is at the delivery or done with it. -/
inductive Place (p' : LoopProc) : Option Proc → Prop where
  | resting (prog : Resting κ cfg w p'.prog) (outside : p'.tx = none) : Place p' none
  | claiming (prog : p'.prog = claiming κ cfg w) (outside : p'.tx = none) :
      Place p' (some ((engine κ cfg).fresh (.claim w) []))
  | between {p : Proc} {d : Delivery} {ds : List Delivery} {res : Result}
      (prog : p'.prog = remaining κ cfg w (d :: ds)) (outside : p'.tx = none)
      (ended : p.prog = .ret res) (closed : p.tx = none)
      (next : follow p.job res ++ p.todo = (d :: ds).map (.processOne w)) : Place p' (some p)
  | working {p : Proc} {d : Delivery} {ds : List Delivery} {op : Op}
      {k : op.Ans → Prog (Except CoreError Unit)}
      (prog : p'.prog = (Txn.Prog.call op k).up.bind fun _ => remaining κ cfg w ds)
      (job : p.job = .processOne w d)
      (goes : p.prog = (Txn.Prog.call op k).bind fun r => .ret (.processed r))
      (todo : p.todo = ds.map (.processOne w)) (tx : p'.tx = p.tx.map Txn.Tx.up)
      (closes : Txn.Along anyCall (fun now _ => now.tx = none) p.past (.call op k)) :
      Place p' (some p)

/-- How the processes of the server stand to those of the engine. -/
inductive Abreast : Pid → Option LoopProc → Option Proc → Prop where
  | idle {pid : Pid} : Abreast pid none none
  | worker {process i : Nat} {w : String} {p' : LoopProc} {o : Option Proc}
      (index : i < cfg.workerCount) (name : w = workerId i) (job : p'.job = .runWorker w)
      (todo : p'.todo = []) (place : Place κ cfg w p' o) :
      Abreast (.worker process i) (some p') o
  | client {n : Nat} {p' : LoopProc} {p : Proc} (entry : entry cfg (.client n) p.job = true)
      (job : p'.job = .run p.job) (todo' : p'.todo = []) (todo : p.todo = [])
      (prog : p'.prog = p.prog.up.bind fun r => .ret (.ran r))
      (tx : p'.tx = p.tx.map Txn.Tx.up) : Abreast (.client n) (some p') (some p)

variable {κ cfg w}

theorem place_working {p' : LoopProc} {p : Proc} {d : Delivery} {ds : List Delivery}
    {x : Prog (Except CoreError Unit)} (pid : Pid)
    (prog : p'.prog = x.up.bind fun _ => remaining κ cfg w ds) (job : p.job = .processOne w d)
    (goes : p.prog = x.bind fun r => .ret (.processed r))
    (todo : p.todo = ds.map (.processOne w)) (tx : p'.tx = p.tx.map Txn.Tx.up)
    (closes : Txn.Along anyCall (fun now _ => now.tx = none) p.past x) :
    ∃ o, Txn.Turns (engine κ cfg) pid (some p) o ∧ Place κ cfg w p' o := by
  cases x with
  | call op k => exact ⟨_, .none, .working prog job goes todo tx closes⟩
  | ret r =>
    have closed : p.tx = none := Option.map_eq_none_iff.mp closes
    have outside : p'.tx = none := by rw [tx, closed]; rfl
    cases ds with
    | nil =>
      refine ⟨none, .finish goes ?_, .resting (prog ▸ .ended) outside⟩
      have gone : (engine κ cfg).after p (.processed r) = none := by
        simp [Txn.Machine.after, engine, follow, job, todo]
      rw [gone]
      exact .none
    | cons d' ds =>
      refine ⟨_, .none, .between prog outside goes closed ?_⟩
      rw [todo, job]
      rfl

theorem resting_call {prog : Txn.Prog loopLang Ended} (resting : Resting κ cfg w prog)
    {op' : Txn.Op loopLang} {k'} (head : prog = .call op' k') : ∃ x, op' = .env (.inr x) := by
  cases resting with
  | top =>
    cases head
    exact ⟨.borrow, rfl⟩
  | sleeping =>
    cases head
    exact ⟨.sleepOrShutdown, rfl⟩
  | idling =>
    cases head
    exact ⟨.idle, rfl⟩
  | ended => cases head

theorem place_claimed {p' : LoopProc} {p : Proc} (pid : Pid)
    {r : Except CoreError (List Delivery)} (prog : p'.prog = onClaimed κ cfg w r)
    (outside : p'.tx = none) (job : p.job = .claim w) (todo : p.todo = [])
    (ended : p.prog = .ret (.claimed r)) (closed : p.tx = none) :
    ∃ o, Txn.Turns (engine κ cfg) pid (some p) o ∧ Place κ cfg w p' o := by
  have gone : follow p.job (.claimed r) ++ p.todo = [] →
      Txn.Turns (engine κ cfg) pid (some p) none := by
    intro last
    have after : (engine κ cfg).after p (.claimed r) = none := by
      rw [Txn.Machine.after, show (engine κ cfg).follow = follow from rfl, last]
    exact .finish ended (after ▸ .none)
  match r with
  | .error e => exact ⟨none, gone (by rw [job, todo]; rfl), .resting (prog ▸ .sleeping) outside⟩
  | .ok [] => exact ⟨none, gone (by rw [job, todo]; rfl), .resting (prog ▸ .idling) outside⟩
  | .ok (d :: ds) =>
    refine ⟨_, .none, .between prog outside ended closed ?_⟩
    rw [job, todo]
    exact List.append_nil _

theorem place_taken {p' : LoopProc} {p : Proc} {d : Delivery} {ds : List Delivery} {res : Result}
    (pid : Pid) (prog : p'.prog = (processOne κ cfg w d).run.up.bind fun _ => remaining κ cfg w ds)
    (outside : p'.tx = none) (ended : p.prog = .ret res)
    (next : follow p.job res ++ p.todo = (d :: ds).map (.processOne w)) :
    ∃ o, Txn.Turns (engine κ cfg) pid (some p) o ∧ Place κ cfg w p' o := by
  have after : (engine κ cfg).after p res =
      some ((engine κ cfg).fresh (.processOne w d) (ds.map (.processOne w))) := by
    rw [Txn.Machine.after, show (engine κ cfg).follow = follow from rfl, next]
    rfl
  obtain ⟨o, turns, place⟩ := place_working
    (p := (engine κ cfg).fresh (.processOne w d) (ds.map (.processOne w)))
    pid prog rfl rfl rfl outside (tidy_processOne _ rfl)
  exact ⟨o, .finish ended (after ▸ turns), place⟩

theorem abreast_worker {p' : LoopProc} {o : Option Proc} {process i : Nat}
    (index : i < cfg.workerCount) (name : w = workerId i) (job : p'.job = .runWorker w)
    (todo : p'.todo = [])
    (next : ∃ o₂, Txn.Turns (engine κ cfg) (.worker process i) o o₂ ∧ Place κ cfg w p' o₂) :
    ∃ o₂, Txn.Turns (engine κ cfg) (.worker process i) o o₂ ∧
      Abreast κ cfg (.worker process i) (some p') o₂ := by
  obtain ⟨o₂, turns, place⟩ := next
  exact ⟨o₂, turns, .worker index name job todo place⟩

theorem server_follows : Txn.Follows (server κ cfg) (engine κ cfg) (Abreast κ cfg) where
  exec _ _ _ _ := rfl
  idle _ := .idle
  writes := by
    intro pid o p rel
    cases rel with
    | worker _ _ _ _ place =>
      refine ⟨_, rfl, ?_⟩
      cases place with
      | claiming _ outside => exact (Txn.writes_none outside).trans rfl
      | between _ outside _ closed => rw [Txn.writes_none outside, Txn.writes_none closed]
      | working _ _ _ _ tx => exact Txn.writes_up tx
    | client _ _ _ _ _ tx => exact ⟨_, rfl, Txn.writes_up tx⟩
  spawn := by
    intro pid job o rel may
    cases rel
    cases pid with
    | worker process i =>
      cases job with
      | run job => cases may
      | runWorker w =>
        obtain ⟨index, name⟩ := of_decide_eq_true may
        exact ⟨none, .none, .worker index name rfl rfl (.resting .top rfl)⟩
    | client n =>
      cases job with
      | runWorker w => cases may
      | run job => exact ⟨_, .spawn may .none, .client may rfl rfl rfl rfl rfl⟩
  finish := by
    intro pid p' res o rel ended
    cases rel with
    | worker index name job todo place =>
      cases place with
      | resting prog outside =>
        rw [ended] at prog
        cases prog with
        | @ended pass =>
          cases pass with
          | stop =>
            refine ⟨none, .none, ?_⟩
            rw [Txn.Machine.after, job, todo]
            exact .idle
          | next =>
            refine ⟨none, .none, ?_⟩
            rw [Txn.Machine.after, job, todo]
            exact .worker index name rfl rfl (.resting .top rfl)
      | claiming prog => cases prog.symm.trans ended
      | between prog => cases prog.symm.trans ended
      | working prog => cases prog.symm.trans ended
    | @client n _ p entry job todo' todo prog tx =>
      cases goes : p.prog with
      | call op k =>
        rw [goes] at prog
        cases prog.symm.trans ended
      | ret r =>
        rw [goes] at prog
        cases prog.symm.trans ended
        have last : follow p.job r = [] := by
          cases work : p.job with
          | claim w =>
            rw [work] at entry
            cases entry
          | _ => rfl
        refine ⟨none, .finish goes ?_, ?_⟩
        · rw [Txn.Machine.after, show (engine κ cfg).follow = follow from rfl, last, todo]
          exact .none
        · rw [Txn.Machine.after, job, todo']
          exact .idle
  crash := by
    intro pid p' o rel
    exact ⟨none, Txn.turns_gone pid o, .idle⟩
  extra := by
    intro pid p' x k o rel head ans
    cases rel with
    | @worker process i w _ _ index name job todo place =>
      refine abreast_worker index name job todo ?_
      cases place with
      | resting prog outside =>
        generalize p'.prog = whole at prog head
        cases prog with
        | top =>
          rw [task_runWorker] at head
          cases head
          cases ans with
          | true => exact ⟨none, .none, .resting .ended outside⟩
          | false =>
            refine ⟨_, .spawn ?_ .none, .claiming rfl outside⟩
            exact decide_eq_true ⟨index, name⟩
        | sleeping =>
          cases head
          exact ⟨none, .none, .resting .ended outside⟩
        | idling =>
          cases head
          exact ⟨none, .none, .resting .ended outside⟩
        | ended => cases head
      | claiming prog => cases prog.symm.trans head
      | @between p d ds res prog outside ended closed next =>
        rw [remaining_cons] at prog
        cases prog.symm.trans head
        cases ans with
        | true => exact ⟨none, Txn.turns_gone _ _, .resting .ended outside⟩
        | false => exact place_taken _ rfl outside ended next
      | @working _ _ _ op _ prog =>
        cases op <;> cases prog.symm.trans head
    | @client n _ p entry job todo' todo prog tx =>
      cases goes : p.prog with
      | call op k =>
        rw [goes] at prog
        cases op <;> cases prog.symm.trans head
      | ret r =>
        rw [goes] at prog
        cases prog.symm.trans head
  call := by
    intro pid p' op' k' o rel head
    cases rel with
    | @worker process i w _ _ index name job todo place =>
      cases place with
      | resting prog => exact .inl (resting_call prog head)
      | claiming prog outside =>
        cases prog.symm.trans head
        refine .inr ⟨.stmt _, _, _, rfl, rfl, rfl, outside, fun ans tx same => ?_⟩
        have closed : tx = none := by
          cases ans <;> exact Option.map_eq_none_iff.mp same
        subst closed
        refine abreast_worker index name job todo ?_
        exact place_claimed _ (r := raise ans) rfl rfl rfl rfl rfl rfl
      | between prog =>
        rw [remaining_cons] at prog
        cases prog.symm.trans head
        exact .inl ⟨.borrow, rfl⟩
      | @working p d ds op k prog job' goes todo' tx closes =>
        cases prog.symm.trans head
        refine .inr ⟨op, p, _, rfl, rfl, goes, tx, fun ans tx' same => ?_⟩
        refine abreast_worker index name job todo ?_
        refine place_working _ (x := k (op.down ans)) rfl job' rfl todo' rfl ?_
        have past := Txn.past_resume p op (op.down ans)
          ((k (op.down ans)).bind fun r => .ret (.processed r)) tx' same
        exact past ▸ closes.2 (op.down ans)
    | @client n _ p entry job todo' todo prog tx =>
      cases goes : p.prog with
      | ret r =>
        rw [goes] at prog
        cases prog.symm.trans head
      | call op k =>
        rw [goes] at prog
        cases prog.symm.trans head
        exact .inr ⟨op, p, k, rfl, rfl, goes, tx, fun ans tx' same =>
          ⟨_, .none, .client entry job todo' todo rfl rfl⟩⟩

end Places

/-- Whatever the loops of `serve` do, the engine does: the same calls with the same answers and
the same durable units, in the same order, to the same rows. -/
theorem worker_loop_refines (κ : Prims) (cfg : DispatcherConfig) (db : Db)
    (s' : Txn.State schema loopLang Time Pid Task Ended)
    (run : Txn.Reach (server κ cfg) Txn.anyStep (.start db) s') :
    ∃ s : State, Run κ cfg Txn.anyStep db s ∧ s.db = s'.db ∧
      s'.log.filterMap Txn.Entry.below = s.log.filterMap Txn.Entry.mark := by
  obtain ⟨s, reach, below⟩ := Txn.reach_follows server_follows run
  exact ⟨s, reach, below.db.symm, below.marks⟩

section Replay

abbrev LoopMove := Txn.Move loopLang Time (List Uuid) Pid Task

def asTask : Move → LoopMove
  | .spawn pid job => .spawn pid (.run job)
  | .go pid now skipped answer => .go pid now skipped fun
    | .inl c => answer c
    | .inr .borrow => false
    | .inr .idle => ()
    | .inr .sleepOrShutdown => ()
  | .crash pid => .crash pid

def loops (n : Nat) (pid : Pid) (now : Time) (fresh : Uuid) (reply : Except String Response)
    (flag : Bool) : List LoopMove :=
  List.replicate n (.go pid now [] fun
    | .inl c => world now fresh reply c
    | .inr .borrow => flag
    | .inr .idle => ()
    | .inr .sleepOrShutdown => ())

def stoppedMidBatch : List LoopMove × List LoopMove :=
  ((published ++ .spawn (.client 0) (.enqueueMessage "t" none "y" .null) ::
      go 4 (.client 0) 0 4 (.error "") ++ go 4 (.client 0) 0 5 (.error "")).map asTask ++
    .spawn (.worker 0 0) (.runWorker (workerId 0)) ::
    loops 8 (.worker 0 0) 1 6 (.ok ⟨200, ""⟩) false,
   loops 11 (.worker 0 0) 1 7 (.ok ⟨200, ""⟩) true)

theorem worker_loop_refines_stopped :
    ∃ (s' : Txn.State schema loopLang Time Pid Task Ended) (s : State),
      Txn.Reach (server plain Dispatcher.default) Txn.anyStep (.start .empty) s' ∧
      s'.procs.lookup (.worker 0 0) = none ∧ Run plain Dispatcher.default Txn.anyStep .empty s ∧
      (Db.all Delivery s.db).map (·.status) = [.succeeded, .inProgress] ∧
      (s.log.filterMap Txn.Entry.mark).length = 36 := by
  have played : ((Txn.play (server plain Dispatcher.default) (fun _ _ => true) (.start .empty)
      (stoppedMidBatch.1 ++ stoppedMidBatch.2)).map fun s => ((s.procs.lookup (.worker 0 0)).isSome,
        (Db.all Delivery s.db).map (·.status), (s.log.filterMap Txn.Entry.below).length)) =
      some (false, [.succeeded, .inProgress], 36) := by decide +kernel
  obtain ⟨s', moved, eq⟩ := Option.map_eq_some_iff.mp played
  simp only [Prod.mk.injEq, Option.isSome_eq_false_iff, Option.isNone_iff_eq_none] at eq
  obtain ⟨gone, rows, marks⟩ := eq
  have run : Txn.Reach (server plain Dispatcher.default) Txn.anyStep (.start .empty) s' :=
    Txn.play_reach (fun _ _ _ => trivial) moved
  obtain ⟨s, reach, db, same⟩ := worker_loop_refines plain Dispatcher.default .empty s' run
  exact ⟨s', s, run, gone, reach, db ▸ rows, same ▸ marks⟩

end Replay

end Dropless
