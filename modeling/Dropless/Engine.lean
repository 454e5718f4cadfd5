import Dropless.Api

/-! The whole engine as one machine: the workers of any number of `serve` processes,
and any number of clients that run the core functions, API requests, ingest requests
and commands. A worker's claim puts one `process_one` job per claimed row in front of
it; shutdown between deliveries is a crash. -/
namespace Dropless

/- `spawn_workers` names its workers by their index alone. -/
def workerId (index : Nat) : String := "worker-" ++ toString index

inductive Pid where
  | worker (process index : Nat)
  | client (n : Nat)
deriving DecidableEq

inductive Job where
  | claim (workerId : String)
  | processOne (workerId : String) (d : Delivery)
  | enqueueMessage (tenantId : String) (consumerId : Option Uuid) (eventType : String)
      (payload : Value)
  | accept (source : InboundSource) (sourceEventId : Option String) (eventType : String)
      (rawBody : Bytes) (payload : Value)
  | updateEndpoint (id : Uuid) (tenantId : String) (url : Option String)
      (disabled : Option Bool) (eventTypes : Option (List String))
  | resetForReplay (id : Uuid)
  | serve (headers : Headers) (request : Api.Request)
  | ingest (slug : String) (headers : Headers) (raw : Bytes)
  | command (c : Cli.Command)

inductive Result where
  | claimed (r : Except CoreError (List Delivery))
  | processed (r : Except CoreError Unit)
  | enqueued (r : Except CoreError Enqueued)
  | accepted (r : Except CoreError Accepted)
  | updated (r : Except CoreError (Option Endpoint))
  | reset (r : Except CoreError Bool)
  | answered (r : Except CoreError Api.Answer)
  | printed (r : Except CoreError (Option Uuid))

def conclude {α : Type} (result : Except CoreError α → Result) (x : Io α) : Prog Result :=
  Txn.Prog.bind x.run fun r => .ret (result r)

def program (κ : Prims) (cfg : DispatcherConfig) : Job → Prog Result
  | .claim w => conclude .claimed (query (.claimDueDeliveries w cfg.batchSize cfg.lockSecs))
  | .processOne w d => conclude .processed (Dispatcher.processOne κ cfg w d)
  | .enqueueMessage tenant consumer type payload =>
      conclude .enqueued (Outbox.enqueueMessage tenant consumer type payload)
  | .accept source key type raw payload =>
      conclude .accepted (Inbox.accept source key type raw payload)
  | .updateEndpoint id tenant url disabled types =>
      conclude .updated (query (.updateEndpoint id tenant url disabled types))
  | .resetForReplay id => conclude .reset (query (.resetForReplay id))
  | .serve headers request => conclude .answered (Api.serve κ headers request)
  | .ingest slug headers raw => conclude .answered (Api.ingest κ slug headers raw)
  | .command c => conclude .printed (Cli.run κ c)

def follow : Job → Result → List Job
  | .claim w, .claimed (.ok ds) => ds.map (.processOne w)
  | _, _ => []

def entry (cfg : DispatcherConfig) : Pid → Job → Bool
  | .worker _ i, .claim w => i < cfg.workerCount ∧ w = workerId i
  | .client _, .claim _ => false
  | .client _, .processOne _ _ => false
  | .client _, _ => true
  | _, _ => false

def engine (κ : Prims) (cfg : DispatcherConfig) :
    Txn.Machine schema lang Time (List Uuid) Pid Job Result where
  exec q now skipped db := Stmt.exec q now skipped db
  exec_valid h := (Stmt.exec_shape h).valid
  prog := program κ cfg
  follow := follow
  entry := entry cfg

abbrev State := Txn.State schema lang Time Pid Job Result
abbrev Proc := Txn.Proc Row Time lang Job Result
abbrev Entry := Txn.Entry lang Time Pid Job Result
abbrev Calls := List (Σ op : Op, op.Ans)

/-- The runs of the engine on a database, all of whose steps meet a condition. -/
abbrev Run (κ : Prims) (cfg : DispatcherConfig) (cond : State → State → Prop) (db : Db)
    (s : State) : Prop := Txn.Reach (engine κ cfg) cond (.start db) s

end Dropless
