import Mathlib.Data.List.AList
import Dropless.Txn.Store
import Dropless.Txn.Prog

/-! Any number of client programs over one store, interleaved call by call. A
statement reads the committed rows and the writes of its own transaction, and waits
while another open transaction holds a clashing version. A call may fail, a commit
may succeed without its acknowledgement, and a process may crash anywhere; each of
these drops the open transaction. -/
set_option linter.unusedSectionVars false

namespace Txn

variable {V K I : Type} [DecidableEq K] [DecidableEq I] {σ : Schema V K I} {L : Lang}
  {T C Pid Job Res : Type} [DecidableEq Pid]

/-- A statement that ran inside a transaction. -/
structure Done (V : Type) (L : Lang) where
  stmt : L.Stmt
  out : L.Out stmt
  writes : List (Write V)

def Done.ran (d : Done V L) : Ran L := ⟨d.stmt, d.out⟩

structure Tx (V T : Type) (L : Lang) where
  time : T
  done : List (Done V L)

def Tx.writes (tx : Tx V T L) : List (Write V) := tx.done.flatMap Done.writes

structure Proc (V T : Type) (L : Lang) (Job Res : Type) where
  job : Job
  prog : Prog L Res
  calls : List (Σ op : Op L, op.Ans)
  tx : Option (Tx V T L)
  known : List (List (Ran L))
  todo : List Job

namespace Proc

def past (p : Proc V T L Job Res) : Past L :=
  ⟨p.calls, p.tx.map fun tx => tx.done.map Done.ran, p.known⟩

def writes (p : Proc V T L Job Res) : List (Write V) := (p.tx.map Tx.writes).getD []

end Proc

/-- How statements run, and what programs the processes run. `follow` lists the jobs
that the result of a job puts in front of its process. -/
structure Machine (σ : Schema V K I) (L : Lang) (T C Pid Job Res : Type) where
  exec : (q : L.Stmt) → T → C → Store σ → Except L.Err (L.Out q × List (Write V))
  exec_valid : ∀ {q t c s out ws}, exec q t c s = .ok (out, ws) → s.Valid ws
  prog : Job → Prog L Res
  follow : Job → Res → List Job
  entry : Pid → Job → Bool

inductive Entry (L : Lang) (T Pid Job Res : Type) where
  | started (pid : Pid) (job : Job)
  | called (pid : Pid) (job : Job) (op : Op L) (ans : op.Ans)
  | applied (pid : Pid) (job : Job) (time : T) (unit : List (Ran L))
  | finished (pid : Pid) (job : Job) (res : Res)
  | crashed (pid : Pid)

/-- The log is newest first. It is a record for statements about runs; no step
reads it. -/
structure State (σ : Schema V K I) (L : Lang) (T Pid Job Res : Type) where
  db : Store σ
  procs : AList (fun _ : Pid => Proc V T L Job Res)
  log : List (Entry L T Pid Job Res)

/-- Calls that leave their process without a transaction and nothing new durable. -/
inductive Drops {L : Lang} : (op : Op L) → op.Ans → Prop where
  | begin (e : L.Err) : Drops .begin (.error e)
  | stmt (q : L.Stmt) (e : L.Err) : Drops (.stmt q) (.error e)
  | commit (e : L.Err) : Drops .commit (.error e)
  | rollback (r : Except L.Err Unit) : Drops .rollback r

namespace State

variable (s : State σ L T Pid Job Res)

def start (db : Store σ) : State σ L T Pid Job Res := ⟨db, ∅, []⟩

def At (pid : Pid) (p : Proc V T L Job Res) (op : Op L) (k : op.Ans → Prog L Res) : Prop :=
  s.procs.lookup pid = some p ∧ p.prog = .call op k

/-- Row versions held by the open transactions of the other processes. -/
def held (pid : Pid) : List (Write V) :=
  (s.procs.entries.filter (·.1 ≠ pid)).flatMap fun e => e.2.writes

def Free (pid : Pid) (ws : List (Write V)) : Prop := Store.Disjoint σ (s.held pid) ws

instance (pid : Pid) (ws : List (Write V)) : Decidable (s.Free pid ws) :=
  inferInstanceAs (Decidable (Store.Disjoint σ _ _))

def launch (M : Machine σ L T C Pid Job Res) (pid : Pid) (job : Job) (todo : List Job) :
    State σ L T Pid Job Res :=
  { s with
    procs := s.procs.insert pid ⟨job, M.prog job, [], none, [], todo⟩
    log := .started pid job :: s.log }

def resume (pid : Pid) (p : Proc V T L Job Res) (op : Op L) (k : op.Ans → Prog L Res)
    (ans : op.Ans) (tx : Option (Tx V T L)) : State σ L T Pid Job Res :=
  { s with
    procs := s.procs.insert pid
      { p with
        prog := k ans, calls := ⟨op, ans⟩ :: p.calls, tx := tx,
        known := Past.told p.past.tx op ans ++ p.known }
    log := .called pid p.job op ans :: s.log }

def settle (pid : Pid) (job : Job) (tx : Tx V T L) : State σ L T Pid Job Res :=
  { s with
    db := s.db.apply tx.writes
    log := .applied pid job tx.time (tx.done.map Done.ran) :: s.log }

def finish (M : Machine σ L T C Pid Job Res) (pid : Pid) (p : Proc V T L Job Res) (res : Res) :
    State σ L T Pid Job Res :=
  let logged := { s with log := .finished pid p.job res :: s.log }
  match M.follow p.job res ++ p.todo with
  | [] => { logged with procs := s.procs.erase pid }
  | job :: todo => logged.launch M pid job todo

def crash (pid : Pid) : State σ L T Pid Job Res :=
  { s with procs := s.procs.erase pid, log := .crashed pid :: s.log }

end State

inductive Step (M : Machine σ L T C Pid Job Res) (s : State σ L T Pid Job Res) :
    State σ L T Pid Job Res → Prop where
  | spawn {pid : Pid} {job : Job} (idle : s.procs.lookup pid = none)
      (entry : M.entry pid job = true) : Step M s (s.launch M pid job [])
  | begin {pid : Pid} {p : Proc V T L Job Res} {k} {t : T} (at_ : s.At pid p .begin k) :
      Step M s (s.resume pid p .begin k (.ok ()) (some ⟨t, []⟩))
  | query {pid : Pid} {p : Proc V T L Job Res} {q k} {tx : Tx V T L} {c : C} {out ws}
      (at_ : s.At pid p (.stmt q) k) (inside : p.tx = some tx)
      (ran : M.exec q tx.time c (s.db.apply tx.writes) = .ok (out, ws)) (free : s.Free pid ws) :
      Step M s (s.resume pid p (.stmt q) k (.ok out) (some ⟨tx.time, tx.done ++ [⟨q, out, ws⟩]⟩))
  | auto {pid : Pid} {p : Proc V T L Job Res} {q k} {t : T} {c : C} {out ws ans}
      (at_ : s.At pid p (.stmt q) k) (outside : p.tx = none)
      (ran : M.exec q t c s.db = .ok (out, ws)) (free : s.Free pid ws)
      (told : ans = .ok out ∨ ∃ e, ans = .error e) :
      Step M s ((s.settle pid p.job ⟨t, [⟨q, out, ws⟩]⟩).resume pid p (.stmt q) k ans none)
  | commit {pid : Pid} {p : Proc V T L Job Res} {k} {tx : Tx V T L} {ans}
      (at_ : s.At pid p .commit k) (inside : p.tx = some tx) :
      Step M s ((s.settle pid p.job tx).resume pid p .commit k ans none)
  | drop {pid : Pid} {p : Proc V T L Job Res} {op k ans} (at_ : s.At pid p op k)
      (gone : Drops op ans) : Step M s (s.resume pid p op k ans none)
  | env {pid : Pid} {p : Proc V T L Job Res} {c k} {reply : L.Reply c}
      (at_ : s.At pid p (.env c) k) : Step M s (s.resume pid p (.env c) k reply p.tx)
  | finish {pid : Pid} {p : Proc V T L Job Res} {res : Res} (live : s.procs.lookup pid = some p)
      (ended : p.prog = .ret res) : Step M s (s.finish M pid p res)
  | crash {pid : Pid} {p : Proc V T L Job Res} (live : s.procs.lookup pid = some p) :
      Step M s (s.crash pid)

/-- Runs from a start state all of whose steps meet a condition. -/
inductive Reach (M : Machine σ L T C Pid Job Res)
    (cond : State σ L T Pid Job Res → State σ L T Pid Job Res → Prop)
    (start : State σ L T Pid Job Res) : State σ L T Pid Job Res → Prop where
  | start : Reach M cond start start
  | next {s t} : Reach M cond start s → Step M s t → cond s t → Reach M cond start t

def anyStep (_ _ : State σ L T Pid Job Res) : Prop := True

theorem Reach.weaken {M : Machine σ L T C Pid Job Res}
    {cond cond' : State σ L T Pid Job Res → State σ L T Pid Job Res → Prop}
    (weaker : ∀ s t, cond s t → cond' s t) {s t : State σ L T Pid Job Res}
    (h : Reach M cond s t) : Reach M cond' s t := by
  induction h with
  | start => exact .start
  | next _ step ok ih => exact .next ih step (weaker _ _ ok)

theorem Reach.trans {M : Machine σ L T C Pid Job Res}
    {cond : State σ L T Pid Job Res → State σ L T Pid Job Res → Prop}
    {s t u : State σ L T Pid Job Res} (h : Reach M cond s t) (g : Reach M cond t u) :
    Reach M cond s u := by
  induction g with
  | start => exact h
  | next _ step ok ih => exact .next ih step ok

end Txn
