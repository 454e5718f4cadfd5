import Dropless.Txn.Solo

/-! One program performed to its end, on its own and with a database that runs every
statement it admits: what the program answers, and what it leaves. The world gives the
answers of the outside calls, by the number of the call. -/
set_option linter.unusedSectionVars false

namespace Txn

variable {V K I : Type} [DecidableEq K] [DecidableEq I] {σ : Schema V K I} {L : Lang}
  {T C Pid Job Res : Type} [DecidableEq Pid] {α β E : Type}

structure World (L : Lang) (T C : Type) where
  time : Nat → T
  choice : C
  answer : Nat → (c : L.Call) → L.Reply c
  /-- The answer to a commit without a transaction. -/
  lost : L.Err

/-- Where a performance is: the calls made, the rows, the open transaction, and the units
made durable so far, newest first. -/
structure Scene {V K I : Type} (σ : Schema V K I) (L : Lang) (T : Type) where
  calls : Nat
  db : Store σ
  tx : Option (Tx V T L)
  units : List (List (Ran L))

def Scene.start (db : Store σ) : Scene σ L T := ⟨0, db, none, []⟩

def Scene.ended (s : Scene σ L T) : Scene σ L T := ⟨s.calls, s.db, none, s.units⟩

variable (M : Machine σ L T C Pid Job Res) (W : World L T C)

namespace Scene

def exec (s : Scene σ L T) (q : L.Stmt) : Except L.Err (L.Out q) × Scene σ L T :=
  match s.tx with
  | some tx =>
    match M.exec q tx.time W.choice (s.db.apply tx.writes) with
    | .ok (out, ws) =>
      (.ok out, ⟨s.calls + 1, s.db, some ⟨tx.time, tx.done ++ [⟨q, out, ws⟩]⟩, s.units⟩)
    | .error e => (.error e, ⟨s.calls + 1, s.db, none, s.units⟩)
  | none =>
    match M.exec q (W.time s.calls) W.choice s.db with
    | .ok (out, ws) => (.ok out, ⟨s.calls + 1, s.db.apply ws, none, [⟨q, out⟩] :: s.units⟩)
    | .error e => (.error e, ⟨s.calls + 1, s.db, none, s.units⟩)

def call (s : Scene σ L T) : (op : Op L) → op.Ans × Scene σ L T
  | .begin => (.ok (), ⟨s.calls + 1, s.db, some ⟨W.time s.calls, []⟩, s.units⟩)
  | .commit =>
    match s.tx with
    | some tx =>
      (.ok (), ⟨s.calls + 1, s.db.apply tx.writes, none, tx.done.map Done.ran :: s.units⟩)
    | none => (.error W.lost, ⟨s.calls + 1, s.db, none, s.units⟩)
  | .rollback => (.ok (), ⟨s.calls + 1, s.db, none, s.units⟩)
  | .env c => (W.answer s.calls c, ⟨s.calls + 1, s.db, s.tx, s.units⟩)
  | .stmt q => s.exec M W q

end Scene

def perform (s : Scene σ L T) : Prog L α → α × Scene σ L T
  | .ret a => (a, s)
  | .call op k => perform (s.call M W op).2 (k (s.call M W op).1)

def Scene.noted (pid : Pid) (job : Job) (s : Scene σ L T) (op : Op L) :
    List (Entry L T Pid Job Res) :=
  .called pid job op (s.call M W op).1 :: match op, s.tx with
    | .commit, some tx => [.applied pid job tx.time (tx.done.map Done.ran)]
    | .stmt q, none =>
      match M.exec q (W.time s.calls) W.choice s.db with
      | .ok (out, _) => [.applied pid job (W.time s.calls) [⟨q, out⟩]]
      | .error _ => []
    | _, _ => []

def record (pid : Pid) (job : Job) (s : Scene σ L T) : Prog L α → List (Entry L T Pid Job Res)
  | .ret _ => []
  | .call op k => record pid job (s.call M W op).2 (k (s.call M W op).1) ++ s.noted M W pid job op

variable {M W} {s : Scene σ L T}

theorem perform_bind (p : Prog L α) (f : α → Prog L β) :
    perform M W s (p.bind f) = perform M W (perform M W s p).2 (f (perform M W s p).1) := by
  induction p generalizing s with
  | ret a => rfl
  | call op k ih => simp only [Prog.bind, perform, ih]

theorem perform_then (x : Fallible L E α) (f : α → Fallible L E β) :
    perform M W s (x >>= f : Fallible L E β) =
      match perform M W s x with
      | (.ok a, s') => perform M W s' (f a)
      | (.error e, s') => (.error e, s') := by
  refine (perform_bind x _).trans ?_
  generalize perform M W s x = r
  obtain ⟨r, s'⟩ := r
  cases r <;> rfl

section Congr

variable {W' : World L T C}

/- Worlds that differ in what the outside answers. -/
structure World.Timed (W W' : World L T C) : Prop where
  time : W'.time = W.time
  choice : W'.choice = W.choice
  lost : W'.lost = W.lost

/- The world that answers one call in its own way. -/
def World.but (W : World L T C) (n : Nat) (now : (c : L.Call) → L.Reply c) : World L T C :=
  { W with answer := fun i c => if i = n then now c else W.answer i c }

theorem World.but_timed (n : Nat) (now : (c : L.Call) → L.Reply c) : W.Timed (W.but n now) :=
  ⟨rfl, rfl, rfl⟩

theorem World.but_here (n : Nat) (now : (c : L.Call) → L.Reply c) : (W.but n now).answer n = now :=
  funext fun _ => if_pos rfl

theorem World.but_other {n i : Nat} (now : (c : L.Call) → L.Reply c) (other : i ≠ n) :
    (W.but n now).answer i = W.answer i := funext fun _ => if_neg other

theorem call_calls (s : Scene σ L T) (op : Op L) : (s.call M W op).2.calls = s.calls + 1 := by
  cases op with
  | commit =>
    unfold Scene.call
    split <;> rfl
  | stmt q =>
    simp only [Scene.call, Scene.exec]
    split <;> split <;> rfl
  | _ => rfl

theorem World.Timed.call (timed : W.Timed W') {op : Op L}
    (answer : ∀ c, op = .env c → W'.answer s.calls c = W.answer s.calls c) :
    s.call M W' op = s.call M W op := by
  obtain ⟨time, choice, answers, lost⟩ := W
  obtain ⟨time', choice', answers', lost'⟩ := W'
  obtain ⟨rfl : time' = time, rfl : choice' = choice, rfl : lost' = lost⟩ := timed
  cases op with
  | env c => exact Prod.ext (answer c rfl) rfl
  | _ => rfl

/-- A performance depends only on the answers that are still to come. -/
theorem perform_congr (timed : W.Timed W') (p : Prog L α)
    (answer : ∀ i, s.calls ≤ i → W'.answer i = W.answer i) :
    perform M W' s p = perform M W s p := by
  induction p generalizing s with
  | ret a => rfl
  | call op k ih =>
    have same : s.call M W' op = s.call M W op :=
      timed.call fun c _ => by rw [answer _ (Nat.le_refl _)]
    simp only [perform, same]
    refine ih _ fun i later => answer i ?_
    rw [call_calls] at later
    exact Nat.le_of_succ_le later

end Congr

section Reach

variable {pid : Pid} {p : Proc V T L Job Res} {a : State σ L T Pid Job Res}

theorem held_lone (lone : a.procs = AList.insert pid p ∅) : a.held pid = [] := by
  simp [State.held, lone]

theorem call_step {op : Op L} {k : op.Ans → Prog L Res} (lone : a.procs = AList.insert pid p ∅)
    (next : p.prog = .call op k) (db : a.db = s.db) (tx : p.tx = s.tx) :
    ∃ b, Step M a b ∧ startsNone a b ∧ b.db = (s.call M W op).2.db ∧
      b.procs = AList.insert pid
        { p with
          prog := k (s.call M W op).1, calls := ⟨op, (s.call M W op).1⟩ :: p.calls,
          tx := (s.call M W op).2.tx,
          known := Past.told p.past.tx op (s.call M W op).1 ++ p.known } ∅ ∧
      b.log = s.noted M W pid p.job op ++ a.log := by
  obtain ⟨n, rows, inside, us⟩ := s
  dsimp only at db tx
  have at_ : a.At pid p op k := ⟨lone ▸ AList.lookup_insert _, next⟩
  have free : ∀ ws, a.Free pid ws := fun ws => by simp [State.Free, held_lone lone, Store.Disjoint]
  have procs : ∀ q : Proc V T L Job Res, a.procs.insert pid q = AList.insert pid q ∅ := fun q => by
    rw [lone, AList.insert_insert]
  cases op with
  | begin => exact ⟨_, .begin (t := W.time n) at_, rfl, db, procs _, rfl⟩
  | rollback => exact ⟨_, .drop at_ (.rollback (.ok ())), rfl, db, procs _, rfl⟩
  | env c =>
    have step : Step M a (a.resume pid p (.env c) k (W.answer n c) p.tx) := .env at_
    refine ⟨_, step, rfl, db, ?_, rfl⟩
    rw [← show p.tx = inside from tx]
    exact procs _
  | commit =>
    cases inside with
    | none => exact ⟨_, .drop at_ (.commit W.lost), rfl, db, procs _, rfl⟩
    | some open_ =>
      have step : Step M a ((a.settle pid p.job open_).resume pid p .commit k (.ok ()) none) :=
        .commit at_ tx
      exact ⟨_, step, rfl, by rw [← db]; rfl, procs _, rfl⟩
  | stmt q =>
    cases inside with
    | none =>
      cases ran : M.exec q (W.time n) W.choice rows with
      | error e =>
        simp only [Scene.noted, Scene.call, Scene.exec, ran]
        exact ⟨_, .drop at_ (.stmt q e), rfl, db, procs _, rfl⟩
      | ok r =>
        obtain ⟨out, ws⟩ := r
        simp only [Scene.noted, Scene.call, Scene.exec, ran]
        refine ⟨_, .auto at_ tx (db ▸ ran) (free ws) (.inl rfl), rfl, ?_, procs _, rfl⟩
        simp [State.resume, State.settle, Tx.writes, db]
    | some open_ =>
      cases ran : M.exec q open_.time W.choice (rows.apply open_.writes) with
      | error e =>
        simp only [Scene.noted, Scene.call, Scene.exec, ran]
        exact ⟨_, .drop at_ (.stmt q e), rfl, db, procs _, rfl⟩
      | ok r =>
        obtain ⟨out, ws⟩ := r
        simp only [Scene.noted, Scene.call, Scene.exec, ran]
        exact ⟨_, .query at_ tx (db ▸ ran) (free ws), rfl, db, procs _, rfl⟩

theorem perform_ends (lone : a.procs = AList.insert pid p ∅) (db : a.db = s.db)
    (tx : p.tx = s.tx) : ∃ b q, Reach M startsNone a b ∧ b.procs = AList.insert pid q ∅ ∧
      q.prog = .ret (perform M W s p.prog).1 ∧ q.job = p.job ∧ q.todo = p.todo ∧
      b.db = (perform M W s p.prog).2.db ∧ b.log = record M W pid p.job s p.prog ++ a.log := by
  generalize head : p.prog = prog
  induction prog generalizing a p s with
  | ret res => exact ⟨a, p, .start, lone, head, rfl, rfl, db, rfl⟩
  | call op k ih =>
    obtain ⟨b, step, none, db', procs, log⟩ := call_step (M := M) (W := W) lone head db tx
    obtain ⟨c, q, later, alone, ended, job, todo, rows, more⟩ := ih (s.call M W op).1 (p := { p with
      prog := k (s.call M W op).1, calls := ⟨op, (s.call M W op).1⟩ :: p.calls,
      tx := (s.call M W op).2.tx, known := Past.told p.past.tx op (s.call M W op).1 ++ p.known })
      procs db' rfl rfl
    refine ⟨c, q, (Reach.next .start step none).trans later, alone, ended, job, todo, rows, ?_⟩
    rw [more, log, record, List.append_assoc]

/-- A performance is a run of the machine. -/
theorem perform_reach {job : Job} (unfollowed : ∀ res, M.follow job res = []) (pid : Pid)
    (db : Store σ) : ∃ t, Reach M startsNone ((State.start db).launch M pid job []) t ∧
      t.db = (perform M W (.start db) (M.prog job)).2.db ∧
      .finished pid job (perform M W (.start db) (M.prog job)).1 ∈ t.log := by
  have lone : ((State.start db).launch M pid job []).procs =
      AList.insert pid ⟨job, M.prog job, [], none, [], []⟩ ∅ := rfl
  obtain ⟨a, q, later, lone', ended, same, todo, db', _⟩ :=
    perform_ends (M := M) (W := W) (s := .start db) lone rfl rfl
  have live : a.procs.lookup pid = some q := lone' ▸ AList.lookup_insert _
  have step := Step.finish (M := M) live ended
  rw [State.finish, same, unfollowed, todo] at step
  exact ⟨_, .next later step rfl, db', List.mem_cons_self⟩

end Reach

section Queue

variable (M W)

/-- A performance of a job and then of the jobs that follow from it. A job starts without a
transaction. -/
def workOff (s : Scene σ L T) (job : Job) : Scene σ L T :=
  let first := perform M W s (M.prog job)
  (M.follow job first.1).foldl (fun s job => (perform M W s (M.prog job)).2.ended)
    first.2.ended

def jobRecord (pid : Pid) (s : Scene σ L T) (job : Job) : List (Entry L T Pid Job Res) :=
  .finished pid job (perform M W s (M.prog job)).1 :: record M W pid job s (M.prog job) ++
    [.started pid job]

def queueRecord (pid : Pid) (s : Scene σ L T) : List Job → List (Entry L T Pid Job Res)
  | [] => []
  | job :: jobs =>
    queueRecord pid (perform M W s (M.prog job)).2.ended jobs ++ jobRecord M W pid s job

/-- What rounds of one job write to the log, each with the jobs that follow from it. -/
def roundsRecord (pid : Pid) (job : Job) : Nat → Scene σ L T → List (Entry L T Pid Job Res)
  | 0, _ => []
  | n + 1, s =>
    let first := perform M W s (M.prog job)
    roundsRecord pid job n (workOff M W s job) ++
      (queueRecord M W pid first.2.ended (M.follow job first.1) ++ jobRecord M W pid s job)

theorem workOff_tx (s : Scene σ L T) (job : Job) : (workOff M W s job).tx = none := by
  simp only [workOff]
  generalize M.follow job _ = jobs
  induction jobs using List.reverseRecOn with
  | nil => rfl
  | append_singleton jobs job _ => rw [List.foldl_append]; rfl

def queued (pid : Pid) : List Job → AList (fun _ : Pid => Proc V T L Job Res)
  | [] => ∅
  | job :: todo => AList.insert pid ⟨job, M.prog job, [], none, [], todo⟩ ∅

def starting (pid : Pid) : List Job → List (Entry L T Pid Job Res)
  | [] => []
  | job :: _ => [.started pid job]

variable {M W} {pid : Pid} {p : Proc V T L Job Res} {a : State σ L T Pid Job Res}
  {log : List (Entry L T Pid Job Res)}

theorem reach_crashed (a : State σ L T Pid Job Res) :
    ∃ b, Reach M anyStep a b ∧ b.db = a.db ∧ b.procs = ∅ ∧
      b.log = a.procs.keys.reverse.map .crashed ++ a.log := by
  generalize size : a.procs.keys = pids
  induction pids generalizing a with
  | nil =>
    refine ⟨a, .start, rfl, AList.ext ?_, rfl⟩
    simpa [AList.keys, List.keys] using size
  | cons pid pids ih =>
    have mem : pid ∈ a.procs.keys := size ▸ List.mem_cons_self
    obtain ⟨p, live⟩ :=
      Option.isSome_iff_exists.mp (AList.lookup_isSome.mpr (AList.mem_keys.mpr mem))
    have rest : (a.crash pid).procs.keys = pids := by
      rw [State.crash, AList.keys_erase, size, List.erase_cons_head]
    obtain ⟨b, later, db, gone, log⟩ := ih (a.crash pid) rest
    refine ⟨b, (Reach.next .start (.crash live) trivial).trans later, db, gone, ?_⟩
    rw [log, State.crash, List.reverse_cons, List.map_append, List.append_assoc]
    rfl

theorem perform_next {job : Job} {todo : List Job}
    (procs : a.procs = queued M pid (job :: todo)) (db : a.db = s.db) (outside : s.tx = none)
    (written : a.log = .started pid job :: log) :
    ∃ b, Reach M anyStep a b ∧ b.db = (perform M W s (M.prog job)).2.db ∧
      b.procs = queued M pid (M.follow job (perform M W s (M.prog job)).1 ++ todo) ∧
      b.log = starting pid (M.follow job (perform M W s (M.prog job)).1 ++ todo) ++
        (jobRecord M W pid s job ++ log) := by
  obtain ⟨b, q, later, lone, ended, same, rest, db', more⟩ :=
    perform_ends (M := M) (W := W) procs db outside.symm
  have live : b.procs.lookup pid = some q := lone ▸ AList.lookup_insert _
  have step := Step.finish (M := M) live ended
  have whole : .finished pid job (perform M W s (M.prog job)).1 :: b.log =
      jobRecord M W pid s job ++ log := by
    rw [more, written, jobRecord, List.cons_append, List.cons_append, List.append_assoc]
    rfl
  refine ⟨_, .next (later.weaken fun _ _ _ => trivial) step trivial, ?_⟩
  rw [State.finish, same, rest]
  dsimp only
  generalize M.follow job (perform M W s (M.prog job)).1 ++ todo = jobs
  cases jobs with
  | nil =>
    refine ⟨db', ?_, whole⟩
    change b.procs.erase pid = ∅
    rw [lone]
    exact AList.ext (List.kerase_cons_eq rfl)
  | cons j js =>
    refine ⟨db', ?_, congrArg _ whole⟩
    change b.procs.insert pid _ = _
    rw [lone, AList.insert_insert]
    rfl

theorem queue_reach {jobs : List Job} (last : ∀ job ∈ jobs, ∀ res, M.follow job res = [])
    (procs : a.procs = queued M pid jobs) (db : a.db = s.db) (outside : s.tx = none)
    (written : a.log = starting pid jobs ++ log) :
    ∃ b, Reach M anyStep a b ∧ b.procs = ∅ ∧
      b.db = (jobs.foldl (fun s job => (perform M W s (M.prog job)).2.ended) s).db ∧
      b.log = queueRecord M W pid s jobs ++ log := by
  induction jobs generalizing a s log with
  | nil => exact ⟨a, .start, procs, db, written⟩
  | cons job jobs ih =>
    have begun : a.log = .started pid job :: log := written
    obtain ⟨b, later, db', next, more⟩ := perform_next (M := M) (W := W) procs db outside begun
    rw [last job List.mem_cons_self, List.nil_append] at next more
    obtain ⟨c, rest, gone, db'', whole⟩ :=
      ih (fun j mem => last j (List.mem_cons_of_mem _ mem)) next
        (s := (perform M W s (M.prog job)).2.ended) db' rfl more
    refine ⟨c, later.trans rest, gone, db'', ?_⟩
    rw [whole, queueRecord, List.append_assoc]

/-- What is worked off, a run of the machine works off. -/
theorem workOff_reach {job : Job} (entry : M.entry pid job = true)
    (last : ∀ res, ∀ j ∈ M.follow job res, ∀ res', M.follow j res' = []) (idle : a.procs = ∅)
    (db : a.db = s.db) (outside : s.tx = none) : ∃ b, Reach M anyStep a b ∧ b.procs = ∅ ∧
      b.db = (workOff M W s job).db ∧ b.log = roundsRecord M W pid job 1 s ++ a.log := by
  have spawn : Step M a (a.launch M pid job []) := .spawn (by rw [idle]; rfl) entry
  have lone : (a.launch M pid job []).procs = queued M pid [job] := by
    rw [State.launch, idle]
    rfl
  obtain ⟨b, later, db', next, more⟩ :=
    perform_next (M := M) (W := W) lone (s := s) db outside rfl
  rw [List.append_nil] at next more
  obtain ⟨c, rest, gone, db'', whole⟩ := queue_reach (M := M) (W := W) (last _) next
    (s := (perform M W s (M.prog job)).2.ended) db' rfl more
  refine ⟨c, ((Reach.next .start spawn trivial).trans later).trans rest, gone, db'', ?_⟩
  rw [whole, roundsRecord, roundsRecord, List.nil_append, List.append_assoc]

end Queue

end Txn
