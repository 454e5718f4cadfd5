import Dropless.Txn.History

/-! Programs in a language with more outside calls, over the same statements. Such a call
touches neither the store nor the transaction of its process; so a machine of the larger
language can be followed, call by call, by one of the smaller language that makes all the
other calls. -/
set_option linter.unusedSectionVars false

namespace Txn

section Lang

variable {L : Lang} {X : Type} {R : X → Type} {α β : Type}

@[reducible] def Lang.extend (L : Lang) (X : Type) (R : X → Type) : Lang :=
  ⟨L.Stmt, L.Out, L.Call ⊕ X, Sum.elim L.Reply R, L.Err⟩

def Op.up : Op L → Op (L.extend X R)
  | .begin => .begin
  | .commit => .commit
  | .rollback => .rollback
  | .stmt q => .stmt q
  | .env c => .env (.inl c)

/- The answers of a call are the same in both languages. -/
def Op.down : (op : Op L) → (op.up : Op (L.extend X R)).Ans → op.Ans
  | .begin, r => r
  | .commit, r => r
  | .rollback, r => r
  | .stmt _, r => r
  | .env _, r => r

def Prog.up : Prog L α → Prog (L.extend X R) α
  | .ret a => .ret a
  | .call op k => .call op.up fun ans => (k (op.down ans)).up

theorem Prog.bind_assoc {L : Lang} {α β γ : Type} (p : Prog L α) (f : α → Prog L β)
    (g : β → Prog L γ) : (p.bind f).bind g = p.bind fun a => (f a).bind g := by
  induction p with
  | ret a => rfl
  | call op k ih => simp only [Prog.bind, ih]

end Lang

section Answers

variable {V K I : Type} [DecidableEq K] [DecidableEq I] {σ : Schema V K I} {L : Lang}
  {T C Pid Job Res : Type} [DecidableEq Pid]

/-- How a call can be answered: the answer, the transaction and the store that it leaves, and
what it writes to the log before itself. -/
inductive Answers (M : Machine σ L T C Pid Job Res) (s : State σ L T Pid Job Res) (pid : Pid)
    (p : Proc V T L Job Res) : (op : Op L) → op.Ans → Option (Tx V T L) → Store σ →
      List (Entry L T Pid Job Res) → Prop where
  | begin {t : T} : Answers M s pid p .begin (.ok ()) (some ⟨t, []⟩) s.db []
  | query {q : L.Stmt} {tx : Tx V T L} {c : C} {out ws} (inside : p.tx = some tx)
      (ran : M.exec q tx.time c (s.db.apply tx.writes) = .ok (out, ws)) (free : s.Free pid ws) :
      Answers M s pid p (.stmt q) (.ok out) (some ⟨tx.time, tx.done ++ [⟨q, out, ws⟩]⟩) s.db []
  | auto {q : L.Stmt} {t : T} {c : C} {out ws ans} (outside : p.tx = none)
      (ran : M.exec q t c s.db = .ok (out, ws)) (free : s.Free pid ws)
      (told : ans = .ok out ∨ ∃ e, ans = .error e) :
      Answers M s pid p (.stmt q) ans none (s.db.apply ws) [.applied pid p.job t [⟨q, out⟩]]
  | commit {tx : Tx V T L} {ans} (inside : p.tx = some tx) :
      Answers M s pid p .commit ans none (s.db.apply tx.writes)
        [.applied pid p.job tx.time (tx.done.map Done.ran)]
  | drop {op : Op L} {ans} (gone : Drops op ans) : Answers M s pid p op ans none s.db []
  | env {c : L.Call} {reply} : Answers M s pid p (.env c) reply p.tx s.db []

def Proc.resumed (p : Proc V T L Job Res) (op : Op L) (k : op.Ans → Prog L Res) (ans : op.Ans)
    (tx : Option (Tx V T L)) : Proc V T L Job Res :=
  { p with
    prog := k ans, calls := ⟨op, ans⟩ :: p.calls, tx := tx,
    known := Past.told p.past.tx op ans ++ p.known }

variable {M : Machine σ L T C Pid Job Res} {s t : State σ L T Pid Job Res}

inductive Taken (M : Machine σ L T C Pid Job Res) (s : State σ L T Pid Job Res) :
    State σ L T Pid Job Res → Prop where
  | spawn {pid : Pid} {job : Job} (idle : s.procs.lookup pid = none)
      (entry : M.entry pid job = true) : Taken M s (s.launch M pid job [])
  | call {pid : Pid} {p : Proc V T L Job Res} {op : Op L} {k} {ans : op.Ans} {tx db new}
      (at_ : s.At pid p op k) (answers : Answers M s pid p op ans tx db new) :
      Taken M s ⟨db, s.procs.insert pid (p.resumed op k ans tx),
        .called pid p.job op ans :: new ++ s.log⟩
  | finish {pid : Pid} {p : Proc V T L Job Res} {res : Res} (live : s.procs.lookup pid = some p)
      (ended : p.prog = .ret res) : Taken M s (s.finish M pid p res)
  | crash {pid : Pid} {p : Proc V T L Job Res} (live : s.procs.lookup pid = some p) :
      Taken M s (s.crash pid)

theorem writes_one (t : T) (q : L.Stmt) (out : L.Out q) (ws : List (Write V)) :
    (⟨t, [⟨q, out, ws⟩]⟩ : Tx V T L).writes = ws := by simp [Tx.writes]

theorem step_taken (step : Step M s t) : Taken M s t := by
  cases step with
  | spawn idle entry => exact .spawn idle entry
  | begin at_ => exact .call at_ .begin
  | query at_ inside ran free => exact .call at_ (.query inside ran free)
  | @auto pid p q k time c out ws ans at_ outside ran free told =>
    have taken := Taken.call at_ (.auto outside ran free told)
    rw [← writes_one time q out ws] at taken
    exact taken
  | commit at_ inside => exact .call at_ (.commit inside)
  | drop at_ gone => exact .call at_ (.drop gone)
  | env at_ => exact .call at_ .env
  | finish live ended => exact .finish live ended
  | crash live => exact .crash live

theorem answers_step {pid : Pid} {p : Proc V T L Job Res} {op : Op L} {k} {ans : op.Ans} {tx db new}
    (at_ : s.At pid p op k) (answers : Answers M s pid p op ans tx db new) :
    Step M s ⟨db, s.procs.insert pid (p.resumed op k ans tx),
      .called pid p.job op ans :: new ++ s.log⟩ := by
  cases answers with
  | begin => exact .begin at_
  | query inside ran free => exact .query at_ inside ran free
  | @auto q time c out ws ans outside ran free told =>
    have step := Step.auto at_ outside ran free told
    rw [State.settle, writes_one] at step
    exact step
  | commit inside => exact .commit at_ inside
  | drop gone => exact .drop at_ gone
  | env => exact .env at_

theorem Answers.past {pid : Pid} {p : Proc V T L Job Res} {op : Op L} {ans : op.Ans} {tx db new}
    (answers : Answers M s pid p op ans tx db new) :
    tx.map (fun tx => tx.done.map Done.ran) = Past.txAfter p.past.tx op ans := by
  cases answers with
  | begin => rfl
  | query inside =>
    simp only [Proc.past, inside, Option.map_some, Past.txAfter, List.map_append, List.map_cons,
      List.map_nil, Done.ran]
  | auto outside _ _ told =>
    rcases told with rfl | ⟨e, rfl⟩
    · simp [Proc.past, outside, Past.txAfter]
    · rfl
  | commit => rfl
  | drop gone => exact (txAfter_drop gone _).symm
  | env => rfl

def Machine.fresh (M : Machine σ L T C Pid Job Res) (job : Job) (todo : List Job) :
    Proc V T L Job Res := ⟨job, M.prog job, [], none, [], todo⟩

def Machine.after (M : Machine σ L T C Pid Job Res) (p : Proc V T L Job Res) (res : Res) :
    Option (Proc V T L Job Res) :=
  match M.follow p.job res ++ p.todo with
  | [] => none
  | job :: todo => some (M.fresh job todo)

/-- Steps of one process that make no call. -/
inductive Turns (M : Machine σ L T C Pid Job Res) (pid : Pid) :
    Option (Proc V T L Job Res) → Option (Proc V T L Job Res) → Prop where
  | none {o} : Turns M pid o o
  | spawn {job : Job} {o} (entry : M.entry pid job = true)
      (rest : Turns M pid (some (M.fresh job [])) o) : Turns M pid none o
  | finish {p : Proc V T L Job Res} {res : Res} {o} (ended : p.prog = .ret res)
      (rest : Turns M pid (M.after p res) o) : Turns M pid (some p) o
  | crash {p : Proc V T L Job Res} {o} (rest : Turns M pid none o) : Turns M pid (some p) o

theorem turns_gone (pid : Pid) (o : Option (Proc V T L Job Res)) : Turns M pid o none := by
  cases o with
  | none => exact .none
  | some p => exact .crash .none

/-- Calls and durable units, without what their processes were at. -/
inductive Mark (L : Lang) (T Pid : Type) where
  | called (pid : Pid) (op : Op L) (ans : op.Ans)
  | applied (pid : Pid) (time : T) (unit : List (Ran L))

def Entry.mark : Entry L T Pid Job Res → Option (Mark L T Pid)
  | .called pid _ op ans => some (.called pid op ans)
  | .applied pid _ time unit => some (.applied pid time unit)
  | _ => none

structure Elsewhere (pid : Pid) (s t : State σ L T Pid Job Res) : Prop where
  db : t.db = s.db
  others : ∀ qid, qid ≠ pid → t.procs.lookup qid = s.procs.lookup qid
  marks : t.log.filterMap Entry.mark = s.log.filterMap Entry.mark

theorem Elsewhere.trans {pid : Pid} {u : State σ L T Pid Job Res} (first : Elsewhere pid s t)
    (rest : Elsewhere pid t u) : Elsewhere pid s u where
  db := rest.db.trans first.db
  others qid other := (rest.others qid other).trans (first.others qid other)
  marks := rest.marks.trans first.marks

theorem launch_elsewhere (pid : Pid) (job : Job) (todo : List Job) :
    Elsewhere pid s (s.launch M pid job todo) :=
  ⟨rfl, fun _ other => AList.lookup_insert_ne other, rfl⟩

theorem crash_elsewhere (pid : Pid) : Elsewhere pid s (s.crash pid) :=
  ⟨rfl, fun _ other => AList.lookup_erase_ne other, rfl⟩

theorem finish_elsewhere (pid : Pid) (p : Proc V T L Job Res) (res : Res) :
    Elsewhere pid s (s.finish M pid p res) ∧
      (s.finish M pid p res).procs.lookup pid = M.after p res := by
  unfold State.finish Machine.after
  cases M.follow p.job res ++ p.todo with
  | nil =>
    exact ⟨⟨rfl, fun qid other => AList.lookup_erase_ne other, rfl⟩, AList.lookup_erase _ _⟩
  | cons job todo =>
    exact ⟨⟨rfl, fun qid other => AList.lookup_insert_ne other, rfl⟩, AList.lookup_insert _⟩

theorem turns_reach {pid : Pid} {o o' : Option (Proc V T L Job Res)} (turns : Turns M pid o o')
    (at_ : s.procs.lookup pid = o) :
    ∃ t, Reach M anyStep s t ∧ t.procs.lookup pid = o' ∧ Elsewhere pid s t := by
  induction turns generalizing s with
  | none => exact ⟨s, .start, at_, rfl, fun _ _ => rfl, rfl⟩
  | @spawn job o entry rest ih =>
    obtain ⟨u, later, there, other⟩ := ih (s := s.launch M pid job []) (AList.lookup_insert _)
    exact ⟨u, (Reach.next .start (.spawn at_ entry) trivial).trans later, there,
      (launch_elsewhere pid job []).trans other⟩
  | @finish p res o ended rest ih =>
    obtain ⟨first, next⟩ := finish_elsewhere (M := M) (s := s) pid p res
    obtain ⟨u, later, there, other⟩ := ih next
    exact ⟨u, (Reach.next .start (.finish at_ ended) trivial).trans later, there, first.trans other⟩
  | @crash p o rest ih =>
    obtain ⟨u, later, there, other⟩ := ih (s := s.crash pid) (AList.lookup_erase _ _)
    exact ⟨u, (Reach.next .start (.crash at_) trivial).trans later, there,
      (crash_elsewhere pid).trans other⟩

end Answers

section Follows

variable {V K I : Type} [DecidableEq K] [DecidableEq I] {σ : Schema V K I} {L : Lang} {X : Type}
  {R : X → Type} {T C Pid Job Res Job' Res' : Type} [DecidableEq Pid]

def Done.up (d : Done V L) : Done V (L.extend X R) := ⟨d.stmt, d.out, d.writes⟩

def Tx.up (tx : Tx V T L) : Tx V T (L.extend X R) := ⟨tx.time, tx.done.map Done.up⟩

theorem Tx.up_writes (tx : Tx V T L) : (tx.up : Tx V T (L.extend X R)).writes = tx.writes := by
  simp only [Tx.writes, Tx.up, List.flatMap_map]
  rfl

theorem Tx.up_ran (tx : Tx V T L) :
    (tx.up : Tx V T (L.extend X R)).done.map Done.ran = tx.done.map Done.ran := by
  simp only [Tx.up, List.map_map]
  rfl

theorem writes_up {p' : Proc V T (L.extend X R) Job' Res'} {p : Proc V T L Job Res}
    (tx : p'.tx = p.tx.map Tx.up) : p'.writes = p.writes := by
  cases open_ : p.tx with
  | none =>
    rw [open_] at tx
    rw [writes_none open_, writes_none tx]
  | some t =>
    rw [open_] at tx
    rw [writes_some open_, writes_some tx, Tx.up_writes]

/- An entry as the smaller language has it. -/
def Entry.below : Entry (L.extend X R) T Pid Job Res → Option (Mark L T Pid)
  | .called pid _ .begin r => some (.called pid .begin r)
  | .called pid _ .commit r => some (.called pid .commit r)
  | .called pid _ .rollback r => some (.called pid .rollback r)
  | .called pid _ (.stmt q) r => some (.called pid (.stmt q) r)
  | .called pid _ (.env (.inl c)) r => some (.called pid (.env c) r)
  | .applied pid _ time unit => some (.applied pid time unit)
  | _ => none

theorem below_up (pid : Pid) (job : Job) (op : Op L) (ans : (op.up : Op (L.extend X R)).Ans) :
    (Entry.called pid job op.up ans : Entry (L.extend X R) T Pid Job Res).below =
      some (.called pid op (op.down ans)) := by
  cases op <;> rfl

variable {M' : Machine σ (L.extend X R) T C Pid Job' Res'} {M : Machine σ L T C Pid Job Res}
  {s' t' : State σ (L.extend X R) T Pid Job' Res'} {s t : State σ L T Pid Job Res}

theorem Answers.down {pid : Pid} {p' : Proc V T (L.extend X R) Job' Res'} {p : Proc V T L Job Res}
    (same : ∀ q time c db, M'.exec q time c db = M.exec q time c db) (db : s'.db = s.db)
    (tx : p'.tx = p.tx.map Tx.up) (free : ∀ ws, s'.Free pid ws → s.Free pid ws) {op : Op L}
    {ans tx' db' new'} (answers : Answers M' s' pid p' op.up ans tx' db' new') :
    ∃ tx₂ new, tx' = tx₂.map Tx.up ∧ Answers M s pid p op (op.down ans) tx₂ db' new ∧
      new'.filterMap Entry.below = new.filterMap Entry.mark := by
  have inside : ∀ {tx₁}, p'.tx = some tx₁ → ∃ tx₀, p.tx = some tx₀ ∧ tx₀.up = tx₁ := by
    intro tx₁ eq
    rw [tx] at eq
    exact Option.map_eq_some_iff.mp eq
  cases op with
  | begin =>
    cases answers with
    | begin => exact ⟨some ⟨_, []⟩, [], rfl, db ▸ .begin, rfl⟩
    | drop gone =>
      cases gone
      exact ⟨none, [], rfl, db ▸ .drop (.begin _), rfl⟩
  | commit =>
    cases answers with
    | commit open_ =>
      obtain ⟨tx₀, open₀, rfl⟩ := inside open_
      refine ⟨none, [.applied pid p.job tx₀.time (tx₀.done.map Done.ran)], rfl, ?_, ?_⟩
      · rw [Tx.up_writes, db]
        exact .commit open₀
      · rw [Tx.up_ran]
        rfl
    | drop gone =>
      cases gone
      exact ⟨none, [], rfl, db ▸ .drop (.commit _), rfl⟩
  | rollback =>
    cases answers with
    | drop gone =>
      cases gone
      exact ⟨none, [], rfl, db ▸ .drop (.rollback _), rfl⟩
  | stmt q =>
    cases answers with
    | @query _ tx₁ c out ws open_ ran unheld =>
      obtain ⟨tx₀, open₀, rfl⟩ := inside open_
      rw [same, Tx.up_writes, db] at ran
      refine ⟨some ⟨tx₀.time, tx₀.done ++ [⟨q, out, ws⟩]⟩, [], ?_, ?_, rfl⟩
      · simp [Tx.up, Done.up]
      · rw [db]
        exact .query open₀ ran (free ws unheld)
    | @auto _ time c out ws _ outside ran unheld told =>
      rw [same, db] at ran
      refine ⟨none, [.applied pid p.job time [⟨q, out⟩]], rfl, ?_, rfl⟩
      rw [db]
      refine .auto ?_ ran (free ws unheld) told
      rw [tx] at outside
      exact Option.map_eq_none_iff.mp outside
    | drop gone =>
      cases gone
      exact ⟨none, [], rfl, db ▸ .drop (.stmt q _), rfl⟩
  | env c =>
    cases answers with
    | env => exact ⟨p.tx, [], tx, db ▸ .env, rfl⟩
    | drop gone => cases gone

theorem Answers.extra {pid : Pid} {p' : Proc V T (L.extend X R) Job' Res'} {x : X}
    {ans tx' db' new'} (answers : Answers M' s' pid p' (.env (.inr x)) ans tx' db' new') :
    tx' = p'.tx ∧ db' = s'.db ∧ new' = [] := by
  cases answers with
  | env => exact ⟨rfl, rfl, rfl⟩
  | drop gone => cases gone

/-- How a process of the larger machine stands to one of the smaller: between two calls of
the smaller language, the second has caught up with the first. -/
structure Follows (M' : Machine σ (L.extend X R) T C Pid Job' Res')
    (M : Machine σ L T C Pid Job Res)
    (rel : Pid → Option (Proc V T (L.extend X R) Job' Res') → Option (Proc V T L Job Res) → Prop) :
    Prop where
  exec : ∀ q time c db, M'.exec q time c db = M.exec q time c db
  writes : ∀ {pid o p}, rel pid o (some p) → ∃ p', o = some p' ∧ p'.writes = p.writes
  idle : ∀ pid, rel pid none none
  spawn : ∀ {pid job o}, rel pid none o → M'.entry pid job = true →
    ∃ o₂, Turns M pid o o₂ ∧ rel pid (some (M'.fresh job [])) o₂
  finish : ∀ {pid p' res o}, rel pid (some p') o → p'.prog = .ret res →
    ∃ o₂, Turns M pid o o₂ ∧ rel pid (M'.after p' res) o₂
  crash : ∀ {pid p' o}, rel pid (some p') o → ∃ o₂, Turns M pid o o₂ ∧ rel pid none o₂
  extra : ∀ {pid p' x k o}, rel pid (some p') o → p'.prog = .call (.env (.inr x)) k → ∀ ans,
    ∃ o₂, Turns M pid o o₂ ∧ rel pid (some (p'.resumed (.env (.inr x)) k ans p'.tx)) o₂
  call : ∀ {pid p' op' k' o}, rel pid (some p') o → p'.prog = .call op' k' →
    (∃ x, op' = .env (.inr x)) ∨ ∃ (op : Op L) (p : Proc V T L Job Res) (k : op.Ans → Prog L Res),
      ∃ eq : op.up = op', o = some p ∧ p.prog = .call op k ∧ p'.tx = p.tx.map Tx.up ∧
      ∀ ans tx, tx.map (fun tx => tx.done.map Done.ran) =
          Past.txAfter p.past.tx op (op.down ans) →
        ∃ o₂, Turns M pid (some (p.resumed op k (op.down ans) tx)) o₂ ∧
          rel pid (some (p'.resumed op' k' (eq ▸ ans) (tx.map Tx.up))) o₂

structure Below
    (rel : Pid → Option (Proc V T (L.extend X R) Job' Res') → Option (Proc V T L Job Res) → Prop)
    (s' : State σ (L.extend X R) T Pid Job' Res') (s : State σ L T Pid Job Res) : Prop where
  db : s'.db = s.db
  each : ∀ pid, rel pid (s'.procs.lookup pid) (s.procs.lookup pid)
  marks : s'.log.filterMap Entry.below = s.log.filterMap Entry.mark

variable {rel : Pid → Option (Proc V T (L.extend X R) Job' Res') → Option (Proc V T L Job Res) →
  Prop}

theorem Below.free (follows : Follows M' M rel) (below : Below rel s' s) {pid : Pid}
    {ws : List (Write V)} (free : s'.Free pid ws) : s.Free pid ws := by
  intro w held
  refine free w ?_
  obtain ⟨⟨qid, q⟩, mem, writes⟩ := List.mem_flatMap.mp held
  obtain ⟨mem, other⟩ := List.mem_filter.mp mem
  have live : s.procs.lookup qid = some q := AList.mem_lookup_iff.mpr mem
  obtain ⟨q', live', same⟩ := follows.writes (live ▸ below.each qid)
  exact held_covers live' (of_decide_eq_true other) (same ▸ writes)

theorem Below.moved {pid : Pid} (below : Below rel s' s)
    (others' : ∀ qid, qid ≠ pid → t'.procs.lookup qid = s'.procs.lookup qid)
    (others : ∀ qid, qid ≠ pid → t.procs.lookup qid = s.procs.lookup qid) (db : t'.db = t.db)
    (here : rel pid (t'.procs.lookup pid) (t.procs.lookup pid))
    (marks : t'.log.filterMap Entry.below = t.log.filterMap Entry.mark) : Below rel t' t := by
  refine ⟨db, fun qid => ?_, marks⟩
  by_cases same : qid = pid
  · exact same ▸ here
  · rw [others' qid same, others qid same]
    exact below.each qid

/-- A step without a call of the smaller language is followed by turns of its process. -/
theorem Below.turned {pid : Pid} {o : Option (Proc V T L Job Res)} (below : Below rel s' s)
    (turns : Turns M pid (s.procs.lookup pid) o)
    (others : ∀ qid, qid ≠ pid → t'.procs.lookup qid = s'.procs.lookup qid) (db : t'.db = s'.db)
    (here : rel pid (t'.procs.lookup pid) o)
    (marks : t'.log.filterMap Entry.below = s'.log.filterMap Entry.below) :
    ∃ t, Reach M anyStep s t ∧ Below rel t' t := by
  obtain ⟨t, later, there, same⟩ := turns_reach turns rfl
  refine ⟨t, later, below.moved others same.others ?_ (there ▸ here) ?_⟩
  · rw [db, same.db, below.db]
  · rw [marks, same.marks, below.marks]

theorem finish_below (pid : Pid) (p' : Proc V T (L.extend X R) Job' Res') (res : Res') :
    (s'.finish M' pid p' res).log.filterMap Entry.below = s'.log.filterMap Entry.below := by
  unfold State.finish
  split <;> rfl

theorem step_follows (follows : Follows M' M rel) (below : Below rel s' s) (step : Step M' s' t') :
    ∃ t, Reach M anyStep s t ∧ Below rel t' t := by
  cases step_taken step with
  | @spawn pid job idle entry =>
    obtain ⟨o, turns, here⟩ := follows.spawn (idle ▸ below.each pid) entry
    refine below.turned turns (launch_elsewhere (M := M') pid job []).others rfl ?_ rfl
    rw [State.launch, AList.lookup_insert]
    exact here
  | @finish pid p' res live ended =>
    obtain ⟨o, turns, here⟩ := follows.finish (live ▸ below.each pid) ended
    obtain ⟨same, next⟩ := finish_elsewhere (M := M') (s := s') pid p' res
    exact below.turned turns same.others same.db (next ▸ here) (finish_below pid p' res)
  | @crash pid p' live =>
    obtain ⟨o, turns, here⟩ := follows.crash (live ▸ below.each pid)
    refine below.turned turns (crash_elsewhere pid).others rfl ?_ rfl
    rw [State.crash, AList.lookup_erase]
    exact here
  | @call pid p' op' k' ans tx' db' new' at_ answers =>
    obtain ⟨live, head⟩ := at_
    rcases follows.call (live ▸ below.each pid) head with
      ⟨x, rfl⟩ | ⟨op, p, k, rfl, here, next, tx, goes⟩
    · obtain ⟨rfl, rfl, rfl⟩ := answers.extra
      obtain ⟨o, turns, here⟩ := follows.extra (live ▸ below.each pid) head ans
      refine below.turned turns (fun _ other => AList.lookup_insert_ne other) rfl ?_ rfl
      rw [AList.lookup_insert]
      exact here
    · obtain ⟨tx₂, new, rfl, answers, marks⟩ :=
        answers.down follows.exec below.db tx fun ws => below.free follows
      have step := answers_step ⟨here, next⟩ answers
      obtain ⟨o, turns, related⟩ := goes ans tx₂ answers.past
      obtain ⟨t, later, there, same⟩ := turns_reach turns
        (s := ⟨db', s.procs.insert pid (p.resumed op k (op.down ans) tx₂),
          .called pid p.job op (op.down ans) :: new ++ s.log⟩) (AList.lookup_insert _)
      refine ⟨t, (Reach.next .start step trivial).trans later, below.moved
        (fun _ other => AList.lookup_insert_ne other) (fun qid other => ?_) same.db.symm ?_ ?_⟩
      · exact (same.others qid other).trans (AList.lookup_insert_ne other)
      · rw [there, AList.lookup_insert]
        exact related
      · rw [same.marks]
        simp only [List.cons_append, List.filterMap_cons, below_up, Entry.mark,
          List.filterMap_append, marks, below.marks]

/-- Every run of the larger machine is a run of the smaller, with the same calls and units. -/
theorem reach_follows {cond : State σ (L.extend X R) T Pid Job' Res' → _ → Prop} {db : Store σ}
    (follows : Follows M' M rel) (reach : Reach M' cond (.start db) s') :
    ∃ s, Reach M anyStep (.start db) s ∧ Below rel s' s := by
  induction reach with
  | start => exact ⟨.start db, .start, rfl, follows.idle, rfl⟩
  | next _ step _ ih =>
    obtain ⟨s, before, below⟩ := ih
    obtain ⟨t, later, below⟩ := step_follows follows below step
    exact ⟨t, before.trans later, below⟩

end Follows

end Txn
