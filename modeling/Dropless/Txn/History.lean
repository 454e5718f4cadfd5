import Dropless.Txn.Logic

set_option linter.unusedSectionVars false

namespace Txn

variable {V K I : Type} [DecidableEq K] [DecidableEq I] {σ : Schema V K I} {L : Lang}
  {T C Pid Job Res : Type} [DecidableEq Pid] {M : Machine σ L T C Pid Job Res} {S : Spec M}
  {cond : State σ L T Pid Job Res → State σ L T Pid Job Res → Prop}
  {s t : State σ L T Pid Job Res} {db : Store σ}

theorem done_of_ran {d : Done V L} {q : L.Stmt} {out : L.Out q} (h : d.ran = ⟨q, out⟩) :
    ∃ ws, d = ⟨q, out, ws⟩ := by
  obtain ⟨q', out', ws⟩ := d
  cases h
  exact ⟨ws, rfl⟩

theorem done_cons {done : List (Done V L)} {q : L.Stmt} {out : L.Out q} {rest : List (Ran L)}
    (h : done.map Done.ran = ⟨q, out⟩ :: rest) :
    ∃ ws more, done = ⟨q, out, ws⟩ :: more ∧ more.map Done.ran = rest := by
  cases done with
  | nil => cases h
  | cons d more =>
    obtain ⟨head, tail⟩ := List.cons.inj h
    obtain ⟨ws, rfl⟩ := done_of_ran head
    exact ⟨ws, more, rfl, tail⟩

theorem mem_writes {tx : Tx V T L} {w : Write V} (h : w ∈ tx.writes) :
    ∃ d ∈ tx.done, w ∈ d.writes := List.mem_flatMap.mp h

theorem flatMap_split {α β : Type} {f : α → List β} {l : List α} {xs ys : List β} {w : β}
    (h : l.flatMap f = xs ++ w :: ys) :
    ∃ pre a post before after, l = pre ++ a :: post ∧ f a = before ++ w :: after ∧
      xs = pre.flatMap f ++ before := by
  induction l generalizing xs with
  | nil => simp at h
  | cons a l ih =>
    rw [List.flatMap_cons] at h
    rcases List.append_eq_append_iff.mp h with ⟨rest, rfl, tail⟩ | ⟨rest, head, tail⟩
    · obtain ⟨pre, b, post, before, after, rfl, eq, rfl⟩ := ih tail
      exact ⟨a :: pre, b, post, before, after, rfl, eq, by simp⟩
    · cases rest with
      | nil =>
        obtain ⟨pre, b, post, before, after, rfl, eq, none⟩ := @ih [] tail.symm
        have none := List.append_eq_nil_iff.mp none.symm
        refine ⟨a :: pre, b, post, before, after, rfl, eq, ?_⟩
        rw [List.flatMap_cons, none.1, none.2, head]
        simp
      | cons v rest =>
        obtain ⟨rfl, _⟩ := List.cons.inj tail
        exact ⟨[], a, l, xs, rest, rfl, head, rfl⟩

theorem step_log (step : Step M s t) : ∃ new, t.log = new ++ s.log := by
  cases step with
  | auto | commit => exact ⟨[_, _], rfl⟩
  | finish live ended =>
    simp only [State.finish]
    split
    · exact ⟨[_], rfl⟩
    · exact ⟨[_, _], rfl⟩
  | _ => exact ⟨[_], rfl⟩

/-- The entries that a step wrote. -/
def since (s t : State σ L T Pid Job Res) : List (Entry L T Pid Job Res) :=
  t.log.take (t.log.length - s.log.length)

theorem since_eq {new : List (Entry L T Pid Job Res)} (log : t.log = new ++ s.log) :
    since s t = new := by
  simp [since, log]

theorem reach_log (reach : Reach M cond s t) : ∃ new, t.log = new ++ s.log := by
  induction reach with
  | start => exact ⟨[], rfl⟩
  | next _ step _ ih =>
    obtain ⟨new, eq⟩ := ih
    obtain ⟨newer, eq'⟩ := step_log step
    exact ⟨newer ++ new, by rw [eq', eq, List.append_assoc]⟩

theorem reach_entry {e : Entry L T Pid Job Res} (reach : Reach M cond (.start db) s)
    (mem : e ∈ s.log) :
    ∃ a b new, Reach M cond (.start db) a ∧ Step M a b ∧ cond a b ∧ Reach M cond b s ∧
      b.log = new ++ a.log ∧ e ∈ new := by
  induction reach with
  | start => cases mem
  | @next a b before step ok ih =>
    obtain ⟨new, eq⟩ := step_log step
    rw [eq] at mem
    rcases List.mem_append.mp mem with fresh | old
    · exact ⟨a, b, new, before, step, ok, .start, eq, fresh⟩
    · obtain ⟨x, y, seen, hx, hxy, hc, hy, hlog, hmem⟩ := ih old
      exact ⟨x, y, seen, hx, hxy, hc, .next hy step ok, hlog, hmem⟩

theorem outcome_entry {new : List (Entry L T Pid Job Res)} {e : Entry L T Pid Job Res}
    (outcome : Outcome S s t) (log : t.log = new ++ s.log) (mem : e ∈ new) :
    Noted S s e ∨ ∃ pid p tx op ans, e = .applied pid p.job tx.time (tx.done.map Done.ran) ∧
      t.db = s.db.apply tx.writes ∧ Durable S s pid p tx ∧
      t.log = .called pid p.job op ans :: e :: s.log := by
  cases outcome with
  | quiet es _ eq noted =>
    have same : new = es := List.append_cancel_right (log.symm.trans eq)
    exact .inl (noted _ (same ▸ mem))
  | durable pid p tx op ans db eq noted unit _ =>
    have same : new = [_, _] := List.append_cancel_right (log.symm.trans eq)
    rw [same] at mem
    rcases List.mem_cons.mp mem with rfl | mem
    · exact .inl noted
    · obtain rfl := List.mem_singleton.mp mem
      exact .inr ⟨pid, p, tx, op, ans, rfl, db, unit, eq⟩

/-- The step that made a unit durable. -/
structure Settled (S : Spec M) (cond) (db : Store σ) (s : State σ L T Pid Job Res)
    (pid : Pid) (p : Proc V T L Job Res) (tx : Tx V T L) (a b : State σ L T Pid Job Res) :
    Prop where
  before : Reach M cond (.start db) a
  step : Step M a b
  ok : cond a b
  later : Reach M cond b s
  durable : Durable S a pid p tx
  db : b.db = a.db.apply tx.writes
  log : ∃ op ans, b.log = .called pid p.job op ans ::
    .applied pid p.job tx.time (tx.done.map Done.ran) :: a.log

theorem applied_at (S : Spec M) {pid : Pid} {job : Job} {time : T} {unit : List (Ran L)}
    {newer rest : List (Entry L T Pid Job Res)} (reach : Reach M cond (.start db) s)
    (split : s.log = newer ++ .applied pid job time unit :: rest) :
    ∃ a b p tx, Settled S cond db s pid p tx a b ∧ a.log = rest ∧ p.job = job ∧ tx.time = time ∧
      tx.done.map Done.ran = unit := by
  induction reach generalizing newer with
  | start => simp [State.start] at split
  | @next s t before step ok ih =>
    have older : ∀ {newer}, s.log = newer ++ .applied pid job time unit :: rest →
        ∃ a b p tx, Settled S cond db t pid p tx a b ∧ a.log = rest ∧ p.job = job ∧
          tx.time = time ∧ tx.done.map Done.ran = unit := by
      intro newer split
      obtain ⟨a, b, p, tx, settled, facts⟩ := ih split
      exact ⟨a, b, p, tx, { settled with later := .next settled.later step ok }, facts⟩
    cases step_outcome (reach_sound S before) step with
    | quiet es _ log noted =>
      rw [log] at split
      rcases List.append_eq_append_iff.mp split with ⟨more, rfl, tail⟩ | ⟨more, rfl, tail⟩
      · exact older tail
      · cases more with
        | nil => exact @older [] tail.symm
        | cons e more =>
          obtain ⟨rfl, _⟩ := List.cons.inj tail
          exact (noted _ (List.mem_append_right _ List.mem_cons_self)).elim
    | durable qid q tx op ans same log noted durable _ =>
      rw [log] at split
      rcases newer with _ | ⟨e, _ | ⟨e', newer⟩⟩
      · cases split
      · obtain ⟨_, split⟩ := List.cons.inj split
        obtain ⟨eq, rfl⟩ := List.cons.inj split
        cases eq
        exact ⟨s, t, q, tx, ⟨before, step, ok, .start, durable, same, op, ans, log⟩, rfl, rfl,
          rfl, rfl⟩
      · exact older (List.cons.inj (List.cons.inj split).2).2

theorem called_origin (S : Spec M) {pid : Pid} {job : Job} {op : Op L} {ans : op.Ans}
    (reach : Reach M cond (.start db) s) (mem : .called pid job op ans ∈ s.log) :
    ∃ a p, Reach M cond (.start db) a ∧ Reach M cond a s ∧ a.procs.lookup pid = some p ∧
      p.job = job ∧ S.allows job p.past op ∧ Answered M a p op ans := by
  obtain ⟨a, b, new, before, step, ok, later, log, fresh⟩ := reach_entry reach mem
  rcases outcome_entry (step_outcome (reach_sound S before) step) log fresh with
    ⟨p, rest⟩ | ⟨_, _, _, _, _, eq, _⟩
  · exact ⟨a, p, before, (Reach.next .start step ok).trans later, rest⟩
  · cases eq

theorem finished_origin (S : Spec M) {pid : Pid} {job : Job} {res : Res}
    (reach : Reach M cond (.start db) s) (mem : .finished pid job res ∈ s.log) :
    ∃ a p, Reach M cond (.start db) a ∧ Reach M cond a s ∧ a.procs.lookup pid = some p ∧
      p.job = job ∧ S.ensures job p.past res := by
  obtain ⟨a, b, new, before, step, ok, later, log, fresh⟩ := reach_entry reach mem
  rcases outcome_entry (step_outcome (reach_sound S before) step) log fresh with
    ⟨p, rest⟩ | ⟨_, _, _, _, _, eq, _⟩
  · exact ⟨a, p, before, (Reach.next .start step ok).trans later, rest⟩
  · cases eq

theorem finished_past (S : Spec M) {pid : Pid} {job : Job} {res : Res}
    (reach : Reach M cond (.start db) s) (mem : .finished pid job res ∈ s.log) :
    ∃ past, S.ensures job past res ∧
      (∀ call ∈ past.calls, .called pid job call.1 call.2 ∈ s.log) ∧
      ∀ unit ∈ past.known, ∃ t, .applied pid job t unit ∈ s.log := by
  obtain ⟨a, p, before, later, live, same, ensured⟩ := finished_origin S reach mem
  have own := (reach_sound S before).each pid p live
  obtain ⟨new, log⟩ := reach_log later
  subst same
  rw [log]
  refine ⟨p.past, ensured, ?_, ?_⟩
  · exact fun call hc => List.mem_append_right _ (own.logged call hc)
  · exact fun unit hu => (own.known unit hu).imp fun t applied => List.mem_append_right _ applied

/-- Induction over the units made durable after a reachable state. -/
theorem reach_db (S : Spec M) (good : Store σ → Prop) (before : Reach M cond (.start db) s)
    (initial : good s.db)
    (keeps : ∀ a pid p tx, Reach M cond (.start db) a → Durable S a pid p tx → good a.db →
      good (a.db.apply tx.writes))
    (later : Reach M cond s t) : good t.db := by
  induction later with
  | start => exact initial
  | @next a b mid step ok ih =>
    have reach := before.trans mid
    cases step_outcome (reach_sound S reach) step with
    | quiet es same _ _ => exact same ▸ ih
    | durable pid p tx op ans same _ _ unit _ =>
      rw [same]
      exact keeps a pid p tx reach unit ih

def Entry.pid : Entry L T Pid Job Res → Pid
  | .started pid _ => pid
  | .called pid _ _ _ => pid
  | .applied pid _ _ _ => pid
  | .finished pid _ _ => pid
  | .crashed pid => pid

/-- What a step does to a process that is live after it, with the entries it wrote. -/
inductive Moved (M : Machine σ L T C Pid Job Res) (s : State σ L T Pid Job Res) (pid : Pid)
    (p' : Proc V T L Job Res) (new : List (Entry L T Pid Job Res)) : Prop where
  | same (old : s.procs.lookup pid = some p') (others : ∀ e ∈ new, e.pid ≠ pid)
  | called {p : Proc V T L Job Res} {op : Op L} {ans : op.Ans} (old : s.procs.lookup pid = some p)
      (job : p'.job = p.job) (todo : p'.todo = p.todo) (calls : p'.calls = ⟨op, ans⟩ :: p.calls)
      (log : new = [.called pid p.job op ans] ∨
        ∃ time unit, new = [.called pid p.job op ans, .applied pid p.job time unit])
      (told : ∀ unit ∈ Past.told p.past.tx op ans, ∃ time,
        new = [.called pid p.job op ans, .applied pid p.job time unit])
  | spawned (idle : s.procs.lookup pid = none) (entry : M.entry pid p'.job = true)
      (calls : p'.calls = []) (todo : p'.todo = []) (log : new = [.started pid p'.job])
  | followed {p : Proc V T L Job Res} {res : Res} (old : s.procs.lookup pid = some p)
      (ended : p.prog = .ret res) (next : M.follow p.job res ++ p.todo = p'.job :: p'.todo)
      (calls : p'.calls = []) (log : new = [.started pid p'.job, .finished pid p.job res])

theorem lookup_moved {pid qid : Pid} {p p' : Proc V T L Job Res} {procs : AList fun _ : Pid => _}
    (live : (procs.insert qid p).lookup pid = some p') :
    (pid = qid ∧ p' = p) ∨ (pid ≠ qid ∧ procs.lookup pid = some p') := by
  by_cases same : pid = qid
  · subst same
    rw [AList.lookup_insert] at live
    exact .inl ⟨rfl, (Option.some.inj live).symm⟩
  · rw [AList.lookup_insert_ne same] at live
    exact .inr ⟨same, live⟩

theorem resume_moved {pid qid : Pid} {p p' : Proc V T L Job Res} {op : Op L} {k} {ans : op.Ans}
    {tx : Option (Tx V T L)} {new : List (Entry L T Pid Job Res)}
    (old : s.procs.lookup qid = some p)
    (live : (s.resume qid p op k ans tx).procs.lookup pid = some p')
    (log : new = [.called qid p.job op ans] ∨
      ∃ time unit, new = [.called qid p.job op ans, .applied qid p.job time unit])
    (told : ∀ unit ∈ Past.told p.past.tx op ans, ∃ time,
      new = [.called qid p.job op ans, .applied qid p.job time unit]) :
    Moved M s pid p' new := by
  rcases lookup_moved live with ⟨rfl, rfl⟩ | ⟨other, live⟩
  · exact .called old rfl rfl rfl log told
  · refine .same live fun e he same => other ?_
    rcases log with rfl | ⟨_, _, rfl⟩
    · rw [← same, List.mem_singleton.mp he]
      rfl
    · rcases List.mem_cons.mp he with rfl | he
      · exact same.symm
      · rw [← same, List.mem_singleton.mp he]
        rfl

theorem step_moved {pid : Pid} {p' : Proc V T L Job Res} (step : Step M s t)
    (live : t.procs.lookup pid = some p') : ∃ new, t.log = new ++ s.log ∧ Moved M s pid p' new := by
  cases step with
  | @spawn qid job idle entry =>
    refine ⟨[_], rfl, ?_⟩
    rcases lookup_moved live with ⟨rfl, rfl⟩ | ⟨other, live⟩
    · exact .spawned idle entry rfl rfl rfl
    · refine .same live fun e he same => other ?_
      rw [← same, List.mem_singleton.mp he]
      rfl
  | begin at_ | env at_ =>
    refine ⟨[_], rfl, resume_moved at_.1 live (.inl rfl) ?_⟩
    intro unit none
    cases none
  | query at_ inside =>
    refine ⟨[_], rfl, resume_moved at_.1 live (.inl rfl) ?_⟩
    simp [Proc.past, inside, Past.told]
  | drop at_ gone =>
    refine ⟨[_], rfl, resume_moved at_.1 live (.inl rfl) ?_⟩
    simp [told_drop gone]
  | @auto qid p q k time c out ws ans at_ outside _ _ told =>
    refine ⟨[_, _], rfl, resume_moved (s := s) at_.1 live (.inr ⟨_, _, rfl⟩) ?_⟩
    intro unit hu
    have eq : unit = (⟨time, [⟨q, out, ws⟩]⟩ : Tx V T L).done.map Done.ran :=
      told_auto outside told unit hu
    exact ⟨time, by rw [eq]⟩
  | @commit qid p k tx ans at_ inside =>
    refine ⟨[_, _], rfl, resume_moved (s := s) at_.1 live (.inr ⟨_, _, rfl⟩) ?_⟩
    intro unit hu
    exact ⟨tx.time, by rw [told_commit inside unit hu]⟩
  | @finish qid p res old ended =>
    unfold State.finish at live ⊢
    split at live
    · refine ⟨[_], rfl, ?_⟩
      obtain ⟨other, live⟩ := lookup_erased live
      refine .same live fun e he same => other ?_
      rw [← same, List.mem_singleton.mp he]
      rfl
    · rename_i job todo next
      refine ⟨[_, _], rfl, ?_⟩
      rcases lookup_moved live with ⟨rfl, rfl⟩ | ⟨other, live⟩
      · exact .followed old ended next rfl rfl
      · refine .same live fun e he same => other ?_
        rcases List.mem_cons.mp he with rfl | he
        · exact same.symm
        · rw [← same, List.mem_singleton.mp he]
          rfl
  | @crash qid p old =>
    refine ⟨[_], rfl, ?_⟩
    obtain ⟨other, live⟩ := lookup_erased live
    refine .same live fun e he same => other ?_
    rw [← same, List.mem_singleton.mp he]
    rfl

theorem step_tx {pid : Pid} {p' : Proc V T L Job Res} {tx' : Tx V T L} (step : Step M s t)
    (live : t.procs.lookup pid = some p') (inside : p'.tx = some tx') :
    (∃ p, s.procs.lookup pid = some p ∧ p.job = p'.job ∧ p.tx = some tx') ∨ tx'.done = [] ∨
    ∃ p tx q k c out ws, s.At pid p (.stmt q) k ∧ p.job = p'.job ∧ p.tx = some tx ∧
      M.exec q tx.time c (s.db.apply tx.writes) = .ok (out, ws) ∧
      tx' = ⟨tx.time, tx.done ++ [⟨q, out, ws⟩]⟩ := by
  cases step with
  | spawn idle entry =>
    rcases lookup_moved live with ⟨rfl, rfl⟩ | ⟨_, live⟩
    · cases inside
    · exact .inl ⟨p', live, rfl, inside⟩
  | begin at_ =>
    rcases lookup_moved live with ⟨rfl, rfl⟩ | ⟨_, live⟩
    · cases inside
      exact .inr (.inl rfl)
    · exact .inl ⟨p', live, rfl, inside⟩
  | query at_ open_ ran free =>
    rcases lookup_moved live with ⟨rfl, rfl⟩ | ⟨_, live⟩
    · cases inside
      exact .inr (.inr ⟨_, _, _, _, _, _, _, at_, rfl, open_, ran, rfl⟩)
    · exact .inl ⟨p', live, rfl, inside⟩
  | auto at_ | commit at_ | drop at_ =>
    rcases lookup_moved live with ⟨rfl, rfl⟩ | ⟨_, live⟩
    · cases inside
    · exact .inl ⟨p', live, rfl, inside⟩
  | env at_ =>
    rcases lookup_moved live with ⟨rfl, rfl⟩ | ⟨_, live⟩
    · exact .inl ⟨_, at_.1, rfl, inside⟩
    · exact .inl ⟨p', live, rfl, inside⟩
  | finish old ended =>
    unfold State.finish at live
    split at live
    · exact .inl ⟨p', (lookup_erased live).2, rfl, inside⟩
    · rcases lookup_moved live with ⟨rfl, rfl⟩ | ⟨_, live⟩
      · cases inside
      · exact .inl ⟨p', live, rfl, inside⟩
  | crash old => exact .inl ⟨p', (lookup_erased live).2, rfl, inside⟩

/-- The state in which a statement of a unit ran: on the committed rows and on what the unit
had written before it. -/
structure Ran.From (S : Spec M)
    (cond : State σ L T Pid Job Res → State σ L T Pid Job Res → Prop) (db : Store σ)
    (s : State σ L T Pid Job Res) (pid : Pid) (job : Job) (time : T) (pre : List (Done V L))
    (d : Done V L) (a : State σ L T Pid Job Res) : Prop where
  before : Reach M cond (.start db) a
  later : Reach M cond a s
  valid : a.db.Valid (pre.flatMap Done.writes)
  ran : ∃ c, M.exec d.stmt time c (a.db.apply (pre.flatMap Done.writes)) = .ok (d.out, d.writes)
  allowed : ∃ q, a.procs.lookup pid = some q ∧ q.job = job ∧ S.allows job q.past (.stmt d.stmt)

def Traced (S : Spec M) (cond : State σ L T Pid Job Res → State σ L T Pid Job Res → Prop)
    (db : Store σ) (s : State σ L T Pid Job Res) (pid : Pid) (job : Job) (tx : Tx V T L) : Prop :=
  ∀ pre d post, tx.done = pre ++ d :: post → ∃ a, Ran.From S cond db s pid job tx.time pre d a

theorem Traced.step {pid : Pid} {job : Job} {tx : Tx V T L}
    (traced : Traced S cond db s pid job tx) (step : Step M s t) (ok : cond s t) :
    Traced S cond db t pid job tx := by
  intro pre d post done
  obtain ⟨a, origin⟩ := traced pre d post done
  exact ⟨a, { origin with later := .next origin.later step ok }⟩

theorem reach_traced (reach : Reach M cond (.start db) s) {pid : Pid}
    {p : Proc V T L Job Res} {tx : Tx V T L} (live : s.procs.lookup pid = some p)
    (inside : p.tx = some tx) : Traced S cond db s pid p.job tx := by
  induction reach generalizing pid p tx with
  | start => cases live
  | @next s t before step ok ih =>
    rcases step_tx step live inside with
      ⟨q, old, job, open_⟩ | none | ⟨q, tx, stmt, k, c, out, ws, at_, job, open_, ran, rfl⟩
    · exact job ▸ (ih old open_).step step ok
    · intro pre d post done
      simp [none] at done
    · intro pre d post done
      rcases List.eq_nil_or_concat post with rfl | ⟨rest, last, rfl⟩
      · obtain ⟨rfl, eq⟩ := List.append_inj' done rfl
        obtain ⟨rfl, _⟩ := List.cons.inj eq
        have sound := reach_sound S before
        have valid := (sound.each pid q at_.1).valid
        rw [writes_some open_] at valid
        exact ⟨s, before, .next .start step ok, valid, ⟨c, ran⟩,
          q, at_.1, job, job ▸ allowed_at sound at_⟩
      · rw [List.concat_eq_append, ← List.cons_append, ← List.append_assoc] at done
        obtain ⟨done, _⟩ := List.append_inj' done rfl
        exact job ▸ (ih at_.1 open_).step step ok pre d rest done

theorem unit_traced {pid : Pid} {p : Proc V T L Job Res} {tx : Tx V T L}
    (reach : Reach M cond (.start db) s) (durable : Durable S s pid p tx) :
    Traced S cond db s pid p.job tx := by
  rcases durable.allowed with ⟨inside, _⟩ | ⟨_, d, c, one, allowed, ran⟩
  · exact reach_traced reach durable.live inside
  · intro pre e post done
    obtain ⟨rfl, eq⟩ : pre = [] ∧ [d] = e :: post := by
      rw [one] at done
      cases pre with
      | nil => exact ⟨rfl, done⟩
      | cons x pre => simp at done
    cases eq
    exact ⟨s, reach, .start, trivial, ⟨c, ran⟩, p, durable.live, rfl, allowed⟩

/-- The state in which a call of a live process was answered, with what the process had
called before. -/
theorem live_origin (S : Spec M) (reach : Reach M cond (.start db) s) {pid : Pid}
    {p : Proc V T L Job Res} (live : s.procs.lookup pid = some p) {op : Op L} {ans : op.Ans}
    {pre post : List (Σ op : Op L, op.Ans)} (split : p.calls = pre ++ ⟨op, ans⟩ :: post) :
    ∃ a q, Reach M cond (.start db) a ∧ Reach M cond a s ∧ a.procs.lookup pid = some q ∧
      q.job = p.job ∧ q.calls = post ∧ S.allows p.job q.past op ∧ Answered M a q op ans := by
  induction reach generalizing p pre with
  | start => cases live
  | @next s t before step ok ih =>
    have older : ∀ {q pre}, s.procs.lookup pid = some q → q.job = p.job →
        q.calls = pre ++ ⟨op, ans⟩ :: post →
        ∃ a q, Reach M cond (.start db) a ∧ Reach M cond a t ∧ a.procs.lookup pid = some q ∧
          q.job = p.job ∧ q.calls = post ∧ S.allows p.job q.past op ∧ Answered M a q op ans := by
      intro q pre old job split
      obtain ⟨a, r, first, later, rest⟩ := ih old split
      exact ⟨a, r, first, .next later step ok, job ▸ rest⟩
    obtain ⟨new, log, moved⟩ := step_moved step live
    cases moved with
    | same old _ => exact older old rfl split
    | @called q op' ans' old job _ calls written _ =>
      cases pre with
      | cons x pre =>
        rw [calls] at split
        exact older old job.symm (List.cons.inj split).2
      | nil =>
        rw [calls] at split
        obtain ⟨head, rest⟩ := List.cons.inj split
        cases head
        have mem : .called pid q.job op ans ∈ new := by
          rcases written with rfl | ⟨_, _, rfl⟩ <;> exact List.mem_cons_self
        rcases outcome_entry (step_outcome (reach_sound S before) step) log mem with
          ⟨r, live', _, allowed, answered⟩ | ⟨_, _, _, _, _, eq, _⟩
        · obtain rfl : r = q := Option.some.inj (live'.symm.trans old)
          exact ⟨s, r, before, .next .start step ok, old, job.symm, rest, job ▸ allowed, answered⟩
        · cases eq
    | spawned _ _ calls => simp [calls] at split
    | followed _ _ _ calls => simp [calls] at split

section Since

theorem step_head (step : Step M s t) : ∃ e new, t.log = (e :: new) ++ s.log ∧
    ∀ pid job op ans, .called pid job op ans ∉ new := by
  cases step with
  | auto | commit =>
    refine ⟨_, [_], rfl, fun pid job op ans mem => ?_⟩
    cases List.mem_singleton.mp mem
  | finish live ended =>
    simp only [State.finish]
    split
    · exact ⟨_, [], rfl, fun _ _ _ _ none => by cases none⟩
    · refine ⟨_, [_], rfl, fun pid job op ans mem => ?_⟩
      cases List.mem_singleton.mp mem
  | _ => exact ⟨_, [], rfl, fun _ _ _ _ none => by cases none⟩

theorem since_self (s : State σ L T Pid Job Res) : since s s = [] := by simp [since]

theorem since_trans {u : State σ L T Pid Job Res} {cond' : _ → _ → Prop} (first : Reach M cond s t)
    (rest : Reach M cond' t u) : since s u = since t u ++ since s t := by
  obtain ⟨old, log⟩ := reach_log first
  obtain ⟨new, log'⟩ := reach_log rest
  have whole : u.log = (new ++ old) ++ s.log := by rw [log', log, List.append_assoc]
  rw [since_eq log, since_eq log', since_eq whole]

theorem called_answered {pid : Pid} {p : Proc V T L Job Res} {op : Op L} {ans : op.Ans}
    {new : List (Entry L T Pid Job Res)} (sound : Sound S s) (step : Step M s t)
    (old : s.procs.lookup pid = some p) (log : t.log = new ++ s.log)
    (written : new = [.called pid p.job op ans] ∨
      ∃ time unit, new = [.called pid p.job op ans, .applied pid p.job time unit]) :
    S.allows p.job p.past op ∧ Answered M s p op ans := by
  have fresh : .called pid p.job op ans ∈ new := by
    rcases written with rfl | ⟨_, _, rfl⟩ <;> exact List.mem_cons_self
  rcases outcome_entry (step_outcome sound step) log fresh with
    ⟨q, live, _, facts⟩ | ⟨_, _, _, _, _, eq, _⟩
  · obtain rfl : q = p := Option.some.inj (live.symm.trans old)
    exact facts
  · cases eq

/-- The step that wrote an entry of a part of a run. -/
theorem since_entry {e : Entry L T Pid Job Res} (later : Reach M cond s t) (mem : e ∈ since s t) :
    ∃ a b new, Reach M cond s a ∧ Step M a b ∧ cond a b ∧ Reach M cond b t ∧
      b.log = new ++ a.log ∧ e ∈ new := by
  induction later with
  | start => simp [since] at mem
  | @next a b mid step ok ih =>
    obtain ⟨old, log⟩ := reach_log mid
    obtain ⟨new, written⟩ := step_log step
    have whole : b.log = (new ++ old) ++ s.log := by rw [written, log, List.append_assoc]
    rw [since_eq whole] at mem
    rcases List.mem_append.mp mem with fresh | earlier
    · exact ⟨a, b, new, mid, step, ok, .start, written, fresh⟩
    · obtain ⟨x, y, seen, first, at_, may, rest, facts⟩ := ih (since_eq log ▸ earlier)
      exact ⟨x, y, seen, first, at_, may, .next rest step ok, facts⟩

theorem live_since (S : Spec M) {pid : Pid} (before : Reach M cond (.start db) s)
    (later : Reach M cond s t) (idle : s.procs.lookup pid = none) {p : Proc V T L Job Res}
    (live : t.procs.lookup pid = some p) {call : Σ op : Op L, op.Ans}
    {pre post : List (Σ op : Op L, op.Ans)} (split : p.calls = pre ++ call :: post) :
    ∃ a q, Reach M cond s a ∧ Reach M cond a t ∧ a.procs.lookup pid = some q ∧ q.job = p.job ∧
      q.calls = post ∧ S.allows p.job q.past call.1 ∧ Answered M a q call.1 call.2 := by
  induction later generalizing p pre with
  | start => cases idle.symm.trans live
  | @next a b mid step ok ih =>
    have older : ∀ {q pre}, a.procs.lookup pid = some q → q.job = p.job →
        q.calls = pre ++ call :: post →
        ∃ c q, Reach M cond s c ∧ Reach M cond c b ∧ c.procs.lookup pid = some q ∧
          q.job = p.job ∧ q.calls = post ∧ S.allows p.job q.past call.1 ∧
          Answered M c q call.1 call.2 := by
      intro q pre old job split
      obtain ⟨c, r, first, rest, facts⟩ := ih old split
      exact ⟨c, r, first, .next rest step ok, job ▸ facts⟩
    obtain ⟨new, log, moved⟩ := step_moved step live
    cases moved with
    | same old _ => exact older old rfl split
    | @called q op ans old job _ calls written _ =>
      rw [calls] at split
      cases pre with
      | cons x pre => exact older old job.symm (List.cons.inj split).2
      | nil =>
        obtain ⟨rfl, rest⟩ := List.cons.inj split
        obtain ⟨allowed, answered⟩ :=
          called_answered (reach_sound S (before.trans mid)) step old log written
        exact ⟨a, q, mid, .next .start step ok, old, job.symm, rest, job ▸ allowed, answered⟩
    | spawned _ _ calls => simp [calls] at split
    | followed _ _ _ calls => simp [calls] at split

theorem finished_since (S : Spec M) {pid : Pid} {job : Job} {res : Res}
    (before : Reach M cond (.start db) s) (later : Reach M cond s t)
    (idle : s.procs.lookup pid = none) (mem : .finished pid job res ∈ since s t) :
    ∃ past, S.ensures job past res ∧
      (∀ unit ∈ past.known, ∃ time, .applied pid job time unit ∈ t.log) ∧
      ∀ pre call post, past.calls = pre ++ call :: post → ∃ a q, Reach M cond s a ∧
        Reach M cond a t ∧ a.procs.lookup pid = some q ∧ q.job = job ∧ q.calls = post ∧
        S.allows job q.past call.1 ∧ Answered M a q call.1 call.2 := by
  obtain ⟨a, b, new, first, step, ok, rest, log, fresh⟩ := since_entry later mem
  have sound := reach_sound S (before.trans first)
  have whole : Reach M cond a t := (Reach.next .start step ok).trans rest
  rcases outcome_entry (step_outcome sound step) log fresh with
    ⟨p, live, rfl, ensured⟩ | ⟨_, _, _, _, _, eq, _⟩
  · refine ⟨p.past, ensured, fun unit told => ?_, fun pre call post split => ?_⟩
    · obtain ⟨newer, grown⟩ := reach_log whole
      rw [grown]
      exact ((sound.each pid p live).known unit told).imp fun _ => List.mem_append_right _
    · obtain ⟨c, q, early, mid, facts⟩ := live_since S before first idle live split
      exact ⟨c, q, early, mid.trans whole, facts⟩
  · cases eq

theorem fresh_outside (reach : Reach M cond (.start db) s) {pid : Pid} {p : Proc V T L Job Res}
    (live : s.procs.lookup pid = some p) (fresh : p.calls = []) : p.tx = none := by
  induction reach generalizing p with
  | start => cases live
  | @next a b _ step _ ih =>
    cases step with
    | spawn =>
      rcases lookup_moved live with ⟨rfl, rfl⟩ | ⟨_, live⟩
      · rfl
      · exact ih live fresh
    | begin | query | auto | commit | drop | env =>
      rcases lookup_moved live with ⟨rfl, rfl⟩ | ⟨_, live⟩
      · cases fresh
      · exact ih live fresh
    | finish =>
      unfold State.finish at live
      split at live
      · exact ih (lookup_erased live).2 fresh
      · rcases lookup_moved live with ⟨rfl, rfl⟩ | ⟨_, live⟩
        · rfl
        · exact ih live fresh
    | crash => exact ih (lookup_erased live).2 fresh

end Since

section Replayed

def Entry.durables : Entry L T Pid Job Res → List (T × Ran L)
  | .applied _ _ time unit => unit.map fun x => (time, x)
  | _ => []

/-- The statements that were made durable, oldest first. -/
def durables (log : List (Entry L T Pid Job Res)) : List (T × Ran L) :=
  log.reverse.flatMap Entry.durables

theorem durables_append (new old : List (Entry L T Pid Job Res)) :
    durables (new ++ old) = durables old ++ durables new := by
  simp [durables]

theorem noted_durables {e : Entry L T Pid Job Res} (noted : Noted S s e) : e.durables = [] := by
  cases e with
  | applied => exact noted.elim
  | _ => rfl

/-- What a view of the store becomes is what its durable statements make of it, one after the
other in the order in which they became durable, when every unit does so. -/
theorem reach_replayed (S : Spec M) {β : Type} (view : Store σ → β) (fold : β → T × Ran L → β)
    (each : ∀ a pid p tx, Reach M cond (.start db) a → Durable S a pid p tx →
      view (a.db.apply tx.writes) =
        (tx.done.map fun d => (tx.time, d.ran)).foldl fold (view a.db))
    (reach : Reach M cond (.start db) s) : view s.db = (durables s.log).foldl fold (view db) := by
  induction reach with
  | start => rfl
  | @next a b before step ok ih =>
    cases step_outcome (reach_sound S before) step with
    | quiet es same log noted =>
      have none : durables es = [] := by
        refine List.flatMap_eq_nil_iff.mpr fun e mem => ?_
        exact noted_durables (noted e (List.mem_reverse.mp mem))
      rw [same, log, durables_append, none, List.append_nil, ih]
    | durable pid p tx op ans same log _ unit _ =>
      have new : durables b.log =
          durables a.log ++ tx.done.map fun d => (tx.time, d.ran) := by
        simp [log, durables, Entry.durables]
      rw [same, each a pid p tx before unit, ih, new, List.foldl_append]

end Replayed

end Txn
