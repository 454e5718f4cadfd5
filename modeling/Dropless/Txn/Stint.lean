import Dropless.Txn.History

set_option linter.unusedSectionVars false

namespace Txn

variable {V K I : Type} [DecidableEq K] [DecidableEq I] {σ : Schema V K I} {L : Lang}
  {T C Pid Job Res : Type} [DecidableEq Pid] {M : Machine σ L T C Pid Job Res} {S : Spec M}
  {cond : State σ L T Pid Job Res → State σ L T Pid Job Res → Prop}
  {s t : State σ L T Pid Job Res} {db : Store σ} {pid : Pid} {p : Proc V T L Job Res}

/-- A unit that a process made durable: at a commit, or by a statement alone. -/
inductive Made (S : Spec M) (p : Proc V T L Job Res) (unit : List (Ran L)) : Prop where
  | committed {ans : (Op.commit : Op L).Ans} (mem : ⟨.commit, ans⟩ ∈ p.calls)
  | alone {q : L.Stmt} {out : L.Out q} {ans : (Op.stmt q : Op L).Ans} {past : Past L}
      (one : unit = [⟨q, out⟩]) (outside : past.tx = none) (allowed : S.allows p.job past (.stmt q))
      (mem : ⟨.stmt q, ans⟩ ∈ p.calls) (told : ans = .ok out ∨ ∃ e, ans = .error e)

/-- The entries since the process started its job, and those before. -/
structure Stint (S : Spec M) (log : List (Entry L T Pid Job Res)) (pid : Pid)
    (p : Proc V T L Job Res) (seg older : List (Entry L T Pid Job Res)) : Prop where
  log : log = seg ++ .started pid p.job :: older
  unfinished : ∀ job res, .finished pid job res ∉ seg
  own : ∀ job time unit, .applied pid job time unit ∈ seg → job = p.job ∧ Made S p unit
  known : ∀ unit ∈ p.known, ∃ time, .applied pid p.job time unit ∈ seg

theorem Made.mono {p' : Proc V T L Job Res} {unit : List (Ran L)} (made : Made S p unit)
    (job : p'.job = p.job) (calls : p.calls ⊆ p'.calls) : Made S p' unit := by
  cases made with
  | committed mem => exact .committed (calls mem)
  | alone one outside allowed mem told =>
    exact .alone one outside (job ▸ allowed) (calls mem) told

namespace Stint

variable {log seg older : List (Entry L T Pid Job Res)}

theorem others (stint : Stint S log pid p seg older) (new : List (Entry L T Pid Job Res))
    (other : ∀ e ∈ new, e.pid ≠ pid) : Stint S (new ++ log) pid p (new ++ seg) older where
  log := by rw [stint.log, List.append_assoc]
  unfinished job res mem := by
    rcases List.mem_append.mp mem with mem | mem
    · exact other _ mem rfl
    · exact stint.unfinished job res mem
  own job time unit mem := by
    rcases List.mem_append.mp mem with mem | mem
    · exact (other _ mem rfl).elim
    · exact stint.own job time unit mem
  known unit mem := by
    obtain ⟨time, mem⟩ := stint.known unit mem
    exact ⟨time, List.mem_append_right _ mem⟩

theorem called (stint : Stint S log pid p seg older) {op : Op L} {ans : op.Ans}
    {p' : Proc V T L Job Res} {made : List (Entry L T Pid Job Res)} (job : p'.job = p.job)
    (calls : p'.calls = ⟨op, ans⟩ :: p.calls)
    (known : p'.known = Past.told p.past.tx op ans ++ p.known)
    (each : ∀ e ∈ made, ∃ time unit, e = .applied pid p.job time unit ∧ Made S p' unit)
    (told : ∀ unit ∈ Past.told p.past.tx op ans, ∃ time, .applied pid p.job time unit ∈ made) :
    Stint S (.called pid p.job op ans :: (made ++ log)) pid p'
      (.called pid p.job op ans :: (made ++ seg)) older where
  log := by rw [stint.log, job, List.cons_append, List.append_assoc]
  unfinished job res mem := by
    rcases List.mem_cons.mp mem with eq | mem
    · cases eq
    · rcases List.mem_append.mp mem with mem | mem
      · obtain ⟨_, _, eq, _⟩ := each _ mem
        cases eq
      · exact stint.unfinished job res mem
  own j time unit mem := by
    rcases List.mem_cons.mp mem with eq | mem
    · cases eq
    · rcases List.mem_append.mp mem with mem | mem
      · obtain ⟨_, _, eq, made⟩ := each _ mem
        cases eq
        exact ⟨job.symm, made⟩
      · obtain ⟨same, made⟩ := stint.own j time unit mem
        exact ⟨same.trans job.symm, made.mono job (calls ▸ List.subset_cons_self _ _)⟩
  known unit mem := by
    rw [known] at mem
    rcases List.mem_append.mp mem with mem | mem
    · obtain ⟨time, mem⟩ := told unit mem
      rw [job]
      exact ⟨time, List.mem_cons_of_mem _ (List.mem_append_left _ mem)⟩
    · obtain ⟨time, mem⟩ := stint.known unit mem
      rw [job]
      exact ⟨time, List.mem_cons_of_mem _ (List.mem_append_right _ mem)⟩

theorem launched (log : List (Entry L T Pid Job Res)) (pid : Pid) (job : Job) (todo : List Job) :
    Stint S (.started pid job :: log) pid ⟨job, M.prog job, [], none, [], todo⟩ [] log where
  log := rfl
  unfinished _ _ none := (List.not_mem_nil none).elim
  own _ _ _ none := (List.not_mem_nil none).elim
  known _ none := (List.not_mem_nil none).elim

theorem resume {qid : Pid} {q p' : Proc V T L Job Res} {op : Op L} {k : op.Ans → Prog L Res}
    {ans : op.Ans} {tx : Option (Tx V T L)} (made : List (Entry L T Pid Job Res))
    (at_ : s.procs.lookup qid = some q)
    (live : (s.resume qid q op k ans tx).procs.lookup pid = some p')
    (each : ∀ e ∈ made, ∃ time unit, e = .applied qid q.job time unit ∧
      ∀ p' : Proc V T L Job Res, p'.job = q.job → p'.calls = ⟨op, ans⟩ :: q.calls → Made S p' unit)
    (told : ∀ unit ∈ Past.told q.past.tx op ans, ∃ time, .applied qid q.job time unit ∈ made)
    (before : ∀ p, s.procs.lookup pid = some p → ∃ seg older, Stint S s.log pid p seg older) :
    ∃ seg older, Stint S (.called qid q.job op ans :: (made ++ s.log)) pid p' seg older := by
  rcases lookup_moved live with ⟨rfl, rfl⟩ | ⟨other, old⟩
  · obtain ⟨seg, older, stint⟩ := before q at_
    refine ⟨_, older, stint.called rfl rfl rfl (fun e mem => ?_) told⟩
    obtain ⟨time, unit, eq, made⟩ := each e mem
    exact ⟨time, unit, eq, made _ rfl rfl⟩
  · obtain ⟨seg, older, stint⟩ := before p' old
    have foreign : ∀ e ∈ .called qid q.job op ans :: made, e.pid ≠ pid := by
      intro e mem same
      rcases List.mem_cons.mp mem with rfl | mem
      · exact other same.symm
      · obtain ⟨_, _, rfl, _⟩ := each e mem
        exact other same.symm
    exact ⟨_, older, stint.others _ foreign⟩

end Stint

theorem reach_stint (S : Spec M) (reach : Reach M cond (.start db) s)
    (live : s.procs.lookup pid = some p) : ∃ seg older, Stint S s.log pid p seg older := by
  induction reach generalizing p with
  | start => cases live
  | @next s t before step ok ih =>
    have sound := reach_sound S before
    cases step with
    | @spawn qid job idle entry =>
      rcases lookup_moved live with ⟨rfl, rfl⟩ | ⟨other, old⟩
      · exact ⟨[], s.log, .launched _ _ _ _⟩
      · obtain ⟨seg, older, stint⟩ := ih old
        refine ⟨_, older, stint.others [_] fun e mem same => other ?_⟩
        rw [← same, List.mem_singleton.mp mem]
        rfl
    | begin at_ | env at_ =>
      refine Stint.resume [] at_.1 live (fun _ none => (List.not_mem_nil none).elim) ?_ fun p => ih
      intro unit none
      cases none
    | query at_ inside =>
      refine Stint.resume [] at_.1 live (fun _ none => (List.not_mem_nil none).elim) ?_ fun p => ih
      simp [Proc.past, inside, Past.told]
    | drop at_ gone =>
      refine Stint.resume [] at_.1 live (fun _ none => (List.not_mem_nil none).elim) ?_ fun p => ih
      simp [told_drop gone]
    | @auto qid q stmt k time c out ws ans at_ outside ran free told =>
      refine Stint.resume (s := s) [.applied qid q.job time _] at_.1 live ?_ ?_ fun p => ih
      · intro e mem
        refine ⟨time, _, List.mem_singleton.mp mem, fun p' job calls => ?_⟩
        have allowed := allowed_at sound at_
        have idle : q.past.tx = none := by simp [Proc.past, outside]
        refine .alone rfl idle (job ▸ allowed) ?_ told
        rw [calls]
        exact List.mem_cons_self
      · intro unit mem
        have eq : unit = (⟨time, [⟨stmt, out, ws⟩]⟩ : Tx V T L).done.map Done.ran :=
          told_auto outside told unit mem
        rw [eq]
        exact ⟨time, List.mem_singleton_self _⟩
    | @commit qid q k tx ans at_ inside =>
      refine Stint.resume (s := s) [.applied qid q.job tx.time _] at_.1 live ?_ ?_ fun p => ih
      · intro e mem
        refine ⟨tx.time, _, List.mem_singleton.mp mem, fun p' _ calls => ?_⟩
        have made : (⟨.commit, ans⟩ : Σ op : Op L, op.Ans) ∈ p'.calls := by
          rw [calls]
          exact List.mem_cons_self
        exact .committed made
      · intro unit mem
        rw [told_commit inside unit mem]
        exact ⟨tx.time, List.mem_singleton_self _⟩
    | @finish qid q res old ended =>
      unfold State.finish at live ⊢
      split at live
      · obtain ⟨other, old⟩ := lookup_erased live
        obtain ⟨seg, older, stint⟩ := ih old
        refine ⟨_, older, stint.others [_] fun e mem same => other ?_⟩
        rw [← same, List.mem_singleton.mp mem]
        rfl
      · rcases lookup_moved live with ⟨rfl, rfl⟩ | ⟨other, old⟩
        · exact ⟨[], _, .launched _ _ _ _⟩
        · obtain ⟨seg, older, stint⟩ := ih old
          refine ⟨_, older, stint.others [_, _] fun e mem same => other ?_⟩
          rw [← same]
          rcases List.mem_cons.mp mem with rfl | mem
          · rfl
          · rw [List.mem_singleton.mp mem]
            rfl
    | @crash qid q old =>
      obtain ⟨other, old⟩ := lookup_erased live
      obtain ⟨seg, older, stint⟩ := ih old
      refine ⟨_, older, stint.others [_] fun e mem same => other ?_⟩
      rw [← same, List.mem_singleton.mp mem]
      rfl

theorem split_old {new old newer rest : List (Entry L T Pid Job Res)} {e : Entry L T Pid Job Res}
    (split : new ++ old = newer ++ e :: rest) (other : e ∉ new) :
    ∃ newer', old = newer' ++ e :: rest := by
  rcases List.append_eq_append_iff.mp split with ⟨more, rfl, tail⟩ | ⟨more, rfl, tail⟩
  · exact ⟨more, tail⟩
  · cases more with
    | nil => exact ⟨[], tail.symm⟩
    | cons x more =>
      obtain ⟨rfl, _⟩ := List.cons.inj tail
      exact (other (List.mem_append_right _ List.mem_cons_self)).elim

theorem step_finished (step : Step M s t) : ∃ new old, t.log = new ++ old ∧
    (∀ pid job res, .finished pid job res ∉ new) ∧
    (old = s.log ∨ ∃ qid q res, s.procs.lookup qid = some q ∧ q.prog = .ret res ∧
      old = .finished qid q.job res :: s.log) := by
  cases step with
  | auto | commit => exact ⟨[_, _], s.log, rfl, by simp, .inl rfl⟩
  | @finish qid q res live ended =>
    unfold State.finish
    split
    · exact ⟨[], _, rfl, by simp, .inr ⟨qid, q, res, live, ended, rfl⟩⟩
    · exact ⟨[_], _, rfl, by simp, .inr ⟨qid, q, res, live, ended, rfl⟩⟩
  | _ => exact ⟨[_], s.log, rfl, by simp, .inl rfl⟩

theorem finished_at (S : Spec M) {job : Job} {res : Res} {newer rest : List (Entry L T Pid Job Res)}
    (reach : Reach M cond (.start db) s) (split : s.log = newer ++ .finished pid job res :: rest) :
    ∃ a p, Reach M cond (.start db) a ∧ Reach M cond a s ∧ a.log = rest ∧
      a.procs.lookup pid = some p ∧ p.job = job ∧ S.ensures job p.past res := by
  induction reach generalizing newer with
  | start => simp [State.start] at split
  | @next s t before step ok ih =>
    have older : ∀ {newer}, s.log = newer ++ .finished pid job res :: rest → ∃ a p,
        Reach M cond (.start db) a ∧ Reach M cond a t ∧ a.log = rest ∧ a.procs.lookup pid = some p ∧
          p.job = job ∧ S.ensures job p.past res := by
      intro newer split
      obtain ⟨a, p, first, later, facts⟩ := ih split
      exact ⟨a, p, first, .next later step ok, facts⟩
    obtain ⟨new, old, log, none, same | ⟨qid, q, r, live, ended, same⟩⟩ := step_finished step
    · obtain ⟨newer', split⟩ := split_old (log ▸ split) (none pid job res)
      exact older (same ▸ split)
    · obtain ⟨newer', split⟩ := split_old (log ▸ split) (none pid job res)
      rw [same] at split
      cases newer' with
      | cons e newer' => exact older (List.cons.inj split).2
      | nil =>
        obtain ⟨eq, rfl⟩ := List.cons.inj split
        cases eq
        have last := ((reach_sound S before).each _ q live).along
        rw [ended] at last
        exact ⟨s, q, before, .next .start step ok, rfl, live, rfl, last⟩

end Txn
