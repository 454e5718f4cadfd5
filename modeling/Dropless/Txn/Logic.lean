import Dropless.Txn.System

set_option linter.unusedSectionVars false

namespace Txn

variable {V K I : Type} [DecidableEq K] [DecidableEq I] {σ : Schema V K I} {L : Lang}
  {T C Pid Job Res : Type} [DecidableEq Pid]

/-- A protocol for the program of every job. -/
structure Spec (M : Machine σ L T C Pid Job Res) where
  allows : Job → Past L → Op L → Prop
  ensures : Job → Past L → Res → Prop
  along : ∀ job, Along (allows job) (ensures job) .start (M.prog job)

variable {M : Machine σ L T C Pid Job Res} {S : Spec M} {s t : State σ L T Pid Job Res}

structure ProcOk (S : Spec M) (s : State σ L T Pid Job Res) (pid : Pid)
    (p : Proc V T L Job Res) : Prop where
  valid : s.db.Valid p.writes
  ran : ∀ tx, p.tx = some tx →
    ∀ d ∈ tx.done, ∃ c view, M.exec d.stmt tx.time c view = .ok (d.out, d.writes)
  along : Along (S.allows p.job) (S.ensures p.job) p.past p.prog
  logged : ∀ call ∈ p.calls, .called pid p.job call.1 call.2 ∈ s.log
  known : ∀ unit ∈ p.known, ∃ t, .applied pid p.job t unit ∈ s.log

structure Sound (S : Spec M) (s : State σ L T Pid Job Res) : Prop where
  each : ∀ pid p, s.procs.lookup pid = some p → ProcOk S s pid p
  apart : ∀ pid p qid q, s.procs.lookup pid = some p → s.procs.lookup qid = some q →
    pid ≠ qid → Store.Disjoint σ p.writes q.writes

theorem held_covers {pid qid : Pid} {q : Proc V T L Job Res}
    (live : s.procs.lookup qid = some q) (other : qid ≠ pid) {w : Write V} (mem : w ∈ q.writes) :
    w ∈ s.held pid := by
  simp only [State.held, List.mem_flatMap, List.mem_filter]
  exact ⟨⟨qid, q⟩, ⟨AList.mem_lookup_iff.mp live, by simpa using other⟩, mem⟩

theorem free_apart {pid qid : Pid} {q : Proc V T L Job Res} {ws : List (Write V)}
    (free : s.Free pid ws) (live : s.procs.lookup qid = some q) (other : qid ≠ pid) :
    Store.Disjoint σ q.writes ws :=
  fun w hw => free w (held_covers live other hw)

theorem writes_none {p : Proc V T L Job Res} (h : p.tx = none) : p.writes = [] := by
  simp [Proc.writes, h]

theorem writes_some {p : Proc V T L Job Res} {tx : Tx V T L} (h : p.tx = some tx) :
    p.writes = tx.writes := by
  simp [Proc.writes, h]

theorem past_resume (p : Proc V T L Job Res) (op : Op L) (ans : op.Ans) (prog : Prog L Res)
    (tx : Option (Tx V T L))
    (same : tx.map (fun tx => tx.done.map Done.ran) = Past.txAfter p.past.tx op ans) :
    ({ p with
        prog := prog, calls := ⟨op, ans⟩ :: p.calls, tx := tx,
        known := Past.told p.past.tx op ans ++ p.known } : Proc V T L Job Res).past
      = p.past.after op ans := by
  simp only [Proc.past, Past.after, same]

theorem ProcOk.older {pid : Pid} {p : Proc V T L Job Res} {db : Store σ} {procs log}
    (old : ProcOk S s pid p) (valid : db.Valid p.writes) (grows : ∀ e ∈ s.log, e ∈ log) :
    ProcOk S ⟨db, procs, log⟩ pid p where
  valid := valid
  ran := old.ran
  along := old.along
  logged call hc := grows _ (old.logged call hc)
  known unit hu := (old.known unit hu).imp fun _ he => grows _ he

/-- The process that moved is as required, and the others kept their transactions
valid: then the new state is sound. -/
theorem Sound.insert {pid : Pid} {p : Proc V T L Job Res} {db : Store σ} {log}
    (sound : Sound S s) (own : ProcOk S ⟨db, s.procs.insert pid p, log⟩ pid p)
    (frame : ∀ qid q, qid ≠ pid → s.procs.lookup qid = some q →
      db.Valid q.writes ∧ Store.Disjoint σ q.writes p.writes)
    (grows : ∀ e ∈ s.log, e ∈ log) : Sound S ⟨db, s.procs.insert pid p, log⟩ := by
  constructor
  · intro qid q live
    by_cases same : qid = pid
    · subst same
      have eq : p = q := by simpa using live
      exact eq ▸ own
    · rw [AList.lookup_insert_ne same] at live
      exact (sound.each qid q live).older (frame qid q same live).1 grows
  · intro qid q rid r hq hr differ
    by_cases hqp : qid = pid
    · subst hqp
      have eq : p = q := by simpa using hq
      rw [AList.lookup_insert_ne differ.symm] at hr
      exact eq ▸ ((frame rid r differ.symm hr).2).symm
    · rw [AList.lookup_insert_ne hqp] at hq
      by_cases hrp : rid = pid
      · subst hrp
        have eq : p = r := by simpa using hr
        exact eq ▸ (frame qid q hqp hq).2
      · rw [AList.lookup_insert_ne hrp] at hr
        exact sound.apart qid q rid r hq hr differ

theorem lookup_erased {pid qid : Pid} {p : Proc V T L Job Res} {procs : AList fun _ : Pid => _}
    (live : (procs.erase qid).lookup pid = some p) : pid ≠ qid ∧ procs.lookup pid = some p := by
  by_cases same : pid = qid
  · subst same
    rw [AList.lookup_erase] at live
    cases live
  · rw [AList.lookup_erase_ne same] at live
    exact ⟨same, live⟩

theorem Sound.erase {pid : Pid} {log} (sound : Sound S s) (grows : ∀ e ∈ s.log, e ∈ log) :
    Sound S ⟨s.db, s.procs.erase pid, log⟩ := by
  constructor
  · intro qid q live
    have old := sound.each qid q (lookup_erased live).2
    exact old.older old.valid grows
  · intro qid q rid r hq hr
    exact sound.apart qid q rid r (lookup_erased hq).2 (lookup_erased hr).2

theorem Sound.launch {pid : Pid} {job : Job} {todo : List Job} (sound : Sound S s) :
    Sound S (s.launch M pid job todo) := by
  refine sound.insert ⟨trivial, ?_, S.along job, ?_, ?_⟩ ?_ fun e he => List.mem_cons_of_mem _ he
  · intro tx none
    cases none
  · intro call none
    cases none
  · intro unit none
    cases none
  · intro qid q _ live
    exact ⟨(sound.each qid q live).valid, fun _ _ w hw => by cases hw⟩

theorem Sound.resume {pid : Pid} {p : Proc V T L Job Res} {op : Op L} {k} {ans : op.Ans}
    {tx : Option (Tx V T L)} (sound : Sound S s) (at_ : s.At pid p op k)
    (same : tx.map (fun tx => tx.done.map Done.ran) = Past.txAfter p.past.tx op ans)
    (nothing : Past.told p.past.tx op ans = []) (valid : s.db.Valid ((tx.map Tx.writes).getD []))
    (ran : ∀ tx', tx = some tx' → ∀ d ∈ tx'.done, ∃ c view,
      M.exec d.stmt tx'.time c view = .ok (d.out, d.writes))
    (apart : ∀ qid q, qid ≠ pid → s.procs.lookup qid = some q →
      Store.Disjoint σ q.writes ((tx.map Tx.writes).getD [])) :
    Sound S (s.resume pid p op k ans tx) := by
  obtain ⟨live, head⟩ := at_
  have own := sound.each pid p live
  have next := own.along
  rw [head] at next
  refine sound.insert ⟨valid, ran, ?_, ?_, ?_⟩ ?_ fun e he => List.mem_cons_of_mem _ he
  · rw [past_resume p op ans (k ans) tx same]
    exact next.2 ans
  · intro call hc
    rcases List.mem_cons.mp hc with rfl | hc
    · exact List.mem_cons_self
    · exact List.mem_cons_of_mem _ (own.logged call hc)
  · intro unit hu
    rw [nothing] at hu
    exact (own.known unit hu).imp fun _ he => List.mem_cons_of_mem _ he
  · exact fun qid q other hq => ⟨(sound.each qid q hq).valid, apart qid q other hq⟩

theorem Sound.settle {pid : Pid} {p : Proc V T L Job Res} {op : Op L} {k} {ans : op.Ans}
    {tx : Tx V T L} (sound : Sound S s) (at_ : s.At pid p op k)
    (gone : Past.txAfter p.past.tx op ans = none)
    (told : ∀ unit ∈ Past.told p.past.tx op ans, unit = tx.done.map Done.ran)
    (valid : s.db.Valid tx.writes)
    (apart : ∀ qid q, qid ≠ pid → s.procs.lookup qid = some q →
      Store.Disjoint σ q.writes tx.writes) :
    Sound S ((s.settle pid p.job tx).resume pid p op k ans none) := by
  obtain ⟨live, head⟩ := at_
  have own := sound.each pid p live
  have next := own.along
  rw [head] at next
  refine sound.insert ⟨trivial, ?_, ?_, ?_, ?_⟩ ?_
    fun e he => List.mem_cons_of_mem _ (List.mem_cons_of_mem _ he)
  · intro tx none
    cases none
  · rw [past_resume p op ans (k ans) none gone.symm]
    exact next.2 ans
  · intro call hc
    rcases List.mem_cons.mp hc with rfl | hc
    · exact List.mem_cons_self
    · exact List.mem_cons_of_mem _ (List.mem_cons_of_mem _ (own.logged call hc))
  · intro unit hu
    rcases List.mem_append.mp hu with hu | hu
    · rw [told unit hu]
      exact ⟨tx.time, List.mem_cons_of_mem _ List.mem_cons_self⟩
    · exact (own.known unit hu).imp fun _ he => List.mem_cons_of_mem _ (List.mem_cons_of_mem _ he)
  · intro qid q other hq
    have frame := Store.valid_frame valid (sound.each qid q hq).valid (apart qid q other hq).symm
    exact ⟨frame, fun _ _ w hw => by cases hw⟩

theorem txAfter_drop {op : Op L} {ans : op.Ans} (h : Drops op ans) (tx : Option (List (Ran L))) :
    Past.txAfter tx op ans = none := by
  cases h <;> rfl

theorem told_drop {op : Op L} {ans : op.Ans} (h : Drops op ans) (tx : Option (List (Ran L))) :
    Past.told tx op ans = [] := by
  cases h <;> rfl

theorem told_auto {p : Proc V T L Job Res} {t : T} {q : L.Stmt} {out : L.Out q}
    {ws : List (Write V)} {ans : (Op.stmt q).Ans} (outside : p.tx = none)
    (told : ans = .ok out ∨ ∃ e, ans = .error e) :
    ∀ unit ∈ Past.told p.past.tx (.stmt q) ans,
      unit = (⟨t, [⟨q, out, ws⟩]⟩ : Tx V T L).done.map Done.ran := by
  rcases told with rfl | ⟨e, rfl⟩
  · simp [Proc.past, outside, Past.told, Done.ran]
  · intro unit none
    cases none

theorem told_commit {p : Proc V T L Job Res} {tx : Tx V T L} {ans : (Op.commit : Op L).Ans}
    (inside : p.tx = some tx) :
    ∀ unit ∈ Past.told p.past.tx .commit ans, unit = tx.done.map Done.ran := by
  intro unit hu
  cases ans with
  | error e => cases hu
  | ok u => simpa [Proc.past, inside, Past.told] using hu

theorem Tx.writes_append (tx : Tx V T L) (d : Done V L) :
    (⟨tx.time, tx.done ++ [d]⟩ : Tx V T L).writes = tx.writes ++ d.writes := by
  simp [Tx.writes]

theorem step_sound (sound : Sound S s) (step : Step M s t) : Sound S t := by
  cases step with
  | spawn idle entry => exact sound.launch
  | begin at_ =>
    refine sound.resume at_ rfl rfl trivial ?_ ?_
    · rintro tx' ⟨⟩ d ⟨⟩
    · exact fun _ _ _ _ _ _ w hw => by cases hw
  | @query pid p q k tx c out ws at_ inside ran free =>
    have own := sound.each pid p at_.1
    have old : s.db.Valid tx.writes := writes_some inside ▸ own.valid
    have wrote := Tx.writes_append tx ⟨q, out, ws⟩
    refine sound.resume at_ ?_ ?_ ?_ ?_ ?_
    · simp only [Proc.past, inside, Option.map_some, Past.txAfter, List.map_append,
        List.map_cons, List.map_nil, Done.ran]
    · simp [Proc.past, inside, Past.told]
    · simp only [Option.map_some, Option.getD_some, wrote]
      exact Store.valid_append.mpr ⟨old, M.exec_valid ran⟩
    · rintro tx' ⟨⟩ d hd
      rcases List.mem_append.mp hd with hd | hd
      · exact own.ran tx inside d hd
      · have eq : d = ⟨q, out, ws⟩ := by simpa using hd
        subst eq
        exact ⟨c, _, ran⟩
    · intro qid r other live
      simp only [Option.map_some, Option.getD_some, wrote]
      have held := sound.apart qid r pid p live at_.1 other
      rw [writes_some inside] at held
      exact (Store.Disjoint.append held.symm (free_apart free live other).symm).symm
  | @auto pid p q k t c out ws ans at_ outside ran free told =>
    have one : (⟨t, [⟨q, out, ws⟩]⟩ : Tx V T L).writes = ws := by simp [Tx.writes]
    refine sound.settle at_ ?_ ?_ (one.symm ▸ M.exec_valid ran) ?_
    · rcases told with rfl | ⟨e, rfl⟩
      · simp [Proc.past, outside, Past.txAfter]
      · rfl
    · exact told_auto outside told
    · exact fun qid r other live => one.symm ▸ free_apart free live other
  | @commit pid p k tx ans at_ inside =>
    have own := sound.each pid p at_.1
    refine sound.settle at_ rfl (told_commit inside) (writes_some inside ▸ own.valid) ?_
    exact fun qid r other live => writes_some inside ▸ sound.apart qid r pid p live at_.1 other
  | drop at_ gone =>
    refine sound.resume at_ (txAfter_drop gone _).symm (told_drop gone _) trivial ?_ ?_
    · intro tx' none
      cases none
    · exact fun _ _ _ _ _ _ w hw => by cases hw
  | @env pid p c k reply at_ =>
    have own := sound.each pid p at_.1
    refine sound.resume at_ rfl rfl own.valid own.ran ?_
    exact fun qid r other live => sound.apart qid r pid p live at_.1 other
  | @finish pid p res live ended =>
    unfold State.finish
    have logged : Sound S { s with log := .finished pid p.job res :: s.log } :=
      ⟨fun qid q hq => (sound.each qid q hq).older (sound.each qid q hq).valid
        fun _ he => List.mem_cons_of_mem _ he, sound.apart⟩
    split
    · exact logged.erase fun _ he => he
    · exact logged.launch
  | crash live => exact sound.erase fun _ he => List.mem_cons_of_mem _ he

theorem start_sound (S : Spec M) (db : Store σ) :
    Sound S (State.start db : State σ L T Pid Job Res) := by
  constructor
  · intro pid p live
    cases live
  · intro pid p qid q live
    cases live

theorem reach_sound {cond} {db : Store σ} (S : Spec M) (reach : Reach M cond (.start db) s) :
    Sound S s := by
  induction reach with
  | start => exact start_sound S db
  | next _ step _ ih => exact step_sound ih step

/-- An answered statement ran on the committed rows and its own writes. -/
def Answered (M : Machine σ L T C Pid Job Res) (s : State σ L T Pid Job Res)
    (p : Proc V T L Job Res) : (op : Op L) → op.Ans → Prop
  | .stmt q, .ok out => ∃ t c ws, M.exec q t c (s.db.apply p.writes) = .ok (out, ws)
  | _, _ => True

/-- What stands behind a new log entry. -/
def Noted (S : Spec M) (s : State σ L T Pid Job Res) : Entry L T Pid Job Res → Prop
  | .called pid job op ans => ∃ p, s.procs.lookup pid = some p ∧ p.job = job ∧
      S.allows job p.past op ∧ Answered M s p op ans
  | .finished pid job res => ∃ p, s.procs.lookup pid = some p ∧ p.job = job ∧
      S.ensures job p.past res
  | .applied .. => False
  | _ => True

/-- A unit that becomes durable: a transaction at its commit, or one statement alone. -/
structure Durable (S : Spec M) (s : State σ L T Pid Job Res) (pid : Pid)
    (p : Proc V T L Job Res) (tx : Tx V T L) : Prop where
  live : s.procs.lookup pid = some p
  valid : s.db.Valid tx.writes
  ran : ∀ d ∈ tx.done, ∃ c view, M.exec d.stmt tx.time c view = .ok (d.out, d.writes)
  allowed : (p.tx = some tx ∧ S.allows p.job p.past .commit) ∨
    (p.tx = none ∧ ∃ d c, tx.done = [d] ∧ S.allows p.job p.past (.stmt d.stmt) ∧
      M.exec d.stmt tx.time c s.db = .ok (d.out, d.writes))

inductive Outcome (S : Spec M) (s t : State σ L T Pid Job Res) : Prop where
  | quiet (es : List (Entry L T Pid Job Res)) (db : t.db = s.db) (log : t.log = es ++ s.log)
      (noted : ∀ e ∈ es, Noted S s e)
  | durable (pid : Pid) (p : Proc V T L Job Res) (tx : Tx V T L) (op : Op L) (ans : op.Ans)
      (db : t.db = s.db.apply tx.writes)
      (log : t.log = .called pid p.job op ans ::
        .applied pid p.job tx.time (tx.done.map Done.ran) :: s.log)
      (noted : Noted S s (.called pid p.job op ans)) (unit : Durable S s pid p tx)
      (told : ∀ known ∈ Past.told p.past.tx op ans, known = tx.done.map Done.ran)

theorem allowed_at {pid : Pid} {p : Proc V T L Job Res} {op : Op L} {k} (sound : Sound S s)
    (at_ : s.At pid p op k) : S.allows p.job p.past op := by
  have next := (sound.each pid p at_.1).along
  rw [at_.2] at next
  exact next.1

theorem resume_outcome {pid : Pid} {p : Proc V T L Job Res} {op : Op L} {k} {ans : op.Ans}
    {tx : Option (Tx V T L)} (sound : Sound S s) (at_ : s.At pid p op k)
    (answered : Answered M s p op ans) : Outcome S s (s.resume pid p op k ans tx) := by
  refine .quiet [.called pid p.job op ans] rfl rfl ?_
  intro e he
  have eq : e = .called pid p.job op ans := by simpa using he
  subst eq
  exact ⟨p, at_.1, rfl, allowed_at sound at_, answered⟩

theorem step_outcome (sound : Sound S s) (step : Step M s t) : Outcome S s t := by
  cases step with
  | @spawn pid job idle entry =>
    refine .quiet [.started pid job] rfl rfl ?_
    intro e he
    have eq : e = .started pid job := by simpa using he
    subst eq
    trivial
  | begin at_ => exact resume_outcome sound at_ trivial
  | @query pid p q k tx c out ws at_ inside ran free =>
    exact resume_outcome sound at_ ⟨tx.time, c, ws, writes_some inside ▸ ran⟩
  | @auto pid p q k t c out ws ans at_ outside ran free told =>
    refine .durable pid p ⟨t, [⟨q, out, ws⟩]⟩ (.stmt q) ans rfl rfl ?_ ?_ ?_
    · refine ⟨p, at_.1, rfl, allowed_at sound at_, ?_⟩
      rcases told with rfl | ⟨e, rfl⟩
      · exact ⟨t, c, ws, writes_none outside ▸ ran⟩
      · trivial
    · refine ⟨at_.1, ?_, ?_, .inr ⟨outside, _, c, rfl, allowed_at sound at_, ran⟩⟩
      · have one : (⟨t, [⟨q, out, ws⟩]⟩ : Tx V T L).writes = ws := by simp [Tx.writes]
        exact one.symm ▸ M.exec_valid ran
      · intro d hd
        have eq : d = ⟨q, out, ws⟩ := by simpa using hd
        subst eq
        exact ⟨c, _, ran⟩
    · exact told_auto outside told
  | @commit pid p k tx ans at_ inside =>
    have own := sound.each pid p at_.1
    refine .durable pid p tx .commit ans rfl rfl ⟨p, at_.1, rfl, allowed_at sound at_, trivial⟩ ?_
      (told_commit inside)
    exact ⟨at_.1, writes_some inside ▸ own.valid, own.ran tx inside,
      .inl ⟨inside, allowed_at sound at_⟩⟩
  | drop at_ gone =>
    refine resume_outcome sound at_ ?_
    cases gone <;> trivial
  | env at_ => exact resume_outcome sound at_ trivial
  | @finish pid p res live ended =>
    have ended : Noted S s (.finished pid p.job res) := by
      have last := (sound.each pid p live).along
      rw [ended] at last
      exact ⟨p, live, rfl, last⟩
    unfold State.finish
    split
    · refine .quiet [.finished pid p.job res] rfl rfl ?_
      intro e he
      have eq : e = .finished pid p.job res := by simpa using he
      exact eq ▸ ended
    · rename_i job todo _
      refine .quiet [.started pid job, .finished pid p.job res] rfl rfl ?_
      intro e he
      rcases List.mem_cons.mp he with rfl | he
      · trivial
      · have eq : e = .finished pid p.job res := by simpa using he
        exact eq ▸ ended
  | @crash pid p live =>
    refine .quiet [.crashed pid] rfl rfl ?_
    intro e he
    have eq : e = .crashed pid := by simpa using he
    subst eq
    trivial

/-- Induction over runs for a property of the committed rows and the log. -/
theorem reach_invariant (S : Spec M) {cond} {db : Store σ}
    (good : Store σ → List (Entry L T Pid Job Res) → Prop) (initial : good db [])
    (keeps : ∀ s t, Reach M cond (.start db) s → Sound S s → good s.db s.log → cond s t →
      Outcome S s t → good t.db t.log)
    (reach : Reach M cond (.start db) s) : good s.db s.log := by
  induction reach with
  | start => exact initial
  | next before step ok ih =>
    have sound := reach_sound S before
    exact keeps _ _ before sound ih ok (step_outcome sound step)

end Txn
