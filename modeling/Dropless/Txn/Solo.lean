import Dropless.Txn.Logic

/-! One program on its own. `Does` is what a call can do when nothing else runs, and
`Solo` is a weakest precondition over it: a condition on the committed rows that holds
at every call, so after a failure or a crash at any point, and one on the result. -/
set_option linter.unusedSectionVars false

namespace Txn

variable {V K I : Type} [DecidableEq K] [DecidableEq I] {σ : Schema V K I} {L : Lang}
  {T C Pid Job Res : Type} [DecidableEq Pid] {α β E : Type}

inductive Does (M : Machine σ L T C Pid Job Res) (db : Store σ) :
    Option (Tx V T L) → (op : Op L) → op.Ans → Store σ → Option (Tx V T L) → Prop where
  | begin {tx} (t : T) : Does M db tx .begin (.ok ()) db (some ⟨t, []⟩)
  | query {tx q c out ws} (ran : M.exec q tx.time c (db.apply tx.writes) = .ok (out, ws)) :
      Does M db (some tx) (.stmt q) (.ok out) db (some ⟨tx.time, tx.done ++ [⟨q, out, ws⟩]⟩)
  | auto {q t c out ws ans} (ran : M.exec q t c db = .ok (out, ws))
      (told : ans = .ok out ∨ ∃ e, ans = .error e) :
      Does M db none (.stmt q) ans (db.apply ws) none
  | commit {tx ans} : Does M db (some tx) .commit ans (db.apply tx.writes) none
  | drop {tx op ans} (gone : Drops op ans) : Does M db tx op ans db none
  | env {tx c reply} : Does M db tx (.env c) reply db tx

/-- `safe` holds of the committed rows at every call, and `post` at the end. -/
def Solo (M : Machine σ L T C Pid Job Res) (safe : Store σ → Prop)
    (post : Store σ → Option (Tx V T L) → α → Prop) (db : Store σ) (tx : Option (Tx V T L)) :
    Prog L α → Prop
  | .ret a => post db tx a
  | .call op k => safe db ∧ ∀ ans db' tx', Does M db tx op ans db' tx' →
      Solo M safe post db' tx' (k ans)

variable {M : Machine σ L T C Pid Job Res} {safe : Store σ → Prop} {db : Store σ}
  {tx : Option (Tx V T L)}

section Rules

theorem solo_bind {post : Store σ → Option (Tx V T L) → β → Prop} (p : Prog L α)
    (f : α → Prog L β) : Solo M safe post db tx (p.bind f) ↔
      Solo M safe (fun db tx a => Solo M safe post db tx (f a)) db tx p := by
  induction p generalizing db tx with
  | ret a => rfl
  | call op k ih => simp only [Prog.bind, Solo, ih]

theorem Solo.mono {post post' : Store σ → Option (Tx V T L) → α → Prop} {p : Prog L α}
    (h : Solo M safe post db tx p) (weaker : ∀ db tx a, post db tx a → post' db tx a) :
    Solo M safe post' db tx p := by
  induction p generalizing db tx with
  | ret a => exact weaker db tx a h
  | call op k ih => exact ⟨h.1, fun ans db' tx' does => ih ans (h.2 ans db' tx' does)⟩

/-- For a program with early return: an error may come at any point where `safe` holds. -/
def Tries (M : Machine σ L T C Pid Job Res) (safe : Store σ → Prop) (db : Store σ)
    (tx : Option (Tx V T L)) (x : Fallible L E α) (post : Store σ → Option (Tx V T L) → α → Prop) :
    Prop :=
  Solo M safe (fun db tx (r : Except E α) => safe db ∧ ∀ a, r = .ok a → post db tx a) db tx x

theorem tries_bind {post : Store σ → Option (Tx V T L) → β → Prop} {x : Fallible L E α}
    {f : α → Fallible L E β}
    (h : Tries M safe db tx x fun db tx a => Tries M safe db tx (f a) post) :
    Tries M safe db tx (x >>= f) post := by
  refine (solo_bind x _).mpr (Solo.mono h fun db tx r ends => ?_)
  obtain ⟨ok, next⟩ := ends
  cases r with
  | ok a => exact next a rfl
  | error e =>
    refine ⟨ok, ?_⟩
    intro a none
    cases none

theorem tries_pure {post : Store σ → Option (Tx V T L) → α → Prop} {a : α} (ok : safe db)
    (ends : post db tx a) : Tries M safe db tx (pure a : Fallible L E α) post := by
  refine ⟨ok, ?_⟩
  rintro b ⟨⟩
  exact ends

end Rules

section Reach

def Entry.isStart : Entry L T Pid Job Res → Bool
  | .started _ _ => true
  | _ => false

/-- No step of the run starts a job. -/
def startsNone (_ t : State σ L T Pid Job Res) : Prop := t.log.head?.all (!·.isStart) = true

instance (s t : State σ L T Pid Job Res) : Decidable (startsNone s t) :=
  inferInstanceAs (Decidable (_ = true))

structure Lone (M : Machine σ L T C Pid Job Res) (safe : Store σ → Prop)
    (post : Store σ → Res → Prop) (pid : Pid) (job : Job) (s : State σ L T Pid Job Res) : Prop where
  holds : safe s.db
  live : ∀ qid p, s.procs.lookup qid = some p → qid = pid ∧ p.job = job ∧ p.todo = [] ∧
    Solo M safe (fun db _ res => safe db ∧ post db res) s.db p.tx p.prog ∧
    ∀ res, .finished pid job res ∉ s.log
  ended : ∀ res, .finished pid job res ∈ s.log → post s.db res

variable {post : Store σ → Res → Prop} {pid : Pid} {job : Job} {s t : State σ L T Pid Job Res}

theorem solo_safe {prog : Prog L Res}
    (h : Solo M safe (fun db _ res => safe db ∧ post db res) db tx prog) : safe db := by
  cases prog with
  | ret r => exact h.1
  | call op k => exact h.1

theorem does_of_step {qid : Pid} {p : Proc V T L Job Res} {op : Op L} {k} {ans : op.Ans}
    {db' : Store σ} {tx' : Option (Tx V T L)} {log : List (Entry L T Pid Job Res)}
    (lone : Lone M safe post pid job s) (at_ : s.At qid p op k)
    (does : Does M s.db p.tx op ans db' tx')
    (quiet : ∀ res, .finished pid job res ∈ log → .finished pid job res ∈ s.log) :
    Lone M safe post pid job ⟨db', s.procs.insert qid
      { p with
        prog := k ans, calls := ⟨op, ans⟩ :: p.calls, tx := tx',
        known := Past.told p.past.tx op ans ++ p.known }, log⟩ := by
  obtain ⟨own, same, none, solo, going⟩ := lone.live qid p at_.1
  rw [at_.2] at solo
  have next := solo.2 ans db' tx' does
  refine ⟨solo_safe next, ?_, fun res mem => (going res (quiet res mem)).elim⟩
  intro rid q live
  by_cases here : rid = qid
  · subst here
    obtain rfl := Option.some.inj ((AList.lookup_insert _).symm.trans live)
    exact ⟨own, same, none, next, fun res mem => going res (quiet res mem)⟩
  · have live : s.procs.lookup rid = some q := (AList.lookup_insert_ne here).symm.trans live
    exact (here ((lone.live rid q live).1.trans own.symm)).elim

theorem gone_lone {qid : Pid} {p : Proc V T L Job Res} {log : List (Entry L T Pid Job Res)}
    (lone : Lone M safe post pid job s) (live : s.procs.lookup qid = some p)
    (ended : ∀ res, .finished pid job res ∈ log → post s.db res) :
    Lone M safe post pid job ⟨s.db, s.procs.erase qid, log⟩ := by
  refine ⟨lone.holds, fun rid q still => ?_, ended⟩
  obtain ⟨other, old⟩ := lookup_erased still
  exact (other ((lone.live rid q old).1.trans (lone.live qid p live).1.symm)).elim

theorem step_lone (unfollowed : ∀ res, M.follow job res = []) (lone : Lone M safe post pid job s)
    (step : Step M s t) (none : startsNone s t) : Lone M safe post pid job t := by
  cases step with
  | spawn idle entry => cases none
  | begin at_ => exact does_of_step lone at_ (.begin _) (by simp)
  | query at_ inside ran free => exact does_of_step lone at_ (inside ▸ .query ran) (by simp)
  | @auto qid p q k time c out ws ans at_ outside ran free told =>
    have writes : (⟨time, [⟨q, out, ws⟩]⟩ : Tx V T L).writes = ws := by simp [Tx.writes]
    have does : Does M s.db p.tx (.stmt q) ans (s.db.apply ws) Option.none :=
      outside ▸ .auto ran told
    rw [← writes] at does
    exact does_of_step (s := s) lone at_ does (by simp [State.settle])
  | commit at_ inside => 
    exact does_of_step (s := s) lone at_ (inside ▸ .commit) (by simp [State.settle])
  | drop at_ gone => exact does_of_step lone at_ (.drop gone) (by simp)
  | env at_ => exact does_of_step lone at_ .env (by simp)
  | @finish qid p res live ended =>
    obtain ⟨own, same, idle, solo, going⟩ := lone.live qid p live
    rw [ended] at solo
    subst own same
    unfold State.finish
    rw [unfollowed res, idle]
    refine gone_lone (s := s) lone live fun other mem => ?_
    rcases List.mem_cons.mp mem with eq | old
    · cases eq
      exact solo.2
    · exact (going other old).elim
  | @crash qid p live =>
    refine gone_lone lone live fun res mem => ?_
    rcases List.mem_cons.mp mem with eq | old
    · cases eq
    · exact lone.ended res old

/-- Every state of a run in which nothing else is started. -/
theorem solo_reach (unfollowed : ∀ res, M.follow job res = [])
    (solo : Solo M safe (fun db _ res => safe db ∧ post db res) db none (M.prog job))
    (reach : Reach M startsNone ((State.start db).launch M pid job []) t) :
    safe t.db ∧ ∀ res, .finished pid job res ∈ t.log → post t.db res := by
  have lone : Lone M safe post pid job t := by
    induction reach with
    | start =>
      refine ⟨solo_safe solo, ?_, by simp [State.launch, State.start]⟩
      intro qid p live
      by_cases here : qid = pid
      · subst here
        obtain rfl := Option.some.inj ((AList.lookup_insert _).symm.trans live)
        exact ⟨rfl, rfl, rfl, solo, by simp [State.launch, State.start]⟩
      · have live := (AList.lookup_insert_ne here).symm.trans live
        cases live
    | next _ step none ih => exact step_lone unfollowed ih step none
  exact ⟨lone.holds, lone.ended⟩

end Reach

end Txn
