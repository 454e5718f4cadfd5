import Dropless.Txn.Logic

namespace Txn

variable {V K I : Type} [DecidableEq K] [DecidableEq I] {σ : Schema V K I} {L : Lang}
  {T C Pid Job Res : Type} [DecidableEq Pid]

/-- `go` makes the next call of a process succeed, or ends its job. -/
inductive Move (L : Lang) (T C Pid Job : Type) where
  | spawn (pid : Pid) (job : Job)
  | go (pid : Pid) (time : T) (choice : C) (answer : (c : L.Call) → L.Reply c)
  | crash (pid : Pid)

variable (M : Machine σ L T C Pid Job Res)

def advance (s : State σ L T Pid Job Res) (pid : Pid) (p : Proc V T L Job Res) (time : T)
    (choice : C) (answer : (c : L.Call) → L.Reply c) :
    Prog L Res → Option (State σ L T Pid Job Res)
  | .ret res => some (s.finish M pid p res)
  | .call .begin k => some (s.resume pid p .begin k (.ok ()) (some ⟨time, []⟩))
  | .call .commit k => p.tx.map fun tx =>
      (s.settle pid p.job tx).resume pid p .commit k (.ok ()) none
  | .call .rollback k => some (s.resume pid p .rollback k (.ok ()) none)
  | .call (.env c) k => some (s.resume pid p (.env c) k (answer c) p.tx)
  | .call (.stmt q) k =>
    match p.tx with
    | some tx =>
      match M.exec q tx.time choice (s.db.apply tx.writes) with
      | .ok (out, ws) =>
        if s.Free pid ws then
          some (s.resume pid p (.stmt q) k (.ok out) (some ⟨tx.time, tx.done ++ [⟨q, out, ws⟩]⟩))
        else none
      | .error _ => none
    | none =>
      match M.exec q time choice s.db with
      | .ok (out, ws) =>
        if s.Free pid ws then
          some ((s.settle pid p.job ⟨time, [⟨q, out, ws⟩]⟩).resume pid p (.stmt q) k (.ok out) none)
        else none
      | .error _ => none

def act (s : State σ L T Pid Job Res) : Move L T C Pid Job → Option (State σ L T Pid Job Res)
  | .spawn pid job =>
    match s.procs.lookup pid with
    | none => if M.entry pid job then some (s.launch M pid job []) else none
    | some _ => none
  | .go pid time choice answer =>
    match s.procs.lookup pid with
    | none => none
    | some p => advance M s pid p time choice answer p.prog
  | .crash pid =>
    match s.procs.lookup pid with
    | none => none
    | some _ => some (s.crash pid)

variable {M} {s t : State σ L T Pid Job Res}

theorem advance_step {pid : Pid} {p : Proc V T L Job Res} {time : T} {choice : C}
    {answer : (c : L.Call) → L.Reply c} {prog : Prog L Res} (live : s.procs.lookup pid = some p)
    (head : p.prog = prog) (h : advance M s pid p time choice answer prog = some t) :
    Step M s t := by
  cases prog with
  | ret res =>
    cases h
    exact .finish live head
  | call op k =>
    have at_ : s.At pid p op k := ⟨live, head⟩
    cases op with
    | begin =>
      cases h
      exact .begin at_
    | commit =>
      obtain ⟨tx, inside, rfl⟩ := Option.map_eq_some_iff.mp h
      exact .commit at_ inside
    | rollback =>
      cases h
      exact .drop at_ (.rollback _)
    | env c =>
      cases h
      exact .env at_
    | stmt q =>
      simp only [advance] at h
      split at h
      · rename_i tx inside
        split at h
        · rename_i out ws ran
          split at h
          · rename_i free
            cases h
            exact .query at_ inside ran free
          · cases h
        · cases h
      · rename_i outside
        split at h
        · rename_i out ws ran
          split at h
          · rename_i free
            cases h
            exact .auto at_ outside ran free (.inl rfl)
          · cases h
        · cases h

theorem act_step {m : Move L T C Pid Job} (h : act M s m = some t) : Step M s t := by
  cases m with
  | spawn pid job =>
    simp only [act] at h
    split at h
    · rename_i idle
      split at h
      · rename_i entry
        cases h
        exact .spawn idle entry
      · cases h
    · cases h
  | go pid time choice answer =>
    simp only [act] at h
    split at h
    · cases h
    · rename_i p live
      exact advance_step live rfl h
  | crash pid =>
    simp only [act] at h
    split at h
    · cases h
    · rename_i p live
      cases h
      exact .crash live

variable (M)

/-- Play the moves, with a check on every step. -/
def play (check : State σ L T Pid Job Res → State σ L T Pid Job Res → Bool)
    (s : State σ L T Pid Job Res) : List (Move L T C Pid Job) → Option (State σ L T Pid Job Res)
  | [] => some s
  | m :: ms =>
    match act M s m with
    | none => none
    | some t => if check s t then play check t ms else none

variable {M}

theorem play_reach {check : State σ L T Pid Job Res → State σ L T Pid Job Res → Bool}
    {cond : State σ L T Pid Job Res → State σ L T Pid Job Res → Prop}
    (sound : ∀ a b, check a b = true → cond a b) {ms : List (Move L T C Pid Job)}
    (h : play M check s ms = some t) : Reach M cond s t := by
  induction ms generalizing s with
  | nil =>
    cases h
    exact .start
  | cons m ms ih =>
    simp only [play] at h
    split at h
    · cases h
    · rename_i u moved
      split at h
      · rename_i ok
        exact (Reach.next .start (act_step moved) (sound s u ok)).trans (ih h)
      · cases h

end Txn
