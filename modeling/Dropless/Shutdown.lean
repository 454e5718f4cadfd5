import Mathlib.Data.List.TakeWhile
import Dropless.Resolution
import Dropless.Worker

namespace Dropless

open Txn (Reach)
open Dispatcher (Pass)

abbrev LoopOp := Txn.Op loopLang
abbrev LoopCalls := List (Σ op : LoopOp, op.Ans)
abbrev LoopState := Txn.State schema loopLang Time Pid Task Ended
abbrev LoopEntry := Txn.Entry loopLang Time Pid Task Ended

def waits : LoopOp → Bool
  | .env (.inr _) => true
  | _ => false

/- What starts something: a claim, or a request. -/
def heavy : LoopOp → Bool
  | .stmt (.claimDueDeliveries ..) => true
  | .env (.inl (.post _)) => true
  | _ => false

def look : (Σ op : LoopOp, op.Ans) → Option Bool
  | ⟨.env (.inr .borrow), flag⟩ => some flag
  | _ => none

def lastSeen (calls : LoopCalls) : Option Bool := calls.findSome? look

def recent (calls : LoopCalls) : LoopCalls := calls.takeWhile fun c => (look c).isNone

section Rule

variable {κ : Prims} {cfg : DispatcherConfig} {w : String} {d : Delivery} {α : Type}

/-- Every call but a wait follows a look that found the flag down, and at most one claim or
request follows one look. -/
def Looks (past : Txn.Past loopLang) (op : LoopOp) : Prop :=
  (waits op = false → lastSeen past.calls = some false) ∧
    (heavy op = true → ∀ c ∈ recent past.calls, heavy c.1 = false)

theorem looks_wait {past : Txn.Past loopLang} (x : Wait) : Looks past (.env (.inr x)) := by
  constructor
  · intro other
    cases other
  · intro heavily
    cases heavily

theorem look_up (op : Op) (ans : (op.up : LoopOp).Ans) : look ⟨op.up, ans⟩ = none := by
  cases op <;> rfl

/- A program of the engine, run after a look that found the flag down. -/
theorem along_up {x : Prog α} {f : α → Txn.Prog loopLang Ended} {past : Txn.Past loopLang}
    (down : lastSeen past.calls = some false)
    (free : (∀ c ∈ recent past.calls, heavy c.1 = false) ∨
      ∀ op k, heavy op.up = true → ¬ Txn.Makes op k x)
    (once : ∀ op k ans op' k', heavy op.up = true → Txn.Makes op k x → heavy op'.up = true →
      ¬ Txn.Makes op' k' (k ans))
    (rest : ∀ a past, Txn.Along Looks (fun _ _ => True) past (f a)) :
    Txn.Along Looks (fun _ _ => True) past (x.up.bind f) := by
  induction x generalizing past with
  | ret a => exact rest a past
  | call op k ih =>
    refine ⟨⟨fun _ => down, fun heavily => ?_⟩, fun ans => ih (op.down ans) ?_ ?_ ?_⟩
    · rcases free with free | never
      · exact free
      · exact (never op k heavily .here).elim
    · simpa only [Txn.Past.after, lastSeen, List.findSome?_cons, look_up] using down
    · cases heavily : heavy (op.up : LoopOp) with
      | true => exact .inr fun op' k' => once op k (op.down ans) op' k' heavily .here
      | false =>
        rcases free with free | never
        · refine .inl fun c mem => ?_
          simp only [Txn.Past.after, recent, List.takeWhile_cons, look_up, Option.isNone_none] at mem
          rcases List.mem_cons.mp mem with rfl | mem
          · exact heavily
          · exact free c mem
        · exact .inr fun op' k' heavily made => never op' k' heavily (.later _ made)
    · exact fun op₁ k₁ ans₁ op' k' heavily made =>
        once op₁ k₁ ans₁ op' k' heavily (.later _ made)

theorem heavy_up {op : Op} (h : heavy op.up = true) :
    (∃ w size lock, op = .stmt (.claimDueDeliveries w size lock)) ∨ ∃ req, op = .env (.post req) := by
  cases op with
  | stmt q =>
    cases q with
    | claimDueDeliveries w size lock => exact .inl ⟨w, size, lock, rfl⟩
    | _ => cases h
  | env c =>
    cases c with
    | post req => exact .inr ⟨req, rfl⟩
    | _ => cases h
  | _ => cases h

theorem processOne_unclaiming {w' : String} {size : Int} {lock : Int32} {k} :
    ¬ Txn.Makes (.stmt (.claimDueDeliveries w' size lock) : Op) k
      (Dispatcher.processOne κ cfg w d).run := by
  intro made
  have rule : Txn.Runs (allows κ cfg (.processOne w d)) .start
      (Dispatcher.processOne κ cfg w d) fun _ _ => True := Dispatcher.runs_processOne
  obtain ⟨now, allowed⟩ := Txn.Along.made rule made
  simp only [allows] at allowed
  split at allowed
  · cases allowed
  · exact allowed

theorem processOne_once (op : Op) (k ans) (op' : Op) (k') (heavily : heavy op.up = true)
    (made : Txn.Makes op k (Dispatcher.processOne κ cfg w d).run) (heavily' : heavy op'.up = true) :
    ¬ Txn.Makes op' k' (k ans) := by
  intro again
  rcases heavy_up heavily with ⟨_, _, _, rfl⟩ | ⟨req, rfl⟩
  · exact processOne_unclaiming made
  · rcases heavy_up heavily' with ⟨_, _, _, rfl⟩ | ⟨req', rfl⟩
    · exact processOne_unclaiming (made.trans again)
    · obtain ⟨e, started, rfl⟩ := processOne_posts made
      obtain ⟨finished, after⟩ := makes_after again quiet_utcNow
      exact quiet_resolve _ _ after

theorem along_remaining (ds : List Delivery) (past : Txn.Past loopLang) :
    Txn.Along Looks (fun _ _ => True) past (remaining κ cfg w ds) := by
  induction ds generalizing past with
  | nil => trivial
  | cons d ds ih =>
    rw [remaining_cons]
    refine ⟨looks_wait .borrow, fun flag => ?_⟩
    cases flag with
    | true => trivial
    | false => exact along_up rfl (.inl fun c none => nomatch none) processOne_once fun _ => ih

theorem along_task (w : String) :
    Txn.Along Looks (fun _ _ => True) .start (task κ cfg (.runWorker w)) := by
  rw [task_runWorker]
  refine ⟨looks_wait .borrow, fun flag => ?_⟩
  cases flag with
  | true => trivial
  | false =>
    refine ⟨⟨fun _ => rfl, fun _ c none => nomatch none⟩, fun r => ?_⟩
    match r with
    | .error e => exact ⟨looks_wait .sleepOrShutdown, fun _ => trivial⟩
    | .ok [] => exact ⟨looks_wait .idle, fun _ => trivial⟩
    | .ok (d :: ds) => exact along_remaining (d :: ds) _

def looking (κ : Prims) (cfg : DispatcherConfig) : Txn.Spec (server κ cfg) where
  allows
    | .runWorker _, past, op => Looks past op
    | .run _, _, _ => True
  ensures _ _ _ := True
  along
    | .runWorker w => along_task w
    | .run _ => Txn.along_any (fun _ _ => trivial) (fun _ _ => trivial) _ _

end Rule

section Drain

variable {κ : Prims} {cfg : DispatcherConfig} {s t : LoopState} {db : Db} {pid : Pid}
  {p : LoopProc}

def lowered : LoopEntry → Bool
  | .called _ _ (.env (.inr .borrow)) flag => !flag
  | _ => false

/-- Steps of a server whose flag is up: every look finds it so, and no worker is started. -/
structure FlagUp (a b : LoopState) : Prop where
  seen : ∀ e ∈ Txn.since a b, lowered e = false
  unstarted : ∀ process i, a.procs.lookup (.worker process i) = none →
    b.procs.lookup (.worker process i) = none

theorem lastSeen_none {c : Σ op : LoopOp, op.Ans} (calls : LoopCalls) (h : look c = none) :
    lastSeen (c :: calls) = lastSeen calls ∧ recent (c :: calls) = c :: recent calls := by
  simp [lastSeen, recent, h]

theorem look_some {c : Σ op : LoopOp, op.Ans} {flag : Bool} (h : look c = some flag) :
    c = ⟨.env (.inr .borrow), flag⟩ := by
  unfold look at h
  split at h
  · cases h
    rfl
  · cases h

theorem recent_unseen {calls : LoopCalls} {c : Σ op : LoopOp, op.Ans} (mem : c ∈ recent calls) :
    look c = none :=
  Option.isNone_iff_eq_none.mp (List.mem_takeWhile_imp (p := fun c => (look c).isNone) mem)

/-- Once the flag is up, whoever has last seen it down saw it before; all that its process
did since follows that look. -/
theorem recent_since (later : Reach (server κ cfg) FlagUp s t)
    (live : t.procs.lookup pid = some p) (down : lastSeen p.calls = some false) :
    ∀ job op ans, .called pid job op ans ∈ Txn.since s t →
      (⟨op, ans⟩ : Σ op : LoopOp, op.Ans) ∈ recent p.calls := by
  induction later generalizing p with
  | start =>
    intro job op ans mem
    rw [Txn.since_self] at mem
    cases mem
  | @next a b mid step up ih =>
    obtain ⟨new, log, moved⟩ := Txn.step_moved step live
    rw [Txn.since_trans mid (.next .start step up), Txn.since_eq log]
    intro job op ans mem
    cases moved with
    | same old others =>
      rcases List.mem_append.mp mem with fresh | mem
      · exact (others _ fresh rfl).elim
      · exact ih old down job op ans mem
    | @called q op' ans' old _ _ calls written _ =>
      have head : (.called pid q.job op' ans' : LoopEntry) ∈ new := by
        rcases written with rfl | ⟨_, _, rfl⟩ <;> exact List.mem_cons_self
      cases seen : look ⟨op', ans'⟩ with
      | some flag =>
        cases look_some seen
        have raised := up.seen _ (Txn.since_eq log ▸ head)
        simp only [lowered, Bool.not_eq_false'] at raised
        rw [calls, lastSeen, List.findSome?_cons, seen, raised] at down
        cases down
      | none =>
        obtain ⟨last, rest⟩ := lastSeen_none q.calls seen
        rw [calls, last] at down
        rw [calls, rest]
        rcases List.mem_append.mp mem with fresh | mem
        · have same : (.called pid job op ans : LoopEntry) = .called pid q.job op' ans' := by
            rcases written with rfl | ⟨_, _, rfl⟩
            · exact List.mem_singleton.mp fresh
            · rcases List.mem_cons.mp fresh with same | none
              · exact same
              · cases List.mem_singleton.mp none
          cases same
          exact List.mem_cons_self
        · exact List.mem_cons_of_mem _ (ih old down job op ans mem)
    | spawned _ _ calls =>
      rw [calls] at down
      cases down
    | followed _ _ _ calls =>
      rw [calls] at down
      cases down

def callOf (pid : Pid) : LoopEntry → Option (Σ op : LoopOp, op.Ans)
  | .called pid' _ op ans => if pid' = pid then some ⟨op, ans⟩ else none
  | _ => none

def callsOf (pid : Pid) (log : List LoopEntry) : LoopCalls := log.filterMap (callOf pid)

theorem callOf_some {e : LoopEntry} {c : Σ op : LoopOp, op.Ans} (h : callOf pid e = some c) :
    ∃ job, e = .called pid job c.1 c.2 := by
  unfold callOf at h
  split at h
  · split at h
    · rename_i job op ans same
      subst same
      cases h
      exact ⟨job, rfl⟩
    · cases h
  · cases h

/-- What a worker calls next, when it is no wait, comes after no look and after no other claim
or request since the flag went up. -/
theorem called_since (before : Reach (server κ cfg) Txn.anyStep (.start db) s)
    (later : Reach (server κ cfg) FlagUp s t) {process i : Nat} {w : String} {op : LoopOp} {k}
    (at_ : t.At (.worker process i) p op k) (job : p.job = .runWorker w) (work : waits op = false) :
    (∀ c ∈ callsOf (.worker process i) (Txn.since s t), look c = none) ∧
      (heavy op = true → ∀ c ∈ callsOf (.worker process i) (Txn.since s t), heavy c.1 = false) := by
  have reach := before.trans (later.weaken fun _ _ _ => trivial)
  have rule := Txn.allowed_at (Txn.reach_sound (looking κ cfg) reach) at_
  rw [job] at rule
  obtain ⟨down, once⟩ := rule
  have all : ∀ c ∈ callsOf (.worker process i) (Txn.since s t), c ∈ recent p.calls := by
    intro c mem
    obtain ⟨e, here, eq⟩ := List.mem_filterMap.mp mem
    obtain ⟨job', rfl⟩ := callOf_some eq
    exact recent_since later at_.1 (down work) job' c.1 c.2 here
  exact ⟨fun c mem => recent_unseen (all c mem), fun heavily c mem => once heavily c (all c mem)⟩

def looked (calls : LoopCalls) : LoopCalls := calls.filter fun c => (look c).isSome

/-- Where a worker can be after some looks at the raised flag. -/
inductive Leaving (top : Txn.Prog loopLang Ended) : Option LoopProc → Nat → Prop where
  | gone {n : Nat} (few : n ≤ 2) : Leaving top none n
  | unaware {p : LoopProc} : Leaving top (some p) 0
  | around {p : LoopProc} (prog : p.prog = top) : Leaving top (some p) 1
  | passed {p : LoopProc} {pass : Pass} (prog : p.prog = .ret (.passed pass)) :
      Leaving top (some p) 1
  | stopping {p : LoopProc} (prog : p.prog = .ret (.passed .stop)) : Leaving top (some p) 2

/-- What a worker has done since the flag went up. -/
structure Drained (κ : Prims) (cfg : DispatcherConfig) (i : Nat) (calls : LoopCalls)
    (o : Option LoopProc) : Prop where
  started : (calls.filter fun c => heavy c.1).length ≤ 1
  after : ∀ pre c post, calls = pre ++ c :: post → (look c).isSome = true →
    ∀ x ∈ pre, waits x.1 = true
  leaving : Leaving (task κ cfg (.runWorker (workerId i))) o (looked calls).length

variable {process i : Nat}

theorem reach_place (reach : Reach (server κ cfg) Txn.anyStep (.start db) s)
    (live : s.procs.lookup (.worker process i) = some p) :
    p.job = .runWorker (workerId i) ∧ p.todo = [] ∧ ∃ o, Place κ cfg (workerId i) p o := by
  obtain ⟨_, _, below⟩ := Txn.reach_follows server_follows reach
  have here := below.each (.worker process i)
  rw [live] at here
  cases here with
  | worker _ name job todo place =>
    subst name
    exact ⟨job, todo, _, place⟩

/- Only a pass that has looked around ends, and a look at the raised flag ends the pass. -/
theorem place_call {w : String} {o : Option Proc} {op : LoopOp} {k} (place : Place κ cfg w p o)
    (head : p.prog = .call op k) :
    (∀ ans, look ⟨op, ans⟩ = none) ∨
      ∃ (eq : op = .env (.inr .borrow)) (pass : Pass), k (eq ▸ true) = .ret (.passed pass) ∧
        (p.prog = task κ cfg (.runWorker w) → pass = .stop) := by
  cases place with
  | resting prog =>
    generalize whole : p.prog = prog' at prog head
    cases prog with
    | top =>
      have eq := task_runWorker κ cfg w
      rw [head] at eq
      cases eq
      exact .inr ⟨rfl, .stop, rfl, fun _ => rfl⟩
    | sleeping =>
      cases head
      exact .inl fun _ => rfl
    | idling =>
      cases head
      exact .inl fun _ => rfl
    | ended => cases head
  | claiming prog =>
    cases prog.symm.trans head
    exact .inl fun _ => rfl
  | between prog =>
    rw [remaining_cons] at prog
    cases prog.symm.trans head
    refine .inr ⟨rfl, .next, rfl, fun top => ?_⟩
    rw [prog, task_runWorker] at top
    have eq := congrFun (eq_of_heq (Txn.Prog.call.inj top).2) true
    cases eq
  | @working _ _ _ op' _ prog =>
    cases prog.symm.trans head
    exact .inl fun ans => look_up op' ans

theorem place_ended {w : String} {o : Option Proc} {res : Ended} (place : Place κ cfg w p o)
    (ended : p.prog = .ret res) : ∃ pass, res = .passed pass := by
  cases place with
  | resting prog =>
    rw [ended] at prog
    cases prog
    exact ⟨_, rfl⟩
  | claiming prog => cases prog.symm.trans ended
  | between prog => cases prog.symm.trans ended
  | working prog => cases prog.symm.trans ended

variable {top : Txn.Prog loopLang Ended} {o : Option LoopProc} {n : Nat} {calls : LoopCalls}

theorem Leaving.few (leaving : Leaving top o n) : n ≤ 2 := by
  cases leaving with
  | gone few => exact few
  | _ => decide

theorem heavy_works {op : LoopOp} (h : heavy op = true) : waits op = false := by
  cases op with
  | env c =>
    cases c with
    | inl c => rfl
    | inr x => cases h
  | _ => rfl

theorem Drained.called (drained : Drained κ cfg i calls (some p)) {op : LoopOp} {k} {ans : op.Ans}
    {tx : Option (Txn.Tx Row Time loopLang)} (head : p.prog = .call op k) {o : Option Proc}
    (place : Place κ cfg (workerId i) p o) (raised : look ⟨op, ans⟩ ≠ some false)
    (unseen : waits op = false → ∀ c ∈ calls, look c = none)
    (once : heavy op = true → ∀ c ∈ calls, heavy c.1 = false) :
    Drained κ cfg i (⟨op, ans⟩ :: calls) (some (p.resumed op k ans tx)) := by
  constructor
  · cases heavily : heavy op with
    | false => simpa [heavily] using drained.started
    | true =>
      have none : (calls.filter fun c => heavy c.1) = [] := by
        refine List.filter_eq_nil_iff.mpr fun c mem yes => ?_
        cases (once heavily c mem).symm.trans yes
      simp [heavily, none]
  · intro pre c post eq seen x mem
    cases pre with
    | nil => cases mem
    | cons y pre =>
      obtain ⟨rfl, rest⟩ := List.cons.inj eq
      rcases List.mem_cons.mp mem with rfl | mem
      · by_contra work
        have mem : c ∈ calls := rest ▸ List.mem_append_right _ List.mem_cons_self
        rw [unseen (Bool.eq_false_iff.mpr work) c mem] at seen
        cases seen
      · exact drained.after pre c post rest seen x mem
  · have leaving := drained.leaving
    rcases place_call place head with unlooked | ⟨rfl, pass, ends, first⟩
    · have same : looked (⟨op, ans⟩ :: calls) = looked calls := by
        simp [looked, unlooked ans]
      rw [same]
      generalize (looked calls).length = n at leaving
      cases leaving with
      | unaware => exact .unaware
      | around prog =>
        rw [task_runWorker] at prog
        cases prog.symm.trans head
        cases unlooked ans
      | passed prog => cases prog.symm.trans head
      | stopping prog => cases prog.symm.trans head
    · obtain rfl : ans = true := by
        cases ans with
        | true => rfl
        | false => exact (raised rfl).elim
      have more : (looked (⟨.env (.inr .borrow), true⟩ :: calls)).length =
          (looked calls).length + 1 := rfl
      rw [more]
      generalize (looked calls).length = n at leaving
      cases leaving with
      | unaware => exact .passed ends
      | around prog =>
        obtain rfl := first prog
        exact .stopping ends
      | passed prog => cases prog.symm.trans head
      | stopping prog => cases prog.symm.trans head

theorem Drained.finished (drained : Drained κ cfg i calls (some p)) {res : Ended}
    (ended : p.prog = .ret res) {o : Option Proc} (place : Place κ cfg (workerId i) p o)
    (job : p.job = .runWorker (workerId i)) (todo : p.todo = []) :
    Drained κ cfg i calls ((server κ cfg).after p res) := by
  obtain ⟨pass, rfl⟩ := place_ended place ended
  have after : (server κ cfg).after p (.passed pass) = match pass with
      | .stop => none
      | .next => some ((server κ cfg).fresh (.runWorker (workerId i)) []) := by
    rw [Txn.Machine.after, job, todo]
    cases pass <;> rfl
  refine { drained with leaving := ?_ }
  rw [after]
  have leaving := drained.leaving
  cases pass with
  | stop => exact .gone leaving.few
  | next =>
    generalize (looked calls).length = n at leaving
    cases leaving with
    | unaware => exact .unaware
    | around prog =>
      rw [task_runWorker] at prog
      cases prog.symm.trans ended
    | passed prog => exact .around rfl
    | stopping prog => cases prog.symm.trans ended

theorem callsOf_since {mid end_ : LoopState} {new : List LoopEntry}
    (first : Reach (server κ cfg) FlagUp s mid) (step : Txn.Step (server κ cfg) mid end_)
    (up : FlagUp mid end_) (log : end_.log = new ++ mid.log) (pid : Pid) :
    callsOf pid (Txn.since s end_) = callsOf pid new ++ callsOf pid (Txn.since s mid) := by
  rw [Txn.since_trans first (.next .start step up), Txn.since_eq log, callsOf, callsOf, callsOf,
    List.filterMap_append]

theorem answers_quiet {op : LoopOp} {ans : op.Ans} {tx db new} (pid qid : Pid)
    (answers : Txn.Answers (server κ cfg) s qid p op ans tx db new) : callsOf pid new = [] := by
  cases answers <;> rfl

theorem step_drained (before : Reach (server κ cfg) Txn.anyStep (.start db) s)
    (first : Reach (server κ cfg) FlagUp s t) {u : LoopState} (step : Txn.Step (server κ cfg) t u)
    (up : FlagUp t u)
    (drained : Drained κ cfg i (callsOf (.worker process i) (Txn.since s t))
      (t.procs.lookup (.worker process i))) :
    Drained κ cfg i (callsOf (.worker process i) (Txn.since s u))
      (u.procs.lookup (.worker process i)) := by
  have reach := before.trans (first.weaken fun _ _ _ => trivial)
  have calls : ∀ new, u.log = new ++ t.log → callsOf (.worker process i) (Txn.since s u) =
      callsOf (.worker process i) new ++ callsOf (.worker process i) (Txn.since s t) :=
    fun new log => callsOf_since first step up log _
  cases Txn.step_taken step with
  | @spawn qid job idle entry =>
    rw [calls [_] rfl, show callsOf (.worker process i) [.started qid job] = [] from rfl]
    by_cases same : Pid.worker process i = qid
    · subst same
      have none := up.unstarted process i idle
      rw [Txn.State.launch, AList.lookup_insert] at none
      cases none
    · rw [(Txn.launch_elsewhere (M := server κ cfg) qid job []).others _ same]
      exact drained
  | @call qid p op k ans tx db' new at_ answers =>
    rw [calls (.called qid p.job op ans :: new) rfl, callsOf, List.filterMap_cons]
    have rest := answers_quiet (.worker process i) qid answers
    rw [callsOf] at rest
    by_cases same : Pid.worker process i = qid
    · subst same
      obtain ⟨job, _, o, place⟩ := reach_place reach at_.1
      simp only [callOf, if_pos, rest, AList.lookup_insert, List.cons_append, List.nil_append]
      rw [at_.1] at drained
      refine drained.called at_.2 place ?_ ?_ ?_
      · intro seen
        cases look_some seen
        refine Bool.noConfusion
          (up.seen (.called (.worker process i) p.job (.env (.inr .borrow)) false) ?_)
        rw [Txn.since_eq (show _ = (_ :: new) ++ t.log from rfl)]
        exact List.mem_cons_self
      · exact fun work => (called_since before first at_ job work).1
      · exact fun heavily => (called_since before first at_ job (heavy_works heavily)).2 heavily
    · simp only [callOf, if_neg (Ne.symm same), rest, List.nil_append]
      rw [AList.lookup_insert_ne same]
      exact drained
  | @finish qid p res live ended =>
    obtain ⟨elsewhere, next⟩ := Txn.finish_elsewhere (M := server κ cfg) (s := t) qid p res
    have quiet : callsOf (.worker process i) (Txn.since s (t.finish (server κ cfg) qid p res)) =
        callsOf (.worker process i) (Txn.since s t) := by
      obtain ⟨new, log⟩ := Txn.step_log step
      rw [calls new log]
      unfold Txn.State.finish at log
      split at log
      · obtain rfl := List.append_cancel_right (show [_] ++ t.log = new ++ t.log from log)
        rfl
      · obtain rfl := List.append_cancel_right (show [_, _] ++ t.log = new ++ t.log from log)
        rfl
    rw [quiet]
    by_cases same : Pid.worker process i = qid
    · subst same
      obtain ⟨job, todo, o, place⟩ := reach_place reach live
      rw [next]
      rw [live] at drained
      exact drained.finished ended place job todo
    · rw [elsewhere.others _ same]
      exact drained
  | @crash qid p live =>
    rw [calls [_] rfl, show callsOf (.worker process i) [.crashed qid] = [] from rfl]
    by_cases same : Pid.worker process i = qid
    · subst same
      rw [Txn.State.crash, AList.lookup_erase]
      exact { drained with leaving := .gone drained.leaving.few }
    · rw [(Txn.crash_elsewhere qid).others _ same]
      exact drained

theorem reach_drained (before : Reach (server κ cfg) Txn.anyStep (.start db) s)
    (later : Reach (server κ cfg) FlagUp s t) (process i : Nat) :
    Drained κ cfg i (callsOf (.worker process i) (Txn.since s t))
      (t.procs.lookup (.worker process i)) := by
  induction later with
  | start =>
    rw [Txn.since_self]
    refine ⟨Nat.zero_le _, fun pre c post none => ?_, ?_⟩
    · cases pre <;> cases none
    · cases s.procs.lookup (.worker process i) with
      | none => exact .gone (Nat.zero_le _)
      | some p => exact .unaware
  | next mid step up ih => exact step_drained before mid step up ih

end Drain

/-- Once the shutdown flag is up, a worker makes at most one more claim or request, and no call
at all after it has looked at the flag; it looks at most twice, and then it is gone or has
nothing left but to stop. -/
theorem graceful_shutdown (κ : Prims) (cfg : DispatcherConfig) (db : Db) (s t : LoopState)
    (process i : Nat) (calls : LoopCalls)
    (run : Reach (server κ cfg) Txn.anyStep (.start db) s)
    (later : Reach (server κ cfg) FlagUp s t)
    (made : callsOf (.worker process i) (Txn.since s t) = calls) :
    (calls.filter fun c => heavy c.1).length ≤ 1 ∧
    (∀ pre c post, calls = pre ++ c :: post → (look c).isSome = true →
      ∀ x ∈ pre, waits x.1 = true) ∧
    (looked calls).length ≤ 2 ∧
    ((looked calls).length = 2 → ∀ p, t.procs.lookup (.worker process i) = some p →
      p.prog = .ret (.passed .stop)) := by
  subst made
  have drained := reach_drained run later process i
  refine ⟨drained.started, drained.after, drained.leaving.few, fun two p live => ?_⟩
  have leaving := drained.leaving
  rw [live, two] at leaving
  cases leaving with
  | stopping prog => exact prog

section Replay

def flagUp (a b : LoopState) : Bool :=
  (Txn.since a b).all (fun e => !lowered e) && b.procs.keys.all fun pid => pid ∈ a.procs.keys

theorem flagUp_sound (a b : LoopState) (h : flagUp a b = true) : FlagUp a b := by
  obtain ⟨seen, live⟩ := Bool.and_eq_true_iff.mp h
  refine ⟨fun e mem => ?_, fun process i idle => ?_⟩
  · simpa using List.all_eq_true.mp seen e mem
  · refine AList.lookup_eq_none.mpr fun there => ?_
    have here := of_decide_eq_true (List.all_eq_true.mp live _ (AList.mem_keys.mp there))
    exact AList.lookup_eq_none.mp idle (AList.mem_keys.mpr here)

theorem graceful_shutdown_batch : ∃ (s t : LoopState) (calls : LoopCalls),
    Reach (server plain Dispatcher.default) Txn.anyStep (.start .empty) s ∧
    Reach (server plain Dispatcher.default) FlagUp s t ∧
    callsOf (.worker 0 0) (Txn.since s t) = calls ∧ calls.length = 9 ∧
    (calls.filter fun c => heavy c.1).length ≤ 1 ∧ (looked calls).length = 2 ∧
    t.procs.lookup (.worker 0 0) = none := by
  have played : ((Txn.play (server plain Dispatcher.default) (fun _ _ => true) (.start .empty)
      stoppedMidBatch.1).bind fun s => (Txn.play (server plain Dispatcher.default) flagUp s
        stoppedMidBatch.2).map fun t => ((callsOf (.worker 0 0) (Txn.since s t)).length,
          (looked (callsOf (.worker 0 0) (Txn.since s t))).length,
          (t.procs.lookup (.worker 0 0)).isSome)) = some (9, 2, false) := by decide +kernel
  obtain ⟨s, first, rest⟩ := Option.bind_eq_some_iff.mp played
  obtain ⟨t, second, eq⟩ := Option.map_eq_some_iff.mp rest
  simp only [Prod.mk.injEq, Option.isSome_eq_false_iff, Option.isNone_iff_eq_none] at eq
  obtain ⟨count, looks, gone⟩ := eq
  have run : Reach (server plain Dispatcher.default) Txn.anyStep (.start .empty) s :=
    Txn.play_reach (fun _ _ _ => trivial) first
  have later : Reach (server plain Dispatcher.default) FlagUp s t :=
    Txn.play_reach flagUp_sound second
  have drained := graceful_shutdown plain Dispatcher.default .empty s t 0 0 _ run later rfl
  exact ⟨s, t, _, run, later, rfl, count, drained.1, looks, gone⟩

end Replay

end Dropless
