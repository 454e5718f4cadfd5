import Dropless.Scenario

/-! Lease fencing. The guard of an outcome statement compares the worker's id and a
time, so it keeps stale workers out as long as no claim takes a delivery that another
live worker of the same id still has to process. -/
namespace Dropless

open Txn (Durable Reach anyStep)

def Pid.text : Pid → Option String
  | .worker _ i => some (workerId i)
  | .client _ => none

def Holds (cfg : DispatcherConfig) (p : Proc) (d : Delivery) : Prop :=
  (∃ w, .processOne w d ∈ p.job :: p.todo) ∨
    ∃ w out, p.job = .claim w ∧
      Told p.calls (.claimDueDeliveries w cfg.batchSize cfg.lockSecs) out ∧ d ∈ out

def Claims (cfg : DispatcherConfig) (s t : State) (pid : Pid) (out : List Delivery) : Prop :=
  ∃ new w time, t.log = new ++ s.log ∧
    .applied pid (.claim w) time [ran (.claimDueDeliveries w cfg.batchSize cfg.lockSecs) out] ∈ new

/-- No claim takes a delivery that another live worker of the same id still holds. -/
def Unshared (cfg : DispatcherConfig) (s t : State) : Prop :=
  ∀ pid p qid q w out d r, s.procs.lookup pid = some p → s.procs.lookup qid = some q →
    pid.text = some w → qid.text = some w → pid ≠ qid → Claims cfg s t pid out → Holds cfg q d →
    r ∈ out → r.id ≠ d.id

/-- The ids of the live workers are pairwise different, as in one `serve` process. -/
def Distinct (s : State) : Prop := (s.procs.keys.filterMap Pid.text).Nodup

instance (s : State) : Decidable (Distinct s) :=
  inferInstanceAs (Decidable (List.Nodup _))

/- A claim that took the delivery, or a replay of it. -/
def touched (id : Uuid) : Ran → Bool
  | ⟨.claimDueDeliveries .., out⟩ => out.any fun d => d.id = id
  | ⟨.resetForReplay deliveryId, out⟩ => deliveryId = id ∧ out = true
  | _ => false

def touches (id : Uuid) : Entry → Bool
  | .applied _ _ _ unit => unit.any (touched id)
  | _ => false

/- The process was replaced, or went on to a new batch. -/
def renews (pid : Pid) : Entry → Bool
  | .crashed qid => qid = pid
  | .started qid (.claim _) => qid = pid
  | _ => false

/-- The process works on its last claim, which took the delivery as it is in `d`, and
that claim is the last touch of the delivery. -/
def Owned (cfg : DispatcherConfig) (log : List Entry) (pid : Pid) (w : String) (d : Delivery) :
    Prop :=
  ∃ mid before time out, log = mid ++ .applied pid (.claim w) time
      [ran (.claimDueDeliveries w cfg.batchSize cfg.lockSecs) out] :: before ∧
    d ∈ out ∧ (∀ e ∈ mid, touches d.id e = false) ∧ ∀ e ∈ mid, renews pid e = false

/-- Every outcome statement that updated a row acts for a run of `process_one` that
started from the last claim of its delivery, with no replay since. -/
def Fenced (cfg : DispatcherConfig) (log : List Entry) : Prop :=
  ∀ older pid job time unit x id w, .applied pid job time unit :: older <:+ log → x ∈ unit →
    marked x = some (id, w) → ∃ d, job = .processOne w d ∧ id = d.id ∧ Owned cfg older pid w d

section Named

variable {κ : Prims} {cfg : DispatcherConfig} {cond : State → State → Prop} {s t : State}
  {pid : Pid} {p : Proc} {db : Db}

structure Named (pid : Pid) (p : Proc) : Prop where
  claim : ∀ w, p.job = .claim w → pid.text = some w ∧ p.todo = []
  job : ∀ w d, p.job = .processOne w d → pid.text = some w
  todo : ∀ j ∈ p.todo, ∃ w d, j = .processOne w d ∧ pid.text = some w

theorem mem_follow {job j : Job} {res : Result} (mem : j ∈ follow job res) :
    ∃ w ds d, job = .claim w ∧ res = .claimed (.ok ds) ∧ d ∈ ds ∧ j = .processOne w d := by
  unfold follow at mem
  split at mem
  · obtain ⟨d, hd, rfl⟩ := List.mem_map.mp mem
    exact ⟨_, _, d, rfl, rfl, hd, rfl⟩
  · cases mem

theorem followed_named {j : Job} {res : Result} (named : Named pid p)
    (mem : j ∈ follow p.job res ++ p.todo) : ∃ w d, j = .processOne w d ∧ pid.text = some w := by
  rcases List.mem_append.mp mem with mem | mem
  · obtain ⟨w, ds, d, job, _, _, rfl⟩ := mem_follow mem
    exact ⟨w, d, rfl, (named.claim w job).1⟩
  · exact named.todo j mem

theorem entry_named {job : Job} (allowed : entry cfg pid job = true) :
    (∀ w, job = .claim w → pid.text = some w) ∧ ∀ w d, job ≠ .processOne w d := by
  cases pid with
  | client n =>
    refine ⟨?_, ?_⟩
    · rintro w rfl
      cases allowed
    · rintro w d rfl
      cases allowed
  | worker process i =>
    refine ⟨?_, ?_⟩
    · rintro w rfl
      simp only [entry, decide_eq_true_eq] at allowed
      exact congrArg some allowed.2.symm
    · rintro w d rfl
      cases allowed

theorem moved_named {p' : Proc} {new : List Entry}
    (old : ∀ q, s.procs.lookup pid = some q → Named pid q)
    (moved : Txn.Moved (engine κ cfg) s pid p' new) : Named pid p' := by
  cases moved with
  | same live _ => exact old p' live
  | called live job todo =>
    have named := old _ live
    refine ⟨?_, ?_, ?_⟩
    · rw [job, todo]
      exact named.claim
    · rw [job]
      exact named.job
    · rw [todo]
      exact named.todo
  | spawned idle entry calls todo log =>
    obtain ⟨claims, never⟩ := entry_named entry
    refine ⟨fun w job => ⟨claims w job, todo⟩, fun w d job => (never w d job).elim, ?_⟩
    rw [todo]
    intro j none
    cases none
  | followed live ended next calls log =>
    have each : ∀ j ∈ p'.job :: p'.todo, ∃ w d, j = .processOne w d ∧ pid.text = some w := by
      intro j mem
      rw [← next] at mem
      exact followed_named (old _ live) mem
    obtain ⟨w, d, job, own⟩ := each p'.job List.mem_cons_self
    refine ⟨?_, ?_, fun j mem => each j (List.mem_cons_of_mem _ mem)⟩
    · intro w' claim
      cases job.symm.trans claim
    · intro w' d' same
      cases job.symm.trans same
      exact own

theorem reach_named (reach : Run κ cfg cond db s) :
    ∀ pid p, s.procs.lookup pid = some p → Named pid p := by
  induction reach with
  | start =>
    intro pid p live
    cases live
  | next _ step _ ih =>
    intro pid p live
    obtain ⟨new, _, moved⟩ := Txn.step_moved step live
    exact moved_named (ih pid) moved

end Named

section Fence

variable {κ : Prims} {cfg : DispatcherConfig} {cond : State → State → Prop} {s t : State}
  {pid : Pid} {p : Proc} {tx : Txn.Tx Row Time lang} {db : Db} {w : String} {d r : Delivery}

theorem distinct_same {qid : Pid} {q : Proc} (distinct : Distinct s)
    (live : s.procs.lookup pid = some p) (live' : s.procs.lookup qid = some q)
    (own : pid.text = some w) (own' : qid.text = some w) : pid = qid := by
  have mem : ∀ {pid : Pid} {p : Proc}, s.procs.lookup pid = some p → pid ∈ s.procs.keys :=
    fun live => AList.mem_keys.mp (AList.lookup_isSome.mp (Option.isSome_of_mem live))
  have symm : Std.Symm fun a b : Pid => ∀ x, a.text = some x → ∀ y, b.text = some y → x ≠ y :=
    ⟨fun a b apart x hx y hy same => apart y hy x hx same.symm⟩
  by_contra other
  exact (List.pairwise_filterMap.mp distinct).forall (mem live) (mem live') other w own w own' rfl

theorem unshared_of_distinct (distinct : Distinct s) : Unshared cfg s t := by
  intro pid p qid q w out d r live live' own own' other
  exact (other (distinct_same distinct live live' own own')).elim

theorem Owned.frame {log new : List Entry} (owned : Owned cfg log pid w d)
    (untouched : ∀ e ∈ new, touches d.id e = false) (same : ∀ e ∈ new, renews pid e = false) :
    Owned cfg (new ++ log) pid w d := by
  obtain ⟨mid, before, time, out, rfl, mem, clean, goes⟩ := owned
  refine ⟨new ++ mid, before, time, out, by rw [List.append_assoc], mem, ?_, ?_⟩
  · intro e he
    exact (List.mem_append.mp he).elim (untouched e) (clean e)
  · intro e he
    exact (List.mem_append.mp he).elim (same e) (goes e)

theorem renews_other {e : Entry} (other : e.pid ≠ pid) : renews pid e = false := by
  cases e with
  | crashed qid => exact decide_eq_false other
  | started qid job =>
    cases job with
    | claim => exact decide_eq_false other
    | _ => rfl
  | _ => rfl

theorem followed_holds {res : Result}
    (ensured : ensures κ cfg p.job p.past res)
    (mem : .processOne w d ∈ follow p.job res ++ p.todo) : Holds cfg p d := by
  rcases List.mem_append.mp mem with mem | mem
  · obtain ⟨w', ds, d', job, rfl, hd, eq⟩ := mem_follow mem
    cases eq
    obtain ⟨w', job', told⟩ := ensured
    exact .inr ⟨w', ds, job', told, hd⟩
  · exact .inl ⟨w, List.mem_cons_of_mem _ mem⟩

/-- A worker's batch is the answer to its own claim: what it holds after a step it held
before, unless the step is that claim. -/
theorem moved_holds {p' : Proc} {new : List Entry} (sound : Txn.Sound (protocol κ cfg) s)
    (named : ∀ q, s.procs.lookup pid = some q → Named pid q)
    (moved : Txn.Moved (engine κ cfg) s pid p' new) (holds : Holds cfg p' d) :
    (∃ p, s.procs.lookup pid = some p ∧ Holds cfg p d ∧ ∀ e ∈ new, renews pid e = false) ∨
    ∃ p w out, s.procs.lookup pid = some p ∧ p.job = .claim w ∧ d ∈ out ∧
      let q := Stmt.claimDueDeliveries w cfg.batchSize cfg.lockSecs
      .called pid p.job (.stmt q) (.ok out) ∈ new ∧
      ∀ unit ∈ Txn.Past.told p.past.tx (.stmt q) (.ok out), ∃ time,
        new = [.called pid p.job (.stmt q) (.ok out), .applied pid p.job time unit] := by
  cases moved with
  | same live others => exact .inl ⟨p', live, holds, fun e he => renews_other (others e he)⟩
  | @called p op ans live job todo calls log told =>
    have goes : ∀ e ∈ new, renews pid e = false := by
      rcases log with rfl | ⟨time, unit, rfl⟩
      · simp [renews]
      · simp [renews]
    unfold Holds at holds
    rw [job, todo, calls] at holds
    rcases holds with batch | ⟨w, out, claim, heard, mem⟩
    · exact .inl ⟨p, live, .inl batch, goes⟩
    · rcases List.mem_cons.mp heard with eq | old
      · cases eq
        refine .inr ⟨p, w, out, live, claim, mem, ?_, told⟩
        rcases log with rfl | ⟨_, _, rfl⟩ <;> exact List.mem_cons_self
      · exact .inl ⟨p, live, .inr ⟨w, out, claim, old, mem⟩, goes⟩
  | spawned idle entry calls todo log =>
    unfold Holds at holds
    rw [calls, todo] at holds
    rcases holds with ⟨w, mem⟩ | ⟨w, out, _, told, _⟩
    · exact ((entry_named entry).2 w d (List.mem_singleton.mp mem).symm).elim
    · cases told
  | @followed p res live ended next calls log =>
    have own := named p live
    have ensured : ensures κ cfg p.job p.past res := by
      have last := (sound.each pid p live).along
      rw [ended] at last
      exact last
    obtain ⟨w', d', job, _⟩ := followed_named own
      (show p'.job ∈ follow p.job res ++ p.todo from next ▸ List.mem_cons_self)
    refine .inl ⟨p, live, ?_, ?_⟩
    · unfold Holds at holds
      rw [calls] at holds
      rcases holds with ⟨w, mem⟩ | ⟨w, out, _, told, _⟩
      · exact followed_holds ensured (next ▸ mem)
      · cases told
    · rw [log, job]
      simp [renews]

theorem commits_untouched {calls : Calls} {job : Job} {unit : List Ran} {x : Ran} {id : Uuid}
    (commits : Commits κ cfg calls job unit) (mem : x ∈ unit) : touched id x = false := by
  rcases commits.settles_or_files with ⟨w, d, rfl, settles⟩ | files
  · cases settles.closing mem <;> rfl
  · cases files x mem <;> rfl

theorem reset_row {id : Uuid} {now : Time} {view : Db} {ws : List Write}
    (run : Store.resetForReplay id now view = (true, ws)) :
    ∃ d : Delivery, d.id = id ∧ d.lockedBy = none ∧ ∃ w ∈ ws, w.after = .delivery d := by
  rcases Store.update_cases view id (fun _ => true) (fun d : Delivery =>
    { d with
      status := .pending, nextAttemptAt := now, lockedBy := none, lockedUntil := none,
      updatedAt := now }) with ⟨d, here, _, eq⟩ | ⟨_, eq⟩
  · have writes : (Store.resetForReplay id now view).2 = [Store.amended d (Store.released now
        { d with status := .pending, nextAttemptAt := now })] := congrArg Prod.snd eq
    obtain rfl := congrArg Prod.snd run
    rw [writes]
    exact ⟨Store.released now { d with status := .pending, nextAttemptAt := now },
      Db.find?_id here, rfl, _, List.mem_singleton_self _, rfl⟩
  · have missed : (Store.resetForReplay id now view).1 = false :=
      congrArg (fun x => x.1.isSome) eq
    rw [run] at missed
    cases missed

theorem touched_target {x : Ran} {id : Uuid} (hit : touched id x = true) :
    x.1.target = some .deliveries := by
  obtain ⟨q, out⟩ := x
  cases q <;> first
    | rfl
    | cases hit

/-- After a claim that took a delivery its row is the claimed one, and after a replay
of it the row is not locked. -/
theorem touched_row (durable : Durable (protocol κ cfg) s pid p tx) {x : Ran} {id : Uuid}
    (mem : x ∈ tx.done.map Txn.Done.ran) (hit : touched id x = true)
    (found : Db.find? (s.db.apply tx.writes) id = some r) :
    (∃ w out, p.job = .claim w ∧ p.calls = [] ∧ r ∈ out ∧ r.lockedBy = some w ∧
      tx.done.map Txn.Done.ran = [ran (.claimDueDeliveries w cfg.batchSize cfg.lockSecs) out]) ∨
    r.lockedBy = none := by
  rcases unit_allowed durable with commits | ⟨⟨q, out, ws⟩, one, alone⟩
  · cases (commits_untouched commits mem).symm.trans hit
  · obtain ⟨c, view, exec⟩ := durable.ran _ (one ▸ List.mem_cons_self)
    rw [one] at mem
    obtain rfl : x = ran q out := List.mem_singleton.mp mem
    have after : ∀ w ∈ ws, ∀ d : Delivery, w.after = .delivery d → d.id = id → r = d := by
      intro w hw d eq same
      have row := alone_written (a := d) durable one hw eq
      rw [show Record.id d = id from same, found] at row
      exact Option.some.inj row
    rcases alone_deliveries alone (touched_target hit) with
      ⟨w, job, rfl, first⟩ | ⟨w, d, next, job, rfl⟩ | ⟨id', rfl, _⟩
    · obtain ⟨picked, _, _, rfl, rfl⟩ := Store.claimDueDeliveries_ok (Stmt.exec_ok exec)
      obtain ⟨d, hd, same⟩ := List.any_eq_true.mp hit
      obtain ⟨d, picked, rfl⟩ := List.mem_map.mp hd
      obtain rfl := after _ (List.mem_map_of_mem picked) _ rfl (of_decide_eq_true same)
      exact .inl ⟨w, _, job, first, hd, rfl, by rw [one]; rfl⟩
    · cases hit
    · simp only [touched, decide_eq_true_eq] at hit
      obtain ⟨rfl, rfl⟩ := hit
      have run : Store.resetForReplay id' tx.time view = (true, ws) :=
        Except.ok.inj (@Stmt.exec_ok (.resetForReplay id') _ c _ _ _ exec)
      obtain ⟨d, same, released, w, mem, eq⟩ := reset_row run
      exact .inr (after w mem d eq same ▸ released)

/-- A row that carries a worker's id while the worker has it in its batch is the row
that the worker claimed. -/
def Fence (cfg : DispatcherConfig) (s : State) : Prop :=
  ∀ pid p w d r, s.procs.lookup pid = some p → pid.text = some w → Holds cfg p d →
    Db.find? s.db d.id = some r → r.lockedBy = some w → r = d ∧ Owned cfg s.log pid w d

theorem fence_untouched {qid : Pid} {q : Proc} {op : Op} {ans : op.Ans}
    (named : ∀ pid p, s.procs.lookup pid = some p → Named pid p) (unshared : Unshared cfg s t)
    (durable : Durable (protocol κ cfg) s qid q tx)
    (log : t.log = .called qid q.job op ans ::
      .applied qid q.job tx.time (tx.done.map Txn.Done.ran) :: s.log)
    (live : s.procs.lookup pid = some p) (own : pid.text = some w) (holds : Holds cfg p d)
    (found : Db.find? (s.db.apply tx.writes) d.id = some r) (locked : r.lockedBy = some w) :
    (∀ x ∈ tx.done.map Txn.Done.ran, touched d.id x = false) ∧ Db.find? s.db d.id = some r := by
  have clean : ∀ x ∈ tx.done.map Txn.Done.ran, touched d.id x = false := by
    intro x mem
    by_contra hit
    rcases touched_row durable mem (Bool.eq_true_of_not_eq_false hit) found with
      ⟨w', out, job, first, taken, locked', unit⟩ | released
    · obtain rfl : w' = w := Option.some.inj (locked'.symm.trans locked)
      have named' := (named qid q durable.live).claim w' job
      by_cases other : qid = pid
      · subst other
        obtain rfl : q = p := Option.some.inj (durable.live.symm.trans live)
        rcases holds with ⟨w, mem⟩ | ⟨w, out, _, told, _⟩
        · rw [job, named'.2] at mem
          cases List.mem_singleton.mp mem
        · rw [first] at told
          cases told
      · rw [job, unit] at log
        refine unshared qid q pid p w' out d r durable.live live named'.1 own other
          ⟨[_, _], w', tx.time, log, ?_⟩ holds taken (Db.find?_id found)
        exact List.mem_cons_of_mem _ List.mem_cons_self
    · cases released.symm.trans locked
  refine ⟨clean, ?_⟩
  rcases delivery_turn durable found with old | turn
  · exact old
  · generalize job : q.job = job' at turn
    generalize unit : tx.done.map Txn.Done.ran = unit' at turn clean
    generalize tx.time = now at turn
    generalize (Db.find? s.db d.id : Option Delivery) = b at turn ⊢
    -- every turn but a claim leaves the row without a lock
    cases turn with
    | @claimed w' out r first due mem =>
      have hit := clean _ List.mem_cons_self
      have miss := List.any_eq_false.mp hit _ mem
      exact (miss (decide_eq_true (Db.find?_id found))).elim
    | _ => cases locked

theorem fence_claimed {out : List Delivery} {new : List Entry}
    (outcome : Txn.Outcome (protocol κ cfg) s t)
    (live : s.procs.lookup pid = some p) (job : p.job = .claim w) (mem : d ∈ out)
    (log : t.log = new ++ s.log)
    (called : .called pid p.job (.stmt (.claimDueDeliveries w cfg.batchSize cfg.lockSecs))
      (.ok out) ∈ new)
    (told : ∀ unit ∈ Txn.Past.told p.past.tx
      (.stmt (.claimDueDeliveries w cfg.batchSize cfg.lockSecs)) (.ok out), ∃ time, new =
        [.called pid p.job (.stmt (.claimDueDeliveries w cfg.batchSize cfg.lockSecs)) (.ok out),
          .applied pid p.job time unit]) :
    Db.find? t.db d.id = some d ∧ Owned cfg t.log pid w d := by
  have outside : p.past.tx = none := by
    rcases Txn.outcome_entry outcome log called with
      ⟨q, live', _, allowed, _⟩ | ⟨_, _, _, _, _, eq, _⟩
    · obtain rfl : p = q := Option.some.inj (live.symm.trans live')
      simp only [protocol, allows] at allowed
      split at allowed
      · assumption
      · cases allowed
    · cases eq
  rw [outside] at told
  obtain ⟨time, rfl⟩ := told _ (List.mem_singleton_self _)
  rcases Txn.outcome_entry outcome log (List.mem_cons_of_mem _ (List.mem_singleton_self _)) with
    noted | ⟨qid, q, tx, _, _, eq, db, durable, _⟩
  · cases noted
  · simp only [Txn.Entry.applied.injEq] at eq
    obtain ⟨rfl, _, rfl, unit⟩ := eq
    obtain ⟨ws, more, done, none⟩ := Txn.done_cons unit.symm
    obtain rfl := List.map_eq_nil_iff.mp none
    obtain ⟨c, view, exec⟩ := durable.ran _ (done ▸ List.mem_cons_self)
    obtain ⟨picked, _, _, rfl, rfl⟩ := Store.claimDueDeliveries_ok (Stmt.exec_ok exec)
    obtain ⟨r, hr, rfl⟩ := List.mem_map.mp mem
    refine ⟨?_, ?_⟩
    · rw [db]
      exact alone_written durable done (List.mem_map_of_mem hr) rfl
    · rw [log, job]
      exact ⟨[_], s.log, _, _, rfl, mem, by simp [touches], by simp [renews]⟩

theorem reach_fence (unshared : ∀ a b, cond a b → Unshared cfg a b)
    (reach : Run κ cfg cond db s) : Fence cfg s := by
  induction reach with
  | start =>
    intro pid p w d r live
    cases live
  | @next s t before step ok ih =>
    intro pid p' w d r live own holds found locked
    have sound := Txn.reach_sound (protocol κ cfg) before
    have named := reach_named before
    have outcome := Txn.step_outcome sound step
    obtain ⟨new, log, moved⟩ := Txn.step_moved step live
    rcases moved_holds sound (named pid) moved holds with
      ⟨p, live', held, goes⟩ | ⟨p, w', out, live', job, mem, called, told⟩
    · have kept : (∀ e ∈ new, touches d.id e = false) ∧ Db.find? s.db d.id = some r := by
        cases outcome with
        | quiet es same eq noted =>
          have same' : new = es := List.append_cancel_right (log.symm.trans eq)
          refine ⟨fun e he => ?_, same ▸ found⟩
          have known := noted e (same' ▸ he)
          cases e with
          | applied => cases known
          | _ => rfl
        | durable qid q tx op ans same eq noted durable _ =>
          have same' : new = [_, _] := List.append_cancel_right (log.symm.trans eq)
          rw [same] at found
          obtain ⟨clean, old⟩ := fence_untouched named (unshared s t ok) durable eq live' own
            held found locked
          refine ⟨?_, old⟩
          rw [same']
          intro e he
          rcases List.mem_cons.mp he with rfl | he
          · rfl
          · rw [List.mem_singleton.mp he]
            exact List.any_eq_false.mpr fun x hx => by simp [clean x hx]
      obtain ⟨same, owned⟩ := ih pid p w d r live' own held kept.2 locked
      exact ⟨same, log ▸ owned.frame kept.1 goes⟩
    · obtain rfl : w' = w := Option.some.inj (((named pid p live').claim w' job).1.symm.trans own)
      obtain ⟨row, owned⟩ := fence_claimed outcome live' job mem log called told
      exact ⟨Option.some.inj (found.symm.trans row), owned⟩

/- An outcome statement finds the row that its worker claimed. -/
theorem marked_fenced (fence : Fence cfg s)
    (named : ∀ pid p, s.procs.lookup pid = some p → Named pid p)
    (durable : Durable (protocol κ cfg) s pid p tx) {x : Ran} {id : Uuid}
    (mem : x ∈ tx.done.map Txn.Done.ran) (marks : marked x = some (id, w)) :
    ∃ d, p.job = .processOne w d ∧ id = d.id ∧ Db.find? s.db d.id = some d ∧
      Owned cfg s.log pid w d := by
  obtain ⟨d, r, _, job, rfl, found, leased, _⟩ := marked_row durable mem marks
  have own := (named pid p durable.live).job w d job
  have locked : r.lockedBy = some w := by
    simp only [Store.leased, decide_eq_true_eq] at leased
    exact leased.1
  obtain ⟨rfl, owned⟩ := fence pid p w d r durable.live own
    (.inl ⟨w, job ▸ List.mem_cons_self⟩) found locked
  exact ⟨r, job, rfl, found, owned⟩

theorem fenced_append {new log : List Entry} (fenced : Fenced cfg log)
    (quiet : ∀ pid job time unit, .applied pid job time unit ∉ new) : Fenced cfg (new ++ log) := by
  induction new with
  | nil => exact fenced
  | cons e new ih =>
    intro older pid job time unit x id w suffix mem marks
    rcases List.suffix_cons_iff.mp suffix with eq | suffix
    · obtain ⟨rfl, _⟩ := List.cons.inj eq
      exact (quiet _ _ _ _ List.mem_cons_self).elim
    · exact ih (fun pid job time unit mem => quiet pid job time unit (List.mem_cons_of_mem _ mem))
        older pid job time unit x id w suffix mem marks

theorem reach_fenced (unshared : ∀ a b, cond a b → Unshared cfg a b)
    (reach : Run κ cfg cond db s) : Fenced cfg s.log := by
  induction reach with
  | start =>
    intro older pid job time unit x id w suffix
    cases List.suffix_nil.mp suffix
  | @next s t before step ok ih =>
    have fence := reach_fence unshared before
    cases Txn.step_outcome (Txn.reach_sound (protocol κ cfg) before) step with
    | quiet es _ eq noted =>
      rw [eq]
      exact fenced_append ih fun pid job time unit mem => noted _ mem
    | durable qid q tx op ans _ eq _ durable _ =>
      rw [eq]
      refine @fenced_append cfg [_] _ ?_ fun pid job time unit mem => ?_
      · intro older pid job time unit x id w suffix mem marks
        rcases List.suffix_cons_iff.mp suffix with eq | suffix
        · simp only [List.cons.injEq, Txn.Entry.applied.injEq] at eq
          obtain ⟨⟨rfl, rfl, rfl, rfl⟩, rfl⟩ := eq
          obtain ⟨d, job, same, _, owned⟩ :=
            marked_fenced fence (reach_named before) durable mem marks
          exact ⟨d, job, same, owned⟩
        · exact ih older pid job time unit x id w suffix mem marks
      · cases List.mem_singleton.mp mem

end Fence

/-- In every run in which no claim takes a delivery that another live worker of the same
id still holds, outcomes are fenced. -/
theorem lease_fencing (κ : Prims) (cfg : DispatcherConfig) (db : Db) (s : State)
    (reach : Run κ cfg (Unshared cfg) db s) : Fenced cfg s.log :=
  reach_fenced (fun _ _ unshared => unshared) reach

section Runs

def marks : Entry → Bool
  | .applied _ _ _ unit => unit.any fun x => (marked x).isSome
  | _ => false

theorem lease_fencing_turns : ∃ s : State,
    Run plain Dispatcher.default (Unshared Dispatcher.default) .empty s ∧
    (s.log.filter marks).map Txn.Entry.pid = [.worker 1 0, .worker 0 0] ∧
    Fenced Dispatcher.default s.log := by
  have played : ((Txn.play (engine plain Dispatcher.default) (fun s _ => Distinct s)
      (.start .empty) (published ++ refused (.worker 0 0) 0 1 4 ++
        attempted (.worker 1 0) 0 90000000 5 (.ok ⟨200, "ok"⟩))).bind fun s : State =>
      if (s.log.filter marks).map Txn.Entry.pid = [.worker 1 0, .worker 0 0] then some s
      else none).isSome := by
    decide
  obtain ⟨s, played⟩ := Option.isSome_iff_exists.mp played
  simp only [Option.bind_eq_some_iff, Option.ite_none_right_eq_some] at played
  obtain ⟨_, played, turns, eq⟩ := played
  cases eq
  have reach : Run plain Dispatcher.default (Unshared Dispatcher.default) .empty s :=
    Txn.play_reach (fun a b ok => unshared_of_distinct (of_decide_eq_true ok)) played
  exact ⟨s, reach, turns, lease_fencing plain Dispatcher.default .empty s reach⟩

theorem Owned.latest {cfg : DispatcherConfig} {log : List Entry} {pid : Pid} {w : String}
    {d : Delivery} (owned : Owned cfg log pid w d) :
    (log.find? (touches d.id)).map Txn.Entry.pid = some pid := by
  obtain ⟨mid, before, time, out, rfl, mem, clean, _⟩ := owned
  have none : mid.find? (touches d.id) = none := by simpa using clean
  have hit : out.any (fun r => r.id = d.id) = true := by simpa using ⟨d, mem, rfl⟩
  rw [List.find?_append, none, Option.none_or, List.find?_cons_of_pos]
  · rfl
  · simpa [touches, touched] using hit

def stale : List Entry → Bool
  | .called .. :: .applied pid (.processOne _ d) _ unit :: older =>
      unit.any (fun x => (marked x).isSome) ∧
        (older.find? (touches d.id)).map Txn.Entry.pid ≠ some pid
  | _ => false

theorem stale_unfenced {cfg : DispatcherConfig} {log : List Entry} (h : stale log = true) :
    ¬ Fenced cfg log := by
  intro fenced
  unfold stale at h
  split at h
  · rename_i pid w d time unit older
    simp only [Bool.decide_and, Bool.decide_eq_true, Bool.and_eq_true, decide_eq_true_eq] at h
    obtain ⟨x, mem, some⟩ := List.any_eq_true.mp h.1
    obtain ⟨⟨id, w'⟩, marks⟩ := Option.isSome_iff_exists.mp some
    obtain ⟨d', job, _, owned⟩ := fenced _ pid _ time unit x id w' (List.suffix_cons _ _) mem marks
    cases job
    exact h.2 owned.latest
  · cases h

/- Two processes, each with a `worker-0`. The first one's lease runs out during its POST,
the second claims the delivery, and the first then marks it as delivered. -/
theorem lease_shared : ¬ ∀ (κ : Prims) (cfg : DispatcherConfig) (db : Db) (s : State),
    Run κ cfg anyStep db s → Fenced cfg s.log := by
  intro all
  have played : ((replay plain Dispatcher.default (.start .empty)
      (published ++ .spawn (.worker 0 0) (.claim (workerId 0)) ::
        go 8 (.worker 0 0) 0 4 (.ok ⟨200, "ok"⟩) ++ .spawn (.worker 1 0) (.claim (workerId 0)) ::
        go 1 (.worker 1 0) 31000000 5 (.error "") ++
        go 6 (.worker 0 0) 32000000 6 (.error ""))).bind fun s : State =>
      if stale s.log = true then some s else none).isSome := by
    decide
  obtain ⟨s, played⟩ := Option.isSome_iff_exists.mp played
  simp only [Option.bind_eq_some_iff, Option.ite_none_right_eq_some] at played
  obtain ⟨_, played, late, eq⟩ := played
  cases eq
  exact stale_unfenced late (all _ _ _ s (replay_reach played))

end Runs

end Dropless
