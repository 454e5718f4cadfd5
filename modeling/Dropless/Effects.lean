import Dropless.Conformance
import Dropless.Txn.History

namespace Dropless

open Txn (Durable)

section Wrote

def Store.released (now : Time) (d : Delivery) : Delivery :=
  { d with lockedBy := none, lockedUntil := none, updatedAt := now }

/-- The versions of a delivery that a statement writes, with what they replace. -/
inductive Wrote (now : Time) : (q : Stmt) → q.Out → Option Delivery → Delivery → Prop where
  | inserted {id event endpoint tenant} :
      Wrote now (.insertDelivery id event endpoint tenant) () none
        (Store.newDelivery id event endpoint tenant now)
  | claimed {w batch lock out r} (due : Store.due now r = true)
      (mem : Store.claim w lock now r ∈ out) :
      Wrote now (.claimDueDeliveries w batch lock) out (some r) (Store.claim w lock now r)
  | succeeded {w n r} (leased : Store.leased w now r = true) :
      Wrote now (.markSucceeded r.id w n) true (some r) (Store.released now
        { r with status := .succeeded, attemptCount := n, lastError := none })
  | failed {w n next error r} (leased : Store.leased w now r = true) :
      Wrote now (.markFailed r.id w n next error) true (some r) (Store.released now
        { r with status := .failed, attemptCount := n, nextAttemptAt := next,
                 lastError := some error })
  | deferred {w next r} (leased : Store.leased w now r = true) :
      Wrote now (.deferDelivery r.id w next) true (some r) (Store.released now
        { r with status := .failed, nextAttemptAt := next })
  | dead {w reason r} (leased : Store.leased w now r = true) :
      Wrote now (.markDeadUpdate r.id w reason) true (some r) (Store.released now
        { r with status := .dead, lastError := some reason })
  | reset {r} :
      Wrote now (.resetForReplay r.id) true (some r) (Store.released now
        { r with status := .pending, nextAttemptAt := now })

variable {now : Time} {skipped : List Uuid} {db : Db} {w : Write}

theorem Store.mem_update {α : Type} [Record α] {id : Uuid} {guard : α → Bool} {set : α → α}
    (mem : w ∈ (update db id guard set).2) :
    ∃ a, Record.id a = id ∧ guard a = true ∧ w = amended a (set a) ∧
      (update db id guard set).1 = some (set a) := by
  rcases update_cases db id guard set with ⟨a, found, ok, eq⟩ | ⟨_, eq⟩
  · rw [eq] at mem ⊢
    exact ⟨a, Db.find?_id found, ok, List.mem_singleton.mp mem, rfl⟩
  · rw [eq] at mem
    cases mem

theorem Store.mem_insert {α : Type} [Record α] {a : α} {ws : List Write}
    (h : insert db a = .ok ws) (mem : w ∈ ws) : w = ⟨none, Record.row a⟩ := by
  obtain ⟨rfl, _⟩ := insert_ok h
  exact List.mem_singleton.mp mem

theorem Store.mem_underLease {id : Uuid} {workerId : String} {set : Delivery → Delivery}
    {out : Bool} {ws : List Write} (run : underLease id workerId set now db = (out, ws))
    (mem : w ∈ ws) :
    ∃ r, r.id = id ∧ leased workerId now r = true ∧ w = amended r (released now (set r)) ∧
      out = true := by
  obtain ⟨rfl, rfl⟩ := Prod.mk.inj run
  obtain ⟨r, same, ok, eq, out⟩ := mem_update mem
  exact ⟨r, same, ok, eq, congrArg Option.isSome out⟩

theorem wrote_delivery {q : Stmt} {out : q.Out} {ws : List Write} {r : Delivery}
    (h : q.exec now skipped db = .ok (out, ws)) (mem : w ∈ ws) (after : w.after = .delivery r) :
    ∃ b : Option Delivery, w.before = b.map Row.delivery ∧ Wrote now q out b r := by
  have place : q.target = some .deliveries := by
    rw [(Stmt.exec_shape h).in_table w mem, after]
    rfl
  have run := Stmt.exec_ok h
  cases q with
  | insertDelivery id event endpoint tenant =>
    have eq := Store.mem_insert (Store.insertDelivery_ok run).2.2 mem
    subst eq
    cases after
    exact ⟨none, rfl, .inserted⟩
  | claimDueDeliveries worker batch lock =>
    obtain ⟨picked, _, found, rfl, rfl⟩ := Store.claimDueDeliveries_ok run
    obtain ⟨d, hd, rfl⟩ := List.mem_map.mp mem
    cases after
    exact ⟨some d, rfl, .claimed (found d hd).2.1 (List.mem_map_of_mem hd)⟩
  | markSucceeded id worker n =>
    obtain ⟨d, rfl, leased, rfl, rfl⟩ := Store.mem_underLease (Except.ok.inj run) mem
    cases after
    exact ⟨some d, rfl, .succeeded leased⟩
  | markFailed id worker n next error =>
    obtain ⟨d, rfl, leased, rfl, rfl⟩ := Store.mem_underLease (Except.ok.inj run) mem
    cases after
    exact ⟨some d, rfl, .failed leased⟩
  | deferDelivery id worker next =>
    obtain ⟨d, rfl, leased, rfl, rfl⟩ := Store.mem_underLease (Except.ok.inj run) mem
    cases after
    exact ⟨some d, rfl, .deferred leased⟩
  | markDeadUpdate id worker reason =>
    obtain ⟨d, rfl, leased, rfl, rfl⟩ := Store.mem_underLease (Except.ok.inj run) mem
    cases after
    exact ⟨some d, rfl, .dead leased⟩
  | resetForReplay id =>
    obtain ⟨same, rfl⟩ := Prod.mk.inj (Except.ok.inj run)
    obtain ⟨d, rfl, _, rfl, updated⟩ := Store.mem_update mem
    cases after
    obtain rfl : true = out := (congrArg Option.isSome updated).symm.trans same
    exact ⟨some d, rfl, .reset⟩
  | _ => cases place

end Wrote

section Unit

variable {κ : Prims} {cfg : DispatcherConfig} {s : State} {pid : Pid} {p : Proc}
  {tx : Txn.Tx Row Time lang}

theorem replaced (durable : Durable (protocol κ cfg) s pid p tx)
    {pre post : List (Txn.Done Row lang)} {d : Txn.Done Row lang} {w : Write}
    (done : tx.done = pre ++ d :: post) (mem : w ∈ d.writes)
    (outside : ∀ e ∈ pre, e.stmt.target ≠ some w.after.key.table) :
    s.db.get? w.after.key = w.before := by
  obtain ⟨front, back, writes⟩ := List.append_of_mem mem
  have split : tx.writes = (pre.flatMap Txn.Done.writes ++ front) ++ w ::
      (back ++ post.flatMap Txn.Done.writes) := by
    simp [Txn.Tx.writes, done, writes]
  obtain ⟨valid, ⟨before, _⟩, _⟩ := Txn.Store.valid_append.mp (split ▸ durable.valid)
  refine Eq.trans ?_ before
  refine (Txn.Store.get?_apply_of_ne valid fun v hv same => ?_).symm
  rcases List.mem_append.mp hv with hv | hv
  · obtain ⟨e, he, hv⟩ := List.mem_flatMap.mp hv
    obtain ⟨c, view, ran⟩ := durable.ran e (done ▸ List.mem_append_left _ he)
    have place := (Stmt.exec_shape ran).in_table v hv
    exact outside e he (place.trans (congrArg (fun k : Key => some k.table) same))
  · obtain ⟨c, view, ran⟩ := durable.ran d (done ▸ List.mem_append_right _ List.mem_cons_self)
    have apart := (Stmt.exec_shape ran).apart
    rw [writes, List.pairwise_append] at apart
    exact apart.2.2 v hv w List.mem_cons_self same

theorem unit_ran (durable : Durable (protocol κ cfg) s pid p tx) {q : Stmt} {out : q.Out}
    (mem : ran q out ∈ tx.done.map Txn.Done.ran) :
    ∃ ws c view, (⟨q, out, ws⟩ : Txn.Done Row lang) ∈ tx.done ∧
      q.run tx.time c view = .ok (out, ws) := by
  obtain ⟨d, hd, eq⟩ := List.mem_map.mp mem
  obtain ⟨ws, rfl⟩ := Txn.done_of_ran eq
  obtain ⟨c, view, exec⟩ := durable.ran _ hd
  exact ⟨ws, c, view, hd, Stmt.exec_ok exec⟩

theorem written (durable : Durable (protocol κ cfg) s pid p tx) {k : Key} {r : Row}
    (h : (s.db.apply tx.writes).get? k = some r) :
    s.db.get? k = some r ∨ ∃ pre d post w, tx.done = pre ++ d :: post ∧ w ∈ d.writes ∧
      w.after = r ∧ r.key = k ∧ (w.before = none → s.db.get? k = none) := by
  rcases Txn.Store.get?_apply_cases durable.valid h with
    ⟨old, _⟩ | ⟨xs, w, ys, split, after, key, before⟩
  · exact .inl old
  · obtain ⟨pre, d, post, front, back, done, writes, rfl⟩ := Txn.flatMap_split split
    have mem : w ∈ d.writes := by
      rw [writes]
      exact List.mem_append_right _ List.mem_cons_self
    refine .inr ⟨pre, d, post, w, done, mem, after, key, fun none => ?_⟩
    have whole : w ∈ tx.writes := by
      rw [split]
      exact List.mem_append_right _ List.mem_cons_self
    rw [← key, ← after]
    exact Txn.Store.get?_of_inserted durable.valid whole none

/-- A typed row after a durable unit: as before, or written by a statement of it, and what
stood there before when no earlier statement wrote to the table. -/
theorem row_written {α : Type} [Record α] (durable : Durable (protocol κ cfg) s pid p tx)
    {id : Uuid} {r : α} (found : Db.find? (s.db.apply tx.writes) id = some r) :
    Db.find? s.db id = some r ∨
      ∃ pre q out ws post w c view, tx.done = pre ++ ⟨q, out, ws⟩ :: post ∧
        Stmt.exec q tx.time c view = .ok (out, ws) ∧ w ∈ ws ∧ w.after = Record.row r ∧
        ∀ b : Option α, w.before = b.map Record.row →
          ((∀ x ∈ pre.map Txn.Done.ran, x.1.target ≠ some (Record.table α)) ∨ b = none) →
          Db.find? s.db id = b := by
  rcases written durable (Db.find?_eq_some.mp found) with
    old | ⟨pre, ⟨q, out, ws⟩, post, w, done, mem, after, key, new⟩
  · exact .inl (Db.find?_eq_some.mpr old)
  · obtain ⟨c, view, exec⟩ := durable.ran _ (done ▸ List.mem_append_right _ List.mem_cons_self)
    refine .inr ⟨pre, q, out, ws, post, w, c, view, done, exec, mem, after,
      fun b before first => ?_⟩
    cases b with
    | none => exact Db.find?_none.mpr (new before)
    | some b =>
      rcases first with first | none
      · have outside : ∀ e ∈ pre, e.stmt.target ≠ some w.after.key.table := by
          rw [after, Record.key_row]
          exact fun e he => first e.ran (List.mem_map_of_mem he)
        have old := replaced durable done mem outside
        rw [after, key, before] at old
        exact Db.find?_eq_some.mpr old
      · cases none

theorem alone_split {pre post : List (Txn.Done Row lang)} {d e : Txn.Done Row lang}
    (one : tx.done = [d]) (done : tx.done = pre ++ e :: post) : pre = [] ∧ d = e ∧ post = [] := by
  rw [one] at done
  cases pre with
  | nil =>
    obtain ⟨rfl, rfl⟩ := List.cons.inj done
    exact ⟨rfl, rfl, rfl⟩
  | cons x pre => simp at done

theorem unit_written {α : Type} [Record α] {a : α} (durable : Durable (protocol κ cfg) s pid p tx)
    {pre post : List (Txn.Done Row lang)} {d : Txn.Done Row lang} {w : Write}
    (done : tx.done = pre ++ d :: post) (mem : w ∈ d.writes) (after : w.after = Record.row a)
    (later : ∀ e ∈ post, e.stmt.target ≠ some (Record.table α)) :
    Db.find? (s.db.apply tx.writes) (Record.id a) = some a := by
  obtain ⟨front, back, writes⟩ := List.append_of_mem mem
  have split : tx.writes = (pre.flatMap Txn.Done.writes ++ front) ++ w ::
      (back ++ post.flatMap Txn.Done.writes) := by
    simp [Txn.Tx.writes, done, writes]
  have key : w.after.key = ⟨Record.table α, Record.id a⟩ := by rw [after, Record.key_row]
  have row := Txn.Store.get?_apply_written (split ▸ durable.valid) fun v hv same => ?_
  · rw [split, Db.find?_eq_some, ← key, ← after]
    exact row
  · rcases List.mem_append.mp hv with hv | hv
    · obtain ⟨c, view, ran⟩ := durable.ran d (done ▸ List.mem_append_right _ List.mem_cons_self)
      have apart := (Stmt.exec_shape ran).apart
      rw [writes, List.pairwise_append, List.pairwise_cons] at apart
      exact apart.2.1.1 v hv same.symm
    · obtain ⟨e, he, hv⟩ := List.mem_flatMap.mp hv
      obtain ⟨c, view, ran⟩ := durable.ran e
        (done ▸ List.mem_append_right _ (List.mem_cons_of_mem _ he))
      refine later e he (((Stmt.exec_shape ran).in_table v hv).trans ?_)
      exact congrArg (fun k : Key => some k.table) (Eq.trans same key)

theorem alone_written {α : Type} [Record α] {a : α} (durable : Durable (protocol κ cfg) s pid p tx)
    {d : Txn.Done Row lang} {w : Write} (one : tx.done = [d]) (mem : w ∈ d.writes)
    (after : w.after = Record.row a) : Db.find? (s.db.apply tx.writes) (Record.id a) = some a :=
  unit_written durable (show tx.done = [] ++ d :: [] from one) mem after
    fun _ none => (List.not_mem_nil none).elim

theorem unit_frozen (durable : Durable (protocol κ cfg) s pid p tx) :
    ∀ w ∈ tx.writes, ∀ b, w.before = some b → w.after.frozen = b.frozen := by
  intro w hw b before
  obtain ⟨d, hd, hw⟩ := Txn.mem_writes hw
  obtain ⟨c, view, ran⟩ := durable.ran d hd
  exact (Stmt.exec_shape ran).keeps_frozen w hw b before

/-- Rows stay, with every column the code treats as fixed. -/
theorem durable_keeps (durable : Durable (protocol κ cfg) s pid p tx) {k : Key} {r : Row}
    (h : s.db.get? k = some r) :
    ∃ r', (s.db.apply tx.writes).get? k = some r' ∧ r'.frozen = r.frozen :=
  Txn.Store.get?_apply_keeps durable.valid (unit_frozen durable) h

theorem reach_keeps {cond : State → State → Prop} {db : Db} {t : State}
    (before : Run κ cfg cond db s) (later : Txn.Reach (engine κ cfg) cond s t) {k : Key} {r : Row}
    (h : s.db.get? k = some r) : ∃ r', t.db.get? k = some r' ∧ r'.frozen = r.frozen := by
  refine Txn.reach_db (protocol κ cfg)
    (fun db => ∃ r', db.get? k = some r' ∧ r'.frozen = r.frozen) before ⟨r, h, rfl⟩ ?_ later
  rintro a pid p tx _ durable ⟨r', found, same⟩
  obtain ⟨r'', found', same'⟩ := durable_keeps durable found
  exact ⟨r'', found', same'.trans same⟩

theorem find_frozen {α : Type} [Record α] {db : Db} {id : Uuid} {a : α} {r : Row}
    (here : db.get? ⟨Record.table α, id⟩ = some r) (same : r.frozen = (Record.row a).frozen) :
    ∃ b : α, db.find? id = some b ∧ (Record.row b).frozen = (Record.row a).frozen := by
  obtain ⟨b, typed⟩ := Option.isSome_iff_exists.mp
    (Record.ofRow_table (α := α) (congrArg Key.table (Txn.Store.get?_some here).2))
  obtain rfl := Record.ofRow_iff.mp typed
  exact ⟨b, Db.find?_eq_some.mpr here, same⟩

theorem find_kept {α : Type} [Record α] {db db' : Db} {id : Uuid} {a : α}
    (kept : ∀ k r, db.get? k = some r → ∃ r', db'.get? k = some r' ∧ r'.frozen = r.frozen)
    (found : db.find? id = some a) :
    ∃ b : α, db'.find? id = some b ∧ (Record.row b).frozen = (Record.row a).frozen := by
  obtain ⟨r, here, same⟩ := kept _ _ (Db.find?_eq_some.mp found)
  exact find_frozen here same

theorem reach_find {α : Type} [Record α] {cond : State → State → Prop} {db : Db} {t : State}
    (before : Run κ cfg cond db s) (later : Txn.Reach (engine κ cfg) cond s t) {id : Uuid} {a : α}
    (h : Db.find? s.db id = some a) :
    ∃ b : α, Db.find? t.db id = some b ∧ (Record.row b).frozen = (Record.row a).frozen :=
  find_kept (fun _ _ => reach_keeps before later) h

theorem unit_view {cond : State → State → Prop} {db : Db} (reach : Run κ cfg cond db s)
    (durable : Durable (protocol κ cfg) s pid p tx) {pre post : List (Txn.Done Row lang)}
    {d : Txn.Done Row lang} (done : tx.done = pre ++ d :: post) :
    ∃ c view, Stmt.exec d.stmt tx.time c view = .ok (d.out, d.writes) ∧
      ∀ k r, view.get? k = some r →
        ∃ r', (s.db.apply tx.writes).get? k = some r' ∧ r'.frozen = r.frozen := by
  obtain ⟨a, before, later, valid, ⟨c, ran⟩, _⟩ := Txn.unit_traced reach durable pre d post done
  refine ⟨c, _, ran, fun k r seen => ?_⟩
  rcases Txn.Store.get?_apply_cases valid seen with ⟨old, _⟩ | ⟨xs, w, ys, split, rfl, key, _⟩
  · obtain ⟨r₁, found, same⟩ := reach_keeps before later old
    obtain ⟨r₂, found', same'⟩ := durable_keeps durable found
    exact ⟨r₂, found', same'.trans same⟩
  · -- a row of its own, maybe amended by a later statement
    have mem : w ∈ tx.writes := by
      simp [Txn.Tx.writes, done, split]
    obtain ⟨r', found, same⟩ := Txn.Store.get?_apply_mem durable.valid (unit_frozen durable) mem
    exact ⟨r', key ▸ found, same⟩

theorem unit_sees {cond : State → State → Prop} {db : Db} {α : Type} [Record α] {a : α}
    (reach : Run κ cfg cond db s) (durable : Durable (protocol κ cfg) s pid p tx)
    {pre post : List (Txn.Done Row lang)} {d e : Txn.Done Row lang}
    (done : tx.done = pre ++ d :: post) (earlier : e ∈ pre)
    (mem : ⟨none, Record.row a⟩ ∈ e.writes) :
    ∃ c view, Stmt.exec d.stmt tx.time c view = .ok (d.out, d.writes) ∧
      ∃ b : α, view.find? (Record.id a) = some b ∧
        (Record.row b).frozen = (Record.row a).frozen := by
  obtain ⟨now, _, _, valid, ⟨c, ran⟩, _⟩ := Txn.unit_traced reach durable pre d post done
  have part : ∀ w ∈ pre.flatMap Txn.Done.writes, w ∈ tx.writes := by
    intro w hw
    rw [Txn.Tx.writes, done, List.flatMap_append]
    exact List.mem_append_left _ hw
  obtain ⟨r, found, same⟩ := Txn.Store.get?_apply_mem valid
    (fun w hw => unit_frozen durable w (part w hw)) (List.mem_flatMap.mpr ⟨e, earlier, mem⟩)
  exact ⟨c, _, ran, find_frozen ((Record.key_row a).symm ▸ found) same⟩

theorem unit_kept {α : Type} [Record α] {a : α} (durable : Durable (protocol κ cfg) s pid p tx)
    {d : Txn.Done Row lang} (ran : d ∈ tx.done) (mem : ⟨none, Record.row a⟩ ∈ d.writes) :
    ∃ b : α, Db.find? (s.db.apply tx.writes) (Record.id a) = some b ∧
      (Record.row b).frozen = (Record.row a).frozen := by
  have whole := List.mem_flatMap.mpr ⟨d, ran, mem⟩
  obtain ⟨r, found, same⟩ := Txn.Store.get?_apply_mem durable.valid (unit_frozen durable) whole
  exact find_frozen ((Record.key_row a).symm ▸ found) same

/- What a unit inserts was not there before it. -/
theorem unit_new {α : Type} [Record α] {a : α} (durable : Durable (protocol κ cfg) s pid p tx)
    {d : Txn.Done Row lang} (ran : d ∈ tx.done) (mem : ⟨none, Record.row a⟩ ∈ d.writes) :
    Db.find? s.db (Record.id a) = (none : Option α) := by
  have whole := List.mem_flatMap.mpr ⟨d, ran, mem⟩
  have absent := Txn.Store.get?_of_inserted durable.valid whole rfl
  exact Db.find?_none.mpr (Record.key_row a ▸ absent)

theorem unit_inserted {α : Type} [Record α] {id : Uuid} {a : α}
    (durable : Durable (protocol κ cfg) s pid p tx) (absent : Db.find? s.db id = (none : Option α))
    (found : Db.find? (s.db.apply tx.writes) id = some a) :
    ∃ d ∈ tx.done, ∃ b : α, ⟨none, Record.row b⟩ ∈ d.writes ∧
      (Record.row a).frozen = (Record.row b).frozen := by
  obtain ⟨⟨before, after⟩, whole, rfl, key, same⟩ := Txn.Store.get?_apply_new durable.valid
    (unit_frozen durable) (Db.find?_none.mp absent) (Db.find?_eq_some.mp found)
  obtain ⟨d, ran, mem⟩ := Txn.mem_writes whole
  obtain ⟨b, typed⟩ := Option.isSome_iff_exists.mp
    (Record.ofRow_table (α := α) (r := after) (congrArg Key.table key))
  obtain rfl := Record.ofRow_iff.mp typed
  exact ⟨d, ran, b, mem, same⟩

theorem unit_allowed (durable : Durable (protocol κ cfg) s pid p tx) :
    Commits κ cfg p.calls p.job (tx.done.map Txn.Done.ran) ∨
      ∃ d, tx.done = [d] ∧ Alone cfg p.calls p.job d.stmt := by
  rcases durable.allowed with ⟨inside, unit, same, commits⟩ | ⟨outside, d, _, one, alone, _⟩
  · have eq : some (tx.done.map Txn.Done.ran) = some unit := by
      rw [← same]
      simp [Txn.Proc.past, inside]
    exact .inl (Option.some.inj eq ▸ commits)
  · refine .inr ⟨d, one, ?_⟩
    have none : p.past.tx = none := by simp [Txn.Proc.past, outside]
    simp only [protocol, allows, none] at alone
    exact alone

end Unit

section Units

variable {κ : Prims} {cfg : DispatcherConfig} {w : String} {d : Delivery} {calls : Calls}
  {unit : List Ran}

theorem Settles.targets (h : Settles κ cfg w d calls unit) :
    (unit.map fun x => x.1.target).Nodup := by
  cases h <;> simp [Stmt.target, circuitRan]

theorem Settles.mem_succeeded {id : Uuid} {worker : String} {n : Int32} {out : Bool}
    (h : Settles κ cfg w d calls unit) (mem : ran (.markSucceeded id worker n) out ∈ unit) :
    ∃ e now req a, Tried κ cfg d calls e now req a ∧ Succeeded calls req a ∧ id = d.id ∧
      worker = w ∧ n = a.attemptNumber ∧
      unit = [ran (.recordAttempt a) (), ran (.markSucceeded d.id w a.attemptNumber) true,
        circuitRan e.id Circuit.onSuccess] := by
  cases h with
  | succeeded tried succeeded =>
    simp [circuitRan] at mem
    obtain ⟨rfl, rfl, rfl⟩ := mem.1
    exact ⟨_, _, _, _, tried, succeeded, rfl, rfl, rfl, rfl⟩
  | _ => simp [circuitRan] at mem

theorem Settles.mem_failed {id : Uuid} {worker : String} {n : Int32} {next : Time}
    {error : String} {out : Bool} (h : Settles κ cfg w d calls unit)
    (mem : ran (.markFailed id worker n next error) out ∈ unit) :
    ∃ e now req a t, Tried κ cfg d calls e now req a ∧ Failed calls req a error ∧
      cfg.retry.isExhausted a.attemptNumber = false ∧ id = d.id ∧ worker = w ∧
      n = a.attemptNumber ∧
      unit = [ran (.recordAttempt a) (), ran (.markFailed d.id w a.attemptNumber next error) true,
        circuitRan e.id (Circuit.onFailure e cfg.circuit t)] := by
  cases h with
  | failed tried failed left =>
    simp [circuitRan] at mem
    obtain ⟨rfl, rfl, rfl, rfl, rfl⟩ := mem.1
    exact ⟨_, _, _, _, _, tried, failed, left, rfl, rfl, rfl, rfl⟩
  | _ => simp [circuitRan] at mem

theorem Settles.mem_dead {id : Uuid} {worker reason : String} {out : Bool}
    (h : Settles κ cfg w d calls unit) (mem : ran (.markDeadUpdate id worker reason) out ∈ unit) :
    id = d.id ∧ worker = w ∧
      ((∃ e now req a fresh t, Tried κ cfg d calls e now req a ∧ Failed calls req a reason ∧
        cfg.retry.isExhausted a.attemptNumber = true ∧
        unit = [ran (.recordAttempt a) (), ran (.markDeadUpdate d.id w reason) true,
          ran (.insertDeadLetter fresh d.id d.eventId d.endpointId reason) (),
          circuitRan e.id (Circuit.onFailure e cfg.circuit t)]) ∨
       (∃ fresh, Hopeless κ d calls ∧
        unit = [ran (.markDeadUpdate d.id w reason) true,
          ran (.insertDeadLetter fresh d.id d.eventId d.endpointId reason) ()])) := by
  cases h with
  | exhausted tried failed spent =>
    simp [circuitRan] at mem
    obtain ⟨rfl, rfl, rfl⟩ := mem.1
    exact ⟨rfl, rfl, .inl ⟨_, _, _, _, _, _, tried, failed, spent, rfl⟩⟩
  | hopeless hopeless =>
    simp at mem
    obtain ⟨rfl, rfl, rfl⟩ := mem.1
    exact ⟨rfl, rfl, .inr ⟨_, hopeless, rfl⟩⟩
  | _ => simp [circuitRan] at mem

/-- The statements of an outcome. -/
inductive Closing (cfg : DispatcherConfig) (w : String) (d : Delivery) : Ran → Prop where
  | attempt {a} : Closing cfg w d (ran (.recordAttempt a) ())
  | succeeded {n} : Closing cfg w d (ran (.markSucceeded d.id w n) true)
  | failed {n next error} : Closing cfg w d (ran (.markFailed d.id w n next error) true)
  | dead {reason} : Closing cfg w d (ran (.markDeadUpdate d.id w reason) true)
  | letter {fresh reason} :
      Closing cfg w d (ran (.insertDeadLetter fresh d.id d.eventId d.endpointId reason) ())
  | circuit {id u} (next : u = Circuit.onSuccess ∨ ∃ e t, u = Circuit.onFailure e cfg.circuit t) :
      Closing cfg w d (circuitRan id u)

theorem Settles.closing {x : Ran} (h : Settles κ cfg w d calls unit) (mem : x ∈ unit) :
    Closing cfg w d x := by
  cases h <;> simp only [List.mem_cons, List.not_mem_nil, or_false] at mem
  case succeeded =>
    rcases mem with rfl | rfl | rfl
    · exact .attempt
    · exact .succeeded
    · exact .circuit (.inl rfl)
  case failed =>
    rcases mem with rfl | rfl | rfl
    · exact .attempt
    · exact .failed
    · exact .circuit (.inr ⟨_, _, rfl⟩)
  case exhausted =>
    rcases mem with rfl | rfl | rfl | rfl
    · exact .attempt
    · exact .dead
    · exact .letter
    · exact .circuit (.inr ⟨_, _, rfl⟩)
  case hopeless =>
    rcases mem with rfl | rfl
    · exact .dead
    · exact .letter

theorem mem_fanOut {eventId : Uuid} {tenant : String} {es : List Endpoint} {ids : List Uuid}
    {x : Ran} (mem : x ∈ fanOut eventId tenant es ids) :
    ∃ e ∈ es, ∃ id ∈ ids, x = ran (.insertDelivery id eventId e.id tenant) () := by
  simp only [fanOut, List.mem_iff_getElem, List.getElem_zipWith] at mem
  obtain ⟨i, hi, eq⟩ := mem
  have bound : i < es.length ∧ i < ids.length := by simpa using hi
  exact ⟨_, List.getElem_mem bound.1, _, List.getElem_mem bound.2, eq.symm⟩

theorem Publishes.mem_cases {tenant : String} {consumer : Option Uuid} {type : String}
    {payload : Value} {enq : Enqueued} (h : Publishes tenant consumer type payload enq unit)
    {x : Ran} (mem : x ∈ unit) :
    (∃ row, x = ran (.insertEvent enq.eventId tenant consumer type payload) row) ∨
    (∃ es, x = ran (.activeEndpointsForScope tenant consumer) es) ∨
    ∃ e : Endpoint, ∃ id ∈ enq.deliveryIds,
      x = ran (.insertDelivery id enq.eventId e.id tenant) () := by
  cases h with
  | mk each =>
    rcases List.mem_cons.mp mem with rfl | mem
    · exact .inl ⟨_, rfl⟩
    · rcases List.mem_cons.mp mem with rfl | mem
      · exact .inr (.inl ⟨_, rfl⟩)
      · obtain ⟨e, _, id, hid, rfl⟩ := mem_fanOut mem
        exact .inr (.inr ⟨e, id, hid, rfl⟩)

theorem Bridges.mem_cases {source : InboundSource} {key : Option String} {type : String}
    {raw : Bytes} {payload : Value} {stored : Uuid} {enq : Enqueued}
    (h : Bridges source key type raw payload stored enq unit) {x : Ran} (mem : x ∈ unit) :
    (∃ id, x = ran (.insertInboundEvent id source.id source.tenantId key type raw) (some stored)) ∨
    (∃ row, x = ran (.insertEvent enq.eventId source.tenantId none type payload) row) ∨
    (∃ es, x = ran (.activeEndpointsForScope source.tenantId none) es) ∨
    (∃ e : Endpoint, ∃ id ∈ enq.deliveryIds,
      x = ran (.insertDelivery id enq.eventId e.id source.tenantId) ()) ∨
    x = ran (.linkInboundEvent stored enq.eventId) () := by
  cases h with
  | mk inner =>
    rcases List.mem_cons.mp mem with rfl | mem
    · exact .inl ⟨_, rfl⟩
    · rcases List.mem_append.mp mem with mem | mem
      · exact .inr ((inner.mem_cases mem).imp_right (·.imp_right .inl))
      · exact .inr (.inr (.inr (.inr (List.mem_singleton.mp mem))))

inductive Filing : Ran → Prop where
  | inbound {id source tenant key type raw stored} :
      Filing (ran (.insertInboundEvent id source tenant key type raw) stored)
  | event {id tenant consumer type payload row} :
      Filing (ran (.insertEvent id tenant consumer type payload) row)
  | endpoints {tenant consumer es} : Filing (ran (.activeEndpointsForScope tenant consumer) es)
  | delivery {id event endpoint tenant} : Filing (ran (.insertDelivery id event endpoint tenant) ())
  | link {inbound event} : Filing (ran (.linkInboundEvent inbound event) ())

theorem Commits.settles_or_files {job : Job} (commits : Commits κ cfg calls job unit) :
    (∃ w d, job = .processOne w d ∧ Settles κ cfg w d calls unit) ∨ ∀ x ∈ unit, Filing x := by
  cases commits with
  | settle settles => exact .inl ⟨_, _, rfl, settles⟩
  | publish may publishes =>
    refine .inr fun x mem => ?_
    rcases publishes.mem_cases mem with ⟨_, rfl⟩ | ⟨_, rfl⟩ | ⟨_, _, _, rfl⟩
    · exact .event
    · exact .endpoints
    · exact .delivery
  | bridge may bridges =>
    refine .inr fun x mem => ?_
    rcases bridges.mem_cases mem with ⟨_, rfl⟩ | ⟨_, rfl⟩ | ⟨_, rfl⟩ | ⟨_, _, _, rfl⟩ | rfl
    · exact .inbound
    · exact .event
    · exact .endpoints
    · exact .delivery
    · exact .link

end Units

section Turn

variable (κ : Prims) (cfg : DispatcherConfig)

/-- What a durable unit does to a delivery row, and which job did it. -/
inductive Turn (calls : Calls) (now : Time) : Job → List Ran → Option Delivery → Delivery →
    Prop where
  | published {job unit id event endpoint tenant}
      (mem : ran (.insertDelivery id event endpoint tenant) () ∈ unit)
      (commits : Commits κ cfg calls job unit) :
      Turn calls now job unit none (Store.newDelivery id event endpoint tenant now)
  | claimed {w out r} (first : calls = []) (due : Store.due now r = true)
      (mem : Store.claim w cfg.lockSecs now r ∈ out) :
      Turn calls now (.claim w) [ran (.claimDueDeliveries w cfg.batchSize cfg.lockSecs) out]
        (some r) (Store.claim w cfg.lockSecs now r)
  | succeeded {w d e t req a r} (tried : Tried κ cfg d calls e t req a)
      (succeeded : Succeeded calls req a) (same : r.id = d.id)
      (leased : Store.leased w now r = true) :
      Turn calls now (.processOne w d)
        [ran (.recordAttempt a) (), ran (.markSucceeded d.id w a.attemptNumber) true,
          circuitRan e.id Circuit.onSuccess] (some r)
        (Store.released now
          { r with status := .succeeded, attemptCount := a.attemptNumber, lastError := none })
  | failed {w d e t req a error next at_ r} (tried : Tried κ cfg d calls e t req a)
      (failed : Failed calls req a error)
      (left : cfg.retry.isExhausted a.attemptNumber = false) (same : r.id = d.id)
      (leased : Store.leased w now r = true) :
      Turn calls now (.processOne w d)
        [ran (.recordAttempt a) (), ran (.markFailed d.id w a.attemptNumber next error) true,
          circuitRan e.id (Circuit.onFailure e cfg.circuit at_)] (some r)
        (Store.released now
          { r with status := .failed, attemptCount := a.attemptNumber, nextAttemptAt := next,
                   lastError := some error })
  | exhausted {w d e t req a error fresh at_ r} (tried : Tried κ cfg d calls e t req a)
      (failed : Failed calls req a error)
      (spent : cfg.retry.isExhausted a.attemptNumber = true) (same : r.id = d.id)
      (leased : Store.leased w now r = true) :
      Turn calls now (.processOne w d)
        [ran (.recordAttempt a) (), ran (.markDeadUpdate d.id w error) true,
          ran (.insertDeadLetter fresh d.id d.eventId d.endpointId error) (),
          circuitRan e.id (Circuit.onFailure e cfg.circuit at_)] (some r)
        (Store.released now { r with status := .dead, lastError := some error })
  | hopeless {w d reason fresh r} (hopeless : Hopeless κ d calls) (same : r.id = d.id)
      (leased : Store.leased w now r = true) :
      Turn calls now (.processOne w d)
        [ran (.markDeadUpdate d.id w reason) true,
          ran (.insertDeadLetter fresh d.id d.eventId d.endpointId reason) ()] (some r)
        (Store.released now { r with status := .dead, lastError := some reason })
  | deferred {w d next r} (same : r.id = d.id) (leased : Store.leased w now r = true) :
      Turn calls now (.processOne w d) [ran (.deferDelivery d.id w next) true] (some r)
        (Store.released now { r with status := .failed, nextAttemptAt := next })
  | reset {job r} (admin : ∀ w d, job ≠ .processOne w d) :
      Turn calls now job [ran (.resetForReplay r.id) true] (some r)
        (Store.released now { r with status := .pending, nextAttemptAt := now })

variable {κ cfg} {s : State} {pid : Pid} {p : Proc} {tx : Txn.Tx Row Time lang} {calls : Calls}
  {now : Time} {job : Job}

theorem alone_outside {q : Stmt} (alone : Alone cfg calls job q) :
    q.target ≠ some .events ∧ q.target ≠ some .deliveryAttempts ∧ q.target ≠ some .deadLetters ∧
      q.target ≠ some .inboundEvents := by
  have quiet : q.target = none → q.target ≠ some .events ∧ q.target ≠ some .deliveryAttempts ∧
      q.target ≠ some .deadLetters ∧ q.target ≠ some .inboundEvents := by
    intro none
    simp [none]
  have admin : Admin calls q → q.target ≠ some .events ∧ q.target ≠ some .deliveryAttempts ∧
      q.target ≠ some .deadLetters ∧ q.target ≠ some .inboundEvents := by
    intro admin
    cases admin with
    | read none => exact quiet none
    | _ => simp [Stmt.target]
  cases job with
  | claim w =>
    obtain ⟨rfl, _⟩ := alone
    simp [Stmt.target]
  | processOne w d => cases alone <;> simp [Stmt.target]
  | enqueueMessage | accept => cases alone
  | ingest => exact quiet alone
  | updateEndpoint | resetForReplay | serve | command => exact admin alone

theorem alone_deliveries {q : Stmt} (alone : Alone cfg calls job q)
    (place : q.target = some .deliveries) :
    (∃ w, job = .claim w ∧ q = .claimDueDeliveries w cfg.batchSize cfg.lockSecs ∧ calls = []) ∨
    (∃ w d next, job = .processOne w d ∧ q = .deferDelivery d.id w next) ∨
    (∃ id, q = .resetForReplay id ∧ ∀ w d, job ≠ .processOne w d) := by
  have admin : ∀ {job : Job}, (∀ w d, job ≠ .processOne w d) → Admin calls q →
      ∃ id, q = .resetForReplay id ∧ ∀ w d, job ≠ .processOne w d := by
    intro job other admin
    cases admin with
    | read quiet => cases quiet.symm.trans place
    | resetForReplay => exact ⟨_, rfl, other⟩
    | _ => cases place
  cases job with
  | claim w => exact .inl ⟨w, rfl, alone⟩
  | processOne w d =>
    cases alone with
    | defer read => exact .inr (.inl ⟨w, d, _, rfl, rfl⟩)
    | _ => cases place
  | enqueueMessage | accept => cases alone
  | ingest => cases (show q.target = none from alone).symm.trans place
  | updateEndpoint | resetForReplay | serve | command =>
    exact .inr (.inr (admin (fun _ _ => nofun) alone))

theorem wrote_target {q : Stmt} {out : q.Out} {b : Option Delivery} {r : Delivery}
    (wrote : Wrote now q out b r) : q.target = some .deliveries := by
  cases wrote <;> rfl

theorem turn_alone {q : Stmt} {out : q.Out} {b : Option Delivery} {r : Delivery}
    (alone : Alone cfg calls job q) (wrote : Wrote now q out b r) :
    Turn κ cfg calls now job [ran q out] b r := by
  rcases alone_deliveries alone (wrote_target wrote) with
    ⟨w, rfl, rfl, first⟩ | ⟨w, d, next, rfl, rfl⟩ | ⟨id, rfl, other⟩
  · cases wrote with
    | claimed due mem => exact .claimed first due mem
  · generalize target : d.id = id at wrote
    cases wrote with
    | deferred leased =>
      have turn : Turn κ cfg calls now _ [ran (.deferDelivery d.id w next) true] _ _ :=
        .deferred target.symm leased
      rw [target] at turn
      exact turn
  · cases wrote with
    | reset => exact .reset other

theorem turn_commits {unit : List Ran} {q : Stmt} {out : q.Out} {b : Option Delivery}
    {r : Delivery} (commits : Commits κ cfg calls job unit) (mem : ran q out ∈ unit)
    (wrote : Wrote now q out b r) : Turn κ cfg calls now job unit b r := by
  rcases commits.settles_or_files with ⟨w, d, rfl, settles⟩ | files
  · cases wrote with
    | inserted => exact .published mem commits
    | claimed due found => cases settles <;> simp [circuitRan] at mem
    | succeeded leased =>
      obtain ⟨e, t, req, a, tried, ok, same, rfl, rfl, rfl⟩ := settles.mem_succeeded mem
      exact .succeeded tried ok same leased
    | failed leased =>
      obtain ⟨e, t, req, a, at_, tried, bad, left, same, rfl, rfl, rfl⟩ := settles.mem_failed mem
      exact .failed tried bad left same leased
    | deferred leased => cases settles <;> simp [circuitRan] at mem
    | dead leased =>
      obtain ⟨same, rfl, ⟨e, t, req, a, fresh, at_, tried, bad, spent, rfl⟩ |
        ⟨fresh, hopeless, rfl⟩⟩ := settles.mem_dead mem
      · exact .exhausted tried bad spent same leased
      · exact .hopeless hopeless same leased
    | reset => cases settles <;> simp [circuitRan] at mem
  · have place := wrote_target wrote
    have filing := files _ mem
    generalize eq : ran q out = x at filing
    cases filing with
    | delivery =>
      cases eq
      cases wrote with
      | inserted => exact .published mem commits
    | _ =>
      cases eq
      cases place

theorem turn_first {unit : List Ran} {b r : Delivery} {pre post : List Ran} {q : Stmt} {out : q.Out}
    (commits : Commits κ cfg calls job unit) (split : unit = pre ++ ran q out :: post)
    (wrote : Wrote now q out (some b) r) : ∀ x ∈ pre, x.1.target ≠ some .deliveries := by
  have place := wrote_target wrote
  rcases commits.settles_or_files with ⟨w, d, rfl, settles⟩ | files
  · have apart := settles.targets
    rw [split, List.map_append, List.map_cons, List.nodup_append] at apart
    intro x hx same
    refine apart.2.2 _ (List.mem_map_of_mem hx) _ List.mem_cons_self ?_
    exact same.trans place.symm
  · have filing := files (ran q out) (split ▸ List.mem_append_right _ List.mem_cons_self)
    generalize eq : ran q out = x at filing
    cases filing with
    | delivery =>
      cases eq
      cases wrote
    | _ =>
      cases eq
      cases place

/-- The inversion lemma for delivery rows. -/
theorem delivery_turn (durable : Durable (protocol κ cfg) s pid p tx) {id : Uuid} {r : Delivery}
    (h : Db.find? (s.db.apply tx.writes) id = some r) :
    Db.find? s.db id = some r ∨
      Turn κ cfg p.calls tx.time p.job (tx.done.map Txn.Done.ran) (Db.find? s.db id) r := by
  rcases row_written durable h with
    old | ⟨pre, q, out, ws, post, w, c, view, done, exec, mem, after, row⟩
  · exact .inl old
  · refine .inr ?_
    obtain ⟨b, before, wrote⟩ := wrote_delivery exec mem after
    have unit : tx.done.map Txn.Done.ran =
        pre.map Txn.Done.ran ++ ran q out :: post.map Txn.Done.ran := by
      rw [done, List.map_append, List.map_cons]
      rfl
    rcases unit_allowed durable with commits | ⟨one, eq, alone⟩
    · rw [row b before]
      · exact turn_commits commits (unit ▸ List.mem_append_right _ List.mem_cons_self) wrote
      · cases b with
        | none => exact .inr rfl
        | some b => exact .inl (turn_first commits unit wrote)
    · obtain ⟨rfl, rfl, rfl⟩ := alone_split eq done
      rw [row b before (.inl fun x hx => by cases hx), unit]
      exact turn_alone alone wrote

/-- A delivery after a unit: an earlier one, with its fixed columns, or one just published. -/
theorem delivery_cases (durable : Durable (protocol κ cfg) s pid p tx) {id : Uuid} {d : Delivery}
    (found : Db.find? (s.db.apply tx.writes) id = some d) :
    (∃ r, Db.find? s.db id = some r ∧ (Row.delivery d).frozen = (Row.delivery r).frozen) ∨
      ∃ event endpoint tenant, d = Store.newDelivery id event endpoint tenant tx.time ∧
        ran (.insertDelivery id event endpoint tenant) () ∈ tx.done.map Txn.Done.ran ∧
        Commits κ cfg p.calls p.job (tx.done.map Txn.Done.ran) := by
  rcases delivery_turn durable found with here | turn
  · exact .inl ⟨d, here, rfl⟩
  · generalize job : p.job = job' at turn ⊢
    generalize tx.done.map Txn.Done.ran = unit at turn ⊢
    generalize before : (Db.find? s.db id : Option Delivery) = b at turn
    cases turn with
    | published mem commits =>
      obtain rfl := Db.find?_id found
      exact .inr ⟨_, _, _, rfl, mem, commits⟩
    | _ => exact .inl ⟨_, rfl, rfl⟩

end Turn

section Marks

/- An outcome statement that updated its row: the row, and the worker it acted for. -/
def marked : Ran → Option (Uuid × String)
  | ⟨.markSucceeded id w _, out⟩ => if out = true then some (id, w) else none
  | ⟨.markFailed id w _ _ _, out⟩ => if out = true then some (id, w) else none
  | ⟨.deferDelivery id w _, out⟩ => if out = true then some (id, w) else none
  | ⟨.markDeadUpdate id w _, out⟩ => if out = true then some (id, w) else none
  | _ => none

variable {κ : Prims} {cfg : DispatcherConfig} {s : State} {pid : Pid} {p : Proc}
  {tx : Txn.Tx Row Time lang} {now : Time} {id : Uuid} {w : String}

theorem underLease_row {db : Db} {set : Delivery → Delivery} {out : Bool} {ws : List Write}
    (run : Store.underLease id w set now db = (out, ws)) (yes : out = true) :
    ∃ r r', r.id = id ∧ Store.leased w now r = true ∧ r'.lockedBy = none ∧
      ws = [Store.amended r r'] := by
  obtain ⟨rfl, rfl⟩ := Prod.mk.inj run
  rcases Store.update_cases db id (Store.leased w now)
    (fun d => { set d with lockedBy := none, lockedUntil := none, updatedAt := now }) with
    ⟨r, found, leased, eq⟩ | ⟨_, eq⟩
  · exact ⟨r, _, Db.find?_id found, leased, rfl, congrArg Prod.snd eq⟩
  · have no : (Store.underLease id w set now db).1 = false := congrArg (fun x => x.1.isSome) eq
    cases yes.symm.trans no

theorem marked_writes {q : Stmt} {out : q.Out} {ws : List Write} {c : List Uuid} {view : Db}
    (exec : q.exec now c view = .ok (out, ws)) (marks : marked (ran q out) = some (id, w)) :
    q.target = some .deliveries ∧
      ∃ r r' : Delivery, r.id = id ∧ Store.leased w now r = true ∧ r'.lockedBy = none ∧
        ws = [Store.amended r r'] := by
  have run := Stmt.exec_ok exec
  cases q with
  | markSucceeded | markFailed | deferDelivery | markDeadUpdate =>
    simp only [marked, Option.ite_none_right_eq_some] at marks
    obtain ⟨yes, eq⟩ := marks
    cases eq
    exact ⟨rfl, underLease_row (Except.ok.inj run) yes⟩
  | _ => cases marks

theorem marked_job {calls : Calls} {job : Job} {unit : List Ran} {x : Ran}
    (commits : Commits κ cfg calls job unit) (mem : x ∈ unit) (marks : marked x = some (id, w)) :
    (∃ d, job = .processOne w d ∧ id = d.id) ∧ (unit.map fun x => x.1.target).Nodup := by
  rcases commits.settles_or_files with ⟨w, d, rfl, settles⟩ | files
  · refine ⟨?_, settles.targets⟩
    cases settles.closing mem <;> cases marks <;> exact ⟨_, rfl, rfl⟩
  · cases files x mem <;> cases marks

theorem marked_apart (durable : Durable (protocol κ cfg) s pid p tx) {x : Ran}
    (mem : x ∈ tx.done.map Txn.Done.ran) (marks : marked x = some (id, w)) :
    (∃ d, p.job = .processOne w d ∧ id = d.id) ∧
      (tx.done.map fun e => e.stmt.target).Nodup := by
  rcases unit_allowed durable with commits | ⟨one, eq, alone⟩
  · obtain ⟨job, apart⟩ := marked_job commits mem marks
    rw [List.map_map] at apart
    exact ⟨job, apart⟩
  · rw [eq] at mem ⊢
    refine ⟨?_, List.nodup_singleton _⟩
    obtain rfl := List.mem_singleton.mp mem
    obtain ⟨c, view, exec⟩ := durable.ran one (eq ▸ List.mem_cons_self)
    obtain ⟨place, _⟩ := marked_writes exec marks
    rcases alone_deliveries alone place with
      ⟨_, _, same, _⟩ | ⟨w', d, next, job, same⟩ | ⟨_, same, _⟩
    · obtain ⟨q, out, ws⟩ := one
      cases same
      cases marks
    · obtain ⟨q, out, ws⟩ := one
      cases same
      simp only [Txn.Done.ran, marked, Option.ite_none_right_eq_some] at marks
      obtain ⟨_, eq⟩ := marks
      obtain ⟨same, rfl⟩ := Prod.mk.inj (Option.some.inj eq)
      exact ⟨d, job, same.symm⟩
    · obtain ⟨q, out, ws⟩ := one
      cases same
      cases marks

/-- An outcome statement acts for the job's own delivery and worker, on a row that the
worker's lease is on when the unit becomes durable, and its turn of the row stands after it. -/
theorem marked_row (durable : Durable (protocol κ cfg) s pid p tx) {x : Ran}
    (mem : x ∈ tx.done.map Txn.Done.ran) (marks : marked x = some (id, w)) :
    ∃ d r r', p.job = .processOne w d ∧ id = d.id ∧ Db.find? s.db id = some r ∧
      Store.leased w tx.time r = true ∧ Db.find? (s.db.apply tx.writes) id = some r' ∧
      Turn κ cfg p.calls tx.time p.job (tx.done.map Txn.Done.ran) (some r) r' := by
  obtain ⟨⟨d, job, same⟩, apart⟩ := marked_apart durable mem marks
  obtain ⟨⟨q, out, ws⟩, hd, rfl⟩ := List.mem_map.mp mem
  obtain ⟨pre, post, done⟩ := List.append_of_mem hd
  obtain ⟨c, view, exec⟩ := durable.ran _ hd
  obtain ⟨place, r, r', own, leased, released, rfl⟩ := marked_writes exec marks
  have frozen := (Stmt.exec_shape exec).keeps_frozen _ List.mem_cons_self _ rfl
  have key : (Row.delivery r').key = (Row.delivery r).key := (Row.amends_of_frozen frozen).1
  rw [done, List.map_append, List.map_cons, List.nodup_append, List.nodup_cons] at apart
  have before : Db.find? s.db id = some r := by
    have old := replaced durable done List.mem_cons_self fun e he target => ?_
    · rw [show (Store.amended r r').after.key = (Row.delivery r).key from key] at old
      exact own ▸ Db.find?_eq_some.mpr old
    · exact apart.2.2 _ (List.mem_map_of_mem he) _ List.mem_cons_self (target.trans place.symm)
  have after : Db.find? (s.db.apply tx.writes) id = some r' := by
    have row := unit_written (a := r') durable done List.mem_cons_self rfl fun e he target => ?_
    · have ids : r'.id = r.id := congrArg Key.id key
      rw [← own, ← ids]
      exact row
    · exact apart.2.1.1 (place.trans target.symm ▸ List.mem_map_of_mem he)
  refine ⟨d, r, r', job, same, before, leased, after, ?_⟩
  rcases delivery_turn durable after with old | turn
  · obtain rfl : r = r' := Option.some.inj (before.symm.trans old)
    simp only [Store.leased, decide_eq_true_eq, released] at leased
    cases leased.1
  · rw [before] at turn
    exact turn

end Marks

section Appended

variable {κ : Prims} {cfg : DispatcherConfig} {s : State} {pid : Pid} {p : Proc}
  {tx : Txn.Tx Row Time lang} {α : Type} [Record α]

/- What the statements append to a table that is never updated. -/
def Appends (new : Ran → Option α) (now : Time) : Prop :=
  ∀ q out ws c (view : Db), Stmt.exec q now c view = .ok (out, ws) →
    (∀ w ∈ ws, w.after.key.table = Record.table α → w.before = none) ∧
      (ws.filterMap fun w => Record.ofRow w.after) = (new (ran q out)).toList

theorem all_filed {new : Ran → Option α} (durable : Durable (protocol κ cfg) s pid p tx)
    (each : ∀ d ∈ tx.done,
      (∀ w ∈ d.writes, w.after.key.table = Record.table α → w.before = none) ∧
        (d.writes.filterMap fun w => Record.ofRow w.after) = (new d.ran).toList) :
    Db.all α (s.db.apply tx.writes) = Db.all α s.db ++ (tx.done.map Txn.Done.ran).filterMap
      new := by
  rw [Db.all_apply_fresh durable.valid]
  · rw [Txn.Tx.writes, List.filterMap_flatMap, List.filterMap_map, List.filterMap_eq_flatMap_toList]
    refine congrArg (_ ++ ·) (List.flatMap_congr fun d hd => ?_)
    exact (each d hd).2
  · intro w hw place
    obtain ⟨d, hd, hw⟩ := Txn.mem_writes hw
    exact (each d hd).1 w hw place

theorem all_after {new : Ran → Option α} (appends : Appends new tx.time)
    (durable : Durable (protocol κ cfg) s pid p tx) :
    Db.all α (s.db.apply tx.writes) = Db.all α s.db ++ (tx.done.map Txn.Done.ran).filterMap
      new := by
  refine all_filed durable fun d hd => ?_
  obtain ⟨c, view, exec⟩ := durable.ran d hd
  exact appends _ _ _ c view exec

theorem reach_appended {cond : State → State → Prop} {db : Db} {t : State}
    (new : Time → Ran → Option α) (appends : ∀ now, Appends (new now) now)
    (reach : Run κ cfg cond db s) (later : Txn.Reach (engine κ cfg) cond s t) :
    Db.all α s.db <+: Db.all α t.db := by
  refine Txn.reach_db (protocol κ cfg) (fun db => Db.all α s.db <+: Db.all α db) reach
    (List.prefix_refl _) ?_ later
  intro a pid p tx _ durable before
  rw [all_after (appends tx.time) durable]
  exact before.trans (List.prefix_append _ _)

theorem appends_other {q : Stmt} {now : Time} {out ws c} {view : Db}
    (exec : q.exec now c view = .ok (out, ws)) (other : q.target ≠ some (Record.table α)) :
    (∀ w ∈ ws, w.after.key.table = Record.table α → w.before = none) ∧
      (ws.filterMap fun w => (Record.ofRow w.after : Option α)) = [] := by
  have outside : ∀ w ∈ ws, w.after.key.table ≠ Record.table α := fun w hw same =>
    other (((Stmt.exec_shape exec).in_table w hw).trans (congrArg some same))
  exact ⟨fun w hw same => absurd same (outside w hw), Db.filterMap_outside outside⟩

theorem appends_insert {a : α} {ws : List Write} {view : Db} (h : Store.insert view a = .ok ws) :
    (∀ w ∈ ws, w.after.key.table = Record.table α → w.before = none) ∧
      (ws.filterMap fun w => (Record.ofRow w.after : Option α)) = [a] := by
  obtain ⟨rfl, _⟩ := Store.insert_ok h
  have own : Record.ofRow (Record.row a) = some a := Record.ofRow_iff.mpr rfl
  refine ⟨fun w hw _ => ?_, by simp [own]⟩
  rw [List.mem_singleton.mp hw]

def attemptOf : Ran → Option DeliveryAttempt
  | ⟨.recordAttempt a, _⟩ => some a
  | _ => none

theorem attempts_appended (now : Time) : Appends attemptOf now := by
  intro q out ws c view exec
  cases q with
  | recordAttempt a => exact appends_insert (Store.recordAttempt_ok (Stmt.exec_ok exec)).2
  | _ => exact appends_other exec nofun

def deadLetterOf (now : Time) : Ran → Option DeadLetter
  | ⟨.insertDeadLetter id delivery event endpoint reason, _⟩ =>
      some ⟨id, delivery, event, endpoint, some reason, now⟩
  | _ => none

theorem deadLetters_appended (now : Time) : Appends (deadLetterOf now) now := by
  intro q out ws c view exec
  cases q with
  | insertDeadLetter => exact appends_insert (Store.insertDeadLetter_ok (Stmt.exec_ok exec)).2
  | _ => exact appends_other exec nofun

def eventOf (now : Time) : Ran → Option Event
  | ⟨.insertEvent id tenant consumer type payload, _⟩ =>
      some ⟨id, tenant, consumer, type, payload, now⟩
  | _ => none

theorem events_appended (now : Time) : Appends (eventOf now) now := by
  intro q out ws c view exec
  cases q with
  | insertEvent =>
    obtain ⟨rfl, _, inserted⟩ := Store.insertEvent_ok (Stmt.exec_ok exec)
    exact appends_insert inserted
  | _ => exact appends_other exec nofun

end Appended

end Dropless
