import Dropless.Fencing

namespace Dropless

open Txn (Durable)

variable {κ : Prims} {cfg : DispatcherConfig} {cond : State → State → Prop} {db : Db}
  {s t : State} {pid : Pid} {p : Proc} {tx : Txn.Tx Row Time lang}

section References

/-- The event and the endpoint of a delivery are there. -/
def Referenced (db : Db) (d : Delivery) : Prop :=
  (∃ e : Event, db.find? d.eventId = some e) ∧ ∃ e : Endpoint, db.find? d.endpointId = some e

theorem Referenced.kept {db db' : Db} {d d' : Delivery} (here : Referenced db d)
    (event : d'.eventId = d.eventId) (endpoint : d'.endpointId = d.endpointId)
    (kept : ∀ k r, db.get? k = some r → ∃ r', db'.get? k = some r' ∧ r'.frozen = r.frozen) :
    Referenced db' d' := by
  obtain ⟨⟨ev, hv⟩, e, he⟩ := here
  obtain ⟨ev', hv', _⟩ := find_kept kept hv
  obtain ⟨e', he', _⟩ := find_kept kept he
  exact ⟨⟨ev', event ▸ hv'⟩, e', endpoint ▸ he'⟩

theorem references_find {α : Type} [Record α] {db : Db} {id : Uuid}
    (h : Store.references α db id = .ok ()) : ∃ a : α, db.find? id = some a := by
  unfold Store.references at h
  split at h
  · exact Option.isSome_iff_exists.mp ‹_›
  · cases h

theorem inserted_referenced {id event endpoint : Uuid} {tenant : String}
    (reach : Run κ cfg cond db s) (durable : Durable (protocol κ cfg) s pid p tx)
    (mem : ran (.insertDelivery id event endpoint tenant) () ∈ tx.done.map Txn.Done.ran) :
    Referenced (s.db.apply tx.writes) (Store.newDelivery id event endpoint tenant tx.time) := by
  obtain ⟨d, hd, eq⟩ := List.mem_map.mp mem
  obtain ⟨ws, rfl⟩ := Txn.done_of_ran eq
  obtain ⟨pre, post, done⟩ := List.append_of_mem hd
  obtain ⟨c, view, exec, kept⟩ := unit_view reach durable done
  obtain ⟨event_, endpoint_, _⟩ := Store.insertDelivery_ok (Stmt.exec_ok exec)
  obtain ⟨ev, hv⟩ := references_find event_
  obtain ⟨e, he⟩ := references_find endpoint_
  have here : Referenced view (Store.newDelivery id event endpoint tenant tx.time) :=
    ⟨⟨ev, hv⟩, e, he⟩
  exact here.kept rfl rfl kept

theorem reach_referenced (reach : Run κ cfg cond .empty s) :
    ∀ id d, Db.find? s.db id = some d → Referenced s.db d := by
  refine Txn.reach_db (protocol κ cfg)
    (fun db => ∀ id d, Db.find? db id = some d → Referenced db d) .start ?_ ?_ reach
  · intro id d none
    cases none
  · intro s pid p tx before durable good id d found
    have kept := fun k r => durable_keeps durable (k := k) (r := r)
    rcases delivery_cases durable found with ⟨r, here, same⟩ | ⟨event, endpoint, tenant, rfl, mem, _⟩
    · have same := Delivery.fixed same
      exact (good id r here).kept same.eventId same.endpointId kept
    · exact inserted_referenced before durable mem

end References

section Held

theorem reach_held (reach : Run κ cfg cond db s) {d : Delivery}
    (live : s.procs.lookup pid = some p) (holds : Holds cfg p d) :
    ∃ r, Db.find? s.db d.id = some r ∧ (Row.delivery r).frozen = (Row.delivery d).frozen := by
  induction reach generalizing pid p with
  | start => cases live
  | @next s t before step ok ih =>
    have sound := Txn.reach_sound (protocol κ cfg) before
    obtain ⟨new, log, moved⟩ := Txn.step_moved step live
    rcases moved_holds sound (reach_named before pid) moved holds with
      ⟨q, live', held, _⟩ | ⟨q, w, out, live', job, mem, called, told⟩
    · obtain ⟨r, found, same⟩ := ih live' held
      obtain ⟨r', found', same'⟩ := reach_find before (.next .start step ok) found
      exact ⟨r', found', same'.trans same⟩
    · obtain ⟨row, _⟩ := fence_claimed (Txn.step_outcome sound step) live' job mem log called told
      exact ⟨d, row, rfl⟩

theorem holds_job {w : String} {d : Delivery} (job : p.job = .processOne w d) : Holds cfg p d :=
  .inl ⟨w, job ▸ List.mem_cons_self⟩

end Held

section Reads

theorem told_origin (reach : Run κ cfg cond db s) (live : s.procs.lookup pid = some p) {q : Stmt}
    {out : q.Out} (told : Told p.calls q out) :
    ∃ a p' now c ws, Run κ cfg cond db a ∧ Txn.Reach (engine κ cfg) cond a s ∧
      a.procs.lookup pid = some p' ∧ p'.job = p.job ∧ p'.calls ⊆ p.calls ∧
      allows κ cfg p.job p'.past (.stmt q) ∧
        q.run now c (a.db.apply p'.writes) = .ok (out, ws) := by
  obtain ⟨pre, post, split⟩ := List.append_of_mem told
  obtain ⟨a, p', before, later, live', job, rfl, allowed, now, c, ws, exec⟩ :=
    Txn.live_origin (protocol κ cfg) reach live split
  refine ⟨a, p', now, c, ws, before, later, live', job, ?_, allowed, Stmt.exec_ok exec⟩
  rw [split]
  exact List.subset_append_of_subset_right _ (List.subset_cons_self _ _)

/- The endpoint that `process_one` read is a row of an earlier state. -/
theorem read_row (reach : Run κ cfg cond db s) (live : s.procs.lookup pid = some p) {id : Uuid}
    {e : Endpoint} (told : Told p.calls (.getEndpoint id) (some e)) :
    ∃ a, Run κ cfg cond db a ∧ Txn.Reach (engine κ cfg) cond a s ∧ Db.find? a.db id = some e := by
  obtain ⟨a, p', now, c, ws, before, later, _, _, _, allowed, run⟩ := told_origin reach live told
  cases open_ : p'.tx with
  | some tx =>
    simp only [allows, Txn.Proc.past, open_, Option.map_some] at allowed
    exact allowed.elim
  | none =>
    simp only [Txn.Proc.writes, open_, Option.map_none, Option.getD_none] at run
    exact ⟨a, before, later, congrArg Prod.fst (Except.ok.inj run)⟩

/- `process_one` reads its endpoint once, right after the clock. -/
theorem read_first (reach : Run κ cfg cond db s) (live : s.procs.lookup pid = some p) {w : String}
    {d : Delivery} (job : p.job = .processOne w d) {id : Uuid} {out : Option Endpoint}
    (told : Told p.calls (.getEndpoint id) out) :
    ∃ pre now, p.calls = pre ++ [⟨.stmt (.getEndpoint id), (.ok out : Except DbError _)⟩,
      ⟨.env .utcNow, now⟩] := by
  obtain ⟨pre, post, split⟩ := List.append_of_mem told
  obtain ⟨a, p', _, _, _, _, rfl, allowed, _⟩ := Txn.live_origin (protocol κ cfg) reach live split
  rw [job] at allowed
  cases open_ : p'.tx with
  | some tx =>
    simp only [protocol, allows, Txn.Proc.past, open_, Option.map_some] at allowed
    exact allowed.elim
  | none =>
    simp only [protocol, allows, Txn.Proc.past, open_, Option.map_none] at allowed
    cases allowed with
    | endpoint first => exact ⟨pre, _, first ▸ split⟩

theorem read_once (reach : Run κ cfg cond db s) (live : s.procs.lookup pid = some p) {w : String}
    {d : Delivery} (job : p.job = .processOne w d) {id id' : Uuid} {out out' : Option Endpoint}
    (told : Told p.calls (.getEndpoint id) out) (told' : Told p.calls (.getEndpoint id') out') :
    id = id' ∧ out = out' := by
  obtain ⟨pre, now, eq⟩ := read_first reach live job told
  obtain ⟨pre', now', eq'⟩ := read_first reach live job told'
  obtain ⟨_, same⟩ := List.append_inj' (eq.symm.trans eq') rfl
  cases same
  exact ⟨rfl, rfl⟩

/-- The parts that come from other crates never fail on what the engine gives them. -/
structure Prims.Total (κ : Prims) : Prop where
  toVec : ∀ v, ∃ bytes, κ.toVec v = .ok bytes
  macKey : ∀ key, κ.macKey key = .ok ()

theorem find_overlay {α : Type} [Record α] {db : Db} {id : Uuid} {a : α} {ws : List Write}
    (found : db.find? id = some a) : Db.find? (db.apply ws) id ≠ (none : Option α) := by
  intro none
  have kept : ((db.apply ws).get? ⟨Record.table α, id⟩).isSome := by
    refine Txn.Store.get?_apply_isSome ?_
    rw [Db.find?_eq_some.mp found]
    rfl
  rw [Db.find?_none.mp none] at kept
  cases kept

theorem held_referenced (reach : Run κ cfg cond .empty s) {d : Delivery}
    (live : s.procs.lookup pid = some p) (holds : Holds cfg p d) : Referenced s.db d := by
  obtain ⟨r, found, same⟩ := reach_held reach live holds
  have same := Delivery.fixed same
  exact (reach_referenced reach d.id r found).kept same.eventId.symm same.endpointId.symm
    fun _ row here => ⟨row, here, rfl⟩

theorem hopeless_never (total : κ.Total) (reach : Run κ cfg cond .empty s) {w : String}
    {d : Delivery} (live : s.procs.lookup pid = some p) (job : p.job = .processOne w d) :
    ¬ Hopeless κ d p.calls := by
  rintro (told | told | ⟨ev, err, _, bad⟩ | ⟨e, now, body, err, bad⟩)
  · obtain ⟨a, p', now, c, ws, before, _, live', same, _, _, run⟩ := told_origin reach live told
    obtain ⟨_, e, here⟩ := held_referenced before live' (holds_job (same.trans job))
    exact find_overlay here (congrArg Prod.fst (Except.ok.inj run))
  · obtain ⟨a, p', now, c, ws, before, _, live', same, _, _, run⟩ := told_origin reach live told
    obtain ⟨⟨e, here⟩, _⟩ := held_referenced before live' (holds_job (same.trans job))
    exact find_overlay here (congrArg Prod.fst (Except.ok.inj run))
  · obtain ⟨bytes, ok⟩ := total.toVec ev.payload
    cases ok.symm.trans bad
  · simp only [Signing.signatureHeaders, Signing.sign, Signing.mac, total.macKey] at bad
    cases bad

end Reads

end Dropless
