import Dropless.Snapshots
import Dropless.NoLoss

/-! What a POST carries. A worker may have read the rows behind it long before it sends it,
but the columns it reads of the delivery, the event and the endpoint, apart from the URL, never
change; so whatever was sent is what the committed rows say at any later time. -/
namespace Dropless

variable {κ : Prims} {cfg : DispatcherConfig} {cond : State → State → Prop} {db : Db}
  {s t : State} {pid : Pid} {p : Proc} {d : Delivery} {req : Request}

/-- A worker is at this request for a delivery: about to send it, or waiting for its answer. -/
def Posts (s : State) (d : Delivery) (req : Request) : Prop :=
  ∃ pid p w k, s.At pid p (.env (.post req)) k ∧ p.job = .processOne w d

/-- The request was made on the way to a state, answered or not. -/
def Posted (κ : Prims) (cfg : DispatcherConfig) (s : State) (d : Delivery) (req : Request) : Prop :=
  ∃ a, Run κ cfg Txn.anyStep .empty a ∧ Txn.Reach (engine κ cfg) Txn.anyStep a s ∧ Posts a d req

theorem event_read (reach : Run κ cfg cond db s) (live : s.procs.lookup pid = some p) {id : Uuid}
    {ev : Event} (told : Told p.calls (.getEvent id) (some ev)) : Db.find? s.db id = some ev := by
  obtain ⟨a, p', now, c, ws, before, later, _, _, _, allowed, run⟩ := told_origin reach live told
  cases open_ : p'.tx with
  | some tx =>
    simp only [allows, Txn.Proc.past, open_, Option.map_some] at allowed
    exact allowed.elim
  | none =>
    simp only [Txn.writes_none open_] at run
    have found : Db.find? a.db id = some ev := congrArg Prod.fst (Except.ok.inj run)
    obtain ⟨ev', there, same⟩ := reach_find before later found
    obtain rfl : ev' = ev := Row.event.inj same
    exact there

/-- The rows behind a request. -/
structure Carried (κ : Prims) (db : Db) (d : Delivery) (req : Request) (row : Delivery) (ev : Event)
    (e : Endpoint) (ts : Int64) : Prop where
  stored : db.find? d.id = some row
  frozen : (Row.delivery row).frozen = (Row.delivery d).frozen
  event : db.find? d.eventId = some ev
  endpoint : db.find? d.endpointId = some e
  key : req.idempotencyKey = d.idempotencyKey
  type : req.eventType = ev.eventType
  body : κ.toVec ev.payload = .ok req.body
  signed : Signing.signatureHeaders κ e.secret (uuidText d.id) ts req.body =
    .ok ⟨req.webhookId, req.webhookTimestamp, req.webhookSignature⟩

theorem posts_carried (reach : Run κ cfg cond db s) (posts : Posts s d req) :
    ∃ row ev e ts, Carried κ s.db d req row ev e ts := by
  obtain ⟨pid, p, w, k, at_, job⟩ := posts
  obtain ⟨w', d', e, now, same, passed, ev, body, headers, told, encoded, signed, rfl⟩ :=
    Txn.allowed_at (Txn.reach_sound (protocol κ cfg) reach) at_
  cases job.symm.trans same
  obtain ⟨row, found, frozen⟩ := reach_held reach at_.1 (holds_job job)
  obtain ⟨a, before, later, read⟩ := read_row reach at_.1 passed.endpoint
  obtain ⟨e', there, same⟩ := reach_find before later read
  refine ⟨row, ev, e', .ofInt (now / 1000000), found, frozen, event_read reach at_.1 told, there,
    rfl, rfl, encoded, ?_⟩
  rw [(Endpoint.fixed same).secret]
  exact signed

theorem Carried.later {row : Delivery} {ev : Event} {e : Endpoint} {ts : Int64}
    (carried : Carried κ s.db d req row ev e ts) (reach : Run κ cfg cond db s)
    (later : Txn.Reach (engine κ cfg) cond s t) : ∃ row e, Carried κ t.db d req row ev e ts := by
  obtain ⟨row', found, frozen⟩ := reach_find reach later carried.stored
  obtain ⟨ev', event, same⟩ := reach_find reach later carried.event
  obtain rfl : ev' = ev := Row.event.inj same
  obtain ⟨e', endpoint, kept⟩ := reach_find reach later carried.endpoint
  refine ⟨row', e', { carried with
    stored := found
    frozen := frozen.trans carried.frozen
    event := event
    endpoint := endpoint
    signed := ?_ }⟩
  rw [(Endpoint.fixed kept).secret]
  exact carried.signed

theorem posted_carried (posted : Posted κ cfg s d req) :
    ∃ row ev e ts, Carried κ s.db d req row ev e ts := by
  obtain ⟨a, before, later, posts⟩ := posted
  obtain ⟨row, ev, e, ts, carried⟩ := posts_carried before posts
  obtain ⟨row', e', carried⟩ := carried.later before later
  exact ⟨row', ev, e', ts, carried⟩

def pending (s : State) (pid : Pid) : Option (Delivery × Request) :=
  (s.procs.lookup pid).bind fun p =>
    match p.job, p.prog with
    | .processOne _ d, .call (.env (.post req)) _ => some (d, req)
    | _, _ => none

theorem pending_posts {pid : Pid} (h : pending s pid = some (d, req)) : Posts s d req := by
  obtain ⟨p, live, here⟩ := Option.bind_eq_some_iff.mp h
  split at here
  · rename_i w d' req' k job prog
    cases here
    exact ⟨pid, p, w, k, ⟨live, prog⟩, job⟩
  · cases here

end Dropless
