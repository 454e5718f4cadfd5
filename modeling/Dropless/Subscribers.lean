import Dropless.Tolerance
import Dropless.Posts
import Dropless.Replays

namespace Dropless

open Api (examine webhookId webhookTimestamp headerStr)

variable {κ : Prims} {cfg : DispatcherConfig} {cond : State → State → Prop} {db : Db}
  {s : State} {d d' : Delivery} {req req' : Request}

section Subscriber

/- A subscriber that ignores keys it has seen. -/
def handles (seen : List String) : List Request → List Request
  | [] => []
  | r :: rs =>
    if r.idempotencyKey ∈ seen then handles seen rs
    else r :: handles (r.idempotencyKey :: seen) rs

theorem handles_unseen {seen : List String} {reqs : List Request} {r : Request}
    (mem : r ∈ handles seen reqs) : r.idempotencyKey ∉ seen := by
  induction reqs generalizing seen with
  | nil => cases mem
  | cons x xs ih =>
    simp only [handles] at mem
    split at mem
    · exact ih mem
    · rename_i new
      rcases List.mem_cons.mp mem with rfl | mem
      · exact new
      · exact fun old => ih mem (List.mem_cons_of_mem _ old)

theorem handles_apart (seen : List String) (reqs : List Request) :
    (handles seen reqs).Pairwise fun r r' => r.idempotencyKey ≠ r'.idempotencyKey := by
  induction reqs generalizing seen with
  | nil => exact .nil
  | cons x xs ih =>
    simp only [handles]
    split
    · exact ih seen
    · refine List.pairwise_cons.mpr ⟨fun r mem same => ?_, ih _⟩
      exact handles_unseen mem (same ▸ List.mem_cons_self)

end Subscriber

section Keys

theorem reach_keyed (reach : Run κ cfg cond .empty s) {id : Uuid} {d : Delivery}
    (found : Db.find? s.db id = some d) : d.idempotencyKey = uuidText d.id := by
  refine Txn.reach_db (protocol κ cfg) (fun db => ∀ id (d : Delivery), Db.find? db id = some d →
    d.idempotencyKey = uuidText d.id) .start ?_ ?_ reach id d found
  · intro id d none
    cases none
  intro s pid p tx before durable good id d found
  rcases delivery_cases durable found with ⟨r, here, same⟩ | ⟨event, endpoint, tenant, rfl, _⟩
  · have same := Delivery.fixed same
    rw [same.idempotencyKey, same.id]
    exact good id r here
  · rfl

theorem posted_key (posted : Posted κ cfg s d req) (reach : Run κ cfg Txn.anyStep .empty s) :
    req.idempotencyKey = uuidText d.id := by
  obtain ⟨row, ev, e, ts, carried⟩ := posted_carried posted
  have fixed := Delivery.fixed carried.frozen
  rw [carried.key, ← fixed.idempotencyKey, ← fixed.id]
  exact reach_keyed reach carried.stored

theorem posted_signed (std : κ.Standard) (posted : Posted κ cfg s d req) :
    ∃ (e : Endpoint) (ts : Int64), Db.find? s.db d.endpointId = some e ∧
      req.webhookId = uuidText d.id ∧ req.webhookTimestamp = .ofList (decimal ts) ∧
      req.webhookSignature = .ofList (Signing.token κ e.secret (uuidText d.id) ts req.body) := by
  obtain ⟨row, ev, e, ts, carried⟩ := posted_carried posted
  have signed := carried.signed
  rw [Signing.signatureHeaders_ok std] at signed
  obtain ⟨id, timestamp, signature⟩ := Signing.SignatureHeaders.mk.inj (Except.ok.inj signed)
  exact ⟨e, ts, carried.endpoint, id.symm, timestamp.symm, signature.symm⟩

theorem posted_body (posted : Posted κ cfg s d req) (posted' : Posted κ cfg s d' req')
    (same : d.id = d'.id) : req.body = req'.body := by
  obtain ⟨row, ev, e, ts, carried⟩ := posted_carried posted
  obtain ⟨row', ev', e', ts', carried'⟩ := posted_carried posted'
  obtain rfl : row = row' := Option.some.inj (carried.stored.symm.trans (same ▸ carried'.stored))
  have events : d.eventId = d'.eventId :=
    (Delivery.fixed (carried.frozen.symm.trans carried'.frozen)).eventId
  obtain rfl : ev = ev' := Option.some.inj (carried.event.symm.trans (events ▸ carried'.event))
  exact Except.ok.inj (carried.body.symm.trans carried'.body)

theorem posted_delivery (posted : Posted κ cfg s d req) (posted' : Posted κ cfg s d' req')
    (event : d.eventId = d'.eventId) (endpoint : d.endpointId = d'.endpointId) : d.id = d'.id := by
  obtain ⟨row, ev, e, ts, carried⟩ := posted_carried posted
  obtain ⟨row', ev', e', ts', carried'⟩ := posted_carried posted'
  have fixed := Delivery.fixed carried.frozen
  have fixed' := Delivery.fixed carried'.frozen
  have rows := delivery_unique (Db.mem_all_of_find? carried.stored)
    (Db.mem_all_of_find? carried'.stored)
    (fixed.eventId.trans (event.trans fixed'.eventId.symm))
    (fixed.endpointId.trans (endpoint.trans fixed'.endpointId.symm))
  rw [← fixed.id, ← fixed'.id, rows]

end Keys

section Receiver

/-- The headers of a request as it arrives. -/
structure Carries (headers : Headers) (req : Request) : Prop where
  id : headerStr headers "webhook-id" = some req.webhookId
  timestamp : headerStr headers "webhook-timestamp" = some req.webhookTimestamp
  signature : headerStr headers "webhook-signature" = some req.webhookSignature

theorem Carries.webhookId {headers : Headers} (carries : Carries headers req) :
    Api.webhookId headers = req.webhookId := by
  simp [Api.webhookId, carries.id]

theorem Carries.webhookTimestamp {headers : Headers} {ts : Int64} (carries : Carries headers req)
    (time : req.webhookTimestamp = .ofList (decimal ts)) : Api.webhookTimestamp headers = ts := by
  simp [Api.webhookTimestamp, carries.timestamp, time, parseI64_decimal]

/-- What was sent passes verification while it is in the tolerance. -/
theorem posted_verifies {headers : Headers} {ts now : Int64} {secret : String} {e : Endpoint}
    (std : κ.Standard) (posted : Posted κ cfg s d req) (carries : Carries headers req)
    (endpoint : Db.find? s.db d.endpointId = some e) (same : e.secret = secret)
    (time : req.webhookTimestamp = .ofList (decimal ts))
    (recent : Inbound.distance now ts ≤ Api.tolerance.toInt) :
    Inbound.verifyHmac κ secret (webhookId headers) (webhookTimestamp headers) req.body
      ((headerStr headers "webhook-signature").getD "") now Api.tolerance = .ok () := by
  obtain ⟨e', ts', found, id, time', signature⟩ := posted_signed std posted
  obtain rfl : e' = e := Option.some.inj (found.symm.trans endpoint)
  obtain rfl : ts' = ts := decimal_inj (String.ofList_injective (time'.symm.trans time))
  rw [carries.webhookId, carries.webhookTimestamp time, carries.signature, Option.getD_some, id,
    signature, ← same]
  refine (Inbound.verifyHmac_ok std).mpr ⟨(Inbound.within_iff (by decide)).mpr (.inl recent), ?_⟩
  rw [String.toList_ofList, Signing.splitWhitespace_token]
  exact List.mem_singleton_self _

end Receiver

/-- In any run of the sender: every POST of a delivery carries the text of its id as both keys, the
same body, and a signature that verifies under the endpoint's secret; another delivery has other
keys, and an event has one delivery for an endpoint, so that a subscriber that ignores keys it has
seen handles it at most once. A source of another engine that has the same secret takes every such
POST for genuine within the tolerance, and reports at most one as bridged. -/
theorem effectively_once (κ : Prims) (std : κ.Standard) (cfg : DispatcherConfig) (s : State)
    (reach : Run κ cfg Txn.anyStep .empty s) :
    (∀ d req, Posted κ cfg s d req →
      req.idempotencyKey = uuidText d.id ∧ req.webhookId = uuidText d.id ∧
      ∃ (e : Endpoint) (ts : Int64), Db.find? s.db d.endpointId = some e ∧
        req.webhookTimestamp = .ofList (decimal ts) ∧
        Signing.verify κ e.secret req.webhookId ts req.body req.webhookSignature = .ok true) ∧
    (∀ d d' req req', Posted κ cfg s d req → Posted κ cfg s d' req' →
      (d.id = d'.id → req.body = req'.body) ∧
      (d.id ≠ d'.id → req.idempotencyKey ≠ req'.idempotencyKey ∧ req.webhookId ≠ req'.webhookId)) ∧
    (∀ d ∈ Db.all Delivery s.db, ∀ d' ∈ Db.all Delivery s.db, d.eventId = d'.eventId →
      d.endpointId = d'.endpointId → d = d') ∧
    (∀ reqs, (handles [] reqs).Pairwise fun r r' => ∀ d d', Posted κ cfg s d r →
      Posted κ cfg s d' r' → d.eventId = d'.eventId → d.endpointId ≠ d'.endpointId) ∧
    ∀ cfg' t, Run κ cfg' Txn.anyStep .empty t → ∀ source ∈ Db.all InboundSource t.db,
      Inbound.parseProvider κ source.provider = .ok .hmac →
        ∀ d d' req req' headers headers', d.id = d'.id →
      Posted κ cfg s d req → Posted κ cfg s d' req' → Carries headers req → Carries headers' req' →
      (∀ e : Endpoint, Db.find? s.db d.endpointId = some e → e.secret = source.secret → ∀ ts now,
        req.webhookTimestamp = .ofList (decimal ts) →
          Inbound.distance now ts ≤ Api.tolerance.toInt →
        Inbound.verifyHmac κ source.secret (webhookId headers) (webhookTimestamp headers) req.body
          ((headerStr headers "webhook-signature").getD "") now Api.tolerance = .ok ()) ∧
      ∀ pid pid' res res' newer between older,
        t.log = newer ++ .finished pid (.ingest source.slug headers req.body) res ::
          (between ++ .finished pid' (.ingest source.slug headers' req'.body) res' :: older) →
        (res.acknowledged = none ∨ res'.acknowledged = none) ∧
          ((res.acknowledged.isSome ∨ res.isDuplicate) →
            (res'.acknowledged.isSome ∨ res'.isDuplicate) →
            res.isDuplicate ∨ res'.isDuplicate) := by
  refine ⟨?_, ?_, ?_, ?_, ?_⟩
  · intro d req posted
    obtain ⟨e, ts, found, id, time, signature⟩ := posted_signed std posted
    refine ⟨posted_key posted reach, id, e, ts, found, time, ?_⟩
    rw [id, signature, Signing.verify_eq std, String.toList_ofList, Signing.splitWhitespace_token]
    simp
  · intro d d' req req' posted posted'
    refine ⟨posted_body posted posted', fun other => ⟨?_, ?_⟩⟩
    · rw [posted_key posted reach, posted_key posted' reach]
      exact fun same => other (uuidText_inj same)
    · obtain ⟨_, _, _, id, _⟩ := posted_signed std posted
      obtain ⟨_, _, _, id', _⟩ := posted_signed std posted'
      rw [id, id']
      exact fun same => other (uuidText_inj same)
  · exact fun d here d' there event endpoint => delivery_unique here there event endpoint
  · intro reqs
    refine (handles_apart [] reqs).imp ?_
    intro r r' other d d' posted posted' event endpoint
    apply other
    rw [posted_key posted reach, posted_key posted' reach, posted_delivery posted posted' event
      endpoint]
  · intro cfg' t reach' source stored parsed d d' req req' headers headers' same posted posted'
      carries carries'
    refine ⟨?_, ?_⟩
    · intro e found secret ts now time recent
      exact posted_verifies std posted carries found secret time recent
    · intro pid pid' res res' newer between older log
      refine same_key_once reach' stored parsed log ?_
      intro now now' key key' type type' examined examined'
      simp only [examine, Prod.mk.injEq] at examined examined'
      obtain ⟨_, _, _, id, _⟩ := posted_signed std posted
      obtain ⟨_, _, _, id', _⟩ := posted_signed std posted'
      rw [← examined.2.1, ← examined'.2.1, Api.hmacKey, Api.hmacKey, carries.webhookId,
        carries'.webhookId, id, id', same, posted_body posted posted' same]

def sentAnswer : Prims :=
  { tabled [(utf8 "s".toList, utf8 "00000000-0000-0000-0000-000000000003.0.null".toList,
      [233, 121, 39, 116, 227, 43, 87, 112, 76, 249, 130, 58, 110, 56, 120, 43, 33, 204, 39, 252, 88,
        101, 209, 226, 25, 246, 183, 7, 182, 90, 125, 111])] with
    toVec := fun _ => .ok (utf8 "null".toList) }

def sending : List Move :=
  published ++ .spawn (.worker 0 0) (.claim (workerId 0)) :: go 6 (.worker 0 0) 0 4 (.error "")

theorem effectively_once_sent : ∃ (s : State) (d : Delivery) (req : Request), sentAnswer.Standard ∧
    Run sentAnswer Dispatcher.default Txn.anyStep .empty s ∧
      Posted sentAnswer Dispatcher.default s d req ∧
    req.webhookSignature = "v1,6XkndOMrV3BM+YI6bjh4KyHMJ/xYZdHiGfa3B7ZafW8=" ∧
    req.idempotencyKey = "00000000-0000-0000-0000-000000000003" ∧
    ∃ (e : Endpoint) (ts : Int64), Db.find? s.db d.endpointId = some e ∧
      req.webhookTimestamp = .ofList (decimal ts) ∧
      Signing.verify sentAnswer e.secret req.webhookId ts req.body
        req.webhookSignature = .ok true := by
  have standard : sentAnswer.Standard := ⟨fun _ => rfl, fun _ => rfl, fun _ => rfl⟩
  have played : ((replay sentAnswer Dispatcher.default (.start .empty) sending).bind fun s =>
      (pending s (.worker 0 0)).map fun x => (x.1.id, x.2.webhookSignature)) =
      some (3, "v1,6XkndOMrV3BM+YI6bjh4KyHMJ/xYZdHiGfa3B7ZafW8=") := by
    decide +kernel
  obtain ⟨s, replayed, here⟩ := Option.bind_eq_some_iff.mp played
  obtain ⟨⟨d, req⟩, here, eq⟩ := Option.map_eq_some_iff.mp here
  obtain ⟨id, signature⟩ := Prod.mk.inj eq
  have reach := replay_reach replayed
  have posted : Posted sentAnswer Dispatcher.default s d req :=
    ⟨s, reach, .start, pending_posts here⟩
  obtain ⟨key, _, verified⟩ :=
    (effectively_once sentAnswer standard Dispatcher.default s reach).1 d req posted
  refine ⟨s, d, req, standard, reach, posted, signature, ?_, verified⟩
  rw [key, show d.id = 3 from id]
  decide +kernel

end Dropless
