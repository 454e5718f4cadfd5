import Dropless.Protocol

namespace Dropless

open Txn (Runs runs_bind runs_pure)

section Growth

variable {κ : Prims} {cfg : DispatcherConfig} {w : String} {d : Delivery} {calls later : Calls}

theorem Told.mono {q : Stmt} {out : q.Out} (h : Told calls q out) (sub : calls ⊆ later) :
    Told later q out := sub h

theorem Scoped.mono {tenant : String} {consumer : Option Uuid} (h : Scoped calls tenant consumer)
    (sub : calls ⊆ later) : Scoped later tenant consumer :=
  h.imp_right fun ⟨uid, c, told, eq⟩ => ⟨uid, c, told.mono sub, eq⟩

theorem Passed.mono {e : Endpoint} {now : Time} (h : Passed cfg d calls e now)
    (sub : calls ⊆ later) : Passed cfg d later e now where
  endpoint := h.endpoint.mono sub
  clock := sub h.clock
  enabled := h.enabled
  gate := h.gate.imp_right fun ⟨probe, held⟩ => ⟨probe, held.mono sub⟩

theorem Sent.mono {e : Endpoint} {now : Time} {req : Request} (h : Sent κ cfg d calls e now req)
    (sub : calls ⊆ later) : Sent κ cfg d later e now req where
  passed := h.passed.mono sub
  made := by
    obtain ⟨ev, body, headers, told, rest⟩ := h.made
    exact ⟨ev, body, headers, told.mono sub, rest⟩

theorem Hopeless.mono (h : Hopeless κ d calls) (sub : calls ⊆ later) : Hopeless κ d later := by
  rcases h with h | h | ⟨ev, err, told, bad⟩ | bad
  · exact .inl (h.mono sub)
  · exact .inr (.inl (h.mono sub))
  · exact .inr (.inr (.inl ⟨ev, err, told.mono sub, bad⟩))
  · exact .inr (.inr (.inr bad))

theorem Failed.mono {req : Request} {a : DeliveryAttempt} {error : String}
    (h : Failed calls req a error) (sub : calls ⊆ later) : Failed later req a error := by
  obtain ⟨some, ⟨resp, heard, rest⟩ | ⟨heard, none⟩⟩ := h
  · exact ⟨some, .inl ⟨resp, sub heard, rest⟩⟩
  · exact ⟨some, .inr ⟨sub heard, none⟩⟩

end Growth

section Allows

variable {κ : Prims} {cfg : DispatcherConfig} {job : Job} {past : Past} {q : Stmt}

theorem allows_alone (outside : past.tx = none) (alone : Alone cfg past.calls job q) :
    allows κ cfg job past (.stmt q) := by
  simp only [allows, outside]
  exact alone

theorem after_alone {out : q.Out} (outside : past.tx = none) :
    (past.after (.stmt q : Op) (.ok out : Except DbError q.Out)).tx = none := by
  change past.tx.map _ = none
  rw [outside]
  rfl

theorem allows_inside {unit : List Ran} (inside : past.tx = some unit)
    (may : Inside past.calls unit q) :
    allows κ cfg job past (.stmt q) := by
  simp only [allows, inside]
  exact may

end Allows

namespace Dispatcher

variable {κ : Prims} {cfg : DispatcherConfig} {w : String} {d : Delivery} {past : Past}

theorem runs_markDead {reason : String} (hopeless : Hopeless κ d past.calls) :
    Runs (allows κ cfg (.processOne w d)) past (markDead d w reason) fun _ _ => True := by
  refine begin_then trivial ?_
  refine (runs_bind _ _ _).mpr (query_then trivial ?_)
  intro applied
  cases applied with
  | false =>
    refine runs_pure.mpr ?_
    exact runs_rollback.mpr ⟨trivial, trivial⟩
  | true =>
    refine ask_then trivial fun id => query_then trivial fun _ => runs_pure.mpr ?_
    refine runs_commit.mpr ⟨⟨_, rfl, .settle (.hopeless ?_)⟩, trivial⟩
    exact hopeless.mono (List.subset_append_right [_, _, _, _] _)

theorem runs_succeed {e : Endpoint} {now : Time} {req : Request} {resp : Response}
    {snippet : String} {started finished : Time} (sent : Sent κ cfg d past.calls e now req)
    (heard : Heard past.calls (.post req) (.ok resp)) (ok : resp.isSuccess = true) :
    Runs (allows κ cfg (.processOne w d)) past
      (succeed w d e (d.attemptCount + 1) resp.code snippet started finished) fun _ _ => True := by
  refine begin_then trivial ((runs_bind _ _ _).mpr ?_)
  refine ask_then trivial fun id => runs_query.mpr ⟨trivial, fun _ => ?_⟩
  refine query_then trivial fun applied => ?_
  cases applied with
  | false => exact runs_rollback.mpr ⟨trivial, trivial⟩
  | true =>
    refine query_then ?_ fun _ => runs_commit.mpr ⟨⟨_, rfl, .settle ?_⟩, trivial⟩
    · exact ⟨_, e, List.subset_append_right [_, _, _, _] _ sent.passed.endpoint, rfl⟩
    refine .succeeded ⟨sent.mono (List.subset_append_right [_, _, _, _, _] _), rfl, rfl⟩ ?_
    exact ⟨rfl, resp, List.subset_append_right [_, _, _, _, _] _ heard, ok, rfl⟩

theorem runs_failed {e : Endpoint} {applied : Bool} {unit : List Ran} (inside : past.tx = some unit)
    (read : Told past.calls (.getEndpoint d.endpointId) (some e))
    (settles : applied = true → ∀ (now : Time) (later : Calls), past.calls ⊆ later →
      Settles κ cfg w d later (unit ++ [circuitRan e.id (Circuit.onFailure e cfg.circuit now)])) :
    Runs (allows κ cfg (.processOne w d)) past
      (if applied then do
        let now ← utcNow
        updateCircuit e.id (Circuit.onFailure e cfg.circuit now)
        commit
      else rollback) fun _ _ => True := by
  cases applied with
  | false => exact runs_rollback.mpr ⟨trivial, trivial⟩
  | true =>
    refine ask_then trivial fun now => query_then
      (allows_inside inside ⟨_, e, List.mem_cons_of_mem _ read, rfl⟩) fun _ => ?_
    refine runs_commit.mpr
      ⟨⟨unit ++ [circuitRan e.id (Circuit.onFailure e cfg.circuit now)], ?_, ?_⟩, trivial⟩
    · change past.tx.map _ = _
      rw [inside]
      rfl
    · exact .settle (settles rfl now _ (List.subset_append_right [_, _] _))

theorem runs_fail {e : Endpoint} {now : Time} {req : Request} {code : Option Int32}
    {snippet : Option String} {error : String} {started finished : Time}
    (sent : Sent κ cfg d past.calls e now req)
    (failed : ∀ a : DeliveryAttempt, a.error = some error → a.statusCode = code →
      Failed past.calls req a error) :
    Runs (allows κ cfg (.processOne w d)) past
      (fail cfg w d e (d.attemptCount + 1) code snippet error started finished)
      fun _ _ => True := by
  refine begin_then trivial ((runs_bind _ _ _).mpr ?_)
  refine ask_then trivial fun id => runs_query.mpr ⟨trivial, fun _ => (runs_bind _ _ _).mpr ?_⟩
  unfold Dispatcher.failed
  split
  · rename_i spent
    refine query_then trivial fun applied => ?_
    cases applied with
    | false => exact runs_pure.mpr (runs_rollback.mpr ⟨trivial, trivial⟩)
    | true =>
      refine ask_then trivial fun dead => query_then trivial fun _ => runs_pure.mpr ?_
      refine runs_failed rfl ?_ fun _ t later sub => ?_
      · exact List.subset_append_right [_, _, _, _, _, _] _ sent.passed.endpoint
      have old := List.Subset.trans (List.subset_append_right [_, _, _, _, _, _] past.calls) sub
      exact .exhausted ⟨sent.mono old, rfl, rfl⟩ ((failed _ rfl rfl).mono old) spent
  · rename_i left
    have left : cfg.retry.isExhausted (d.attemptCount + 1) = false := by simpa using left
    refine ask_then trivial fun t => (runs_bind _ _ _).mpr ?_
    unfold backoff
    split
    · refine runs_pure.mpr (runs_query.mpr ⟨trivial, fun applied => ?_⟩)
      refine runs_failed rfl ?_ fun yes t later sub => ?_
      · exact List.subset_append_right [_, _, _, _, _] _ sent.passed.endpoint
      obtain rfl : applied = true := yes
      have old := List.Subset.trans (List.subset_append_right [_, _, _, _, _] past.calls) sub
      exact .failed ⟨sent.mono old, rfl, rfl⟩ ((failed _ rfl rfl).mono old) left
    · refine ask_then trivial fun drawn =>
        runs_pure.mpr (runs_query.mpr ⟨trivial, fun applied => ?_⟩)
      refine runs_failed rfl ?_ fun yes t later sub => ?_
      · exact List.subset_append_right [_, _, _, _, _, _] _ sent.passed.endpoint
      obtain rfl : applied = true := yes
      have old := List.Subset.trans (List.subset_append_right [_, _, _, _, _, _] past.calls) sub
      exact .failed ⟨sent.mono old, rfl, rfl⟩ ((failed _ rfl rfl).mono old) left

theorem runs_resolve {e : Endpoint} {now started finished : Time} {req : Request}
    {result : Except String Response} (sent : Sent κ cfg d past.calls e now req)
    (heard : Heard past.calls (.post req) result) :
    Runs (allows κ cfg (.processOne w d)) past
      (resolve cfg w d e (d.attemptCount + 1) started finished result) fun _ _ => True := by
  cases result with
  | error err => exact runs_fail sent fun a error code => ⟨error, .inr ⟨heard, code⟩⟩
  | ok resp =>
    simp only [resolve]
    split
    · rename_i ok
      exact runs_succeed sent heard ok
    · rename_i bad
      have bad : resp.isSuccess = false := by simpa using bad
      exact runs_fail sent fun a error code => ⟨error, .inl ⟨resp, heard, bad, code⟩⟩

theorem runs_deliver {e : Endpoint} {now : Time} (outside : past.tx = none)
    (passed : Passed cfg d past.calls e now) :
    Runs (allows κ cfg (.processOne w d)) past (deliver κ cfg w d e now) fun _ _ => True := by
  refine query_then (allows_alone outside .event) fun found => ?_
  cases found with
  | none => exact runs_markDead (.inr (.inl (List.mem_cons_self)))
  | some ev =>
    dsimp only
    split
    · rename_i err bad
      exact runs_markDead (.inr (.inr (.inl ⟨ev, err, List.mem_cons_self, bad⟩)))
    · rename_i body serialized
      split
      · rename_i err bad
        exact runs_markDead (.inr (.inr (.inr ⟨e, _, body, err, bad⟩)))
      · rename_i headers signed
        have sent : ∀ later : Calls, past.calls ⊆ later →
          Told later (.getEvent d.eventId) (some ev) →
            Sent κ cfg d later e now _ := fun later sub told =>
          ⟨passed.mono sub, ev, body, headers, told, serialized, signed, rfl⟩
        refine ask_then trivial fun started => ask_then ?_ fun result =>
          ask_then trivial fun finished => ?_
        · exact ⟨w, d, e, now, rfl, sent _ (List.subset_append_right [_, _] _)
            (List.mem_cons_of_mem _ List.mem_cons_self)⟩
        · refine runs_resolve (sent _ (List.subset_append_right [_, _, _, _] _) ?_) ?_
          · exact List.mem_append_right [_, _, _] List.mem_cons_self
          · exact List.mem_cons_of_mem _ List.mem_cons_self

theorem runs_deferDelivery {e : Endpoint} {next : Time} (outside : past.tx = none)
    (read : Told past.calls (.getEndpoint d.endpointId) (some e)) :
    Runs (allows κ cfg (.processOne w d)) past (deferDelivery d w next) fun _ _ => True :=
  query_then (allows_alone outside (.defer read)) fun _ => runs_pure.mpr trivial

theorem runs_consult {e : Endpoint} {now : Time} (outside : past.tx = none)
    (read : Told past.calls (.getEndpoint d.endpointId) (some e))
    (clock : Heard past.calls .utcNow now) :
    Runs (allows κ cfg (.processOne w d)) past (consult κ cfg w d e now) fun _ _ => True := by
  unfold consult
  split
  · exact runs_deferDelivery outside read
  · rename_i enabled
    have enabled : e.disabled = false := by simpa using enabled
    split
    · exact runs_deferDelivery outside read
    · rename_i gate
      refine query_then (allows_alone outside (.probe read gate)) fun acquired => ?_
      cases acquired with
      | false => exact runs_deferDelivery (after_alone outside) (List.mem_cons_of_mem _ read)
      | true =>
        refine runs_deliver (after_alone outside)
          ⟨List.mem_cons_of_mem _ read, List.mem_cons_of_mem _ clock, enabled, ?_⟩
        exact .inr ⟨gate, List.mem_cons_self⟩
    · rename_i gate
      exact runs_deliver outside ⟨read, clock, enabled, .inl gate⟩

theorem runs_processOne :
    Runs (allows κ cfg (.processOne w d)) .start (processOne κ cfg w d) fun _ _ => True := by
  refine ask_then trivial fun now => query_then (allows_alone rfl (.endpoint rfl)) fun found => ?_
  cases found with
  | none => exact runs_markDead (.inl List.mem_cons_self)
  | some e => exact runs_consult rfl List.mem_cons_self (List.mem_cons_of_mem _ List.mem_cons_self)

end Dispatcher

section FanOut

variable {κ : Prims} {cfg : DispatcherConfig} {job : Job} {past : Past}

theorem runs_insertDeliveries {eventId : Uuid} {tenant : String} {es : List Endpoint}
    {unit : List Ran} {Q : Past → List Uuid → Prop} (inside : past.tx = some unit)
    (next : ∀ ids (now : Past), ids.length = es.length → past.calls ⊆ now.calls →
      now.tx = some (unit ++ fanOut eventId tenant es ids) → Q now ids) :
    Runs (allows κ cfg job) past (insertDeliveries eventId tenant es) Q := by
  induction es generalizing past unit Q with
  | nil => exact runs_pure.mpr (next [] past rfl (fun _ h => h) (by simpa [fanOut] using inside))
  | cons e es ih =>
    refine ask_then trivial fun id => query_then (allows_inside inside trivial) fun _ => ?_
    have grown : past.tx.map (· ++ [ran (.insertDelivery id eventId e.id tenant) ()]) = some _ :=
      congrArg (Option.map _) inside
    refine (runs_bind _ _ _).mpr (ih grown ?_)
    · intro ids now each sub inside'
      refine runs_pure.mpr (next (id :: ids) now (congrArg (· + 1) each) ?_ ?_)
      · exact fun c hc => sub (List.subset_append_right [_, _] _ hc)
      · rw [inside', List.append_assoc]
        rfl

theorem Outbox.runs_enqueueMessage {tenant : String} {consumer : Option Uuid} {type : String}
    {payload : Value}
    (may : ∀ later, past.calls ⊆ later → Publishing later job tenant consumer type payload) :
    Runs (allows κ cfg job) past (enqueueMessage tenant consumer type payload) (Published job) := by
  refine ask_then trivial fun eventId => begin_then trivial ?_
  refine query_then trivial fun row => query_then trivial fun es => (runs_bind _ _ _).mpr ?_
  refine runs_insertDeliveries rfl fun ids now each sub inside => ?_
  have old : past.calls ⊆ now.calls := fun c hc => sub (List.subset_append_right [_, _, _, _] _ hc)
  have publishes : Publishes tenant consumer type payload ⟨eventId, ids⟩ _ :=
    @Publishes.mk _ _ _ _ eventId row es ids each
  refine commit_then ⟨_, inside, .publish (may _ old) publishes⟩ (runs_pure.mpr ?_)
  refine ⟨tenant, consumer, type, payload, _, may _ fun c hc => ?_, publishes, ?_⟩
  · exact List.mem_cons_of_mem _ (old hc)
  · refine List.mem_append_left _ ?_
    rw [inside]
    exact List.mem_cons_self

theorem clean_start : ∀ call ∈ (Txn.Past.start : Past).calls, call.1 ≠ .commit := by
  intro call none
  cases none

theorem clean_after {op : Op} {ans : op.Ans} (other : op ≠ .commit)
    (clean : ∀ call ∈ past.calls, call.1 ≠ .commit) :
    ∀ call ∈ (past.after op ans).calls, call.1 ≠ .commit := List.forall_mem_cons.mpr ⟨other, clean⟩

/-- What `accept` answers, for any job that runs it. -/
def Concluded (κ : Prims) (job : Job) (past : Past) : Accepted → Prop
  | .duplicate => Repeated κ job past
  | .bridged stored event ids => Bridged κ job past stored ⟨event, ids⟩

theorem Inbox.runs_accept {source : InboundSource} {key : Option String} {type : String}
    {raw : Bytes} {payload : Value}
    (may : ∀ later, past.calls ⊆ later → Bridging κ later job source key type raw payload)
    (clean : ∀ call ∈ past.calls, call.1 ≠ .commit) :
    Runs (allows κ cfg job) past (accept source key type raw payload) (Concluded κ job) := by
  refine begin_then trivial (ask_then trivial fun inboundId => query_then rfl fun inserted => ?_)
  cases inserted with
  | none =>
    refine rollback_then trivial
      (runs_pure.mpr ⟨?_, inboundId, source, key, type, raw, payload, ?_, ?_⟩)
    · exact clean_after nofun (clean_after nofun (clean_after nofun (clean_after nofun clean)))
    · exact may _ (List.subset_append_right [_, _, _, _] _)
    · exact List.mem_cons_of_mem _ List.mem_cons_self
  | some stored =>
    refine ask_then trivial fun eventId => query_then trivial fun row =>
      query_then trivial fun es => ?_
    refine (runs_bind _ _ _).mpr (runs_insertDeliveries rfl fun ids now each sub inside => ?_)
    have old : past.calls ⊆ now.calls := fun c hc =>
      sub (List.subset_append_right [_, _, _, _, _, _] _ hc)
    have publishes : Publishes source.tenantId none type payload ⟨eventId, ids⟩ _ :=
      @Publishes.mk _ _ _ _ eventId row es ids each
    have bridges : Bridges source key type raw payload stored ⟨eventId, ids⟩ _ :=
      @Bridges.mk _ _ _ raw _ inboundId _ _ _ publishes
    refine query_then (allows_inside inside trivial) fun _ => ?_
    have ended : now.tx.map (· ++ [ran (.linkInboundEvent stored eventId) ()]) = some _ :=
      congrArg (Option.map _) inside
    refine commit_then ⟨_, ended, .bridge (may _ fun c hc => ?_) bridges⟩ (runs_pure.mpr ?_)
    · exact List.mem_cons_of_mem _ (old hc)
    · refine ⟨source, key, type, raw, payload, _, may _ fun c hc => ?_, bridges, ?_⟩
      · exact List.mem_cons_of_mem _ (List.mem_cons_of_mem _ (old hc))
      · refine List.mem_append_left _ ?_
        change _ ∈ (now.tx.map _).toList
        rw [ended]
        exact List.mem_cons_self

end FanOut

namespace Api

variable {κ : Prims} {cfg : DispatcherConfig} {past : Past} {tenant : String} {headers : Headers}
  {request : Request}

theorem runs_orNotFound {α : Type} {Φ : Past → Op → Prop} {what : String} {found : Option α}
    {Q : Past → α → Prop} (next : ∀ a, found = some a → Q past a) :
    Runs Φ past (orNotFound what found) Q := by
  cases found with
  | none => exact Txn.runs_throw
  | some a => exact runs_pure.mpr (next a rfl)

theorem runs_reply {q : Stmt} {f : q.Out → Answer} (outside : past.tx = none)
    (admin : Admin past.calls q)
    (plain : ∀ out now, ensures κ cfg (.serve headers request) now (.answered (.ok (f out)))) :
    Runs (allows κ cfg (.serve headers request)) past (do return f (← query q))
      fun now a => ensures κ cfg (.serve headers request) now (.answered (.ok a)) :=
  query_then (allows_alone outside admin) fun out => runs_pure.mpr (plain out _)

theorem runs_resolveConsumer {uid : String} {Q : Past → Consumer → Prop} (outside : past.tx = none)
    (next : ∀ c (now : Past), now.tx = none → Told now.calls (.getConsumer tenant uid) (some c) →
      Q now c) :
    Runs (allows κ cfg (.serve headers request)) past (resolveConsumer tenant uid) Q := by
  refine query_then (allows_alone outside (.read rfl)) fun found => runs_orNotFound ?_
  rintro c rfl
  exact next c _ (after_alone outside) List.mem_cons_self

theorem runs_secretOr {given : Option String} {Q : Past → String → Prop}
    {Φ : Past → Op → Prop} (may : Φ past (.env .generateSecret))
    (next : ∀ secret (now : Past), now.tx = past.tx → past.calls ⊆ now.calls → Q now secret) :
    Runs Φ past (secretOr given) Q := by
  cases given with
  | some secret => exact runs_pure.mpr (next secret past rfl fun _ h => h)
  | none => exact runs_ask.mpr ⟨may, fun r => next r _ rfl (List.subset_cons_self _ _)⟩

theorem runs_checkedSecret {given : Option String} {Q : Past → String → Prop}
    {Φ : Past → Op → Prop} (may : Φ past (.env .generateSecret))
    (next : ∀ secret (now : Past), now.tx = past.tx → Q now secret) :
    Runs Φ past (checkedSecret given) Q := by
  cases given with
  | some secret =>
    simp only [checkedSecret]
    split
    · exact Txn.runs_throw
    · exact runs_pure.mpr (next secret past rfl)
  | none => exact runs_ask.mpr ⟨may, fun r => next r _ rfl⟩

theorem runs_createEndpoint {consumer : Option Uuid} {url : String} {secret : Option String}
    {types : Option (List String)} (outside : past.tx = none)
    (scope : Scoped past.calls tenant consumer) :
    Runs (allows κ cfg (.serve headers request)) past
      (do
        let secret ← secretOr secret
        let e ← storeEndpoint tenant consumer url secret types
        return answer 201 (.createdEndpoint (hideSecret e) secret))
      fun now a => ensures κ cfg (.serve headers request) now (.answered (.ok a)) := by
  refine (runs_bind _ _ _).mpr (runs_secretOr trivial fun secret now same sub => ?_)
  refine (runs_bind _ _ _).mpr (ask_then trivial fun id => ?_)
  refine runs_query.mpr ⟨allows_alone (same.trans outside) (.createEndpoint ?_), fun _ => ?_⟩
  · exact scope.mono fun c hc => List.mem_cons_of_mem _ (sub hc)
  · exact runs_pure.mpr trivial

theorem runs_createMessage {consumer : Option Uuid} {type : String} {payload : Value}
    (scope : Scoped past.calls tenant consumer)
    (content : request.publishes = some (type, payload)) :
    Runs (allows κ cfg (.serve headers request)) past
      (do return enqueued (← Outbox.enqueueMessage tenant consumer type payload))
      fun now a => ensures κ cfg (.serve headers request) now (.answered (.ok a)) := by
  refine (runs_bind _ _ _).mpr ((Outbox.runs_enqueueMessage ?_).mono fun now enq published => ?_)
  · exact fun later sub => .request (scope.mono sub) content
  · exact runs_pure.mpr published

theorem runs_handle (outside : past.tx = none) :
    Runs (allows κ cfg (.serve headers request)) past (handle κ tenant request)
      fun now a => ensures κ cfg (.serve headers request) now (.answered (.ok a)) := by
  cases request with
  | createMessage type payload =>
    refine ask_then trivial fun limited => ?_
    cases limited with
    | some retryAfter => exact runs_pure.mpr trivial
    | none => exact runs_createMessage (.inl rfl) rfl
  | listMessages limit offset => exact runs_reply outside (.read rfl) fun _ _ => trivial
  | getMessage id =>
    refine query_then (allows_alone outside (.read rfl)) fun found => ?_
    refine (runs_bind _ _ _).mpr (runs_orNotFound fun event _ => ?_)
    dsimp only
    split
    · exact (runs_bind _ _ _).mpr Txn.runs_throw
    · exact runs_reply (after_alone outside) (.read rfl) fun _ _ => trivial
  | getDeliveryDetail id =>
    refine query_then (allows_alone outside (.read rfl)) fun found => ?_
    refine (runs_bind _ _ _).mpr (runs_orNotFound fun delivery _ => ?_)
    exact runs_reply (after_alone outside) (.read rfl) fun _ _ => trivial
  | replayDelivery id =>
    refine (runs_bind _ _ _).mpr (query_then (allows_alone outside (.read rfl)) fun found => ?_)
    refine runs_orNotFound fun delivery _ => ?_
    dsimp only
    split
    · exact (runs_bind _ _ _).mpr Txn.runs_throw
    · refine query_then (allows_alone (after_alone outside) .resetForReplay) fun _ => ?_
      exact runs_pure.mpr trivial
  | createEndpoint url secret types => exact runs_createEndpoint outside (.inl rfl)
  | listEndpoints => exact runs_reply outside (.read rfl) fun _ _ => trivial
  | getEndpoint id =>
    refine query_then (allows_alone outside (.read rfl)) fun found => ?_
    refine (runs_bind _ _ _).mpr (runs_orNotFound fun e _ => runs_pure.mpr trivial)
  | updateEndpoint id url disabled types =>
    refine query_then (allows_alone outside .updateEndpoint) fun found => ?_
    exact (runs_bind _ _ _).mpr (runs_orNotFound fun e _ => runs_pure.mpr trivial)
  | createConsumer uid name =>
    dsimp only [handle, createConsumer]
    split
    · exact (runs_bind _ _ _).mpr Txn.runs_throw
    · refine (runs_bind _ _ _).mpr (ask_then trivial fun id => ?_)
      exact runs_query.mpr ⟨allows_alone outside .createConsumer, fun _ => runs_pure.mpr trivial⟩
  | listConsumers => exact runs_reply outside (.read rfl) fun _ _ => trivial
  | getConsumer uid =>
    refine (runs_bind _ _ _).mpr (runs_resolveConsumer outside fun c now _ _ => ?_)
    exact runs_pure.mpr trivial
  | createConsumerEndpoint uid url secret types =>
    refine (runs_bind _ _ _).mpr (runs_resolveConsumer outside fun c now outside told => ?_)
    exact runs_createEndpoint outside (.inr ⟨uid, c, told, rfl⟩)
  | listConsumerEndpoints uid =>
    refine (runs_bind _ _ _).mpr (runs_resolveConsumer outside fun c now outside told => ?_)
    exact runs_reply outside (.read rfl) fun _ _ => trivial
  | createConsumerMessage uid type payload =>
    refine ask_then trivial fun limited => ?_
    cases limited with
    | some retryAfter => exact runs_pure.mpr trivial
    | none =>
      refine (runs_bind _ _ _).mpr (runs_resolveConsumer outside fun c now outside told => ?_)
      exact runs_createMessage (.inr ⟨uid, c, told, rfl⟩) rfl
  | listConsumerMessages uid limit offset =>
    refine (runs_bind _ _ _).mpr (runs_resolveConsumer outside fun c now outside told => ?_)
    exact runs_reply outside (.read rfl) fun _ _ => trivial
  | createInboundSource slug provider secret =>
    simp only [handle, createInboundSource]
    cases Inbound.parseProvider κ provider with
    | error e => exact (runs_bind _ _ _).mpr Txn.runs_throw
    | ok _ =>
      refine (runs_bind _ _ _).mpr (runs_pure.mpr ((runs_bind _ _ _).mpr ?_))
      refine runs_checkedSecret trivial fun secret now same => ?_
      refine (runs_bind _ _ _).mpr (ask_then trivial fun id => ?_)
      refine runs_query.mpr ⟨allows_alone (same.trans outside) .createInboundSource, fun _ => ?_⟩
      exact runs_pure.mpr trivial
  | listInboundSources => exact runs_reply outside (.read rfl) fun _ _ => trivial

/- A call whose error is matched on: what it may leave behind besides its result. -/
theorem outcome_then {α β : Type} {Φ : Past → Op → Prop} {x : Io α} {f : Except CoreError α → Io β}
    {P : Past → α → Prop} {Q : Past → β → Prop} (runs : Runs Φ past x P)
    (good : ∀ now a, P now a → Runs Φ now (f (.ok a)) Q)
    (bad : ∀ now e, Runs Φ now (f (.error e)) Q) : Runs Φ past (outcome x >>= f) Q := by
  refine (runs_bind _ _ _).mpr (runs_outcome.mpr (Txn.Along.mono runs fun now r h => ?_))
  cases r with
  | error e => exact bad now e
  | ok a => exact good now a (h a rfl)

theorem runs_serve :
    Runs (allows κ cfg (.serve headers request)) .start (serve κ headers request)
      fun now a => ensures κ cfg (.serve headers request) now (.answered (.ok a)) := by
  unfold serve
  split
  · exact runs_pure.mpr trivial
  · refine outcome_then (P := fun now _ => now.tx = none) ?_ ?_ ?_
    · exact runs_query.mpr ⟨allows_alone rfl (.read rfl), fun _ => rfl⟩
    · intro now found outside
      cases found with
      | none => exact runs_pure.mpr trivial
      | some tenant =>
        refine outcome_then (runs_handle outside) ?_ ?_
        · exact fun now a h => runs_pure.mpr h
        · intro now e
          refine runs_pure.mpr ?_
          unfold apiError
          split <;> trivial
    · exact fun now e => runs_pure.mpr trivial

theorem runs_ingest {slug : String} {raw : Bytes} :
    Runs (allows κ cfg (.ingest slug headers raw)) .start (ingest κ slug headers raw)
      fun now a => ensures κ cfg (.ingest slug headers raw) now (.answered (.ok a)) := by
  refine outcome_then (P := fun now found => now.tx = none ∧
    (∀ call ∈ now.calls, call.1 ≠ .commit) ∧ Told now.calls (.getInboundSourceBySlug slug) found)
      ?_ ?_ ?_
  · refine runs_query.mpr ⟨allows_alone rfl rfl, fun _ => ⟨rfl, ?_, List.mem_cons_self⟩⟩
    exact clean_after nofun clean_start
  · rintro now found ⟨outside, clean, told⟩
    cases found with
    | none => exact runs_pure.mpr trivial
    | some source =>
      dsimp only
      split
      · exact runs_pure.mpr trivial
      · unfold receive
        split
        · exact runs_pure.mpr trivial
        · rename_i provider parsed
          refine ask_then trivial fun t => ?_
          split
          · exact runs_pure.mpr trivial
          · rename_i key type examined
            refine outcome_then (Inbox.runs_accept ?_ (clean_after nofun clean)) ?_ ?_
            · intro later sub
              exact .verified (told.mono fun c hc => sub (List.mem_cons_of_mem _ hc)) parsed
                examined
            · intro now acc concluded
              cases acc with
              | duplicate => exact runs_pure.mpr concluded
              | bridged stored event ids => exact runs_pure.mpr ⟨stored, ids, rfl, concluded⟩
            · exact fun now e => runs_pure.mpr trivial
  · exact fun now e => runs_pure.mpr trivial

end Api

namespace Cli

variable {κ : Prims} {cfg : DispatcherConfig}

theorem runs_run {c : Command} :
    Runs (allows κ cfg (.command c)) .start (run κ c) fun _ _ => True := by
  cases c with
  | createApiKey tenant key =>
    refine ask_then trivial fun id => query_then (allows_alone rfl .insertApiKey) fun _ => ?_
    exact runs_pure.mpr trivial
  | createEndpoint tenant url secret types consumer =>
    cases consumer with
    | none =>
      refine (runs_bind _ _ _).mpr (runs_pure.mpr ((runs_bind _ _ _).mpr ?_))
      refine ask_then trivial fun id => runs_query.mpr ⟨?_, fun _ => runs_pure.mpr trivial⟩
      exact allows_alone rfl (.createEndpoint (.inl rfl))
    | some uid =>
      refine (runs_bind _ _ _).mpr (query_then (allows_alone rfl (.read rfl)) fun found => ?_)
      refine (runs_bind _ _ _).mpr (Api.runs_orNotFound fun c found => ?_)
      refine runs_pure.mpr ((runs_bind _ _ _).mpr (ask_then trivial fun id => ?_))
      refine runs_query.mpr ⟨?_, fun _ => runs_pure.mpr trivial⟩
      refine allows_alone rfl (.createEndpoint (.inr ⟨uid, c, ?_, rfl⟩))
      exact found ▸ List.mem_cons_of_mem _ List.mem_cons_self
  | createConsumer tenant uid name =>
    refine (runs_bind _ _ _).mpr (ask_then trivial fun id => ?_)
    exact runs_query.mpr ⟨allows_alone rfl .createConsumer, fun _ => runs_pure.mpr trivial⟩
  | createInboundSource tenant slug provider secret =>
    simp only [run]
    split
    · exact Txn.runs_throw
    · refine (runs_bind _ _ _).mpr (ask_then trivial fun id => ?_)
      exact runs_query.mpr ⟨allows_alone rfl .createInboundSource, fun _ => runs_pure.mpr trivial⟩

end Cli

section Spec

variable {κ : Prims} {cfg : DispatcherConfig}

theorem along_conclude {α : Type} {job : Job} {x : Io α} {result : Except CoreError α → Result}
    (runs : Runs (allows κ cfg job) .start x fun now a => ensures κ cfg job now (result (.ok a)))
    (failed : ∀ now e, ensures κ cfg job now (result (.error e))) :
    Txn.Along (allows κ cfg job) (ensures κ cfg job) .start (conclude result x) := by
  refine (Txn.along_bind _ _ _).mpr (Txn.Along.mono runs fun now r h => ?_)
  cases r with
  | error e => exact failed now e
  | ok a => exact h a rfl

theorem along_program (job : Job) :
    Txn.Along (allows κ cfg job) (ensures κ cfg job) .start (program κ cfg job) := by
  cases job with
  | claim w =>
    refine along_conclude (runs_query.mpr ⟨allows_alone rfl ⟨rfl, rfl⟩, fun _ => ?_⟩) fun _ _ =>
      trivial
    exact ⟨w, rfl, List.mem_cons_self⟩
  | processOne w d => exact along_conclude Dispatcher.runs_processOne fun _ _ => trivial
  | enqueueMessage tenant consumer type payload =>
    exact along_conclude (Outbox.runs_enqueueMessage fun _ _ => .direct) fun _ _ => trivial
  | accept source key type raw payload =>
    refine along_conclude ((Inbox.runs_accept (fun _ _ => .direct) clean_start).mono ?_) fun _ _ =>
      trivial
    intro now acc concluded
    cases acc <;> exact concluded
  | updateEndpoint id tenant url disabled types =>
    exact along_conclude (runs_query.mpr ⟨allows_alone rfl .updateEndpoint, fun _ => trivial⟩)
      fun _ _ => trivial
  | resetForReplay id =>
    exact along_conclude (runs_query.mpr ⟨allows_alone rfl .resetForReplay, fun _ => trivial⟩)
      fun _ _ => trivial
  | serve headers request => exact along_conclude Api.runs_serve fun _ _ => trivial
  | ingest slug headers raw => exact along_conclude Api.runs_ingest fun _ _ => trivial
  | command c => exact along_conclude Cli.runs_run fun _ _ => trivial

def protocol (κ : Prims) (cfg : DispatcherConfig) : Txn.Spec (engine κ cfg) where
  allows := allows κ cfg
  ensures := ensures κ cfg
  along := along_program

end Spec

end Dropless
