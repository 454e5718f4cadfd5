import Mathlib.Data.Finset.Card
import Dropless.Budget
import Dropless.Resolution

namespace Dropless

open Dispatcher

variable {κ : Prims} {cfg : DispatcherConfig} {W : World} {db db' : Db} {n m : Nat} {T t : Time}
  {us : List (List Ran)} {w : String} {d r r' : Delivery} {e e' : Endpoint} {a : DeliveryAttempt}

section Rows

variable {α : Type} [Record α] {x y : α} {id : Uuid}

theorem amend_fits (found : db.find? id = some x)
    (kept : (Record.row y).frozen = (Record.row x).frozen) : db.Admits (Record.row y) := by
  refine (Txn.Store.amends_accepts ?_ (Row.amends_of_frozen kept)).2
  exact Txn.Store.get?_of_mem (Txn.Store.get?_some (Db.find?_eq_some.mp found)).1

theorem amend_id (found : db.find? id = some x)
    (kept : (Record.row y).frozen = (Record.row x).frozen) : Record.id y = id := by
  have key := (Row.amends_of_frozen kept).1
  rw [show schema.key (Record.row y) = _ from Record.key_row y,
    show schema.key (Record.row x) = _ from Record.key_row x] at key
  exact (congrArg Key.id key).trans (Db.find?_id found)

theorem find?_amend (found : db.find? id = some x)
    (kept : (Record.row y).frozen = (Record.row x).frozen) (i : Uuid) :
    Db.find? (db.put (Record.row y)) i = if id = i then some y else db.find? i := by
  rw [Db.find?_put (amend_fits found kept), amend_id found kept]

theorem Fresh.amend (fresh : Fresh W n m db) (found : db.find? id = some x)
    (kept : (Record.row y).frozen = (Record.row x).frozen) :
    Fresh W n m (db.put (Record.row y)) := by
  refine ⟨fresh.apart, fun i drawn later y mem => ?_⟩
  rw [Txn.Store.put_rows (amend_fits found kept)] at mem
  rcases Txn.Store.mem_place mem with rfl | old
  · rw [Record.key_row, amend_id found kept]
    have there := Txn.Store.get?_some (Db.find?_eq_some.mp found)
    rw [← show (Record.row x).key.id = id from congrArg Key.id there.2]
    exact fresh.unused i drawn later _ there.1
  · exact fresh.unused i drawn later y old

end Rows

section Aside

/-- What working on some deliveries leaves alone: the others, the events, and which endpoints are
disabled. -/
structure Aside (mine : Uuid → Prop) (db db' : Db) : Prop where
  deliveries : ∀ i, ¬ mine i → (db'.find? i : Option Delivery) = db.find? i
  events : ∀ i, (db'.find? i : Option Event) = db.find? i
  endpoints : ∀ i, (db'.find? i).map Endpoint.disabled = (db.find? i).map Endpoint.disabled

variable {mine mine' : Uuid → Prop} {i : Uuid}

theorem Aside.trans {db'' : Db} (h : Aside mine db db') (g : Aside mine' db' db'') :
    Aside (fun i => mine i ∨ mine' i) db db'' where
  deliveries i other := (g.deliveries i fun own => other (.inr own)).trans
    (h.deliveries i fun own => other (.inl own))
  events i := (g.events i).trans (h.events i)
  endpoints i := (g.endpoints i).trans (h.endpoints i)

theorem Aside.mono (h : Aside mine db db') (more : ∀ i, mine i → mine' i) : Aside mine' db db' :=
  ⟨fun i other => h.deliveries i fun own => other (more i own), h.events, h.endpoints⟩

theorem Aside.endpoint (h : Aside mine db db') (found : db.find? i = some e) :
    ∃ e' : Endpoint, db'.find? i = some e' ∧ e'.disabled = e.disabled := by
  have same := h.endpoints i
  rw [found] at same
  exact Option.map_eq_some_iff.mp same

theorem Aside.referenced (h : Aside mine db db') (refs : Referenced db d) : Referenced db' d := by
  obtain ⟨⟨ev, event⟩, e, endpoint⟩ := refs
  obtain ⟨e', found, _⟩ := h.endpoint endpoint
  exact ⟨⟨ev, (h.events _).trans event⟩, e', found⟩

theorem aside_delivery (found : db.find? i = some r)
    (kept : (Row.delivery r').frozen = (Row.delivery r).frozen) :
    Aside (· = i) db (db.put (.delivery r')) := by
  have fits : db.Admits (.delivery r') := amend_fits (y := r') found kept
  refine ⟨fun j other => ?_, fun j => ?_, fun j => congrArg _ ?_⟩
  · exact (find?_amend (y := r') found kept j).trans (if_neg fun same => other same.symm)
  · exact Db.find?_put_outside fits (fun same => Table.noConfusion same) j
  · exact Db.find?_put_outside fits (fun same => Table.noConfusion same) j

theorem aside_attempt (db : Db) (a : DeliveryAttempt) :
    Aside (fun _ => False) db (db.put (.attempt a)) := by
  have fits : db.Admits (.attempt a) := admits_plain rfl
  refine ⟨fun j _ => ?_, fun j => ?_, fun j => congrArg _ ?_⟩
  · exact Db.find?_put_outside fits (fun same => Table.noConfusion same) j
  · exact Db.find?_put_outside fits (fun same => Table.noConfusion same) j
  · exact Db.find?_put_outside fits (fun same => Table.noConfusion same) j

theorem aside_endpoint (found : db.find? i = some e)
    (kept : (Row.endpoint e').frozen = (Row.endpoint e).frozen) (same : e'.disabled = e.disabled) :
    Aside (fun _ => False) db (db.put (.endpoint e')) := by
  have fits : db.Admits (.endpoint e') := amend_fits (y := e') found kept
  refine ⟨fun j _ => ?_, fun j => ?_, fun j => ?_⟩
  · exact Db.find?_put_outside fits (fun same => Table.noConfusion same) j
  · exact Db.find?_put_outside fits (fun same => Table.noConfusion same) j
  · rw [show Db.find? (db.put (.endpoint e')) j = _ from find?_amend (y := e') found kept j]
    split
    · rename_i own
      rw [← own, found, Option.map_some, Option.map_some, same]
    · rfl

end Aside

section One

/-- The clock has passed the windows of all circuits. -/
def Passable (T : Time) (db : Db) : Prop :=
  ∀ i (e : Endpoint), db.find? i = some e → ∀ u, e.circuitOpenUntil = some u → u ≤ T

/- The lease of a claimed delivery lasts for its calls. -/
def Lasts (W : World) (w : String) (n m : Nat) (d : Delivery) : Prop :=
  ∀ j, n ≤ j → j < m → Store.leased w (W.time j) d = true

/-- The delivery is delivered, or waits until its endpoint is enabled again. -/
def AtRest (T : Time) (db : Db) (d : Delivery) : Prop :=
  d.status = .succeeded ∨ (d.status = .failed ∧ T < d.nextAttemptAt ∧
    ∃ e : Endpoint, db.find? d.endpointId = some e ∧ e.disabled = true)

/-- A worker and its subscribers on their own: the clock has passed `T`, a batch is done within
the lease, and every POST is answered with a 2xx that can be recorded. -/
structure Healthy (cfg : DispatcherConfig) (T : Time) (W : World) : Prop where
  time : ∀ i, T ≤ W.time i
  clock : ∀ i, T ≤ W.answer i .utcNow
  lease : ∀ i j, i ≤ j → j ≤ i + 13 * cfg.batchSize.toNat →
    W.time j < W.time i + seconds cfg.lockSecs.toInt
  accepted : ∀ i req, ∃ resp : Response, W.answer i (.post req) = .ok resp ∧
    resp.isSuccess = true ∧ nulFree (truncate resp.text responseSnippetLen)
  skipped : W.choice = []

/-- What is left when some deliveries have been handled, from the `n`-th call on. -/
structure Through (T : Time) (W : World) (m n last : Nat) (ids : List Uuid) (db : Db) (s : Scene) :
    Prop where
  begun : n ≤ s.calls
  soon : s.calls ≤ last
  aside : Aside (· ∈ ids) db s.db
  fresh : Fresh W s.calls m s.db
  passable : Passable T s.db
  rows : ∀ i ∈ ids, ∃ r, Db.find? s.db i = some r ∧ AtRest T s.db r

section Through

variable {last last' k : Nat} {ids ids' : List Uuid} {s s' : Scene}

theorem Through.wider (h : Through T W m n last ids db s) (less : k ≤ n) (more : last ≤ last') :
    Through T W m k last' ids db s :=
  ⟨Nat.le_trans less h.begun, Nat.le_trans h.soon more, h.aside, h.fresh, h.passable, h.rows⟩

theorem Through.after (h : Through T W m n last ids db' s)
    (first : Aside (fun _ => False) db db') : Through T W m n last ids db s where
  __ := h
  aside := (first.trans h.aside).mono fun _ own => own.elim False.elim fun mem => mem

theorem AtRest.aside {mine : Uuid → Prop} (rest : AtRest T db d) (h : Aside mine db db') :
    AtRest T db' d := by
  refine rest.imp_right fun ⟨failed, later, e, found, disabled⟩ => ?_
  obtain ⟨e', found', same⟩ := h.endpoint found
  exact ⟨failed, later, e', found', same.trans disabled⟩

theorem Through.trans (h : Through T W m n last ids db s)
    (g : Through T W m s.calls last' ids' s.db s') (apart : ∀ i ∈ ids, i ∉ ids') :
    Through T W m n last' (ids ++ ids') db s' where
  begun := Nat.le_trans h.begun g.begun
  soon := g.soon
  aside := (h.aside.trans g.aside).mono fun _ => List.mem_append.mpr
  fresh := g.fresh
  passable := g.passable
  rows i mem := by
    rcases List.mem_append.mp mem with first | second
    · obtain ⟨r, found, rest⟩ := h.rows i first
      exact ⟨r, (g.aside.deliveries i (apart i first)).trans found, rest.aside g.aside⟩
    · exact g.rows i second

end Through

theorem Lasts.within {n' m' : Nat} (lasts : Lasts W w n m d) (low : n ≤ n') (high : m' ≤ m) :
    Lasts W w n' m' d :=
  fun j above below => lasts j (Nat.le_trans low above) (Nat.lt_of_lt_of_le below high)

def delivered (t : Time) (num : Int32) (a : DeliveryAttempt) (d : Delivery) (e : Endpoint)
    (db : Db) : Db :=
  ((db.put (.attempt a)).put (.delivery (Store.released t
    { d with status := .succeeded, attemptCount := num, lastError := none }))).put (.endpoint
      { e with
        circuitState := "closed", circuitOpenUntil := none, consecutiveFailures := 0,
        updatedAt := t })

theorem perform_closing (cfg : DispatcherConfig) (us : List (List Ran)) (e : Endpoint)
    (num code : Int32) {snippet : String} (started finished : Time) (fresh : Fresh W n m db)
    (drawn : n + 1 < m) (worker : nulFree w)
    (found : db.find? d.id = some d) (leased : Store.leased w (W.time n) d = true)
    (free : nulFree snippet) (there : db.find? e.id = some e') :
    ∃ us' a, a.id = W.answer (n + 1) .newUuid ∧ perform κ cfg W (.outside n db us)
      (succeed w d e num code snippet started finished) =
        (.ok (), .outside (n + 6) (delivered (W.time n) num a d e' db) us') := by
  have recorded := perform_record κ cfg (W.time n) us num (some code) (some snippet) none started
    finished (fresh.later (Nat.le_succ n)) drawn found (by simpa using free)
  generalize row : (⟨W.answer (n + 1) .newUuid, d.id, num, some code, some snippet, none, started,
    finished⟩ : DeliveryAttempt) = a at recorded
  have marked : (Stmt.markSucceeded d.id w num).exec (W.time n) W.choice
      (view db [⟨.recordAttempt a, (), [⟨none, .attempt a⟩]⟩]) =
        .ok (true, [Store.amended d (Store.released (W.time n)
          { d with status := .succeeded, attemptCount := num, lastError := none })]) := by
    rw [exec_admitted (q := .markSucceeded ..) (List.forall_mem_singleton.mpr worker)]
    exact congrArg Except.ok (underLease_held _ (found_recorded a found) leased)
  rw [succeed, perform_begin, perform_bind_ok recorded, perform_bind_ok (perform_query marked),
    if_pos rfl]
  generalize set : Store.released (W.time n)
    { d with status := .succeeded, attemptCount := num, lastError := none } = r
  have kept : (Row.delivery r).frozen = (Row.delivery d).frozen := set ▸ rfl
  have seen : Db.find? ((db.put (.attempt a)).put (.delivery r)) e.id = some e' :=
    (Db.find?_put_outside (amended_fits a found kept) (fun same => Table.noConfusion same)
      _).trans
      ((Db.find?_put_outside (admits_plain rfl) (fun same => Table.noConfusion same) _).trans there)
  have closed : (Stmt.updateCircuit e.id Circuit.onSuccess.state Circuit.onSuccess.openUntil
      Circuit.onSuccess.consecutiveFailures).exec (W.time n) W.choice
      (view db ([⟨.recordAttempt a, (), [⟨none, .attempt a⟩]⟩] ++
        [⟨.markSucceeded d.id w num, true, [Store.amended d r]⟩])) =
        .ok ((), [Store.amended e' { e' with
          circuitState := "closed", circuitOpenUntil := none, consecutiveFailures := 0,
          updatedAt := W.time n }]) := by
    rw [exec_admitted (q := .updateCircuit ..) (List.forall_mem_singleton.mpr (by decide))]
    change Except.ok (Store.updateCircuit ..) = _
    rw [view_push]
    change Except.ok (Store.updateCircuit _ _ _ _ _ ((db.put (.attempt a)).put (.delivery r))) = _
    simp [Store.updateCircuit, Store.update, seen, Circuit.onSuccess]
  rw [Dispatcher.updateCircuit, perform_bind_ok (perform_query closed)]
  subst set
  exact ⟨_, a, row ▸ rfl, rfl⟩

theorem delivered_through {num : Int32} {i : Uuid} {k : Nat} (fresh : Fresh W n m db)
    (found : db.find? d.id = some d) (there : db.find? i = some e)
    (own : a.id = W.answer k .newUuid) (drawn : k < n) (within : n ≤ m)
    (others : ∀ j (e : Endpoint), db.find? j = some e → j ≠ i →
      ∀ u, e.circuitOpenUntil = some u → u ≤ T) :
    Through T W m n n [d.id] db (.outside n (delivered t num a d e db) us) := by
  generalize set : Store.released t
    { d with status := .succeeded, attemptCount := num, lastError := none } = r
  generalize closed : ({ e with
    circuitState := "closed", circuitOpenUntil := none, consecutiveFailures := 0,
    updatedAt := t } : Endpoint) = e'
  have kept : (Row.delivery r).frozen = (Row.delivery d).frozen := set ▸ rfl
  have kept' : (Row.endpoint e').frozen = (Row.endpoint e).frozen := closed ▸ rfl
  have found' : Db.find? (db.put (.attempt a)) d.id = some d := found_recorded a found
  have first := aside_attempt db a
  have second := aside_delivery found' kept
  have there' : Db.find? ((db.put (.attempt a)).put (.delivery r)) i = some e :=
    (Db.find?_put_outside (amended_fits a found kept) (fun same => Table.noConfusion same)
      _).trans
      ((Db.find?_put_outside (admits_plain rfl) (fun same => Table.noConfusion same) _).trans there)
  have third := aside_endpoint there' kept' (closed ▸ rfl)
  have aside : Aside (· ∈ [d.id]) db (delivered t num a d e db) := by
    rw [delivered, set, closed]
    refine ((first.trans second).trans third).mono ?_
    rintro j ((no | own) | no)
    · exact no.elim
    · exact List.mem_singleton.mpr own
    · exact no.elim
  refine ⟨Nat.le_refl n, Nat.le_refl n, aside, ?_, ?_,
    List.forall_mem_singleton.mpr ⟨r, ?_, .inl (set ▸ rfl)⟩⟩
  · change Fresh W n m (delivered t num a d e db)
    rw [delivered, set, closed]
    have first := fresh.put (r := .attempt a) (admits_plain rfl) (Nat.lt_of_lt_of_le drawn within)
      drawn own
    exact (first.amend (y := r) found' kept).amend (y := e') there' kept'
  · intro j e₁ here u until_
    change Db.find? (delivered t num a d e db) j = some e₁ at here
    rw [delivered, set, closed, show Db.find? (Txn.Store.put _ (.endpoint e')) j = _ from
      find?_amend (y := e') there' kept' j] at here
    split at here
    · cases here
      rw [← closed] at until_
      cases until_
    · rename_i other
      rw [Db.find?_put_outside (amended_fits a found kept) (fun same => Table.noConfusion same),
        Db.find?_put_outside (admits_plain rfl) (fun same => Table.noConfusion same)] at here
      exact others j e₁ here (fun same => other same.symm) u until_
  · have fits : ((db.put (.attempt a)).put (.delivery r)).Admits (.endpoint e') :=
      amend_fits (y := e') there' kept'
    change Db.find? (delivered t num a d e db) d.id = some r
    rw [delivered, set, closed, Db.find?_put_outside fits (fun same => Table.noConfusion same)]
    exact (find?_amend (y := r) found' kept d.id).trans (if_pos rfl)

theorem total_signs (total : κ.Total) (secret id : String) (ts : Int64) (body : Bytes) :
    ∃ headers, Signing.signatureHeaders κ secret id ts body = .ok headers := by
  refine ⟨⟨id, .ofList (decimal ts), "v1," ++ κ.base64Encode
    (κ.hmacSha256 (Signing.keyBytes κ secret) (Signing.content id ts body))⟩, ?_⟩
  simp only [Signing.signatureHeaders, Signing.sign, Signing.mac, total.macKey]
  rfl

theorem perform_deliver (us : List (List Ran)) (total : κ.Total) (healthy : Healthy cfg T W)
    (fresh : Fresh W n m db) (room : n + 10 ≤ m) (worker : nulFree w)
    (found : db.find? d.id = some d) (lasts : Lasts W w n (n + 10) d) {ev : Event}
    (event : db.find? d.eventId = some ev) (there : db.find? e.id = some e') (now : Time)
    (others : ∀ j (e₁ : Endpoint), db.find? j = some e₁ → j ≠ e.id →
      ∀ u, e₁.circuitOpenUntil = some u → u ≤ T) :
    Through T W m n (n + 10) [d.id] db
      (perform κ cfg W (.outside n db us) (deliver κ cfg w d e now)).2 := by
  obtain ⟨body, serialized⟩ := total.toVec ev.payload
  have read : (Stmt.getEvent d.eventId).exec (W.time n) W.choice db = .ok (some ev, []) := by
    rw [exec_admitted (q := .getEvent _) (by simp [Stmt.texts])]
    exact congrArg (fun x => Except.ok (x, [])) event
  obtain ⟨headers, signed⟩ := total_signs total e.secret (uuidText d.id)
    (Int64.ofInt (now / 1000000)) body
  rw [deliver, perform_bind_ok (perform_alone read)]
  simp only [serialized, signed]
  rw [utcNow, perform_ask, perform_ask]
  obtain ⟨resp, answered, ok, free⟩ := healthy.accepted (n + 2)
    { url := e.url, idempotencyKey := d.idempotencyKey, webhookId := headers.id,
      webhookTimestamp := headers.timestamp, webhookSignature := headers.signature,
      eventType := ev.eventType, body }
  rw [answered, perform_ask, resolve]
  simp only [ok, if_true]
  obtain ⟨us', a, own, ended⟩ := perform_closing (κ := κ) cfg
    ([⟨.getEvent d.eventId, some ev⟩] :: us) e (d.attemptCount + 1) resp.code
    (W.answer (n + 1) .utcNow) (W.answer (n + 3) .utcNow) (fresh.later (by omega : n ≤ n + 4))
    (by omega) worker found (lasts (n + 4) (by omega) (by omega)) free there
  rw [show (Txn.Store.apply db []) = db from rfl, ended]
  exact (delivered_through (fresh.later (by omega)) found there own (by omega) room others).wider
    (by omega) (Nat.le_refl _)

theorem gate_passed {now : Time} (passed : ∀ u, e.circuitOpenUntil = some u → u ≤ now) :
    Circuit.gate e now = .allow ∨ (Circuit.gate e now = .probe ∧
      (e.circuitState = "open" ∨ e.circuitState = "half_open")) := by
  unfold Circuit.gate
  split
  · rename_i state
    refine .inr ⟨?_, .inl state⟩
    split
    · rename_i u until_
      exact if_neg (Int.not_lt.mpr (passed u until_))
    · rfl
  · split
    · rename_i state
      refine .inr ⟨?_, .inr state⟩
      split
      · rename_i u until_
        exact if_neg (Int.not_lt.mpr (passed u until_))
      · rfl
    · exact .inl rfl

theorem perform_paused {now : Time} (fresh : Fresh W n m db) (worker : nulFree w)
    (found : db.find? d.id = some d) (lasts : Lasts W w n (n + 1) d) (late : T ≤ now)
    (passable : Passable T db) (there : db.find? d.endpointId = some e)
    (disabled : e.disabled = true) :
    Through T W m n (n + 1) [d.id] db (perform κ cfg W (.outside n db us)
      (Dispatcher.deferDelivery d w (now + seconds disabledRecheckSecs))).2 := by
  generalize set : Store.released (W.time n)
    { d with status := .failed, nextAttemptAt := now + seconds disabledRecheckSecs } = r
  have kept : (Row.delivery r).frozen = (Row.delivery d).frozen := set ▸ rfl
  have marked : (Stmt.deferDelivery d.id w (now + seconds disabledRecheckSecs)).exec (W.time n)
      W.choice db = .ok (true, [Store.amended d r]) := by
    rw [exec_admitted (q := .deferDelivery ..) (List.forall_mem_singleton.mpr worker), ← set]
    exact congrArg Except.ok
      (underLease_held _ found (lasts n (Nat.le_refl n) (Nat.lt_succ_self n)))
  have fits : db.Admits (.delivery r) := amend_fits (y := r) found kept
  have endpoints : ∀ i, Db.find? (db.put (.delivery r)) i = (db.find? i : Option Endpoint) :=
    Db.find?_put_outside fits fun same => Table.noConfusion same
  rw [Dispatcher.deferDelivery, perform_bind_ok (perform_alone marked)]
  refine ⟨Nat.le_succ n, Nat.le_refl _, (aside_delivery found kept).mono fun i own =>
    List.mem_singleton.mpr own, ?_, ?_, List.forall_mem_singleton.mpr ⟨r, ?_,
      .inr ⟨set ▸ rfl, ?_, e, ?_, disabled⟩⟩⟩
  · exact (fresh.later (Nat.le_succ n)).amend (y := r) found kept
  · exact fun i e here => passable i e ((endpoints i).symm.trans here)
  · exact (find?_amend (y := r) found kept d.id).trans (if_pos rfl)
  · rw [← set]
    exact Int.lt_of_le_of_lt late (Int.lt_add_of_pos_right now (by decide))
  · have same : r.endpointId = d.endpointId := set ▸ rfl
    rw [same]
    exact (endpoints _).trans there

theorem perform_probe (total : κ.Total) (healthy : Healthy cfg T W) (fresh : Fresh W n m db)
    (room : n + 11 ≤ m) (worker : nulFree w) (found : db.find? d.id = some d)
    (lasts : Lasts W w n (n + 11) d) {ev : Event} (event : db.find? d.eventId = some ev)
    (there : db.find? d.endpointId = some e)
    (state : e.circuitState = "open" ∨ e.circuitState = "half_open") (passable : Passable T db)
    (now : Time) (lost : Io Unit) :
    Through T W m n (n + 11) [d.id] db (perform κ cfg W (.outside n db us) (do
      let acquired : Bool ← query (.tryAcquireProbe e.id (Circuit.probeLease cfg.circuit))
      if acquired then deliver κ cfg w d e now else lost)).2 := by
  have own : e.id = d.endpointId := Db.find?_id there
  obtain ⟨e', probing⟩ : ∃ e', e' = { e with
    circuitState := "half_open", updatedAt := W.time n,
    circuitOpenUntil := some (W.time n + seconds (Circuit.probeLease cfg.circuit).toInt) } :=
      ⟨_, rfl⟩
  have due : Store.probeDue (W.time n) e = true := by
    simp only [Store.probeDue, decide_eq_true_eq]
    refine ⟨state, (Option.all_eq_true _ _).mpr fun u until_ => decide_eq_true ?_⟩
    exact Int.le_trans (passable _ e there u until_) (healthy.time n)
  have acquired : (Stmt.tryAcquireProbe e.id (Circuit.probeLease cfg.circuit)).exec (W.time n)
      W.choice db = .ok (true, [Store.amended e e']) := by
    rw [exec_admitted (q := .tryAcquireProbe ..) (by simp [Stmt.texts]), own, probing]
    change Except.ok (Store.tryAcquireProbe ..) = _
    simp [Store.tryAcquireProbe, Store.update, there, due]
  have kept : (Row.endpoint e').frozen = (Row.endpoint e).frozen := probing ▸ rfl
  have first := aside_endpoint there kept (probing ▸ rfl)
  have here : Db.find? (db.put (.endpoint e')) e.id = some e' :=
    (find?_amend (y := e') there kept e.id).trans (if_pos own.symm)
  rw [perform_bind_ok (perform_alone acquired), if_pos rfl]
  have fresh' : Fresh W (n + 1) m (db.put (.endpoint e')) :=
    (fresh.later (Nat.le_succ n)).amend (y := e') there kept
  have rest := perform_deliver (κ := κ) ([⟨.tryAcquireProbe e.id
    (Circuit.probeLease cfg.circuit), true⟩] :: us) total healthy fresh' (by omega) worker
    ((first.deliveries _ id).trans found) (lasts.within (by omega) (by omega))
    ((first.events _).trans event) here now fun j e₁ seen other => by
      rw [show Db.find? (db.put (.endpoint e')) j = _ from find?_amend (y := e') there kept j,
        if_neg fun same => other (same.symm.trans own.symm)] at seen
      exact passable j e₁ seen
  exact (rest.wider (by omega) (by omega)).after first

/-- One delivery of a batch is handled: it is delivered, unless its endpoint is disabled. -/
theorem perform_through (us : List (List Ran)) (total : κ.Total) (healthy : Healthy cfg T W)
    (fresh : Fresh W n m db) (room : n + 13 ≤ m) (worker : nulFree w)
    (found : db.find? d.id = some d) (lasts : Lasts W w n (n + 13) d) (refs : Referenced db d)
    (passable : Passable T db) :
    Through T W m n (n + 13) [d.id] db
      (perform κ cfg W (.outside n db us) (processOne κ cfg w d)).2 := by
  obtain ⟨⟨ev, event⟩, e, there⟩ := refs
  have own : e.id = d.endpointId := Db.find?_id there
  have late := healthy.clock n
  have read : (Stmt.getEndpoint d.endpointId).exec (W.time (n + 1)) W.choice db =
      .ok (some e, []) := by
    rw [exec_admitted (q := .getEndpoint _) (by simp [Stmt.texts])]
    exact congrArg (fun x => Except.ok (x, [])) there
  rw [processOne, utcNow, perform_ask, perform_bind_ok (perform_alone read)]
  simp only [consult]
  split
  · rename_i disabled
    exact (perform_paused (fresh.later (by omega)) worker found (lasts.within (by omega) (by omega))
      late passable there disabled).wider (by omega) (by omega)
  · rcases gate_passed fun u until_ => Int.le_trans (passable _ e there u until_) late with
      allow | ⟨probe, state⟩
    · simp only [allow]
      exact (perform_deliver _ total healthy (fresh.later (by omega)) (by omega) worker found
        (lasts.within (by omega) (by omega)) event (own ▸ there) _
        fun j e₁ here _ => passable j e₁ here).wider (by omega) (by omega)
    · simp only [probe]
      exact (perform_probe total healthy (fresh.later (by omega)) (by omega) worker found
        (lasts.within (by omega) (by omega)) event there state passable _ _).wider (by omega)
          (by omega)

end One

section Batch

def processed (κ : Prims) (cfg : DispatcherConfig) (W : World) (w : String) (s : Scene)
    (d : Delivery) : Scene :=
  (perform κ cfg W s (processOne κ cfg w d)).2.ended

theorem batch_through (us : List (List Ran)) (total : κ.Total) (healthy : Healthy cfg T W)
    (worker : nulFree w) {ds : List Delivery} (nodup : (ds.map Delivery.id).Nodup)
    (fresh : Fresh W n m db) (room : n + 13 * ds.length ≤ m)
    (found : ∀ d ∈ ds, db.find? d.id = some d)
    (lasts : ∀ d ∈ ds, Lasts W w n (n + 13 * ds.length) d) (refs : ∀ d ∈ ds, Referenced db d)
    (passable : Passable T db) :
    Through T W m n (n + 13 * ds.length) (ds.map Delivery.id) db
      (ds.foldl (processed κ cfg W w) (.outside n db us)) := by
  induction ds generalizing n db us with
  | nil =>
    exact ⟨Nat.le_refl n, Nat.le_refl n, ⟨fun _ _ => rfl, fun _ => rfl, fun _ => rfl⟩, fresh,
      passable, fun i none => (List.not_mem_nil none).elim⟩
  | cons d ds ih =>
    obtain ⟨apart, nodup⟩ := List.nodup_cons.mp nodup
    simp only [List.length_cons, Nat.mul_add] at room lasts ⊢
    have first := perform_through us total healthy fresh (by omega) worker
      (found d List.mem_cons_self) ((lasts d List.mem_cons_self).within (by omega) (by omega))
      (refs d List.mem_cons_self) passable
    generalize ended : (perform κ cfg W (.outside n db us) (processOne κ cfg w d)).2 = s at first
    have soon := first.soon
    have rest := ih s.units nodup first.fresh (by omega)
      (fun x mem => ?_)
      (fun x mem => (lasts x (List.mem_cons_of_mem _ mem)).within first.begun (by omega))
      (fun x mem => first.aside.referenced (refs x (List.mem_cons_of_mem _ mem))) first.passable
    · rw [List.foldl_cons, processed, ended, List.map_cons]
      refine (first.trans rest ?_).wider (Nat.le_refl n) (by omega)
      exact List.forall_mem_singleton.mpr apart
    · refine (first.aside.deliveries x.id fun own => ?_).trans
        (found x (List.mem_cons_of_mem _ mem))
      exact apart (List.mem_singleton.mp own ▸ List.mem_map_of_mem mem)

theorem claim_leaves {picked : List Delivery} {ws : List Write} {lock : Int32} {now : Time}
    (nodup : (picked.map Delivery.id).Nodup) (found : ∀ d ∈ picked, db.find? d.id = some d)
    (writes : ws = picked.map fun d => Store.amended d (Store.claim w lock now d))
    (valid : db.Valid ws) :
    Aside (· ∈ picked.map Delivery.id) db (db.apply ws) ∧
      (∀ i, Db.find? (db.apply ws) i = (db.find? i : Option Endpoint)) ∧
      ∀ d ∈ picked, Db.find? (db.apply ws) d.id = some (Store.claim w lock now d) := by
  subst writes
  have other : ∀ table, table ≠ Table.deliveries → ∀ v ∈ picked.map fun d =>
      Store.amended d (Store.claim w lock now d), v.after.key.table ≠ table := by
    intro table apart v mem
    obtain ⟨d, _, rfl⟩ := List.mem_map.mp mem
    exact apart.symm
  have endpoints : ∀ i, Db.find? (db.apply (picked.map fun d =>
      Store.amended d (Store.claim w lock now d))) i = (db.find? i : Option Endpoint) :=
    Db.find?_apply_outside valid (other _ fun same => Table.noConfusion same)
  refine ⟨⟨fun i apart => ?_, fun i => ?_, fun i => congrArg _ (endpoints i)⟩, endpoints,
    fun d mem => ?_⟩
  · rw [Db.find?, Txn.Store.get?_apply_of_ne valid fun v mem same => ?_]
    · rfl
    · obtain ⟨d, here, rfl⟩ := List.mem_map.mp mem
      exact apart (List.mem_map.mpr ⟨d, here, congrArg Key.id same⟩)
  · exact Db.find?_apply_outside valid (other _ fun same => Table.noConfusion same) i
  · obtain ⟨xs, ys, rfl⟩ := List.append_of_mem mem
    refine Db.find?_eq_some.mpr ?_
    rw [List.map_append, List.map_cons] at valid ⊢
    refine Txn.Store.get?_apply_written valid fun v later same => ?_
    obtain ⟨y, here, rfl⟩ := List.mem_map.mp later
    rw [List.map_append, List.map_cons] at nodup
    have apart := (List.nodup_cons.mp (List.nodup_append.mp nodup).2.1).1
    exact apart (List.mem_map.mpr ⟨y, here, congrArg Key.id same⟩)

end Batch

section Round

variable {α : Type} {s : Scene}

def picked (cfg : DispatcherConfig) (now : Time) (db : Db) : List Delivery :=
  (Store.orderBy Delivery.nextAttemptAt (Store.select db (Store.due now))).take cfg.batchSize.toNat

theorem picked_due {now : Time} (mem : d ∈ picked cfg now db) :
    db.find? d.id = some d ∧ Store.due now d = true := by
  obtain ⟨found, ok⟩ := Store.mem_select.mp (Store.mem_orderBy.mp (List.mem_of_mem_take mem))
  exact ⟨found, ok⟩

theorem picked_nodup (cfg : DispatcherConfig) (db : Db) (now : Time) :
    ((picked cfg now db).map Delivery.id).Nodup := by
  refine List.Nodup.sublist ((List.take_sublist _ _).map _) ?_
  have sorted := (List.perm_insertionSort
    (fun a b : Delivery => a.nextAttemptAt ≤ b.nextAttemptAt)
    (Store.select db (Store.due now))).map Delivery.id
  exact sorted.nodup_iff.mpr
    ((Store.all_nodup (α := Delivery) db).sublist (List.filter_sublist.map _))

/-- While anything is due, a claim takes a row at least as old. -/
theorem picked_oldest {now : Time} (some_ : 0 < cfg.batchSize) (found : db.find? d.id = some d)
    (due : Store.due now d = true) :
    ∃ x ∈ picked cfg now db, x.nextAttemptAt ≤ d.nextAttemptAt := by
  have mem : d ∈ Store.orderBy Delivery.nextAttemptAt (Store.select db (Store.due now)) :=
    Store.mem_orderBy.mpr (Store.mem_select.mpr ⟨found, due⟩)
  have sorted : (Store.orderBy Delivery.nextAttemptAt (Store.select db (Store.due now))).Pairwise
      fun a b => a.nextAttemptAt ≤ b.nextAttemptAt := List.pairwise_insertionSort _ _
  unfold picked
  generalize Store.orderBy Delivery.nextAttemptAt _ = rows at mem sorted
  obtain ⟨k, size⟩ := Nat.exists_eq_succ_of_ne_zero (by omega : cfg.batchSize.toNat ≠ 0)
  cases rows with
  | nil => cases mem
  | cons x xs =>
    refine ⟨x, by rw [size]; exact List.mem_cons_self, ?_⟩
    rcases List.mem_cons.mp mem with rfl | later
    · exact Int.le_refl _
    · exact (List.pairwise_cons.mp sorted).1 d later

theorem perform_claim (us : List (List Ran)) (n : Nat) (db : Db) (worker : nulFree w)
    (some_ : 0 < cfg.batchSize) (skipped : W.choice = []) :
    (db.Valid ((picked cfg (W.time n) db).map fun d =>
      Store.amended d (Store.claim w cfg.lockSecs (W.time n) d))) ∧
    ∃ us', perform κ cfg W (.outside n db us)
      (query (.claimDueDeliveries w cfg.batchSize cfg.lockSecs)) =
        (.ok ((picked cfg (W.time n) db).map (Store.claim w cfg.lockSecs (W.time n))),
          .outside (n + 1) (db.apply ((picked cfg (W.time n) db).map fun d =>
            Store.amended d (Store.claim w cfg.lockSecs (W.time n) d))) us') := by
  have ran : (Stmt.claimDueDeliveries w cfg.batchSize cfg.lockSecs).exec (W.time n) W.choice db =
      .ok ((picked cfg (W.time n) db).map (Store.claim w cfg.lockSecs (W.time n)),
        (picked cfg (W.time n) db).map fun d =>
          Store.amended d (Store.claim w cfg.lockSecs (W.time n) d)) := by
    rw [exec_admitted (q := .claimDueDeliveries ..) (List.forall_mem_singleton.mpr worker), skipped]
    refine (if_neg (Int.not_lt.mpr (Int.le_of_lt some_))).trans ?_
    simp only [List.not_mem_nil, not_false_eq_true, and_true, Bool.decide_eq_true, picked]
  exact ⟨(Stmt.exec_shape ran).valid, _, perform_alone ran⟩

theorem Fresh.claimed {lock : Int32} {now : Time} {ds : List Delivery} (fresh : Fresh W n m db)
    (valid : db.Valid (ds.map fun d => Store.amended d (Store.claim w lock now d))) :
    Fresh W n m (db.apply (ds.map fun d => Store.amended d (Store.claim w lock now d))) := by
  refine ⟨fresh.apart, fun i drawn later => ?_⟩
  refine Txn.Store.apply_forall (P := fun r => r.key.id ≠ W.answer i .newUuid) valid
    (fresh.unused i drawn later) fun v mem old => ?_
  obtain ⟨d, _, rfl⟩ := List.mem_map.mp mem
  exact old (.delivery d) rfl

/-- One pass of the loop: the oldest deliveries that are due are handled. -/
theorem round_through (us : List (List Ran)) (total : κ.Total) (healthy : Healthy cfg T W)
    (worker : nulFree w) (some_ : 0 < cfg.batchSize) (fresh : Fresh W n m db)
    (room : n + (1 + 13 * cfg.batchSize.toNat) ≤ m)
    (refs : ∀ i (d : Delivery), db.find? i = some d → Referenced db d) (passable : Passable T db) :
    Through T W m n (n + (1 + 13 * cfg.batchSize.toNat))
      ((picked cfg (W.time n) db).map Delivery.id) db
      (Txn.workOff (engine κ cfg) W (Scene.outside n db us) (.claim w)) := by
  obtain ⟨valid, us', claimed⟩ :=
    perform_claim (κ := κ) us n db worker some_ healthy.skipped
  have nodup := picked_nodup cfg db (W.time n)
  have due := fun d (mem : d ∈ picked cfg (W.time n) db) => picked_due mem
  have few : (picked cfg (W.time n) db).length ≤ cfg.batchSize.toNat := List.length_take_le _ _
  obtain ⟨aside, endpoints, rows⟩ := claim_leaves nodup (fun d mem => (due d mem).1) rfl valid
  have worked : Txn.workOff (engine κ cfg) W (Scene.outside n db us) (.claim w) =
      ((picked cfg (W.time n) db).map (Store.claim w cfg.lockSecs (W.time n))).foldl
        (processed κ cfg W w) (.outside (n + 1) (db.apply ((picked cfg (W.time n) db).map fun d =>
          Store.amended d (Store.claim w cfg.lockSecs (W.time n) d))) us') := by
    have first : Txn.perform (engine κ cfg) W (Scene.outside n db us)
        ((engine κ cfg).prog (.claim w)) = _ := perform_conclude .claimed _
    rw [claimed] at first
    rw [Txn.workOff, first]
    change List.foldl _ _ (((picked cfg (W.time n) db).map
      (Store.claim w cfg.lockSecs (W.time n))).map (Job.processOne w)) = _
    rw [List.foldl_map]
    congr 1
    funext s d
    rw [processed]
    exact congrArg Txn.Scene.ended (congrArg Prod.snd (perform_conclude .processed _))
  have ids : ((picked cfg (W.time n) db).map (Store.claim w cfg.lockSecs (W.time n))).map
      Delivery.id = (picked cfg (W.time n) db).map Delivery.id := by
    rw [List.map_map]
    rfl
  rw [worked]
  generalize held : (picked cfg (W.time n) db).map (Store.claim w cfg.lockSecs (W.time n)) = ds
    at ids
  have length : ds.length = (picked cfg (W.time n) db).length := by rw [← held, List.length_map]
  have mine : ∀ x ∈ ds, ∃ d ∈ picked cfg (W.time n) db,
      Store.claim w cfg.lockSecs (W.time n) d = x := fun x mem => List.mem_map.mp (held ▸ mem)
  have batch := batch_through (κ := κ) us' total healthy worker (ids.symm ▸ nodup)
    ((fresh.later (Nat.le_succ n)).claimed valid) (by omega) ?_ ?_ ?_ ?_
  · rw [ids] at batch
    refine ⟨Nat.le_trans (Nat.le_succ n) batch.begun, ?_, ?_, batch.fresh, batch.passable,
      batch.rows⟩
    · exact Nat.le_trans batch.soon (by omega)
    · exact (aside.trans batch.aside).mono fun i own => own.elim id id
  · intro x mem
    obtain ⟨d, here, rfl⟩ := mine x mem
    exact rows d here
  · intro x mem j low high
    obtain ⟨d, here, rfl⟩ := mine x mem
    have lease := healthy.lease n j (by omega) (by omega)
    simpa [Store.leased, Store.claim] using lease
  · intro x mem
    obtain ⟨d, here, rfl⟩ := mine x mem
    exact aside.referenced (refs d.id d (due d here).1)
  · exact fun i e here => passable i e ((endpoints i).symm.trans here)

end Round

section Drain

/- Due, and since `T` or before. -/
def Owed (T : Time) (d : Delivery) : Prop := d.nextAttemptAt ≤ T ∧ Store.due T d = true

/-- Between two passes of the loop: a delivery is done with, owed, or waits for its endpoint. -/
def Calm (T : Time) (db : Db) : Prop :=
  ∀ i (d : Delivery), db.find? i = some d → d.status = .dead ∨ Owed T d ∨ AtRest T db d

def OwesAtMost (T : Time) (k : Nat) (db : Db) : Prop :=
  ∃ ids : Finset Uuid, ids.card ≤ k ∧
    ∀ i (d : Delivery), db.find? i = some d → Owed T d → i ∈ ids

structure Onward (T : Time) (db db' : Db) : Prop where
  rows : ∀ i (d : Delivery), db.find? i = some d → ∃ d', db'.find? i = some d' ∧
    (d' = d ∨ (d.status ≠ .succeeded ∧ d.status ≠ .dead ∧ AtRest T db' d'))
  endpoints : ∀ i, (db'.find? i).map Endpoint.disabled = (db.find? i).map Endpoint.disabled

theorem due_later {now : Time} (due : Store.due T d = true) (late : T ≤ now) :
    Store.due now d = true := by
  simp only [Store.due, decide_eq_true_eq] at due ⊢
  rcases due with ⟨status, next⟩ | ⟨status, expired⟩
  · exact .inl ⟨status, Int.le_trans next late⟩
  · refine .inr ⟨status, ?_⟩
    obtain ⟨u, until_, passed⟩ := (Option.any_eq_true _ _).mp expired
    refine (Option.any_eq_true _ _).mpr ⟨u, until_, decide_eq_true ?_⟩
    exact Int.lt_of_lt_of_le (of_decide_eq_true passed) late

theorem AtRest.not_owed (rest : AtRest T db d) : ¬ Owed T d := by
  intro owed
  rcases rest with succeeded | ⟨_, later, _⟩
  · exact (due_open owed.2).1 succeeded
  · exact Int.not_lt.mpr owed.1 later

theorem Onward.trans {db'' : Db} (h : Onward T db db') (g : Onward T db' db'') :
    Onward T db db'' where
  endpoints i := (g.endpoints i).trans (h.endpoints i)
  rows i d found := by
    obtain ⟨d', found', first⟩ := h.rows i d found
    obtain ⟨d'', found'', second⟩ := g.rows i d' found'
    refine ⟨d'', found'', ?_⟩
    rcases first with rfl | ⟨open_, alive, rest⟩
    · exact second
    · rcases second with rfl | ⟨_, _, rest'⟩
      · refine .inr ⟨open_, alive, rest.imp_right fun ⟨failed, later, e, there, disabled⟩ => ?_⟩
        have same := g.endpoints d''.endpointId
        rw [there] at same
        obtain ⟨e', there', same⟩ := Option.map_eq_some_iff.mp same
        exact ⟨failed, later, e', there', same.trans disabled⟩
      · exact .inr ⟨open_, alive, rest'⟩

variable {s : Scene} {last k : Nat}

theorem Through.row {ids : List Uuid} (through : Through T W m n last ids db s) {i : Uuid}
    (found : Db.find? s.db i = some d) :
    (i ∈ ids ∧ AtRest T s.db d) ∨ (i ∉ ids ∧ db.find? i = some d) := by
  by_cases mem : i ∈ ids
  · obtain ⟨r, there, rest⟩ := through.rows i mem
    obtain rfl := Option.some.inj (there.symm.trans found)
    exact .inl ⟨mem, rest⟩
  · exact .inr ⟨mem, (through.aside.deliveries i mem).symm.trans found⟩

theorem round_calm {ids : List Uuid} (through : Through T W m n last ids db s)
    (calm : Calm T db) : Calm T s.db := by
  intro i d found
  rcases through.row found with ⟨_, rest⟩ | ⟨_, old⟩
  · exact .inr (.inr rest)
  · exact (calm i d old).imp_right fun h => h.imp_right fun rest => rest.aside through.aside

theorem round_onward {now : Time}
    (through : Through T W m n last ((picked cfg now db).map Delivery.id) db s) :
    Onward T db s.db := by
  refine ⟨fun i d found => ?_, through.aside.endpoints⟩
  by_cases mem : i ∈ (picked cfg now db).map Delivery.id
  · obtain ⟨x, here, rfl⟩ := List.mem_map.mp mem
    obtain ⟨r, there, rest⟩ := through.rows _ mem
    obtain ⟨stored, due⟩ := picked_due here
    obtain rfl := Option.some.inj (found.symm.trans stored)
    exact ⟨r, there, .inr ⟨(due_open due).1, (due_open due).2, rest⟩⟩
  · exact ⟨d, (through.aside.deliveries i mem).trans found, .inl rfl⟩

/-- A pass leaves fewer owed: the oldest row that it takes is one of them. -/
theorem round_fewer {now : Time} (late : T ≤ now) (some_ : 0 < cfg.batchSize)
    (through : Through T W m n last ((picked cfg now db).map Delivery.id) db s)
    (calm : Calm T db) (few : OwesAtMost T (k + 1) db) : OwesAtMost T k s.db := by
  obtain ⟨ids, size, all⟩ := few
  have left : ∀ i d, Db.find? s.db i = some d → Owed T d →
      i ∉ (picked cfg now db).map Delivery.id ∧ db.find? i = some d := by
    intro i d found owed
    rcases through.row found with ⟨_, rest⟩ | old
    · exact (rest.not_owed owed).elim
    · exact old
  by_cases any : ∃ i d, db.find? i = some d ∧ Owed T d
  · obtain ⟨i, d, found, owed⟩ := any
    have own : d.id = i := Db.find?_id found
    obtain ⟨x, mem, older⟩ := picked_oldest some_ (own ▸ found) (due_later owed.2 late)
    obtain ⟨stored, due⟩ := picked_due mem
    have first : Owed T x := by
      rcases calm x.id x stored with dead | owed' | succeeded | ⟨_, later, _⟩
      · exact ((due_open due).2 dead).elim
      · exact owed'
      · exact ((due_open due).1 succeeded).elim
      · exact (Int.not_lt.mpr (Int.le_trans older owed.1) later).elim
    refine ⟨ids.erase x.id, ?_, fun j y there owes => ?_⟩
    · rw [Finset.card_erase_of_mem (all x.id x stored first)]
      omega
    · obtain ⟨other, old⟩ := left j y there owes
      refine Finset.mem_erase.mpr ⟨fun same => other ?_, all j y old owes⟩
      exact same ▸ List.mem_map_of_mem mem
  · refine ⟨∅, Nat.zero_le k, fun j y there owes => ?_⟩
    exact (any ⟨j, y, (left j y there owes).2, owes⟩).elim

theorem claim_last (res : Result) : ∀ j ∈ follow (.claim w) res, ∀ res', follow j res' = [] := by
  intro j mem res'
  obtain ⟨_, _, d, _, _, _, rfl⟩ := mem_follow mem
  rfl

theorem rounds_drain (total : κ.Total) (healthy : Healthy cfg T W) (worker : nulFree w)
    (some_ : 0 < cfg.batchSize) {pid : Pid} (entry : entry cfg pid (.claim w) = true) {a : State}
    (reach : Run κ cfg Txn.anyStep .empty a) (idle : a.procs = ∅) (outside : s.tx = none)
    (rows : a.db = s.db) (calm : Calm T s.db) (passable : Passable T s.db)
    (fresh : Fresh W s.calls m s.db) (room : s.calls + k * (1 + 13 * cfg.batchSize.toNat) ≤ m)
    (few : OwesAtMost T k s.db) :
    ∃ t, Txn.Reach (engine κ cfg) Txn.anyStep a t ∧ t.procs = ∅ ∧
      t.db = ((Txn.workOff (engine κ cfg) W · (.claim w))^[k] s).db ∧
      t.log = Txn.roundsRecord (engine κ cfg) W pid (.claim w) k s ++ a.log ∧ Calm T t.db ∧
      OwesAtMost T 0 t.db ∧ Onward T s.db t.db := by
  induction k generalizing a s with
  | zero =>
    refine ⟨a, .start, idle, rows, rfl, rows ▸ calm, rows ▸ few, ?_⟩
    rw [rows]
    exact ⟨fun i d found => ⟨d, found, .inl rfl⟩, fun i => rfl⟩
  | succ k ih =>
    obtain ⟨n, db, tx, us⟩ := s
    obtain rfl : tx = none := outside
    have refs : ∀ i (d : Delivery), Db.find? db i = some d → Referenced db d := by
      have refs := reach_referenced reach
      rw [rows] at refs
      exact refs
    rw [Nat.add_mul, Nat.one_mul] at room
    dsimp only at rows calm passable fresh room few
    have pass := round_through us total healthy worker some_ fresh (by omega) refs passable
    have soon := pass.soon
    obtain ⟨b, step, idle', rows', log⟩ := Txn.workOff_reach (M := engine κ cfg) (W := W)
      (s := Scene.outside n db us) entry claim_last idle rows rfl
    obtain ⟨t, later, gone, last, more, calm', none, onward⟩ := ih (reach.trans step) idle'
      (Txn.workOff_tx _ _ _ _) rows' (round_calm pass calm) pass.passable pass.fresh
      (by omega) (round_fewer (healthy.time n) some_ pass calm few)
    refine ⟨t, step.trans later, gone, last, ?_, calm', none, (round_onward pass).trans onward⟩
    rw [more, log, ← List.append_assoc]
    rfl

/-- The leases, backoffs and circuit windows in the rows are over. -/
structure Expired (T : Time) (db : Db) : Prop where
  backoffs : ∀ i (d : Delivery), db.find? i = some d → d.nextAttemptAt ≤ T
  leases : ∀ i (d : Delivery), db.find? i = some d → ∀ u, d.lockedUntil = some u → u < T
  windows : Passable T db

theorem expired_of_all (rows : ∀ d ∈ Db.all Delivery db, d.nextAttemptAt ≤ T ∧
      ∀ u, d.lockedUntil = some u → u < T)
    (windows : ∀ e ∈ Db.all Endpoint db, ∀ u, e.circuitOpenUntil = some u → u ≤ T) :
    Expired T db where
  backoffs _ d found := (rows d (Db.mem_all_of_find? found)).1
  leases _ d found := (rows d (Db.mem_all_of_find? found)).2
  windows _ e found := windows e (Db.mem_all_of_find? found)

theorem expired_calm {a : State} (reach : Run κ cfg Txn.anyStep .empty a)
    (expired : Expired T a.db) : Calm T a.db := by
  intro i d found
  have next := expired.backoffs i d found
  obtain ⟨standing, stands⟩ := reach_stands reach i d found
  cases standing with
  | waiting => exact .inr (.inl ⟨next, stands.2.2.2 T next⟩)
  | held =>
    obtain ⟨_, _, u, until_, due⟩ := stands
    exact .inr (.inl ⟨next, due T (expired.leases i d found u until_)⟩)
  | delivered => exact .inr (.inr (.inl stands.1))
  | buried => exact .inl stands.1

/- What is logged when everything is killed and a worker then makes a pass for each delivery. -/
def drainLog (κ : Prims) (cfg : DispatcherConfig) (W : World) (i : Nat) (s : State) : List Entry :=
  Txn.roundsRecord (engine κ cfg) W (.worker 0 i) (.claim (workerId i))
    (Db.all Delivery s.db).length (.start s.db) ++ s.procs.keys.reverse.map .crashed

theorem killed_drains {s : State} {i : Nat} (total : κ.Total) (some_ : 0 < cfg.batchSize)
    (reach : Run κ cfg Txn.anyStep .empty s) (expired : Expired T s.db) (healthy : Healthy cfg T W)
    (fresh : Fresh W 0 ((Db.all Delivery s.db).length * (1 + 13 * cfg.batchSize.toNat)) s.db)
    (index : i < cfg.workerCount) :
    ∃ t, Txn.Reach (engine κ cfg) Txn.anyStep s t ∧ t.procs = ∅ ∧
      t.db = ((Txn.workOff (engine κ cfg) W · (.claim (workerId i)))^[(Db.all Delivery s.db).length]
        (.start s.db)).db ∧
      t.log = drainLog κ cfg W i s ++ s.log ∧
      Calm T t.db ∧ OwesAtMost T 0 t.db ∧ Onward T s.db t.db := by
  obtain ⟨a, crashed, rows, idle, killed⟩ := Txn.reach_crashed (M := engine κ cfg) s
  have few : OwesAtMost T (Db.all Delivery s.db).length s.db := by
    refine ⟨((Db.all Delivery s.db).map Delivery.id).toFinset, ?_, fun id d found _ => ?_⟩
    · exact (List.toFinset_card_le _).trans (by rw [List.length_map])
    · have own : d.id = id := Db.find?_id found
      exact List.mem_toFinset.mpr (own ▸ List.mem_map_of_mem (Db.mem_all_of_find? found))
  have own : entry cfg (.worker 0 i) (.claim (workerId i)) = true := by simp [entry, index]
  obtain ⟨t, later, gone, last, more, rest⟩ := rounds_drain (s := .start s.db)
    total healthy (workerId_free i) some_ own (reach.trans crashed) idle rfl rows
    (expired_calm reach expired) expired.windows fresh (Nat.le_of_eq (Nat.zero_add _)) few
  refine ⟨t, crashed.trans later, gone, last, ?_, rest⟩
  rw [more, killed, drainLog, List.append_assoc]

theorem drained_rest {s t : State} {id : Uuid} {d' : Delivery}
    (reach : Run κ cfg Txn.anyStep .empty s) (later : Txn.Reach (engine κ cfg) Txn.anyStep s t)
    (calm : Calm T t.db) (none : OwesAtMost T 0 t.db) (onward : Onward T s.db t.db)
    (found : Db.find? s.db id = some d) (found' : Db.find? t.db id = some d')
    (alive : d.status ≠ .dead) (there : Db.find? s.db d.endpointId = some e) :
    d'.status = .succeeded ∨ (e.disabled = true ∧ d'.status = .failed) := by
  obtain ⟨_, stored, frozen⟩ := reach_find reach later found
  obtain rfl := Option.some.inj (found'.symm.trans stored)
  obtain ⟨_, same, moved⟩ := onward.rows id d found
  obtain rfl := Option.some.inj (found'.symm.trans same)
  have rest : AtRest T t.db d' := by
    rcases moved with rfl | ⟨_, _, rest⟩
    · rcases calm id d' found' with dead | owed | rest
      · exact (alive dead).elim
      · obtain ⟨ids, size, all⟩ := none
        have mem := all id d' found' owed
        rw [Finset.card_eq_zero.mp (Nat.le_zero.mp size)] at mem
        exact (Finset.notMem_empty id mem).elim
      · exact rest
    · exact rest
  rcases rest with succeeded | ⟨failed, _, e', there', disabled⟩
  · exact .inl succeeded
  · have same := onward.endpoints d.endpointId
    rw [there, ← (Delivery.fixed frozen).endpointId, there'] at same
    exact .inr ⟨(Option.some.inj same).symm.trans disabled, failed⟩

end Drain

/-- From every reachable state, with any processes at any point of their work: kill them all, and
let one worker run on its own when the leases, backoffs and windows that are left have expired,
with subscribers that answer. After at most one pass for each delivery every delivery that is not
buried and whose endpoint is enabled is delivered; what was delivered or buried is as it was. -/
theorem recovery_drains (κ : Prims) (total : κ.Total) (cfg : DispatcherConfig)
    (some_ : 0 < cfg.batchSize) (s : State) (reach : Run κ cfg Txn.anyStep .empty s) (T : Time)
    (expired : Expired T s.db) (W : World) (healthy : Healthy cfg T W)
    (fresh : Fresh W 0 ((Db.all Delivery s.db).length * (1 + 13 * cfg.batchSize.toNat)) s.db)
    (i : Nat) (index : i < cfg.workerCount) :
    ∃ t, Txn.Reach (engine κ cfg) Txn.anyStep s t ∧ t.procs = ∅ ∧
      t.db = ((Txn.workOff (engine κ cfg) W · (.claim (workerId i)))^[(Db.all Delivery s.db).length]
        (.start s.db)).db ∧
      ∀ id (d : Delivery), Db.find? s.db id = some d → ∃ d', Db.find? t.db id = some d' ∧
        (d.status = .succeeded ∨ d.status = .dead → d' = d) ∧
        (d.status ≠ .dead → ∀ e : Endpoint, Db.find? s.db d.endpointId = some e →
          d'.status = .succeeded ∨ (e.disabled = true ∧ d'.status = .failed)) := by
  obtain ⟨t, later, gone, last, _, calm, none, onward⟩ :=
    killed_drains total some_ reach expired healthy fresh index
  refine ⟨t, later, gone, last, fun id d found => ?_⟩
  obtain ⟨d', found', moved⟩ := onward.rows id d found
  refine ⟨d', found', ?_, fun alive e there => ?_⟩
  · rintro (status | status)
    · exact moved.resolve_right fun open_ => open_.1 status
    · exact moved.resolve_right fun alive => alive.2.1 status
  · exact drained_rest reach later calm none onward found found' alive there

def answering (now : Time) : World where
  time _ := now
  choice := []
  answer
    | _, .utcNow => now
    | n, .newUuid => BitVec.ofNat 128 (n + 1000)
    | _, .jitter ceiling => ⟨0, Nat.succ_pos ceiling⟩
    | _, .post _ => .ok ⟨200, "ok"⟩
    | _, .generateSecret => ""
    | _, .rateLimit _ => none
  lost := .other

theorem answering_healthy (now : Time) : Healthy Dispatcher.default now (answering now) := by
  refine ⟨fun _ => Int.le_refl _, fun _ => Int.le_refl _, fun i j _ _ => ?_, fun i req => ?_, rfl⟩
  · exact Int.lt_add_of_pos_right _ (by decide)
  · exact ⟨⟨200, "ok"⟩, rfl, rfl, by decide⟩

theorem answering_fresh {db : Db} {now : Time} (few : m ≤ 2 ^ 64)
    (small : ∀ r ∈ db.rows, r.key.id.toNat < 1000) : Fresh (answering now) 0 m db := by
  have fresh := steady_fresh now few small
  exact ⟨fresh.apart, fresh.unused⟩

def publishedEndpoint : Endpoint :=
  ⟨1, "t", none, "http://a", "s", false, "closed", none, 0, none, 0, 0⟩

theorem recovery_drains_claimed : ∃ (s t : State) (d d' : Delivery),
    Run plain Dispatcher.default Txn.anyStep .empty s ∧ s.procs.keys = [.worker 0 0] ∧
    Db.find? s.db 3 = some d ∧ d.status = .inProgress ∧
    Txn.Reach (engine plain Dispatcher.default) Txn.anyStep s t ∧ t.procs = ∅ ∧
    Db.find? t.db 3 = some d' ∧ d'.status = .succeeded := by
  have played : ((replay plain Dispatcher.default (.start .empty) claimed).map fun s =>
      (s.procs.keys, Db.all Delivery s.db, Db.all Endpoint s.db,
        s.db.rows.all fun r => r.key.id.toNat < 1000)) =
      some ([.worker 0 0], [claimedDelivery], [publishedEndpoint], true) := by
    decide +kernel
  obtain ⟨s, replayed, eq⟩ := Option.map_eq_some_iff.mp played
  obtain ⟨live, deliveries, endpoints, small⟩ := by simpa only [Prod.mk.injEq] using eq
  have reach := replay_reach replayed
  have stored : Db.find? s.db 3 = some claimedDelivery :=
    Db.mem_all.mp (deliveries ▸ List.mem_singleton_self claimedDelivery)
  have endpoint : Db.find? s.db 1 = some publishedEndpoint :=
    Db.mem_all.mp (endpoints ▸ List.mem_singleton_self publishedEndpoint)
  have expired : Expired 30000002 s.db := by
    apply expired_of_all
    · rw [deliveries]
      exact List.forall_mem_singleton.mpr ⟨by decide, fun u until_ => by cases until_; decide⟩
    · rw [endpoints]
      exact List.forall_mem_singleton.mpr fun u until_ => by cases until_
  have fresh : Fresh (answering 30000002) 0 417 s.db :=
    answering_fresh (by decide) fun r mem => of_decide_eq_true (List.all_eq_true.mp small r mem)
  obtain ⟨t, later, gone, _, drained⟩ := recovery_drains plain
    ⟨fun _ => ⟨_, rfl⟩, fun _ => rfl⟩ Dispatcher.default (by decide) s reach 30000002 expired
    (answering 30000002) (answering_healthy _) (by rw [deliveries]; exact fresh) 0 (by decide)
  obtain ⟨d', found', _, brought⟩ := drained 3 claimedDelivery stored
  refine ⟨s, t, claimedDelivery, d', reach, live, stored, rfl, later, gone, found', ?_⟩
  exact (brought (by decide) _ endpoint).resolve_right fun ⟨disabled, _⟩ => nomatch disabled

end Dropless
