import Dropless.Ingest

namespace Dropless

open Txn (Durable)
open Api (ingest receive examine ingested answer payloadOf headerStr)

section Clean

theorem exec_free {q : Stmt} {now : Time} {skipped : List Uuid} {db : Db} {out ws}
    (ran : q.exec now skipped db = .ok (out, ws)) : ∀ s ∈ q.texts, nulFree s := by
  intro s mem
  by_contra nul
  rw [exec_refused mem nul] at ran
  cases ran

/-- The texts of a row that a later statement binds again. -/
def Clean : Row → Prop
  | .source r => nulFree r.slug ∧ nulFree r.tenantId
  | .inbound r => ∀ key, r.sourceEventId = some key → nulFree key
  | _ => True

theorem clean_frozen (r : Row) : Clean r.frozen ↔ Clean r := by
  cases r <;> exact Iff.rfl

theorem wrote_clean {q : Stmt} {now : Time} {skipped : List Uuid} {db : Db} {out ws} {w : Write}
    (ran : q.exec now skipped db = .ok (out, ws)) (mem : w ∈ ws)
    (before : ∀ b, w.before = some b → Clean b) : Clean w.after := by
  have free := exec_free ran
  have run := Stmt.exec_ok ran
  have shape := Stmt.exec_shape ran
  have place := shape.in_table w mem
  cases replaced : w.before with
  | some b =>
    rw [← clean_frozen, shape.keeps_frozen w mem b replaced, clean_frozen]
    exact before b replaced
  | none =>
    -- only two statements insert a row with such texts
    cases row : w.after with
    | source r =>
      rw [row] at place
      cases q with
      | createInboundSource id tenant slug provider secret =>
        obtain ⟨rfl, new⟩ := Store.createInboundSource_ok run
        obtain rfl := Store.mem_insert new mem
        cases row
        exact ⟨free slug (by simp [Stmt.texts]), free tenant (by simp [Stmt.texts])⟩
      | _ => cases place
    | inbound r =>
      rw [row] at place
      cases q with
      | insertInboundEvent id source tenant key type raw =>
        rcases Store.insertInboundEvent_ok run with ⟨_, rfl, _⟩ | ⟨_, _, new⟩
        · cases mem
        · obtain rfl := Store.mem_insert new mem
          cases row
          intro key own
          refine free key ?_
          simp only [Store.newInbound] at own
          simp [Stmt.texts, own]
      | linkInboundEvent id event =>
        obtain ⟨_, rfl⟩ := Store.linkInboundEvent_ok run
        obtain ⟨a, _, _, rfl, _⟩ := Store.mem_update mem
        cases replaced
      | _ => cases place
    | endpoint | event | delivery | attempt | deadLetter | apiKey | consumer => trivial

variable {κ : Prims} {cfg : DispatcherConfig} {cond : State → State → Prop} {s : State}

theorem reach_clean (reach : Run κ cfg cond .empty s) : ∀ r ∈ s.db.rows, Clean r := by
  refine Txn.reach_db (protocol κ cfg) (fun db => ∀ r ∈ db.rows, Clean r) .start
    (fun _ none => (List.not_mem_nil none).elim) ?_ reach
  intro a pid p tx _ durable good
  refine Txn.Store.apply_forall durable.valid good fun w mem before => ?_
  obtain ⟨d, hd, mem⟩ := Txn.mem_writes mem
  obtain ⟨c, view, ran⟩ := durable.ran d hd
  exact wrote_clean ran mem before

theorem clean_row {α : Type} [Record α] {db : Db} (clean : ∀ r ∈ db.rows, Clean r) {a : α}
    (mem : a ∈ Db.all α db) : Clean (Record.row a) :=
  clean _ (Txn.Store.get?_some (Db.find?_eq_some.mp (Db.mem_all.mp mem))).1

end Clean

section Derived

theorem mem_textsOfFields {fields : List (String × Value)} {field : String × Value} {s : String}
    (mem : field ∈ fields) (inner : s ∈ field.2.texts) : s ∈ Value.textsOfFields fields := by
  induction fields with
  | nil => cases mem
  | cons first rest ih =>
    rw [Value.textsOfFields]
    rcases List.mem_cons.mp mem with rfl | mem
    · exact List.mem_cons_of_mem _ (List.mem_append_left _ inner)
    · exact List.mem_cons_of_mem _ (List.mem_append_right _ (ih mem))

theorem mem_texts_field {v : Value} {name s : String}
    (found : (v.get name).bind Value.asStr = some s) : s ∈ v.texts := by
  obtain ⟨w, hit, str⟩ := Option.bind_eq_some_iff.mp found
  have inner : s ∈ w.texts := by
    cases w with
    | string text =>
      cases str
      simp [Value.texts]
    | _ => cases str
  cases v with
  | object fields =>
    obtain ⟨field, mem, rfl⟩ := Option.map_eq_some_iff.mp hit
    rw [Value.texts]
    exact mem_textsOfFields (List.mem_of_find?_eq_some mem) inner
  | _ => cases hit

theorem headerStr_free {headers : Headers} {name value : String}
    (found : headerStr headers name = some value) : nulFree value := by
  obtain ⟨header, _, text⟩ := Option.bind_eq_some_iff.mp found
  simp only [Api.toStr, Option.ite_none_right_eq_some] at text
  obtain ⟨visible, eq⟩ := text
  rw [← Option.some.inj eq, nulFree, String.toList_ofList]
  intro nul
  obtain ⟨b, mem, zero⟩ := List.mem_map.mp nul
  have range := of_decide_eq_true (List.all_eq_true.mp visible b mem)
  have bounds : 1 ≤ b.toNat ∧ b.toNat < 127 := by
    rcases range with ⟨low, high⟩ | rfl
    · have low := UInt8.le_iff_toNat_le.mp low
      have high := UInt8.lt_iff_toNat_lt.mp high
      simp only [UInt8.reduceToNat] at low high
      omega
    · decide
  have code : ∀ n : Fin 127, 1 ≤ n.val → Char.ofNat n ≠ '\x00' := by decide
  exact code ⟨b.toNat, bounds.2⟩ bounds.1 zero

theorem headerStr_getD_free {headers : Headers} {name default : String} (free : nulFree default) :
    nulFree ((headerStr headers name).getD default) := by
  cases found : headerStr headers name with
  | none => exact free
  | some value => exact headerStr_free found

theorem hexEncode_free (data : Bytes) : nulFree (hexEncode data) := by
  intro nul
  rw [hexEncode, String.toList_ofList] at nul
  obtain ⟨b, _, mem⟩ := List.mem_flatMap.mp nul
  have digit : ∀ n : Fin 16, '\x00' ≠ hexDigit n := by decide
  have low := digit ⟨b.toNat % 16, Nat.mod_lt _ (by decide)⟩
  have high := digit ⟨b.toNat / 16, Nat.div_lt_of_lt_mul b.toNat_lt⟩
  simp only [List.mem_cons, List.not_mem_nil, or_false] at mem
  exact mem.elim high low

variable {κ : Prims} {raw : Bytes} {headers : Headers}

theorem field_free (free : ∀ s ∈ (payloadOf κ raw).texts, nulFree s) {name default : String}
    (plain : nulFree default) :
    nulFree (((((κ.fromSlice raw).getD .null).get name).bind Value.asStr).getD default) := by
  cases field : (((κ.fromSlice raw).getD .null).get name).bind Value.asStr with
  | none => exact plain
  | some text =>
    cases parsed : κ.fromSlice raw with
    | none =>
      rw [parsed] at field
      cases field
    | some v =>
      rw [parsed] at field
      refine free text ?_
      rw [payloadOf, parsed]
      exact mem_texts_field field

theorem examine_free {source : InboundSource} {provider : Provider} {now : Int64}
    {verdict : Except CoreError Unit} {key type : String}
    (free : ∀ s ∈ (payloadOf κ raw).texts, nulFree s)
    (examined : examine κ source provider headers raw now = (verdict, key, type)) :
    nulFree key ∧ nulFree type := by
  cases provider with
  | stripe =>
    cases examined
    exact ⟨field_free free (hexEncode_free _), field_free free (by decide)⟩
  | github =>
    cases examined
    exact ⟨hexEncode_free _, headerStr_getD_free (by decide)⟩
  | hmac =>
    cases examined
    refine ⟨?_, headerStr_getD_free (by decide)⟩
    unfold Api.hmacKey
    split
    · exact hexEncode_free _
    · exact headerStr_getD_free (by decide)

end Derived

section FanOut

variable {W : World} {db : Db} {n m : Nat} {t : Time} {done : List (Txn.Done Row lang)}
  {eventId : Uuid} {tenant : String}

/- Nothing stands in the way of these deliveries. -/
structure Ready (v : Db) (eventId : Uuid) (es : List Endpoint) : Prop where
  event : ∃ ev : Event, v.find? eventId = some ev
  endpoints : ∀ e ∈ es, ∃ e' : Endpoint, v.find? e.id = some e'
  apart : (es.map Endpoint.id).Nodup
  new : ∀ d ∈ Db.all Delivery v, d.eventId = eventId → ∀ e ∈ es, d.endpointId ≠ e.id

theorem Ready.admits {v : Db} {e : Endpoint} {es : List Endpoint}
    (ready : Ready v eventId (e :: es)) (id : Uuid) (tenant : String) (now : Time) :
    v.Admits (.delivery (Store.newDelivery id eventId e.id tenant now)) := by
  rintro x mem other (same | ⟨i, held, own⟩)
  · exact other same
  · obtain rfl : i = .delivery eventId e.id := List.mem_singleton.mp own
    cases x with
    | delivery d =>
      obtain ⟨event, endpoint⟩ := Index.delivery.inj (List.mem_singleton.mp held)
      refine ready.new d (Db.mem_all.mpr (Db.find?_eq_some.mpr (Txn.Store.get?_of_mem mem)))
        event.symm e List.mem_cons_self endpoint.symm
    | inbound r =>
      cases key : r.sourceEventId <;> simp [schema, Row.index, key] at held
    | _ => simp [schema, Row.index] at held

theorem Ready.next {v : Db} {e : Endpoint} {es : List Endpoint} (ready : Ready v eventId (e :: es))
    (id : Uuid) (tenant : String) (now : Time) :
    Ready (v.put (.delivery (Store.newDelivery id eventId e.id tenant now))) eventId es := by
  have fits := ready.admits id tenant now
  obtain ⟨first, apart⟩ := List.nodup_cons.mp ready.apart
  refine ⟨?_, ?_, apart, ?_⟩
  · obtain ⟨ev, found⟩ := ready.event
    exact ⟨ev, (Db.find?_put_outside (α := Event) fits (fun same => Table.noConfusion same) _).trans
      found⟩
  · intro e' mem
    obtain ⟨row, found⟩ := ready.endpoints e' (List.mem_cons_of_mem _ mem)
    exact ⟨row, (Db.find?_put_outside (α := Endpoint) fits (fun same => Table.noConfusion same)
      _).trans found⟩
  · intro d mem event e' later
    have found := (Db.find?_put (a := Store.newDelivery id eventId e.id tenant now) fits
      d.id).symm.trans (Db.mem_all.mp mem)
    split at found
    · cases found
      exact fun same => first (List.mem_map.mpr ⟨e', later, same.symm⟩)
    · exact ready.new d (Db.mem_all.mpr found) event e' (List.mem_cons_of_mem _ later)

theorem Ready.runs {v : Db} {e : Endpoint} {es : List Endpoint} (ready : Ready v eventId (e :: es))
    (free : nulFree tenant) {id : Uuid} (new : v.find? id = (none : Option Delivery))
    (skipped : List Uuid) : (Stmt.insertDelivery id eventId e.id tenant).exec t skipped v =
      .ok ((), [⟨none, .delivery (Store.newDelivery id eventId e.id tenant t)⟩]) := by
  obtain ⟨ev, event⟩ := ready.event
  obtain ⟨row, endpoint⟩ := ready.endpoints e List.mem_cons_self
  have fits := ready.admits id tenant t
  have stored := insert_fresh (a := Store.newDelivery id eventId e.id tenant t) new fits
  have run : (Stmt.insertDelivery id eventId e.id tenant).run t skipped v =
      (Store.insert v (Store.newDelivery id eventId e.id tenant t)).map fun ws => ((), ws) := by
    simp only [Stmt.run, Store.insertDelivery, references_ok event, references_ok endpoint]
    rfl
  rw [exec_admitted (q := .insertDelivery ..) (List.forall_mem_singleton.mpr free), run, stored]
  rfl

theorem perform_insertDeliveries (κ : Prims) (cfg : DispatcherConfig) (t : Time)
    (us : List (List Ran)) {es : List Endpoint} (free : nulFree tenant)
    (ready : Ready (view db done) eventId es) (fresh : Fresh W n m (view db done))
    (enough : n + 2 * es.length ≤ m) :
    ∃ ids n' more, perform κ cfg W (.inside n db t done us) (insertDeliveries eventId tenant es) =
        (.ok ids, .inside n' db t (done ++ more) us) ∧
      ∀ k : Key, k.table ≠ .deliveries →
        (view db (done ++ more)).get? k = (view db done).get? k := by
  induction es generalizing n done with
  | nil => exact ⟨[], n, [], by rw [List.append_nil]; rfl, fun k _ => by rw [List.append_nil]⟩
  | cons e es ih =>
    rw [List.length_cons] at enough
    have drawn : n < m := by omega
    have ran := ready.runs (t := t) free (fresh.find drawn (Nat.le_refl n)) W.choice
    have fits := ready.admits (W.answer n .newUuid) tenant t
    have next := ready.next (W.answer n .newUuid) tenant t
    generalize row :
      Store.newDelivery (W.answer n .newUuid) eventId e.id tenant t = r at ran fits next
    have fresh' := (fresh.later (Nat.le_succ n)).put fits drawn (Nat.lt_succ_self n) (row ▸ rfl)
    let one : Txn.Done Row lang :=
      ⟨.insertDelivery (W.answer n .newUuid) eventId e.id tenant, (), [⟨none, .delivery r⟩]⟩
    have view' : view db (done ++ [one]) = (view db done).put (.delivery r) := view_push db done one
    obtain ⟨ids, n', more, rest, kept⟩ := ih (n := n + 2) (view' ▸ next)
      (view' ▸ fresh'.later (Nat.le_succ _)) (by omega)
    refine ⟨W.answer n .newUuid :: ids, n', one :: more, ?_, ?_⟩
    · rw [insertDeliveries, newUuid, perform_ask, perform_bind_ok (perform_query ran),
        perform_bind_ok rest, List.append_assoc]
      rfl
    · intro k other
      rw [← List.singleton_append, ← List.append_assoc, kept k other, view',
        Txn.Store.get?_put fits, if_neg fun same => other (congrArg Key.table same).symm]

end FanOut

section Accept

variable {κ : Prims} {cfg : DispatcherConfig} {W : World} {db : Db} {n m : Nat}
  {us : List (List Ran)} {source : InboundSource} {key : Option String} {type : String}
  {raw : Bytes} {payload : Value}

/- The dedup insert of the accept that starts at this call. -/
abbrev dedup (W : World) (n : Nat) (source : InboundSource) (key : Option String) (type : String)
    (raw : Bytes) : Stmt :=
  .insertInboundEvent (W.answer (n + 1) .newUuid) source.id source.tenantId key type raw

/- An accept up to its dedup insert, and what it does with the answer. -/
theorem perform_accept (κ : Prims) (cfg : DispatcherConfig) (W : World) (n : Nat) (db : Db)
    (us : List (List Ran)) (source : InboundSource) (key : Option String) (type : String)
    (raw : Bytes) (payload : Value) : ∃ f : Option Uuid → Io Accepted,
      perform κ cfg W (.outside n db us) (Inbox.accept source key type raw payload) =
        perform κ cfg W (.inside (n + 2) db (W.time n) [] us)
          (query (dedup W n source key type raw) >>= f) ∧
      (f none = do
        rollback
        return .duplicate) ∧
      ∀ stored, f (some stored) = do
        let eventId ← newUuid
        let _ ← query (.insertEvent eventId source.tenantId none type payload)
        let endpoints : List Endpoint ← query (.activeEndpointsForScope source.tenantId none)
        let deliveryIds ←
          insertDeliveries eventId source.tenantId (endpoints.filter (·.subscribesTo type))
        query (.linkInboundEvent stored eventId)
        commit
        return .bridged stored eventId deliveryIds :=
  ⟨_, rfl, rfl, fun _ => rfl⟩

theorem accept_error {e : DbError}
    (refused : (dedup W n source key type raw).exec (W.time n) W.choice db = .error e) :
    (perform κ cfg W (.outside n db us) (Inbox.accept source key type raw payload)).1 =
      .error (.db e) := by
  obtain ⟨f, start, _⟩ := perform_accept κ cfg W n db us source key type raw payload
  rw [start, perform_bind_error (perform_first_error refused)]

theorem accept_duplicate {ws : List Write}
    (ran : (dedup W n source key type raw).exec (W.time n) W.choice db = .ok (none, ws)) :
    (perform κ cfg W (.outside n db us) (Inbox.accept source key type raw payload)).1 =
      .ok .duplicate := by
  obtain ⟨f, start, taken, _⟩ := perform_accept κ cfg W n db us source key type raw payload
  rw [start, perform_bind_ok (perform_first ran), taken]
  rfl

theorem accept_refused {id : Uuid} {ws : List Write} {s : String}
    (ran : (dedup W n source key type raw).exec (W.time n) W.choice db = .ok (some id, ws))
    (mem : s ∈ payload.texts) (nul : ¬ nulFree s) :
    (perform κ cfg W (.outside n db us) (Inbox.accept source key type raw payload)).1 =
      .error (.db .other) := by
  obtain ⟨f, start, _, new⟩ := perform_accept κ cfg W n db us source key type raw payload
  rw [start, perform_bind_ok (perform_first ran), new, newUuid, perform_ask,
    perform_bind_error (perform_query_error (exec_refused ?_ nul))]
  exact List.mem_append_right _ mem

theorem active_found {v : Db} {tenant : String} {consumer : Option Uuid} {e : Endpoint}
    (mem : e ∈ Store.activeEndpointsForScope tenant consumer v) : v.find? e.id = some e :=
  (Store.mem_select.mp (Store.mem_orderBy.mp mem)).1

theorem active_nodup (v : Db) (tenant : String) (consumer : Option Uuid) :
    ((Store.activeEndpointsForScope tenant consumer v).map Endpoint.id).Nodup := by
  have sorted := (List.perm_insertionSort (fun a b : Endpoint => a.createdAt ≤ b.createdAt)
    (Store.select v fun e => e.tenantId = tenant ∧ e.disabled = false ∧
      e.consumerId = consumer)).map Endpoint.id
  exact sorted.nodup_iff.mpr
    ((Store.all_nodup (α := Endpoint) v).sublist (List.filter_sublist.map _))

theorem active_length (v : Db) (tenant : String) (consumer : Option Uuid) :
    (Store.activeEndpointsForScope tenant consumer v).length ≤ (Db.all Endpoint v).length := by
  rw [Store.activeEndpointsForScope, Store.orderBy, List.length_insertionSort]
  exact List.length_filter_le _ _

theorem perform_publish (κ : Prims) (cfg : DispatcherConfig) (us : List (List Ran)) {α : Type}
    {t : Time} {done : List (Txn.Done Row lang)} {tenant : String}
    {eventId : Uuid} {v : Db} (here : view db done = v) (f : List Uuid → Io α)
    (frees : ∀ s ∈ [tenant, type] ++ payload.texts, nulFree s)
    (new : v.find? eventId = (none : Option Event)) (fresh : Fresh W n m (v.put (.event
      ⟨eventId, tenant, none, type, payload, t⟩)))
    (enough : n + 2 + 2 * (Db.all Endpoint v).length ≤ m)
    (referenced : ∀ d ∈ Db.all Delivery v, ∃ ev : Event, v.find? d.eventId = some ev) :
    ∃ ids n' more, perform κ cfg W (.inside n db t done us) (do
        let _ ← query (.insertEvent eventId tenant none type payload)
        let endpoints : List Endpoint ← query (.activeEndpointsForScope tenant none)
        let ids ← insertDeliveries eventId tenant (endpoints.filter (·.subscribesTo type))
        f ids) = perform κ cfg W (.inside n' db t (done ++ more) us) (f ids) ∧
      (view db (done ++ more)).find? eventId =
        some (⟨eventId, tenant, none, type, payload, t⟩ : Event) := by
  have free : nulFree tenant := frees tenant List.mem_cons_self
  generalize row : (⟨eventId, tenant, none, type, payload, t⟩ : Event) = event at fresh ⊢
  have own : event.id = eventId := row ▸ rfl
  have fits : v.Admits (.event event) := admits_plain rfl
  have new' : v.find? event.id = (none : Option Event) := own.symm ▸ new
  let first : Txn.Done Row lang :=
    ⟨.insertEvent eventId tenant none type payload, event, [⟨none, .event event⟩]⟩
  have inserted : (Stmt.insertEvent eventId tenant none type payload).exec t W.choice
    (view db done) = .ok (event, [⟨none, .event event⟩]) := by
    have stored : Store.insert v event = .ok [⟨none, .event event⟩] := insert_fresh new' fits
    rw [exec_admitted (q := .insertEvent eventId tenant none type payload) frees, here]
    simp only [Stmt.run, Store.insertEvent, Store.referencesOpt, row, stored]
    rfl
  have view₁ : view db (done ++ [first]) = v.put (.event event) := by
    rw [view_push, here]
    rfl
  generalize picked : Store.activeEndpointsForScope tenant none (v.put (.event event)) = es
  let second : Txn.Done Row lang := ⟨.activeEndpointsForScope tenant none, es, []⟩
  have selected : (Stmt.activeEndpointsForScope tenant none).exec t W.choice
    (view db (done ++ [first])) = .ok (es, []) := by
    rw [exec_admitted (q := .activeEndpointsForScope ..) (List.forall_mem_singleton.mpr free),
      view₁, ← picked]
    rfl
  have view₂ : view db (done ++ [first] ++ [second]) = v.put (.event event) := by
    rw [view_push, view₁]
    rfl
  have ready : Ready (v.put (.event event)) eventId (es.filter (·.subscribesTo type)) := by
    subst picked
    refine ⟨⟨event, ?_⟩, ?_, ?_, ?_⟩
    · exact (Db.find?_put (a := event) fits eventId).trans (if_pos own)
    · exact fun e mem => ⟨e, active_found (List.mem_of_mem_filter mem)⟩
    · exact (active_nodup _ tenant none).sublist (List.filter_sublist.map _)
    · -- no delivery refers to an event that was not there
      intro d mem same
      have found := Db.mem_all.mp mem
      rw [Db.find?_put_outside (α := Delivery) fits fun same => Table.noConfusion same] at found
      obtain ⟨ev, old⟩ := referenced d (Db.mem_all.mpr found)
      rw [same, new] at old
      cases old
  have few : (es.filter (·.subscribesTo type)).length ≤ (Db.all Endpoint v).length := by
    rw [← Db.all_put_outside (α := Endpoint) fits fun same => Table.noConfusion same, ← picked]
    exact (List.length_filter_le _ _).trans (active_length _ tenant none)
  obtain ⟨ids, n', more, ran, kept⟩ := perform_insertDeliveries κ cfg t us (n := n + 2) free
    (view₂ ▸ ready) (view₂ ▸ fresh.later (Nat.le_add_right _ _)) (by omega)
  have lists : done ++ first :: second :: more = done ++ [first] ++ [second] ++ more := by simp
  refine ⟨ids, n', first :: second :: more, ?_, ?_⟩
  · rw [perform_bind_ok (perform_query inserted), perform_bind_ok (perform_query selected),
      perform_bind_ok ran, lists]
  · rw [Db.find?, lists, kept _ (fun same => Table.noConfusion same), view₂]
    exact (Db.find?_put (a := event) fits eventId).trans (if_pos own)

theorem link_runs (now : Time) (skipped : List Uuid) (stored : Uuid) {v : Db} {id : Uuid}
    {event : Event} (found : v.find? id = some event) :
    ∃ ws, (Stmt.linkInboundEvent stored id).exec now skipped v = .ok ((), ws) := by
  refine ⟨(Store.update v stored (fun _ => true) fun r : InboundEvent =>
    { r with eventId := some id }).2, ?_⟩
  rw [exec_admitted fun s none => (List.not_mem_nil none).elim]
  simp only [Stmt.run, Store.linkInboundEvent, references_ok found]
  rfl

theorem accept_bridged (κ : Prims) (cfg : DispatcherConfig) (us : List (List Ran)) {ws : List Write}
    (ran : (dedup W n source key type raw).exec (W.time n) W.choice db =
      .ok (some (W.answer (n + 1) .newUuid), ws))
    (fresh : Fresh W n m db) (enough : n + 6 + 2 * (Db.all Endpoint db).length ≤ m)
    (referenced : ∀ d ∈ Db.all Delivery db, Referenced db d)
    (free : ∀ s ∈ payload.texts, nulFree s) :
    ∃ event ids, (perform κ cfg W (.outside n db us) (Inbox.accept source key type raw payload)).1 =
      .ok (.bridged (W.answer (n + 1) .newUuid) event ids) := by
  have texts := exec_free ran
  obtain ⟨rfl, fits⟩ : ws = [⟨none, .inbound (Store.newInbound (W.answer (n + 1) .newUuid) source.id
      source.tenantId key type raw (W.time n))⟩] ∧ db.Admits (.inbound (Store.newInbound
        (W.answer (n + 1) .newUuid) source.id source.tenantId key type raw (W.time n))) := by
    rcases Store.insertInboundEvent_ok (Stmt.exec_ok ran) with ⟨none, _⟩ | ⟨_, _, new⟩
    · cases none
    · obtain ⟨rfl, _, fits⟩ := Store.insert_ok new
      exact ⟨rfl, fits⟩
  generalize row : Store.newInbound (W.answer (n + 1) .newUuid) source.id source.tenantId key
    type raw (W.time n) = r at ran fits
  have fresh₁ : Fresh W (n + 2) m (db.put (.inbound r)) :=
    (fresh.later (Nat.le_add_right n 2)).put fits (by omega) (Nat.lt_succ_self _) (row ▸ rfl)
  have fresh₂ : Fresh W (n + 4) m ((db.put (.inbound r)).put (.event
      ⟨W.answer (n + 3) .newUuid, source.tenantId, none, type, payload, W.time n⟩)) :=
    (fresh₁.later (Nat.le_add_right _ 2)).put (admits_plain rfl) (by omega) (Nat.lt_succ_self _) rfl
  have frees : ∀ s ∈ [source.tenantId, type] ++ payload.texts, nulFree s := by
    intro s mem
    rcases List.mem_append.mp mem with mem | mem
    · exact texts s (List.mem_append_left _ mem)
    · exact free s mem
  have referenced₁ : ∀ d ∈ Db.all Delivery (db.put (.inbound r)),
      ∃ ev : Event, Db.find? (db.put (.inbound r)) d.eventId = some ev := by
    intro d mem
    have found := Db.mem_all.mp mem
    rw [Db.find?_put_outside (α := Delivery) fits fun same => Table.noConfusion same] at found
    obtain ⟨⟨ev, here⟩, _⟩ := referenced d (Db.mem_all.mpr found)
    exact ⟨ev, (Db.find?_put_outside (α := Event) fits (fun same => Table.noConfusion same) _).trans
      here⟩
  have same : (Db.all Endpoint (db.put (.inbound r))).length = (Db.all Endpoint db).length :=
    congrArg List.length (Db.all_put_outside fits fun same => Table.noConfusion same)
  obtain ⟨ids, n', more, published, event⟩ := perform_publish κ cfg us
    (show view db [⟨dedup W n source key type raw, some (W.answer (n + 1) .newUuid),
      [⟨none, .inbound r⟩]⟩] = db.put (.inbound r) from rfl)
    (fun ids => do
      query (.linkInboundEvent (W.answer (n + 1) .newUuid) (W.answer (n + 3) .newUuid))
      commit
      return Accepted.bridged (W.answer (n + 1) .newUuid) (W.answer (n + 3) .newUuid) ids)
    frees (fresh₁.find (by omega) (Nat.le_succ _)) fresh₂ (by omega) referenced₁
  obtain ⟨ws, linked⟩ := link_runs (W.time n) W.choice (W.answer (n + 1) .newUuid) event
  refine ⟨W.answer (n + 3) .newUuid, ids, ?_⟩
  obtain ⟨f, start, _, new⟩ := perform_accept κ cfg W n db us source key type raw payload
  rw [start, perform_bind_ok (perform_first ran), new, newUuid, perform_ask]
  refine (congrArg Prod.fst published).trans ?_
  rw [perform_bind_ok (perform_query linked)]
  rfl

end Accept

def Acknowledged (a : Api.Answer) : Prop :=
  (∃ event n, a = answer 202 (.accepted event n)) ∨ a = answer 200 .duplicate

/-- The event is in the inbox of its source. -/
def Received (db : Db) (source : Uuid) (key : String) : Prop :=
  ∃ r ∈ Db.all InboundEvent db, r.sourceId = source ∧ r.sourceEventId = some key

section Ingest

variable {κ : Prims} {cfg : DispatcherConfig} {W : World} {db : Db} {n m : Nat} {slug : String}
  {headers : Headers} {raw : Bytes} {now : Time} {source : InboundSource} {provider : Provider}
    {key type : String}

theorem perform_genuine (cfg : DispatcherConfig) (free : nulFree slug)
    (clock : ∀ n, W.answer n .utcNow = now)
    (found : Store.getInboundSourceBySlug slug db = some source)
    (enabled : source.disabled = false)
    (parsed : Inbound.parseProvider κ source.provider = .ok provider)
    (genuine : examine κ source provider headers raw (.ofInt (now / 1000000)) =
      (.ok (), key, type)) :
    ∃ us, (perform κ cfg W (.start db) (ingest κ slug headers raw)).1 = .ok (ingested
      (perform κ cfg W (.outside 2 db us)
        (Inbox.accept source (some key) type raw (payloadOf κ raw))).1) := by
  rw [ingest, perform_outcome, Txn.Scene.start, perform_slug free]
  simp only [found, enabled, receive, parsed, Bool.false_eq_true, if_false]
  rw [utcNow, perform_ask, clock]
  simp only [genuine]
  rw [perform_outcome]
  exact ⟨_, rfl⟩

theorem dedup_taken (referenced : db.find? source.id = some source)
    (taken : Received db source.id key) (texts : ∀ s ∈ [source.tenantId, type, key], nulFree s) :
    (dedup W n source (some key) type raw).exec (W.time n) W.choice db = .ok (none, []) := by
  obtain ⟨r, mem, same, own⟩ := taken
  have rows : (Store.select db fun r : InboundEvent =>
      r.sourceId = source.id ∧ r.sourceEventId = some key) ≠ [] :=
    List.ne_nil_of_mem (Store.mem_select.mpr ⟨Db.mem_all.mp mem, decide_eq_true ⟨same, own⟩⟩)
  rw [exec_admitted (q := dedup W n source (some key) type raw) texts]
  simp only [Stmt.run, Store.insertInboundEvent, references_ok referenced]
  refine bind_ok.mpr ⟨(), rfl, ?_⟩
  rw [if_pos ⟨rfl, rows⟩]
  rfl

theorem dedup_new (raw : Bytes) (referenced : db.find? source.id = some source)
    (fresh : Fresh W n m db) (enough : n + 1 < m) (new : ¬ Received db source.id key)
    (texts : ∀ s ∈ [source.tenantId, type, key], nulFree s) :
    ∃ ws, (dedup W n source (some key) type raw).exec (W.time n) W.choice db =
      .ok (some (W.answer (n + 1) .newUuid), ws) := by
  have rows : (Store.select db fun r : InboundEvent =>
      r.sourceId = source.id ∧ r.sourceEventId = some key) = [] := by
    refine List.filter_eq_nil_iff.mpr fun r mem own => new ⟨r, mem, ?_⟩
    exact of_decide_eq_true own
  have fits : db.Admits (.inbound (Store.newInbound (W.answer (n + 1) .newUuid) source.id
      source.tenantId (some key) type raw (W.time n))) := by
    rintro x mem other (same | ⟨i, held, own⟩)
    · exact other same
    · obtain rfl : i = .inbound source.id key := List.mem_singleton.mp own
      cases x with
      | inbound r =>
        cases stored : r.sourceEventId with
        | none => simp [schema, Row.index, stored] at held
        | some k =>
          simp only [schema, Row.index, stored, Option.map_some, Option.toList_some,
            List.mem_singleton, Index.inbound.injEq] at held
          refine new ⟨r, Db.mem_all.mpr (Db.find?_eq_some.mpr (Txn.Store.get?_of_mem mem)),
            held.1.symm, ?_⟩
          rw [stored, held.2]
      | _ => simp [schema, Row.index] at held
  have stored := insert_fresh (a := Store.newInbound (W.answer (n + 1) .newUuid) source.id
    source.tenantId (some key) type raw (W.time n)) (fresh.find enough (Nat.le_succ n)) fits
  refine ⟨[⟨none, .inbound (Store.newInbound (W.answer (n + 1) .newUuid) source.id source.tenantId
    (some key) type raw (W.time n))⟩], ?_⟩
  rw [exec_admitted (q := dedup W n source (some key) type raw) texts]
  simp only [Stmt.run, Store.insertInboundEvent, references_ok referenced]
  refine bind_ok.mpr ⟨(), rfl, ?_⟩
  rw [if_neg fun taken => taken.2 rows]
  exact bind_ok.mpr ⟨_, stored, rfl⟩

theorem accept_nul (cfg : DispatcherConfig) (W : World) (n : Nat) (us : List (List Ran))
    (type : String) {s : String} (mem : s ∈ (payloadOf κ raw).texts)
    (nul : ¬ nulFree s) (new : ¬ Received db source.id key) :
    ∃ e, (perform κ cfg W (.outside n db us)
      (Inbox.accept source (some key) type raw (payloadOf κ raw))).1 = .error e := by
  cases ran : (dedup W n source (some key) type raw).exec (W.time n) W.choice db with
  | error e => exact ⟨_, accept_error ran⟩
  | ok done =>
    obtain ⟨out, ws⟩ := done
    cases out with
    | some id => exact ⟨_, accept_refused ran mem nul⟩
    | none =>
      rcases Store.insertInboundEvent_ok (Stmt.exec_ok ran) with
        ⟨_, _, _, r, found, own⟩ | ⟨none, _⟩
      · exact (new ⟨r, Db.mem_all.mpr found, own⟩).elim
      · cases none

theorem ingested_error (e : CoreError) : ¬ Acknowledged (ingested (.error e)) := by
  rintro (⟨_, _, same⟩ | same) <;> cases same

theorem accept_verdict (cfg : DispatcherConfig) (us : List (List Ran))
    (row : db.find? source.id = some source) (fresh : Fresh W n m db)
    (enough : n + 6 + 2 * (Db.all Endpoint db).length ≤ m)
    (referenced : ∀ d ∈ Db.all Delivery db, Referenced db d)
    (tenantFree : nulFree source.tenantId) (keyFree : Received db source.id key → nulFree key)
    (derived : (∀ s ∈ (payloadOf κ raw).texts, nulFree s) → nulFree key ∧ nulFree type) :
    Acknowledged (ingested (perform κ cfg W (.outside n db us)
        (Inbox.accept source (some key) type raw (payloadOf κ raw))).1) ↔
      (∀ s ∈ (payloadOf κ raw).texts, nulFree s) ∨ (Received db source.id key ∧ nulFree type) := by
  by_cases taken : Received db source.id key
  · by_cases typeFree : nulFree type
    · have texts : ∀ s ∈ [source.tenantId, type, key], nulFree s := by
        simp [tenantFree, typeFree, keyFree taken]
      rw [accept_duplicate (dedup_taken row taken texts)]
      exact iff_of_true (.inr rfl) (.inr ⟨taken, typeFree⟩)
    · have mem : type ∈ (dedup W n source (some key) type raw).texts :=
        List.mem_cons_of_mem _ List.mem_cons_self
      rw [accept_error (exec_refused mem typeFree)]
      refine iff_of_false (ingested_error _) ?_
      rintro (free | ⟨_, typeFree'⟩)
      · exact typeFree (derived free).2
      · exact typeFree typeFree'
  · by_cases free : ∀ s ∈ (payloadOf κ raw).texts, nulFree s
    · obtain ⟨keyFree, typeFree⟩ := derived free
      have texts : ∀ s ∈ [source.tenantId, type, key], nulFree s := by
        simp [tenantFree, typeFree, keyFree]
      obtain ⟨ws, ran⟩ := dedup_new raw row fresh (by omega) taken texts
      obtain ⟨event, ids, bridged⟩ := accept_bridged κ cfg us ran fresh enough referenced free
      rw [bridged]
      exact iff_of_true (.inl ⟨_, _, rfl⟩) (.inl free)
    · obtain ⟨s, mem, nul⟩ : ∃ s ∈ (payloadOf κ raw).texts, ¬ nulFree s := by simpa using free
      obtain ⟨e, refused⟩ := accept_nul cfg W n us type mem nul taken
      rw [refused]
      refine iff_of_false (ingested_error _) ?_
      rintro (free' | ⟨taken', _⟩)
      · exact free free'
      · exact taken taken'

end Ingest

/-- An authentic request to an enabled source is acknowledged exactly when no text of its
payload holds U+0000, or its key was received before and its type is free of U+0000. -/
theorem authentic_acknowledged (κ : Prims) (cfg : DispatcherConfig) (s : State)
    (reach : Run κ cfg Txn.anyStep .empty s) (W : World)
    (fresh : Fresh W 0 (2 * (Db.all Endpoint s.db).length + 8) s.db) (now : Time)
    (clock : ∀ n, W.answer n .utcNow = now) (slug : String) (headers : Headers) (raw : Bytes)
    (source : InboundSource) (found : Store.getInboundSourceBySlug slug s.db = some source)
    (enabled : source.disabled = false) (provider : Provider)
    (parsed : Inbound.parseProvider κ source.provider = .ok provider) (key type : String)
    (genuine : examine κ source provider headers raw (.ofInt (now / 1000000)) =
      (.ok (), key, type)) :
    (∃ a, (perform κ cfg W (.start s.db) (ingest κ slug headers raw)).1 = .ok a ∧ Acknowledged a) ↔
      (∀ text ∈ (payloadOf κ raw).texts, nulFree text) ∨
        (Received s.db source.id key ∧ nulFree type) := by
  have clean := reach_clean reach
  obtain ⟨mem, rfl⟩ := slug_found found
  have own : nulFree source.slug ∧ nulFree source.tenantId := clean_row clean mem
  have row : Db.find? s.db source.id = some source := Db.mem_all.mp mem
  obtain ⟨us, answered⟩ := perform_genuine cfg own.1 clock found enabled parsed genuine
  have verdict := accept_verdict cfg us row (fresh.later (Nat.zero_le 2)) (by omega)
    (fun d mem => reach_referenced reach d.id d (Db.mem_all.mp mem)) own.2
    (fun ⟨r, stored, _, same⟩ => clean_row clean stored key same)
    (fun free => examine_free free genuine)
  rw [← verdict, answered]
  simp

def hooked : List Move :=
  .spawn (.client 0) (.command
    (.createInboundSource "t" "hooks" "hmac" "whsec_dGVzdHNlY3JldA==")) ::
    go 3 (.client 0) 0 1 (.error "")

def hookSource : InboundSource := ⟨1, "t", "hooks", "hmac", "whsec_dGVzdHNlY3JldA==", false, 0, 0⟩

def hookHeaders (id signature : String) : Headers :=
  [("webhook-id", utf8 id.toList), ("webhook-timestamp", utf8 "1700000000".toList),
    ("webhook-signature", utf8 signature.toList)]

theorem hooked_run (κ : Prims) (now : Time) : ∃ s : State,
    Run κ Dispatcher.default Txn.anyStep .empty s ∧ Db.all InboundEvent s.db = [] ∧
    Store.getInboundSourceBySlug "hooks" s.db = some hookSource ∧
    Fresh (steady now) 0 (2 * (Db.all Endpoint s.db).length + 8) s.db := by
  have played : ((replay κ Dispatcher.default (.start .empty) hooked).map fun s => s.db.rows) =
      some [.source hookSource] := rfl
  obtain ⟨s, played, rows⟩ := Option.map_eq_some_iff.mp played
  have endpoints : Db.all Endpoint s.db = [] := by simp [Db.all, rows, Record.ofRow, Row.endpoint?]
  refine ⟨s, replay_reach played, ?_, ?_, endpoints ▸ steady_fresh now (by decide) ?_⟩
  · simp [Db.all, rows, Record.ofRow, Row.inbound?]
  · simp [Store.getInboundSourceBySlug, Store.select, Db.all, rows, Record.ofRow, Row.source?,
      hookSource]
  · rw [rows]
    simp [Row.key, hookSource]

def emptyAnswer : Prims := { Signing.knownAnswer with fromSlice := fun _ => some (.object []) }

theorem authentic_acknowledged_empty : ∃ s : State,
    Run emptyAnswer Dispatcher.default Txn.anyStep .empty s ∧
    Store.getInboundSourceBySlug "hooks" s.db = some hookSource ∧
    ∃ a, (perform emptyAnswer Dispatcher.default (steady 1700000000000000) (.start s.db)
      (ingest emptyAnswer "hooks"
        (hookHeaders "msg_123" "v1,rzWSNvryAlNWGy2Hk3pzTIxDc3okDWfaqB4dQ9FWTqE=")
        (utf8 "\x7b\x7d".toList))).1 = .ok a ∧ Acknowledged a := by
  obtain ⟨s, reach, _, found, fresh⟩ := hooked_run emptyAnswer 1700000000000000
  have genuine : examine emptyAnswer hookSource .hmac
      (hookHeaders "msg_123" "v1,rzWSNvryAlNWGy2Hk3pzTIxDc3okDWfaqB4dQ9FWTqE=")
        (utf8 "\x7b\x7d".toList)
      (.ofInt (1700000000000000 / 1000000)) = (.ok (), "msg_123", "inbound.event") := by
    decide +kernel
  refine ⟨s, reach, found, ?_⟩
  refine (authentic_acknowledged emptyAnswer Dispatcher.default s reach _ fresh 1700000000000000
    (fun _ => rfl) "hooks" _ _ hookSource found rfl .hmac rfl "msg_123" "inbound.event" genuine).mpr
      (.inl ?_)
  intro text none
  cases none

/- The body is the JSON text of a string that is one U+0000. -/
def nulBody : Bytes := utf8 "\"\\u0000\"".toList

def nulAnswer : Prims :=
  { tabled [(utf8 "testsecret".toList, utf8 "m1.1700000000.".toList ++ nulBody,
      [77, 69, 210, 219, 120, 154, 238, 87, 140, 12, 116, 181, 94, 160, 47, 177, 235, 133, 77, 73, 196, 18,
        212, 246, 20, 204, 242, 36, 244, 199, 252, 203])] with
    fromSlice := fun _ => some (.string "\x00") }

/- A signed webhook with that body is answered with a 500, on every retry. -/
theorem nul_payload_refused : ∃ s : State, Run nulAnswer Dispatcher.default Txn.anyStep .empty s ∧
    Fresh (steady 1700000000000000) 0 (2 * (Db.all Endpoint s.db).length + 8) s.db ∧
    Store.getInboundSourceBySlug "hooks" s.db = some hookSource ∧
    examine nulAnswer hookSource .hmac
      (hookHeaders "m1" "v1,TUXS23ia7leMDHS1XqAvseuFTUnEEtT2FMzyJPTH/Ms=") nulBody
      (.ofInt (1700000000000000 / 1000000)) = (.ok (), "m1", "inbound.event") ∧
    (perform nulAnswer Dispatcher.default (steady 1700000000000000) (.start s.db)
      (ingest nulAnswer "hooks"
      (hookHeaders "m1" "v1,TUXS23ia7leMDHS1XqAvseuFTUnEEtT2FMzyJPTH/Ms=") nulBody)).1 =
      .ok (answer 500 (.text "ingest failed")) := by
  obtain ⟨s, reach, none, found, fresh⟩ := hooked_run nulAnswer 1700000000000000
  have genuine : examine nulAnswer hookSource .hmac
      (hookHeaders "m1" "v1,TUXS23ia7leMDHS1XqAvseuFTUnEEtT2FMzyJPTH/Ms=") nulBody
      (.ofInt (1700000000000000 / 1000000)) = (.ok (), "m1", "inbound.event") := by
    decide +kernel
  have new : ¬ Received s.db hookSource.id "m1" := by
    rintro ⟨r, mem, _⟩
    rw [none] at mem
    cases mem
  obtain ⟨us, answered⟩ := perform_genuine (W := steady 1700000000000000) Dispatcher.default
    (by decide) (fun _ => rfl) found rfl rfl genuine
  obtain ⟨e, refused⟩ := accept_nul Dispatcher.default (steady 1700000000000000) 2 us
    "inbound.event"
    (show "\x00" ∈ (payloadOf nulAnswer nulBody).texts from List.mem_cons_self) (by decide) new
  refine ⟨s, reach, fresh, found, genuine, ?_⟩
  rw [answered, refused]
  rfl

end Dropless
