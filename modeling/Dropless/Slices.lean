import Dropless.Scopes
import Dropless.Txn.Ties

namespace Dropless

open Txn (Ties tied)

section Rows

/- The tenant of a row that the API shows; an attempt goes with its delivery. -/
def Row.owner : Row → Option String
  | .endpoint r => some r.tenantId
  | .event r => some r.tenantId
  | .delivery r => some r.tenantId
  | .source r => some r.tenantId
  | .consumer r => some r.tenantId
  | _ => none

def Row.created : Row → Time
  | .endpoint r => r.createdAt
  | .event r => r.createdAt
  | .delivery r => r.createdAt
  | .source r => r.createdAt
  | .consumer r => r.createdAt
  | _ => 0

theorem owner_frozen {r r' : Row} (same : r.frozen = r'.frozen) : r.owner = r'.owner := by
  have kept (r : Row) : r.frozen.owner = r.owner := by cases r <;> rfl
  rw [← kept r, same, kept]

theorem created_frozen {r r' : Row} (same : r.frozen = r'.frozen) : r.created = r'.created := by
  have kept (r : Row) : r.frozen.created = r.created := by cases r <;> rfl
  rw [← kept r, same, kept]

class Tenanted (α : Type) extends Record α where
  tenant : α → String
  created : α → Time
  owner_row : ∀ a, (row a).owner = some (tenant a)
  created_row : ∀ a, (row a).created = created a

instance : Tenanted Endpoint := ⟨Endpoint.tenantId, Endpoint.createdAt, fun _ => rfl, fun _ => rfl⟩
instance : Tenanted Event := ⟨Event.tenantId, Event.createdAt, fun _ => rfl, fun _ => rfl⟩
instance : Tenanted Delivery := ⟨Delivery.tenantId, Delivery.createdAt, fun _ => rfl, fun _ => rfl⟩
instance : Tenanted InboundSource :=
  ⟨InboundSource.tenantId, InboundSource.createdAt, fun _ => rfl, fun _ => rfl⟩
instance : Tenanted Consumer := ⟨Consumer.tenantId, Consumer.createdAt, fun _ => rfl, fun _ => rfl⟩

end Rows

/-- What the API shows of a tenant, each table in the order in which Postgres lists it. Two slices
that agree have the same rows, and list those created at the same time alike. -/
structure Slice where
  endpoints : List Endpoint
  consumers : List Consumer
  events : List Event
  deliveries : List (Delivery × List DeliveryAttempt)
  sources : List InboundSource

def slice (tenant : String) (db : Db) : Slice where
  endpoints := Store.listEndpoints tenant db
  consumers := Store.orderByDesc Consumer.createdAt (Store.select db fun c => c.tenantId = tenant)
  events := Store.orderByDesc Event.createdAt (Store.select db fun e => e.tenantId = tenant)
  deliveries :=
    (Store.orderBy Delivery.createdAt (Store.select db fun d => d.tenantId = tenant)).map fun d =>
      (d, Store.attemptsForDelivery d.id db)
  sources := Store.listInboundSources tenant db

section Tables

variable {α : Type} [Tenanted α] {tenant : String} {db a b : Db}

def ownedRows (tenant : String) (db : Db) : List Row :=
    db.rows.filter fun r => r.owner = some tenant

def owned (α : Type) [Tenanted α] (tenant : String) (db : Db) : List α :=
  Store.select db fun a => Tenanted.tenant a = tenant

theorem mem_owned {x : α} : x ∈ owned α tenant db ↔
    db.find? (Record.id x) = some x ∧ Tenanted.tenant x = tenant := by
  rw [owned, Store.mem_select, decide_eq_true_eq]

/- Rows of one table that are created at the same time are tied. -/
def beside (r r' : Row) : Prop := r.key.table = r'.key.table ∧ r.created ≤ r'.created

instance : DecidableRel beside := fun _ _ => inferInstanceAs (Decidable (_ ∧ _))

def byCreation (x y : α) : Prop := Tenanted.created x ≤ Tenanted.created y

instance : DecidableRel (byCreation (α := α)) := fun x y =>
  inferInstanceAs (Decidable (Tenanted.created x ≤ Tenanted.created y))

instance : Std.Total (byCreation (α := α)) :=
    ⟨fun x y => Int.le_total (Tenanted.created x) (Tenanted.created y)⟩

instance : IsTrans α byCreation := ⟨fun _ _ _ => Int.le_trans⟩

theorem filter_beside (x : α) : (ownedRows tenant db).filter (tied beside (Record.row x)) =
    ((owned α tenant db).filter (tied byCreation x)).map Record.row := by
  rw [ownedRows, owned, Store.select, Db.all, List.filter_filter, List.filter_filter]
  induction db.rows with
  | nil => rfl
  | cons r rows ih =>
    cases typed : (Record.ofRow r : Option α) with
    | none =>
      have other : tied beside (Record.row x) r = false := by
        refine decide_eq_false fun same => ?_
        have place : r.key.table = Record.table α := by
          rw [← same.1.1, Record.key_row]
        have here := Record.ofRow_table (α := α) place
        rw [typed] at here
        cases here
      simp [typed, other, ih]
    | some y =>
      obtain rfl : r = Record.row y := Record.ofRow_iff.mp typed
      have table : (Record.row y).key.table = (Record.row x).key.table := by
        rw [Record.key_row, Record.key_row]
      have same : tied beside (Record.row x) (Record.row y) = tied byCreation x y := by
        refine decide_eq_decide.mpr ?_
        simp [beside, byCreation, table, Tenanted.created_row]
      simp only [List.filter_cons, List.filterMap_cons, typed, Tenanted.owner_row, same, ih,
        Option.some.injEq]
      split <;> simp_all

theorem orderBy_eq_iff {xs ys : List α} :
    Store.orderBy Tenanted.created xs = Store.orderBy Tenanted.created ys ↔ Ties byCreation xs ys :=
  Txn.insertionSort_eq_iff (r := byCreation)

theorem orderByDesc_eq_iff {xs ys : List α} :
    Store.orderByDesc Tenanted.created xs = Store.orderByDesc Tenanted.created ys ↔
      Ties byCreation xs ys := by
  have total : Std.Total fun x y : α => byCreation y x := ⟨fun x y => Std.Total.total y x⟩
  have trans : IsTrans α fun x y => byCreation y x :=
    ⟨fun _ _ _ first second => Int.le_trans second first⟩
  exact (Txn.insertionSort_eq_iff (r := fun x y : α => byCreation y x)).trans ⟨Ties.flip, Ties.flip⟩

theorem row_injective : Function.Injective (Record.row : α → Row) := by
  intro x y same
  have left : Record.ofRow (Record.row x) = some x := Record.ofRow_iff.mpr rfl
  have right : Record.ofRow (Record.row x) = some y := Record.ofRow_iff.mpr same
  exact Option.some.inj (left.symm.trans right)

/-- Two databases that agree on what a tenant has. -/
structure Agree (tenant : String) (a b : Db) : Prop where
  rows : Ties beside (ownedRows tenant a) (ownedRows tenant b)
  attempts : ∀ d ∈ owned Delivery tenant a,
    Store.attemptsForDelivery d.id a = Store.attemptsForDelivery d.id b

theorem Agree.ties (agree : Agree tenant a b) :
    Ties byCreation (owned α tenant a) (owned α tenant b) := by
  intro x
  have same := agree.rows (Record.row x)
  rw [filter_beside, filter_beside] at same
  exact List.map_injective_iff.mpr row_injective same

theorem Agree.symm (agree : Agree tenant a b) : Agree tenant b a :=
  ⟨agree.rows.symm, fun d mem => (agree.attempts d (agree.ties.symm.mem mem)).symm⟩

theorem agree_refl (tenant : String) (db : Db) : Agree tenant db db :=
    ⟨fun _ => rfl, fun _ _ => rfl⟩

theorem Agree.trans {c : Db} (first : Agree tenant a b) (second : Agree tenant b c) :
    Agree tenant a c :=
  ⟨fun r => (first.rows r).trans (second.rows r),
    fun d mem => (first.attempts d mem).trans (second.attempts d (first.ties.mem mem))⟩

theorem beside_ownerless {r : Row} (none : r.owner = none) :
    (ownedRows tenant db).filter (tied beside r) = [] := by
  refine List.filter_eq_nil_iff.mpr fun y mem same => ?_
  have own : y.owner = some tenant := of_decide_eq_true (List.mem_filter.mp mem).2
  have table : r.key.table = y.key.table := (of_decide_eq_true same).1.1
  cases r <;> first | (cases none; done) | (cases y <;> first | (cases own; done) | cases table)

theorem deliveries_eq_iff : (slice tenant a).deliveries = (slice tenant b).deliveries ↔
    Ties byCreation (owned Delivery tenant a) (owned Delivery tenant b) ∧
      ∀ d ∈ owned Delivery tenant a, Store.attemptsForDelivery d.id a =
        Store.attemptsForDelivery d.id b := by
  have listed (d : Delivery) : d ∈ Store.orderBy Delivery.createdAt (owned Delivery tenant a) ↔
      d ∈ owned Delivery tenant a := Store.mem_orderBy
  constructor
  · intro eq
    have firsts := congrArg (List.map Prod.fst) eq
    have ids (l : List Delivery) (db : Db) :
        (l.map fun d => (d, Store.attemptsForDelivery d.id db)).map Prod.fst = l := by
      simp [List.map_map, Function.comp_def]
    have order : Store.orderBy Delivery.createdAt (owned Delivery tenant a) =
        Store.orderBy Delivery.createdAt (owned Delivery tenant b) :=
      (ids _ a).symm.trans (firsts.trans (ids _ b))
    refine ⟨orderBy_eq_iff.mp order, fun d mem => ?_⟩
    have pairs : (Store.orderBy Delivery.createdAt (owned Delivery tenant a)).map
        (fun d => (d, Store.attemptsForDelivery d.id a)) =
        (Store.orderBy Delivery.createdAt (owned Delivery tenant a)).map
          fun d => (d, Store.attemptsForDelivery d.id b) := by
      refine eq.trans ?_
      rw [order]
      rfl
    exact (Prod.mk.inj (List.map_eq_map_iff.mp pairs d ((listed d).mpr mem))).2
  · rintro ⟨ties, attempts⟩
    have order : Store.orderBy Delivery.createdAt (owned Delivery tenant a) =
        Store.orderBy Delivery.createdAt (owned Delivery tenant b) := orderBy_eq_iff.mpr ties
    refine (List.map_congr_left fun d mem => ?_).trans (congrArg (List.map _) order)
    exact congrArg (Prod.mk d) (attempts d ((listed d).mp mem))

theorem slice_eq_iff : slice tenant a = slice tenant b ↔ Agree tenant a b := by
  constructor
  · intro eq
    obtain ⟨deliveries, attempts⟩ := deliveries_eq_iff.mp (congrArg Slice.deliveries eq)
    have endpoints := orderBy_eq_iff.mp (congrArg Slice.endpoints eq)
    have consumers := orderByDesc_eq_iff.mp (congrArg Slice.consumers eq)
    have events := orderByDesc_eq_iff.mp (congrArg Slice.events eq)
    have sources := orderBy_eq_iff.mp (congrArg Slice.sources eq)
    have typed {β : Type} [Tenanted β]
      (ties : Ties byCreation (owned β tenant a) (owned β tenant b)) (x : β) :
        (ownedRows tenant a).filter (tied beside (Record.row x)) =
          (ownedRows tenant b).filter (tied beside (Record.row x)) := by
      rw [filter_beside, filter_beside, ties x]
    refine ⟨fun r => ?_, attempts⟩
    cases r with
    | endpoint x => exact typed endpoints x
    | event x => exact typed events x
    | delivery x => exact typed deliveries x
    | source x => exact typed sources x
    | consumer x => exact typed consumers x
    | attempt | deadLetter | apiKey | inbound => rw [beside_ownerless rfl, beside_ownerless rfl]
  · intro agree
    have deliveries := deliveries_eq_iff.mpr ⟨agree.ties, agree.attempts⟩
    exact Slice.mk.injEq .. ▸ ⟨orderBy_eq_iff.mpr agree.ties, orderByDesc_eq_iff.mpr agree.ties,
      orderByDesc_eq_iff.mpr agree.ties, deliveries, orderBy_eq_iff.mpr agree.ties⟩

end Tables

section Seals

variable {α : Type} [Tenanted α] {tenant : String} {db db' a b : Db} {r r' : Row}

/-- What a row refers to is there, and belongs to its tenant. -/
def Homed (db : Db) : Row → Prop
  | .endpoint e => Belongs db e.tenantId e.consumerId
  | .event e => Belongs db e.tenantId e.consumerId
  | .delivery d => ∃ ev : Event, db.find? d.eventId = some ev ∧ ev.tenantId = d.tenantId
  | .attempt a => ∃ d : Delivery, db.find? a.deliveryId = some d
  | _ => True

def Sealed (db : Db) : Prop := ∀ r ∈ db.rows, Homed db r

theorem homed_frozen (same : r.frozen = r'.frozen) : Homed db r ↔ Homed db r' := by
  have blank (r : Row) : Homed db r.frozen ↔ Homed db r := by cases r <;> rfl
  rw [← blank r, same, blank]

theorem Homed.kept (homed : Homed db r)
    (kept : ∀ k r, db.get? k = some r → ∃ r', db'.get? k = some r' ∧ r'.frozen = r.frozen) :
    Homed db' r := by
  cases r with
  | endpoint e => exact Belongs.kept homed kept
  | event e => exact Belongs.kept homed kept
  | delivery d =>
    obtain ⟨ev, found, tenant_⟩ := homed
    obtain ⟨ev', found', same⟩ := find_kept kept found
    obtain rfl : ev' = ev := Row.event.inj same
    exact ⟨ev', found', tenant_⟩
  | attempt a =>
    obtain ⟨d, found⟩ := homed
    obtain ⟨d', found', _⟩ := find_kept kept found
    exact ⟨d', found'⟩
  | deadLetter | apiKey | source | inbound | consumer => trivial

/-- A version that a database takes: its key is free, or the version before has its fixed
columns. -/
structure Takes (db : Db) (r : Row) : Prop where
  fits : db.Admits r
  kept : ∀ old, db.get? r.key = some old → r.frozen = old.frozen

theorem Takes.keeps (takes : Takes db r) (k : Key) (x : Row) (found : db.get? k = some x) :
    ∃ x', (db.put r).get? k = some x' ∧ x'.frozen = x.frozen := by
  rw [Txn.Store.get?_put takes.fits]
  split
  · rename_i same
    refine ⟨r, rfl, takes.kept x ?_⟩
    rw [show r.key = k from same]
    exact found
  · exact ⟨x, found, rfl⟩

theorem Takes.same (takes : Takes db r) {x : Row} (mem : x ∈ db.rows)
    (key : schema.key x = schema.key r) : r.frozen = x.frozen := by
  refine takes.kept x ?_
  rw [← show x.key = r.key from key]
  exact Txn.Store.get?_of_mem mem

theorem Sealed.put (whole : Sealed db) (takes : Takes db r) (homed : Homed db r) :
    Sealed (db.put r) := by
  intro x mem
  rw [Txn.Store.put_rows takes.fits] at mem
  rcases Txn.Store.mem_place mem with rfl | old
  · exact homed.kept takes.keeps
  · exact (whole x old).kept takes.keeps

theorem ownedRows_put (takes : Takes db r) : ownedRows tenant (db.put r) =
    if r.owner = some tenant then Txn.Store.place schema r (ownedRows tenant db)
    else ownedRows tenant db := by
  rw [ownedRows, Txn.Store.put_rows takes.fits, Txn.Store.filter_place]
  · simp [ownedRows]
  · intro x mem key
    rw [owner_frozen (takes.same mem key)]

theorem attempts_put (fits : db.Admits r) (own : r.owner = some tenant) (id : Uuid) :
    Store.attemptsForDelivery id (db.put r) = Store.attemptsForDelivery id db := by
  have other : r.key.table ≠ Record.table DeliveryAttempt := by
    cases r <;> first | (cases own; done) | exact fun same => Table.noConfusion same
  rw [Store.attemptsForDelivery, Store.select, Db.all_put_outside fits other]
  rfl

/-- The rows of the other tenants stay. -/
theorem agree_other (takes : Takes db r) (own : r.owner = some tenant) {other : String}
    (apart : other ≠ tenant) : Agree other db (db.put r) := by
  refine ⟨fun x => ?_, fun d _ => (attempts_put takes.fits own d.id).symm⟩
  rw [ownedRows_put takes, own, if_neg fun same => apart (Option.some.inj same).symm]

theorem Agree.mem (agree : Agree tenant a b) (mem : r ∈ a.rows) (own : r.owner = some tenant) :
    r ∈ b.rows := by
  have tie : tied beside r r = true := decide_eq_true ⟨⟨rfl, Int.le_refl _⟩, rfl, Int.le_refl _⟩
  have here : r ∈ (ownedRows tenant a).filter (tied beside r) :=
    List.mem_filter.mpr ⟨List.mem_filter.mpr ⟨mem, decide_eq_true own⟩, tie⟩
  rw [agree.rows r] at here
  exact List.mem_of_mem_filter (List.mem_of_mem_filter here)

theorem Agree.find (agree : Agree tenant a b) {id : Uuid} {x : α} (found : a.find? id = some x)
    (own : Tenanted.tenant x = tenant) : b.find? id = some x := by
  have mem := (Txn.Store.get?_some (Db.find?_eq_some.mp found)).1
  have there := agree.mem mem ((Tenanted.owner_row x).trans (congrArg some own))
  rw [Db.find?_eq_some, ← Db.find?_id found, ← Record.key_row]
  exact Txn.Store.get?_of_mem there

theorem Sealed.attempts (whole : Sealed db) {id : Uuid}
    (absent : db.find? id = (none : Option Delivery)) : Store.attemptsForDelivery id db = [] := by
  have none : Store.select db (fun a : DeliveryAttempt => a.deliveryId = id) = [] := by
    refine List.filter_eq_nil_iff.mpr fun x mem same => ?_
    obtain ⟨d, found⟩ : Homed db (.attempt x) :=
      whole _ (Txn.Store.get?_some (Db.find?_eq_some.mp (Db.mem_all.mp mem))).1
    rw [of_decide_eq_true same, absent] at found
    cases found
  rw [Store.attemptsForDelivery, none]
  rfl

theorem Agree.put (agree : Agree tenant a b) (own : r.owner = some tenant) (left : Takes a r)
    (right : Takes b r) (sealLeft : Sealed a) (sealRight : Sealed b) :
    Agree tenant (a.put r) (b.put r) := by
  have tied_kept {db : Db} (takes : Takes db r) (x : Row) (mem : x ∈ ownedRows tenant db)
      (key : schema.key x = schema.key r) (y : Row) : tied beside y x = tied beside y r := by
    have frozen := takes.same (List.mem_of_mem_filter mem) key
    have table : x.key.table = r.key.table := congrArg Key.table key
    refine decide_eq_decide.mpr ?_
    simp only [beside, table, created_frozen frozen]
  constructor
  · rw [ownedRows_put left, ownedRows_put right, if_pos own, if_pos own]
    exact Txn.Store.ties_place agree.rows (tied_kept left) (tied_kept right)
  · intro d mem
    rw [attempts_put left.fits own, attempts_put right.fits own]
    obtain ⟨found, tenant_⟩ := mem_owned.mp mem
    cases before : (a.find? d.id : Option Delivery) with
    | some old =>
      obtain ⟨d', found', frozen⟩ := find_kept left.keeps before
      obtain rfl : d' = d := Option.some.inj (found'.symm.trans found)
      have same : (some d'.tenantId : Option String) = some old.tenantId := owner_frozen frozen
      have here : old ∈ owned Delivery tenant a :=
        mem_owned.mpr ⟨Db.mem_all.mp (Db.mem_all_of_find? before),
          (Option.some.inj same).symm.trans tenant_⟩
      have ids : old.id = d'.id := Db.find?_id before
      rw [← ids]
      exact agree.attempts old here
    | none =>
      -- the row that was put is this delivery, and it is new on both sides
      have new : r = .delivery d := by
        rw [Db.find?_eq_some, Txn.Store.get?_put left.fits] at found
        split at found
        · exact Option.some.inj found
        · cases (Db.find?_none.mp before).symm.trans found
      have absent : b.find? d.id = (none : Option Delivery) := by
        cases there : (b.find? d.id : Option Delivery) with
        | none => rfl
        | some x =>
          have frozen : r.frozen = (Row.delivery x).frozen := right.kept _ (by
            rw [new]
            exact Db.find?_eq_some.mp there)
          have same := owner_frozen frozen
          rw [own] at same
          rw [agree.symm.find there (Option.some.inj same).symm] at before
          cases before
      rw [sealLeft.attempts before, sealRight.attempts absent]

end Seals

/-- Two databases that a tenant cannot tell apart, and that stay so: they agree on its rows, refer
only inside a tenant, and the ids to come are in no row of another one. -/
structure Mirror (tenant : String) (coming : Uuid → Prop) (a b : Db) : Prop where
  agree : Agree tenant a b
  sealLeft : Sealed a
  sealRight : Sealed b
  freeLeft : ∀ r ∈ a.rows, coming r.key.id → r.owner = some tenant
  freeRight : ∀ r ∈ b.rows, coming r.key.id → r.owner = some tenant

namespace Mirror

variable {α : Type} [Tenanted α] {tenant : String} {coming : Uuid → Prop} {a b : Db} {r : Row}

theorem put (mirror : Mirror tenant coming a b) (own : r.owner = some tenant) (left : Takes a r)
    (right : Takes b r) (homedLeft : Homed a r) (homedRight : Homed b r) :
    Mirror tenant coming (a.put r) (b.put r) := by
  have free {db : Db} (takes : Takes db r)
    (old : ∀ x ∈ db.rows, coming x.key.id → x.owner = some tenant)
      (x : Row) (mem : x ∈ (db.put r).rows) (comes : coming x.key.id) : x.owner = some tenant := by
    rw [Txn.Store.put_rows takes.fits] at mem
    rcases Txn.Store.mem_place mem with rfl | mem
    · exact own
    · exact old x mem comes
  exact ⟨mirror.agree.put own left right mirror.sealLeft mirror.sealRight,
    mirror.sealLeft.put left homedLeft, mirror.sealRight.put right homedRight,
    free left mirror.freeLeft, free right mirror.freeRight⟩

section Reads

theorem ties_select (mirror : Mirror tenant coming a b) {p : α → Bool}
    (left : ∀ x ∈ Db.all α a, p x = true → Tenanted.tenant x = tenant)
    (right : ∀ x ∈ Db.all α b, p x = true → Tenanted.tenant x = tenant) :
    Ties byCreation (Store.select a p) (Store.select b p) := by
  have part {db : Db} (own : ∀ x ∈ Db.all α db, p x = true → Tenanted.tenant x = tenant) :
      Store.select db p = (owned α tenant db).filter p := by
    rw [owned, Store.select, Store.select, List.filter_filter]
    refine List.filter_congr fun x mem => ?_
    cases picked : p x with
    | false => rfl
    | true => simp [own x mem picked]
  rw [part left, part right]
  exact mirror.agree.ties.filter p

theorem listEndpoints (mirror : Mirror tenant coming a b) :
    Store.listEndpoints tenant a = Store.listEndpoints tenant b :=
      orderBy_eq_iff.mpr mirror.agree.ties

theorem listInboundSources (mirror : Mirror tenant coming a b) :
    Store.listInboundSources tenant a = Store.listInboundSources tenant b :=
  orderBy_eq_iff.mpr mirror.agree.ties

theorem listEvents (mirror : Mirror tenant coming a b) (limit offset : Nat) :
    Store.listEvents tenant limit offset a = Store.listEvents tenant limit offset b := by
  have order : Store.orderByDesc Event.createdAt (owned Event tenant a) =
      Store.orderByDesc Event.createdAt (owned Event tenant b) :=
        orderByDesc_eq_iff.mpr mirror.agree.ties
  exact congrArg (fun rows => (rows.drop offset).take limit) order

theorem activeEndpointsForScope (mirror : Mirror tenant coming a b) (consumer : Option Uuid) :
    Store.activeEndpointsForScope tenant consumer a =
      Store.activeEndpointsForScope tenant consumer b :=
  orderBy_eq_iff.mpr (mirror.ties_select (fun _ _ scope => (of_decide_eq_true scope).1)
    fun _ _ scope => (of_decide_eq_true scope).1)

theorem deliveriesForEvent (mirror : Mirror tenant coming a b) {ev : Event} {id : Uuid}
    (found : a.find? id = some ev) (own : ev.tenantId = tenant) :
    Store.deliveriesForEvent id a = Store.deliveriesForEvent id b := by
  have mine {db : Db} (whole : Sealed db) (found : db.find? id = some ev) (d : Delivery)
      (mem : d ∈ Db.all Delivery db) (picked : decide (d.eventId = id) = true) :
        d.tenantId = tenant := by
    obtain ⟨ev', event, tenant_⟩ : Homed db (.delivery d) :=
      whole _ (Txn.Store.get?_some (Db.find?_eq_some.mp (Db.mem_all.mp mem))).1
    rw [of_decide_eq_true picked, found] at event
    cases event
    exact tenant_.symm.trans own
  exact orderBy_eq_iff.mpr (mirror.ties_select (mine mirror.sealLeft found)
    (mine mirror.sealRight (mirror.agree.find found own)))

section Consumers

variable {c : Consumer}

theorem belongs_own {db : Db} {owner : String} {consumer : Option Uuid}
    (belongs : Belongs db owner consumer) (found : db.find? c.id = some c)
    (own : c.tenantId = tenant) (scope : consumer = some c.id) :
    owner = tenant := by
  obtain ⟨c', found', tenant_⟩ := belongs c.id scope
  cases found.symm.trans found'
  exact tenant_.symm.trans own

theorem endpoint_own {db : Db} (whole : Sealed db) (found : db.find? c.id = some c)
    (own : c.tenantId = tenant) (e : Endpoint) (mem : e ∈ Db.all Endpoint db)
    (scope : decide (e.consumerId = some c.id) = true) : e.tenantId = tenant :=
  belongs_own (whole (.endpoint e)
    (Txn.Store.get?_some (Db.find?_eq_some.mp (Db.mem_all.mp mem))).1) found own
    (of_decide_eq_true scope)

theorem event_own {db : Db} (whole : Sealed db) (found : db.find? c.id = some c)
    (own : c.tenantId = tenant) (e : Event) (mem : e ∈ Db.all Event db)
    (scope : decide (e.consumerId = some c.id) = true) : e.tenantId = tenant :=
  belongs_own (whole (.event e) (Txn.Store.get?_some (Db.find?_eq_some.mp (Db.mem_all.mp mem))).1)
    found own (of_decide_eq_true scope)

theorem ties_endpoints (mirror : Mirror tenant coming a b) (found : a.find? c.id = some c)
    (own : c.tenantId = tenant) : Ties byCreation
      (Store.select a fun e : Endpoint => e.consumerId = some c.id)
      (Store.select b fun e : Endpoint => e.consumerId = some c.id) :=
  mirror.ties_select (endpoint_own mirror.sealLeft found own)
    (endpoint_own mirror.sealRight (mirror.agree.find found own) own)

theorem ties_events (mirror : Mirror tenant coming a b) (found : a.find? c.id = some c)
    (own : c.tenantId = tenant) : Ties byCreation
      (Store.select a fun e : Event => e.consumerId = some c.id)
      (Store.select b fun e : Event => e.consumerId = some c.id) :=
  mirror.ties_select (event_own mirror.sealLeft found own)
    (event_own mirror.sealRight (mirror.agree.find found own) own)

theorem listEndpointsForConsumer (mirror : Mirror tenant coming a b) (found : a.find? c.id = some c)
    (own : c.tenantId = tenant) :
    Store.listEndpointsForConsumer c.id a = Store.listEndpointsForConsumer c.id b :=
  orderBy_eq_iff.mpr (mirror.ties_endpoints found own)

theorem listEventsForConsumer (mirror : Mirror tenant coming a b) (found : a.find? c.id = some c)
    (own : c.tenantId = tenant) (limit offset : Nat) :
    Store.listEventsForConsumer c.id limit offset a =
      Store.listEventsForConsumer c.id limit offset b := by
  have order := orderByDesc_eq_iff.mpr (mirror.ties_events found own)
  exact congrArg (fun rows => (rows.drop offset).take limit) order

theorem listConsumers (mirror : Mirror tenant coming a b) :
    Store.listConsumers tenant a = Store.listConsumers tenant b := by
  have order : Store.orderByDesc Consumer.createdAt (owned Consumer tenant a) =
      Store.orderByDesc Consumer.createdAt (owned Consumer tenant b) :=
    orderByDesc_eq_iff.mpr mirror.agree.ties
  refine (List.map_congr_left fun c mem => ?_).trans (congrArg (List.map _) order)
  have here : c ∈ owned Consumer tenant a := (List.perm_insertionSort _ _).mem_iff.mp mem
  obtain ⟨found, own⟩ := mem_owned.mp here
  rw [(mirror.ties_endpoints found own).length, (mirror.ties_events found own).length]

theorem getConsumer (mirror : Mirror tenant coming a b) (uid : String) :
    Store.getConsumer tenant uid a = Store.getConsumer tenant uid b := by
  refine Option.ext fun c => ?_
  rw [Store.getConsumer_iff, Store.getConsumer_iff]
  exact ⟨fun ⟨found, own, same⟩ => ⟨mirror.agree.find found own, own, same⟩,
    fun ⟨found, own, same⟩ => ⟨mirror.agree.symm.find found own, own, same⟩⟩

end Consumers

end Reads

section Writes

theorem homed (mirror : Mirror tenant coming a b) (own : r.owner = some tenant)
    (homed : Homed a r) : Homed b r := by
  have scope {owner : String} {consumer : Option Uuid} (same : owner = tenant)
      (belongs : Belongs a owner consumer) : Belongs b owner consumer := by
    intro id eq
    obtain ⟨c, found, tenant_⟩ := belongs id eq
    exact ⟨c, mirror.agree.find found (tenant_.trans same), tenant_⟩
  cases r with
  | endpoint e => exact scope (Option.some.inj own) homed
  | event e => exact scope (Option.some.inj own) homed
  | delivery d =>
    obtain ⟨ev, found, tenant_⟩ := homed
    exact ⟨ev, mirror.agree.find found (tenant_.trans (Option.some.inj own)), tenant_⟩
  | attempt | deadLetter | apiKey | inbound => cases own
  | source | consumer => trivial

theorem insert (mirror : Mirror tenant coming a b) {x : α}
    (left : ∀ y ∈ a.rows, schema.Clash y (Record.row x) → y.owner = some tenant)
    (right : ∀ y ∈ b.rows, schema.Clash y (Record.row x) → y.owner = some tenant) :
    Store.insert a x = Store.insert b x := by
  have carries {a b : Db} (agree : Agree tenant a b)
      (own : ∀ y ∈ b.rows, schema.Clash y (Record.row x) → y.owner = some tenant)
      (free : a.get? (Record.row x).key = none ∧ a.Admits (Record.row x)) :
      b.get? (Record.row x).key = none ∧ b.Admits (Record.row x) := by
    constructor
    · refine Txn.Store.get?_none.mpr fun y mem same => ?_
      exact Txn.Store.get?_none.mp free.1 y (agree.symm.mem mem (own y mem (.inl same))) same
    · intro y mem other clash
      exact free.2 y (agree.symm.mem mem (own y mem clash)) other clash
  have same := propext (Iff.intro (carries mirror.agree right) (carries mirror.agree.symm left))
  simp only [Store.insert, same]

theorem insert_plain (mirror : Mirror tenant coming a b) {x : α} (plain : (Record.row x).index = [])
    (comes : coming (Record.id x)) : Store.insert a x = Store.insert b x := by
  have mine {db : Db} (free : ∀ y ∈ db.rows, coming y.key.id → y.owner = some tenant) (y : Row)
      (mem : y ∈ db.rows) (clash : schema.Clash y (Record.row x)) : y.owner = some tenant := by
    rcases clash with same | ⟨i, _, own⟩
    · refine free y mem ?_
      rw [show y.key = (Record.row x).key from same, Record.key_row]
      exact comes
    · rw [show schema.index (Record.row x) = [] from plain] at own
      cases own
  exact mirror.insert (mine mirror.freeLeft) (mine mirror.freeRight)

theorem referencesOpt (mirror : Mirror tenant coming a b) {consumer : Option Uuid}
    (scope : Belongs a tenant consumer) :
    Store.referencesOpt Consumer a consumer = Store.referencesOpt Consumer b consumer := by
  cases consumer with
  | none => rfl
  | some id =>
    obtain ⟨c, found, own⟩ := scope id rfl
    rw [Store.referencesOpt, Store.referencesOpt, references_ok found,
      references_ok (mirror.agree.find found own)]

variable {now : Time} {id : Uuid} {consumer : Option Uuid}

theorem createEndpoint (mirror : Mirror tenant coming a b) (comes : coming id)
    (scope : Belongs a tenant consumer) (url secret : String) (types : Option (List String)) :
    Store.createEndpoint id tenant consumer url secret types now a =
      Store.createEndpoint id tenant consumer url secret types now b := by
  simp only [Store.createEndpoint, mirror.referencesOpt scope]
  rw [mirror.insert_plain (α := Endpoint) rfl comes]

theorem insertEvent (mirror : Mirror tenant coming a b) (comes : coming id)
    (scope : Belongs a tenant consumer) (type : String) (payload : Value) :
    Store.insertEvent id tenant consumer type payload now a =
      Store.insertEvent id tenant consumer type payload now b := by
  simp only [Store.insertEvent, mirror.referencesOpt scope]
  rw [mirror.insert_plain (α := Event) rfl comes]

theorem insertDelivery (mirror : Mirror tenant coming a b) (comes : coming id)
    {event endpoint : Uuid} {ev : Event} {e : Endpoint} (found : a.find? event = some ev)
    (own : ev.tenantId = tenant)
    (target : a.find? endpoint = some e) (target_own : e.tenantId = tenant) :
    Store.insertDelivery id event endpoint tenant now a =
      Store.insertDelivery id event endpoint tenant now b := by
  have found' := mirror.agree.find found own
  have target' := mirror.agree.find target target_own
  simp only [Store.insertDelivery, references_ok found, references_ok found', references_ok target,
    references_ok target']
  have mine {db : Db} (whole : Sealed db)
      (free : ∀ y ∈ db.rows, coming y.key.id → y.owner = some tenant)
        (found : db.find? event = some ev)
      (y : Row) (mem : y ∈ db.rows)
      (clash : schema.Clash y (.delivery (Store.newDelivery id event endpoint tenant now))) :
      y.owner = some tenant := by
    rcases clash with same | ⟨i, held, there⟩
    · refine free y mem ?_
      rw [show y.key = ⟨.deliveries, id⟩ from same]
      exact comes
    · -- a delivery of the same event is one of its tenant
      obtain rfl : i = .delivery event endpoint := List.mem_singleton.mp there
      cases y with
      | delivery d =>
        obtain ⟨same, _⟩ := Index.delivery.inj (List.mem_singleton.mp held)
        obtain ⟨ev', there, tenant_⟩ : Homed db (.delivery d) := whole _ mem
        rw [← same, found] at there
        cases there
        exact congrArg some (tenant_.symm.trans own)
      | inbound x => cases key : x.sourceEventId <;> simp [schema, Row.index, key] at held
      | _ => simp [schema, Row.index] at held
  have same := mirror.insert (x := Store.newDelivery id event endpoint tenant now)
    (mine mirror.sealLeft mirror.freeLeft found) (mine mirror.sealRight mirror.freeRight found')
  exact congrArg (fun inserted => inserted >>= fun ws => Except.ok ((), ws)) same

theorem createConsumer_eq (id : Uuid) (uid : String) (name : Option String) (db : Db) :
    Store.createConsumer id tenant uid name now db =
      match Store.getConsumer tenant uid db with
      | some c => .ok ({ c with name := name.or c.name, updatedAt := now },
          [Store.amended c { c with name := name.or c.name, updatedAt := now }])
      | none => (Store.insert db (⟨id, tenant, uid, name, now, now⟩ : Consumer)).map
          fun ws => (⟨id, tenant, uid, name, now, now⟩, ws) := by
  rw [Store.createConsumer, Store.getConsumer]
  cases Store.select db fun c : Consumer => c.tenantId = tenant ∧ c.uid = uid with
  | nil =>
    dsimp only [List.head?_nil]
    cases Store.insert db (⟨id, tenant, uid, name, now, now⟩ : Consumer) <;> rfl
  | cons c rest => rfl

theorem createConsumer (mirror : Mirror tenant coming a b) (comes : coming id) (uid : String)
    (name : Option String) :
    Store.createConsumer id tenant uid name now a = Store.createConsumer id tenant uid name
      now b := by
  have mine {db : Db} (free : ∀ y ∈ db.rows, coming y.key.id → y.owner = some tenant) (y : Row)
      (mem : y ∈ db.rows) (clash : schema.Clash y (.consumer ⟨id, tenant, uid, name, now, now⟩)) :
      y.owner = some tenant := by
    rcases clash with same | ⟨i, held, there⟩
    · refine free y mem ?_
      rw [show y.key = ⟨.consumers, id⟩ from same]
      exact comes
    · obtain rfl : i = .consumer tenant uid := List.mem_singleton.mp there
      cases y with
      | consumer c => exact congrArg some (Index.consumer.inj (List.mem_singleton.mp held)).1.symm
      | inbound x => cases key : x.sourceEventId <;> simp [schema, Row.index, key] at held
      | _ => simp [schema, Row.index] at held
  rw [createConsumer_eq, createConsumer_eq, mirror.getConsumer uid,
    mirror.insert (x := (⟨id, tenant, uid, name, now, now⟩ : Consumer)) (mine mirror.freeLeft)
      (mine mirror.freeRight)]

theorem update (mirror : Mirror tenant coming a b) {guard : α → Bool} {set : α → α}
    (left : ∀ x, a.find? id = some x → guard x = true → Tenanted.tenant x = tenant)
    (right : ∀ x, b.find? id = some x → guard x = true → Tenanted.tenant x = tenant) :
    Store.update a id guard set = Store.update b id guard set := by
  rcases Store.update_cases a id guard set with ⟨x, found, picked, ran⟩ | ⟨none, ran⟩
  · have found' := mirror.agree.find found (left x found picked)
    rw [ran, Store.update, found']
    simp only [picked, if_true]
  · rcases Store.update_cases b id guard set with ⟨x, found, picked, _⟩ | ⟨_, ran'⟩
    · have found' := mirror.agree.symm.find found (right x found picked)
      rw [none x found'] at picked
      cases picked
    · rw [ran, ran']

theorem updateEndpoint (mirror : Mirror tenant coming a b) (id : Uuid) (url : Option String)
    (disabled : Option Bool) (types : Option (List String)) :
    Store.updateEndpoint id tenant url disabled types now a =
      Store.updateEndpoint id tenant url disabled types now b :=
  mirror.update (fun _ _ own => of_decide_eq_true own) fun _ _ own => of_decide_eq_true own

theorem resetForReplay (mirror : Mirror tenant coming a b) {d : Delivery}
    (found : a.find? id = some d) (own : d.tenantId = tenant) :
    Store.resetForReplay id now a = Store.resetForReplay id now b := by
  have found' := mirror.agree.find found own
  simp only [Store.resetForReplay]
  rw [mirror.update (fun x here _ => ?_) fun x here _ => ?_]
  · cases found.symm.trans here
    exact own
  · cases found'.symm.trans here
    exact own

end Writes

end Mirror

section Mine

variable {α : Type} [Tenanted α] {tenant : String} {coming : Uuid → Prop} {db a b : Db}
  {ws : List Write} {now : Time} {id : Uuid}

/-- Writes that are rows of the tenant, and refer to its rows. -/
def Mine (tenant : String) (db : Db) (ws : List Write) : Prop :=
  ∀ w ∈ ws, w.after.owner = some tenant ∧ Homed db w.after

theorem mine_insert {x : α} (own : Tenanted.tenant x = tenant) (homed : Homed db (Record.row x))
    (inserted : Store.insert db x = .ok ws) : Mine tenant db ws := by
  intro w mem
  obtain rfl := Store.mem_insert inserted mem
  exact ⟨(Tenanted.owner_row x).trans (congrArg some own), homed⟩

theorem mine_amended (whole : Sealed db) {x x' : α} (found : db.find? (Record.id x) = some x)
    (own : Tenanted.tenant x = tenant) (same : (Record.row x').frozen = (Record.row x).frozen) :
    Mine tenant db [Store.amended x x'] := by
  intro w mem
  obtain rfl := List.mem_singleton.mp mem
  refine ⟨(owner_frozen same).trans ((Tenanted.owner_row x).trans (congrArg some own)), ?_⟩
  exact (homed_frozen same).mpr (whole _ (Txn.Store.get?_some (Db.find?_eq_some.mp found)).1)

theorem mine_update (whole : Sealed db) {guard : α → Bool} {set : α → α}
    (own : ∀ x, db.find? id = some x → guard x = true → Tenanted.tenant x = tenant)
    (same : ∀ x, (Record.row (set x)).frozen = (Record.row x).frozen) :
    Mine tenant db (Store.update db id guard set).2 := by
  rcases Store.update_cases db id guard set with ⟨x, found, picked, ran⟩ | ⟨_, ran⟩
  · rw [ran]
    exact mine_amended whole (Db.mem_all.mp (Db.mem_all_of_find? found)) (own x found picked)
      (same x)
  · rw [ran]
    exact fun w none => (List.not_mem_nil none).elim

theorem Takes.of_accepts {w : Write} (accepts : db.Accepts w)
    (keeps : ∀ old, w.before = some old → w.after.frozen = old.frozen) : Takes db w.after :=
  ⟨accepts.2, fun old found => keeps old (accepts.1.symm.trans found)⟩

theorem Mirror.mine (mirror : Mirror tenant coming a b) (mine : Mine tenant a ws) :
    Mine tenant b ws :=
  fun w mem => ⟨(mine w mem).1, mirror.homed (mine w mem).1 (mine w mem).2⟩

theorem Mirror.apply (mirror : Mirror tenant coming a b) (left : a.Valid ws) (right : b.Valid ws)
    (keeps : ∀ w ∈ ws, ∀ old, w.before = some old → w.after.frozen = old.frozen)
    (mine : Mine tenant a ws) : Mirror tenant coming (a.apply ws) (b.apply ws) := by
  induction ws generalizing a b with
  | nil => exact mirror
  | cons w ws ih =>
    obtain ⟨own, homed⟩ := mine w List.mem_cons_self
    have takes := Takes.of_accepts left.1 (keeps w List.mem_cons_self)
    have takes' := Takes.of_accepts right.1 (keeps w List.mem_cons_self)
    refine ih (mirror.put own takes takes' homed (mirror.homed own homed)) left.2 right.2
      (fun v mem => keeps v (List.mem_cons_of_mem _ mem)) fun v mem => ?_
    obtain ⟨own', homed'⟩ := mine v (List.mem_cons_of_mem _ mem)
    exact ⟨own', homed'.kept takes.keeps⟩

theorem Mine.others (mine : Mine tenant db ws) (valid : db.Valid ws)
    (keeps : ∀ w ∈ ws, ∀ old, w.before = some old → w.after.frozen = old.frozen) {other : String}
    (apart : other ≠ tenant) : Agree other db (db.apply ws) := by
  induction ws generalizing db with
  | nil => exact agree_refl other db
  | cons w ws ih =>
    obtain ⟨own, _⟩ := mine w List.mem_cons_self
    have takes := Takes.of_accepts valid.1 (keeps w List.mem_cons_self)
    refine (agree_other takes own apart).trans (ih (fun v mem => ?_) valid.2 fun v mem =>
      keeps v (List.mem_cons_of_mem _ mem))
    obtain ⟨own', homed'⟩ := mine v (List.mem_cons_of_mem _ mem)
    exact ⟨own', homed'.kept takes.keeps⟩

end Mine

end Dropless
