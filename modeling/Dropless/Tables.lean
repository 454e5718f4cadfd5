import Dropless.Store

set_option linter.unusedSectionVars false

namespace Dropless

open Txn.Store (get?_put get?_some get?_of_mem)

namespace Db

variable {α β : Type} [Record α] [Record β] {db : Db}

theorem find?_eq_some {id : Uuid} {a : α} :
    db.find? id = some a ↔ db.get? ⟨Record.table α, id⟩ = some (Record.row a) := by
  simp only [find?, Option.bind_eq_some_iff, Record.ofRow_iff]
  constructor
  · rintro ⟨r, hr, rfl⟩
    exact hr
  · exact fun h => ⟨_, h, rfl⟩

theorem find?_id {id : Uuid} {a : α} (h : db.find? id = some a) : Record.id a = id := by
  have key := (get?_some (find?_eq_some.mp h)).2
  have eq : (⟨Record.table α, Record.id a⟩ : Key) = ⟨Record.table α, id⟩ :=
    (Record.key_row a).symm.trans key
  exact (Key.mk.injEq .. ▸ eq).2

theorem find?_none {id : Uuid} :
    (db.find? id : Option α) = none ↔ db.get? ⟨Record.table α, id⟩ = none := by
  constructor
  · intro h
    cases hr : db.get? ⟨Record.table α, id⟩ with
    | none => rfl
    | some r =>
      have key := (get?_some hr).2
      have typed : (Record.ofRow r : Option α).isSome :=
        Record.ofRow_table (congrArg Key.table key)
      simp [find?, hr] at h
      simp [h] at typed
  · intro h
    simp [find?, h]

theorem mem_all {a : α} : a ∈ db.all α ↔ db.find? (Record.id a) = some a := by
  rw [find?_eq_some, ← Record.key_row a]
  simp only [all, List.mem_filterMap, Record.ofRow_iff]
  constructor
  · rintro ⟨r, hr, rfl⟩
    exact get?_of_mem hr
  · exact fun h => ⟨_, (get?_some h).1, rfl⟩

theorem mem_all_of_find? {id : Uuid} {a : α} (h : db.find? id = some a) : a ∈ db.all α := by
  rw [mem_all, find?_id h]
  exact h

/- Rows that share an entry of a unique index are the same. -/
theorem eq_of_index {a b : α} {i : Index} (here : a ∈ db.all α) (there : b ∈ db.all α)
    (left : i ∈ (Record.row a).index) (right : i ∈ (Record.row b).index) : a = b := by
  have found := mem_all.mp here
  have found' := mem_all.mp there
  by_cases same : Record.id a = Record.id b
  · exact Option.some.inj ((same ▸ found).symm.trans found')
  · have other : (Record.row a).key ≠ (Record.row b).key := by
      rw [Record.key_row, Record.key_row]
      exact fun eq => same (Key.mk.inj eq).2
    exact (Txn.Store.apart_of_key_ne (get?_some (find?_eq_some.mp found)).1
      (get?_some (find?_eq_some.mp found')).1 other (.inr ⟨i, left, right⟩)).elim

theorem find?_put {a : α} (fits : db.Admits (Record.row a)) (id : Uuid) :
    find? (db.put (Record.row a)) id = if Record.id a = id then some a else db.find? id := by
  simp only [find?]
  rw [get?_put fits]
  have key : schema.key (Record.row a) = ⟨Record.table α, Record.id a⟩ := Record.key_row a
  by_cases h : Record.id a = id
  · have own : Record.ofRow (Record.row a) = some a := Record.ofRow_iff.mpr rfl
    simp [key, h, own]
  · simp [key, h]

theorem place_fresh (r : Row) {xs : List Row} (fresh : ∀ x ∈ xs, x.key ≠ r.key) :
    Txn.Store.place schema r xs = xs ++ [r] := by
  induction xs with
  | nil => rfl
  | cons x xs ih =>
    have head : schema.key x ≠ schema.key r := fresh x List.mem_cons_self
    simp only [Txn.Store.place, if_neg head, List.cons_append]
    rw [ih fun y hy => fresh y (List.mem_cons_of_mem _ hy)]

theorem all_put_fresh {a : α} (fresh : db.get? (Record.row a).key = none)
    (fits : db.Admits (Record.row a)) : all α (db.put (Record.row a)) = db.all α ++ [a] := by
  have own : Record.ofRow (Record.row a) = some a := Record.ofRow_iff.mpr rfl
  simp only [all, Txn.Store.put_rows fits, place_fresh _ (Txn.Store.get?_none.mp fresh),
    List.filterMap_append, List.filterMap_cons, List.filterMap_nil, own]

theorem find?_apply_outside {ws : List Write} (valid : db.Valid ws)
    (other : ∀ w ∈ ws, w.after.key.table ≠ Record.table α) (id : Uuid) :
    find? (db.apply ws) id = (db.find? id : Option α) := by
  simp only [find?]
  rw [Txn.Store.get?_apply_of_ne valid]
  exact fun w hw eq => other w hw (congrArg Key.table eq)

theorem ofRow_none {r : Row} (other : r.key.table ≠ Record.table α) :
    (Record.ofRow r : Option α) = none := by
  cases h : (Record.ofRow r : Option α) with
  | none => rfl
  | some a =>
    rw [Record.ofRow_iff.mp h, Record.key_row] at other
    exact absurd rfl other

theorem filterMap_place_outside {r : Row} (other : r.key.table ≠ Record.table α) (xs : List Row) :
    (Txn.Store.place schema r xs).filterMap (Record.ofRow (α := α)) =
      xs.filterMap Record.ofRow := by
  have own : (Record.ofRow r : Option α) = none := ofRow_none other
  induction xs with
  | nil => simp [Txn.Store.place, own]
  | cons x xs ih =>
    simp only [Txn.Store.place]
    split
    · rename_i same
      have gone : (Record.ofRow x : Option α) = none := by
        refine ofRow_none ?_
        rw [show x.key = r.key from same]
        exact other
      simp [own, gone]
    · simp only [List.filterMap_cons, ih]

/-- A table that a write set only appends to. -/
theorem all_apply_fresh {ws : List Write} (valid : db.Valid ws)
    (fresh : ∀ w ∈ ws, w.after.key.table = Record.table α → w.before = none) :
    all α (db.apply ws) = db.all α ++ ws.filterMap fun w => Record.ofRow w.after := by
  induction ws generalizing db with
  | nil => simp [Txn.Store.apply]
  | cons w ws ih =>
    obtain ⟨⟨before, fits⟩, rest⟩ := valid
    have first : all α (db.put w.after) = db.all α ++ (Record.ofRow w.after).toList := by
      by_cases here : w.after.key.table = Record.table α
      · obtain ⟨a, ha⟩ := Option.isSome_iff_exists.mp (Record.ofRow_table here)
        have row := Record.ofRow_iff.mp ha
        rw [fresh w List.mem_cons_self here] at before
        rw [ha, row]
        exact all_put_fresh (row ▸ before) (row ▸ fits)
      · simp only [all, Txn.Store.put_rows fits, ofRow_none here, Option.toList_none,
          List.append_nil]
        exact filterMap_place_outside here _
    rw [Txn.Store.apply, ih rest fun v hv => fresh v (List.mem_cons_of_mem _ hv), first,
      List.append_assoc]
    cases h : (Record.ofRow w.after : Option α) <;> simp [h]

theorem all_put_outside {r : Row} (fits : db.Admits r) (other : r.key.table ≠ Record.table α) :
    all α (db.put r) = db.all α := by
  rw [all, Txn.Store.put_rows fits]
  exact filterMap_place_outside other _

theorem find?_put_outside {r : Row} (fits : db.Admits r) (other : r.key.table ≠ Record.table α)
    (id : Uuid) : find? (db.put r) id = (db.find? id : Option α) := by
  rw [find?, Txn.Store.get?_put fits, if_neg fun same => other (congrArg Key.table same)]
  rfl

theorem filterMap_outside {ws : List Write}
    (other : ∀ w ∈ ws, w.after.key.table ≠ Record.table α) :
    (ws.filterMap fun w => (Record.ofRow w.after : Option α)) = [] :=
  List.filterMap_eq_nil_iff.mpr fun w hw => ofRow_none (other w hw)

theorem all_apply_outside {ws : List Write} (valid : db.Valid ws)
    (other : ∀ w ∈ ws, w.after.key.table ≠ Record.table α) : all α (db.apply ws) = db.all α := by
  rw [all_apply_fresh valid fun w hw same => absurd same (other w hw), filterMap_outside other,
    List.append_nil]

theorem column_apply {γ : Type} {f : α → γ} {ws : List Write} (valid : db.Valid ws)
    (keeps : ∀ w ∈ ws, ∀ a : α, w.after = Record.row a →
      ∃ b : α, w.before = some (Record.row b) ∧ f a = f b) (id : Uuid) :
    (find? (db.apply ws) id).map f = (find? db id).map f := by
  induction ws generalizing db with
  | nil => rfl
  | cons w ws ih =>
    obtain ⟨⟨before, fits⟩, rest⟩ := valid
    rw [Txn.Store.apply, ih rest fun v mem => keeps v (List.mem_cons_of_mem _ mem)]
    by_cases here : w.after.key.table = Record.table α
    · obtain ⟨a, typed⟩ := Option.isSome_iff_exists.mp (Record.ofRow_table here)
      have row := Record.ofRow_iff.mp typed
      obtain ⟨b, old, same⟩ := keeps w List.mem_cons_self a row
      rw [row] at before fits ⊢
      rw [find?_put fits]
      split
      · rename_i own
        subst own
        have found : db.find? (Record.id a) = some b := by
          refine find?_eq_some.mpr ?_
          rw [← Record.key_row a, ← old]
          exact before
        rw [found, Option.map_some, Option.map_some, same]
      · rfl
    · rw [find?_put_outside fits here]

end Db

namespace Store

variable {α : Type} [Record α] {db : Db}

theorem insert_ok {a : α} {ws : List Write} (h : insert db a = .ok ws) :
    ws = [⟨none, Record.row a⟩] ∧ db.get? (Record.row a).key = none ∧ db.Admits (Record.row a) := by
  simp only [insert] at h
  split at h
  · rename_i free
    cases h
    exact ⟨rfl, free⟩
  · cases h

theorem update_cases (db : Db) (id : Uuid) (guard : α → Bool) (set : α → α) :
    (∃ a, db.find? id = some a ∧ guard a = true ∧
      update db id guard set = (some (set a), [amended a (set a)])) ∨
    ((∀ a, db.find? id = some a → guard a = false) ∧ update db id guard set = (none, [])) := by
  simp only [update]
  cases found : (db.find? id : Option α) with
  | none =>
    refine .inr ⟨fun a ha => ?_, rfl⟩
    cases ha
  | some a =>
    cases ok : guard a with
    | true => exact .inl ⟨a, rfl, ok, by simp [ok]⟩
    | false =>
      refine .inr ⟨fun b hb => ?_, by simp [ok]⟩
      cases hb
      exact ok

theorem mem_select {p : α → Bool} {a : α} :
    a ∈ select db p ↔ db.find? (Record.id a) = some a ∧ p a = true := by
  simp only [select, List.mem_filter, Db.mem_all]

theorem mem_orderBy {time : α → Time} {rows : List α} {a : α} :
    a ∈ orderBy time rows ↔ a ∈ rows := (List.perm_insertionSort _ rows).mem_iff

theorem getConsumer_iff {tenant uid : String} {c : Consumer} :
    getConsumer tenant uid db = some c ↔
      db.find? c.id = some c ∧ c.tenantId = tenant ∧ c.uid = uid := by
  constructor
  · intro first
    obtain ⟨found, own⟩ := mem_select.mp (List.mem_of_head? first)
    exact ⟨found, of_decide_eq_true own⟩
  · rintro ⟨found, rfl, rfl⟩
    have member : c ∈ select db fun x : Consumer => x.tenantId = c.tenantId ∧ x.uid = c.uid :=
      mem_select.mpr ⟨found, decide_eq_true ⟨rfl, rfl⟩⟩
    obtain ⟨head, rest, rows⟩ := List.exists_cons_of_ne_nil (List.ne_nil_of_mem member)
    obtain ⟨there, own⟩ := mem_select.mp (rows ▸ List.mem_cons_self : head ∈ select _ _)
    obtain ⟨left, right⟩ := of_decide_eq_true own
    have unique : head = c := by
      refine Db.eq_of_index (i := .consumer c.tenantId c.uid) (Db.mem_all.mpr there)
        (Db.mem_all.mpr found) ?_ (List.mem_singleton_self _)
      exact List.mem_singleton.mpr (by rw [left, right])
    rw [getConsumer, rows, unique]
    rfl

theorem all_nodup (db : Db) : ((db.all α).map Record.id).Nodup := by
  have rows : (db.rows.map Row.key).Nodup := by
    rw [List.Nodup, List.pairwise_map]
    refine db.apart.imp ?_
    intro a b free same
    exact free (.inl same)
  simp only [Db.all]
  revert rows
  generalize db.rows = xs
  intro rows
  induction xs with
  | nil => exact List.nodup_nil
  | cons x xs ih =>
    obtain ⟨fresh, rest⟩ := List.nodup_cons.mp rows
    cases h : (Record.ofRow x : Option α) with
    | none => simpa [List.filterMap_cons, h] using ih rest
    | some a =>
      simp only [List.filterMap_cons, h, List.map_cons, List.nodup_cons]
      refine ⟨?_, ih rest⟩
      intro mem
      obtain ⟨b, hb, same⟩ := List.mem_map.mp mem
      obtain ⟨y, hy, eq⟩ := List.mem_filterMap.mp hb
      have keys : y.key = x.key := by
        rw [Record.ofRow_iff.mp eq, Record.ofRow_iff.mp h, Record.key_row, Record.key_row, same]
      exact fresh (keys ▸ List.mem_map_of_mem hy)

theorem claimDueDeliveries_ok {workerId : String} {batch : Int} {lockSecs : Int32} {now : Time}
    {skipped : List Uuid} {out : List Delivery} {ws : List Write}
    (h : claimDueDeliveries workerId batch lockSecs now skipped db = .ok (out, ws)) :
    ∃ picked : List Delivery, (picked.map Delivery.id).Nodup ∧
      (∀ d ∈ picked, db.find? d.id = some d ∧ due now d = true ∧ d.id ∉ skipped) ∧
      out = picked.map (claim workerId lockSecs now) ∧
      ws = picked.map fun d => amended d (claim workerId lockSecs now d) := by
  simp only [claimDueDeliveries] at h
  split at h
  · cases h
  · cases h
    refine ⟨_, ?_, ?_, rfl, rfl⟩
    · refine List.Nodup.sublist ((List.take_sublist _ _).map _) ?_
      have sorted := (List.perm_insertionSort
        (fun a b : Delivery => a.nextAttemptAt ≤ b.nextAttemptAt)
        (select db fun d => due now d ∧ d.id ∉ skipped)).map Delivery.id
      refine sorted.nodup_iff.mpr ?_
      exact (all_nodup (α := Delivery) db).sublist (List.filter_sublist.map _)
    · intro d hd
      have mem := mem_orderBy.mp (List.mem_of_mem_take hd)
      obtain ⟨found, ok⟩ := mem_select.mp mem
      simp only [decide_eq_true_eq] at ok
      exact ⟨found, ok⟩

end Store

end Dropless
