import Dropless.Scopes
import Dropless.Txn.Ties

namespace Dropless

variable {κ : Prims} {cfg : DispatcherConfig} {cond : State → State → Prop} {db : Db} {s : State}
  {d : Delivery} {ev : Event} {e : Endpoint}

def broken (db : Db) : List Delivery :=
  Store.select db fun d => d.status = .failed ∨ d.status = .dead

def failureOf (d : Delivery) (ev : Event) (e : Endpoint) : Store.RecentFailure where
  tenantId := d.tenantId
  eventType := ev.eventType
  endpointUrl := e.url
  status := d.status
  attemptCount := d.attemptCount
  lastError := d.lastError
  updatedAt := d.updatedAt
  deliveryId := d.id

theorem recentFailure_some (aligned : Aligned db d ev e) :
    Store.recentFailure db d = some (failureOf d ev e) := by
  simp [Store.recentFailure, failureOf, aligned.event, aligned.endpoint]

theorem mem_broken (mem : d ∈ broken db) : Db.find? db d.id = some d :=
  (Store.mem_select.mp mem).1

/- The joins lose no delivery. -/
theorem joined_ids (reach : Run κ cfg cond .empty s) :
    ((broken s.db).filterMap (Store.recentFailure s.db)).map (·.deliveryId) =
      (broken s.db).map (·.id) := by
  rw [List.map_filterMap, ← List.filterMap_eq_map]
  refine List.filterMap_congr fun d mem => ?_
  obtain ⟨ev, e, aligned⟩ := reach_aligned reach d.id d (mem_broken mem)
  rw [recentFailure_some aligned]
  rfl

/-- The feed of the operator. In every reachable state it shows as many of the failed and dead
deliveries as the limit lets through, each once, the last changed first, each with the type of
its own event and the URL of its own endpoint, which are of its tenant; what it leaves out
changed no later than anything it shows. -/
theorem operator_feed (κ : Prims) (cfg : DispatcherConfig) (s : State)
    (reach : Run κ cfg Txn.anyStep .empty s) (limit : Nat) :
    (Store.adminRecentFailures limit s.db).length = min limit (broken s.db).length ∧
    ((Store.adminRecentFailures limit s.db).map (·.deliveryId)).Nodup ∧
    (Store.adminRecentFailures limit s.db).Pairwise (fun a b => b.updatedAt ≤ a.updatedAt) ∧
    (∀ f ∈ Store.adminRecentFailures limit s.db, ∃ d ∈ broken s.db, ∃ ev e,
      Aligned s.db d ev e ∧ f = failureOf d ev e) ∧
    ∀ d ∈ broken s.db, d.id ∈ (Store.adminRecentFailures limit s.db).map (·.deliveryId) ∨
      ((Store.adminRecentFailures limit s.db).length = limit ∧
        ∀ f ∈ Store.adminRecentFailures limit s.db, d.updatedAt ≤ f.updatedAt) := by
  have ids := joined_ids reach
  have shown : ∀ f, f ∈ (broken s.db).filterMap (Store.recentFailure s.db) ↔
      ∃ d ∈ broken s.db, ∃ ev e, Aligned s.db d ev e ∧ f = failureOf d ev e := by
    intro f
    rw [List.mem_filterMap]
    constructor
    · rintro ⟨d, mem, row⟩
      obtain ⟨ev, e, aligned⟩ := reach_aligned reach d.id d (mem_broken mem)
      rw [recentFailure_some aligned] at row
      exact ⟨d, mem, ev, e, aligned, (Option.some.inj row).symm⟩
    · rintro ⟨d, mem, ev, e, aligned, rfl⟩
      exact ⟨d, mem, recentFailure_some aligned⟩
  unfold Store.adminRecentFailures
  rw [show (Store.select s.db fun d : Delivery => d.status = .failed ∨ d.status = .dead) =
    broken s.db from rfl]
  generalize (broken s.db).filterMap (Store.recentFailure s.db) = rows at ids shown
  have perm := List.perm_insertionSort
    (fun a b : Store.RecentFailure => b.updatedAt ≤ a.updatedAt) rows
  have sorted : (rows.insertionSort fun a b => b.updatedAt ≤ a.updatedAt).Pairwise
      fun a b => b.updatedAt ≤ a.updatedAt := List.pairwise_insertionSort _ _
  generalize rows.insertionSort (fun a b => b.updatedAt ≤ a.updatedAt) = feed at perm sorted
  have size : feed.length = (broken s.db).length := by
    rw [perm.length_eq, ← List.length_map (·.deliveryId), ids, List.length_map]
  refine ⟨?_, ?_, ?_, ?_, ?_⟩
  · rw [List.length_take, size]
  · have apart : ((broken s.db).map (·.id)).Nodup :=
      (Store.all_nodup (α := Delivery) s.db).sublist (List.filter_sublist.map _)
    rw [← ids, ← (perm.map _).nodup_iff] at apart
    exact apart.sublist ((List.take_sublist _ _).map _)
  · exact sorted.sublist (List.take_sublist _ _)
  · intro f mem
    exact (shown f).mp (perm.mem_iff.mp (List.mem_of_mem_take mem))
  · intro d mem
    obtain ⟨ev, e, aligned⟩ := reach_aligned reach d.id d (mem_broken mem)
    have here := perm.mem_iff.mpr ((shown _).mpr ⟨d, mem, ev, e, aligned, rfl⟩)
    refine (Txn.mem_take_sorted sorted here).imp_left fun first => ?_
    exact List.mem_map.mpr ⟨_, first, rfl⟩

theorem operator_feed_refused : ∃ s : State, Run plain Dispatcher.default Txn.anyStep .empty s ∧
    (broken s.db).map (·.id) = [3] ∧
    3 ∈ (Store.adminRecentFailures 100 s.db).map (·.deliveryId) := by
  have played : ((replay plain Dispatcher.default (.start .empty)
      (published ++ refused (.worker 0 0) 0 1 4)).map fun s => (broken s.db).map (·.id)) =
      some [3] := by decide +kernel
  obtain ⟨s, replayed, ids⟩ := Option.map_eq_some_iff.mp played
  have reach : Run plain Dispatcher.default Txn.anyStep .empty s := replay_reach replayed
  have single : (broken s.db).length = 1 := by
    rw [← List.length_map (·.id), ids]
    rfl
  obtain ⟨length, _, _, _, all⟩ := operator_feed plain Dispatcher.default s reach 100
  obtain ⟨d, mem, own⟩ := List.mem_map.mp (ids ▸ List.mem_singleton_self 3)
  refine ⟨s, reach, ids, ?_⟩
  rcases all d mem with here | ⟨full, _⟩
  · exact own ▸ here
  · rw [length, single] at full
    cases full

end Dropless
