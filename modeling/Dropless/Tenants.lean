import Dropless.Breaker
import Dropless.RateLimit
import Dropless.Slices

set_option linter.unusedSectionVars false

namespace Dropless

open Txn (Durable)

section Runs

variable {κ : Prims} {cfg : DispatcherConfig} {cond : State → State → Prop} {s : State} {pid : Pid}
  {p : Proc} {tx : Txn.Tx Row Time lang}

theorem endpoint_scoped (durable : Durable (protocol κ cfg) s pid p tx) {id : Uuid} {e : Endpoint}
    (absent : Db.find? s.db id = (none : Option Endpoint))
    (found : Db.find? (s.db.apply tx.writes) id = some e) :
    Scoped p.calls e.tenantId e.consumerId := by
  obtain ⟨d, ran_, b, mem, frozen⟩ := unit_inserted durable absent found
  have fixed := Endpoint.fixed frozen
  obtain ⟨c, view, exec⟩ := durable.ran d ran_
  obtain ⟨old, none, rewired⟩ := wrote_endpoint exec mem rfl
  obtain ⟨q, out, ws⟩ := d
  cases rewired with
  | patched | settled | probed => cases none
  | @created id' tenant consumer url secret types _ _ =>
    have made : out.tenantId = tenant ∧ out.consumerId = consumer := by
      obtain ⟨rfl, _⟩ := Store.createEndpoint_ok (Stmt.exec_ok exec)
      exact ⟨rfl, rfl⟩
    rw [fixed.tenantId, fixed.consumerId, made.1, made.2]
    rcases unit_allowed durable with commits | ⟨d, one, alone⟩
    · obtain ⟨_, _, _, _, _, _, eq, _⟩ :=
        commits_endpoints commits (List.mem_map.mpr ⟨_, ran_, rfl⟩) rfl
      cases eq
    · rw [one, List.mem_singleton] at ran_
      subst ran_
      generalize p.job = job at alone
      cases job with
      | claim => cases alone.1
      | processOne => cases alone
      | enqueueMessage | accept => exact alone.elim
      | ingest => cases alone
      | updateEndpoint | resetForReplay | serve | command =>
        cases alone with
        | read quiet => cases quiet
        | createEndpoint scope => exact scope

theorem reach_endpoints (reach : Run κ cfg cond .empty s) :
    ∀ id (e : Endpoint), Db.find? s.db id = some e → Belongs s.db e.tenantId e.consumerId := by
  refine Txn.reach_db (protocol κ cfg) (fun db => ∀ id (e : Endpoint), Db.find? db id = some e →
    Belongs db e.tenantId e.consumerId) .start ?_ ?_ reach
  · intro id e none
    cases none
  intro a pid p tx before durable good id e found
  have kept := fun k r => durable_keeps durable (k := k) (r := r)
  cases here : (Db.find? a.db id : Option Endpoint) with
  | none =>
    exact (scoped_belongs before durable.live (endpoint_scoped durable here found)).kept kept
  | some old =>
    obtain ⟨e', found', frozen⟩ := find_kept kept here
    obtain rfl : e' = e := Option.some.inj (found'.symm.trans found)
    have homed : Homed (a.db.apply tx.writes) (.endpoint old) := (good id old here).kept kept
    exact (homed_frozen frozen).mpr homed

theorem reach_attempts (reach : Run κ cfg cond .empty s) :
    ∀ a ∈ Db.all DeliveryAttempt s.db, ∃ d : Delivery, Db.find? s.db a.deliveryId = some d := by
  refine Txn.reach_db (protocol κ cfg) (fun db => ∀ a ∈ Db.all DeliveryAttempt db,
    ∃ d : Delivery, Db.find? db a.deliveryId = some d) .start
    (fun _ none => (List.not_mem_nil none).elim) ?_ reach
  intro s pid p tx before durable good a mem
  have kept := fun k r => durable_keeps durable (k := k) (r := r)
  rw [all_after (attempts_appended tx.time) durable] at mem
  rcases List.mem_append.mp mem with old | new
  · obtain ⟨d, found⟩ := good a old
    obtain ⟨d', found', _⟩ := find_kept kept found
    exact ⟨d', found'⟩
  · obtain ⟨x, here, made⟩ := List.mem_filterMap.mp new
    unfold attemptOf at made
    split at made
    · cases made
      obtain ⟨d, hd, eq⟩ := List.mem_map.mp here
      obtain ⟨ws, rfl⟩ := Txn.done_of_ran eq
      obtain ⟨pre, post, done⟩ := List.append_of_mem hd
      obtain ⟨c, view, exec, there⟩ := unit_view before durable done
      obtain ⟨d, found⟩ := references_find (Store.recordAttempt_ok (Stmt.exec_ok exec)).1
      obtain ⟨d', found', _⟩ := find_kept there found
      exact ⟨d', found'⟩
    · cases made

/-- In every reachable state rows refer only inside a tenant. -/
theorem reach_sealed (reach : Run κ cfg Offered .empty s) : Sealed s.db := by
  intro r mem
  have found := Txn.Store.get?_of_mem mem
  cases r with
  | endpoint e => exact reach_endpoints reach e.id e (Db.find?_eq_some.mpr found)
  | event ev => exact reach_events reach ev (Db.mem_all.mpr (Db.find?_eq_some.mpr found))
  | delivery d =>
    obtain ⟨ev, e, aligned⟩ := reach_aligned reach d.id d (Db.find?_eq_some.mpr found)
    exact ⟨ev, aligned.event, aligned.tenant.1.symm⟩
  | attempt a => exact reach_attempts reach a (Db.mem_all.mpr (Db.find?_eq_some.mpr found))
  | deadLetter | apiKey | source | inbound | consumer => trivial

end Runs

/- A performance with the limiter of `ratelimit.rs` in it, which is asked at these instants. -/
structure Stage (F : Type) where
  scene : Scene
  limiter : RateLimiter F

section Throttled

variable {F : Type} [Zero F] [One F] [Add F] [Sub F] [Mul F] [Div F] [Min F] [Max F] [LE F]
  [DecidableLE F] [Measures F] (κ : Prims) (cfg : DispatcherConfig) (W : World)
    (instant : Nat → Nat)

def Stage.call (g : Stage F) : (op : Op) → op.Ans × Stage F
  | .env (.rateLimit key) =>
    let (wait, limiter) := g.limiter.checkAt key (instant g.scene.calls)
    (wait.map Measures.print, ⟨{ g.scene with calls := g.scene.calls + 1 }, limiter⟩)
  | op => ((g.scene.call (engine κ cfg) W op).1, ⟨(g.scene.call (engine κ cfg) W op).2, g.limiter⟩)

def playThrough {α : Type} (g : Stage F) : Prog α → α × Stage F
  | .ret a => (a, g)
  | .call op k => playThrough (g.call κ cfg W instant op).2 (k (g.call κ cfg W instant op).1)

def throttled {α : Type} (g : Stage F) (x : Io α) : Except CoreError α × Stage F :=
  playThrough κ cfg W instant g x.run

variable {κ cfg W instant} {α β : Type} {g : Stage F}

theorem playThrough_bind (p : Prog α) (f : α → Prog β) :
    playThrough κ cfg W instant g (p.bind f) =
      playThrough κ cfg W instant (playThrough κ cfg W instant g p).2
        (f (playThrough κ cfg W instant g p).1) := by
  induction p generalizing g with
  | ret a => rfl
  | call op k ih => simp only [Txn.Prog.bind, playThrough, ih]

theorem throttled_ok {x : Io α} {f : α → Io β} {a : α} {h : Stage F}
    (first : throttled κ cfg W instant g x = (.ok a, h)) :
    throttled κ cfg W instant g (x >>= f) = throttled κ cfg W instant h (f a) := by
  refine (playThrough_bind x.run _).trans ?_
  rw [show playThrough κ cfg W instant g x.run = _ from first]
  rfl

theorem throttled_error {x : Io α} {f : α → Io β} {e : CoreError} {h : Stage F}
    (first : throttled κ cfg W instant g x = (.error e, h)) :
    throttled κ cfg W instant g (x >>= f) = (.error e, h) := by
  refine (playThrough_bind x.run _).trans ?_
  rw [show playThrough κ cfg W instant g x.run = _ from first]
  rfl

theorem throttled_outcome (x : Io α) (f : Except CoreError α → Io β) :
    throttled κ cfg W instant g (outcome x >>= f) =
      throttled κ cfg W instant (throttled κ cfg W instant g x).2
        (f (throttled κ cfg W instant g x).1) := by
  refine throttled_ok ?_
  exact playThrough_bind x.run _

def Stage.reply (W : World) (instant : Nat → Nat) (g : Stage F) : (c : Call) → c.Reply
  | .rateLimit key => (g.limiter.checkAt key (instant g.scene.calls)).1.map Measures.print
  | c => W.answer g.scene.calls c

/- Of the limiter a performance knows what it answered, so a world can answer the same. -/
theorem playThrough_world (g : Stage F) (p : Prog α) : ∃ W' : World, W.Timed W' ∧
    Txn.perform (engine κ cfg) W' g.scene p =
      ((playThrough κ cfg W instant g p).1, (playThrough κ cfg W instant g p).2.scene) := by
  induction p generalizing g with
  | ret a => exact ⟨W, ⟨rfl, rfl, rfl⟩, rfl⟩
  | call op k ih =>
    obtain ⟨W', timed, rest⟩ := ih (g.call κ cfg W instant op).1 (g.call κ cfg W instant op).2
    -- the world of the rest, which answers this call as it was answered
    have like : W.Timed (W'.but g.scene.calls (g.reply W instant)) :=
      ⟨timed.time, timed.choice, timed.lost⟩
    have here : g.scene.call (engine κ cfg) (W'.but g.scene.calls (g.reply W instant)) op =
        ((g.call κ cfg W instant op).1, (g.call κ cfg W instant op).2.scene) := by
      cases op with
      | env c => cases c <;> exact Prod.ext (congrFun (Txn.World.but_here _ _) _) rfl
      | begin | commit | rollback | stmt => exact like.call fun c eq => by cases eq
    have next : (g.call κ cfg W instant op).2.scene.calls = g.scene.calls + 1 :=
      (congrArg (fun x => x.2.calls) here).symm.trans (Txn.call_calls _ _)
    refine ⟨_, like, ?_⟩
    rw [Txn.perform, here]
    dsimp only
    refine Eq.trans (Txn.perform_congr (Txn.World.but_timed _ _) _ fun i after => ?_) rest
    rw [next] at after
    exact Txn.World.but_other _ (Nat.ne_of_gt after)

end Throttled

section Scenes

variable {κ : Prims} {cfg : DispatcherConfig} {W : World} {s : Scene} {q : Stmt}

def seen (s : Scene) : Db := s.db.apply ((s.tx.map Txn.Tx.writes).getD [])

theorem seen_outside (outside : s.tx = none) : seen s = s.db := by
  rw [seen, outside]
  rfl

def clock (W : World) (s : Scene) : Time := (s.tx.map Txn.Tx.time).getD (W.time s.calls)

structure Advanced (ws : List Write) (s s' : Scene) : Prop where
  calls : s'.calls = s.calls + 1
  time : s'.tx.map Txn.Tx.time = s.tx.map Txn.Tx.time
  view : seen s' = (seen s).apply ws
  rows : s'.db = if s.tx.isSome then s.db else (seen s).apply ws

theorem exec_ran (κ : Prims) (cfg : DispatcherConfig) {out : q.Out} {ws : List Write}
    (ran : q.exec (clock W s) W.choice (seen s) = .ok (out, ws)) :
    ∃ s', s.exec (engine κ cfg) W q = (.ok out, s') ∧ Advanced ws s s' := by
  obtain ⟨n, db, tx, units⟩ := s
  cases tx with
  | none =>
    have ran : (engine κ cfg).exec q (W.time n) W.choice db = .ok (out, ws) := ran
    refine ⟨⟨n + 1, db.apply ws, none, [⟨q, out⟩] :: units⟩, ?_, rfl, rfl, rfl, rfl⟩
    simp only [Txn.Scene.exec, ran]
  | some tx =>
    have ran : (engine κ cfg).exec q tx.time W.choice (db.apply tx.writes) = .ok (out, ws) := ran
    refine ⟨⟨n + 1, db, some ⟨tx.time, tx.done ++ [⟨q, out, ws⟩]⟩, units⟩, ?_, rfl, rfl, ?_, rfl⟩
    · simp only [Txn.Scene.exec, ran]
    · exact view_push db tx.done ⟨q, out, ws⟩

theorem exec_failed {e : DbError} (ran : q.exec (clock W s) W.choice (seen s) = .error e) :
    s.exec (engine κ cfg) W q = (.error e, ⟨s.calls + 1, s.db, none, s.units⟩) := by
  obtain ⟨n, db, tx, units⟩ := s
  cases tx with
  | none =>
    have ran : (engine κ cfg).exec q (W.time n) W.choice db = .error e := ran
    simp only [Txn.Scene.exec, ran]
  | some tx =>
    have ran : (engine κ cfg).exec q tx.time W.choice (db.apply tx.writes) = .error e := ran
    simp only [Txn.Scene.exec, ran]

end Scenes

/-- One request of a tenant, served from two starts with the same times and ids. -/
structure Trial (F : Type) where
  prims : Prims
  cfg : DispatcherConfig
  world : World
  instant : Nat → Nat
  tenant : String
  left : Stage F
  right : Stage F

section Lockstep

variable {F : Type} [Zero F] [One F] [Add F] [Sub F] [Mul F] [Div F] [Min F] [Max F] [LE F]
  [DecidableLE F] [Measures F] {c : Trial F} {start g g' h h' : Stage F} {α β : Type}

def given (W : World) (id : Uuid) : Prop := ∃ i, W.answer i .newUuid = id

/-- What a performance leaves to the other tenants. -/
structure Spares (tenant : String) (start g : Stage F) : Prop where
  rows : ∀ other, other ≠ tenant → Agree other start.scene.db g.scene.db
  view : ∀ other, other ≠ tenant → Agree other start.scene.db (seen g.scene)
  bucket : ∀ other, other ≠ tenant → g.limiter.buckets other = start.limiter.buckets other

/-- Two performances that the tenant cannot tell apart. -/
structure Twins (c : Trial F) (g g' : Stage F) : Prop where
  calls : g.scene.calls = g'.scene.calls
  time : g.scene.tx.map Txn.Tx.time = g'.scene.tx.map Txn.Tx.time
  rows : Mirror c.tenant (given c.world) g.scene.db g'.scene.db
  view : Mirror c.tenant (given c.world) (seen g.scene) (seen g'.scene)
  rps : g.limiter.rps = g'.limiter.rps
  burst : g.limiter.burst = g'.limiter.burst
  bucket : g.limiter.buckets c.tenant = g'.limiter.buckets c.tenant
  left : Spares c.tenant c.left g
  right : Spares c.tenant c.right g'

def Trial.run (c : Trial F) (g : Stage F) (x : Io α) : Except CoreError α × Stage F :=
  throttled c.prims c.cfg c.world c.instant g x

/-- The programs end with the same result, and what is said of the first one holds. -/
def Alike (c : Trial F) (g g' : Stage F) (x x' : Io α) (Q : Stage F → α → Prop) : Prop :=
  ∃ r h h', c.run g x = (r, h) ∧ c.run g' x' = (r, h') ∧ Twins c h h' ∧ ∀ a, r = .ok a → Q h a

theorem alike_pure {a : α} {Q : Stage F → α → Prop} (twins : Twins c g g') (holds : Q g a) :
    Alike c g g' (pure a) (pure a) Q := by
  refine ⟨.ok a, g, g', rfl, rfl, twins, ?_⟩
  rintro _ ⟨⟩
  exact holds

theorem alike_throw {e : CoreError} {Q : Stage F → α → Prop} (twins : Twins c g g') :
    Alike c g g' (throw e) (throw e) Q := by
  refine ⟨.error e, g, g', rfl, rfl, twins, ?_⟩
  rintro _ ⟨⟩

theorem alike_bind {x x' : Io α} {f f' : α → Io β} {Q : Stage F → α → Prop} {R : Stage F → β → Prop}
    (first : Alike c g g' x x' Q)
    (rest : ∀ h h' a, Twins c h h' → Q h a → Alike c h h' (f a) (f' a) R) :
    Alike c g g' (x >>= f) (x' >>= f') R := by
  obtain ⟨r, h, h', ran, ran', twins, holds⟩ := first
  cases r with
  | error e =>
    refine ⟨.error e, h, h', throttled_error ran, throttled_error ran', twins, ?_⟩
    rintro _ ⟨⟩
  | ok a =>
    obtain ⟨r, k, k', next, next', twins', holds'⟩ := rest h h' a twins (holds a rfl)
    exact ⟨r, k, k', (throttled_ok ran).trans next, (throttled_ok ran').trans next', twins', holds'⟩

structure Unwritten (g h : Stage F) : Prop where
  rows : seen h.scene = seen g.scene
  outside : g.scene.tx = none → h.scene.tx = none

theorem Twins.after (twins : Twins c g g') :
    Twins c ⟨{ g.scene with calls := g.scene.calls + 1 }, g.limiter⟩
    ⟨{ g'.scene with calls := g'.scene.calls + 1 }, g'.limiter⟩ :=
  { twins with
    calls := congrArg (· + 1) twins.calls
    left := ⟨twins.left.rows, twins.left.view, twins.left.bucket⟩
    right := ⟨twins.right.rows, twins.right.view, twins.right.bucket⟩ }

theorem alike_newUuid (twins : Twins c g g') :
    Alike c g g' newUuid newUuid fun h id => given c.world id ∧ Unwritten g h := by
  refine ⟨.ok (c.world.answer g.scene.calls .newUuid), _, _, rfl, ?_, twins.after, ?_⟩
  · rw [twins.calls]
    rfl
  · rintro _ ⟨⟩
    exact ⟨⟨_, rfl⟩, rfl, id⟩

theorem alike_secret (twins : Twins c g g') :
    Alike c g g' (ask .generateSecret) (ask .generateSecret) fun h _ => Unwritten g h := by
  refine ⟨.ok (c.world.answer g.scene.calls .generateSecret), _, _, rfl, ?_, twins.after, ?_⟩
  · rw [twins.calls]
    rfl
  · rintro _ ⟨⟩
    exact ⟨rfl, id⟩

/-- The limiter answers from the bucket of the tenant, and touches no other. -/
theorem alike_limit (twins : Twins c g g') : Alike c g g' (ask (.rateLimit c.tenant))
    (ask (.rateLimit c.tenant)) fun h _ => Unwritten g h := by
  have own := RateLimiter.checkAt_own (c.instant g.scene.calls) twins.rps twins.burst twins.bucket
  have other (rl : RateLimiter F) (other : String) (apart : other ≠ c.tenant) :
      (rl.checkAt c.tenant (c.instant g.scene.calls)).2.buckets other = rl.buckets other :=
    RateLimiter.checkAt_other apart
  refine ⟨.ok ((g.limiter.checkAt c.tenant (c.instant g.scene.calls)).1.map Measures.print),
    ⟨{ g.scene with calls := g.scene.calls + 1 },
      (g.limiter.checkAt c.tenant (c.instant g.scene.calls)).2⟩,
    ⟨{ g'.scene with calls := g'.scene.calls + 1 },
      (g'.limiter.checkAt c.tenant (c.instant g.scene.calls)).2⟩, rfl, ?_, ?_, ?_⟩
  · rw [own.1, twins.calls]
    rfl
  · exact { twins.after with
      rps := by simp [twins.rps]
      burst := by simp [twins.burst]
      bucket := own.2
      left := ⟨twins.left.rows, twins.left.view, fun u apart => (other _ u apart).trans
        (twins.left.bucket u apart)⟩
      right := ⟨twins.right.rows, twins.right.view, fun u apart => (other _ u apart).trans
        (twins.right.bucket u apart)⟩ }
  · rintro _ ⟨⟩
    exact ⟨rfl, id⟩

theorem alike_begin (twins : Twins c g g') :
    Alike c g g' begin begin fun h _ => seen h.scene = g.scene.db := by
  refine ⟨.ok (),
    ⟨⟨g.scene.calls + 1, g.scene.db, some ⟨c.world.time g.scene.calls, []⟩, g.scene.units⟩,
      g.limiter⟩,
    ⟨⟨g'.scene.calls + 1, g'.scene.db, some ⟨c.world.time g'.scene.calls, []⟩, g'.scene.units⟩,
      g'.limiter⟩, rfl, rfl, ?_, fun _ _ => rfl⟩
  exact { twins.after with
    time := by simp [twins.calls]
    view := twins.rows
    left := ⟨twins.left.rows, twins.left.rows, twins.left.bucket⟩
    right := ⟨twins.right.rows, twins.right.rows, twins.right.bucket⟩ }

theorem alike_commit (twins : Twins c g g') : Alike c g g' commit commit fun _ _ => True := by
  obtain ⟨⟨n, db, tx, units⟩, limiter⟩ := g
  obtain ⟨⟨n', db', tx', units'⟩, limiter'⟩ := g'
  have time := twins.time
  cases tx with
  | none =>
    cases tx' with
    | some _ => cases time
    | none =>
      exact ⟨.error (.db c.world.lost), ⟨⟨n + 1, db, none, units⟩, limiter⟩,
        ⟨⟨n' + 1, db', none, units'⟩, limiter'⟩, rfl, rfl, twins.after, fun _ _ => trivial⟩
  | some tx =>
    cases tx' with
    | none => cases time
    | some tx' =>
      refine ⟨.ok (),
        ⟨⟨n + 1, db.apply tx.writes, none, tx.done.map Txn.Done.ran :: units⟩, limiter⟩,
        ⟨⟨n' + 1, db'.apply tx'.writes, none, tx'.done.map Txn.Done.ran :: units'⟩, limiter'⟩,
        rfl, rfl, ?_, fun _ _ => trivial⟩
      exact { twins.after with
        time := rfl
        rows := twins.view
        view := twins.view
        left := ⟨twins.left.view, twins.left.view, twins.left.bucket⟩
        right := ⟨twins.right.view, twins.right.view, twins.right.bucket⟩ }

theorem Spares.advanced {tenant : String} (spares : Spares tenant start g) {ws : List Write}
    {q : Stmt} {t : Time} {skipped : List Uuid} {out : q.Out} {s : Scene}
    (ran : q.exec t skipped (seen g.scene) = .ok (out, ws)) (mine : Mine tenant (seen g.scene) ws)
    (advanced : Advanced ws g.scene s) : Spares tenant start ⟨s, g.limiter⟩ := by
  have shape := Stmt.exec_shape ran
  have wrote (other : String) (apart : other ≠ tenant) :
      Agree other start.scene.db ((seen g.scene).apply ws) :=
    (spares.view other apart).trans (mine.others shape.valid shape.keeps_frozen apart)
  refine ⟨fun other apart => ?_, fun other apart => ?_, spares.bucket⟩
  · change Agree other start.scene.db s.db
    rw [advanced.rows]
    split
    · exact spares.rows other apart
    · exact wrote other apart
  · change Agree other start.scene.db (seen s)
    rw [advanced.view]
    exact wrote other apart

theorem Twins.advanced (twins : Twins c g g') {ws : List Write} {s s' : Scene}
    (advanced : Advanced ws g.scene s) (advanced' : Advanced ws g'.scene s')
    (mirror : Mirror c.tenant (given c.world) ((seen g.scene).apply ws) ((seen g'.scene).apply ws))
    (left : Spares c.tenant c.left ⟨s, g.limiter⟩)
    (right : Spares c.tenant c.right ⟨s', g'.limiter⟩) :
    Twins c ⟨s, g.limiter⟩ ⟨s', g'.limiter⟩ := by
  have inside : g.scene.tx.isSome = g'.scene.tx.isSome := by
    rw [← Option.isSome_map, twins.time, Option.isSome_map]
  refine { twins with calls := ?_, time := ?_, rows := ?_, view := ?_, left, right }
  · exact (advanced.calls.trans (congrArg (· + 1) twins.calls)).trans advanced'.calls.symm
  · exact (advanced.time.trans twins.time).trans advanced'.time.symm
  · change Mirror c.tenant (given c.world) s.db s'.db
    rw [advanced.rows, advanced'.rows, ← inside]
    split
    · exact twins.rows
    · exact mirror
  · change Mirror c.tenant (given c.world) (seen s) (seen s')
    rw [advanced.view, advanced'.view]
    exact mirror

theorem Twins.dropped (twins : Twins c g g') :
    Twins c ⟨⟨g.scene.calls + 1, g.scene.db, none, g.scene.units⟩, g.limiter⟩
      ⟨⟨g'.scene.calls + 1, g'.scene.db, none, g'.scene.units⟩, g'.limiter⟩ :=
  { twins.after with
    time := rfl
    view := twins.rows
    left := ⟨twins.left.rows, twins.left.rows, twins.left.bucket⟩
    right := ⟨twins.right.rows, twins.right.rows, twins.right.bucket⟩ }

/-- What a statement is answered on the two sides: the same error, or the same writes. -/
inductive Answers {β : Type} (tenant : String) (v : Db) :
    Except DbError (β × List Write) → Except DbError (β × List Write) → Prop where
  | failed (e : DbError) : Answers tenant v (.error e) (.error e)
  | wrote (out out' : β) (ws : List Write) (mine : Mine tenant v ws) :
      Answers tenant v (.ok (out, ws)) (.ok (out', ws))

theorem answers_same {β : Type} {tenant : String} {v : Db} {r r' : Except DbError (β × List Write)}
    (same : r = r') (mine : ∀ out ws, r = .ok (out, ws) → Mine tenant v ws) :
    Answers tenant v r r' := by
  subst same
  cases r with
  | error e => exact .failed e
  | ok result => exact .wrote result.1 result.1 result.2 (mine result.1 result.2 rfl)

theorem Twins.statement (twins : Twins c g g') {q : Stmt}
    (answers : ∀ t, Answers c.tenant (seen g.scene) (q.run t c.world.choice (seen g.scene))
      (q.run t c.world.choice (seen g'.scene))) :
    (∃ e h h', c.run g (query q) = (.error e, h) ∧ c.run g' (query q) = (.error e, h') ∧
      Twins c h h') ∨ ∃ t out out' ws h h', q.run t c.world.choice (seen g.scene) = .ok (out, ws) ∧
      q.run t c.world.choice (seen g'.scene) = .ok (out', ws) ∧ c.run g (query q) = (.ok out, h) ∧
      c.run g' (query q) = (.ok out', h') ∧ Twins c h h' ∧ seen h.scene = (seen g.scene).apply ws ∧
      (g.scene.tx = none → h.scene.tx = none) := by
  have now : clock c.world g.scene = clock c.world g'.scene := by
    rw [clock, clock, twins.time, twins.calls]
  have does (g : Stage F) : c.run g (query q) =
    (raise (g.scene.exec (engine c.prims c.cfg) c.world q).1,
      ⟨(g.scene.exec (engine c.prims c.cfg) c.world q).2, g.limiter⟩) := rfl
  have executed : Answers c.tenant (seen g.scene)
      (q.exec (clock c.world g.scene) c.world.choice (seen g.scene))
      (q.exec (clock c.world g'.scene) c.world.choice (seen g'.scene)) := by
    rw [← now, Stmt.exec, Stmt.exec]
    split
    · exact answers _
    · exact .failed .other
  generalize first : q.exec (clock c.world g.scene) c.world.choice (seen g.scene) = r at executed
  generalize second :
    q.exec (clock c.world g'.scene) c.world.choice (seen g'.scene) = r' at executed
  cases executed with
  | failed e =>
    refine .inl ⟨.db e, _, _, ?_, ?_, twins.dropped⟩
    · rw [does, exec_failed first]
      rfl
    · rw [does, exec_failed second]
      rfl
  | wrote out out' ws mine =>
    obtain ⟨s, ran, advanced⟩ := exec_ran c.prims c.cfg first
    obtain ⟨s', ran', advanced'⟩ := exec_ran c.prims c.cfg second
    have shape := Stmt.exec_shape first
    have mirror := twins.view.apply shape.valid (Stmt.exec_shape second).valid shape.keeps_frozen mine
    refine .inr ⟨clock c.world g.scene, out, out', ws, ⟨s, g.limiter⟩, ⟨s', g'.limiter⟩,
      Stmt.exec_ok first, now ▸ Stmt.exec_ok second, ?_, ?_, ?_, advanced.view, ?_⟩
    · rw [does, ran]
      rfl
    · rw [does, ran']
      rfl
    · exact twins.advanced advanced advanced' mirror (twins.left.advanced first mine advanced)
        (twins.right.advanced second (twins.view.mine mine) advanced')
    · intro outside
      have time := advanced.time
      rw [outside] at time
      exact Option.map_eq_none_iff.mp time

theorem alike_query (twins : Twins c g g') {q : Stmt}
    (same : ∀ t, q.run t c.world.choice (seen g.scene) = q.run t c.world.choice (seen g'.scene))
    (mine : ∀ t out ws, q.run t c.world.choice (seen g.scene) = .ok (out, ws) →
      Mine c.tenant (seen g.scene) ws) :
    Alike c g g' (query q) (query q) fun h out => ∃ t ws,
      q.run t c.world.choice (seen g.scene) = .ok (out, ws) ∧
        seen h.scene = (seen g.scene).apply ws := by
  rcases twins.statement fun t => answers_same (same t) (mine t) with
    ⟨e, h, h', ran, ran', twins'⟩ | ⟨t, out, out', ws, h, h', first, second, ran, ran', twins',
      rows, _⟩
  · refine ⟨.error e, h, h', ran, ran', twins', ?_⟩
    rintro _ ⟨⟩
  · cases (same t).symm.trans first |>.symm.trans second
    refine ⟨.ok out, h, h', ran, ran', twins', ?_⟩
    rintro _ ⟨⟩
    exact ⟨t, ws, first, rows⟩

theorem alike_read (twins : Twins c g g') {q : Stmt} {f : Db → q.Out}
    (reads : ∀ t v, q.run t c.world.choice v = .ok (f v, [])) {k : q.Out → Io β}
    {R : Stage F → β → Prop} (rest : ∀ h h', Twins c h h' → Unwritten g h →
      Alike c h h' (k (f (seen g.scene))) (k (f (seen g'.scene))) R) :
    Alike c g g' (query q >>= k) (query q >>= k) R := by
  have answers (t : Time) : Answers c.tenant (seen g.scene) (q.run t c.world.choice (seen g.scene))
      (q.run t c.world.choice (seen g'.scene)) := by
    rw [reads, reads]
    exact .wrote _ _ [] fun w none => (List.not_mem_nil none).elim
  rcases twins.statement answers with
    ⟨e, h, h', ran, ran', twins'⟩ | ⟨t, out, out', ws, h, h', first, second, ran, ran', twins',
      rows, outside⟩
  · refine ⟨.error e, h, h', throttled_error ran, throttled_error ran', twins', ?_⟩
    rintro _ ⟨⟩
  · cases (reads t _).symm.trans first
    cases (reads t _).symm.trans second
    obtain ⟨r, k, k', next, next', twins'', holds⟩ := rest h h' twins' ⟨rows, outside⟩
    exact ⟨r, k, k', (throttled_ok ran).trans next, (throttled_ok ran').trans next', twins'', holds⟩

theorem alike_list (twins : Twins c g g') {q : Stmt} {f : Db → q.Out}
    (reads : ∀ t v, q.run t c.world.choice v = .ok (f v, []))
    (same : f (seen g.scene) = f (seen g'.scene)) {k : q.Out → Io β} {R : Stage F → β → Prop}
    (rest : ∀ h h', Twins c h h' → Unwritten g h →
      Alike c h h' (k (f (seen g.scene))) (k (f (seen g.scene))) R) :
    Alike c g g' (query q >>= k) (query q >>= k) R := by
  refine alike_read twins reads ?_
  rw [← same]
  exact rest

theorem Alike.done {x x' : Io α} {Q : Stage F → α → Prop} (alike : Alike c g g' x x' Q) :
    Alike c g g' x x' fun _ _ => True := by
  obtain ⟨r, h, h', ran, ran', twins, _⟩ := alike
  exact ⟨r, h, h', ran, ran', twins, fun _ _ => trivial⟩

end Lockstep

section Handlers

variable {F : Type} [Zero F] [One F] [Add F] [Sub F] [Mul F] [Div F] [Min F] [Max F] [LE F]
  [DecidableLE F] [Measures F] {c : Trial F} {g g' : Stage F}

def Served {α : Type} (c : Trial F) (g g' : Stage F) (x : Io α) : Prop :=
    Alike c g g' x x fun _ _ => True

theorem listMessages_served (twins : Twins c g g') (limit offset : Option Int) :
    Served c g g' (Api.listMessages c.tenant limit offset) :=
  alike_list twins (fun _ _ => rfl) (twins.view.listEvents _ _) fun _ _ twins _ =>
    alike_pure twins trivial

theorem listEndpoints_served (twins : Twins c g g') : Served c g g' (Api.listEndpoints c.tenant) :=
  alike_list twins (fun _ _ => rfl) twins.view.listEndpoints fun _ _ twins _ =>
    alike_pure twins trivial

theorem listConsumers_served (twins : Twins c g g') : Served c g g' (Api.listConsumers c.tenant) :=
  alike_list twins (fun _ _ => rfl) twins.view.listConsumers fun _ _ twins _ =>
    alike_pure twins trivial

theorem listInboundSources_served (twins : Twins c g g') :
    Served c g g' (Api.listInboundSources c.tenant) :=
  alike_list twins (fun _ _ => rfl) twins.view.listInboundSources fun _ _ twins _ =>
    alike_pure twins trivial

theorem resolveConsumer_alike (twins : Twins c g g') (uid : String) :
    Alike c g g' (Api.resolveConsumer c.tenant uid) (Api.resolveConsumer c.tenant uid) fun h consumer =>
      Unwritten g h ∧ (seen h.scene).find? consumer.id = some consumer ∧
        consumer.tenantId = c.tenant := by
  refine alike_list twins (fun _ _ => rfl) (twins.view.getConsumer uid) fun h h' twins' same => ?_
  cases found : Store.getConsumer c.tenant uid (seen g.scene) with
  | none => exact alike_throw twins'
  | some consumer =>
    obtain ⟨stored, own, _⟩ := Store.getConsumer_iff.mp found
    exact alike_pure twins' ⟨same, same.rows ▸ stored, own⟩

theorem getConsumer_served (twins : Twins c g g') (uid : String) :
    Served c g g' (Api.getConsumer c.tenant uid) :=
  alike_bind (resolveConsumer_alike twins uid) fun _ _ _ twins _ => alike_pure twins trivial

theorem listConsumerEndpoints_served (twins : Twins c g g') (uid : String) :
    Served c g g' (Api.listConsumerEndpoints c.tenant uid) :=
  alike_bind (resolveConsumer_alike twins uid) fun _ _ _ twins ⟨_, found, own⟩ =>
    alike_list twins (fun _ _ => rfl) (twins.view.listEndpointsForConsumer found own)
      fun _ _ twins _ => alike_pure twins trivial

theorem listConsumerMessages_served (twins : Twins c g g') (uid : String)
    (limit offset : Option Int) :
    Served c g g' (Api.listConsumerMessages c.tenant uid limit offset) :=
  alike_bind (resolveConsumer_alike twins uid) fun _ _ _ twins ⟨_, found, own⟩ =>
    alike_list twins (fun _ _ => rfl) (twins.view.listEventsForConsumer found own _ _)
      fun _ _ twins _ => alike_pure twins trivial

theorem storeEndpoint_served (twins : Twins c g g') {consumer : Option Uuid}
    (scope : Belongs (seen g.scene) c.tenant consumer) (url secret : String)
    (types : Option (List String)) :
    Served c g g' (Api.storeEndpoint c.tenant consumer url secret types) := by
  refine alike_bind (alike_newUuid twins) fun h h' id twins' ⟨comes, same⟩ => ?_
  have scope : Belongs (seen h.scene) c.tenant consumer := same.rows ▸ scope
  refine Alike.done (alike_query (q := .createEndpoint ..) twins'
    (fun t => twins'.view.createEndpoint comes scope url secret types) ?_)
  intro t out ws run
  obtain ⟨rfl, _, inserted⟩ := Store.createEndpoint_ok run
  refine mine_insert (α := Endpoint) ?_ ?_ inserted
  · rfl
  · exact scope

theorem secretOr_alike (twins : Twins c g g') (secret : Option String) :
    Alike c g g' (Api.secretOr secret) (Api.secretOr secret) fun h _ => Unwritten g h := by
  cases secret with
  | none => exact alike_secret twins
  | some secret => exact alike_pure twins ⟨rfl, id⟩

theorem createEndpoint_served (twins : Twins c g g') (url : String) (secret : Option String)
    (types : Option (List String)) :
    Served c g g' (Api.createEndpoint c.tenant url secret types) := by
  refine alike_bind (secretOr_alike twins secret) fun h h' secret twins _ => ?_
  refine alike_bind (storeEndpoint_served twins ?_ url secret types) fun _ _ _ twins _ =>
    alike_pure twins trivial
  intro id none
  cases none

theorem createConsumerEndpoint_served (twins : Twins c g g') (uid url : String)
    (secret : Option String) (types : Option (List String)) :
    Served c g g' (Api.createConsumerEndpoint c.tenant uid url secret types) := by
  refine alike_bind (resolveConsumer_alike twins uid) fun h h' consumer twins ⟨_, found, own⟩ => ?_
  refine alike_bind (secretOr_alike twins secret) fun k k' secret twins same => ?_
  refine alike_bind (storeEndpoint_served twins ?_ url secret types) fun _ _ _ twins _ =>
    alike_pure twins trivial
  rintro _ ⟨⟩
  exact ⟨consumer, same.rows ▸ found, own⟩

theorem missing_served {α β : Type} (twins : Twins c g g') (e : CoreError) (f : α → Io β) :
    Served c g g' (throw e >>= f) :=
  alike_bind (Q := fun _ _ => False) (alike_throw twins) fun _ _ _ _ no => no.elim

theorem createConsumer_served (twins : Twins c g g') (uid : String) (name : Option String) :
    Served c g g' (Api.createConsumer c.tenant uid name) := by
  unfold Api.createConsumer
  split
  · exact missing_served twins _ _
  · refine alike_bind (Q := fun _ _ => True) ?_ fun _ _ _ twins _ => alike_pure twins trivial
    refine alike_bind (alike_newUuid twins) fun h h' id twins ⟨comes, _⟩ => ?_
    refine Alike.done (alike_query (q := .createConsumer ..) twins
      (fun t => twins.view.createConsumer comes uid name) ?_)
    intro t out ws run
    rcases Store.createConsumer_ok run with ⟨stored, found, own, _, rfl, rfl⟩ | ⟨rfl, inserted⟩
    · exact mine_amended twins.view.sealLeft found own rfl
    · refine mine_insert (α := Consumer) ?_ ?_ inserted
      · rfl
      · trivial

theorem updateEndpoint_served (twins : Twins c g g') (id : Uuid) (url : Option String)
    (disabled : Option Bool) (types : Option (List String)) :
    Served c g g' (Api.updateEndpoint c.tenant id url disabled types) := by
  refine alike_bind (alike_query (q := .updateEndpoint ..) twins
    (fun t => congrArg Except.ok (twins.view.updateEndpoint id url disabled types)) ?_) ?_
  · intro t out ws run
    obtain rfl : (Store.updateEndpoint id c.tenant url disabled types t (seen g.scene)).2 = ws :=
      congrArg Prod.snd (Except.ok.inj run)
    exact mine_update twins.view.sealLeft (fun _ _ own => of_decide_eq_true own) fun _ => rfl
  · intro h h' found twins _
    cases (found : Option Endpoint) with
    | none => exact missing_served twins _ _
    | some e => exact alike_pure twins trivial

theorem alike_missing {α : Type} {x x' : Io α} {e : CoreError} {Q : Stage F → α → Prop}
    (twins : Twins c g g') (left : x = throw e) (right : x' = throw e) : Alike c g g' x x' Q := by
  rw [left, right]
  exact alike_throw twins

theorem Mirror.lookup {α : Type} [Tenanted α] {tenant : String} {coming : Uuid → Prop} {a b : Db}
    (mirror : Mirror tenant coming a b) (id : Uuid) :
    (∃ x : α, a.find? id = some x ∧ b.find? id = some x ∧ Tenanted.tenant x = tenant) ∨
    ((∀ x : α, a.find? id = some x → Tenanted.tenant x ≠ tenant) ∧
      ∀ x : α, b.find? id = some x → Tenanted.tenant x ≠ tenant) := by
  by_cases own : ∃ x : α, a.find? id = some x ∧ Tenanted.tenant x = tenant
  · obtain ⟨x, found, own⟩ := own
    exact .inl ⟨x, found, mirror.agree.find found own, own⟩
  · refine .inr ⟨fun x found same => own ⟨x, found, same⟩, fun x found same => own ⟨x, ?_, same⟩⟩
    exact mirror.agree.symm.find found same

theorem orNotFound_some {α β : Type} (what : String) (a : α) (f : α → Io β) :
    (Api.orNotFound what (some a) >>= f) = f a := rfl

def shownEvent (tenant : String) (id : Uuid) (found : Option Event) : Io Api.Answer := do
  let event : Event ← Api.orNotFound ("event " ++ uuidText id) found
  if event.tenantId ≠ tenant then throw (.notFound ("event " ++ uuidText id))
  let deliveries ← query (.deliveriesForEvent id)
  return Api.answer 200 (.eventDetail event deliveries)

theorem shownEvent_missing {tenant : String} {id : Uuid} {found : Option Event}
    (foreign : ∀ ev, found = some ev → ev.tenantId ≠ tenant) :
    shownEvent tenant id found = throw (.notFound ("event " ++ uuidText id)) := by
  cases found with
  | none => rfl
  | some ev =>
    rw [shownEvent, orNotFound_some]
    simp only [if_pos (foreign ev rfl)]
    rfl

theorem getMessage_served (twins : Twins c g g') (id : Uuid) :
    Served c g g' (Api.getMessage c.tenant id) := by
  refine alike_read (q := .getEvent id) (k := shownEvent c.tenant id) twins (fun _ _ => rfl)
    fun h h' twins' same => ?_
  rcases twins.view.lookup (α := Event) id with ⟨ev, found, found', own⟩ | ⟨left, right⟩
  · rw [Store.getEvent, Store.getEvent, found, found', shownEvent, orNotFound_some]
    simp only [if_neg (not_not.mpr (show ev.tenantId = c.tenant from own))]
    exact alike_list twins' (fun _ _ => rfl)
      (twins'.view.deliveriesForEvent (same.rows ▸ found) own)
      fun _ _ twins _ => alike_pure twins trivial
  · exact alike_missing twins' (shownEvent_missing left) (shownEvent_missing right)

theorem Mirror.shown {α : Type} [Tenanted α] {tenant : String} {coming : Uuid → Prop} {a b : Db}
    (mirror : Mirror tenant coming a b) (id : Uuid) :
    (a.find? id : Option α).filter (fun x => Tenanted.tenant x = tenant) =
      (b.find? id).filter fun x => Tenanted.tenant x = tenant := by
  rcases mirror.lookup (α := α) id with ⟨x, found, found', _⟩ | ⟨left, right⟩
  · rw [found, found']
  · have nothing {found : Option α} (foreign : ∀ x, found = some x → Tenanted.tenant x ≠ tenant) :
        found.filter (fun x => Tenanted.tenant x = tenant) = none := by
      cases found with
      | none => rfl
      | some x => simp [foreign x rfl]
    rw [nothing left, nothing right]

theorem getDeliveryDetail_served (twins : Twins c g g') (id : Uuid) :
    Served c g g' (Api.getDeliveryDetail c.tenant id) := by
  refine alike_read (q := .getDelivery id) twins (fun _ _ => rfl) fun h h' twins' same => ?_
  have shown : (Store.getDelivery id (seen g.scene)).filter (fun d => d.tenantId = c.tenant) =
      (Store.getDelivery id (seen g'.scene)).filter fun d => d.tenantId = c.tenant :=
    twins.view.shown (α := Delivery) id
  rw [← shown]
  cases found : (Store.getDelivery id (seen g.scene)).filter fun d => d.tenantId = c.tenant with
  | none => exact missing_served twins' _ _
  | some d =>
    obtain ⟨stored, own⟩ := Option.filter_eq_some_iff.mp found
    have here : d ∈ owned Delivery c.tenant (seen h.scene) := by
      rw [same.rows]
      exact mem_owned.mpr ⟨Db.mem_all.mp (Db.mem_all_of_find? stored), of_decide_eq_true own⟩
    have attempts := twins'.view.agree.attempts d here
    rw [show d.id = id from Db.find?_id stored] at attempts
    exact alike_list twins' (fun _ _ => rfl) attempts fun _ _ twins _ => alike_pure twins trivial

theorem getEndpoint_served (twins : Twins c g g') (id : Uuid) :
    Served c g g' (Api.getEndpoint c.tenant id) := by
  refine alike_read (q := .getEndpoint id) twins (fun _ _ => rfl) fun h h' twins' same => ?_
  have shown : (Store.getEndpoint id (seen g.scene)).filter (fun e => e.tenantId = c.tenant) =
      (Store.getEndpoint id (seen g'.scene)).filter fun e => e.tenantId = c.tenant :=
    twins.view.shown (α := Endpoint) id
  rw [← shown]
  cases (Store.getEndpoint id (seen g.scene)).filter fun e => e.tenantId = c.tenant with
  | none => exact missing_served twins' _ _
  | some e => exact alike_pure twins' trivial

theorem query_assoc {α β : Type} {q : Stmt} (f : q.Out → Io α) (k : α → Io β) :
    (query q >>= f >>= k) = (query q >>= fun out => f out >>= k) := by
  refine congrArg (Txn.Prog.call (.stmt q : Op)) (funext fun r => ?_)
  cases r <;> rfl

def replayed (tenant : String) (id : Uuid) (found : Option Delivery) : Io Api.Answer := do
  let delivery : Delivery ← Api.orNotFound ("delivery " ++ uuidText id) found
  if delivery.tenantId ≠ tenant then throw (.notFound ("delivery " ++ uuidText id))
  let _ ← query (.resetForReplay id)
  return Api.answer 202 .empty

theorem replayDelivery_eq (tenant : String) (id : Uuid) :
    Api.replayDelivery tenant id = query (.getDelivery id) >>= replayed tenant id := query_assoc _ _

theorem replayed_missing {tenant : String} {id : Uuid} {found : Option Delivery}
    (foreign : ∀ d, found = some d → d.tenantId ≠ tenant) :
    replayed tenant id found = throw (.notFound ("delivery " ++ uuidText id)) := by
  cases found with
  | none => rfl
  | some d =>
    rw [replayed, orNotFound_some]
    simp only [if_pos (foreign d rfl)]
    rfl

theorem replayDelivery_served (twins : Twins c g g') (id : Uuid) :
    Served c g g' (Api.replayDelivery c.tenant id) := by
  rw [replayDelivery_eq]
  refine alike_read (q := .getDelivery id) (k := replayed c.tenant id) twins (fun _ _ => rfl)
    fun h h' twins' same => ?_
  rcases twins.view.lookup (α := Delivery) id with ⟨d, found, found', own⟩ | ⟨left, right⟩
  · rw [Store.getDelivery, Store.getDelivery, found, found', replayed, orNotFound_some]
    simp only [if_neg (not_not.mpr (show d.tenantId = c.tenant from own))]
    have here : (seen h.scene).find? id = some d := same.rows ▸ found
    refine alike_bind (alike_query (q := .resetForReplay id) twins'
      (fun t => congrArg Except.ok (twins'.view.resetForReplay here own)) ?_)
      fun _ _ _ twins _ => alike_pure twins trivial
    intro t out ws run
    obtain rfl : (Store.resetForReplay id t (seen h.scene)).2 = ws :=
      congrArg Prod.snd (Except.ok.inj run)
    refine mine_update (α := Delivery) twins'.view.sealLeft (fun x found' _ => ?_) fun _ => rfl
    cases here.symm.trans found'
    exact own
  · exact alike_missing twins' (replayed_missing left) (replayed_missing right)

theorem run_keeps {q : Stmt} {t : Time} {skipped : List Uuid} {v : Db} {out : q.Out}
    {ws : List Write} (run : q.run t skipped v = .ok (out, ws)) (k : Key) (r : Row)
    (found : v.get? k = some r) :
    ∃ r', (v.apply ws).get? k = some r' ∧ r'.frozen = r.frozen :=
  Txn.Store.get?_apply_keeps (Stmt.run_shape run).valid (Stmt.run_shape run).keeps_frozen found

def Has (α : Type) [Tenanted α] (tenant : String) (v : Db) (id : Uuid) : Prop :=
  ∃ x : α, v.find? id = some x ∧ Tenanted.tenant x = tenant

theorem Has.kept {α : Type} [Tenanted α] {tenant : String} {v v' : Db} {id : Uuid}
    (has : Has α tenant v id)
    (kept : ∀ k r, v.get? k = some r → ∃ r', v'.get? k = some r' ∧ r'.frozen = r.frozen) :
    Has α tenant v' id := by
  obtain ⟨x, found, own⟩ := has
  obtain ⟨x', found', frozen⟩ := find_kept kept found
  have same := owner_frozen frozen
  rw [Tenanted.owner_row, Tenanted.owner_row, own] at same
  exact ⟨x', found', Option.some.inj same⟩

theorem insertDeliveries_served {event : Uuid} (es : List Endpoint) (twins : Twins c g g')
    (published : Has Event c.tenant (seen g.scene) event)
    (targets : ∀ e ∈ es, Has Endpoint c.tenant (seen g.scene) e.id) :
    Served c g g' (insertDeliveries event c.tenant es) := by
  induction es generalizing g g' with
  | nil => exact alike_pure twins trivial
  | cons e es ih =>
    refine alike_bind (alike_newUuid twins) fun h h' id twins ⟨comes, same⟩ => ?_
    rw [← same.rows] at published targets
    obtain ⟨ev, found, own⟩ := published
    obtain ⟨target, there, target_own⟩ := targets e List.mem_cons_self
    refine alike_bind (alike_query (q := .insertDelivery id event e.id c.tenant) twins
      (fun t => twins.view.insertDelivery comes found own there target_own) ?_) ?_
    · intro t out ws run
      refine mine_insert (α := Delivery) ?_ ?_ (Store.insertDelivery_ok run).2.2
      · rfl
      · exact ⟨ev, found, own⟩
    · rintro k k' _ twins ⟨t, ws, run, rows⟩
      refine alike_bind (ih twins ?_ ?_) fun _ _ _ twins _ => alike_pure twins trivial
      · rw [rows]
        exact Has.kept ⟨ev, found, own⟩ (run_keeps run)
      · intro e' later
        rw [rows]
        exact (targets e' (List.mem_cons_of_mem _ later)).kept (run_keeps run)

theorem enqueueMessage_served (twins : Twins c g g') (outside : g.scene.tx = none)
    {consumer : Option Uuid} (scope : Belongs (seen g.scene) c.tenant consumer) (type : String)
    (payload : Value) :
    Served c g g' (Outbox.enqueueMessage c.tenant consumer type payload) := by
  refine alike_bind (alike_newUuid twins) fun h h' event twins ⟨comes, same⟩ => ?_
  rw [← same.rows, seen_outside (same.outside outside)] at scope
  refine alike_bind (alike_begin twins) fun h h' _ twins rows => ?_
  rw [← rows] at scope
  refine alike_bind (alike_query (q := .insertEvent event c.tenant consumer type payload) twins
    (fun t => twins.view.insertEvent comes scope type payload) ?_) ?_
  · intro t out ws run
    obtain ⟨rfl, _, inserted⟩ := Store.insertEvent_ok run
    refine mine_insert (α := Event) ?_ ?_ inserted
    · rfl
    · exact scope
  rintro h h' _ twins ⟨t, ws, run, rows⟩
  have published : Has Event c.tenant (seen h.scene) event := by
    obtain ⟨rfl, _, inserted⟩ := Store.insertEvent_ok run
    obtain ⟨rfl, _, fits⟩ := Store.insert_ok inserted
    rw [rows]
    exact ⟨_, (Db.find?_put fits event).trans (if_pos rfl), rfl⟩
  refine alike_list (q := .activeEndpointsForScope c.tenant consumer) twins (fun _ _ => rfl)
    (twins.view.activeEndpointsForScope consumer) fun k k' twins same => ?_
  refine alike_bind (insertDeliveries_served _ twins (same.rows ▸ published) ?_) fun _ _ _ twins _ =>
    alike_bind (alike_commit twins) fun _ _ _ twins _ => alike_pure twins trivial
  intro e mem
  obtain ⟨found, own⟩ := Store.mem_select.mp (Store.mem_orderBy.mp (List.mem_of_mem_filter mem))
  exact ⟨e, same.rows ▸ found, (of_decide_eq_true own).1⟩

theorem createMessage_served (twins : Twins c g g') (outside : g.scene.tx = none) (type : String)
    (payload : Value) : Served c g g' (Api.createMessage c.tenant type payload) := by
  refine alike_bind (alike_limit twins) fun h h' limited twins same => ?_
  cases (limited : Option Nat) with
  | some wait => exact alike_pure twins trivial
  | none =>
    refine alike_bind (enqueueMessage_served twins (same.outside outside) ?_ type payload)
      fun _ _ _ twins _ => alike_pure twins trivial
    intro id none
    cases none

theorem createConsumerMessage_served (twins : Twins c g g') (outside : g.scene.tx = none)
    (uid type : String) (payload : Value) :
    Served c g g' (Api.createConsumerMessage c.tenant uid type payload) := by
  refine alike_bind (alike_limit twins) fun h h' limited twins same => ?_
  cases (limited : Option Nat) with
  | some wait => exact alike_pure twins trivial
  | none =>
    refine alike_bind (resolveConsumer_alike twins uid)
      fun k k' consumer twins ⟨same', found, own⟩ => ?_
    refine alike_bind (enqueueMessage_served twins (same'.outside (same.outside outside)) ?_ type
      payload) fun _ _ _ twins _ => alike_pure twins trivial
    rintro _ ⟨⟩
    exact ⟨consumer, found, own⟩

/- The slug of an inbound source is taken from all tenants. -/
def Api.Request.confined : Api.Request → Bool
  | .createInboundSource .. => false
  | _ => true

/-- Every handler but one keeps the two in step. -/
theorem handle_served (twins : Twins c g g') (outside : g.scene.tx = none) {request : Api.Request}
    (confined : request.confined = true) : Served c g g' (Api.handle c.prims c.tenant request) := by
  cases request with
  | createMessage type payload => exact createMessage_served twins outside type payload
  | listMessages limit offset => exact listMessages_served twins limit offset
  | getMessage id => exact getMessage_served twins id
  | getDeliveryDetail id => exact getDeliveryDetail_served twins id
  | replayDelivery id => exact replayDelivery_served twins id
  | createEndpoint url secret types => exact createEndpoint_served twins url secret types
  | listEndpoints => exact listEndpoints_served twins
  | getEndpoint id => exact getEndpoint_served twins id
  | updateEndpoint id url disabled types => exact updateEndpoint_served twins id url disabled types
  | createConsumer uid name => exact createConsumer_served twins uid name
  | listConsumers => exact listConsumers_served twins
  | getConsumer uid => exact getConsumer_served twins uid
  | createConsumerEndpoint uid url secret types =>
    exact createConsumerEndpoint_served twins uid url secret types
  | listConsumerEndpoints uid => exact listConsumerEndpoints_served twins uid
  | createConsumerMessage uid type payload =>
    exact createConsumerMessage_served twins outside uid type payload
  | listConsumerMessages uid limit offset =>
      exact listConsumerMessages_served twins uid limit offset
  | createInboundSource => cases confined
  | listInboundSources => exact listInboundSources_served twins

end Handlers

section Requests

variable {F : Type} [Zero F] [One F] [Add F] [Sub F] [Mul F] [Div F] [Min F] [Max F] [LE F]
  [DecidableLE F] [Measures F] {κ : Prims} {cfg : DispatcherConfig} {W : World}
  {instant : Nat → Nat} {db : Db} {rl : RateLimiter F} {n : Nat} {us : List (List Ran)}
  {tenant : String}

theorem throttled_query (g : Stage F) (q : Stmt) : throttled κ cfg W instant g (query q) =
    ((perform κ cfg W g.scene (query q)).1, ⟨(perform κ cfg W g.scene (query q)).2, g.limiter⟩) :=
  rfl

theorem throttled_alone {q : Stmt} {out : q.Out} {ws : List Write}
    (ran : q.exec (W.time n) W.choice db = .ok (out, ws)) :
    throttled κ cfg W instant ⟨.outside n db us, rl⟩ (query q) =
      (.ok out, ⟨.outside (n + 1) (db.apply ws) ([⟨q, out⟩] :: us), rl⟩) := by
  rw [throttled_query, perform_alone ran]

theorem throttled_alone_error {q : Stmt} {e : DbError}
    (refused : q.exec (W.time n) W.choice db = .error e) :
    throttled κ cfg W instant ⟨.outside n db us, rl⟩ (query q) =
      (.error (.db e), ⟨.outside (n + 1) db us, rl⟩) := by
  rw [throttled_query, perform_alone_error refused]

theorem throttled_serve (cfg : DispatcherConfig) (W : World) (instant : Nat → Nat)
    (rl : RateLimiter F) {headers : Headers} (request : Api.Request)
    (passes : authenticated κ headers db = some tenant) : ∃ us,
      throttled κ cfg W instant ⟨.start db, rl⟩ (Api.serve κ headers request) =
        (.ok (answered (throttled κ cfg W instant ⟨.outside 1 db us, rl⟩
          (Api.handle κ tenant request)).1),
          (throttled κ cfg W instant ⟨.outside 1 db us, rl⟩ (Api.handle κ tenant request)).2) := by
  obtain ⟨token, bearer, ran⟩ := authenticated_reads (W.time 0) W.choice passes
  have first : throttled κ cfg W instant ⟨.start db, rl⟩
    (query (.tenantForApiKey (Api.hashKey κ token))) =
      (.ok (some tenant), ⟨.outside 1 db [[⟨.tenantForApiKey (Api.hashKey κ token), some tenant⟩]],
        rl⟩) :=
    throttled_alone ran
  refine ⟨[[⟨.tenantForApiKey (Api.hashKey κ token), some tenant⟩]], ?_⟩
  simp only [Api.serve, bearer, throttled_outcome, first]
  generalize throttled κ cfg W instant (_ : Stage F) (Api.handle κ tenant request) = r
  obtain ⟨r, g⟩ := r
  cases r <;> rfl

/- The row that a request names by its id, and the error that refuses it when the tenant has no
such row. -/
def refusal (tenant : String) : Api.Request → Option (Key × CoreError)
  | .getMessage id => some (⟨.events, id⟩, .notFound ("event " ++ uuidText id))
  | .getDeliveryDetail id => some (⟨.deliveries, id⟩, .notFound ("delivery " ++ uuidText id))
  | .replayDelivery id => some (⟨.deliveries, id⟩, .notFound ("delivery " ++ uuidText id))
  | .getEndpoint id => some (⟨.endpoints, id⟩, .notFound ("endpoint " ++ uuidText id))
  | .updateEndpoint id url disabled types =>
    some (⟨.endpoints, id⟩, if (Stmt.updateEndpoint id tenant url disabled types).admitted then
      .notFound ("endpoint " ++ uuidText id) else .db .other)
  | _ => none

theorem throttled_read {α : Type} {q : Stmt} {f : Db → q.Out} {k : q.Out → Io α} {e : CoreError}
    (reads : ∀ t v, q.run t W.choice v = .ok (f v, [])) (plain : q.texts = [])
    (refused : k (f db) = throw e) :
    (throttled κ cfg W instant ⟨.outside n db us, rl⟩ (query q >>= k)).1 = .error e := by
  have ran : q.exec (W.time n) W.choice db = .ok (f db, []) := by
    rw [exec_admitted fun s mem => by rw [plain] at mem; cases mem]
    exact reads _ _
  rw [throttled_ok (throttled_alone ran), refused]
  rfl

theorem foreign_find {α : Type} [Tenanted α] {id : Uuid}
    (foreign : ∀ r, db.get? ⟨Record.table α, id⟩ = some r → r.owner ≠ some tenant) (x : α)
    (found : db.find? id = some x) : Tenanted.tenant x ≠ tenant := by
  intro own
  exact foreign _ (Db.find?_eq_some.mp found) ((Tenanted.owner_row x).trans (congrArg some own))

theorem foreign_filter {α : Type} [Tenanted α] {id : Uuid}
    (foreign : ∀ r, db.get? ⟨Record.table α, id⟩ = some r → r.owner ≠ some tenant) :
    (db.find? id : Option α).filter (fun x => Tenanted.tenant x = tenant) = none := by
  cases found : (db.find? id : Option α) with
  | none => rfl
  | some x => simp [foreign_find foreign x found]

theorem handle_refused (κ : Prims) (cfg : DispatcherConfig) (W : World) (instant : Nat → Nat)
    (rl : RateLimiter F) (n : Nat) (us : List (List Ran)) {request : Api.Request} {key : Key}
    {e : CoreError} (named : refusal tenant request = some (key, e))
    (foreign : ∀ r, db.get? key = some r → r.owner ≠ some tenant) :
    (throttled κ cfg W instant ⟨.outside n db us, rl⟩ (Api.handle κ tenant request)).1 =
      .error e := by
  cases request with
  | getMessage id =>
    cases named
    exact throttled_read (q := .getEvent id) (k := shownEvent tenant id) (fun _ _ => rfl) rfl
      (shownEvent_missing (foreign_find (α := Event) foreign))
  | replayDelivery id =>
    cases named
    rw [Api.handle, replayDelivery_eq]
    exact throttled_read (q := .getDelivery id) (k := replayed tenant id) (fun _ _ => rfl) rfl
      (replayed_missing (foreign_find (α := Delivery) foreign))
  | getDeliveryDetail id =>
    cases named
    refine throttled_read (q := .getDelivery id) (fun _ _ => rfl) rfl ?_
    rw [show (Store.getDelivery id db).filter (fun d => d.tenantId = tenant) = none from
      foreign_filter (α := Delivery) foreign]
    rfl
  | getEndpoint id =>
    cases named
    refine throttled_read (q := .getEndpoint id) (fun _ _ => rfl) rfl ?_
    rw [show (Store.getEndpoint id db).filter (fun e => e.tenantId = tenant) = none from
      foreign_filter (α := Endpoint) foreign]
    rfl
  | updateEndpoint id url disabled types =>
    cases named
    rw [Api.handle, Api.updateEndpoint]
    split
    · rename_i admitted
      have untouched : Store.updateEndpoint id tenant url disabled types (W.time n) db =
        (none, []) := by
        rcases Store.update_cases db id (fun e : Endpoint => e.tenantId = tenant) _ with
          ⟨x, found, own, _⟩ | ⟨_, ran⟩
        · exact (foreign_find (α := Endpoint) foreign x found (of_decide_eq_true own)).elim
        · exact ran
      have ran : (Stmt.updateEndpoint id tenant url disabled types).exec (W.time n) W.choice db =
          .ok (none, []) := by
        rw [Stmt.exec, if_pos admitted]
        exact congrArg Except.ok untouched
      rw [throttled_ok (throttled_alone ran)]
      rfl
    · rename_i refused
      have ran : (Stmt.updateEndpoint id tenant url disabled types).exec (W.time n) W.choice db =
          .error .other := by rw [Stmt.exec, if_neg refused]
      rw [throttled_error (throttled_alone_error ran)]
  | _ => cases named

end Requests

section Noninterference

variable {F : Type} [Zero F] [One F] [Add F] [Sub F] [Mul F] [Div F] [Min F] [Max F] [LE F]
  [DecidableLE F] [Measures F]

def served (κ : Prims) (cfg : DispatcherConfig) (W : World) (instant : Nat → Nat)
    (headers : Headers) (request : Api.Request) (db : Db) (rl : RateLimiter F) :
    Except CoreError Api.Answer × Stage F :=
  throttled κ cfg W instant ⟨.start db, rl⟩ (Api.serve κ headers request)

/-- A served request is a run of the engine, in which the limiter answered as it does here. -/
theorem served_reach (κ : Prims) (cfg : DispatcherConfig) (W : World) (instant : Nat → Nat)
    (headers : Headers) (request : Api.Request) (db : Db) (rl : RateLimiter F) (pid : Pid) :
    ∃ t, Launched κ cfg db pid (.serve headers request) t ∧
      t.db = (served κ cfg W instant headers request db rl).2.scene.db ∧
      .finished pid (.serve headers request)
        (.answered (served κ cfg W instant headers request db rl).1) ∈ t.log := by
  obtain ⟨W', _, performed⟩ : ∃ W' : World, W.Timed W' ∧
      perform κ cfg W' (.start db) (Api.serve κ headers request) =
        ((served κ cfg W instant headers request db rl).1,
          (served κ cfg W instant headers request db rl).2.scene) :=
    playThrough_world ⟨.start db, rl⟩ _
  have alone : ∀ res, (engine κ cfg).follow (.serve headers request) res = [] := fun _ => rfl
  obtain ⟨t, reach, rows, logged⟩ := Txn.perform_reach (W := W') alone pid db
  have whole : Txn.perform (engine κ cfg) W' (.start db)
      ((engine κ cfg).prog (.serve headers request)) = _ := perform_conclude .answered _
  rw [whole, performed] at rows logged
  exact ⟨t, reach, rows, logged⟩

/-- In any two reachable states that agree on the slice and the bucket of a tenant, a request of
this tenant, at the same time and with the same new ids, has the same answer and leaves states that
agree on them again; and in each it leaves the slice and the bucket of every other tenant. An id
that is not the tenant's, whether another one has it or not, is refused with an error that the
request alone decides. -/
theorem tenant_noninterference (κ : Prims) (cfg : DispatcherConfig) (s s' : State)
    (reach : Run κ cfg Offered .empty s) (reach' : Run κ cfg Offered .empty s') (tenant : String)
    (headers : Headers) (passes : authenticated κ headers s.db = some tenant)
    (passes' : authenticated κ headers s'.db = some tenant) (rl rl' : RateLimiter F)
    (rps : rl.rps = rl'.rps) (burst : rl.burst = rl'.burst)
    (bucket : rl.buckets tenant = rl'.buckets tenant)
    (agree : slice tenant s.db = slice tenant s'.db) (W : World) (instant : Nat → Nat)
    (fresh : ∀ i, ∀ r ∈ s.db.rows, r.key.id ≠ W.answer i .newUuid)
    (fresh' : ∀ i, ∀ r ∈ s'.db.rows, r.key.id ≠ W.answer i .newUuid) (request : Api.Request)
    (confined : request.confined = true) :
    ((served κ cfg W instant headers request s.db rl).1 =
      (served κ cfg W instant headers request s'.db rl').1) ∧
    (slice tenant (served κ cfg W instant headers request s.db rl).2.scene.db =
      slice tenant (served κ cfg W instant headers request s'.db rl').2.scene.db) ∧
    ((served κ cfg W instant headers request s.db rl).2.limiter.buckets tenant =
      (served κ cfg W instant headers request s'.db rl').2.limiter.buckets tenant) ∧
    (∀ other, other ≠ tenant →
      slice other (served κ cfg W instant headers request s.db rl).2.scene.db = slice other s.db ∧
      (served κ cfg W instant headers request s.db rl).2.limiter.buckets other = rl.buckets other) ∧
    (∀ other, other ≠ tenant →
      slice other (served κ cfg W instant headers request s'.db rl').2.scene.db =
        slice other s'.db ∧
      (served κ cfg W instant headers request s'.db rl').2.limiter.buckets other =
        rl'.buckets other) ∧
    ∀ key e, refusal tenant request = some (key, e) →
      (∀ r ∈ s.db.rows, r.key = key → r.owner ≠ some tenant) →
      (served κ cfg W instant headers request s.db rl).1 = .ok (Api.apiError e) := by
  have coming {db : Db} (fresh : ∀ i, ∀ r ∈ db.rows, r.key.id ≠ W.answer i .newUuid) (r : Row)
      (mem : r ∈ db.rows) (comes : given W r.key.id) : r.owner = some tenant := by
    obtain ⟨i, same⟩ := comes
    exact (fresh i r mem same.symm).elim
  have mirror : Mirror tenant (given W) s.db s'.db :=
    ⟨slice_eq_iff.mp agree, reach_sealed reach, reach_sealed reach', coming fresh, coming fresh'⟩
  obtain ⟨us, serves⟩ := throttled_serve cfg W instant rl request passes
  obtain ⟨us', serves'⟩ := throttled_serve cfg W instant rl' request passes'
  let c : Trial F := ⟨κ, cfg, W, instant, tenant, ⟨.start s.db, rl⟩, ⟨.start s'.db, rl'⟩⟩
  have twins : Twins c ⟨.outside 1 s.db us, rl⟩ ⟨.outside 1 s'.db us', rl'⟩ :=
    ⟨rfl, rfl, mirror, mirror, rps, burst, bucket,
      ⟨fun u _ => agree_refl u s.db, fun u _ => agree_refl u s.db, fun _ _ => rfl⟩,
      ⟨fun u _ => agree_refl u s'.db, fun u _ => agree_refl u s'.db, fun _ _ => rfl⟩⟩
  obtain ⟨r, h, h', ran, ran', ended, _⟩ := handle_served twins rfl confined
  have result : served κ cfg W instant headers request s.db rl = (.ok (answered r), h) := by
    rw [served, serves]
    exact congrArg (fun x : Except CoreError Api.Answer × Stage F =>
      (Except.ok (answered x.1), x.2)) ran
  have result' : served κ cfg W instant headers request s'.db rl' = (.ok (answered r), h') := by
    rw [served, serves']
    exact congrArg (fun x : Except CoreError Api.Answer × Stage F =>
      (Except.ok (answered x.1), x.2)) ran'
  refine ⟨by rw [result, result'], ?_, ?_, fun other apart => ?_, fun other apart => ?_, ?_⟩
  · rw [result, result']
    exact slice_eq_iff.mpr ended.rows.agree
  · rw [result, result']
    exact ended.bucket
  · rw [result]
    exact ⟨slice_eq_iff.mpr (ended.left.rows other apart).symm, ended.left.bucket other apart⟩
  · rw [result']
    exact ⟨slice_eq_iff.mpr (ended.right.rows other apart).symm, ended.right.bucket other apart⟩
  · intro key e named foreign
    have refused := handle_refused κ cfg W instant rl 1 us named fun r found =>
      foreign r (Txn.Store.get?_some found).1 (Txn.Store.get?_some found).2
    rw [served, serves, refused]
    rfl

def aloneMoves : List Move :=
  .spawn (.client 0) (.command (.createApiKey "t" "k")) :: go 3 (.client 0) 0 1 (.error "")

def besideMoves : List Move := aloneMoves ++
  .spawn (.client 0) (.command (.createConsumer "u" "c" none)) :: go 3 (.client 0) 0 1 (.error "")

def keyRow : ApiKey := ⟨1, "t", Api.hashKey keyAnswer "k".toList, 0⟩

def otherConsumer : Consumer := ⟨1, "u", "c", none, 0, 0⟩

def oneId : World where
  time _ := 0
  choice := []
  answer
    | _, .newUuid => 2
    | n, c => (steady 0).answer n c
  lost := .other

theorem moves_run (moves : List Move) (rows : List Row)
    (played : ((Txn.play (engine keyAnswer Dispatcher.default) (fun s t => Offered s t)
      (.start .empty) moves).map fun s => s.db.rows) = some rows) :
    ∃ s : State, Run keyAnswer Dispatcher.default Offered .empty s ∧ s.db.rows = rows := by
  obtain ⟨s, replayed, eq⟩ := Option.map_eq_some_iff.mp played
  exact ⟨s, Txn.play_reach (fun a b ok => of_decide_eq_true ok) replayed, eq⟩

theorem keyRow_passes {db : Db} {rest : List Row} (rows : db.rows = .apiKey keyRow :: rest) :
    authenticated keyAnswer (bearer "k") db = some "t" := by
  rw [authenticated, bearerToken_bearer (List.all_iff_forall_prop.mp (by decide)), Option.bind_some,
    show trim "k".toList = "k".toList by decide, Store.tenantForApiKey, Store.select, Db.all, rows]
  simp [Record.ofRow, Row.apiKey?, keyRow]

theorem tenant_noninterference_beside : ∃ s s' : State,
    Run keyAnswer Dispatcher.default Offered .empty s ∧
      Run keyAnswer Dispatcher.default Offered .empty s' ∧
    Db.all Consumer s.db = [] ∧ Db.all Consumer s'.db = [otherConsumer] ∧
    (served keyAnswer Dispatcher.default oneId id (bearer "k") (.createConsumer "c" none) s.db
      (RateLimiter.new (1 : ℚ) 1)).1 =
      (served keyAnswer Dispatcher.default oneId id (bearer "k") (.createConsumer "c" none) s'.db
        (RateLimiter.new (1 : ℚ) 1)).1 := by
  obtain ⟨s, reach, rows⟩ := moves_run aloneMoves [.apiKey keyRow] rfl
  obtain ⟨s', reach', rows'⟩ := moves_run besideMoves [.apiKey keyRow, .consumer otherConsumer] rfl
  have agree : slice "t" s.db = slice "t" s'.db := by
    refine slice_eq_iff.mpr ⟨fun r => ?_, fun d mem => ?_⟩
    · simp [ownedRows, rows, rows', Row.owner, otherConsumer]
    · simp [owned, Store.select, Db.all, rows, Record.ofRow, Row.delivery?] at mem
  have same := tenant_noninterference keyAnswer Dispatcher.default s s' reach reach' "t"
    (bearer "k") (keyRow_passes rows) (keyRow_passes rows') (RateLimiter.new (1 : ℚ) 1)
    (RateLimiter.new 1 1) rfl rfl rfl agree oneId id (by simp [rows, Row.key, keyRow, oneId])
      (by simp [rows', Row.key, keyRow, otherConsumer, oneId])
    (.createConsumer "c" none) rfl
  refine ⟨s, s', reach, reach', ?_, ?_, same.1⟩
  · rw [Db.all, rows]
    rfl
  · rw [Db.all, rows']
    rfl

end Noninterference

end Dropless
