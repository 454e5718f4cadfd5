import Dropless.Engine
import Dropless.Txn.Perform

namespace Dropless

abbrev World := Txn.World lang Time (List Uuid)
abbrev Scene := Txn.Scene schema lang Time

/- The rows that the next statement of a transaction sees. -/
def view (db : Db) (done : List (Txn.Done Row lang)) : Db := db.apply (done.flatMap Txn.Done.writes)

@[simp] theorem view_push (db : Db) (done : List (Txn.Done Row lang)) (d : Txn.Done Row lang) :
    view db (done ++ [d]) = (view db done).apply d.writes := by
  simp [view, Txn.Store.apply_append]

abbrev Scene.outside (n : Nat) (db : Db) (units : List (List Ran)) : Scene := ⟨n, db, none, units⟩

abbrev Scene.inside (n : Nat) (db : Db) (t : Time) (done : List (Txn.Done Row lang))
    (units : List (List Ran)) : Scene := ⟨n, db, some ⟨t, done⟩, units⟩

def perform {α : Type} (κ : Prims) (cfg : DispatcherConfig) (W : World) (s : Scene) (x : Io α) :
    Except CoreError α × Scene := Txn.perform (engine κ cfg) W s x.run

section Rules

variable {κ : Prims} {cfg : DispatcherConfig} {W : World} {α β : Type} {n : Nat} {db : Db}
  {t : Time} {done : List (Txn.Done Row lang)} {us : List (List Ran)} {s : Scene}

theorem perform_bind (x : Io α) (f : α → Io β) :
    perform κ cfg W s (x >>= f) =
      match perform κ cfg W s x with
      | (.ok a, s') => perform κ cfg W s' (f a)
      | (.error e, s') => (.error e, s') := by
  refine (Txn.perform_then x f).trans ?_
  change _ = match Txn.perform (engine κ cfg) W s x with
    | (.ok a, s') => perform κ cfg W s' (f a)
    | (.error e, s') => (.error e, s')
  generalize Txn.perform (engine κ cfg) W s x = r
  obtain ⟨r, s'⟩ := r
  cases r <;> rfl

theorem perform_bind_ok {x : Io α} {f : α → Io β} {a : α} {s' : Scene}
    (h : perform κ cfg W s x = (.ok a, s')) :
    perform κ cfg W s (x >>= f) = perform κ cfg W s' (f a) := by
  rw [perform_bind, h]

theorem perform_bind_error {x : Io α} {f : α → Io β} {e : CoreError} {s' : Scene}
    (h : perform κ cfg W s x = (.error e, s')) :
    perform κ cfg W s (x >>= f) = (.error e, s') := by
  rw [perform_bind, h]

theorem perform_conclude (result : Except CoreError α → Result) (x : Io α) :
    Txn.perform (engine κ cfg) W s (conclude result x) =
      (result (perform κ cfg W s x).1, (perform κ cfg W s x).2) := Txn.perform_bind x.run _

theorem perform_ask (c : Call) (f : c.Reply → Io α) :
    perform κ cfg W s (ask c >>= f) =
      perform κ cfg W ⟨s.calls + 1, s.db, s.tx, s.units⟩ (f (W.answer s.calls c)) := rfl

theorem perform_begin (f : Unit → Io α) :
    perform κ cfg W (.outside n db us) (begin >>= f) =
      perform κ cfg W (.inside (n + 1) db (W.time n) [] us) (f ()) := rfl

theorem perform_query {q : Stmt} {out : q.Out} {ws : List Write}
    (ran : q.exec t W.choice (view db done) = .ok (out, ws)) :
    perform κ cfg W (.inside n db t done us) (query q) =
      (.ok out, .inside (n + 1) db t (done ++ [⟨q, out, ws⟩]) us) := by
  change ((raise ((Scene.inside n db t done us).exec (engine κ cfg) W q).1),
    ((Scene.inside n db t done us).exec (engine κ cfg) W q).2) = _
  simp only [Txn.Scene.exec]
  rw [show (engine κ cfg).exec q t W.choice
    (db.apply (Txn.Tx.writes ⟨t, done⟩)) = .ok (out, ws) from ran]
  rfl

theorem perform_query_error {q : Stmt} {e : DbError}
    (refused : q.exec t W.choice (view db done) = .error e) :
    perform κ cfg W (.inside n db t done us) (query q) =
      (.error (.db e), .outside (n + 1) db us) := by
  change ((raise ((Scene.inside n db t done us).exec (engine κ cfg) W q).1),
    ((Scene.inside n db t done us).exec (engine κ cfg) W q).2) = _
  simp only [Txn.Scene.exec]
  rw [show (engine κ cfg).exec q t W.choice (db.apply (Txn.Tx.writes ⟨t, done⟩)) = .error e
    from refused]
  rfl

/- The first statement of a transaction sees the committed rows. -/
theorem perform_first {q : Stmt} {out : q.Out} {ws : List Write}
    (ran : q.exec t W.choice db = .ok (out, ws)) :
    perform κ cfg W (.inside n db t [] us) (query q) =
      (.ok out, .inside (n + 1) db t [⟨q, out, ws⟩] us) := by
  have ran : q.exec t W.choice (view db []) = .ok (out, ws) := ran
  exact perform_query ran

theorem perform_first_error {q : Stmt} {e : DbError} (refused : q.exec t W.choice db = .error e) :
    perform κ cfg W (.inside n db t [] us) (query q) =
      (.error (.db e), .outside (n + 1) db us) := by
  have refused : q.exec t W.choice (view db []) = .error e := refused
  exact perform_query_error refused

theorem perform_alone {q : Stmt} {out : q.Out} {ws : List Write}
    (ran : q.exec (W.time n) W.choice db = .ok (out, ws)) :
    perform κ cfg W (.outside n db us) (query q) =
      (.ok out, .outside (n + 1) (db.apply ws) ([⟨q, out⟩] :: us)) := by
  change ((raise ((Scene.outside n db us).exec (engine κ cfg) W q).1),
    ((Scene.outside n db us).exec (engine κ cfg) W q).2) = _
  simp only [Txn.Scene.exec]
  rw [show (engine κ cfg).exec q (W.time n) W.choice db = .ok (out, ws) from ran]
  rfl

theorem perform_alone_error {q : Stmt} {e : DbError}
    (refused : q.exec (W.time n) W.choice db = .error e) :
    perform κ cfg W (.outside n db us) (query q) = (.error (.db e), .outside (n + 1) db us) := by
  change ((raise ((Scene.outside n db us).exec (engine κ cfg) W q).1),
    ((Scene.outside n db us).exec (engine κ cfg) W q).2) = _
  simp only [Txn.Scene.exec]
  rw [show (engine κ cfg).exec q (W.time n) W.choice db = .error e from refused]
  rfl

theorem perform_outcome (x : Io α) (f : Except CoreError α → Io β) :
    perform κ cfg W s (outcome x >>= f) =
      perform κ cfg W (perform κ cfg W s x).2 (f (perform κ cfg W s x).1) := by
  rw [perform_bind]
  have caught : perform κ cfg W s (outcome x) =
      (.ok (perform κ cfg W s x).1, (perform κ cfg W s x).2) := Txn.perform_bind x.run _
  rw [caught]

end Rules

section Statements

variable {now : Time} {skipped : List Uuid} {db : Db}

def nulFree (s : String) : Prop := '\x00' ∉ s.toList

instance (s : String) : Decidable (nulFree s) := inferInstanceAs (Decidable (¬ _))

theorem admitted_iff {q : Stmt} : q.admitted = true ↔ ∀ s ∈ q.texts, nulFree s := by
  simp [Stmt.admitted, nulFree]

theorem exec_admitted {q : Stmt} (free : ∀ s ∈ q.texts, nulFree s) :
    q.exec now skipped db = q.run now skipped db := by
  rw [Stmt.exec, if_pos (admitted_iff.mpr free)]

theorem exec_refused {q : Stmt} {s : String} (mem : s ∈ q.texts) (nul : ¬ nulFree s) :
    q.exec now skipped db = .error .other := by
  rw [Stmt.exec, if_neg fun admitted => nul (admitted_iff.mp admitted s mem)]

theorem insert_fresh {α : Type} [Record α] {a : α}
    (fresh : db.find? (Record.id a) = (none : Option α))
    (fits : db.Admits (Record.row a)) : Store.insert db a = .ok [⟨none, Record.row a⟩] := by
  have new : db.get? (Record.row a).key = none := by
    rw [Record.key_row]
    exact Db.find?_none.mp fresh
  simp [Store.insert, new, fits]

theorem references_ok {α : Type} [Record α] {id : Uuid} {a : α} (found : db.find? id = some a) :
    Store.references α db id = .ok () := by
  simp [Store.references, found]

theorem admits_plain {r : Row} (plain : r.index = []) : db.Admits r := by
  rintro x - other (same | ⟨i, -, mem⟩)
  · exact other same
  · rw [show schema.index r = [] from plain] at mem
    cases mem

end Statements

/-- The ids of the first `m` calls are all different, and from the `n`-th call on in no row. -/
structure Fresh (W : World) (n m : Nat) (db : Db) : Prop where
  apart : ∀ i < m, ∀ j < m, W.answer i .newUuid = W.answer j .newUuid → i = j
  unused : ∀ i < m, n ≤ i → ∀ r ∈ db.rows, r.key.id ≠ W.answer i .newUuid

namespace Fresh

variable {W : World} {n m : Nat} {db : Db}

theorem find {α : Type} [Record α] (fresh : Fresh W n m db) {i : Nat} (drawn : i < m)
    (later : n ≤ i) : db.find? (W.answer i .newUuid) = (none : Option α) := by
  refine Db.find?_none.mpr (Txn.Store.get?_none.mpr fun r mem same => ?_)
  exact fresh.unused i drawn later r mem (congrArg Key.id same)

theorem later (fresh : Fresh W n m db) {n' : Nat} (more : n ≤ n') : Fresh W n' m db :=
  ⟨fresh.apart, fun i drawn at_ => fresh.unused i drawn (Nat.le_trans more at_)⟩

theorem put (fresh : Fresh W n m db) {r : Row} (fits : db.Admits r) {i : Nat} (drawn : i < m)
    (past : i < n) (own : r.key.id = W.answer i .newUuid) : Fresh W n m (db.put r) := by
  refine ⟨fresh.apart, fun j drawn' at_ x mem same => ?_⟩
  rw [Txn.Store.put_rows fits] at mem
  rcases Txn.Store.mem_place mem with rfl | old
  · have eq := fresh.apart i drawn j drawn' (own.symm.trans same)
    omega
  · exact fresh.unused j drawn' at_ x old same

end Fresh

def steady (now : Time) : World where
  time _ := now
  choice := []
  answer
    | _, .utcNow => now
    | n, .newUuid => BitVec.ofNat 128 (n + 1000)
    | _, .jitter ceiling => ⟨0, Nat.succ_pos ceiling⟩
    | _, .post _ => .error ""
    | _, .generateSecret => ""
    | _, .rateLimit _ => none
  lost := .other

theorem steady_fresh {db : Db} {m : Nat} (now : Time) (few : m ≤ 2 ^ 64)
    (small : ∀ r ∈ db.rows, r.key.id.toNat < 1000) : Fresh (steady now) 0 m db := by
  have id : ∀ i < m, ((steady now).answer i .newUuid : Uuid).toNat = i + 1000 := by
    intro i drawn
    rw [steady, BitVec.toNat_ofNat]
    omega
  refine ⟨fun i hi j hj same => ?_, fun i hi _ r mem same => ?_⟩
  · have eq := congrArg BitVec.toNat same
    rw [id i hi, id j hj] at eq
    omega
  · have eq := congrArg BitVec.toNat same
    have low := small r mem
    rw [id i hi] at eq
    omega

end Dropless
