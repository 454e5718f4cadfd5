import Dropless.Circuit
import Dropless.Signing
import Dropless.Shapes

namespace Dropless

/- The request that `process_one` sends; `content-type` is always JSON. -/
structure Request where
  url : String
  idempotencyKey : String
  webhookId : String
  webhookTimestamp : String
  webhookSignature : String
  eventType : String
  body : Bytes
deriving DecidableEq

structure Response where
  status : UInt16
  text : String
deriving DecidableEq

namespace Response

/- `StatusCode::is_success`. -/
def isSuccess (r : Response) : Bool := 200 ≤ r.status ∧ r.status < 300

def code (r : Response) : Int32 := r.status.toUInt32.toInt32

end Response

inductive Call where
  | utcNow
  | newUuid
  | jitter (ceilMs : Nat)
  | post (request : Request)
  | generateSecret
  | rateLimit (tenant : String)

@[reducible] def Call.Reply : Call → Type
  | .utcNow => Time
  | .newUuid => Uuid
  | .jitter ceilMs => Fin (ceilMs + 1)
  | .post _ => Except String Response
  | .generateSecret => String
  | .rateLimit _ => Option Nat

abbrev lang : Txn.Lang := ⟨Stmt, Stmt.Out, Call, Call.Reply, DbError⟩

abbrev Op := Txn.Op lang
abbrev Ran := Txn.Ran lang
abbrev Past := Txn.Past lang
abbrev Prog := Txn.Prog lang
abbrev Io := Txn.Fallible lang CoreError

/- `?` on a database result. -/
def raise {α : Type} : Except DbError α → Except CoreError α
  | .ok a => .ok a
  | .error e => .error (.db e)

def query (q : Stmt) : Io q.Out :=
  .mk (.call (.stmt q : Op) fun r : Except DbError q.Out => .ret (raise r))

def begin : Io Unit := .mk (.call (.begin : Op) fun r : Except DbError Unit => .ret (raise r))

def commit : Io Unit := .mk (.call (.commit : Op) fun r : Except DbError Unit => .ret (raise r))

def rollback : Io Unit := .mk (.call (.rollback : Op) fun r : Except DbError Unit => .ret (raise r))

def ask (c : Call) : Io c.Reply := .mk (.call (.env c : Op) fun r : c.Reply => .ret (.ok r))

def utcNow : Io Time := ask .utcNow

def newUuid : Io Uuid := ask .newUuid

/- A call whose result is matched on, not passed up with `?`. -/
def outcome {α : Type} (x : Io α) :
    Io (Except CoreError α) := .mk (Txn.Prog.bind x.run fun r => .ret (.ok r))

section Runs

variable {α : Type} {Φ : Past → Op → Prop} {past : Past}

theorem runs_query {q : Stmt} {Q : Past → q.Out → Prop} :
    Txn.Runs Φ past (query q) Q ↔ Φ past (.stmt q) ∧
      ∀ out : q.Out, Q (past.after (.stmt q : Op) (.ok out : Except DbError q.Out)) out := by
  refine and_congr_right fun _ => ⟨fun h out => h (.ok out) out rfl, fun h r a eq => ?_⟩
  cases r with
  | error e => cases eq
  | ok out => cases eq; exact h a

theorem runs_begin {Q : Past → Unit → Prop} :
    Txn.Runs Φ past begin Q ↔ Φ past .begin ∧
      Q (past.after (.begin : Op) (.ok () : Except DbError Unit)) () := by
  refine and_congr_right fun _ => ⟨fun h => h (.ok ()) () rfl, fun h r a eq => ?_⟩
  cases r with
  | error e => cases eq
  | ok out => cases eq; exact h

theorem runs_commit {Q : Past → Unit → Prop} :
    Txn.Runs Φ past commit Q ↔ Φ past .commit ∧
      Q (past.after (.commit : Op) (.ok () : Except DbError Unit)) () := by
  refine and_congr_right fun _ => ⟨fun h => h (.ok ()) () rfl, fun h r a eq => ?_⟩
  cases r with
  | error e => cases eq
  | ok out => cases eq; exact h

theorem runs_rollback {Q : Past → Unit → Prop} :
    Txn.Runs Φ past rollback Q ↔ Φ past .rollback ∧
      Q (past.after (.rollback : Op) (.ok () : Except DbError Unit)) () := by
  refine and_congr_right fun _ => ⟨fun h => h (.ok ()) () rfl, fun h r a eq => ?_⟩
  cases r with
  | error e => cases eq
  | ok out => cases eq; exact h

theorem runs_ask {c : Call} {Q : Past → c.Reply → Prop} :
    Txn.Runs Φ past (ask c) Q ↔ Φ past (.env c) ∧
      ∀ r : c.Reply, Q (past.after (.env c : Op) r) r := by
  refine and_congr_right fun _ => ⟨fun h r => h r r rfl, fun h r a eq => ?_⟩
  cases eq
  exact h r

theorem runs_outcome {x : Io α} {Q : Past → Except CoreError α → Prop} :
    Txn.Runs Φ past (outcome x) Q ↔ Txn.Along Φ Q past x := by
  refine (Txn.along_bind x _ past).trans (iff_of_eq ?_)
  congr 1
  funext now r
  refine propext ⟨fun h => h r rfl, fun h a eq => ?_⟩
  cases eq
  exact h

theorem ask_then {c : Call} {f : c.Reply → Io α} {Q : Past → α → Prop} (may : Φ past (.env c))
    (next : ∀ r, Txn.Runs Φ (past.after (.env c : Op) r) (f r) Q) :
    Txn.Runs Φ past (ask c >>= f) Q :=
  (Txn.runs_bind _ _ _).mpr (runs_ask.mpr ⟨may, next⟩)

theorem query_then {q : Stmt} {f : q.Out → Io α} {Q : Past → α → Prop} (may : Φ past (.stmt q))
    (next : ∀ out, Txn.Runs Φ (past.after (.stmt q : Op) (.ok out : Except DbError q.Out))
      (f out) Q) : Txn.Runs Φ past (query q >>= f) Q :=
  (Txn.runs_bind _ _ _).mpr (runs_query.mpr ⟨may, next⟩)

theorem begin_then {f : Unit → Io α} {Q : Past → α → Prop} (may : Φ past .begin)
    (next : Txn.Runs Φ (past.after (.begin : Op) (.ok () : Except DbError Unit)) (f ()) Q) :
    Txn.Runs Φ past (begin >>= f) Q :=
  (Txn.runs_bind _ _ _).mpr (runs_begin.mpr ⟨may, next⟩)

theorem commit_then {f : Unit → Io α} {Q : Past → α → Prop} (may : Φ past .commit)
    (next : Txn.Runs Φ (past.after (.commit : Op) (.ok () : Except DbError Unit)) (f ()) Q) :
    Txn.Runs Φ past (commit >>= f) Q :=
  (Txn.runs_bind _ _ _).mpr (runs_commit.mpr ⟨may, next⟩)

theorem rollback_then {f : Unit → Io α} {Q : Past → α → Prop} (may : Φ past .rollback)
    (next : Txn.Runs Φ (past.after (.rollback : Op) (.ok () : Except DbError Unit)) (f ()) Q) :
    Txn.Runs Φ past (rollback >>= f) Q :=
  (Txn.runs_bind _ _ _).mpr (runs_rollback.mpr ⟨may, next⟩)

end Runs

end Dropless
