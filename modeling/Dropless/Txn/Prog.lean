import Mathlib.Data.List.Basic

/-! Client programs as trees of calls and answers. A call opens, ends or uses a
database transaction, or asks the outside world. The protocol predicate `Along`
says what a program may call next in terms of its own past, for every answer it
could get; it is a fact about the program text, free of any interleaving. -/
namespace Txn

/-- Statements and outside calls of a client language, with what they answer. -/
structure Lang where
  Stmt : Type
  Out : Stmt → Type
  Call : Type
  Reply : Call → Type
  Err : Type

inductive Op (L : Lang) where
  | begin
  | commit
  | rollback
  | stmt (s : L.Stmt)
  | env (c : L.Call)

def Op.Ans {L : Lang} : Op L → Type
  | .begin => Except L.Err Unit
  | .commit => Except L.Err Unit
  | .rollback => Except L.Err Unit
  | .stmt s => Except L.Err (L.Out s)
  | .env c => L.Reply c

inductive Prog (L : Lang) (α : Type) where
  | ret (a : α)
  | call (op : Op L) (k : op.Ans → Prog L α)

namespace Prog

variable {L : Lang} {α β : Type}

def bind (p : Prog L α) (f : α → Prog L β) : Prog L β :=
  match p with
  | .ret a => f a
  | .call op k => .call op fun ans => (k ans).bind f

instance : Monad (Prog L) where
  pure := .ret
  bind := .bind

def perform (op : Op L) : Prog L op.Ans := .call op .ret

end Prog

abbrev Ran (L : Lang) := Σ s : L.Stmt, L.Out s

/-- What a program has seen: its calls, newest first, the statements of its open
transaction, oldest first, and the units it was told are durable. -/
structure Past (L : Lang) where
  calls : List (Σ op : Op L, op.Ans)
  tx : Option (List (Ran L))
  known : List (List (Ran L))

namespace Past

variable {L : Lang}

def start : Past L := ⟨[], none, []⟩

/-- An error inside a transaction drops it: the handle goes out of scope with `?`. -/
def txAfter (tx : Option (List (Ran L))) : (op : Op L) → op.Ans → Option (List (Ran L))
  | .begin, .ok _ => some []
  | .begin, .error _ => none
  | .commit, _ => none
  | .rollback, _ => none
  | .stmt s, .ok out => tx.map (· ++ [⟨s, out⟩])
  | .stmt _, .error _ => none
  | .env _, _ => tx

/-- A statement outside a transaction is a unit of its own. -/
def told (tx : Option (List (Ran L))) : (op : Op L) → op.Ans → List (List (Ran L))
  | .commit, .ok _ => tx.toList
  | .stmt s, .ok out => if tx.isNone then [[⟨s, out⟩]] else []
  | _, _ => []

def after (p : Past L) (op : Op L) (ans : op.Ans) : Past L :=
  ⟨⟨op, ans⟩ :: p.calls, txAfter p.tx op ans, told p.tx op ans ++ p.known⟩

end Past

/-- Every call of the program meets `Φ` when it is made, and every result meets `Q`. -/
def Along {L : Lang} {α : Type} (Φ : Past L → Op L → Prop) (Q : Past L → α → Prop)
    (past : Past L) : Prog L α → Prop
  | .ret a => Q past a
  | .call op k => Φ past op ∧ ∀ ans, Along Φ Q (past.after op ans) (k ans)

section Along

variable {L : Lang} {α β E : Type} {Φ : Past L → Op L → Prop}

theorem along_bind {Q : Past L → β → Prop} (p : Prog L α) (f : α → Prog L β) (past : Past L) :
    Along Φ Q past (p.bind f) ↔ Along Φ (fun now a => Along Φ Q now (f a)) past p := by
  induction p generalizing past with
  | ret a => rfl
  | call op k ih => simp only [Prog.bind, Along, ih]

theorem Along.mono {Q R : Past L → α → Prop} {p : Prog L α} {past : Past L}
    (h : Along Φ Q past p) (weaker : ∀ now a, Q now a → R now a) : Along Φ R past p := by
  induction p generalizing past with
  | ret a => exact weaker past a h
  | call op k ih => exact ⟨h.1, fun ans => ih ans (h.2 ans)⟩

theorem Along.grows {Q : Past L → α → Prop} {p : Prog L α} {past : Past L} (h : Along Φ Q past p) :
    Along Φ (fun now a => Q now a ∧ ∃ new, now.calls = new ++ past.calls) past p := by
  induction p generalizing past with
  | ret a => exact ⟨h, [], rfl⟩
  | call op k ih =>
    refine ⟨h.1, fun ans => (ih ans (h.2 ans)).mono fun now a ends => ⟨ends.1, ?_⟩⟩
    obtain ⟨_, new, calls⟩ := ends
    exact ⟨new ++ [⟨op, ans⟩], by rw [calls, List.append_assoc]; rfl⟩

/- A rule may be replaced by a weaker one. -/
theorem Along.relax {Ψ : Past L → Op L → Prop} {Q : Past L → α → Prop} {p : Prog L α}
    {past : Past L} (h : Along Φ Q past p) (weaker : ∀ now op, Φ now op → Ψ now op) :
    Along Ψ Q past p := by
  induction p generalizing past with
  | ret a => exact h
  | call op k ih => exact ⟨weaker past op h.1, fun ans => ih ans (h.2 ans)⟩

theorem along_any {Q : Past L → α → Prop} (may : ∀ now op, Φ now op) (ends : ∀ now a, Q now a)
    (p : Prog L α) (past : Past L) : Along Φ Q past p := by
  induction p generalizing past with
  | ret a => exact ends past a
  | call op k ih => exact ⟨may past op, fun ans => ih ans _⟩

/-- A program with early return: `?` ends it at the first error. -/
abbrev Fallible (L : Lang) (E : Type) := ExceptT E (Prog L)

theorem along_then {Q : Past L → Except E β → Prop} (x : Fallible L E α)
    (f : α → Fallible L E β) (past : Past L) :
    Along Φ Q past (x >>= f : Fallible L E β) ↔
      Along Φ (fun now r => match r with
        | .ok a => Along Φ Q now (f a)
        | .error e => Q now (.error e)) past x := by
  refine (along_bind x _ past).trans (iff_of_eq ?_)
  congr 1
  funext now r
  cases r <;> rfl

/-- Every call meets `Φ`, and a result that is not an error meets `Q`. -/
def Runs (Φ : Past L → Op L → Prop) (past : Past L) (x : Fallible L E α)
    (Q : Past L → α → Prop) : Prop :=
  Along Φ (fun now r => ∀ a, r = .ok a → Q now a) past x

theorem runs_bind {Q : Past L → β → Prop} (x : Fallible L E α) (f : α → Fallible L E β)
    (past : Past L) :
    Runs Φ past (x >>= f) Q ↔ Runs Φ past x fun now a => Runs Φ now (f a) Q := by
  refine (along_then x f past).trans (iff_of_eq ?_)
  simp only [Runs]
  congr 1
  funext now r
  cases r with
  | ok a => simp
  | error e => simp

theorem runs_pure {Q : Past L → α → Prop} {a : α} {past : Past L} :
    Runs Φ past (pure a : Fallible L E α) Q ↔ Q past a := by
  change (∀ b, Except.ok a = Except.ok b → Q past b) ↔ Q past a
  constructor
  · exact fun h => h a rfl
  · rintro h b ⟨⟩
    exact h

theorem runs_throw {Q : Past L → α → Prop} {e : E} {past : Past L} :
    Runs Φ past (throw e : Fallible L E α) Q := by
  intro a h
  cases h

theorem Runs.mono {Q R : Past L → α → Prop} {x : Fallible L E α} {past : Past L}
    (h : Runs Φ past x Q) (weaker : ∀ now a, Q now a → R now a) : Runs Φ past x R :=
  Along.mono h fun now _ q a eq => weaker now a (q a eq)

end Along

/-- A call that a program can come to, with what it does with the answer. -/
inductive Makes {L : Lang} {α : Type} (op : Op L) (k : op.Ans → Prog L α) : Prog L α → Prop where
  | here : Makes op k (.call op k)
  | later {op' : Op L} {k' : op'.Ans → Prog L α} (ans : op'.Ans) (rest : Makes op k (k' ans)) :
      Makes op k (.call op' k')

section Makes

variable {L : Lang} {α β E : Type} {op : Op L}

theorem makes_bind {p : Prog L α} {f : α → Prog L β} {k : op.Ans → Prog L β}
    (made : Makes op k (p.bind f)) :
    (∃ k', Makes op k' p ∧ k = fun ans => (k' ans).bind f) ∨ ∃ a, Makes op k (f a) := by
  induction p with
  | ret a => exact .inr ⟨a, made⟩
  | call op' k' ih =>
    cases made with
    | here => exact .inl ⟨k', .here, rfl⟩
    | later ans rest =>
      rcases ih ans rest with ⟨k₁, inner, eq⟩ | after
      · exact .inl ⟨k₁, .later ans inner, eq⟩
      · exact .inr after

theorem makes_then {x : Fallible L E α} {f : α → Fallible L E β} {k : op.Ans → Prog L (Except E β)}
    (made : Makes op k (x >>= f : Fallible L E β)) :
    (∃ k' : op.Ans → Prog L (Except E α), Makes op k' x ∧
      k = fun ans => (show Fallible L E α from k' ans) >>= f) ∨ ∃ a, Makes op k (f a) := by
  rcases makes_bind made with inner | ⟨r, after⟩
  · exact .inl inner
  · cases r with
    | ok a => exact .inr ⟨a, after⟩
    | error e => cases after

theorem makes_once {op' : Op L} {g : op'.Ans → α} {k : op.Ans → Prog L α}
    (made : Makes op k (.call op' fun ans => .ret (g ans))) :
    op = op' := by
  cases made with
  | here => rfl
  | later ans rest => cases rest

variable {is : Op L → Prop} {p : Prog L α} {past : Past L}

theorem Makes.trans {op' : Op L} {k : op.Ans → Prog L α} {k' : op'.Ans → Prog L α} {ans : op.Ans}
    (first : Makes op k p) (rest : Makes op' k' (k ans)) : Makes op' k' p := by
  induction first with
  | here => exact .later ans rest
  | later ans' _ ih => exact .later ans' ih

/- A program that keeps to a rule keeps to it wherever it comes to. -/
theorem Along.made {Φ : Past L → Op L → Prop} {Q : Past L → α → Prop} {k : op.Ans → Prog L α}
    (h : Along Φ Q past p) (made : Makes op k p) : ∃ now, Φ now op := by
  induction made generalizing past with
  | here => exact ⟨past, h.1⟩
  | later ans _ ih => exact ih (h.2 ans)

theorem along_never (never : ∀ op k, is op → ¬ Makes op k p) :
    Along (fun _ op => ¬ is op) (fun _ _ => True) past p := by
  induction p generalizing past with
  | ret a => trivial
  | call op k ih =>
    refine ⟨fun same => never op k same .here, fun ans => ih ans ?_⟩
    exact fun op' k' same made => never op' k' same (.later ans made)

theorem along_free (never : ∀ op k, is op → ¬ Makes op k p)
    (free : ∀ call ∈ past.calls, ¬ is call.1) :
    Along (fun now _ => ∀ call ∈ now.calls, ¬ is call.1)
      (fun now _ => ∀ call ∈ now.calls, ¬ is call.1) past p := by
  induction p generalizing past with
  | ret a => exact free
  | call op k ih =>
    refine ⟨free, fun ans => ih ans ?_ ?_⟩
    · exact fun op' k' same made => never op' k' same (.later ans made)
    · intro call mem
      rcases List.mem_cons.mp mem with rfl | mem
      · exact fun same => never op k same .here
      · exact free call mem

/-- A kind of call that no program comes to after it has made it is made at most once. -/
theorem along_once (fresh : ∀ call ∈ past.calls, ¬ is call.1)
    (once : ∀ op k ans op' k', is op → Makes op k p → is op' → ¬ Makes op' k' (k ans)) :
    Along (fun now op => is op → ∀ call ∈ now.calls, ¬ is call.1) (fun _ _ => True) past p := by
  induction p generalizing past with
  | ret a => trivial
  | call op k ih =>
    refine ⟨fun _ => fresh, fun ans => ?_⟩
    by_cases same : is op
    · have never : Along (fun _ op => ¬ is op) (fun _ _ => True) (past.after op ans) (k ans) :=
        along_never (once op k ans · · same .here ·)
      exact never.relax fun _ _ other own => absurd own other
    · refine ih ans ?_ ?_
      · intro call mem
        rcases List.mem_cons.mp mem with rfl | mem
        · exact same
        · exact fresh call mem
      · exact fun op₁ k₁ ans₁ op' k' own made => once op₁ k₁ ans₁ op' k' own (.later ans made)

end Makes

end Txn
