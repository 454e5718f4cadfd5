import Mathlib.Data.List.Basic
import Mathlib.Data.List.Induction
import Mathlib.Data.List.Pairwise

/-! A keyed store of row versions with unique indexes, and the write sets of
transactions over it. A write keeps the version it replaces, so that a write set
can be checked again after other write sets were applied. Nothing here names a
table: the schema is a parameter. -/
set_option linter.unusedSectionVars false

namespace Txn

/-- The primary key of a row, and the entries it makes in the unique indexes. -/
structure Schema (V K I : Type) where
  key : V → K
  index : V → List I

variable {V K I : Type} [DecidableEq K] [DecidableEq I]

/-- Two row versions that a store cannot hold side by side. -/
def Schema.Clash (σ : Schema V K I) (a b : V) : Prop :=
  σ.key a = σ.key b ∨ ∃ i ∈ σ.index a, i ∈ σ.index b

instance (σ : Schema V K I) (a b : V) : Decidable (σ.Clash a b) :=
  inferInstanceAs (Decidable (_ ∨ _))

theorem Schema.Clash.symm {σ : Schema V K I} {a b : V} (h : σ.Clash a b) : σ.Clash b a := by
  rcases h with same | ⟨i, ha, hb⟩
  · exact .inl same.symm
  · exact .inr ⟨i, hb, ha⟩

structure Store (σ : Schema V K I) where
  rows : List V
  apart : rows.Pairwise (fun a b => ¬ σ.Clash a b)

variable {σ : Schema V K I}

namespace Store

def empty : Store σ := ⟨[], .nil⟩

def get? (s : Store σ) (k : K) : Option V := s.rows.find? (fun r => σ.key r = k)

/-- No row under another key shares an index entry with the new version. -/
def Admits (s : Store σ) (r : V) : Prop := ∀ x ∈ s.rows, σ.key x ≠ σ.key r → ¬ σ.Clash x r

instance (s : Store σ) (r : V) : Decidable (s.Admits r) :=
  inferInstanceAs (Decidable (∀ x ∈ s.rows, _))

def place (σ : Schema V K I) (r : V) : List V → List V
  | [] => [r]
  | x :: xs => if σ.key x = σ.key r then r :: xs else x :: place σ r xs

theorem mem_place {r y : V} {xs : List V} (h : y ∈ place σ r xs) : y = r ∨ y ∈ xs := by
  induction xs with
  | nil => exact .inl (by simpa [place] using h)
  | cons x xs ih =>
    simp only [place] at h
    split at h
    · rcases List.mem_cons.mp h with h | h
      · exact .inl h
      · exact .inr (List.mem_cons_of_mem _ h)
    · rcases List.mem_cons.mp h with h | h
      · exact .inr (h ▸ List.mem_cons_self)
      · exact (ih h).imp id (List.mem_cons_of_mem _)

theorem place_apart {r : V} {xs : List V} (apart : xs.Pairwise (fun a b => ¬ σ.Clash a b))
    (fits : ∀ x ∈ xs, σ.key x ≠ σ.key r → ¬ σ.Clash x r) :
    (place σ r xs).Pairwise (fun a b => ¬ σ.Clash a b) := by
  induction xs with
  | nil => exact List.pairwise_singleton _ _
  | cons x xs ih =>
    obtain ⟨hx, hxs⟩ := List.pairwise_cons.mp apart
    simp only [place]
    split
    · rename_i same
      refine List.pairwise_cons.mpr ⟨fun y hy clash => ?_, hxs⟩
      have other : σ.key y ≠ σ.key r := fun eq => hx y hy (.inl (same.trans eq.symm))
      exact fits y (List.mem_cons_of_mem _ hy) other clash.symm
    · rename_i other
      refine List.pairwise_cons.mpr
        ⟨fun y hy => ?_, ih hxs fun z hz => fits z (List.mem_cons_of_mem _ hz)⟩
      rcases mem_place hy with rfl | hy
      · exact fits x List.mem_cons_self other
      · exact hx y hy

/-- File a row version: in the place of the version it replaces, else at the end.
A version that a unique index refuses leaves the store as it is. -/
def put (s : Store σ) (r : V) : Store σ :=
  if h : s.Admits r then ⟨place σ r s.rows, place_apart s.apart h⟩ else s

theorem put_rows {s : Store σ} {r : V} (h : s.Admits r) : (s.put r).rows = place σ r s.rows := by
  simp only [put, dif_pos h]

theorem get?_some {s : Store σ} {k : K} {r : V} (h : s.get? k = some r) :
    r ∈ s.rows ∧ σ.key r = k :=
  ⟨List.mem_of_find?_eq_some h, by simpa using List.find?_some h⟩

theorem get?_of_mem {s : Store σ} {r : V} (h : r ∈ s.rows) : s.get? (σ.key r) = some r := by
  obtain ⟨rows, apart⟩ := s
  simp only [get?] at h ⊢
  induction rows with
  | nil => cases h
  | cons x xs ih =>
    obtain ⟨hx, hxs⟩ := List.pairwise_cons.mp apart
    rcases List.mem_cons.mp h with rfl | h
    · simp
    · have other : σ.key x ≠ σ.key r := fun eq => hx r h (.inl eq)
      simpa [List.find?_cons, other] using ih hxs h

theorem apart_of_key_ne {s : Store σ} {a b : V} (ha : a ∈ s.rows) (hb : b ∈ s.rows)
    (other : σ.key a ≠ σ.key b) : ¬ σ.Clash a b := by
  have symmetric : Std.Symm fun x y => σ.key x ≠ σ.key y → ¬ σ.Clash x y :=
    ⟨fun _ _ free differ clash => free differ.symm clash.symm⟩
  have pairs : s.rows.Pairwise fun x y => σ.key x ≠ σ.key y → ¬ σ.Clash x y := by
    refine s.apart.imp ?_
    intro x y free _
    exact free
  exact pairs.forall_of_forall (fun _ _ differ => absurd rfl differ) ha hb other

theorem get?_none {s : Store σ} {k : K} : s.get? k = none ↔ ∀ r ∈ s.rows, σ.key r ≠ k := by
  simp [get?, List.find?_eq_none]

theorem find?_place (r : V) (xs : List V) (k : K) :
    (place σ r xs).find? (fun y => σ.key y = k) =
      if σ.key r = k then some r else xs.find? (fun y => σ.key y = k) := by
  induction xs with
  | nil => by_cases h : σ.key r = k <;> simp [place, h]
  | cons x xs ih =>
    simp only [place]
    split
    · rename_i same
      by_cases h : σ.key r = k
      · simp [h]
      · simp [h, same]
    · rename_i other
      by_cases h : σ.key r = k
      · have hx : σ.key x ≠ k := fun eq => other (eq.trans h.symm)
        simp [hx, ih, h]
      · simp only [List.find?_cons, ih, h, if_false]

theorem get?_put {s : Store σ} {r : V} (h : s.Admits r) (k : K) :
    (s.put r).get? k = if σ.key r = k then some r else s.get? k := by
  simp only [get?, put_rows h, find?_place]

theorem admits_iff {s : Store σ} {r : V} :
    s.Admits r ↔ ∀ k x, s.get? k = some x → k ≠ σ.key r → ¬ σ.Clash x r := by
  constructor
  · intro h k x hx hk
    obtain ⟨mem, rfl⟩ := get?_some hx
    exact h x mem hk
  · exact fun h x hx hk => h (σ.key x) x (get?_of_mem hx) hk

def Same (s t : Store σ) : Prop := ∀ k, s.get? k = t.get? k

theorem Same.symm {s t : Store σ} (h : s.Same t) : t.Same s := fun k => (h k).symm

theorem Same.trans {s t u : Store σ} (h : s.Same t) (g : t.Same u) : s.Same u :=
  fun k => (h k).trans (g k)

theorem Same.admits {s t : Store σ} (h : s.Same t) {r : V} (fits : s.Admits r) : t.Admits r := by
  rw [admits_iff] at fits ⊢
  exact fun k x hx => fits k x ((h k).trans hx)

theorem Same.put {s t : Store σ} (h : s.Same t) {r : V} (fits : s.Admits r) :
    (s.put r).Same (t.put r) := by
  intro k
  rw [get?_put fits, get?_put (h.admits fits), h k]

theorem admits_put {s : Store σ} {a b : V} (ha : s.Admits a) (hb : s.Admits b)
    (free : ¬ σ.Clash a b) : (s.put a).Admits b := by
  rw [admits_iff] at hb ⊢
  intro k x hx hk
  rw [get?_put ha] at hx
  split at hx
  · cases hx; exact free
  · exact hb k x hx hk

theorem put_comm {s : Store σ} {a b : V} (ha : s.Admits a) (hb : s.Admits b)
    (free : ¬ σ.Clash a b) : ((s.put a).put b).Same ((s.put b).put a) := by
  intro k
  have other : σ.key a ≠ σ.key b := fun eq => free (.inl eq)
  rw [get?_put (admits_put ha hb free), get?_put (admits_put hb ha fun h => free h.symm),
    get?_put ha, get?_put hb]
  by_cases h : σ.key a = k
  · have hk : σ.key b ≠ k := fun eq => other (h.trans eq.symm)
    simp [h, hk]
  · simp [h]

end Store

/-- A new row version, with the version it replaces. -/
structure Write (V : Type) where
  before : Option V
  after : V

namespace Store

def Accepts (s : Store σ) (w : Write V) : Prop :=
  s.get? (σ.key w.after) = w.before ∧ s.Admits w.after

def apply (s : Store σ) : List (Write V) → Store σ
  | [] => s
  | w :: ws => (s.put w.after).apply ws

/-- Every write of the set finds the version it replaces, in the store that the
earlier ones leave. -/
def Valid (s : Store σ) : List (Write V) → Prop
  | [] => True
  | w :: ws => s.Accepts w ∧ (s.put w.after).Valid ws

theorem apply_append (s : Store σ) (vs ws : List (Write V)) :
    s.apply (vs ++ ws) = (s.apply vs).apply ws := by
  induction vs generalizing s with
  | nil => rfl
  | cons v vs ih => exact ih _

theorem valid_append {s : Store σ} {vs ws : List (Write V)} :
    s.Valid (vs ++ ws) ↔ s.Valid vs ∧ (s.apply vs).Valid ws := by
  induction vs generalizing s with
  | nil => simp [Valid, apply]
  | cons v vs ih => simp only [List.cons_append, Valid, apply, ih, and_assoc]

theorem Same.valid {s t : Store σ} (h : s.Same t) {ws : List (Write V)} (valid : s.Valid ws) :
    t.Valid ws := by
  induction ws generalizing s t with
  | nil => trivial
  | cons w ws ih =>
    obtain ⟨⟨hb, ha⟩, rest⟩ := valid
    exact ⟨⟨(h _).symm.trans hb, h.admits ha⟩, ih (h.put ha) rest⟩

theorem Same.apply {s t : Store σ} (h : s.Same t) {ws : List (Write V)} (valid : s.Valid ws) :
    (s.apply ws).Same (t.apply ws) := by
  induction ws generalizing s t with
  | nil => exact h
  | cons w ws ih => exact ih (h.put valid.1.2) valid.2

/-- Write sets with no clash between them; what row and index locks enforce. -/
def Disjoint (σ : Schema V K I) (vs ws : List (Write V)) : Prop :=
  ∀ v ∈ vs, ∀ w ∈ ws, ¬ σ.Clash v.after w.after

instance (vs ws : List (Write V)) : Decidable (Disjoint σ vs ws) :=
  inferInstanceAs (Decidable (∀ v ∈ vs, ∀ w ∈ ws, _))

theorem Disjoint.symm {vs ws : List (Write V)} (h : Disjoint σ vs ws) : Disjoint σ ws vs :=
  fun w hw v hv clash => h v hv w hw clash.symm

theorem Disjoint.append {us vs ws : List (Write V)} (h : Disjoint σ us ws)
    (g : Disjoint σ vs ws) : Disjoint σ (us ++ vs) ws := by
  intro u hu
  rcases List.mem_append.mp hu with hu | hu
  · exact h u hu
  · exact g u hu

theorem accepts_put {s : Store σ} {v w : Write V} (hv : s.Accepts v) (hw : s.Accepts w)
    (free : ¬ σ.Clash v.after w.after) : (s.put v.after).Accepts w := by
  refine ⟨?_, admits_put hv.2 hw.2 free⟩
  rw [get?_put hv.2, if_neg fun eq => free (.inl eq)]
  exact hw.1

theorem valid_put {s : Store σ} {v : Write V} {ws : List (Write V)} (hv : s.Accepts v)
    (valid : s.Valid ws) (free : ∀ w ∈ ws, ¬ σ.Clash v.after w.after) :
    (s.put v.after).Valid ws ∧ ((s.apply ws).put v.after).Same ((s.put v.after).apply ws) ∧
      (s.apply ws).Accepts v := by
  induction ws generalizing s with
  | nil => exact ⟨trivial, fun _ => rfl, hv⟩
  | cons w ws ih =>
    obtain ⟨hw, rest⟩ := valid
    have apart := free w List.mem_cons_self
    have back : ¬ σ.Clash w.after v.after := fun h => apart h.symm
    obtain ⟨ihv, ihs, iha⟩ := ih (accepts_put hw hv back) rest
      fun x hx => free x (List.mem_cons_of_mem _ hx)
    have comm := put_comm hv.2 hw.2 apart
    refine ⟨⟨accepts_put hv hw apart, comm.symm.valid ihv⟩, ?_, iha⟩
    exact ihs.trans (comm.symm.apply ihv)

/-- The frame rule of write sets: a valid set stays valid when a disjoint valid set
is applied first. -/
theorem valid_frame {s : Store σ} {vs ws : List (Write V)} (hv : s.Valid vs) (hw : s.Valid ws)
    (apart : Disjoint σ vs ws) : (s.apply vs).Valid ws := by
  induction vs generalizing s with
  | nil => exact hw
  | cons v vs ih =>
    obtain ⟨first, rest⟩ := hv
    have next := (valid_put first hw (apart v List.mem_cons_self)).1
    exact ih rest next fun u hu => apart u (List.mem_cons_of_mem _ hu)

/-- A version that may replace another in place: same key, same index entries. -/
def Amends (σ : Schema V K I) (a b : V) : Prop := σ.key b = σ.key a ∧ σ.index b = σ.index a

theorem amends_accepts {s : Store σ} {a b : V} (found : s.get? (σ.key a) = some a)
    (amends : Amends σ a b) : s.Accepts ⟨some a, b⟩ := by
  refine ⟨amends.1.symm ▸ found, ?_⟩
  intro x hx other clash
  rcases clash with same | ⟨i, hi, hj⟩
  · exact other same
  · have differ : σ.key x ≠ σ.key a := fun eq => other (eq.trans amends.1.symm)
    exact apart_of_key_ne hx (get?_some found).1 differ (.inr ⟨i, hi, amends.2 ▸ hj⟩)

theorem valid_amends {s : Store σ} (pairs : List (V × V))
    (distinct : (pairs.map fun p => σ.key p.1).Nodup)
    (found : ∀ p ∈ pairs, s.get? (σ.key p.1) = some p.1 ∧ Amends σ p.1 p.2) :
    s.Valid (pairs.map fun p => ⟨some p.1, p.2⟩) := by
  induction pairs generalizing s with
  | nil => trivial
  | cons p pairs ih =>
    obtain ⟨fresh, rest⟩ := List.nodup_cons.mp distinct
    have first := found p List.mem_cons_self
    have accepts := amends_accepts first.1 first.2
    refine ⟨accepts, ih rest ?_⟩
    intro q hq
    have later := found q (List.mem_cons_of_mem _ hq)
    have other : σ.key p.2 ≠ σ.key q.1 := by
      intro eq
      exact fresh (List.mem_map.mpr ⟨q, hq, eq.symm.trans first.2.1⟩)
    refine ⟨?_, later.2⟩
    rw [get?_put accepts.2, if_neg other]
    exact later.1

theorem get?_apply_of_ne {s : Store σ} {ws : List (Write V)} (valid : s.Valid ws) {k : K}
    (other : ∀ w ∈ ws, σ.key w.after ≠ k) : (s.apply ws).get? k = s.get? k := by
  induction ws generalizing s with
  | nil => rfl
  | cons w ws ih =>
    rw [apply, ih valid.2 fun x hx => other x (List.mem_cons_of_mem _ hx),
      get?_put valid.1.2, if_neg (other w List.mem_cons_self)]

theorem get?_apply_written {s : Store σ} {xs ys : List (Write V)} {w : Write V}
    (valid : s.Valid (xs ++ w :: ys)) (last : ∀ y ∈ ys, σ.key y.after ≠ σ.key w.after) :
    (s.apply (xs ++ w :: ys)).get? (σ.key w.after) = some w.after := by
  obtain ⟨_, accepts, rest⟩ := valid_append.mp valid
  rw [apply_append, apply, get?_apply_of_ne rest last, get?_put accepts.2, if_pos rfl]

/-- The row under a key after a write set: the old one, or the last version written,
together with what that write replaced. -/
theorem get?_apply_cases {s : Store σ} {ws : List (Write V)} {k : K} {r : V} (valid : s.Valid ws)
    (h : (s.apply ws).get? k = some r) :
    (s.get? k = some r ∧ ∀ w ∈ ws, σ.key w.after ≠ k) ∨
      ∃ xs w ys, ws = xs ++ w :: ys ∧ w.after = r ∧ σ.key r = k ∧
        (s.apply xs).get? k = w.before := by
  induction ws using List.reverseRecOn with
  | nil => exact .inl ⟨h, fun w none => by cases none⟩
  | append_singleton ws w ih =>
    obtain ⟨before, accepts, _⟩ := valid_append.mp valid
    rw [apply_append, apply, apply, get?_put accepts.2] at h
    split at h
    · rename_i same
      cases h
      exact .inr ⟨ws, w, [], rfl, rfl, same, same ▸ accepts.1⟩
    · rename_i other
      rcases ih before h with ⟨old, none⟩ | ⟨xs, v, ys, rfl, rest⟩
      · refine .inl ⟨old, fun v hv => ?_⟩
        rcases List.mem_append.mp hv with hv | hv
        · exact none v hv
        · rw [List.mem_singleton.mp hv]
          exact other
      · exact .inr ⟨xs, v, ys ++ [w], by simp, rest⟩

theorem get?_apply_keeps {β : Type} {f : V → β} {s : Store σ} {ws : List (Write V)} {k : K} {r : V}
    (valid : s.Valid ws) (keeps : ∀ w ∈ ws, ∀ b, w.before = some b → f w.after = f b)
    (h : s.get? k = some r) : ∃ r', (s.apply ws).get? k = some r' ∧ f r' = f r := by
  induction ws generalizing s r with
  | nil => exact ⟨r, h, rfl⟩
  | cons w ws ih =>
    obtain ⟨⟨before, fits⟩, rest⟩ := valid
    have later := fun v hv => keeps v (List.mem_cons_of_mem _ hv)
    by_cases same : σ.key w.after = k
    · have now : (s.put w.after).get? k = some w.after := by rw [get?_put fits, if_pos same]
      obtain ⟨r', found, eq⟩ := ih rest later now
      exact ⟨r', found, eq.trans (keeps w List.mem_cons_self r (before.symm.trans (same ▸ h)))⟩
    · exact ih rest later (by rw [get?_put fits, if_neg same, h])

theorem get?_apply_mem {β : Type} {f : V → β} {s : Store σ} {ws : List (Write V)} {w : Write V}
    (valid : s.Valid ws) (keeps : ∀ w ∈ ws, ∀ b, w.before = some b → f w.after = f b)
    (mem : w ∈ ws) : ∃ r, (s.apply ws).get? (σ.key w.after) = some r ∧ f r = f w.after := by
  obtain ⟨xs, ys, rfl⟩ := List.append_of_mem mem
  obtain ⟨_, accepts, rest⟩ := valid_append.mp valid
  rw [apply_append, apply]
  refine get?_apply_keeps rest (fun v hv => keeps v ?_) ?_
  · exact List.mem_append_right _ (List.mem_cons_of_mem _ hv)
  · rw [get?_put accepts.2, if_pos rfl]

theorem apply_forall {s : Store σ} {ws : List (Write V)} {P : V → Prop} (valid : s.Valid ws)
    (before : ∀ r ∈ s.rows, P r)
    (keeps : ∀ w ∈ ws, (∀ b, w.before = some b → P b) → P w.after) :
    ∀ r ∈ (s.apply ws).rows, P r := by
  induction ws generalizing s with
  | nil => exact before
  | cons w ws ih =>
    obtain ⟨accepts, rest⟩ := valid
    have after : P w.after := keeps w List.mem_cons_self fun b hb =>
      before b (get?_some (accepts.1.trans hb)).1
    refine ih rest ?_ fun x hx => keeps x (List.mem_cons_of_mem _ hx)
    intro r hr
    rw [put_rows accepts.2] at hr
    rcases mem_place hr with rfl | hr
    · exact after
    · exact before r hr

theorem get?_apply_isSome {s : Store σ} {ws : List (Write V)} {k : K}
    (h : (s.get? k).isSome) : ((s.apply ws).get? k).isSome := by
  induction ws generalizing s with
  | nil => exact h
  | cons w ws ih =>
    apply ih
    by_cases fits : s.Admits w.after
    · rw [get?_put fits]
      split
      · rfl
      · exact h
    · simpa only [put, dif_neg fits] using h

theorem get?_of_inserted {s : Store σ} {ws : List (Write V)} {w : Write V} (valid : s.Valid ws)
    (mem : w ∈ ws) (new : w.before = none) : s.get? (σ.key w.after) = none := by
  obtain ⟨xs, ys, rfl⟩ := List.append_of_mem mem
  obtain ⟨_, accepts, _⟩ := valid_append.mp valid
  by_contra there
  have kept : ((s.apply xs).get? (σ.key w.after)).isSome :=
    get?_apply_isSome (Option.isSome_iff_ne_none.mpr there)
  rw [accepts.1, new] at kept
  cases kept

/-- A row that a set brings was inserted by one of its writes, up to what every write keeps. -/
theorem get?_apply_new {β : Type} {f : V → β} {s : Store σ} {ws : List (Write V)} {k : K} {r : V}
    (valid : s.Valid ws) (keeps : ∀ w ∈ ws, ∀ b, w.before = some b → f w.after = f b)
    (absent : s.get? k = none) (h : (s.apply ws).get? k = some r) :
    ∃ w ∈ ws, w.before = none ∧ σ.key w.after = k ∧ f r = f w.after := by
  induction ws generalizing s with
  | nil => cases absent.symm.trans h
  | cons w ws ih =>
    obtain ⟨⟨before, fits⟩, rest⟩ := valid
    have later := fun v hv => keeps v (List.mem_cons_of_mem _ hv)
    by_cases same : σ.key w.after = k
    · have now : (s.put w.after).get? k = some w.after := by rw [get?_put fits, if_pos same]
      obtain ⟨r', found, eq⟩ := get?_apply_keeps rest later now
      obtain rfl : r' = r := Option.some.inj (found.symm.trans h)
      exact ⟨w, List.mem_cons_self, before.symm.trans (same ▸ absent), same, eq⟩
    · obtain ⟨v, mem, inserted⟩ := ih rest later (by rw [get?_put fits, if_neg same, absent]) h
      exact ⟨v, List.mem_cons_of_mem _ mem, inserted⟩

end Store

end Txn
