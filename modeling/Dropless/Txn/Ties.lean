import Mathlib.Data.List.Sort
import Dropless.Txn.Store

set_option linter.unusedSectionVars false

namespace Txn

variable {α : Type} (r : α → α → Prop) [DecidableRel r]

def tied (x a : α) : Bool := r x a ∧ r a x

/-- The same elements, tied ones in the same order. -/
def Ties (xs ys : List α) : Prop := ∀ x, xs.filter (tied r x) = ys.filter (tied r x)

section Symmetry

variable {r} {xs ys : List α}

theorem Ties.symm (same : Ties r xs ys) : Ties r ys xs := fun x => (same x).symm

theorem Ties.flip (same : Ties r xs ys) : Ties (fun x y => r y x) xs ys := by
  intro x
  have turned : tied (fun x y => r y x) x = tied r x :=
    funext fun y => decide_eq_decide.mpr and_comm
  rw [turned, same x]

end Symmetry

section Sorting

variable {r} [Std.Total r] [IsTrans α r] {xs ys : List α}

theorem tied_self (a : α) : tied r a a = true := by
  simp [tied, (Std.Total.total a a).elim id id]

theorem tied_trans {x a b : α} (first : tied r x a = true) (second : tied r a b = true) :
    tied r x b = true := by
  simp only [tied, decide_eq_true_eq] at *
  exact ⟨IsTrans.trans _ _ _ first.1 second.1, IsTrans.trans _ _ _ second.2 first.2⟩

theorem tied_symm {x a : α} (h : tied r x a = true) : tied r a x = true := by
  simpa [tied, and_comm] using h

theorem filter_orderedInsert (x a : α) (xs : List α) :
    (xs.orderedInsert r a).filter (tied r x) = (a :: xs).filter (tied r x) := by
  induction xs with
  | nil => rfl
  | cons b xs ih =>
    rw [List.orderedInsert_cons]
    split
    · rfl
    · rename_i after
      by_cases first : tied r x b = true
      · -- what stands before a new element is not tied with it
        have apart : tied r x a = false := by
          by_contra same
          have same : tied r x a = true := by simpa using same
          have both := tied_trans (tied_symm same) first
          simp only [tied, decide_eq_true_eq] at both
          exact after both.1
        simp [ih, first, apart]
      · simp [List.filter_cons, ih, first]

theorem filter_insertionSort (x : α) (xs : List α) :
    (xs.insertionSort r).filter (tied r x) = xs.filter (tied r x) := by
  induction xs with
  | nil => rfl
  | cons a xs ih => simp [List.insertionSort_cons, filter_orderedInsert, ih, List.filter_cons]

theorem Ties.mem (same : Ties r xs ys) {a : α} (mem : a ∈ xs) : a ∈ ys := by
  have here : a ∈ xs.filter (tied r a) := List.mem_filter.mpr ⟨mem, tied_self a⟩
  exact List.mem_of_mem_filter (same a ▸ here)

theorem Ties.eq (same : Ties r xs ys) (left : xs.Pairwise r) (right : ys.Pairwise r) : xs = ys := by
  induction xs generalizing ys with
  | nil =>
    cases ys with
    | nil => rfl
    | cons b ys => cases same.symm.mem List.mem_cons_self
  | cons a xs ih =>
    cases ys with
    | nil => cases same.mem List.mem_cons_self
    | cons b ys =>
      obtain ⟨least, first⟩ := List.pairwise_cons.mp left
      obtain ⟨least', second⟩ := List.pairwise_cons.mp right
      have refl (c : α) : r c c := (Std.Total.total c c).elim id id
      have up : r a b := by
        rcases List.mem_cons.mp (same.symm.mem (List.mem_cons_self (a := b))) with rfl | mem
        · exact refl b
        · exact least b mem
      have down : r b a := by
        rcases List.mem_cons.mp (same.mem (List.mem_cons_self (a := a))) with rfl | mem
        · exact refl a
        · exact least' a mem
      have both : tied r a b = true := by simp [tied, up, down]
      have heads := same a
      simp only [List.filter_cons, tied_self, both, if_true] at heads
      obtain ⟨rfl, _⟩ := List.cons.inj heads
      refine congrArg _ (ih (fun x => ?_) first second)
      have rest := same x
      simp only [List.filter_cons] at rest
      split at rest
      · exact (List.cons.inj rest).2
      · exact rest

theorem insertionSort_eq_iff : xs.insertionSort r = ys.insertionSort r ↔ Ties r xs ys := by
  constructor
  · intro eq x
    rw [← filter_insertionSort x xs, eq, filter_insertionSort]
  · intro same
    refine Ties.eq (fun x => ?_) (List.pairwise_insertionSort r xs)
      (List.pairwise_insertionSort r ys)
    rw [filter_insertionSort, filter_insertionSort, same x]

theorem Ties.length (same : Ties r xs ys) : xs.length = ys.length := by
  rw [← List.length_insertionSort r xs, insertionSort_eq_iff.mpr same, List.length_insertionSort]

end Sorting

section Parts

variable {r} {xs ys : List α}

/- What a limit leaves out comes after everything it lets through. -/
theorem mem_take_sorted {k : Nat} {x : α} (sorted : xs.Pairwise r) (mem : x ∈ xs) :
    x ∈ xs.take k ∨ ((xs.take k).length = k ∧ ∀ y ∈ xs.take k, r y x) := by
  rw [← List.take_append_drop k xs] at sorted mem
  rcases List.mem_append.mp mem with first | later
  · exact .inl first
  · refine .inr ⟨?_, fun y early => (List.pairwise_append.mp sorted).2.2 y early x later⟩
    have more := List.length_pos_of_mem later
    rw [List.length_drop] at more
    rw [List.length_take]
    omega

theorem Ties.filter (same : Ties r xs ys) (p : α → Bool) : Ties r (xs.filter p) (ys.filter p) := by
  intro x
  rw [List.filter_comm, same x, List.filter_comm]

end Parts

section Pages

variable {r} [Std.Total r] [IsTrans α r]

theorem sorted_grown (xs ys : List α) :
    (xs.insertionSort r).Sublist ((xs ++ ys).insertionSort r) := by
  induction xs with
  | nil => exact List.nil_sublist _
  | cons x xs ih => exact ih.orderedInsert_sublist x (List.pairwise_insertionSort r _)

/-- Pages of a size, from page `k` on, each read from a list that has grown since the page
before it. -/
inductive Pages (size : Nat) : Nat → List α → List (List α) → Prop where
  | none {k xs} : Pages size k xs []
  | page {k xs ys pages} (grown : xs.Sublist ys) (rest : Pages size (k + 1) ys pages) :
      Pages size k xs ((ys.drop (k * size)).take size :: pages)

/- Pages of a list are pages of what it has grown from. -/
theorem Pages.earlier {size k : Nat} {xs ys : List α} {pages : List (List α)}
    (read : Pages size k ys pages) (grown : xs.Sublist ys) : Pages size k xs pages := by
  cases read with
  | none => exact .none
  | page more rest => exact .page (grown.trans more) rest

/-- Pages up to a short one show every element that was there from their start on. -/
theorem Pages.mem {size k : Nat} {xs : List α} {pages : List (List α)} {last : List α} {x : α}
    (read : Pages size k xs pages) (ends : pages.getLast? = some last) (short : last.length < size)
    (mem : x ∈ xs.drop (k * size)) : x ∈ pages.flatten := by
  induction read with
  | none => cases ends
  | @page k xs ys pages grown rest ih =>
    have here : x ∈ ys.drop (k * size) := (grown.drop _).subset mem
    rw [← List.take_append_drop size (ys.drop (k * size)), List.drop_drop] at here
    rw [List.flatten_cons]
    rcases List.mem_append.mp here with shown | after
    · exact List.mem_append_left _ shown
    · cases pages with
      | nil =>
        -- nothing is left after a short page
        obtain rfl : _ = last := Option.some.inj ends
        rw [List.getLast_singleton, List.length_take, List.length_drop] at short
        rw [List.drop_eq_nil_of_le (by omega)] at after
        cases after
      | cons page pages =>
        refine List.mem_append_right _ (ih ?_ ?_)
        · rwa [List.getLast?_cons_cons] at ends
        · rwa [Nat.add_mul, Nat.one_mul]

end Pages

namespace Store

variable {V K I : Type} [DecidableEq K] {σ : Schema V K I}

theorem filter_place {p : V → Bool} {a : V} {xs : List V}
    (kept : ∀ x ∈ xs, σ.key x = σ.key a → p x = p a) :
    (place σ a xs).filter p = if p a then place σ a (xs.filter p) else xs.filter p := by
  induction xs with
  | nil => cases own : p a <;> simp [place, own]
  | cons x xs ih =>
    have rest := ih fun y mem => kept y (List.mem_cons_of_mem _ mem)
    by_cases same : σ.key x = σ.key a
    · have first := kept x List.mem_cons_self same
      cases own : p a <;> simp [place, same, own, first]
    · cases own : p a <;> cases first : p x <;> simp_all [place]

variable {r : V → V → Prop} [DecidableRel r] {xs ys : List V}

theorem ties_place (same : Ties r xs ys) {a : V}
    (left : ∀ x ∈ xs, σ.key x = σ.key a → ∀ y, tied r y x = tied r y a)
    (right : ∀ x ∈ ys, σ.key x = σ.key a → ∀ y, tied r y x = tied r y a) :
    Ties r (place σ a xs) (place σ a ys) := by
  intro y
  rw [filter_place fun x mem key => left x mem key y, filter_place fun x mem key =>
    right x mem key y, same y]

end Store

end Txn
