import Mathlib.Algebra.Order.Floor.Ring
import Mathlib.Data.Rat.Floor
import Mathlib.Tactic.Linarith
import Mathlib.Tactic.Positivity
import Mathlib.Tactic.NormNum

/-! The token bucket of `ratelimit.rs`, over any arithmetic, and its bounds over exact
rationals. An instant is a number of nanoseconds; it is read before the lock is taken, so
the calls of a key come in any order of their instants. -/
namespace Dropless

/-- What the limiter takes of `f64` beside the arithmetic: `ceil`, `as_secs_f64` of a number of
nanoseconds, and what `{:.0}` prints. -/
class Measures (F : Type) where
  ceil : F → F
  asSecs : Nat → F
  print : F → Nat

structure Bucket (F : Type) where
  tokens : F
  last : Nat

structure RateLimiter (F : Type) where
  rps : F
  burst : F
  buckets : String → Option (Bucket F)

namespace RateLimiter

section Check

variable {F : Type} [Zero F] [One F] [Add F] [Sub F] [Mul F] [Div F] [Min F] [Max F] [LE F]
  [DecidableLE F] [Measures F]

def new (rps burst : F) : RateLimiter F := ⟨rps, max burst 1, fun _ => none⟩

def put (rl : RateLimiter F) (key : String) (b : Bucket F) : RateLimiter F :=
  { rl with buckets := fun k => if k = key then some b else rl.buckets k }

/- The tokens at `now`; an instant before the last one refills nothing. -/
def refilled (rl : RateLimiter F) (key : String) (now : Nat) : F :=
  let bucket := (rl.buckets key).getD ⟨rl.burst, now⟩
  min (bucket.tokens + Measures.asSecs (now - bucket.last) * rl.rps) rl.burst

def checkAt (rl : RateLimiter F) (key : String) (now : Nat) : Option F × RateLimiter F :=
  if rl.rps ≤ 0 then (none, rl)
  else
    let tokens := rl.refilled key now
    if 1 ≤ tokens then (none, rl.put key ⟨tokens - 1, now⟩)
    else (some (max (Measures.ceil ((1 - tokens) / rl.rps)) 1), rl.put key ⟨tokens, now⟩)

/- Calls in the order in which they take the lock. -/
def after (rl : RateLimiter F) : List (String × Nat) → RateLimiter F
  | [] => rl
  | (key, now) :: calls => (rl.checkAt key now).2.after calls

def answers (rl : RateLimiter F) (key : String) : List (String × Nat) → List (Option F)
  | [] => []
  | (k, now) :: calls =>
    let (answer, rl) := rl.checkAt k now
    if k = key then answer :: rl.answers key calls else rl.answers key calls

def granted (rl : RateLimiter F) (key : String) (calls : List (String × Nat)) : Nat :=
  (rl.answers key calls).countP Option.isNone

def instants (key : String) (calls : List (String × Nat)) : List Nat :=
  (calls.filter (·.1 = key)).map (·.2)

variable {rl : RateLimiter F} {key k : String} {now : Nat}

@[simp] theorem checkAt_rps : (rl.checkAt k now).2.rps = rl.rps := by
  unfold checkAt
  split
  · rfl
  · dsimp only
    split <;> rfl

@[simp] theorem checkAt_burst : (rl.checkAt k now).2.burst = rl.burst := by
  unfold checkAt
  split
  · rfl
  · dsimp only
    split <;> rfl

theorem answers_own (calls : List (String × Nat)) : rl.answers key ((key, now) :: calls) =
    (rl.checkAt key now).1 :: (rl.checkAt key now).2.answers key calls := by simp [answers]

theorem answers_other (other : k ≠ key) (calls : List (String × Nat)) :
    rl.answers key ((k, now) :: calls) = (rl.checkAt k now).2.answers key calls := by
  simp [answers, other]

theorem instants_own (calls : List (String × Nat)) :
    instants key ((key, now) :: calls) = now :: instants key calls := by simp [instants]

theorem instants_other (other : k ≠ key) (calls : List (String × Nat)) :
    instants key ((k, now) :: calls) = instants key calls := by simp [instants, other]

theorem checkAt_other (other : key ≠ k) : (rl.checkAt k now).2.buckets key = rl.buckets key := by
  unfold checkAt
  split
  · rfl
  · dsimp only
    split <;> simp [put, other]

theorem checkAt_own (now : Nat) {rl' : RateLimiter F} (rps : rl.rps = rl'.rps)
    (burst : rl.burst = rl'.burst) (same : rl.buckets key = rl'.buckets key) :
    (rl.checkAt key now).1 = (rl'.checkAt key now).1 ∧
      (rl.checkAt key now).2.buckets key = (rl'.checkAt key now).2.buckets key := by
  have tokens : rl.refilled key now = rl'.refilled key now := by
    simp only [refilled, rps, burst, same]
  unfold checkAt
  rw [tokens, rps]
  split
  · exact ⟨rfl, same⟩
  · dsimp only
    split <;> simp [put]

end Check

instance : Measures ℚ where
  ceil q := ⌈q⌉
  asSecs n := n / 10 ^ 9
  print q := ⌈q⌉.toNat

section Exact

variable {rl : RateLimiter ℚ} {key k : String} {now : Nat}

theorem checkAt_cases (active : 0 < rl.rps) (key : String) (now : Nat) :
    (1 ≤ rl.refilled key now ∧
      rl.checkAt key now = (none, rl.put key ⟨rl.refilled key now - 1, now⟩)) ∨
    (rl.refilled key now < 1 ∧ rl.checkAt key now =
      (some (max (⌈(1 - rl.refilled key now) / rl.rps⌉ : ℚ) 1),
        rl.put key ⟨rl.refilled key now, now⟩)) := by
  rw [checkAt, if_neg (not_le.mpr active)]
  by_cases enough : 1 ≤ rl.refilled key now
  · exact .inl ⟨enough, if_pos enough⟩
  · exact .inr ⟨not_le.mp enough, if_neg enough⟩

theorem asSecs_nonneg (n : Nat) : (0 : ℚ) ≤ Measures.asSecs n := by
  simp only [Measures.asSecs]
  positivity

theorem asSecs_split {a b c : Nat} (first : a ≤ b) (second : b ≤ c) :
    (Measures.asSecs (c - a) : ℚ) = Measures.asSecs (b - a) + Measures.asSecs (c - b) := by
  simp only [Measures.asSecs]
  rw [← add_div, ← Nat.cast_add]
  congr 2
  omega

theorem asSecs_mono {m n : Nat} (le : m ≤ n) : (Measures.asSecs m : ℚ) ≤ Measures.asSecs n := by
  simp only [Measures.asSecs]
  gcongr

section Bounds

/-- Every bucket holds between no token and the burst. -/
structure Bounded (rl : RateLimiter ℚ) : Prop where
  active : 0 < rl.rps
  room : 1 ≤ rl.burst
  tokens : ∀ k b, rl.buckets k = some b → 0 ≤ b.tokens ∧ b.tokens ≤ rl.burst

theorem Bounded.refilled (bounded : rl.Bounded) (key : String) (now : Nat) :
    0 ≤ rl.refilled key now ∧ rl.refilled key now ≤ rl.burst := by
  refine ⟨le_min ?_ ?_, min_le_right _ _⟩
  · have time := mul_nonneg (asSecs_nonneg (now - ((rl.buckets key).getD ⟨rl.burst, now⟩).last))
      bounded.active.le
    have held : 0 ≤ ((rl.buckets key).getD ⟨rl.burst, now⟩).tokens := by
      cases found : rl.buckets key with
      | none => exact zero_le_one.trans bounded.room
      | some b => exact (bounded.tokens key b found).1
    exact add_nonneg held time
  · exact zero_le_one.trans bounded.room

theorem Bounded.put (bounded : rl.Bounded) {b : Bucket ℚ} (low : 0 ≤ b.tokens)
    (high : b.tokens ≤ rl.burst) : (rl.put key b).Bounded := by
  refine ⟨bounded.active, bounded.room, fun k b' found => ?_⟩
  simp only [RateLimiter.put] at found
  split at found
  · cases found
    exact ⟨low, high⟩
  · exact bounded.tokens k b' found

theorem Bounded.checkAt (bounded : rl.Bounded) (key : String) (now : Nat) :
    (rl.checkAt key now).2.Bounded := by
  obtain ⟨low, high⟩ := bounded.refilled key now
  rcases checkAt_cases bounded.active key now with ⟨enough, eq⟩ | ⟨_, eq⟩
  · rw [eq]
    exact bounded.put (sub_nonneg.mpr enough) ((sub_le_self _ zero_le_one).trans high)
  · rw [eq]
    exact bounded.put low high

theorem Bounded.after (bounded : rl.Bounded) (calls : List (String × Nat)) :
    (rl.after calls).Bounded := by
  induction calls generalizing rl with
  | nil => exact bounded
  | cons call calls ih => exact ih (bounded.checkAt call.1 call.2)

theorem new_bounded {rps : ℚ} (active : 0 < rps) (burst : ℚ) : (new rps burst).Bounded := by
  refine ⟨active, le_max_right _ _, fun k b none => ?_⟩
  cases none

@[simp] theorem after_rps (rl : RateLimiter ℚ) (calls : List (String × Nat)) :
    (rl.after calls).rps = rl.rps := by
  induction calls generalizing rl with
  | nil => rfl
  | cons call calls ih => rw [after, ih, checkAt_rps]

@[simp] theorem after_burst (rl : RateLimiter ℚ) (calls : List (String × Nat)) :
    (rl.after calls).burst = rl.burst := by
  induction calls generalizing rl with
  | nil => rfl
  | cons call calls ih => rw [after, ih, checkAt_burst]

end Bounds

section Rate

variable {b : Bucket ℚ} {calls : List (String × Nat)} {stop : Nat}

theorem refilled_held (found : rl.buckets key = some b) (now : Nat) :
    rl.refilled key now = min (b.tokens + Measures.asSecs (now - b.last) * rl.rps) rl.burst := by
  simp [refilled, found]

/-- A check spends a token for each grant, and leaves the rest with its instant. -/
theorem granted_own (active : 0 < rl.rps) (key : String) (now : Nat) (calls : List (String × Nat)) :
    ∃ b, (rl.checkAt key now).2.buckets key = some b ∧ b.last = now ∧
      (rl.granted key ((key, now) :: calls) : ℚ) + b.tokens =
        (rl.checkAt key now).2.granted key calls + rl.refilled key now := by
  rw [granted, answers_own, List.countP_cons]
  rcases checkAt_cases active key now with ⟨_, eq⟩ | ⟨_, eq⟩
  · refine ⟨⟨rl.refilled key now - 1, now⟩, by simp [eq, put], rfl, ?_⟩
    simp only [eq, granted, Option.isNone_none, if_true, Nat.cast_add, Nat.cast_one]
    ring
  · refine ⟨⟨rl.refilled key now, now⟩, by simp [eq, put], rfl, ?_⟩
    simp [eq, granted]

theorem granted_other (other : k ≠ key) (calls : List (String × Nat)) :
    rl.granted key ((k, now) :: calls) = (rl.checkAt k now).2.granted key calls := by
  rw [granted, answers_other other, granted]

/- The tokens in the bucket and those to come pay for every grant. -/
theorem granted_held (bounded : rl.Bounded) (found : rl.buckets key = some b)
    (ordered : (b.last :: instants key calls).Pairwise (· ≤ ·))
    (ends : ∀ now ∈ b.last :: instants key calls, now ≤ stop) :
    (rl.granted key calls : ℚ) ≤ b.tokens + Measures.asSecs (stop - b.last) * rl.rps := by
  induction calls generalizing rl b with
  | nil =>
    have held := (bounded.tokens key b found).1
    have time := mul_nonneg (asSecs_nonneg (stop - b.last)) bounded.active.le
    simp only [granted, answers, List.countP_nil, Nat.cast_zero]
    linarith
  | cons call calls ih =>
    obtain ⟨k, now⟩ := call
    by_cases own : k = key
    · subst own
      rw [instants_own] at ordered ends
      obtain ⟨least, rest⟩ := List.pairwise_cons.mp ordered
      obtain ⟨_, ends⟩ := List.forall_mem_cons.mp ends
      have split := asSecs_split (least now List.mem_cons_self) (ends now List.mem_cons_self)
      have refill : rl.refilled k now ≤ b.tokens + Measures.asSecs (now - b.last) * rl.rps := by
        rw [refilled_held found]
        exact min_le_left _ _
      obtain ⟨b', found', rfl, spent⟩ := granted_own bounded.active k now calls
      have later := ih (bounded.checkAt k b'.last) found' rest ends
      rw [checkAt_rps] at later
      rw [split]
      linarith
    · rw [instants_other own] at ordered ends
      have later := ih (bounded.checkAt k now) ((checkAt_other (Ne.symm own)).trans found)
        ordered ends
      rwa [checkAt_rps, ← granted_other own] at later

theorem granted_interval (bounded : rl.Bounded) {start length : Nat}
    (ordered : (instants key calls).Pairwise (· ≤ ·))
    (within : ∀ now ∈ instants key calls, start ≤ now ∧ now ≤ start + length) :
    (rl.granted key calls : ℚ) ≤ rl.burst + rl.rps * Measures.asSecs length := by
  induction calls generalizing rl with
  | nil =>
    have time := mul_nonneg bounded.active.le (asSecs_nonneg length)
    have room := bounded.room
    simp only [granted, answers, List.countP_nil, Nat.cast_zero]
    linarith
  | cons call calls ih =>
    obtain ⟨k, now⟩ := call
    by_cases own : k = key
    · subst own
      rw [instants_own] at ordered within
      have ends : ∀ t ∈ now :: instants k calls, t ≤ start + length := fun t mem => (within t mem).2
      have full := (bounded.refilled k now).2
      have first := (within now List.mem_cons_self).1
      obtain ⟨b, found, rfl, spent⟩ := granted_own bounded.active k now calls
      -- the first call of the interval finds at most a full bucket, whatever came before it
      have later := granted_held (bounded.checkAt k b.last) found ordered ends
      have room : (Measures.asSecs (start + length - b.last) : ℚ) ≤ Measures.asSecs length :=
        asSecs_mono (by omega)
      have paid := mul_le_mul_of_nonneg_right room bounded.active.le
      rw [checkAt_rps] at later
      linarith
    · rw [instants_other own] at ordered within
      have later := ih (bounded.checkAt k now) ordered within
      rwa [checkAt_rps, checkAt_burst, ← granted_other own] at later

/-- Whatever calls came before: when the calls for a key in an interval take the lock in the order
of their instants, no more of them are let through than the burst and what the interval refills.
The tokens are between none and the burst after any calls. -/
theorem rate_bound (rps burst : ℚ) (active : 0 < rps) (key : String)
    (before calls : List (String × Nat)) (start length : Nat)
    (within : ∀ now ∈ instants key calls, start ≤ now ∧ now ≤ start + length)
    (ordered : (instants key calls).Pairwise (· ≤ ·)) :
    (((new rps burst).after before).granted key calls : ℚ) ≤ max burst 1 + rps * (length / 10 ^ 9) ∧
      ∀ history k b, ((new rps burst).after history).buckets k = some b →
        0 ≤ b.tokens ∧ b.tokens ≤ max burst 1 := by
  constructor
  · have bound := granted_interval ((new_bounded active burst).after before) ordered within
    rwa [after_rps, after_burst] at bound
  · intro history k b found
    have bound := ((new_bounded active burst).after history).tokens k b found
    rwa [after_burst] at bound

theorem rate_bound_two : (((new (1 : ℚ) 1).after []).granted "t" [("t", 0), ("t", 10 ^ 9)] : ℚ) ≤
    2 := by
  have bound := (rate_bound 1 1 one_pos "t" [] [("t", 0), ("t", 10 ^ 9)] 0 (10 ^ 9) (by decide)
    (by decide)).1
  norm_num at bound ⊢
  exact bound

/- One request a second. A call that is late at the lock takes the reference back to its own
instant, and the next one is refilled for the same second again. -/
def late : List (String × Nat) := [("t", 10 ^ 9), ("t", 0), ("t", 10 ^ 9), ("t", 0), ("t", 10 ^ 9)]

theorem late_exceeds : ¬ ∀ (rps burst : ℚ) (key : String) (before calls : List (String × Nat))
    (start length : Nat), 0 < rps →
    (∀ now ∈ instants key calls, start ≤ now ∧ now ≤ start + length) →
    (((new rps burst).after before).granted key calls : ℚ) ≤
      max burst 1 + rps * (length / 10 ^ 9) := by
  intro bound
  have three : ((new (1 : ℚ) 1).after []).granted "t" late = 3 := by decide +kernel
  have two := bound 1 1 "t" [] late 0 (10 ^ 9) one_pos (by decide)
  rw [three] at two
  norm_num at two

end Rate

section Wait

variable {calls : List (String × Nat)} {stop : Nat}

/- A token is there at `stop` if none is taken before it. -/
def Due (rl : RateLimiter ℚ) (key : String) (stop : Nat) : Prop :=
  ∃ b, rl.buckets key = some b ∧ b.last ≤ stop ∧
    1 ≤ b.tokens + Measures.asSecs (stop - b.last) * rl.rps

theorem Due.refilled (bounded : rl.Bounded) (due : rl.Due key stop) (later : stop ≤ now) :
    1 ≤ rl.refilled key now := by
  obtain ⟨b, found, last, enough⟩ := due
  have longer := mul_le_mul_of_nonneg_right (asSecs_mono (Nat.sub_le_sub_right later b.last))
    bounded.active.le
  rw [refilled_held found]
  exact le_min (enough.trans (by linarith)) bounded.room

/- A call that is denied is not capped, so it moves tokens and instant together. -/
theorem Due.denied (bounded : rl.Bounded) (due : rl.Due key stop)
    (denied : (rl.checkAt key now).1 ≠ none) (ends : now ≤ stop)
    (ordered : ∀ b, rl.buckets key = some b → b.last ≤ now) :
    (rl.checkAt key now).2.Due key stop := by
  obtain ⟨b, found, last, enough⟩ := due
  rcases checkAt_cases bounded.active key now with ⟨_, eq⟩ | ⟨short, eq⟩
  · rw [eq] at denied
    exact (denied rfl).elim
  · have refill : rl.refilled key now = b.tokens + Measures.asSecs (now - b.last) * rl.rps := by
      rw [refilled_held found] at short ⊢
      rcases min_lt_iff.mp short with low | low
      · exact min_eq_left (low.le.trans bounded.room)
      · exact (not_lt.mpr bounded.room low).elim
    have split := asSecs_split (ordered b found) ends
    refine ⟨⟨rl.refilled key now, now⟩, by simp [eq, put], ends, ?_⟩
    rw [checkAt_rps, refill]
    rw [split] at enough
    linarith

theorem Due.after (bounded : rl.Bounded) (due : rl.Due key stop)
    (denied : ∀ a ∈ rl.answers key calls, a ≠ none)
    (ordered : ∀ b, rl.buckets key = some b → (b.last :: instants key calls).Pairwise (· ≤ ·))
    (ends : ∀ now ∈ instants key calls, now ≤ stop) : (rl.after calls).Due key stop := by
  induction calls generalizing rl with
  | nil => exact due
  | cons call calls ih =>
    obtain ⟨k, now⟩ := call
    by_cases own : k = key
    · subst own
      rw [answers_own] at denied
      rw [instants_own] at ordered ends
      obtain ⟨first, denied⟩ := List.forall_mem_cons.mp denied
      obtain ⟨end_, ends⟩ := List.forall_mem_cons.mp ends
      have ⟨b, found, _⟩ := due
      have sorted := List.pairwise_cons.mp (ordered b found)
      have next : (rl.checkAt k now).2.Due k stop := by
        refine due.denied bounded first end_ fun b' found' => ?_
        cases found.symm.trans found'
        exact sorted.1 now List.mem_cons_self
      refine ih (bounded.checkAt k now) next denied (fun b' found' => ?_) ends
      obtain ⟨b'', found'', last, _⟩ := granted_own bounded.active k now calls
      cases found'.symm.trans found''
      exact last ▸ sorted.2
    · rw [answers_other own] at denied
      rw [instants_other own] at ordered ends
      have kept : (rl.checkAt k now).2.buckets key = rl.buckets key := checkAt_other (Ne.symm own)
      refine ih (bounded.checkAt k now) ?_ denied (fun b found => ordered b (kept ▸ found)) ends
      obtain ⟨b, found, rest⟩ := due
      exact ⟨b, kept.trans found, by rwa [checkAt_rps]⟩

/-- The wait that a denied call is told is a whole number of seconds, at least one. A client that
is denied again and again until then is let through at its end, whatever else is called. -/
theorem retry_after_sufficient (rps burst : ℚ) (active : 0 < rps) (key : String)
    (before : List (String × Nat)) (t : Nat) (r : ℚ)
    (denied : (((new rps burst).after before).checkAt key t).1 = some r) :
    ∃ wait : Nat, 1 ≤ wait ∧ r = wait ∧ ∀ (calls : List (String × Nat)) (later : Nat),
      (instants key calls).Pairwise (· ≤ ·) →
      (∀ now ∈ instants key calls, t ≤ now ∧ now ≤ t + wait * 10 ^ 9) →
      (∀ a ∈ (((new rps burst).after before).checkAt key t).2.answers key calls, a ≠ none) →
      t + wait * 10 ^ 9 ≤ later →
      (((((new rps burst).after before).checkAt key t).2.after calls).checkAt key later).1 =
        none := by
  have bounded := (new_bounded active burst).after before
  generalize (new rps burst).after before = rl at *
  have next := bounded.checkAt key t
  rcases checkAt_cases bounded.active key t with ⟨_, eq⟩ | ⟨short, eq⟩
  · rw [eq] at denied
    cases denied
  rw [eq] at denied
  have told := Option.some.inj denied
  have positive : 0 < (1 - rl.refilled key t) / rl.rps := div_pos (sub_pos.mpr short) bounded.active
  have ceil : 0 < ⌈(1 - rl.refilled key t) / rl.rps⌉ := Int.ceil_pos.mpr positive
  obtain ⟨wait, whole⟩ := Int.eq_ofNat_of_zero_le ceil.le
  have one : 1 ≤ wait := by omega
  have same : r = wait := by
    rw [← told, whole]
    exact max_eq_left (by exact_mod_cast one)
  refine ⟨wait, one, same, fun calls later ordered within all at_ => ?_⟩
  have due : (rl.checkAt key t).2.Due key (t + wait * 10 ^ 9) := by
    refine ⟨⟨rl.refilled key t, t⟩, by simp [eq, put], Nat.le_add_right _ _, ?_⟩
    have long : (1 - rl.refilled key t) / rl.rps ≤ wait := by
      have le := Int.le_ceil ((1 - rl.refilled key t) / rl.rps)
      rw [whole] at le
      exact_mod_cast le
    have secs : (Measures.asSecs (t + wait * 10 ^ 9 - t) : ℚ) = wait := by
      simp only [Measures.asSecs, Nat.add_sub_cancel_left, Nat.cast_mul, Nat.cast_pow,
        Nat.cast_ofNat]
      exact mul_div_cancel_right₀ _ (by norm_num)
    rw [checkAt_rps, secs]
    have paid := (div_le_iff₀ bounded.active).mp long
    linarith
  have still := due.after next all (fun b found => ?_) fun now mem => (within now mem).2
  · have enough := still.refilled (next.after calls) at_
    rcases checkAt_cases (next.after calls).active key later with ⟨_, eq⟩ | ⟨short, _⟩
    · rw [eq]
    · exact (not_lt.mpr enough short).elim
  · obtain ⟨b', found', last, _⟩ := granted_own bounded.active key t calls
    cases found.symm.trans found'
    rw [last]
    exact List.pairwise_cons.mpr ⟨fun now mem => (within now mem).1, ordered⟩

theorem retry_after_sufficient_three : ∃ wait : Nat, 1 ≤ wait ∧
    (((((new (1 / 3 : ℚ) 1).after [("t", 0)]).checkAt "t" (10 ^ 9)).2.after
      [("t", 2 * 10 ^ 9)]).checkAt "t" (10 ^ 9 + wait * 10 ^ 9)).1 = none := by
  have denied : (((new (1 / 3 : ℚ) 1).after [("t", 0)]).checkAt "t" (10 ^ 9)).1 =
    some 2 := by decide +kernel
  have again : (((new (1 / 3 : ℚ) 1).after [("t", 0)]).checkAt "t" (10 ^ 9)).2.answers "t"
    [("t", 2 * 10 ^ 9)] = [some 1] := by decide +kernel
  obtain ⟨wait, one, _, enough⟩ :=
    retry_after_sufficient (1 / 3) 1 (by norm_num) "t" [("t", 0)] (10 ^ 9) 2 denied
  refine ⟨wait, one, enough [("t", 2 * 10 ^ 9)] _ (by decide) ?_ ?_ (Nat.le_refl _)⟩
  · intro now mem
    rw [show instants "t" [("t", 2 * 10 ^ 9)] = [2 * 10 ^ 9] from rfl, List.mem_singleton] at mem
    omega
  · rw [again]
    simp

end Wait

end Exact

end RateLimiter

end Dropless
