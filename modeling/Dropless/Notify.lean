import Mathlib.Data.List.Basic
import Mathlib.Order.Basic

/-! The coalesced notifier of `notify.rs`, one atomic step of one `ping` at a time: the clock
is read, `last_ms` is loaded, it is exchanged, the task that sends the NOTIFY is spawned. -/
namespace Dropless

/- `i64::saturating_sub`. -/
def saturatingSub (a b : Int64) : Int64 := Int64.ofIntClamp (a.toInt - b.toInt)

/- `as_millis() as i64`, which wraps. -/
def millis (elapsed : Nat) : Int64 := Int64.ofNat elapsed

/- How far a call of `ping` has come, with its local variables. -/
inductive Ping
  | called
  | timed (now : Int64)
  | loaded (now last : Int64)
  | claimed
  | returned
  deriving DecidableEq

/- What the calls have done; a call that returns without a claim returns silently. -/
inductive Wake
  | loaded (ping : Nat) (last : Int64)
  | stored (ping : Nat) (now : Int64)
  | spawned (ping : Nat)
  | silent (ping : Nat) (now : Int64)
  deriving DecidableEq

structure Notifier where
  elapsed : Nat
  lastMs : Int64
  windowMs : Int64
  pings : Nat → Ping
  log : List Wake

namespace Notifier

def new (windowMs : Int64) : Notifier := ⟨0, Int64.minValue, windowMs, fun _ => .called, []⟩

def move (s : Notifier) (p : Nat) (ping : Ping) (log : List Wake) : Notifier :=
  { s with pings := fun q => if q = p then ping else s.pings q, log }

/- The next atomic step of a call. What `ping` compares before the exchange is its own. -/
def ping (s : Notifier) (p : Nat) : Notifier :=
  match s.pings p with
  | .called => s.move p (.timed (millis s.elapsed)) s.log
  | .timed now => s.move p (.loaded now s.lastMs) (.loaded p s.lastMs :: s.log)
  | .loaded now last =>
    if saturatingSub now last < s.windowMs then s.move p .returned (.silent p now :: s.log)
    else if s.lastMs = last then
      { s.move p .claimed (.stored p now :: s.log) with lastMs := now }
    else s.move p .returned (.silent p now :: s.log)
  | .claimed => s.move p .returned (.spawned p :: s.log)
  | .returned => s

/- Any number of calls, in any order of their steps. The clock, as it is read, never goes back. -/
inductive Reach (windowMs : Int64) : Notifier → Prop
  | new : Reach windowMs (new windowMs)
  | tick {s} (later : Nat) : Reach windowMs s → s.elapsed ≤ later →
      millis s.elapsed ≤ millis later → Reach windowMs { s with elapsed := later }
  | ping {s} (p : Nat) : Reach windowMs s → Reach windowMs (s.ping p)

end Notifier

/- The values stored into `last_ms`, newest first. -/
def claims : List Wake → List Int64
  | [] => []
  | .stored _ now :: log => now :: claims log
  | _ :: log => claims log

def stores (p : Nat) : List Wake → Nat
  | [] => 0
  | .stored q _ :: log => stores p log + if q = p then 1 else 0
  | _ :: log => stores p log

def spawns (p : Nat) : List Wake → Nat
  | [] => 0
  | .spawned q :: log => spawns p log + if q = p then 1 else 0
  | _ :: log => spawns p log

def lastClaim (claims : List Int64) : Int64 := claims.head?.getD Int64.minValue

/- Why a call of `ping` may return silently, by what was done before it returned. -/
def Covered (windowMs : Int64) (p : Nat) (now : Int64) (before : List Wake) : Prop :=
  (∃ claim ∈ claims before, now.toInt - windowMs.toInt < claim.toInt) ∨
    ∃ newer older last, before = newer ++ .loaded p last :: older ∧ claims newer ≠ []

theorem claims_append (log log' : List Wake) :
    claims (log ++ log') = claims log ++ claims log' := by
  induction log with
  | nil => rfl
  | cons e log ih => cases e <;> simp [claims, ih]

section Sub

variable {now last : Int64}

theorem saturatingSub_exact (now_pos : 0 ≤ now.toInt) (last_pos : 0 ≤ last.toInt) :
    (saturatingSub now last).toInt = now.toInt - last.toInt := by
  have now_lt := now.toInt_lt
  have last_lt := last.toInt_lt
  apply Int64.toInt_ofIntClamp
  · rw [Int64.toInt_minValue]
    omega
  · rw [Int64.toInt_maxValue]
    omega

theorem saturatingSub_min (now_pos : 0 ≤ now.toInt) :
    saturatingSub now Int64.minValue = Int64.maxValue := by
  have above : ¬ now.toInt - Int64.minValue.toInt ≤ Int64.maxValue.toInt := by
    rw [Int64.toInt_minValue, Int64.toInt_maxValue]
    omega
  have low : Int64.minValue.toInt ≤ now.toInt - Int64.minValue.toInt := by
    rw [Int64.toInt_minValue]
    omega
  rw [saturatingSub, Int64.ofIntClamp, dif_pos low, dif_neg above]

end Sub

section Log

variable {log newer older : List Wake} {e : Wake} {p q : Nat} {now : Int64} {windowMs : Int64}

def Wake.ping : Wake → Nat
  | .loaded p _ => p
  | .stored p _ => p
  | .spawned p => p
  | .silent p _ => p

theorem stores_other (other : e.ping ≠ q) : stores q (e :: log) = stores q log := by
  cases e <;> simp_all [stores, Wake.ping]

theorem spawns_other (other : e.ping ≠ q) : spawns q (e :: log) = spawns q log := by
  cases e <;> simp_all [spawns, Wake.ping]

theorem claims_of_stores (stored : 0 < stores p log) : claims log ≠ [] := by
  induction log with
  | nil => simp [stores] at stored
  | cons e log ih =>
    cases e with
    | stored q now => simp [claims]
    | loaded q last => exact ih (by simpa [stores] using stored)
    | spawned q => exact ih (by simpa [stores] using stored)
    | silent q now => exact ih (by simpa [stores] using stored)

theorem claims_grow (made : claims log ≠ []) : claims (e :: log) ≠ [] := by
  cases e <;> simp [claims, made]

theorem Covered.claims (covered : Covered windowMs p now log) : claims log ≠ [] := by
  obtain ⟨claim, made, _⟩ | ⟨newer, older, last, rfl, made⟩ := covered
  · exact List.ne_nil_of_mem made
  · rw [claims_append]
    exact List.append_ne_nil_of_left_ne_nil made _

theorem lastClaim_cases (claims : List Int64) :
    lastClaim claims = Int64.minValue ∨ lastClaim claims ∈ claims := by
  cases claims with
  | nil => exact Or.inl rfl
  | cons claim claims => exact Or.inr (by simp [lastClaim])

end Log

namespace Notifier

/- What the log tells of a call that has come so far. -/
def Told (log : List Wake) (p : Nat) : Ping → Prop
  | .called => stores p log = 0 ∧ spawns p log = 0
  | .timed now => 0 ≤ now.toInt ∧ stores p log = 0 ∧ spawns p log = 0
  | .loaded now last => 0 ≤ now.toInt ∧ (stores p log = 0 ∧ spawns p log = 0) ∧
      ∃ newer older, log = newer ++ .loaded p last :: older ∧ last = lastClaim (claims older)
  | .claimed => stores p log = 1 ∧ spawns p log = 0
  | .returned => (stores p log = spawns p log ∧ stores p log ≤ 1) ∧ claims log ≠ []

structure Sound (windowMs : Int64) (s : Notifier) : Prop where
  window : s.windowMs = windowMs
  clock : 0 ≤ (millis s.elapsed).toInt
  last : s.lastMs = lastClaim (claims s.log)
  positive : ∀ claim ∈ claims s.log, 0 ≤ claim.toInt
  gaps : (claims s.log).Pairwise fun newer older => older.toInt + windowMs.toInt ≤ newer.toInt
  calls : ∀ p, Told s.log p (s.pings p)
  covered : ∀ newer p now older, s.log = newer ++ .silent p now :: older →
    Covered windowMs p now older

section Steps

variable {windowMs : Int64} {s : Notifier} {p q : Nat} {e : Wake} {log : List Wake} {ping : Ping}

theorem told_other (other : e.ping ≠ q) (told : Told log q ping) : Told (e :: log) q ping := by
  cases ping with
  | loaded now last =>
    obtain ⟨pos, counts, newer, older, rfl, read⟩ := told
    refine ⟨pos, ?_, e :: newer, older, rfl, read⟩
    rwa [stores_other other, spawns_other other]
  | returned =>
    obtain ⟨counts, made⟩ := told
    refine ⟨?_, claims_grow made⟩
    rwa [stores_other other, spawns_other other]
  | _ => simpa only [Told, stores_other other, spawns_other other] using told

theorem told_move (own : e.ping = p) (told : ∀ q, Told s.log q (s.pings q))
    (moved : Told (e :: s.log) p ping) (q : Nat) :
    Told (s.move p ping (e :: s.log)).log q ((s.move p ping (e :: s.log)).pings q) := by
  by_cases same : q = p
  · subst same
    simpa [move] using moved
  · simpa [move, same] using told_other (own ▸ Ne.symm same) (told q)

theorem covered_cons
    (earlier : ∀ newer p now older, log = newer ++ .silent p now :: older →
      Covered windowMs p now older)
    (latest : ∀ p now, e = .silent p now → Covered windowMs p now log)
    (newer : List Wake) (p : Nat) (now : Int64) (older : List Wake)
    (cut : e :: log = newer ++ .silent p now :: older) : Covered windowMs p now older := by
  cases newer with
  | nil =>
    obtain ⟨rfl, rfl⟩ := List.cons.inj cut
    exact latest p now rfl
  | cons _ newer => exact earlier newer p now older (List.cons.inj cut).2

theorem Sound.logs (sound : Sound windowMs s) (own : e.ping = p)
    (same : claims (e :: s.log) = claims s.log) (moved : Told (e :: s.log) p ping)
    (latest : ∀ p now, e = .silent p now → Covered windowMs p now s.log) :
    Sound windowMs (s.move p ping (e :: s.log)) where
  window := sound.window
  clock := sound.clock
  last := sound.last.trans (congrArg lastClaim same.symm)
  positive := by simpa only [move, same] using sound.positive
  gaps := by simpa only [move, same] using sound.gaps
  calls := told_move own sound.calls moved
  covered := covered_cons sound.covered latest

theorem covered_early {now last : Int64} {newer older : List Wake} (now_pos : 0 ≤ now.toInt)
    (positive : ∀ claim ∈ claims older, 0 ≤ claim.toInt) (read : last = lastClaim (claims older))
    (early : saturatingSub now last < windowMs) :
    Covered windowMs p now (newer ++ .loaded p last :: older) := by
  obtain initial | made := lastClaim_cases (claims older)
  · rw [read, initial, saturatingSub_min now_pos, Int64.lt_iff_toInt_lt,
      Int64.toInt_maxValue] at early
    have small := windowMs.toInt_lt
    omega
  · rw [← read] at made
    rw [Int64.lt_iff_toInt_lt, saturatingSub_exact now_pos (positive last made)] at early
    refine Or.inl ⟨last, ?_, by omega⟩
    rw [claims_append]
    exact List.mem_append_right _ made

variable (wide : 0 < windowMs.toInt)
include wide

theorem Sound.due (sound : Sound windowMs s) {now : Int64} (now_pos : 0 ≤ now.toInt)
    (due : ¬ saturatingSub now s.lastMs < windowMs) (claim : Int64) (made : claim ∈ claims s.log) :
    claim.toInt + windowMs.toInt ≤ now.toInt := by
  have last := sound.last
  have gaps := sound.gaps
  have positive := sound.positive
  generalize claims s.log = claims at made last gaps positive
  cases claims with
  | nil => simp at made
  | cons head rest =>
    have newest : s.lastMs = head := last
    rw [newest, Int64.lt_iff_toInt_lt,
      saturatingSub_exact now_pos (positive head List.mem_cons_self)] at due
    obtain rfl | older := List.mem_cons.mp made
    · omega
    · have gap := List.rel_of_pairwise_cons gaps older
      omega

theorem Sound.claim (sound : Sound windowMs s) {now : Int64} (now_pos : 0 ≤ now.toInt)
    (due : ¬ saturatingSub now s.lastMs < windowMs)
    (none : stores p s.log = 0 ∧ spawns p s.log = 0) :
    Sound windowMs { s.move p .claimed (.stored p now :: s.log) with lastMs := now } where
  window := sound.window
  clock := sound.clock
  last := rfl
  positive := by
    intro claim made
    obtain rfl | older := List.mem_cons.mp made
    · exact now_pos
    · exact sound.positive claim older
  gaps := List.pairwise_cons.mpr ⟨sound.due wide now_pos due, sound.gaps⟩
  calls := told_move rfl sound.calls (by
    obtain ⟨stored, spawned⟩ := none
    simp [Told, stores, spawns, stored, spawned])
  covered := covered_cons sound.covered (by simp)

theorem sound_ping (sound : Sound windowMs s) (p : Nat) : Sound windowMs (s.ping p) := by
  have told := sound.calls p
  unfold Notifier.ping
  cases phase : s.pings p with
  | called =>
    rw [phase] at told
    refine { sound with calls := ?_ }
    intro q
    by_cases same : q = p
    · subst same
      simpa [move] using ⟨sound.clock, told⟩
    · simpa [move, same] using sound.calls q
  | timed now =>
    rw [phase] at told
    obtain ⟨pos, none, quiet⟩ := told
    exact sound.logs rfl rfl ⟨pos, ⟨none, quiet⟩, [], s.log, rfl, sound.last⟩ (by simp)
  | loaded now last =>
    rw [phase] at told
    obtain ⟨pos, none, newer, older, cut, read⟩ := told
    have silently (covered : Covered windowMs p now s.log) :
        Sound windowMs (s.move p .returned (.silent p now :: s.log)) := by
      refine sound.logs rfl rfl ⟨?_, covered.claims⟩ ?_
      · simp [stores, spawns, none]
      · rintro _ _ ⟨⟩
        exact covered
    dsimp only
    rw [sound.window]
    split
    next early =>
      apply silently
      rw [cut]
      refine covered_early pos ?_ read early
      intro claim made
      refine sound.positive claim ?_
      rw [cut, claims_append]
      exact List.mem_append_right _ made
    next due =>
      split
      next same =>
        rw [← same] at due
        exact sound.claim wide pos due none
      next lost =>
        -- nothing claimed since the load would leave `last_ms` as it was loaded
        apply silently
        refine Or.inr ⟨newer, older, last, cut, fun nothing => lost ?_⟩
        rw [sound.last, cut, claims_append, nothing]
        exact read.symm
  | claimed =>
    rw [phase] at told
    obtain ⟨stored, unspawned⟩ := told
    have made : claims s.log ≠ [] := claims_of_stores (p := p) (stored ▸ Nat.one_pos)
    refine sound.logs rfl rfl ⟨?_, made⟩ (by simp)
    simp [stores, spawns, stored, unspawned]
  | returned => exact sound

theorem reach_sound (reach : Reach windowMs s) : Sound windowMs s := by
  induction reach with
  | new => exact ⟨rfl, Int.le_of_eq rfl, rfl, by simp [Notifier.new, claims], .nil,
      fun _ => ⟨rfl, rfl⟩, by simp [Notifier.new]⟩
  | tick later _ _ forward ih =>
    exact { ih with clock := Int.le_trans ih.clock (Int64.le_iff_toInt_le.mp forward) }
  | ping p _ ih => exact sound_ping wide ih p

end Steps

theorem Told.counts {log : List Wake} {p : Nat} {ping : Ping} (told : Told log p ping) :
    stores p log = spawns p log + (if ping = .claimed then 1 else 0) ∧ stores p log ≤ 1 := by
  cases ping with
  | called => simp [told.1, told.2]
  | timed now => simp [told.2.1, told.2.2]
  | loaded now last => simp [told.2.1.1, told.2.1.2]
  | claimed => simp [told.1, told.2]
  | returned => simpa using told.1

/-- In every interleaving the claims are a window apart, each is followed by the one NOTIFY of
the call that made it, a call that has returned leaves a claim, and a silent one is covered. -/
theorem coalesced (windowMs : Int64) (wide : 0 < windowMs) {s : Notifier}
    (reach : Reach windowMs s) :
    ((claims s.log).Pairwise fun newer older =>
      older < newer ∧ older.toInt + windowMs.toInt ≤ newer.toInt) ∧
    (∀ p, stores p s.log ≤ 1 ∧
      stores p s.log = spawns p s.log + (if s.pings p = .claimed then 1 else 0) ∧
      (s.pings p = .claimed → (s.ping p).log = .spawned p :: s.log)) ∧
    (∀ p, s.pings p = .returned → claims s.log ≠ []) ∧
    ∀ newer p now older, s.log = newer ++ .silent p now :: older →
      Covered windowMs p now older := by
  have positive : 0 < windowMs.toInt := Int64.lt_iff_toInt_lt.mp wide
  have sound := reach_sound positive reach
  refine ⟨sound.gaps.imp ?_, fun p => ?_, fun p returned => ?_, sound.covered⟩
  · intro newer older gap
    exact ⟨Int64.lt_iff_toInt_lt.mpr (by omega), gap⟩
  · have counts := (sound.calls p).counts
    refine ⟨counts.2, counts.1, fun claimed => ?_⟩
    simp only [Notifier.ping, claimed, move]
  · have told := sound.calls p
    rw [returned] at told
    exact told.2

def staleClock : Notifier :=
  let first := ((((new 5).ping 0).ping 0).ping 0).ping 0
  let third := (({ first.ping 1 with elapsed := 7 }.ping 2).ping 2).ping 2
  (third.ping 1).ping 1

theorem staleClock_reach : Reach 5 staleClock := by
  have first : Reach 5 (((((new 5).ping 0).ping 0).ping 0).ping 0) :=
    .ping 0 (.ping 0 (.ping 0 (.ping 0 .new)))
  refine .ping 1 (.ping 1 (.ping 2 (.ping 2 (.ping 2 (.tick 7 (.ping 1 first) ?_ ?_)))))
  · decide
  · decide

theorem coalesced_stale : claims staleClock.log = [7, 0] ∧ staleClock.pings 1 = .returned ∧
    Covered 5 1 0 (staleClock.log.drop 1) ∧
    ∀ p, stores p staleClock.log ≤ 1 := by
  obtain ⟨_, counts, _, covered⟩ := coalesced 5 (by decide) staleClock_reach
  exact ⟨by decide, by decide, covered [] 1 0 _ (by decide), fun p => (counts p).1⟩

end Notifier

end Dropless
