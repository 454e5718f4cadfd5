import Dropless.Model

/-! The pure decisions of the dispatcher: the circuit breaker (`circuit.rs`) and the
retry schedule (`retry.rs`). A `chrono` duration is in microseconds, a `std` one in
nanoseconds. -/
namespace Dropless

structure CircuitPolicy where
  failureThreshold : Int32
  openDuration : Time

inductive Gate where
  | allow
  | skip (deadline : Time)
  | probe
deriving DecidableEq

structure CircuitUpdate where
  state : String
  openUntil : Option Time
  consecutiveFailures : Int32
deriving DecidableEq

/- `i32::saturating_add(1)`. -/
def saturatingSucc (n : Int32) : Int32 := if n = Int32.maxValue then n else n + 1

theorem toInt_succ {n : Int32} (room : n ≠ Int32.maxValue) : (n + 1).toInt = n.toInt + 1 := by
  have upper := n.toInt_lt
  have lower := n.le_toInt
  have other : n.toInt ≠ 2 ^ 31 - 1 := fun eq => room (Int32.toInt_inj.mp eq)
  rw [Int32.toInt_add, Int32.toInt_one, Int.bmod_eq_of_le] <;> omega

theorem saturatingSucc_toInt (n : Int32) :
    (saturatingSucc n).toInt = min (n.toInt + 1) (2 ^ 31 - 1) := by
  have upper := n.toInt_lt
  unfold saturatingSucc
  split
  · rename_i full
    rw [full, Int32.toInt_maxValue]
    omega
  · rename_i room
    rw [toInt_succ room]
    have other : n.toInt ≠ 2 ^ 31 - 1 := fun eq => room (Int32.toInt_inj.mp eq)
    omega

namespace Circuit

def default : CircuitPolicy := ⟨5, seconds 30⟩

def gate (e : Endpoint) (now : Time) : Gate :=
  if e.circuitState = "open" then
    match e.circuitOpenUntil with
    | some deadline => if now < deadline then .skip deadline else .probe
    | none => .probe
  else if e.circuitState = "half_open" then
    match e.circuitOpenUntil with
    | some deadline => if now < deadline then .skip deadline else .probe
    | none => .probe
  else .allow

def onSuccess : CircuitUpdate := ⟨"closed", none, 0⟩

def onFailure (e : Endpoint) (policy : CircuitPolicy) (now : Time) : CircuitUpdate :=
  let failures := saturatingSucc e.consecutiveFailures
  if policy.failureThreshold ≤ failures then
    ⟨"open", some (now + policy.openDuration), failures⟩
  else
    ⟨"closed", none, failures⟩

/- `open_duration.num_seconds().max(1) as i32`; the cast keeps the low 32 bits. -/
def probeLease (policy : CircuitPolicy) : Int32 :=
  .ofInt (max (policy.openDuration.tdiv 1000000) 1)

end Circuit

structure RetryPolicy where
  base : Nat
  maxDelay : Nat
  maxAttempts : Int32

namespace RetryPolicy

def default : RetryPolicy := ⟨2 * 10 ^ 9, 3600 * 10 ^ 9, 16⟩

def isExhausted (p : RetryPolicy) (attemptCount : Int32) : Bool := p.maxAttempts ≤ attemptCount

def ceiling (p : RetryPolicy) (attempt : Int32) : Nat :=
  let previous := if attempt = Int32.minValue then attempt else attempt - 1
  let exp := if previous < 0 then 0 else if 30 < previous then 30 else previous.toInt.toNat
  let factor := if exp < 64 then 2 ^ exp % 2 ^ 64 else 2 ^ 64 - 1
  let millis := min (p.base / 10 ^ 6 % 2 ^ 64 * factor) (2 ^ 64 - 1)
  min (millis * 10 ^ 6) p.maxDelay

def ceilingMillis (p : RetryPolicy) (attempt : Int32) : Nat :=
  p.ceiling attempt / 10 ^ 6 % 2 ^ 64

/- `chrono::Duration::from_std(..)`, with its one-minute fallback out of range. -/
def delay (millis : Nat) : Time := if millis < 2 ^ 63 then millis * 1000 else seconds 60

end RetryPolicy

end Dropless
