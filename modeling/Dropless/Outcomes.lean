import Dropless.Performed
import Dropless.Text
import Dropless.Scenario

namespace Dropless

namespace RetryPolicy

/- `saturating_sub(1)`. -/
theorem previous_toInt (attempt : Int32) :
    (if attempt = Int32.minValue then attempt else attempt - 1).toInt =
      max (attempt.toInt - 1) (-2 ^ 31) := by
  have lower := attempt.le_toInt
  have upper := attempt.toInt_lt
  split
  · rename_i least
    rw [least, Int32.toInt_minValue]
    omega
  · rename_i room
    have other : attempt.toInt ≠ -2 ^ 31 := fun eq => room (Int32.toInt_inj.mp eq)
    rw [Int32.toInt_sub, Int32.toInt_one, Int.bmod_eq_of_le] <;> omega

theorem ceiling_eq (p : RetryPolicy) (attempt : Int32) : p.ceiling attempt =
    min (min (p.base / 10 ^ 6 % 2 ^ 64 * 2 ^ min 30 (attempt.toInt - 1).toNat)
      (2 ^ 64 - 1) * 10 ^ 6) p.maxDelay := by
  have previous := previous_toInt attempt
  have lower := attempt.le_toInt
  unfold ceiling
  generalize (if attempt = Int32.minValue then attempt else attempt - 1) = n at previous
  have exponent : (if n < 0 then 0 else if 30 < n then 30 else n.toInt.toNat) =
      min 30 (attempt.toInt - 1).toNat := by
    simp only [Int32.lt_iff_toInt_lt, Int32.toInt_zero, show (30 : Int32).toInt = 30 from rfl]
    split
    · omega
    · split <;> omega
  have small : min 30 (attempt.toInt - 1).toNat < 64 := by omega
  have shift : 2 ^ min 30 (attempt.toInt - 1).toNat < 2 ^ 64 :=
    Nat.pow_lt_pow_right (by decide) small
  simp only [exponent, if_pos small, Nat.mod_eq_of_lt shift]

theorem ceiling_mono (p : RetryPolicy) {a b : Int32} (le : a ≤ b) : p.ceiling a ≤ p.ceiling b := by
  have exponent : min 30 (a.toInt - 1).toNat ≤ min 30 (b.toInt - 1).toNat := by
    have le := Int32.le_iff_toInt_le.mp le
    omega
  have factor := Nat.mul_le_mul_left (p.base / 10 ^ 6 % 2 ^ 64)
    (Nat.pow_le_pow_right (n := 2) (by decide) exponent)
  rw [ceiling_eq, ceiling_eq]
  omega

theorem ceiling_le (p : RetryPolicy) (attempt : Int32) : p.ceiling attempt ≤ p.maxDelay := by
  rw [ceiling_eq]
  exact Nat.min_le_right _ _

theorem ceilingMillis_le (p : RetryPolicy) (attempt : Int32) :
    p.ceilingMillis attempt * 10 ^ 6 ≤ p.ceiling attempt := by
  have cut := Nat.mod_le (p.ceiling attempt / 10 ^ 6) (2 ^ 64)
  have whole := Nat.div_mul_le_self (p.ceiling attempt) (10 ^ 6)
  exact (Nat.mul_le_mul_right _ cut).trans whole

/- The saturation is hidden by a cap below it. -/
theorem saturated_min {x cap : Nat} (fits : cap < 2 ^ 64) :
    min (min x (2 ^ 64 - 1) * 10 ^ 6) (cap * 10 ^ 6) = min x cap * 10 ^ 6 := by
  have below : min (min x (2 ^ 64 - 1)) cap = min x cap := by omega
  rw [Nat.mul_min_mul_right, below]

/-- Up to the cap the schedule doubles exactly; past the clamp the cap was reached. -/
theorem ceiling_exact {p : RetryPolicy} {base cap : Nat} (attempt : Int32)
    (first : p.base = base * 10 ^ 6) (last : p.maxDelay = cap * 10 ^ 6) (fits : base < 2 ^ 64)
    (fits' : cap < 2 ^ 64)
    (reached : cap ≤ base * 2 ^ 30) :
    p.ceiling attempt = min (base * 2 ^ (attempt.toInt - 1).toNat) cap * 10 ^ 6 := by
  have millis : p.base / 10 ^ 6 % 2 ^ 64 = base := by
    rw [first, Nat.mul_div_cancel _ (by decide), Nat.mod_eq_of_lt fits]
  rw [ceiling_eq, millis, last, saturated_min fits']
  by_cases early : (attempt.toInt - 1).toNat ≤ 30
  · rw [Nat.min_eq_right early]
  · have late := Nat.le_of_not_le early
    have more := Nat.mul_le_mul_left base (Nat.pow_le_pow_right (n := 2) (by decide) late)
    rw [Nat.min_eq_left late, Nat.min_eq_right reached, Nat.min_eq_right (reached.trans more)]

end RetryPolicy

/-- The backoff schedule. -/
theorem backoff_schedule (κ : Prims) (cfg : DispatcherConfig) (p : RetryPolicy) :
    (∀ (base cap : Nat) (attempt : Int32), p.base = base * 10 ^ 6 → p.maxDelay = cap * 10 ^ 6 →
      1 ≤ base → base < 2 ^ 64 → cap < 2 ^ 64 → cap ≤ base * 2 ^ 30 →
      p.ceiling attempt = min (base * 2 ^ (attempt.toInt - 1).toNat) cap * 10 ^ 6) ∧
    (∀ a b : Int32, a ≤ b → p.ceiling a ≤ p.ceiling b) ∧
    (∀ attempt, p.ceiling attempt ≤ p.maxDelay) ∧
    ∀ attempt W s, ∃ millis s', perform κ cfg W s (Dispatcher.backoff p attempt) =
      (.ok millis, s') ∧ millis * 10 ^ 6 ≤ p.ceiling attempt := by
  refine ⟨fun base cap attempt first last _ => RetryPolicy.ceiling_exact attempt first last,
    fun a b => p.ceiling_mono, p.ceiling_le, fun attempt W s => ?_⟩
  have bound := p.ceilingMillis_le attempt
  unfold Dispatcher.backoff
  split
  · exact ⟨0, s, rfl, (Nat.zero_mul _).le.trans (Nat.zero_le _)⟩
  · refine ⟨(W.answer s.calls (.jitter (p.ceilingMillis attempt))).val, _, rfl, ?_⟩
    have drawn := (W.answer s.calls (.jitter (p.ceilingMillis attempt))).isLt
    exact (Nat.mul_le_mul_right _ (Nat.le_of_lt_succ drawn)).trans bound

theorem backoff_schedule_default : RetryPolicy.default.ceiling 3 = 8 * 10 ^ 9 ∧
    RetryPolicy.default.ceiling Int32.maxValue = 3600 * 10 ^ 9 := by
  have exact_ := (backoff_schedule plain Dispatcher.default RetryPolicy.default).1 2000 3600000
  refine ⟨(exact_ 3 rfl rfl (by decide) (by decide) (by decide) (by decide)).trans rfl, ?_⟩
  rw [exact_ Int32.maxValue rfl rfl (by decide) (by decide) (by decide) (by decide)]
  have cap : 3600000 ≤ 2000 * 2 ^ (Int32.maxValue.toInt - 1).toNat := by
    have more := Nat.mul_le_mul_left 2000 (Nat.pow_le_pow_right (n := 2) (by decide)
      (show 11 ≤ (Int32.maxValue.toInt - 1).toNat by decide))
    omega
  exact (congrArg (· * 10 ^ 6) (Nat.min_eq_right cap)).trans rfl

section Bytes

/- `u8::is_utf8_char_boundary`: not a continuation byte. -/
def startsChar (b : UInt8) : Bool := b < 128 ∨ 192 ≤ b

/- `str::is_char_boundary`, which looks at one byte. -/
def boundaryAt (bytes : Bytes) (n : Nat) : Bool :=
  match bytes[n]? with
  | some b => n = 0 ∨ startsChar b = true
  | none => n = bytes.length

theorem startsChar_lead (x y : UInt8) (lead : y = 192 ∨ y = 224 ∨ y = 240) :
    startsChar (x ||| y) = true := by
  have bytes : ∀ n : Fin 256, startsChar (UInt8.ofNat n ||| 192) = true ∧
      startsChar (UInt8.ofNat n ||| 224) = true ∧ startsChar (UInt8.ofNat n ||| 240) =
        true := by decide +kernel
  have own := bytes ⟨x.toNat, x.toNat_lt⟩
  simp only [UInt8.ofNat_toNat] at own
  rcases lead with rfl | rfl | rfl
  · exact own.1
  · exact own.2.1
  · exact own.2.2

theorem startsChar_more (x : UInt8) : startsChar (x &&& 63 ||| 128) = false := by
  have bytes : ∀ n : Fin 256, startsChar (UInt8.ofNat n &&& 63 ||| 128) = false := by decide +kernel
  have own := bytes ⟨x.toNat, x.toNat_lt⟩
  rwa [UInt8.ofNat_toNat] at own

theorem encoded (c : Char) : ∃ b rest, String.utf8EncodeChar c = b :: rest ∧ startsChar b = true ∧
    ∀ x ∈ rest, startsChar x = false := by
  rcases c.utf8Size_eq with one | two | three | four
  · have small : c.toNat < 128 := by
      have le := Char.utf8Size_eq_one_iff.mp one
      have := UInt32.le_iff_toNat_le.mp le
      change c.val.toNat < 128
      have bound : (127 : UInt32).toNat = 127 := rfl
      omega
    refine ⟨_, [], utf8EncodeChar_ascii small, ?_, List.forall_mem_nil _⟩
    simp [startsChar, UInt8.lt_iff_toNat_lt, Nat.mod_eq_of_lt (by omega : c.toNat < 256), small]
  · refine ⟨_, _, String.utf8EncodeChar_eq_cons_cons two, startsChar_lead _ _ (.inl rfl), ?_⟩
    exact List.forall_mem_singleton.mpr (startsChar_more _)
  · refine ⟨_, _, String.utf8EncodeChar_eq_cons_cons_cons three,
      startsChar_lead _ _ (.inr (.inl rfl)), ?_⟩
    simp [startsChar_more]
  · refine ⟨_, _, String.utf8EncodeChar_eq_cons_cons_cons_cons four,
      startsChar_lead _ _ (.inr (.inr rfl)), ?_⟩
    simp [startsChar_more]

theorem length_utf8_cons (c : Char) (cs : List Char) :
    (utf8 (c :: cs)).length = c.utf8Size + (utf8 cs).length := by
  rw [utf8_cons, List.length_append, String.length_utf8EncodeChar]

theorem length_utf8_ofList (cs : List Char) :
    (String.ofList cs).utf8ByteSize = (utf8 cs).length := by
  induction cs with
  | nil => rfl
  | cons c cs ih =>
    have parts : String.ofList (c :: cs) = String.singleton c ++ String.ofList cs := by
      rw [String.singleton_eq_ofList, ← String.ofList_append, List.singleton_append]
    rw [parts, String.utf8ByteSize_append, String.utf8ByteSize_singleton, ih, length_utf8_cons]

theorem length_utf8 (s : String) : s.utf8ByteSize = (utf8 s.toList).length := by
  rw [← length_utf8_ofList, String.ofList_toList]

theorem utf8_starts {cs : List Char} {b : UInt8} (first : (utf8 cs)[0]? = some b) :
    startsChar b = true := by
  cases cs with
  | nil => cases first
  | cons c cs =>
    obtain ⟨x, rest, bytes, starts, _⟩ := encoded c
    rw [utf8_cons, bytes] at first
    cases first
    exact starts

theorem boundaryAt_inner {b : UInt8} {rest xs : Bytes} {n : Nat} (inner : n < rest.length)
    (more : ∀ x ∈ rest, startsChar x = false) : boundaryAt (b :: rest ++ xs) (n + 1) = false := by
  have byte : (b :: rest ++ xs)[n + 1]? = some rest[n] := by
    rw [List.cons_append, List.getElem?_cons_succ, List.getElem?_append_left inner,
      List.getElem?_eq_getElem inner]
  rw [boundaryAt, byte]
  simp [more rest[n] (List.getElem_mem inner)]

theorem boundaryAt_later {b : UInt8} {rest xs : Bytes} {n : Nat} (past : rest.length ≤ n)
    (starts : ∀ x, xs[0]? = some x → startsChar x = true) :
    boundaryAt (b :: rest ++ xs) (n + 1) = boundaryAt xs (n - rest.length) := by
  have byte : (b :: rest ++ xs)[n + 1]? = xs[n - rest.length]? := by
    rw [List.cons_append, List.getElem?_cons_succ, List.getElem?_append_right past]
  rw [boundaryAt, byte, boundaryAt]
  cases here : xs[n - rest.length]? with
  | none =>
    refine decide_eq_decide.mpr ?_
    simp only [List.cons_append, List.length_cons, List.length_append]
    omega
  | some x =>
    by_cases first : n - rest.length = 0
    · rw [first] at here
      simp [first, starts x here]
    · simp [first]

open Dispatcher (isCharBoundary) in
/-- The one byte tells whether an index is between two characters. -/
theorem isCharBoundary_eq (cs : List Char) (n : Nat) :
    isCharBoundary cs n = boundaryAt (utf8 cs) n := by
  induction cs generalizing n with
  | nil => cases n <;> simp [isCharBoundary, boundaryAt, utf8]
  | cons c cs ih =>
    obtain ⟨b, rest, bytes, starts, more⟩ := encoded c
    have size : c.utf8Size = rest.length + 1 := by
      rw [← String.length_utf8EncodeChar, bytes, List.length_cons]
    cases n with
    | zero => simp [isCharBoundary, boundaryAt, utf8_cons, bytes]
    | succ n =>
      simp only [isCharBoundary, ih, size, utf8_cons, bytes]
      by_cases inner : n < rest.length
      · have past : ¬ rest.length + 1 ≤ n + 1 := by omega
        rw [boundaryAt_inner inner more]
        simp [past]
      · have past : rest.length ≤ n := Nat.le_of_not_lt inner
        rw [boundaryAt_later past fun x => utf8_starts]
        simp [past]

end Bytes

section Truncate

open Dispatcher (isCharBoundary backOff sliceTo truncate)

variable {cs p : List Char} {n m : Nat}

theorem sliceTo_prefix (cs : List Char) (n : Nat) : sliceTo cs n <+: cs := by
  induction cs generalizing n with
  | nil => exact List.prefix_rfl
  | cons c cs ih =>
    rw [sliceTo]
    split
    · exact List.prefix_cons_inj c |>.mpr (ih _)
    · exact List.nil_prefix

theorem sliceTo_longest (part : p <+: cs) (fits : (utf8 p).length ≤ n) : p <+: sliceTo cs n := by
  induction cs generalizing p n with
  | nil => exact part
  | cons c cs ih =>
    cases p with
    | nil => exact List.nil_prefix
    | cons d p =>
      obtain ⟨rfl, rest⟩ := List.cons_prefix_cons.mp part
      rw [length_utf8_cons] at fits
      rw [sliceTo, if_pos (by omega)]
      exact List.cons_prefix_cons.mpr ⟨rfl, ih rest (by omega)⟩

theorem sliceTo_boundary (boundary : isCharBoundary cs n = true) :
    (utf8 (sliceTo cs n)).length = n := by
  induction cs generalizing n with
  | nil =>
    cases n with
    | zero => rfl
    | succ n => cases boundary
  | cons c cs ih =>
    cases n with
    | zero => simp [sliceTo, Char.utf8Size_pos c |>.ne', utf8]
    | succ n =>
      simp only [isCharBoundary, Bool.decide_and, Bool.and_eq_true, decide_eq_true_eq] at boundary
      rw [sliceTo, if_pos boundary.1, length_utf8_cons, ih boundary.2]
      omega

theorem prefix_boundary (part : p <+: cs) : isCharBoundary cs (utf8 p).length = true := by
  induction cs generalizing p with
  | nil =>
    rw [List.prefix_nil.mp part]
    rfl
  | cons c cs ih =>
    cases p with
    | nil => rfl
    | cons d p =>
      obtain ⟨rfl, rest⟩ := List.cons_prefix_cons.mp part
      have positive := Char.utf8Size_pos d
      obtain ⟨k, size⟩ : ∃ k, d.utf8Size + (utf8 p).length = k + 1 :=
        ⟨d.utf8Size + (utf8 p).length - 1, by omega⟩
      have left : k + 1 - d.utf8Size = (utf8 p).length := by omega
      rw [length_utf8_cons, size]
      simp only [isCharBoundary, left, ih rest, and_true, decide_eq_true_eq]
      omega

theorem backOff_boundary (cs : List Char) (n : Nat) : isCharBoundary cs (backOff cs n) = true := by
  induction n with
  | zero => cases cs <;> rfl
  | succ n ih =>
    rw [backOff]
    split
    · assumption
    · exact ih

theorem backOff_le (cs : List Char) (n : Nat) : backOff cs n ≤ n := by
  induction n with
  | zero => exact Nat.le_refl 0
  | succ n ih =>
    rw [backOff]
    split
    · exact Nat.le_refl _
    · exact Nat.le_succ_of_le ih

theorem le_backOff (boundary : isCharBoundary cs m = true) (le : m ≤ n) : m ≤ backOff cs n := by
  induction n with
  | zero => exact le
  | succ n ih =>
    rw [backOff]
    split
    · exact le
    · rename_i other
      refine ih (Nat.le_of_lt_succ (Nat.lt_of_le_of_ne le ?_))
      rintro rfl
      exact other boundary

/-- The cut of a text: the longest whole characters of it that fit, and less than one character
short of the bound when the text does not fit. The index it slices at is between two characters,
and the slice has exactly the bytes before it. -/
theorem truncate_longest (s : String) (max : Nat) :
    (truncate s max).toList <+: s.toList ∧ (truncate s max).utf8ByteSize ≤ max ∧
    (∀ p : String, p.toList <+: s.toList → p.utf8ByteSize ≤ max →
      p.toList <+: (truncate s max).toList) ∧
    (max < s.utf8ByteSize → max < (truncate s max).utf8ByteSize + 4 ∧
      boundaryAt (utf8 s.toList) (backOff s.toList max) = true ∧
      utf8 (truncate s max).toList = (utf8 s.toList).take (backOff s.toList max)) := by
  by_cases whole : s.utf8ByteSize ≤ max
  · have cut : truncate s max = s := if_pos whole
    rw [cut]
    exact ⟨List.prefix_rfl, whole, fun p part _ => part, fun long =>
      absurd whole (Nat.not_le_of_lt long)⟩
  have cut : (truncate s max).toList = sliceTo s.toList (backOff s.toList max) := by
    rw [truncate, if_neg whole, String.toList_ofList]
  have boundary := backOff_boundary s.toList max
  have size := sliceTo_boundary boundary
  have part := sliceTo_prefix s.toList (backOff s.toList max)
  have longest : ∀ p, p <+: s.toList → (utf8 p).length ≤ max →
      p <+: sliceTo s.toList (backOff s.toList max) := fun p part fits =>
    sliceTo_longest part (le_backOff (prefix_boundary part) fits)
  simp only [length_utf8, cut] at *
  refine ⟨part, size.le.trans (backOff_le _ _), fun p => longest p.toList, fun long => ⟨?_, ?_, ?_⟩⟩
  · obtain ⟨rest, joined⟩ := part
    cases rest with
    | nil =>
      have fits := backOff_le s.toList max
      rw [List.append_nil] at joined
      rw [joined] at size
      omega
    | cons c rest =>
      -- one character more would not fit
      by_contra short
      have four := Char.utf8Size_le_four c
      have grown : (utf8 (sliceTo s.toList (backOff s.toList max) ++ [c])).length =
          (utf8 (sliceTo s.toList (backOff s.toList max))).length + c.utf8Size := by
        rw [utf8_append, List.length_append, length_utf8_cons]
        rfl
      have more := longest (sliceTo s.toList (backOff s.toList max) ++ [c])
        ⟨rest, by simpa using joined⟩ (by omega)
      have longer := more.length_le
      rw [List.length_append, List.length_singleton] at longer
      omega
  · rw [← isCharBoundary_eq]
    exact boundary
  · obtain ⟨rest, joined⟩ := part
    have bytes : utf8 s.toList = utf8 (sliceTo s.toList (backOff s.toList max)) ++ utf8 rest := by
      rw [← utf8_append, joined]
    rw [bytes, List.take_left' size]

example : truncate "✓✓" 5 = "✓" := by decide

end Truncate

end Dropless
