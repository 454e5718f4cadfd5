import Mathlib.Data.Bool.AllAny
import Dropless.Signing

namespace Dropless

section Bytes

theorem utf8_inj {a b : List Char} (same : utf8 a = utf8 b) : a = b := by
  have bytes : a.utf8Encode = b.utf8Encode := congrArg List.toByteArray same
  have decoded := congrArg ByteArray.utf8Decode? bytes
  simp only [List.utf8Decode?_utf8Encode, Option.some.injEq] at decoded
  simpa using congrArg Array.toList decoded

theorem utf8_append (a b : List Char) : utf8 (a ++ b) = utf8 a ++ utf8 b := by
  simp [utf8]

theorem utf8_cons (c : Char) (cs : List Char) :
    utf8 (c :: cs) = String.utf8EncodeChar c ++ utf8 cs := by
  simp [utf8]

theorem utf8EncodeChar_ascii {c : Char} (small : c.toNat < 128) :
    String.utf8EncodeChar c = [UInt8.ofNat c.toNat] := by
  have low : c.toNat ≤ 0x7f := by omega
  simp only [String.utf8EncodeChar]
  rw [if_pos (by exact low)]
  rfl

theorem mem_utf8_ascii {cs : List Char} (ascii : ∀ c ∈ cs, c.toNat < 128) {b : UInt8}
    (mem : b ∈ utf8 cs) : ∃ c ∈ cs, b = UInt8.ofNat c.toNat := by
  obtain ⟨c, hc, hb⟩ := List.mem_flatMap.mp mem
  rw [utf8EncodeChar_ascii (ascii c hc)] at hb
  exact ⟨c, hc, List.mem_singleton.mp hb⟩

theorem foldl_or_zero {pairs : List (UInt8 × UInt8)} {diff : UInt8} :
    pairs.foldl (fun diff p => diff ||| (p.1 ^^^ p.2)) diff = 0 ↔
      diff = 0 ∧ ∀ p ∈ pairs, p.1 = p.2 := by
  induction pairs generalizing diff with
  | nil => simp
  | cons p pairs ih =>
    simp only [List.foldl_cons, ih, UInt8.or_eq_zero_iff, List.mem_cons, forall_eq_or_imp,
      UInt8.xor_eq_zero_iff]
    exact and_assoc

theorem zip_eq_iff {a b : Bytes} (lengths : a.length = b.length) :
    (∀ p ∈ a.zip b, p.1 = p.2) ↔ a = b := by
  induction a generalizing b with
  | nil => simp [List.eq_nil_of_length_eq_zero lengths.symm]
  | cons x a ih =>
    cases b with
    | nil => simp at lengths
    | cons y b =>
      simp only [List.zip_cons_cons, List.mem_cons, forall_eq_or_imp, List.cons.injEq]
      rw [ih (by simpa using lengths)]

/-- The constant-time comparison is equality. -/
theorem ctEq_iff {a b : Bytes} : Inbound.ctEq a b = true ↔ a = b := by
  unfold Inbound.ctEq
  split
  · rename_i lengths
    simp only [Bool.false_eq_true, false_iff]
    exact fun same => lengths (congrArg List.length same)
  · rename_i lengths
    rw [decide_eq_true_eq, foldl_or_zero, zip_eq_iff (by simpa using lengths)]
    simp

end Bytes

section Decimal

theorem decimal_eq (n : Int64) : decimal n =
    if 0 ≤ n.toInt then Nat.toDigits 10 n.toInt.toNat else '-' :: Nat.toDigits 10
      (-n.toInt).toNat := by
  simp only [decimal, Int.toString_eq_repr, Int.repr_eq_if]
  split <;> simp

theorem digit_bounds {c : Char} (digit : c.isDigit = true) : 48 ≤ c.toNat ∧ c.toNat ≤ 57 := by
  simp only [Char.isDigit, Bool.and_eq_true, decide_eq_true_eq] at digit
  exact digit

theorem toDigits_digit {n : Nat} {c : Char} (mem : c ∈ Nat.toDigits 10 n) :
    48 ≤ c.toNat ∧ c.toNat ≤ 57 :=
  digit_bounds (Nat.isDigit_of_mem_toDigits (by decide) (by decide) mem)

theorem mem_decimal {n : Int64} {c : Char} (mem : c ∈ decimal n) :
    c = '-' ∨ (48 ≤ c.toNat ∧ c.toNat ≤ 57) := by
  rw [decimal_eq] at mem
  split at mem
  · exact .inr (toDigits_digit mem)
  · rcases List.mem_cons.mp mem with rfl | mem
    · exact .inl rfl
    · exact .inr (toDigits_digit mem)

theorem decimal_ascii {n : Int64} {c : Char} (mem : c ∈ decimal n) : c.toNat < 128 := by
  rcases mem_decimal mem with rfl | bounds
  · decide
  · omega

theorem dot_notMem_decimal (n : Int64) : dot ∉ utf8 (decimal n) := by
  intro mem
  obtain ⟨c, hc, eq⟩ := mem_utf8_ascii (fun c => decimal_ascii) mem
  have value : 46 = c.toNat % 256 := by simpa [dot] using congrArg UInt8.toNat eq
  rcases mem_decimal hc with rfl | bounds
  · revert value
    decide
  · omega

theorem parse_foldlM {cs : List Char} (digits : ∀ c ∈ cs, 48 ≤ c.toNat ∧ c.toNat ≤ 57)
    (init : Nat) :
    cs.foldlM (fun n c => if '0' ≤ c ∧ c ≤ '9' then some (n * 10 + (c.toNat - 48)) else none) init =
      some (Nat.ofDigitChars 10 cs init) := by
  induction cs generalizing init with
  | nil => rfl
  | cons c cs ih =>
    have bounds : '0' ≤ c ∧ c ≤ '9' := digits c List.mem_cons_self
    rw [List.foldlM_cons, if_pos bounds, Nat.ofDigitChars_cons, Nat.mul_comm 10 init]
    exact ih (fun d hd => digits d (List.mem_cons_of_mem _ hd)) _

theorem parseDigits_toDigits (n : Nat) : parseDigits (Nat.toDigits 10 n) = some n := by
  have parsed := parse_foldlM (fun c => toDigits_digit (n := n)) 0
  rw [Nat.ofDigitChars_ten_toDigits] at parsed
  unfold parseDigits
  split
  · rename_i none
    exact absurd none Nat.toDigits_ne_nil
  · exact parsed

theorem parseI64_unsigned {c : Char} {cs : List Char} (minus : c ≠ '-') (plus : c ≠ '+') {n : Nat}
    (parsed : parseDigits (c :: cs) = some n) (small : n < 2 ^ 63) :
    parseI64 (c :: cs) = some (.ofInt n) := by
  unfold parseI64
  split
  rename_i negative digits eq
  split at eq
  · rename_i rest same
    exact absurd (List.cons.inj same).1 minus
  · rename_i rest same
    exact absurd (List.cons.inj same).1 plus
  · obtain ⟨rfl, rfl⟩ := Prod.mk.inj eq
    have fits : -2 ^ 63 ≤ (n : Int) ∧ (n : Int) < 2 ^ 63 := by omega
    rw [parsed, Option.bind_some]
    simp only [Bool.false_eq_true, ↓reduceIte]
    rw [if_pos fits]

theorem parseI64_negative {cs : List Char} {n : Nat} (parsed : parseDigits cs = some n)
    (fits : -2 ^ 63 ≤ -(n : Int) ∧ -(n : Int) < 2 ^ 63) :
    parseI64 ('-' :: cs) = some (.ofInt (-n)) := by
  unfold parseI64
  split
  rename_i negative digits eq
  obtain ⟨rfl, rfl⟩ : true = negative ∧ cs = digits := Prod.mk.inj eq
  rw [parsed, Option.bind_some]
  simp only [↓reduceIte]
  rw [if_pos fits]

/-- A printed number is read back. -/
theorem parseI64_decimal (n : Int64) : parseI64 (decimal n) = some n := by
  have upper := n.toInt_lt
  have lower := n.le_toInt
  rw [decimal_eq]
  split
  · rename_i positive
    obtain ⟨k, value⟩ := Int.eq_ofNat_of_zero_le positive
    have parsed := parseDigits_toDigits n.toInt.toNat
    cases digits : Nat.toDigits 10 n.toInt.toNat with
    | nil => exact absurd digits Nat.toDigits_ne_nil
    | cons c cs =>
      have digit : 48 ≤ c.toNat ∧ c.toNat ≤ 57 := toDigits_digit (digits ▸ List.mem_cons_self)
      rw [digits] at parsed
      rw [parseI64_unsigned _ _ parsed (by omega), Int.toNat_of_nonneg positive, Int64.ofInt_toInt]
      · rintro rfl
        revert digit
        decide
      · rintro rfl
        revert digit
        decide
  · rename_i negative
    have size : (((-n.toInt).toNat : Nat) : Int) = -n.toInt := by omega
    have fits : -2 ^ 63 ≤ -(((-n.toInt).toNat : Nat) : Int) ∧
        -(((-n.toInt).toNat : Nat) : Int) < 2 ^ 63 := by
      rw [size, Int.neg_neg]
      exact ⟨lower, upper⟩
    rw [parseI64_negative (parseDigits_toDigits _) fits, size, Int.neg_neg, Int64.ofInt_toInt]

theorem decimal_inj {m n : Int64} (same : decimal m = decimal n) : m = n := by
  have parsed := congrArg parseI64 same
  rw [parseI64_decimal, parseI64_decimal] at parsed
  exact Option.some.inj parsed

end Decimal

section Splits

theorem splitOnce_eq_none {c : Char} {cs : List Char} : splitOnce c cs = none ↔ c ∉ cs := by
  induction cs with
  | nil => simp [splitOnce]
  | cons x cs ih =>
    by_cases here : x = c
    · simp [splitOnce, here]
    · simp [splitOnce, here, ih, Ne.symm here]

theorem splitOnce_cut {c : Char} {a : List Char} (first : c ∉ a) (b : List Char) :
    splitOnce c (a ++ c :: b) = some (a, b) := by
  induction a with
  | nil => simp [splitOnce]
  | cons x a ih =>
    obtain ⟨here, later⟩ := List.ne_and_not_mem_of_not_mem_cons first
    simp [splitOnce, Ne.symm here, ih later]

theorem splitOnce_eq_some {c : Char} {cs a b : List Char} :
    splitOnce c cs = some (a, b) ↔ c ∉ a ∧ cs = a ++ c :: b := by
  constructor
  · intro cut
    induction cs generalizing a with
    | nil => simp [splitOnce] at cut
    | cons x cs ih =>
      by_cases here : x = c
      · simp only [splitOnce, here, ↓reduceIte, Option.some.injEq, Prod.mk.injEq] at cut
        obtain ⟨rfl, rfl⟩ := cut
        simp [here]
      · simp only [splitOnce, here, ↓reduceIte, Option.map_eq_some_iff] at cut
        obtain ⟨⟨a', b'⟩, cut, eq⟩ := cut
        obtain ⟨rfl, rfl⟩ := Prod.mk.inj eq
        obtain ⟨first, rfl⟩ := ih cut
        simp [first, Ne.symm here]
  · rintro ⟨first, rfl⟩
    exact splitOnce_cut first b

/-- A text is cut at a separator in one way when the first piece is free of it. -/
theorem cut_inj {α : Type} {c : α} {a a' b b' : List α} (first : c ∉ a) (second : c ∉ a')
    (same : a ++ c :: b = a' ++ c :: b') : a = a' ∧ b = b' := by
  induction a generalizing a' with
  | nil =>
    cases a' with
    | nil => exact ⟨rfl, (List.cons.inj same).2⟩
    | cons y a' => exact absurd (List.cons.inj same).1 (List.ne_of_not_mem_cons second)
  | cons x a ih =>
    cases a' with
    | nil => exact absurd (List.cons.inj same).1.symm (List.ne_of_not_mem_cons first)
    | cons y a' =>
      obtain ⟨rfl, rest⟩ := List.cons.inj same
      obtain ⟨rfl, rfl⟩ := ih (List.not_mem_of_not_mem_cons first)
        (List.not_mem_of_not_mem_cons second) rest
      exact ⟨rfl, rfl⟩

theorem trim_clear {cs : List Char} (clear : ∀ c ∈ cs, isWhitespace c = false) : trim cs = cs := by
  have keep : ∀ xs : List Char, (∀ c ∈ xs, isWhitespace c = false) →
      xs.dropWhile isWhitespace = xs := by
    intro xs clear
    cases xs with
    | nil => rfl
    | cons x xs => simp [clear x List.mem_cons_self]
  rw [trim, keep cs clear, keep cs.reverse (by simpa using clear), List.reverse_reverse]

end Splits

section Uuids

theorem hexDigit_inj : ∀ a b : Fin 16, hexDigit a = hexDigit b → a = b := by decide

theorem hexEncode_inj {a b : Bytes} (same : hexEncode a = hexEncode b) : a = b := by
  have texts := String.ofList_injective same
  clear same
  induction a generalizing b with
  | nil =>
    cases b with
    | nil => rfl
    | cons y b => cases texts
  | cons x a ih =>
    cases b with
    | nil => cases texts
    | cons y b =>
      simp only [List.flatMap_cons, List.cons_append, List.nil_append, List.cons.injEq] at texts
      obtain ⟨high, low, rest⟩ := texts
      have hx := x.toNat_lt
      have hy := y.toNat_lt
      have high := Fin.mk.inj (hexDigit_inj ⟨x.toNat / 16, by omega⟩ ⟨y.toNat / 16, by omega⟩ high)
      have low := Fin.mk.inj (hexDigit_inj ⟨x.toNat % 16, by omega⟩ ⟨y.toNat % 16, by omega⟩ low)
      have byte : x = y := UInt8.toNat_inj.mp (by omega)
      rw [byte, ih rest]

theorem length_hexText (width value : Nat) : (hexText width value).length = width := by
  simp [hexText]

theorem mod_pow_digits {a b width : Nat} (same : ∀ j < width, a / 16 ^ j % 16 = b / 16 ^ j % 16) :
    a % 16 ^ width = b % 16 ^ width := by
  induction width with
  | zero => simp [Nat.mod_one]
  | succ n ih =>
    rw [Nat.mod_pow_succ, Nat.mod_pow_succ, ih fun j small => same j (by omega), same n (by omega)]

theorem hexText_inj {width a b : Nat} (same : hexText width a = hexText width b) :
    a % 16 ^ width = b % 16 ^ width := by
  refine mod_pow_digits fun j small => ?_
  have digit := congrArg (·[width - 1 - j]?) same
  simp only [hexText, List.getElem?_map, List.getElem?_range (show width - 1 - j < width by omega),
    Option.map_some, Option.some.injEq, show width - 1 - (width - 1 - j) = j by omega] at digit
  have fin := hexDigit_inj ⟨a / 16 ^ j % 16, Nat.mod_lt _ (by decide)⟩
    ⟨b / 16 ^ j % 16, Nat.mod_lt _ (by decide)⟩ digit
  exact Fin.mk.inj fin

theorem uuidText_inj {u v : Uuid} (same : uuidText u = uuidText v) : u = v := by
  have texts := String.ofList_injective same
  simp only [List.append_assoc, List.cons_append] at texts
  obtain ⟨g₁, texts⟩ := List.append_inj texts (by simp [length_hexText])
  obtain ⟨g₂, texts⟩ := List.append_inj (List.cons.inj texts).2 (by simp [length_hexText])
  obtain ⟨g₃, texts⟩ := List.append_inj (List.cons.inj texts).2 (by simp [length_hexText])
  obtain ⟨g₄, texts⟩ := List.append_inj (List.cons.inj texts).2 (by simp [length_hexText])
  have e₁ := hexText_inj g₁
  have e₂ := hexText_inj g₂
  have e₃ := hexText_inj g₃
  have e₄ := hexText_inj g₄
  have e₅ := hexText_inj (List.cons.inj texts).2
  have hu := u.isLt
  have hv := v.isLt
  apply BitVec.eq_of_toNat_eq
  omega

end Uuids

end Dropless
