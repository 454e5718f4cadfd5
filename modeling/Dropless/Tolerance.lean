import Mathlib.Algebra.Order.Ring.Int
import Dropless.Stripe

namespace Dropless

namespace Inbound

theorem abs_toInt (x : Int64) :
    x.abs.toInt = if x.toInt = -2 ^ 63 then -2 ^ 63 else (x.toInt.natAbs : Int) := by
  have value : x.abs.toInt = x.toBitVec.abs.toInt := rfl
  have least : x.toBitVec = BitVec.intMin 64 ↔ x.toInt = -2 ^ 63 := by
    rw [← BitVec.toInt_inj]
    rfl
  rw [value, BitVec.toInt_abs_eq_natAbs]
  simp only [least]
  rfl

def distance (now ts : Int64) : Nat := (now.toInt - ts.toInt).natAbs

/- Where the wrapped difference lies in the tolerance. -/
theorem within_iff {now ts tolerance : Int64} (on : 0 < tolerance) :
    outsideTolerance now ts tolerance = false ↔
      distance now ts ≤ tolerance.toInt ∨ distance now ts = 2 ^ 63 ∨
        2 ^ 64 ≤ distance now ts + tolerance.toInt := by
  have nowLow := now.le_toInt
  have nowHigh := now.toInt_lt
  have tsLow := ts.le_toInt
  have tsHigh := ts.toInt_lt
  have high := tolerance.toInt_lt
  have positive : 0 < tolerance.toInt := by simpa using Int64.lt_iff_toInt_lt.mp on
  simp only [outsideTolerance, on, true_and, decide_eq_false_iff_not, Int64.lt_iff_toInt_lt,
    abs_toInt, Int64.toInt_sub, distance]
  rw [Int.bmod_def]
  omega

section Forged

theorem hexDigit_clear : ∀ n : Fin 16, hexDigit n ≠ ',' ∧ isWhitespace (hexDigit n) = false := by
  decide

theorem hexEncode_clear {data : Bytes} {c : Char} (mem : c ∈ (hexEncode data).toList) :
    c ≠ ',' ∧ isWhitespace c = false := by
  rw [hexEncode, String.toList_ofList] at mem
  obtain ⟨b, -, mem⟩ := List.mem_flatMap.mp mem
  have size := b.toNat_lt
  simp only [List.mem_cons, List.not_mem_nil, or_false] at mem
  rcases mem with rfl | rfl
  · exact hexDigit_clear ⟨b.toNat / 16, by omega⟩
  · exact hexDigit_clear ⟨b.toNat % 16, by omega⟩

theorem decimal_clear {n : Int64} {c : Char} (mem : c ∈ decimal n) :
    c ≠ ',' ∧ isWhitespace c = false := by
  rcases mem_decimal mem with rfl | bounds
  · decide
  · refine ⟨?_, ?_⟩
    · rintro rfl
      revert bounds
      decide
    · simp only [isWhitespace, decide_eq_false_iff_not]
      omega

def stripeLine (κ : Prims) (secret : String) (ts : Int64) (body : Bytes) : String :=
  .ofList (("t=".toList ++ decimal ts) ++ ',' :: ("v1=".toList ++ stripeTag κ secret ts body))

variable {κ : Prims} {secret : String} {ts : Int64} {body : Bytes}

theorem toList_stripeLine : (stripeLine κ secret ts body).toList =
    ("t=".toList ++ decimal ts) ++ ',' :: ("v1=".toList ++ stripeTag κ secret ts body) :=
  String.toList_ofList

theorem parts_stripeLine : parts (stripeLine κ secret ts body) =
    ["t=".toList ++ decimal ts, "v1=".toList ++ stripeTag κ secret ts body] := by
  have time : ∀ c ∈ "t=".toList ++ decimal ts, (c == ',') = false :=
    List.forall_mem_append.mpr
      ⟨List.all_iff_forall_prop.mp (by decide), fun c mem => by simpa using (decimal_clear mem).1⟩
  have tag : ∀ c ∈ "v1=".toList ++ stripeTag κ secret ts body, (c == ',') = false :=
    List.forall_mem_append.mpr
      ⟨List.all_iff_forall_prop.mp (by decide), fun c mem => by simpa using (hexEncode_clear mem).1⟩
  rw [parts, toList_stripeLine, List.splitOn_eq_splitOnP, List.splitOnP_append_cons _ _ (by decide),
    List.splitOnP_eq_singleton time, List.splitOnP_eq_singleton tag]
  rfl

theorem keyed_clear {key value : List Char} (first : '=' ∉ key)
    (left : ∀ c ∈ key, isWhitespace c = false) (right : ∀ c ∈ value, isWhitespace c = false) :
    keyed (key ++ '=' :: value) = some (key, value) :=
  keyed_eq_some.mpr ⟨key, value, first, rfl, trim_clear left, trim_clear right⟩

theorem keyed_time : keyed ("t=".toList ++ decimal ts) = some ("t".toList, decimal ts) := by
  have first : '=' ∉ "t".toList := by decide
  exact keyed_clear first (List.all_iff_forall_prop.mp (by decide)) fun c mem =>
    (decimal_clear mem).2

theorem keyed_tag : keyed ("v1=".toList ++ stripeTag κ secret ts body) =
    some ("v1".toList, stripeTag κ secret ts body) := by
  have first : '=' ∉ "v1".toList := by decide
  exact keyed_clear first (List.all_iff_forall_prop.mp (by decide)) fun c mem =>
    (hexEncode_clear mem).2

theorem stripeLine_values (κ : Prims) (secret : String) (ts : Int64) (body : Bytes) :
    valuesOf "t" (stripeLine κ secret ts body) = [decimal ts] ∧
      valuesOf "v1" (stripeLine κ secret ts body) = [stripeTag κ secret ts body] := by
  simp only [valuesOf, parts_stripeLine, List.filterMap_cons, List.filterMap_nil, valueAt,
    keyed_time, keyed_tag, Option.bind_some]
  exact ⟨rfl, rfl⟩

theorem verifyStripe_line (anyKey : ∀ key, κ.macKey key = .ok ()) {now tolerance : Int64}
    (within : outsideTolerance now ts tolerance = false) :
    verifyStripe κ secret (stripeLine κ secret ts body) body now tolerance = .ok () := by
  obtain ⟨times, tags⟩ := stripeLine_values κ secret ts body
  refine (verifyStripe_ok anyKey).mpr ⟨decimal ts, ts, ?_, parseI64_decimal ts, within, ?_⟩
  · rw [times]
    rfl
  · rw [tags]
    exact List.mem_singleton_self _

end Forged

theorem verifyHmac_ok {κ : Prims} (std : κ.Standard) {secret id : String} {ts : Int64}
    {body : Bytes} {header : String} {now tolerance : Int64} :
    verifyHmac κ secret id ts body header now tolerance = .ok () ↔
      outsideTolerance now ts tolerance = false ∧
        Signing.token κ secret id ts body ∈ splitWhitespace header.toList := by
  unfold verifyHmac
  split
  · rename_i outside
    simp [outside]
  · rename_i inside
    rw [Signing.verify_eq std]
    by_cases found : Signing.token κ secret id ts body ∈ splitWhitespace header.toList
    · rw [decide_eq_true found]
      exact ⟨fun _ => ⟨by simpa using inside, found⟩, fun _ => rfl⟩
    · rw [decide_eq_false found]
      refine ⟨fun mismatch => ?_, fun both => absurd both.2 found⟩
      exact nomatch mismatch

/-- The tolerance is exact unless the difference is half the range, or so near the whole range
that it wraps into the tolerance. -/
theorem tolerance_exact (κ : Prims) (std : κ.Standard) (now ts tolerance : Int64)
    (on : 0 < tolerance) :
    ((∀ secret header body t, (valuesOf "t" header).getLast? = some t → parseI64 t = some ts →
        verifyStripe κ secret header body now tolerance = .ok () →
          distance now ts ≤ tolerance.toInt) ↔
      distance now ts ≠ 2 ^ 63 ∧ distance now ts + tolerance.toInt < 2 ^ 64) ∧
    ((∀ secret id body header, verifyHmac κ secret id ts body header now tolerance = .ok () →
        distance now ts ≤ tolerance.toInt) ↔
      distance now ts ≠ 2 ^ 63 ∧ distance now ts + tolerance.toInt < 2 ^ 64) := by
  have high := tolerance.toInt_lt
  have exact_iff : (outsideTolerance now ts tolerance = false → distance now ts ≤ tolerance.toInt) ↔
      distance now ts ≠ 2 ^ 63 ∧ distance now ts + tolerance.toInt < 2 ^ 64 := by
    rw [within_iff on]
    omega
  constructor
  · rw [← exact_iff]
    constructor
    · intro exact within
      obtain ⟨times, -⟩ := stripeLine_values κ "" ts []
      exact exact "" (stripeLine κ "" ts []) [] (decimal ts) (by rw [times]; rfl)
        (parseI64_decimal ts) (verifyStripe_line std.anyKey within)
    · intro exact secret header body t last parsed accepted
      obtain ⟨t', ts', last', parsed', within, -⟩ := (verifyStripe_ok std.anyKey).mp accepted
      obtain rfl := Option.some.inj (last.symm.trans last')
      obtain rfl := Option.some.inj (parsed.symm.trans parsed')
      exact exact within
  · rw [← exact_iff]
    constructor
    · intro exact within
      refine exact "" "" [] (.ofList (Signing.token κ "" "" ts []))
        ((verifyHmac_ok std).mpr ⟨within, ?_⟩)
      simp only [String.toList_ofList, Signing.splitWhitespace_token, List.mem_singleton]
    · intro exact secret id body header accepted
      exact exact ((verifyHmac_ok std).mp accepted).1

theorem tolerance_exact_recent : (tabled []).Standard ∧ (0 : Int64) < 300 ∧
    ∀ secret id body header,
      verifyHmac (tabled []) secret id 1700000000 body header 1700000200 300 = .ok () →
        distance 1700000200 1700000000 ≤ (300 : Int64).toInt := by
  refine ⟨tabled_standard [], by decide, ?_⟩
  exact (tolerance_exact (tabled []) (tabled_standard []) 1700000200 1700000000 300
    (by decide)).2.mpr (by decide)

/- The real tag over a timestamp half the range before now. -/
def farAnswer : Prims := tabled [(utf8 "whsec_teststripe".toList,
  utf8 "-9223372035154775808.\x7b\x7d".toList,
  [190, 42, 167, 46, 16, 106, 89, 143, 225, 117, 194, 248, 70, 21, 182, 10, 155, 50, 130, 34, 224, 107,
    50, 235, 54, 179, 29, 149, 161, 127, 89, 212])]

theorem tolerance_wraps : ¬ ∀ secret header body now tolerance t ts,
    0 < tolerance → (valuesOf "t" header).getLast? = some t → parseI64 t = some ts →
      verifyStripe farAnswer secret header body now tolerance = .ok () →
        distance now ts ≤ tolerance.toInt := by
  intro exact
  have far := exact "whsec_teststripe" ("t=-9223372035154775808,v1=" ++
      "be2aa72e106a598fe175c2f84615b60a9b328222e06b32eb36b31d95a17f59d4")
    (utf8 "\x7b\x7d".toList) 1700000000 300 "-9223372035154775808".toList (-9223372035154775808)
    (by decide) (by decide +kernel) (by decide +kernel) (by decide +kernel)
  revert far
  decide

end Inbound

end Dropless
