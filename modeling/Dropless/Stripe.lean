import Dropless.Tokens

namespace Dropless

namespace Inbound

def parts (header : String) : List (List Char) := header.toList.splitOn ','

def keyed (part : List Char) : Option (List Char × List Char) :=
  (splitOnce '=' part).map fun p => (trim p.1, trim p.2)

def valueAt (key part : List Char) : Option (List Char) :=
  (keyed part).bind fun p => if p.1 = key then some p.2 else none

def valuesOf (key : String) (header : String) : List (List Char) :=
  (parts header).filterMap (valueAt key.toList)

theorem keyed_eq_some {part key value : List Char} : keyed part = some (key, value) ↔
    ∃ k v, '=' ∉ k ∧ part = k ++ '=' :: v ∧ trim k = key ∧ trim v = value := by
  simp only [keyed, Option.map_eq_some_iff, Prod.exists, splitOnce_eq_some, Prod.mk.injEq]
  simp only [and_assoc]

theorem valueAt_eq_some {key part value : List Char} :
    valueAt key part = some value ↔ keyed part = some (key, value) := by
  unfold valueAt
  cases keyed part with
  | none => simp
  | some p =>
    obtain ⟨k, v⟩ := p
    by_cases same : k = key <;> simp [same]

/- What one part does to the timestamp and the signatures gathered before it. -/
def gather (seen : Option Int64 × List (List Char)) (part : List Char) :
    Option Int64 × List (List Char) :=
  (match valueAt "t".toList part with
    | some v => parseI64 v
    | none => seen.1,
   seen.2 ++ (valueAt "v1".toList part).toList)

theorem stripeParts_gather (header : List Char) :
    stripeParts header = (header.splitOn ',').foldl gather (none, []) := by
  unfold stripeParts
  congr 1
  funext seen part
  obtain ⟨ts, v1s⟩ := seen
  simp only [gather, valueAt, keyed]
  cases splitOnce '=' part with
  | none => simp
  | some p =>
    obtain ⟨k, v⟩ := p
    by_cases isT : trim k = ['t']
    · simp [isT]
    · by_cases isV1 : trim k = ['v', '1']
      · simp [isV1]
      · simp [isT, isV1]

theorem gather_parts (ps : List (List Char)) (ts : Option Int64) (v1s : List (List Char)) :
    ps.foldl gather (ts, v1s) =
      (match (ps.filterMap (valueAt "t".toList)).getLast? with
        | some v => parseI64 v
        | none => ts,
       v1s ++ ps.filterMap (valueAt "v1".toList)) := by
  induction ps generalizing ts v1s with
  | nil => simp
  | cons part ps ih =>
    rw [List.foldl_cons, gather, ih, List.filterMap_cons, List.filterMap_cons]
    congr 1
    · cases valueAt "t".toList part with
      | none => rfl
      | some v =>
        rw [List.getLast?_cons]
        cases (ps.filterMap (valueAt "t".toList)).getLast? <;> rfl
    · cases valueAt "v1".toList part with
      | none => exact congrArg (· ++ _) (List.append_nil v1s)
      | some v => exact List.append_assoc v1s [v] _

theorem stripeParts_eq (header : String) : stripeParts header.toList =
    ((valuesOf "t" header).getLast?.bind parseI64, valuesOf "v1" header) := by
  rw [stripeParts_gather, gather_parts, List.nil_append]
  simp only [valuesOf, parts]
  cases ((header.toList.splitOn ',').filterMap (valueAt "t".toList)).getLast? <;> rfl

variable {κ : Prims} {secret header : String} {body : Bytes} {now tolerance : Int64}

def stripeTag (κ : Prims) (secret : String) (ts : Int64) (body : Bytes) : List Char :=
  (hexEncode (κ.hmacSha256 (utf8 secret.toList) (stripeContent ts body))).toList

theorem hmacHex_ok {key message : Bytes} (anyKey : κ.macKey key = .ok ()) :
    hmacHex κ key message = .ok (hexEncode (κ.hmacSha256 key message)).toList := by
  simp [hmacHex, anyKey]

theorem verifyStripe_eq (anyKey : ∀ key, κ.macKey key = .ok ()) :
    verifyStripe κ secret header body now tolerance =
      match (valuesOf "t" header).getLast?.bind parseI64 with
      | none => .error (.signing "stripe: missing timestamp")
      | some ts =>
        if outsideTolerance now ts tolerance then
          .error (.signing "stripe: timestamp outside tolerance")
        else if stripeTag κ secret ts body ∈ valuesOf "v1" header then .ok ()
        else .error (.signing "stripe: no matching v1 signature") := by
  unfold verifyStripe
  rw [stripeParts_eq]
  cases (valuesOf "t" header).getLast?.bind parseI64 with
  | none => rfl
  | some ts =>
    simp only
    split
    · rfl
    · rw [hmacHex_ok (anyKey _)]
      have found : ((valuesOf "v1" header).any fun v =>
        ctEq (utf8 v) (utf8 (stripeTag κ secret ts body)))
          = decide (stripeTag κ secret ts body ∈ valuesOf "v1" header) := by
        rw [Bool.eq_iff_iff]
        simp only [List.any_eq_true, ctEq_iff, decide_eq_true_eq]
        constructor
        · rintro ⟨v, mem, same⟩
          exact utf8_inj same ▸ mem
        · exact fun mem => ⟨_, mem, rfl⟩
      change (if ((valuesOf "v1" header).any fun v =>
        ctEq (utf8 v) (utf8 (stripeTag κ secret ts body))) = true then _ else _) = _
      simp only [found, decide_eq_true_eq]
      rfl

theorem stripeContent_inj {ts ts' : Int64} {body body' : Bytes}
    (same : stripeContent ts body = stripeContent ts' body') : ts = ts' ∧ body = body' := by
  obtain ⟨digits, bodies⟩ := cut_inj (dot_notMem_decimal ts) (dot_notMem_decimal ts') same
  exact ⟨decimal_inj (utf8_inj digits), bodies⟩

/- A part without `=`, or with a key other than `t` and `v1`. -/
def Ignored (part : List Char) : Prop :=
  ∀ key value, keyed part = some (key, value) → key ≠ "t".toList ∧ key ≠ "v1".toList

theorem valueAt_ignored {part : List Char} (ignored : Ignored part) :
    valueAt "t".toList part = none ∧ valueAt "v1".toList part = none := by
  constructor
  · refine Option.eq_none_iff_forall_ne_some.mpr fun v found => ?_
    exact (ignored _ _ (valueAt_eq_some.mp found)).1 rfl
  · refine Option.eq_none_iff_forall_ne_some.mpr fun v found => ?_
    exact (ignored _ _ (valueAt_eq_some.mp found)).2 rfl

theorem valuesOf_insert {header' : String} {before after : List (List Char)} {part : List Char}
    (ignored : Ignored part) (longer : parts header' = before ++ part :: after)
    (shorter : parts header = before ++ after) :
    valuesOf "t" header' = valuesOf "t" header ∧ valuesOf "v1" header' = valuesOf "v1" header := by
  obtain ⟨noT, noV1⟩ := valueAt_ignored ignored
  constructor
  · simp only [valuesOf, longer, shorter, List.filterMap_append, List.filterMap_cons, noT]
  · simp only [valuesOf, longer, shorter, List.filterMap_append, List.filterMap_cons, noV1]

theorem verifyStripe_congr (anyKey : ∀ key, κ.macKey key = .ok ()) {header' : String}
    (times : valuesOf "t" header' = valuesOf "t" header)
    (signatures : (valuesOf "v1" header').Perm (valuesOf "v1" header)) :
    verifyStripe κ secret header' body now tolerance =
      verifyStripe κ secret header body now tolerance := by
  rw [verifyStripe_eq anyKey, verifyStripe_eq anyKey, times]
  simp only [signatures.mem_iff]

theorem last_value {key : String} {header : String} {value : List Char} :
    (valuesOf key header).getLast? = some value ↔
      ∃ before part after, parts header = before ++ part :: after ∧
        keyed part = some (key.toList, value) ∧
        ∀ later ∈ after, ∀ v, keyed later ≠ some (key.toList, v) := by
  rw [valuesOf, List.getLast?_filterMap, List.findSome?_eq_some_iff]
  constructor
  · rintro ⟨after, part, before, split, found, none⟩
    refine ⟨before.reverse, part, after.reverse, ?_, valueAt_eq_some.mp found, ?_⟩
    · rw [← List.reverse_reverse (parts header), split]
      simp
    · intro later mem v at_key
      have := none later (List.mem_reverse.mp mem)
      rw [valueAt_eq_some.mpr at_key] at this
      simp at this
  · rintro ⟨before, part, after, split, found, none⟩
    refine ⟨after.reverse, part, before.reverse, ?_, valueAt_eq_some.mpr found, ?_⟩
    · rw [split]
      simp
    · intro later mem
      refine Option.eq_none_iff_forall_ne_some.mpr fun v at_key => ?_
      exact none later (List.mem_reverse.mp mem) v (valueAt_eq_some.mp at_key)

theorem mem_valuesOf {key : String} {header : String} {value : List Char} :
    value ∈ valuesOf key header ↔ ∃ part ∈ parts header, keyed part = some (key.toList, value) := by
  simp only [valuesOf, List.mem_filterMap, valueAt_eq_some]

theorem verifyStripe_ok (anyKey : ∀ key, κ.macKey key = .ok ()) :
    verifyStripe κ secret header body now tolerance = .ok () ↔
      ∃ t ts, (valuesOf "t" header).getLast? = some t ∧ parseI64 t = some ts ∧
        outsideTolerance now ts tolerance = false ∧
        stripeTag κ secret ts body ∈ valuesOf "v1" header := by
  rw [verifyStripe_eq anyKey]
  cases last : (valuesOf "t" header).getLast? with
  | none => simp
  | some t =>
    cases parsed : parseI64 t with
    | none => simp [parsed]
    | some ts =>
      simp only [Option.bind_some, parsed]
      split
      · rename_i outside
        simp [parsed, outside]
      · rename_i inside
        split
        · rename_i found
          simp [parsed, inside, found]
        · rename_i missing
          simp [parsed, inside, missing]

/-- Exactly the headers whose last `t` is a timestamp in tolerance and one of whose `v1` is the
tag over it; nothing else in the header matters, and the signed text gives back its parts. -/
theorem stripe_verdict (κ : Prims) (anyKey : ∀ key, κ.macKey key = .ok ()) :
    (∀ secret header body now tolerance,
      verifyStripe κ secret header body now tolerance = .ok () ↔
        ∃ t ts, (∃ before part after, parts header = before ++ part :: after ∧
            keyed part = some ("t".toList, t) ∧
            ∀ later ∈ after, ∀ v, keyed later ≠ some ("t".toList, v)) ∧
          parseI64 t = some ts ∧ outsideTolerance now ts tolerance = false ∧
          ∃ part ∈ parts header, keyed part = some ("v1".toList,
            (hexEncode (κ.hmacSha256 (utf8 secret.toList)
              (utf8 (decimal ts) ++ dot :: body))).toList)) ∧
    (∀ secret header header' body now tolerance before part after, Ignored part →
      parts header' = before ++ part :: after → parts header = before ++ after →
        verifyStripe κ secret header' body now tolerance =
          verifyStripe κ secret header body now tolerance) ∧
    (∀ secret header header' body now tolerance, valuesOf "t" header' = valuesOf "t" header →
      (valuesOf "v1" header').Perm (valuesOf "v1" header) →
        verifyStripe κ secret header' body now tolerance =
          verifyStripe κ secret header body now tolerance) ∧
    (∀ ts ts' body body', stripeContent ts body = stripeContent ts' body' →
      ts = ts' ∧ body = body') ∧
    ∀ a b : Bytes, ctEq a b = true ↔ a = b := by
  refine ⟨?_, ?_, ?_, ?_, fun a b => ctEq_iff⟩
  · intro secret header body now tolerance
    rw [verifyStripe_ok anyKey]
    simp only [last_value, mem_valuesOf]
    rfl
  · intro secret header header' body now tolerance before part after ignored longer shorter
    obtain ⟨times, signatures⟩ := valuesOf_insert ignored longer shorter
    exact verifyStripe_congr anyKey times (signatures ▸ List.Perm.refl _)
  · intro secret header header' body now tolerance times signatures
    exact verifyStripe_congr anyKey times signatures
  · intro ts ts' body body' same
    exact stripeContent_inj same

/- The answer that the tests of `inbound.rs` pin down. -/
def stripeAnswer : Prims := tabled [(utf8 "whsec_teststripe".toList,
  utf8 "1700000000.\x7b\"id\":\"evt_test\"\x7d".toList,
  [35, 201, 32, 112, 233, 92, 113, 29, 18, 106, 23, 35, 230, 226, 219, 242, 206, 66, 18, 214, 16, 6,
    79, 85, 201, 156, 38, 208, 51, 225, 219, 158])]

def stripeHeader : String :=
  "t=1700000000,v0=deadbeef,v1=23c92070e95c711d126a1723e6e2dbf2ce4212d610064f55c99c26d033e1db9e"

theorem stripe_verdict_known : (∀ key, stripeAnswer.macKey key = .ok ()) ∧
    verifyStripe stripeAnswer "whsec_teststripe" stripeHeader
      (utf8 "\x7b\"id\":\"evt_test\"\x7d".toList) 1700000000 300 = .ok () := by
  have later : ∀ part ∈ (parts stripeHeader).drop 1, (keyed part).map (·.1) ≠ some "t".toList := by
    decide +kernel
  refine ⟨fun key => rfl, ((stripe_verdict stripeAnswer fun key => rfl).1 _ _ _ _ _).mpr ?_⟩
  refine ⟨"1700000000".toList, 1700000000, ⟨[], "t=1700000000".toList,
    (parts stripeHeader).drop 1, by decide +kernel, by decide +kernel, ?_⟩, by decide +kernel⟩
  intro part mem v at_key
  exact later part mem (congrArg (Option.map (·.1)) at_key)

end Inbound

end Dropless
