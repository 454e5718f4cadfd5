import Mathlib.Algebra.Order.Group.Unbundled.Abs
import Mathlib.Algebra.Order.Ring.Int
import Dropless.Tokens

/-! The verifier of the TypeScript SDK, `webhook.ts`, beside the signer of the engine. A
string is its Unicode text; numbers, the case mapping and Web Crypto belong to the
JavaScript runtime and are parameters. -/
namespace Dropless

namespace Sdk

structure Runtime where
  Num : Type
  ofInt : Int → Num
  number : List Char → Num
  text : Num → List Char
  isFinite : Num → Bool
  minus : Num → Num → Num
  abs : Num → Num
  greater : Num → Num → Bool
  toLowerCase : String → String
  importKey : Bytes → Bool
  hmac : Bytes → Bytes → Bytes

inductive Thrown where
  | verification (message : String)
  | dataError
deriving DecidableEq

inductive HeaderValue where
  | one (value : String)
  | many (values : List String)

abbrev WebhookHeaders := List (String × Option HeaderValue)

def HeaderValue.first : HeaderValue → Option String
  | .one value => some value
  | .many values => values.head?

/- `atob`, each character of its result being one byte. -/
def b64decode (s : List Char) : Option Bytes := Base64.forgiving s

def b64encode (bytes : Bytes) : List Char := Base64.encode bytes

def keyBytes (secret : String) : Bytes :=
  if "whsec_".toList.isPrefixOf secret.toList then
    let rest := secret.toList.drop "whsec_".length
    match b64decode rest with
    | some bytes => bytes
    | none => utf8 rest
  else utf8 secret.toList

/- The UTF-16 code units, which `length` and `charCodeAt` count. -/
def codeUnits (s : List Char) : List Nat :=
  s.flatMap fun c =>
    if c.toNat < 0x10000 then [c.toNat]
    else [0xD800 + (c.toNat - 0x10000) / 0x400, 0xDC00 + (c.toNat - 0x10000) % 0x400]

def timingSafeEqual (a b : List Char) : Bool :=
  if (codeUnits a).length ≠ (codeUnits b).length then false
  else ((codeUnits a).zip (codeUnits b)).foldl (fun diff p => diff ||| (p.1 ^^^ p.2)) 0 = 0

variable (R : Runtime)

def headerAt (headers : WebhookHeaders) (name : String) : Option HeaderValue :=
  (headers.find? (·.1 = name)).bind (·.2)

def header (headers : WebhookHeaders) (name : String) : Option String :=
  let direct := (headerAt headers name).or (headerAt headers (R.toLowerCase name))
  match direct.bind HeaderValue.first with
  | some v => some v
  | none =>
    -- the first key that matches ends the scan, with or without a value
    (headers.find? fun h => R.toLowerCase h.1 = R.toLowerCase name).bind fun h =>
      h.2.bind HeaderValue.first

structure VerifyOptions where
  toleranceSeconds : Option R.Num := none
  nowSeconds : Option R.Num := none

/- `new Webhook(secret)` keeps the key. -/
def webhook (secret : String) : Except Thrown Bytes :=
  if secret = "" then .error (.verification "a signing secret is required")
  else .ok (keyBytes secret)

def sign (key : Bytes) (id : List Char) (timestamp : R.Num) (body : List Char) :
    Except Thrown (List Char) :=
  if R.importKey key then
    .ok (b64encode (R.hmac key (utf8 (id ++ '.' :: R.text timestamp ++ '.' :: body))))
  else .error .dataError

/- `\s` of a regular expression. -/
def regexSpace (c : Char) : Bool :=
  (9 ≤ c.toNat ∧ c.toNat ≤ 13) ∨ c.toNat = 0x20 ∨ c.toNat = 0xA0 ∨ c.toNat = 0x1680 ∨
    (0x2000 ≤ c.toNat ∧ c.toNat ≤ 0x200A) ∨ c.toNat = 0x2028 ∨ c.toNat = 0x2029 ∨
    c.toNat = 0x202F ∨ c.toNat = 0x205F ∨ c.toNat = 0x3000 ∨ c.toNat = 0xFEFF

/- `split(/\s+/)`: an empty piece can only be the first or the last. -/
def splitSpaces (s : List Char) : List (List Char) :=
  match s.splitOnP regexSpace with
  | [] => []
  | [only] => [only]
  | first :: rest => first :: (rest.dropLast.filter (· ≠ []) ++ rest.getLast?.toList)

def matchesToken (expected token : List Char) : Bool :=
  match splitOnce ',' token with
  | none => false
  | some (version, sig) => version = "v1".toList ∧ timingSafeEqual sig expected

def checkTimestamp (clock : Int) (opts : VerifyOptions R) (ts : List Char) : Except Thrown Unit :=
  let tolerance := opts.toleranceSeconds.getD (R.ofInt 300)
  if R.greater tolerance (R.ofInt 0) then
    let now := opts.nowSeconds.getD (R.ofInt clock)
    let tsNum := R.number ts
    if !R.isFinite tsNum then .error (.verification "invalid webhook-timestamp")
    else if R.greater (R.abs (R.minus now tsNum)) tolerance then
      .error (.verification "webhook-timestamp outside tolerance")
    else .ok ()
  else .ok ()

/- `clock` is `Math.floor(Date.now() / 1000)`. -/
def verify (clock : Int) (key : Bytes) (body : List Char) (headers : WebhookHeaders)
    (opts : VerifyOptions R) : Except Thrown Unit :=
  let id := (header R headers "webhook-id").getD ""
  let ts := (header R headers "webhook-timestamp").getD ""
  let sigHeader := (header R headers "webhook-signature").getD ""
  if id = "" ∨ ts = "" ∨ sigHeader = "" then
    .error (.verification "missing webhook-id/timestamp/signature header")
  else do
    checkTimestamp R clock opts ts.toList
    let expected ← sign R key id.toList (R.number ts.toList) body
    if (splitSpaces sigHeader.toList).any (matchesToken expected) then return ()
    else throw (.verification "no matching v1 signature")

/- `new Webhook(secret).verify(body, headers, opts)`. -/
def accepts (clock : Int) (secret : String) (body : List Char) (headers : WebhookHeaders)
    (opts : VerifyOptions R) : Except Thrown Unit := do
  let key ← webhook secret
  verify R clock key body headers opts

/- An integer that a double holds exactly, as all of its neighbours. -/
def Safe (n : Int) : Prop := |n| < 2 ^ 53

instance (n : Int) : Decidable (Safe n) := inferInstanceAs (Decidable (|n| < 2 ^ 53))

/- What ECMAScript and Web Crypto say of safe integers and of raw keys. -/
structure Runtime.Documented (R : Runtime) : Prop where
  number : ∀ n : Int64, Safe n.toInt → R.number (decimal n) = R.ofInt n.toInt
  text : ∀ n : Int64, Safe n.toInt → R.text (R.ofInt n.toInt) = decimal n
  isFinite : ∀ n, Safe n → R.isFinite (R.ofInt n) = true
  minus : ∀ a b, Safe a → Safe b → Safe (a - b) → R.minus (R.ofInt a) (R.ofInt b) = R.ofInt (a - b)
  abs : ∀ n, Safe n → R.abs (R.ofInt n) = R.ofInt |n|
  greater : ∀ a b, Safe a → Safe b → (R.greater (R.ofInt a) (R.ofInt b) = true ↔ b < a)
  importKey : ∀ key, key ≠ [] → R.importKey key = true

section Agreement

theorem timingSafeEqual_refl (s : List Char) : timingSafeEqual s s = true := by
  have same : ∀ units : List Nat, (units.zip units).foldl (fun diff p => diff ||| (p.1 ^^^ p.2))
    0 = 0 := by
    intro units
    induction units with
    | nil => rfl
    | cons u units ih => simpa using ih
  simp [timingSafeEqual, same]

theorem regexSpace_clear {c : Char} (low : 43 ≤ c.toNat) (high : c.toNat ≤ 122) :
    regexSpace c = false := by
  simp only [regexSpace, decide_eq_false_iff_not]
  omega

theorem splitSpaces_word {word : List Char} (clear : ∀ c ∈ word, regexSpace c = false) :
    splitSpaces word = [word] := by
  simp only [splitSpaces, List.splitOnP_eq_singleton clear]

variable {κ : Prims} {R : Runtime}

theorem token_matches (secret id : String) (timestamp : Int64) (body : Bytes) :
    (splitSpaces (Signing.token κ secret id timestamp body)).any
      (matchesToken (Signing.signature κ secret id timestamp body)) = true := by
  have clear : ∀ c ∈ Signing.token κ secret id timestamp body, regexSpace c = false := by
    refine List.forall_mem_append.mpr ⟨List.all_iff_forall_prop.mp (by decide), fun c mem => ?_⟩
    obtain ⟨-, low, high, -⟩ := Base64.mem_encode mem
    exact regexSpace_clear low high
  have comma : ',' ∉ "v1".toList := by decide
  have cut : splitOnce ',' (Signing.token κ secret id timestamp body) =
      some ("v1".toList, Signing.signature κ secret id timestamp body) := splitOnce_cut comma _
  simp [splitSpaces_word clear, matchesToken, cut, timingSafeEqual_refl]

theorem checkTimestamp_ok (doc : R.Documented) {clock : Int} {opts : VerifyOptions R} {ts : Int64}
    {now tolerance : Int} (hnow : opts.nowSeconds.getD (R.ofInt clock) = R.ofInt now)
    (htol : opts.toleranceSeconds.getD (R.ofInt 300) = R.ofInt tolerance)
    (safeTs : Safe ts.toInt) (safeNow : Safe now) (safeTol : Safe tolerance)
    (within : |now - ts.toInt| ≤ tolerance) :
    checkTimestamp R clock opts (decimal ts) = .ok () := by
  have safe : Safe (now - ts.toInt) := by
    unfold Safe at safeTol ⊢
    have := le_abs_self tolerance
    omega
  have safeAbs : Safe |now - ts.toInt| := by
    unfold Safe at safe ⊢
    rwa [abs_abs]
  have inside : R.greater (R.ofInt |now - ts.toInt|) (R.ofInt tolerance) = false := by
    rw [Bool.eq_false_iff]
    intro outside
    have := (doc.greater _ _ safeAbs safeTol).mp outside
    omega
  unfold checkTimestamp
  simp only [htol, hnow, doc.number ts safeTs, doc.isFinite _ safeTs,
    doc.minus _ _ safeNow safeTs safe, doc.abs _ safe, inside]
  split <;> rfl

def headersOf (h : Signing.SignatureHeaders) : WebhookHeaders :=
  [("webhook-id", some (.one h.id)), ("webhook-timestamp", some (.one h.timestamp)),
    ("webhook-signature", some (.one h.signature))]

theorem header_headersOf (h : Signing.SignatureHeaders) :
    header R (headersOf h) "webhook-id" = some h.id ∧
      header R (headersOf h) "webhook-timestamp" = some h.timestamp ∧
      header R (headersOf h) "webhook-signature" = some h.signature := by
  simp [header, headerAt, headersOf, HeaderValue.first]

theorem signed_content (id : String) (timestamp : Int64) (body : List Char) :
    utf8 (id.toList ++ '.' :: decimal timestamp ++ '.' :: body) =
      Signing.content id timestamp (utf8 body) := by
  have point : String.utf8EncodeChar '.' = [dot] := by decide
  simp only [utf8_append, utf8_cons, point, Signing.content, List.append_assoc, List.cons_append,
    List.nil_append]

theorem ofList_ne_empty {cs : List Char} (some : cs ≠ []) : String.ofList cs ≠ "" := by
  intro empty
  have := congrArg String.toList empty
  rw [String.toList_ofList] at this
  exact some this

/- With one key on both sides, what the engine signs is accepted. -/
theorem accepts_signed (std : κ.Standard) (doc : R.Documented)
    (mac : ∀ key message, R.hmac key message = κ.hmacSha256 key message) {secret id : String}
    (given : secret ≠ "") (idSome : id ≠ "")
    (same : Signing.keyBytes κ secret = keyBytes secret)
    (imported : R.importKey (keyBytes secret) = true) {timestamp : Int64}
    (safe : Safe timestamp.toInt) {clock : Int} {opts : VerifyOptions R} {body : List Char}
    (checked : checkTimestamp R clock opts (decimal timestamp) = .ok ()) :
    ∃ h, Signing.signatureHeaders κ secret id timestamp (utf8 body) = .ok h ∧
      accepts R clock secret body (headersOf h) opts = .ok () := by
  refine ⟨_, Signing.signatureHeaders_ok std, ?_⟩
  obtain ⟨hid, hts, hsig⟩ := header_headersOf (R := R)
    ⟨id, .ofList (decimal timestamp), .ofList (Signing.token κ secret id timestamp (utf8 body))⟩
  have digits : decimal timestamp ≠ [] := by
    rw [decimal_eq]
    split
    · exact Nat.toDigits_ne_nil
    · exact List.cons_ne_nil _ _
  have present : ¬(id = "" ∨ String.ofList (decimal timestamp) = "" ∨
      String.ofList (Signing.token κ secret id timestamp (utf8 body)) = "") := by
    simp only [idSome, ofList_ne_empty digits, ofList_ne_empty Signing.token_ne_nil, or_self,
      not_false_eq_true]
  have expected : sign R (keyBytes secret) id.toList (R.number (decimal timestamp)) body =
      .ok (Signing.signature κ secret id timestamp (utf8 body)) := by
    simp only [sign, imported, if_true, doc.number _ safe, doc.text _ safe, signed_content, mac,
      b64encode, Signing.signature, Signing.tag, same]
  simp only [accepts, webhook, given, if_false, verify, hid, hts, hsig, Option.getD_some]
  simp only [Except.bind, Bind.bind, present, if_false, String.toList_ofList, checked, expected,
    token_matches, if_true]
  rfl

/- The secrets on which the strict and the forgiving decoder do not part, the empty key
being left to the runtime. -/
def Agreed (R : Runtime) (secret : String) : Prop :=
  ∀ rest, stripPrefix "whsec_".toList secret.toList = some rest →
    ((∃ data, rest = Base64.encode data) ∨ Base64.forgiving rest = none) ∧
      (rest = [] → R.importKey [] = true)

theorem keyBytes_raw {secret : String} (raw : stripPrefix "whsec_".toList secret.toList = none) :
    keyBytes secret = utf8 secret.toList ∧ Signing.keyBytes κ secret = utf8 secret.toList := by
  simp only [Signing.keyBytes, raw, and_true]
  simp only [stripPrefix] at raw
  split at raw
  · simp at raw
  · rename_i other
    simp only [keyBytes, other, Bool.false_eq_true, if_false]

theorem keyBytes_encoded (std : κ.Standard) {secret : String} {rest : List Char}
    (encoded : stripPrefix "whsec_".toList secret.toList = some rest) :
    keyBytes secret = (Base64.forgiving rest).getD (utf8 rest) ∧
      Signing.keyBytes κ secret = (Base64.decode rest).getD (utf8 rest) := by
  simp only [Signing.keyBytes, encoded, std.decode, and_true]
  simp only [stripPrefix] at encoded
  split at encoded
  · rename_i stem
    obtain rfl := Option.some.inj encoded
    simp only [keyBytes, stem, if_true, b64decode]
    change (match Base64.forgiving (secret.toList.drop "whsec_".toList.length) with
      | some bytes => bytes
      | none => _) = _
    cases Base64.forgiving (secret.toList.drop "whsec_".toList.length) <;> rfl
  · simp at encoded

theorem length_le_utf8 (cs : List Char) : cs.length ≤ (utf8 cs).length := by
  induction cs with
  | nil => exact Nat.zero_le _
  | cons c cs ih =>
    have one : 1 ≤ (String.utf8EncodeChar c).length := by
      rw [String.length_utf8EncodeChar]
      exact c.utf8Size_pos
    rw [utf8_cons, List.length_append, List.length_cons]
    omega

/- A decoded text is shorter than its bytes, so only one of the two decoders decoding it
gives two keys. -/
theorem agreed_of_same (std : κ.Standard) {secret : String} {rest : List Char}
    (encoded : stripPrefix "whsec_".toList secret.toList = some rest)
    (same : Signing.keyBytes κ secret = keyBytes secret) :
    (∃ data, rest = Base64.encode data) ∨ Base64.forgiving rest = none := by
  obtain ⟨theirs, ours⟩ := keyBytes_encoded std encoded
  cases strict : Base64.decode rest with
  | some data => exact .inl ⟨data, Base64.decode_eq_some.mp strict⟩
  | none =>
    cases loose : Base64.forgiving rest with
    | none => exact .inr rfl
    | some data =>
      exfalso
      have some : rest ≠ [] := by
        rintro rfl
        have empty : Base64.decode [] = some [] := Base64.decode_eq_some.mpr rfl
        simp [empty] at strict
      rw [ours, theirs, strict, loose] at same
      have short := Base64.forgiving_length loose some
      have long := length_le_utf8 rest
      have sizes := congrArg List.length same
      simp only [Option.getD_none, Option.getD_some] at sizes
      omega

theorem same_of_agreed (std : κ.Standard) (doc : R.Documented) {secret : String}
    (given : secret ≠ "") (agreed : Agreed R secret) :
    Signing.keyBytes κ secret = keyBytes secret ∧ R.importKey (keyBytes secret) = true := by
  have nonempty : ∀ {cs : List Char}, cs ≠ [] → utf8 cs ≠ [] := by
    intro cs some none
    have := length_le_utf8 cs
    rw [none] at this
    exact some (List.eq_nil_of_length_eq_zero (Nat.le_zero.mp this))
  cases encoded : stripPrefix "whsec_".toList secret.toList with
  | none =>
    obtain ⟨theirs, ours⟩ := keyBytes_raw (κ := κ) encoded
    refine ⟨ours.trans theirs.symm, theirs ▸ doc.importKey _ (nonempty fun none => given ?_)⟩
    rw [← String.ofList_toList (s := secret), none]
  | some rest =>
    obtain ⟨theirs, ours⟩ := keyBytes_encoded std encoded
    obtain ⟨⟨data, rfl⟩ | loose, zero⟩ := agreed rest encoded
    · rw [Base64.forgiving_encode] at theirs
      rw [Base64.decode_eq_some.mpr rfl] at ours
      refine ⟨ours.trans theirs.symm, theirs ▸ ?_⟩
      by_cases empty : data = []
      · subst empty
        exact zero rfl
      · exact doc.importKey _ empty
    · have strict : Base64.decode rest = none := by simp [Base64.decode, loose]
      rw [loose] at theirs
      rw [strict] at ours
      refine ⟨ours.trans theirs.symm, theirs ▸ doc.importKey _ (nonempty ?_)⟩
      rintro rfl
      exact absurd loose (by decide)

theorem imported_of_accepts {clock : Int} {secret : String} {body : List Char}
    {headers : WebhookHeaders} {opts : VerifyOptions R} (given : secret ≠ "")
    (ok : accepts R clock secret body headers opts = .ok ()) :
    R.importKey (keyBytes secret) = true := by
  by_contra refused
  simp only [accepts, webhook, given, if_false, Bind.bind, Except.bind, verify, sign, refused] at ok
  split at ok
  · simp at ok
  · split at ok
    · simp at ok
    · simp at ok

/-- The signer and the verifier agree on a secret, exactly when no text is base64 to the one
decoder alone. -/
theorem signer_verifier_agree (κ : Prims) (std : κ.Standard) (R : Runtime) (doc : R.Documented)
    (mac : ∀ key message, R.hmac key message = κ.hmacSha256 key message) (secret : String)
    (given : secret ≠ "") :
    (Signing.keyBytes κ secret = keyBytes secret ∧
      ∀ (id : String) (timestamp : Int64) (body : List Char) (clock : Int) (opts : VerifyOptions R)
        (now tolerance : Int), id ≠ "" → (∀ c ∈ id.toList, isWhitespace c = false) →
        Safe timestamp.toInt → opts.nowSeconds.getD (R.ofInt clock) = R.ofInt now →
        opts.toleranceSeconds.getD (R.ofInt 300) = R.ofInt tolerance → Safe now → Safe tolerance →
        |now - timestamp.toInt| ≤ tolerance →
        ∃ h, Signing.signatureHeaders κ secret id timestamp (utf8 body) = .ok h ∧
          accepts R clock secret body (headersOf h) opts = .ok ()) ↔
      Agreed R secret := by
  constructor
  · rintro ⟨same, accepted⟩ rest encoded
    refine ⟨agreed_of_same std encoded same, ?_⟩
    rintro rfl
    obtain ⟨theirs, -⟩ := keyBytes_encoded std encoded
    have zero : Safe 0 ∧ Safe 300 := by decide
    obtain ⟨h, -, ok⟩ := accepted "a" 0 [] 0 ⟨none, none⟩ 0 300 (by decide)
      (List.all_iff_forall_prop.mp (by decide)) zero.1 rfl rfl zero.1 zero.2 (by decide)
    have imported := imported_of_accepts given ok
    rwa [theirs, show Base64.forgiving [] = some [] from rfl] at imported
  · intro agreed
    obtain ⟨same, imported⟩ := same_of_agreed std doc given agreed
    refine ⟨same, ?_⟩
    intro id timestamp body clock opts now tolerance idSome _ safe hnow htol safeNow safeTol within
    exact accepts_signed std doc mac given idSome same imported safe
      (checkTimestamp_ok doc hnow htol safe safeNow safeTol within)

def integers (mac : Bytes → Bytes → Bytes) : Runtime where
  Num := Int
  ofInt n := n
  number cs := ((parseI64 cs).map Int64.toInt).getD 0
  text n := decimal (.ofInt n)
  isFinite _ := true
  minus a b := a - b
  abs n := |n|
  greater a b := b < a
  toLowerCase s := s.toLower
  importKey key := key ≠ []
  hmac := mac

theorem integers_documented (mac : Bytes → Bytes → Bytes) : (integers mac).Documented where
  number n _ := by simp [integers, parseI64_decimal]
  text n _ := by simp [integers]
  isFinite _ _ := rfl
  minus _ _ _ _ _ := rfl
  abs _ _ := rfl
  greater a b _ _ := by simp [integers]
  importKey key some := by simp [integers, some]

theorem signer_verifier_agree_known : Agreed (integers Signing.knownAnswer.hmacSha256)
      "whsec_dGVzdHNlY3JldA==" ∧
    ∃ h, Signing.signatureHeaders Signing.knownAnswer "whsec_dGVzdHNlY3JldA==" "msg_123" 1700000000
        (utf8 "\x7b\x7d".toList) = .ok h ∧
      accepts (integers Signing.knownAnswer.hmacSha256) 1700000010 "whsec_dGVzdHNlY3JldA=="
        "\x7b\x7d".toList (headersOf h) ⟨none, none⟩ = .ok () := by
  have agreed : Agreed (integers Signing.knownAnswer.hmacSha256) "whsec_dGVzdHNlY3JldA==" := by
    intro rest encoded
    have known : stripPrefix "whsec_".toList "whsec_dGVzdHNlY3JldA==".toList =
        some (Base64.encode (utf8 "testsecret".toList)) := by decide +kernel
    obtain rfl := Option.some.inj (encoded.symm.trans known)
    exact ⟨.inl ⟨_, rfl⟩, fun empty => absurd empty (by decide +kernel)⟩
  refine ⟨agreed, ?_⟩
  exact ((signer_verifier_agree Signing.knownAnswer (tabled_standard _) _ (integers_documented _)
    (fun _ _ => rfl) "whsec_dGVzdHNlY3JldA==" (by decide)).mpr agreed).2 "msg_123" 1700000000 _
    1700000010 ⟨none, none⟩ 1700000010 300 (by decide) (List.all_iff_forall_prop.mp (by decide))
      (by decide) rfl rfl (by decide)
    (by decide) (by decide)

def partedAnswer : Prims := tabled
  [([65, 65, 65], utf8 "msg_123.1700000000.\x7b\x7d".toList,
    [64, 151, 188, 4, 194, 56, 243, 203, 35, 251, 246, 61, 8, 3, 150, 28, 33, 178, 173, 150, 203, 56, 59,
      64, 235, 197, 97, 207, 38, 232, 140, 15]),
   ([0, 0], utf8 "msg_123.1700000000.\x7b\x7d".toList,
    [184, 250, 231, 185, 29, 254, 61, 248, 219, 174, 164, 236, 220, 18, 2, 241, 123, 147, 198, 125, 26,
      104, 39, 89, 92, 198, 125, 165, 243, 169, 122, 10])]

theorem unpadded_secret_parts :
    Signing.keyBytes partedAnswer "whsec_AAA" ≠ keyBytes "whsec_AAA" ∧
    ¬ ∃ h, Signing.signatureHeaders partedAnswer "whsec_AAA" "msg_123" 1700000000
        (utf8 "\x7b\x7d".toList) = .ok h ∧
      accepts (integers partedAnswer.hmacSha256) 1700000000 "whsec_AAA" "\x7b\x7d".toList
        (headersOf h) ⟨none, none⟩ = .ok () := by
  refine ⟨by decide +kernel, ?_⟩
  rintro ⟨h, signed, ok⟩
  have standard : partedAnswer.Standard := tabled_standard _
  rw [Signing.signatureHeaders_ok standard] at signed
  obtain rfl := Except.ok.inj signed
  revert ok
  decide +kernel

end Agreement

end Sdk

end Dropless
