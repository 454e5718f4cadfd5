import Dropless.Model

/-! Signatures of both directions: `signing.rs` and `inbound.rs`. The hash, the MAC,
base64 and JSON come from other crates and are parameters; the parsing of headers
and the comparisons are those of the source. -/
namespace Dropless

/-- What the engine takes from other crates, and from the Unicode tables of the standard library
the characters that `{:?}` shows as they are. `macKey` is `new_from_slice`. -/
structure Prims where
  sha256 : Bytes → Bytes
  macKey : Bytes → Except String Unit
  hmacSha256 : Bytes → Bytes → Bytes
  base64Encode : Bytes → String
  base64Decode : List Char → Option Bytes
  fromSlice : Bytes → Option Value
  toVec : Value → Except String Bytes
  lossyText : Bytes → String
  printable : Char → Bool

def utf8 (s : List Char) : Bytes := s.flatMap String.utf8EncodeChar

def decimal (n : Int64) : List Char := (toString n.toInt).toList

def dot : UInt8 := 46

def hexEncode (bytes : Bytes) : String :=
  .ofList (bytes.flatMap fun b => [hexDigit (b.toNat / 16), hexDigit (b.toNat % 16)])

def isWhitespace (c : Char) : Bool :=
  (9 ≤ c.toNat ∧ c.toNat ≤ 13) ∨ c.toNat = 0x20 ∨ c.toNat = 0x85 ∨ c.toNat = 0xA0 ∨
    c.toNat = 0x1680 ∨ (0x2000 ≤ c.toNat ∧ c.toNat ≤ 0x200A) ∨ c.toNat = 0x2028 ∨
    c.toNat = 0x2029 ∨ c.toNat = 0x202F ∨ c.toNat = 0x205F ∨ c.toNat = 0x3000

def trim (cs : List Char) : List Char :=
  ((cs.dropWhile isWhitespace).reverse.dropWhile isWhitespace).reverse

def splitWhitespace (cs : List Char) : List (List Char) :=
  (cs.splitOnP isWhitespace).filter (· ≠ [])

def splitOnce (c : Char) : List Char → Option (List Char × List Char)
  | [] => none
  | x :: xs => if x = c then some ([], xs) else (splitOnce c xs).map fun p => (x :: p.1, p.2)

def stripPrefix (stem cs : List Char) : Option (List Char) :=
  if stem.isPrefixOf cs then some (cs.drop stem.length) else none

def parseDigits : List Char → Option Nat
  | [] => none
  | cs => cs.foldlM (fun n c => if '0' ≤ c ∧
      c ≤ '9' then some (n * 10 + (c.toNat - 48)) else none) 0

/- `str::parse::<i64>`: an optional sign, then digits, in range. -/
def parseI64 (cs : List Char) : Option Int64 :=
  let (negative, digits) := match cs with
    | '-' :: rest => (true, rest)
    | '+' :: rest => (false, rest)
    | _ => (false, cs)
  (parseDigits digits).bind fun n =>
    let v : Int := if negative then -n else n
    if -2 ^ 63 ≤ v ∧ v < 2 ^ 63 then some (.ofInt v) else none

namespace Signing

variable (κ : Prims)

def keyBytes (secret : String) : Bytes :=
  match stripPrefix "whsec_".toList secret.toList with
  | some rest => (κ.base64Decode rest).getD (utf8 rest)
  | none => utf8 secret.toList

/- `"{id}.{timestamp}.{body}"`. -/
def content (id : String) (timestamp : Int64) (body : Bytes) : Bytes :=
  utf8 id.toList ++ dot :: utf8 (decimal timestamp) ++ dot :: body

def mac (secret : String) (message : Bytes) : Except CoreError Bytes :=
  match κ.macKey (keyBytes κ secret) with
  | .ok _ => .ok (κ.hmacSha256 (keyBytes κ secret) message)
  | .error e => .error (.signing e)

def sign (secret id : String) (timestamp : Int64) (body : Bytes) : Except CoreError String := do
  let tag ← mac κ secret (content id timestamp body)
  return κ.base64Encode tag

structure SignatureHeaders where
  id : String
  timestamp : String
  signature : String

def signatureHeaders (secret id : String) (timestamp : Int64) (body : Bytes) :
    Except CoreError SignatureHeaders := do
  let sig ← sign κ secret id timestamp body
  return { id, timestamp := .ofList (decimal timestamp), signature := "v1," ++ sig }

/- The loop over the tokens; the first that decodes to the expected tag ends it. -/
def verifyTokens (secret : String) (message expected : Bytes) :
    List (List Char) → Except CoreError Bool
  | [] => .ok false
  | token :: rest =>
    match splitOnce ',' token with
    | none => verifyTokens secret message expected rest
    | some (version, sig) =>
      if version ≠ "v1".toList then verifyTokens secret message expected rest
      else match κ.base64Decode sig with
        | none => verifyTokens secret message expected rest
        | some provided => do
          let tag ← mac κ secret message
          if provided = expected ∧ provided = tag then return true
          else verifyTokens secret message expected rest

def verify (secret id : String) (timestamp : Int64) (body : Bytes) (header : String) :
    Except CoreError Bool := do
  let expected ← sign κ secret id timestamp body
  match κ.base64Decode expected.toList with
  | none => throw (.signing "invalid base64")
  | some bytes =>
    verifyTokens κ secret (content id timestamp body) bytes (splitWhitespace header.toList)

end Signing

inductive Provider where
  | stripe
  | github
  | hmac
deriving DecidableEq

namespace Inbound

variable (κ : Prims)

/- `{:?}` of a character in a text. -/
def debugChar (c : Char) : List Char :=
  if c = '\x00' then ['\\', '0']
  else if c = '\t' then ['\\', 't']
  else if c = '\r' then ['\\', 'r']
  else if c = '\n' then ['\\', 'n']
  else if c = '\\' ∨ c = '\x22' then ['\\', c]
  else if κ.printable c then [c]
  else ['\\', 'u', '\x7b'] ++ Nat.toDigits 16 c.toNat ++ ['\x7d']

def debugStr (s : String) : String := .ofList ('\x22' :: s.toList.flatMap (debugChar κ) ++ ['\x22'])

def parseProvider (s : String) : Except CoreError Provider :=
  if s = "stripe" then .ok .stripe
  else if s = "github" then .ok .github
  else if s = "hmac" then .ok .hmac
  else .error (.invalid ("unknown provider " ++ debugStr κ s))

/- The key is the secret as it is; `expect` on the key is an error here. -/
def hmacHex (key message : Bytes) : Except CoreError (List Char) :=
  match κ.macKey key with
  | .ok _ => .ok (hexEncode (κ.hmacSha256 key message)).toList
  | .error e => .error (.signing e)

def ctEq (a b : Bytes) : Bool :=
  if a.length ≠ b.length then false
  else (a.zip b).foldl (fun diff p => diff ||| (p.1 ^^^ p.2)) 0 = 0

/- `t` keeps its last value, a failed parse included; `v1` collects. -/
def stripeParts (header : List Char) : Option Int64 × List (List Char) :=
  (header.splitOn ',').foldl (fun (ts, v1s) part =>
    match splitOnce '=' part with
    | none => (ts, v1s)
    | some (k, v) =>
      if trim k = "t".toList then (parseI64 (trim v), v1s)
      else if trim k = "v1".toList then (ts, v1s ++ [trim v])
      else (ts, v1s)) (none, [])

def outsideTolerance (now timestamp tolerance : Int64) : Bool :=
  0 < tolerance ∧ tolerance < (now - timestamp).abs

/- `"{t}.{body}"`. -/
def stripeContent (ts : Int64) (body : Bytes) : Bytes := utf8 (decimal ts) ++ dot :: body

def verifyStripe (secret header : String) (body : Bytes) (now tolerance : Int64) :
    Except CoreError Unit :=
  match stripeParts header.toList with
  | (none, _) => .error (.signing "stripe: missing timestamp")
  | (some ts, v1s) =>
    if outsideTolerance now ts tolerance then
      .error (.signing "stripe: timestamp outside tolerance")
    else do
      let expected ← hmacHex κ (utf8 secret.toList) (stripeContent ts body)
      if v1s.any fun v => ctEq (utf8 v) (utf8 expected) then return ()
      else throw (.signing "stripe: no matching v1 signature")

def verifyGithub (secret header : String) (body : Bytes) : Except CoreError Unit := do
  let provided := (stripPrefix "sha256=".toList header.toList).getD header.toList
  let expected ← hmacHex κ (utf8 secret.toList) body
  if ctEq (utf8 provided) (utf8 expected) then return ()
  else throw (.signing "github: signature mismatch")

def verifyHmac (secret id : String) (timestamp : Int64) (body : Bytes) (header : String)
    (now tolerance : Int64) : Except CoreError Unit :=
  if outsideTolerance now timestamp tolerance then
    .error (.signing "hmac: timestamp outside tolerance")
  else do
    if ← Signing.verify κ secret id timestamp body header then return ()
    else throw (.signing "hmac: signature mismatch")

end Inbound

end Dropless
