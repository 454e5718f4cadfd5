import Dropless.Text
import Dropless.Base64

namespace Dropless

/- What the engine relies on: the STANDARD engine prints and reads canonical base64, and
HMAC takes a key of any length. -/
structure Prims.Standard (κ : Prims) : Prop where
  encode : ∀ data, κ.base64Encode data = .ofList (Base64.encode data)
  decode : ∀ text, κ.base64Decode text = Base64.decode text
  anyKey : ∀ key, κ.macKey key = .ok ()

/- An HMAC given by a table of answers, with base64 as it is. -/
def tabled (answers : List (Bytes × Bytes × Bytes)) : Prims where
  sha256 data := data
  macKey _ := .ok ()
  hmacSha256 key message :=
    ((answers.find? fun a => a.1 = key ∧ a.2.1 = message).map (·.2.2)).getD []
  base64Encode data := .ofList (Base64.encode data)
  base64Decode := Base64.decode
  fromSlice _ := none
  toVec _ := .error ""
  lossyText _ := ""
  printable c := 32 ≤ c.toNat ∧ c.toNat < 127

theorem tabled_standard (answers : List (Bytes × Bytes × Bytes)) : (tabled answers).Standard :=
  ⟨fun _ => rfl, fun _ => rfl, fun _ => rfl⟩

section Words

theorem splitWhitespace_cons {c : Char} (space : isWhitespace c = true) (before after : List Char) :
    splitWhitespace (before ++ c :: after) = splitWhitespace before ++ splitWhitespace after := by
  simp only [splitWhitespace, List.splitOnP_append_cons _ _ space, List.filter_append]

theorem splitWhitespace_word {word : List Char} (clear : ∀ c ∈ word, isWhitespace c = false)
    (some : word ≠ []) : splitWhitespace word = [word] := by
  simp [splitWhitespace, List.splitOnP_eq_singleton clear, some]

theorem mem_splitWhitespace_join {word : List Char} (clear : ∀ c ∈ word, isWhitespace c = false)
    (some : word ≠ []) {words : List (List Char)} (mem : word ∈ words) :
    word ∈ splitWhitespace ([' '].intercalate words) := by
  induction words with
  | nil => simp at mem
  | cons first rest ih =>
    cases rest with
    | nil =>
      obtain rfl := List.mem_singleton.mp mem
      simp [splitWhitespace_word clear some]
    | cons second rest =>
      have space : isWhitespace ' ' = true := by decide
      have join : [' '].intercalate (first :: second :: rest) =
          first ++ ' ' :: [' '].intercalate (second :: rest) := by simp [List.intercalate]
      rw [join, splitWhitespace_cons space, List.mem_append]
      rcases List.mem_cons.mp mem with rfl | mem
      · exact .inl (by simp [splitWhitespace_word clear some])
      · exact .inr (ih mem)

end Words

namespace Signing

variable {κ : Prims} {secret id : String} {timestamp : Int64} {body : Bytes}

def tag (κ : Prims) (secret id : String) (timestamp : Int64) (body : Bytes) : Bytes :=
  κ.hmacSha256 (keyBytes κ secret) (content id timestamp body)

def signature (κ : Prims) (secret id : String) (timestamp : Int64) (body : Bytes) : List Char :=
  Base64.encode (tag κ secret id timestamp body)

def token (κ : Prims) (secret id : String) (timestamp : Int64) (body : Bytes) : List Char :=
  "v1,".toList ++ signature κ secret id timestamp body

theorem mac_ok (std : κ.Standard) (message : Bytes) :
    mac κ secret message = .ok (κ.hmacSha256 (keyBytes κ secret) message) := by
  simp [mac, std.anyKey]

theorem sign_ok (std : κ.Standard) :
    sign κ secret id timestamp body = .ok (.ofList (signature κ secret id timestamp body)) := by
  simp only [sign, mac_ok std, std.encode, signature, tag]
  rfl

theorem signatureHeaders_ok (std : κ.Standard) :
    signatureHeaders κ secret id timestamp body =
      .ok ⟨id, .ofList (decimal timestamp), .ofList (token κ secret id timestamp body)⟩ := by
  simp only [signatureHeaders, sign_ok std, token, String.ofList_append]
  rfl

theorem token_clear {c : Char} (mem : c ∈ token κ secret id timestamp body) :
    isWhitespace c = false := by
  have spaced : ∀ c : Char, 43 ≤ c.toNat → c.toNat ≤ 122 → isWhitespace c = false := by
    intro c low high
    simp only [isWhitespace, decide_eq_false_iff_not]
    omega
  rcases List.mem_append.mp mem with mem | mem
  · have version : ∀ c ∈ "v1,".toList, isWhitespace c = false :=
      List.all_iff_forall_prop.mp (by decide)
    exact version c mem
  · obtain ⟨-, low, high, -⟩ := Base64.mem_encode mem
    exact spaced c low high

theorem token_ne_nil : token κ secret id timestamp body ≠ [] := by
  simp [token]

theorem splitWhitespace_token (κ : Prims) (secret id : String) (timestamp : Int64) (body : Bytes) :
    splitWhitespace (token κ secret id timestamp body) = [token κ secret id timestamp body] :=
  splitWhitespace_word (fun _ => token_clear) token_ne_nil

theorem token_cut {version sig : List Char} (comma : ',' ∉ version)
    (same : version ++ ',' :: sig = token κ secret id timestamp body) :
    version = "v1".toList ∧ sig = signature κ secret id timestamp body := by
  have noComma : ',' ∉ "v1".toList := by decide
  exact cut_inj comma noComma same

theorem verifyTokens_eq (std : κ.Standard) (tokens : List (List Char)) :
    verifyTokens κ secret (content id timestamp body) (tag κ secret id timestamp body) tokens =
      .ok (decide (token κ secret id timestamp body ∈ tokens)) := by
  induction tokens with
  | nil => rfl
  | cons first rest ih =>
    have other : first ≠ token κ secret id timestamp body →
        verifyTokens κ secret (content id timestamp body) (tag κ secret id timestamp body) rest =
          .ok (decide (token κ secret id timestamp body ∈ first :: rest)) := by
      intro ne
      simp only [ih, List.mem_cons, Ne.symm ne, false_or]
    unfold verifyTokens
    split
    · rename_i none
      refine other ?_
      rintro rfl
      exact splitOnce_eq_none.mp none (by simp [token])
    · rename_i version sig cut
      obtain ⟨comma, rfl⟩ := splitOnce_eq_some.mp cut
      split
      · rename_i version
        exact other fun same => version (token_cut comma same).1
      · rename_i v1
        obtain rfl : version = "v1".toList := by simpa using v1
        cases read : κ.base64Decode sig with
        | none =>
          refine other fun same => ?_
          rw [std.decode, (token_cut comma same).2, signature,
            Base64.decode_eq_some.mpr rfl] at read
          simp at read
        | some provided =>
          rw [std.decode, Base64.decode_eq_some] at read
          subst read
          simp only [mac_ok std]
          change (if provided = tag κ secret id timestamp body ∧
            provided = tag κ secret id timestamp body then _ else _) = _
          split
          · rename_i same
            rw [same.1]
            simp [token, signature]
            rfl
          · rename_i differ
            refine other fun same => differ ?_
            have same := Base64.encode_inj (token_cut comma same).2
            exact ⟨same, same⟩

theorem verify_eq (std : κ.Standard) (header : String) :
    verify κ secret id timestamp body header =
      .ok (decide (token κ secret id timestamp body ∈ splitWhitespace header.toList)) := by
  simp only [verify, sign_ok std, bind, Except.bind]
  rw [String.toList_ofList, std.decode, signature, Base64.decode_eq_some.mpr rfl]
  exact verifyTokens_eq std _

/-- `verify` never fails, and it accepts the text that `sign` prints and no other. -/
theorem token_verdict (κ : Prims) (std : κ.Standard) (secret id : String) (timestamp : Int64)
    (body : Bytes) :
    ∃ sig, sign κ secret id timestamp body = .ok sig ∧
      (∀ header : String, ∃ accepted, verify κ secret id timestamp body header = .ok accepted ∧
        (accepted = true ↔ ("v1," ++ sig).toList ∈ splitWhitespace header.toList)) ∧
      ∃ headers, signatureHeaders κ secret id timestamp body = .ok headers ∧
        headers.signature = "v1," ++ sig ∧
        verify κ secret id timestamp body headers.signature = .ok true ∧
        ∀ tokens : List String, headers.signature ∈ tokens →
          verify κ secret id timestamp body (" ".intercalate tokens) = .ok true := by
  refine ⟨_, sign_ok std, ?_, _, signatureHeaders_ok std, ?_, ?_, ?_⟩
  · intro header
    refine ⟨_, verify_eq std header, ?_⟩
    simp only [String.toList_append, String.toList_ofList, token]
    exact decide_eq_true_iff
  · rw [token, String.ofList_append, String.ofList_toList]
  · rw [verify_eq std]
    simp only [String.toList_ofList, splitWhitespace_token, List.mem_singleton, decide_true]
  · intro tokens mem
    have found : token κ secret id timestamp body ∈ tokens.map String.toList :=
      List.mem_map.mpr ⟨_, mem, String.toList_ofList⟩
    have words := mem_splitWhitespace_join (fun c => token_clear) token_ne_nil found
    rw [verify_eq std, String.toList_intercalate]
    exact congrArg Except.ok (decide_eq_true words)

/- The answer that the tests of `signing.rs` pin down. -/
def knownAnswer : Prims :=
    tabled [(utf8 "testsecret".toList, utf8 "msg_123.1700000000.\x7b\x7d".toList,
  [175, 53, 146, 54, 250, 242, 2, 83, 86, 27, 45, 135, 147, 122, 115, 76, 140, 67, 115, 122, 36, 13,
    103, 218, 168, 30, 29, 67, 209, 86, 78, 161])]

theorem token_verdict_known : knownAnswer.Standard ∧
    verify knownAnswer "whsec_dGVzdHNlY3JldA==" "msg_123" 1700000000 (utf8 "\x7b\x7d".toList)
      (" ".intercalate ["v0,x", "v1,rzWSNvryAlNWGy2Hk3pzTIxDc3okDWfaqB4dQ9FWTqE="]) = .ok true := by
  obtain ⟨sig, signed, -, headers, -, line, -, among⟩ := token_verdict knownAnswer
    (tabled_standard _) "whsec_dGVzdHNlY3JldA==" "msg_123" 1700000000 (utf8 "\x7b\x7d".toList)
  have known : signature knownAnswer "whsec_dGVzdHNlY3JldA==" "msg_123" 1700000000
      (utf8 "\x7b\x7d".toList) = "rzWSNvryAlNWGy2Hk3pzTIxDc3okDWfaqB4dQ9FWTqE=".toList := by
    decide +kernel
  have standard : knownAnswer.Standard := tabled_standard _
  rw [sign_ok standard, known, String.ofList_toList] at signed
  obtain rfl := Except.ok.inj signed
  refine ⟨standard, among _ ?_⟩
  rw [line]
  exact List.mem_cons_of_mem _ List.mem_cons_self

end Signing

end Dropless
