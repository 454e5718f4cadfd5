import Dropless.Inbox
import Dropless.Admission

/-! Replays of signed bytes. The dedup key of a request is to be a function of what its
signature covers. For Stripe and GitHub it is; the generic scheme signs three texts with
dots between them, and its key is the first one, which may hold dots itself. -/
namespace Dropless

open Api (examine webhookId webhookTimestamp headerStr hmacKey stripeKey sha256Hex)

variable {κ : Prims} {cfg : DispatcherConfig} {cond : State → State → Prop} {db : Db}
  {s : State} {pid : Pid} {job : Job}

/-- The bytes that the signature of a request covers, if it has a timestamp where it needs one. -/
def signedBytes (provider : Provider) (headers : Headers) (raw : Bytes) : Option Bytes :=
  match provider with
  | .stripe =>
    (Inbound.stripeParts ((headerStr headers "stripe-signature").getD "").toList).1.map fun ts =>
      Inbound.stripeContent ts raw
  | .github => some raw
  | .hmac => some (Signing.content (webhookId headers) (webhookTimestamp headers) raw)

section Keys

variable {source : InboundSource} {headers headers' : Headers} {raw raw' : Bytes}

theorem verifyStripe_timestamp {secret header : String} {body : Bytes} {now tolerance : Int64}
    (ok : Inbound.verifyStripe κ secret header body now tolerance = .ok ()) :
    ∃ ts, (Inbound.stripeParts header.toList).1 = some ts := by
  unfold Inbound.verifyStripe at ok
  split at ok
  · cases ok
  · rename_i ts v1s parts
    exact ⟨ts, by rw [parts]⟩

theorem content_inj {id : String} {ts ts' : Int64} {body body' : Bytes}
    (same : Signing.content id ts body = Signing.content id ts' body') :
    ts = ts' ∧ body = body' := by
  simp only [Signing.content, List.append_assoc, List.cons_append] at same
  have rest := List.cons.inj (List.append_cancel_left same)
  exact Inbound.stripeContent_inj rest.2

/-- The key is a function of the signed bytes, and of the id header of the generic scheme. -/
theorem examine_key {provider : Provider} {now now' : Int64} {key key' type type' : String}
    (examined : examine κ source provider headers raw now = (.ok (), key, type))
    (examined' : examine κ source provider headers' raw' now' = (.ok (), key', type'))
    (same : signedBytes provider headers raw = signedBytes provider headers' raw')
    (ids : provider = .hmac → webhookId headers = webhookId headers') : key = key' := by
  cases provider with
  | stripe =>
    simp only [examine, Prod.mk.injEq] at examined examined'
    obtain ⟨ok, rfl, _⟩ := examined
    obtain ⟨ok', rfl, _⟩ := examined'
    obtain ⟨ts, parts⟩ := verifyStripe_timestamp ok
    obtain ⟨ts', parts'⟩ := verifyStripe_timestamp ok'
    simp only [signedBytes, parts, parts', Option.map_some, Option.some.injEq] at same
    rw [(Inbound.stripeContent_inj same).2]
  | github =>
    simp only [examine, Prod.mk.injEq] at examined examined'
    rw [← examined.2.1, ← examined'.2.1, Option.some.inj same]
  | hmac =>
    simp only [examine, Prod.mk.injEq] at examined examined'
    have id := ids rfl
    simp only [signedBytes, id, Option.some.injEq] at same
    rw [← examined.2.1, ← examined'.2.1, hmacKey, hmacKey, id, (content_inj same).2]

end Keys

section Sources

variable {slug : String} {source : InboundSource}

theorem source_told (reach : Run κ cfg cond db s)
    (called : .called pid job (.stmt (.getInboundSourceBySlug slug))
      (.ok (some source) : Except DbError (Option InboundSource)) ∈ s.log) :
    source ∈ Db.all InboundSource s.db ∧ source.slug = slug := by
  obtain ⟨a, p, before, later, _, rfl, allowed, now, c, ws, exec⟩ :=
    Txn.called_origin (protocol κ cfg) reach called
  cases inside : p.tx with
  | some tx =>
    simp only [protocol, allows, Txn.Proc.past, inside, Option.map_some, Inside] at allowed
  | none =>
    rw [Txn.writes_none inside] at exec
    have read : Store.getInboundSourceBySlug slug a.db = some source :=
      congrArg Prod.fst (Except.ok.inj (Stmt.exec_ok exec))
    obtain ⟨mem, same⟩ := slug_found read
    obtain ⟨source', found, frozen⟩ := reach_find before later (Db.mem_all.mp mem)
    obtain rfl : source' = source := Row.source.inj frozen
    exact ⟨Db.mem_all_of_find? found, same⟩

theorem source_unique {source' : InboundSource} (here : source ∈ Db.all InboundSource db)
    (there : source' ∈ Db.all InboundSource db) (same : source.slug = source'.slug) :
    source = source' := by
  refine Db.eq_of_index (i := .slug source.slug) here there ?_ ?_
  · exact List.mem_singleton_self _
  · rw [same]
    exact List.mem_singleton_self _

/- What an ingest request that is answered with its outcome had established. -/
theorem ingest_examined {headers : Headers} {raw raw' : Bytes} {calls : Calls} {key : Option String}
    {type : String} {payload : Value} {provider : Provider} {source' : InboundSource}
    (reach : Run κ cfg cond db s) (stored : source ∈ Db.all InboundSource s.db)
    (parsed : Inbound.parseProvider κ source.provider = .ok provider)
    (logged : ∀ call ∈ calls, .called pid (.ingest source.slug headers raw) call.1 call.2 ∈ s.log)
    (may : Bridging κ calls (.ingest source.slug headers raw) source' key type raw' payload) :
    source' = source ∧ ∃ now k, key = some k ∧
      examine κ source provider headers raw now = (.ok (), k, type) := by
  cases may with
  | verified found parsed' examined =>
    obtain ⟨mem, slug⟩ := source_told reach (logged _ found)
    obtain rfl := source_unique mem stored slug
    cases parsed'.symm.trans parsed
    exact ⟨rfl, _, _, rfl, examined⟩

end Sources

/-- Of two requests to one source whose keys are the same, at most one is reported as bridged, and
another that is accepted is a duplicate. -/
theorem same_key_once {source : InboundSource} {provider : Provider} {pid' : Pid}
    {headers headers' : Headers} {raw raw' : Bytes} {res res' : Result}
    {newer between older : List Entry} (reach : Run κ cfg Txn.anyStep .empty s)
    (stored : source ∈ Db.all InboundSource s.db)
    (parsed : Inbound.parseProvider κ source.provider = .ok provider)
    (log : s.log = newer ++ .finished pid (.ingest source.slug headers raw) res ::
      (between ++ .finished pid' (.ingest source.slug headers' raw') res' :: older))
    (same : ∀ now now' key key' type type',
      examine κ source provider headers raw now = (.ok (), key, type) →
      examine κ source provider headers' raw' now' = (.ok (), key', type') → key = key') :
    (res.acknowledged = none ∨ res'.acknowledged = none) ∧
      ((res.acknowledged.isSome ∨ res.isDuplicate) → (res'.acknowledged.isSome ∨ res'.isDuplicate) →
        res.isDuplicate ∨ res'.isDuplicate) := by
  have once : res.acknowledged = none ∨ res'.acknowledged = none := by
    by_contra both
    simp only [not_or] at both
    obtain ⟨event, told⟩ := Option.ne_none_iff_exists'.mp both.1
    obtain ⟨event', told'⟩ := Option.ne_none_iff_exists'.mp both.2
    obtain ⟨calls, src, key, type, _, _, calls', src', key', type', _, _, logged, logged', may,
      may', apart⟩ :=
      acknowledged_apart reach log rfl told told'
    obtain ⟨rfl, now, k, rfl, examined⟩ := ingest_examined reach stored parsed logged may
    obtain ⟨rfl, now', k', rfl, examined'⟩ := ingest_examined reach stored parsed logged' may'
    exact apart k rfl rfl (congrArg some (same _ _ _ _ _ _ examined examined').symm)
  refine ⟨once, ?_⟩
  rintro (told | dup) (told' | dup')
  · rcases once with none | none
    · simp [none] at told
    · simp [none] at told'
  · exact .inr dup'
  · exact .inl dup
  · exact .inl dup

/-- Of two requests to one source with the same signed bytes, in any run, at most one is reported
as bridged, and another that is accepted is a duplicate, when they carry the same id header in
the generic scheme. -/
theorem replay_bridged_once (κ : Prims) (cfg : DispatcherConfig) (s : State)
    (reach : Run κ cfg Txn.anyStep .empty s) (source : InboundSource) (provider : Provider)
    (stored : source ∈ Db.all InboundSource s.db)
    (parsed : Inbound.parseProvider κ source.provider = .ok provider) (pid pid' : Pid)
    (headers headers' : Headers) (raw raw' : Bytes) (res res' : Result)
    (newer between older : List Entry)
    (log : s.log = newer ++ .finished pid (.ingest source.slug headers raw) res ::
      (between ++ .finished pid' (.ingest source.slug headers' raw') res' :: older))
    (signed : signedBytes provider headers raw = signedBytes provider headers' raw')
    (ids : provider = .hmac → webhookId headers = webhookId headers') :
    (res.acknowledged = none ∨ res'.acknowledged = none) ∧
      ((res.acknowledged.isSome ∨ res.isDuplicate) → (res'.acknowledged.isSome ∨ res'.isDuplicate) →
        res.isDuplicate ∨ res'.isDuplicate) := by
  refine same_key_once reach stored parsed log ?_
  intro now now' key key' type type' examined examined'
  exact examine_key examined examined' signed ids

/- `a.1700000000.1700000000.x`, signed once. -/
def splitAnswer : Prims :=
  { tabled [(utf8 "testsecret".toList, utf8 "a.1700000000.1700000000.x".toList,
      [146, 73, 220, 195, 62, 246, 11, 204, 224, 17, 28, 206, 63, 65, 88, 17, 46, 45, 120, 7, 151, 66, 243,
        141, 78, 220, 95, 191, 220, 172, 26, 5])] with
    lossyText := fun raw => .ofList (raw.map fun b => .ofNat b.toNat) }

def splitHeaders (id : String) : Headers :=
  hookHeaders id "v1,kkncwz72C8zgERzOP0FYES4teAeXQvONTtxfv9ysGgU="

def resent (id : String) (raw : Bytes) (steps : Nat) : List Move :=
  hooked ++
  .spawn (.client 0) (.ingest "hooks" (splitHeaders "a") (utf8 "1700000000.x".toList)) ::
    go 11 (.client 0) 1700000000000000 1 (.error "") ++
  .spawn (.client 1) (.ingest "hooks" (splitHeaders id) raw) ::
    go steps (.client 1) 1700000000000000 2 (.error "")

structure AnsweredIngest where
  pid : Pid
  slug : String
  headers : Headers
  raw : Bytes
  event : Option Uuid
  isDuplicate : Bool
deriving DecidableEq

def answeredIngest : Entry → Option AnsweredIngest
  | .finished pid (.ingest slug headers raw) res =>
      some ⟨pid, slug, headers, raw, res.acknowledged, res.isDuplicate⟩
  | _ => none

theorem answeredIngest_eq {e : Entry} {slug : String} {headers : Headers} {raw : Bytes}
    {event : Option Uuid} {dup : Bool}
    (h : answeredIngest e = some ⟨pid, slug, headers, raw, event, dup⟩) :
    ∃ res : Result, e = .finished pid (.ingest slug headers raw) res ∧ res.acknowledged = event ∧
      res.isDuplicate = dup := by
  unfold answeredIngest at h
  split at h
  · cases h
    exact ⟨_, rfl, rfl, rfl⟩
  · cases h

theorem resent_run (id : String) (raw : Bytes) (steps : Nat) (event : Option Uuid) (dup : Bool)
    (played : ((replay splitAnswer Dispatcher.default (.start .empty) (resent id raw steps)).map
      fun s => (Db.all InboundSource s.db, s.log.filterMap answeredIngest)) =
        some ([hookSource], [⟨.client 1, "hooks", splitHeaders id, raw, event, dup⟩,
          ⟨.client 0, "hooks", splitHeaders "a", utf8 "1700000000.x".toList, some 1, false⟩])) :
    ∃ s newer between older, ∃ res res' :
      Result, Run splitAnswer Dispatcher.default Txn.anyStep .empty s ∧
      hookSource ∈ Db.all InboundSource s.db ∧
      s.log = newer ++ .finished (.client 1) (.ingest "hooks" (splitHeaders id) raw) res ::
        (between ++ .finished (.client 0)
          (.ingest "hooks" (splitHeaders "a") (utf8 "1700000000.x".toList)) res' :: older) ∧
      res.acknowledged = event ∧ res.isDuplicate = dup ∧ res'.acknowledged = some 1 := by
  obtain ⟨s, replayed, eq⟩ := Option.map_eq_some_iff.mp played
  obtain ⟨sources, log⟩ := Prod.mk.inj eq
  obtain ⟨newer, e, rest, split, _, first, log⟩ := List.filterMap_eq_cons_iff.mp log
  obtain ⟨between, e', older, split', _, second, _⟩ := List.filterMap_eq_cons_iff.mp log
  obtain ⟨res, rfl, told, dup⟩ := answeredIngest_eq first
  obtain ⟨res', rfl, told', _⟩ := answeredIngest_eq second
  exact ⟨s, newer, between, older, res, res', replay_reach replayed,
    sources ▸ List.mem_singleton_self _, split' ▸ split, told, dup, told'⟩

theorem replay_bridged_once_resent :
    ∃ (s : State) (newer between older : List Entry) (res res' : Result),
    Run splitAnswer Dispatcher.default Txn.anyStep .empty s ∧
    hookSource ∈ Db.all InboundSource s.db ∧
    s.log = newer ++ .finished (.client 1)
      (.ingest "hooks" (splitHeaders "a") (utf8 "1700000000.x".toList)) res :: (between ++
        .finished (.client 0) (.ingest "hooks" (splitHeaders "a") (utf8 "1700000000.x".toList))
          res' :: older) ∧
    res'.acknowledged = some 1 ∧ res.isDuplicate = true ∧ res.acknowledged = none := by
  obtain ⟨s, newer, between, older, res, res', reach, stored, log, _, dup, told'⟩ :=
    resent_run "a" (utf8 "1700000000.x".toList) 7 none true
      (by decide +kernel)
  have once := (replay_bridged_once splitAnswer Dispatcher.default s reach hookSource .hmac stored
    rfl _ _ _ _ _ _ _ _ _ _ _ log rfl fun _ => rfl).1
  refine ⟨s, newer, between, older, res, res', reach, stored, log, told', dup, ?_⟩
  exact once.resolve_right (by simp [told'])

/- The same signed bytes under another id: both requests are reported as bridged. -/
theorem split_bytes_bridged_twice :
    (∃ (s : State) (newer between older : List Entry) (res res' : Result),
      Run splitAnswer Dispatcher.default Txn.anyStep .empty s ∧
      hookSource ∈ Db.all InboundSource s.db ∧
      s.log = newer ++ .finished (.client 1)
        (.ingest "hooks" (splitHeaders "a.1700000000") (utf8 "x".toList)) res :: (between ++
          .finished (.client 0) (.ingest "hooks" (splitHeaders "a") (utf8 "1700000000.x".toList))
            res' ::
            older) ∧
      res.acknowledged = some 2 ∧ res'.acknowledged = some 1) ∧
    signedBytes .hmac (splitHeaders "a.1700000000") (utf8 "x".toList) =
      signedBytes .hmac (splitHeaders "a") (utf8 "1700000000.x".toList) := by
  obtain ⟨s, newer, between, older, res, res', reach, stored, log, told, _, told'⟩ :=
    resent_run "a.1700000000" (utf8 "x".toList) 11 (some 2) false
      (by decide +kernel)
  exact ⟨⟨s, newer, between, older, res, res', reach, stored, log, told, told'⟩, by decide +kernel⟩

end Dropless
