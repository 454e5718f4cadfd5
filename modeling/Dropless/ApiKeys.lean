import Dropless.Admission

namespace Dropless

open Api (bearerToken hashKey)

variable {κ : Prims} {cfg : DispatcherConfig} {W : World} {db : Db}

/-- The tenant that a request is served as. -/
def authenticated (κ : Prims) (headers : Headers) (db : Db) : Option String :=
  (bearerToken headers).bind fun token => Store.tenantForApiKey (hashKey κ token) db

section Serving

def answered : Except CoreError Api.Answer → Api.Answer
  | .ok a => a
  | .error e => Api.apiError e

theorem hashKey_free (κ : Prims) (key : List Char) : nulFree (hashKey κ key) := hexEncode_free _

theorem authenticated_reads {headers : Headers} {tenant : String} (now : Time)
    (skipped : List Uuid) (passes : authenticated κ headers db = some tenant) :
    ∃ token, bearerToken headers = some token ∧
      (Stmt.tenantForApiKey (hashKey κ token)).exec now skipped db = .ok (some tenant, []) := by
  obtain ⟨token, bearer, found⟩ := Option.bind_eq_some_iff.mp passes
  refine ⟨token, bearer, ?_⟩
  rw [exec_admitted (q := .tenantForApiKey _)
    (List.forall_mem_singleton.mpr (hashKey_free κ token))]
  exact congrArg (fun x => Except.ok (x, [])) found

end Serving

section Commands

variable {tenant key : String}

/- The commands one after the other, each with its own ids and times. -/
def keysCreated (κ : Prims) (cfg : DispatcherConfig) (db : Db) : List (World × String × String) → Db
  | [] => db
  | (W, tenant, key) :: rest =>
    keysCreated κ cfg (perform κ cfg W (.start db) (Cli.run κ (.createApiKey tenant key))).2.db rest

theorem tenantForApiKey_append {rows : List ApiKey} {db db' : Db} (hash : String)
    (all : Db.all ApiKey db' = Db.all ApiKey db ++ rows) : Store.tenantForApiKey hash db' =
      (Store.tenantForApiKey hash db).or
        ((rows.filter (·.keyHash = hash)).head?.map (·.tenantId)) := by
  simp only [Store.tenantForApiKey, Store.select, all, List.filter_append, List.head?_append]
  cases (List.filter (fun k => decide (k.keyHash = hash)) (Db.all ApiKey db)).head? <;> rfl

theorem insertApiKey_lookup {id : Uuid} {hash : String} {now : Time} {out ws}
    (run : Store.insertApiKey id tenant hash now db = .ok (out, ws)) (other : String) :
    Store.tenantForApiKey other (db.apply ws) =
      (Store.tenantForApiKey other db).or (if other = hash then some tenant else none) := by
  unfold Store.insertApiKey at run
  split at run
  · rename_i filed
    cases run
    change Store.tenantForApiKey other db = _
    split
    · rename_i same
      obtain ⟨row, rest, rows⟩ := List.exists_cons_of_ne_nil filed
      rw [same, Store.tenantForApiKey, rows]
      rfl
    · rw [Option.or_none]
  · obtain ⟨written, inserted, eq⟩ := bind_ok.mp run
    cases eq
    obtain ⟨rfl, absent, fits⟩ := Store.insert_ok inserted
    refine (tenantForApiKey_append other (Db.all_put_fresh (α := ApiKey) absent fits)).trans ?_
    congr 1
    by_cases same : other = hash
    · simp [same]
    · simp [same, Ne.symm same]

/-- A command that fails files nothing; one that succeeds files its hash, unless it is filed. -/
theorem createApiKey_cases (κ : Prims) (cfg : DispatcherConfig) (W : World) (db : Db)
    (tenant key : String) :
    ((∃ e, (perform κ cfg W (.start db) (Cli.run κ (.createApiKey tenant key))).1 = .error e) ∧
      (perform κ cfg W (.start db) (Cli.run κ (.createApiKey tenant key))).2.db = db) ∨
    ((perform κ cfg W (.start db) (Cli.run κ (.createApiKey tenant key))).1 = .ok none ∧
      ∀ hash, Store.tenantForApiKey hash
        (perform κ cfg W (.start db) (Cli.run κ (.createApiKey tenant key))).2.db =
        (Store.tenantForApiKey hash db).or
          (if hash = hashKey κ key.toList then some tenant else none)) := by
  have start : perform κ cfg W (.start db) (Cli.run κ (.createApiKey tenant key)) =
      perform κ cfg W (.outside 1 db [])
        (query (.insertApiKey (W.answer 0 .newUuid) tenant (hashKey κ key.toList)) >>= fun _ =>
          pure none) := rfl
  rw [start]
  cases ran : (Stmt.insertApiKey (W.answer 0 .newUuid) tenant (hashKey κ key.toList)).exec
    (W.time 1) W.choice db with
  | error e =>
    rw [perform_bind_error (perform_alone_error ran)]
    exact .inl ⟨⟨_, rfl⟩, rfl⟩
  | ok result =>
    obtain ⟨out, ws⟩ := result
    rw [perform_bind_ok (perform_alone ran)]
    exact .inr ⟨rfl, insertApiKey_lookup (Stmt.exec_ok ran)⟩

theorem keysCreated_append (db : Db) (commands more : List (World × String × String)) :
    keysCreated κ cfg db (commands ++ more) = keysCreated κ cfg (keysCreated κ cfg db commands)
      more := by
  induction commands generalizing db with
  | nil => rfl
  | cons command rest ih => exact ih _

theorem keysCreated_keeps {hash : String} (filed : Store.tenantForApiKey hash db = some tenant)
    (commands : List (World × String × String)) :
    Store.tenantForApiKey hash (keysCreated κ cfg db commands) = some tenant := by
  induction commands generalizing db with
  | nil => exact filed
  | cons command rest ih =>
    obtain ⟨W, other, key⟩ := command
    refine ih ?_
    rcases createApiKey_cases κ cfg W db other key with ⟨_, same⟩ | ⟨_, lookup⟩
    · rw [same]
      exact filed
    · rw [lookup, filed]
      rfl

end Commands

section Headers

def bearer (key : String) : Headers := [("authorization", utf8 ("Bearer ".toList ++ key.toList))]

def Printable (key : String) : Prop := ∀ c ∈ key.toList, 32 ≤ c.toNat ∧ c.toNat < 127

theorem utf8_ascii {cs : List Char} (ascii : ∀ c ∈ cs, c.toNat < 128) :
    utf8 cs = cs.map fun c => UInt8.ofNat c.toNat := by
  induction cs with
  | nil => rfl
  | cons c cs ih =>
    obtain ⟨first, rest⟩ := List.forall_mem_cons.mp ascii
    rw [utf8_cons, utf8EncodeChar_ascii first, ih rest]
    rfl

theorem toStr_utf8 {cs : List Char} (printable : ∀ c ∈ cs, 32 ≤ c.toNat ∧ c.toNat < 127) :
    Api.toStr (utf8 cs) = some (.ofList cs) := by
  have byte : ∀ c ∈ cs, (UInt8.ofNat c.toNat).toNat = c.toNat := fun c mem => by
    rw [UInt8.toNat_ofNat']
    exact Nat.mod_eq_of_lt (by have := printable c mem; omega)
  rw [utf8_ascii fun c mem => by have := printable c mem; omega, Api.toStr, if_pos]
  · rw [List.map_map]
    refine congrArg (some ∘ String.ofList) ?_
    refine (List.map_congr_left fun c mem => ?_).trans (List.map_id cs)
    simp [byte c mem]
  · refine List.all_eq_true.mpr fun b mem => ?_
    obtain ⟨c, there, rfl⟩ := List.mem_map.mp mem
    have bounds := printable c there
    refine decide_eq_true (.inl ⟨?_, ?_⟩)
    · rw [UInt8.le_iff_toNat_le, byte c there]
      exact bounds.1
    · rw [UInt8.lt_iff_toNat_lt, byte c there]
      exact bounds.2

theorem bearerToken_bearer {key : String} (printable : Printable key) :
    bearerToken (bearer key) = some (trim key.toList) := by
  have whole : ∀ c ∈ "Bearer ".toList ++ key.toList, 32 ≤ c.toNat ∧ c.toNat < 127 :=
    List.forall_mem_append.mpr ⟨List.all_iff_forall_prop.mp (by decide), printable⟩
  have text : Api.headerStr (bearer key) "authorization" =
    some (.ofList ("Bearer ".toList ++ key.toList)) :=
    toStr_utf8 whole
  have rest : stripPrefix "Bearer ".toList (String.ofList ("Bearer ".toList ++ key.toList)).toList =
      some key.toList := by
    generalize "Bearer ".toList = stem
    rw [String.toList_ofList, stripPrefix,
      if_pos (List.isPrefixOf_iff_prefix.mpr (List.prefix_append _ _)), List.drop_left]
  rw [bearerToken, text]
  exact congrArg (Option.map trim) rest

end Headers

section Keys

/-- Whatever keys were created before: a key that was just created authenticates its tenant from
then on exactly when the tenant has what a trim leaves of it, or nobody has it and a trim leaves
all of it. -/
theorem api_key_authenticates (κ : Prims) (cfg : DispatcherConfig)
    (earlier : List (World × String × String)) (W : World) (tenant key : String)
    (printable : Printable key)
    (injective : κ.sha256 (utf8 (trim key.toList)) = κ.sha256 (utf8 key.toList) →
      trim key.toList = key.toList)
    (created : (perform κ cfg W (.start (keysCreated κ cfg .empty earlier))
      (Cli.run κ (.createApiKey tenant key))).1 = .ok none) :
    (∀ later, authenticated κ (bearer key)
      (keysCreated κ cfg .empty (earlier ++ (W, tenant, key) :: later)) = some tenant) ↔
    Store.tenantForApiKey (hashKey κ (trim key.toList)) (keysCreated κ cfg .empty earlier) =
      some tenant ∨ (trim key.toList = key.toList ∧
        Store.tenantForApiKey (hashKey κ key.toList) (keysCreated κ cfg .empty earlier) =
          none) := by
  have token : ∀ db, authenticated κ (bearer key) db =
      Store.tenantForApiKey (hashKey κ (trim key.toList)) db := fun db => by
    rw [authenticated, bearerToken_bearer printable, Option.bind_some]
  simp only [keysCreated_append, token]
  generalize keysCreated κ cfg .empty earlier = db at created ⊢
  rcases createApiKey_cases κ cfg W db tenant key with ⟨⟨e, failed⟩, _⟩ | ⟨_, lookup⟩
  · cases failed.symm.trans created
  constructor
  · intro always
    have now := (lookup _).symm.trans (always [])
    cases before : Store.tenantForApiKey (hashKey κ (trim key.toList)) db with
    | some owner =>
      rw [before] at now
      exact .inl now
    | none =>
      simp only [before, Option.none_or, Option.ite_none_right_eq_some] at now
      have whole := injective (hexEncode_inj now.1)
      rw [whole] at before
      exact .inr ⟨whole, before⟩
  · rintro (own | ⟨whole, free⟩) later
    · refine keysCreated_keeps ?_ later
      rw [lookup, own]
      rfl
    · refine keysCreated_keeps ?_ later
      rw [whole, lookup, free, Option.none_or, if_pos rfl]

def keyAnswer : Prims :=
  { plain with
    sha256 := fun _ => [130, 84, 195, 41, 169, 40, 80, 246, 213, 57, 221, 55, 111, 72, 22, 238, 39,
      100, 81, 125, 165, 224, 35, 85, 20, 175, 67, 49, 100, 72, 13, 122] }

theorem api_key_authenticates_first : authenticated keyAnswer (bearer "k")
    (keysCreated keyAnswer Dispatcher.default .empty [(steady 0, "t", "k"), (steady 0, "u", "k")]) =
      some "t" :=
  (api_key_authenticates keyAnswer Dispatcher.default [] (steady 0) "t" "k"
    (List.all_iff_forall_prop.mp (by decide)) (fun _ => by decide) (by decide +kernel)).mpr
      (.inr ⟨by decide, by decide +kernel⟩) [(steady 0, "u", "k")]

/- The second tenant is told that the key was created, and its requests are the first one's. -/
theorem shared_key_other_tenant : ¬ ∀ (earlier later : List (World × String × String)) (W : World)
    (tenant key : String), Printable key →
    (∀ c ∈ earlier ++ (W, tenant, key) :: later, ∀ d ∈ earlier ++ (W, tenant, key) :: later,
      keyAnswer.sha256 (utf8 c.2.2.toList) = keyAnswer.sha256 (utf8 d.2.2.toList) → c.2.2 = d.2.2) →
    (perform keyAnswer Dispatcher.default W
      (.start (keysCreated keyAnswer Dispatcher.default .empty earlier))
      (Cli.run keyAnswer (.createApiKey tenant key))).1 = .ok none →
    authenticated keyAnswer (bearer key) (keysCreated keyAnswer Dispatcher.default .empty
      (earlier ++ (W, tenant, key) :: later)) = some tenant := by
  intro claim
  have second := claim [(steady 0, "a", "k")] [] (steady 0) "b" "k"
    (List.all_iff_forall_prop.mp (by decide)) (by simp) (by decide +kernel)
  have first : authenticated keyAnswer (bearer "k") (keysCreated keyAnswer Dispatcher.default .empty
      ([(steady 0, "a", "k")] ++ [(steady 0, "b", "k")])) = some "a" := by decide +kernel
  exact absurd (first.symm.trans second) (by decide)

end Keys

end Dropless
