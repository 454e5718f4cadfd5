import Dropless.Performed
import Dropless.Snapshots
import Dropless.Scenario
import Dropless.Stripe

namespace Dropless

open Api (ingest receive examine unauthorized answer payloadOf headerStr)

/-- Every stored provider is one that the creation paths admit. -/
def KnownProviders (κ : Prims) (db : Db) : Prop :=
  ∀ source ∈ Db.all InboundSource db, ∃ provider,
    Inbound.parseProvider κ source.provider = .ok provider

/-- An enabled source with this slug takes the request for genuine. -/
def Authentic (κ : Prims) (slug : String) (headers : Headers) (raw : Bytes) (now : Time) (db : Db) :
    Prop :=
  ∃ source ∈ Db.all InboundSource db, source.slug = slug ∧ source.disabled = false ∧
    ∃ provider, Inbound.parseProvider κ source.provider = .ok provider ∧
      (examine κ source provider headers raw (.ofInt (now / 1000000))).1 = .ok ()

section Refusal

variable {κ : Prims} {cfg : DispatcherConfig} {W : World} {slug : String} {headers : Headers}
  {raw : Bytes} {now : Time} {db : Db} {n : Nat} {us : List (List Ran)}

theorem slug_found {source : InboundSource}
    (found : Store.getInboundSourceBySlug slug db = some source) :
    source ∈ Db.all InboundSource db ∧ source.slug = slug := by
  obtain ⟨mem, same⟩ := List.mem_filter.mp (List.mem_of_head? found)
  exact ⟨mem, of_decide_eq_true same⟩

theorem perform_slug (free : nulFree slug) :
    perform κ cfg W (.outside n db us) (query (.getInboundSourceBySlug slug)) =
      (.ok (Store.getInboundSourceBySlug slug db), .outside (n + 1) db
        ([⟨.getInboundSourceBySlug slug, Store.getInboundSourceBySlug slug db⟩] :: us)) := by
  have ran : (Stmt.getInboundSourceBySlug slug).exec (W.time n) W.choice db =
      .ok (Store.getInboundSourceBySlug slug db, []) :=
    exec_admitted fun s mem => List.mem_singleton.mp mem ▸ free
  exact perform_alone ran

theorem perform_refused (cfg : DispatcherConfig) (free : nulFree slug)
    (clock : ∀ n, W.answer n .utcNow = now) (known : KnownProviders κ db)
    (forged : ¬ Authentic κ slug headers raw now db) :
    (perform κ cfg W (.start db) (ingest κ slug headers raw)).1 = .ok unauthorized ∧
      (perform κ cfg W (.start db) (ingest κ slug headers raw)).2.db = db := by
  rw [ingest, perform_outcome, Txn.Scene.start, perform_slug free]
  cases found : Store.getInboundSourceBySlug slug db with
  | none => exact ⟨rfl, rfl⟩
  | some source =>
    obtain ⟨mem, same⟩ := slug_found found
    simp only
    split
    · exact ⟨rfl, rfl⟩
    · rename_i enabled
      obtain ⟨provider, parsed⟩ := known source mem
      simp only [receive, parsed]
      rw [utcNow, perform_ask, clock]
      cases verdict : examine κ source provider headers raw (.ofInt (now / 1000000)) with
      | mk verified rest =>
        cases verified with
        | error e => exact ⟨rfl, rfl⟩
        | ok _ =>
          refine absurd ⟨source, mem, same, by simpa using enabled, provider, parsed, ?_⟩ forged
          rw [verdict]

theorem perform_nul_slug (κ : Prims) (cfg : DispatcherConfig) (W : World) (db : Db)
    (headers : Headers) (raw : Bytes) (nul : ¬ nulFree slug) :
    (perform κ cfg W (.start db) (ingest κ slug headers raw)).1 =
      .ok (answer 503 (.text "db unavailable")) := by
  have refused : (Stmt.getInboundSourceBySlug slug).exec (W.time 0) W.choice db = .error .other :=
    exec_refused List.mem_cons_self nul
  rw [ingest, perform_outcome, Txn.Scene.start, perform_alone_error refused]
  rfl

end Refusal

/-- The answer to a request that is not authentic is the same 401 on every database, exactly
for the slugs that Postgres takes as a text. -/
theorem ingest_no_oracle (κ : Prims) (cfg : DispatcherConfig) (W : World) (now : Time)
    (clock : ∀ n, W.answer n .utcNow = now) (slug : String) (headers : Headers) (raw : Bytes) :
    (∀ db₁ db₂ : Db, KnownProviders κ db₁ → KnownProviders κ db₂ →
      ¬ Authentic κ slug headers raw now db₁ → ¬ Authentic κ slug headers raw now db₂ →
      (perform κ cfg W (.start db₁) (ingest κ slug headers raw)).1 = .ok unauthorized ∧
      (perform κ cfg W (.start db₂) (ingest κ slug headers raw)).1 = .ok unauthorized ∧
      (perform κ cfg W (.start db₁) (ingest κ slug headers raw)).2.db = db₁ ∧
      (perform κ cfg W (.start db₂) (ingest κ slug headers raw)).2.db = db₂) ↔ nulFree slug := by
  constructor
  · intro alike
    by_contra nul
    have forged : ¬ Authentic κ slug headers raw now .empty := by
      rintro ⟨source, mem, -⟩
      cases mem
    have unauth := (alike .empty .empty (fun _ mem => nomatch mem) (fun _ mem => nomatch mem) forged
      forged).1
    cases unauth.symm.trans (perform_nul_slug κ cfg W .empty headers raw nul)
  · intro free db₁ db₂ known₁ known₂ forged₁ forged₂
    obtain ⟨answer₁, kept₁⟩ := perform_refused cfg free clock known₁ forged₁
    obtain ⟨answer₂, kept₂⟩ := perform_refused cfg free clock known₂ forged₂
    exact ⟨answer₁, answer₂, kept₁, kept₂⟩

def orders : InboundSource := ⟨1, "t", "orders", "github", "s", false, 0, 0⟩

def forgery : Headers := [("x-hub-signature-256", utf8 "sha256=00".toList)]

theorem ingest_no_oracle_forged : (∀ n, (steady 0).answer n .utcNow = (0 : Time)) ∧
    Db.all InboundSource (Txn.Store.put .empty (.source orders)) = [orders] ∧
    (perform plain Dispatcher.default (steady 0) (.start (Txn.Store.put .empty (.source orders)))
      (ingest plain "orders" forgery [1])).1 = .ok unauthorized ∧
    (perform plain Dispatcher.default (steady 0) (.start .empty)
      (ingest plain "orders" forgery [1])).1 = .ok unauthorized := by
  have clock : ∀ n, (steady 0).answer n .utcNow = (0 : Time) := fun _ => rfl
  have free : nulFree "orders" := by decide
  have one : Db.all InboundSource (Txn.Store.put .empty (.source orders)) = [orders] := rfl
  have forged : ¬ Authentic plain "orders" forgery [1] 0
      (Txn.Store.put .empty (.source orders)) := by
    rintro ⟨source, mem, -, -, provider, parsed, verified⟩
    rw [one, List.mem_singleton] at mem
    subst mem
    obtain rfl : provider = .github := (Except.ok.inj parsed).symm
    have mismatch : (examine plain orders .github forgery [1] (.ofInt (0 / 1000000))).1 =
      .error (.signing "github: signature mismatch") := by decide
    cases mismatch.symm.trans verified
  have known : KnownProviders plain (Txn.Store.put .empty (.source orders)) := by
    intro source mem
    rw [one, List.mem_singleton] at mem
    subst mem
    exact ⟨.github, rfl⟩
  have alike := (ingest_no_oracle plain Dispatcher.default (steady 0) 0 clock "orders" forgery
    [1]).mpr free _ .empty known (fun _ mem => nomatch mem) forged (fun ⟨_, mem, _⟩ => nomatch mem)
  exact ⟨clock, one, alike.1, alike.2.1⟩

/- `GET /ingest/%00`: no source has that slug, and the answer is not the 401. -/
theorem nul_slug_reported :
    (∀ db : Db, (perform plain Dispatcher.default (steady 0) (.start db)
      (ingest plain "\x00" [] [])).1 = .ok (answer 503 (.text "db unavailable"))) ∧
    ¬ ∀ slug headers raw (db₁ db₂ : Db), KnownProviders plain db₁ → KnownProviders plain db₂ →
      ¬ Authentic plain slug headers raw 0 db₁ → ¬ Authentic plain slug headers raw 0 db₂ →
      (perform plain Dispatcher.default (steady 0) (.start db₁) (ingest plain slug headers raw)).1 =
        .ok unauthorized := by
  have nul : ¬ nulFree "\x00" := by decide
  refine ⟨fun db => perform_nul_slug _ _ _ db [] [] nul, fun all => ?_⟩
  have unauth := all "\x00" [] [] .empty .empty (fun _ mem => nomatch mem)
    (fun _ mem => nomatch mem) (fun ⟨_, mem, _⟩ => nomatch mem) (fun ⟨_, mem, _⟩ => nomatch mem)
  cases unauth.symm.trans (perform_nul_slug _ _ _ .empty [] [] nul)

end Dropless
