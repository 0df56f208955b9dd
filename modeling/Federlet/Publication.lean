import Federlet.Calls
import Federlet.Freshness
import Federlet.Requests

/-! Manifests as most nodes publish them: one key, the usual endpoints and dates, signed
with that key; and what a peer makes of one that it fetches. -/

namespace Federlet

open Coop

def sevenDays : TimeDelta := ⟨7 * 86400000000, by decide⟩

/-- The arguments of `build_signed_manifest` besides the key. -/
structure Publication where
  nodeId : String
  orgId : String
  endpoint : String
  federations : List String
  protocolVersions : List String
  manifestUrl : Option String := none
  revision : Int := 1
  buId : Option String := none
  authMethods : List String := ["signed_http"]
  introduceUrl : Option String := none
  membersUrl : Option String := none
  revocationsUrl : Option String := none
  extensions : Dict Json := Keyed.empty
  admissionEvidence : Option AdmissionEvidence := none
  disclosure : Option Disclosure := none
  limits : Option ManifestLimits := none
  issuedAt : Option DateTime := none
  expiresAt : Option DateTime := none
  ttl : Option TimeDelta := some sevenDays

namespace Publication

variable (p : Publication)

def base : String := rstripSlashes p.endpoint

def urlOr (url : Option String) (path : String) :
    String := (url.filter (· ≠ "")).getD (p.base ++ path)

/-- The end of validity; adding the `ttl` may leave the calendar. -/
def expiry (issued : DateTime) : Except Exc (Option DateTime) :=
  match p.expiresAt, p.ttl with
  | some expires, _ => .ok (some expires)
  | none, some ttl => (issued.add ttl).map some
  | none, none => .ok none

/-- The manifest of `build_signed_manifest` before it is signed; `now` is the time it
reads if none is given. -/
def manifest (key : Ed25519PrivateKey) (keyId : String) (now : DateTime) : Except Exc Manifest := do
  let issued := p.issuedAt.getD now
  let expires ← p.expiry issued
  return {
    nodeId := p.nodeId
    orgId := p.orgId
    buId := p.buId
    federations := p.federations
    endpoint := p.base
    manifestUrl := p.manifestUrl
    protocolVersions := p.protocolVersions
    revision := p.revision
    publicKeys := [{ keyId, publicJwk := publicJwk key }]
    authMethods := p.authMethods
    membership := {
      introduceUrl := p.urlOr p.introduceUrl "/members/introduce"
      membersUrl := p.urlOr p.membersUrl "/members"
      revocationsUrl := p.revocationsUrl }
    extensions := p.extensions
    admissionEvidence := p.admissionEvidence
    disclosure := p.disclosure
    limits := p.limits
    issuedAt := some issued
    expiresAt := expires }

end Publication

def signManifest (P : Platform) (V : Scalars) (manifest : Manifest) (key : Ed25519PrivateKey)
    (keyId : String) :
    Except Exc Manifest := signModel P V manifest key keyId

def buildSignedManifest (P : Platform) (V : Scalars) (key : Ed25519PrivateKey) (keyId : String)
    (p : Publication) (now : DateTime) : Except Exc Manifest := do
  let manifest ← p.manifest key keyId now
  signManifest P V manifest key keyId

/-- The manifest as it is read from its dump: its times are cut to whole seconds. -/
structure Kept (m m' : Manifest) : Prop where
  nodeId : m'.nodeId = m.nodeId
  orgId : m'.orgId = m.orgId
  federations : m'.federations = m.federations
  endpoint : m'.endpoint = m.endpoint
  manifestUrl : m'.manifestUrl = m.manifestUrl
  protocolVersions : m'.protocolVersions = m.protocolVersions
  revision : m'.revision = m.revision
  publicKeys : m'.publicKeys = m.publicKeys
  authMethods : m'.authMethods = m.authMethods
  membership : m'.membership.toJson = m.membership.toJson
  issuedAt : m'.issuedAt = m.issuedAt.map DateTime.toSecond
  expiresAt : m'.expiresAt = m.expiresAt.map DateTime.toSecond

theorem Kept.trans {a b c : Manifest} (h : Kept a b) (h' : Kept b c) : Kept a c where
  nodeId := h'.nodeId.trans h.nodeId
  orgId := h'.orgId.trans h.orgId
  federations := h'.federations.trans h.federations
  endpoint := h'.endpoint.trans h.endpoint
  manifestUrl := h'.manifestUrl.trans h.manifestUrl
  protocolVersions := h'.protocolVersions.trans h.protocolVersions
  revision := h'.revision.trans h.revision
  publicKeys := h'.publicKeys.trans h.publicKeys
  authMethods := h'.authMethods.trans h.authMethods
  membership := h'.membership.trans h.membership
  issuedAt := by
    rw [h'.issuedAt, h.issuedAt, Option.map_map]
    exact congrArg (fun f => a.issuedAt.map f) (funext DateTime.toSecond_toSecond)
  expiresAt := by
    rw [h'.expiresAt, h.expiresAt, Option.map_map]
    exact congrArg (fun f => a.expiresAt.map f) (funext DateTime.toSecond_toSecond)

section Kept

variable {P : Platform} {V : Scalars} {m m' : Manifest}

theorem Manifest.dumpsAs (hV : V.Faithful) {kvs : List (String × Json)}
    (h : Model.dump m = .ok kvs) :
    ∃ fields, DumpsAs m fields m.signature ∧ ∀ signature' m', Validated.read V (.obj (fields ++
      optional "signature" Signature.toJson signature')) = some m' → Kept m m' ∧
        m'.signature = signature' := by
  cases hissued : optionalTs "issued_at" m.issuedAt with
  | error e => simp [Model.dump, hissued, bind, Except.bind] at h
  | ok issuedAt =>
  cases hexpires : optionalTs "expires_at" m.expiresAt with
  | error e => simp [Model.dump, hissued, hexpires, bind, Except.bind] at h
  | ok expiresAt =>
    obtain ⟨hi, rfl⟩ := optionalTs_ok hissued
    obtain ⟨he, rfl⟩ := optionalTs_ok hexpires
    obtain ⟨membership', hmembership, hsame⟩ := m.membership.read_toJson
    obtain ⟨evidence', hevidence, _⟩ := AdmissionEvidence.nullable_read m.admissionEvidence
    have hkeys : readList PublicKey.read (.arr (m.publicKeys.map PublicKey.toJson)) =
        some (m.publicKeys.map id) :=
      mapM_read fun k _ => k.read_toJson
    have hunsigned : ∀ kv ∈ m.head m.membership.toJson ++
        optional "admission_evidence" AdmissionEvidence.toJson m.admissionEvidence ++ m.middle ++
        optional "issued_at" stampJson m.issuedAt ++ optional "expires_at" stampJson m.expiresAt,
        kv.1 ≠ "signature" := by
      simp only [Manifest.head, Manifest.middle, List.forall_mem_append, forall_mem_optional]
      simp
    refine ⟨_, ⟨?_, hunsigned⟩, fun signature' m' hread => ?_⟩
    · simp only [Model.dump, hissued, hexpires, bind, Except.bind, pure, Except.pure, Manifest.head,
        Manifest.middle, List.append_assoc]
    · simp [Validated.read, readObject, required, defaulting_eq, Manifest.head,
        Manifest.middle, lookup_field, lookup_optional, List.lookup_append, readStr,
          readList_strings, hV.int, hkeys, hmembership, readDict,
        Keyed.ofList_entries, hevidence, Disclosure.nullable_read hV, ManifestLimits.nullable_read
          hV, hV.stamps hi,
        hV.stamps he] at hread
      subst hread
      exact ⟨⟨rfl, rfl, rfl, rfl, rfl, rfl, rfl, rfl, rfl, hsame, rfl, rfl⟩, rfl⟩

theorem Manifest.overWire_kept (hV : V.Faithful) (h : overWire V m = .ok m') :
    Kept m m' ∧ m'.signature = m.signature := by
  cases hdump : Model.dump m with
  | error e => simp [overWire, hdump, bind, Except.bind] at h
  | ok kvs =>
    obtain ⟨fields, hm, hkept⟩ := Manifest.dumpsAs hV hdump
    exact hkept _ _ (hm.overWire_iff.mp h)

theorem Manifest.signModel_kept (hV : V.Faithful) {key : Ed25519PrivateKey} {keyId : String}
    (h : signModel P V m key keyId = .ok m') :
    Kept m m' ∧ ∃ data, m'.signature = some { keyId, sig := signBytes key data } := by
  cases hdump : Model.dump m with
  | error e => simp [signModel, hdump, bind, Except.bind] at h
  | ok kvs =>
    obtain ⟨fields, hm, hkept⟩ := Manifest.dumpsAs hV hdump
    obtain ⟨data, _, hread⟩ := hm.signModel_iff.mp h
    obtain ⟨hsame, hsignature⟩ := hkept _ _ hread
    exact ⟨hsame, _, hsignature⟩

theorem Kept.relayed (hV : V.Faithful) {built : Manifest} (h : Kept m built)
    (hrelayed : Relayed V built m') :
    Kept m m' ∧ m'.signature = built.signature := by
  induction hrelayed with
  | refl => exact ⟨h, rfl⟩
  | tail _ hhop ih =>
    obtain ⟨hsame, hsignature⟩ := Manifest.overWire_kept hV hhop
    exact ⟨ih.1.trans hsame, hsignature.trans ih.2⟩

end Kept

/-- `received` comes from the manifest a node built for the publication. -/
structure Published (P : Platform) (V : Scalars) (key : Ed25519PrivateKey) (keyId : String)
    (p : Publication) (published : DateTime) (received : Manifest) : Prop where
  exists_built : ∃ built, buildSignedManifest P V key keyId p published = .ok built ∧
    Relayed V built received

section Published

variable {P : Platform} {V : Scalars} {key : Ed25519PrivateKey} {keyId : String} {p : Publication}
  {published : DateTime} {received : Manifest}

theorem Publication.manifest_ok {unsigned : Manifest}
    (h : p.manifest key keyId published = .ok unsigned) :
    unsigned.nodeId = p.nodeId ∧ unsigned.orgId = p.orgId ∧ unsigned.endpoint = p.base ∧
      unsigned.revision = p.revision ∧
      unsigned.publicKeys = [{ keyId, publicJwk := publicJwk key }] := by
  cases hexpiry : p.expiry (p.issuedAt.getD published) with
  | error e => simp [Publication.manifest, hexpiry, bind, Except.bind] at h
  | ok expires =>
    simp only [Publication.manifest, hexpiry, bind, Except.bind, pure, Except.pure, Except.ok.injEq]
      at h
    subst h
    exact ⟨rfl, rfl, rfl, rfl, rfl⟩

theorem Published.kept (hV : V.Faithful) (h : Published P V key keyId p published received) :
    ∃ unsigned, p.manifest key keyId published = .ok unsigned ∧ Kept unsigned received ∧
      ∃ data, received.signature = some { keyId, sig := signBytes key data } := by
  obtain ⟨built, hbuilt, hrelayed⟩ := h.exists_built
  cases hunsigned : p.manifest key keyId published with
  | error e => simp [buildSignedManifest, hunsigned, bind, Except.bind] at hbuilt
  | ok unsigned =>
    have hsigned : signModel P V unsigned key keyId = .ok built := by
      rw [buildSignedManifest, hunsigned] at hbuilt
      exact hbuilt
    obtain ⟨hkept, data, hsignature⟩ := Manifest.signModel_kept hV hsigned
    obtain ⟨hreceived, hsame⟩ := hkept.relayed hV hrelayed
    exact ⟨unsigned, rfl, hreceived, data, hsame.trans hsignature⟩

theorem Published.sent (h : Published P V key keyId p published received) {next : Manifest}
    (hsent : overWire V received = .ok next) : Published P V key keyId p published next := by
  obtain ⟨built, hbuilt, hrelayed⟩ := h.exists_built
  exact ⟨built, hbuilt, hrelayed.tail hsent⟩

theorem Published.verifies (hV : V.Faithful)
    (hcanon : ∀ a b, a.Same b → P.rfc8785Dumps a = P.rfc8785Dumps b) (hkey : key.Ideal P)
    (h : Published P V key keyId p published received) :
    verifyModel P received (publicJwk key) = .ok true := by
  obtain ⟨built, hbuilt, hrelayed⟩ := h.exists_built
  cases hunsigned : p.manifest key keyId published with
  | error e => simp [buildSignedManifest, hunsigned, bind, Except.bind] at hbuilt
  | ok unsigned =>
    have hsigned : signModel P V unsigned key keyId = .ok built := by
      rw [buildSignedManifest, hunsigned] at hbuilt
      exact hbuilt
    exact (settles_manifest hV).signed hcanon hkey hsigned hrelayed

/-- Every published manifest passes `check_manifest` but for its dates. -/
theorem Published.judged (hV : V.Faithful)
    (hcanon : ∀ a b, a.Same b → P.rfc8785Dumps a = P.rfc8785Dumps b) (hkey : key.Ideal P)
    (h : Published P V key keyId p published received) {now : DateTime} {skew : Int}
    (hskew : 0 ≤ skew) (hbounds : WithinCalendar received.issuedAt received.expiresAt now skew) :
    checkManifestAt P received now skew =
      .ok (timeVerdict received.issuedAt received.expiresAt now skew) := by
  obtain ⟨unsigned, hunsigned, hkept, data, hsignature⟩ := h.kept hV
  have hkeys := (Publication.manifest_ok hunsigned).2.2.2.2
  have hfind : findJwk received.publicKeys keyId = some (publicJwk key) := by
    rw [hkept.publicKeys, hkeys]
    simp [findJwk]
  rw [checkManifestAt_of_verifies hsignature hfind (h.verifies hV hcanon hkey)]
  obtain ⟨delta, hok, hdelta⟩ := TimeDelta.ofSeconds_eq hskew hbounds.skew
  rw [hok]
  exact (boundsVerdict_iff hskew hdelta).mpr ⟨hbounds.upper, hbounds.lower⟩

end Published

/-- A URL that passes the guard of `fetch_manifest` and serves the document. -/
structure ServedAt (P : Platform) (client : FederationClient) (env : Env) (o : Origin)
    (url : String) (body : List (String × Json)) : Prop where
  guard : ∀ s, (assertPublicHost P o url client.allowPrivate).run.eval env.handle s = (.ok (), s)
  served : env.httpGet o url = .ok { raiseForStatus := .ok (), json := .ok (.obj body) }

def fetchVerdict (manifest : Manifest) : Bool × String → Except Exc Manifest
  | (true, _) => .ok manifest
  | (false, reason) => .error (.manifestVerificationError reason)

theorem ServedAt.fetch {P : Platform} {client : FederationClient} {env : Env} {o : Origin}
    {url : String} {body : List (String × Json)} (h : ServedAt P client env o url body)
    {manifest : Manifest} (hread : P.validateManifest (.obj body) = .ok manifest) {skew : Int}
    {s : NodeState} {verdict : Bool × String}
    (hcheck : checkManifestAt P manifest (env.now o s.clock) skew = .ok verdict) :
    (fetchManifest P client o url skew).run.eval env.handle s =
      (fetchVerdict manifest verdict, s) := by
  have hget : (httpGet o url).run.eval env.handle s = (.ok ⟨.ok (), .ok (.obj body)⟩, s) :=
    congrArg (fun r => (r, s)) h.served
  have hverdict : (checkManifest P o manifest skew).run.eval env.handle s = (.ok verdict, s) :=
    congrArg (fun r => (r, s)) hcheck
  rw [fetchManifest, Task.eval_run_bind, h.guard, Task.andThen_ok, Task.eval_run_bind, hget,
    Task.andThen_ok]
  simp only [Task.eval_run_bind, raising, Task.run_lift, Task.eval_done, Task.andThen_ok,
    hread, hverdict]
  obtain ⟨ok, reason⟩ := verdict
  cases ok <;> rfl

/-- A manifest served as it was published is fetched, and says what was published; or
it is refused for its dates. -/
theorem published_manifest_fetched (P : Platform) (V : Scalars) (hV : V.Faithful)
    (hcanon : ∀ a b, a.Same b → P.rfc8785Dumps a = P.rfc8785Dumps b)
    (hvalidate : ∀ j m, Validated.read V j = some m → P.validateManifest j = .ok m)
    (key : Ed25519PrivateKey) (hkey : key.Ideal P) (keyId : String) (p : Publication)
    (published : DateTime) (served : Manifest)
    (hpublished : Published P V key keyId p published served) (body : List (String × Json))
    (hdump : Model.dump served = .ok body) (client : FederationClient) (env : Env) (o : Origin)
    (url : String) (hserves : ServedAt P client env o url body) (skew : Int) (hskew : 0 ≤ skew) :
    ∃ received unsigned, p.manifest key keyId published = .ok unsigned ∧ Kept unsigned received ∧
      Published P V key keyId p published received ∧ ∀ s : NodeState,
        WithinCalendar received.issuedAt received.expiresAt (env.now o s.clock) skew →
          (fetchManifest P client o url skew).run.eval env.handle s =
            (fetchVerdict received (timeVerdict received.issuedAt received.expiresAt
              (env.now o s.clock) skew), s) := by
  obtain ⟨received, hsent⟩ := (settles_manifest hV).exists_hop hdump
  have hreceived := hpublished.sent hsent
  obtain ⟨unsigned, hunsigned, hkept, _⟩ := hreceived.kept hV
  refine ⟨received, unsigned, hunsigned, hkept, hreceived, fun s hbounds => ?_⟩
  have hread : P.validateManifest (.obj body) = .ok received := by
    apply hvalidate
    rw [overWire, hdump] at hsent
    exact elim_ok_iff.mp hsent
  exact hserves.fetch hread (hreceived.judged hV hcanon hkey hskew hbounds)

def alphaPublication : Publication :=
  { nodeId := "alpha", orgId := "acme", endpoint := "https://alpha.example/", federations := ["fed"]
    protocolVersions := ["1"] }

def spareSigner : Ed25519PrivateKey where
  publicBytes := List.replicate 32 9
  length_eq := by simp
  sign data := 1 :: standIn data

/-- Both keys of `alpha`, and manifests as pydantic reads them. -/
def publishingPlatform : Platform :=
  { signingPlatform with
    ed25519Verify := fun key sig data => key == alphaSigner.publicBytes &&
      sig == alphaSigner.sign data || key == spareSigner.publicBytes && sig == spareSigner.sign data
    validateManifest := fun j => (Validated.read strictScalars j).elim
      (.error .validationError) .ok }

theorem spareSigner_other : spareSigner.publicBytes ≠ alphaSigner.publicBytes := by decide +kernel

theorem alphaSigner_publishes : alphaSigner.Ideal publishingPlatform := by
  intro data data'
  have hother := spareSigner_other.symm
  have hideal := alphaSigner_ideal data data'
  simpa [publishingPlatform, hother, signingPlatform] using hideal

theorem spareSigner_publishes : spareSigner.Ideal publishingPlatform := by
  intro data data'
  have hother := spareSigner_other
  have hsign : (1 :: standIn data = 1 :: standIn data') ↔ data = data' := by simp [standIn_inj]
  have hverify : publishingPlatform.ed25519Verify spareSigner.publicBytes
      (spareSigner.sign data) data' = (1 :: standIn data == 1 :: standIn data') := by
    simp only [publishingPlatform, beq_false_of_ne hother, Bool.false_and, Bool.false_or,
      beq_self_eq_true, Bool.true_and]
    rfl
  rw [hverify, beq_iff_eq, hsign]

theorem publishingPlatform_validates (j : Json) (m : Manifest)
    (h : Validated.read strictScalars j = some m) :
    publishingPlatform.validateManifest j = .ok m := by
  show (Validated.read strictScalars j).elim _ _ = _
  rw [h]
  rfl

theorem alphaPublication_built (key : Ed25519PrivateKey) (keyId : String)
    (hkey : key.Ideal publishingPlatform) :
    ∃ built body, Published publishingPlatform strictScalars key keyId alphaPublication
      newYear2026 built ∧
      Model.dump built = .ok body := by
  obtain ⟨unsigned, hunsigned, kvs, hdump, hsafe⟩ :
      ∃ unsigned, alphaPublication.manifest key keyId newYear2026 =
      .ok unsigned ∧ ∃ kvs, Model.dump unsigned = .ok kvs ∧ Json.safeFields kvs = true :=
        ⟨_, rfl, _, rfl, rfl⟩
  obtain ⟨built, received, hbuilt, hsent, _⟩ := (settles_manifest strictScalars_faithful).verifies
    (fun _ _ => dictDumps_congr) (fun _ => dictDumps_safe) hkey keyId hdump hsafe
  have hsigned : buildSignedManifest publishingPlatform strictScalars key keyId
      alphaPublication newYear2026 = .ok built := by
    rw [buildSignedManifest, hunsigned]
    exact hbuilt
  cases hbody : Model.dump built with
  | error e => simp [overWire, hbody, bind, Except.bind] at hsent
  | ok body => exact ⟨built, body, ⟨built, hsigned, .refl⟩, hbody⟩

def servingWorld (body : List (String × Json)) : Env :=
  { silentWorld with httpGet := fun _ _ => .ok { raiseForStatus := .ok (),
                                                 json := .ok (.obj body) } }

theorem servingWorld_serves (body : List (String × Json)) (o : Origin) :
    ServedAt publishingPlatform beta.client (servingWorld body) o
      "https://alpha.example/manifest" body :=
  ⟨fun _ => rfl, rfl⟩

theorem withinCalendar_zero (issuedAt expiresAt : Option DateTime) (now : DateTime) :
    WithinCalendar issuedAt expiresAt now 0 where
  skew := by decide
  upper := fun t _ => by simpa using t.wall_range.2
  lower := fun t _ _ => by simpa using t.wall_range.1

theorem alphaPublication_fetched : ∃ (env : Env) (received : Manifest),
    (fetchManifest publishingPlatform beta.client .discovery "https://alpha.example/manifest"
      0).run.eval env.handle
      emptyNode = (fetchVerdict received
        (timeVerdict received.issuedAt received.expiresAt newYear2026 0), emptyNode) := by
  obtain ⟨built, body, hpublished, hbody⟩ :=
    alphaPublication_built alphaSigner "k1" alphaSigner_publishes
  obtain ⟨received, _, _, _, _, hfetch⟩ :=
    published_manifest_fetched publishingPlatform strictScalars
    strictScalars_faithful (fun _ _ => dictDumps_congr) publishingPlatform_validates alphaSigner
    alphaSigner_publishes "k1" alphaPublication newYear2026 built hpublished body hbody beta.client
    (servingWorld body) .discovery _ (servingWorld_serves body _) 0 (by decide)
  exact ⟨_, received, hfetch emptyNode (withinCalendar_zero _ _ _)⟩

end Federlet
