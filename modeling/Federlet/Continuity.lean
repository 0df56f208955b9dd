import Federlet.Admission
import Federlet.Authentication

/-! Key continuity as a chain of trust. A manifest is verified under the first
key of an id, continuity compares and follows the last one; on lists that repeat
an id the two can differ. -/

namespace Federlet

open Coop

theorem verifyDict_true {P : Platform} {payload : List (String × Json)} {jwk : JWK}
    (h : verifyDict P payload jwk = .ok true) :
    ∃ sig data, verifyBytes P jwk sig data = .ok true := by
  simp only [verifyDict, bind, Except.bind] at h
  repeat' split at h
  all_goals first | exact ⟨_, _, h⟩ | cases h

theorem key_of_verifyModel {M : Type} [Model M] {P : Platform} {model : M} {jwk : JWK}
    (h : verifyModel P model jwk = .ok true) :
    ∃ key raw data, publicKeyFromJwk jwk = .ok key ∧ P.ed25519Verify key raw data = true := by
  simp only [verifyModel, bind, Except.bind] at h
  split at h
  · cases h
  · obtain ⟨sig, data, hv⟩ := verifyDict_true h
    obtain ⟨key, raw, hk, _, hverify⟩ := verifyBytes_true hv
    exact ⟨key, raw, data, hk, hverify⟩

theorem verifyModel_eq_of_key {M : Type} [Model M] {P : Platform} {model : M} {jwk jwk' : JWK}
    (h : publicKeyFromJwk jwk = publicKeyFromJwk jwk') :
    verifyModel P model jwk = verifyModel P model jwk' := by
  have hbytes : ∀ sig data, verifyBytes P jwk sig data = verifyBytes P jwk' sig data := by
    intro sig data
    simp only [verifyBytes, verifySignature, h]
  simp only [verifyModel, verifyDict, hbytes]

theorem signed_of_checkManifestAt {P : Platform} {manifest : Manifest} {now : DateTime} {skew : Int}
    {reason : String} (h : checkManifestAt P manifest now skew = .ok (true, reason)) :
    ∃ signature jwk, manifest.signature = some signature ∧
      findJwk manifest.publicKeys signature.keyId = some jwk ∧
      verifyModel P manifest jwk = .ok true := by
  simp only [checkManifestAt, bind, Except.bind] at h
  split at h
  · cases h
  · rename_i signature hs
    split at h
    · cases h
    · rename_i jwk hjwk
      cases hv : verifyModel P manifest jwk with
      | error e => simp [hv] at h
      | ok b =>
        cases b with
        | false => simp [hv, pure, Except.pure] at h
        | true => exact ⟨signature, jwk, hs, hjwk, hv⟩

def Continues (P : Platform) (o : Origin) (old new : Manifest)
    (policy : Option KeyContinuityPolicy) : Prop :=
  ∃ reason, (checkKeyContinuity P o old new policy).run = .done (.ok ⟨.accept, reason⟩)

theorem checkKeyContinuity_run {P : Platform} {o : Origin} {old new : Manifest}
    {policy : Option KeyContinuityPolicy} (hpolicy : (policy.getD {}).evidenceVerifier = none) :
    (checkKeyContinuity P o old new policy).run =
      .done ((continuityByKeys P old new (policy.getD {})).map
        fun d => d.getD ⟨.quarantine, "stale_manifest"⟩) := by
  rw [checkKeyContinuity, Task.run_bind, raising, Task.run_lift]
  cases continuityByKeys P old new (policy.getD {}) with
  | error e => rfl
  | ok d =>
    cases d with
    | some decision => rfl
    | none => simp [hpolicy, Except.map]

theorem continues_iff {P : Platform} {o : Origin} {old new : Manifest}
    {policy : Option KeyContinuityPolicy} (hpolicy : (policy.getD {}).evidenceVerifier = none) :
    Continues P o old new policy ↔ old.nodeId = new.nodeId ∧ old.orgId = new.orgId ∧
      (sameKeys (keyDict old.publicKeys) (keyDict new.publicKeys) = true ∨
        (policy.getD {}).allowKeyRotation = true ∧ ∃ signature jwk, new.signature = some signature ∧
          (keyDict old.publicKeys).lookup signature.keyId = some jwk ∧
          verifyModel P new jwk = .ok true) := by
  rw [Continues, checkKeyContinuity_run hpolicy, continuityByKeys]
  by_cases hnode : old.nodeId = new.nodeId
  swap
  · simp [hnode, Except.map]
  by_cases horg : old.orgId = new.orgId
  swap
  · simp [hnode, horg, Except.map]
  cases hsame : sameKeys (keyDict old.publicKeys) (keyDict new.publicKeys) with
  | true => simp [hnode, horg, Except.map]
  | false =>
    cases hrot : (policy.getD {}).allowKeyRotation with
    | false => simp [hnode, horg, Except.map]
    | true =>
      cases hs : new.signature with
      | none => simp [hnode, horg, Except.map]
      | some signature =>
        cases hj : (keyDict old.publicKeys).lookup signature.keyId with
        | none => simp [hnode, horg, hj, Except.map]
        | some jwk =>
          cases hv : verifyModel P new jwk with
          | error e => simp [hnode, horg, hj, hv, Except.map, bind, Except.bind]
          | ok b =>
            cases b <;> simp [hnode, horg, hj, hv, Except.map, bind, Except.bind, pure, Except.pure]

def FirstKey (keys : List PublicKey) (key : Bytes) : Prop :=
  ∃ keyId jwk, findJwk keys keyId = some jwk ∧ publicKeyFromJwk jwk = .ok key

/-- Every key that may have signed the new list is followed by continuity only
from a key the old list is used with. -/
def KeysLinked (oldKeys newKeys : List PublicKey) (rotation : Bool) : Prop :=
  ∀ keyId jwk key, findJwk newKeys keyId = some jwk → publicKeyFromJwk jwk = .ok key →
    (sameKeys (keyDict oldKeys) (keyDict newKeys) = true → FirstKey oldKeys key) ∧
    (sameKeys (keyDict oldKeys) (keyDict newKeys) = false → rotation = true → ∀ oldJwk oldKey,
      (keyDict oldKeys).lookup keyId = some oldJwk → publicKeyFromJwk oldJwk = .ok oldKey →
        FirstKey oldKeys key ∨ FirstKey oldKeys oldKey)

/-- The signature of a manifest verifies under a key the current one is used with. -/
def TrustedBy (P : Platform) (keys : List PublicKey) (new : Manifest) : Prop :=
  ∃ keyId jwk, findJwk keys keyId = some jwk ∧ verifyModel P new jwk = .ok true

theorem trusted_of_firstKey {P : Platform} {keys : List PublicKey} {new : Manifest}
    {jwk : JWK} {key : Bytes} (hkey : publicKeyFromJwk jwk = .ok key)
    (hv : verifyModel P new jwk = .ok true) (hfirst : FirstKey keys key) :
    TrustedBy P keys new := by
  obtain ⟨keyId, jwk', hfind, hkey'⟩ := hfirst
  have heq : verifyModel P new jwk' = verifyModel P new jwk :=
    verifyModel_eq_of_key (hkey'.trans hkey.symm)
  exact ⟨keyId, jwk', hfind, heq.trans hv⟩

theorem trusted_of_linked {P : Platform} {o : Origin} {old new : Manifest}
    {now : DateTime} {skew : Int} {reason : String} {policy : Option KeyContinuityPolicy}
    (hpolicy : (policy.getD {}).evidenceVerifier = none)
    (hlinked : KeysLinked old.publicKeys new.publicKeys (policy.getD {}).allowKeyRotation)
    (hcheck : checkManifestAt P new now skew = .ok (true, reason))
    (hcont : Continues P o old new policy) :
    TrustedBy P old.publicKeys new := by
  obtain ⟨signature, jwk, hs, hjwk, hv⟩ := signed_of_checkManifestAt hcheck
  obtain ⟨key, _, _, hkey, _⟩ := key_of_verifyModel hv
  obtain ⟨hsameKeys, hrotated⟩ := hlinked _ _ _ hjwk hkey
  obtain ⟨_, _, haccept⟩ := (continues_iff hpolicy).mp hcont
  cases hsame : sameKeys (keyDict old.publicKeys) (keyDict new.publicKeys) with
  | true => exact trusted_of_firstKey hkey hv (hsameKeys hsame)
  | false =>
    simp only [hsame, Bool.false_eq_true, false_or] at haccept
    obtain ⟨hrot, signature', oldJwk, hs', hlookup, hold⟩ := haccept
    obtain rfl : signature = signature' := by simpa [hs] using hs'
    obtain ⟨oldKey, _, _, hkeyOld, _⟩ := key_of_verifyModel hold
    rcases hrotated hsame hrot oldJwk oldKey hlookup hkeyOld with hfirst | hfirst
    · exact trusted_of_firstKey hkey hv hfirst
    · exact trusted_of_firstKey hkeyOld hold hfirst

theorem keyDict_lookup_of_nodup {keys : List PublicKey} (h : (keys.map PublicKey.keyId).Nodup)
    (keyId : String) : (keyDict keys).lookup keyId = findJwk keys keyId := by
  have hkeys : ((keys.map (fun k => (k.keyId, k.publicJwk))).map Prod.fst).Nodup := by
    simpa [List.map_map, Function.comp_def] using h
  rw [Dict.lookup, keyDict, Keyed.get_ofList_of_nodup hkeys, List.find?_map, findJwk,
    Option.map_map]
  rfl

theorem publicKeyFromJwk_eq_of_eq {a b : JWK} (h : JWK.eq a b = true) :
    publicKeyFromJwk a = publicKeyFromJwk b := by
  have hlookup : ∀ k, a.lookup k = b.lookup k := by
    intro k
    have hk := Keyed.beqBy_iff.mp h k
    simp only [Dict.lookup]
    generalize ha : a.get k = x at hk
    generalize hb : b.get k = y at hk
    cases hk with
    | none => rfl
    | some he => simpa using he
  simp only [publicKeyFromJwk, hlookup]

theorem key_of_sameKeys {oldKeys newKeys : List PublicKey} {keyId : String} {jwk : JWK}
    (h : sameKeys (keyDict oldKeys) (keyDict newKeys) = true)
    (hjwk : (keyDict newKeys).lookup keyId = some jwk) :
    ∃ oldJwk, (keyDict oldKeys).lookup keyId = some oldJwk ∧
      publicKeyFromJwk oldJwk = publicKeyFromJwk jwk := by
  have hk := Keyed.beqBy_iff.mp h keyId
  simp only [Dict.lookup, Option.map_eq_some_iff] at hjwk ⊢
  obtain ⟨entry, hentry, rfl⟩ := hjwk
  rw [hentry] at hk
  generalize ho : (keyDict oldKeys).get keyId = x at hk
  cases hk with
  | some he => exact ⟨_, ⟨_, rfl, rfl⟩, publicKeyFromJwk_eq_of_eq he⟩

/-- Lists that repeat no id are linked. -/
theorem keysLinked_of_nodup {oldKeys newKeys : List PublicKey}
    (hold : (oldKeys.map PublicKey.keyId).Nodup) (hnew : (newKeys.map PublicKey.keyId).Nodup)
    (rotation : Bool) : KeysLinked oldKeys newKeys rotation := by
  intro keyId jwk key hfind hkey
  constructor
  · intro hsame
    obtain ⟨oldJwk, hlookup, heq⟩ :=
      key_of_sameKeys hsame ((keyDict_lookup_of_nodup hnew keyId).trans hfind)
    exact ⟨keyId, oldJwk, (keyDict_lookup_of_nodup hold keyId).symm.trans hlookup, heq.trans hkey⟩
  · intro _ _ oldJwk oldKey hlookup hkeyOld
    exact .inr ⟨keyId, oldJwk, (keyDict_lookup_of_nodup hold keyId).symm.trans hlookup, hkeyOld⟩
section Converse

def keysSign (keys : List Bytes) : Platform :=
  { exchange getMembersRequest with
    ed25519Verify := fun key _ _ => decide (key ∈ keys)
    rfc8785Dumps := fun _ => .ok [] }

def bareManifest (keys : List PublicKey) (keyId : String) : Manifest :=
  { alphaManifest with publicKeys := keys, expiresAt := none,
                       signature := some { keyId := keyId, sig := "" } }

theorem verifyModel_keysSign {keys : List Bytes} {manifestKeys : List PublicKey}
    {keyId : String} {jwk : JWK} {key : Bytes} (hkey : publicKeyFromJwk jwk = .ok key) :
    verifyModel (keysSign keys) (bareManifest manifestKeys keyId) jwk = .ok (decide (key ∈ keys)) :=
  by
  obtain ⟨fields, hfields, hdump⟩ : ∃ fields, (∀ kv ∈ fields, kv.1 ≠ "signature") ∧
      Model.dump (bareManifest manifestKeys keyId) =
        .ok (fields ++ optional "signature" Signature.toJson
          (some { keyId := keyId, sig := "" })) := by
    refine ⟨_, ?_, rfl⟩
    simp [optional, bareManifest, alphaManifest]
  have hsig : b64uDecode "" = .ok [] := rfl
  simp only [verifyModel, hdump, bind, Except.bind, verifyDict_signed hfields,
    canonicalBytes, keysSign, verifyBytes, verifySignature, hkey, hsig, pure, Except.pure]

theorem checkManifestAt_keysSign {keys : List Bytes} {manifestKeys : List PublicKey}
    {keyId : String} {jwk : JWK} {key : Bytes} (hfind : findJwk manifestKeys keyId = some jwk)
    (hkey : publicKeyFromJwk jwk = .ok key) (hmem : key ∈ keys) :
    checkManifestAt (keysSign keys) (bareManifest manifestKeys keyId) newYear2026 300 =
      .ok (true, "ok") := by
  have hv : verifyModel (keysSign keys) (bareManifest manifestKeys keyId) jwk = .ok true := by
    rw [verifyModel_keysSign hkey, decide_eq_true hmem]
  have hs : (bareManifest manifestKeys keyId).signature = some { keyId := keyId, sig := "" } := rfl
  have hfind' : findJwk (bareManifest manifestKeys keyId).publicKeys keyId = some jwk := hfind
  simp only [checkManifestAt, hs, hfind', hv]
  rfl

theorem firstKey_of_keysSign {keys : List Bytes} {oldKeys newKeys : List PublicKey} {keyId : String}
    (h : TrustedBy (keysSign keys) oldKeys (bareManifest newKeys keyId)) :
    ∃ key ∈ keys, FirstKey oldKeys key := by
  obtain ⟨keyId', jwk, hfind, hv⟩ := h
  obtain ⟨key, _, _, hkey, hmem⟩ := key_of_verifyModel hv
  exact ⟨key, of_decide_eq_true hmem, keyId', jwk, hfind, hkey⟩

end Converse

/-- Continuity is a chain of trust exactly on linked key lists. -/
theorem continuity_trusted_iff (oldKeys newKeys : List PublicKey)
    (policy : Option KeyContinuityPolicy) (hpolicy : (policy.getD {}).evidenceVerifier = none) :
    (∀ P o old new now skew reason, old.publicKeys = oldKeys → new.publicKeys = newKeys →
      checkManifestAt P new now skew = .ok (true, reason) → Continues P o old new policy →
        TrustedBy P old.publicKeys new) ↔
      KeysLinked oldKeys newKeys (policy.getD {}).allowKeyRotation := by
  constructor
  · intro h keyId jwk key hfind hkey
    have hsign := fun keys (hmem : key ∈ keys) hcont =>
      @firstKey_of_keysSign keys oldKeys newKeys keyId
        (h (keysSign keys) .admission (bareManifest oldKeys keyId)
          (bareManifest newKeys keyId) newYear2026
          300 "ok" rfl rfl (checkManifestAt_keysSign hfind hkey hmem) hcont)
    constructor
    · intro hsame
      obtain ⟨_, hmem, hfirst⟩ := hsign [key] List.mem_cons_self
        ((continues_iff hpolicy).mpr ⟨rfl, rfl, .inl hsame⟩)
      exact List.mem_singleton.mp hmem ▸ hfirst
    · intro _ hrot oldJwk oldKey hlookup hkeyOld
      have hv : verifyModel (keysSign [key, oldKey]) (bareManifest newKeys keyId) oldJwk =
          .ok true := by
        rw [verifyModel_keysSign hkeyOld]
        simp
      obtain ⟨key', hmem, hfirst⟩ := hsign [key, oldKey] List.mem_cons_self
        ((continues_iff hpolicy).mpr ⟨rfl, rfl, .inr ⟨hrot, _, oldJwk, rfl, hlookup, hv⟩⟩)
      rcases List.mem_cons.mp hmem with rfl | hmem'
      · exact .inl hfirst
      · exact .inr (List.mem_singleton.mp hmem' ▸ hfirst)
  · rintro hlinked P o old new now skew reason rfl rfl hcheck hcont
    exact trusted_of_linked hpolicy hlinked hcheck hcont

def malloryKey : JWK :=
  Keyed.ofList [("kty", "OKP"), ("crv", "Ed25519"), ("alg", "EdDSA"),
    ("x", "PUAXw-hDiVqStwqnTRt-vJyYLM8uxJaMwM1V8Sr0Zgw")]

def takeoverManifest : Manifest :=
  { alphaManifest with
    revision := 4
    publicKeys := [{ keyId := "k1", publicJwk := malloryKey },
      { keyId := "k1", publicJwk := alphaKey }]
    signature :=
      some { keyId := "k1", sig :=
        "6WqwsTAM-WhFUoxXSK-dqWe1Wkzyv9PfvqLC5a8I6Eba2-vNveVlTi_CwZ85fy0FIOkOnLBFu7emiWY6lSrrAA" } }

def takeoverBody : List String :=
  ["\x7b\"auth_methods\":[\"signed_http\"],\"endpoint\":\"https://alpha.example\",",
    "\"expires_at\":\"2026-02-01T00:00:00Z\",\"extensions\":\x7b\x7d,\"federations\":[\"fed\"],",
    "\"membership\":\x7b\"introduce_url\":\"https://alpha.example/introduce\",",
    "\"members_url\":\"https://alpha.example/members\"\x7d,\"node_id\":\"alpha\",\"org_id\":\"acme\",",
    "\"protocol_versions\":[\"1\"],\"public_keys\":[\x7b\"alg\":\"EdDSA\",\"key_id\":\"k1\",",
    "\"public_jwk\":\x7b\"alg\":\"EdDSA\",\"crv\":\"Ed25519\",\"kty\":\"OKP\",",
    "\"x\":\"PUAXw-hDiVqStwqnTRt-vJyYLM8uxJaMwM1V8Sr0Zgw\"\x7d,\"use\":\"sig\"\x7d,",
    "\x7b\"alg\":\"EdDSA\",\"key_id\":\"k1\",\"public_jwk\":\x7b\"alg\":\"EdDSA\",\"crv\":\"Ed25519\",",
    "\"kty\":\"OKP\",\"x\":\"11qYAYKxCrfVS_7TyWQHOg7hcvPapiMlrwIaaPcHURo\"\x7d,\"use\":\"sig\"\x7d],",
    "\"revision\":4\x7d"]

/-- A platform that knows the given signatures, by key, and no others. -/
def knows (texts : List (JWK × String × List String)) : Platform :=
  { exchange getMembersRequest with
    ed25519Verify := fun key sig data => texts.any fun t =>
      decodes (publicKeyFromJwk t.1) key && decodes (b64uDecode t.2.1) sig &&
        Canonical.utf8 (t.2.2.flatMap String.toList) == data }

def takeoverPlatform : Platform :=
  knows
    [(malloryKey,
      "6WqwsTAM-WhFUoxXSK-dqWe1Wkzyv9PfvqLC5a8I6Eba2-vNveVlTi_CwZ85fy0FIOkOnLBFu7emiWY6lSrrAA",
    takeoverBody)]

theorem alphaKey_ne_malloryKey (key : Bytes) (h : publicKeyFromJwk alphaKey = .ok key) :
    decodes (publicKeyFromJwk malloryKey) key = false := by
  have hne : (publicKeyFromJwk alphaKey).toOption.any
      (decodes (publicKeyFromJwk malloryKey)) = false := by
    decide +kernel
  rwa [h] at hne

theorem takeover_accepted :
    checkManifestAt takeoverPlatform takeoverManifest newYear2026 300 = .ok (true, "ok") ∧
      Continues takeoverPlatform .refresh alphaManifest takeoverManifest none ∧
      ¬ TrustedBy takeoverPlatform alphaManifest.publicKeys takeoverManifest := by
  refine ⟨by decide +kernel, (continues_iff rfl).mpr ⟨rfl, rfl, .inl (by decide +kernel)⟩, ?_⟩
  rintro ⟨keyId, jwk, hfind, hv⟩
  obtain rfl : alphaKey = jwk := by
    by_cases hk : "k1" = keyId
    · simpa [findJwk, alphaManifest, hk] using hfind
    · simp [findJwk, alphaManifest, hk] at hfind
  obtain ⟨key, raw, data, hkey, hverify⟩ := key_of_verifyModel hv
  simp [takeoverPlatform, knows, alphaKey_ne_malloryKey key hkey] at hverify

def nextAlphaKey : JWK :=
  Keyed.ofList [("kty", "OKP"), ("crv", "Ed25519"), ("alg", "EdDSA"),
    ("x", "_FHNjmIYoaONpH7QAjDwWAgW7RO6MwOsXeuRFUiQgCU")]

def rotationSig : String :=
  "BAg5A-NaKUf9Og--KZGx7l1V-yqpQj4fMAXSqDCQPHyOkLPkrRX4fixJvTzkNCjuje0VN6qbDhmUDw31TB3yCQ"

def rotatedManifest : Manifest :=
  { alphaManifest with
    revision := 4
    publicKeys := [{ keyId := "k1", publicJwk := alphaKey },
      { keyId := "k2", publicJwk := nextAlphaKey }]
    signature := some { keyId := "k1", sig := rotationSig } }

def rotatedBody : List String :=
  ["\x7b\"auth_methods\":[\"signed_http\"],\"endpoint\":\"https://alpha.example\",",
    "\"expires_at\":\"2026-02-01T00:00:00Z\",\"extensions\":\x7b\x7d,\"federations\":[\"fed\"],",
    "\"membership\":\x7b\"introduce_url\":\"https://alpha.example/introduce\",",
    "\"members_url\":\"https://alpha.example/members\"\x7d,\"node_id\":\"alpha\",\"org_id\":\"acme\",",
    "\"protocol_versions\":[\"1\"],\"public_keys\":[\x7b\"alg\":\"EdDSA\",\"key_id\":\"k1\",",
    "\"public_jwk\":\x7b\"alg\":\"EdDSA\",\"crv\":\"Ed25519\",\"kty\":\"OKP\",",
    "\"x\":\"11qYAYKxCrfVS_7TyWQHOg7hcvPapiMlrwIaaPcHURo\"\x7d,\"use\":\"sig\"\x7d,",
    "\x7b\"alg\":\"EdDSA\",\"key_id\":\"k2\",\"public_jwk\":\x7b\"alg\":\"EdDSA\",\"crv\":\"Ed25519\",",
    "\"kty\":\"OKP\",\"x\":\"_FHNjmIYoaONpH7QAjDwWAgW7RO6MwOsXeuRFUiQgCU\"\x7d,\"use\":\"sig\"\x7d],",
    "\"revision\":4\x7d"]

def rotationPlatform : Platform := knows [(alphaKey, rotationSig, rotatedBody)]

theorem rotation_trusted :
    sameKeys (keyDict alphaManifest.publicKeys) (keyDict rotatedManifest.publicKeys) = false ∧
      TrustedBy rotationPlatform alphaManifest.publicKeys rotatedManifest := by
  have hsigned : verifyModel rotationPlatform rotatedManifest alphaKey = .ok true :=
    by decide +kernel
  have hchecks : checkManifestAt rotationPlatform rotatedManifest newYear2026 300 =
      .ok (true, "ok") := by
    decide +kernel
  have hcont : Continues rotationPlatform .refresh alphaManifest rotatedManifest none :=
    (continues_iff rfl).mpr ⟨rfl, rfl, .inr ⟨rfl, _, alphaKey, rfl, rfl, hsigned⟩⟩
  refine ⟨by decide +kernel, ?_⟩
  exact (continuity_trusted_iff alphaManifest.publicKeys rotatedManifest.publicKeys none rfl).mpr
    (keysLinked_of_nodup (by decide) (by decide) _) _ _ _ _ _ _ _ rfl rfl hchecks hcont

end Federlet
