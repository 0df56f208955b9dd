import Federlet.Messages

/-! Signatures are not carried over from one message type to another. No type is
signed: two types are told apart by a field that every body of one has and no body
of the other. -/

namespace Federlet

namespace WireType

def signature : (t : WireType) → t.Value → Option Signature
  | .manifest, m => Manifest.signature m
  | .signedRequest, m => SignedRequest.signature m
  | .revocationNotice, m => RevocationNotice.signature m
  | .introduceResponse, m => IntroduceResponse.signature m
  | .membersResponse, m => MembersResponse.signature m
  | .revocationsResponse, m => RevocationsResponse.signature m
  | .operationResponse, m => OperationResponse.signature m
  | .operationItem, m => OperationItem.signature m

/-- A field that every body of the type has. -/
def mark : WireType → String
  | .manifest => "public_keys"
  | .signedRequest => "body_sha256"
  | .revocationNotice => "revoked_node_id"
  | .introduceResponse => "accepted"
  | .membersResponse => "members"
  | .revocationsResponse => "notices"
  | .operationResponse => "operation_id"
  | .operationItem => "payload"

/-- The fields a body of the type may have. -/
def possible : WireType → List String
  | .manifest => ["node_id", "org_id", "bu_id", "federations", "endpoint", "manifest_url",
      "protocol_versions", "revision", "public_keys", "auth_methods", "membership", "extensions",
      "admission_evidence", "disclosure", "limits", "issued_at", "expires_at"]
  | .signedRequest => ["federation_id", "request_id", "source_node_id", "target_node_id", "method",
      "path", "timestamp", "nonce", "body_sha256", "source_manifest_revision"]
  | .revocationNotice =>
    ["federation_id", "revoked_node_id", "reason", "issued_at", "expires_at", "issuer"]
  | .introduceResponse => ["accepted", "accepted_node_id", "accepted_manifest_revision",
      "accepted_until", "reason", "membership_cursor", "known_peer_count"]
  | .membersResponse => ["source_node_id", "cursor", "members"]
  | .revocationsResponse => ["source_node_id", "cursor", "notices"]
  | .operationResponse => ["operation_id", "source_node_id", "payload", "items", "metadata"]
  | .operationItem => ["payload", "provenance"]

/-- Of two types, one has a field the other never has. -/
theorem apart (t t' : WireType) (h : t ≠ t') :
    t.mark ∉ t'.possible ∨ t'.mark ∉ t.possible := by
  cases t <;> cases t' <;> first | exact absurd rfl h | decide

end WireType

/-- What a dump holds: the signature at its end, and the fields of its type before it. -/
structure Dumped (t : WireType) (m : t.Value) (kvs : List (String × Json)) : Prop where
  signature : kvs.lookup "signature" = (t.signature m).map Signature.toJson
  marked : kvs.lookup t.mark ≠ none
  possible : ∀ kv ∈ kvs, kv.1 = "signature" ∨ kv.1 ∈ t.possible

theorem dumped_manifest {m : Manifest} {kvs : List (String × Json)} (h : Model.dump m = .ok kvs) :
    Dumped .manifest m kvs := by
  cases hissued : optionalTs "issued_at" m.issuedAt with
  | error e => simp [Model.dump, hissued, bind, Except.bind] at h
  | ok issuedAt =>
  cases hexpires : optionalTs "expires_at" m.expiresAt with
  | error e => simp [Model.dump, hissued, hexpires, bind, Except.bind] at h
  | ok expiresAt =>
    obtain ⟨_, rfl⟩ := optionalTs_ok hissued
    obtain ⟨_, rfl⟩ := optionalTs_ok hexpires
    simp only [Model.dump, hissued, hexpires, bind, Except.bind, pure, Except.pure, Except.ok.injEq]
      at h
    subst h
    refine ⟨?_, ?_, ?_⟩
    · simp [WireType.signature, List.lookup_append, lookup_field, lookup_optional]
    · simp [WireType.mark, List.lookup_append, lookup_field, lookup_optional]
    · simp only [List.forall_mem_append, forall_mem_optional, WireType.possible]
      simp

theorem dumped_signedRequest {r : SignedRequest} {kvs : List (String × Json)}
    (h : Model.dump r = .ok kvs) :
    Dumped .signedRequest r kvs := by
  cases hts : serTs r.timestamp with
  | error e => simp [Model.dump, hts, bind, Except.bind] at h
  | ok timestamp =>
    simp only [Model.dump, hts, bind, Except.bind, pure, Except.pure, Except.ok.injEq,
      SignedRequest.fields] at h
    subst h
    refine ⟨?_, ?_, ?_⟩
    · simp [WireType.signature, lookup_field, lookup_optional]
    · simp [WireType.mark, lookup_field]
    · simp only [List.forall_mem_append, forall_mem_optional, WireType.possible]
      simp

theorem dumped_revocationNotice {n : RevocationNotice} {kvs : List (String × Json)}
    (h : Model.dump n = .ok kvs) :
    Dumped .revocationNotice n kvs := by
  cases hissued : serTs n.issuedAt with
  | error e => simp [Model.dump, hissued, bind, Except.bind] at h
  | ok issuedAt =>
  cases hexpires : optionalTs "expires_at" n.expiresAt with
  | error e => simp [Model.dump, hissued, hexpires, bind, Except.bind] at h
  | ok expiresAt =>
    obtain ⟨_, rfl⟩ := optionalTs_ok hexpires
    simp only [Model.dump, hissued, hexpires, bind, Except.bind, pure, Except.pure, Except.ok.injEq]
      at h
    subst h
    refine ⟨?_, ?_, ?_⟩
    · simp [WireType.signature, List.lookup_append, lookup_field, lookup_optional]
    · simp [WireType.mark, lookup_field]
    · simp only [List.forall_mem_append, forall_mem_optional, WireType.possible]
      simp

theorem dumped_introduceResponse {r : IntroduceResponse} {kvs : List (String × Json)}
    (h : Model.dump r = .ok kvs) :
    Dumped .introduceResponse r kvs := by
  cases hts : optionalTs "accepted_until" r.acceptedUntil with
  | error e => simp [Model.dump, hts, bind, Except.bind] at h
  | ok acceptedUntil =>
    obtain ⟨_, rfl⟩ := optionalTs_ok hts
    simp only [Model.dump, hts, bind, Except.bind, pure, Except.pure, Except.ok.injEq] at h
    subst h
    refine ⟨?_, ?_, ?_⟩
    · simp [WireType.signature, List.lookup_append, lookup_field, lookup_optional]
    · simp [WireType.mark]
    · simp only [List.forall_mem_append, forall_mem_optional, WireType.possible]
      simp

theorem dumped_membersResponse {r : MembersResponse} {kvs : List (String × Json)}
    (h : Model.dump r = .ok kvs) :
    Dumped .membersResponse r kvs := by
  obtain rfl := Except.ok.inj h
  refine ⟨?_, ?_, ?_⟩
  · simp [WireType.signature, List.lookup_append, lookup_field, lookup_optional]
  · simp [WireType.mark, List.lookup_append, lookup_field, lookup_optional]
  · simp only [List.forall_mem_append, forall_mem_optional, WireType.possible]
    simp

theorem dumped_revocationsResponse {r : RevocationsResponse} {kvs : List (String × Json)}
    (h : Model.dump r = .ok kvs) : Dumped .revocationsResponse r kvs := by
  rw [RevocationsResponse.dump_eq] at h
  cases hdocs : r.notices.mapM Model.dump with
  | error e =>
    rw [hdocs] at h
    cases h
  | ok docs =>
    rw [hdocs] at h
    obtain rfl := Except.ok.inj h
    refine ⟨?_, ?_, ?_⟩
    · simp [WireType.signature, List.lookup_append, lookup_field, lookup_optional]
    · simp [WireType.mark, List.lookup_append, lookup_field, lookup_optional]
    · simp only [List.forall_mem_append, forall_mem_optional, WireType.possible]
      simp

theorem dumped_operationResponse {r : OperationResponse} {kvs : List (String × Json)}
    (h : Model.dump r = .ok kvs) :
    Dumped .operationResponse r kvs := by
  obtain rfl := Except.ok.inj h
  refine ⟨?_, ?_, ?_⟩
  · simp [WireType.signature, lookup_field, lookup_optional]
  · simp [WireType.mark]
  · simp only [List.forall_mem_append, forall_mem_optional, WireType.possible]
    simp

theorem dumped_operationItem {i : OperationItem} {kvs : List (String × Json)}
    (h : Model.dump i = .ok kvs) :
    Dumped .operationItem i kvs := by
  obtain rfl := Except.ok.inj h
  refine ⟨?_, ?_, ?_⟩
  · simp [WireType.signature, OperationItem.fields, lookup_field, List.lookup_append,
      lookup_optional]
  · simp [WireType.mark, OperationItem.fields]
  · simp only [OperationItem.fields, List.forall_mem_append, forall_mem_optional, WireType.possible]
    simp

theorem WireType.dumped {t : WireType} {m : t.Value} {kvs : List (String × Json)}
    (h : Model.dump m = .ok kvs) :
    Dumped t m kvs := by
  cases t with
  | manifest => exact dumped_manifest h
  | signedRequest => exact dumped_signedRequest h
  | revocationNotice => exact dumped_revocationNotice h
  | introduceResponse => exact dumped_introduceResponse h
  | membersResponse => exact dumped_membersResponse h
  | revocationsResponse => exact dumped_revocationsResponse h
  | operationResponse => exact dumped_operationResponse h
  | operationItem => exact dumped_operationItem h

theorem readObject_some {α : Type} {body : List (String × Json) → Option α} {doc : Json} {a : α}
    (h : readObject body doc = some a) : ∃ kvs, doc = .obj kvs ∧ body kvs = some a := by
  cases doc with
  | obj kvs => exact ⟨kvs, rfl, h⟩
  | _ => cases h

theorem forbidding_some {α : Type} {declared : List String} {body : List (String × Json) → Option α}
    {kvs : List (String × Json)} {a : α} (h : forbidding declared body kvs = some a) :
    body kvs = some a := by
  rw [forbidding] at h
  split_ifs at h
  exact h

theorem WireType.read_signature {V : Scalars} {t : WireType} {doc : Json} {m : t.Value}
    (h : Validated.read V doc = some m) :
    ∃ kvs, doc = .obj kvs ∧ defaulting kvs "signature" (nullable Signature.read) none =
      some (t.signature m) := by
  -- the signature is the last field a model reads
  cases t with
  | manifest =>
    obtain ⟨kvs, rfl, h⟩ := readObject_some h
    iterate 17 obtain ⟨_, _, h⟩ := Option.bind_eq_some_iff.mp h
    obtain ⟨_, hlast, h⟩ := Option.bind_eq_some_iff.mp h
    cases h
    exact ⟨kvs, rfl, hlast⟩
  | signedRequest =>
    obtain ⟨kvs, rfl, h⟩ := readObject_some h
    iterate 10 obtain ⟨_, _, h⟩ := Option.bind_eq_some_iff.mp h
    obtain ⟨_, hlast, h⟩ := Option.bind_eq_some_iff.mp h
    cases h
    exact ⟨kvs, rfl, hlast⟩
  | revocationNotice =>
    obtain ⟨kvs, rfl, h⟩ := readObject_some h
    iterate 6 obtain ⟨_, _, h⟩ := Option.bind_eq_some_iff.mp h
    obtain ⟨_, hlast, h⟩ := Option.bind_eq_some_iff.mp h
    cases h
    exact ⟨kvs, rfl, hlast⟩
  | introduceResponse =>
    obtain ⟨kvs, rfl, h⟩ := readObject_some h
    iterate 7 obtain ⟨_, _, h⟩ := Option.bind_eq_some_iff.mp h
    obtain ⟨_, hlast, h⟩ := Option.bind_eq_some_iff.mp h
    cases h
    exact ⟨kvs, rfl, hlast⟩
  | membersResponse =>
    obtain ⟨kvs, rfl, h⟩ := readObject_some h
    iterate 3 obtain ⟨_, _, h⟩ := Option.bind_eq_some_iff.mp h
    obtain ⟨_, hlast, h⟩ := Option.bind_eq_some_iff.mp h
    cases h
    exact ⟨kvs, rfl, hlast⟩
  | revocationsResponse =>
    obtain ⟨kvs, rfl, h⟩ := readObject_some h
    iterate 3 obtain ⟨_, _, h⟩ := Option.bind_eq_some_iff.mp h
    obtain ⟨_, hlast, h⟩ := Option.bind_eq_some_iff.mp h
    cases h
    exact ⟨kvs, rfl, hlast⟩
  | operationResponse =>
    obtain ⟨kvs, rfl, h⟩ := readObject_some h
    replace h := @forbidding_some _ _ (OperationResponse.readFields V) kvs m h
    iterate 5 obtain ⟨_, _, h⟩ := Option.bind_eq_some_iff.mp h
    obtain ⟨_, hlast, h⟩ := Option.bind_eq_some_iff.mp h
    cases h
    exact ⟨kvs, rfl, hlast⟩
  | operationItem =>
    obtain ⟨kvs, rfl, h⟩ := readObject_some h
    replace h := @forbidding_some _ _ OperationItem.readFields kvs m h
    iterate 2 obtain ⟨_, _, h⟩ := Option.bind_eq_some_iff.mp h
    obtain ⟨_, hlast, h⟩ := Option.bind_eq_some_iff.mp h
    cases h
    exact ⟨kvs, rfl, hlast⟩

/-- The signature text a document carries. -/
def Json.Carries (doc : Json) (sig : String) : Prop :=
  ∃ signature, doc.subscript "signature" = .ok signature ∧
    signature.subscript "sig" = .ok (.str sig)

theorem Signature.read_sig {j : Json} {s : Signature} (h : Signature.read j = some s) :
    j.subscript "sig" = .ok (.str s.sig) := by
  obtain ⟨kvs, rfl, h⟩ := readObject_some h
  iterate 2 obtain ⟨_, _, h⟩ := Option.bind_eq_some_iff.mp h
  obtain ⟨sig, hsig, h⟩ := Option.bind_eq_some_iff.mp h
  obtain rfl := Option.some.inj h
  obtain ⟨j, hj, hread⟩ := Option.bind_eq_some_iff.mp hsig
  cases j with
  | str text =>
    obtain rfl := Option.some.inj hread
    simp only [Json.subscript, hj]
  | _ => cases hread

theorem WireType.signature_of_carries {V : Scalars} {t : WireType} {doc : Json} {m : t.Value}
    {sig : String} (h : Validated.read V doc = some m) (hcarries : doc.Carries sig) :
    ∃ s, t.signature m = some s ∧ s.sig = sig := by
  obtain ⟨kvs, rfl, hsignature⟩ := WireType.read_signature h
  obtain ⟨j, hj, hsig⟩ := hcarries
  have hlookup : kvs.lookup "signature" = some j := by
    cases hl : kvs.lookup "signature" with
    | none => simp [Json.subscript, hl] at hj
    | some j' => simpa [Json.subscript, hl] using hj
  rw [defaulting, hlookup] at hsignature
  have hnull : j ≠ .null := by
    rintro rfl
    cases hsig
  have hread : (Signature.read j).map some = some (t.signature m) := by
    cases j with
    | null => exact absurd rfl hnull
    | _ => exact hsignature
  obtain ⟨s, hs, hsome⟩ := Option.map_eq_some_iff.mp hread
  refine ⟨s, hsome.symm, ?_⟩
  have htext := (Signature.read_sig hs).symm.trans hsig
  simpa using htext

def bodyBytes {M : Type} [Model M] (P : Platform) (m : M) : Except Exc Bytes := do
  let payload ← Model.dump m
  canonicalBytes P (.obj (payload.filter fun kv => kv.1 ≠ "signature"))

section Bytes

variable {P : Platform}

theorem verifyModel_signature {t : WireType} {m : t.Value} {s : Signature} {jwk : JWK}
    (h : t.signature m = some s) :
    verifyModel P m jwk = (bodyBytes P m >>= fun data => verifyBytes P jwk s.sig data) := by
  cases hdump : Model.dump m with
  | error e => simp only [verifyModel, bodyBytes, hdump, bind, Except.bind]
  | ok kvs =>
    have hlookup := (WireType.dumped hdump).signature
    rw [h] at hlookup
    simp only [verifyModel, bodyBytes, hdump, bind, Except.bind, verifyDict, hlookup,
      Option.map_some]
    rfl

theorem lookup_body {kvs : List (String × Json)} {k : String} (h : k ≠ "signature") :
    (kvs.filter fun kv => kv.1 ≠ "signature").lookup k = kvs.lookup k := by
  have hlookup := lookup_filter_names ["signature"] kvs k
  simp only [List.mem_singleton, h, ↓reduceIte] at hlookup
  exact hlookup

theorem bodyBytes_apart (hinj : ∀ a b x, P.rfc8785Dumps a = .ok x →
    P.rfc8785Dumps b = .ok x → a.Same b)
    {t t' : WireType} (hne : t ≠ t') {m : t.Value} {m' : t'.Value} {data : Bytes}
    (h : bodyBytes P m = .ok data) (h' : bodyBytes P m' = .ok data) : False := by
  have hdumped : ∀ {t : WireType} {m : t.Value}, bodyBytes P m = .ok data → ∃ kvs, Dumped t m kvs ∧
      P.rfc8785Dumps (.obj (kvs.filter fun kv => kv.1 ≠ "signature")) = .ok data := by
    intro t m h
    cases hdump : Model.dump m with
    | error e => simp [bodyBytes, hdump, bind, Except.bind] at h
    | ok kvs =>
      rw [bodyBytes, hdump] at h
      exact ⟨kvs, WireType.dumped hdump, h⟩
  have hmark : ∀ {t t' : WireType} {m : t.Value} {m' : t'.Value} {kvs kvs' : List (String × Json)},
      Dumped t m kvs → Dumped t' m' kvs' → FieldsSame (kvs.filter fun kv => kv.1 ≠ "signature")
        (kvs'.filter fun kv => kv.1 ≠ "signature") → t.mark ∈ t'.possible := by
    intro t t' m m' kvs kvs' hm hm' hsame
    have hk : t.mark ≠ "signature" := by cases t <;> decide
    have hrel := hsame t.mark
    rw [lookup_body hk, lookup_body hk] at hrel
    cases hl : kvs'.lookup t.mark with
    | none =>
      rw [hl] at hrel
      cases hx : kvs.lookup t.mark with
      | none => exact absurd hx hm.marked
      | some x =>
        rw [hx] at hrel
        cases hrel
    | some j =>
      obtain ⟨before, after, rfl, _⟩ := List.lookup_eq_some_iff.mp hl
      exact (hm'.possible (t.mark, j) (by simp)).resolve_left hk
  obtain ⟨kvs, hm, hdata⟩ := hdumped h
  obtain ⟨kvs', hm', hdata'⟩ := hdumped h'
  have hsame := FieldsSame.of_same (hinj _ _ _ hdata hdata')
  have hsame' := FieldsSame.of_same (hinj _ _ _ hdata' hdata)
  rcases WireType.apart t t' hne with hout | hout
  · exact hout (hmark hm hm' hsame)
  · exact hout (hmark hm' hm hsame')

theorem lookup_setMember (k : String) (v : Json) (kvs : List (String × Json)) :
    (setMember k v kvs).lookup k = some v := by
  induction kvs with
  | nil => simp [setMember]
  | cons kv kvs ih =>
    obtain ⟨name, j⟩ := kv
    rw [setMember]
    by_cases hname : name = k
    · rw [if_pos hname, lookup_field, if_pos rfl]
    · rw [if_neg hname, lookup_field, if_neg (Ne.symm hname), ih]

theorem signModel_signature {V : Scalars} {t : WireType} {m signed : t.Value}
    {key : Ed25519PrivateKey} {keyId : String} (h : signModel P V m key keyId = .ok signed) :
    ∃ data s, bodyBytes P m = .ok data ∧ t.signature signed = some s ∧
      s.sig = signBytes key data := by
  cases hdump : Model.dump m with
  | error e => simp [signModel, hdump, bind, Except.bind] at h
  | ok kvs =>
  cases hdata : canonicalBytes P (.obj (kvs.filter fun kv => kv.1 ≠ "signature")) with
  | error e =>
    simp only [signModel, hdump, signDict, hdata, bind, Except.bind, reduceCtorEq] at h
  | ok data =>
    let made : Signature := { keyId, sig := signBytes key data }
    have hread : (Validated.read V (.obj (setMember "signature" made.toJson kvs))).elim
        (.error .validationError) .ok = (.ok signed : Except Exc t.Value) := by
      simpa only [signModel, hdump, signDict, hdata, bind, Except.bind, pure, Except.pure] using h
    cases hsigned : (Validated.read V (.obj (setMember "signature" made.toJson kvs)) :
      Option t.Value) with
    | none =>
      rw [hsigned] at hread
      cases hread
    | some m' =>
      rw [hsigned] at hread
      obtain rfl := Except.ok.inj hread
      have hcarries : (Json.obj (setMember "signature" made.toJson kvs)).Carries made.sig := by
        refine ⟨made.toJson, ?_, rfl⟩
        simp only [Json.subscript, lookup_setMember]
      obtain ⟨s, hs, hsig⟩ := WireType.signature_of_carries hsigned hcarries
      refine ⟨data, s, ?_, hs, hsig⟩
      simp only [bodyBytes, hdump, hdata, bind, Except.bind]

end Bytes

/-- A signature made for one type never verifies for another: the answer is `False`,
or the error met on the way to the bytes. -/
theorem signatures_separate (P : Platform) (V : Scalars)
    (hinj : ∀ a b x, P.rfc8785Dumps a = .ok x → P.rfc8785Dumps b = .ok x → a.Same b)
    (key : Ed25519PrivateKey) (hkey : key.Ideal P) (keyId : String) (t t' : WireType) (hne : t ≠ t')
    (m signed : t.Value) (hsigned : signModel P V m key keyId = .ok signed) (doc : Json)
    (m' : t'.Value) (hread : Validated.read V doc = some m')
    (hcarries : ∃ s, t.signature signed = some s ∧ doc.Carries s.sig) :
    verifyModel P m' (publicJwk key) = (bodyBytes P m').map fun _ => false := by
  obtain ⟨data, s, hdata, hs, hsig⟩ := signModel_signature hsigned
  obtain ⟨s', hs', hdoc⟩ := hcarries
  obtain rfl := Option.some.inj (hs.symm.trans hs')
  obtain ⟨s', hs', hsig'⟩ := WireType.signature_of_carries hread hdoc
  rw [verifyModel_signature hs', hsig', hsig]
  cases hbody : bodyBytes P m' with
  | error e => rfl
  | ok data' =>
    obtain ⟨b, hverify, hb⟩ := verifyBytes_signBytes hkey data data'
    cases b with
    | false => exact hverify
    | true =>
      obtain rfl := hb.mp rfl
      exact (bodyBytes_apart hinj hne hdata hbody).elim

def borrowed : Signature := { keyId := "k1", sig := signBytes alphaSigner fadingBytes }

def itemOf (n : Int) : OperationItem :=
  { payload := Keyed.ofList [("n", .int n)], signature := some borrowed }

def borrowingDoc (n : Int) :
    Json := .obj [("payload", .obj [("n", .int n)]), ("signature", borrowed.toJson)]

theorem fadingManifest_body {data : Bytes}
    (h : bodyBytes signingPlatform fadingManifest = .ok data) :
    data = fadingBytes := by
  have hbody : bodyBytes signingPlatform fadingManifest =
      (Model.dump fadingManifest >>= fun kvs => dictDumps (.obj kvs)) := rfl
  rw [hbody] at h
  rw [fadingBytes, h]
  rfl

theorem fadingManifest_signed : ∃ signed : Manifest,
    signModel signingPlatform strictScalars fadingManifest alphaSigner "k1" = .ok signed ∧
      ∃ s, signed.signature = some s ∧ ∀ n, (borrowingDoc n).Carries s.sig := by
  have hdump : Model.dump fadingManifest = .ok _ := rfl
  obtain ⟨signed, _, hsigned, _⟩ := (settles_manifest strictScalars_faithful).verifies
    (fun _ _ => dictDumps_congr) (fun _ => dictDumps_safe) alphaSigner_ideal "k1" hdump
    (by decide +kernel)
  obtain ⟨data, s, hdata, hs, hsig⟩ := @signModel_signature _ _ .manifest _ _ _ _ hsigned
  obtain rfl := fadingManifest_body hdata
  exact ⟨signed, hsigned, s, hs, fun n => ⟨borrowed.toJson, rfl, hsig ▸ rfl⟩⟩

theorem borrowingDoc_read (n : Int) :
    Validated.read strictScalars (borrowingDoc n) = some (itemOf n) := rfl

/-- On an item with an integer of 53 bits the answer is an exception. -/
theorem borrowed_signature_raises : ∃ signed : Manifest, ∃ item : OperationItem,
    signModel signingPlatform strictScalars fadingManifest alphaSigner "k1" = .ok signed ∧
      Validated.read strictScalars (borrowingDoc 9007199254740992) = some item ∧
      (∃ s, signed.signature = some s ∧ (borrowingDoc 9007199254740992).Carries s.sig) ∧
      verifyModel signingPlatform item (publicJwk alphaSigner) ≠ .ok false := by
  obtain ⟨signed, hsigned, s, hs, hcarries⟩ := fadingManifest_signed
  refine ⟨signed, itemOf 9007199254740992, hsigned, borrowingDoc_read _, ⟨s, hs, hcarries _⟩, ?_⟩
  have hbody : bodyBytes signingPlatform (itemOf 9007199254740992) =
      .error .canonicalizationError := rfl
  have hverify := @verifyModel_signature signingPlatform .operationItem
    (itemOf 9007199254740992) borrowed (publicJwk alphaSigner) rfl
  rw [hbody] at hverify
  intro h
  cases hverify.symm.trans h

theorem borrowed_signature_refused :
    verifyModel signingPlatform (itemOf 1) (publicJwk alphaSigner) = .ok false := by
  obtain ⟨signed, hsigned, s, hs, hcarries⟩ := fadingManifest_signed
  have hseparate := signatures_separate signingPlatform strictScalars
    (fun _ _ _ => dictDumps_inj) alphaSigner alphaSigner_ideal "k1" .manifest .operationItem
    (by decide) fadingManifest signed hsigned (borrowingDoc 1) (itemOf 1) (borrowingDoc_read 1)
    ⟨s, hs, hcarries 1⟩
  have hbody : ∃ data, bodyBytes signingPlatform (itemOf 1) = .ok data := ⟨_, rfl⟩
  obtain ⟨data, hdata⟩ := hbody
  exact hseparate.trans (congrArg (Except.map fun _ => false) hdata)

end Federlet
