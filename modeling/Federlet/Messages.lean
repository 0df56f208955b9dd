import Federlet.Wire

/-! The signed message types and the way of a message: signed, dumped, sent as JSON,
parsed with the same model and verified. -/

namespace Federlet

inductive WireType where
  | manifest
  | signedRequest
  | revocationNotice
  | introduceResponse
  | membersResponse
  | revocationsResponse
  | operationResponse
  | operationItem
  deriving DecidableEq

namespace WireType

abbrev Value : WireType → Type
  | .manifest => Manifest
  | .signedRequest => SignedRequest
  | .revocationNotice => RevocationNotice
  | .introduceResponse => IntroduceResponse
  | .membersResponse => MembersResponse
  | .revocationsResponse => RevocationsResponse
  | .operationResponse => OperationResponse
  | .operationItem => OperationItem

instance model : (t : WireType) → Model t.Value
  | .manifest => inferInstanceAs (Model Manifest)
  | .signedRequest => inferInstanceAs (Model SignedRequest)
  | .revocationNotice => inferInstanceAs (Model RevocationNotice)
  | .introduceResponse => inferInstanceAs (Model IntroduceResponse)
  | .membersResponse => inferInstanceAs (Model MembersResponse)
  | .revocationsResponse => inferInstanceAs (Model RevocationsResponse)
  | .operationResponse => inferInstanceAs (Model OperationResponse)
  | .operationItem => inferInstanceAs (Model OperationItem)

instance validated : (t : WireType) → Validated t.Value
  | .manifest => inferInstanceAs (Validated Manifest)
  | .signedRequest => inferInstanceAs (Validated SignedRequest)
  | .revocationNotice => inferInstanceAs (Validated RevocationNotice)
  | .introduceResponse => inferInstanceAs (Validated IntroduceResponse)
  | .membersResponse => inferInstanceAs (Validated MembersResponse)
  | .revocationsResponse => inferInstanceAs (Validated RevocationsResponse)
  | .operationResponse => inferInstanceAs (Validated OperationResponse)
  | .operationItem => inferInstanceAs (Validated OperationItem)

def stamps : (t : WireType) → t.Value → List DateTime
  | .manifest, m => m.issuedAt.toList ++ m.expiresAt.toList
  | .signedRequest, r => [r.timestamp]
  | .revocationNotice, n => n.issuedAt :: n.expiresAt.toList
  | .introduceResponse, r => r.acceptedUntil.toList
  | .revocationsResponse, r => r.notices.flatMap fun n => n.issuedAt :: n.expiresAt.toList
  | .membersResponse, _ => []
  | .operationResponse, _ => []
  | .operationItem, _ => []

end WireType

section Messages

variable {M : Type} [Model M] [Validated M]

def signModel (P : Platform) (V : Scalars) (model : M) (key : Ed25519PrivateKey) (keyId : String) :
    Except Exc M := do
  let payload ← Model.dump model
  let data ← signDict P payload key keyId
  (Validated.read V (.obj data)).elim (.error .validationError) .ok

/-- Dumped without `None` fields, sent as JSON and parsed with the same model. -/
def overWire (V : Scalars) (model : M) : Except Exc M := do
  let payload ← Model.dump model
  (Validated.read V (.obj payload)).elim (.error .validationError) .ok

omit [Validated M] in
theorem DumpsAs.body {m : M} {fields : List (String × Json)} {signature : Option Signature}
    (h : DumpsAs m fields signature) :
    (fields ++ optional "signature" Signature.toJson signature).filter
    (fun kv => kv.1 ≠ "signature") = fields := by
  rw [List.filter_append, List.filter_eq_self.mpr (by simpa using h.unsigned),
    List.filter_eq_nil_iff.mpr, List.append_nil]
  simp only [forall_mem_optional]
  simp

omit [Validated M] in
theorem DumpsAs.unique {m : M} {fields fields' : List (String × Json)}
    {signature signature' : Option Signature} (h : DumpsAs m fields signature)
    (h' : DumpsAs m fields' signature') : fields = fields' := by
  have hdumps := Except.ok.inj (h.dump.symm.trans h'.dump)
  have hboth := congrArg (List.filter fun kv => kv.1 ≠ "signature") hdumps
  rwa [h.body, h'.body] at hboth

theorem Settles.verifies {P : Platform} {V : Scalars} (hM : Settles M V)
    (hcanon : ∀ a b, a.Same b → P.rfc8785Dumps a = P.rfc8785Dumps b)
    (hsafe : ∀ a, a.safe = true → ∃ data, P.rfc8785Dumps a = .ok data) {key : Ed25519PrivateKey}
    (hkey : key.Ideal P) (keyId : String) {m : M} {kvs : List (String × Json)}
    (hdump : Model.dump m = .ok kvs) (hints : Json.safeFields kvs = true) :
    ∃ signed received, signModel P V m key keyId = .ok signed ∧ overWire V signed = .ok received ∧
      verifyModel P received (publicJwk key) = .ok true := by
  obtain ⟨fields, signature, hm, hsettles⟩ := hM m kvs hdump
  obtain rfl := Except.ok.inj (hdump.symm.trans hm.dump)
  rw [Json.safeFields_append, Bool.and_eq_true] at hints
  obtain ⟨data, hdata⟩ := hsafe (.obj fields) hints.1
  let made : Signature := { keyId, sig := signBytes key data }
  obtain ⟨signed, fields₁, hread₁, hm₁, hsame₁⟩ := hsettles (some made)
  obtain ⟨fields₁', signature₁, hm₁', hsettles₁⟩ := hM signed _ hm₁.dump
  obtain rfl := hm₁'.unique hm₁
  obtain ⟨received, fields₂, hread₂, hm₂, hsame₂⟩ := hsettles₁ (some made)
  have hsigned : signDict P (fields ++ optional "signature" Signature.toJson signature) key keyId =
      .ok (fields ++ optional "signature" Signature.toJson (some made)) := by
    simp only [signDict, hm.body, canonicalBytes, hdata, setMember_signature hm.unsigned]
    rfl
  have hbytes : canonicalBytes P (.obj fields₂) = .ok data := by
    rw [canonicalBytes, hcanon _ _ hsame₂, hcanon _ _ hsame₁, hdata]
  obtain ⟨b, hverify, hb⟩ := verifyBytes_signBytes hkey data data
  refine ⟨signed, received, ?_, ?_, ?_⟩
  · simp only [signModel, hm.dump, bind, Except.bind, hsigned, hread₁, Option.elim_some]
  · simp only [overWire, hm₁.dump, bind, Except.bind, hread₂, Option.elim_some]
  · simp only [verifyModel, hm₂.dump, bind, Except.bind, verifyDict_signed hm₂.unsigned, hbytes]
    rw [hverify, hb.mpr rfl]

end Messages

theorem WireType.settles {V : Scalars} (hV : V.Faithful) (t : WireType) : Settles t.Value V := by
  cases t with
  | manifest => exact settles_manifest hV
  | signedRequest => exact settles_signedRequest hV
  | revocationNotice => exact settles_revocationNotice hV
  | introduceResponse => exact settles_introduceResponse hV
  | membersResponse => exact settles_membersResponse hV
  | revocationsResponse => exact settles_revocationsResponse hV
  | operationResponse => exact settles_operationResponse
  | operationItem => exact settles_operationItem

theorem Manifest.dump_ok {m : Manifest}
    (h : ∀ d ∈ m.issuedAt.toList ++ m.expiresAt.toList, d.utcRepresentable = true) :
    ∃ kvs, Model.dump m = .ok kvs := by
  simp only [List.forall_mem_append, Option.mem_toList] at h
  have hissued := optionalTs_stampJson "issued_at" h.1
  have hexpires := optionalTs_stampJson "expires_at" h.2
  simp only [Model.dump, hissued, hexpires, bind, Except.bind, pure, Except.pure]
  exact ⟨_, rfl⟩

theorem SignedRequest.dump_ok {r : SignedRequest} (h : r.timestamp.utcRepresentable = true) :
    ∃ kvs, Model.dump r = .ok kvs := by
  simp only [Model.dump, serTs_stampJson h, bind, Except.bind, pure, Except.pure]
  exact ⟨_, rfl⟩

theorem RevocationNotice.dump_ok {n : RevocationNotice}
    (h : ∀ d ∈ n.issuedAt :: n.expiresAt.toList, d.utcRepresentable = true) :
    ∃ kvs, Model.dump n = .ok kvs := by
  obtain ⟨hissued, hexpires⟩ := List.forall_mem_cons.mp h
  have hts := serTs_stampJson hissued
  have hopt := optionalTs_stampJson "expires_at" (t := n.expiresAt) (by simpa using hexpires)
  simp only [Model.dump, hts, hopt, bind, Except.bind, pure, Except.pure]
  exact ⟨_, rfl⟩

theorem IntroduceResponse.dump_ok {r : IntroduceResponse}
    (h : ∀ d ∈ r.acceptedUntil.toList, d.utcRepresentable = true) :
    ∃ kvs, Model.dump r = .ok kvs := by
  have hopt := optionalTs_stampJson "accepted_until" (t := r.acceptedUntil) (by simpa using h)
  simp only [Model.dump, hopt, bind, Except.bind, pure, Except.pure]
  exact ⟨_, rfl⟩

theorem notices_dump_ok {notices : List RevocationNotice}
    (h : ∀ d ∈ notices.flatMap fun n => n.issuedAt :: n.expiresAt.toList,
      d.utcRepresentable = true) :
    ∃ docs, notices.mapM Model.dump = .ok docs := by
  induction notices with
  | nil => exact ⟨[], rfl⟩
  | cons n notices ih =>
    rw [List.flatMap_cons, List.forall_mem_append] at h
    obtain ⟨doc, hdoc⟩ := RevocationNotice.dump_ok h.1
    obtain ⟨docs, hdocs⟩ := ih h.2
    rw [List.mapM_cons, hdoc, hdocs]
    exact ⟨doc :: docs, rfl⟩

theorem RevocationsResponse.dump_ok {r : RevocationsResponse}
    (h : ∀ d ∈ r.notices.flatMap fun n => n.issuedAt :: n.expiresAt.toList,
      d.utcRepresentable = true) :
    ∃ kvs, Model.dump r = .ok kvs := by
  obtain ⟨docs, hdocs⟩ := notices_dump_ok h
  rw [RevocationsResponse.dump_eq, hdocs]
  exact ⟨_, rfl⟩

theorem WireType.dump_ok {t : WireType} {m : t.Value}
    (h : ∀ d ∈ t.stamps m, d.utcRepresentable = true) :
    ∃ kvs, Model.dump m = .ok kvs := by
  cases t with
  | manifest => exact Manifest.dump_ok h
  | signedRequest => exact SignedRequest.dump_ok (h _ List.mem_cons_self)
  | revocationNotice => exact RevocationNotice.dump_ok h
  | introduceResponse => exact IntroduceResponse.dump_ok h
  | revocationsResponse => exact RevocationsResponse.dump_ok h
  | membersResponse => exact ⟨_, rfl⟩
  | operationResponse => exact ⟨_, rfl⟩
  | operationItem => exact ⟨_, rfl⟩

/-- What a node signs every peer can verify after the wire. -/
theorem signed_verifies (P : Platform) (V : Scalars) (hV : V.Faithful)
    (hcanon : ∀ a b, a.Same b → P.rfc8785Dumps a = P.rfc8785Dumps b)
    (hsafe : ∀ a, a.safe = true → ∃ data, P.rfc8785Dumps a = .ok data) (key : Ed25519PrivateKey)
    (hkey : key.Ideal P) (keyId : String) (t : WireType) (m : t.Value)
    (hstamps : ∀ d ∈ t.stamps m, d.utcRepresentable = true)
    (hints : ∀ kvs, Model.dump m = .ok kvs → Json.safeFields kvs = true) :
    ∃ signed received, signModel P V m key keyId = .ok signed ∧ overWire V signed = .ok received ∧
      verifyModel P received (publicJwk key) = .ok true := by
  obtain ⟨kvs, hdump⟩ := WireType.dump_ok hstamps
  exact (t.settles hV).verifies hcanon hsafe hkey keyId hdump (hints kvs hdump)

def fadingManifest : Manifest :=
  { alphaManifest with expiresAt := some (.utc 63905500800250000 (by decide)), signature := none }

def bytesOf (r : Except Exc Bytes) : Bytes := r.toOption.getD []

def fadingBytes : Bytes :=
  bytesOf (Model.dump fadingManifest >>= fun kvs => dictDumps (.obj kvs))

def fadingSignature : Bytes :=
  bytesOf
    (b64uDecode
      "jInVC4h4-uf-v3Vf7g0-vlL8ku8dCA0SmWNDxrMKDOb3n5Jw6VliRO3UxpGcuy6CrzPenNiEyl2huGklt8X_CA")

theorem fadingSignature_length : fadingSignature.length = 64 := by decide +kernel

/-- A stand-in for the signatures over other bytes. -/
def standIn (data : Bytes) : Bytes := List.replicate 65 0 ++ data

theorem standIn_inj {data data' : Bytes} : standIn data = standIn data' ↔ data = data' :=
  List.append_right_inj _

theorem standIn_ne (data : Bytes) : standIn data ≠ fadingSignature := by
  intro h
  have hlength := congrArg List.length h
  simp only [standIn, fadingSignature_length, List.length_append, List.length_replicate] at hlength
  omega

def alphaSigner : Ed25519PrivateKey where
  publicBytes := bytesOf (publicKeyFromJwk alphaKey)
  length_eq := by decide +kernel
  sign data := if data = fadingBytes then fadingSignature else standIn data

def signingPlatform : Platform :=
  { exchange getMembersRequest with
    rfc8785Dumps := dictDumps
    ed25519Verify := fun key sig data => key == alphaSigner.publicBytes &&
      sig == alphaSigner.sign data }

theorem alphaSigner_ideal : alphaSigner.Ideal signingPlatform := by
  intro data data'
  simp only [signingPlatform, Bool.and_eq_true, beq_iff_eq, true_and, alphaSigner]
  by_cases h : data = fadingBytes <;> by_cases h' : data' = fadingBytes
  · simp [h, h']
  · simp [h, h', (standIn_ne data').symm, Ne.symm h']
  · simp [h, h', standIn_ne data]
  · simp [h, h', standIn_inj]

theorem fadingManifest_verifies :
    ∃ signed received, signModel signingPlatform strictScalars fadingManifest alphaSigner
    "k1" = .ok signed ∧ overWire strictScalars signed = .ok received ∧
      verifyModel signingPlatform received (publicJwk alphaSigner) = .ok true := by
  have hints : ∀ kvs, Model.dump fadingManifest = .ok kvs → Json.safeFields kvs = true := by
    intro kvs h
    obtain rfl := Except.ok.inj h
    decide +kernel
  exact signed_verifies signingPlatform strictScalars strictScalars_faithful
    (fun _ _ => dictDumps_congr) (fun _ => dictDumps_safe) alphaSigner alphaSigner_ideal
    "k1" .manifest fadingManifest (by decide) hints

end Federlet
