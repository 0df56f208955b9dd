import Federlet.Relays

/-! Operation items. A node signs the items it owns; aggregations hand them on inside
responses of their own. -/

namespace Federlet

/-- A payload of the host: a mapping, or a model by what it dumps to. -/
inductive HostPayload where
  | mapping (payload : Dict Json)
  | model (dump : Except Exc (Dict Json))

def HostPayload.toDict : HostPayload → Except Exc (Dict Json)
  | .mapping payload => .ok payload
  | .model dump => dump

def buildOperationItem (payload : HostPayload) (provenance : Option PayloadProvenance) :
    Except Exc OperationItem := do
  let itemPayload ← payload.toDict
  return { payload := itemPayload, provenance }

def signOperationItem (P : Platform) (V : Scalars) (item : OperationItem) (key : Ed25519PrivateKey)
    (keyId : String) :
    Except Exc OperationItem := signModel P V item key keyId

def signOperationPayload (P : Platform) (V : Scalars) (payload : HostPayload)
    (key : Ed25519PrivateKey) (keyId : String) (provenance : Option PayloadProvenance) :
    Except Exc OperationItem := do
  let item ← buildOperationItem payload provenance
  signOperationItem P V item key keyId

def signOperationResponse (P : Platform) (V : Scalars) (response : OperationResponse)
    (key : Ed25519PrivateKey) (keyId : String) : Except Exc OperationResponse :=
  signModel P V response key keyId

def verifyOperationItem (P : Platform) (ownerManifest : Manifest) (item : OperationItem) :
    Except Exc Bool :=
  match item.signature with
  | none => .ok false
  | some signature =>
    if item.provenance.any (fun p => p.nodeId ≠ ownerManifest.nodeId) then .ok false
    else
      match findJwk ownerManifest.publicKeys signature.keyId with
      | none => .ok false
      | some jwk => verifyModel P item jwk

def OperationItem.origin (i : OperationItem) :
    Option String := i.provenance.map PayloadProvenance.nodeId

section Items

variable {P : Platform} {V : Scalars} {i i' : OperationItem}

theorem OperationItem.dumpsAs (i : OperationItem) : DumpsAs i i.fields i.signature := by
  refine ⟨rfl, ?_⟩
  simp only [OperationItem.fields, List.forall_mem_append, forall_mem_optional]
  simp

theorem PayloadProvenance.nodeId_of_toJson {p p' : PayloadProvenance} (h : p'.toJson = p.toJson) :
    p'.nodeId = p.nodeId := by
  have hfirst := (List.cons.inj (Json.obj.inj h)).1
  simpa using hfirst

theorem OperationItem.of_fields (h : i'.fields = i.fields) :
    i'.payload = i.payload ∧ i'.origin = i.origin := by
  obtain ⟨hpayload, hrest⟩ := List.cons.inj h
  have hentries : i'.payload.entries = i.payload.entries := by simpa using hpayload
  have hsame : i'.payload = i.payload := by
    rw [← Keyed.ofList_entries i'.payload, hentries, Keyed.ofList_entries]
  refine ⟨hsame, ?_⟩
  rw [OperationItem.origin, OperationItem.origin]
  cases hp : i.provenance <;> cases hp' : i'.provenance <;> simp [hp, hp', optional] at hrest
  · rfl
  · simp [PayloadProvenance.nodeId_of_toJson hrest]

theorem OperationItem.hop (h : overWire V i = .ok i') :
    i'.fields = i.fields ∧ i'.signature = i.signature := by
  obtain ⟨m, hread, hfields, hsignature⟩ := @OperationItem.read_fields V i i.signature
  obtain rfl := Option.some.inj ((i.dumpsAs.overWire_iff.mp h).symm.trans hread)
  exact ⟨hfields, hsignature⟩

theorem OperationItem.relayed (h : Relayed V i i') :
    i'.fields = i.fields ∧ i'.signature = i.signature := by
  induction h with
  | refl => exact ⟨rfl, rfl⟩
  | tail _ hhop ih =>
    obtain ⟨hfields, hsignature⟩ := OperationItem.hop hhop
    exact ⟨hfields.trans ih.1, hsignature.trans ih.2⟩

theorem verifyOperationItem_eq (owner : Manifest) (i : OperationItem) :
    verifyOperationItem P owner i = match i.signature with
    | none => .ok false
    | some signature =>
      if i.origin.any (fun n => n ≠ owner.nodeId) then .ok false
      else
        match findJwk owner.publicKeys signature.keyId with
        | none => .ok false
        | some jwk => documentVerdict P i.fields i.signature jwk := by
  have horigin : i.origin.any (fun n => n ≠ owner.nodeId) = i.provenance.any
      (fun p => p.nodeId ≠ owner.nodeId) := by
    rw [OperationItem.origin]
    cases i.provenance <;> rfl
  simp only [verifyOperationItem, horigin, i.dumpsAs.verifyModel_eq]

theorem verifyOperationItem_congr (hfields : i'.fields = i.fields)
    (hsignature : i'.signature = i.signature) (owner : Manifest) :
    verifyOperationItem P owner i' = verifyOperationItem P owner i := by
  have horigin := (OperationItem.of_fields hfields).2
  simp only [verifyOperationItem_eq, hfields, hsignature, horigin]

end Items

/-- An item is judged by its owner's manifest as it was before any aggregation. -/
theorem carried_item_verdict (P : Platform) (V : Scalars) (item item' : OperationItem)
    (h : Carried P V OperationResponse.items item item') :
    item'.payload = item.payload ∧ item'.origin = item.origin ∧
      ∀ owner : Manifest, verifyOperationItem P owner item' = verifyOperationItem P owner item := by
  obtain ⟨hfields, hsignature⟩ := OperationItem.relayed (h.relayed (items_travel V))
  obtain ⟨hpayload, horigin⟩ := OperationItem.of_fields hfields
  exact ⟨hpayload, horigin, verifyOperationItem_congr hfields hsignature⟩

def gammaAnswer : OperationResponse :=
  { operationId := "o1", sourceNodeId := "gamma", items := [itemOf 1] }

theorem gammaAnswer_carries :
    ∃ item', Carried signingPlatform strictScalars OperationResponse.items (itemOf 1) item' := by
  have hdump : Model.dump gammaAnswer = .ok _ := rfl
  obtain ⟨signed, received, hsigned, hsent, _⟩ := settles_operationResponse.verifies 
    (fun _ _ => dictDumps_congr) (fun _ => dictDumps_safe) alphaSigner_ideal "k1" hdump
    (by decide +kernel)
  have hfirst := ((items_travel strictScalars).signed hsigned).length_eq
  have hsecond := ((items_travel strictScalars).sent hsent).length_eq
  have hone : 0 < received.items.length := by
    rw [← hsecond, ← hfirst]
    decide
  exact ⟨_, .listed (.held (itemOf 1)) hsigned hsent rfl (List.getElem?_eq_getElem hone)⟩

theorem gammaAnswer_judged : ∃ item', verifyOperationItem signingPlatform alphaManifest item' =
    verifyOperationItem signingPlatform alphaManifest (itemOf 1) := by
  obtain ⟨item', hcarried⟩ := gammaAnswer_carries
  have hverdict :=
    (carried_item_verdict signingPlatform strictScalars (itemOf 1) item' hcarried).2.2
  exact ⟨item', hverdict alphaManifest⟩

section Signed

variable {P : Platform} {V : Scalars} {key : Ed25519PrivateKey} {keyId : String}
  {payload : HostPayload} {provenance : Option PayloadProvenance} {item : OperationItem}

theorem signOperationPayload_ok
    (h : signOperationPayload P V payload key keyId provenance = .ok item) :
    ∃ dict data, payload.toDict = .ok dict ∧ canonicalBytes P (.obj item.fields) = .ok data ∧
      item.payload = dict ∧ item.origin = provenance.map PayloadProvenance.nodeId ∧
      item.signature = some { keyId, sig := signBytes key data } := by
  cases hdict : payload.toDict with
  | error e => simp [signOperationPayload, buildOperationItem, hdict, bind, Except.bind] at h
  | ok dict =>
    let unsigned : OperationItem := { payload := dict, provenance }
    have hsigned : signModel P V unsigned key keyId = .ok item := by
      rw [signOperationPayload, buildOperationItem, hdict] at h
      exact h
    obtain ⟨data, hdata, hread⟩ := unsigned.dumpsAs.signModel_iff.mp hsigned
    obtain ⟨m, hread', hfields, hsignature⟩ :=
      @OperationItem.read_fields V unsigned (some { keyId, sig := signBytes key data })
    obtain rfl := Option.some.inj (hread.symm.trans hread')
    obtain ⟨hpayload, horigin⟩ := OperationItem.of_fields hfields
    exact ⟨dict, data, rfl, hfields ▸ hdata, hpayload, horigin, hsignature⟩

theorem signed_document (keyId : String) (hkey : key.Ideal P) {data : Bytes}
    (hdata : canonicalBytes P (.obj item.fields) = .ok data) :
    documentVerdict P item.fields (some { keyId, sig := signBytes key data }) (publicJwk key) =
      .ok true := by
  obtain ⟨b, hverify, hb⟩ := verifyBytes_signBytes hkey data data
  rw [hb.mpr rfl] at hverify
  rw [documentVerdict, hdata]
  exact hverify

theorem signed_item_verifies (hkey : key.Ideal P)
    (hsigned : signOperationPayload P V payload key keyId provenance = .ok item) {owner : Manifest}
    (howner : findJwk owner.publicKeys keyId = some (publicJwk key)) :
    verifyOperationItem P owner item = .ok (provenance.all fun p => p.nodeId = owner.nodeId) := by
  obtain ⟨dict, data, hdict, hdata, rfl, horigin, hsignature⟩ := signOperationPayload_ok hsigned
  have hdocument := signed_document keyId hkey hdata
  rw [verifyOperationItem_eq, hsignature, horigin]
  simp only [howner, hdocument]
  cases provenance with
  | none => rfl
  | some p => by_cases hp : p.nodeId = owner.nodeId <;> simp [hp]

end Signed

/-- A signed item verifies for its owner, whatever responses it came in, unless it is
said to come from another node; and its payload is the one that was signed. -/
theorem signed_item_verdict (P : Platform) (V : Scalars) (key : Ed25519PrivateKey)
    (hkey : key.Ideal P) (keyId : String) (payload : HostPayload)
    (provenance : Option PayloadProvenance) (item item' : OperationItem)
    (hsigned : signOperationPayload P V payload key keyId provenance = .ok item)
    (hcarried : Carried P V OperationResponse.items item item') (owner : Manifest)
    (howner : findJwk owner.publicKeys keyId = some (publicJwk key)) :
    payload.toDict = .ok item'.payload ∧
      verifyOperationItem P owner item' = .ok (provenance.all fun p => p.nodeId = owner.nodeId) :=
        by
  obtain ⟨hfields, hsignature⟩ := OperationItem.relayed (hcarried.relayed (items_travel V))
  obtain ⟨hpayload, _⟩ := OperationItem.of_fields hfields
  obtain ⟨dict, _, hdict, _, rfl, _⟩ := signOperationPayload_ok hsigned
  have hverdict := signed_item_verifies hkey hsigned howner
  exact ⟨hpayload ▸ hdict, (verifyOperationItem_congr hfields hsignature owner).trans hverdict⟩

def signerManifest : Manifest :=
  { alphaManifest with publicKeys := [{ keyId := "k1", publicJwk := publicJwk alphaSigner }] }

def onePayload : HostPayload := .mapping (Keyed.ofList [("n", .int 1)])

theorem oneItem_signed :
    ∃ item item', signOperationPayload signingPlatform strictScalars onePayload
      alphaSigner "k1" none =
    .ok item ∧ overWire strictScalars item = .ok item' := by
  let unsigned : OperationItem := { payload := Keyed.ofList [("n", .int 1)] }
  have hdump : Model.dump unsigned = .ok _ := rfl
  obtain ⟨item, item', hsigned, hsent, _⟩ := settles_operationItem.verifies 
    (fun _ _ => dictDumps_congr) (fun _ => dictDumps_safe) alphaSigner_ideal "k1" hdump
    (by decide +kernel)
  exact ⟨item, item', hsigned, hsent⟩

theorem oneItem_verifies :
    ∃ item', verifyOperationItem signingPlatform signerManifest item' = .ok true := by
  obtain ⟨item, item', hsigned, hsent⟩ := oneItem_signed
  have hverdict := signed_item_verdict signingPlatform strictScalars alphaSigner alphaSigner_ideal
    "k1" onePayload none item item' hsigned (.sent (.held item) hsent) signerManifest rfl
  exact ⟨item', hverdict.2⟩

theorem OperationItem.of_same {i i' : OperationItem}
    (h : (Json.obj i'.fields).Same (.obj i.fields)) :
    (Json.obj i'.payload.entries).Same (.obj i.payload.entries) ∧ i'.origin = i.origin := by
  have hpayload := FieldsSame.of_same h "payload"
  have hprovenance := FieldsSame.of_same h "provenance"
  simp only [OperationItem.fields, List.cons_append, List.nil_append, lookup_field,
    lookup_optional, ↓reduceIte, String.reduceEq] at hpayload hprovenance
  constructor
  · cases hpayload with
    | some hsame => exact hsame
  · rw [OperationItem.origin, OperationItem.origin]
    cases hp : i.provenance with
    | none =>
      cases hp' : i'.provenance with
      | none => rfl
      | some p' =>
        rw [hp, hp'] at hprovenance
        cases hprovenance
    | some p =>
      cases hp' : i'.provenance with
      | none =>
        rw [hp, hp'] at hprovenance
        cases hprovenance
      | some p' =>
        rw [hp, hp'] at hprovenance
        cases hprovenance with
        | some hsame =>
          have hnode := Json.Same.field hsame "node_id"
          simpa [lookup_field, Json.shape] using hnode

/-- An item that verifies under the signature of another says the same. -/
theorem item_tamper_evident (P : Platform) (V : Scalars) (key : Ed25519PrivateKey)
    (hkey : key.Ideal P) (hinj : ∀ a b x, P.rfc8785Dumps a = .ok x → P.rfc8785Dumps b = .ok x →
      a.Same b) (keyId : String)
    (payload : HostPayload) (provenance : Option PayloadProvenance) (item forged : OperationItem)
    (hsigned : signOperationPayload P V payload key keyId provenance = .ok item) (owner : Manifest)
    (hborrowed : forged.signature = item.signature)
    (howner : findJwk owner.publicKeys keyId = some (publicJwk key))
    (hverified : verifyOperationItem P owner forged = .ok true) :
    (Json.obj forged.payload.entries).Same (.obj item.payload.entries) ∧
      forged.origin = item.origin := by
  obtain ⟨dict, data, _, hdata, _, _, hsignature⟩ := signOperationPayload_ok hsigned
  rw [verifyOperationItem_eq, hborrowed, hsignature] at hverified
  simp only [howner] at hverified
  split_ifs at hverified
  · cases hverified
  cases hforged : canonicalBytes P (.obj forged.fields) with
  | error e => simp [documentVerdict, hforged, bind, Except.bind] at hverified
  | ok data' =>
    simp only [documentVerdict, hforged, bind, Except.bind] at hverified
    obtain ⟨b, hverify, hb⟩ := verifyBytes_signBytes hkey data data'
    obtain rfl : b = true := Except.ok.inj (hverify.symm.trans hverified)
    obtain rfl := hb.mp rfl
    exact OperationItem.of_same (hinj _ _ _ hforged hdata)

theorem oneItem_evident : ∃ item forged :
    OperationItem, signOperationPayload signingPlatform strictScalars onePayload
      alphaSigner "k1" none =
    .ok item ∧ (Json.obj forged.payload.entries).Same (.obj item.payload.entries) := by
  obtain ⟨item, item', hsigned, hsent⟩ := oneItem_signed
  obtain ⟨hfields, hsignature⟩ := OperationItem.hop hsent
  have hverified : verifyOperationItem signingPlatform signerManifest item' = .ok true := by
    rw [verifyOperationItem_congr hfields hsignature]
    exact signed_item_verifies alphaSigner_ideal hsigned rfl
  exact ⟨item, item', hsigned,
    (item_tamper_evident signingPlatform strictScalars alphaSigner alphaSigner_ideal
    (fun _ _ _ => dictDumps_inj) "k1" onePayload none item item' hsigned signerManifest hsignature
    rfl hverified).1⟩

end Federlet
