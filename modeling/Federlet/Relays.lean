import Mathlib.Data.List.Forall2
import Federlet.Notices
import Federlet.RequestPath
import Federlet.Separation

/-! Messages passed on. A node that relays a signed message parses it and dumps it
again; notices and items also travel inside responses that other nodes sign. Neither
changes a verdict on them. -/

namespace Federlet

open Coop

section Wire

variable {M : Type} [Model M] [Validated M] {P : Platform} {V : Scalars} {m r : M}
  {fields : List (String × Json)} {signature : Option Signature}

/-- Parsed and sent on, any number of times. -/
def Relayed (V : Scalars) : M → M → Prop := Relation.ReflTransGen fun m m' => overWire V m = .ok m'

theorem DumpsAs.overWire_iff (hm : DumpsAs m fields signature) : overWire V m = .ok r ↔
    Validated.read V (.obj (fields ++ optional "signature" Signature.toJson signature)) = some r :=
  by
  simp only [overWire, hm.dump, bind, Except.bind, elim_ok_iff]

theorem DumpsAs.signModel_iff (hm : DumpsAs m fields signature) {key : Ed25519PrivateKey}
    {keyId : String} :
    signModel P V m key keyId = .ok r ↔ ∃ data, canonicalBytes P (.obj fields) = .ok data ∧
      Validated.read V (.obj (fields ++
        optional "signature" Signature.toJson (some { keyId, sig := signBytes key data }))) =
      some r := by
  simp only [signModel, hm.dump, bind, Except.bind, signDict, hm.body,
    setMember_signature hm.unsigned]
  cases hdata : canonicalBytes P (.obj fields) with
  | error e => simp
  | ok data =>
    simp only [pure, Except.pure, Except.ok.injEq, exists_eq_left']
    exact elim_ok_iff

/-- The verdict on fields as a document, under a signature. -/
def documentVerdict (P : Platform) (fields : List (String × Json))
    (signature : Option Signature) (jwk : JWK) :
    Except Exc Bool :=
  match signature with
  | none => .ok false
  | some s => canonicalBytes P (.obj fields) >>= fun data => verifyBytes P jwk s.sig data

omit [Validated M] in
theorem DumpsAs.verifyModel_eq (hm : DumpsAs m fields signature) (jwk : JWK) :
    verifyModel P m jwk = documentVerdict P fields signature jwk := by
  simp only [verifyModel, hm.dump, bind, Except.bind]
  cases signature with
  | none =>
    have hlookup : (fields ++ optional "signature" Signature.toJson none).lookup
        "signature" = none := by
      rw [lookup_append_of_ne hm.unsigned]
      rfl
    rw [verifyDict, hlookup]
    rfl
  | some s => exact verifyDict_signed hm.unsigned

theorem documentVerdict_congr (hcanon : ∀ a b, a.Same b → P.rfc8785Dumps a = P.rfc8785Dumps b)
    {fields' : List (String × Json)} (h : (Json.obj fields').Same (.obj fields)) (jwk : JWK) :
    documentVerdict P fields' signature jwk = documentVerdict P fields signature jwk := by
  have hbytes : canonicalBytes P (.obj fields') = canonicalBytes P (.obj fields) := hcanon _ _ h
  simp only [documentVerdict, hbytes]

theorem Settles.hop (hM : Settles M V) (h : overWire V m = .ok r) : ∃ fields fields' signature,
    DumpsAs m fields signature ∧ DumpsAs r fields' signature ∧
      (Json.obj fields').Same (.obj fields) := by
  cases hdump : Model.dump m with
  | error e => simp [overWire, hdump, bind, Except.bind] at h
  | ok kvs =>
    obtain ⟨fields, signature, hm, hsettles⟩ := hM m kvs hdump
    obtain ⟨m', fields', hread, hm', hsame⟩ := hsettles signature
    obtain rfl := Option.some.inj ((hm.overWire_iff.mp h).symm.trans hread)
    exact ⟨fields, fields', signature, hm, hm', hsame⟩

theorem Settles.exists_hop (hM : Settles M V) {kvs : List (String × Json)}
    (hdump : Model.dump m = .ok kvs) :
    ∃ r, overWire V m = .ok r := by
  obtain ⟨fields, signature, hm, hsettles⟩ := hM m kvs hdump
  obtain ⟨r, _, hread, _, _⟩ := hsettles signature
  exact ⟨r, hm.overWire_iff.mpr hread⟩

theorem Settles.relayed (hM : Settles M V)
    (hcanon : ∀ a b, a.Same b → P.rfc8785Dumps a = P.rfc8785Dumps b) (h : Relayed V m r)
    (jwk : JWK) : verifyModel P r jwk = verifyModel P m jwk := by
  induction h with
  | refl => rfl
  | tail _ hhop ih =>
    obtain ⟨fields, fields', signature, hm, hm', hsame⟩ := hM.hop hhop
    rw [hm'.verifyModel_eq, documentVerdict_congr hcanon hsame, ← hm.verifyModel_eq, ih]

theorem Settles.relayed_dump (hM : Settles M V) (h : Relayed V m r) {kvs : List (String × Json)}
    (hdump : Model.dump m = .ok kvs) :
    ∃ kvs', Model.dump r = .ok kvs' ∧ (Json.obj kvs').Same (.obj kvs) := by
  induction h with
  | refl => exact ⟨kvs, hdump, fun _ => rfl⟩
  | tail _ hhop ih =>
    obtain ⟨kvs', hdump', hsame'⟩ := ih
    obtain ⟨fields, fields', signature, hm, hm', hsame⟩ := hM.hop hhop
    obtain rfl := Except.ok.inj (hm.dump.symm.trans hdump')
    have hwhole : (Json.obj (fields' ++ optional "signature" Signature.toJson signature)).Same
        (.obj (fields ++ optional "signature" Signature.toJson signature)) :=
      Json.Same.obj ((FieldsSame.of_same hsame).append (.refl _))
    exact ⟨_, hm'.dump, fun path => (hwhole path).trans (hsame' path)⟩

/-- What a node signs verifies under its key, at once and however it is passed on. -/
theorem Settles.signed (hM : Settles M V)
    (hcanon : ∀ a b, a.Same b → P.rfc8785Dumps a = P.rfc8785Dumps b) {key : Ed25519PrivateKey}
    (hkey : key.Ideal P) {keyId : String} {signed : M}
    (hsigned : signModel P V m key keyId = .ok signed) (h : Relayed V signed r) :
    verifyModel P r (publicJwk key) = .ok true := by
  rw [hM.relayed hcanon h]
  cases hdump : Model.dump m with
  | error e => simp [signModel, hdump, bind, Except.bind] at hsigned
  | ok kvs =>
    obtain ⟨fields, signature, hm, hsettles⟩ := hM m kvs hdump
    obtain ⟨data, hdata, hread⟩ := hm.signModel_iff.mp hsigned
    obtain ⟨m', fields', hread', hm', hsame⟩ := hsettles (some { keyId, sig := signBytes key data })
    obtain rfl := Option.some.inj (hread.symm.trans hread')
    obtain ⟨b, hverify, hb⟩ := verifyBytes_signBytes hkey data data
    rw [hm'.verifyModel_eq, documentVerdict_congr hcanon hsame, documentVerdict, hdata]
    rw [hb.mpr rfl] at hverify
    exact hverify

end Wire

theorem Signature.toJson_inj {a b : Signature} (h : a.toJson = b.toJson) : a = b := by
  have hread := congrArg Signature.read h
  rw [a.read_toJson, b.read_toJson] at hread
  exact Option.some.inj hread

theorem WireType.dumpsAs_signature {t : WireType} {m : t.Value} {fields : List (String × Json)}
    {signature : Option Signature} (h : DumpsAs m fields signature) :
    t.signature m = signature := by
  have hdumped := (WireType.dumped h.dump).signature
  rw [lookup_append_of_ne h.unsigned, lookup_optional, if_pos rfl] at hdumped
  exact (Option.map_injective (fun _ _ => Signature.toJson_inj) hdumped).symm

theorem WireType.relayed_signature {V : Scalars} (hV : V.Faithful) {t : WireType} {m r : t.Value}
    (h : Relayed V m r) : t.signature r = t.signature m := by
  induction h with
  | refl => rfl
  | tail _ hhop ih =>
    obtain ⟨_, _, signature, hm, hm', _⟩ := (t.settles hV).hop hhop
    rw [WireType.dumpsAs_signature hm', ← ih, WireType.dumpsAs_signature hm]

theorem WireType.signed_signature {P : Platform} {V : Scalars} (hV : V.Faithful) {t : WireType}
    {m signed r : t.Value} {key : Ed25519PrivateKey} {keyId : String}
    (hsigned : signModel P V m key keyId = .ok signed) (h : Relayed V signed r) :
    ∃ sig, t.signature r = some { keyId, sig } := by
  rw [WireType.relayed_signature hV h]
  cases hdump : Model.dump m with
  | error e => simp [signModel, hdump, bind, Except.bind] at hsigned
  | ok kvs =>
    obtain ⟨fields, signature, hm, hsettles⟩ := t.settles hV m kvs hdump
    obtain ⟨data, _, hread⟩ := hm.signModel_iff.mp hsigned
    obtain ⟨m', fields', hread', hm', _⟩ := hsettles (some { keyId, sig := signBytes key data })
    obtain rfl := Option.some.inj (hread.symm.trans hread')
    exact ⟨_, WireType.dumpsAs_signature hm'⟩

/-- However often a message is passed on, its document, its signature and every
verdict on it stay, and it can be passed on again. -/
theorem relays_transparent (P : Platform) (V : Scalars) (hV : V.Faithful)
    (hcanon : ∀ a b, a.Same b → P.rfc8785Dumps a = P.rfc8785Dumps b) (t : WireType) (m r : t.Value)
    (h : Relayed V m r) (jwk : JWK) (kvs : List (String × Json)) (hdump : Model.dump m = .ok kvs) :
    verifyModel P r jwk = verifyModel P m jwk ∧ t.signature r = t.signature m ∧
      (∃ kvs', Model.dump r = .ok kvs' ∧ (Json.obj kvs').Same (.obj kvs)) ∧
      ∃ next, overWire V r = .ok next := by
  have hM := t.settles hV
  obtain ⟨kvs', hdump', hsame⟩ := hM.relayed_dump h hdump
  exact ⟨hM.relayed hcanon h jwk, WireType.relayed_signature hV h, ⟨kvs', hdump', hsame⟩,
    hM.exists_hop hdump'⟩

theorem fadingManifest_passed : ∃ r next : Manifest, overWire strictScalars fadingManifest = .ok r ∧
    overWire strictScalars r = .ok next := by
  have hdump : Model.dump fadingManifest = .ok _ := rfl
  obtain ⟨r, hsent⟩ := (settles_manifest strictScalars_faithful).exists_hop hdump
  obtain ⟨_, _, _, next, hnext⟩ :=
    relays_transparent signingPlatform strictScalars strictScalars_faithful
    (fun _ _ => dictDumps_congr) .manifest fadingManifest r (.single hsent) alphaKey _ hdump
  exact ⟨r, next, hsent, hnext⟩

section Nested

variable {M W : Type} [Model M] [Validated M] [Model W] [Validated W] {P : Platform} {V : Scalars}

/-- What a parse of the response holds are the messages it was dumped with, each after a hop. -/
def Travel (V : Scalars) (parts : W → List M) : Prop :=
  ∀ (w : W) kvs, Model.dump w = .ok kvs → ∃ fields signature, DumpsAs w fields signature ∧
    ∀ signature' w', Validated.read V
      (.obj (fields ++ optional "signature" Signature.toJson signature')) = some w' →
      List.Forall₂ (fun m m' => overWire V m = .ok m') (parts w) (parts w')

/-- How a message comes from one node to another: as it was, by itself, or at its
place in a response that some node signs with its own key. -/
inductive Carried (P : Platform) (V : Scalars) (parts : W → List M) : M → M → Prop where
  | held (m : M) : Carried P V parts m m
  | sent {m m' m'' : M} (h : Carried P V parts m m') (hsent : overWire V m' = .ok m'') :
    Carried P V parts m m''
  | listed {m m' m'' : M} (h : Carried P V parts m m') {response signed received : W}
      {key : Ed25519PrivateKey} {keyId : String} {i : Nat}
      (hsigned : signModel P V response key keyId = .ok signed)
      (hsent : overWire V signed = .ok received) (hin : (parts response)[i]? = some m')
      (hout : (parts received)[i]? = some m'') : Carried P V parts m m''

theorem forall₂_getElem? {α β : Type} {R : α → β → Prop} {xs : List α} {ys : List β}
    (h : List.Forall₂ R xs ys) {i : Nat} {x : α} {y : β} (hx : xs[i]? = some x)
    (hy : ys[i]? = some y) : R x y := by
  induction h generalizing i with
  | nil => simp at hx
  | cons hxy _ ih =>
    cases i with
    | zero =>
      obtain rfl := Option.some.inj hx
      obtain rfl := Option.some.inj hy
      exact hxy
    | succ i => exact ih hx hy

variable {parts : W → List M}

theorem Travel.sent (hW : Travel V parts) {w w' : W} (h : overWire V w = .ok w') :
    List.Forall₂ (fun m m' => overWire V m = .ok m') (parts w) (parts w') := by
  cases hdump : Model.dump w with
  | error e => simp [overWire, hdump, bind, Except.bind] at h
  | ok kvs =>
    obtain ⟨fields, signature, hw, hparts⟩ := hW w kvs hdump
    exact hparts signature w' (hw.overWire_iff.mp h)

theorem Travel.signed (hW : Travel V parts) {w w' : W} {key : Ed25519PrivateKey} {keyId : String}
    (h : signModel P V w key keyId = .ok w') :
    List.Forall₂ (fun m m' => overWire V m = .ok m') (parts w) (parts w') := by
  cases hdump : Model.dump w with
  | error e => simp [signModel, hdump, bind, Except.bind] at h
  | ok kvs =>
    obtain ⟨fields, signature, hw, hparts⟩ := hW w kvs hdump
    obtain ⟨_, _, hread⟩ := hw.signModel_iff.mp h
    exact hparts _ w' hread

/-- Inside responses a message goes no other way than by itself. -/
theorem Carried.relayed (hW : Travel V parts) {m m' : M} (h : Carried P V parts m m') :
    Relayed V m m' := by
  induction h with
  | held => exact .refl
  | sent _ hsent ih => exact ih.tail hsent
  | @listed m' m'' _ response signed received key keyId i hsigned hsent hin hout ih =>
    have hfirst := hW.signed hsigned
    have hsecond := hW.sent hsent
    obtain ⟨between, hbetween⟩ : ∃ between, (parts signed)[i]? = some between := by
      have hlength := hfirst.length_eq
      have hlt := (List.getElem?_eq_some_iff.mp hin).1
      exact ⟨_, List.getElem?_eq_getElem (hlength ▸ hlt)⟩
    exact (ih.tail (forall₂_getElem? hfirst hin hbetween)).tail
      (forall₂_getElem? hsecond hbetween hout)

theorem forall₂_overWire {ms ms' : List M} {docs : List (List (String × Json))}
    (hdump : ms.mapM Model.dump = .ok docs)
    (hread : (docs.map Json.obj).mapM (Validated.read V) = some ms') :
    List.Forall₂ (fun m m' => overWire V m = .ok m') ms ms' := by
  induction ms generalizing docs ms' with
  | nil =>
    obtain rfl := Except.ok.inj hdump
    obtain rfl := Option.some.inj hread
    exact .nil
  | cons m ms ih =>
    cases hm : Model.dump m with
    | error e => simp [List.mapM_cons, hm, bind, Except.bind] at hdump
    | ok doc =>
    cases hrest : ms.mapM Model.dump with
    | error e => simp [List.mapM_cons, hm, hrest, bind, Except.bind] at hdump
    | ok rest =>
      obtain rfl : doc :: rest = docs := by
        simpa [List.mapM_cons, hm, hrest, bind, Except.bind, pure, Except.pure] using hdump
      rw [List.map_cons, List.mapM_cons] at hread
      obtain ⟨m', hm', hread⟩ := Option.bind_eq_some_iff.mp hread
      obtain ⟨rest', hrest', hread⟩ := Option.bind_eq_some_iff.mp hread
      obtain rfl := Option.some.inj hread
      refine .cons ?_ (ih hrest hrest')
      simp only [overWire, hm, bind, Except.bind, hm', Option.elim_some]

end Nested

theorem notices_travel (V : Scalars) : Travel V RevocationsResponse.notices := by
  intro r kvs h
  cases hdocs : r.notices.mapM Model.dump with
  | error e =>
    rw [RevocationsResponse.dump_eq, hdocs] at h
    cases h
  | ok docs =>
    have hunsigned : ∀ kv ∈ [("source_node_id", Json.str r.sourceNodeId)] ++
        optional "cursor" .str r.cursor ++
        [("notices", .arr (docs.map .obj))], kv.1 ≠ "signature" := by
      simp only [List.forall_mem_append, forall_mem_optional]
      simp
    refine ⟨_, r.signature, ⟨?_, hunsigned⟩, fun signature' r' hread => ?_⟩
    · rw [RevocationsResponse.dump_eq, hdocs]
      rfl
    rw [RevocationsResponse.read_eq] at hread
    cases hnotices : (docs.map Json.obj).mapM (Validated.read V : Reader RevocationNotice) with
    | none =>
      simp [required, defaulting_eq, lookup_field, lookup_optional, List.lookup_append, readStr,
        readList, hnotices] at hread
    | some notices' =>
      simp [required, defaulting_eq, lookup_field, lookup_optional, List.lookup_append, readStr,
        readList, hnotices] at hread
      subst hread
      exact forall₂_overWire hdocs hnotices

theorem items_travel (V : Scalars) : Travel V OperationResponse.items := by
  intro r kvs h
  have hunsigned :
      ∀ kv ∈ [("operation_id", Json.str r.operationId), ("source_node_id", .str r.sourceNodeId),
      ("payload", .obj r.payload.entries), ("items", .arr (r.items.map OperationItem.toJson)),
      ("metadata", .obj r.metadata.entries)], kv.1 ≠ "signature" := by simp
  refine ⟨_, r.signature, ⟨rfl, hunsigned⟩, fun signature' r' hread => ?_⟩
  have hdeclared : ∀ kvs, Validated.read V (.obj kvs) = some r' →
      OperationResponse.readFields V kvs = some r' :=
    fun kvs h => forbidding_some h
  replace hread := hdeclared _ hread
  let docs := r.items.map fun i => i.fields ++ optional "signature" Signature.toJson i.signature
  have hdocs : r.items.mapM Model.dump = .ok docs := by
    exact List.mapM_pure
  have htoJson : r.items.map OperationItem.toJson = docs.map Json.obj := by
    simp [docs, OperationItem.toJson, Function.comp_def]
  rw [htoJson] at hread
  cases hitems : (docs.map Json.obj).mapM (Validated.read V : Reader OperationItem) with
  | none =>
    simp [OperationResponse.readFields, required, defaulting_eq, lookup_field, lookup_optional,
      readStr, readList, readDict, Keyed.ofList_entries, hitems] at hread
  | some items' =>
    simp [OperationResponse.readFields, required, defaulting_eq, lookup_field, lookup_optional,
      readStr, readList, readDict, Keyed.ofList_entries, hitems] at hread
    subst hread
    exact forall₂_overWire hdocs hitems

end Federlet
