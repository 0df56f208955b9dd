import Federlet.NormalForm
import Federlet.Persistence
import Federlet.SigningKeys

/-! What is signed, dumped and parsed again: the dump of what a parse gives is the
document parsed, up to the order of its keys. -/

namespace Federlet

def stampJson (d : DateTime) : Json := .str (String.ofList (isoChars d.wholeSecond.toNat))

theorem serTs_ok {d : DateTime} {j : Json} (h : serTs d = .ok j) :
    d.utcRepresentable = true ∧ j = stampJson d := by
  cases hr : d.utcRepresentable with
  | false => simp [serTs_error hr] at h
  | true =>
    rw [serTs_of_representable hr] at h
    exact ⟨rfl, (Except.ok.inj h).symm⟩

theorem serTs_stampJson {d : DateTime} (h : d.utcRepresentable = true) :
    serTs d = .ok (stampJson d) :=
  serTs_of_representable h

theorem optionalTs_ok {name : String} {t : Option DateTime} {kvs : List (String × Json)}
    (h : optionalTs name t = .ok kvs) :
    (∀ d ∈ t, d.utcRepresentable = true) ∧ kvs = optional name stampJson t := by
  cases t with
  | none => exact ⟨by simp, (Except.ok.inj h).symm⟩
  | some d =>
    cases hts : serTs d with
    | error e => simp [optionalTs, hts, Except.map] at h
    | ok j =>
      obtain ⟨hr, rfl⟩ := serTs_ok hts
      simp only [optionalTs, hts, Except.map, Except.ok.injEq] at h
      exact ⟨by simpa using hr, h.symm⟩

theorem optionalTs_stampJson (name : String) {t : Option DateTime}
    (h : ∀ d ∈ t, d.utcRepresentable = true) :
    optionalTs name t = .ok (optional name stampJson t) := by
  cases t with
  | none => rfl
  | some d =>
    rw [optionalTs, serTs_stampJson (h d rfl)]
    rfl

theorem DateTime.toSecond_wholeSecond {d : DateTime} (h : d.utcRepresentable = true) :
    d.toSecond.utcRepresentable = true ∧ d.toSecond.wholeSecond = d.wholeSecond := by
  have hinstant := DateTime.toSecond_instant h
  rw [DateTime.utcRepresentable_iff, calendarMicros] at h ⊢
  simp only [wholeSecond] at hinstant ⊢
  omega

theorem stampJson_toSecond {d : DateTime} (h : d.utcRepresentable = true) :
    stampJson d.toSecond = stampJson d := by
  rw [stampJson, (DateTime.toSecond_wholeSecond h).2, stampJson]

theorem optional_stamp_toSecond (name : String) {t : Option DateTime}
    (h : ∀ d ∈ t, d.utcRepresentable = true) :
    optional name stampJson (t.map DateTime.toSecond) = optional name stampJson t := by
  cases t with
  | none => rfl
  | some d => simp [optional, stampJson_toSecond (h d rfl)]

theorem representable_toSecond {t : Option DateTime} (h : ∀ d ∈ t, d.utcRepresentable = true) :
    ∀ d ∈ t.map DateTime.toSecond, d.utcRepresentable = true := by
  intro d hd
  obtain ⟨d', hd', rfl⟩ := Option.mem_map.mp hd
  exact (DateTime.toSecond_wholeSecond (h d' hd')).1

theorem lookup_field (k name : String) (j : Json) (kvs : List (String × Json)) :
    ((name, j) :: kvs).lookup k = if k = name then some j else kvs.lookup k := by
  by_cases h : k = name
  · rw [if_pos h, h, List.lookup_cons_self]
  · have hne : (k == name) = false := by simpa using h
    simp only [List.lookup_cons, hne, if_neg h]

theorem lookup_optional {α : Type} (name : String) (render : α → Json) (a : Option α) (k : String) :
    (optional name render a).lookup k = if k = name then a.map render else none := by
  cases a with
  | none => simp [optional]
  | some a => simp [optional, lookup_field]

theorem defaulting_eq {α : Type} (kvs : List (String × Json)) (name : String) (read : Reader α)
    (default : α) :
    defaulting kvs name read default = ((kvs.lookup name).map read).getD (some default) := by
  rw [defaulting]
  cases kvs.lookup name <;> rfl

@[simp] theorem getD_map_some {α β : Type} (g : α → β) (a : Option α) :
    (a.map fun x => some (some (g x))).getD (some none) = some (a.map g) := by
  cases a <;> rfl

theorem Signature.read_toJson (s : Signature) : Signature.read s.toJson = some s := by
  simp [Signature.read, Signature.toJson, readObject, required, defaulting, List.lookup, readStr]

@[simp] theorem nullable_str : nullable readStr ∘ Json.str = fun s => some (some s) := rfl

@[simp] theorem nullable_signature : nullable Signature.read ∘ Signature.toJson = fun s =>
    some (some s) := by
  funext s
  have hread := s.read_toJson
  simp only [Signature.toJson] at hread
  simp only [Function.comp, nullable, Signature.toJson, hread, Option.map_some]

theorem Scalars.Faithful.nullable_int {V : Scalars} (hV : V.Faithful) :
    nullable V.int ∘ Json.int = fun i => some (some i) := by
  funext i
  simp only [Function.comp, nullable, hV.int, Option.map_some]

theorem Scalars.Faithful.stampJson {V : Scalars} (hV : V.Faithful) {d : DateTime}
    (h : d.utcRepresentable = true) :
    V.datetime (stampJson d) = some d.toSecond :=
  (hV.serTs (serTs_stampJson h)).2

theorem Scalars.Faithful.stamps {V : Scalars} (hV : V.Faithful) {t : Option DateTime}
    (h : ∀ d ∈ t, d.utcRepresentable = true) :
    (t.map (nullable V.datetime ∘ Federlet.stampJson)).getD (some none) =
      some (t.map DateTime.toSecond) := by
  cases t with
  | none => rfl
  | some d =>
    have hread := hV.stampJson (h d rfl)
    simp only [Federlet.stampJson] at hread
    simp only [Option.map_some, Option.getD_some, Function.comp, Federlet.stampJson,
      nullable, hread]

theorem mapM_read {α β γ : Type} {read : γ → Option β} {render : α → γ} {g : α → β} {xs : List α}
    (h : ∀ x ∈ xs, read (render x) = some (g x)) : (xs.map render).mapM read = some (xs.map g) := by
  induction xs with
  | nil => rfl
  | cons x xs ih =>
    obtain ⟨hx, hxs⟩ := List.forall_mem_cons.mp h
    simp [hx, ih hxs]

theorem readList_strings (xs : List String) : readList readStr (strings xs) = some xs := by
  have hread := @mapM_read _ _ _ readStr Json.str id xs fun _ _ => rfl
  simpa [readList, strings] using hread

/-- Documents whose fields are the same, one by one. -/
def FieldsSame (xs ys : List (String × Json)) :
    Prop := ∀ k, Option.Rel Json.Same (xs.lookup k) (ys.lookup k)

theorem FieldsSame.of_eq {xs ys : List (String × Json)} (h : ∀ k, xs.lookup k = ys.lookup k) :
    FieldsSame xs ys := by
  intro k
  rw [h k]
  cases ys.lookup k with
  | none => exact .none
  | some j => exact .some fun _ => rfl

theorem FieldsSame.refl (xs : List (String × Json)) : FieldsSame xs xs := .of_eq fun _ => rfl

theorem FieldsSame.append {xs ys xs' ys' : List (String × Json)} (h : FieldsSame xs ys)
    (h' : FieldsSame xs' ys') :
    FieldsSame (xs ++ xs') (ys ++ ys') := by
  intro k
  have hk := h k
  have hk' := h' k
  rw [List.lookup_append, List.lookup_append]
  generalize xs.lookup k = x at hk
  generalize ys.lookup k = y at hk
  cases hk with
  | none => simpa using hk'
  | some hxy => exact .some hxy

theorem FieldsSame.optional {α : Type} {name : String} {render : α → Json} {g : α → α}
    {a : Option α} (h : ∀ x ∈ a, (render (g x)).Same (render x)) :
    FieldsSame (Federlet.optional name render (a.map g)) (Federlet.optional name render a) := by
  intro k
  rw [lookup_optional, lookup_optional]
  split_ifs
  · cases a with
    | none => exact .none
    | some a => exact .some (h a rfl)
  · exact .none

theorem FieldsSame.of_same {xs ys : List (String × Json)} (h : (Json.obj xs).Same (.obj ys)) :
    FieldsSame xs ys :=
  fun k => h.child (.key k)

theorem forall_mem_optional {α : Type} {name : String} {render : α → Json} {a : Option α}
    {p : String × Json → Prop} : (∀ kv ∈ optional name render a, p kv) ↔
      ∀ x ∈ a, p (name, render x) := by
  cases a <;> simp [optional]

theorem extras_dump {declared : List String} {kvs : List (String × Json)}
    (hnodup : ((kvs.filter fun kv => kv.1 ∉ declared).map Prod.fst).Nodup)
    (hnull : ∀ kv ∈ kvs, kv.1 ∉ declared → kv.2.isNull = false) :
    (extras declared kvs).dump = kvs.filter fun kv => kv.1 ∉ declared := by
  rw [Extra.dump, extras, Keyed.entries_ofList hnodup, List.filter_eq_self]
  intro kv hkv
  obtain ⟨hmem, hout⟩ := List.mem_filter.mp hkv
  simpa using hnull kv hmem (by simpa using hout)

theorem Extra.mem_dump {declared : List String} {e : Extra declared} {kv : String × Json}
    (h : kv ∈ e.dump) :
    kv.1 ∉ declared ∧ kv.2.isNull = false := by
  obtain ⟨hmem, hnull⟩ := List.mem_filter.mp h
  exact ⟨e.undeclared kv hmem, by simpa using hnull⟩

theorem Extra.lookup_dump {declared : List String} (e : Extra declared) {k : String}
    (h : k ∈ declared) :
    e.dump.lookup k = none := by
  rw [List.lookup_eq_none_iff]
  intro kv hkv
  simp only [bne_iff_ne, ne_eq]
  rintro rfl
  exact (Extra.mem_dump hkv).1 h

theorem Extra.nodup_dump {declared : List String} (e : Extra declared) :
    (e.dump.map Prod.fst).Nodup :=
  e.fields.nodup.sublist (List.filter_sublist.map _)

theorem extras_append {declared : List String} {fields : List (String × Json)} (e : Extra declared)
    (h : ∀ kv ∈ fields, kv.1 ∈ declared) : (extras declared (fields ++ e.dump)).dump = e.dump := by
  have hfilter : (fields ++ e.dump).filter (fun kv => kv.1 ∉ declared) = e.dump := by
    rw [List.filter_append, List.filter_eq_nil_iff.mpr (by simpa using h), List.nil_append,
      List.filter_eq_self]
    intro kv hkv
    simpa using (Extra.mem_dump hkv).1
  rw [extras_dump, hfilter]
  · rw [hfilter]
    exact e.nodup_dump
  · intro kv hkv hout
    rcases List.mem_append.mp hkv with hkv | hkv
    · exact absurd (h kv hkv) hout
    · exact (Extra.mem_dump hkv).2

theorem PublicKey.read_toJson (k : PublicKey) : PublicKey.read k.toJson = some k := by
  have hmap : (k.publicJwk.entries.map fun kv => (kv.1, Json.str kv.2)).mapM
      (fun kv => (readStr kv.2).map fun s => (kv.1, s)) = some k.publicJwk.entries := by
    have hread := @mapM_read _ _ _ (fun kv => (readStr kv.2).map fun s => (kv.1, s))
      (fun kv => (kv.1, Json.str kv.2)) id k.publicJwk.entries fun _ _ => rfl
    simpa using hread
  have hjwk : readJwk k.publicJwk.toJson = some k.publicJwk := by
    rw [JWK.toJson, readJwk, hmap, Option.map_some, Keyed.ofList_entries]
  simp [PublicKey.read, PublicKey.toJson, readObject, required, defaulting, lookup_field,
    readStr, hjwk]

theorem Membership.read_toJson (m : Membership) : ∃ m', Membership.read m.toJson = some m' ∧
    m'.toJson = m.toJson := by
  have hextra := @extras_append _
    ([("introduce_url", .str m.introduceUrl), ("members_url", .str m.membersUrl)] ++
      optional "revocations_url" .str m.revocationsUrl) m.extra (by simp [optional])
  have hnone := m.extra.lookup_dump (k := "revocations_url") (by simp)
  refine ⟨{ m with extra := extras _ _ }, ?_, by rw [toJson, toJson, hextra]⟩
  simp [Membership.read, Membership.toJson, readObject, required, defaulting_eq, lookup_field,
    List.lookup_append, lookup_optional, readStr, hnone]

theorem PayloadProvenance.read_toJson (p : PayloadProvenance) :
    ∃ p', PayloadProvenance.read p.toJson = some p' ∧ p'.toJson = p.toJson := by
  have hextra := @extras_append _
    ([("node_id", .str p.nodeId)] ++ optional "content_hash" .str p.contentHash) p.extra
    (by simp [optional])
  have hnone := p.extra.lookup_dump (k := "content_hash") (by simp)
  refine ⟨{ p with extra := extras _ _ }, ?_, by rw [toJson, toJson, hextra]⟩
  simp [PayloadProvenance.read, PayloadProvenance.toJson, readObject, required,
    defaulting_eq, lookup_field, List.lookup_append, lookup_optional, readStr, hnone]

/-- The fields a model dumps, with its signature at the end. -/
structure DumpsAs {M : Type} [Model M] (m : M) (fields : List (String × Json))
    (signature : Option Signature) :
    Prop where
  dump : Model.dump m = .ok (fields ++ optional "signature" Signature.toJson signature)
  unsigned : ∀ kv ∈ fields, kv.1 ≠ "signature"

/-- What is dumped and signed parses into a model with the same dump. -/
def Settles (M : Type) [Model M] [Validated M] (V : Scalars) : Prop :=
  ∀ (m : M) kvs, Model.dump m = .ok kvs → ∃ fields signature, DumpsAs m fields signature ∧
    ∀ signature', ∃ (m' : M) (fields' : List (String × Json)),
      Validated.read V (.obj (fields ++ optional "signature" Signature.toJson signature')) =
        some m' ∧
        DumpsAs m' fields' signature' ∧ (Json.obj fields').Same (.obj fields)

section Settling

variable {V : Scalars} (hV : V.Faithful)
include hV

theorem settles_signedRequest : Settles SignedRequest V := by
  intro r kvs h
  cases hts : serTs r.timestamp with
  | error e => simp [Model.dump, hts, bind, Except.bind] at h
  | ok timestamp =>
    obtain ⟨hr, rfl⟩ := serTs_ok hts
    have hsecond := (DateTime.toSecond_wholeSecond hr).1
    refine ⟨r.fields (stampJson r.timestamp), r.signature, ⟨?_, by simp [SignedRequest.fields]⟩, ?_⟩
    · simp only [Model.dump, hts, bind, Except.bind, pure, Except.pure]
    intro signature
    refine ⟨{ r with timestamp := r.timestamp.toSecond, signature },
      r.fields (stampJson r.timestamp), ?_, ⟨?_, by simp [SignedRequest.fields]⟩, fun _ => rfl⟩
    · simp [Validated.read, readObject, required, defaulting_eq, SignedRequest.fields, lookup_field,
        lookup_optional, readStr, hV.int, hV.stampJson hr]
    · simp [Model.dump, serTs_stampJson hsecond, stampJson_toSecond hr, SignedRequest.fields, bind,
        Except.bind, pure, Except.pure]

theorem MemberRef.read_toJson (r : MemberRef) : MemberRef.read V r.toJson = some r := by
  simp [MemberRef.read, MemberRef.toJson, readObject, required, defaulting_eq, lookup_field,
    List.lookup_append, lookup_optional, readStr, hV.nullable_int]

theorem settles_membersResponse : Settles MembersResponse V := by
  intro r kvs h
  have hmembers : (r.members.map MemberRef.toJson).mapM (MemberRef.read V) =
      some (r.members.map id) :=
    mapM_read fun x _ => MemberRef.read_toJson hV x
  have hunsigned : ∀ kv ∈ [("source_node_id", Json.str r.sourceNodeId)] ++
      optional "cursor" .str r.cursor ++
      [("members", .arr (r.members.map MemberRef.toJson))], kv.1 ≠ "signature" := by
    simp only [List.forall_mem_append, forall_mem_optional]
    simp
  refine ⟨_, r.signature, ⟨rfl, hunsigned⟩, fun signature => ?_⟩
  refine ⟨{ r with signature }, _, ?_, ⟨rfl, hunsigned⟩, fun _ => rfl⟩
  simp [Validated.read, readObject, required, defaulting_eq, lookup_field, lookup_optional,
    List.lookup_append, readStr, readList, hmembers]

theorem settles_introduceResponse : Settles IntroduceResponse V := by
  intro r kvs h
  cases hts : optionalTs "accepted_until" r.acceptedUntil with
  | error e => simp [Model.dump, hts, bind, Except.bind] at h
  | ok acceptedUntil =>
    obtain ⟨hr, rfl⟩ := optionalTs_ok hts
    have hsecond := optionalTs_stampJson "accepted_until" (representable_toSecond hr)
    have hunsigned : ∀ kv ∈ [("accepted", Json.bool r.accepted)] ++ optional "accepted_node_id" .str
        r.acceptedNodeId ++ optional "accepted_manifest_revision" .int r.acceptedManifestRevision ++
        optional "accepted_until" stampJson r.acceptedUntil ++ optional "reason" .str r.reason ++
        optional "membership_cursor" .str r.membershipCursor ++ optional "known_peer_count" .int
        r.knownPeerCount,
        kv.1 ≠ "signature" := by
      simp only [List.forall_mem_append, forall_mem_optional]
      simp
    refine ⟨_, r.signature, ⟨?_, hunsigned⟩, fun signature => ?_⟩
    · simp only [Model.dump, hts, bind, Except.bind, pure, Except.pure]
    refine ⟨{ r with acceptedUntil := r.acceptedUntil.map DateTime.toSecond, signature }, _, ?_,
      ⟨?_, hunsigned⟩, fun _ => rfl⟩
    · simp [Validated.read, readObject, required, defaulting_eq, lookup_field, lookup_optional,
        List.lookup_append, hV.bool, hV.nullable_int, hV.stamps hr]
    · simp only [Model.dump, hsecond, optional_stamp_toSecond _ hr, bind, Except.bind,
        pure, Except.pure]

theorem settles_revocationNotice : Settles RevocationNotice V := by
  intro n kvs h
  cases hissued : serTs n.issuedAt with
  | error e => simp [Model.dump, hissued, bind, Except.bind] at h
  | ok issuedAt =>
  cases hexpires : optionalTs "expires_at" n.expiresAt with
  | error e => simp [Model.dump, hissued, hexpires, bind, Except.bind] at h
  | ok expiresAt =>
    obtain ⟨hi, rfl⟩ := serTs_ok hissued
    obtain ⟨he, rfl⟩ := optionalTs_ok hexpires
    have hissued' := serTs_stampJson (DateTime.toSecond_wholeSecond hi).1
    have hexpires' := optionalTs_stampJson "expires_at" (representable_toSecond he)
    have hunsigned :
        ∀ kv ∈ [("federation_id", Json.str n.federationId),
          ("revoked_node_id", .str n.revokedNodeId),
        ("reason", .str n.reason), ("issued_at", stampJson n.issuedAt)] ++ optional "expires_at"
      stampJson n.expiresAt ++
        [("issuer", .str n.issuer)], kv.1 ≠ "signature" := by
      simp only [List.forall_mem_append, forall_mem_optional]
      simp
    refine ⟨_, n.signature, ⟨?_, hunsigned⟩, fun signature => ?_⟩
    · simp only [Model.dump, hissued, hexpires, bind, Except.bind, pure, Except.pure]
    refine ⟨{ n with issuedAt := n.issuedAt.toSecond,
                     expiresAt := n.expiresAt.map DateTime.toSecond, signature }, _,
      ?_, ⟨?_, hunsigned⟩, fun _ => rfl⟩
    · simp [Validated.read, readObject, required, defaulting_eq, lookup_field, lookup_optional,
        List.lookup_append, readStr, hV.stampJson hi, hV.stamps he]
    · simp only [Model.dump, hissued', hexpires', stampJson_toSecond hi, optional_stamp_toSecond _
        he, bind, Except.bind,
        pure, Except.pure]

theorem settles_notices {notices : List RevocationNotice} {docs : List (List (String × Json))}
    (h : notices.mapM Model.dump = .ok docs) :
    ∃ (notices' : List RevocationNotice) (docs' : List (List (String × Json))),
      (docs.map Json.obj).mapM (Validated.read V) = some notices' ∧
        notices'.mapM Model.dump = .ok docs' ∧
        List.Forall₂ Json.Same (docs'.map Json.obj) (docs.map Json.obj) := by
  induction notices generalizing docs with
  | nil =>
    cases h
    exact ⟨[], [], rfl, rfl, .nil⟩
  | cons n notices ih =>
    cases hn : Model.dump n with
    | error e => simp [List.mapM_cons, hn, bind, Except.bind] at h
    | ok doc =>
    cases hrest : notices.mapM Model.dump with
    | error e => simp [List.mapM_cons, hn, hrest, bind, Except.bind] at h
    | ok rest =>
      obtain rfl : doc :: rest = docs := by
        simpa [List.mapM_cons, hn, hrest, bind, Except.bind, pure, Except.pure] using h
      obtain ⟨notices', docs', hread, hdump, hsame⟩ := ih hrest
      obtain ⟨fields, signature, hfields, hsettles⟩ := settles_revocationNotice hV n doc hn
      obtain rfl := Except.ok.inj (hn.symm.trans hfields.dump)
      obtain ⟨n', fields', hreadn, hn', hsamen⟩ := hsettles signature
      refine ⟨n' :: notices', (fields' ++ optional "signature" Signature.toJson signature) ::
        docs', ?_, ?_, ?_⟩
      · simp [hreadn, hread]
      · simp [List.mapM_cons, hn'.dump, hdump, bind, Except.bind, pure, Except.pure]
      · exact .cons (Json.Same.obj ((FieldsSame.of_same hsamen).append (.refl _))) hsame

omit hV in
theorem RevocationsResponse.dump_eq (r : RevocationsResponse) : Model.dump r =
    (r.notices.mapM Model.dump >>= fun docs => pure ([("source_node_id", .str r.sourceNodeId)] ++
      optional "cursor" .str r.cursor ++ [("notices", .arr (docs.map .obj))] ++
      optional "signature" Signature.toJson r.signature)) := rfl

omit hV in
theorem RevocationsResponse.read_eq (kvs : List (String × Json)) : Validated.read V (.obj kvs) = (do
    let sourceNodeId ← required kvs "source_node_id" readStr
    let cursor ← defaulting kvs "cursor" (nullable readStr) none
    let notices ← defaulting kvs "notices" (readList (Validated.read V)) []
    let signature ← defaulting kvs "signature" (nullable Signature.read) none
    return ({ sourceNodeId, cursor, notices, signature } : RevocationsResponse)) := rfl

theorem settles_revocationsResponse : Settles RevocationsResponse V := by
  intro r kvs h
  cases hdocs : r.notices.mapM Model.dump with
  | error e =>
    rw [RevocationsResponse.dump_eq, hdocs] at h
    cases h
  | ok docs =>
    obtain ⟨notices', docs', hread, hdump, hsame⟩ := settles_notices hV hdocs
    have hunsigned : ∀ docs :
        List (List (String × Json)), ∀ kv ∈ [("source_node_id", Json.str r.sourceNodeId)] ++
        optional "cursor" .str r.cursor ++ [("notices", .arr (docs.map .obj))],
        kv.1 ≠ "signature" := by
      intro docs
      simp only [List.forall_mem_append, forall_mem_optional]
      simp
    refine ⟨_, r.signature, ⟨?_, hunsigned docs⟩, fun signature => ?_⟩
    · rw [RevocationsResponse.dump_eq, hdocs]
      rfl
    refine ⟨{ r with notices := notices', signature }, _, ?_, ⟨?_, hunsigned docs'⟩, ?_⟩
    · rw [RevocationsResponse.read_eq]
      simp [required, defaulting_eq, lookup_field, lookup_optional, List.lookup_append, readStr,
        readList, hread]
    · rw [RevocationsResponse.dump_eq, hdump]
      rfl
    · refine Json.Same.obj (FieldsSame.append (.refl _) fun k => ?_)
      rw [lookup_field, lookup_field]
      split_ifs
      · exact .some (Json.Same.arr hsame)
      · exact .none

omit hV in
theorem PayloadProvenance.nullable_read (p : PayloadProvenance) :
    ∃ p' : PayloadProvenance, nullable PayloadProvenance.read p.toJson = some (some p') ∧
      p'.toJson = p.toJson := by
  obtain ⟨p', hread, hsame⟩ := p.read_toJson
  refine ⟨p', ?_, hsame⟩
  simp only [toJson] at hread
  simp only [nullable, toJson, hread, Option.map_some]

omit hV in
theorem OperationItem.read_fields (i : OperationItem) (signature : Option Signature) : ∃ i' :
    OperationItem,
    Validated.read V (.obj (i.fields ++ optional "signature" Signature.toJson signature)) =
      some i' ∧
      i'.fields = i.fields ∧ i'.signature = signature := by
  have hdeclared : (i.fields ++ optional "signature" Signature.toJson signature).all
      (fun kv => kv.1 ∈ ["payload", "provenance", "signature"]) = true := by
    simp only [fields, List.all_eq_true, List.forall_mem_append, forall_mem_optional]
    simp
  obtain ⟨provenance', hread, hsame⟩ : ∃ provenance' : Option PayloadProvenance,
      ((i.provenance.map (nullable PayloadProvenance.read ∘ PayloadProvenance.toJson)).getD
        (some none)) = some provenance' ∧
        optional "provenance" PayloadProvenance.toJson provenance' =
          optional "provenance" PayloadProvenance.toJson i.provenance := by
    cases i.provenance with
    | none => exact ⟨none, rfl, rfl⟩
    | some p =>
      obtain ⟨p', hread, hsame⟩ := p.nullable_read
      exact ⟨some p', hread, by simp [optional, hsame]⟩
  refine ⟨{ i with provenance := provenance', signature }, ?_, by simp only [fields, hsame], rfl⟩
  simp only [Validated.read, readObject, forbidding, hdeclared, ↓reduceIte]
  simp [OperationItem.readFields, fields, defaulting_eq, lookup_field, List.lookup_append,
    lookup_optional, readDict, Keyed.ofList_entries, hread]

omit hV in
theorem settles_operationItem : Settles OperationItem V := by
  intro i kvs h
  have hunsigned : ∀ kv ∈ i.fields, kv.1 ≠ "signature" := by
    simp only [OperationItem.fields, List.forall_mem_append, forall_mem_optional]
    simp
  refine ⟨i.fields, i.signature, ⟨rfl, hunsigned⟩, fun signature => ?_⟩
  obtain ⟨i', hread, hfields, rfl⟩ := @OperationItem.read_fields V i signature
  exact ⟨i', i.fields, hread, ⟨hfields ▸ rfl, hunsigned⟩, fun _ => rfl⟩

omit hV in
theorem settles_operationResponse : Settles OperationResponse V := by
  intro r kvs h
  obtain ⟨items', hitems, hsame⟩ : ∃ items' : List OperationItem,
      (r.items.map OperationItem.toJson).mapM (Validated.read V) = some items' ∧
        items'.map OperationItem.toJson = r.items.map OperationItem.toJson := by
    induction r.items with
    | nil => exact ⟨[], rfl, rfl⟩
    | cons i items ih =>
      obtain ⟨items', hitems, hsame⟩ := ih
      obtain ⟨i', hread, hfields, hsignature⟩ := @OperationItem.read_fields V i i.signature
      refine ⟨i' :: items', ?_, ?_⟩
      · simp [OperationItem.toJson, hread, hitems]
      · simp only [List.map_cons, hsame, OperationItem.toJson, hfields, hsignature]
  have hunsigned :
      ∀ kv ∈ [("operation_id", Json.str r.operationId), ("source_node_id", .str r.sourceNodeId),
      ("payload", .obj r.payload.entries), ("items", .arr (r.items.map OperationItem.toJson)),
      ("metadata", .obj r.metadata.entries)], kv.1 ≠ "signature" := by simp
  refine ⟨_, r.signature, ⟨rfl, hunsigned⟩, fun signature => ?_⟩
  refine ⟨{ r with items := items', signature }, _, ?_, ⟨?_, hunsigned⟩, fun _ => rfl⟩
  · have hread : ∀ kvs, kvs.all
        (fun kv => kv.1 ∈ ["operation_id", "source_node_id", "payload", "items", "metadata",
        "signature"]) = true → Validated.read V (.obj kvs) = OperationResponse.readFields V kvs :=
      fun kvs h => if_pos h
    rw [hread]
    · simp [OperationResponse.readFields, required, defaulting_eq, lookup_field, lookup_optional,
        readStr, readList, readDict, Keyed.ofList_entries, hitems]
    · simp only [List.all_eq_true, List.forall_mem_append, forall_mem_optional]
      simp
  · simp only [Model.dump, hsame]

omit hV in
theorem lookup_filter_names (names : List String) (kvs : List (String × Json)) (k : String) :
    (kvs.filter fun kv => kv.1 ∉ names).lookup k = if k ∈ names then none else kvs.lookup k := by
  induction kvs with
  | nil => simp
  | cons kv kvs ih =>
    obtain ⟨name, j⟩ := kv
    by_cases hname : name ∈ names
    · have hout : decide (name ∉ names) = false := by simpa using hname
      rw [List.filter_cons, hout, lookup_field]
      simp only [Bool.false_eq_true, ↓reduceIte, ih]
      by_cases hk : k = name <;> simp [hk, hname]
    · have hin : decide (name ∉ names) = true := by simpa using hname
      rw [List.filter_cons, hin, if_pos rfl, lookup_field, lookup_field, ih]
      by_cases hk : k = name <;> simp [hk, hname]

omit hV in
theorem readDomainProof_some {type : String} {rest : List (String × Json)} {e : AdmissionEvidence}
    (h : readDomainProof ([("type", .str type)] ++ rest) = some e) : type = "domain_proof" ∧
      ∃ domain, rest.lookup "domain" = some (.str domain) ∧
        e = .domainProof domain (extras _ ([("type", .str type)] ++ rest)) := by
  by_cases htype : type = "domain_proof"
  · refine ⟨htype, ?_⟩
    cases hdomain : rest.lookup "domain" with
    | none =>
      simp [readDomainProof, defaulting_eq, required, lookup_field, readDomainProofType,
        htype, hdomain] at h
    | some j =>
      cases j with
      | str domain =>
        simp [readDomainProof, defaulting_eq, required, lookup_field, readDomainProofType, htype,
          hdomain, readStr] at h
        exact ⟨domain, rfl, by rw [← h, htype]; rfl⟩
      | _ =>
        simp [readDomainProof, defaulting_eq, required, lookup_field, readDomainProofType, htype,
          hdomain, readStr] at h
  · simp [readDomainProof, defaulting_eq, readDomainProofType, htype] at h

omit hV in
theorem AdmissionEvidence.read_toJson (e : AdmissionEvidence) :
    ∃ e', AdmissionEvidence.read e.toJson = some e' ∧ e'.toJson.Same e.toJson := by
  cases e with
  | domainProof domain extra =>
    have hextra := @extras_append _ [("type", .str "domain_proof"), ("domain", .str domain)]
      extra (by simp)
    refine ⟨.domainProof domain
      (extras _ ([("type", .str "domain_proof"), ("domain", .str domain)] ++ extra.dump)),
      ?_, ?_⟩
    · simp [AdmissionEvidence.read, toJson, readObject, readDomainProof, defaulting_eq,
        lookup_field, required, readStr, readDomainProofType]
    · intro path
      rw [toJson, toJson, hextra]
  | generic type extra =>
    have hextra := @extras_append _ [("type", .str type)] extra (by simp)
    cases hproof : readDomainProof ([("type", .str type)] ++ extra.dump) with
    | none =>
      refine ⟨.generic type (extras _ ([("type", .str type)] ++ extra.dump)), ?_, ?_⟩
      · rw [AdmissionEvidence.read, toJson, readObject, hproof]
        simp [readGenericEvidence, required, readStr]
      · intro path
        rw [toJson, toJson, hextra]
    | some e' =>
      obtain ⟨htype, domain, hdomain, rfl⟩ := readDomainProof_some hproof
      refine ⟨.domainProof domain (extras ["type", "domain"] ([("type", .str type)] ++ extra.dump)),
        ?_, ?_⟩
      · rw [AdmissionEvidence.read, toJson, readObject, hproof]
      have hfields : (extras ["type", "domain"] ([("type", .str type)] ++ extra.dump)).dump =
          ([("type", Json.str type)] ++ extra.dump).filter fun kv => kv.1 ∉ ["type", "domain"] := by
        refine extras_dump ?_ ?_
        · refine List.Nodup.sublist (List.filter_sublist.map _) ?_
          rw [List.map_append, List.nodup_append]
          refine ⟨by simp, extra.nodup_dump, ?_⟩
          intro x hx y hy hxy
          obtain ⟨kv, hkv, rfl⟩ := List.mem_map.mp hy
          have hout := (Extra.mem_dump hkv).1
          simp_all
        · intro kv hkv hout
          rcases List.mem_append.mp hkv with hkv | hkv
          · simp_all
          · exact (Extra.mem_dump hkv).2
      refine Json.Same.obj (FieldsSame.of_eq fun k => ?_)
      rw [hfields, List.lookup_append, lookup_filter_names]
      by_cases hk : k = "type"
      · simp [hk, htype]
      · by_cases hkd : k = "domain"
        · rw [hkd]
          simp [lookup_field, hdomain]
        · simp [lookup_field, hk, hkd]

omit hV in
theorem AdmissionEvidence.nullable_read (a : Option AdmissionEvidence) : ∃ a' :
    Option AdmissionEvidence,
    (a.map (nullable AdmissionEvidence.read ∘ AdmissionEvidence.toJson)).getD
    (some none) = some a' ∧
      FieldsSame (optional "admission_evidence" AdmissionEvidence.toJson a')
        (optional "admission_evidence" AdmissionEvidence.toJson a) := by
  cases a with
  | none => exact ⟨none, rfl, .refl _⟩
  | some e =>
    obtain ⟨e', hread, hsame⟩ := e.read_toJson
    refine ⟨some e', ?_, ?_⟩
    · cases e <;> simp only [toJson] at hread <;>
        simp only [Option.map_some, Option.getD_some, Function.comp, nullable, toJson, hread]
    · have hfields := @FieldsSame.optional _ "admission_evidence" AdmissionEvidence.toJson
        (fun _ => e') (some e) (by simpa using hsame)
      exact hfields

theorem Disclosure.nullable_read :
    nullable (Disclosure.read V) ∘ Disclosure.toJson = fun d => some (some d) := by
  funext d
  simp [nullable, Disclosure.read, Disclosure.toJson, readObject, required, lookup_field,
    readStr, hV.bool]

theorem ManifestLimits.nullable_read :
    nullable (ManifestLimits.read V) ∘ ManifestLimits.toJson = fun l => some (some l) := by
  funext l
  simp [nullable, ManifestLimits.read, ManifestLimits.toJson, readObject, defaulting_eq,
    List.lookup_append, lookup_optional, hV.nullable_int]

/-- A manifest's dump up to its evidence. -/
def Manifest.head (m : Manifest) (membership : Json) : List (String × Json) :=
  [("node_id", .str m.nodeId), ("org_id", .str m.orgId)] ++ optional "bu_id" .str m.buId ++
    [("federations", strings m.federations), ("endpoint", .str m.endpoint)] ++
    optional "manifest_url" .str m.manifestUrl ++
    [("protocol_versions", strings m.protocolVersions), ("revision", .int m.revision),
      ("public_keys", .arr (m.publicKeys.map PublicKey.toJson)),
        ("auth_methods", strings m.authMethods),
      ("membership", membership), ("extensions", .obj m.extensions.entries)]

/-- A manifest's dump between its evidence and its timestamps. -/
def Manifest.middle (m : Manifest) : List (String × Json) :=
  optional "disclosure" Disclosure.toJson m.disclosure ++ optional "limits"
    ManifestLimits.toJson m.limits

theorem settles_manifest : Settles Manifest V := by
  intro m kvs h
  cases hissued : optionalTs "issued_at" m.issuedAt with
  | error e => simp [Model.dump, hissued, bind, Except.bind] at h
  | ok issuedAt =>
  cases hexpires : optionalTs "expires_at" m.expiresAt with
  | error e => simp [Model.dump, hissued, hexpires, bind, Except.bind] at h
  | ok expiresAt =>
    obtain ⟨hi, rfl⟩ := optionalTs_ok hissued
    obtain ⟨he, rfl⟩ := optionalTs_ok hexpires
    have hissued' := optionalTs_stampJson "issued_at" (representable_toSecond hi)
    have hexpires' := optionalTs_stampJson "expires_at" (representable_toSecond he)
    obtain ⟨membership', hmembership, hsame⟩ := m.membership.read_toJson
    obtain ⟨evidence', hevidence, hfields⟩ := AdmissionEvidence.nullable_read m.admissionEvidence
    have hkeys : readList PublicKey.read (.arr (m.publicKeys.map PublicKey.toJson)) =
        some (m.publicKeys.map id) :=
      mapM_read fun k _ => k.read_toJson
    have hunsigned : ∀ evidence : Option AdmissionEvidence, ∀ kv ∈ m.head m.membership.toJson ++
        optional "admission_evidence" AdmissionEvidence.toJson evidence ++ m.middle ++
        optional "issued_at" stampJson m.issuedAt ++ optional "expires_at" stampJson m.expiresAt,
        kv.1 ≠ "signature" := by
      intro evidence
      simp only [Manifest.head, Manifest.middle, List.forall_mem_append, forall_mem_optional]
      simp
    refine ⟨_, m.signature, ⟨?_, hunsigned m.admissionEvidence⟩, fun signature => ?_⟩
    · simp only [Model.dump, hissued, hexpires, bind, Except.bind, pure, Except.pure, Manifest.head,
        Manifest.middle, List.append_assoc]
    refine ⟨{ m with
        membership := membership', admissionEvidence := evidence'
        issuedAt := m.issuedAt.map DateTime.toSecond
        expiresAt := m.expiresAt.map DateTime.toSecond, signature }, _, ?_,
          ⟨?_, hunsigned evidence'⟩, ?_⟩
    · simp [Validated.read, readObject, required, defaulting_eq, Manifest.head,
        Manifest.middle, lookup_field, lookup_optional, List.lookup_append, readStr,
          readList_strings, hV.int, hkeys, hmembership, readDict,
        Keyed.ofList_entries, hevidence, Disclosure.nullable_read hV, ManifestLimits.nullable_read
          hV, hV.stamps hi,
        hV.stamps he]
    · simp only [Model.dump, hissued', hexpires', optional_stamp_toSecond _ hi,
        optional_stamp_toSecond _ he, hsame, bind, Except.bind, pure, Except.pure, Manifest.head,
          Manifest.middle, List.append_assoc]
    · refine Json.Same.obj ?_
      simp only [List.append_assoc]
      exact (FieldsSame.refl _).append (hfields.append (.refl _))

end Settling

end Federlet
