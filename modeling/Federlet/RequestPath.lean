import Federlet.Library.Pieces
import Federlet.Messages

/-! The path a client signs and the path of the request its peer receives. -/

namespace Federlet

open Coop

/-- The path `urlsplit` leaves once query and fragment are cut off. -/
def splitPath (url : String) : List Char :=
  let url := (url.toList.dropWhile (fun c => c.toNat ≤ 32)).filter
    (fun c => c ≠ '\t' ∧ c ≠ '\r' ∧ c ≠ '\n')
  let rest :=
    match (splitScheme url).2 with
    | '/' :: '/' :: rest => rest.dropWhile (fun c => c ≠ '/' ∧ c ≠ '?' ∧ c ≠ '#')
    | rest => rest
  (rest.takeWhile (· ≠ '#')).takeWhile (· ≠ '?')

def splitParams (url : List Char) : List Char × List Char :=
  let segment := afterLast '/' url
  (url.take (url.length - segment.length) ++ segment.takeWhile (· ≠ ';'),
    (segment.dropWhile (· ≠ ';')).drop 1)

def usesParams : List String :=
  ["", "ftp", "hdl", "prospero", "http", "imap", "https", "shttp", "rtsp", "rtsps", "rtspu", "sip",
    "sips", "mms", "sftp", "tel"]

structure ParseResult extends SplitResult where
  path : List Char
  params : List Char

def urlparse (P : Platform) (url : String) : Except Exc ParseResult := do
  let split ← urlsplit P url
  let path := splitPath url
  let (path, params) :=
    if String.ofList split.scheme ∈ usesParams ∧ ';' ∈ path then splitParams path else (path, [])
  return { split with path, params }

structure SigningClient extends FederationClient where
  key : Ed25519PrivateKey
  keyId : String
  manifestRevision : Int := 0

/-- What `build_signed_request` draws when it is called: two UUIDs and the time. -/
structure Draw where
  requestId : String
  nonce : Bytes
  now : DateTime

def buildSignedRequest (P : Platform) (V : Scalars) (key : Ed25519PrivateKey)
    (keyId federationId sourceNodeId
    targetNodeId method path : String) (body : Bytes) (sourceManifestRevision : Int) (draw : Draw) :
    Except Exc SignedRequest :=
  let env : SignedRequest :=
    { federationId, requestId := draw.requestId, sourceNodeId, targetNodeId,
      method := P.upper method, path
      timestamp := draw.now, nonce := b64uEncode draw.nonce, bodySha256 := sha256Hex P body
      sourceManifestRevision }
  signModel P V env key keyId

/-- The HTTP request of `_send`; the envelope is its signature header. -/
structure OutgoingRequest where
  method : String
  url : String
  content : Bytes
  params : List (String × String)
  envelope : SignedRequest

def signedHeaders (P : Platform) (V : Scalars) (client : SigningClient)
    (targetNodeId method path : String) (body : Bytes) (draw : Draw) : Except Exc SignedRequest :=
  buildSignedRequest P V client.key client.keyId client.federationId client.nodeId targetNodeId
    method path body client.manifestRevision draw

/-- `_send` up to the HTTP call. -/
def prepareRequest (P : Platform) (V : Scalars) (client : SigningClient)
    (targetNodeId method url : String) (body : Bytes) (params : List (String × String))
    (draw : Draw) : Except Exc OutgoingRequest := do
  let parsed ← urlparse P url
  let envelope ← signedHeaders P V client targetNodeId method (String.ofList parsed.path) body draw
  return { method, url, content := body, params, envelope }

/-- Printable ASCII that stands in a URL as it is. -/
def plainChar (c : Char) : Bool :=
  decide (32 < c.toNat ∧ c.toNat < 127) && !("\"<>\\^\x60\x7b|\x7d".toList.contains c)

/-- An absolute URL of the scheme http or https, in either case, taken apart: a
query and a fragment, if any, are `tail`. -/
structure HttpUrl where
  scheme : List Char
  authority : List Char
  path : List Char
  tail : List Char
  scheme_http : scheme.map Char.toLower = "http".toList ∨ scheme.map Char.toLower = "https".toList
  authority_end : authority ≠ [] ∧ ∀ c ∈ authority, c ≠ '/' ∧ c ≠ '?' ∧ c ≠ '#'
  path_rooted : ∀ c ∈ path.head?, c = '/'
  path_end : ∀ c ∈ path, c ≠ '?' ∧ c ≠ '#'
  tail_start : ∀ c ∈ tail.head?, c = '?' ∨ c = '#'
  plain : ∀ c ∈ scheme ++ authority ++ path ++ tail, plainChar c = true

namespace HttpUrl

def chars (u : HttpUrl) :
    List Char := u.scheme ++ ':' :: '/' :: '/' :: (u.authority ++ (u.path ++ u.tail))

def text (u : HttpUrl) : String := String.ofList u.chars

/-- The path component of the HTTP request. -/
def requestPath (u : HttpUrl) : String := if u.path = [] then "/" else String.ofList u.path

/-- What the peer's host hands to the verifier. -/
def inbound (u : HttpUrl) (selfNodeId method : String) (body : Bytes) (maxBodyBytes : Option Int)
    (maxSkewSeconds : Int) (cache : Bool) : Inbound :=
  { selfNodeId, method, path := u.requestPath, body, maxBodyBytes, maxSkewSeconds, cache }

/-- The path is there and its last segment has no parameters. -/
structure PlainPath (u : HttpUrl) : Prop where
  present : u.path ≠ []
  bare : ';' ∉ afterLast '/' u.path

theorem isAlpha_of_toLower {c : Char} (h : c.toLower.isAlpha = true) : c.isAlpha = true := by
  by_cases hc : 65 ≤ c.val ∧ c.val ≤ 90
  · simp [Char.isAlpha, Char.isUpper, hc]
  · simpa [Char.toLower, hc] using h

variable (u : HttpUrl)

theorem scheme_alpha : ∀ c ∈ u.scheme, c.isAlpha = true := by
  intro c hc
  have hlower : c.toLower ∈ u.scheme.map Char.toLower := List.mem_map_of_mem hc
  have hletter : c.toLower = 'h' ∨ c.toLower = 't' ∨ c.toLower = 'p' ∨ c.toLower = 's' := by
    rcases u.scheme_http with h | h
    · rw [h] at hlower
      simp at hlower
      tauto
    · rw [h] at hlower
      simp at hlower
      tauto
  apply isAlpha_of_toLower
  rcases hletter with h | h | h | h <;> rw [h] <;> rfl

theorem scheme_ne_colon : ∀ c ∈ u.scheme, c ≠ ':' := by
  rintro c hc rfl
  have hcolon := u.scheme_alpha ':' hc
  exact absurd hcolon (by decide)

theorem scheme_ne_nil : u.scheme ≠ [] := by
  intro h
  have hscheme := u.scheme_http
  simp [h] at hscheme

theorem splitScheme_chars :
    splitScheme u.chars = (u.scheme.map Char.toLower,
      '/' :: '/' :: (u.authority ++ (u.path ++ u.tail))) := by
  have htake : u.chars.takeWhile (· ≠ ':') = u.scheme := by
    refine Pieces.takeWhile_cut ?_ ?_
    · intro c hc
      simpa using u.scheme_ne_colon c hc
    · rintro c ⟨⟩
      decide
  obtain ⟨c, scheme, hscheme⟩ := List.exists_cons_of_ne_nil u.scheme_ne_nil
  have hhead : u.scheme.head?.any Char.isAlpha = true := by
    have hc := u.scheme_alpha c (by simp [hscheme])
    simpa [hscheme] using hc
  have hall : u.scheme.all schemeChar = true := by
    rw [List.all_eq_true]
    intro d hd
    have halpha := u.scheme_alpha d hd
    simp [schemeChar, Char.isAlphanum, halpha]
  have hcolon : ':' ∈ u.chars := by simp [chars]
  simp only [splitScheme, htake, hhead, hall, hcolon, Bool.and_self, and_self, ↓reduceIte]
  simp [chars, List.drop_append]

theorem stripped_chars :
    (u.chars.dropWhile (fun c => c.toNat ≤ 32)).filter
    (fun c => c ≠ '\t' ∧ c ≠ '\r' ∧ c ≠ '\n') = u.chars := by
  have hvisible : ∀ c ∈ u.chars, 32 < c.toNat := by
    intro c hc
    have hmem : c ∈ u.scheme ++ u.authority ++ u.path ++ u.tail ∨ c = ':' ∨ c = '/' := by
      simp [chars] at hc ⊢
      tauto
    rcases hmem with h | rfl | rfl
    · have hplain := u.plain c h
      simp [plainChar] at hplain
      exact hplain.1.1
    · decide
    · decide
  obtain ⟨c, scheme, hscheme⟩ := List.exists_cons_of_ne_nil u.scheme_ne_nil
  have hfirst := hvisible c (by simp [chars, hscheme])
  have hdrop : u.chars.dropWhile (fun c => c.toNat ≤ 32) = u.chars := by
    simp [chars, hscheme]
    omega
  rw [hdrop, List.filter_eq_self]
  intro c hc
  have hc' := hvisible c hc
  have hne : c ≠ '\t' ∧ c ≠ '\r' ∧ c ≠ '\n' := by
    refine ⟨?_, ?_, ?_⟩ <;> rintro rfl <;> exact absurd hc' (by decide)
  simpa using hne

theorem authority_stops :
    Pieces.Stops (fun c => c ≠ '/' ∧ c ≠ '?' ∧ c ≠ '#') (u.path ++ u.tail) := by
  intro c hc
  have hstart : c = '/' ∨ c = '?' ∨ c = '#' := by
    cases hpath : u.path with
    | nil =>
      rw [hpath, List.nil_append] at hc
      exact .inr (u.tail_start c hc)
    | cons d path =>
      rw [hpath] at hc
      exact .inl (u.path_rooted c (by simpa [hpath] using hc))
  rcases hstart with rfl | rfl | rfl <;> decide

theorem splitPath_text : splitPath u.text = u.path := by
  have hauthority : (u.authority ++ (u.path ++ u.tail)).dropWhile
      (fun c => c ≠ '/' ∧ c ≠ '?' ∧ c ≠ '#') = u.path ++ u.tail := by
    refine Pieces.dropWhile_cut ?_ u.authority_stops
    intro c hc
    simpa using u.authority_end.2 c hc
  have hcut : ((u.path ++ u.tail).takeWhile (· ≠ '#')).takeWhile (· ≠ '?') = u.path := by
    rw [List.takeWhile_takeWhile]
    refine Pieces.takeWhile_cut ?_ ?_
    · intro c hc
      simpa [and_comm] using u.path_end c hc
    · intro c hc
      rcases u.tail_start c hc with rfl | rfl <;> decide
  simp only [splitPath, text, String.toList_ofList, u.stripped_chars, u.splitScheme_chars,
    hauthority, hcut]

theorem urlsplit_scheme {P : Platform} {r : SplitResult} (h : urlsplit P u.text = .ok r) :
    r.scheme = u.scheme.map Char.toLower := by
  simp only [urlsplit, text, String.toList_ofList, u.stripped_chars, u.splitScheme_chars] at h
  split_ifs at h
  cases h
  rfl

theorem exists_urlparse {P : Platform} (hopen : '[' ∉ u.authority) (hclose : ']' ∉ u.authority)
    (hnetloc : P.netlocAccepted (String.ofList u.authority) = true) :
    ∃ r, urlparse P u.text = .ok r := by
  have hauthority : (u.authority ++ (u.path ++ u.tail)).takeWhile
      (fun c => c ≠ '/' ∧ c ≠ '?' ∧ c ≠ '#') = u.authority := by
    refine Pieces.takeWhile_cut ?_ u.authority_stops
    intro c hc
    simpa using u.authority_end.2 c hc
  have hsplit : urlsplit P u.text = .ok ⟨u.scheme.map Char.toLower, u.authority⟩ := by
    simp only [urlsplit, text, String.toList_ofList, u.stripped_chars,
      u.splitScheme_chars, hauthority]
    simp [hopen, hclose, hnetloc]
  rw [urlparse, hsplit]
  exact ⟨_, rfl⟩

theorem urlparse_path {P : Platform} {r : ParseResult} (h : urlparse P u.text = .ok r) :
    r.path = if ';' ∈ u.path then (splitParams u.path).1 else u.path := by
  cases hs : urlsplit P u.text with
  | error e => simp [urlparse, hs, bind, Except.bind] at h
  | ok split =>
    have hscheme : String.ofList split.scheme ∈ usesParams := by
      rw [u.urlsplit_scheme hs]
      rcases u.scheme_http with h | h <;> rw [h, String.ofList_toList] <;> decide
    simp only [urlparse, hs, bind, Except.bind, u.splitPath_text, hscheme, true_and,
      pure, Except.pure, Except.ok.injEq] at h
    subst h
    split_ifs <;> rfl

end HttpUrl

theorem afterLast_suffix (c : Char) (s : List Char) : afterLast c s <:+ s := by
  have hprefix := List.takeWhile_prefix (l := s.reverse) (· ≠ c)
  simpa [afterLast] using List.reverse_suffix.mpr hprefix

theorem splitParams_eq_iff {url : List Char} :
    (splitParams url).1 = url ↔ ';' ∉ afterLast '/' url := by
  obtain ⟨front, hfront⟩ := afterLast_suffix '/' url
  have hlength := congrArg List.length hfront
  rw [List.length_append] at hlength
  have htake : url.take (url.length - (afterLast '/' url).length) = front := by
    rw [show url.length - (afterLast '/' url).length = front.length by omega]
    conv_lhs => rw [← hfront]
    simp
  have heq : (splitParams url).1 = url ↔ (afterLast '/' url).takeWhile (· ≠ ';') =
      afterLast '/' url := by
    simp only [splitParams, htake]
    conv_lhs => rhs; rw [← hfront]
    exact List.append_right_inj front
  rw [heq, List.takeWhile_eq_self_iff]
  constructor
  · intro h hmem
    simpa using h ';' hmem
  · intro h c hc
    have hne : c ≠ ';' := by
      rintro rfl
      exact h hc
    simpa using hne

theorem HttpUrl.path_eq_iff {P : Platform} {u : HttpUrl} {r : ParseResult}
    (h : urlparse P u.text = .ok r) :
    String.ofList r.path = u.requestPath ↔ u.PlainPath := by
  have hparsed := u.urlparse_path h
  have hsame : r.path = u.path ↔ ';' ∉ afterLast '/' u.path := by
    rw [hparsed]
    split_ifs with hsemi
    · exact splitParams_eq_iff
    · have hbare : ';' ∉ afterLast '/' u.path :=
        fun hmem => hsemi ((afterLast_suffix '/' u.path).mem hmem)
      simp [hbare]
  by_cases hempty : u.path = []
  · have hnil : r.path = [] := by simp [hparsed, hempty]
    have hne : String.ofList r.path ≠ u.requestPath := by
      rw [hnil, requestPath, if_pos hempty]
      decide
    exact iff_of_false hne fun hplain => hplain.present hempty
  · rw [requestPath, if_neg hempty, String.ofList_inj, hsame]
    exact ⟨fun hbare => ⟨hempty, hbare⟩, PlainPath.bare⟩

/-- What an envelope says of the route of its request. -/
structure SameRoute (sent env : SignedRequest) : Prop where
  target : env.targetNodeId = sent.targetNodeId
  method : env.method = sent.method
  path : env.path = sent.path

theorem SameRoute.trans {a b c : SignedRequest} (h : SameRoute a b) (h' : SameRoute b c) :
    SameRoute a c :=
  ⟨h'.target.trans h.target, h'.method.trans h.method, h'.path.trans h.path⟩

section Envelope

variable {P : Platform} {V : Scalars} {r env : SignedRequest}

theorem SignedRequest.read_fields {timestamp : Json} {signature : Option Signature}
    (h : Validated.read V
      (.obj (r.fields timestamp ++ optional "signature" Signature.toJson signature)) = some env) :
    SameRoute r env ∧ env.signature = signature := by
  simp only [Validated.read, readObject, required, defaulting_eq, SignedRequest.fields,
    List.cons_append, List.nil_append, lookup_field, lookup_optional] at h
  cases ht : V.datetime timestamp with
  | none => simp [readStr, ht] at h
  | some t =>
    cases hr : V.int (.int r.sourceManifestRevision) with
    | none => simp [readStr, ht, hr] at h
    | some n =>
      simp [readStr, ht, hr] at h
      subst h
      exact ⟨⟨rfl, rfl, rfl⟩, rfl⟩

theorem SignedRequest.dumpsAs {kvs : List (String × Json)} (h : Model.dump r = .ok kvs) :
    ∃ timestamp, DumpsAs r (r.fields timestamp) r.signature := by
  cases hts : serTs r.timestamp with
  | error e => simp [Model.dump, hts, bind, Except.bind] at h
  | ok timestamp =>
    refine ⟨timestamp, ?_, by simp [SignedRequest.fields]⟩
    simp [Model.dump, hts, bind, Except.bind, pure, Except.pure]

theorem elim_ok_iff {α : Type} {o : Option α} {e : Exc} {a : α} :
    o.elim (.error e) Except.ok = .ok a ↔ o = some a := by
  cases o <;> simp

theorem SignedRequest.signModel_route {key : Ed25519PrivateKey} {keyId : String}
    (h : signModel P V r key keyId = .ok env) : SameRoute r env ∧ env.signature ≠ none := by
  cases hd : Model.dump r with
  | error e => simp [signModel, hd, bind, Except.bind] at h
  | ok kvs =>
    obtain ⟨timestamp, hm⟩ := SignedRequest.dumpsAs hd
    simp only [signModel, hm.dump, signDict, hm.body, setMember_signature hm.unsigned, bind,
      Except.bind] at h
    cases hdata : canonicalBytes P (.obj (r.fields timestamp)) with
    | error e => simp [hdata] at h
    | ok data =>
      simp only [hdata, pure, Except.pure, elim_ok_iff] at h
      have hmade : SameRoute r env ∧ env.signature = some { keyId, sig := signBytes key data } :=
        SignedRequest.read_fields h
      exact ⟨hmade.1, by simp [hmade.2]⟩

theorem SignedRequest.overWire_route (h : overWire V r = .ok env) :
    SameRoute r env ∧ env.signature = r.signature := by
  cases hd : Model.dump r with
  | error e => simp [overWire, hd, bind, Except.bind] at h
  | ok kvs =>
    obtain ⟨timestamp, hm⟩ := SignedRequest.dumpsAs hd
    simp only [overWire, hm.dump, bind, Except.bind, elim_ok_iff] at h
    exact SignedRequest.read_fields h

theorem prepareRequest_envelope {client : SigningClient} {targetNodeId method url : String}
    {body : Bytes} {params : List (String × String)} {draw : Draw} {out : OutgoingRequest}
    (h : prepareRequest P V client targetNodeId method url body params draw = .ok out) :
    ∃ parsed, urlparse P url = .ok parsed ∧ out.url = url ∧
      out.envelope.targetNodeId = targetNodeId ∧
      out.envelope.method = P.upper method ∧ out.envelope.path = String.ofList parsed.path ∧
      out.envelope.signature ≠ none := by
  cases hp : urlparse P url with
  | error e => simp [prepareRequest, hp, bind, Except.bind] at h
  | ok parsed =>
    cases hs : signedHeaders P V client targetNodeId method (String.ofList parsed.path)
      body draw with
    | error e => simp [prepareRequest, hp, hs, bind, Except.bind] at h
    | ok envelope =>
      simp only [prepareRequest, hp, hs, bind, Except.bind, pure, Except.pure, Except.ok.injEq] at h
      obtain ⟨hroute, hsigned⟩ := SignedRequest.signModel_route hs
      subst h
      exact ⟨parsed, rfl, rfl, hroute.target, hroute.method, hroute.path, hsigned⟩

theorem envelopeReason_path {req : Inbound} {now : DateTime} (hsigned : env.signature ≠ none)
    (htarget : env.targetNodeId = req.selfNodeId) (hmethod : env.method = P.upper req.method) :
    envelopeReason P env req now = some "path_mismatch" ↔ env.path ≠ req.path := by
  have hsome : ¬ env.signature.isNone = true := by simpa using hsigned
  rw [envelopeReason, if_neg hsome, if_neg (not_not.mpr htarget), if_neg (not_not.mpr hmethod)]
  by_cases hpath : env.path = req.path
  · rw [if_neg (not_not.mpr hpath)]
    simp only [hpath, ne_eq, not_true_eq_false, iff_false]
    split_ifs <;> simp
  · simp [hpath]

theorem checkSignedRequestAt_path {jwk : JWK} {req : Inbound} {now : DateTime} :
    checkSignedRequestAt P env jwk req now = .ok (false, "path_mismatch") ↔
      envelopeReason P env req now = some "path_mismatch" := by
  rw [checkSignedRequestAt]
  cases envelopeReason P env req now with
  | some reason => simp
  | none =>
    cases hv : verifyModel P env jwk with
    | error e => simp [bind, Except.bind]
    | ok b => cases b <;> simp [bind, Except.bind, pure, Except.pure]

theorem claimNonce_path {req : Inbound} {verdict : Except Exc (Bool × String)} {world : Env}
    {s : NodeState} :
    ((claimNonce env req verdict).eval world.handle s).1 = .ok (false, "path_mismatch") ↔
      verdict = .ok (false, "path_mismatch") := by
  rcases verdict with e | ⟨ok, reason⟩
  · simp [claimNonce]
  · cases ok with
    | false => simp [claimNonce]
    | true =>
      cases hcache : req.cache with
      | false => simp [claimNonce, hcache]
      | true =>
        cases hclaimed : (s.nonceSet (nonceCacheKey env) req.maxSkewSeconds).1 <;>
          simp [claimNonce, hcache, Env.handle, hclaimed, Except.map]

theorem verifySignedRequest_path {jwk : JWK} {req : Inbound} (world : Env) (s : NodeState)
    (hsigned : env.signature ≠ none) (htarget : env.targetNodeId = req.selfNodeId)
    (hmethod : env.method = P.upper req.method) :
    ((verifySignedRequest P env jwk req).run.eval world.handle s).1 = .ok (false, "path_mismatch") ↔
      env.path ≠ req.path := by
  rw [verifySignedRequest_run, Task.eval_call, claimNonce_path, checkSignedRequestAt_path,
    envelopeReason_path hsigned htarget hmethod]

end Envelope

/-- A request to an http(s) URL is signed for the path its peer receives exactly
when the URL has a path without parameters in its last segment; otherwise the
honest peer answers `path_mismatch`. -/
theorem signed_path_iff (P : Platform) (V : Scalars) (client : SigningClient)
    (targetNodeId method : String) (url : HttpUrl) (body : Bytes) (params : List (String × String))
    (draw : Draw) (out : OutgoingRequest) (received : SignedRequest)
    (hsend : prepareRequest P V client targetNodeId method url.text body params draw = .ok out)
    (hwire : overWire V out.envelope = .ok received) :
    (out.envelope.path = url.requestPath ↔ url.PlainPath) ∧
      ∀ jwk maxBodyBytes maxSkewSeconds cache (world : Env) s,
        ((verifySignedRequest P received jwk
            (url.inbound targetNodeId method body maxBodyBytes maxSkewSeconds
            cache)).run.eval world.handle s).1 ≠ .ok (false, "path_mismatch") ↔ url.PlainPath := by
  obtain ⟨parsed, hparsed, _, htarget, hmethod, hpath, hsigned⟩ := prepareRequest_envelope hsend
  obtain ⟨hroute, hkept⟩ := SignedRequest.overWire_route hwire
  have hplain : out.envelope.path = url.requestPath ↔ url.PlainPath := by
    rw [hpath]
    exact url.path_eq_iff hparsed
  refine ⟨hplain, ?_⟩
  intro jwk maxBodyBytes maxSkewSeconds cache world s
  rw [ne_eq, verifySignedRequest_path world s (by rwa [hkept]) (hroute.target.trans htarget)
    (hroute.method.trans hmethod), hroute.path, not_not]
  exact hplain

def alphaClient : SigningClient :=
  { nodeId := "alpha", federationId := "fed", key := alphaSigner, keyId := "k1",
    manifestRevision := 3 }

def alphaDraw : Draw := { requestId := "r-1", nonce := [7], now := newYear2026 }

def membersUrl : HttpUrl where
  scheme := "https".toList
  authority := "beta.example".toList
  path := "/members".toList
  tail := "?since=c1".toList
  scheme_http := .inr (by simp)
  authority_end := by simp
  path_rooted := by simp
  path_end := by simp
  tail_start := by simp
  plain := by simp [plainChar]

def versionedUrl : HttpUrl :=
  { membersUrl with
    path := "/members;v=1".toList
    path_rooted := by simp
    path_end := by simp
    plain := by simp [membersUrl, plainChar] }

theorem alpha_sends (targetNodeId method : String) {url : HttpUrl} (body : Bytes)
    (hparse : ∃ parsed, urlparse signingPlatform url.text = .ok parsed) :
    ∃ out received, prepareRequest signingPlatform strictScalars alphaClient targetNodeId method
      url.text body [] alphaDraw = .ok out ∧ overWire strictScalars out.envelope =
      .ok received := by
  obtain ⟨parsed, hparsed⟩ := hparse
  let env : SignedRequest :=
    { federationId := "fed", requestId := "r-1", sourceNodeId := "alpha", targetNodeId
      method := signingPlatform.upper method, path := String.ofList parsed.path,
      timestamp := newYear2026
      nonce := b64uEncode [7], bodySha256 := sha256Hex signingPlatform body,
      sourceManifestRevision := 3 }
  obtain ⟨kvs, hdump⟩ := SignedRequest.dump_ok (r := env)
    (show newYear2026.utcRepresentable = true by decide)
  have hints : Json.safeFields kvs = true := by
    have hts := serTs_stampJson (show newYear2026.utcRepresentable = true by decide)
    simp only [Model.dump, env, hts, bind, Except.bind, pure, Except.pure, Except.ok.injEq] at hdump
    subst hdump
    simp [SignedRequest.fields, Json.safeFields, Json.safe, Json.safeInt, optional, stampJson]
  obtain ⟨envelope, received, hsigned, hwire, _⟩ :=
    (settles_signedRequest strictScalars_faithful).verifies
    (fun _ _ => dictDumps_congr) (fun _ => dictDumps_safe) alphaSigner_ideal "k1" hdump hints
  have hheaders : signedHeaders signingPlatform strictScalars alphaClient targetNodeId method
      (String.ofList parsed.path) body alphaDraw = .ok envelope := hsigned
  refine ⟨⟨method, url.text, body, [], envelope⟩, received, ?_, hwire⟩
  simp only [prepareRequest, hparsed, hheaders, bind, Except.bind, pure, Except.pure]

theorem membersUrl_signed : membersUrl.PlainPath ∧ ∃ out received,
    prepareRequest signingPlatform strictScalars alphaClient "beta" "GET" membersUrl.text []
      [] alphaDraw = .ok out ∧
      overWire strictScalars out.envelope = .ok received ∧
      out.envelope.path = membersUrl.requestPath := by
  have hplain : membersUrl.PlainPath := ⟨by simp [membersUrl], by simp [membersUrl, afterLast]⟩
  obtain ⟨out, received, hsend, hwire⟩ :=
    alpha_sends "beta" "GET" [] (membersUrl.exists_urlparse (by simp [membersUrl])
    (by simp [membersUrl]) rfl)
  have hpath := (signed_path_iff signingPlatform strictScalars alphaClient "beta" "GET" membersUrl
    [] [] alphaDraw out received hsend hwire).1.mpr hplain
  exact ⟨hplain, out, received, hsend, hwire, hpath⟩

/-- With a path parameter the peer refuses what it was honestly sent. -/
theorem versionedUrl_refused : ∃ out received,
    prepareRequest signingPlatform strictScalars alphaClient "beta" "GET" versionedUrl.text []
      [] alphaDraw = .ok out ∧
      overWire strictScalars out.envelope = .ok received ∧
      out.envelope.path ≠ versionedUrl.requestPath ∧
      ((verifySignedRequest signingPlatform received alphaKey
        (versionedUrl.inbound "beta" "GET" [] none 300
        true)).run.eval silentWorld.handle emptyNode).1 = .ok (false, "path_mismatch") := by
  obtain ⟨out, received, hsend, hwire⟩ :=
    alpha_sends "beta" "GET" [] (versionedUrl.exists_urlparse (by simp [versionedUrl, membersUrl])
    (by simp [versionedUrl, membersUrl]) rfl)
  obtain ⟨parsed, hparsed, _, htarget, hmethod, hpath, hsigned⟩ := prepareRequest_envelope hsend
  obtain ⟨hroute, hkept⟩ := SignedRequest.overWire_route hwire
  have hne : out.envelope.path ≠ versionedUrl.requestPath := by
    rw [hpath, ne_eq, HttpUrl.path_eq_iff hparsed]
    rintro ⟨_, hbare⟩
    simp [versionedUrl, afterLast] at hbare
  refine ⟨out, received, hsend, hwire, hne, ?_⟩
  exact (verifySignedRequest_path silentWorld emptyNode (by rwa [hkept])
    (hroute.target.trans htarget) (hroute.method.trans hmethod)).mpr (hroute.path ▸ hne)

end Federlet
