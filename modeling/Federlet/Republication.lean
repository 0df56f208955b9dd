import Federlet.Publication
import Federlet.OnePeer

/-! Manifests published again. A peer that holds one of a node's manifests refreshes it
from a later one, under the same key or a new one. -/

namespace Federlet

open Coop

/-- Both publications are listed under one key. -/
def SameKey (key : Ed25519PrivateKey) (keyId : String) (key' : Ed25519PrivateKey)
    (keyId' : String) : Prop :=
  keyId' = keyId ∧ key'.publicBytes = key.publicBytes

instance {key key' : Ed25519PrivateKey} {keyId keyId' : String} :
    Decidable (SameKey key keyId key' keyId') :=
  inferInstanceAs (Decidable (_ ∧ _))

theorem publicJwk_congr {key key' : Ed25519PrivateKey} (h : key'.publicBytes = key.publicBytes) :
    publicJwk key' = publicJwk key := by
  rw [publicJwk, publicJwk, h]

theorem JWK.eq_publicJwk_iff {key key' : Ed25519PrivateKey} :
    JWK.eq (publicJwk key) (publicJwk key') = true ↔ key'.publicBytes = key.publicBytes := by
  constructor
  · intro h
    have hx := Keyed.beqBy_iff.mp h "x"
    have hfield : ∀ k : Ed25519PrivateKey, (publicJwk k).get "x" =
        some ("x", b64uEncode k.publicBytes) := fun k => by
      simp [publicJwk]
      rfl
    rw [hfield, hfield] at hx
    cases hx with
    | some heq =>
      have hencoded : b64uEncode key.publicBytes = b64uEncode key'.publicBytes := by simpa using heq
      have hdecoded := congrArg b64uDecode hencoded
      rw [b64uDecode_b64uEncode, b64uDecode_b64uEncode] at hdecoded
      exact (Except.ok.inj hdecoded).symm
  · intro h
    rw [publicJwk_congr h]
    refine Keyed.beqBy_iff.mpr fun k => ?_
    cases (publicJwk key).get k with
    | none => exact .none
    | some kv => exact .some (by simp)

section Republished

variable {P : Platform} {V : Scalars} {key key' : Ed25519PrivateKey} {keyId keyId' : String}
  {p p' : Publication} {t t' : DateTime} {current received : Manifest} {env : Env} {s : NodeState}

theorem sameKeys_single_iff {current received : Manifest}
    (hold : current.publicKeys = [{ keyId, publicJwk := publicJwk key }])
    (hnew : received.publicKeys = [{ keyId := keyId', publicJwk := publicJwk key' }]) :
    sameKeys (keyDict current.publicKeys) (keyDict received.publicKeys) = true ↔
      SameKey key keyId key' keyId' := by
  have hdict : ∀ (id : String) (k : Ed25519PrivateKey),
      keyDict [{ keyId := id, publicJwk := publicJwk k }] =
      ⟨[(id, publicJwk k)], by simp⟩ := fun _ _ => rfl
  rw [hold, hnew, hdict, hdict, sameKeys, Keyed.beqBy]
  simp only [List.length_cons, List.length_nil, List.all_cons, List.all_nil, Bool.and_true,
    beq_self_eq_true, Bool.true_and, Keyed.get, List.find?_cons, List.find?_nil]
  by_cases hid : keyId' = keyId
  · subst hid
    simp [SameKey, JWK.eq_publicJwk_iff]
  · have hne : (keyId' == keyId) = false := by simpa using hid
    simp [SameKey, hid, hne]

theorem verifies_other (hV : V.Faithful)
    (hcanon : ∀ a b, a.Same b → P.rfc8785Dumps a = P.rfc8785Dumps b) (hkey' : key'.Ideal P)
    (hforeign : ∀ data data', P.ed25519Verify key.publicBytes (key'.sign data) data' = false)
    (h : Published P V key' keyId' p' t' received) :
    verifyModel P received (publicJwk key) = .ok false := by
  have hverified := h.verifies hV hcanon hkey'
  obtain ⟨unsigned, hunsigned, hkept, data, hsignature⟩ := h.kept hV
  cases hdump : Model.dump received with
  | error e => simp [verifyModel, hdump, bind, Except.bind] at hverified
  | ok kvs =>
    obtain ⟨fields, hm, _⟩ := Manifest.dumpsAs hV hdump
    rw [hm.verifyModel_eq, hsignature, documentVerdict] at hverified ⊢
    cases hbytes : canonicalBytes P (.obj fields) with
    | error e => simp [hbytes, bind, Except.bind] at hverified
    | ok data' =>
      have hfalse := hforeign data data'
      simp only [bind, Except.bind, verifyBytes, verifySignature,
        publicKeyFromJwk_publicJwk, signBytes, b64uDecode_b64uEncode, pure, Except.pure, hfalse]

theorem published_continuityByKeys (hV : V.Faithful)
    (hcanon : ∀ a b, a.Same b → P.rfc8785Dumps a = P.rfc8785Dumps b) (hkey' : key'.Ideal P)
    (hforeign : key'.publicBytes ≠ key.publicBytes →
      ∀ data data', P.ed25519Verify key.publicBytes (key'.sign data) data' = false)
    (hold : Published P V key keyId p t current) (hnew : Published P V key' keyId' p' t' received)
    (hnode : p'.nodeId = p.nodeId) (horg : p'.orgId = p.orgId) (policy : KeyContinuityPolicy) :
    continuityByKeys P current received policy =
      if SameKey key keyId key' keyId' then .ok (some { action := .accept })
      else if !policy.allowKeyRotation then .ok (some ⟨.reject, "rotation_denied"⟩)
      else .ok none := by
  obtain ⟨u, hu, hkept, _⟩ := hold.kept hV
  obtain ⟨u', hu', hkept', data, hsignature⟩ := hnew.kept hV
  obtain ⟨hnode₁, horg₁, _, _, hkeys₁⟩ := Publication.manifest_ok hu
  obtain ⟨hnode₂, horg₂, _, _, hkeys₂⟩ := Publication.manifest_ok hu'
  have hsameNode : current.nodeId = received.nodeId := by
    rw [hkept.nodeId, hkept'.nodeId, hnode₁, hnode₂, hnode]
  have hsameOrg : current.orgId = received.orgId := by
    rw [hkept.orgId, hkept'.orgId, horg₁, horg₂, horg]
  have holdKeys := hkept.publicKeys.trans hkeys₁
  have hnewKeys := hkept'.publicKeys.trans hkeys₂
  have hsame := sameKeys_single_iff holdKeys hnewKeys
  rw [continuityByKeys, if_neg (not_not.mpr hsameNode), if_neg (not_not.mpr hsameOrg)]
  by_cases hkeys : SameKey key keyId key' keyId'
  · rw [if_pos (hsame.mpr hkeys), if_pos hkeys]
  · rw [if_neg (mt hsame.mp hkeys), if_neg hkeys]
    by_cases hallow : policy.allowKeyRotation = true
    swap
    · simp [hallow]
    simp only [hallow, Bool.not_true, Bool.false_eq_true, ↓reduceIte, hsignature]
    have hdict : (keyDict current.publicKeys).lookup keyId' = if keyId = keyId'
        then some (publicJwk key) else none := by
      rw [holdKeys]
      by_cases hid : keyId = keyId'
      · subst hid
        simp [keyDict, Dict.lookup, Keyed.get_ofList]
      · simp [keyDict, Dict.lookup, Keyed.get_ofList, hid]
    rw [hdict]
    by_cases hid : keyId = keyId'
    · subst hid
      have hbytes : key'.publicBytes ≠ key.publicBytes := fun h => hkeys ⟨rfl, h⟩
      have hfalse := verifies_other hV hcanon hkey' (hforeign hbytes) hnew
      simp [hfalse, bind, Except.bind, pure, Except.pure]
    · simp [hid]

/-- The host's evidence verifier takes the new key on. -/
def Vouched (env : Env) (policy : KeyContinuityPolicy) (received : Manifest) : Prop :=
  policy.allowKeyRotation = true ∧ ∃ verifier reason, policy.evidenceVerifier = some verifier ∧
    env.hostCallback verifier received = .ok (true, reason)

theorem published_continuity (env : Env) (s : NodeState) (hV : V.Faithful)
    (hcanon : ∀ a b, a.Same b → P.rfc8785Dumps a = P.rfc8785Dumps b)
    (hkey' : key'.Ideal P) (hforeign : key'.publicBytes ≠ key.publicBytes →
      ∀ data data', P.ed25519Verify key.publicBytes (key'.sign data) data' = false)
    (hold : Published P V key keyId p t current) (hnew : Published P V key' keyId' p' t' received)
    (hnode : p'.nodeId = p.nodeId) (horg : p'.orgId = p.orgId) (policy : Option KeyContinuityPolicy)
    (o : Origin) :
    ∃ r, (checkKeyContinuity P o current received policy).run.eval env.handle s = (r, s) ∧
      ((∃ reason, r = .ok ⟨.accept, reason⟩) ↔
        SameKey key keyId key' keyId' ∨ Vouched env (policy.getD {}) received) := by
  have hbykeys := published_continuityByKeys hV hcanon hkey' hforeign hold hnew hnode horg
    (policy.getD {})
  rw [checkKeyContinuity, Task.eval_run_bind, raising, Task.run_lift, Task.eval_done, hbykeys]
  by_cases hkeys : SameKey key keyId key' keyId'
  · rw [if_pos hkeys]
    exact ⟨_, rfl, iff_of_true ⟨_, rfl⟩ (.inl hkeys)⟩
  rw [if_neg hkeys]
  by_cases hallow : (policy.getD {}).allowKeyRotation = true
  swap
  · have hno : ¬ Vouched env (policy.getD {}) received := fun h => hallow h.1
    rw [if_pos (by simpa using hallow)]
    refine ⟨_, rfl, iff_of_false ?_ (by simp [hkeys, hno])⟩
    rintro ⟨_, ⟨⟩⟩
  rw [if_neg (by simpa using hallow), Task.andThen_ok]
  dsimp only
  cases hverifier : (policy.getD {}).evidenceVerifier with
  | none =>
    refine ⟨_, rfl, iff_of_false ?_ (by simp [hkeys, Vouched, hverifier])⟩
    rintro ⟨_, ⟨⟩⟩
  | some verifier =>
    have hcall : (hostCallback o verifier received).run.eval env.handle s =
        (env.hostCallback verifier received, s) := rfl
    rw [Task.eval_run_bind, hcall]
    cases hanswer : env.hostCallback verifier received with
    | error e =>
      refine ⟨_, rfl, iff_of_false ?_ (by simp [hkeys, Vouched, hverifier, hanswer])⟩
      rintro ⟨_, ⟨⟩⟩
    | ok told =>
      obtain ⟨ok, reason⟩ := told
      cases ok with
      | true =>
        exact ⟨_, rfl, iff_of_true ⟨_, rfl⟩ (.inr ⟨hallow, verifier, reason, hverifier, hanswer⟩)⟩
      | false =>
        have hno : ¬ (SameKey key keyId key' keyId' ∨ Vouched env (policy.getD {}) received) := by
          simp [hkeys, Vouched, hverifier, hanswer]
        by_cases hdenied : reason = "rotation_denied"
        · subst hdenied
          refine ⟨_, rfl, iff_of_false ?_ hno⟩
          rintro ⟨_, ⟨⟩⟩
        · rw [Task.andThen_ok]
          simp only [Bool.false_eq_true, ↓reduceIte, hdenied]
          refine ⟨_, rfl, iff_of_false ?_ hno⟩
          rintro ⟨_, ⟨⟩⟩

/-- The second publication takes the place of the first. -/
structure Succession (key : Ed25519PrivateKey) (keyId : String) (p : Publication)
    (key' : Ed25519PrivateKey) (keyId' : String) (p' : Publication) (received : Manifest)
    (env : Env) (now : DateTime) (policy : KeyContinuityPolicy) (skew : Int) : Prop where
  fresh : timeVerdict received.issuedAt received.expiresAt now skew = (true, "ok")
  forward : p.revision ≤ p'.revision
  linked : SameKey key keyId key' keyId' ∨ Vouched env policy received

theorem timeVerdict_reasons {issuedAt expiresAt : Option DateTime} {now : DateTime} {skew : Int} :
    timeVerdict issuedAt expiresAt now skew = (true, "ok") ∨
      timeVerdict issuedAt expiresAt now skew = (false, "expired") ∨
      timeVerdict issuedAt expiresAt now skew = (false, "not_yet_valid") := by
  rw [timeVerdict]
  split_ifs <;> simp

def refreshOutcome (P : Platform) (env : Env) (policy : Option KeyContinuityPolicy) (s : NodeState)
    (current : Manifest) :
    Except Exc Manifest → Except Exc ManifestRefreshDecision × NodeState
  | .error exc => (refreshFailure current.revision exc, s)
  | .ok refreshed =>
    if refreshed.revision < current.revision then
      (.ok { action := .reject, reason := "revision_rollback", manifest := some refreshed,
             oldRevision := some current.revision, newRevision := some refreshed.revision }, s)
    else
      let r := (checkKeyContinuity P (.fetch current.nodeId) current refreshed policy).run.eval
        env.handle s
      (r.1.map (continuityDecision current refreshed), r.2)

theorem refreshPeerManifest_eval {client : FederationClient} {url : String}
    {policy : Option KeyContinuityPolicy} {skew : Int} {fetched : Except Exc Manifest}
    (hfetch : (fetchManifest P client (.fetch current.nodeId) url skew).run.eval env.handle s =
      (fetched, s)) :
    (refreshPeerManifest P client current url policy skew).run.eval env.handle s =
      refreshOutcome P env policy s current fetched := by
  rw [refreshPeerManifest, Task.eval_run_bind, Task.run_attempt, Task.eval_bind, hfetch,
    Task.eval_done, Task.andThen_ok]
  cases fetched with
  | error exc => rfl
  | ok refreshed =>
    rw [refreshOutcome]
    dsimp only
    by_cases hback : refreshed.revision < current.revision
    · rw [if_pos hback, if_pos hback]
      rfl
    · rw [if_neg hback, if_neg hback, Task.eval_run_bind]
      cases (checkKeyContinuity P (.fetch current.nodeId) current refreshed policy).run.eval
        env.handle s with
      | mk r s' => cases r <;> rfl

theorem republished_decision (policy : Option KeyContinuityPolicy) (hV : V.Faithful)
    (hcanon : ∀ a b, a.Same b → P.rfc8785Dumps a = P.rfc8785Dumps b)
    (hkey' : key'.Ideal P) (hforeign : key'.publicBytes ≠ key.publicBytes →
      ∀ data data', P.ed25519Verify key.publicBytes (key'.sign data) data' = false)
    (hold : Published P V key keyId p t current) (hnew : Published P V key' keyId' p' t' received)
    (hnode : p'.nodeId = p.nodeId) (horg : p'.orgId = p.orgId) {client : FederationClient}
    {url : String} {skew : Int}
    (hfetch : (fetchManifest P client (.fetch current.nodeId) url skew).run.eval env.handle s =
      (fetchVerdict received (timeVerdict received.issuedAt received.expiresAt
        (env.now (.fetch current.nodeId) s.clock) skew), s)) :
    ∃ r, (refreshPeerManifest P client current url policy skew).run.eval env.handle s = (r, s) ∧
      (Succession key keyId p key' keyId' p' received env (env.now (.fetch current.nodeId) s.clock)
        (policy.getD {}) skew →
        ∃ d, r = .ok d ∧ (d.action = .accept ∨ d.action = .unchanged) ∧
        d.manifest = some received) ∧
      (¬ Succession key keyId p key' keyId' p' received env
        (env.now (.fetch current.nodeId) s.clock) (policy.getD {}) skew →
        (∃ e, r = .error e) ∨ ∃ d, r = .ok d ∧ (d.action = .quarantine ∨ d.action = .reject)) := by
  obtain ⟨u, hu, hkept, _⟩ := hold.kept hV
  obtain ⟨u', hu', hkept', _⟩ := hnew.kept hV
  have hrevision : current.revision = p.revision :=
    hkept.revision.trans (Publication.manifest_ok hu).2.2.2.1
  have hrevision' : received.revision = p'.revision :=
    hkept'.revision.trans (Publication.manifest_ok hu').2.2.2.1
  rw [refreshPeerManifest_eval hfetch]
  rcases @timeVerdict_reasons received.issuedAt received.expiresAt
    (env.now (.fetch current.nodeId) s.clock) skew with hverdict | hverdict | hverdict
  · rw [hverdict, fetchVerdict, refreshOutcome]
    by_cases hback : received.revision < current.revision
    · rw [if_pos hback]
      have hno : ¬ Succession key keyId p key' keyId' p' received env
          (env.now (.fetch current.nodeId) s.clock) (policy.getD {}) skew := by
        intro h
        have hforward := h.forward
        omega
      exact ⟨_, rfl, fun h => absurd h hno, fun _ => .inr ⟨_, rfl, .inr rfl⟩⟩
    rw [if_neg hback]
    obtain ⟨continuity, heval, haccept⟩ :=
      published_continuity env s hV hcanon hkey' hforeign hold hnew
      hnode horg policy (.fetch current.nodeId)
    rw [heval]
    refine ⟨_, rfl, fun h => ?_, fun h => ?_⟩
    · obtain ⟨reason, rfl⟩ := haccept.mpr h.linked
      refine ⟨_, rfl, ?_, ?_⟩
      · by_cases hsame : received.revision = current.revision <;> simp [continuityDecision, hsame]
      · by_cases hsame : received.revision = current.revision <;> simp [continuityDecision, hsame]
    · cases continuity with
      | error e => exact .inl ⟨e, rfl⟩
      | ok d =>
        have hnot : d.action ≠ .accept := by
          intro hd
          have hlinked := haccept.mp ⟨d.reason, by rw [← hd]⟩
          exact h ⟨hverdict, by omega, hlinked⟩
        refine .inr ⟨_, rfl, ?_⟩
        simp only [continuityDecision, ne_eq, hnot, not_false_eq_true, ↓reduceIte]
        cases hd : d.action <;> simp_all [KeyContinuityAction.toRefresh]
  all_goals
    have hno : ¬ Succession key keyId p key' keyId' p' received env
      (env.now (.fetch current.nodeId) s.clock) (policy.getD {}) skew := by
      intro h
      have hfresh := h.fresh
      simp [hverdict] at hfresh
    rw [hverdict]
    exact ⟨_, rfl, fun h => absurd h hno, fun _ => .inr ⟨_, rfl, .inl rfl⟩⟩

theorem settle_outcome (node : FederationNode) (now : DateTime) {s : NodeState} {n : String}
    {rec : MemberRecord} {current : Manifest} (hrec : s.membershipTable.get n = some rec)
    (hcached : s.peerManifests.get n = some current) (d : ManifestRefreshDecision) :
    (∀ manifest : Manifest, manifest.nodeId = n → d.manifest = some manifest → d.action = .accept ∨
      d.action = .unchanged →
      (s.settle node now (n, d)).peerManifests.get n = some manifest ∧
        (s.settle node now (n, d)).stateOf n = some .active) ∧
    (d.action = .quarantine → (s.settle node now (n, d)).peerManifests.get n = some current ∧
      (s.settle node now (n, d)).stateOf n = some .staleManifest) ∧
    (d.action = .reject → (s.settle node now (n, d)).peerManifests.get n = none ∧
      (s.settle node now (n, d)).stateOf n = some .rejected) := by
  obtain ⟨table, hframe⟩ := s.settle_frame node now n d
  have hcache : (s.settle node now (n, d)).peerManifests = (d.carry node n s).peerManifests :=
    by rw [hframe]
  have hstate : (s.settle node now (n, d)).stateOf n = some (d.amend now rec).state := by
    rw [NodeState.stateOf, NodeState.settle_get, hrec]
    rfl
  rw [hcache, hstate]
  refine ⟨?_, fun h => ?_, fun h => ?_⟩
  · rintro manifest rfl hmanifest haction
    have hput : (s.peerManifests.upsert manifest).get manifest.nodeId = some manifest :=
      Keyed.get_upsert_self _ _
    rcases haction with haction | haction
    all_goals
      rw [ManifestRefreshDecision.carry, ManifestRefreshDecision.amend, haction, hmanifest]
      exact ⟨hput, rfl⟩
  · rw [ManifestRefreshDecision.carry, ManifestRefreshDecision.amend, h]
    exact ⟨hcached, rfl⟩
  · rw [ManifestRefreshDecision.carry, ManifestRefreshDecision.amend, h]
    exact ⟨Keyed.get_erase_self _ _, rfl⟩

end Republished

/-- A peer that refreshes a node from what the node published again puts it in the
place of what it held exactly if its dates hold, its revision does not go back, and its
key is listed as before or the host's evidence verifier takes it on. Otherwise the peer
no longer counts the node active and keeps no other manifest, unless the verifier raised. -/
theorem republication_outcome (P : Platform) (V : Scalars) (hV : V.Faithful)
    (hcanon : ∀ a b, a.Same b → P.rfc8785Dumps a = P.rfc8785Dumps b)
    (hvalidate : ∀ j m, Validated.read V j = some m → P.validateManifest j = .ok m)
    (key key' : Ed25519PrivateKey) (hkey' : key'.Ideal P)
    (hforeign : key'.publicBytes ≠ key.publicBytes →
      ∀ data data', P.ed25519Verify key.publicBytes (key'.sign data) data' = false)
    (keyId keyId' : String) (p p' : Publication) (hnode : p'.nodeId = p.nodeId)
    (horg : p'.orgId = p.orgId) (t t' : DateTime) (current served : Manifest)
    (hcurrent : Published P V key keyId p t current)
    (hserved : Published P V key' keyId' p' t' served) (body : List (String × Json))
    (hdump : Model.dump served = .ok body) (node : FederationNode) (env : Env) (url : String)
    (hserves : ServedAt P node.client env (.fetch p.nodeId) url body)
    (policy : Option KeyContinuityPolicy) (skew : Int) (hskew : 0 ≤ skew) :
    ∃ received unsigned, p'.manifest key' keyId' t' = .ok unsigned ∧ Kept unsigned received ∧
      ∀ (s : NodeState) (rec : MemberRecord), s.membershipTable.get p.nodeId = some rec →
        rec.manifestUrl = url →
        s.peerManifests.get p.nodeId = some current →
        WithinCalendar received.issuedAt received.expiresAt
          (env.now (.fetch p.nodeId) s.clock) skew →
        let r := (node.refreshPeer P p.nodeId policy skew).run.eval env.handle s
        let succeeds := Succession key keyId p key' keyId' p' received env
          (env.now (.fetch p.nodeId) s.clock) (policy.getD {}) skew
        (succeeds → (∃ d, r.1 = .ok d) ∧ r.2.peerManifests.get p.nodeId = some received ∧
          r.2.stateOf p.nodeId = some .active) ∧
        (¬ succeeds → (∃ e, r = (.error e, s)) ∨
          ((∃ d, r.1 = .ok d) ∧ r.2.peerManifests.get p.nodeId = some current ∧
            r.2.stateOf p.nodeId = some .staleManifest) ∨
          ((∃ d, r.1 = .ok d) ∧ r.2.peerManifests.get p.nodeId = none ∧
            r.2.stateOf p.nodeId = some .rejected)) := by
  obtain ⟨received, hsent⟩ := (settles_manifest hV).exists_hop hdump
  have hreceived := hserved.sent hsent
  obtain ⟨unsigned, hunsigned, hkept, _⟩ := hreceived.kept hV
  refine ⟨received, unsigned, hunsigned, hkept, fun s rec hrec hurl hcached hbounds => ?_⟩
  subst hurl
  have hread : P.validateManifest (.obj body) = .ok received := by
    apply hvalidate
    rw [overWire, hdump] at hsent
    exact elim_ok_iff.mp hsent
  obtain ⟨unsigned₀, hunsigned₀, hkept₀, _⟩ := hcurrent.kept hV
  have hcurrentNode : current.nodeId = p.nodeId :=
    hkept₀.nodeId.trans (Publication.manifest_ok hunsigned₀).1
  have hreceivedNode : received.nodeId = p.nodeId :=
    (hkept.nodeId.trans (Publication.manifest_ok hunsigned).1).trans hnode
  have hfetch := hserves.fetch hread (hreceived.judged hV hcanon hkey' hskew hbounds)
  rw [← hcurrentNode] at hfetch hrec hcached ⊢
  obtain ⟨r, heval, haccept, hrefuse⟩ :=
    republished_decision policy hV hcanon hkey' hforeign hcurrent hreceived hnode horg hfetch
  have hrefreshed : refreshed P node env policy skew s (current, rec.manifestUrl) =
      r.map fun decision => (current.nodeId, decision) := by
    rw [refreshed, heval]
  rw [refreshPeer_eval hrec hcached, hrefreshed]
  refine ⟨fun h => ?_, fun h => ?_⟩
  · obtain ⟨d, rfl, haction, hmanifest⟩ := haccept h
    have hout := (settle_outcome node (env.now .refresh s.clock) hrec hcached d).1 received
      (hreceivedNode.trans hcurrentNode.symm) hmanifest haction
    exact ⟨⟨d, rfl⟩, hout⟩
  · rcases hrefuse h with ⟨e, rfl⟩ | ⟨d, rfl, haction | haction⟩
    · exact .inl ⟨e, rfl⟩
    · have hout := (settle_outcome node (env.now .refresh s.clock) hrec hcached d).2.1 haction
      exact .inr (.inl ⟨⟨d, rfl⟩, hout⟩)
    · have hout := (settle_outcome node (env.now .refresh s.clock) hrec hcached d).2.2 haction
      exact .inr (.inr ⟨⟨d, rfl⟩, hout⟩)

def trustingAlpha (current : Manifest) : NodeState :=
  { emptyNode with
    membershipTable := Keyed.ofList [alphaRecord]
    peerManifests := Keyed.ofList [current] }

theorem spareSigner_foreign (data data' : Bytes) :
    publishingPlatform.ed25519Verify alphaSigner.publicBytes (spareSigner.sign data)
      data' = false := by
  have hone : ∀ d, spareSigner.sign data ≠ alphaSigner.sign d := by
    intro d h
    have hhead := congrArg (fun sig => sig.head?) h
    by_cases hd : d = fadingBytes
    · have hfading : (alphaSigner.sign d).head? = some 140 := by
        rw [hd]
        decide +kernel
      simp [spareSigner, hfading] at hhead
    · simp [spareSigner, alphaSigner, hd, standIn] at hhead
  have hother := beq_false_of_ne spareSigner_other.symm
  simp only [publishingPlatform, beq_false_of_ne (hone data'), hother, Bool.and_false,
    Bool.false_and, Bool.or_self]

theorem alphaRotation_refused : ∃ (env : Env) (s : NodeState),
    (∃ e, (beta.refreshPeer publishingPlatform "alpha" none 0).run.eval env.handle s =
      (.error e, s)) ∨
      ((beta.refreshPeer publishingPlatform "alpha" none 0).run.eval env.handle s).2.stateOf
        "alpha" ≠ some .active := by
  obtain ⟨current, _, hcurrent, _⟩ := alphaPublication_built alphaSigner "k1" alphaSigner_publishes
  obtain ⟨served, body, hserved, hbody⟩ :=
    alphaPublication_built spareSigner "k2" spareSigner_publishes
  obtain ⟨received, _, _, _, hout⟩ := republication_outcome publishingPlatform strictScalars
    strictScalars_faithful (fun _ _ => dictDumps_congr) publishingPlatform_validates alphaSigner
    spareSigner spareSigner_publishes (fun _ => spareSigner_foreign) "k1" "k2" alphaPublication
    alphaPublication rfl rfl newYear2026 newYear2026 current served hcurrent hserved body hbody beta
    (servingWorld body) _ (servingWorld_serves body _) none 0 (by decide)
  obtain ⟨unsigned, hunsigned, hkept, _⟩ := hcurrent.kept strictScalars_faithful
  have hnode : current.nodeId = "alpha" := hkept.nodeId.trans (Publication.manifest_ok hunsigned).1
  have hcached : (trustingAlpha current).peerManifests.get alphaPublication.nodeId =
      some current := by
    simp [trustingAlpha, Keyed.get_ofList, hnode, alphaPublication]
  have hrefused := (hout (trustingAlpha current) alphaRecord rfl rfl hcached
    (withinCalendar_zero _ _ _)).2 ?_
  · refine ⟨servingWorld body, trustingAlpha current, ?_⟩
    rcases hrefused with hraised | ⟨_, _, hstale⟩ | ⟨_, _, hrejected⟩
    · exact .inl hraised
    · refine .inr fun hactive => ?_
      cases hactive.symm.trans hstale
    · refine .inr fun hactive => ?_
      cases hactive.symm.trans hrejected
  · rintro ⟨_, _, ⟨hid, _⟩ | ⟨_, _, _, hverifier, _⟩⟩
    · revert hid
      decide
    · cases hverifier

end Federlet
