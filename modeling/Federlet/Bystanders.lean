import Federlet.OnePeer
import Federlet.Recovery

/-! A round of refreshes and the peers it is about. What fetching one of them comes to
concerns no other, as long as it is something the round has a decision for. -/

namespace Federlet

open Coop

/-- What is known of the node is the same, up to the stamp of its last refresh. -/
structure AlikeFor (p : String) (s s' : NodeState) : Prop where
  record : (s'.membershipTable.get p).map MemberRecord.unstamped = (s.membershipTable.get p).map
    MemberRecord.unstamped
  cached : s'.peerManifests.get p = s.peerManifests.get p
  stored : s'.manifestStore.get p = s.manifestStore.get p

namespace AlikeFor

variable {p : String} {s s' s'' : NodeState}

theorem refl (p : String) (s : NodeState) : AlikeFor p s s := ⟨rfl, rfl, rfl⟩

theorem symm (h : AlikeFor p s s') :
    AlikeFor p s' s := ⟨h.record.symm, h.cached.symm, h.stored.symm⟩

theorem trans (h : AlikeFor p s s') (h' : AlikeFor p s' s'') : AlikeFor p s s'' :=
  ⟨h'.record.trans h.record, h'.cached.trans h.cached, h'.stored.trans h.stored⟩

end AlikeFor

/-- Both calls return, and for every peer but `q` decide alike and leave the same behind. -/
def IsolatedFrom (q : String)
    (run run' : Except Exc (Dict ManifestRefreshDecision) × NodeState) : Prop :=
  ∃ decisions decisions', run.1 = .ok decisions ∧ run'.1 = .ok decisions' ∧
    ∀ p, p ≠ q → decisions'.lookup p = decisions.lookup p ∧ AlikeFor p run.2 run'.2

/-- From the same eligible peers on, the two differ in what is asked on behalf of `q` only. -/
structure DiffersAt (q : String) (s : NodeState) (env env' : Env) : Prop where
  others : ∀ p, p ≠ q → env.AgreesFor (.fetch p) env'
  due : s.due env' = s.due env

/-- The exceptions `refresh_peer_manifest` has a decision for. -/
def Foreseen (exc : Exc) : Prop :=
  (∃ reason, exc = .manifestVerificationError reason) ∨
    ∃ reason, transportFailureReason exc = some reason

/-- Key continuity between the two comes to a verdict: the key held under the id of the
new signature, where it is tried, is no Ed25519 key without its `x`, and the evidence
verifier, where it is asked, answers. -/
structure Comparable (P : Platform) (env : Env) (policy : KeyContinuityPolicy)
    (held served : Manifest) : Prop where
  key : held.nodeId = served.nodeId → held.orgId = served.orgId →
    sameKeys (keyDict held.publicKeys) (keyDict served.publicKeys) = false →
      policy.allowKeyRotation = true →
      ∀ signature jwk, served.signature = some signature →
        (keyDict held.publicKeys).lookup signature.keyId = some jwk → lacksX jwk = false
  evidence : continuityByKeys P held served policy = .ok none →
    ∀ verifier, policy.evidenceVerifier = some verifier →
    ∃ answer, env.hostCallback verifier served = .ok answer

/-- What fetching the target comes to is something the round has a decision for. -/
structure Classified (P : Platform) (node : FederationNode) (env : Env)
    (policy : Option KeyContinuityPolicy) (skew : Int) (s : NodeState)
    (target : Manifest × String) : Prop where
  failure : ∀ exc, fetched P node env skew s target = .error exc → Foreseen exc
  manifest : ∀ served, fetched P node env skew s target = .ok served →
    target.1.revision ≤ served.revision →
    Comparable P env (policy.getD {}) target.1 served

theorem foreseen_iff {revision : Int} {exc : Exc} : (∃ d, refreshFailure revision exc = .ok d) ↔
    Foreseen exc := by
  cases exc
  case manifestVerificationError reason =>
    refine iff_of_true ?_ (.inl ⟨reason, rfl⟩)
    simp only [refreshFailure]
    split
    · exact ⟨_, rfl⟩
    · exact ⟨_, rfl⟩
  all_goals simp [refreshFailure, Foreseen, transportFailureReason]

section Classification

variable {P : Platform} {node : FederationNode} {env : Env}
  {policy : Option KeyContinuityPolicy} {skew : Int} {s : NodeState}

theorem answered_of_outward {c : Call} (hc : c.outward) (r : Resp c) :
    Answered anyCallback c r := by
  obtain ⟨o, op⟩ := c
  cases op <;> first | exact hc.elim | trivial

theorem Routine.eval_ok {α : Type} {t : Py α} {Q : α → Prop}
    (h : Routine Call.outward anyCallback (fun _ _ => False) Q t) (env : Env)
    (s : NodeState) {a : α} (ha : (t.run.eval env.handle s).1 = .ok a) : Q a := by
  suffices hrel : (t.run.eval env.handle s).1 = (t.run.eval env.handle s).1 ∧
      (∀ a, (t.run.eval env.handle s).1 = .ok a → Q a) ∧
        (t.run.eval env.handle s).2 = (t.run.eval env.handle s).2 from hrel.2.1 a ha
  refine Task.Composed.eval_rel (I := Eq) ?_ (fun _ _ _ _ hf => hf.elim) h rfl
  rintro c s _ hc rfl
  exact ⟨answered_of_outward hc _, rfl, rfl⟩

theorem verifyModel_error_iff {M : Type} [Model M] {model : M} {good : JWK}
    (hgood : verifyModel P model good = .ok true) (jwk : JWK) :
    (∃ e, verifyModel P model jwk = .error e) ↔ lacksX jwk = true := by
  have hbytes : ∃ sig data, verifyModel P model jwk = verifyBytes P jwk sig data := by
    simp only [verifyModel, bind, Except.bind] at hgood ⊢
    cases hdump : Model.dump model with
    | error e => simp [hdump] at hgood
    | ok payload =>
      simp only [hdump, verifyDict, bind, Except.bind] at hgood ⊢
      cases hsig : payload.lookup "signature" with
      | none => simp [hsig] at hgood
      | some sig =>
        cases htruthy : sig.truthy with
        | false => simp [hsig, htruthy] at hgood
        | true =>
          simp only [hsig, htruthy, Bool.not_true, Bool.false_eq_true, ↓reduceIte] at hgood ⊢
          cases hsub : sig.subscript "sig" with
          | error e => simp [hsub] at hgood
          | ok text =>
            simp only [hsub] at hgood ⊢
            cases hdata : canonicalBytes P (.obj (payload.filter fun kv => kv.1 ≠ "signature")) with
            | error e =>
              rw [hdata] at hgood
              cases hgood
            | ok data =>
              rw [hdata] at hgood
              cases text
              case str text => exact ⟨text, data, rfl⟩
              all_goals simp at hgood
  obtain ⟨sig, data, hsame⟩ := hbytes
  rw [hsame, verifyBytes_error_iff]

theorem continuityByKeys_ok_iff {held served : Manifest} (hchecked : Checked P served)
    (policy : KeyContinuityPolicy) :
    (∃ verdict, continuityByKeys P held served policy = .ok verdict) ↔
      (held.nodeId = served.nodeId → held.orgId = served.orgId →
        sameKeys (keyDict held.publicKeys) (keyDict served.publicKeys) = false →
          policy.allowKeyRotation = true →
          ∀ signature jwk, served.signature = some signature →
            (keyDict held.publicKeys).lookup signature.keyId = some jwk → lacksX jwk = false) := by
  obtain ⟨now, skew, reason, hcheck⟩ := hchecked
  obtain ⟨_, good, _, _, hgood⟩ := signed_of_checkManifestAt hcheck
  rw [continuityByKeys]
  by_cases hnode : held.nodeId = served.nodeId
  swap
  · exact iff_of_true ⟨_, if_pos hnode⟩ fun hn => absurd hn hnode
  by_cases horg : held.orgId = served.orgId
  swap
  · exact iff_of_true ⟨_, (if_neg (not_not.mpr hnode)).trans (if_pos horg)⟩ fun _ ho =>
      absurd ho horg
  rw [if_neg (not_not.mpr hnode), if_neg (not_not.mpr horg)]
  cases hkeys : sameKeys (keyDict held.publicKeys) (keyDict served.publicKeys) with
  | true => simp
  | false =>
    cases hrotation : policy.allowKeyRotation with
    | false => simp
    | true =>
      simp only [Bool.false_eq_true, ↓reduceIte, Bool.not_true]
      cases hsig : served.signature with
      | none => simp
      | some signature =>
        dsimp only
        cases hlookup : (keyDict held.publicKeys).lookup signature.keyId with
        | none =>
          refine iff_of_true ⟨_, rfl⟩ ?_
          rintro _ _ _ _ signature' jwk ⟨⟩ hlookup'
          rw [hlookup] at hlookup'
          cases hlookup'
        | some jwk =>
          have herror := verifyModel_error_iff hgood jwk
          cases hv : verifyModel P served jwk with
          | error e =>
            have hx : lacksX jwk = true := herror.mp ⟨e, hv⟩
            refine iff_of_false (by simp [hv, bind, Except.bind]) fun h => ?_
            have hnot := h hnode horg trivial trivial signature jwk rfl hlookup
            simp [hx] at hnot
          | ok b =>
            have hx : lacksX jwk = false := by
              by_contra hne
              obtain ⟨e, he⟩ := herror.mpr (by simpa using hne)
              simp [hv] at he
            refine iff_of_true ?_ ?_
            · cases b <;> simp [hv, bind, Except.bind, pure, Except.pure]
            · rintro _ _ _ _ signature' jwk' ⟨⟩ hlookup'
              rw [hlookup] at hlookup'
              cases hlookup'
              exact hx

theorem comparable_iff {held served : Manifest} (hchecked : Checked P served) (o : Origin) :
    (∃ d, ((checkKeyContinuity P o held served policy).run.eval env.handle s).1 = .ok d) ↔
      Comparable P env (policy.getD {}) held served := by
  have hkeys := @continuityByKeys_ok_iff P held served hchecked (policy.getD {})
  rw [checkKeyContinuity, Task.eval_run_bind, raising, Task.run_lift, Task.eval_done]
  cases hverdict : continuityByKeys P held served (policy.getD {}) with
  | error e =>
    refine iff_of_false ?_ fun hcomparable => ?_
    · rintro ⟨_, he⟩
      cases he
    · obtain ⟨_, hok⟩ := hkeys.mpr hcomparable.key
      rw [hverdict] at hok
      cases hok
  | ok verdict =>
    have hkey := hkeys.mp ⟨_, hverdict⟩
    cases verdict with
    | some decision =>
      exact iff_of_true ⟨_, rfl⟩ ⟨hkey, fun hnone => by rw [hverdict] at hnone; cases hnone⟩
    | none =>
      rw [Task.andThen_ok]
      dsimp only
      cases hverifier : (policy.getD {}).evidenceVerifier with
      | none =>
        exact iff_of_true ⟨_, rfl⟩ ⟨hkey, fun _ verifier hv => by rw [hverifier] at hv; cases hv⟩
      | some verifier =>
        dsimp only
        rw [Task.eval_run_bind]
        have hanswer : (hostCallback o verifier served).run.eval env.handle s =
            (env.hostCallback verifier served, s) := rfl
        rw [hanswer]
        cases hcallback : env.hostCallback verifier served with
        | error e =>
          refine iff_of_false ?_ fun hcomparable => ?_
          · rintro ⟨_, he⟩
            cases he
          · obtain ⟨_, hok⟩ := hcomparable.evidence hverdict verifier hverifier
            rw [hcallback] at hok
            cases hok
        | ok answer =>
          refine iff_of_true ?_ ⟨hkey, ?_⟩
          · rw [Task.andThen_ok]
            dsimp only
            split_ifs
            · exact ⟨_, rfl⟩
            · exact ⟨_, rfl⟩
            · exact ⟨_, rfl⟩
          · intro _ verifier' hv
            rw [hverifier] at hv
            cases hv
            exact ⟨answer, hcallback⟩

theorem classified_iff {target : Manifest × String} :
    (∃ entry, refreshed P node env policy skew s target = .ok entry) ↔
      Classified P node env policy skew s target := by
  have hquiet :=
    ((fetchManifest_asks (P := P) node.client (.fetch target.1.nodeId) target.2 skew).eval
    (Env.AgreesFor.refl _ env) (s := s) rfl).2.1
  have hmap : (∃ entry, refreshed P node env policy skew s target = .ok entry) ↔
      ∃ d, ((refreshPeerManifest P node.client target.1 target.2 policy skew).run.eval env.handle
        s).1 = .ok d := by
    rw [refreshed]
    cases ((refreshPeerManifest P node.client target.1 target.2 policy skew).run.eval env.handle
      s).1 <;> simp [Except.map]
  rw [hmap, refreshPeerManifest, Task.eval_run_bind, Task.run_attempt, Task.eval_bind, hquiet,
    Task.eval_done, Task.andThen_ok, ← fetched]
  cases hfetched : fetched P node env skew s target with
  | error exc =>
    have hforeseen := @foreseen_iff target.1.revision exc
    refine hforeseen.trans ⟨fun hf => ⟨?_, ?_⟩, fun h => h.failure exc hfetched⟩
    · rintro _ he
      rw [hfetched] at he
      cases he
      exact hf
    · rintro _ he
      rw [hfetched] at he
      cases he
  | ok served =>
    have hchecked : Checked P served := (fetchManifest_routine _ _ _ skew).eval_ok env s hfetched
    have hiff : Classified P node env policy skew s target ↔
        (target.1.revision ≤ served.revision → Comparable P env (policy.getD {}) target.1 served) :=
          by
      refine ⟨fun h => h.manifest served hfetched, fun h => ⟨?_, ?_⟩⟩
      · rintro _ he
        rw [hfetched] at he
        cases he
      · rintro _ he
        rw [hfetched] at he
        cases he
        exact h
    rw [hiff]
    dsimp only
    by_cases hrollback : served.revision < target.1.revision
    · rw [if_pos hrollback]
      exact iff_of_true ⟨_, rfl⟩ fun hle => absurd hle (by omega)
    · rw [if_neg hrollback, Task.eval_run_bind]
      have hcomparable := @comparable_iff P env policy s target.1 served hchecked
        (.fetch target.1.nodeId)
      rw [imp_iff_right (by omega), ← hcomparable]
      cases ((checkKeyContinuity P (.fetch target.1.nodeId) target.1 served policy).run.eval
        env.handle s).1 with
      | error e => simp
      | ok continuity => exact iff_of_true ⟨_, rfl⟩ ⟨_, rfl⟩

end Classification

/-- The two decisions are on one node, which they keep, if at all, by a manifest of its
own, and they are the same unless that node is `q`. -/
structure Paired (q : String) (entry entry' : String × ManifestRefreshDecision) : Prop where
  name : entry.1 = entry'.1
  same : entry.1 ≠ q → entry' = entry
  brings : Brings entry.1 entry.2
  brings' : Brings entry'.1 entry'.2

section Settling

variable {node : FederationNode} {now now' : DateTime} {p q : String} {s s' : NodeState}

theorem settle_other {entry : String × ManifestRefreshDecision} (hne : entry.1 ≠ p)
    (hbrings : Brings entry.1 entry.2) :
    AlikeFor p s (s.settle node now entry) := by
  obtain ⟨n, decision⟩ := entry
  have hcarry : AlikeFor p s (decision.carry node n s) := by
    rw [ManifestRefreshDecision.carry]
    cases haction : decision.action
    case accept | unchanged =>
      cases hm : decision.manifest with
      | none => exact .refl p s
      | some manifest =>
        have hid : manifest.nodeId ≠ p := (hbrings (by simp [haction]) manifest hm).trans_ne hne
        refine ⟨rfl, Keyed.get_upsert_ne _ hid, ?_⟩
        dsimp only [NodeState.remember]
        split_ifs
        · exact Keyed.get_upsert_ne _ hid
        · rfl
    case quarantine => exact .refl p s
    case reject =>
      refine ⟨rfl, Keyed.get_erase_ne _ hne, ?_⟩
      dsimp only [NodeState.forget]
      split_ifs
      · exact Keyed.get_erase_ne _ hne
      · rfl
  have hrecord : (s.settle node now (n, decision)).membershipTable.get p =
      s.membershipTable.get p := by
    rw [NodeState.settle, (decision.carry_frame node n _).1]
    cases hrec : s.membershipTable.get n with
    | none => rw [NodeState.refile_of_get_none hrec]
    | some rec =>
      have hid : (decision.amend now rec).nodeId ≠ p :=
        ((decision.amend_nodeId now rec).trans (Keyed.key_of_get hrec)).trans_ne hne
      rw [NodeState.refile_of_get hrec]
      exact Keyed.get_upsert_ne _ hid
  obtain ⟨table, htable⟩ := s.settle_frame node now n decision
  refine ⟨congrArg _ hrecord, ?_, ?_⟩
  · rw [htable]
    exact hcarry.cached
  · rw [htable]
    exact hcarry.stored

theorem settle_own (h : AlikeFor p s s') (decision : ManifestRefreshDecision) :
    AlikeFor p (s.settle node now (p, decision)) (s'.settle node now' (p, decision)) := by
  have hamend : ∀ rec rec' : MemberRecord, rec'.unstamped = rec.unstamped →
      (decision.amend now' rec').unstamped = (decision.amend now rec).unstamped := by
    intro rec rec' hsame
    have hrec' : rec' = { rec with lastRefresh := rec'.lastRefresh } := by
      cases rec
      cases rec'
      simpa [MemberRecord.unstamped] using hsame
    rw [hrec', ManifestRefreshDecision.amend, ManifestRefreshDecision.amend]
    split <;> rfl
  have hrecord : ((s'.membershipTable.get p).map (decision.amend now')).map MemberRecord.unstamped =
      ((s.membershipTable.get p).map (decision.amend now)).map MemberRecord.unstamped := by
    have hsame := h.record
    cases hrec : s.membershipTable.get p with
    | none => simpa [hrec] using hsame
    | some rec =>
      cases hrec' : s'.membershipTable.get p with
      | none => simp [hrec, hrec'] at hsame
      | some rec' =>
        rw [hrec, hrec', Option.map_some, Option.map_some] at hsame
        exact congrArg some (hamend rec rec' (Option.some.inj hsame))
  have hcarry : (decision.carry node p s').peerManifests.get p =
      (decision.carry node p s).peerManifests.get p ∧
      (decision.carry node p s').manifestStore.get p =
        (decision.carry node p s).manifestStore.get p := by
    have hcached := h.cached
    have hstored := h.stored
    rw [ManifestRefreshDecision.carry, ManifestRefreshDecision.carry]
    split
    case h_3 | h_4 | h_5 => exact ⟨hcached, hstored⟩
    case h_6 =>
      dsimp only [NodeState.forget]
      split_ifs
      · simp [Keyed.get_erase]
      · simp [Keyed.get_erase, hstored]
    all_goals
      dsimp only [NodeState.remember]
      split_ifs
      · simp [Keyed.get_upsert, hcached, hstored]
      · simp [Keyed.get_upsert, hcached, hstored]
  obtain ⟨table, htable⟩ := s.settle_frame node now p decision
  obtain ⟨table', htable'⟩ := s'.settle_frame node now' p decision
  refine ⟨?_, ?_, ?_⟩
  · rw [NodeState.settle_get, NodeState.settle_get]
    exact hrecord
  · rw [htable, htable']
    exact hcarry.1
  · rw [htable, htable']
    exact hcarry.2

theorem settleAll_alike (hne : p ≠ q) {entries entries' : List (String × ManifestRefreshDecision)}
    (hpaired : List.Forall₂ (Paired q) entries entries') (h : AlikeFor p s s') :
    AlikeFor p (s.settleAll node now entries) (s'.settleAll node now' entries') := by
  induction hpaired generalizing s s' with
  | nil => exact h
  | @cons entry entry' entries entries' hentry _ ih =>
    refine ih ?_
    by_cases hp : entry.1 = p
    · have hsame := hentry.same (hp.trans_ne hne)
      obtain ⟨n, decision⟩ := entry
      subst hsame
      obtain rfl : n = p := hp
      exact settle_own h decision
    · have hp' : entry'.1 ≠ p := hentry.name.symm.trans_ne hp
      exact (settle_other hp hentry.brings).symm.trans (h.trans (settle_other hp' hentry.brings'))

end Settling

theorem lookup_paired {p q : String} (hne : p ≠ q)
    {decisions decisions' : Dict ManifestRefreshDecision}
    (hpaired : List.Forall₂ (Paired q) decisions.entries decisions'.entries) :
    decisions'.lookup p = decisions.lookup p := by
  have hget := Keyed.get_forall₂ (fun _ _ h => Paired.name h) hpaired p
  rw [Dict.lookup, Dict.lookup]
  generalize decisions'.get p = entry' at hget
  cases hentry : decisions.get p with
  | none =>
    rw [hentry] at hget
    cases hget
    rfl
  | some entry =>
    have hname : entry.1 = p := Keyed.key_of_get hentry
    rw [hentry] at hget
    cases hget with
    | some hpair => rw [hpair.same (hname.trans_ne hne)]

section Isolating

variable {P : Platform} {node : FederationNode} {env env' : Env}
  {policy : Option KeyContinuityPolicy} {skew : Int} {s : NodeState} {q : String}

theorem ok_of_gathered {α : Type} {results : List (Except Exc α)} {values : List α}
    (h : gathered results = .ok values) :
    ∀ r ∈ results, ∃ a, r = .ok a := by
  induction results generalizing values with
  | nil => simp
  | cons r results ih =>
    cases r with
    | error e => cases h
    | ok a =>
      cases hrest : gathered results with
      | error e => simp [gathered, hrest, bind, Except.bind] at h
      | ok others => exact List.forall_mem_cons.mpr ⟨⟨a, rfl⟩, ih hrest⟩

theorem refreshed_brings {target : Manifest × String} {entry : String × ManifestRefreshDecision}
    (h : refreshed P node env policy skew s target = .ok entry) : Brings entry.1 entry.2 := by
  rw [refreshed] at h
  cases hdecision :
    ((refreshPeerManifest P node.client target.1 target.2 policy skew).run.eval env.handle s).1 with
  | error e =>
    rw [hdecision] at h
    cases h
  | ok decision =>
    rw [hdecision] at h
    cases h
    have hkeeps := (refreshPeerManifest_routine node.client target.1 target.2 policy skew).eval_ok
      env s hdecision
    exact hkeeps.fitsNode.brings

theorem gathered_paired {targets : List (Manifest × String)}
    (hothers : ∀ p, p ≠ q → env.AgreesFor (.fetch p) env')
    (hok : ∀ target ∈ targets, ∃ entry, refreshed P node env policy skew s target = .ok entry)
    (hok' : ∀ target ∈ targets, ∃ entry, refreshed P node env' policy skew s target = .ok entry) :
    ∃ entries entries', gathered (targets.map (refreshed P node env policy skew s)) = .ok entries ∧
      gathered (targets.map (refreshed P node env' policy skew s)) = .ok entries' ∧
      List.Forall₂ (Paired q) entries entries' := by
  induction targets with
  | nil => exact ⟨[], [], rfl, rfl, .nil⟩
  | cons target targets ih =>
    obtain ⟨⟨entry, hentry⟩, hrest⟩ := List.forall_mem_cons.mp hok
    obtain ⟨⟨entry', hentry'⟩, hrest'⟩ := List.forall_mem_cons.mp hok'
    obtain ⟨entries, entries', hgathered, hgathered', hpaired⟩ := ih hrest hrest'
    have hname := refreshed_named hentry
    have hpair : Paired q entry entry' := by
      refine ⟨hname.trans (refreshed_named hentry').symm, ?_, refreshed_brings hentry,
        refreshed_brings hentry'⟩
      intro hq
      have hsame := @refreshed_agrees P node env policy skew env' target
        (hothers _ (hname.symm.trans_ne hq)) s s rfl
      rw [hentry, hentry'] at hsame
      exact Except.ok.inj hsame
    refine ⟨entry :: entries, entry' :: entries', ?_, ?_, .cons hpair hpaired⟩
    · rw [List.map_cons, gathered, hentry, hgathered]
      rfl
    · rw [List.map_cons, gathered, hentry', hgathered']
      rfl

theorem classified_of_concluded {targets : List (Manifest × String)} {now : DateTime}
    {s₁ : NodeState} {unknown : List (String × ManifestRefreshDecision)}
    {decisions : Dict ManifestRefreshDecision}
    (h : (concluded node now s₁ unknown
      (gathered (targets.map (refreshed P node env policy skew s)))).1 = .ok decisions) :
    ∀ target ∈ targets, Classified P node env policy skew s target := by
  intro target htarget
  cases hgathered : gathered (targets.map (refreshed P node env policy skew s)) with
  | error e =>
    rw [hgathered] at h
    cases h
  | ok entries => exact classified_iff.mp (ok_of_gathered hgathered _ (List.mem_map_of_mem htarget))

end Isolating

/-- Fetching one peer concerns no other exactly where every target is fetched to something
the round has a decision for. -/
theorem bystanders_spared_iff (P : Platform) (node : FederationNode) {env env' : Env} {q : String}
    {s : NodeState} (policy : Option KeyContinuityPolicy) (skew : Int)
    (hdiffers : DiffersAt q s env env') :
    IsolatedFrom q ((node.refreshAll P policy skew).run.eval env.handle s)
        ((node.refreshAll P policy skew).run.eval env'.handle s) ↔
      ∀ target ∈ (s.due env).filterMap s.target,
        Classified P node env policy skew s target ∧
          Classified P node env' policy skew s target := by
  rw [refreshAll_eval, refreshAll_eval, hdiffers.due]
  constructor
  · rintro ⟨decisions, decisions', hrun, hrun', _⟩ target htarget
    exact ⟨classified_of_concluded hrun target htarget, classified_of_concluded hrun'
      target htarget⟩
  · intro hall
    obtain ⟨entries, entries', hgathered, hgathered', hpaired⟩ := gathered_paired hdiffers.others
      (fun target ht => classified_iff.mpr (hall target ht).1)
      (fun target ht => classified_iff.mpr (hall target ht).2)
    rw [hgathered, hgathered']
    have hunknown : ∀ records, List.Forall₂ (Paired q) (s.unknown records) (s.unknown records) := by
      intro records
      refine List.forall₂_same.mpr ?_
      intro entry hentry
      obtain ⟨rec, _, rfl⟩ := List.mem_map.mp hentry
      exact ⟨rfl, fun _ => rfl, brings_unknownPeer _, brings_unknownPeer _⟩
    have hwaiting : List.Forall₂ (Paired q) (s.unknown (s.due env)) (s.unknown (s.due env')) := by
      rw [hdiffers.due]
      exact hunknown _
    have hboth := Keyed.ofList_forall₂ (fun _ _ h => Paired.name h)
      (List.rel_append (hunknown (s.due env)) hpaired)
    refine ⟨_, _, rfl, rfl, fun p hp => ⟨?_, ?_⟩⟩
    · exact lookup_paired hp hboth
    · exact settleAll_alike hp hboth (settleAll_alike hp hwaiting (AlikeFor.refl p s))

def alphaAnswers (response : Response) : Env :=
  { silentWorld with httpGet := fun o url => if o = .fetch "alpha" then .ok response
    else silentWorld.httpGet o url }

def unavailable : Response := ⟨.error .httpStatusError, .error .jsonDecodeError⟩

def garbled : Response := ⟨.ok (), .error .jsonDecodeError⟩

theorem differsAt_alpha (response : Response) (s : NodeState) :
    DiffersAt "alpha" s silentWorld (alphaAnswers response) := by
  refine ⟨fun p hp => ⟨rfl, rfl, funext fun url => ?_, rfl, rfl⟩, rfl⟩
  simp [alphaAnswers, hp]

def gammaRecord : MemberRecord :=
  { alphaRecord with nodeId := "gamma", manifestUrl := "https://gamma.example/manifest" }

def knowingBoth : NodeState :=
  { knowingAlpha with
    membershipTable := Keyed.ofList [alphaRecord, gammaRecord]
    peerManifests := Keyed.ofList [alphaManifest, { alphaManifest with nodeId := "gamma" }] }

theorem targets_both : (knowingBoth.due silentWorld).filterMap knowingBoth.target =
    [(alphaManifest, alphaRecord.manifestUrl),
      ({ alphaManifest with nodeId := "gamma" }, gammaRecord.manifestUrl)] := by
  have hdue : knowingBoth.due silentWorld = [alphaRecord, gammaRecord] := by decide +kernel
  rw [hdue]
  rfl

theorem classified_of_error {P : Platform} {node : FederationNode} {env : Env}
    {policy : Option KeyContinuityPolicy} {skew : Int} {s : NodeState}
    {target : Manifest × String} {exc : Exc} (h : fetched P node env skew s target = .error exc)
    (hexc : Foreseen exc) :
    Classified P node env policy skew s target := by
  refine ⟨?_, ?_⟩
  · rintro _ he
    rw [h] at he
    cases he
    exact hexc
  · rintro _ he
    rw [h] at he
    cases he

theorem unavailable_spares :
    IsolatedFrom "alpha" ((beta.refreshAll noticePlatform none 300).run.eval
      silentWorld.handle knowingBoth)
    ((beta.refreshAll noticePlatform none 300).run.eval (alphaAnswers unavailable).handle
      knowingBoth) := by
  refine (bystanders_spared_iff noticePlatform beta none 300
    (differsAt_alpha unavailable knowingBoth)).mpr ?_
  have htimeout : Foreseen .timeoutError := .inr ⟨_, rfl⟩
  have hstatus : Foreseen .httpStatusError := .inr ⟨_, rfl⟩
  rw [targets_both, List.forall_mem_cons, List.forall_mem_singleton]
  exact ⟨⟨classified_of_error rfl htimeout, classified_of_error rfl hstatus⟩,
    classified_of_error rfl htimeout, classified_of_error rfl htimeout⟩

theorem garbled_aborts :
    DiffersAt "alpha" knowingAlpha silentWorld (alphaAnswers garbled) ∧
      ((beta.refreshAll noticePlatform none 300).run.eval (alphaAnswers garbled).handle
        knowingAlpha).1 = .error .jsonDecodeError ∧
      ¬ IsolatedFrom "alpha" ((beta.refreshAll noticePlatform none 300).run.eval
        silentWorld.handle knowingAlpha)
      ((beta.refreshAll noticePlatform none 300).run.eval (alphaAnswers garbled).handle
        knowingAlpha) := by
  have hraises :
      ((beta.refreshAll noticePlatform none 300).run.eval (alphaAnswers garbled).handle
        knowingAlpha).1 =
    .error .jsonDecodeError := by rfl
  refine ⟨differsAt_alpha garbled knowingAlpha, hraises, ?_⟩
  rintro ⟨_, _, _, hreturns, _⟩
  rw [hraises] at hreturns
  cases hreturns

end Federlet
