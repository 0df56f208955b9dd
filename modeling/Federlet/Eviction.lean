import Federlet.Revocation

/-! A revoked peer and the trust cache. The record and the manifest of a peer are
two pieces of state; every operation but one writes both under the lock.
Discovery writes the record first, without the lock, and the manifest later: a
revocation in between leaves a revoked peer trusted. -/

namespace Federlet

open Coop

/-- Neither the cache nor the manifest store, if there is one, holds the node. -/
def Absent (node : FederationNode) (n : String) (s : NodeState) : Prop :=
  s.peerManifests.get n = none ∧ (node.manifestStore = true → s.manifestStore.get n = none)

def Evicted (node : FederationNode) (s : NodeState) : Prop := ∀ n, s.revoked n → Absent node n s

/-- `Evicted` for all nodes but one, whose record is being written. -/
def EvictedBut (node : FederationNode) (k : String) (s : NodeState) : Prop :=
  ∀ n, n ≠ k → s.revoked n → Absent node n s

/-- Discovery caches no manifest of a node whose record is revoked. -/
def DiscoveryRule (c : Call) (s : NodeState) : Prop :=
  match c with
  | ⟨.discovery, .cachePut manifest⟩ => ¬ s.revoked manifest.nodeId
  | _ => True

/-- Outside the lock nothing is revoked and nothing cached or stored. -/
def evictDiscipline (node : FederationNode) : Discipline Call Resp NodeState where
  sem c s r s' := Reliable c s r s' ∧ DiscoveryRule c s
  inv := Evicted node
  rely s s' := (s'.peerManifests = s.peerManifests ∧ s'.manifestStore = s.manifestStore) ∧
    ∀ n, s'.revoked n → s.revoked n
  guar _ _ _ _ := True
  rely_refl _ := ⟨⟨rfl, rfl⟩, fun _ => id⟩
  rely_trans h h' := ⟨⟨h'.1.1.trans h.1.1, h'.1.2.trans h.1.2⟩, fun n hn => h.2 n (h'.2 n hn)⟩

section Invariant

variable {node : FederationNode} {s s' : NodeState} {k : String}

theorem Absent.congr {n : String} (h : Absent node n s)
    (hsame : s'.peerManifests = s.peerManifests ∧ s'.manifestStore = s.manifestStore) :
    Absent node n s' := by
  rw [Absent, hsame.1, hsame.2]
  exact h

theorem EvictedBut.rely (h : EvictedBut node k s) (hr : (evictDiscipline node).rely s s') :
    EvictedBut node k s' :=
  fun n hne hn => (h n hne (hr.2 n hn)).congr hr.1

theorem Evicted.rely (h : Evicted node s) (hr : (evictDiscipline node).rely s s') :
    Evicted node s' :=
  fun n hn => (h n (hr.2 n hn)).congr hr.1

theorem Evicted.but (h : Evicted node s) (k : String) : EvictedBut node k s := fun n _ hn => h n hn

theorem EvictedBut.evicted (h : EvictedBut node k s) (hk : s.revoked k → Absent node k s) :
    Evicted node s := by
  intro n hn
  by_cases he : n = k
  · subst he
    exact hk hn
  · exact h n he hn

theorem EvictedBut.upsert (h : EvictedBut node k s) {rec : MemberRecord} (hrec : rec.nodeId = k) :
    EvictedBut node k { s with membershipTable := s.membershipTable.upsert rec } := by
  intro n hne hn
  rw [revoked_upsert, if_neg fun he => hne (he.symm.trans hrec)] at hn
  exact h n hne hn

theorem EvictedBut.write (h : EvictedBut node k s)
    {f : Keyed Manifest.nodeId → Keyed Manifest.nodeId}
    (hf : ∀ m n, n ≠ k → (f m).get n = m.get n) :
    EvictedBut node k { s with peerManifests := f s.peerManifests } ∧
      EvictedBut node k { s with manifestStore := f s.manifestStore } := by
  constructor
  · intro n hne hn
    obtain ⟨hcache, hstored⟩ := h n hne hn
    exact ⟨(hf _ n hne).trans hcache, hstored⟩
  · intro n hne hn
    obtain ⟨hcache, hstored⟩ := h n hne hn
    exact ⟨hcache, fun hs => (hf _ n hne).trans (hstored hs)⟩

end Invariant

def Serves (k : String) (c : Call) : Prop :=
  match c.op with
  | .tableUpsert rec => rec.nodeId = k ∧ rec.state ≠ .revoked
  | .cachePut manifest => manifest.nodeId = k
  | .storeUpsert manifest => manifest.nodeId = k
  | .cachePop _ | .cacheReplace _ | .storeDelete _ | .nonceSet _ _ => False
  | _ => True

theorem Serves.keeps {node : FederationNode} {k : String} {c : Call} {s s' : NodeState} {r : Resp c}
    (hc : Serves k c) (h : Does c s r s') (hs : EvictedBut node k s) :
    EvictedBut node k s' ∧ (¬ s.revoked k → ¬ s'.revoked k) := by
  obtain ⟨o, op⟩ := c
  by_cases hq : Call.quiet ⟨o, op⟩
  · rw [h.eq_of_quiet hq]
    exact ⟨hs, id⟩
  cases op
  case tableUpsert rec =>
    rcases h with ⟨e, _, rfl⟩ | ⟨_, rfl⟩
    · exact ⟨hs, id⟩
    · refine ⟨hs.upsert hc.1, fun _ hn => ?_⟩
      rw [revoked_upsert, if_pos hc.1] at hn
      exact hc.2 hn
  case cachePut manifest =>
    obtain rfl := h
    refine ⟨(hs.write (f := fun m => m.upsert manifest) fun m n hne => ?_).1, id⟩
    exact Keyed.get_upsert_ne m fun he => hne (he.symm.trans hc)
  case storeUpsert manifest =>
    rcases h with ⟨e, _, rfl⟩ | ⟨_, rfl⟩
    · exact ⟨hs, id⟩
    · refine ⟨(hs.write (f := fun m => m.upsert manifest) fun m n hne => ?_).2, id⟩
      exact Keyed.get_upsert_ne m fun he => hne (he.symm.trans hc)
  all_goals first | exact hc.elim | exact absurd trivial hq

theorem RecordsPeer.serves {o : Origin} {k : String} {c : Call} (h : RecordsPeer o k c) :
    Serves k c := by
  obtain ⟨o', op⟩ := c
  obtain ⟨_, h⟩ := h
  cases op
  case tableUpsert rec => exact ⟨h.1, by rw [h.2]; exact PeerState.noConfusion⟩
  case cachePut | storeUpsert => exact h
  all_goals trivial

section Sections

variable {P : Platform} {node : FederationNode}

def Keeping (node : FederationNode) (k : String) (K : NodeState → Prop) : Prop :=
  (∀ s s', K s → (evictDiscipline node).rely s s' → K s') ∧
    ∀ c s r s', Serves k c → K s → Does c s r s' → K s'

theorem keeping_but (node : FederationNode) (k : String) : Keeping node k (EvictedBut node k) :=
  ⟨fun _ _ hs hr => hs.rely hr, fun _ _ _ _ hc hs hdoes => (hc.keeps hdoes hs).1⟩

theorem keeping_free (node : FederationNode) (k : String) :
    Keeping node k (fun s => EvictedBut node k s ∧ ¬ s.revoked k) :=
  ⟨fun _ _ hs hr => ⟨hs.1.rely hr, fun hn => hs.2 (hr.2 k hn)⟩,
    fun _ _ _ _ hc hs hdoes => ⟨(hc.keeps hdoes hs.1).1, (hc.keeps hdoes hs.1).2 hs.2⟩⟩

theorem within_storeManifest {o : Origin} {manifest : Manifest} {K : NodeState → Prop}
    (hk : Keeping node manifest.nodeId K) :
    (evictDiscipline node).Within K (fun r s => r = .ok () ∧ K s)
      (if node.manifestStore = true then ManifestStore.upsert o manifest else pure ()).run := by
  split
  · refine .call (M := fun r s => r = .ok () ∧ K s) ?_ fun r => .done fun s h => h
    rintro s s₁ r s₂ hs hr ⟨⟨hdoes, hraised⟩, _⟩
    have hserves : Serves manifest.nodeId ⟨o, .storeUpsert manifest⟩ := rfl
    have hk' := hk.2 _ s₁ r s₂ hserves (hk.1 s s₁ hs hr) hdoes
    rcases hdoes with ⟨e, rfl, _⟩ | ⟨rfl, _⟩
    · exact absurd ⟨e, rfl⟩ hraised
    · exact ⟨trivial, rfl, hk'⟩
  · exact .done fun s hs => ⟨rfl, hs⟩

theorem within_rememberManifest {o : Origin} {manifest : Manifest} {K : NodeState → Prop}
    (hk : Keeping node manifest.nodeId K) :
    (evictDiscipline node).Within K (fun r s => r = .ok () ∧ K s)
    (node.rememberManifest o manifest).run := by
  refine .call_run_bind (M := fun _ => K) ?_ fun _ => within_storeManifest hk
  rintro s s₁ r s₂ hs hr ⟨⟨hdoes, _⟩, _⟩
  have hserves : Serves manifest.nodeId ⟨o, .cachePut manifest⟩ := rfl
  exact ⟨trivial, hk.2 _ s₁ r s₂ hserves (hk.1 s s₁ hs hr) hdoes⟩

theorem within_forgetManifest (o : Origin) (k : String) :
    (evictDiscipline node).Within (EvictedBut node k) (fun _ => Evicted node)
    (node.forgetManifest o k).run := by
  have herase : ∀ (m : Keyed Manifest.nodeId) n, n ≠ k → (m.erase k).get n = m.get n :=
    fun m n hne => Keyed.get_erase_ne m (Ne.symm hne)
  refine .call_run_bind (M := fun _ s => EvictedBut node k s ∧ s.peerManifests.get k = none)
    ?_ fun _ => ?_
  · rintro s s₁ r s₂ hs hr ⟨⟨rfl, _⟩, _⟩
    exact ⟨trivial, ((hs.rely hr).write herase).1, Keyed.get_erase_self _ k⟩
  split
  · refine .call (M := fun _ => Evicted node) ?_ fun r => .done fun s h => h
    rintro s s₁ r s₂ ⟨hs, hnone⟩ hr ⟨⟨⟨e, rfl, _⟩ | ⟨_, rfl⟩, hraised⟩, _⟩
    · exact absurd ⟨e, rfl⟩ hraised
    · refine ⟨trivial, ((hs.rely hr).write herase).2.evicted fun _ =>
        ⟨?_, fun _ => Keyed.get_erase_self _ k⟩⟩
      exact (congrArg (fun m => Keyed.get m k) hr.1.1).trans hnone
  · rename_i hno
    exact .done fun s h => h.1.evicted fun _ => ⟨h.2, fun hstore => absurd hstore hno⟩

theorem within_refreshWrite {k : String} {f : DateTime → MemberRecord}
    (hf : ∀ now, (f now).nodeId = k ∧ (f now).state ≠ .revoked) :
    (evictDiscipline node).Within (EvictedBut node k) (fun _ => Evicted node)
      (do let now ← utcNow .refresh; MembershipTable.upsert .refresh (f now)).run := by
  refine .call_run_bind (M := fun _ => EvictedBut node k) ?_ fun now => ?_
  · rintro s s₁ r s₂ hs hr ⟨⟨⟨_, rfl⟩, _⟩, _⟩
    exact ⟨trivial, hs.rely hr⟩
  · refine .call (M := fun _ => Evicted node) ?_ fun r => .done fun s h => h
    rintro s s₁ r s₂ hs hr ⟨⟨⟨e, rfl, _⟩ | ⟨_, rfl⟩, hraised⟩, _⟩
    · exact absurd ⟨e, rfl⟩ hraised
    · refine ⟨trivial, ((hs.rely hr).upsert (hf now).1).evicted fun hn => ?_⟩
      rw [revoked_upsert, if_pos (hf now).1] at hn
      exact absurd hn (hf now).2

theorem safe_of_evicted {α : Type} {t : Py α}
    (h : (evictDiscipline node).Within (Evicted node) (fun _ => Evicted node) t.run) :
    (evictDiscipline node).Safe (locked t).run :=
  Discipline.safe_withLock h fun _ _ _ hs hr => hs.rely hr

theorem recordPeer_evicts (o : Origin) (manifest : Manifest) (url : String) :
    (evictDiscipline node).Safe (node.recordPeer o manifest url).run := by
  have hfree := keeping_free node manifest.nodeId
  obtain ⟨body, hbody, hwithin⟩ := @recordPeer_within node (evictDiscipline node) (Evicted node)
    (fun s => EvictedBut node manifest.nodeId s ∧ ¬ s.revoked manifest.nodeId) o manifest url
    (fun s s₁ r s₂ hs hr hsem => by
      have hsame := Does.eq_of_quiet (c := ⟨o, .tableGet manifest.nodeId⟩) trivial hsem.1.1
      exact ⟨trivial, hsame ▸ hs.rely hr, hsem.1.1⟩)
    (fun s hs hn => ⟨hs.but _, hn⟩) hfree.1
    (fun c s r s' hc hs hsem => ⟨trivial, hfree.2 c s r s' hc.serves hs hsem.1.1⟩)
  rw [hbody]
  refine safe_of_evicted (hwithin.mono (fun _ => id) fun _ s h => h.elim id fun hs => ?_)
  exact hs.1.evicted fun hn => absurd hn hs.2

theorem rememberDiscovered_evicts (manifest : Manifest) :
    (evictDiscipline node).Safe (locked (node.rememberManifest .discovery manifest)).run := by
  have hfree := keeping_free node manifest.nodeId
  refine safe_of_evicted (.call_run_bind
    (M := fun _ s => EvictedBut node manifest.nodeId s ∧ ¬ s.revoked manifest.nodeId)
    ?_ fun _ => ?_)
  · rintro s s₁ r s₂ hs hr ⟨⟨hdoes, _⟩, hrule⟩
    have hserves : Serves manifest.nodeId ⟨.discovery, .cachePut manifest⟩ := rfl
    exact ⟨trivial, hfree.2 _ s₁ r s₂ hserves ⟨(hs.rely hr).but _, hrule⟩ hdoes⟩
  · exact (within_storeManifest hfree).mono (fun _ => id) fun _ s hs =>
      hs.2.1.evicted fun hn => absurd hn hs.2.2

structure LookedUp (node : FederationNode) (k : String) (rec? : Option MemberRecord)
    (s : NodeState) : Prop where
  evicted : Evicted node s
  filed : ∀ rec, rec? = some rec → rec.nodeId = k
  free : rec? = none → ¬ s.revoked k

theorem within_tableGet (o : Origin) (k : String) :
    (evictDiscipline node).Within (Evicted node)
    (fun r s => ∃ rec?, r = .ok rec? ∧ LookedUp node k rec? s)
      (MembershipTable.get o k).run := by
  refine .call (M := fun r s => ∃ rec?, r = .ok rec? ∧ LookedUp node k rec? s) ?_ fun r =>
    .done fun s h => h
  rintro s s₁ r s₂ hs hr ⟨⟨⟨e, rfl, _⟩ | ⟨rfl, rfl⟩, hraised⟩, _⟩
  · exact absurd ⟨e, rfl⟩ hraised
  · refine ⟨trivial, _, rfl, hs.rely hr, fun rec hrec => Keyed.key_of_get hrec, fun hnone hn => ?_⟩
    rw [NodeState.revoked, NodeState.stateOf, hnone] at hn
    cases hn

theorem applyRefreshDecision_evicts {nodeId : String} {decision : ManifestRefreshDecision}
    (hfits : FitsNode P nodeId decision) :
    (evictDiscipline node).Safe (node.applyRefreshDecision nodeId decision).run := by
  refine safe_of_evicted ((within_tableGet .refresh nodeId).run_bind ?_ ?_)
  · rintro rec? s ⟨_, he, hl⟩
    obtain rfl := Except.ok.inj he
    cases haction : decision.action
    case accept | unchanged =>
      dsimp only
      split
      · rename_i manifest hm
        obtain rfl := (hfits (by simp [haction]) manifest hm).1
        cases rec? with
        | none =>
          refine (within_rememberManifest (keeping_free node manifest.nodeId)).run_bind
            (fun _ => .done fun s hs => hs.2.1.evicted fun hn => absurd hn hs.2.2)
            (fun _ _ h => nomatch h.1) s ?_
          exact ⟨hl.evicted.but _, hl.free rfl⟩
        | some rec =>
          refine (within_rememberManifest (keeping_but node manifest.nodeId)).run_bind
            (fun _ => (within_refreshWrite fun now => ⟨?_, ?_⟩).mono (fun s h => h.2)
              fun _ _ h => h)
            (fun _ _ h => nomatch h.1) s (hl.evicted.but _)
          · exact hl.filed rec rfl
          · simp
      · exact ⟨s, rfl, hl.evicted⟩
    case quarantine =>
      dsimp only
      cases rec? with
      | none => exact ⟨s, rfl, hl.evicted⟩
      | some rec =>
        exact @within_refreshWrite node nodeId (fun now => rec.setState .staleManifest now)
          (fun now => ⟨hl.filed rec rfl, by simp⟩) s (hl.evicted.but nodeId)
    case reject =>
      dsimp only
      have hforget := @within_forgetManifest node .refresh nodeId
      cases rec? with
      | none => exact hforget s (hl.evicted.but nodeId)
      | some rec =>
        have hwrite := @within_refreshWrite node nodeId (fun now => rec.setState .rejected now)
          fun now => ⟨hl.filed rec rfl, by simp⟩
        exact hwrite.run_bind (fun _ => hforget.mono (fun s hs => hs.but nodeId) fun _ _ h => h)
          (fun _ _ h => h) s (hl.evicted.but nodeId)
  · rintro x s ⟨_, he, _⟩
    cases he

theorem within_revokeRecord (notice : RevocationNotice) (federationId : String) (keys : Dict JWK)
    (authorize : RevocationNotice → Bool) :
    (evictDiscipline node).Within (Evicted node)
      (fun r s => EvictedBut node notice.revokedNodeId s ∧
        (r ≠ .ok (some .revoked) → Evicted node s))
      (applyMembershipRevocationNotice P notice federationId keys authorize).run := by
  refine (within_tableGet .revocation notice.revokedNodeId).run_bind ?_ ?_
  · rintro rec? s ⟨_, he, hl⟩
    obtain rfl := Except.ok.inj he
    have hstay := fun r : Except Exc (Option PeerState) =>
      (show EvictedBut node notice.revokedNodeId s ∧ (r ≠ .ok (some .revoked) → Evicted node s) from
        ⟨hl.evicted.but _, fun _ => hl.evicted⟩)
    split
    · exact ⟨s, rfl, hstay _⟩
    rename_i rec
    split
    · exact ⟨s, rfl, hstay _⟩
    split
    · exact ⟨s, rfl, hstay _⟩
    split
    · exact ⟨s, rfl, hstay _⟩
    split
    · exact ⟨s, rfl, hstay _⟩
    rename_i jwk _
    cases hverify : verifyRevocationNotice P notice jwk with
    | error e => exact ⟨s, rfl, hstay _⟩
    | ok verified =>
      cases verified with
      | false => exact ⟨s, rfl, hstay _⟩
      | true =>
        have hwrite : (evictDiscipline node).Within (Evicted node)
            (fun r s => EvictedBut node notice.revokedNodeId s ∧
              (r ≠ .ok (some .revoked) → Evicted node s))
            (do
              let now ← utcNow .revocation
              MembershipTable.upsert .revocation (rec.setState .revoked now)
              return some PeerState.revoked).run := by
          refine .call_run_bind (M := fun _ => Evicted node) ?_ fun now => ?_
          · rintro s s₁ r s₂ hs hr ⟨⟨⟨_, rfl⟩, _⟩, _⟩
            exact ⟨trivial, hs.rely hr⟩
          · have hupsert : (evictDiscipline node).Within (Evicted node)
                (fun r s => r = .ok () ∧ EvictedBut node notice.revokedNodeId s)
                (MembershipTable.upsert .revocation (rec.setState .revoked now)).run := by
              refine .call (M := fun r s => r = .ok () ∧ EvictedBut node notice.revokedNodeId s) ?_
                fun r => .done fun s h => h
              rintro s s₁ r s₂ hs hr ⟨⟨⟨e, rfl, _⟩ | ⟨rfl, rfl⟩, hraised⟩, _⟩
              · exact absurd ⟨e, rfl⟩ hraised
              · exact ⟨trivial, rfl, ((hs.rely hr).but _).upsert (hl.filed rec rfl)⟩
            exact hupsert.run_bind (fun _ => .done fun s h => ⟨h.2, fun hne => absurd rfl hne⟩)
              fun _ _ h => nomatch h.1
        exact hwrite s hl.evicted
  · rintro x s ⟨_, he, _⟩
    cases he

theorem applyRevocationNotice_evicts (notice : RevocationNotice) (keys : Dict JWK)
    (authorize : RevocationNotice → Bool) :
    (evictDiscipline node).Safe (node.applyRevocationNotice P notice keys authorize).run := by
  refine safe_of_evicted ((within_revokeRecord notice _ keys authorize).run_bind (fun state => ?_)
    fun x s h => h.2 nofun)
  have hforget := @within_forgetManifest node .revocation notice.revokedNodeId
  split
  · refine (hforget.mono (fun s h => h.1) fun _ _ h => h).run_bind (fun _ => .done fun _ h => h)
      fun _ _ h => h
  · rename_i hstate
    exact .done fun s h => h.2 fun he => hstate (Except.ok.inj he)

theorem upsertDiscovered_evicts {rec : MemberRecord} (hrec : rec.state = .active) :
    (evictDiscipline node).Safe (MembershipTable.upsert .discovery rec).run := by
  rintro s r s' ⟨⟨hdoes, _⟩, _⟩
  rcases hdoes with ⟨e, rfl, rfl⟩ | ⟨rfl, rfl⟩
  · exact ⟨⟨(evictDiscipline node).rely_refl _, id⟩, trivial, rfl⟩
  · have hunrevoked : ∀ n, NodeState.revoked
        { s with membershipTable := s.membershipTable.upsert rec } n →
        s.revoked n := by
      intro n hn
      rw [revoked_upsert] at hn
      split at hn
      · simp [hrec] at hn
      · exact hn
    exact ⟨⟨⟨⟨rfl, rfl⟩, hunrevoked⟩, fun hs => hs.rely ⟨⟨rfl, rfl⟩, hunrevoked⟩⟩, trivial, rfl⟩

theorem evictSections (callbacks : Callbacks) :
    NodeSections P node callbacks (fun _ t => (evictDiscipline node).Safe t) where
  record o manifest url _ _ := recordPeer_evicts o manifest url
  discovered _ := upsertDiscovered_evicts
  remember manifest _ := rememberDiscovered_evicts manifest
  apply _ _ := applyRefreshDecision_evicts
  revoke := applyRevocationNotice_evicts

end Sections

/-- The verdict on whatever the peer sends. -/
def Unknown (P : Platform) (node : FederationNode) (n : String) (s : NodeState) : Prop :=
  ∀ (env : Env) header method path body maxBodyBytes skew,
    ((node.verifyKnownInbound P header n method path body maxBodyBytes skew).run.eval
      env.handle s).1 = .error (.unauthorizedPeerRequest "unknown_peer")

theorem unknown_of_absent {P : Platform} {node : FederationNode} {n : String} {s : NodeState}
    (h : s.peerManifests.get n = none) : Unknown P node n s := by
  intro env header method path body maxBodyBytes skew
  rw [FederationNode.verifyKnownInbound, Task.eval_run_bind]
  have hget : (PeerManifests.get .inbound n).run.eval env.handle s =
      (.ok (s.peerManifests.get n), s) := rfl
  rw [hget, h]
  rfl

/-- A step that does not have discovery cache the manifest of a revoked peer. -/
def SparesEvicted (w : NodePool) (a : Act Call Resp) : Prop :=
  match a with
  | .call _ c _ => DiscoveryRule c w.shared
  | _ => True

/-- In every interleaving in which discovery caches no revoked peer's manifest, a
peer whose record is revoked is trusted in no state with the lock free. -/
theorem revoked_evicted (P : Platform) (node : FederationNode) {start : NodeState}
    {history : List (Act Call Resp × NodePool)} (hstart : ∀ n, ¬ start.revoked n)
    (hrun : Along (NodeStep Reliable P node) (Pool.start start) history)
    (hspares : Along (fun w a _ => SparesEvicted w a) (Pool.start start) history) :
    ∀ w ∈ Pool.start start :: history.map Prod.snd, w.holder = none → ∀ n, w.shared.revoked n →
      Absent node n w.shared ∧ Unknown P node n w.shared := by
  have hsafe : ∀ t, (∃ op : NodeOp, t = (op.run P node).run) → (evictDiscipline node).Safe t := by
    rintro _ ⟨op, rfl⟩
    exact op.safe (evictSections anyCallback) fun _ _ _ _ _ hs => ⟨hs.1.1, trivial⟩
  have hback : ∀ s s', Outside s s' →
      (evictDiscipline node).rely s s' ∧
      ((evictDiscipline node).inv s → (evictDiscipline node).inv s') := by
    intro s s' hb
    have hr : (evictDiscipline node).rely s s' := ⟨hb.manifests, fun n hn => hb.revoked hn⟩
    exact ⟨hr, fun hs => hs.rely hr⟩
  have hsem : Along (Pool.Step (evictDiscipline node).sem Outside fun t => ∃ op :
      NodeOp, t = (op.run P node).run) (Pool.start start) history := by
    refine (hrun.and hspares).mono fun w a w' hs => hs.1.mono_sem ?_
    rintro i c r rfl hdoes
    exact ⟨hdoes, hs.2⟩
  intro w hw hfree n hn
  have hguarded := Discipline.Guarded.along hsafe hback (fun n hn => absurd hn (hstart n)) hsem w hw
  have habsent := hguarded.free hfree n hn
  exact ⟨habsent, unknown_of_absent habsent.1⟩

def gammaKey : JWK :=
  Keyed.ofList [("kty", "OKP"), ("crv", "Ed25519"), ("alg", "EdDSA"),
    ("x", "_FHNjmIYoaONpH7QAjDwWAgW7RO6MwOsXeuRFUiQgCU")]

def gammaManifest : Manifest :=
  { nodeId := "gamma", orgId := "gems", federations := ["fed"], endpoint := "https://gamma.example"
    protocolVersions := ["1"], revision := 1,
    publicKeys := [{ keyId := "k1", publicJwk := gammaKey }]
    membership := { introduceUrl := "https://gamma.example/introduce"
                    membersUrl := "https://gamma.example/members" }
    expiresAt := alphaManifest.expiresAt
    signature := some { keyId := "k1", sig :=
      "UgnGb1QONVam8kzoikVS8vMpULh06rmHP9aYH8Haawa8EECTqo2KJjtjiJMFntwZIlUkA0x9y8ADsvMUDsynCg" } }

def gammaText : JWK × String × List String :=
  (gammaKey,
   "UgnGb1QONVam8kzoikVS8vMpULh06rmHP9aYH8Haawa8EECTqo2KJjtjiJMFntwZIlUkA0x9y8ADsvMUDsynCg",
    ["\x7b\"auth_methods\":[\"signed_http\"],", "\"endpoint\":\"https:",
     "//gamma.example\",\"expires_at\":", "\"2026-02-01T00:00:", "00Z\",\"extensions\":",
     "\x7b\x7d,\"federations\":[\"fed\"],", "\"membership\":\x7b\"introduce_url\":",
     "\"https://gamma.example/", "introduce\",\"members_url\":", "\"https://gamma.example/",
     "members\"\x7d,\"node_id\":", "\"gamma\",\"org_id\":\"gems\",", "\"protocol_versions\":",
     "[\"1\"],\"public_keys\":", "[\x7b\"alg\":\"EdDSA\",\"key_id\":", "\"k1\",\"public_jwk\":",
     "\x7b\"alg\":\"EdDSA\",\"crv\":", "\"Ed25519\",\"kty\":\"OKP\",",
     "\"x\":\"_FHNjmIYoaONpH7QAjDwWAgW7RO6M", "wOsXeuRFUiQgCU\"\x7d,\"use\":",
     "\"sig\"\x7d],\"revision\":", "1\x7d"])

def alphaMembers : MembersResponse :=
  { sourceNodeId := "alpha"
    members := [{ nodeId := "gamma", manifestUrl := "https://gamma.example/manifest" }]
    signature := some { keyId := "k1", sig :=
      "c8URbSDeWtNfC1cKdSUbngGxXof6WwkCx0LhoPdbzHp7WrTTNrQ0rEgKi3c_3L8t8m5I9JZU-BJ0WhwqqSX_Cw" } }

def membersText : JWK × String × List String :=
  (alphaKey,
   "c8URbSDeWtNfC1cKdSUbngGxXof6WwkCx0LhoPdbzHp7WrTTNrQ0rEgKi3c_3L8t8m5I9JZU-BJ0WhwqqSX_Cw",
    ["\x7b\"members\":[\x7b\"disclosure\":", "\"federation\",\"manifest_url\":",
     "\"https://gamma.example/", "manifest\",\"node_id\":", "\"gamma\"\x7d],\"source_node_id\":",
     "\"alpha\"\x7d"])

def gammaNotice : RevocationNotice :=
  { federationId := "fed", revokedNodeId := "gamma", reason := "compromised",
    issuedAt := newYear2026
    issuer := "gamma"
    signature := some { keyId := "k1", sig :=
      "vEKeRp2zhFT9IB4AR5cYp6bN_8lWhdOOddyz0ZSPiIhCEdE_xDUvLRFfBj0ngk2-8rKfdB0XDGh-6N-2tJzbDw" } }

def gammaNoticeText : JWK × String × List String :=
  (gammaKey,
   "vEKeRp2zhFT9IB4AR5cYp6bN_8lWhdOOddyz0ZSPiIhCEdE_xDUvLRFfBj0ngk2-8rKfdB0XDGh-6N-2tJzbDw",
    ["\x7b\"federation_id\":\"fed\",", "\"issued_at\":\"2026-01-01T00:",
     "00:00Z\",\"issuer\":\"gamma\",", "\"reason\":\"compromised\",", "\"revoked_node_id\":",
     "\"gamma\"\x7d"])

def documentOf {M : Type} [Model M] (m : M) : Json :=
  match Model.dump m with
  | .ok fields => .obj fields
  | .error _ => .null

def sigOf : Json → Option String
  | .obj fields =>
    match fields.lookup "signature" with
    | some (.obj signature) =>
      match signature.lookup "sig" with
      | some (.str sig) => some sig
      | _ => none
    | _ => none
  | _ => none

def knowsDocuments (texts : List (JWK × String × List String)) (manifests : List Manifest)
    (members : List MembersResponse) : Platform :=
  { knows texts with
    validateManifest := fun j =>
      match manifests.find? (fun m => m.signature.map Signature.sig == sigOf j) with
      | some m => .ok m
      | none => .error .validationError
    validateMembers := fun j =>
      match members.find? (fun m => m.signature.map Signature.sig == sigOf j) with
      | some m => .ok m
      | none => .error .validationError }

def serves (manifests : List (String × Manifest))
    (members : List (String × MembersResponse)) : Env :=
  { silentWorld with
    httpGet := fun _ url =>
      match manifests.lookup url with
      | some m => .ok ⟨.ok (), .ok (documentOf m)⟩
      | none => .error .timeoutError
    httpRequest := fun _ _ _ url _ =>
      match members.lookup url with
      | some m => .ok ⟨.ok (), .ok (documentOf m)⟩
      | none => .error .timeoutError }

def alphaText : JWK × String × List String :=
  (alphaKey,
   "jInVC4h4-uf-v3Vf7g0-vlL8ku8dCA0SmWNDxrMKDOb3n5Jw6VliRO3UxpGcuy6CrzPenNiEyl2huGklt8X_CA", 
   ["\x7b\"auth_methods\":[\"signed_http\"],", "\"endpoint\":\"https:",
    "//alpha.example\",\"expires_at\":", "\"2026-02-01T00:00:", "00Z\",\"extensions\":",
    "\x7b\x7d,\"federations\":[\"fed\"],", "\"membership\":\x7b\"introduce_url\":",
    "\"https://alpha.example/", "introduce\",\"members_url\":", "\"https://alpha.example/",
    "members\"\x7d,\"node_id\":", "\"alpha\",\"org_id\":\"acme\",", "\"protocol_versions\":",
    "[\"1\"],\"public_keys\":", "[\x7b\"alg\":\"EdDSA\",\"key_id\":", "\"k1\",\"public_jwk\":",
    "\x7b\"alg\":\"EdDSA\",\"crv\":", "\"Ed25519\",\"kty\":\"OKP\",",
    "\"x\":\"11qYAYKxCrfVS_7TyWQHOg7hcvPap", "iMlrwIaaPcHURo\"\x7d,\"use\":",
    "\"sig\"\x7d],\"revision\":", "3\x7d"])

def hintPlatform : Platform :=
  knowsDocuments [alphaText, gammaText, membersText, gammaNoticeText] [gammaManifest] [alphaMembers]

def hintWorld : Env :=
  serves [("https://gamma.example/manifest", gammaManifest)]
    [("https://alpha.example/members", alphaMembers)]

def admitAlpha : NodeOp := .admitPeer alphaManifest (some "https://alpha.example/manifest") 300

def discoverGamma : NodeOp := .discover 300 100 none

def revokeGamma : NodeOp :=
  .applyRevocationNotice gammaNotice (Keyed.ofList [("k1", gammaKey)]) selfScopedAuthorize

def hintSpawn (i : Nat) (op : NodeOp) : Move Call Resp (Except Exc Unit) :=
  .spawn i (op.run hintPlatform beta).run

/-- The notice is applied between discovery's two writes. -/
def lateCaching : List (Move Call Resp (Except Exc Unit)) :=
  hintSpawn 0 admitAlpha :: List.replicate 8 (.step 0) ++ hintSpawn 1 discoverGamma ::
    List.replicate 11 (.step 1) ++
    hintSpawn 2 revokeGamma :: List.replicate 7 (.step 2) ++ List.replicate 4 (.step 1)

def hintHistory (moves : List (Move Call Resp (Except Exc Unit))) :
    List (Act Call Resp × NodePool) :=
  (Pool.start emptyNode).play hintWorld.handle moves

theorem hintHistory_along {moves : List (Move Call Resp (Except Exc Unit))}
    (h : ∀ m ∈ moves, (∃ i op, m = hintSpawn i op) ∨ ∃ i, m = .step i) :
    Along (NodeStep Reliable hintPlatform beta) (Pool.start emptyNode) (hintHistory moves) :=
  Pool.play_along (fun c s => Env.reliable (fun _ _ => rfl) c s) (spawns_ops h)

/-- `gamma` is revoked, the lock is free and `gamma`'s manifest is cached. -/
theorem discovery_caches_revoked :
    Along (NodeStep Reliable hintPlatform beta) (Pool.start emptyNode) (hintHistory lateCaching) ∧
      ∃ x ∈ hintHistory lateCaching, x.2.holder = none ∧ x.2.shared.revoked "gamma" ∧
        ¬ Absent beta "gamma" x.2.shared := by
  refine ⟨hintHistory_along (by simp [lateCaching]), ?_⟩
  have htrusted : (hintHistory lateCaching).any
      (fun x => decide (x.2.holder = none ∧ x.2.shared.revoked "gamma" ∧
      (x.2.shared.peerManifests.get "gamma").isSome = true)) = true := by decide +kernel
  obtain ⟨x, hx, h⟩ := List.any_eq_true.mp htrusted
  obtain ⟨hfree, hrevoked, hcached⟩ := of_decide_eq_true h
  refine ⟨x, hx, hfree, hrevoked, fun habsent => ?_⟩
  rw [habsent.1] at hcached
  cases hcached

def sparesEvicted (w : NodePool) (a : Act Call Resp) : Bool :=
  match a with
  | .call _ ⟨.discovery, .cachePut manifest⟩ _ => decide (¬ w.shared.revoked manifest.nodeId)
  | _ => true

theorem sparesEvicted_iff {w : NodePool} {a : Act Call Resp} :
    sparesEvicted w a = true ↔ SparesEvicted w a := by
  cases a with
  | call i c r =>
    obtain ⟨o, op⟩ := c
    by_cases ho : o = .discovery
    · subst ho
      cases op <;> simp [sparesEvicted, SparesEvicted, DiscoveryRule]
    · cases o <;> cases op <;> first | exact absurd rfl ho | exact iff_of_true rfl trivial
  | _ => exact iff_of_true rfl trivial

instance (w : NodePool) (a : Act Call Resp) : Decidable (SparesEvicted w a) :=
  decidable_of_iff _ sparesEvicted_iff

theorem early_notice_evicts :
    Along (NodeStep Reliable noticePlatform beta) (Pool.start knowingAlpha)
      (historyOf earlyNotice) ∧
    ∀ w ∈ Pool.start knowingAlpha :: (historyOf earlyNotice).map Prod.snd, w.holder = none →
      ∀ n, w.shared.revoked n → Absent beta n w.shared ∧
      Unknown noticePlatform beta n w.shared := by
  have hops : ∀ m ∈ earlyNotice, (∃ i op, m = spawn i op) ∨ ∃ i, m = .step i :=
    by simp [earlyNotice]
  have hrun : Along (NodeStep Reliable noticePlatform beta) (Pool.start knowingAlpha)
      (historyOf earlyNotice) :=
    Pool.play_along (fun c s => Env.reliable (fun _ _ => rfl) c s) (spawns_ops hops)
  have hactive : ∀ n, ¬ knowingAlpha.revoked n := by
    intro n hn
    obtain ⟨rec, hrec, hst⟩ := Option.map_eq_some_iff.mp hn
    obtain rfl := List.mem_singleton.mp (Keyed.mem_of_mem_ofList (Keyed.mem_of_get hrec))
    cases hst
  exact ⟨hrun, revoked_evicted noticePlatform beta hactive hrun (by decide +kernel)⟩

end Federlet
