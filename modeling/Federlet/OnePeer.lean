import Federlet.Fetches

/-! The two ways to refresh one peer. A peer without a cached manifest is turned away
by both, and only the round over all peers makes a note of it. -/

namespace Federlet

open Coop

def MemberRecord.unstamped (rec : MemberRecord) : MemberRecord := { rec with lastRefresh := none }

/-- The node's record up to that stamp, and all manifests cached and stored, are the same. -/
structure SameAfter (n : String) (s s' : NodeState) : Prop where
  record : (s'.membershipTable.get n).map MemberRecord.unstamped = (s.membershipTable.get n).map
    MemberRecord.unstamped
  cache : s'.peerManifests = s.peerManifests
  store : s'.manifestStore = s.manifestStore

/-- Both raise, or both decide alike on the node and leave the same behind. -/
def RefreshesAgree (n : String) (one : Except Exc ManifestRefreshDecision × NodeState)
    (all : Except Exc (Dict ManifestRefreshDecision) × NodeState) : Prop :=
  (∃ e e', one.1 = .error e ∧ all.1 = .error e') ∨
    ∃ decision decisions, one.1 = .ok decision ∧ all.1 = .ok decisions ∧
      decisions.lookup n = some decision ∧
      SameAfter n one.2 all.2

theorem amend_unstamped (decision : ManifestRefreshDecision) (now now' : DateTime)
    (rec : MemberRecord) :
    (decision.amend now' rec).unstamped = (decision.amend now rec).unstamped := by
  rw [ManifestRefreshDecision.amend, ManifestRefreshDecision.amend]
  split <;> rfl

theorem settle_stamp (node : FederationNode) (now now' : DateTime) (s : NodeState) (n : String)
    (decision : ManifestRefreshDecision) :
    SameAfter n (s.settle node now (n, decision)) (s.settle node now' (n, decision)) := by
  obtain ⟨table, htable⟩ := s.settle_frame node now n decision
  obtain ⟨table', htable'⟩ := s.settle_frame node now' n decision
  refine ⟨?_, by rw [htable, htable'], by rw [htable, htable']⟩
  rw [NodeState.settle_get, NodeState.settle_get, Option.map_map, Option.map_map]
  exact congrArg (fun f => Option.map f _) (funext (amend_unstamped decision now now'))

/-- How the refresh of one peer ends that has its decision. -/
def decided (node : FederationNode) (now : DateTime) (s : NodeState) :
    Except Exc (String × ManifestRefreshDecision) → Except Exc ManifestRefreshDecision × NodeState
  | .error e => (.error e, s)
  | .ok entry => (.ok entry.2, s.settle node now entry)

section OnePeer

variable {P : Platform} {node : FederationNode} {env env' : Env}
  {policy : Option KeyContinuityPolicy} {skew : Int} {s : NodeState} {rec : MemberRecord}

theorem get_of_due (hdue : s.due env = [rec]) : s.membershipTable.get rec.nodeId = some rec := by
  have hmem : rec ∈ s.due env := by simp [hdue]
  exact Keyed.get_of_mem (List.mem_of_mem_filter hmem)

theorem refreshPeer_eval_unknown {n : String} (h : s.peerManifests.get n = none) :
    (node.refreshPeer P n policy skew).run.eval env.handle s =
      (.ok FederationNode.unknownPeer, s) := by
  have hread : (MembershipTable.get .refresh n).run.eval env.handle s =
      (.ok (s.membershipTable.get n), s) := rfl
  have hget : (PeerManifests.get .refresh n).run.eval env.handle s =
      (.ok (s.peerManifests.get n), s) := rfl
  rw [FederationNode.refreshPeer, Task.eval_run_bind, hread, Task.andThen_ok, Task.eval_run_bind,
    hget, Task.andThen_ok, h]
  cases s.membershipTable.get n <;> rfl

theorem refreshPeer_eval {manifest : Manifest}
    (hrec : s.membershipTable.get manifest.nodeId = some rec)
    (hcached : s.peerManifests.get manifest.nodeId = some manifest) :
    (node.refreshPeer P manifest.nodeId policy skew).run.eval env.handle s =
      decided node (env.now .refresh s.clock) s
        (refreshed P node env policy skew s (manifest, rec.manifestUrl)) := by
  have hread : (MembershipTable.get .refresh manifest.nodeId).run.eval env.handle s =
    (.ok (s.membershipTable.get manifest.nodeId), s) := rfl
  have hget : (PeerManifests.get .refresh manifest.nodeId).run.eval env.handle s =
    (.ok (s.peerManifests.get manifest.nodeId), s) := rfl
  have hquiet :=
    ((refreshPeerManifest_asks (P := P) node.client manifest rec.manifestUrl policy skew).eval
    (Env.AgreesFor.refl _ env) (s := s) rfl).2.1
  rw [FederationNode.refreshPeer, Task.eval_run_bind, hread, Task.andThen_ok, Task.eval_run_bind,
    hget, Task.andThen_ok, hrec, hcached, refreshed]
  dsimp only
  rw [Task.eval_run_bind, hquiet]
  cases ((refreshPeerManifest P node.client manifest rec.manifestUrl policy skew).run.eval
    env.handle s).1 with
  | error e => rfl
  | ok decision =>
    rw [Task.andThen_ok, Task.eval_run_bind, applyRefreshDecision_eval]
    rfl

theorem refreshAll_eval_one {manifest : Manifest} (hdue : s.due env = [rec])
    (hcached : s.peerManifests.get rec.nodeId = some manifest) :
    (node.refreshAll P policy skew).run.eval env.handle s = concluded node
    (env.now .refresh s.clock) s []
      ((refreshed P node env policy skew s (manifest, rec.manifestUrl)).map fun entry => [entry]) :=
        by
  have hunknown : s.unknown (s.due env) = [] := by simp [NodeState.unknown, hdue, hcached]
  have htargets : (s.due env).filterMap s.target = [(manifest, rec.manifestUrl)] := by
    simp [hdue, NodeState.target, hcached]
  have hwaiting : s.waiting node env = s := by rw [NodeState.waiting, hunknown]; rfl
  rw [refreshAll_eval, hwaiting, hunknown, htargets, List.map_singleton, gathered]
  cases refreshed P node env policy skew s (manifest, rec.manifestUrl) with
  | error e => rfl
  | ok entry => rfl

theorem refreshAll_eval_unknown (hdue : s.due env = [rec])
    (hcached : s.peerManifests.get rec.nodeId = none) :
    ((node.refreshAll P policy skew).run.eval env.handle s).2.stateOf rec.nodeId =
      some .rejected := by
  have hrec := get_of_due hdue
  have hunknown : s.unknown (s.due env) = [(rec.nodeId, FederationNode.unknownPeer)] := by
    simp [NodeState.unknown, hdue, hcached]
  have htargets : (s.due env).filterMap s.target = [] := by simp [hdue, NodeState.target, hcached]
  rw [refreshAll_eval, htargets, hunknown, List.map_nil, gathered, NodeState.waiting, hunknown]
  show ((NodeState.settle node _ (s.settle node _ (rec.nodeId, FederationNode.unknownPeer))
    (rec.nodeId,
    FederationNode.unknownPeer)).membershipTable.get rec.nodeId).map MemberRecord.state = _
  rw [NodeState.settle_get, NodeState.settle_get, hrec]
  rfl

theorem refreshed_named {target : Manifest × String} {entry : String × ManifestRefreshDecision}
    (h : refreshed P node env policy skew s target = .ok entry) : entry.1 = target.1.nodeId := by
  rw [refreshed] at h
  cases hdecision :
    ((refreshPeerManifest P node.client target.1 target.2 policy skew).run.eval env.handle s).1 with
  | error e =>
    rw [hdecision] at h
    cases h
  | ok decision =>
    rw [hdecision] at h
    cases h
    rfl

theorem uncached_disagree (hdue : s.due env' = [rec])
    (hcached : s.peerManifests.get rec.nodeId = none) :
    ¬ RefreshesAgree rec.nodeId ((node.refreshPeer P rec.nodeId policy skew).run.eval env.handle s)
      ((node.refreshAll P policy skew).run.eval env'.handle s) := by
  have hrec := get_of_due hdue
  have heligible : rec ∈ s.due env' := by simp [hdue]
  have hactive : rec.state = .active :=
    MemberRecord.isEligible_active (List.mem_filter.mp heligible).2
  have hall := @refreshAll_eval_unknown P node env' policy skew s rec hdue hcached
  rw [refreshPeer_eval_unknown hcached]
  rintro (⟨_, _, he, _⟩ | ⟨_, _, _, _, _, ⟨hsame, _, _⟩⟩)
  · cases he
  · have hstate := congrArg (Option.map MemberRecord.state) hsame
    rw [Option.map_map, Option.map_map, hrec] at hstate
    rw [NodeState.stateOf] at hall
    have hrejected : some PeerState.rejected = some rec.state := hall.symm.trans hstate
    simp [hactive] at hrejected

theorem cached_agree {manifest : Manifest} (hagree : env.AgreesFor (.fetch rec.nodeId) env')
    (hdue : s.due env' = [rec]) (hcached : s.peerManifests.get rec.nodeId = some manifest) :
    RefreshesAgree rec.nodeId ((node.refreshPeer P rec.nodeId policy skew).run.eval env.handle s)
      ((node.refreshAll P policy skew).run.eval env'.handle s) := by
  have hrec := get_of_due hdue
  have hn : manifest.nodeId = rec.nodeId := Keyed.key_of_get hcached
  have hcached' := hcached
  rw [← hn] at hrec hcached' hagree
  have hboth := @refreshed_agrees P node env policy skew env' (manifest, rec.manifestUrl)
    hagree s s rfl
  have hone := @refreshPeer_eval P node env policy skew s rec manifest hrec hcached'
  rw [hn] at hone
  rw [refreshAll_eval_one hdue hcached, hboth, hone]
  cases hrefreshed : refreshed P node env policy skew s (manifest, rec.manifestUrl) with
  | error e => exact .inl ⟨e, e, rfl, rfl⟩
  | ok entry =>
    obtain ⟨n, decision⟩ := entry
    obtain rfl : n = rec.nodeId := (refreshed_named hrefreshed).trans hn
    refine .inr ⟨decision, _, rfl, rfl, ?_, settle_stamp node _ _ s rec.nodeId decision⟩
    simp [Dict.lookup, Keyed.get_ofList]

end OnePeer

/-- The two agree exactly where the manifest of the one eligible peer is cached. -/
theorem refreshes_agree_iff (P : Platform) (node : FederationNode) {env env' : Env} {s : NodeState}
    {rec : MemberRecord} (policy : Option KeyContinuityPolicy) (skew : Int)
    (hagree : env.AgreesFor (.fetch rec.nodeId) env') (hdue : s.due env' = [rec]) :
    RefreshesAgree rec.nodeId ((node.refreshPeer P rec.nodeId policy skew).run.eval env.handle s)
        ((node.refreshAll P policy skew).run.eval env'.handle s) ↔
      ∃ manifest, s.peerManifests.get rec.nodeId = some manifest := by
  cases hcached : s.peerManifests.get rec.nodeId with
  | none => exact iff_of_false (uncached_disagree hdue hcached) (by simp)
  | some manifest => exact iff_of_true (cached_agree hagree hdue hcached) ⟨manifest, rfl⟩

def minuteOn : DateTime := .utc 63902822460000000 (by decide)

def laterWorld :
    Env := { silentWorld with now := fun o clock => if o = .refresh then minuteOn else clock }

def uncachedAlpha : NodeState := { knowingAlpha with peerManifests := .empty }

theorem due_alpha : knowingAlpha.due laterWorld = [alphaRecord] ∧
    uncachedAlpha.due laterWorld = [alphaRecord] := by
  decide +kernel

theorem agrees_later : silentWorld.AgreesFor (.fetch "alpha") laterWorld := by
  refine ⟨funext fun clock => ?_, rfl, rfl, rfl, rfl⟩
  simp [laterWorld, silentWorld]

theorem timed_out_alike :
    silentWorld.AgreesFor (.fetch "alpha") laterWorld ∧
      knowingAlpha.due laterWorld = [alphaRecord] ∧
      RefreshesAgree "alpha" ((beta.refreshPeer noticePlatform "alpha" none 300).run.eval
        silentWorld.handle knowingAlpha)
      ((beta.refreshAll noticePlatform none 300).run.eval laterWorld.handle knowingAlpha) := by
  have hcached : ∃ manifest, knowingAlpha.peerManifests.get alphaRecord.nodeId = some manifest :=
    ⟨alphaManifest, rfl⟩
  exact ⟨agrees_later, due_alpha.1,
    (refreshes_agree_iff noticePlatform beta none 300 agrees_later due_alpha.1).mpr hcached⟩

theorem uncached_alpha_differs :
    silentWorld.AgreesFor (.fetch "alpha") laterWorld ∧
      uncachedAlpha.due laterWorld = [alphaRecord] ∧
      ¬ RefreshesAgree "alpha"
        ((beta.refreshPeer noticePlatform "alpha" none 300).run.eval silentWorld.handle
          uncachedAlpha) ((beta.refreshAll noticePlatform none 300).run.eval laterWorld.handle
          uncachedAlpha) :=
  ⟨agrees_later, due_alpha.2, @uncached_disagree noticePlatform beta silentWorld laterWorld none 300
    uncachedAlpha alphaRecord due_alpha.2 rfl⟩

end Federlet
