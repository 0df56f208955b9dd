import Federlet.Trust

/-! A round of refreshes in an environment that answers by functions: what each fetch
comes to, what is gathered from them, and what a decision makes of the state. -/

namespace Federlet

open Coop

/-- The call asks the world outside on behalf of the origin. -/
def AsksFor (o : Origin) (c : Call) : Prop := c.origin = o ∧ c.outward

section Asks

variable {P : Platform} {sections : Sections}

theorem Makes.attempt {calls : Call → Prop} {α : Type} {t : Py α} (h : Makes calls sections t) :
    Makes calls sections (Task.Raising.attempt t) :=
  (Task.composed_attempt h).mono fun _ _ => trivial

theorem checkManifest_asks (o : Origin) (manifest : Manifest) (skew : Int) :
    Makes (AsksFor o) sections (checkManifest P o manifest skew) := by
  have hnow : AsksFor o ⟨o, .utcNow⟩ := ⟨rfl, trivial⟩
  exact (Makes.call hnow _).bind fun now => Makes.raising _

theorem assertPublicHost_asks (o : Origin) (url : String) (allowPrivate : Bool) :
    Makes (AsksFor o) sections (assertPublicHost P o url allowPrivate) := by
  refine (Makes.raising _).bind fun parsed => ?_
  dsimp only
  split
  · exact Makes.raising (.error _)
  split
  · exact Makes.pure ()
  have haddresses : AsksFor o ⟨o, .getaddrinfo (parsed.hostname P)⟩ := ⟨rfl, trivial⟩
  exact (Makes.call haddresses _).bind fun addresses => Makes.raising _

theorem fetchManifest_asks (client : FederationClient) (o : Origin) (url : String) (skew : Int) :
    Makes (AsksFor o) sections (fetchManifest P client o url skew) := by
  have hget : AsksFor o ⟨o, .httpGet url⟩ := ⟨rfl, trivial⟩
  refine (assertPublicHost_asks o url _).bind fun _ => (Makes.call hget _).bind fun r => ?_
  refine (Makes.raising _).bind fun _ => (Makes.raising _).bind fun body => (Makes.raising _).bind
    fun manifest => ?_
  refine (checkManifest_asks o manifest skew).bind fun verdict => ?_
  dsimp only
  split
  · exact Makes.raising (.error _)
  · exact Makes.pure manifest

theorem checkKeyContinuity_asks (o : Origin) (current refreshed : Manifest)
    (policy : Option KeyContinuityPolicy) :
    Makes (AsksFor o) sections (checkKeyContinuity P o current refreshed policy) := by
  refine (Makes.raising _).bind fun verdict => ?_
  dsimp only
  split
  · exact Makes.pure _
  split
  · rename_i verifier _
    have hcallback : AsksFor o ⟨o, .hostCallback verifier refreshed⟩ := ⟨rfl, trivial⟩
    refine (Makes.call hcallback _).bind fun answer => ?_
    split
    · exact Makes.pure _
    split
    · exact Makes.pure _
    · exact Makes.pure _
  · exact Makes.pure _

theorem refreshPeerManifest_asks (client : FederationClient) (current : Manifest) (url : String)
    (policy : Option KeyContinuityPolicy) (skew : Int) :
    Makes (AsksFor (.fetch current.nodeId)) sections
      (refreshPeerManifest P client current url policy skew) := by
  refine (fetchManifest_asks client _ url skew).attempt.bind fun fetched => ?_
  split
  · exact Makes.raising _
  split
  · exact Makes.pure _
  · exact (checkKeyContinuity_asks _ current _ policy).bind fun _ => Makes.pure _

end Asks

/-- Two environments answer alike what is asked on behalf of the origin. -/
structure Env.AgreesFor (o : Origin) (env env' : Env) : Prop where
  now : env'.now o = env.now o
  getaddrinfo : env'.getaddrinfo o = env.getaddrinfo o
  httpGet : env'.httpGet o = env.httpGet o
  httpRequest : env'.httpRequest o = env.httpRequest o
  hostCallback : env'.hostCallback = env.hostCallback

theorem Env.AgreesFor.refl (o : Origin) (env : Env) :
    env.AgreesFor o env := ⟨rfl, rfl, rfl, rfl, rfl⟩

/-- What asks for one origin comes to the same wherever that origin is answered
alike at the same moment, and writes nothing. -/
theorem Makes.eval {o : Origin} {env env' : Env} (hagree : env.AgreesFor o env')
    {α : Type} {t : Py α} (ht : Makes (AsksFor o) (fun _ _ => False) t) {s s' : NodeState}
    (hclock : s'.clock = s.clock) : (t.run.eval env'.handle s').1 = (t.run.eval env.handle s).1 ∧
      (t.run.eval env.handle s).2 = s ∧ (t.run.eval env'.handle s').2 = s' := by
  suffices hrel : (t.run.eval env'.handle s').1 = (t.run.eval env.handle s).1 ∧ True ∧
      (t.run.eval env.handle s).2 = s ∧ (t.run.eval env'.handle s').2 = s' from ⟨hrel.1, hrel.2.2⟩
  refine Task.Composed.eval_rel (I := fun a a' => a = s ∧ a' = s') ?_
    (fun _ _ _ _ hf => hf.elim) ht ⟨rfl, rfl⟩
  rintro ⟨o', op⟩ _ _ ⟨ho, houtward⟩ ⟨rfl, rfl⟩
  obtain rfl : o' = o := ho
  obtain ⟨hnow, haddresses, hget, hrequest, hcallback⟩ := hagree
  cases op
  case utcNow | getaddrinfo | httpGet | httpRequest | hostCallback =>
    simp only [Env.handle, hnow, hclock, haddresses, hget, hrequest, hcallback, and_self]
  all_goals exact houtward.elim

namespace ManifestRefreshDecision

variable (decision : ManifestRefreshDecision)

def amend (now : DateTime) (rec : MemberRecord) : MemberRecord :=
  match decision.action, decision.manifest with
  | .accept, some manifest | .unchanged, some manifest =>
    { rec with manifestRevision := manifest.revision }.admitRecord none now
  | .accept, none | .unchanged, none => rec
  | .quarantine, _ => rec.setState .staleManifest now
  | .reject, _ => rec.setState .rejected now

/-- What becomes of the manifests, where the decision is about the node `n`. -/
def carry (node : FederationNode) (n : String) (s : NodeState) : NodeState :=
  match decision.action, decision.manifest with
  | .accept, some manifest | .unchanged, some manifest => s.remember node manifest
  | .accept, none | .unchanged, none | .quarantine, _ => s
  | .reject, _ => s.forget node n

theorem amend_nodeId (now : DateTime) (rec : MemberRecord) :
    (decision.amend now rec).nodeId = rec.nodeId := by
  rw [amend]
  split <;> rfl

theorem carry_frame (node : FederationNode) (n : String) (s : NodeState) :
    (decision.carry node n s).membershipTable = s.membershipTable ∧
      (decision.carry node n s).clock = s.clock := by
  rw [carry]
  split <;> exact ⟨rfl, rfl⟩

theorem carry_with_table (node : FederationNode) (n : String) (s : NodeState)
    (table : Keyed (@MemberRecord.nodeId DateTime)) :
    decision.carry node n { s with membershipTable := table } =
      { decision.carry node n s with membershipTable := table } := by
  rw [carry, carry]
  split <;> rfl

end ManifestRefreshDecision

namespace NodeState

def refile (n : String) (f : MemberRecord → MemberRecord) (s : NodeState) : NodeState :=
  (s.membershipTable.get n).elim s fun rec => s.file (f rec)

/-- What `_apply_refresh_decision` makes of the state. -/
def settle (node : FederationNode) (now : DateTime) (s : NodeState)
    (entry : String × ManifestRefreshDecision) :
    NodeState :=
  entry.2.carry node entry.1 (s.refile entry.1 (entry.2.amend now))

def settleAll (node : FederationNode) (now : DateTime)
    (entries : List (String × ManifestRefreshDecision)) (s : NodeState) : NodeState :=
  entries.foldl (settle node now) s

def unknown (s : NodeState) (records : List MemberRecord) :
    List (String × ManifestRefreshDecision) :=
  (records.filter fun rec => (s.peerManifests.get rec.nodeId).isNone).map
    fun rec => (rec.nodeId, FederationNode.unknownPeer)

theorem file_of_get {s : NodeState} {n : String} {rec : MemberRecord}
    (h : s.membershipTable.get n = some rec) :
    s.file rec = s := by
  have hself : s.membershipTable.get rec.nodeId = some rec := by rwa [Keyed.key_of_get h]
  rw [file, Keyed.upsert_of_get hself]

theorem refile_of_get {s : NodeState} {n : String} {rec : MemberRecord}
    (h : s.membershipTable.get n = some rec) (f : MemberRecord → MemberRecord) :
    s.refile n f = s.file (f rec) := by
  rw [refile, h, Option.elim_some]

theorem refile_of_get_none {s : NodeState} {n : String} (h : s.membershipTable.get n = none)
    (f : MemberRecord → MemberRecord) : s.refile n f = s := by
  rw [refile, h, Option.elim_none]

theorem refile_frame (n : String) (f : MemberRecord → MemberRecord) (s : NodeState) :
    ∃ table, s.refile n f = { s with membershipTable := table } := by
  rw [refile]
  cases s.membershipTable.get n with
  | none => exact ⟨_, rfl⟩
  | some rec => exact ⟨_, rfl⟩

theorem settle_frame (node : FederationNode) (now : DateTime) (s : NodeState) (n : String)
    (decision : ManifestRefreshDecision) :
    ∃ table, s.settle node now (n, decision) =
      { decision.carry node n s with membershipTable := table } := by
  obtain ⟨table, htable⟩ := s.refile_frame n (decision.amend now)
  exact ⟨table, by rw [settle, htable, decision.carry_with_table]⟩

theorem settle_clock (node : FederationNode) (now : DateTime) (s : NodeState)
    (entry : String × ManifestRefreshDecision) : (s.settle node now entry).clock = s.clock := by
  obtain ⟨table, htable⟩ := s.settle_frame node now entry.1 entry.2
  rw [htable, (entry.2.carry_frame node entry.1 s).2]

theorem settle_get (node : FederationNode) (now : DateTime) (s : NodeState) (n : String)
    (decision : ManifestRefreshDecision) :
    (s.settle node now (n, decision)).membershipTable.get n = (s.membershipTable.get n).map
    (decision.amend now) := by
  rw [settle, (decision.carry_frame node n _).1]
  cases hrec : s.membershipTable.get n with
  | none => rw [refile_of_get_none hrec, hrec, Option.map_none]
  | some rec =>
    have hn : (decision.amend now rec).nodeId = n :=
      (decision.amend_nodeId now rec).trans (Keyed.key_of_get hrec)
    have hget := Keyed.get_upsert_self s.membershipTable (decision.amend now rec)
    rw [hn] at hget
    rw [refile_of_get hrec, Option.map_some]
    exact hget

theorem settleAll_clock (node : FederationNode) (now : DateTime)
    (entries : List (String × ManifestRefreshDecision)) (s : NodeState) :
    (s.settleAll node now entries).clock = s.clock := by
  induction entries generalizing s with
  | nil => rfl
  | cons entry entries ih => exact (ih _).trans (settle_clock node now s entry)

theorem settle_unknown_cache {s : NodeState} {n : String} (h : s.peerManifests.get n = none)
    (node : FederationNode) (now : DateTime) :
    (s.settle node now (n, FederationNode.unknownPeer)).peerManifests = s.peerManifests := by
  obtain ⟨table, htable⟩ := s.settle_frame node now n FederationNode.unknownPeer
  rw [htable]
  exact Keyed.erase_of_get_none h

end NodeState

section Rounds

variable {P : Platform} {node : FederationNode} {env : Env}
  {policy : Option KeyContinuityPolicy} {skew : Int}

theorem rememberManifest_eval (o : Origin) (manifest : Manifest) (s : NodeState) :
    (node.rememberManifest o manifest).run.eval env.handle s = (.ok (), s.remember node manifest) :=
  by
  rw [FederationNode.rememberManifest, Task.eval_run_bind, NodeState.remember]
  cases node.manifestStore <;> rfl

theorem forgetManifest_eval (o : Origin) (n : String) (s : NodeState) :
    (node.forgetManifest o n).run.eval env.handle s = (.ok (), s.forget node n) := by
  rw [FederationNode.forgetManifest, Task.eval_run_bind, NodeState.forget]
  cases node.manifestStore <;> rfl

theorem stamped_eval (f : DateTime → MemberRecord) (s : NodeState) :
    (do let now ← utcNow .refresh; MembershipTable.upsert .refresh (f now) : Py Unit).run.eval
      env.handle s = (.ok (), s.file (f (env.now .refresh s.clock))) := rfl

theorem applyRefreshDecision_eval (n : String) (decision : ManifestRefreshDecision)
    (s : NodeState) : (node.applyRefreshDecision n decision).run.eval env.handle s =
      (.ok (), s.settle node (env.now .refresh s.clock) (n, decision)) := by
  have hget : (MembershipTable.get .refresh n).run.eval env.handle s =
      (.ok (s.membershipTable.get n), s) := rfl
  rw [FederationNode.applyRefreshDecision, Task.run_locked, Task.eval_withLock, Task.eval_run_bind,
    hget, Task.andThen_ok, NodeState.settle, NodeState.refile]
  cases haction : decision.action
  case accept | unchanged =>
    cases hmanifest : decision.manifest with
    | none =>
      cases hrec : s.membershipTable.get n with
      | none =>
        simp only [ManifestRefreshDecision.carry, haction, hmanifest]
        rfl
      | some rec =>
        have hsame := NodeState.file_of_get hrec
        simp only [ManifestRefreshDecision.carry, ManifestRefreshDecision.amend, haction, hmanifest,
          Option.elim_some, hsame]
        rfl
    | some manifest =>
      dsimp only
      rw [Task.eval_run_bind, rememberManifest_eval, Task.andThen_ok]
      cases s.membershipTable.get n with
      | none =>
        simp only [ManifestRefreshDecision.carry, haction, hmanifest]
        rfl
      | some rec =>
        simp only [ManifestRefreshDecision.carry, ManifestRefreshDecision.amend, haction, hmanifest]
        exact stamped_eval _ _
  case quarantine =>
    cases s.membershipTable.get n with
    | none =>
      simp only [ManifestRefreshDecision.carry, haction]
      rfl
    | some rec =>
      simp only [ManifestRefreshDecision.carry, ManifestRefreshDecision.amend, haction]
      exact stamped_eval _ _
  case reject =>
    cases s.membershipTable.get n with
    | none =>
      simp only [ManifestRefreshDecision.carry, haction]
      exact forgetManifest_eval .refresh n s
    | some rec =>
      simp only [ManifestRefreshDecision.carry, ManifestRefreshDecision.amend, haction]
      exact forgetManifest_eval .refresh n
        (s.file (rec.setState .rejected (env.now .refresh s.clock)))

theorem applyRefreshDecisions_eval (entries : List (String × ManifestRefreshDecision))
    (s : NodeState) : (node.applyRefreshDecisions entries).run.eval env.handle s =
      (.ok (), s.settleAll node (env.now .refresh s.clock) entries) := by
  induction entries generalizing s with
  | nil => rfl
  | cons entry entries ih =>
    have hclock := s.settle_clock node (env.now .refresh s.clock) entry
    rw [FederationNode.applyRefreshDecisions, Task.eval_run_bind, applyRefreshDecision_eval,
      Task.andThen_ok, ih, hclock]
    rfl

theorem refreshTargets_eval (records : List MemberRecord) (s : NodeState) :
    (node.refreshTargets records).run.eval env.handle s =
      (.ok (records.filterMap s.target, s.unknown records),
        s.settleAll node (env.now .refresh s.clock) (s.unknown records)) := by
  induction records generalizing s with
  | nil => rfl
  | cons rec records ih =>
    have hget : (PeerManifests.get .refresh rec.nodeId).run.eval env.handle s =
      (.ok (s.peerManifests.get rec.nodeId), s) := rfl
    rw [FederationNode.refreshTargets, Task.eval_run_bind, hget, Task.andThen_ok]
    cases hcached : s.peerManifests.get rec.nodeId with
    | none =>
      have hclock := s.settle_clock node (env.now .refresh s.clock)
        (rec.nodeId, FederationNode.unknownPeer)
      have hcache := NodeState.settle_unknown_cache hcached node (env.now .refresh s.clock)
      have hnone : s.target rec = none := by simp [NodeState.target, hcached]
      have hunknown : s.unknown (rec :: records) = (rec.nodeId, FederationNode.unknownPeer) ::
          s.unknown records := by
        simp [NodeState.unknown, hcached]
      generalize hs₁ : s.settle node (env.now .refresh s.clock)
        (rec.nodeId, FederationNode.unknownPeer) = s₁ at hclock hcache
      have htarget : s₁.target = s.target :=
        funext fun rec => by rw [NodeState.target, NodeState.target, hcache]
      have hrest : s₁.unknown records = s.unknown records :=
        by rw [NodeState.unknown, NodeState.unknown, hcache]
      rw [Task.eval_run_bind, applyRefreshDecision_eval, Task.andThen_ok, hs₁, Task.eval_run_bind,
        ih, Task.andThen_ok, List.filterMap_cons_none hnone, hunknown, hclock, htarget, hrest,
          NodeState.settleAll, NodeState.settleAll,
        List.foldl_cons, hs₁]
      rfl
    | some manifest =>
      have htarget : s.target rec = some (manifest, rec.manifestUrl) :=
        by simp [NodeState.target, hcached]
      have hunknown : s.unknown (rec :: records) = s.unknown records :=
        by simp [NodeState.unknown, hcached]
      rw [Task.eval_run_bind, ih, Task.andThen_ok, List.filterMap_cons_some htarget, hunknown]
      rfl

variable (P node env policy skew)

def fetched (s : NodeState) (target : Manifest × String) : Except Exc Manifest :=
  ((fetchManifest P node.client (.fetch target.1.nodeId) target.2 skew).run.eval env.handle s).1

def refreshed (s : NodeState) (target : Manifest × String) :
    Except Exc (String × ManifestRefreshDecision) :=
  ((refreshPeerManifest P node.client target.1 target.2 policy skew).run.eval env.handle s).1.map
    fun decision => (target.1.nodeId, decision)

def NodeState.due (s : NodeState) : List MemberRecord :=
  s.membershipTable.entries.filter fun rec => rec.isEligible (env.now .refresh s.clock)

/-- The state in which a round waits for the network. -/
def NodeState.waiting (s : NodeState) : NodeState :=
  s.settleAll node (env.now .refresh s.clock) (s.unknown (s.due env))

/-- How a round ends that has gathered its decisions. -/
def concluded (now : DateTime) (s : NodeState) (unknown : List (String × ManifestRefreshDecision)) :
    Except Exc (List (String × ManifestRefreshDecision)) →
      Except Exc (Dict ManifestRefreshDecision) × NodeState
  | .error e => (.error e, s)
  | .ok decisions =>
    (.ok (Keyed.ofList (unknown ++ decisions)), s.settleAll node now
      (Keyed.ofList (unknown ++ decisions) : Dict _).entries)

variable {P node env policy skew}

theorem refreshed_agrees {env' : Env} {target : Manifest × String}
    (hagree : env.AgreesFor (.fetch target.1.nodeId) env') {s s' : NodeState}
    (hclock : s'.clock = s.clock) :
    refreshed P node env' policy skew s' target = refreshed P node env policy skew s target := by
  have hsame := (refreshPeerManifest_asks (P := P) node.client target.1 target.2 policy skew).eval
    hagree hclock
  rw [refreshed, refreshed, hsame.1]

theorem gatherRefreshes_eval (targets : List (Manifest × String)) (s : NodeState) :
    (gatherRefreshes P node.client policy skew targets).run.eval env.handle s =
      (.ok (targets.map (refreshed P node env policy skew s)), s) := by
  induction targets with
  | nil => rfl
  | cons target targets ih =>
    have hone := (refreshPeerManifest_asks (P := P) node.client target.1 target.2 policy skew).eval
      (Env.AgreesFor.refl _ env) (s := s) rfl
    rw [gatherRefreshes, Task.eval_run_bind, Task.run_attempt, Task.eval_bind, hone.2.1,
      Task.eval_done, Task.andThen_ok, Task.eval_run_bind, ih]
    rfl

theorem refreshAll_eval (s : NodeState) :
    (node.refreshAll P policy skew).run.eval env.handle s =
      concluded node (env.now .refresh s.clock) (s.waiting node env) (s.unknown (s.due env))
        (gathered (((s.due env).filterMap s.target).map (refreshed P node env policy skew s))) := by
  have heligible : (eligiblePeers .refresh).run.eval env.handle s = (.ok (s.due env), s) := rfl
  have hclock : (s.waiting node env).clock = s.clock := s.settleAll_clock node _ _
  have hsame : refreshed P node env policy skew (s.waiting node env) = refreshed P node env
      policy skew s :=
    funext fun target => refreshed_agrees (Env.AgreesFor.refl _ env) hclock
  have hmanifests :
      (refreshAllManifests P node.client ((s.due env).filterMap s.target) policy skew).run.eval
        env.handle
      (s.waiting node env) =
        (gathered (((s.due env).filterMap s.target).map (refreshed P node env policy skew s)),
          s.waiting node env) := by
    rw [refreshAllManifests, Task.eval_run_bind, gatherRefreshes_eval, Task.andThen_ok, hsame]
    rfl
  rw [FederationNode.refreshAll, Task.eval_run_bind, heligible, Task.andThen_ok, Task.eval_run_bind,
    refreshTargets_eval, Task.andThen_ok, ← NodeState.waiting]
  dsimp only
  rw [Task.eval_run_bind, hmanifests]
  cases gathered (((s.due env).filterMap s.target).map (refreshed P node env policy skew s)) with
  | error e => rfl
  | ok decisions =>
    dsimp only
    rw [Task.andThen_ok, Task.eval_run_bind, applyRefreshDecisions_eval, hclock]
    rfl

end Rounds

end Federlet
