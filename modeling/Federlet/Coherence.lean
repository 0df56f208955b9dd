import Federlet.Revocation

/-! The cache and the manifest store. Every writer holds the lock across its two
writes, so the two maps agree whenever the lock is free, in every interleaving,
and a node restarted from the store knows the same peers. -/

namespace Federlet

open Coop

def Coherent (s : NodeState) : Prop := ∀ n, s.peerManifests.get n = s.manifestStore.get n

def manifestStoreRaised (c : Call) : Resp c → Prop :=
  match c with
  | ⟨_, .storeUpsert _⟩ => fun r => ∃ e, r = .error e
  | ⟨_, .storeDelete _⟩ => fun r => ∃ e, r = .error e
  | ⟨_, .storeValues⟩ => fun r => ∃ e, r = .error e
  | _ => fun _ => False

/-- `Does` with a manifest store that never fails; the other stores may. -/
def StoreKept : Sem Call Resp NodeState := fun c s r s' => Does c s r s' ∧ ¬ manifestStoreRaised c r

inductive LifecycleOp where
  | hydrate
  | operation (op : NodeOp)

def LifecycleOp.run (P : Platform) (node : FederationNode) : LifecycleOp → Py Unit
  | .hydrate => node.hydrate
  | .operation op => op.run P node

def LifecycleStep (sem : Sem Call Resp NodeState) (P : Platform) (node : FederationNode) :
    NodePool → Act Call Resp → NodePool → Prop :=
  Pool.Step sem Outside (fun t => ∃ op : LifecycleOp, t = (op.run P node).run)

/-- A node restarted on the same store, with the same clock and nonces, gives
every inbound request the verdict this one gives. -/
def RestartEquivalent (P : Platform) (node : FederationNode) (s : NodeState) : Prop :=
  ∀ (env : Env) (fresh : NodeState), fresh.peerManifests.entries = [] →
    fresh.manifestStore = s.manifestStore →
    fresh.clock = s.clock → fresh.nonces = s.nonces →
    ∀ header source method path body maxBodyBytes skew,
      ((node.verifyKnownInbound P header source method path body maxBodyBytes skew).run.eval
        env.handle (node.hydrate.run.eval env.handle fresh).2).1 =
      ((node.verifyKnownInbound P header source method path body maxBodyBytes skew).run.eval
        env.handle s).1

section Restart

variable {P : Platform} {node : FederationNode} {env : Env} {s s' : NodeState}

theorem claimNonce_eval_congr {e : SignedRequest} {req : Inbound}
    {verdict : Except Exc (Bool × String)} (hclock : s'.clock = s.clock)
    (hnonces : s'.nonces = s.nonces) :
    ((claimNonce e req verdict).eval env.handle s').1 =
      ((claimNonce e req verdict).eval env.handle s).1 := by
  rcases verdict with x | ⟨ok, reason⟩
  · rfl
  cases ok with
  | false => rfl
  | true =>
    simp only [claimNonce]
    split
    · simp only [Task.eval_call, Task.eval_done, Env.handle, NodeState.nonceSet, hclock, hnonces]
    · rfl

theorem verifyPeerRequest_eval_congr {header : Option String} {manifest : Manifest} {req : Inbound}
    (hclock : s'.clock = s.clock) (hnonces : s'.nonces = s.nonces) :
    ((verifyPeerRequest P header manifest req).run.eval env.handle s').1 =
      ((verifyPeerRequest P header manifest req).run.eval env.handle s).1 := by
  cases hsel : selectSigner P header manifest with
  | error e =>
    rw [verifyPeerRequest_run_of_error hsel]
    rfl
  | ok signer =>
    obtain ⟨e, signature, jwk⟩ := signer
    rw [verifyPeerRequest_run_of_signer hsel, Task.eval_bind, Task.eval_bind,
      verifySignedRequest_run]
    simp only [Task.eval_call, Task.eval_done]
    have hnow : env.handle ⟨.inbound, .utcNow⟩ s' = (env.now .inbound s.clock, s') := by
      simp only [Env.handle, hclock]
    rw [hnow]
    exact congrArg (peerOf e signature) (claimNonce_eval_congr hclock hnonces)

theorem verifyKnownInbound_eval_congr {header : Option String} {source method path : String}
    {body : Bytes} {maxBodyBytes : Option Int} {skew : Int}
    (hcache : s'.peerManifests.get source = s.peerManifests.get source)
    (hclock : s'.clock = s.clock) (hnonces : s'.nonces = s.nonces) :
    ((node.verifyKnownInbound P header source method path body maxBodyBytes skew).run.eval
      env.handle s').1 =
    ((node.verifyKnownInbound P header source method path body maxBodyBytes skew).run.eval
      env.handle s).1 := by
  rw [FederationNode.verifyKnownInbound, Task.eval_run_bind, Task.eval_run_bind]
  have hget : ∀ t : NodeState, (PeerManifests.get .inbound source).run.eval env.handle t =
      (.ok (t.peerManifests.get source), t) := fun _ => rfl
  rw [hget, hget, hcache]
  cases s.peerManifests.get source with
  | none => rfl
  | some manifest => exact verifyPeerRequest_eval_congr hclock hnonces

theorem hydrate_eval (hstore : node.manifestStore = true) (hempty : s.peerManifests.entries = []) :
    (node.hydrate.run.eval env.handle s).2 =
      { s with peerManifests := Keyed.ofList s.manifestStore.entries,
               cacheRef := s.cacheRef + 1 } := by
  rw [FederationNode.hydrate, Task.run_locked, Task.eval_withLock, if_pos hstore,
    Task.eval_run_bind]
  have hisEmpty : (PeerManifests.isEmpty .hydrate).run.eval env.handle s = (.ok true, s) := by
    have hlist : s.peerManifests.entries.isEmpty = true := by rw [hempty, List.isEmpty_nil]
    exact congrArg (fun b => (Except.ok b, s)) hlist
  rw [hisEmpty]
  rfl

theorem get_ofList_entries {α κ : Type} {key : α → κ} [DecidableEq κ] (m : Keyed key) (k : κ) :
    (Keyed.ofList m.entries : Keyed key).get k = m.get k :=
  Keyed.get_ofList_of_nodup m.nodup k

theorem Coherent.restartEquivalent (hstore : node.manifestStore = true) (h : Coherent s) :
    RestartEquivalent P node s := by
  intro env fresh hempty hsame hclock hnonces header source method path body maxBodyBytes skew
  rw [hydrate_eval hstore hempty, hsame]
  refine verifyKnownInbound_eval_congr ?_ hclock hnonces
  exact (get_ofList_entries _ _).trans (h source).symm

end Restart

def coherentDiscipline : Discipline Call Resp NodeState where
  sem := StoreKept
  inv := Coherent
  rely s s' := s'.peerManifests = s.peerManifests ∧ s'.manifestStore = s.manifestStore
  guar _ _ _ _ := True
  rely_refl _ := ⟨rfl, rfl⟩
  rely_trans h h' := ⟨h'.1.trans h.1, h'.2.trans h.2⟩

theorem Coherent.congr {s s' : NodeState} (h : Coherent s)
    (hsame : s'.peerManifests = s.peerManifests ∧ s'.manifestStore = s.manifestStore) :
    Coherent s' := by
  intro n
  rw [hsame.1, hsame.2]
  exact h n

def coherentParts : Sections := fun _ t => coherentDiscipline.Within Coherent (fun _ => Coherent) t

theorem coherentParts_of_makes {α : Type} {t : Py α}
    (h : Makes Call.sparesManifests coherentParts t) : coherentParts _ t.run := by
  have hwithin := @Discipline.Within.of_composed _ _ _ _ coherentDiscipline Coherent _ _ _
    (fun _ _ hs hr => hs.congr hr)
    (fun c s r s' hc hs hdoes => ⟨trivial, trivial, hs.congr (hdoes.1.manifests hc)⟩)
    (fun _ _ h => h) _ _ h
  exact hwithin.mono (fun _ => id) (fun _ _ hs => hs.2)

theorem safe_of_coherentParts {α : Type} {t : Py α} (h : coherentParts _ t.run) :
    coherentDiscipline.Safe (locked t).run :=
  Discipline.safe_withLock h fun _ _ _ hs hr => hs.congr hr

theorem coherent_writeThrough {c c' : Call} {f : Keyed Manifest.nodeId → Keyed Manifest.nodeId}
    {g : Resp c' → Except Exc Unit}
    (hf : ∀ m m' : Keyed Manifest.nodeId, (∀ n, m.get n = m'.get n) →
      ∀ n, (f m).get n = (f m').get n)
    (hcache : ∀ s r s', Does c s r s' → s' = { s with peerManifests := f s.peerManifests })
    (hstore : ∀ s r s', StoreKept c' s r s' → s' = { s with manifestStore := f s.manifestStore }) :
    coherentParts _ (.call c fun _ => .call c' fun r => .done (g r)) := by
  refine .call (M := fun _ s => ∀ n, s.peerManifests.get n = (f s.manifestStore).get n)
    ?_ fun _ => ?_
  · intro s s₁ r s₂ hs hr hdoes
    rw [hcache s₁ r s₂ hdoes.1]
    exact ⟨trivial, hf _ _ (hs.congr hr)⟩
  · refine .call (M := fun _ => Coherent) ?_ fun r => .done fun s h => h
    intro s s₁ r s₂ hs hr hdoes
    rw [hstore s₁ r s₂ hdoes]
    refine ⟨trivial, fun n => ?_⟩
    show s₁.peerManifests.get n = (f s₁.manifestStore).get n
    rw [hr.1, hr.2]
    exact hs n

section Sections

variable {P : Platform} {node : FederationNode} (hstore : node.manifestStore = true)

include hstore

theorem coherent_rememberManifest (o : Origin) (manifest : Manifest) :
    coherentParts _ (node.rememberManifest o manifest).run := by
  rw [FederationNode.rememberManifest, if_pos hstore]
  refine @coherent_writeThrough ⟨o, .cachePut manifest⟩ ⟨o, .storeUpsert manifest⟩
    (fun m => m.upsert manifest) _ ?_ (fun _ _ _ h => h) ?_
  · intro m m' h n
    rw [Keyed.get_upsert, Keyed.get_upsert, h n]
  · rintro s r s' ⟨⟨e, rfl, _⟩ | ⟨_, rfl⟩, hkept⟩
    · exact absurd ⟨e, rfl⟩ hkept
    · rfl

theorem coherent_forgetManifest (o : Origin) (nodeId : String) :
    coherentParts _ (node.forgetManifest o nodeId).run := by
  rw [FederationNode.forgetManifest, if_pos hstore]
  refine @coherent_writeThrough ⟨o, .cachePop nodeId⟩ ⟨o, .storeDelete nodeId⟩
    (fun m => m.erase nodeId) _ ?_ (fun _ _ _ h => h) ?_
  · intro m m' h n
    rw [Keyed.get_erase, Keyed.get_erase, h n]
  · rintro s r s' ⟨⟨e, rfl, _⟩ | ⟨_, rfl⟩, hkept⟩
    · exact absurd ⟨e, rfl⟩ hkept
    · rfl

theorem coherentSections (callbacks : Callbacks) :
    NodeSections P node callbacks (fun _ t => coherentDiscipline.Safe t) where
  record o manifest url _ _ := by
    obtain ⟨body, hbody, hmakes⟩ :=
      @FederationNode.recordPeer_parts node Call.sparesManifests coherentParts
      o manifest url trivial trivial (fun _ _ => trivial)
      (coherent_rememberManifest hstore o manifest)
    rw [hbody]
    exact safe_of_coherentParts (coherentParts_of_makes hmakes)
  discovered rec _ := by
    intro s r s' hs
    have hsame := Does.manifests (c := ⟨.discovery, .tableUpsert rec⟩) trivial hs.1
    exact ⟨⟨hsame, fun h => h.congr hsame⟩, trivial, rfl⟩
  remember manifest _ := safe_of_coherentParts (coherent_rememberManifest hstore _ manifest)
  apply nodeId decision _ := by
    obtain ⟨body, hbody, hmakes⟩ :=
      @FederationNode.applyRefreshDecision_parts node Call.sparesManifests
      coherentParts nodeId decision trivial trivial (fun _ _ => trivial)
      (fun manifest _ _ => coherent_rememberManifest hstore _ manifest)
      (coherent_forgetManifest hstore _ nodeId)
    rw [hbody]
    exact safe_of_coherentParts (coherentParts_of_makes hmakes)
  revoke notice keys authorize := by
    obtain ⟨body, hbody, hmakes⟩ :=
      @FederationNode.applyRevocationNotice_parts P node Call.sparesManifests
      coherentParts notice keys authorize trivial trivial (fun _ _ => trivial)
      (coherent_forgetManifest hstore _ _)
    rw [hbody]
    exact safe_of_coherentParts (coherentParts_of_makes hmakes)

theorem coherent_hydrate : coherentDiscipline.Safe node.hydrate.run := by
  refine safe_of_coherentParts ?_
  rw [if_pos hstore]
  refine (coherentParts_of_makes (Makes.call (c := ⟨.hydrate, .cacheIsEmpty⟩) trivial _)).run_bind
    (fun empty => ?_) fun _ _ h => h
  split
  · have hvalues : coherentDiscipline.Within Coherent
        (fun r s => Coherent s ∧ ∀ ms, r = .ok ms → ms = s.manifestStore.entries)
        (ManifestStore.values .hydrate).run := by
      refine .call (M := fun r s => Coherent s ∧ ∀ ms, r = .ok ms → ms = s.manifestStore.entries) ?_
        fun r => .done fun s h => h
      rintro s s₁ r s₂ hs hr ⟨⟨e, rfl, _⟩ | ⟨rfl, rfl⟩, hkept⟩
      · exact absurd ⟨e, rfl⟩ hkept
      · exact ⟨trivial, hs.congr hr, fun ms h => (Except.ok.inj h).symm⟩
    refine hvalues.run_bind (fun ms => ?_) fun _ _ h => h.1
    refine .call (M := fun _ => Coherent) ?_ fun r => .done fun s h => h
    rintro s s₁ r s₂ ⟨_, hms⟩ hr ⟨rfl, _⟩
    refine ⟨trivial, fun n => ?_⟩
    rw [hms ms rfl, ← hr.2]
    exact get_ofList_entries _ n
  · exact coherentParts_of_makes (Makes.pure ())

theorem LifecycleOp.coherent (op : LifecycleOp) : coherentDiscipline.Safe (op.run P node).run := by
  cases op with
  | hydrate => exact coherent_hydrate hstore
  | operation op => exact op.safe (coherentSections hstore anyCallback) fun _ _ _ _ _ hs =>
    ⟨hs.1, trivial⟩

end Sections

theorem coherent_after_hydrate {node : FederationNode} (hstore : node.manifestStore = true)
    {s s' : NodeState} {tr : List (Event Call Resp NodeState)} {r : Except Exc Unit}
    (hempty : s.peerManifests.entries = [])
    (hrun : Task.Runs StoreKept Outside node.hydrate.run s tr r s') : Coherent s' := by
  have hafter : Task.after StoreKept Outside (fun _ => True) node.hydrate.run s
      (fun _ s' => Coherent s') := by
    rw [FederationNode.hydrate, Task.run_locked, Task.after_withLock, if_pos hstore,
      Task.after_run_bind]
    rintro _ hb₁ _ s₁ ⟨⟨rfl, rfl⟩, _⟩
    have hlist : s₁.peerManifests.entries.isEmpty = true :=
      by rw [hb₁.manifests.1, hempty, List.isEmpty_nil]
    refine ⟨trivial, ?_⟩
    simp only [Task.after, Task.andThen_ok, hlist, ↓reduceIte, Task.after_run_bind]
    rintro s₂ hb₂ values s₃ ⟨⟨e, rfl, _⟩ | ⟨rfl, rfl⟩, hkept⟩
    · exact absurd ⟨e, rfl⟩ hkept
    refine ⟨trivial, ?_⟩
    rintro s₄ hb₄ _ _ ⟨rfl, _⟩
    refine ⟨trivial, fun n => ?_⟩
    show (Keyed.ofList s₃.manifestStore.entries).get n = s₄.manifestStore.get n
    rw [get_ofList_entries, hb₄.manifests.2]
  exact (hrun.of_after hafter).1

/-- The cache holds what the manifest store holds whenever the lock is free, in
every interleaving of the operations, and a restarted node knows the same peers. -/
theorem cache_mirrors_store (P : Platform) (node : FederationNode)
    (hstore : node.manifestStore = true) {origin start : NodeState}
    {history : List (Act Call Resp × NodePool)} (hempty : origin.peerManifests.entries = [])
    (hstart : (start = origin ∧ origin.manifestStore.entries = []) ∨
      ∃ tr r, Task.Runs StoreKept Outside node.hydrate.run origin tr r start)
    (hrun : Along (LifecycleStep StoreKept P node) (Pool.start start) history) :
    ∀ w ∈ Pool.start start :: history.map Prod.snd, w.holder = none →
      Coherent w.shared ∧ RestartEquivalent P node w.shared := by
  have hcoherent : Coherent start := by
    rcases hstart with ⟨rfl, hnone⟩ | ⟨tr, r, hhydrate⟩
    · intro n
      simp only [Keyed.get, hempty, hnone]
    · exact coherent_after_hydrate hstore hempty hhydrate
  have hsafe : ∀ t, (∃ op : LifecycleOp, t = (op.run P node).run) → coherentDiscipline.Safe t := by
    rintro _ ⟨op, rfl⟩
    exact op.coherent hstore
  have hback : ∀ s s', Outside s s' →
      coherentDiscipline.rely s s' ∧ (coherentDiscipline.inv s → coherentDiscipline.inv s') :=
    fun s s' hb => ⟨hb.manifests, fun h => h.congr hb.manifests⟩
  intro w hw hfree
  have hw := (Discipline.Guarded.along hsafe hback hcoherent hrun w hw).free hfree
  exact ⟨hw, hw.restartEquivalent hstore⟩

theorem Reliable.storeKept {c : Call} {s s' : NodeState} {r : Resp c} (h : Reliable c s r s') :
    StoreKept c s r s' := by
  obtain ⟨o, op⟩ := c
  cases op <;> first | exact ⟨h.1, h.2⟩ | exact ⟨h.1, id⟩

def storedAlpha : NodeState :=
  { emptyNode with
    membershipTable := Keyed.ofList [alphaRecord]
    manifestStore := Keyed.ofList [alphaManifest] }

def hydratedBeta : NodeState := (beta.hydrate.run.eval silentWorld.handle storedAlpha).2

def revokingMoves : List (Move Call Resp (Except Exc Unit)) :=
  spawn 1 revokeAlpha :: List.replicate 7 (.step 1)

def revokingHistory : List (Act Call Resp × NodePool) :=
  (Pool.start hydratedBeta).play silentWorld.handle revokingMoves

theorem revokingHistory_coherent :
    Along (LifecycleStep StoreKept noticePlatform beta) (Pool.start hydratedBeta) revokingHistory ∧
    ∀ w ∈ Pool.start hydratedBeta :: revokingHistory.map Prod.snd, w.holder = none →
      Coherent w.shared ∧ RestartEquivalent noticePlatform beta w.shared := by
  have hkept := fun c s => (@Env.reliable silentWorld (fun _ _ => rfl) c s).storeKept
  have hidle : ∀ s, Outside s s := fun s => .inl (Passes.refl s)
  obtain ⟨tr, hhydrate⟩ :=
    Task.eval_runs silentWorld.handle hidle hkept beta.hydrate.run storedAlpha
  have hrun : Along (LifecycleStep StoreKept noticePlatform beta) (Pool.start hydratedBeta)
      revokingHistory := by
    refine Pool.play_along hkept ?_
    intro m hm i t he
    rcases List.mem_cons.mp hm with rfl | hm
    · cases he
      exact ⟨.operation revokeAlpha, rfl⟩
    · obtain rfl := List.eq_of_mem_replicate hm
      cases he
  exact ⟨hrun, cache_mirrors_store noticePlatform beta rfl rfl (.inr ⟨tr, _, hhydrate⟩) hrun⟩

end Federlet
