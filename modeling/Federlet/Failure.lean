import Federlet.Coherence

/-! A manifest store that raises. No operation undoes what it has done: the
exception leaves the record, the cached and the durable manifest where the
operation had brought them. -/

namespace Federlet

open Coop

def writeRaised (ev : Event Call Resp NodeState) : Bool :=
  match ev with
  | ⟨_, ⟨_, .storeUpsert _⟩, .error _, _⟩ => true
  | ⟨_, ⟨_, .storeDelete _⟩, .error _, _⟩ => true
  | _ => false

inductive LifecycleCall where
  | admitPeer (manifest : Manifest) (manifestUrl : Option String) (maxSkewSeconds : Int)
  | refreshPeer (nodeId : String) (keyContinuityPolicy : Option KeyContinuityPolicy)
    (maxSkewSeconds : Int)
  | applyRevocationNotice (notice : RevocationNotice) (trustedIssuerKeys : Dict JWK)
      (authorize : RevocationNotice → Bool)

namespace LifecycleCall

def run (P : Platform) (node : FederationNode) : LifecycleCall → Py Unit
  | .admitPeer manifest url skew => do let _ ← node.admitPeer P manifest url skew
  | .refreshPeer nodeId policy skew => do let _ ← node.refreshPeer P nodeId policy skew
  | .applyRevocationNotice notice keys authorize => do
    let _ ← node.applyRevocationNotice P notice keys authorize

def subject : LifecycleCall → String
  | .admitPeer manifest _ _ => manifest.nodeId
  | .refreshPeer nodeId _ _ => nodeId
  | .applyRevocationNotice notice _ _ => notice.revokedNodeId

/-- The manifests the call may come to trust. -/
def Remembers : LifecycleCall → Manifest → Prop
  | .admitPeer manifest _ _ => fun m => m = manifest
  | .refreshPeer nodeId _ _ => fun m => m.nodeId = nodeId
  | .applyRevocationNotice _ _ _ => fun _ => False

/-- The states in which the call may leave a record without a manifest. -/
def Forgets : LifecycleCall → PeerState → Prop
  | .admitPeer _ _ _ => fun _ => False
  | .refreshPeer _ _ _ => fun state => state = .rejected
  | .applyRevocationNotice _ _ _ => fun state => state = .revoked

/-- The record, the cached and the durable manifest all reflect the call. -/
def Reflected (op : LifecycleCall) (s : NodeState) : Prop :=
  (∃ manifest rec, op.Remembers manifest ∧ s.membershipTable.get op.subject = some rec ∧
    rec.state = .active ∧
    rec.manifestRevision = manifest.revision ∧ s.peerManifests.get op.subject = some manifest ∧
    s.manifestStore.get op.subject = some manifest) ∨
  ∃ state, op.Forgets state ∧ s.stateOf op.subject = some state ∧
    s.peerManifests.get op.subject = none ∧
    s.manifestStore.get op.subject = none

end LifecycleCall

/-- The record, the cached and the durable manifest are as they were. -/
structure Untouched (nodeId : String) (s s' : NodeState) : Prop where
  record : s'.membershipTable.get nodeId = s.membershipTable.get nodeId
  cached : s'.peerManifests.get nodeId = s.peerManifests.get nodeId
  durable : s'.manifestStore.get nodeId = s.manifestStore.get nodeId

def AllOrNothing (op : LifecycleCall) (s s' : NodeState) :
    Prop := Untouched op.subject s s' ∨ op.Reflected s'

/-- Where the exception leaves the node: the manifest is cached and the record is
as it was, or the record is written and the manifest is no longer cached. -/
inductive Halted (op : LifecycleCall) (s s' : NodeState) : Prop where
  | remembering (manifest : Manifest) (hop : op.Remembers manifest)
      (hnode : manifest.nodeId = op.subject) (table : s'.membershipTable = s.membershipTable)
      (cached : s'.peerManifests = s.peerManifests.upsert manifest)
      (durable : s'.manifestStore = s.manifestStore)
  | forgetting (rec : MemberRecord) (hop : op.Forgets rec.state) (hnode : rec.nodeId = op.subject)
      (table : s'.membershipTable = s.membershipTable.upsert rec)
      (cached : s'.peerManifests = s.peerManifests.erase op.subject)
      (durable : s'.manifestStore = s.manifestStore)

theorem Halted.durable {op : LifecycleCall} {s s' : NodeState} (h : Halted op s s') :
    s'.manifestStore = s.manifestStore := by
  cases h <;> assumption

theorem Halted.allOrNothing_iff {op : LifecycleCall} {s s' : NodeState} (hs : Coherent s)
    (h : Halted op s s') :
    AllOrNothing op s s' ↔ s'.peerManifests.get op.subject = s.peerManifests.get op.subject := by
  have hdurable : s'.manifestStore.get op.subject = s.peerManifests.get op.subject := by
    rw [h.durable, hs]
  constructor
  · rintro (huntouched | ⟨manifest, rec, _, _, _, _, hcached, hstored⟩ | ⟨state, _, _,
      hcached, hstored⟩)
    · exact huntouched.cached
    · rw [hcached, ← hdurable, hstored]
    · rw [hcached, ← hdurable, hstored]
  · intro hsame
    cases h with
    | remembering manifest _ _ table cached durable =>
      exact .inl ⟨by rw [table], hsame, by rw [durable]⟩
    | forgetting rec hop hnode table cached durable =>
      have hnone : s'.peerManifests.get op.subject = none := by rw [cached, Keyed.get_erase_self]
      refine .inr (.inr ⟨rec.state, hop, ?_, hnone, by rw [hdurable, ← hsame, hnone]⟩)
      rw [NodeState.stateOf, table, ← hnode, Keyed.get_upsert_self]
      rfl

theorem Halted.others {op : LifecycleCall} {s s' : NodeState} (h : Halted op s s') {n : String}
    (hn : n ≠ op.subject) : Untouched n s s' := by
  cases h with
  | remembering manifest _ hnode table cached durable =>
    exact ⟨by rw [table], by rw [cached, Keyed.get_upsert_ne _ (hnode ▸ hn.symm)], by rw [durable]⟩
  | forgetting rec _ hnode table cached durable =>
    exact ⟨by rw [table, Keyed.get_upsert_ne _ (hnode ▸ hn.symm)],
      by rw [cached, Keyed.get_erase_ne _ hn.symm], by rw [durable]⟩

/-- If a write to the manifest store raises, the task raises and leaves `H`. -/
abbrev HaltsIn {α : Type} (t : Py α) (s : NodeState) (H : NodeState → Prop) : Prop :=
  Task.Yields Does Passes t.run s fun tr r s' => tr.any writeRaised = true →
    (∃ e, r = .error e) ∧ H s'

/-- No write to the manifest store raises. -/
abbrev Spares {α : Type} (t : Py α) (s : NodeState) (Q : α → NodeState → Prop) : Prop :=
  Task.Yields Does Passes t.run s fun tr r s' => tr.any writeRaised = false ∧
    ∀ a, r = .ok a → Q a s'

section Rules

variable {α β : Type} {t : Py α} {f : α → Py β} {s : NodeState} {H : NodeState → Prop}

theorem Spares.halts {Q : α → NodeState → Prop} (h : Spares t s Q) : HaltsIn t s H :=
  Task.Yields.mono h fun tr r s' hq hraised => by simp [hq.1] at hraised

theorem Spares.bind {Q : α → NodeState → Prop} (ht : Spares t s Q)
    (hf : ∀ a s', Q a s' → HaltsIn (f a) s' H) :
    HaltsIn (t >>= f) s H := by
  refine Task.Yields.run_bind (Task.Yields.mono ht ?_)
  rintro tr (e | a) s' ⟨hnone, hq⟩
  · exact Task.Yields.done fun hraised => by simp [hnone] at hraised
  · refine Task.Yields.mono (hf a s' (hq a rfl)) fun tr' r s'' h hraised => h ?_
    rwa [List.any_append, hnone, Bool.false_or] at hraised

theorem Spares.seq {Q : α → NodeState → Prop} {R : β → NodeState → Prop} (ht : Spares t s Q)
    (hf : ∀ a s', Q a s' → Spares (f a) s' R) : Spares (t >>= f) s R := by
  refine Task.Yields.run_bind (Task.Yields.mono ht ?_)
  rintro tr (e | a) s' ⟨hnone, hq⟩
  · exact Task.Yields.done ⟨by simp [hnone], fun _ he => nomatch he⟩
  · refine Task.Yields.mono (hf a s' (hq a rfl)) fun tr' r s'' h => ⟨?_, h.2⟩
    rw [List.any_append, hnone, h.1, Bool.or_false]

theorem Spares.pure {Q : α → NodeState → Prop} {a : α} (h : Q a s) : Spares (pure a : Py α) s Q :=
  Task.Yields.done ⟨rfl, fun _ he => Except.ok.inj he ▸ h⟩

theorem HaltsIn.bind (ht : HaltsIn t s H) (hf : ∀ a s', HaltsIn (f a) s' H) :
    HaltsIn (t >>= f) s H := by
  refine Task.Yields.run_bind (Task.Yields.mono ht ?_)
  rintro tr (e | a) s' hq
  · refine Task.Yields.done fun hraised => ⟨⟨e, rfl⟩, (hq ?_).2⟩
    rwa [List.append_nil] at hraised
  · refine Task.Yields.mono (hf a s') fun tr' r s'' h hraised => ?_
    rw [List.any_append] at hraised
    rcases Bool.or_eq_true_iff.mp hraised with hfirst | hrest
    · obtain ⟨⟨e, he⟩, _⟩ := hq hfirst
      cases he
    · exact h hrest

theorem HaltsIn.locked (h : HaltsIn t s H) : HaltsIn (locked t) s H := Task.Yields.withLock h

theorem writeRaised_of_quiet {s s' : NodeState} {c : Call} {r : Resp c} (hc : c.quiet) :
    writeRaised ⟨s, c, r, s'⟩ = false := by
  obtain ⟨o, op⟩ := c
  cases op <;> first | exact hc.elim | rfl

theorem spares_quiet {c : Call} {g : Resp c → Except Exc α} {Q : α → NodeState → Prop}
    (hc : c.quiet) (h : ∀ s', Passes s s' → ∀ r, Does c s' r s' → ∀ a, g r = .ok a → Q a s') :
    Spares (ExceptT.mk (.call c fun r => .done (g r)) : Py α) s Q := by
  refine Task.Yields.call fun s₁ hb r s₂ hs => Task.Yields.done ⟨?_, ?_⟩
  · simp [writeRaised_of_quiet hc]
  · obtain rfl := hs.eq_of_quiet hc
    exact h s₂ hb r hs

theorem spares_of_outward {Q : α → Prop}
    (h : Routine Call.outward anyCallback (fun _ _ => False) Q t) :
    Spares t s (fun a s' => Q a ∧ Passes s s') := by
  have hafter : Task.after Does Passes (fun ev => writeRaised ev = false) t.run s
      (fun r s' => (∀ a, r = .ok a → Q a) ∧ Passes s s') :=
    Task.Composed.after (fun _ _ hs hb => hs.trans hb) ?_ (fun _ _ _ hf => hf.elim) h
      (Passes.refl s)
  · refine Task.Yields.mono (.of_after hafter) ?_
    rintro tr r s' ⟨⟨hq, hpasses⟩, hev⟩
    exact ⟨by simpa using hev, fun a ha => ⟨hq a ha, hpasses⟩⟩
  · intro c s₁ r s₂ hc hs hdoes
    obtain rfl := hdoes.eq_of_quiet hc.quiet
    exact ⟨hdoes.answered (callbackAnswers_any c r), writeRaised_of_quiet hc.quiet, hs⟩

end Rules

section Operations

variable {P : Platform} {node : FederationNode} {s₀ s : NodeState}

theorem writeThrough_halts {c c' : Call} {g : Resp c → Except Exc Unit}
    {g' : Resp c' → Except Exc Unit} {f : Keyed Manifest.nodeId → Keyed Manifest.nodeId}
    {H : NodeState → Prop}
    (hcache : ∀ s r s', Does c s r s' → s' = { s with peerManifests := f s.peerManifests } ∧
      writeRaised ⟨s, c, r, s'⟩ = false)
    (hstore : ∀ s r s', Does c' s r s' → writeRaised ⟨s, c', r, s'⟩ = true →
      (∃ e, g' r = .error e) ∧ s' = s)
    (hH : ∀ s', Passes s s' → H { s' with peerManifests := f s'.peerManifests }) :
    HaltsIn (do
      ExceptT.mk (.call c fun r => .done (g r))
      if node.manifestStore then ExceptT.mk (.call c' fun r => .done (g' r)) : Py Unit) s H := by
  have hput : Spares (ExceptT.mk (.call c fun r => .done (g r)) : Py Unit) s
      (fun _ s' => ∃ s₁, Passes s s₁ ∧ s' = { s₁ with peerManifests := f s₁.peerManifests }) := by
    refine Task.Yields.call fun s₁ hb r s₂ hdoes => Task.Yields.done ?_
    obtain ⟨he, hnone⟩ := hcache s₁ r s₂ hdoes
    exact ⟨by simp [hnone], fun _ _ => ⟨s₁, hb, he⟩⟩
  refine hput.bind ?_
  rintro _ _ ⟨s₁, hs₁, rfl⟩
  split
  · refine Task.Yields.call fun s₂ hb r s₃ hdoes => Task.Yields.done fun hraised => ?_
    obtain ⟨he, rfl⟩ := hstore s₂ r s₃ hdoes (by simpa using hraised)
    obtain ⟨t, ht, rfl⟩ := hb
    exact ⟨he, hH _ (hs₁.trans ⟨t, ht, rfl⟩)⟩
  · exact Task.Yields.done fun hraised => by simp at hraised

theorem rememberManifest_halts (o : Origin) (manifest : Manifest) {H : NodeState → Prop}
    (hH : ∀ s', Passes s s' → H { s' with peerManifests := s'.peerManifests.upsert manifest }) :
    HaltsIn (node.rememberManifest o manifest) s H := by
  refine @writeThrough_halts node s ⟨o, .cachePut manifest⟩ ⟨o, .storeUpsert manifest⟩ _ _
    (fun m => m.upsert manifest) H (fun _ _ _ h => ⟨h, rfl⟩) ?_ hH
  rintro s' r s'' (⟨e, rfl, rfl⟩ | ⟨rfl, _⟩) hraised
  · exact ⟨⟨e, rfl⟩, rfl⟩
  · cases hraised

theorem forgetManifest_halts (o : Origin) (nodeId : String) {H : NodeState → Prop}
    (hH : ∀ s', Passes s s' → H { s' with peerManifests := s'.peerManifests.erase nodeId }) :
    HaltsIn (node.forgetManifest o nodeId) s H := by
  refine @writeThrough_halts node s ⟨o, .cachePop nodeId⟩ ⟨o, .storeDelete nodeId⟩ _ _
    (fun m => m.erase nodeId) H (fun _ _ _ h => ⟨h, rfl⟩) ?_ hH
  rintro s' r s'' (⟨e, rfl, rfl⟩ | ⟨rfl, _⟩) hraised
  · exact ⟨⟨e, rfl⟩, rfl⟩
  · cases hraised

theorem tableGet_spares (o : Origin) (nodeId : String) :
    Spares (MembershipTable.get o nodeId) s
      (fun rec? s' => Passes s s' ∧ rec? = s'.membershipTable.get nodeId) := by
  refine spares_quiet (c := ⟨o, .tableGet nodeId⟩) trivial ?_
  rintro s' hs r (⟨e, rfl, _⟩ | ⟨rfl, _⟩) a ha
  · cases ha
  · exact ⟨hs, (Except.ok.inj ha).symm⟩

theorem cacheGet_spares (o : Origin) (nodeId : String) :
    Spares (PeerManifests.get o nodeId) s
      (fun m? s' => Passes s s' ∧ m? = s'.peerManifests.get nodeId) := by
  refine spares_quiet (c := ⟨o, .cacheGet nodeId⟩) trivial ?_
  rintro s' hs r ⟨rfl, _⟩ a ha
  exact ⟨hs, (Except.ok.inj ha).symm⟩

theorem tableUpsert_spares (o : Origin) (rec : MemberRecord) :
    Spares (MembershipTable.upsert o rec) s (fun _ s' => ∃ s₁, Passes s s₁ ∧
      s' = { s₁ with membershipTable := s₁.membershipTable.upsert rec }) := by
  refine Task.Yields.call ?_
  rintro s₁ hb r s₂ (⟨e, rfl, rfl⟩ | ⟨rfl, rfl⟩)
  · exact Task.Yields.done ⟨rfl, fun _ he => nomatch he⟩
  · exact Task.Yields.done ⟨rfl, fun _ _ => ⟨s₁, hb, rfl⟩⟩

theorem writeRecord_spares (o : Origin) (f : DateTime → MemberRecord) :
    Spares (do let now ← utcNow o; MembershipTable.upsert o (f now) : Py Unit) s
      (fun _ s' => ∃ now s₁, Passes s s₁ ∧
        s' = { s₁ with membershipTable := s₁.membershipTable.upsert (f now) }) := by
  refine (spares_of_outward (utcNow_routine o).outward).seq ?_
  rintro now s₁ ⟨_, hs₁⟩
  refine Task.Yields.mono (tableUpsert_spares o (f now)) ?_
  rintro tr r s' ⟨hnone, hq⟩
  refine ⟨hnone, fun a ha => ?_⟩
  obtain ⟨s₂, hs₂, rfl⟩ := hq a ha
  exact ⟨now, s₂, hs₁.trans hs₂, rfl⟩

theorem recordPeer_halts {manifest : Manifest} {url : String} {H : NodeState → Prop}
    (hH : ∀ s', Passes s s' → H { s' with peerManifests := s'.peerManifests.upsert manifest }) :
    HaltsIn (node.recordPeer .admission manifest url) s H := by
  refine HaltsIn.locked ((tableGet_spares _ _).bind ?_)
  rintro existing s₁ ⟨hs₁, _⟩
  dsimp only
  split
  · exact (Spares.pure (Q := fun _ _ => True) trivial).halts
  · refine (rememberManifest_halts .admission manifest fun s' hs' => hH s' (hs₁.trans hs')).bind
      fun _ s' => ?_
    exact (writeRecord_spares .admission _).halts

theorem admitPeer_halts (manifest : Manifest) (url : Option String) (skew : Int) :
    HaltsIn (node.admitPeer P manifest url skew) s (Halted (.admitPeer manifest url skew) s) := by
  refine (spares_of_outward (admitManifest_routine .admission manifest _ skew).outward).bind ?_
  rintro decision s₁ ⟨_, hs₁⟩
  have hrecord : ∀ u, HaltsIn (node.recordPeer .admission manifest u) s₁
      (Halted (.admitPeer manifest url skew) s) := by
    refine fun u => recordPeer_halts fun s' hs' => ?_
    obtain ⟨t, _, rfl⟩ := hs₁.trans hs'
    exact .remembering manifest rfl rfl rfl rfl rfl
  have hrest : ∀ s', HaltsIn (pure decision : Py AdmissionDecision) s'
      (Halted (.admitPeer manifest url skew) s) :=
    fun s' => (Spares.pure (Q := fun _ _ => True) trivial).halts
  split
  · split
    · exact (hrecord _).bind fun _ s' => hrest s'
    · exact hrest s₁
  · exact hrest s₁

theorem applyRefreshDecision_halts {nodeId : String} {decision : ManifestRefreshDecision}
    {rec : MemberRecord} {policy : Option KeyContinuityPolicy} {skew : Int}
    (hrec : s.membershipTable.get nodeId = some rec) (hfits : FitsNode P nodeId decision) :
    HaltsIn (node.applyRefreshDecision nodeId decision) s
      (Halted (.refreshPeer nodeId policy skew) s) := by
  have hnode : rec.nodeId = nodeId := Keyed.key_of_get hrec
  refine HaltsIn.locked ((tableGet_spares _ _).bind ?_)
  rintro rec? s₁ ⟨hs₁, hrec?⟩
  have hsome : rec? = some rec := by
    obtain ⟨t, _, rfl⟩ := hs₁
    exact hrec?.trans hrec
  subst hsome
  cases haction : decision.action
  case accept | unchanged =>
    dsimp only
    split
    · rename_i manifest hm
      refine (rememberManifest_halts .refresh manifest fun s' hs' => ?_).bind fun _ s' =>
        (writeRecord_spares .refresh _).halts
      obtain ⟨t, _, rfl⟩ := hs₁.trans hs'
      have hmanifest := (hfits (by simp [haction]) manifest hm).1
      exact .remembering manifest hmanifest hmanifest rfl rfl rfl
    · exact (Spares.pure (Q := fun _ _ => True) trivial).halts
  case quarantine => exact (writeRecord_spares .refresh _).halts
  case reject =>
    refine (writeRecord_spares .refresh _).bind ?_
    rintro _ _ ⟨now, s₂, hs₂, rfl⟩
    refine forgetManifest_halts .refresh nodeId fun s' hs' => ?_
    obtain ⟨t, _, rfl⟩ := hs₁.trans hs₂
    obtain ⟨t', _, rfl⟩ := hs'
    exact .forgetting (rec.setState .rejected now) rfl hnode rfl rfl rfl

theorem refreshPeer_halts (nodeId : String) (policy : Option KeyContinuityPolicy) (skew : Int) :
    HaltsIn (node.refreshPeer P nodeId policy skew) s
      (Halted (.refreshPeer nodeId policy skew) s) := by
  refine (tableGet_spares _ _).bind ?_
  rintro rec? s₁ ⟨hs₁, hrec⟩
  refine (cacheGet_spares _ _).bind ?_
  rintro manifest? s₂ ⟨hs₂, hmanifest⟩
  split
  · rename_i rec manifest
    refine (spares_of_outward (refreshPeerManifest_routine node.client manifest _ policy skew)).bind
      ?_
    rintro decision s₃ ⟨hkeeps, hs₃⟩
    have hfits := hkeeps.fitsNode
    rw [Keyed.key_of_get hmanifest.symm] at hfits
    obtain ⟨t, _, rfl⟩ := hs₁
    obtain ⟨t', _, rfl⟩ := hs₂.trans hs₃
    have hhalts : HaltsIn (node.applyRefreshDecision nodeId decision) { s with clock := t' }
        (Halted (.refreshPeer nodeId policy skew) { s with clock := t' }) :=
      applyRefreshDecision_halts hrec.symm hfits
    refine HaltsIn.bind (Task.Yields.mono hhalts ?_) fun _ s' =>
      (Spares.pure (Q := fun _ _ => True) trivial).halts
    rintro tr r s' h hraised
    obtain ⟨he, hhalted⟩ := h hraised
    refine ⟨he, ?_⟩
    cases hhalted with
    | remembering m hop hnode table cached durable =>
      exact .remembering m hop hnode table cached durable
    | forgetting rec hop hnode table cached durable =>
      exact .forgetting rec hop hnode table cached durable
  · exact (Spares.pure (Q := fun _ _ => True) trivial).halts

/-- The record is `REVOKED`, by this notice or already, when the manifest is evicted. -/
def Revokes (nodeId : String) (s : NodeState) (state : Option PeerState) (s' : NodeState) : Prop :=
  state = some .revoked → ∃ rec s₁, Passes s s₁ ∧ rec.nodeId = nodeId ∧ rec.state = .revoked ∧
    s' = { s₁ with membershipTable := s₁.membershipTable.upsert rec }

theorem revokes_same {nodeId : String} {rec : MemberRecord} {s₁ : NodeState} (hs₁ : Passes s s₁)
    (hrec : s₁.membershipTable.get nodeId = some rec) : Revokes nodeId s (some rec.state) s₁ := by
  obtain rfl := Keyed.key_of_get hrec
  intro hstate
  refine ⟨rec, s₁, hs₁, rfl, Option.some.inj hstate, ?_⟩
  rw [Keyed.upsert_of_get hrec]

theorem revokeRecord_spares (notice : RevocationNotice) (federationId : String) (keys : Dict JWK)
    (authorize : RevocationNotice → Bool) :
    Spares (applyMembershipRevocationNotice P notice federationId keys authorize) s
      (Revokes notice.revokedNodeId s) := by
  refine (tableGet_spares _ _).seq ?_
  rintro rec? s₁ ⟨hs₁, hrec⟩
  cases rec? with
  | none => exact Spares.pure fun he => nomatch he
  | some rec =>
    have hsame := revokes_same hs₁ hrec.symm
    dsimp only
    split
    · exact Spares.pure hsame
    split
    · exact Spares.pure hsame
    split
    · exact Spares.pure hsame
    split
    · exact Spares.pure hsame
    refine (spares_of_outward (Routine.raising (x := _))).seq ?_
    rintro valid s₂ ⟨_, hs₂⟩
    obtain ⟨t, ht, rfl⟩ := hs₂
    split
    · exact Spares.pure (revokes_same (hs₁.trans ⟨t, ht, rfl⟩) hrec.symm)
    refine (spares_of_outward (utcNow_routine .revocation).outward).seq ?_
    rintro now s₃ ⟨_, hs₃⟩
    refine (tableUpsert_spares .revocation _).seq ?_
    rintro _ _ ⟨s₄, hs₄, rfl⟩
    have hnode : rec.nodeId = notice.revokedNodeId := Keyed.key_of_get hrec.symm
    refine Spares.pure fun _ => ⟨rec.setState .revoked now, s₄, ?_, hnode, rfl, rfl⟩
    exact (hs₁.trans ⟨t, ht, rfl⟩).trans (hs₃.trans hs₄)

theorem applyRevocationNotice_halts (notice : RevocationNotice) (keys : Dict JWK)
    (authorize : RevocationNotice → Bool) :
    HaltsIn (node.applyRevocationNotice P notice keys authorize) s
      (Halted (.applyRevocationNotice notice keys authorize) s) := by
  refine HaltsIn.locked ((revokeRecord_spares notice _ keys authorize).bind ?_)
  intro state s₁ hrevokes
  have hrest : ∀ s', HaltsIn (pure state : Py (Option PeerState)) s'
      (Halted (.applyRevocationNotice notice keys authorize) s) :=
    fun s' => (Spares.pure (Q := fun _ _ => True) trivial).halts
  split
  · rename_i hstate
    obtain ⟨rec, s₂, hs₂, hnode, hrevoked, rfl⟩ := hrevokes hstate
    refine (forgetManifest_halts .revocation notice.revokedNodeId fun s' hs' => ?_).bind
      fun _ => hrest
    obtain ⟨t, _, rfl⟩ := hs₂
    obtain ⟨t', _, rfl⟩ := hs'
    exact .forgetting rec hrevoked hnode rfl rfl rfl
  · exact hrest s₁

theorem LifecycleCall.halts (op : LifecycleCall) : HaltsIn (op.run P node) s (Halted op s) := by
  have hrest : ∀ s', HaltsIn (pure () : Py Unit) s' (Halted op s) :=
    fun s' => (Spares.pure (Q := fun _ _ => True) trivial).halts
  cases op with
  | admitPeer manifest url skew => exact (admitPeer_halts manifest url skew).bind fun _ => hrest
  | refreshPeer nodeId policy skew =>
    exact (refreshPeer_halts nodeId policy skew).bind fun _ => hrest
  | applyRevocationNotice notice keys authorize =>
    exact (applyRevocationNotice_halts notice keys authorize).bind fun _ => hrest

end Operations

/-- A fresh node that hydrates from the store trusts what `s` trusts. -/
def RestartTrusts (node : FederationNode) (s s' : NodeState) : Prop :=
  ∀ (env : Env) (fresh : NodeState), fresh.peerManifests.entries = [] →
    fresh.manifestStore = s'.manifestStore →
    ∀ n, (node.hydrate.run.eval env.handle fresh).2.peerManifests.get n = s.peerManifests.get n

theorem Halted.restartTrusts {node : FederationNode} (hstore : node.manifestStore = true)
    {op : LifecycleCall} {s s' : NodeState} (hs : Coherent s) (h : Halted op s s') :
    RestartTrusts node s s' := by
  intro env fresh hempty hsame n
  rw [hydrate_eval hstore hempty, hsame, h.durable]
  exact (get_ofList_entries _ n).trans (hs n).symm

/-- A call during which a write to the manifest store raises passes the exception
on and halts where it is: all or nothing if the cache already was as it leaves it,
and not otherwise. -/
theorem failed_write_halts (P : Platform) (node : FederationNode)
    (hstore : node.manifestStore = true) (op : LifecycleCall) {s s' : NodeState} (hs : Coherent s)
    {tr : List (Event Call Resp NodeState)} {r : Except Exc Unit}
    (hrun : Task.Runs Does Passes (op.run P node).run s tr r s')
    (hraised : tr.any writeRaised = true) :
    (∃ e, r = .error e) ∧ Halted op s s' ∧ (∀ n ≠ op.subject, Untouched n s s') ∧
      (AllOrNothing op s s' ↔ s'.peerManifests.get op.subject = s.peerManifests.get op.subject) ∧
      RestartTrusts node s s' := by
  obtain ⟨he, hhalted⟩ := op.halts tr r s' hrun hraised
  exact ⟨he, hhalted, fun n hn => hhalted.others hn, hhalted.allOrNothing_iff hs,
    hhalted.restartTrusts hstore hs⟩

def storeDown (c : Call) (s : NodeState) : Resp c × NodeState :=
  match c with
  | ⟨_, .storeUpsert _⟩ => (.error (.other "ConnectionError"), s)
  | ⟨_, .storeDelete _⟩ => (.error (.other "ConnectionError"), s)
  | c => silentWorld.handle c s

theorem storeDown_does (c : Call) (s : NodeState) :
    Does c s (storeDown c s).1 (storeDown c s).2 := by
  obtain ⟨o, op⟩ := c
  cases op
  case storeUpsert | storeDelete => exact .inl ⟨_, rfl, rfl⟩
  all_goals exact (Env.reliable (fun _ _ => rfl) ⟨o, _⟩ s :
    Reliable _ _ (silentWorld.handle _ _).1 _).1

def revokeStoreDown : LifecycleCall :=
  .applyRevocationNotice alphaNotice (Keyed.ofList [("k1", alphaKey)]) selfScopedAuthorize

def downTrace : List (Event Call Resp NodeState) :=
  (revokeStoreDown.run noticePlatform beta).run.trace storeDown knowingAlpha

def downResult : Except Exc Unit :=
  ((revokeStoreDown.run noticePlatform beta).run.eval storeDown knowingAlpha).1

def downState : NodeState :=
  ((revokeStoreDown.run noticePlatform beta).run.eval storeDown knowingAlpha).2

theorem down_runs : Task.Runs Does Passes (revokeStoreDown.run noticePlatform beta).run
    knowingAlpha downTrace downResult downState :=
  Task.runs_trace storeDown Passes.refl storeDown_does _ knowingAlpha

theorem knowingAlpha_coherent : Coherent knowingAlpha := fun _ => rfl

theorem down_raised : downTrace.any writeRaised = true := by decide +kernel

/-- `alpha`'s record is `REVOKED`, and a fresh node trusts it. -/
theorem revocation_store_down :
    Coherent knowingAlpha ∧ downTrace.any writeRaised = true ∧
      Task.Runs Does Passes (revokeStoreDown.run noticePlatform beta).run knowingAlpha downTrace
        downResult downState ∧
      ¬ AllOrNothing revokeStoreDown knowingAlpha downState ∧ downState.revoked "alpha" ∧
      RestartTrusts beta knowingAlpha downState := by
  have hhalted := (revokeStoreDown.halts _ _ _ down_runs down_raised).2
  refine ⟨knowingAlpha_coherent, down_raised, down_runs, fun h =>
    ?_, ?_, hhalted.restartTrusts rfl knowingAlpha_coherent⟩
  · have hsame := (hhalted.allOrNothing_iff knowingAlpha_coherent).mp h
    have hgone : (downState.peerManifests.get "alpha").isNone = true := by decide +kernel
    have hthere : (knowingAlpha.peerManifests.get "alpha").isNone = false := by decide +kernel
    have hboth : (knowingAlpha.peerManifests.get "alpha").isNone = true := hsame ▸ hgone
    rw [hthere] at hboth
    cases hboth
  · show downState.stateOf "alpha" = some .revoked
    decide +kernel

theorem revocation_store_down_halts :
    (∃ e, downResult = .error e) ∧ Halted revokeStoreDown knowingAlpha downState ∧
      (∀ n ≠ "alpha", Untouched n knowingAlpha downState) ∧
      (AllOrNothing revokeStoreDown knowingAlpha downState ↔
        downState.peerManifests.get "alpha" = knowingAlpha.peerManifests.get "alpha") ∧
      RestartTrusts beta knowingAlpha downState :=
  failed_write_halts noticePlatform beta rfl revokeStoreDown knowingAlpha_coherent
    down_runs down_raised

end Federlet
