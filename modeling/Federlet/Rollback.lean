import Federlet.Eviction

/-! Refresh and rollback. The revision of a fetched manifest is compared with the
manifest the refresh read from the cache, outside the lock and before the fetch;
what it overwrites is what the cache holds when the decision is applied. -/

namespace Federlet

open Coop

/-- What a task last read from the cache under each node. -/
abbrev Seen := String → Option Manifest

def note (c : Call) (seen : Seen) : Resp c → Seen :=
  match c with
  | ⟨_, .cacheGet n⟩ => fun r => Function.update seen n r
  | _ => fun _ => seen

/-- The run of a task as far as its own reading of the cache goes. -/
def Notes : Sem Call Resp Seen := fun c seen r seen' => Answered anyCallback c r ∧
    seen' = note c seen r

/-- The manifest does not go back behind what was read under its node. -/
def Outranks (seen : Seen) (manifest : Manifest) : Prop :=
  ∃ current, seen manifest.nodeId = some current ∧ current.revision ≤ manifest.revision

/-- The cache gets nothing that goes back behind what was read, and is not replaced. -/
def PutsForward (ev : Event Call Resp Seen) : Prop :=
  match ev.eff.op with
  | .cachePut manifest => Outranks ev.pre manifest
  | .cacheReplace _ => False
  | _ => True

/-- The calls that leave the memory alone and do so. -/
def Heeds (seen : Seen) (c : Call) : Prop :=
  match c.op with
  | .cacheGet _ | .cacheReplace _ => False
  | .cachePut manifest => Outranks seen manifest
  | _ => True

abbrev Forward {α : Type} (t : Task Call Resp α) (seen : Seen) (Q : α → Seen → Prop) : Prop :=
  Task.after Notes Eq PutsForward t seen Q

theorem Heeds.forward {seen seen' : Seen} {c : Call} {r : Resp c} (hc : Heeds seen c)
    (h : Notes c seen r seen') :
    PutsForward ⟨seen, c, r, seen'⟩ ∧ seen' = seen := by
  obtain ⟨o, op⟩ := c
  obtain ⟨_, rfl⟩ := h
  cases op
  case cacheGet | cacheReplace => exact hc.elim
  all_goals exact ⟨hc, rfl⟩

theorem forward_of_composed {answers : (c : Call) → Resp c → Prop} {sections : Sections} {α : Type}
    {t : Task Call Resp α} {Q : α → Prop} {seen : Seen}
    (hanswers : ∀ c r, Answered anyCallback c r → answers c r)
    (hsect : ∀ γ t, sections γ t → Forward t seen (fun _ s => s = seen))
    (h : Task.Composed (Heeds seen) answers sections Q t) :
    Forward t seen (fun a s => Q a ∧ s = seen) := by
  refine h.after (I := fun s => s = seen) ?_ ?_ ?_ rfl
  · rintro s _ rfl rfl
    rfl
  · rintro c _ r s' hc rfl hn
    exact ⟨hanswers c r hn.1, hc.forward hn⟩
  · rintro γ t _ ht rfl
    exact hsect γ t ht

theorem forward_of_outward {α : Type} {t : Py α} {Q : α → Prop} (seen : Seen)
    (h : Routine Call.outward anyCallback (fun _ _ => False) Q t) :
    Forward t.run seen (fun r s => (∀ a, r = .ok a → Q a) ∧ s = seen) := by
  have hheeds : ∀ c : Call, c.outward → Heeds seen c := by
    rintro ⟨o, op⟩ hc
    cases op <;> first | exact hc.elim | trivial
  exact forward_of_composed (fun _ _ h => h) (fun _ _ h => h.elim) (Task.Composed.widen hheeds h)

section Refresh

variable {P : Platform} {node : FederationNode}

theorem forward_makes {sections : Sections} {α : Type} {t : Py α} {seen : Seen}
    (h : Makes (Heeds seen) sections t)
    (hsect : ∀ γ t, sections γ t → Forward t seen (fun _ s => s = seen)) :
    Forward t.run seen (fun _ s => s = seen) :=
  Task.after_mono (fun _ _ hs => hs.2) (forward_of_composed (fun _ _ _ => trivial) hsect h)

theorem forward_call {α β : Type} {c : Call} {g : Resp c → Except Exc α}
    {f : α → Py β} {seen : Seen} {Q : Except Exc β → Seen → Prop} (hc : c.quiet)
    (h : ∀ r, Answered anyCallback c r → Forward (Task.andThen f (g r)) (note c seen r) Q) :
    Forward ((ExceptT.mk (.call c fun r => .done (g r)) : Py α) >>= f).run seen Q := by
  refine Task.after_run_bind.mpr fun s hs r s' hn => ?_
  subst hs
  obtain ⟨ha, rfl⟩ := hn
  refine ⟨?_, h r ha⟩
  obtain ⟨o, op⟩ := c
  cases op <;> first | exact hc.elim | trivial

theorem applyRefreshDecision_forward {seen : Seen} {nodeId : String}
    {decision : ManifestRefreshDecision}
    (h : decision.action = .accept ∨ decision.action = .unchanged → ∀ manifest,
      decision.manifest = some manifest → Outranks seen manifest) :
    Forward (node.applyRefreshDecision nodeId decision).run seen (fun _ s => s = seen) := by
  obtain ⟨body, hbody, hmakes⟩ := @FederationNode.applyRefreshDecision_parts node (Heeds seen)
    (fun _ t => Forward t seen (fun _ s => s = seen)) nodeId decision trivial trivial
    (fun _ _ => trivial) (fun manifest haction hm =>
      forward_makes (Makes.rememberManifest (h haction manifest hm) trivial) fun _ _ h => h)
    (forward_makes (Makes.forgetManifest trivial trivial) fun _ _ h => h)
  rw [hbody, Task.run_locked]
  exact Task.after_withLock.mpr <| forward_makes hmakes fun _ _ h => h

theorem outranks_of_keeps {seen : Seen} {o : Origin} {policy : Option KeyContinuityPolicy}
    {current : Manifest} {decision : ManifestRefreshDecision}
    (h : Keeps P o policy current decision) (hseen : seen current.nodeId = some current) :
    decision.action = .accept ∨ decision.action = .unchanged → ∀ manifest,
      decision.manifest = some manifest → Outranks seen manifest := by
  intro haction manifest hm
  have hcont := h haction manifest hm
  exact ⟨current, by rw [hcont.sameNode, hseen], hcont.revision⟩

theorem refreshPeer_forward (nodeId : String) (policy : Option KeyContinuityPolicy) (skew : Int)
    (seen : Seen) :
    Forward (node.refreshPeer P nodeId policy skew).run seen (fun _ _ => True) := by
  refine forward_call (c := ⟨.refresh, .tableGet nodeId⟩) trivial fun rec? hrec => ?_
  cases rec? with
  | error e => exact trivial
  | ok rec? =>
    refine forward_call (c := ⟨.refresh, .cacheGet nodeId⟩) trivial fun manifest? hfiled => ?_
    simp only [Task.andThen_ok]
    split
    · rename_i rec manifest
      have hseen : note ⟨.refresh, .cacheGet nodeId⟩ seen (some manifest) manifest.nodeId =
          some manifest := by
        rw [hfiled manifest rfl]
        exact Function.update_self ..
      refine Task.after_run_bind.mpr ?_
      refine Task.after_mono ?_
        (forward_of_outward _ (refreshPeerManifest_routine node.client manifest _ policy skew))
      rintro (e | decision) _ ⟨hkeeps, rfl⟩
      · exact trivial
      · refine Task.after_run_bind.mpr ?_
        refine Task.after_mono ?_
          (applyRefreshDecision_forward (outranks_of_keeps (hkeeps decision rfl) hseen))
        rintro (e | _) s _ <;> exact trivial
    · exact trivial

theorem refreshTargets_forward (records : List MemberRecord)
    (hnodup : (records.map MemberRecord.nodeId).Nodup) (seen : Seen) :
    Forward (node.refreshTargets records).run seen (fun r seen' =>
      (∀ n, n ∉ records.map MemberRecord.nodeId → seen' n = seen n) ∧ ∀ targets decisions,
        r = .ok (targets, decisions) →
        (∀ t ∈ targets, seen' t.1.nodeId = some t.1) ∧
        ∀ d ∈ decisions, d.2 = FederationNode.unknownPeer) := by
  induction records generalizing seen with
  | nil =>
    refine ⟨fun _ _ => rfl, ?_⟩
    rintro targets decisions ⟨⟩
    simp
  | cons rec records ih =>
    obtain ⟨hnew, hrest⟩ := List.nodup_cons.mp hnodup
    refine forward_call (c := ⟨.refresh, .cacheGet rec.nodeId⟩) trivial fun manifest? hfiled => ?_
    simp only [Task.andThen_ok]
    have hothers : ∀ n, n ∉ (rec :: records).map MemberRecord.nodeId →
        note ⟨.refresh, .cacheGet rec.nodeId⟩ seen manifest? n = seen n := by
      intro n hn
      exact Function.update_of_ne (fun he => hn (by simp [he])) _ _
    cases manifest? with
    | none =>
      refine Task.after_run_bind.mpr ?_
      have hunknown := @applyRefreshDecision_forward node
        (note ⟨.refresh, .cacheGet rec.nodeId⟩ seen none) rec.nodeId FederationNode.unknownPeer
        fun haction => by simp [FederationNode.unknownPeer] at haction
      refine Task.after_mono ?_ hunknown
      rintro (e | _) _ rfl
      · exact ⟨hothers, fun _ _ he => by cases he⟩
      · refine Task.after_run_bind.mpr (Task.after_mono ?_ (ih hrest _))
        rintro (e | ⟨targets, decisions⟩) seen' ⟨hsame, htargets⟩
        · exact ⟨fun n hn => (hsame n fun h => hn (List.mem_cons_of_mem _ h)).trans (hothers n hn),
            fun _ _ he => by cases he⟩
        · refine ⟨fun n hn => (hsame n fun h => hn (List.mem_cons_of_mem _ h)).trans
            (hothers n hn), ?_⟩
          rintro _ _ ⟨⟩
          obtain ⟨ht, hd⟩ := htargets targets decisions rfl
          exact ⟨ht, List.forall_mem_cons.mpr ⟨rfl, hd⟩⟩
    | some manifest =>
      refine Task.after_run_bind.mpr (Task.after_mono ?_ (ih hrest _))
      rintro (e | ⟨targets, decisions⟩) seen' ⟨hsame, htargets⟩
      · exact ⟨fun n hn => (hsame n fun h => hn (List.mem_cons_of_mem _ h)).trans (hothers n hn),
          fun _ _ he => by cases he⟩
      · refine ⟨fun n hn => (hsame n fun h => hn (List.mem_cons_of_mem _ h)).trans
          (hothers n hn), ?_⟩
        rintro _ _ ⟨⟩
        obtain ⟨ht, hd⟩ := htargets targets decisions rfl
        refine ⟨List.forall_mem_cons.mpr ⟨?_, ht⟩, hd⟩
        rw [hfiled manifest rfl, hsame _ hnew]
        exact Function.update_self ..

theorem applyRefreshDecisions_forward {seen : Seen}
    (decisions : List (String × ManifestRefreshDecision))
    (h : ∀ d ∈ decisions, d.2.action = .accept ∨ d.2.action = .unchanged → ∀ manifest,
      d.2.manifest = some manifest → Outranks seen manifest) :
    Forward (node.applyRefreshDecisions decisions).run seen (fun _ _ => True) := by
  induction decisions with
  | nil => exact trivial
  | cons d decisions ih =>
    obtain ⟨hd, hrest⟩ := List.forall_mem_cons.mp h
    refine Task.after_run_bind.mpr (Task.after_mono ?_ (applyRefreshDecision_forward hd))
    rintro (e | _) _ rfl
    · exact trivial
    · exact ih hrest

theorem refreshAll_forward (policy : Option KeyContinuityPolicy) (skew : Int) (seen : Seen) :
    Forward (node.refreshAll P policy skew).run seen (fun _ _ => True) := by
  have hpeers := @forward_of_composed (Answered anyCallback) (fun _ _ => False) _ _ _ seen
    (fun _ _ h => h) (fun _ _ h => h.elim) (eligiblePeers_routine (o := .refresh) trivial trivial)
  refine Task.after_run_bind.mpr (Task.after_mono ?_ hpeers)
  rintro (e | records) _ ⟨hnodup, rfl⟩
  · exact trivial
  refine Task.after_run_bind.mpr
    (Task.after_mono ?_ (refreshTargets_forward records (hnodup records rfl) _))
  rintro (e | ⟨targets, unknown⟩) seen' ⟨_, htargets⟩
  · exact trivial
  obtain ⟨hseen, hunknown⟩ := htargets targets unknown rfl
  have hrefreshed := @forward_of_outward _ _ _ seen'
    (@refreshAllManifests_routine P anyCallback (fun _ _ => False) node.client policy skew targets)
  refine Task.after_run_bind.mpr (Task.after_mono ?_ hrefreshed)
  rintro (e | refreshed) _ ⟨hkeeps, rfl⟩
  · exact trivial
  refine Task.after_run_bind.mpr (Task.after_mono ?_ (applyRefreshDecisions_forward _ ?_))
  · rintro (e | _) s _ <;> exact trivial
  · intro d hd haction manifest hm
    rcases List.mem_append.mp (Keyed.mem_of_mem_ofList hd) with hmem | hmem
    · rw [hunknown d hmem] at haction
      simp [FederationNode.unknownPeer] at haction
    · obtain ⟨current, hcurrent, _, hkeep⟩ := hkeeps refreshed rfl d hmem
      obtain ⟨t, ht, rfl⟩ := List.mem_map.mp hcurrent
      exact outranks_of_keeps hkeep (hseen t ht) haction manifest hm

end Refresh

inductive RefreshOp where
  | refreshPeer (nodeId : String) (keyContinuityPolicy : Option KeyContinuityPolicy)
    (maxSkewSeconds : Int)
  | refreshAll (keyContinuityPolicy : Option KeyContinuityPolicy) (maxSkewSeconds : Int)

def RefreshOp.run (P : Platform) (node : FederationNode) : RefreshOp → Py Unit
  | .refreshPeer nodeId policy skew => do let _ ← node.refreshPeer P nodeId policy skew
  | .refreshAll policy skew => do let _ ← node.refreshAll P policy skew

theorem RefreshOp.forward (P : Platform) (node : FederationNode) (op : RefreshOp) (seen : Seen) :
    Forward (op.run P node).run seen (fun _ _ => True) := by
  cases op with
  | refreshPeer nodeId policy skew =>
    refine Task.after_run_bind.mpr
      (Task.after_mono ?_ (refreshPeer_forward nodeId policy skew seen))
    rintro (e | _) s _ <;> exact trivial
  | refreshAll policy skew =>
    refine Task.after_run_bind.mpr (Task.after_mono ?_ (refreshAll_forward policy skew seen))
    rintro (e | _) s _ <;> exact trivial

/-- Any number of refreshes of one node, interleaved at their calls. -/
def RefreshStep (P : Platform) (node : FederationNode) :
    NodePool → Act Call Resp → NodePool → Prop :=
  Pool.Step Does Outside (fun t => ∃ op : RefreshOp, t = (op.run P node).run)

/-- A cache after another: a manifest that differs has the higher revision. -/
def Succeeds (cache cache' : Seen) : Prop :=
  ∀ n old new, cache n = some old → cache' n = some new → old ≠ new → old.revision < new.revision

/-- Over a whole history: a node's cached revision never decreases, and no
revision names two contents, also when the node was not cached in between. -/
def MovesForward (start : NodeState) (history : List (Act Call Resp × NodePool)) : Prop :=
  (start.peerManifests.get :: history.map fun x => x.2.shared.peerManifests.get).Pairwise Succeeds

/-- What was last held under each node, once `cache` is what is held. -/
def lastHeld (cache last : Seen) : Seen := fun n => (cache n).or (last n)

def Increasing : Seen → List Seen → Prop
  | _, [] => True
  | last, cache :: caches => Succeeds last cache ∧ Increasing (lastHeld cache last) caches

theorem succeeds_lastHeld_iff {last cache cache' : Seen} (h : Succeeds last cache) :
    Succeeds (lastHeld cache last) cache' ↔ Succeeds last cache' ∧ Succeeds cache cache' := by
  constructor
  · intro hheld
    have hcache : Succeeds cache cache' := fun n old new hold hnew hne =>
      hheld n old new (by simp [lastHeld, hold]) hnew hne
    refine ⟨fun n old new hold hnew hne => ?_, hcache⟩
    cases hc : cache n with
    | none => exact hheld n old new (by simp [lastHeld, hc, hold]) hnew hne
    | some m =>
      by_cases hm : old = m
      · subst hm
        exact hcache n old new hc hnew hne
      have hlt := h n old m hold hc hm
      by_cases hnm : m = new
      · exact hnm ▸ hlt
      · exact hlt.trans (hcache n m new hc hnew hnm)
  · rintro ⟨hlast, hcache⟩ n old new hold hnew hne
    cases hc : cache n with
    | none => exact hlast n old new (by simpa [lastHeld, hc] using hold) hnew hne
    | some m =>
      obtain rfl : m = old := by simpa [lastHeld, hc] using hold
      exact hcache n m new hc hnew hne

theorem increasing_iff_pairwise {last : Seen} {caches : List Seen} :
    Increasing last caches ↔ (last :: caches).Pairwise Succeeds := by
  induction caches generalizing last with
  | nil => simp [Increasing]
  | cons cache caches ih =>
    rw [Increasing, ih]
    simp only [List.pairwise_cons, List.forall_mem_cons]
    constructor
    · rintro ⟨hfirst, hheld, hrest⟩
      have hboth := fun c hc => (succeeds_lastHeld_iff hfirst).mp (hheld c hc)
      exact ⟨⟨hfirst, fun c hc => (hboth c hc).1⟩, fun c hc => (hboth c hc).2, hrest⟩
    · rintro ⟨⟨hfirst, hlast⟩, hcache, hrest⟩
      exact ⟨hfirst, fun c hc => (succeeds_lastHeld_iff hfirst).mpr
        ⟨hlast c hc, hcache c hc⟩, hrest⟩

/-- A pool with what its tasks have read and what the cache has last held. -/
structure Watched where
  pool : NodePool
  seen : Nat → Seen
  last : Seen

def noted (a : Act Call Resp) (seen : Nat → Seen) : Nat → Seen :=
  match a with
  | .call i c r => Function.update seen i (note c (seen i) r)
  | _ => seen

def Watched.next (w : Watched) (a : Act Call Resp) (pool : NodePool) : Watched where
  pool := pool
  seen := noted a w.seen
  last := lastHeld pool.shared.peerManifests.get w.last

def watch (start : NodeState) :
    Watched := ⟨Pool.start start, fun _ _ => none, start.peerManifests.get⟩

def watched (w : Watched) : List (Act Call Resp × NodePool) → List (Act Call Resp × Watched)
  | [] => []
  | (a, pool) :: rest => (a, w.next a pool) :: watched (w.next a pool) rest

/-- A refresh whose snapshot was last held brings no other content under its
revision; one that was overtaken brings a revision above what was last held. -/
def Outruns (w : Watched) (a : Act Call Resp) : Prop :=
  match a with
  | .call i ⟨_, .cachePut new⟩ _ => ∀ old, w.last new.nodeId = some old → old ≠ new →
      (w.seen i new.nodeId = some old → new.revision ≠ old.revision) ∧
        (w.seen i new.nodeId ≠ some old → old.revision < new.revision)
  | _ => True

section Run

variable {P : Platform} {node : FederationNode}

/-- Every task goes forward from what it has read, and what is cached was last held. -/
structure Watched.Ok (w : Watched) : Prop where
  forward : ∀ i t, w.pool.tasks i = some t → Forward t (w.seen i) (fun _ _ => True)
  held : ∀ n manifest, w.pool.shared.peerManifests.get n = some manifest → w.last n = some manifest

theorem forward_setTask {w : Watched} (h : w.Ok) {i : Nat}
    {t : Task Call Resp (Except Exc Unit)} {mine : Seen} (ht : Forward t mine (fun _ _ => True))
    (j : Nat) (u : Task Call Resp (Except Exc Unit)) (hu : w.pool.setTask i t j = some u) :
    Forward u (Function.update w.seen i mine j) (fun _ _ => True) := by
  by_cases hj : j = i
  · subst hj
    rw [Pool.setTask_self, Option.some.injEq] at hu
    rw [Function.update_self]
    exact hu ▸ ht
  · rw [Function.update_of_ne hj]
    rw [Pool.setTask_ne w.pool t hj] at hu
    exact h.forward j u hu

theorem held_lastHeld {cache last : Seen} (n : String) (manifest : Manifest)
    (h : cache n = some manifest) :
    lastHeld cache last n = some manifest := by
  simp [lastHeld, h]

theorem Watched.Ok.succeeds {w : Watched} (h : w.Ok) {cache : Seen}
    (hcache : ∀ n manifest, cache n = some manifest → w.pool.shared.peerManifests.get n =
      some manifest) :
    Succeeds w.last cache := by
  intro n old new hold hnew hne
  have hheld := h.held n new (hcache n new hnew)
  rw [hold] at hheld
  exact absurd (Option.some.inj hheld) hne

theorem succeeds_put_iff {w : Watched} (h : w.Ok) {i : Nat} {o : Origin} {new : Manifest}
    {r : Resp ⟨o, .cachePut new⟩} (houtranks : Outranks (w.seen i) new) :
    Succeeds w.last (w.pool.shared.peerManifests.upsert new).get ↔
      Outruns w (.call i ⟨o, .cachePut new⟩ r) := by
  obtain ⟨current, hcurrent, hle⟩ := houtranks
  constructor
  · intro hforward old hold hne
    have hlt := hforward new.nodeId old new hold (Keyed.get_upsert_self _ new) hne
    exact ⟨fun _ => by omega, fun _ => hlt⟩
  · intro houtruns n old m hold hm hne
    rw [Keyed.get_upsert] at hm
    by_cases hn : new.nodeId = n
    · rw [if_pos hn] at hm
      obtain rfl := Option.some.inj hm
      obtain ⟨hsame, hother⟩ := houtruns old (hn ▸ hold) hne
      by_cases hseen : w.seen i new.nodeId = some old
      · have hdiff := hsame hseen
        obtain rfl := Option.some.inj (hcurrent.symm.trans hseen)
        omega
      · exact hother hseen
    · rw [if_neg hn] at hm
      have hheld := h.held n m hm
      rw [hold] at hheld
      exact absurd (Option.some.inj hheld) hne

theorem succeeds_step {w : Watched} (h : w.Ok) {a : Act Call Resp} {pool : NodePool}
    (hs : RefreshStep P node w.pool a pool) :
    (w.next a pool).Ok ∧ (Succeeds w.last pool.shared.peerManifests.get ↔ Outruns w a) := by
  refine ⟨⟨?_, fun n manifest hm => held_lastHeld n manifest hm⟩, ?_⟩
  · cases hs with
    | @spawn i t hi ht =>
      obtain ⟨op, rfl⟩ := ht
      have hset := forward_setTask (i := i) h (op.forward P node (w.seen i))
      rwa [Function.update_eq_self] at hset
    | @acquire i k hi hf =>
      have hset := forward_setTask (i := i) (t := k) h (h.forward i (.acquire k) hi)
      rwa [Function.update_eq_self] at hset
    | @release i k hi hh =>
      have hset := forward_setTask (i := i) (t := k) h (h.forward i (.release k) hi)
      rwa [Function.update_eq_self] at hset
    | background hb => exact h.forward
    | @call i c k r s' hi hdoes =>
      exact forward_setTask h (h.forward i _ hi _ rfl r _
        ⟨hdoes.answered (callbackAnswers_any c r), rfl⟩).2
  · have hsame : ∀ s : NodeState, s.peerManifests = w.pool.shared.peerManifests →
        Succeeds w.last s.peerManifests.get := fun s he => h.succeeds fun n m hm => he ▸ hm
    cases hs with
    | spawn | acquire | release => exact iff_of_true (hsame _ rfl) trivial
    | background hb => exact iff_of_true (hsame _ hb.manifests.1) trivial
    | @call i c k r s' hi hdoes =>
      obtain ⟨hputs, hrest⟩ :=
        h.forward i _ hi _ rfl r _ ⟨hdoes.answered (callbackAnswers_any c r), rfl⟩
      obtain ⟨o, op⟩ := c
      by_cases hspares : Call.sparesManifests ⟨o, op⟩
      · refine iff_of_true (hsame _ (hdoes.manifests hspares).1) ?_
        cases op <;> first | exact hspares.elim | trivial
      cases op
      case cachePut new =>
        obtain rfl := hdoes
        exact succeeds_put_iff h hputs
      case cacheReplace => exact hputs.elim
      case cachePop n =>
        obtain rfl := hdoes
        refine iff_of_true (h.succeeds fun m manifest hm => ?_) trivial
        have hm' : (w.pool.shared.peerManifests.erase n).get m = some manifest := hm
        rw [Keyed.get_erase] at hm'
        split at hm'
        · cases hm'
        · exact hm'
      case storeUpsert | storeDelete =>
        refine iff_of_true (hsame _ ?_) trivial
        rcases hdoes with ⟨e, _, rfl⟩ | ⟨_, rfl⟩ <;> rfl
      all_goals exact absurd trivial hspares

/-- In every interleaving of refreshes, the cache never goes back or swaps content
exactly when every refresh outruns what was last held. -/
theorem movesForward_iff_outruns {start : NodeState} {history : List (Act Call Resp × NodePool)}
    (hrun : Along (RefreshStep P node) (Pool.start start) history) :
    MovesForward start history ↔ Along (fun w a _ => Outruns w a) (watch start)
      (watched (watch start) history) := by
  rw [MovesForward, ← increasing_iff_pairwise]
  have hok : (watch start).Ok := ⟨fun i t hi => (nomatch hi), fun n manifest hm => hm⟩
  change Along (RefreshStep P node) (watch start).pool history at hrun
  change Increasing (watch start).last _ ↔ _
  generalize watch start = w at hrun hok
  induction history generalizing w with
  | nil => exact Iff.rfl
  | cons x history ih =>
    obtain ⟨a, pool⟩ := x
    obtain ⟨hs, hrest⟩ := hrun
    obtain ⟨hnext, hiff⟩ := succeeds_step hok hs
    exact and_congr hiff (ih (w.next a pool) hrest hnext)

end Run

def movedAlpha : Manifest :=
  { alphaManifest with
    endpoint := "https://moved.example"
    signature :=
      some { keyId := "k1", sig :=
        "YWmSyGodEy1bkqr0OuHNA5CsLHncffVYzaLHrI-F3HMmcaiAU17Z3ADgfBKYNFZkTCASgXaSJ28cffEEx7lLBg" } }

def movedText : JWK × String × List String :=
  (alphaKey,
   "YWmSyGodEy1bkqr0OuHNA5CsLHncffVYzaLHrI-F3HMmcaiAU17Z3ADgfBKYNFZkTCASgXaSJ28cffEEx7lLBg",
    ["\x7b\"auth_methods\":[\"signed_http\"],", "\"endpoint\":\"https:",
     "//moved.example\",\"expires_at\":", "\"2026-02-01T00:00:", "00Z\",\"extensions\":",
     "\x7b\x7d,\"federations\":[\"fed\"],", "\"membership\":\x7b\"introduce_url\":",
     "\"https://alpha.example/", "introduce\",\"members_url\":", "\"https://alpha.example/",
     "members\"\x7d,\"node_id\":", "\"alpha\",\"org_id\":\"acme\",", "\"protocol_versions\":",
     "[\"1\"],\"public_keys\":", "[\x7b\"alg\":\"EdDSA\",\"key_id\":", "\"k1\",\"public_jwk\":",
     "\x7b\"alg\":\"EdDSA\",\"crv\":", "\"Ed25519\",\"kty\":\"OKP\",",
     "\"x\":\"11qYAYKxCrfVS_7TyWQHOg7hcvPap", "iMlrwIaaPcHURo\"\x7d,\"use\":",
     "\"sig\"\x7d],\"revision\":", "3\x7d"])

def bumpedAlpha : Manifest :=
  { alphaManifest with
    revision := 4
    signature :=
      some { keyId := "k1", sig :=
        "tCzvlk_pqeRBmhQ2fEtl4Xm-SsWxbJl7ZEcwkIfu89KfNjDKmTL_-AGli1Kzy_owEWxrpkEbNf_cBgnq77b9Ag" } }

def bumpedText : JWK × String × List String :=
  (alphaKey,
   "tCzvlk_pqeRBmhQ2fEtl4Xm-SsWxbJl7ZEcwkIfu89KfNjDKmTL_-AGli1Kzy_owEWxrpkEbNf_cBgnq77b9Ag",
    ["\x7b\"auth_methods\":[\"signed_http\"],", "\"endpoint\":\"https:",
     "//alpha.example\",\"expires_at\":", "\"2026-02-01T00:00:", "00Z\",\"extensions\":",
     "\x7b\x7d,\"federations\":[\"fed\"],", "\"membership\":\x7b\"introduce_url\":",
     "\"https://alpha.example/", "introduce\",\"members_url\":", "\"https://alpha.example/",
     "members\"\x7d,\"node_id\":", "\"alpha\",\"org_id\":\"acme\",", "\"protocol_versions\":",
     "[\"1\"],\"public_keys\":", "[\x7b\"alg\":\"EdDSA\",\"key_id\":", "\"k1\",\"public_jwk\":",
     "\x7b\"alg\":\"EdDSA\",\"crv\":", "\"Ed25519\",\"kty\":\"OKP\",",
     "\"x\":\"11qYAYKxCrfVS_7TyWQHOg7hcvPap", "iMlrwIaaPcHURo\"\x7d,\"use\":",
     "\"sig\"\x7d],\"revision\":", "4\x7d"])

def republishPlatform : Platform :=
  knowsDocuments [movedText, bumpedText] [movedAlpha, bumpedAlpha] []

def republishHistory (served : Manifest) : List (Act Call Resp × NodePool) :=
  (Pool.start knowingAlpha).play (serves [("https://alpha.example/manifest", served)] []).handle
    (.spawn 0 (RefreshOp.run republishPlatform beta (.refreshPeer "alpha" none 300)).run ::
      List.replicate 11 (.step 0))

theorem republishHistory_along (served : Manifest) :
    Along (RefreshStep republishPlatform beta) (Pool.start knowingAlpha)
      (republishHistory served) := by
  refine Pool.play_along (fun c s => (Env.reliable (fun _ _ => rfl) c s).1) ?_
  simp only [List.forall_mem_cons]
  refine ⟨?_, ?_⟩
  · rintro i t ⟨⟩
    exact ⟨_, rfl⟩
  · rintro m hm i t rfl
    cases List.eq_of_mem_replicate hm

/-- The moved manifest takes the place of the one it shares its revision with. -/
theorem republished_swaps :
    Along (RefreshStep republishPlatform beta) (Pool.start knowingAlpha)
      (republishHistory movedAlpha) ∧
      ¬ MovesForward knowingAlpha (republishHistory movedAlpha) := by
  refine ⟨republishHistory_along movedAlpha, fun hforward => ?_⟩
  have hafter : (republishHistory movedAlpha).any
      (fun x => decide ((x.2.shared.peerManifests.get "alpha").any
        (fun m => m.endpoint == "https://moved.example" && decide (m.revision = 3)) = true)) =
      true := by decide +kernel
  obtain ⟨x, hx, h⟩ := List.any_eq_true.mp hafter
  obtain ⟨new, hnew, hmoved⟩ : ∃ new, x.2.shared.peerManifests.get "alpha" = some new ∧
      new.endpoint = "https://moved.example" ∧ new.revision = 3 := by
    cases hnew : x.2.shared.peerManifests.get "alpha" with
    | none => simp [hnew] at h
    | some new => exact ⟨new, rfl, by simpa [hnew] using h⟩
  have hold : knowingAlpha.peerManifests.get "alpha" = some alphaManifest := rfl
  have hlt := (List.pairwise_cons.mp hforward).1 _ (List.mem_map_of_mem hx) "alpha" alphaManifest
    new hold hnew ?_
  · rw [hmoved.2] at hlt
    exact absurd hlt (by decide)
  · rintro rfl
    exact absurd hmoved.1 (by decide)

def bumps (w : Watched) (a : Act Call Resp) : Bool :=
  match a with
  | .call _ ⟨_, .cachePut new⟩ _ =>
    (w.last new.nodeId).all fun old => decide (old.revision < new.revision)
  | _ => true

def Bumps (w : Watched) (a : Act Call Resp) : Prop := bumps w a = true

instance (w : Watched) (a : Act Call Resp) :
    Decidable (Bumps w a) := inferInstanceAs (Decidable (bumps w a = true))

theorem Bumps.outruns {w : Watched} {a : Act Call Resp} (h : Bumps w a) : Outruns w a := by
  cases a with
  | call i c r =>
    obtain ⟨o, op⟩ := c
    cases op
    case cachePut new =>
      intro old hold _
      have hlt : old.revision < new.revision := by simpa [Bumps, bumps, hold] using h
      exact ⟨fun _ => by omega, fun _ => hlt⟩
    all_goals trivial
  | _ => trivial

theorem bumped_moves_forward : MovesForward knowingAlpha (republishHistory bumpedAlpha) := by
  have hbumps : Along (fun w a _ => Bumps w a) (watch knowingAlpha)
      (watched (watch knowingAlpha) (republishHistory bumpedAlpha)) := by decide +kernel
  exact (movesForward_iff_outruns (republishHistory_along bumpedAlpha)).mpr
    (hbumps.mono fun _ _ _ => Bumps.outruns)

end Federlet
