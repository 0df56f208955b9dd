import Federlet.Round

/-! What the operations write when they run alone: every section moves the state by
a function of it, and besides only time passes. -/

namespace Federlet

open Coop

namespace NodeState

def remember (node : FederationNode) (manifest : Manifest) (s : NodeState) : NodeState :=
  { s with
    peerManifests := s.peerManifests.upsert manifest
    manifestStore := if node.manifestStore then s.manifestStore.upsert manifest
      else s.manifestStore }

def forget (node : FederationNode) (n : String) (s : NodeState) : NodeState :=
  { s with
    peerManifests := s.peerManifests.erase n
    manifestStore := if node.manifestStore then s.manifestStore.erase n else s.manifestStore }

def file (rec : MemberRecord) (s : NodeState) : NodeState :=
  { s with membershipTable := s.membershipTable.upsert rec }

end NodeState

/-- The clock plays no part in the function. -/
def Timeless (f : NodeState → NodeState) :
    Prop := ∀ s t, f { s with clock := t } = { f s with clock := t }

theorem Timeless.clock {f : NodeState → NodeState} (hf : Timeless f) (s : NodeState) :
    (f s).clock = s.clock := by
  have hsame : f s = { f s with clock := s.clock } := hf s s.clock
  rw [hsame]

theorem Timeless.comp {f g : NodeState → NodeState} (hg : Timeless g) (hf : Timeless f) :
    Timeless fun s => g (f s) := by
  intro s t
  show g (f { s with clock := t }) = { g (f s) with clock := t }
  rw [hf, hg]

theorem Passes.map {f : NodeState → NodeState} (hf : Timeless f) {s s' : NodeState}
    (h : Passes s s') :
    Passes (f s) (f s') := by
  obtain ⟨t, ht, rfl⟩ := h
  have hclock := hf.clock s
  have hmap := hf s t
  exact ⟨t, by rwa [hclock], hmap⟩

theorem timeless_remember (node : FederationNode) (manifest : Manifest) :
    Timeless (NodeState.remember node manifest) :=
  fun _ _ => rfl

theorem timeless_forget (node : FederationNode) (n : String) : Timeless (NodeState.forget node n) :=
  fun _ _ => rfl

theorem timeless_file (rec : MemberRecord) : Timeless (NodeState.file rec) := fun _ _ => rfl

def NodeState.rememberAll (node : FederationNode) (manifests : List Manifest)
    (s : NodeState) : NodeState :=
  manifests.foldl (fun s manifest => s.remember node manifest) s

theorem timeless_rememberAll (node : FederationNode) (manifests : List Manifest) :
    Timeless (NodeState.rememberAll node manifests) := by
  induction manifests with
  | nil => exact fun _ _ => rfl
  | cons m manifests ih => exact ih.comp (timeless_remember node m)

theorem rememberAll_table (node : FederationNode) (manifests : List Manifest) (s : NodeState) :
    (s.rememberAll node manifests).membershipTable = s.membershipTable := by
  induction manifests generalizing s with
  | nil => rfl
  | cons m manifests ih => exact ih _

theorem remembered_table {node : FederationNode} {manifests : List Manifest} {s s' : NodeState}
    (h : Passes (s.rememberAll node manifests) s') : s'.membershipTable = s.membershipTable := by
  obtain ⟨t, _, rfl⟩ := h
  exact rememberAll_table node manifests s

theorem rememberAll_get {node : FederationNode} {manifests : List Manifest} {n : String}
    (h : ∀ m ∈ manifests, m.nodeId ≠ n) (s : NodeState) :
    (s.rememberAll node manifests).peerManifests.get n = s.peerManifests.get n := by
  induction manifests generalizing s with
  | nil => rfl
  | cons m manifests ih =>
    have hhead := h m List.mem_cons_self
    have hrest := ih (fun m' hm' => h m' (List.mem_cons_of_mem _ hm')) (s.remember node m)
    have hget : (s.remember node m).peerManifests.get n = s.peerManifests.get n :=
      Keyed.get_upsert_ne _ hhead
    exact hrest.trans hget

section Alone

variable {sem : Sem Call Resp NodeState} {background : NodeState → NodeState → Prop} {P : Platform}
  {node : FederationNode}

/-- Requests nothing, and leaves the state moved by the function. -/
def Moves (f : NodeState → NodeState) (s : NodeState) (tr : Trace) (s' : NodeState) : Prop :=
  Calm [] [] tr ∧ Passes (f s) s'

theorem Moves.trans {f g : NodeState → NodeState} (hg : Timeless g) {s s₁ s' : NodeState}
    {tr tr' : Trace} (h : Moves f s tr s₁) (h' : Moves g s₁ tr' s') :
    Moves (fun s => g (f s)) s (tr ++ tr') s' :=
  ⟨h.1.append h'.1, (h.2.map hg).trans h'.2⟩

theorem returns_write (henv : Narrows sem background) {c : Call} {g : Resp c → Except Exc Unit}
    {f : NodeState → NodeState} (hf : Timeless f)
    (hcalm : ∀ s r s', fetchedUrl ⟨s, c, r, s'⟩ = none ∧ asked ⟨s, c, r, s'⟩ = none)
    (hdoes : ∀ s r s', Does c s r s' → g r = .ok () → s' = f s) (s : NodeState) :
    Task.Returns sem background (ExceptT.mk (.call c fun r => .done (g r))) s fun tr _ s' =>
      Moves f s tr s' := by
  refine Task.Returns.call ?_
  intro s₁ hb r s₂ hsem _ hr
  obtain ⟨hfetched, hasked⟩ := hcalm s₁ r s₂
  have hpasses := henv.passes _ _ hb
  have hstate := hdoes s₁ r s₂ (henv.does _ _ _ _ hsem) hr
  have hnone : Calm [] [] [⟨s₁, c, r, s₂⟩] := by simp [Calm, hfetched, hasked]
  exact ⟨hnone, hstate ▸ hpasses.map hf⟩

theorem Passes.cache {s s' : NodeState} (h : Passes s s') : s'.peerManifests = s.peerManifests := by
  obtain ⟨t, _, rfl⟩ := h
  rfl

/-- What asks the world outside moves nothing but time. -/
theorem returns_outward (henv : Narrows sem background) {α : Type} {t : Py α} {Q : α → Prop}
    {s : NodeState} (h : Routine Call.outward anyCallback (fun _ _ => False) Q t) :
    Task.Returns sem background t s fun _ a s' => Passes s s' ∧ Q a := by
  have hafter : Task.after sem background (fun _ => True) t.run s
      (fun r s' => (∀ a, r = .ok a → Q a) ∧ Passes s s') := by
    apply Task.Composed.after _ _ (fun _ _ _ hf => hf.elim) h (Passes.refl s)
    · exact fun _ _ hs hb => hs.trans (henv.passes _ _ hb)
    · intro c s₁ r s₂ hc hs hsem
      have hdoes := henv.does c s₁ r s₂ hsem
      obtain rfl := hdoes.eq_of_quiet hc.quiet
      exact ⟨hdoes.answered (callbackAnswers_any c r), trivial, hs⟩
  intro tr r s' hrun a ha
  obtain ⟨hq, hpasses⟩ := (hrun.of_after hafter).1
  exact ⟨hpasses, hq a ha⟩

theorem returns_cacheGet (henv : Narrows sem background) (o : Origin) (n : String) (s : NodeState) :
    Task.Returns sem background (PeerManifests.get o n) s fun _ peer s' =>
      Passes s s' ∧ peer = s.peerManifests.get n := by
  refine Task.Returns.call (e := (⟨o, .cacheGet n⟩ : Call)) ?_
  rintro s₁ hb r s₂ hsem peer ⟨⟩
  have hpasses := henv.passes _ _ hb
  obtain ⟨hr, rfl⟩ := henv.does _ _ _ _ hsem
  rw [hpasses.cache] at hr
  exact ⟨hpasses, hr⟩

theorem rememberManifest_returns (henv : Narrows sem background) (o : Origin) (manifest : Manifest)
    (s : NodeState) :
    Task.Returns sem background (node.rememberManifest o manifest) s fun tr _ s' =>
      Moves (NodeState.remember node manifest) s tr s' := by
  have hput := @returns_write sem background henv ⟨o, .cachePut manifest⟩ (fun r => .ok r)
    (fun s => { s with peerManifests := s.peerManifests.upsert manifest }) (fun _ _ => rfl)
    (fun _ _ _ => ⟨rfl, rfl⟩) (fun _ _ _ h _ => h) s
  refine Task.Returns.bind (Task.Returns.mono hput ?_)
  intro tr _ s₁ hs₁
  by_cases hstore : node.manifestStore = true
  · have hupsert := @returns_write sem background henv ⟨o, .storeUpsert manifest⟩ (fun r => r)
      (fun s => { s with manifestStore := s.manifestStore.upsert manifest }) (fun _ _ => rfl)
      (fun _ _ _ => ⟨rfl, rfl⟩) (by
        rintro s r s' (⟨e, rfl, _⟩ | ⟨_, rfl⟩) hr
        · cases hr
        · rfl) s₁
    rw [if_pos hstore]
    refine Task.Returns.mono hupsert ?_
    intro tr' _ s' hs'
    have hboth := hs₁.trans (fun _ _ => rfl) hs'
    simpa [Moves, NodeState.remember, hstore] using hboth
  · rw [if_neg hstore]
    refine Task.Returns.pure ?_
    simpa [Moves, NodeState.remember, hstore] using hs₁

theorem forgetManifest_returns (henv : Narrows sem background) (o : Origin) (n : String)
    (s : NodeState) :
    Task.Returns sem background (node.forgetManifest o n) s fun tr _ s' =>
      Moves (NodeState.forget node n) s tr s' := by
  have hpop := @returns_write sem background henv ⟨o, .cachePop n⟩ (fun r => .ok r)
    (fun s => { s with peerManifests := s.peerManifests.erase n }) (fun _ _ => rfl)
    (fun _ _ _ => ⟨rfl, rfl⟩) (fun _ _ _ h _ => h) s
  refine Task.Returns.bind (Task.Returns.mono hpop ?_)
  intro tr _ s₁ hs₁
  by_cases hstore : node.manifestStore = true
  · have hdelete := @returns_write sem background henv ⟨o, .storeDelete n⟩ (fun r => r)
      (fun s => { s with manifestStore := s.manifestStore.erase n }) (fun _ _ => rfl)
        (fun _ _ _ => ⟨rfl, rfl⟩) (by
        rintro s r s' (⟨e, rfl, _⟩ | ⟨_, rfl⟩) hr
        · cases hr
        · rfl) s₁
    rw [if_pos hstore]
    refine Task.Returns.mono hdelete ?_
    intro tr' _ s' hs'
    have hboth := hs₁.trans (fun _ _ => rfl) hs'
    simpa [Moves, NodeState.forget, hstore] using hboth
  · rw [if_neg hstore]
    refine Task.Returns.pure ?_
    simpa [Moves, NodeState.forget, hstore] using hs₁

theorem rememberDiscovered_returns (henv : Narrows sem background)
    (outcomes : List DiscoveryOutcome) (s : NodeState) :
    Task.Returns sem background (node.rememberDiscovered outcomes) s fun tr _ s' =>
      Moves (NodeState.rememberAll node (outcomes.filterMap DiscoveryOutcome.manifest)) s tr s' :=
        by
  induction outcomes generalizing s with
  | nil => exact Task.Returns.pure ⟨calm_nil, Passes.refl s⟩
  | cons outcome rest ih =>
    rw [FederationNode.rememberDiscovered]
    cases hm : outcome.manifest with
    | none =>
      have hrest := ih s
      rw [List.filterMap_cons_none hm]
      exact hrest
    | some manifest =>
      rw [List.filterMap_cons_some hm]
      have hone := Task.Returns.locked
        (@rememberManifest_returns sem background node henv .discovery manifest s)
      refine Task.Returns.bind (Task.Returns.mono hone ?_)
      intro tr _ s₁ hs₁
      refine Task.Returns.mono (ih s₁) ?_
      intro tr' _ s' hs'
      exact hs₁.trans (timeless_rememberAll node _) hs'

theorem RoundTold.of_passes {client : FederationClient} {policy : AdmissionPolicy}
    {skew cap : Int} {ref : Nat} {s s₁ s' : NodeState} {tr : Trace}
    {report : DiscoveryRefreshReport} {visits : List Visit} (hs : Passes s s₁)
    (h : RoundTold sem background P client policy skew cap ref s₁ tr report s' visits) :
    RoundTold sem background P client policy skew cap ref s tr report s' visits := by
  obtain ⟨t, ht, rfl⟩ := hs
  obtain ⟨⟨now, hfrom, hto, hrecords⟩, hvisited, hjust, hsifted, hleaves, hreport, hcalm⟩ := h
  have hstart : s.clock.instant ≤ now.instant := Int.le_trans ht hfrom
  exact ⟨⟨now, hstart, hto, hrecords⟩, hvisited, hjust, hsifted, Leaves.trans ⟨t, ht, rfl⟩ hleaves,
    hreport, hcalm⟩

theorem discover_returns (henv : Narrows sem background) (skew cap : Int) (since : Option String)
    (s : NodeState) :
    Task.Returns sem background (node.discover P skew cap since) s fun tr report s' =>
      ∃ visits tr' s₁,
      RoundTold sem background P node.client node.admissionPolicy skew cap s.cacheRef s tr'
        report s₁ visits ∧
      tr.filterMap asked = tr'.filterMap asked ∧
      Passes (s₁.rememberAll node (report.accepted.filterMap DiscoveryOutcome.manifest)) s' := by
  refine Task.Returns.bind (Task.Returns.call (e := (⟨.discovery, .cacheRef⟩ : Call)) ?_)
  rintro s₁ hb ref s₂ hsem _ ⟨⟩
  have hpasses := henv.passes _ _ hb
  obtain ⟨rfl, rfl⟩ := henv.does _ _ _ _ hsem
  have href : s₂.cacheRef = s.cacheRef := by
    obtain ⟨t, _, rfl⟩ := hpasses
    rfl
  refine Task.Returns.bind
    (Task.Returns.mono (refreshDiscoveredMembers_returns henv s₂.cacheRef since s₂) ?_)
  rintro tr report s₃ ⟨visits, hround⟩
  refine Task.Returns.bind
    (Task.Returns.mono (rememberDiscovered_returns henv report.accepted s₃) ?_)
  intro tr' _ s' hmoves
  refine Task.Returns.pure ?_
  have hasked : (tr'.filterMap asked) = [] := hmoves.1.2
  have hall : List.filterMap asked
      (⟨s₂, ⟨.discovery, .cacheRef⟩, s₂.cacheRef, s₂⟩ :: (tr ++ (tr' ++ []))) =
      tr.filterMap asked := by
    rw [List.filterMap_cons_none (show asked _ = none from rfl)]
    simp [hasked]
  exact ⟨visits, tr, s₃, href ▸ hround.of_passes hpasses, hall, hmoves.2⟩

end Alone

end Federlet
