import Federlet.Eviction
import Federlet.Rollback
import Federlet.Trust

/-! Admissions while all peers are refreshed. A peer that is not fetched is decided on what
was found before the fetches began; every other operation writes it as an active member. -/

namespace Federlet

open Coop

section LastWrite

variable {W A : Type}

def ending : W → List (A × W) → W
  | w, [] => w
  | _, (_, w') :: rest => ending w' rest

/-- Whatever is overruled is written again later. -/
def Repaired (overrules writes : A → Bool) : List (A × W) → Prop
  | [] => True
  | (a, _) :: rest =>
    (overrules a = true → ∃ x ∈ rest, writes x.1 = true) ∧ Repaired overrules writes rest

instance Repaired.decidable {overrules writes : A → Bool} :
    (l : List (A × W)) → Decidable (Repaired overrules writes l)
  | [] => .isTrue trivial
  | (a, _) :: rest =>
    have := @Repaired.decidable overrules writes rest
    inferInstanceAs (Decidable ((overrules a = true → ∃ x ∈ rest, writes x.1 = true) ∧ _))

/-- What is written so and not overruled holds at the end, exactly if it held or was
written, and everything overruled was written again. -/
theorem ending_iff_repaired {P : W → A → W → Prop} {overrules writes : A → Bool} {H : W → Prop}
    (hwrites : ∀ w a w', P w a w' → writes a = true → H w')
    (hoverrules : ∀ w a w', P w a w' → overrules a = true → ¬ H w')
    (hkeeps : ∀ w a w', P w a w' → writes a = false → overrules a = false → (H w' ↔ H w)) {w : W}
    {l : List (A × W)} (h : Along P w l) : H (ending w l) ↔ Repaired overrules writes l ∧
      (H w ∨ ∃ x ∈ l, writes x.1 = true) := by
  induction l generalizing w with
  | nil => simp [ending, Repaired]
  | cons x l ih =>
    obtain ⟨a, w'⟩ := x
    obtain ⟨hp, hrest⟩ := h
    rw [ending, ih hrest, Repaired]
    simp only [List.mem_cons, exists_eq_or_imp]
    cases hw : writes a with
    | true =>
      have hafter : H w' := hwrites w a w' hp hw
      have hnot : overrules a ≠ true := fun ho => hoverrules w a w' hp ho hafter
      simp [hafter, hnot]
    | false =>
      cases ho : overrules a with
      | true =>
        have hafter : ¬ H w' := hoverrules w a w' hp ho
        simp only [hafter, Bool.false_eq_true, false_or, true_implies]
        constructor
        · exact fun h => ⟨⟨h.2, h.1⟩, .inr h.2⟩
        · exact fun h => ⟨h.1.2, h.1.1⟩
      | false => simp [hkeeps w a w' hp hw ho]

theorem along_of_forall {Q : A → Prop} {w : W} {l : List (A × W)} (h : ∀ x ∈ l, Q x.1) :
    Along (fun _ a _ => Q a) w l := by
  induction l generalizing w with
  | nil => trivial
  | cons x l ih =>
    obtain ⟨hx, hrest⟩ := List.forall_mem_cons.mp h
    exact ⟨hx, ih hrest⟩

end LastWrite

theorem Composed.narrow {E : Type} {R : E → Type} {α : Type} {calls : E → Prop}
    {answers answers' : (e : E) → R e → Prop} {sections : (γ : Type) → Task E R γ → Prop}
    (h : ∀ e r, answers' e r → answers e r) {t : Task E R α} {Q : α → Prop}
    (ht : Task.Composed calls answers sections Q t) :
    Task.Composed calls answers' sections Q t := by
  induction ht with
  | done ha => exact .done ha
  | call hc _ ih => exact .call hc fun r hr => ih r (h _ r hr)
  | sect hs _ ih => exact .sect hs ih

def Call.fetchesFor (n : String) (c : Call) : Prop := ∃ url, c = ⟨.fetch n, .httpGet url⟩

/-- What a task is told as long as the manifest of the node is not fetched. -/
def Heard (n : String) (c : Call) (r : Resp c) : Prop := Answered anyCallback c r ∧ ¬ c.fetchesFor n

/-- The calls of operations by which the node is admitted, or refreshed without a fetch. -/
def Minds (n : String) (c : Call) : Prop :=
  match c with
  | ⟨.refresh, .tableUpsert rec⟩ => rec.nodeId = n → rec.state ≠ .active
  | ⟨_, .tableUpsert rec⟩ => rec.state = .active
  | ⟨.refresh, .cachePut manifest⟩ => manifest.nodeId ≠ n
  | ⟨o, .cachePop _⟩ => o = .refresh
  | ⟨_, .cacheReplace _⟩ => False
  | _ => True

theorem Call.quiet.minds {n : String} {c : Call} (h : c.quiet) : Minds n c := by
  obtain ⟨o, op⟩ := c
  cases op
  case tableUpsert | cachePut | cachePop | cacheReplace => exact h.elim
  all_goals cases o <;> trivial

/-- A task all of whose calls are such, whatever it is told. -/
abbrev Mindful (n : String) {α : Type} (t : Task Call Resp α) (Q : α → Prop) : Prop :=
  Task.after (fun c (_ : Unit) r _ => Heard n c r) Eq (fun ev => Minds n ev.eff) t () fun a _ => Q a

section Refresh

variable {P : Platform} {node : FederationNode} {n : String} {α : Type}

theorem mindful_of_composed {calls : Call → Prop} {answers : (c : Call) → Resp c → Prop}
    {sections : Sections} {t : Task Call Resp α} {Q : α → Prop} (hcalls : ∀ c, calls c → Minds n c)
    (hanswers : ∀ c r, Heard n c r → answers c r)
    (hsections : ∀ γ t, sections γ t → Mindful n t fun _ => True)
    (h : Task.Composed calls answers sections Q t) :
    Mindful n t Q := by
  refine Task.after_mono (fun _ _ h => h.1)
    (Task.Composed.after (I := fun _ => True) ?_ ?_ ?_ h trivial)
  · exact fun _ _ _ _ => trivial
  · exact fun c _ r _ hc _ hr => ⟨hanswers c r hr, hcalls c hc, trivial⟩
  · exact fun γ t _ ht _ => Task.after_mono (fun _ _ _ => trivial) (hsections γ t ht)

theorem mindful_of_quiet {t : Py α} {Q : α → Prop}
    (h : Routine Call.quiet anyCallback (fun _ _ => False) Q t) :
    Mindful n t.run fun r => ∀ a, r = .ok a → Q a :=
  mindful_of_composed (fun _ hc => hc.minds) (fun _ _ hr => hr.1) (fun _ _ h => h.elim) h

abbrev MindfulSections (n : String) : Sections := fun _ t => Mindful n t fun _ => True

theorem mindful_of_routine {t : Py α} {Q : α → Prop}
    (h : Routine Call.quiet anyCallback (MindfulSections n) Q t) :
    Mindful n t.run fun _ => True :=
  Task.after_mono (fun _ _ _ => trivial)
    (mindful_of_composed (fun _ hc => hc.minds) (fun _ _ hr => hr.1) (fun _ _ h => h) h)

theorem mindful_of_makes {t : Py α} (h : Makes (Minds n) (MindfulSections n) t) :
    Mindful n t.run fun _ => True :=
  mindful_of_composed (fun _ hc => hc) (fun _ _ _ => trivial) (fun _ _ h => h) h

/-- The decision does not keep the node, and keeps others by manifests of their own. -/
def Bars (n : String) (nodeId : String) (decision : ManifestRefreshDecision) : Prop :=
  decision.action = .accept ∨ decision.action = .unchanged →
    nodeId ≠ n ∧ ∀ manifest, decision.manifest = some manifest → manifest.nodeId = nodeId

theorem bars_unknownPeer (nodeId : String) : Bars n nodeId FederationNode.unknownPeer := by
  intro hkeep
  simp [FederationNode.unknownPeer] at hkeep

theorem refreshFailure_action {oldRevision : Int} {exc : Exc} {d : ManifestRefreshDecision}
    (h : refreshFailure oldRevision exc = .ok d) : d.action ≠ .accept ∧ d.action ≠ .unchanged := by
  simp only [refreshFailure] at h
  repeat' split at h
  all_goals cases h <;> simp

theorem fetchManifest_unheard (client : FederationClient) (url : String) (skew : Int) :
    Task.Composed Call.outward (Heard n) (fun _ _ => False) (fun r => ∃ e, r = .error e)
      (fetchManifest P client (.fetch n) url skew).run := by
  have hhost : Task.Composed Call.outward (Heard n) (fun _ _ => False) _
      (assertPublicHost P (.fetch n) url client.allowPrivate).run :=
    Composed.narrow (fun _ _ hr => hr.1)
      (assertPublicHost_routine (.fetch n) url client.allowPrivate).outward
  refine Task.composed_run_bind hhost (fun _ _ => ?_) fun e _ => ⟨e, rfl⟩
  exact .call trivial fun _ hr => absurd ⟨url, rfl⟩ hr.2

theorem refreshPeerManifest_bars (client : FederationClient) (current : Manifest) (url : String)
    (policy : Option KeyContinuityPolicy) (skew : Int) :
    Mindful n (refreshPeerManifest P client current url policy skew).run fun r =>
      ∀ d, r = .ok d → Bars n current.nodeId d := by
  by_cases hn : current.nodeId = n
  · subst hn
    have hunheard := Task.composed_attempt (@fetchManifest_unheard P current.nodeId client url skew)
    refine mindful_of_composed (fun _ hc => hc.quiet.minds) (fun _ _ hr => hr) (fun _ _ h => h.elim)
      (Task.composed_run_bind hunheard ?_ ?_)
    · rintro _ ⟨x, hx, e, rfl⟩
      obtain rfl := Except.ok.inj hx
      refine .done fun d hd hkeep => ?_
      have hfails := refreshFailure_action hd
      exact absurd hkeep (not_or.mpr hfails)
    · rintro _ ⟨x, hx, _⟩
      cases hx
  · refine Task.after_mono ?_
      (mindful_of_quiet (refreshPeerManifest_routine client current url policy skew).quiet)
    intro r _ hr d hd hkeep
    exact ⟨hn, fun manifest hm => ((hr d hd).fitsNode hkeep manifest hm).1⟩

theorem Mindful.bind {β : Type} {t : Py α} {f : α → Py β} {A : α → Prop} {Q : Except Exc β → Prop}
    (h : Mindful n t.run fun r => ∀ a, r = .ok a → A a) (hf : ∀ a, A a → Mindful n (f a).run Q)
    (hraised : ∀ e, Q (.error e)) : Mindful n (t >>= f).run Q := by
  refine Task.after_run_bind.mpr (Task.after_mono ?_ h)
  intro r _ hr
  cases r with
  | error e => exact hraised e
  | ok a => exact hf a (hr a rfl)

theorem gatherRefreshes_bars (client : FederationClient)
    (policy : Option KeyContinuityPolicy) (skew : Int) (targets : List (Manifest × String)) :
    Mindful n (gatherRefreshes P client policy skew targets).run fun r => ∀ rs, r = .ok rs →
      ∀ one ∈ rs, ∀ d, one = .ok d → Bars n d.1 d.2 := by
  induction targets with
  | nil =>
    rintro _ ⟨⟩
    simp
  | cons target targets ih =>
    obtain ⟨peer, url⟩ := target
    refine Mindful.bind (A := fun one => ∀ d, one = .ok d → Bars n peer.nodeId d) ?_
      (fun one hone => ?_) fun _ _ he => nomatch he
    · refine Task.after_bind.mpr
        (Task.after_mono ?_ (refreshPeerManifest_bars client peer url policy skew))
      rintro one _ hone _ ⟨⟩
      exact hone
    · refine Mindful.bind ih (fun others hothers => ?_) fun _ _ he => nomatch he
      rintro _ ⟨⟩
      refine List.forall_mem_cons.mpr ⟨fun d hd => ?_, hothers⟩
      cases one with
      | error e => cases hd
      | ok decision =>
        obtain rfl := Except.ok.inj hd
        exact hone decision rfl

theorem refreshAllManifests_bars (client : FederationClient)
    (policy : Option KeyContinuityPolicy) (skew : Int) (targets : List (Manifest × String)) :
    Mindful n (refreshAllManifests P client targets policy skew).run fun r => ∀ ds, r = .ok ds →
      ∀ d ∈ ds, Bars n d.1 d.2 := by
  refine Mindful.bind (gatherRefreshes_bars client policy skew targets) (fun rs hrs => ?_)
    fun _ _ he => nomatch he
  intro ds hds d hd
  exact hrs _ (mem_of_gathered hds d hd) d rfl

theorem applyRefreshDecision_minds {nodeId : String} {decision : ManifestRefreshDecision}
    (h : Bars n nodeId decision) :
    Mindful n (node.applyRefreshDecision nodeId decision).run fun _ => True := by
  refine Task.after_withLock.mpr
    (Mindful.bind (A := fun rec? => ∀ rec, rec? = some rec → rec.nodeId = nodeId) ?_
      (fun rec? hrec? => mindful_of_makes ?_) fun _ => trivial)
  · intro _ _ r _ hr
    refine ⟨trivial, ?_⟩
    rintro rec? rfl rec rfl
    exact hr.1 rec rfl
  have hforget : Makes (Minds n) (MindfulSections n) (node.forgetManifest .refresh nodeId) :=
    Makes.forgetManifest rfl trivial
  cases haction : decision.action
  case accept | unchanged =>
    obtain ⟨hother, hown⟩ := h (by simp [haction])
    dsimp only
    split
    · rename_i manifest hm
      have hput : Minds n ⟨.refresh, .cachePut manifest⟩ := (hown manifest hm).trans_ne hother
      refine (Makes.rememberManifest hput trivial).bind fun _ => ?_
      split
      · rename_i rec
        refine FederationNode.refreshWrite_makes trivial fun now he => absurd ?_ hother
        exact (hrec? rec rfl).symm.trans he
      · exact Makes.pure ()
    · exact Makes.pure ()
  case quarantine =>
    dsimp only
    split
    · exact FederationNode.refreshWrite_makes trivial fun now _ => by simp
    · exact Makes.pure ()
  case reject =>
    dsimp only
    split
    · exact (FederationNode.refreshWrite_makes trivial fun now _ => by simp).bind fun _ => hforget
    · exact hforget

theorem refreshTargets_minds (records : List MemberRecord) :
    Mindful n (node.refreshTargets records).run fun r => ∀ a, r = .ok a →
      ∀ d ∈ a.2, Bars n d.1 d.2 := by
  induction records with
  | nil =>
    rintro _ ⟨⟩
    simp
  | cons rec records ih =>
    refine Task.after_run_bind.mpr ?_
    intro _ _ manifest? _ _
    refine ⟨trivial, ?_⟩
    cases manifest? with
    | none =>
      refine Mindful.bind (A := fun _ => True) ?_ (fun _ _ => ?_) fun _ _ he => nomatch he
      · exact Task.after_mono (fun _ _ _ _ _ => trivial)
          (applyRefreshDecision_minds (bars_unknownPeer rec.nodeId))
      · refine Mindful.bind ih (fun a ha => ?_) fun _ _ he => nomatch he
        rintro _ ⟨⟩
        exact List.forall_mem_cons.mpr ⟨bars_unknownPeer rec.nodeId, ha⟩
    | some manifest =>
      refine Mindful.bind ih (fun a ha => ?_) fun _ _ he => nomatch he
      rintro _ ⟨⟩
      exact ha

theorem refreshAll_minds (policy : Option KeyContinuityPolicy) (skew : Int) :
    Mindful n (node.refreshAll P policy skew).run fun _ => True := by
  have heligible : Routine Call.quiet anyCallback (fun _ _ => False) _ (eligiblePeers .refresh) :=
    eligiblePeers_routine trivial trivial
  refine Mindful.bind (mindful_of_quiet heligible) (fun records _ => ?_) fun _ => trivial
  refine Mindful.bind (refreshTargets_minds records) ?_ fun _ => trivial
  rintro ⟨targets, unknown⟩ hunknown
  refine Mindful.bind (refreshAllManifests_bars node.client policy skew targets)
    (fun refreshed hrefreshed => ?_) fun _ => trivial
  have happly : Routine Call.quiet anyCallback (MindfulSections n) (fun _ => True) (do
      node.applyRefreshDecisions
        (Keyed.ofList (unknown ++ refreshed) : Dict ManifestRefreshDecision).entries
      return (Keyed.ofList (unknown ++ refreshed) : Dict ManifestRefreshDecision)) := by
    refine Routine.bind (FederationNode.applyRefreshDecisions_routine _ fun d hd => ?_) fun _ _ =>
      Routine.pure trivial
    rcases List.mem_append.mp (Keyed.mem_of_mem_ofList hd) with hmem | hmem
    · exact applyRefreshDecision_minds (hunknown d hmem)
    · exact applyRefreshDecision_minds (hrefreshed d hmem)
  exact mindful_of_routine happly

end Refresh

/-- The operations that admit peers, and the refresh of all of them. -/
inductive AdmittingOp where
  | admitPeer (manifest : Manifest) (manifestUrl : Option String) (maxSkewSeconds : Int)
  | discover (maxSkewSeconds perPeerCap : Int) (since : Option String)
  | refreshAll (keyContinuityPolicy : Option KeyContinuityPolicy) (maxSkewSeconds : Int)

def AdmittingOp.run (P : Platform) (node : FederationNode) : AdmittingOp → Py Unit
  | .admitPeer manifest url skew => do let _ ← node.admitPeer P manifest url skew
  | .discover skew cap since => do let _ ← node.discover P skew cap since
  | .refreshAll policy skew => do let _ ← node.refreshAll P policy skew

theorem AdmittingOp.minds (P : Platform) (node : FederationNode) (n : String) (op : AdmittingOp) :
    Mindful n (op.run P node).run fun _ => True := by
  cases op with
  | admitPeer manifest url skew =>
    refine mindful_of_routine
      ((FederationNode.admitPeer_routine manifest url skew fun url _ => ?_).bind fun _ _ =>
        Routine.pure (Q := fun _ => True) trivial)
    have hupsert : ∀ rec : MemberRecord, rec.state = .active →
        Minds n ⟨.admission, .tableUpsert rec⟩ := fun _ h => h
    have hremember : MindfulSections n _ (node.rememberManifest .admission manifest).run :=
      mindful_of_makes (Makes.rememberManifest trivial trivial)
    obtain ⟨body, hbody, hmakes⟩ :=
      FederationNode.recordPeer_parts trivial trivial hupsert hremember
    rw [MindfulSections, hbody, Task.run_locked]
    exact Task.after_withLock.mpr (mindful_of_makes hmakes)
  | discover skew cap since =>
    refine mindful_of_routine
      ((FederationNode.discover_routine skew cap since (fun rec hfresh _ => ?_) fun manifest _ =>
        ?_).bind fun _ _ => Routine.pure (Q := fun _ => True) trivial)
    · have hupsert : Minds n ⟨.discovery, .tableUpsert rec⟩ := hfresh.active
      exact mindful_of_makes (Makes.call (c := ⟨.discovery, .tableUpsert rec⟩) hupsert _)
    · exact Task.after_withLock.mpr (mindful_of_makes (Makes.rememberManifest trivial trivial))
  | refreshAll policy skew =>
    exact Mindful.bind (A := fun _ => True)
      (Task.after_mono (fun _ _ _ _ _ => trivial) (refreshAll_minds policy skew))
      (fun _ _ => trivial) fun _ => trivial

def AdmittingStep (P : Platform) (node : FederationNode) :
    NodePool → Act Call Resp → NodePool → Prop :=
  Pool.Step Does Passes (fun t => ∃ op : AdmittingOp, t = (op.run P node).run)

def Active (n : String) (s : NodeState) : Prop :=
  ∃ rec, s.membershipTable.get n = some rec ∧ rec.state = .active

def refetches (n : String) : Act Call Resp → Bool
  | .call _ ⟨.fetch nodeId, .httpGet _⟩ _ => decide (nodeId = n)
  | _ => false

/-- An admission files the node's record. -/
def enters (n : String) : Act Call Resp → Bool
  | .call _ ⟨o, .tableUpsert rec⟩ (.ok _) => decide (rec.nodeId = n ∧ o ≠ .refresh)
  | _ => false

/-- A refresh files the node's record. -/
def rejects (n : String) : Act Call Resp → Bool
  | .call _ ⟨o, .tableUpsert rec⟩ (.ok _) => decide (rec.nodeId = n ∧ o = .refresh)
  | _ => false

/-- An admission caches the node's manifest. -/
def caches (n : String) : Act Call Resp → Bool
  | .call _ ⟨o, .cachePut manifest⟩ _ => decide (manifest.nodeId = n ∧ o ≠ .refresh)
  | _ => false

/-- A refresh forgets the node's manifest. -/
def drops (n : String) : Act Call Resp → Bool
  | .call _ ⟨o, .cachePop nodeId⟩ _ => decide (nodeId = n ∧ o = .refresh)
  | _ => false

def ofTask (i : Nat) : Act Call Resp → Bool
  | .call j _ _ => decide (j = i)
  | _ => false

section Run

variable {P : Platform} {node : FederationNode} {n : String}

/-- What an act makes of the node's record and of its manifest. -/
structure Tells (n : String) (a : Act Call Resp) (s s' : NodeState) : Prop where
  entered : enters n a = true → Active n s'
  rejected : rejects n a = true → ¬ Active n s'
  filed : enters n a = false → rejects n a = false → (Active n s' ↔ Active n s)
  cached : caches n a = true → Cached n s'
  dropped : drops n a = true → ¬ Cached n s'
  held : caches n a = false → drops n a = false → (Cached n s' ↔ Cached n s)

theorem Tells.of_same {a : Act Call Resp} {s s' : NodeState}
    (hnone : enters n a = false ∧ rejects n a = false ∧ caches n a = false ∧ drops n a = false)
    (htable : s'.membershipTable = s.membershipTable)
    (hcache : s'.peerManifests = s.peerManifests) : Tells n a s s' := by
  obtain ⟨henters, hrejects, hcaches, hdrops⟩ := hnone
  refine ⟨by simp [henters], by simp [hrejects], fun _ _ => ?_, by simp [hcaches], by simp [hdrops],
    fun _ _ => ?_⟩
  · rw [Active, Active, htable]
  · rw [Cached, Cached, hcache]

theorem tells_tableUpsert {i : Nat} {o : Origin} {rec : MemberRecord}
    {r : Resp ⟨o, .tableUpsert rec⟩} {s s' : NodeState} (hminds : Minds n ⟨o, .tableUpsert rec⟩)
    (h : Does ⟨o, .tableUpsert rec⟩ s r s') :
    Tells n (.call i ⟨o, .tableUpsert rec⟩ r) s s' := by
  rcases h with ⟨e, rfl, rfl⟩ | ⟨rfl, rfl⟩
  · exact .of_same ⟨rfl, rfl, rfl, rfl⟩ rfl rfl
  have hheld : Cached n { s with membershipTable := s.membershipTable.upsert rec } ↔
    Cached n s := Iff.rfl
  by_cases hn : rec.nodeId = n
  · have hget : (s.membershipTable.upsert rec).get n = some rec := hn ▸ Keyed.get_upsert_self _ rec
    have hactive : Active n { s with membershipTable := s.membershipTable.upsert rec } ↔
      rec.state = .active := by
      constructor
      · rintro ⟨rec', hrec', hstate⟩
        obtain rfl := Option.some.inj (hget.symm.trans hrec')
        exact hstate
      · exact fun hstate => ⟨rec, hget, hstate⟩
    by_cases ho : o = .refresh
    · subst ho
      have hnot : rec.state ≠ .active := hminds hn
      refine ⟨by simp [enters], fun _ => hactive.not.mpr hnot, by simp [rejects, hn],
        by simp [caches], by simp [drops], fun _ _ => hheld⟩
    · have hstate : rec.state = .active := by
        cases o <;> first | exact hminds | exact absurd rfl ho
      refine ⟨fun _ => hactive.mpr hstate,
        by simp [rejects, ho], by simp [enters, hn, ho], by simp [caches], by
        simp [drops], fun _ _ => hheld⟩
  · have hget : (s.membershipTable.upsert rec).get n = s.membershipTable.get n :=
      Keyed.get_upsert_ne _ hn
    refine ⟨by simp [enters, hn], by simp [rejects, hn], fun _ _ => ?_, by simp [caches],
      by simp [drops], fun _ _ => hheld⟩
    rw [Active, Active, hget]

theorem tells_call {i : Nat} {c : Call} {r : Resp c} {s s' : NodeState} (hminds : Minds n c)
    (h : Does c s r s') :
    Tells n (.call i c r) s s' := by
  by_cases hq : c.quiet
  · obtain rfl := h.eq_of_quiet hq
    refine .of_same ?_ rfl rfl
    obtain ⟨o, op⟩ := c
    cases op
    case tableUpsert | cachePut | cachePop | cacheReplace => exact hq.elim
    all_goals exact ⟨rfl, rfl, rfl, rfl⟩
  obtain ⟨o, op⟩ := c
  cases op
  case tableUpsert rec => exact tells_tableUpsert hminds h
  case cachePut manifest =>
    obtain rfl : s' = _ := h
    have hfiled : Active n { s with peerManifests := s.peerManifests.upsert manifest } ↔
      Active n s := Iff.rfl
    by_cases hn : manifest.nodeId = n
    · have ho : o ≠ .refresh := by
        rintro rfl
        exact hminds hn
      have hget : (s.peerManifests.upsert manifest).get n = some manifest :=
        hn ▸ Keyed.get_upsert_self _ manifest
      refine ⟨by simp [enters], by simp [rejects], fun _ _ => hfiled, fun _ => ⟨manifest, hget⟩,
        by simp [drops], by simp [caches, hn, ho]⟩
    · have hget : (s.peerManifests.upsert manifest).get n = s.peerManifests.get n :=
        Keyed.get_upsert_ne _ hn
      refine ⟨by simp [enters], by simp [rejects], fun _ _ => hfiled, by simp [caches, hn],
        by simp [drops], fun _ _ => ?_⟩
      rw [Cached, Cached, hget]
  case cachePop nodeId =>
    obtain rfl : s' = _ := h
    obtain rfl : o = .refresh := by cases o <;> exact hminds
    have hfiled : Active n { s with peerManifests := s.peerManifests.erase nodeId } ↔
      Active n s := Iff.rfl
    by_cases hn : nodeId = n
    · subst hn
      have hget : (s.peerManifests.erase nodeId).get nodeId = none := Keyed.get_erase_self _ nodeId
      refine ⟨by simp [enters], by simp [rejects], fun _ _ => hfiled, by simp [caches], fun _ =>
        ?_, by simp [drops]⟩
      rintro ⟨manifest, hm⟩
      cases hget.symm.trans hm
    · have hget : (s.peerManifests.erase nodeId).get n = s.peerManifests.get n :=
        Keyed.get_erase_ne _ hn
      refine ⟨by simp [enters], by simp [rejects], fun _ _ => hfiled, by simp [caches],
        by simp [drops, hn], fun _ _ => ?_⟩
      rw [Cached, Cached, hget]
  case cacheReplace => cases o <;> exact hminds.elim
  case storeUpsert | storeDelete | nonceSet =>
    refine .of_same ⟨rfl, rfl, rfl, rfl⟩ ?_ ?_
    all_goals rcases h with ⟨e, _, rfl⟩ | ⟨_, rfl⟩ <;> rfl
  all_goals exact absurd trivial hq

def AllMind (n : String) (w : NodePool) : Prop :=
  ∀ i t, w.tasks i = some t → Mindful n t fun _ => True

theorem AllMind.setTask {w : NodePool} (h : AllMind n w) {i : Nat}
    {t : Task Call Resp (Except Exc Unit)} (ht : Mindful n t fun _ => True) (j : Nat)
    (u : Task Call Resp (Except Exc Unit)) (hu : w.setTask i t j = some u) :
    Mindful n u fun _ => True := by
  by_cases hj : j = i
  · subst hj
    rw [Pool.setTask_self, Option.some.injEq] at hu
    exact hu ▸ ht
  · rw [Pool.setTask_ne w t hj] at hu
    exact h j u hu

theorem admitting_step {w w' : NodePool} {a : Act Call Resp} (hmind : AllMind n w)
    (hs : AdmittingStep P node w a w') (hfetch : refetches n a = false) :
    AllMind n w' ∧ Tells n a w.shared w'.shared := by
  cases hs with
  | @spawn i t hi ht =>
    obtain ⟨op, rfl⟩ := ht
    exact ⟨hmind.setTask (op.minds P node n), .of_same ⟨rfl, rfl, rfl, rfl⟩ rfl rfl⟩
  | @acquire i k hi hf =>
    have hk : Mindful n k fun _ => True := hmind i (.acquire k) hi
    exact ⟨hmind.setTask hk, .of_same ⟨rfl, rfl, rfl, rfl⟩ rfl rfl⟩
  | @release i k hi hh =>
    have hk : Mindful n k fun _ => True := hmind i (.release k) hi
    exact ⟨hmind.setTask hk, .of_same ⟨rfl, rfl, rfl, rfl⟩ rfl rfl⟩
  | background hb => exact ⟨hmind, .of_same ⟨rfl, rfl, rfl, rfl⟩ hb.table hb.cache⟩
  | @call i c k r s' hi hdoes =>
    have hheard : Heard n c r := by
      refine ⟨hdoes.answered (callbackAnswers_any c r), ?_⟩
      rintro ⟨url, rfl⟩
      simp [refetches] at hfetch
    obtain ⟨hminds, hrest⟩ := hmind i _ hi () rfl r () hheard
    exact ⟨hmind.setTask hrest, tells_call hminds hdoes⟩

def AdmittedBy (n : String) (i : Nat) (history : List (Act Call Resp × NodePool)) : Prop :=
  (∃ x ∈ history, ofTask i x.1 = true ∧ enters n x.1 = true) ∧ ∃ x ∈ history, ofTask i x.1 = true ∧
    caches n x.1 = true

/-- A node that was admitted, and that no refresh fetched, is active with its manifest
exactly if admissions came after whatever the refreshes did against it. -/
theorem admission_stands_iff (P : Platform) (node : FederationNode) (n : String) {start : NodeState}
    {history : List (Act Call Resp × NodePool)}
    (hrun : Along (AdmittingStep P node) (Pool.start start) history)
    (hfetch : ∀ x ∈ history, refetches n x.1 = false) {i : Nat}
    (hadmitted : AdmittedBy n i history) :
    (Active n (ending (Pool.start start) history).shared ∧
      Cached n (ending (Pool.start start) history).shared) ↔
      Repaired (rejects n) (enters n) history ∧ Repaired (drops n) (caches n) history := by
  have hstart : AllMind n (Pool.start start) := fun i t hi => nomatch hi
  have htells : Along (fun w a w' => Tells n a w.shared w'.shared) (Pool.start start) history :=
    Along.of_inv (fun w a w' hmind h => admitting_step hmind h.1 h.2) hstart
      (hrun.and (along_of_forall hfetch))
  have hentered : ∃ x ∈ history, enters n x.1 = true := by
    obtain ⟨⟨x, hx, _, h⟩, _⟩ := hadmitted
    exact ⟨x, hx, h⟩
  have hcached : ∃ x ∈ history, caches n x.1 = true := by
    obtain ⟨_, x, hx, _, h⟩ := hadmitted
    exact ⟨x, hx, h⟩
  refine and_congr ?_ ?_
  · have h := ending_iff_repaired (H := fun w : NodePool => Active n w.shared)
      (fun w a w' h => h.entered) (fun w a w' h => h.rejected) (fun w a w' h => h.filed) htells
    simpa [hentered] using h
  · have h := ending_iff_repaired (H := fun w : NodePool => Cached n w.shared)
      (fun w a w' h => h.cached) (fun w a w' h => h.dropped) (fun w a w' h => h.held) htells
    simpa [hcached] using h

end Run

def admittingSpawn (i : Nat) (op : AdmittingOp) : Move Call Resp (Except Exc Unit) :=
  .spawn i (op.run hintPlatform beta).run

def admittingHistory (moves : List (Move Call Resp (Except Exc Unit))) :
    List (Act Call Resp × NodePool) :=
  (Pool.start knowingAlpha).play hintWorld.handle moves

theorem admittingHistory_along {moves : List (Move Call Resp (Except Exc Unit))}
    (h : ∀ m ∈ moves, (∃ i op, m = admittingSpawn i op) ∨ ∃ i, m = .step i) :
    Along (AdmittingStep hintPlatform beta) (Pool.start knowingAlpha) (admittingHistory moves) := by
  refine Pool.play_along (fun c s => (Env.reliable (fun _ _ => rfl) c s).1) ?_
  rintro m hm i t rfl
  rcases h _ hm with ⟨j, op, he⟩ | ⟨j, he⟩
  · cases he
    exact ⟨op, rfl⟩
  · cases he

/-- `gamma` is introduced by an operator while the manifest of `alpha` is fetched. -/
def admittedWhileFetching : List (Move Call Resp (Except Exc Unit)) :=
  admittingSpawn 1 (.refreshAll none 300) :: List.replicate 4 (.step 1) ++
    admittingSpawn 0 (.admitPeer gammaManifest (some "https://gamma.example/manifest") 300) ::
      List.replicate 8 (.step 0) ++ List.replicate 5 (.step 1)

instance (n : String) (i : Nat) (history : List (Act Call Resp × NodePool)) :
    Decidable (AdmittedBy n i history) :=
  inferInstanceAs (Decidable (_ ∧ _))

theorem admitted_while_fetching :
    Active "gamma" (ending (Pool.start knowingAlpha)
      (admittingHistory admittedWhileFetching)).shared ∧
      Cached "gamma" (ending (Pool.start knowingAlpha)
        (admittingHistory admittedWhileFetching)).shared := by
  have hrun := @admittingHistory_along admittedWhileFetching (by simp [admittedWhileFetching])
  have hseen : (∀ x ∈ admittingHistory admittedWhileFetching, refetches "gamma" x.1 = false) ∧
      AdmittedBy "gamma" 0 (admittingHistory admittedWhileFetching) ∧
      Repaired (rejects "gamma") (enters "gamma") (admittingHistory admittedWhileFetching) ∧
      Repaired (drops "gamma") (caches "gamma") (admittingHistory admittedWhileFetching) :=
        by decide +kernel
  obtain ⟨hfetch, hadmitted, hstands⟩ := hseen
  exact (admission_stands_iff hintPlatform beta "gamma" hrun hfetch hadmitted).mpr hstands

/-- `gamma` is found without its manifest; discovery has cached it when the decision on
that is applied again. -/
def decidedBeforeCaching : List (Move Call Resp (Except Exc Unit)) :=
  admittingSpawn 0 (.discover 300 100 none) :: List.replicate 11 (.step 0) ++
    admittingSpawn 1 (.refreshAll none 300) :: List.replicate 12 (.step 1) ++ List.replicate
      4 (.step 0) ++ List.replicate 12 (.step 1)

def isDone {α : Type} : Option (Task Call Resp α) → Bool
  | some (.done _) => true
  | _ => false

/-- `gamma` is admitted between two calls of the refresh, is not fetched by it, and is
left rejected and forgotten. -/
theorem refresh_overrules_admission :
    Along (AdmittingStep hintPlatform beta) (Pool.start knowingAlpha)
      (admittingHistory decidedBeforeCaching) ∧
      (∀ x ∈ admittingHistory decidedBeforeCaching, refetches "gamma" x.1 = false ∧
        ¬ x.2.shared.revoked "gamma") ∧
      ((∃ x ∈ (admittingHistory decidedBeforeCaching).take 29, ofTask 1 x.1 = true) ∧
        AdmittedBy "gamma" 0 ((admittingHistory decidedBeforeCaching).take 29) ∧
        ∃ x ∈ (admittingHistory decidedBeforeCaching).drop 29, ofTask 1 x.1 = true) ∧
      (∀ i < 2,
        isDone ((ending (Pool.start knowingAlpha) (admittingHistory decidedBeforeCaching)).tasks
          i) = true) ∧
      ¬ Active "gamma" (ending (Pool.start knowingAlpha)
        (admittingHistory decidedBeforeCaching)).shared ∧
      ¬ Cached "gamma" (ending (Pool.start knowingAlpha)
        (admittingHistory decidedBeforeCaching)).shared := by
  refine ⟨admittingHistory_along (by simp [decidedBeforeCaching]), ?_⟩
  generalize hh : admittingHistory decidedBeforeCaching = history
  have hseen : (∀ x ∈ history, refetches "gamma" x.1 = false ∧ ¬ x.2.shared.revoked "gamma") ∧
      ((∃ x ∈ history.take 29, ofTask 1 x.1 = true) ∧ AdmittedBy "gamma" 0 (history.take 29) ∧
        ∃ x ∈ history.drop 29, ofTask 1 x.1 = true) ∧
      (∀ i < 2, isDone ((ending (Pool.start knowingAlpha) history).tasks i) = true) ∧
      ((ending (Pool.start knowingAlpha) history).shared.membershipTable.get "gamma").all
        (fun rec => decide (rec.state ≠ .active)) = true ∧
      (ending (Pool.start knowingAlpha) history).shared.peerManifests.get "gamma" = none := by
    subst hh
    decide +kernel
  obtain ⟨hfetch, hduring, hdone, hstate, hgone⟩ := hseen
  refine ⟨hfetch, hduring, hdone, ?_, ?_⟩
  · rintro ⟨rec, hrec, hactive⟩
    rw [hrec] at hstate
    simp [hactive] at hstate
  · rintro ⟨manifest, hm⟩
    cases hgone.symm.trans hm

end Federlet
