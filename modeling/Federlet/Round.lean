import Federlet.Library.Sift
import Federlet.Operations

/-! One round of discovery, run alone, with a log of what became of every hint.
The log says which hints were tried; the report, the table and the requests made
are what the log says. -/

namespace Federlet

open Coop

/-- What became of a hint: passed over, or fetched with one of the ends below. -/
inductive Fate where
  | passed (reason : String)
  | failed (reason : String)
  | mismatched (manifest : Manifest)
  | own (manifest : Manifest)
  | rejected (manifest : Manifest) (reason : String)
  | accepted (manifest : Manifest) (record : MemberRecord)

def Fate.tried : Fate → Bool
  | .passed _ => false
  | _ => true

def Fate.taken : Fate → Bool
  | .accepted _ _ => true
  | _ => false

/-- A reference at its position in a member list, and its fate. -/
structure Hint where
  source : String
  index : Nat
  ref : MemberRef
  fate : Fate

namespace Hint

def labels : Sift.Labels Hint String String where
  name h := h.ref.nodeId
  place h := h.ref.manifestUrl
  index := index
  tried h := h.fate.tried
  taken h := h.fate.taken

def outcome (h : Hint) : DiscoveryOutcome :=
  let base : DiscoveryOutcome :=
    { nodeId := h.ref.nodeId, manifestUrl := h.ref.manifestUrl, sourceNodeId := h.source }
  match h.fate with
  | .passed reason | .failed reason => { base with reason }
  | .mismatched manifest => { base with reason := "node_id_mismatch", manifest := some manifest }
  | .own manifest => { base with reason := "self", manifest := some manifest }
  | .rejected manifest reason => { base with reason, manifest := some manifest }
  | .accepted manifest _ => { base with reason := "ok", manifest := some manifest }

def report (outcomes : DiscoveryRefreshReport) (h : Hint) : DiscoveryRefreshReport :=
  match h.fate with
  | .passed _ | .mismatched _ | .own _ => outcomes.skip h.outcome
  | .failed _ => outcomes.fail h.outcome
  | .rejected _ _ => outcomes.reject h.outcome
  | .accepted _ _ => outcomes.accept h.outcome

def record (table : Keyed (@MemberRecord.nodeId DateTime)) (h : Hint) :
    Keyed (@MemberRecord.nodeId DateTime) :=
  match h.fate with
  | .accepted _ rec => table.upsert rec
  | _ => table

end Hint

def membersOf (P : Platform) (peer : Manifest) (answer : Except Exc Response) :
    Except Exc MembersResponse := do
  let r ← answer
  r.raiseForStatus
  let body ← r.json
  let resp ← P.validateMembers body
  if !(← verifyResponseSignature P peer resp.signature resp) then
    throw (.responseSignatureError "bad_signature")
  return resp

theorem run_bind_done {α β : Type} {t : Py α} {f : α → Py β} {x : Except Exc α}
    {g : α → Except Exc β} (ht : t.run = .done x) (hf : ∀ a, (f a).run = .done (g a)) :
    (t >>= f).run = .done (x >>= g) := by
  rw [Task.run_bind, ht]
  cases x with
  | error e => rfl
  | ok a => exact hf a

theorem getMembers_run (P : Platform) (o : Origin) (peer : Manifest) (since : Option String) :
    (getMembers P o peer since).run =
      .call ⟨o, .httpRequest peer.nodeId "GET" peer.membership.membersUrl (since.filter (· ≠ ""))⟩
        fun r => .done (membersOf P peer r) := by
  rw [getMembers, send, bind_assoc, Task.run_bind]
  refine congrArg (Task.call _) (funext fun r => ?_)
  cases r with
  | error e => rfl
  | ok r =>
    simp only [Task.done_bind, Task.andThen_ok, bind_assoc, pure_bind]
    refine run_bind_done rfl fun _ => run_bind_done rfl fun body => run_bind_done rfl fun resp => ?_
    refine run_bind_done rfl fun valid => ?_
    cases valid <;> rfl

abbrev Trace := List (Event Call Resp NodeState)

def fetchedUrl (ev : Event Call Resp NodeState) : Option String :=
  match ev.eff.op with
  | .httpGet url => some url
  | _ => none

def asked (ev : Event Call Resp NodeState) : Option (String × Except Exc Response) :=
  match ev with
  | ⟨_, ⟨_, .httpRequest target _ _ _⟩, r, _⟩ => some (target, r)
  | _ => none

/-- The trace fetches some of the given URLs, in their order, and makes the given requests. -/
def Calm (urls : List String) (requests : List (String × Except Exc Response))
    (tr : Trace) : Prop :=
  (tr.filterMap fetchedUrl).Sublist urls ∧ tr.filterMap asked = requests

theorem Calm.append {urls urls' : List String}
    {requests requests' : List (String × Except Exc Response)} {tr tr' : Trace}
    (h : Calm urls requests tr) (h' : Calm urls' requests' tr') :
    Calm (urls ++ urls') (requests ++ requests') (tr ++ tr') := by
  refine ⟨?_, ?_⟩
  · rw [List.filterMap_append]
    exact h.1.append h'.1
  · rw [List.filterMap_append, h.2, h'.2]

theorem Calm.mono {urls urls' : List String} {requests : List (String × Except Exc Response)}
    {tr : Trace} (h : Calm urls requests tr) (hsub : urls.Sublist urls') : Calm urls' requests tr :=
  ⟨h.1.trans hsub, h.2⟩

theorem calm_nil : Calm [] [] [] := ⟨.slnil, rfl⟩

/-- An environment that only narrows what calls may do, and between calls lets
nothing but time pass. -/
structure Narrows (sem : Sem Call Resp NodeState) (background : NodeState → NodeState → Prop) :
    Prop where
  does : ∀ c s r s', sem c s r s' → Does c s r s'
  passes : ∀ s s', background s s' → Passes s s'

theorem Narrows.runs {sem : Sem Call Resp NodeState} {background : NodeState → NodeState → Prop}
    (henv : Narrows sem background) {α : Type} {t : Coop.Task Call Resp α} {s s' : NodeState}
    {tr : Trace} {a : α} (h : Task.Runs sem background t s tr a s') :
    Task.Runs Does Passes t s tr a s' := by
  induction h with
  | done a s => exact .done a s
  | call hb hs _ ih => exact .call (henv.passes _ _ hb) (henv.does _ _ _ _ hs) ih
  | acquire _ ih => exact .acquire ih
  | release _ ih => exact .release ih

/-- An environment that answers by functions, at one moment. -/
def frozen (env : Env) (now : DateTime) : Sem Call Resp NodeState :=
  fun c s r s' => s.clock = now ∧ env.handle c s = (r, s')

theorem Env.handle_clock (env : Env) (c : Call) (s : NodeState) :
    (env.handle c s).2.clock = s.clock := by
  obtain ⟨o, op⟩ := c
  cases op <;> rfl

theorem narrows_frozen {env : Env} (hnow : ∀ o t, env.now o t = t) (now : DateTime) :
    Narrows (frozen env now) Eq := by
  refine ⟨?_, ?_⟩
  · rintro c s r s' ⟨_, he⟩
    have hdoes := (Env.reliable hnow c s).1
    rwa [he] at hdoes
  · rintro s _ rfl
    exact Passes.refl s

theorem frozen_runs {env : Env} {now : DateTime} {α : Type} (t : Coop.Task Call Resp α)
    {s : NodeState} (hs : s.clock = now) :
    Task.Runs (frozen env now) Eq t s (t.trace env.handle s) (t.eval env.handle s).1
      (t.eval env.handle s).2 := by
  induction t generalizing s with
  | done a => exact .done a s
  | call c k ih => exact .call rfl ⟨hs, rfl⟩ (ih _ ((env.handle_clock c s).trans hs))
  | acquire k ih => exact .acquire (ih hs)
  | release k ih => exact .release (ih hs)

theorem eval_of_frozen_runs {env : Env} {α : Type} {t : Coop.Task Call Resp α} {Q : α → Prop}
    {s s' s₀ : NodeState} {tr : Trace} {a : α}
    (h : t.Composed Call.outward (Answered anyCallback) (fun _ _ => False) Q)
    (hrun : Task.Runs (frozen env s₀.clock) Eq t s tr a s') : (t.eval env.handle s₀).1 = a := by
  induction h generalizing s tr with
  | done ha =>
    cases hrun
    rfl
  | @call c k hc hk ih =>
    cases hrun with
    | call hb hs hrest =>
      obtain ⟨hclock, he⟩ := hs
      obtain ⟨o, op⟩ := c
      cases op
      case utcNow | getaddrinfo | httpGet | httpRequest | hostCallback =>
        cases he
        first
        | exact ih _ trivial hrest
        | exact ih _ trivial (hclock ▸ hrest)
      all_goals exact hc.elim
  | sect ht => exact ht.elim

/-- The table is now the given one, and time has passed. -/
def Leaves (table : Keyed (@MemberRecord.nodeId DateTime)) (s s' : NodeState) : Prop :=
  Passes { s with membershipTable := table } s'

theorem Leaves.trans {table table' : Keyed (@MemberRecord.nodeId DateTime)} {s s' s'' : NodeState}
    (h : Leaves table s s') (h' : Leaves table' s' s'') : Leaves table' s s'' := by
  obtain ⟨t, ht, rfl⟩ := h
  obtain ⟨t', ht', rfl⟩ := h'
  exact ⟨t', ht.trans ht', rfl⟩

theorem Passes.leaves {s s' : NodeState} (h : Passes s s') : Leaves s.membershipTable s s' := h

theorem Leaves.table {table : Keyed (@MemberRecord.nodeId DateTime)} {s s' : NodeState}
    (h : Leaves table s s') :
    s'.membershipTable = table := by
  obtain ⟨t, _, rfl⟩ := h
  rfl

section Run

variable {sem : Sem Call Resp NodeState} {background : NodeState → NodeState → Prop}

theorem yields_offline (henv : Narrows sem background) {α : Type} {t : Py α} {Q : α → Prop}
    {s : NodeState} (h : Routine Call.offline anyCallback (fun _ _ => False) Q t) :
    Task.Yields sem background t.run s fun tr r s' => Calm [] [] tr ∧ Passes s s' ∧
      ∀ a, r = .ok a → Q a := by
  have hafter : Task.after sem background (fun ev => fetchedUrl ev = none ∧ asked ev = none) t.run s
      (fun r s' => (∀ a, r = .ok a → Q a) ∧ Passes s s') :=
    Task.Composed.after (fun _ _ hs hb => hs.trans (henv.passes _ _ hb)) ?_
      (fun _ _ _ hf => hf.elim) h (Passes.refl s)
  · refine Task.Yields.mono (.of_after hafter) ?_
    rintro tr r s' ⟨⟨hq, hpasses⟩, hev⟩
    refine ⟨⟨?_, ?_⟩, hpasses, hq⟩
    · rw [List.filterMap_eq_nil_iff.mpr fun ev hm => (hev ev hm).1]
    · exact List.filterMap_eq_nil_iff.mpr fun ev hm => (hev ev hm).2
  · intro c s₁ r s₂ hc hs hdoes
    have hdo := henv.does c s₁ r s₂ hdoes
    obtain rfl := hdo.eq_of_quiet hc.outward.quiet
    refine ⟨hdo.answered (callbackAnswers_any c r), ?_, hs⟩
    obtain ⟨o, op⟩ := c
    cases op <;> first | exact hc.elim | exact ⟨rfl, rfl⟩

theorem returns_offline (henv : Narrows sem background) {α : Type} {t : Py α} {Q : α → Prop}
    {s : NodeState} (h : Routine Call.offline anyCallback (fun _ _ => False) Q t) :
    Task.Returns sem background t s fun tr a s' => Calm [] [] tr ∧ Passes s s' ∧ Q a :=
  Task.Yields.mono (yields_offline henv h) fun _ _ _ hq a ha => ⟨hq.1, hq.2.1, hq.2.2 a ha⟩

theorem yields_fetchManifest (henv : Narrows sem background) (P : Platform)
    (client : FederationClient) (o : Origin) (url : String) (skew : Int) (s : NodeState) :
    Task.Yields sem background (fetchManifest P client o url skew).run s fun tr r s' =>
      Calm [url] [] tr ∧ Passes s s' ∧ ∀ m, r = .ok m → Checked P m := by
  refine Task.Yields.run_bind
    (Task.Yields.mono (yields_offline henv (assertPublicHost_routine o url _)) ?_)
  rintro tr (e | _) s₁ ⟨hcalm, hs₁, _⟩
  · refine Task.Yields.done ⟨?_, hs₁, fun _ he => nomatch he⟩
    rw [List.append_nil]
    exact hcalm.mono (List.nil_sublist _)
  refine Task.Yields.call fun s₂ hb r s₃ hdoes => ?_
  obtain rfl := Does.eq_of_quiet (c := ⟨o, .httpGet url⟩) trivial (henv.does _ s₂ r s₃ hdoes)
  have hs₃ := hs₁.trans (henv.passes _ _ hb)
  have hget : Calm [url] [] [⟨s₃, ⟨o, .httpGet url⟩, r, s₃⟩] := ⟨List.Sublist.refl _, rfl⟩
  cases r with
  | error e => exact Task.Yields.done ⟨hcalm.append hget, hs₃, fun _ he => nomatch he⟩
  | ok r =>
    refine Task.Yields.mono (yields_offline henv (fetched_routine o r skew)) ?_
    rintro tr' r' s' ⟨hcalm', hs', hchecked⟩
    exact ⟨hcalm.append (hget.append hcalm'), hs₃.trans hs', hchecked⟩

theorem returns_upsert (henv : Narrows sem background) (o : Origin) (rec : MemberRecord)
    (s : NodeState) :
    Task.Returns sem background (MembershipTable.upsert o rec) s fun tr _ s' =>
      Calm [] [] tr ∧ Leaves (s.membershipTable.upsert rec) s s' := by
  refine Task.Returns.call (e := (⟨o, .tableUpsert rec⟩ : Call)) ?_
  rintro s₁ hb r s₂ hdoes _ rfl
  obtain ⟨t, ht, rfl⟩ := henv.passes _ _ hb
  rcases henv.does _ _ _ _ hdoes with ⟨e, he, _⟩ | ⟨_, rfl⟩
  · cases he
  · exact ⟨⟨List.nil_sublist _, rfl⟩, t, ht, rfl⟩

variable (sem background) (P : Platform) (client : FederationClient)
  (policy : AdmissionPolicy) (skew : Int)

def Fetches (url : String) (r : Except Exc Manifest) : Prop :=
  ∃ s tr s', Task.Runs sem background (fetchManifest P client .discovery url skew).run s tr r s'

def Decides (manifest : Manifest) (decision : AdmissionDecision) : Prop :=
  ∃ s tr s', Task.Runs sem background (admitManifest P .discovery manifest policy skew).run s tr
    (.ok decision) s'

def recordOf (ref : MemberRef) (manifest : Manifest) (now : DateTime) : MemberRecord :=
  ({ nodeId := manifest.nodeId, orgId := some manifest.orgId, manifestUrl := ref.manifestUrl,
     manifestRevision := manifest.revision } : MemberRecord).admitRecord none now

/-- The fetch and the policy bear the fate out. -/
def Fate.Justified (ref : MemberRef) : Fate → Prop
  | .passed _ => True
  | .failed reason =>
    ∃ exc, Fetches sem background P client skew ref.manifestUrl (.error exc) ∧
      reason = discoveryFailureReason exc
  | .mismatched manifest =>
    Fetches sem background P client skew ref.manifestUrl (.ok manifest) ∧
      manifest.nodeId ≠ ref.nodeId
  | .own manifest =>
    Fetches sem background P client skew ref.manifestUrl (.ok manifest) ∧
      manifest.nodeId = ref.nodeId ∧
      manifest.nodeId = client.nodeId
  | .rejected manifest reason =>
    Fetches sem background P client skew ref.manifestUrl (.ok manifest) ∧
      manifest.nodeId = ref.nodeId ∧
      ∃ decision, Decides sem background P policy skew manifest decision ∧
        decision.accepted = false ∧
        reason = decision.reason
  | .accepted manifest rec =>
    Fetches sem background P client skew ref.manifestUrl (.ok manifest) ∧
      manifest.nodeId = ref.nodeId ∧
      (∃ decision, Decides sem background P policy skew manifest decision ∧
        decision.accepted = true) ∧
      ∃ now, rec = recordOf ref manifest now

variable {sem background} {P client policy skew}

theorem processRef_returns (henv : Narrows sem background) (ref : MemberRef)
    (source : String) (index : Nat) (outcomes : DiscoveryRefreshReport) (s : NodeState) :
    Task.Returns sem background (processRef P client policy skew ref source outcomes) s
      fun tr out s' =>
      ∃ fate : Fate, fate.tried = true ∧ fate.Justified sem background P client policy skew ref ∧
        out = Hint.report outcomes ⟨source, index, ref, fate⟩ ∧
        Leaves (Hint.record s.membershipTable ⟨source, index, ref, fate⟩) s s' ∧
        Calm [ref.manifestUrl] [] tr := by
  refine Task.Returns.bind (Task.Returns.attempt ?_)
  intro tr r s₁ hrun
  obtain ⟨hcalm, hs₁, hchecked⟩ := yields_fetchManifest henv P client .discovery ref.manifestUrl
    skew s tr r s₁ hrun
  have hfetches : Fetches sem background P client skew ref.manifestUrl r := ⟨s, tr, s₁, hrun⟩
  have hcalm' : Calm [ref.manifestUrl] [] (tr ++ []) := by rwa [List.append_nil]
  cases r with
  | error exc =>
    exact Task.Returns.pure ⟨.failed (discoveryFailureReason exc), rfl, ⟨exc, hfetches, rfl⟩,
      rfl, hs₁, hcalm'⟩
  | ok manifest =>
    dsimp only
    split
    · rename_i hne
      exact Task.Returns.pure ⟨.mismatched manifest, rfl, ⟨hfetches, hne⟩, rfl, hs₁, hcalm'⟩
    rename_i hsame
    have hsame : manifest.nodeId = ref.nodeId := not_not.mp hsame
    split
    · rename_i hself
      exact Task.Returns.pure ⟨.own manifest, rfl, ⟨hfetches, hsame, hself⟩, rfl, hs₁, hcalm'⟩
    refine Task.Returns.bind ?_
    intro tr' r s₂ hadmits decision hr
    subst hr
    obtain ⟨hcalm₂, hs₂, _⟩ :=
      returns_offline henv (admitManifest_routine .discovery manifest policy skew) tr' _ s₂
      hadmits decision rfl
    have hdecides : Decides sem background P policy skew manifest decision := ⟨s₁, tr', s₂, hadmits⟩
    have hboth : Calm [ref.manifestUrl] [] (tr ++ tr') := hcalm.append hcalm₂
    cases haccepted : decision.accepted with
    | false =>
      refine Task.Returns.pure ⟨.rejected manifest decision.reason, rfl,
        ⟨hfetches, hsame, decision, hdecides, haccepted, rfl⟩, rfl, hs₁.trans hs₂, ?_⟩
      rwa [List.append_nil]
    | true =>
      refine Task.Returns.bind
        (Task.Returns.mono (returns_offline henv (utcNow_routine .discovery)) ?_)
      rintro tr₃ now s₃ ⟨hcalm₃, hs₃, _⟩
      refine Task.Returns.bind (Task.Returns.mono (returns_upsert henv .discovery _ s₃) ?_)
      rintro tr₄ _ s₄ ⟨hcalm₄, hs₄⟩
      refine Task.Returns.pure ⟨.accepted manifest (recordOf ref manifest now), rfl,
        ⟨hfetches, hsame, ⟨decision, hdecides, haccepted⟩, now, rfl⟩, rfl, ?_, ?_⟩
      · obtain ⟨t, ht, rfl⟩ := hs₁.trans (hs₂.trans hs₃)
        obtain ⟨t', ht', rfl⟩ := hs₄
        exact ⟨t', ht.trans ht', rfl⟩
      · rw [List.append_nil]
        exact hcalm.append (hcalm₂.append (hcalm₃.append hcalm₄))

/-- How far a round has come. -/
def frontOf (table : Keyed (@MemberRecord.nodeId DateTime)) (round : DiscoveryRound) :
    Sift.Front String String where
  known n := ∃ rec, table.get n = some rec
  names := round.seenNodeIds
  places := round.seenManifestUrls

theorem frontOf_next {table : Keyed (@MemberRecord.nodeId DateTime)}
    {round round' : DiscoveryRound} {h : Hint}
    (hjust : h.fate.Justified sem background P client policy skew h.ref)
    (htried : h.fate.tried = true) (hnames : round'.seenNodeIds = h.ref.nodeId :: round.seenNodeIds)
    (hplaces : round'.seenManifestUrls = h.ref.manifestUrl :: round.seenManifestUrls) :
    frontOf (Hint.record table h) round' = (frontOf table round).next Hint.labels h := by
  have hknown : ∀ n, (∃ rec, (Hint.record table h).get n = some rec) ↔
      (∃ rec, table.get n = some rec) ∨ (h.fate.taken = true ∧ h.ref.nodeId = n) := by
    intro n
    obtain ⟨source, index, ref, fate⟩ := h
    cases fate
    case accepted manifest rec =>
      obtain ⟨_, hsame, _, now, hrec⟩ := hjust
      have hnode : rec.nodeId = ref.nodeId := by
        rw [hrec]
        exact hsame
      simp only [Hint.record, Keyed.get_upsert, hnode, Fate.taken, true_and]
      by_cases hn : ref.nodeId = n <;> simp [hn]
    all_goals simp [Hint.record, Fate.taken]
  rw [Sift.Front.next, if_pos (show Hint.labels.tried h = true from htried)]
  simp only [frontOf, Sift.Front.mk.injEq]
  exact ⟨funext fun n => propext (hknown n), hnames, hplaces⟩

variable (sem background P client policy skew) (cap : Int)

/-- The hints take a round from one point to another. -/
structure Advances (s : NodeState) (round : DiscoveryRound) (hints : List Hint) (s' : NodeState)
    (round' : DiscoveryRound) : Prop where
  justified : ∀ h ∈ hints, h.fate.Justified sem background P client policy skew h.ref
  sifted : Sift.Sifted Hint.labels (fun n => n = client.nodeId) cap
    (frontOf s.membershipTable round) hints
  front : frontOf s'.membershipTable round' = (frontOf s.membershipTable round).after
    Hint.labels hints
  leaves : Leaves (hints.foldl Hint.record s.membershipTable) s s'

variable {sem background P client policy skew cap}

theorem Advances.refl (s : NodeState) (round : DiscoveryRound) :
    Advances sem background P client policy skew cap s round [] s round :=
  ⟨by simp, trivial, rfl, Passes.refl s⟩

theorem Advances.append {s s₁ s₂ : NodeState} {round round₁ round₂ : DiscoveryRound}
    {hints hints' : List Hint}
    (h : Advances sem background P client policy skew cap s round hints s₁ round₁)
    (h' : Advances sem background P client policy skew cap s₁ round₁ hints' s₂ round₂) :
    Advances sem background P client policy skew cap s round (hints ++ hints') s₂ round₂ := by
  refine ⟨?_, ?_, ?_, ?_⟩
  · intro x hx
    exact (List.mem_append.mp hx).elim (h.justified x) (h'.justified x)
  · exact Sift.Sifted.append.mpr ⟨h.sifted, h.front ▸ h'.sifted⟩
  · rw [h'.front, h.front, Sift.Front.after, Sift.Front.after, Sift.Front.after, List.foldl_append]
  · have hleaves := h'.leaves
    rw [h.leaves.table, ← List.foldl_append] at hleaves
    exact h.leaves.trans hleaves

theorem Advances.of_passes {s s₁ s' : NodeState} {round round' : DiscoveryRound} {hints : List Hint}
    (hs : Passes s s₁)
    (h : Advances sem background P client policy skew cap s₁ round hints s' round') :
    Advances sem background P client policy skew cap s round hints s' round' := by
  obtain ⟨t, ht, rfl⟩ := hs
  exact ⟨h.justified, h.sifted, h.front, Leaves.trans ⟨t, ht, rfl⟩ h.leaves⟩

/-- The hint stands for its reference at its position in the list of its source. -/
structure Hint.At (source : String) (index : Nat) (ref : MemberRef) (h : Hint) : Prop where
  source : h.source = source
  index : h.index = index
  ref : h.ref = ref

/-- The hints of a member list from a position on. -/
def Listed (source : String) : Nat → List MemberRef → List Hint → Prop
  | _, [], [] => True
  | index, ref :: refs, h :: hints => h.At source index ref ∧ Listed source (index + 1) refs hints
  | _, _, _ => False

def triedUrls (hints : List Hint) : List String :=
  (hints.filter fun h => h.fate.tried).map fun h => h.ref.manifestUrl

theorem triedUrls_append (hints hints' : List Hint) :
    triedUrls (hints ++ hints') = triedUrls hints ++ triedUrls hints' := by
  simp [triedUrls]

variable (sem background P client policy skew cap) in
/-- The loop over a member list, told by its hints. -/
def RefsTold (source : String) (refs : List MemberRef) (index : Nat) (round : DiscoveryRound)
    (s : NodeState) (tr : Trace) (out : DiscoveryRound) (s' : NodeState) : Prop :=
  ∃ hints, Listed source index refs hints ∧ Advances sem background P client policy skew cap s round
    hints s' out ∧
    out.outcomes = hints.foldl Hint.report round.outcomes ∧ Calm (triedUrls hints) [] tr

theorem RefsTold.cons {source : String} {refs : List MemberRef} {h : Hint}
    {round round₁ out : DiscoveryRound} {s s₁ s' : NodeState} {tr tr' : Trace}
    (hsource : h.source = source)
    (hstep : Advances sem background P client policy skew cap s round [h] s₁ round₁)
    (hout : round₁.outcomes = Hint.report round.outcomes h) (hcalm : Calm (triedUrls [h]) [] tr)
    (hrest : RefsTold sem background P client policy skew cap source refs (h.index + 1) round₁
      s₁ tr' out s') :
    RefsTold sem background P client policy skew cap source (h.ref :: refs) h.index round s
      (tr ++ tr') out s' := by
  obtain ⟨hints, hlisted, hadvances, houtcomes, hcalm'⟩ := hrest
  refine ⟨h :: hints, ⟨⟨hsource, rfl, rfl⟩, hlisted⟩, hstep.append hadvances, ?_, ?_⟩
  · rw [houtcomes, hout, List.foldl_cons]
  · have hboth := hcalm.append hcalm'
    rwa [← triedUrls_append] at hboth

theorem Advances.passed {s s₁ : NodeState} {round round₁ : DiscoveryRound}
    {source reason : String} {index : Nat} {ref : MemberRef} (hs : Passes s s₁)
    (hnot : ¬ Sift.Open Hint.labels (fun n => n = client.nodeId) cap
      (frontOf s.membershipTable round) ⟨source, index, ref, .passed reason⟩)
    (hnames : round₁.seenNodeIds = round.seenNodeIds)
    (hplaces : round₁.seenManifestUrls = round.seenManifestUrls) :
    Advances sem background P client policy skew cap s round [⟨source, index, ref, .passed reason⟩]
      s₁ round₁ := by
  refine ⟨fun h hh => ?_, ⟨iff_of_false Bool.false_ne_true hnot, trivial⟩, ?_, hs⟩
  · rw [List.mem_singleton.mp hh]
    trivial
  · rw [hs.leaves.table]
    simp only [frontOf, hnames, hplaces]
    rfl

theorem Advances.attempted {s s₁ : NodeState} {round round₁ : DiscoveryRound} {h : Hint}
    (htried : h.fate.tried = true)
    (hjust : h.fate.Justified sem background P client policy skew h.ref)
    (hs : Leaves (Hint.record s.membershipTable h) s s₁)
    (hopen : Sift.Open Hint.labels (fun n => n = client.nodeId) cap
      (frontOf s.membershipTable round) h)
    (hnames : round₁.seenNodeIds = h.ref.nodeId :: round.seenNodeIds)
    (hplaces : round₁.seenManifestUrls = h.ref.manifestUrl :: round.seenManifestUrls) :
    Advances sem background P client policy skew cap s round [h] s₁ round₁ := by
  refine ⟨fun x hx => List.mem_singleton.mp hx ▸ hjust, ⟨iff_of_true htried hopen, trivial⟩, ?_, hs⟩
  rw [hs.table]
  exact frontOf_next hjust htried hnames hplaces

theorem returns_tableGet (henv : Narrows sem background) (o : Origin) (nodeId : String)
    (s : NodeState) :
    Task.Returns sem background (MembershipTable.get o nodeId) s fun tr rec? s' =>
      Calm [] [] tr ∧ Passes s s' ∧ rec? = s.membershipTable.get nodeId := by
  refine Task.Returns.call (e := (⟨o, .tableGet nodeId⟩ : Call)) ?_
  rintro s₁ hb r s₂ hdoes a rfl
  obtain ⟨t, ht, rfl⟩ := henv.passes _ _ hb
  rcases henv.does _ _ _ _ hdoes with ⟨e, he, _⟩ | ⟨ha, rfl⟩
  · cases he
  · exact ⟨⟨List.nil_sublist _, rfl⟩, ⟨t, ht, rfl⟩, Except.ok.inj ha⟩

theorem processRefs_returns (henv : Narrows sem background) (source : String)
    (refs : List MemberRef) (index : Nat) (round : DiscoveryRound) (s : NodeState) :
    Task.Returns sem background (processRefs P client policy skew cap source refs index round) s
      (RefsTold sem background P client policy skew cap source refs index round s) := by
  induction refs generalizing index round s with
  | nil => exact Task.Returns.pure ⟨[], trivial, .refl s round, rfl, calm_nil⟩
  | cons ref refs ih =>
    rw [processRefs]
    have hpassed : ∀ reason s₁ tr, Passes s s₁ → Calm [] [] tr →
        ¬ Sift.Open Hint.labels (fun n => n = client.nodeId) cap (frontOf s.membershipTable round)
          ⟨source, index, ref, .passed reason⟩ → ∀ outcomes,
        outcomes = Hint.report round.outcomes ⟨source, index, ref, .passed reason⟩ →
        Task.Returns sem background
          (processRefs P client policy skew cap source refs (index + 1)
            { round with outcomes := outcomes }) s₁
          (fun tr' => RefsTold sem background P client policy skew cap source (ref :: refs) index
            round s (tr ++ tr')) := by
      rintro reason s₁ tr hs₁ hcalm hnot _ rfl
      have hstep : Advances sem background P client policy skew cap s round
          [⟨source, index, ref, .passed reason⟩] s₁
          { round with outcomes := Hint.report round.outcomes ⟨source, index, ref,
            .passed reason⟩ } :=
        .passed hs₁ hnot rfl rfl
      exact Task.Returns.mono (ih (index + 1) _ s₁) fun tr' out s' hrest =>
        RefsTold.cons rfl hstep rfl hcalm hrest
    split
    · rename_i hcap
      exact hpassed "per_peer_cap" s [] (Passes.refl s) calm_nil
        (fun h => absurd h.within (not_lt.mpr hcap)) _ rfl
    rename_i hcap
    split
    · rename_i hself
      exact hpassed "self" s [] (Passes.refl s) calm_nil (fun h => h.allowed hself) _ rfl
    rename_i hself
    refine Task.Returns.bind (Task.Returns.mono (returns_tableGet henv .discovery ref.nodeId s) ?_)
    rintro tr rec? s₁ ⟨hcalm, hs₁, hrec⟩
    cases rec? with
    | some rec =>
      exact hpassed "existing_peer" s₁ tr hs₁ hcalm (fun h => h.unknown ⟨rec, hrec.symm⟩) _ rfl
    | none =>
      dsimp only
      split
      · rename_i hseen
        exact hpassed "duplicate" s₁ tr hs₁ hcalm (fun h => hseen.elim h.newName h.newPlace) _ rfl
      rename_i hseen
      refine Task.Returns.bind
        (Task.Returns.mono (processRef_returns henv ref source index round.outcomes s₁) ?_)
      rintro tr' outcomes s₂ ⟨fate, htried, hjust, rfl, hleaves, hcalm'⟩
      refine Task.Returns.mono (ih (index + 1) _ s₂) fun tr'' out s' hrest => ?_
      rw [← List.append_assoc]
      rw [hs₁.leaves.table] at hleaves
      refine RefsTold.cons (h := ⟨source, index, ref, fate⟩) rfl ?_ rfl ?_ hrest
      · refine .attempted htried hjust (hs₁.leaves.trans hleaves)
          ⟨not_le.mp hcap, hself, ?_, ?_, ?_⟩ rfl rfl
        · rintro ⟨rec, hget⟩
          have hget : s.membershipTable.get ref.nodeId = some rec := hget
          rw [hget] at hrec
          cases hrec
        · exact fun h => hseen (.inl h)
        · exact fun h => hseen (.inr h)
      · have hboth := hcalm.append hcalm'
        simpa [triedUrls, htried] using hboth

/-- An eligible member, the manifest cached for it, the answer to its member list
request, and the hints of its list. -/
structure Visit where
  record : MemberRecord
  peer : Option Manifest
  answer : Except Exc Response
  hints : List Hint

namespace Visit

def list (P : Platform) (v : Visit) : Except String (String × List MemberRef) :=
  match v.peer with
  | none => .error "missing_peer_manifest"
  | some peer =>
    match membersOf P peer v.answer with
    | .error exc => .error (discoveryFailureReason exc)
    | .ok members => .ok (peer.nodeId, members.members)

def report (P : Platform) (outcomes : DiscoveryRefreshReport)
    (v : Visit) : DiscoveryRefreshReport :=
  match v.list P with
  | .error reason =>
    outcomes.fail { nodeId := v.record.nodeId, manifestUrl := v.record.manifestUrl,
                    sourceNodeId := v.record.nodeId, reason := reason }
  | .ok _ => v.hints.foldl Hint.report outcomes

def request (v : Visit) : Option (String × Except Exc Response) := v.peer.map fun peer =>
    (peer.nodeId, v.answer)

/-- The hints are those of the list obtained, if any. -/
def Told (P : Platform) (cached : String → Option Manifest) (v : Visit) : Prop :=
  v.peer = cached v.record.nodeId ∧
    match v.list P with
    | .error _ => v.hints = []
    | .ok (source, refs) => Listed source 0 refs v.hints

end Visit

def hintsOf (visits : List Visit) : List Hint := visits.flatMap Visit.hints

variable (sem background P client policy skew cap) in
/-- The loop over the eligible members, told by its visits. -/
def MembersTold (cached : String → Option Manifest) (records : List MemberRecord)
    (round : DiscoveryRound) (s : NodeState) (tr : Trace) (out : DiscoveryRound)
    (s' : NodeState) : Prop :=
  ∃ visits : List Visit, visits.map Visit.record = records ∧ (∀ v ∈ visits, v.Told P cached) ∧
    Advances sem background P client policy skew cap s round (hintsOf visits) s' out ∧
    out.outcomes = visits.foldl (Visit.report P) round.outcomes ∧
    Calm (triedUrls (hintsOf visits)) (visits.filterMap Visit.request) tr

theorem MembersTold.cons {cached : String → Option Manifest}
    {records : List MemberRecord} {v : Visit} {round round₁ out : DiscoveryRound}
    {s s₁ s' : NodeState} {tr tr' : Trace} (htold : v.Told P cached)
    (hstep : Advances sem background P client policy skew cap s round v.hints s₁ round₁)
    (hout : round₁.outcomes = Visit.report P round.outcomes v)
    (hcalm : Calm (triedUrls v.hints) v.request.toList tr)
    (hrest : MembersTold sem background P client policy skew cap cached records round₁
      s₁ tr' out s') :
    MembersTold sem background P client policy skew cap cached (v.record :: records) round s
      (tr ++ tr') out s' := by
  obtain ⟨visits, hrecords, hvisits, hadvances, houtcomes, hcalm'⟩ := hrest
  refine ⟨v :: visits, by rw [List.map_cons, hrecords], List.forall_mem_cons.mpr ⟨htold, hvisits⟩,
    hstep.append hadvances, ?_, ?_⟩
  · rw [houtcomes, hout, List.foldl_cons]
  · have hboth := hcalm.append hcalm'
    rw [← triedUrls_append] at hboth
    have hrequests : (v :: visits).filterMap Visit.request = v.request.toList ++ visits.filterMap
        Visit.request := by
      rw [List.filterMap_cons]
      cases v.request <;> rfl
    rwa [hrequests]

theorem returns_cacheGetAt (henv : Narrows sem background) (o : Origin) (ref : Nat)
    (nodeId : String) (s : NodeState) :
    Task.Returns sem background (PeerManifests.getAt o ref nodeId) s fun tr peer s' =>
      Calm [] [] tr ∧ Passes s s' ∧ peer = if ref = s.cacheRef then s.peerManifests.get nodeId
        else none := by
  refine Task.Returns.call (e := (⟨o, .cacheGetAt ref nodeId⟩ : Call)) ?_
  rintro s₁ hb r s₂ hdoes peer ⟨⟩
  obtain ⟨t, ht, rfl⟩ := henv.passes _ _ hb
  obtain ⟨hr, rfl⟩ := henv.does _ _ _ _ hdoes
  exact ⟨⟨List.nil_sublist _, rfl⟩, ⟨t, ht, rfl⟩, hr⟩

theorem yields_getMembers (henv : Narrows sem background) (o : Origin) (peer : Manifest)
    (since : Option String) (s : NodeState) :
    Task.Yields sem background (getMembers P o peer since).run s fun tr r s' =>
      ∃ answer, r = membersOf P peer answer ∧ Calm [] [(peer.nodeId, answer)] tr ∧ Passes s s' := by
  rw [getMembers_run]
  refine Task.Yields.call fun s₁ hb answer s₂ hdoes =>
    Task.Yields.done ⟨answer, rfl, ⟨List.nil_sublist _, rfl⟩, ?_⟩
  have hsame := Does.eq_of_quiet (c := ⟨o, .httpRequest _ _ _ _⟩) trivial (henv.does _ _ _ _ hdoes)
  exact hsame ▸ henv.passes _ _ hb

theorem processMembers_returns (henv : Narrows sem background) (ref : Nat) (since : Option String)
    (records : List MemberRecord) (round : DiscoveryRound) (s : NodeState) :
    Task.Returns sem background (processMembers P client policy skew ref cap since records round) s
      (MembersTold sem background P client policy skew cap
        (fun n => if ref = s.cacheRef then s.peerManifests.get n else none) records round s) := by
  induction records generalizing round s with
  | nil => exact Task.Returns.pure ⟨[], rfl, by simp, .refl s round, rfl, calm_nil⟩
  | cons rec records ih =>
    rw [processMembers]
    refine Task.Returns.bind
      (Task.Returns.mono (returns_cacheGetAt henv .discovery ref rec.nodeId s) ?_)
    rintro tr peer s₁ ⟨hcalm, hs₁, hpeer⟩
    have hfailed : ∀ (v : Visit) reason tr' s₂, v.record = rec → v.list P = .error reason →
        v.hints = [] →
        v.peer = peer → Calm [] v.request.toList tr' → Passes s s₂ → Task.Returns sem background
          (processMembers P client policy skew ref cap since records
            { round with outcomes := Visit.report P round.outcomes v }) s₂
          (fun tr'' => MembersTold sem background P client policy skew cap
            (fun n => if ref = s.cacheRef then s.peerManifests.get n else none) (rec :: records)
            round s (tr' ++ tr'')) := by
      rintro v reason tr' s₂ rfl hlist hhints hvisited hcalm' hs₂
      have hstep : Advances sem background P client policy skew cap s round v.hints s₂
          { round with outcomes := Visit.report P round.outcomes v } := by
        rw [hhints]
        exact ⟨by simp, trivial, by rw [hs₂.leaves.table]; rfl, hs₂⟩
      have htold : v.Told P fun n => if ref = s.cacheRef then s.peerManifests.get n else none := by
        refine ⟨hvisited.trans hpeer, ?_⟩
        rw [hlist]
        exact hhints
      refine Task.Returns.mono (ih _ s₂) fun tr'' out s' hrest =>
        MembersTold.cons htold hstep rfl ?_ ?_
      · rw [hhints]
        exact hcalm'
      · obtain ⟨t, _, rfl⟩ := hs₂
        exact hrest
    cases peer with
    | none => exact hfailed ⟨rec, none, .error .timeoutError, []⟩ _ tr s₁ rfl rfl rfl rfl hcalm hs₁
    | some peer =>
      refine Task.Returns.bind
        (Task.Returns.attempt (Task.Yields.mono
          (yields_getMembers henv .discovery peer since s₁) ?_))
      rintro tr' r s₂ ⟨answer, rfl, hcalm', hs₂⟩
      have hasked := hcalm.append hcalm'
      cases hmembers : membersOf P peer answer with
      | error exc =>
        have hlist : (⟨rec, some peer, answer, []⟩ : Visit).list P =
            .error (discoveryFailureReason exc) := by
          simp only [Visit.list, hmembers]
        have hreport : Visit.report P round.outcomes ⟨rec, some peer, answer, []⟩ =
            round.outcomes.fail
            { nodeId := rec.nodeId, manifestUrl := rec.manifestUrl, sourceNodeId := rec.nodeId,
              reason := discoveryFailureReason exc } := by
          simp only [Visit.report, hlist]
        have hrest := hfailed ⟨rec, some peer, answer, []⟩ _ (tr ++ tr') s₂ rfl hlist rfl rfl hasked
          (hs₁.trans hs₂)
        rw [hreport] at hrest
        refine Task.Returns.mono hrest fun tr'' out s' h => ?_
        rwa [List.append_assoc] at h
      | ok members =>
        refine Task.Returns.bind (Task.Returns.mono
          (processRefs_returns henv peer.nodeId members.members 0 round s₂) ?_)
        rintro tr₃ round₁ s₃ ⟨hints, hlisted, hadvances, houtcomes, hcalm₃⟩
        have hlist : (⟨rec, some peer, answer, hints⟩ : Visit).list P =
            .ok (peer.nodeId, members.members) := by
          simp only [Visit.list, hmembers]
        refine Task.Returns.mono (ih round₁ s₃) fun tr₄ out s' hrest => ?_
        rw [← List.append_assoc, ← List.append_assoc]
        have hstep := hadvances.of_passes (hs₁.trans hs₂)
        have hcached : (fun n => if ref = s.cacheRef then s.peerManifests.get n else none) =
            fun n => if ref = s₃.cacheRef then s₃.peerManifests.get n else none := by
          obtain ⟨t, _, rfl⟩ := hstep.leaves
          rfl
        refine MembersTold.cons (v := ⟨rec, some peer, answer, hints⟩) ⟨hpeer, ?_⟩ hstep ?_ ?_
          (hcached ▸ hrest)
        · rw [hlist]
          exact hlisted
        · rw [houtcomes, Visit.report, hlist]
        · have hall := hasked.append hcalm₃
          rwa [List.append_assoc] at hall

variable (sem background P client policy skew cap) in
/-- A round of discovery, told by its visits. -/
structure RoundTold (ref : Nat) (s : NodeState) (tr : Trace) (report : DiscoveryRefreshReport)
    (s' : NodeState) (visits : List Visit) : Prop where
  eligible : ∃ now : DateTime, s.clock.instant ≤ now.instant ∧ now.instant ≤ s'.clock.instant ∧
    visits.map Visit.record = s.membershipTable.entries.filter (fun rec => rec.isEligible now)
  visited : ∀ v ∈ visits, v.Told P fun n => if ref = s.cacheRef then s.peerManifests.get n else none
  justified : ∀ h ∈ hintsOf visits, h.fate.Justified sem background P client policy skew h.ref
  sifted : Sift.Sifted Hint.labels (fun n => n = client.nodeId) cap (frontOf s.membershipTable {})
    (hintsOf visits)
  leaves : Leaves ((hintsOf visits).foldl Hint.record s.membershipTable) s s'
  report : report = visits.foldl (Visit.report P) {}
  calm : Calm (triedUrls (hintsOf visits)) (visits.filterMap Visit.request) tr

theorem refreshDiscoveredMembers_returns (henv : Narrows sem background) (ref : Nat)
    (since : Option String) (s : NodeState) :
    Task.Returns sem background (refreshDiscoveredMembers P client policy skew ref cap since) s
      fun tr report s' => ∃ visits, RoundTold sem background P client policy skew cap ref s tr
      report s' visits := by
  refine Task.Returns.bind
    (Task.Returns.bind (Task.Returns.call (e := (⟨.discovery, .utcNow⟩ : Call)) ?_))
  rintro s₁ hb now s₂ hdoes _ ⟨⟩
  obtain ⟨t, ht, rfl⟩ := henv.passes _ _ hb
  obtain ⟨hnow, rfl⟩ := henv.does _ _ _ _ hdoes
  refine Task.Returns.bind (Task.Returns.call (e := (⟨.discovery, .tableValues⟩ : Call)) ?_)
  rintro s₃ hb₃ values s₄ hdoes₃ records rfl
  obtain ⟨t', ht', rfl⟩ := henv.passes _ _ hb₃
  rcases henv.does _ _ _ _ hdoes₃ with ⟨e, he, _⟩ | ⟨hrecords, rfl⟩
  · cases he
  refine Task.Returns.pure
    (Task.Returns.bind (Task.Returns.mono (processMembers_returns henv ref since _ {} _) ?_))
  rintro tr round s' ⟨visits, hvisited, htold, hadvances, houtcomes, hcalm⟩
  have hleaves := hadvances.leaves
  have hlater : t'.instant ≤ s'.clock.instant := by
    obtain ⟨t'', ht'', rfl⟩ := hleaves
    exact ht''
  refine Task.Returns.pure ⟨visits, ⟨now, ?_, ?_, ?_⟩, htold, hadvances.justified, hadvances.sifted,
    ?_, houtcomes, ?_⟩
  · rw [hnow]
    exact ht
  · rw [hnow]
    exact Int.le_trans ht' hlater
  · rw [hvisited, Except.ok.inj hrecords]
  · exact Leaves.trans (Passes.leaves ⟨t', Int.le_trans ht ht', rfl⟩) hleaves
  · simp only [List.append_nil]
    exact hcalm

end Run

end Federlet
