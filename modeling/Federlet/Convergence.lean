import Federlet.Alone
import Federlet.Hints

/-! Successive rounds of discovery. What a round records stays recorded, and a
reference is taken within the cap or not at all: so a list longer than the cap is
never taken in to its end, whatever the number of rounds. -/

namespace Federlet

open Coop

def Recorded (n : String) (s : NodeState) : Prop := ∃ rec, s.membershipTable.get n = some rec

theorem not_recorded_iff {n : String} {s : NodeState} :
    ¬ Recorded n s ↔ s.membershipTable.get n = none := by
  rw [Recorded, Option.eq_none_iff_forall_ne_some]
  exact not_exists

section Lists

theorem Listed.of_mem {source : String} {index : Nat} {refs : List MemberRef} {hints : List Hint}
    (h : Listed source index refs hints) {x : Hint} (hx : x ∈ hints) :
    x.source = source ∧ ∃ i, x.index = index + i ∧ hints[i]? = some x ∧ refs[i]? = some x.ref := by
  induction refs generalizing index hints with
  | nil =>
    cases hints with
    | nil => cases hx
    | cons y hints => exact h.elim
  | cons ref refs ih =>
    cases hints with
    | nil => cases hx
    | cons y hints =>
      obtain ⟨⟨hsource, hindex, href⟩, hrest⟩ := h
      rcases List.mem_cons.mp hx with rfl | hmem
      · exact ⟨hsource, 0, hindex, rfl, by simp [href]⟩
      · obtain ⟨hsource', i, hi, hget, href'⟩ := ih hrest hmem
        exact ⟨hsource', i + 1, by omega, by simpa using hget, by simpa using href'⟩

theorem Listed.of_getElem? {source : String} {index : Nat} {refs : List MemberRef}
    {hints : List Hint} (h : Listed source index refs hints) {i : Nat} {ref : MemberRef}
    (hi : refs[i]? = some ref) :
    ∃ x ∈ hints, x.At source (index + i) ref := by
  induction refs generalizing index hints i with
  | nil => simp at hi
  | cons r refs ih =>
    cases hints with
    | nil => exact h.elim
    | cons y hints =>
      obtain ⟨hat, hrest⟩ := h
      cases i with
      | zero =>
        obtain rfl : r = ref := by simpa using hi
        exact ⟨y, List.mem_cons_self, hat⟩
      | succ i =>
        obtain ⟨x, hx, hat'⟩ := ih hrest (by simpa using hi)
        have hshift : index + 1 + i = index + (i + 1) := by omega
        exact ⟨x, List.mem_cons_of_mem _ hx, hshift ▸ hat'⟩

theorem eq_of_nodup_map {α β : Type} {f : α → β} {l : List α} (h : (l.map f).Nodup)
    {i j : Nat} {a b : α} (ha : l[i]? = some a) (hb : l[j]? = some b) (hab : f a = f b) :
    i = j := by
  have hi : (l.map f)[i]? = some (f a) := by simp [ha]
  have hj : (l.map f)[j]? = some (f a) := by simp [hb, hab]
  have hlt : i < (l.map f).length := (List.getElem?_eq_some_iff.mp hi).1
  exact (List.getElem?_inj hlt h).mp (hi.trans hj.symm)

end Lists

section Rounds

variable (sem : Sem Call Resp NodeState) (background : NodeState → NodeState → Prop) (P : Platform)
  (node : FederationNode) (skew cap : Int) (since : Option String)

/-- Successive calls of `discover`, each with the answers to its requests. -/
inductive Rounds : NodeState → List (List (String × Except Exc Response)) → NodeState → Prop where
  | nil (s : NodeState) : Rounds s [] s
  | cons {s s₁ s₂ s' : NodeState} {tr : Trace} {report : DiscoveryRefreshReport}
      {answers : List (List (String × Except Exc Response))} (hidle : background s s₁)
      (hround : Task.Runs sem background (node.discover P skew cap since).run s₁ tr (.ok report) s₂)
      (hrest : Rounds s₂ answers s') : Rounds s (tr.filterMap asked :: answers) s'

/-- The same calls, told by their visits. -/
inductive RoundsTold : NodeState → List (List Visit) → NodeState → Prop where
  | nil (s : NodeState) : RoundsTold s [] s
  | cons {s s₁ s₂ s' : NodeState} {tr : Trace} {report : DiscoveryRefreshReport}
      {visits : List Visit} {rounds : List (List Visit)}
      (hround : RoundTold sem background P node.client node.admissionPolicy skew cap s.cacheRef s tr
        report s₁ visits)
      (hremembers : Passes (s₁.rememberAll node
        (report.accepted.filterMap DiscoveryOutcome.manifest)) s₂)
      (hrest : RoundsTold s₂ rounds s') : RoundsTold s (visits :: rounds) s'

variable {sem background P node skew cap since}

theorem Rounds.told (henv : Narrows sem background) {s s' : NodeState}
    {answers : List (List (String × Except Exc Response))}
    (h : Rounds sem background P node skew cap since s answers s') :
    ∃ rounds, RoundsTold sem background P node skew cap s rounds s' ∧
      answers = rounds.map (List.filterMap Visit.request) := by
  induction h with
  | nil s => exact ⟨[], .nil s, rfl⟩
  | @cons s s₁ s₂ s' tr report answers hidle hround hrest ih =>
    obtain ⟨rounds, htold, rfl⟩ := ih
    obtain ⟨visits, tr', s₃, hvisits, hasked, hremembers⟩ :=
      discover_returns henv skew cap since s₁ tr _ s₂ hround _ rfl
    have hidles := henv.passes _ _ hidle
    have href : s₁.cacheRef = s.cacheRef := by
      obtain ⟨t, _, rfl⟩ := hidles
      rfl
    rw [href] at hvisits
    have hrequests := hvisits.calm.2
    exact ⟨visits :: rounds, .cons (hvisits.of_passes hidles) hremembers htold,
      by simp [hasked, hrequests]⟩

theorem manifests_of_hints {client : FederationClient} {policy : AdmissionPolicy}
    {hints : List Hint}
    (hjust : ∀ h ∈ hints, h.fate.Justified sem background P client policy skew h.ref) :
    ((inBucket .accepted (hints.map Hint.entry)).filterMap DiscoveryOutcome.manifest).map
      Manifest.nodeId = (hints.filterMap Hint.gained).map MemberRecord.nodeId := by
  induction hints with
  | nil => rfl
  | cons x hints ih =>
    obtain ⟨hhead, hrest⟩ := List.forall_mem_cons.mp hjust
    have hsame := ih hrest
    obtain ⟨source, index, ref, fate⟩ := x
    cases fate
    case accepted manifest rec =>
      have hnode : manifest.nodeId = rec.nodeId := by
        obtain ⟨_, _, _, now, hrec⟩ := hhead
        rw [hrec]
        rfl
      exact congrArg₂ List.cons hnode hsame
    all_goals exact hsame

theorem gained_active {client : FederationClient} {policy : AdmissionPolicy} {hints : List Hint}
    (hjust : ∀ h ∈ hints, h.fate.Justified sem background P client policy skew h.ref)
    {rec : MemberRecord} (hrec : rec ∈ hints.filterMap Hint.gained) : rec.state = .active := by
  obtain ⟨x, hx, hgain⟩ := List.mem_filterMap.mp hrec
  have hfate := hjust x hx
  obtain ⟨source, index, ref, fate⟩ := x
  cases fate
  case accepted manifest rec' =>
    obtain rfl : rec' = rec := Option.some.inj hgain
    exact (Fate.Justified.recordOf hfate).2.2.1
  all_goals cases hgain

section Round

variable {s s₁ s₂ : NodeState} {tr : Trace} {report : DiscoveryRefreshReport} {visits : List Visit}
  (h : RoundTold sem background P node.client node.admissionPolicy skew cap s.cacheRef s tr
    report s₁ visits)
  (hremembers : Passes (s₁.rememberAll node (report.accepted.filterMap DiscoveryOutcome.manifest))
    s₂)

include h

theorem RoundTold.entries :
    s₁.membershipTable.entries = s.membershipTable.entries ++ (hintsOf visits).filterMap
      Hint.gained := by
  rw [h.leaves.table, entries_of_hints h.justified h.sifted]

theorem RoundTold.manifests :
    (report.accepted.filterMap DiscoveryOutcome.manifest).map Manifest.nodeId =
    ((hintsOf visits).filterMap Hint.gained).map MemberRecord.nodeId := by
  have haccepted : report.accepted = inBucket .accepted ((hintsOf visits).map Hint.entry) := by
    have hof := of_visits P {} visits .accepted
    rw [← h.report, inBucket_accepted_entries h.visited] at hof
    exact hof
  rw [haccepted, manifests_of_hints h.justified]

theorem RoundTold.kept {n : String} {rec : MemberRecord}
    (hrec : s.membershipTable.get n = some rec) :
    s₁.membershipTable.get n = some rec := by
  obtain ⟨hmem, hnode⟩ := Keyed.get_eq_some_iff.mp hrec
  have hentries := h.entries
  have hmem' : rec ∈ s₁.membershipTable.entries := by simp [hentries, hmem]
  exact Keyed.get_eq_some_iff.mpr ⟨hmem', hnode⟩

theorem RoundTold.not_remembered {n : String} (hrec : Recorded n s) :
    ∀ m ∈ report.accepted.filterMap DiscoveryOutcome.manifest, m.nodeId ≠ n := by
  intro m hm he
  obtain ⟨rec, hrec⟩ := hrec
  have hgained : n ∈ ((hintsOf visits).filterMap Hint.gained).map MemberRecord.nodeId := by
    rw [← h.manifests, ← he]
    exact List.mem_map_of_mem hm
  have hold : n ∈ s.membershipTable.entries.map MemberRecord.nodeId := by
    obtain ⟨hmem, hnode⟩ := Keyed.get_eq_some_iff.mp hrec
    exact hnode ▸ List.mem_map_of_mem hmem
  have hnodup := s₁.membershipTable.nodup
  rw [h.entries, List.map_append] at hnodup
  exact List.disjoint_of_nodup_append hnodup hold hgained

theorem RoundTold.source_of_mem {x : Hint} (hx : x ∈ hintsOf visits) :
    ∃ v ∈ visits, x ∈ v.hints ∧ x.source = v.record.nodeId := by
  obtain ⟨v, hv, hmem⟩ := List.mem_flatMap.mp hx
  obtain ⟨hpeer, hlist⟩ := h.visited v hv
  have hcached : ∀ peer, v.peer = some peer → peer.nodeId = v.record.nodeId := by
    intro peer hp
    rw [hp] at hpeer
    simp only [↓reduceIte] at hpeer
    exact Keyed.key_of_get hpeer.symm
  cases he : v.list P with
  | error reason =>
    rw [he] at hlist
    rw [hlist] at hmem
    cases hmem
  | ok list =>
    obtain ⟨source, refs⟩ := list
    rw [he] at hlist
    have hsource := (hlist.of_mem hmem).1
    have hfrom : source = v.record.nodeId := by
      rw [Visit.list] at he
      cases hp : v.peer with
      | none => simp [hp] at he
      | some peer =>
        cases hm : membersOf P peer v.answer with
        | error e => simp [hp, hm] at he
        | ok members =>
          simp only [hp, hm, Except.ok.injEq, Prod.mk.injEq] at he
          rw [← he.1, hcached peer hp]
    exact ⟨v, hv, hmem, hsource.trans hfrom⟩

theorem RoundTold.records_nodup : (visits.map fun v => v.record.nodeId).Nodup := by
  obtain ⟨now, _, _, hrecords⟩ := h.eligible
  have hmap : (visits.map fun v => v.record.nodeId) = (visits.map Visit.record).map
      MemberRecord.nodeId := by simp
  rw [hmap, hrecords]
  exact s.membershipTable.nodup.sublist (List.filter_sublist.map _)

theorem RoundTold.visit_of_answers {rec : MemberRecord} {peer : Manifest} {refs : List MemberRef}
    (hrec : s.membershipTable.get peer.nodeId = some rec)
    (heligible : ∀ now : DateTime, s.clock.instant ≤ now.instant → now.instant ≤ s₁.clock.instant →
      rec.isEligible now = true)
    (hpeer : s.peerManifests.get peer.nodeId = some peer)
    (hanswers : ∀ a, (peer.nodeId, a) ∈ visits.filterMap Visit.request →
      ∃ resp, membersOf P peer a = .ok resp ∧ resp.members = refs) :
    ∃ v ∈ visits, v.record = rec ∧ Listed peer.nodeId 0 refs v.hints := by
  obtain ⟨now, hfrom, hbefore, hrecords⟩ := h.eligible
  obtain ⟨hmem, hnode⟩ := Keyed.get_eq_some_iff.mp hrec
  have hvisited : rec ∈ visits.map Visit.record := by
    rw [hrecords]
    exact List.mem_filter.mpr ⟨hmem, heligible now hfrom hbefore⟩
  obtain ⟨v, hv, rfl⟩ := List.mem_map.mp hvisited
  obtain ⟨hcached, hlist⟩ := h.visited v hv
  have hp : v.peer = some peer := by
    rw [hcached, hnode]
    simp [hpeer]
  have hrequest : (peer.nodeId, v.answer) ∈ visits.filterMap Visit.request :=
    List.mem_filterMap.mpr ⟨v, hv, by simp [Visit.request, hp]⟩
  obtain ⟨resp, hresp, rfl⟩ := hanswers _ hrequest
  have hlisted : v.list P = .ok (peer.nodeId, resp.members) := by simp [Visit.list, hp, hresp]
  rw [hlisted] at hlist
  exact ⟨v, hv, rfl, hlist⟩

theorem RoundTold.clock_le : s.clock.instant ≤ s₁.clock.instant := by
  obtain ⟨t, ht, rfl⟩ := h.leaves
  exact ht

include hremembers

omit h in
theorem remembered_clock_le : s₁.clock.instant ≤ s₂.clock.instant := by
  obtain ⟨t, ht, rfl⟩ := hremembers
  rwa [(timeless_rememberAll node _).clock] at ht

theorem RoundTold.recorded_after {n : String} :
    Recorded n s₂ ↔ Recorded n s ∨ ∃ x ∈ hintsOf visits, x.fate.taken = true ∧
      x.ref.nodeId = n := by
  rw [Recorded, remembered_table hremembers]
  by_cases hold : Recorded n s
  · obtain ⟨rec, hrec⟩ := hold
    have hkept := h.kept hrec
    exact iff_of_true ⟨rec, hkept⟩ (.inl ⟨rec, hrec⟩)
  · have hholds := h.holds_iff (not_recorded_iff.mp hold)
    rw [← hholds]
    constructor
    · rintro ⟨rec, hrec⟩
      have hgained : rec ∈ (hintsOf visits).filterMap Hint.gained := by
        have hmem := (Keyed.get_eq_some_iff.mp hrec).1
        rw [h.entries] at hmem
        rcases List.mem_append.mp hmem with hmem | hmem
        · have hget := Keyed.get_eq_some_iff.mpr ⟨hmem, (Keyed.get_eq_some_iff.mp hrec).2⟩
          exact absurd ⟨rec, hget⟩ hold
        · exact hmem
      exact .inr ⟨rec, hrec, gained_active h.justified hgained⟩
    · rintro (hrec | ⟨rec, hrec, _⟩)
      · exact absurd hrec hold
      · exact ⟨rec, hrec⟩

theorem RoundTold.cached_after {n : String} (hrec : Recorded n s) :
    s₂.peerManifests.get n = s.peerManifests.get n := by
  have hkept : (s₁.rememberAll node _).peerManifests.get n = _ :=
    rememberAll_get (h.not_remembered hrec) s₁
  obtain ⟨t, _, rfl⟩ := h.leaves
  obtain ⟨t', _, rfl⟩ := hremembers
  exact hkept

end Round

variable {s s' : NodeState} {rounds : List (List Visit)}

theorem RoundsTold.recorded_iff (h : RoundsTold sem background P node skew cap s rounds s')
    {n : String} :
    Recorded n s' ↔ Recorded n s ∨
      ∃ visits ∈ rounds, ∃ x ∈ hintsOf visits, x.fate.taken = true ∧ x.ref.nodeId = n := by
  induction h with
  | nil s => simp
  | cons hround hremembers hrest ih =>
    rw [ih, hround.recorded_after hremembers, or_assoc]
    simp

theorem RoundsTold.clock_le (h : RoundsTold sem background P node skew cap s rounds s') :
    s.clock.instant ≤ s'.clock.instant := by
  induction h with
  | nil s => exact le_rfl
  | cons hround hremembers _ ih =>
    exact hround.clock_le.trans ((remembered_clock_le hremembers).trans ih)

theorem RoundsTold.round_of_mem (h : RoundsTold sem background P node skew cap s rounds s')
    {visits : List Visit} (hv : visits ∈ rounds) : ∃ s₀ tr report s₁,
      RoundTold sem background P node.client node.admissionPolicy skew cap s₀.cacheRef s₀ tr
        report s₁ visits ∧
      s.clock.instant ≤ s₀.clock.instant ∧ s₁.clock.instant ≤ s'.clock.instant ∧
      (∀ n rec, s.membershipTable.get n = some rec →
        s₀.membershipTable.get n = some rec ∧ s₀.peerManifests.get n = s.peerManifests.get n) ∧
      ∀ n, Recorded n s₁ → Recorded n s' := by
  induction h with
  | nil s => cases hv
  | @cons s s₁ s₂ s' tr report visits' rounds hround hremembers hrest ih =>
    have htable := remembered_table hremembers
    rcases List.mem_cons.mp hv with rfl | hmem
    · have hlater : ∀ n, Recorded n s₁ → Recorded n s' := by
        intro n hn
        rw [Recorded, ← htable] at hn
        exact hrest.recorded_iff.mpr (.inl hn)
      exact ⟨s, tr, report, s₁, hround, Int.le_refl _, (remembered_clock_le hremembers).trans
        hrest.clock_le,
        fun n rec hrec => ⟨hrec, rfl⟩, hlater⟩
    · obtain ⟨s₀, tr', report', s₃, hround', hclock, hend, hkept, hlater⟩ := ih hmem
      have hbefore : s.clock.instant ≤ s₂.clock.instant :=
        hround.clock_le.trans (remembered_clock_le hremembers)
      have hstill : ∀ n rec, s.membershipTable.get n = some rec →
          s₀.membershipTable.get n = some rec ∧ s₀.peerManifests.get n = s.peerManifests.get n := by
        intro n rec hrec
        have hrec₂ : s₂.membershipTable.get n = some rec := htable ▸ hround.kept hrec
        obtain ⟨hrec₀, hcached⟩ := hkept n rec hrec₂
        exact ⟨hrec₀, hcached.trans (hround.cached_after hremembers ⟨rec, hrec⟩)⟩
      exact ⟨s₀, tr', report', s₃, hround', Int.le_trans hbefore hclock, hend, hstill, hlater⟩

/-- In some round no list but the peer's own leads to this node or to this URL. -/
def Uncontested (peer : Manifest) (rounds : List (List Visit)) (ref : MemberRef) : Prop :=
  ∃ visits ∈ rounds, ∀ x ∈ hintsOf visits, x.fate.tried = true → x.source ≠ peer.nodeId →
    x.ref.nodeId ≠ ref.nodeId ∧ x.ref.manifestUrl ≠ ref.manifestUrl

/-- However many rounds are made, a peer's list is taken in up to the cap: a
reference below it gets in as soon as no other list stands in its way, and one
above it only through another list. -/
theorem capped_list_converges (henv : Narrows sem background)
    {answers : List (List (String × Except Exc Response))}
    (hrounds : Rounds sem background P node skew cap since s answers s') {rec : MemberRecord}
    {peer : Manifest} {refs : List MemberRef} (hrec : s.membershipTable.get peer.nodeId = some rec)
    (heligible : ∀ now : DateTime, s.clock.instant ≤ now.instant → now.instant ≤ s'.clock.instant →
      rec.isEligible now = true)
    (hpeer : s.peerManifests.get peer.nodeId = some peer)
    (hanswers : ∀ round ∈ answers, ∀ a, (peer.nodeId, a) ∈ round →
      ∃ resp, membersOf P peer a = .ok resp ∧ resp.members = refs)
    (hnodes : (refs.map MemberRef.nodeId).Nodup) (hurls : (refs.map MemberRef.manifestUrl).Nodup) :
    ∃ rounds, RoundsTold sem background P node skew cap s rounds s' ∧
      answers = rounds.map (List.filterMap Visit.request) ∧ ∀ (i : Nat) ref, refs[i]? = some ref →
        ((i : Int) < cap → ref.nodeId ≠ node.nodeId →
          ServesAdmissible sem background P node.client node.admissionPolicy skew ref →
          Uncontested peer rounds ref → Recorded ref.nodeId s') ∧
        (cap ≤ i → Recorded ref.nodeId s' → Recorded ref.nodeId s ∨
          ∃ visits ∈ rounds, ∃ x ∈ hintsOf visits,
          x.fate.taken = true ∧ x.ref.nodeId = ref.nodeId ∧ x.source ≠ peer.nodeId) := by
  obtain ⟨rounds, htold, rfl⟩ := hrounds.told henv
  -- what a round says of the peer's list
  have hlists : ∀ visits ∈ rounds, ∃ s₀ tr report s₁,
      RoundTold sem background P node.client node.admissionPolicy skew cap s₀.cacheRef s₀ tr
        report s₁ visits ∧
      (∀ n, Recorded n s₁ → Recorded n s') ∧ ∃ v ∈ visits, Listed peer.nodeId 0 refs v.hints ∧
        ∀ x ∈ hintsOf visits, x.source = peer.nodeId → x ∈ v.hints := by
    intro visits hvisits
    obtain ⟨s₀, tr, report, s₁, hround, hclock, hend, hkept, hlater⟩ := htold.round_of_mem hvisits
    obtain ⟨hrec₀, hcached⟩ := hkept _ _ hrec
    have heligible₀ : ∀ now : DateTime, s₀.clock.instant ≤ now.instant →
        now.instant ≤ s₁.clock.instant →
        rec.isEligible now = true := fun now hfrom hto => heligible now (hclock.trans hfrom)
          (hto.trans hend)
    obtain ⟨v, hv, hrecord, hlisted⟩ :=
      hround.visit_of_answers hrec₀ heligible₀ (hcached.trans hpeer)
      (hanswers _ (List.mem_map_of_mem hvisits))
    refine ⟨s₀, tr, report, s₁, hround, hlater, v, hv, hlisted, fun x hx hsource => ?_⟩
    obtain ⟨w, hw, hmem, hfrom⟩ := hround.source_of_mem hx
    have hsame : w.record.nodeId = v.record.nodeId := by
      rw [← hfrom, hsource, hrecord]
      exact (Keyed.key_of_get hrec).symm
    have heq : w = v := List.inj_on_of_nodup_map hround.records_nodup hw hv hsame
    exact heq ▸ hmem
  refine ⟨rounds, htold, rfl, fun i ref hi =>
    ⟨fun hcap hself hgood hfree => ?_, fun hcap hin => ?_⟩⟩
  · obtain ⟨visits, hvisits, hothers⟩ := hfree
    obtain ⟨s₀, tr, report, s₁, hround, hlater, v, hv, hlisted, hown⟩ := hlists visits hvisits
    obtain ⟨h, hh, hsource, hindex, rfl⟩ := hlisted.of_getElem? hi
    have hmem : h ∈ hintsOf visits := List.mem_flatMap.mpr ⟨v, hv, hh⟩
    by_cases hold : Recorded h.ref.nodeId s₀
    · obtain ⟨rec₀, hrec₀⟩ := hold
      exact hlater _ ⟨rec₀, hround.kept hrec₀⟩
    · obtain ⟨before, after, hsplit, hfirst⟩ := List.eq_append_cons_of_mem hmem
      have hopen : Unobstructed (hintsOf visits) h := by
        refine ⟨before, after, hsplit, fun x hx htried => ?_⟩
        have hxmem : x ∈ hintsOf visits := by simp [hsplit, hx]
        by_cases hsame : x.source = peer.nodeId
        · -- two hints of the same list: they stand at different positions
          obtain ⟨_, j, hj, hget, href⟩ := hlisted.of_mem (hown x hxmem hsame)
          obtain ⟨_, k, hk, hget', href'⟩ := hlisted.of_mem hh
          have hne : j ≠ k := by
            rintro rfl
            have hxh : x = h := Option.some.inj (hget.symm.trans hget')
            exact hfirst (hxh ▸ hx)
          exact ⟨fun he => hne (eq_of_nodup_map hnodes href href' he),
            fun he => hne (eq_of_nodup_map hurls href href' he)⟩
        · exact hothers x hxmem htried hsame
      have hwithin : (h.index : Int) < cap := by omega
      obtain ⟨rec₁, hrec₁, _⟩ := hround.holds_of_unobstructed hopen hwithin hself
        (not_recorded_iff.mp hold) hgood
      exact hlater _ ⟨rec₁, hrec₁⟩
  · rcases htold.recorded_iff.mp hin with hold | ⟨visits, hvisits, x, hx, htaken, hnode⟩
    · exact .inl hold
    · obtain ⟨s₀, tr, report, s₁, hround, _, v, hv, hlisted, hown⟩ := hlists visits hvisits
      refine .inr ⟨visits, hvisits, x, hx, htaken, hnode, fun hsource => ?_⟩
      obtain ⟨_, j, hj, _, href⟩ := hlisted.of_mem (hown x hx hsource)
      have hpos : j = i := eq_of_nodup_map hnodes href hi hnode
      have hwithin := (hround.unobstructed_of_taken hx htaken).1
      omega

end Rounds

section Sample

variable (P : Platform) (env : Env) (node : FederationNode) (skew cap : Int) (since : Option String)

def playRounds : Nat → NodeState → Option (List (List (String × Except Exc Response)) × NodeState)
  | 0, s => some ([], s)
  | k + 1, s =>
    let round := (node.discover P skew cap since).run
    match round.eval env.handle s with
    | (.error _, _) => none
    | (.ok _, s₁) =>
      (playRounds k s₁).map fun rest =>
        ((round.trace env.handle s).filterMap asked :: rest.1, rest.2)

variable {P env node skew cap since}

theorem Env.eval_clock {α : Type} (t : Coop.Task Call Resp α) (s : NodeState) :
    (t.eval env.handle s).2.clock = s.clock := by
  induction t generalizing s with
  | done a => rfl
  | call c k ih => exact (ih _ _).trans (env.handle_clock c s)
  | acquire k ih => exact ih s
  | release k ih => exact ih s

theorem playRounds_rounds {k : Nat} {s s' : NodeState}
    {answers : List (List (String × Except Exc Response))}
    (h : playRounds P env node skew cap since k s = some (answers, s')) :
    Rounds (frozen env s.clock) Eq P node skew cap since s answers s' ∧ answers.length = k := by
  induction k generalizing s answers with
  | zero =>
    obtain ⟨rfl, rfl⟩ := Prod.mk.inj (Option.some.inj h)
    exact ⟨.nil s, rfl⟩
  | succ k ih =>
    have hrun : Task.Runs (frozen env s.clock) Eq _ s _ _ _ :=
      frozen_runs (node.discover P skew cap since).run rfl
    have hclock := @Env.eval_clock env _ (node.discover P skew cap since).run s
    rw [playRounds] at h
    cases he : (node.discover P skew cap since).run.eval env.handle s with
    | mk r s₁ =>
      rw [he] at h hrun hclock
      cases r with
      | error e => cases h
      | ok report =>
        obtain ⟨⟨answers', s₂⟩, hrest, hboth⟩ := Option.map_eq_some_iff.mp h
        obtain ⟨rfl, rfl⟩ := Prod.mk.inj hboth
        have hclock : s₁.clock = s.clock := hclock
        obtain ⟨hrounds, hlength⟩ := ih hrest
        rw [hclock] at hrounds
        exact ⟨.cons rfl hrun hrounds, congrArg Nat.succ hlength⟩

variable (P) in
def answersWith (peer : Manifest) (refs : List MemberRef)
    (answers : List (List (String × Except Exc Response))) :
    Bool :=
  answers.all fun round => round.all fun x => x.1 != peer.nodeId ||
    ((membersOf P peer x.2).toOption.map MembersResponse.members == some refs)

theorem members_of_answersWith {peer : Manifest} {refs : List MemberRef}
    {answers : List (List (String × Except Exc Response))}
    (h : answersWith P peer refs answers = true) :
    ∀ round ∈ answers, ∀ a, (peer.nodeId, a) ∈ round →
      ∃ resp, membersOf P peer a = .ok resp ∧ resp.members = refs := by
  intro round hround a ha
  have hone := List.all_eq_true.mp (List.all_eq_true.mp h round hround) _ ha
  cases hm : membersOf P peer a with
  | error e => simp [hm, Except.toOption] at hone
  | ok resp =>
    simp [hm, Except.toOption] at hone
    exact ⟨resp, rfl, hone⟩

variable (P env) in
/-- `beta` made so many rounds from the state, `alpha` answered each with the list,
every reference of it is good, and this one is not recorded. -/
structure StaysOut (cap : Int) (s : NodeState) (refs : List MemberRef) (k : Nat) (ref : MemberRef)
    (answers : List (List (String × Except Exc Response))) (s' : NodeState) : Prop where
  narrows : Narrows (frozen env s.clock) Eq
  rounds : Rounds (frozen env s.clock) Eq P beta 300 cap none s answers s'
  count : answers.length = k
  record : s.membershipTable.get "alpha" = some alphaRecord
  eligible : ∀ now, alphaRecord.isEligible now = true
  peer : s.peerManifests.get "alpha" = some alphaManifest
  answered : ∀ round ∈ answers, ∀ a, ("alpha", a) ∈ round →
    ∃ resp, membersOf P alphaManifest a = .ok resp ∧ resp.members = refs
  nodes : (refs.map MemberRef.nodeId).Nodup
  urls : (refs.map MemberRef.manifestUrl).Nodup
  good : ∀ r ∈ refs, ServesAdmissible (frozen env s.clock) Eq P beta.client
    beta.admissionPolicy 300 r
  listed : ref ∈ refs
  other : ref.nodeId ≠ beta.nodeId
  absent : ¬ Recorded ref.nodeId s'

end Sample

def malloryRef : MemberRef :=
  { nodeId := "mallory", manifestUrl := "https://mallory.example/manifest" }

def malloryText : JWK × String × List String :=
  (malloryKey,
   "NuX74SodewOxOHRwp8BTDt9OnE1IFQ8KY0g-4msZQUfUVjt7en4F_eSwHQ6YemrPcA0xaepAj1mQLLq57FHBDw",
    ["\x7b\"auth_methods\":[\"signed_http\"],", "\"endpoint\":\"https:", "//mallory.example\",",
     "\"expires_at\":\"2026-02-01T00:", "00:00Z\",\"extensions\":",
     "\x7b\x7d,\"federations\":[\"fed\"],", "\"membership\":\x7b\"introduce_url\":",
     "\"https://mallory.example/", "introduce\",\"members_url\":", "\"https://mallory.example/",
     "members\"\x7d,\"node_id\":", "\"mallory\",\"org_id\":", "\"evil\",\"protocol_versions\":",
     "[\"1\"],\"public_keys\":", "[\x7b\"alg\":\"EdDSA\",\"key_id\":", "\"k1\",\"public_jwk\":",
     "\x7b\"alg\":\"EdDSA\",\"crv\":", "\"Ed25519\",\"kty\":\"OKP\",",
     "\"x\":\"PUAXw-hDiVqStwqnTRt-vJyYLM8ux", "JaMwM1V8Sr0Zgw\"\x7d,\"use\":",
     "\"sig\"\x7d],\"revision\":", "1\x7d"])

def longMembers : MembersResponse :=
  { sourceNodeId := "alpha"
    members := [gammaRef, malloryRef]
    signature := some { keyId := "k1", sig :=
      "bgBC08PAoJEfEl0_yqTwrvTA3buzkZFVDNLzUOtKoQLLeuzor_YhPoN6AwbytQhZ5Gq6_Xhb-3FbO8AboCtVBQ" } }

def longText : JWK × String × List String :=
  (alphaKey,
   "bgBC08PAoJEfEl0_yqTwrvTA3buzkZFVDNLzUOtKoQLLeuzor_YhPoN6AwbytQhZ5Gq6_Xhb-3FbO8AboCtVBQ",
    ["\x7b\"members\":[\x7b\"disclosure\":", "\"federation\",\"manifest_url\":",
     "\"https://gamma.example/", "manifest\",\"node_id\":", "\"gamma\"\x7d,\x7b\"disclosure\":",
     "\"federation\",\"manifest_url\":", "\"https://mallory.example/", "manifest\",\"node_id\":",
     "\"mallory\"\x7d],\"source_node_id\":", "\"alpha\"\x7d"])

def longPlatform : Platform :=
  knowsDocuments [gammaText, malloryText, longText] [gammaManifest, malloryManifest] [longMembers]

def longWorld : Env :=
  serves [("https://gamma.example/manifest", gammaManifest),
    ("https://mallory.example/manifest", malloryManifest)]
    [("https://alpha.example/members", longMembers)]

def roundsVerdict (P : Platform) (env : Env) (cap : Int) (k : Nat) (s : NodeState)
    (refs : List MemberRef) (n : String) :
    Option (Bool × Bool) :=
  (playRounds P env beta 300 cap none k s).map fun x =>
    (answersWith P alphaManifest refs x.1, (x.2.membershipTable.get n).isSome)

theorem rounds_of_verdict {P : Platform} {env : Env} {cap : Int} {k : Nat} {s : NodeState}
    {refs : List MemberRef} {n : String} {b : Bool}
    (h : roundsVerdict P env cap k s refs n = some (true, b)) :
    ∃ answers s', Rounds (frozen env s.clock) Eq P beta 300 cap none s answers s' ∧
      answers.length = k ∧
      (∀ round ∈ answers, ∀ a, ("alpha", a) ∈ round →
        ∃ resp, membersOf P alphaManifest a = .ok resp ∧ resp.members = refs) ∧
        (Recorded n s' ↔ b = true) := by
  obtain ⟨⟨answers, s'⟩, hplay, hboth⟩ := Option.map_eq_some_iff.mp h
  obtain ⟨hwith, hin⟩ := Prod.mk.inj hboth
  obtain ⟨hrounds, hlength⟩ := playRounds_rounds hplay
  have hlists := members_of_answersWith hwith
  have hrecorded : Recorded n s' ↔ b = true := by rw [Recorded, ← hin, Option.isSome_iff_exists]
  exact ⟨answers, s', hrounds, hlength, hlists, hrecorded⟩

theorem longVerdict : roundsVerdict longPlatform longWorld 1 2 knowingAlpha
    [gammaRef, malloryRef] "mallory" = some (true, false) := by decide +kernel

theorem longWorld_serves : ∀ r ∈ [gammaRef, malloryRef],
    servesNow longPlatform beta.client beta.admissionPolicy 300 longWorld knowingAlpha r = true :=
  by decide +kernel

theorem longWorld_narrows : Narrows (frozen longWorld newYear2026) Eq :=
  narrows_frozen (fun _ _ => rfl) _

theorem uncontested_alpha {sem : Sem Call Resp NodeState}
    {background : NodeState → NodeState → Prop} {P : Platform} {cap : Int}
    {rounds : List (List Visit)} {s' : NodeState}
    (h : RoundsTold sem background P beta 300 cap knowingAlpha rounds s') (hne : rounds ≠ [])
    (ref : MemberRef) :
    Uncontested alphaManifest rounds ref := by
  cases h with
  | nil => exact absurd rfl hne
  | @cons _ _ _ _ _ _ visits _ hround _ _ =>
    refine ⟨visits, List.mem_cons_self, fun x hx _ hother => absurd ?_ hother⟩
    obtain ⟨v, hv, _, hsource⟩ := hround.source_of_mem hx
    obtain ⟨now, _, _, hrecords⟩ := hround.eligible
    have hknown : v.record ∈ knowingAlpha.membershipTable.entries := by
      have hmem := List.mem_map_of_mem hv (f := Visit.record)
      rw [hrecords] at hmem
      exact List.mem_of_mem_filter hmem
    have hrecord : v.record = alphaRecord := List.mem_singleton.mp hknown
    rw [hsource, hrecord]
    rfl

theorem capped_list_takes_gamma : ∃ answers s' rounds,
    Rounds (frozen longWorld newYear2026) Eq longPlatform beta 300 1 none knowingAlpha answers s' ∧
    RoundsTold (frozen longWorld newYear2026) Eq longPlatform beta 300 1 knowingAlpha rounds s' ∧
    Recorded "gamma" s' ∧
    (Recorded "mallory" s' → Recorded "mallory" knowingAlpha ∨
      ∃ visits ∈ rounds, ∃ x ∈ hintsOf visits,
      x.fate.taken = true ∧ x.ref.nodeId = "mallory" ∧ x.source ≠ "alpha") := by
  obtain ⟨answers, s', hrounds, hlength, hlists, _⟩ := rounds_of_verdict longVerdict
  have hgood : ServesAdmissible (frozen longWorld newYear2026) Eq longPlatform beta.client
      beta.admissionPolicy 300 gammaRef :=
        servesAdmissible_of_servesNow (longWorld_serves gammaRef (by decide))
  obtain ⟨rounds, htold, hanswers, hrefs⟩ :=
    @capped_list_converges _ _ longPlatform beta 300 1 none _ _
    longWorld_narrows answers hrounds alphaRecord alphaManifest _ rfl (fun _ _ _ => rfl) rfl hlists
    (by decide) (by decide)
  have hne : rounds ≠ [] := by
    rintro rfl
    simp [hanswers] at hlength
  have hgamma := (hrefs 0 gammaRef rfl).1 (by decide) (by decide) hgood
    (uncontested_alpha htold hne gammaRef)
  have hmallory := (hrefs 1 malloryRef rfl).2 (by decide)
  exact ⟨answers, s', rounds, hrounds, htold, hgamma, hmallory⟩

/-- Two rounds with a cap of one do not take in a list of two, and one round does
not take in a single reference that another list stands in the way of. -/
theorem capped_list_stalls :
    (∃ answers s', StaysOut longPlatform longWorld 1 knowingAlpha [gammaRef, malloryRef] 2
      malloryRef answers s') ∧
      ∃ answers s', StaysOut rivalPlatform rivalWorld 100 knowingRivals [gammaRef] 1 gammaRef
        answers s' := by
  constructor
  · obtain ⟨answers, s', hrounds, hlength, hlists, hin⟩ := rounds_of_verdict longVerdict
    have hgood : ∀ r ∈ [gammaRef, malloryRef], ServesAdmissible (frozen longWorld newYear2026)
        Eq longPlatform beta.client beta.admissionPolicy 300 r :=
          fun r hr => servesAdmissible_of_servesNow (longWorld_serves r hr)
    have hout : ¬ Recorded "mallory" s' := by simp [hin]
    exact ⟨answers, s', longWorld_narrows, hrounds, hlength, rfl, fun _ => rfl, rfl, hlists,
      by decide, by decide, hgood, by decide, by decide, hout⟩
  · have hverdict : roundsVerdict rivalPlatform rivalWorld 100 1 knowingRivals [gammaRef] "gamma" =
        some (true, false) := by
      decide +kernel
    obtain ⟨answers, s', hrounds, hlength, hlists, hin⟩ := rounds_of_verdict hverdict
    have hgood : ∀ r ∈ [gammaRef], ServesAdmissible (frozen rivalWorld newYear2026) Eq
        rivalPlatform beta.client beta.admissionPolicy 300 r := by
      intro r hr
      obtain rfl := List.mem_singleton.mp hr
      exact rivalWorld_serves
    have hout : ¬ Recorded "gamma" s' := by simp [hin]
    exact ⟨answers, s', rivalWorld_narrows, hrounds, hlength, rfl, fun _ => rfl, rfl, hlists,
      by decide, by decide, hgood, by decide, by decide, hout⟩

end Federlet
