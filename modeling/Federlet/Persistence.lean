import Federlet.Disclosure
import Federlet.Validation
import Federlet.Zones

/-! A membership record kept as JSON. Its timestamps are written to the second. -/

namespace Federlet

variable {Z : ZoneTable}

def stampOrNull : Option (ZonedTime Z) → Except Exc Json
  | none => .ok .null
  | some t => serTs t.toFixed

def orNull {α : Type} (render : α → Json) : Option α → Json
  | none => .null
  | some a => render a

def PeerState.value : PeerState → String
  | .active => "active"
  | .cooldown => "cooldown"
  | .staleManifest => "stale_manifest"
  | .rejected => "rejected"
  | .revoked => "revoked"

def PeerState.read : Reader PeerState
  | .str "active" => some .active
  | .str "cooldown" => some .cooldown
  | .str "stale_manifest" => some .staleManifest
  | .str "rejected" => some .rejected
  | .str "revoked" => some .revoked
  | _ => none

/-- A counter; no call makes it negative. -/
def readCount (V : Scalars) :
    Reader Nat := fun j => (V.int j).bind fun i => if 0 ≤ i then some i.toNat else none

/-- A stamp is read back under the constant offset of its text. -/
def readStamp (V : Scalars) : Reader (ZonedTime Z) := fun j => (V.datetime j).map .fixed

namespace MemberRecord

def fields (rec : MemberRecord (ZonedTime Z)) (acceptedUntil cooldownUntil lastRefresh : Json) :
    List (String × Json) :=
  [("node_id", .str rec.nodeId), ("manifest_url", .str rec.manifestUrl),
    ("org_id", orNull .str rec.orgId), ("manifest_revision", .int rec.manifestRevision),
      ("state", .str rec.state.value),
    ("accepted_until", acceptedUntil), ("cooldown_until", cooldownUntil),
      ("failures", .int rec.failures),
    ("last_refresh", lastRefresh)]

def dump (rec : MemberRecord (ZonedTime Z)) : Except Exc Json := do
  let acceptedUntil ← stampOrNull rec.acceptedUntil
  let cooldownUntil ← stampOrNull rec.cooldownUntil
  let lastRefresh ← stampOrNull rec.lastRefresh
  return .obj (rec.fields acceptedUntil cooldownUntil lastRefresh)

def read (V : Scalars) : Reader (MemberRecord (ZonedTime Z)) := readObject fun kvs => do
  let nodeId ← required kvs "node_id" readStr
  let manifestUrl ← required kvs "manifest_url" readStr
  let orgId ← defaulting kvs "org_id" (nullable readStr) none
  let manifestRevision ← defaulting kvs "manifest_revision" V.int 0
  let state ← defaulting kvs "state" PeerState.read .active
  let acceptedUntil ← defaulting kvs "accepted_until" (nullable (readStamp V)) none
  let cooldownUntil ← defaulting kvs "cooldown_until" (nullable (readStamp V)) none
  let failures ← defaulting kvs "failures" (readCount V) 0
  let lastRefresh ← defaulting kvs "last_refresh" (nullable (readStamp V)) none
  return { nodeId, manifestUrl, orgId, manifestRevision, state, acceptedUntil, cooldownUntil
           failures, lastRefresh }

def stamps (rec : MemberRecord (ZonedTime Z)) : List (ZonedTime Z) :=
  rec.acceptedUntil.toList ++ rec.cooldownUntil.toList ++ rec.lastRefresh.toList

def undated (rec : MemberRecord (ZonedTime Z)) : MemberRecord (ZonedTime Z) :=
  { rec with acceptedUntil := none, cooldownUntil := none, lastRefresh := none }

/-- What `==` compares: the fields one by one, the times as `==` compares those. -/
structure Equal (a b : MemberRecord (ZonedTime Z)) : Prop where
  undated : a.undated = b.undated
  acceptedUntil : Option.Rel ZonedTime.Equal a.acceptedUntil b.acceptedUntil
  cooldownUntil : Option.Rel ZonedTime.Equal a.cooldownUntil b.cooldownUntil
  lastRefresh : Option.Rel ZonedTime.Equal a.lastRefresh b.lastRefresh

end MemberRecord

/-- The record read back equals the one written, and is treated alike. -/
def Transparent (V : Scalars) (rec : MemberRecord (ZonedTime Z)) : Prop :=
  ∃ doc restored, rec.dump = .ok doc ∧ MemberRecord.read V doc = some restored ∧
    restored.Equal rec ∧ (∀ now, restored.isEligible now = rec.isEligible now) ∧
    ∀ policy cursor (now : DateTime) disclosure,
      discloses policy cursor restored (.fixed now) = discloses policy cursor rec (.fixed now) ∧
        memberRef disclosure restored = memberRef disclosure rec

def DateTime.Storable (d : DateTime) : Prop := d.utcRepresentable = true ∧ d.instant % 1000000 = 0

instance (d : DateTime) : Decidable d.Storable := inferInstanceAs (Decidable (_ ∧ _))

/-- A whole second that its zone's clock reads once. -/
def ZonedTime.Storable (t : ZonedTime Z) : Prop := t.toFixed.Storable ∧ t.foldDependent = false

instance (t : ZonedTime Z) : Decidable t.Storable := inferInstanceAs (Decidable (_ ∧ _))

/-- An active record is open at the instants from the end of its cooldown to its
deadline. `window`: no clock is there by its reading and not by its instant, nor the
other way round. `cursor`: if the record is ever open, no cursor comes before the
last refresh by its reading and not by its instant, nor the other way round. -/
structure MemberRecord.KeepsOrder (rec : MemberRecord (ZonedTime Z)) : Prop where
  window : rec.state = .active → ∀ t : ZonedTime Z,
    ((∀ a ∈ rec.acceptedUntil, t < a) ∧ ∀ c ∈ rec.cooldownUntil, ¬ t < c) ↔
      (∀ a ∈ rec.acceptedUntil, t.instant < a.instant) ∧ ∀ c ∈ rec.cooldownUntil,
        ¬ t.instant < c.instant
  cursor : rec.state = .active →
    (∀ a ∈ rec.acceptedUntil, ∀ c ∈ rec.cooldownUntil, c.instant < a.instant) →
      ∀ l ∈ rec.lastRefresh, l.InOrder

theorem DateTime.wholeSecond_lt {d : DateTime} (h : d.utcRepresentable = true) :
    0 ≤ d.wholeSecond ∧ d.wholeSecond.toNat < 3652059 * 86400 := by
  rw [DateTime.utcRepresentable_iff, calendarMicros] at h
  simp only [wholeSecond]
  omega

def DateTime.toSecond (d : DateTime) : DateTime :=
  if h : d.utcRepresentable = true then .ofSecond d.wholeSecond.toNat (wholeSecond_lt h).2 else d

theorem DateTime.toSecond_instant {d : DateTime} (h : d.utcRepresentable = true) :
    d.toSecond.instant = d.wholeSecond * 1000000 := by
  have hpos := (wholeSecond_lt h).1
  rw [toSecond, dif_pos h]
  simp only [ofSecond, utc, instant]
  omega

theorem DateTime.toSecond_instant_iff {d : DateTime} (h : d.utcRepresentable = true) :
    d.toSecond.instant = d.instant ↔ d.Storable := by
  rw [toSecond_instant h]
  simp only [Storable, h, true_and, wholeSecond]
  omega

section Reading

variable {V : Scalars}

theorem Scalars.Faithful.serTs (hV : V.Faithful) {d : DateTime} {j : Json} (h : serTs d = .ok j) :
    d.utcRepresentable = true ∧ V.datetime j = some d.toSecond := by
  cases hr : d.utcRepresentable with
  | false => simp [serTs_error hr] at h
  | true =>
    rw [serTs_of_representable hr] at h
    cases h
    refine ⟨rfl, ?_⟩
    rw [hV.datetime _ (DateTime.wholeSecond_lt hr).2, DateTime.toSecond, dif_pos hr]

def ZonedTime.restored (t : ZonedTime Z) : ZonedTime Z := .fixed t.toFixed.toSecond

theorem Scalars.Faithful.stampOrNull (hV : V.Faithful) {t : Option (ZonedTime Z)} {j : Json}
    (h : stampOrNull t = .ok j) :
    (∀ d ∈ t, d.toFixed.utcRepresentable = true) ∧
      nullable (readStamp V) j = some (t.map ZonedTime.restored) := by
  cases t with
  | none =>
    cases h
    simp [nullable]
  | some d =>
    obtain ⟨hr, hread⟩ := hV.serTs h
    obtain ⟨s, rfl⟩ := serTs_str h
    refine ⟨by simpa using hr, ?_⟩
    simp only [nullable, readStamp, hread, Option.map_some, ZonedTime.restored]

theorem PeerState.read_value (state : PeerState) :
    PeerState.read (.str state.value) = some state := by
  cases state <;> rfl

theorem nullable_orNull (s : Option String) : nullable readStr (orNull .str s) = some s := by
  cases s <;> rfl

def MemberRecord.restored (rec : MemberRecord (ZonedTime Z)) : MemberRecord (ZonedTime Z) :=
  { rec with
    acceptedUntil := rec.acceptedUntil.map ZonedTime.restored
    cooldownUntil := rec.cooldownUntil.map ZonedTime.restored
    lastRefresh := rec.lastRefresh.map ZonedTime.restored }

theorem MemberRecord.forall_stamps {rec : MemberRecord (ZonedTime Z)} {p : ZonedTime Z → Prop} :
    (∀ d ∈ rec.stamps, p d) ↔
      (∀ d ∈ rec.acceptedUntil, p d) ∧ (∀ d ∈ rec.cooldownUntil, p d) ∧
      ∀ d ∈ rec.lastRefresh, p d := by
  simp only [stamps, List.mem_append, Option.mem_toList, Option.mem_def]
  constructor
  · intro h
    exact ⟨fun d hd => h d (.inl (.inl hd)), fun d hd => h d (.inl (.inr hd)), fun d hd =>
      h d (.inr hd)⟩
  · rintro ⟨ha, hc, hl⟩ d ((hd | hd) | hd)
    · exact ha d hd
    · exact hc d hd
    · exact hl d hd

theorem MemberRecord.read_dump (hV : V.Faithful) {rec : MemberRecord (ZonedTime Z)} {doc : Json}
    (h : rec.dump = .ok doc) :
    (∀ d ∈ rec.stamps, d.toFixed.utcRepresentable = true) ∧
      MemberRecord.read V doc = some rec.restored := by
  cases ha : stampOrNull rec.acceptedUntil with
  | error e => simp [dump, ha, bind, Except.bind] at h
  | ok acceptedUntil =>
  cases hc : stampOrNull rec.cooldownUntil with
  | error e => simp [dump, ha, hc, bind, Except.bind] at h
  | ok cooldownUntil =>
  cases hl : stampOrNull rec.lastRefresh with
  | error e => simp [dump, ha, hc, hl, bind, Except.bind] at h
  | ok lastRefresh =>
  obtain rfl : Json.obj (rec.fields acceptedUntil cooldownUntil lastRefresh) = doc := by
    simpa [dump, ha, hc, hl, bind, Except.bind, pure, Except.pure] using h
  obtain ⟨hra, hreada⟩ := hV.stampOrNull ha
  obtain ⟨hrc, hreadc⟩ := hV.stampOrNull hc
  obtain ⟨hrl, hreadl⟩ := hV.stampOrNull hl
  refine ⟨MemberRecord.forall_stamps.mpr ⟨hra, hrc, hrl⟩, ?_⟩
  have hcount : readCount V (.int rec.failures) = some rec.failures := by
    simp [readCount, hV.int]
  simp [MemberRecord.read, readObject, required, defaulting, fields, List.lookup, readStr,
    nullable_orNull, hV.int, PeerState.read_value, hreada, hreadc, hreadl, hcount,
      MemberRecord.restored]

theorem stampOrNull_ok {t : Option (ZonedTime Z)} (h : ∀ d ∈ t, d.toFixed.utcRepresentable = true) :
    ∃ j, stampOrNull t = .ok j := by
  cases t with
  | none => exact ⟨_, rfl⟩
  | some d => exact ⟨_, serTs_of_representable (h d rfl)⟩

theorem MemberRecord.exists_dump {rec : MemberRecord (ZonedTime Z)}
    (h : ∀ d ∈ rec.stamps, d.toFixed.utcRepresentable = true) : ∃ doc, rec.dump = .ok doc := by
  obtain ⟨hra, hrc, hrl⟩ := MemberRecord.forall_stamps.mp h
  obtain ⟨a, ha⟩ := stampOrNull_ok hra
  obtain ⟨c, hc⟩ := stampOrNull_ok hrc
  obtain ⟨l, hl⟩ := stampOrNull_ok hrl
  refine ⟨.obj (rec.fields a c l), ?_⟩
  simp only [dump, ha, hc, hl, bind, Except.bind, pure, Except.pure]

end Reading

theorem ZonedTime.restored_equal_iff {t : ZonedTime Z} (h : t.toFixed.utcRepresentable = true) :
    t.restored.Equal t ↔ t.Storable := by
  rw [restored, fixed_equal_iff, Storable, ← DateTime.toSecond_instant_iff h]
  rfl

theorem ZonedTime.Storable.restored_instant {t : ZonedTime Z} (h : t.Storable) :
    t.restored.instant = t.instant :=
  (DateTime.toSecond_instant_iff h.1.1).mpr h.1

theorem rel_restored_iff {t : Option (ZonedTime Z)}
    (h : ∀ d ∈ t, d.toFixed.utcRepresentable = true) :
    Option.Rel ZonedTime.Equal (t.map ZonedTime.restored) t ↔ ∀ d ∈ t, d.Storable := by
  cases t with
  | none => simp
  | some d =>
    have hiff := ZonedTime.restored_equal_iff (h d rfl)
    constructor
    · rintro (hrel | _)
      simpa using hiff.mp hrel
    · exact fun hd => .some (hiff.mpr (hd d rfl))

theorem MemberRecord.restored_equal_iff {rec : MemberRecord (ZonedTime Z)}
    (h : ∀ d ∈ rec.stamps, d.toFixed.utcRepresentable = true) :
    rec.restored.Equal rec ↔ ∀ d ∈ rec.stamps, d.Storable := by
  obtain ⟨hra, hrc, hrl⟩ := MemberRecord.forall_stamps.mp h
  rw [MemberRecord.forall_stamps, ← rel_restored_iff hra, ← rel_restored_iff
    hrc, ← rel_restored_iff hrl]
  exact ⟨fun heq => ⟨heq.acceptedUntil, heq.cooldownUntil, heq.lastRefresh⟩, fun ⟨ha, hc, hl⟩ =>
    ⟨rfl, ha, hc, hl⟩⟩

theorem MemberRecord.isEligible_iff {rec : MemberRecord (ZonedTime Z)} {t : ZonedTime Z} :
    rec.isEligible t = true ↔ rec.state = .active ∧ (∀ a ∈ rec.acceptedUntil, t < a) ∧
      ∀ c ∈ rec.cooldownUntil, ¬ t < c := by
  simp only [isEligible, ZonedTime.le_iff_not_lt]
  cases rec.acceptedUntil <;> cases rec.cooldownUntil <;> simp

theorem MemberRecord.isEligible_restored_iff {rec : MemberRecord (ZonedTime Z)}
    (h : ∀ d ∈ rec.stamps, d.Storable) {t : ZonedTime Z} :
    rec.restored.isEligible t = true ↔ rec.state = .active ∧
      (∀ a ∈ rec.acceptedUntil, t.instant < a.instant) ∧
      ∀ c ∈ rec.cooldownUntil, ¬ t.instant < c.instant := by
  obtain ⟨ha, hc, _⟩ := MemberRecord.forall_stamps.mp h
  rw [isEligible_iff]
  have hlt : ∀ d : ZonedTime Z, d.Storable → (t < d.restored ↔ t.instant < d.instant) := by
    intro d hd
    rw [← hd.restored_instant]
    exact ZonedTime.lt_fixed_iff
  have haccepted : (∀ a ∈ rec.restored.acceptedUntil, t < a) ↔ ∀ a ∈ rec.acceptedUntil,
      t.instant < a.instant := by
    simp only [restored, Option.mem_map, forall_exists_index, and_imp, forall_apply_eq_imp_iff₂]
    exact forall₂_congr fun a hmem => hlt a (ha a hmem)
  have hcooldown : (∀ c ∈ rec.restored.cooldownUntil, ¬ t < c) ↔ ∀ c ∈ rec.cooldownUntil,
      ¬ t.instant < c.instant := by
    simp only [restored, Option.mem_map, forall_exists_index, and_imp, forall_apply_eq_imp_iff₂]
    exact forall₂_congr fun c hmem => not_congr (hlt c (hc c hmem))
  rw [haccepted, hcooldown]
  rfl

theorem disclosedAfter_iff {rec : MemberRecord (ZonedTime Z)} {since : ZonedTime Z} :
    disclosedAfter rec since = true ↔ ∀ l ∈ rec.lastRefresh, since < l := by
  cases h : rec.lastRefresh <;> simp [disclosedAfter, h]

theorem disclosedAfter_restored_iff {rec : MemberRecord (ZonedTime Z)}
    (h : ∀ d ∈ rec.stamps, d.Storable) {since : ZonedTime Z} :
    disclosedAfter rec.restored since = true ↔ ∀ l ∈ rec.lastRefresh, since.instant <
      l.instant := by
  obtain ⟨_, _, hl⟩ := MemberRecord.forall_stamps.mp h
  simp only [disclosedAfter_iff, MemberRecord.restored, Option.mem_map,
    forall_exists_index, and_imp, forall_apply_eq_imp_iff₂]
  refine forall₂_congr fun l hmem => ?_
  rw [← (hl l hmem).restored_instant]
  exact ZonedTime.lt_fixed_iff

theorem MemberRecord.exists_eligible {rec : MemberRecord (ZonedTime Z)}
    (hactive : rec.state = .active) (hstored : ∀ d ∈ rec.stamps, d.Storable)
    (hopen : ∀ a ∈ rec.acceptedUntil, ∀ c ∈ rec.cooldownUntil, c.instant < a.instant) :
    ∃ now : DateTime, rec.isEligible (.fixed now) = true := by
  obtain ⟨ha, _, _⟩ := MemberRecord.forall_stamps.mp hstored
  have hfixed : ∀ (now : DateTime) (d : ZonedTime Z), ZonedTime.fixed now < d ↔
      now.instant < d.instant := by
    intro now d
    show ZonedTime.diffMicros (.fixed now) d < 0 ↔ _
    simp only [ZonedTime.diffMicros, ZonedTime.sameZone_fixed_left, Bool.false_eq_true, ↓reduceIte,
      ZonedTime.instant_fixed]
    omega
  simp only [isEligible_iff, hfixed, hactive, true_and]
  cases hcooldown : rec.cooldownUntil with
  | some c =>
    refine ⟨c.toFixed, fun a hmem => hopen a hmem c (by simp [hcooldown]), ?_⟩
    rintro _ ⟨⟩
    exact lt_irrefl _
  | none =>
    -- an hour before year 1 in UTC is a time east of it
    refine ⟨⟨0, 3600000000, by decide, by decide⟩, fun a hmem => ?_, by simp⟩
    have hpos := (DateTime.utcRepresentable_iff.mp (ha a hmem).1.1).1
    show (0 : Int) - 3600000000 < a.instant
    have : a.instant = a.toFixed.instant := rfl
    omega

theorem MemberRecord.keepsOrder_of_inOrder {rec : MemberRecord (ZonedTime Z)}
    (h : ∀ d ∈ rec.stamps, d.InOrder) :
    rec.KeepsOrder := by
  obtain ⟨ha, hc, hl⟩ := MemberRecord.forall_stamps.mp h
  refine ⟨fun _ t => ?_, fun _ _ => hl⟩
  exact and_congr (forall₂_congr fun a hmem => ha a hmem t)
    (forall₂_congr fun c hmem => not_congr (hc c hmem t))

theorem MemberRecord.isEligible_restored_eq_iff {rec : MemberRecord (ZonedTime Z)}
    (hstored : ∀ d ∈ rec.stamps, d.Storable) {t : ZonedTime Z} :
    rec.restored.isEligible t = rec.isEligible t ↔ (rec.state = .active →
      (((∀ a ∈ rec.acceptedUntil, t < a) ∧ ∀ c ∈ rec.cooldownUntil, ¬ t < c) ↔
        (∀ a ∈ rec.acceptedUntil, t.instant < a.instant) ∧
          ∀ c ∈ rec.cooldownUntil, ¬ t.instant < c.instant)) := by
  rw [Bool.eq_iff_iff, isEligible_restored_iff hstored, isEligible_iff, and_congr_right_iff]
  exact forall_congr' fun _ => ⟨Iff.symm, Iff.symm⟩

theorem MemberRecord.disclosedAfter_restored_eq_iff {rec : MemberRecord (ZonedTime Z)}
    (hstored : ∀ d ∈ rec.stamps, d.Storable) {since : ZonedTime Z} :
    disclosedAfter rec.restored since = disclosedAfter rec since ↔
      ∀ l ∈ rec.lastRefresh, (since < l ↔ since.instant < l.instant) := by
  rw [Bool.eq_iff_iff, disclosedAfter_restored_iff hstored, disclosedAfter_iff]
  cases rec.lastRefresh with
  | none => simp
  | some l => simpa using Iff.comm

theorem MemberRecord.KeepsOrder.discloses {rec : MemberRecord (ZonedTime Z)} (h : rec.KeepsOrder)
    (hstored : ∀ d ∈ rec.stamps, d.Storable) (policy : DisclosurePolicy)
    (cursor : Option (ZonedTime Z)) (now : DateTime) :
    discloses policy cursor rec.restored (.fixed now) =
      discloses policy cursor rec (.fixed now) := by
  have heligible : rec.restored.isEligible (.fixed now) = rec.isEligible (.fixed now) :=
    (isEligible_restored_eq_iff hstored).mpr fun hactive => h.window hactive _
  simp only [Federlet.discloses, heligible]
  cases helig : rec.isEligible (.fixed now) with
  | false => simp
  | true =>
    -- an eligible record is open, so its cursor order counts
    rw [helig, isEligible_restored_iff hstored] at heligible
    obtain ⟨hactive, hbefore, hafter⟩ := heligible
    have hcursor := h.cursor hactive fun a ha c hc =>
      lt_of_le_of_lt (not_lt.mp (hafter c hc)) (hbefore a ha)
    have hsame : disclosedAfter rec.restored = disclosedAfter rec := by
      funext since
      exact (disclosedAfter_restored_eq_iff hstored).mpr fun l hl => hcursor l hl since
    rw [hsame]
    rfl

theorem transparent_iff {V : Scalars} (hV : V.Faithful) (rec : MemberRecord (ZonedTime Z)) :
    Transparent V rec ↔ (∀ d ∈ rec.stamps, d.Storable) ∧ rec.KeepsOrder := by
  constructor
  · rintro ⟨doc, restored, hdoc, hread, hequal, heligible, hdisclosed⟩
    obtain ⟨hr, hback⟩ := MemberRecord.read_dump hV hdoc
    obtain rfl : restored = rec.restored := Option.some.inj (hread.symm.trans hback)
    have hstored := (MemberRecord.restored_equal_iff hr).mp hequal
    refine ⟨hstored, fun hactive t => ?_, fun hactive hopen l hl t => ?_⟩
    · exact (MemberRecord.isEligible_restored_eq_iff hstored).mp (heligible t) hactive
    · obtain ⟨now, hnow⟩ := MemberRecord.exists_eligible hactive hstored hopen
      have hsame := (hdisclosed {} (some t) now "").1
      simp only [discloses, heligible, hnow, Option.all_some, List.not_mem_nil,
        not_false_eq_true, decide_true, Bool.and_self, Bool.true_and] at hsame
      exact (MemberRecord.disclosedAfter_restored_eq_iff hstored).mp hsame l hl
  · rintro ⟨hstored, horder⟩
    have hr : ∀ d ∈ rec.stamps, d.toFixed.utcRepresentable = true := fun d hd => (hstored d hd).1.1
    obtain ⟨doc, hdoc⟩ := MemberRecord.exists_dump hr
    obtain ⟨_, hback⟩ := MemberRecord.read_dump hV hdoc
    refine ⟨doc, _, hdoc, hback, (MemberRecord.restored_equal_iff hr).mpr hstored, fun t => ?_, ?_⟩
    · exact (MemberRecord.isEligible_restored_eq_iff hstored).mpr fun hactive =>
        horder.window hactive t
    · exact fun policy cursor now _ => ⟨horder.discloses hstored policy cursor now, rfl⟩

inductive RecordCall (Z : ZoneTable) where
  | admission (acceptedUntil : Option (ZonedTime Z)) (now : ZonedTime Z)
  | setState (state : PeerState) (now : ZonedTime Z)
  | success (now : ZonedTime Z)
  | failure (policy : CooldownPolicy) (now : ZonedTime Z)

namespace RecordCall

/-- What the call leaves of the record, also where it raises. -/
def apply (rec : MemberRecord (ZonedTime Z)) : RecordCall Z → MemberRecord (ZonedTime Z)
  | .admission acceptedUntil now => rec.admitRecord acceptedUntil now
  | .setState state now => rec.setState state now
  | .success now => recordSuccess rec now
  | .failure policy now =>
    ((recordFailure rec policy now).2.toOption).getD (recordFailure rec policy now).1

def cooldownEnd (policy : CooldownPolicy) (failures : Nat) (now : ZonedTime Z) :
    Except Exc (ZonedTime Z) := do
  let cooldown ← policy.nextCooldown failures
  now + cooldown

def writes (rec : MemberRecord (ZonedTime Z)) : RecordCall Z → List (ZonedTime Z)
  | .admission acceptedUntil now => acceptedUntil.toList ++ [now]
  | .setState _ now => [now]
  | .success now => [now]
  | .failure policy now =>
    ((cooldownEnd policy (rec.failures + 1) now).toOption.map fun t => [t, now]).getD []

theorem apply_failure (rec : MemberRecord (ZonedTime Z)) (policy : CooldownPolicy)
    (now : ZonedTime Z) :
    RecordCall.apply rec (.failure policy now) =
      ((cooldownEnd policy (rec.failures + 1) now).toOption.map fun t =>
        { rec with failures := rec.failures + 1, cooldownUntil := some t,
                   lastRefresh := some now }).getD
          { rec with failures := rec.failures + 1 } := by
  simp only [apply, recordFailure, cooldownEnd, bind, Except.bind]
  cases policy.nextCooldown (rec.failures + 1) with
  | error e => rfl
  | ok cooldown =>
    cases hadd : now + cooldown with
    | error e => simp [hadd, Except.toOption]
    | ok t => simp [hadd, Except.toOption, pure, Except.pure, MemberRecord.touch]

theorem stamps_apply (rec : MemberRecord (ZonedTime Z)) (call : RecordCall Z) :
    (∀ d ∈ (call.apply rec).stamps, d ∈ rec.stamps ∨ d ∈ call.writes rec) ∧
      ∀ d ∈ call.writes rec, d ∈ (call.apply rec).stamps := by
  cases call with
  | admission acceptedUntil now =>
    simp [apply, writes, MemberRecord.admitRecord, MemberRecord.touch, MemberRecord.stamps]
    tauto
  | setState state now =>
    simp [apply, writes, MemberRecord.setState, MemberRecord.touch, MemberRecord.stamps]
    tauto
  | success now =>
    simp [apply, writes, recordSuccess, MemberRecord.touch, MemberRecord.stamps]
    tauto
  | failure policy now =>
    rw [apply_failure, writes]
    cases (cooldownEnd policy (rec.failures + 1) now).toOption with
    | none => simp [MemberRecord.stamps]
    | some t =>
      simp [MemberRecord.stamps]
      tauto

end RecordCall

/-- The record before the calls and after each of them. -/
def recordHistory (rec : MemberRecord (ZonedTime Z)) :
    List (RecordCall Z) → List (MemberRecord (ZonedTime Z))
  | [] => [rec]
  | call :: calls => rec :: recordHistory (call.apply rec) calls

def timesWritten (rec : MemberRecord (ZonedTime Z)) : List (RecordCall Z) → List (ZonedTime Z)
  | [] => []
  | call :: calls => call.writes rec ++ timesWritten (call.apply rec) calls

theorem stamps_recordHistory_iff (p : ZonedTime Z → Prop) (rec : MemberRecord (ZonedTime Z))
    (calls : List (RecordCall Z)) :
    (∀ r ∈ recordHistory rec calls, ∀ d ∈ r.stamps, p d) ↔
      (∀ d ∈ rec.stamps, p d) ∧ ∀ d ∈ timesWritten rec calls, p d := by
  induction calls generalizing rec with
  | nil => simp [recordHistory, timesWritten]
  | cons call calls ih =>
    obtain ⟨hfrom, hall⟩ := call.stamps_apply rec
    simp only [recordHistory, timesWritten, List.forall_mem_cons, List.forall_mem_append, ih]
    refine and_congr_right fun hrec => and_congr_left fun _ => ⟨fun h d hd => h d (hall d hd), ?_⟩
    intro h d hd
    rcases hfrom d hd with hd | hd
    · exact hrec d hd
    · exact h d hd

/-- Every record of a history survives the round trip exactly when every time written is
a whole second that its zone reads once, and every record keeps the order of its times. -/
theorem history_transparent_iff (V : Scalars) (hV : V.Faithful) (Z : ZoneTable)
    (rec : MemberRecord (ZonedTime Z)) (calls : List (RecordCall Z)) :
    (∀ r ∈ recordHistory rec calls, Transparent V r) ↔
      ((∀ d ∈ rec.stamps, d.Storable) ∧ ∀ d ∈ timesWritten rec calls, d.Storable) ∧
        ∀ r ∈ recordHistory rec calls, r.KeepsOrder := by
  rw [← stamps_recordHistory_iff, ← forall₂_and]
  exact forall₂_congr fun r _ => transparent_iff hV r

/-- Central European time in 2026: an hour ahead of UTC, and two from 29 March to
25 October. -/
def berlin : ZoneTable where
  utcoffset _ wall fold :=
    -- under fold 1 both changes take effect an hour of wall time earlier
    let wall := if fold then wall + 3600000000 else wall
    if 63910350000000000 ≤ wall ∧ wall < 63928494000000000 then 7200000000 else 3600000000
  range _ _ _ := by
    dsimp only [dayMicros]
    split_ifs <;> omega

theorem berlin_winter_inOrder {wall : Int} {fold : Bool} (h : 0 ≤ wall ∧ wall < calendarMicros)
    (hwinter : wall < 63910342800000000) :
    ZonedTime.InOrder (Z := berlin) (.zoned 0 wall fold h) := by
  intro r
  cases r with
  | fixed d =>
    show ZonedTime.diffMicros (.fixed d) _ < 0 ↔ _
    simp only [ZonedTime.diffMicros, ZonedTime.sameZone_fixed_left, Bool.false_eq_true, ↓reduceIte]
    omega
  | zoned zone w f hw =>
    show ZonedTime.diffMicros _ _ < 0 ↔ _
    simp only [ZonedTime.diffMicros, ZonedTime.sameZone, ZonedTime.instant, ZonedTime.toFixed,
      DateTime.instant, berlin, decide_eq_true_eq]
    cases fold <;> cases f <;> split_ifs <;> simp_all <;> omega

def unseenBeta {Z : ZoneTable} : MemberRecord (ZonedTime Z) :=
  { nodeId := "beta", manifestUrl := "https://beta.example/manifest" }

def berlinNewYear : ZonedTime berlin :=
  .zoned 0 newYear2026.wall false newYear2026.wall_range

theorem whole_seconds_transparent :
    (recordHistory unseenBeta
      [.admission (some (.fixed newYear2026)) berlinNewYear, .failure {} berlinNewYear]).Forall
    (Transparent strictScalars) := by
  have horder :
      ∀ r ∈ recordHistory unseenBeta [.admission (some (.fixed newYear2026)) berlinNewYear,
      .failure {} berlinNewYear], r.KeepsOrder := by
    have hwritten : timesWritten unseenBeta [.admission (some (.fixed newYear2026)) berlinNewYear,
        .failure {} berlinNewYear] = [.fixed newYear2026, berlinNewYear,
          .zoned 0 63902822430000000 false (by decide), berlinNewYear] := rfl
    refine fun r hr => MemberRecord.keepsOrder_of_inOrder
      ((stamps_recordHistory_iff ZonedTime.InOrder unseenBeta _).mpr
        ⟨by simp [unseenBeta, MemberRecord.stamps], ?_⟩ r hr)
    simp only [hwritten, List.forall_mem_cons, List.not_mem_nil, false_implies,
      implies_true, and_true]
    have hmidnight : berlinNewYear.InOrder := berlin_winter_inOrder _ (by decide)
    exact ⟨ZonedTime.inOrder_fixed _, hmidnight, berlin_winter_inOrder _ (by decide), hmidnight⟩
  exact List.forall_iff_forall_mem.mpr
    ((history_transparent_iff strictScalars strictScalars_faithful berlin unseenBeta
      [.admission (some (.fixed newYear2026)) berlinNewYear, .failure {} berlinNewYear]).mpr
    ⟨⟨by decide, by decide⟩, horder⟩)

def halfPast : ZonedTime berlin := .fixed (.utc 63902822400500000 (by decide))

/-- Half past two in the night to 25 October, for the first time. -/
def repeatedHour : ZonedTime berlin := .zoned 0 63928492200000000 false (by decide)

/-- Half past one in the night to 29 March, half an hour before an hour is skipped. -/
def beforeSkip : ZonedTime berlin := .zoned 0 63910344600000000 false (by decide)

theorem admission_conditions {acceptedUntil : Option (ZonedTime berlin)} {now : ZonedTime berlin}
    (h : ∀ r ∈ recordHistory unseenBeta [.admission acceptedUntil now],
      Transparent strictScalars r) :
    (∀ d ∈ ((unseenBeta (Z := berlin)).admitRecord acceptedUntil now).stamps, d.Storable) ∧
      ((unseenBeta (Z := berlin)).admitRecord acceptedUntil now).KeepsOrder :=
  (transparent_iff strictScalars_faithful _).mp (h _ (by simp [recordHistory, RecordCall.apply]))

/-- What is lost of an admission: a fraction of a second, the equality of a time that is
read twice, and the order with a time that is never read. -/
theorem admission_times_lost :
    (¬ ∀ r ∈ recordHistory unseenBeta [.admission none halfPast], Transparent strictScalars r) ∧
    (repeatedHour.toFixed.Storable ∧
      ¬ ∀ r ∈ recordHistory unseenBeta [.admission none repeatedHour],
        Transparent strictScalars r) ∧
    (beforeSkip.Storable ∧
      ¬ ∀ r ∈ recordHistory unseenBeta [.admission (some beforeSkip) berlinNewYear],
        Transparent strictScalars r) := by
  refine ⟨fun h => ?_, ⟨by decide, fun h => ?_⟩, ⟨by decide, fun h => ?_⟩⟩
  · have hstored := (admission_conditions h).1 halfPast
      (by simp [MemberRecord.admitRecord, MemberRecord.touch, MemberRecord.stamps])
    exact absurd hstored (by decide)
  · have hstored := (admission_conditions h).1 repeatedHour
      (by simp [MemberRecord.admitRecord, MemberRecord.touch, MemberRecord.stamps])
    exact absurd hstored (by decide)
  · -- ten past two, as if summer time had begun, is ten past midnight in UTC
    have hwindow := (admission_conditions h).2.window rfl
      (.zoned 0 63910347000000000 true (by decide))
    simp only [MemberRecord.admitRecord, MemberRecord.touch] at hwindow
    exact absurd hwindow (by decide)

end Federlet
