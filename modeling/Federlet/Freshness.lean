import Federlet.Continuity

/-! The freshness verdict of `check_manifest` against unbounded time. The code adds
the skew to a bound on that bound's own wall clock, which ends with year 9999. -/

namespace Federlet

open Coop

/-- The verdict over unbounded time, in microseconds; an absent bound is no constraint. -/
def timeVerdict (issuedAt expiresAt : Option DateTime) (now : DateTime) (maxSkewSeconds : Int) :
    Bool × String :=
  if expiresAt.any (fun t => t.instant + maxSkewSeconds * 1000000 < now.instant) then
    (false, "expired")
  else if issuedAt.any (fun t => now.instant < t.instant - maxSkewSeconds * 1000000) then
  (false, "not_yet_valid") else (true, "ok")

/-- The bounds that are computed stay in the calendar: the skew is a `timedelta`,
the later bound ends within year 9999, and the earlier one, looked at only before
expiry, begins within year 1. -/
structure WithinCalendar (issuedAt expiresAt : Option DateTime) (now : DateTime)
    (maxSkewSeconds : Int) : Prop where
  skew : maxSkewSeconds < 1000000000 * 86400
  upper : ∀ t ∈ expiresAt, t.wall + maxSkewSeconds * 1000000 < calendarMicros
  lower : ∀ t ∈ issuedAt, (∀ e ∈ expiresAt, now.instant ≤ e.instant + maxSkewSeconds * 1000000) →
    maxSkewSeconds * 1000000 ≤ t.wall

namespace DateTime

theorem withWall_error {d : DateTime} {w : Int} (h : ¬ (0 ≤ w ∧ w < calendarMicros)) :
    d.withWall w = .error .overflowError := dif_neg h

theorem add_error {d : DateTime} {t : TimeDelta} (h : ¬ d.wall + t.micros < calendarMicros) :
    d.add t = .error .overflowError := withWall_error fun hw => h hw.2

theorem sub_error {d : DateTime} {t : TimeDelta} (h : ¬ t.micros ≤ d.wall) :
    d.sub t = .error .overflowError := withWall_error fun hw => h (by omega)

theorem exists_sub {d : DateTime} {t : TimeDelta} (ht : 0 ≤ t.micros) (h : t.micros ≤ d.wall) :
    ∃ r, d.sub t = .ok r := by
  have hrange := d.wall_range
  exact ⟨_, dif_pos (by omega)⟩

theorem sub_instant {d r : DateTime} {t : TimeDelta} (h : d.sub t = .ok r) :
    r.instant = d.instant - t.micros := by
  obtain ⟨hw, ho⟩ := withWall_ok h
  simp only [instant, hw, ho]
  omega

end DateTime

theorem TimeDelta.ofSeconds_eq {n : Int} (h : 0 ≤ n) (h' : n < 1000000000 * 86400) :
    ∃ t, TimeDelta.ofSeconds n = .ok t ∧ t.micros = n * 1000000 :=
  ⟨⟨n * 1000000, by omega⟩, dif_pos (by omega), rfl⟩

theorem TimeDelta.ofSeconds_error {n : Int} (h : ¬ n < 1000000000 * 86400) :
    TimeDelta.ofSeconds n = .error .overflowError := dif_neg (by omega)

section Freshness

variable {P : Platform} {manifest : Manifest} {now : DateTime} {skew : Int}
  {signature : Signature} {jwk : JWK}

def lowerVerdict (issuedAt : Option DateTime) (now : DateTime) (skew : TimeDelta) :
    Except Exc (Bool × String) :=
  match issuedAt with
  | none => .ok (true, "ok")
  | some issuedAt => do
    let bound ← issuedAt.sub skew
    return if now.instant < bound.instant then (false, "not_yet_valid") else (true, "ok")

def boundsVerdict (issuedAt expiresAt : Option DateTime) (now : DateTime) (skew : TimeDelta) :
    Except Exc (Bool × String) :=
  match expiresAt with
  | none => lowerVerdict issuedAt now skew
  | some expiresAt => do
    let bound ← expiresAt.add skew
    if bound.instant < now.instant then return (false, "expired")
      else lowerVerdict issuedAt now skew

theorem checkManifestAt_of_verifies (hs : manifest.signature = some signature)
    (hk : findJwk manifest.publicKeys signature.keyId = some jwk)
    (hv : verifyModel P manifest jwk = .ok true) :
    checkManifestAt P manifest now skew =
      (TimeDelta.ofSeconds skew >>= boundsVerdict manifest.issuedAt manifest.expiresAt now) := by
  simp only [checkManifestAt, hs, hk, hv]
  cases hd : TimeDelta.ofSeconds skew with
  | error e => rfl
  | ok delta =>
    cases manifest.expiresAt with
    | none =>
      cases manifest.issuedAt with
      | none => rfl
      | some i =>
        cases hi : i.sub delta with
        | error x => simp [boundsVerdict, lowerVerdict, hi, bind, Except.bind]
        | ok r =>
          by_cases h : now.instant < r.instant <;>
            simp [boundsVerdict, lowerVerdict, hi, h, bind, Except.bind, pure, Except.pure]
    | some e =>
      cases he : e.add delta with
      | error x => simp [boundsVerdict, he, bind, Except.bind]
      | ok r =>
        by_cases h : r.instant < now.instant
        · simp [boundsVerdict, he, h, bind, Except.bind, pure, Except.pure]
        · cases manifest.issuedAt with
          | none => simp [boundsVerdict, lowerVerdict, he, h, bind, Except.bind, pure, Except.pure]
          | some i =>
            cases hi : i.sub delta with
            | error x => simp [boundsVerdict, lowerVerdict, he, hi, h, bind, Except.bind]
            | ok r' =>
              by_cases h' : now.instant < r'.instant <;>
                simp [boundsVerdict, lowerVerdict, he, hi, h, h', bind, Except.bind,
                  pure, Except.pure]

theorem lowerVerdict_iff {issuedAt : Option DateTime} {delta : TimeDelta} (hskew : 0 ≤ skew)
    (hdelta : delta.micros = skew * 1000000) :
    lowerVerdict issuedAt now delta = .ok (timeVerdict issuedAt none now skew) ↔
      ∀ t ∈ issuedAt, skew * 1000000 ≤ t.wall := by
  cases issuedAt with
  | none => simp [lowerVerdict, timeVerdict]
  | some i =>
    simp only [Option.mem_some_iff, forall_eq']
    by_cases h : skew * 1000000 ≤ i.wall
    · obtain ⟨r, hr⟩ := DateTime.exists_sub (t := delta) (by omega) (hdelta ▸ h)
      have hinstant := DateTime.sub_instant hr
      simp only [lowerVerdict, hr, bind, Except.bind, pure, Except.pure, timeVerdict,
        hinstant, hdelta]
      simp [h]
    · have herror := DateTime.sub_error (t := delta) (hdelta ▸ h)
      simp [lowerVerdict, herror, bind, Except.bind, h]

theorem boundsVerdict_iff {issuedAt expiresAt : Option DateTime} {delta : TimeDelta}
    (hskew : 0 ≤ skew) (hdelta : delta.micros = skew * 1000000) :
    boundsVerdict issuedAt expiresAt now delta = .ok (timeVerdict issuedAt expiresAt now skew) ↔
      (∀ t ∈ expiresAt, t.wall + skew * 1000000 < calendarMicros) ∧
        ∀ t ∈ issuedAt, (∀ e ∈ expiresAt, now.instant ≤ e.instant + skew * 1000000) →
          skew * 1000000 ≤ t.wall := by
  cases expiresAt with
  | none => simpa [boundsVerdict] using lowerVerdict_iff hskew hdelta
  | some e =>
    simp only [Option.mem_some_iff, forall_eq']
    by_cases hup : e.wall + skew * 1000000 < calendarMicros
    · have hrange := e.wall_range
      obtain ⟨r, hr⟩ := DateTime.exists_add (d := e) (t := delta) (by omega)
      have hinstant := DateTime.add_instant hr
      simp only [boundsVerdict, hr, bind, Except.bind, hinstant, hdelta]
      by_cases hlate : e.instant + skew * 1000000 < now.instant
      · have hnot : ¬ now.instant ≤ e.instant + skew * 1000000 := by omega
        simp [hlate, hup, hnot, timeVerdict, pure, Except.pure]
      · have hverdict : timeVerdict issuedAt (some e) now skew = timeVerdict issuedAt none
            now skew := by
          simp [timeVerdict, hlate]
        have hbefore : now.instant ≤ e.instant + skew * 1000000 := by omega
        rw [if_neg hlate, hverdict, lowerVerdict_iff hskew hdelta]
        simp only [hup, hbefore, true_and, forall_const]
    · have herror := DateTime.add_error (t := delta) (hdelta ▸ hup)
      simp [boundsVerdict, herror, bind, Except.bind, hup]

/-- `check_manifest` of a manifest that verifies judges it as over unbounded time
exactly when the bounds it computes stay in the calendar. -/
theorem checkManifest_judges_iff (P : Platform) (o : Origin) (manifest : Manifest)
    (signature : Signature) (jwk : JWK) (maxSkewSeconds : Int) (env : Env) (s : NodeState)
    (hs : manifest.signature = some signature)
    (hk : findJwk manifest.publicKeys signature.keyId = some jwk)
    (hv : verifyModel P manifest jwk = .ok true) (hskew : 0 ≤ maxSkewSeconds) :
    ((checkManifest P o manifest maxSkewSeconds).run.eval env.handle s).1 =
        .ok (timeVerdict manifest.issuedAt manifest.expiresAt (env.now o s.clock) maxSkewSeconds) ↔
      WithinCalendar manifest.issuedAt manifest.expiresAt (env.now o s.clock) maxSkewSeconds := by
  have heval : ((checkManifest P o manifest maxSkewSeconds).run.eval env.handle s).1 =
      checkManifestAt P manifest (env.now o s.clock) maxSkewSeconds := rfl
  rw [heval, checkManifestAt_of_verifies hs hk hv]
  by_cases hrange : maxSkewSeconds < 1000000000 * 86400
  · obtain ⟨delta, hok, hdelta⟩ := TimeDelta.ofSeconds_eq hskew hrange
    rw [hok]
    refine (boundsVerdict_iff hskew hdelta).trans ⟨?_, ?_⟩
    · rintro ⟨hupper, hlower⟩
      exact ⟨hrange, hupper, hlower⟩
    · intro h
      exact ⟨h.upper, h.lower⟩
  · rw [TimeDelta.ofSeconds_error hrange]
    constructor
    · intro h
      cases h
    · intro h
      exact absurd h.skew hrange

end Freshness

def endlessManifest : Manifest :=
  { alphaManifest with
    expiresAt := some (.utc 315537897599000000 (by decide))
    signature :=
      some { keyId := "k1", sig :=
        "8FXGBQq2aMIH1yaGqjp6WxW7ahxa7impi85Cemjk_T4xKA__ybSl6Gp7m6i701cAHPcjWvqLEEcUW3xrsVG7Bg" } }

def endlessPlatform : Platform :=
  knows
    [(alphaKey,
      "8FXGBQq2aMIH1yaGqjp6WxW7ahxa7impi85Cemjk_T4xKA__ybSl6Gp7m6i701cAHPcjWvqLEEcUW3xrsVG7Bg",
    ["\x7b\"auth_methods\":[\"signed_http\"],\"endpoint\":\"https://alpha.example\",",
    "\"expires_at\":\"9999-12-31T23:59:59Z\",\"extensions\":\x7b\x7d,\"federations\":[\"fed\"],",
    "\"membership\":\x7b\"introduce_url\":\"https://alpha.example/introduce\",",
    "\"members_url\":\"https://alpha.example/members\"\x7d,\"node_id\":\"alpha\",\"org_id\":\"acme\",",
    "\"protocol_versions\":[\"1\"],\"public_keys\":[\x7b\"alg\":\"EdDSA\",\"key_id\":\"k1\",",
    "\"public_jwk\":\x7b\"alg\":\"EdDSA\",\"crv\":\"Ed25519\",\"kty\":\"OKP\",",
    "\"x\":\"11qYAYKxCrfVS_7TyWQHOg7hcvPapiMlrwIaaPcHURo\"\x7d,\"use\":\"sig\"\x7d],\"revision\":3\x7d"])]

theorem endless_verifies : verifyModel endlessPlatform endlessManifest alphaKey = .ok true :=
  by decide +kernel

theorem endless_judged :
    ((checkManifest endlessPlatform .admission endlessManifest 0).run.eval silentWorld.handle
      emptyNode).1 =
      .ok (timeVerdict endlessManifest.issuedAt endlessManifest.expiresAt newYear2026 0) := by
  refine (checkManifest_judges_iff endlessPlatform .admission endlessManifest _ alphaKey 0
    silentWorld emptyNode rfl rfl endless_verifies (by decide)).mpr ⟨by decide, ?_, ?_⟩
  · rintro t ⟨⟩
    decide
  · rintro t ⟨⟩

/-- With the default skew the upper bound leaves year 9999. -/
theorem endless_unreadable :
    endlessManifest.signature =
      some { keyId := "k1", sig :=
        "8FXGBQq2aMIH1yaGqjp6WxW7ahxa7impi85Cemjk_T4xKA__ybSl6Gp7m6i701cAHPcjWvqLEEcUW3xrsVG7Bg" } ∧
      findJwk endlessManifest.publicKeys "k1" = some alphaKey ∧
      verifyModel endlessPlatform endlessManifest alphaKey = .ok true ∧
      timeVerdict endlessManifest.issuedAt endlessManifest.expiresAt newYear2026 300 =
        (true, "ok") ∧
      ((checkManifest endlessPlatform .admission endlessManifest 300).run.eval silentWorld.handle
        emptyNode).1 = .error .overflowError := by
  have hverdict : timeVerdict endlessManifest.issuedAt endlessManifest.expiresAt newYear2026 300 =
      (true, "ok") := by decide
  refine ⟨rfl, rfl, endless_verifies, hverdict, ?_⟩
  have hjudge := @checkManifestAt_of_verifies endlessPlatform endlessManifest newYear2026 300 _
    alphaKey rfl rfl endless_verifies
  exact hjudge.trans rfl

end Federlet
