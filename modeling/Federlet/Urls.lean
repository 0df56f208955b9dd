import Federlet.Calls
import Federlet.Revocation

/-! Joining a base URL and a path. -/

namespace Federlet

def lstripSlashes (s : String) : String := String.ofList (s.toList.dropWhile (· = '/'))

def wellKnownUrl (P : Platform) (baseUrl path : String) : Except Exc String := do
  let own ← urlsplit P path
  if own.scheme ≠ [] then return path
  let split ← urlsplit P baseUrl
  if split.scheme = [] ∨ split.netloc = [] then throw .valueError
  let base := rstripSlashes baseUrl
  let suffix := lstripSlashes path
  return if suffix ≠ "" then base ++ "/" ++ suffix else base

section Split

def cleaned (url : List Char) : List Char :=
  (url.dropWhile (fun c => c.toNat ≤ 32)).filter (fun c => c ≠ '\t' ∧ c ≠ '\r' ∧ c ≠ '\n')

/-- The authority goes on. -/
def inNetloc (c : Char) : Bool := decide (c ≠ '/' ∧ c ≠ '?' ∧ c ≠ '#')

/-- The scheme, and the authority at the front of the rest. -/
def splitAuthority (P : Platform) (scheme rest : List Char) : Except Exc SplitResult :=
  match rest with
  | '/' :: '/' :: rest =>
    let netloc := rest.takeWhile inNetloc
    if decide ('[' ∈ netloc) ≠ decide (']' ∈ netloc) then .error .valueError
    else if P.netlocAccepted (String.ofList netloc) then .ok ⟨scheme, netloc⟩
    else .error .valueError
  | _ => .ok ⟨scheme, []⟩

theorem urlsplit_eq (P : Platform) (url : String) :
    urlsplit P url = splitAuthority P (splitScheme (cleaned url.toList)).1
      (splitScheme (cleaned url.toList)).2 := rfl

theorem takeWhile_append_stop {p : Char → Bool} (u : List Char) {x : List Char}
    (hx : x.takeWhile p = []) : (u ++ x).takeWhile p = u.takeWhile p := by
  induction u with
  | nil => exact hx
  | cons c u ih =>
    rw [List.cons_append, List.takeWhile_cons, List.takeWhile_cons, ih]

theorem takeWhile_append_of_mem {p : Char → Bool} {u : List Char} (x : List Char)
    {c : Char} (hc : c ∈ u) (hp : p c = false) : (u ++ x).takeWhile p = u.takeWhile p := by
  induction u with
  | nil => cases hc
  | cons d u ih =>
    rw [List.cons_append, List.takeWhile_cons, List.takeWhile_cons]
    rcases List.mem_cons.mp hc with rfl | hmem
    · simp [hp]
    · rw [ih hmem]

theorem splitScheme_append {u : List Char} (x : List Char) (hcolon : ':' ∈ u) :
    splitScheme (u ++ x) = ((splitScheme u).1, (splitScheme u).2 ++ x) := by
  have hscheme : (u ++ x).takeWhile (· ≠ ':') = u.takeWhile (· ≠ ':') :=
    takeWhile_append_of_mem x hcolon (by simp)
  have hlength : (u.takeWhile (· ≠ ':')).length + 1 ≤ u.length := by
    have hsplit := congrArg List.length (List.takeWhile_append_dropWhile (p := (· ≠ ':')) (l := u))
    have hne : u.dropWhile (· ≠ ':') ≠ [] := by
      intro h
      rw [List.dropWhile_eq_nil_iff] at h
      have hfalse := h ':' hcolon
      simp at hfalse
    have hpos := List.length_pos_iff.mpr hne
    rw [List.length_append] at hsplit
    omega
  have hcolon' : ':' ∈ u ++ x := List.mem_append_left _ hcolon
  simp only [splitScheme, hscheme, hcolon, hcolon', true_and]
  split_ifs
  · rw [List.drop_append_of_le_length hlength]
  · rfl

theorem splitAuthority_netloc {P : Platform} {scheme rest : List Char} {split : SplitResult}
    (h : splitAuthority P scheme rest = .ok split) (hnetloc : split.netloc ≠ []) :
    ∃ body, rest = '/' :: '/' :: body ∧ body.takeWhile inNetloc ≠ [] := by
  unfold splitAuthority at h
  split at h
  · rename_i body
    dsimp only at h
    split_ifs at h
    obtain rfl := Except.ok.inj h
    exact ⟨body, rfl, hnetloc⟩
  · obtain rfl := Except.ok.inj h
    exact absurd rfl hnetloc

theorem splitAuthority_exchange {P : Platform} {scheme rest slashes path : List Char}
    {split : SplitResult} (hslashes : ∀ c ∈ slashes, c = '/') (hpath : path.takeWhile inNetloc = [])
    (h : splitAuthority P scheme (rest ++ slashes) = .ok split) (hnetloc : split.netloc ≠ []) :
    splitAuthority P scheme (rest ++ path) = .ok split := by
  have hstop : ∀ x : List Char, (∀ c ∈ x, c = '/') → x.takeWhile inNetloc = [] := by
    rintro (_ | ⟨c, x⟩) hx
    · rfl
    · obtain rfl := hx c List.mem_cons_self
      rfl
  obtain ⟨body, hrest, hbody⟩ := splitAuthority_netloc h hnetloc
  match rest with
  | [] =>
    have hslash : ∀ c ∈ body, c = '/' := fun c hc => hslashes c (by simp_all)
    exact absurd (hstop body hslash) hbody
  | [_] =>
    have hslash : ∀ c ∈ body, c = '/' := fun c hc => hslashes c (by simp_all)
    exact absurd (hstop body hslash) hbody
  | c :: d :: tail =>
    obtain ⟨rfl, rfl, -⟩ : c = '/' ∧ d = '/' ∧ tail ++ slashes = body := by simpa using hrest
    have htail : (tail ++ slashes).takeWhile inNetloc = (tail ++ path).takeWhile inNetloc := by
      rw [takeWhile_append_stop tail (hstop slashes hslashes), takeWhile_append_stop tail hpath]
    simp only [List.cons_append, splitAuthority, htail] at h ⊢
    exact h

theorem cleaned_append {core : List Char} (x : List Char) (hcore : ∃ c ∈ core, 32 < c.toNat) :
    cleaned (core ++ x) = cleaned core ++ x.filter (fun c => c ≠ '\t' ∧ c ≠ '\r' ∧ c ≠ '\n') := by
  have hdrop : (core ++ x).dropWhile (fun c => c.toNat ≤ 32) = core.dropWhile
      (fun c => c.toNat ≤ 32) ++ x := by
    rw [List.dropWhile_append, if_neg]
    obtain ⟨c, hc, hgreat⟩ := hcore
    simp only [List.isEmpty_iff, List.dropWhile_eq_nil_iff, decide_eq_true_eq, not_forall]
    exact ⟨c, hc, by omega⟩
  rw [cleaned, hdrop, List.filter_append, cleaned]

end Split

theorem rstripSlashes_append (s : String) :
    ∃ slashes, s.toList = (rstripSlashes s).toList ++ slashes ∧ ∀ c ∈ slashes, c = '/' := by
  refine ⟨(s.toList.reverse.takeWhile (· = '/')).reverse, ?_, fun c hc => ?_⟩
  · rw [rstripSlashes, String.toList_ofList, ← List.reverse_append, List.takeWhile_append_dropWhile,
      List.reverse_reverse]
  · simpa using List.mem_takeWhile_imp (List.mem_reverse.mp hc)

theorem colon_of_scheme {u : List Char} (h : (splitScheme u).1 ≠ []) : ':' ∈ u := by
  unfold splitScheme at h
  dsimp only at h
  split_ifs at h with hcolon
  · exact hcolon.1
  · exact absurd rfl h

theorem urlsplit_scheme {P : Platform} {url : String} {split : SplitResult}
    (h : urlsplit P url = .ok split) :
    split.scheme = (splitScheme (cleaned url.toList)).1 := by
  rw [urlsplit_eq] at h
  unfold splitAuthority at h
  split at h
  · dsimp only at h
    split_ifs at h
    rw [← Except.ok.inj h]
  · rw [← Except.ok.inj h]

/-- Slashes at the end of an absolute URL may be exchanged for a path: scheme and
authority stay. -/
theorem urlsplit_exchange {P : Platform} {baseUrl url : String} {split : SplitResult}
    {path : List Char} (h : urlsplit P baseUrl = .ok split) (hscheme : split.scheme ≠ [])
    (hnetloc : split.netloc ≠ []) (hpath : path = [] ∨ ∃ rest, path = '/' :: rest)
    (hurl : url.toList = (rstripSlashes baseUrl).toList ++ path) :
    urlsplit P url = .ok split := by
  obtain ⟨slashes, hbase, hslashes⟩ := rstripSlashes_append baseUrl
  have hkept : slashes.filter (fun c => c ≠ '\t' ∧ c ≠ '\r' ∧ c ≠ '\n') = slashes := by
    refine List.filter_eq_self.mpr fun c hc => ?_
    obtain rfl := hslashes c hc
    rfl
  have hcolon : ':' ∈ (rstripSlashes baseUrl).toList := by
    have hmem : ':' ∈ baseUrl.toList := by
      have hcleaned := colon_of_scheme (urlsplit_scheme h ▸ hscheme)
      exact (List.dropWhile_sublist _).mem (List.mem_of_mem_filter hcleaned)
    rw [hbase] at hmem
    refine (List.mem_append.mp hmem).resolve_right fun hslash => ?_
    exact absurd (hslashes ':' hslash) (by decide)
  have hgreat : ∃ c ∈ (rstripSlashes baseUrl).toList, 32 < c.toNat := ⟨':', hcolon, by decide⟩
  have hcleaned : ':' ∈ cleaned (rstripSlashes baseUrl).toList := by
    have hboth := colon_of_scheme (urlsplit_scheme h ▸ hscheme)
    rw [hbase, cleaned_append slashes hgreat, hkept] at hboth
    refine (List.mem_append.mp hboth).resolve_right fun hslash => ?_
    exact absurd (hslashes ':' hslash) (by decide)
  rw [urlsplit_eq, hbase, cleaned_append slashes hgreat, hkept, splitScheme_append slashes hcleaned]
    at h
  rw [urlsplit_eq, hurl, cleaned_append path hgreat, splitScheme_append _ hcleaned]
  refine splitAuthority_exchange hslashes ?_ h hnetloc
  obtain rfl | ⟨rest, rfl⟩ := hpath <;> rfl

/-- A joined URL has the scheme and the authority of the base, unless the path is a URL
of its own. -/
theorem wellKnownUrl_ok {P : Platform} {baseUrl path url : String}
    (h : wellKnownUrl P baseUrl path = .ok url) :
    (∃ own, urlsplit P path = .ok own ∧ own.scheme ≠ [] ∧ url = path) ∨
      ∃ split, urlsplit P baseUrl = .ok split ∧ split.scheme ≠ [] ∧ split.netloc ≠ [] ∧
      urlsplit P url = .ok split := by
  cases hown : urlsplit P path with
  | error e => simp [wellKnownUrl, hown, bind, Except.bind] at h
  | ok own =>
    by_cases hscheme : own.scheme ≠ []
    · have hsame : path = url := by
        simpa [wellKnownUrl, hown, hscheme, bind, Except.bind, pure, Except.pure] using h
      exact .inl ⟨own, rfl, hscheme, hsame.symm⟩
    cases hsplit : urlsplit P baseUrl with
    | error e => simp [wellKnownUrl, hown, hscheme, hsplit, bind, Except.bind] at h
    | ok split =>
      simp only [wellKnownUrl, hown, hscheme, hsplit, bind, Except.bind, pure, Except.pure,
        throw, throwThe, MonadExceptOf.throw, if_false] at h
      split_ifs at h with hrelative hsuffix
      · obtain rfl := Except.ok.inj h
        obtain ⟨hbase, hnetloc⟩ := not_or.mp hrelative
        have hurl : (rstripSlashes baseUrl ++ "/" ++ lstripSlashes path).toList =
            (rstripSlashes baseUrl).toList ++ '/' :: (lstripSlashes path).toList := by
          simp
        exact .inr ⟨split, rfl, hbase, hnetloc, urlsplit_exchange hsplit hbase hnetloc
          (.inr ⟨_, rfl⟩) hurl⟩
      · obtain rfl := Except.ok.inj h
        obtain ⟨hbase, hnetloc⟩ := not_or.mp hrelative
        have hsame := urlsplit_exchange hsplit hbase hnetloc (.inl rfl) (List.append_nil _).symm
        exact .inr ⟨split, rfl, hbase, hnetloc, hsame⟩

/-- A path that looks like an authority is still a path of the base. -/
theorem slashes_keep_authority : ∃ url,
    wellKnownUrl noticePlatform "https://alpha.example/" "//beta.example/m" = .ok url ∧
      urlsplit noticePlatform url = .ok ⟨"https".toList, "alpha.example".toList⟩ := by
  have hjoined : wellKnownUrl noticePlatform "https://alpha.example/" "//beta.example/m" =
    .ok "https://alpha.example/beta.example/m" := by rfl
  refine ⟨_, hjoined, ?_⟩
  obtain ⟨own, hown, hscheme, -⟩ | ⟨split, hbase, -, -, hsame⟩ := wellKnownUrl_ok hjoined
  · obtain rfl : (⟨[], "beta.example".toList⟩ : SplitResult) = own := Except.ok.inj hown
    exact absurd rfl hscheme
  · obtain rfl : (⟨"https".toList, "alpha.example".toList⟩ : SplitResult) = split :=
      Except.ok.inj hbase
    exact hsame

end Federlet
