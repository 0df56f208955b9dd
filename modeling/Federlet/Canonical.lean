import Mathlib
import Federlet.Json
import Federlet.Reasons

/-! Canonical JSON as RFC 8785 lays it out: no blanks, members sorted by the
UTF-16 units of their names, the shortest escapes. Documents are written alike
exactly when they agree at every path, which is what the `rfc8785` package is
assumed to give. -/

namespace Federlet

namespace Canonical

def hexDigit (n : Nat) : Char := "0123456789abcdef".toList.getD n '0'

def hexValue (c : Char) : Nat := if c.isDigit then c.toNat - 48 else c.toNat - 87

def escapeControl (n : Nat) : List Char :=
  if n = 8 then ['\\', 'b'] else if n = 9 then ['\\', 't'] else if n = 10 then ['\\', 'n']
  else if n = 12 then ['\\', 'f'] else if n = 13 then ['\\', 'r']
  else ['\\', 'u', '0', '0', hexDigit (n / 16), hexDigit (n % 16)]

def escape (c : Char) : List Char :=
  if c = '"' ∨ c = '\\' then ['\\', c] else if c.toNat < 32 then escapeControl c.toNat else [c]

def unescape : List Char → Option (Char × List Char)
  | '\\' :: 'u' :: '0' :: '0' :: a :: b :: rest =>
    some (Char.ofNat (hexValue a * 16 + hexValue b), rest)
  | '\\' :: 'b' :: rest => some (Char.ofNat 8, rest)
  | '\\' :: 't' :: rest => some (Char.ofNat 9, rest)
  | '\\' :: 'n' :: rest => some (Char.ofNat 10, rest)
  | '\\' :: 'f' :: rest => some (Char.ofNat 12, rest)
  | '\\' :: 'r' :: rest => some (Char.ofNat 13, rest)
  | '\\' :: c :: rest => some (c, rest)
  | '"' :: _ => none
  | c :: rest => some (c, rest)
  | [] => none

def quote (s : String) : List Char := '"' :: (s.toList.flatMap escape ++ ['"'])

def separated {α : Type} (item : α → List Char) (close : Char) : List α → List Char
  | [] => [close]
  | a :: as => item a ++ (as.flatMap (fun b => ',' :: item b) ++ [close])

def utf16 (s : String) : List Nat :=
  s.toList.flatMap fun c =>
    if c.toNat < 65536 then [c.toNat]
    else [55296 + (c.toNat - 65536) / 1024, 56320 + (c.toNat - 65536) % 1024]

def unitsLt : List Nat → List Nat → Bool
  | _, [] => false
  | [], _ :: _ => true
  | a :: as, b :: bs => decide (a < b) || (a == b && unitsLt as bs)

/-- Members in the order of their names; of equal names the first stays. -/
def insertMember {β : Type} (k : String) (v : β) : List (String × β) → List (String × β)
  | [] => [(k, v)]
  | (k', v') :: rest =>
    if k = k' then (k, v) :: rest
    else if unitsLt (utf16 k) (utf16 k') then (k, v) :: (k', v') :: rest
    else (k', v') :: insertMember k v rest

def sortMembers {β : Type} : List (String × β) → List (String × β)
  | [] => []
  | (k, v) :: rest => insertMember k v (sortMembers rest)

def member (kt : String × List Char) : List Char := quote kt.1 ++ ':' :: kt.2

mutual
def render : Json → List Char
  | .null => "null".toList
  | .bool true => "true".toList
  | .bool false => "false".toList
  | .int i => i.repr.toList
  | .float f => f.text
  | .str s => quote s
  | .arr xs => '[' :: separated id ']' (renderList xs)
  | .obj kvs => '{' :: separated member '}' (sortMembers (renderFields kvs))
def renderList : List Json → List (List Char)
  | [] => []
  | x :: xs => render x :: renderList xs
def renderFields : List (String × Json) → List (String × List Char)
  | [] => []
  | (k, v) :: kvs => (k, render v) :: renderFields kvs
end

def utf8 (cs : List Char) : List UInt8 := cs.flatMap String.utf8EncodeChar

theorem unescape_escape (c : Char) (rest : List Char) :
    unescape (escape c ++ rest) = some (c, rest) := by
  rw [escape]
  split_ifs with hq hc
  · rcases hq with rfl | rfl <;> rfl
  · obtain ⟨n, hn, rfl⟩ : ∃ n, n < 32 ∧ c = Char.ofNat n := ⟨c.toNat, hc, (Char.ofNat_toNat c).symm⟩
    interval_cases n <;> rfl
  · obtain ⟨hquote, hback⟩ := not_or.mp hq
    unfold unescape
    split <;> simp_all

theorem escaped_inj {cs cs' r r' : List Char}
    (h : cs.flatMap escape ++ '"' :: r = cs'.flatMap escape ++ '"' :: r') : cs = cs' ∧ r = r' := by
  induction cs generalizing cs' with
  | nil =>
    cases cs' with
    | nil => exact ⟨rfl, (List.cons.inj h).2⟩
    | cons c cs' =>
      have hc := congrArg unescape h
      rw [List.flatMap_cons, List.append_assoc, unescape_escape] at hc
      cases hc
  | cons c cs ih =>
    rw [List.flatMap_cons, List.append_assoc] at h
    cases cs' with
    | nil =>
      have hc := congrArg unescape h
      rw [unescape_escape] at hc
      cases hc
    | cons c' cs' =>
      rw [List.flatMap_cons, List.append_assoc] at h
      have hc := congrArg unescape h
      rw [unescape_escape, unescape_escape, Option.some.injEq, Prod.mk.injEq] at hc
      obtain ⟨rfl, hr⟩ := ih hc.2
      exact ⟨by rw [hc.1], hr⟩

theorem quote_inj {s s' : String} {r r' : List Char} (h : quote s ++ r = quote s' ++ r') :
    s = s' ∧ r = r' := by
  simp only [quote, List.cons_append, List.append_assoc, List.cons.injEq, true_and] at h
  obtain ⟨hs, hr⟩ := escaped_inj h
  exact ⟨String.toList_inj.mp hs, hr⟩

/-- What may follow a value. -/
def Ends (r : List Char) : Prop := ∀ c ∈ r.head?, c = ',' ∨ c = ']' ∨ c = '}'

theorem ends_tail {α : Type} {item : α → List Char} {close : Char}
    (hclose : close = ']' ∨ close = '}') (as : List α) (r : List Char) :
    Ends (as.flatMap (fun b => ',' :: item b) ++ close :: r) := by
  cases as with
  | nil => simpa [Ends] using Or.inr hclose
  | cons a as => simp [Ends]

section Separated

variable {α : Type} {item : α → List Char} {close : Char} {R : α → α → Prop}

theorem tail_inj (hclose : close = ']' ∨ close = '}') {as bs : List α} {r r' : List Char}
    (hitem : ∀ a ∈ as, ∀ b r r', Ends r → Ends r' → item a ++ r = item b ++ r' → R a b ∧ r = r')
    (h : as.flatMap (fun b => ',' :: item b) ++ close :: r =
      bs.flatMap (fun b => ',' :: item b) ++ close :: r') : List.Forall₂ R as bs ∧ r = r' := by
  have hne : close ≠ ',' := by rcases hclose with rfl | rfl <;> decide
  induction as generalizing bs with
  | nil =>
    cases bs with
    | nil => exact ⟨.nil, (List.cons.inj h).2⟩
    | cons b bs => exact absurd (List.cons.inj h).1 hne
  | cons a as ih =>
    cases bs with
    | nil => exact absurd (List.cons.inj h).1 (Ne.symm hne)
    | cons b bs =>
      simp only [List.flatMap_cons, List.cons_append, List.append_assoc, List.cons.injEq, true_and]
        at h
      obtain ⟨hab, hrest⟩ := hitem a (by simp) b _ _ (ends_tail hclose as r)
        (ends_tail hclose bs r') h
      obtain ⟨hall, hr⟩ := ih (fun a ha => hitem a (List.mem_cons_of_mem _ ha)) hrest
      exact ⟨.cons hab hall, hr⟩

theorem separated_inj (hclose : close = ']' ∨ close = '}') {as bs : List α} {r r' : List Char}
    (hhead : ∀ a r, (item a ++ r).head? ≠ some close)
    (hitem : ∀ a ∈ as, ∀ b r r', Ends r → Ends r' → item a ++ r = item b ++ r' → R a b ∧ r = r')
    (h : separated item close as ++ r = separated item close bs ++ r') :
    List.Forall₂ R as bs ∧ r = r' := by
  cases as with
  | nil =>
    cases bs with
    | nil => exact ⟨.nil, (List.cons.inj h).2⟩
    | cons b bs =>
      simp only [separated, List.append_assoc] at h
      exact absurd (congrArg List.head? h).symm (hhead b _)
  | cons a as =>
    cases bs with
    | nil =>
      simp only [separated, List.append_assoc] at h
      exact absurd (congrArg List.head? h) (hhead a _)
    | cons b bs =>
      simp only [separated, List.append_assoc, List.singleton_append] at h
      obtain ⟨hab, hrest⟩ := hitem a (by simp) b _ _ (ends_tail hclose as r)
        (ends_tail hclose bs r') h
      obtain ⟨hall, hr⟩ := tail_inj hclose (fun a ha => hitem a (List.mem_cons_of_mem _ ha)) hrest
      exact ⟨.cons hab hall, hr⟩

theorem separated_map {β : Type} (g : β → α) (bs : List β) :
    separated item close (bs.map g) = separated (fun b => item (g b)) close bs := by
  cases bs with
  | nil => rfl
  | cons b bs => simp [separated, List.flatMap_map]

end Separated

theorem insertMember_map {β γ : Type} (g : β → γ) (k : String) (v : β) (l : List (String × β)) :
    insertMember k (g v) (l.map (fun kv => (kv.1, g kv.2))) =
      (insertMember k v l).map (fun kv => (kv.1, g kv.2)) := by
  induction l with
  | nil => rfl
  | cons kv l ih =>
    simp only [List.map_cons, insertMember]
    split_ifs <;> simp [ih]

theorem sortMembers_map {β γ : Type} (g : β → γ) (l : List (String × β)) :
    sortMembers (l.map (fun kv => (kv.1, g kv.2))) = (sortMembers l).map
      (fun kv => (kv.1, g kv.2)) := by
  induction l with
  | nil => rfl
  | cons kv l ih => simp only [List.map_cons, sortMembers, ih, insertMember_map]

theorem lookup_insertMember {β : Type} (k : String) (v : β) (l : List (String × β)) (j : String) :
    (insertMember k v l).lookup j = if j = k then some v else l.lookup j := by
  induction l with
  | nil =>
    by_cases hj : j = k <;> simp [insertMember, List.lookup_cons, hj, beq_eq_false_iff_ne.mpr]
  | cons kv l ih =>
    simp only [insertMember]
    split_ifs <;> simp_all [List.lookup_cons] <;> grind

theorem lookup_sortMembers {β : Type} (l : List (String × β)) (j : String) :
    (sortMembers l).lookup j = l.lookup j := by
  induction l with
  | nil => rfl
  | cons kv l ih =>
    obtain ⟨k, v⟩ := kv
    rw [sortMembers, lookup_insertMember, ih, List.lookup_cons]
    by_cases hj : j = k
    · simp [hj]
    · simp [hj, beq_eq_false_iff_ne.mpr hj]

theorem mem_insertMember {β : Type} {k : String} {v : β} {l : List (String × β)} {kv : String × β}
    (h : kv ∈ insertMember k v l) : kv = (k, v) ∨ kv ∈ l := by
  induction l with
  | nil => simpa [insertMember] using h
  | cons kv' l ih =>
    simp only [insertMember] at h
    split_ifs at h <;> simp only [List.mem_cons] at h ⊢ <;> tauto

theorem mem_sortMembers {β : Type} {l : List (String × β)} {kv : String × β}
    (h : kv ∈ sortMembers l) :
    kv ∈ l := by
  induction l with
  | nil => exact h
  | cons kv' l ih =>
    rcases mem_insertMember h with rfl | hl
    · exact List.mem_cons_self
    · exact List.mem_cons_of_mem _ (ih hl)

theorem renderList_eq (xs : List Json) : renderList xs = xs.map render := by
  induction xs with
  | nil => rfl
  | cons x xs ih => rw [renderList, ih, List.map_cons]

theorem renderFields_eq (kvs : List (String × Json)) :
    renderFields kvs = kvs.map (fun kv => (kv.1, render kv.2)) := by
  induction kvs with
  | nil => rfl
  | cons kv kvs ih => rw [renderFields, ih, List.map_cons]

def numberChar (c : Char) : Bool := c.isDigit || c == '-' || c == '+' || c == '.' || c == 'e'

def kind : Json → Nat
  | .null => 0
  | .bool _ => 1
  | .int _ | .float _ => 2
  | .str _ => 3
  | .arr _ => 4
  | .obj _ => 5

/-- The kind of a value, read off its first character. -/
def kindOf (c : Char) : Nat :=
  if c = 'n' then 0 else if c = 't' ∨ c = 'f' then 1 else if c = '"' then 3 else if c = '[' then 4
  else if c = '{' then 5 else 2

theorem numberChar_ne {c d : Char} (hc : numberChar c = true)
    (hd : d ∈ ['n', 't', 'f', '"', '[', '{', ',', ']', '}']) : c ≠ d := by
  have hno : ['n', 't', 'f', '"', '[', '{', ',', ']', '}'].all (fun d => !numberChar d) = true :=
    by decide
  rintro rfl
  simpa [hc] using List.all_eq_true.mp hno c hd

theorem kindOf_numberChar {c : Char} (hc : numberChar c = true) : kindOf c = 2 := by
  have hne := fun {d} => numberChar_ne (d := d) hc
  simp [kindOf, hne]

theorem intText_number (i : Int) : ∀ c ∈ i.repr.toList, numberChar c = true := by
  have hnat : ∀ n : Nat, ∀ c ∈ n.repr.toList, numberChar c = true := by
    intro n c hc
    rw [Nat.toList_repr] at hc
    simp [numberChar, Nat.isDigit_of_mem_toDigits (by decide) (by decide) hc]
  cases i with
  | ofNat n => exact hnat n
  | negSucc n =>
    intro c hc
    rw [Int.repr, String.toList_append, List.mem_append] at hc
    rcases hc with hc | hc
    · obtain rfl : c = '-' := by simpa using hc
      decide
    · exact hnat _ c hc

theorem intText_no_fraction (i : Int) : ∀ c ∈ i.repr.toList, c ≠ '.' ∧ c ≠ 'e' := by
  have hnat : ∀ n : Nat, ∀ c ∈ n.repr.toList, c ≠ '.' ∧ c ≠ 'e' := by
    intro n c hc
    rw [Nat.toList_repr] at hc
    have hd := Nat.isDigit_of_mem_toDigits (by decide) (by decide) hc
    constructor <;> rintro rfl <;> revert hd <;> decide
  cases i with
  | ofNat n => exact hnat n
  | negSucc n =>
    intro c hc
    rw [Int.repr, String.toList_append, List.mem_append] at hc
    rcases hc with hc | hc
    · obtain rfl : c = '-' := by simpa using hc
      decide
    · exact hnat _ c hc

theorem intText_ne_nil (i : Int) : i.repr.toList ≠ [] := by
  cases i with
  | ofNat n =>
    show n.repr.toList ≠ []
    rw [Nat.toList_repr]
    exact Nat.toDigits_ne_nil
  | negSucc n => simp [Int.repr]

theorem floatText_number (f : FloatText) : ∀ c ∈ f.text, numberChar c = true :=
  List.all_eq_true.mp f.number

theorem number_inj {t t' r r' : List Char} (ht : ∀ c ∈ t, numberChar c = true)
    (ht' : ∀ c ∈ t', numberChar c = true) (hr : Ends r) (hr' : Ends r') (h : t ++ r = t' ++ r') :
    t = t' ∧ r = r' := by
  have hstop : ∀ r, Ends r → r.takeWhile numberChar = [] := by
    intro r hr
    cases r with
    | nil => rfl
    | cons c r =>
      have hc : numberChar c = false := by
        rcases hr c rfl with rfl | rfl | rfl <;> decide
      rw [List.takeWhile_cons, hc]
      rfl
  have htake := congrArg (List.takeWhile numberChar) h
  rw [List.takeWhile_append_of_pos ht, List.takeWhile_append_of_pos ht', hstop r hr, hstop r' hr',
    List.append_nil, List.append_nil] at htake
  subst htake
  exact ⟨rfl, List.append_cancel_left h⟩

theorem head_of_number {t : List Char} (hne : t ≠ []) (ht : ∀ c ∈ t, numberChar c = true) :
    ∃ c t', t = c :: t' ∧ kindOf c = 2 ∧ c ∉ [',', ']', '}'] := by
  obtain ⟨c, t', rfl⟩ := List.exists_cons_of_ne_nil hne
  have hc := ht c List.mem_cons_self
  refine ⟨c, t', rfl, kindOf_numberChar hc, fun hm => ?_⟩
  exact numberChar_ne hc (by revert hm; simp; tauto) rfl

theorem render_head (a : Json) : ∃ c t, render a = c :: t ∧ kindOf c = kind a ∧
    c ∉ [',', ']', '}'] := by
  cases a with
  | null => exact ⟨'n', _, rfl, by decide, by decide⟩
  | bool b =>
    cases b with
    | false => exact ⟨'f', _, rfl, by decide, by decide⟩
    | true => exact ⟨'t', _, rfl, by decide, by decide⟩
  | int i => exact head_of_number (intText_ne_nil i) (intText_number i)
  | float f =>
    refine head_of_number ?_ (floatText_number f)
    intro hn
    have hf := f.fraction
    rw [render] at hn
    simp [hn] at hf
  | str s => exact ⟨'"', _, rfl, rfl, by decide⟩
  | arr xs => exact ⟨'[', _, by rw [render], rfl, by decide⟩
  | obj kvs => exact ⟨'{', _, by rw [render], rfl, by decide⟩

theorem kind_eq_of_render {a b : Json} {r r' : List Char} (h : render a ++ r = render b ++ r') :
    kind a = kind b := by
  obtain ⟨c, t, ha, hka, _⟩ := render_head a
  obtain ⟨c', t', hb, hkb, _⟩ := render_head b
  rw [ha, hb] at h
  rw [← hka, ← hkb, (List.cons.inj h).1]

theorem render_head_ne (a : Json) (r : List Char) : (render a ++ r).head? ≠ some ']' := by
  obtain ⟨c, t, ha, _, hc⟩ := render_head a
  rw [ha]
  intro h
  exact hc (by simp [Option.some.inj h])

theorem member_inj {kv kv' : String × Json} {r r' : List Char}
    (hv : ∀ r r', Ends r → Ends r' → render kv.2 ++ r = render kv'.2 ++ r' →
      kv.2.Same kv'.2 ∧ r = r')
    (hr : Ends r) (hr' : Ends r')
    (h : member (kv.1, render kv.2) ++ r = member (kv'.1, render kv'.2) ++ r') :
    (kv.1 = kv'.1 ∧ kv.2.Same kv'.2) ∧ r = r' := by
  simp only [member, List.append_assoc, List.cons_append] at h
  obtain ⟨hk, hrest⟩ := quote_inj h
  obtain ⟨hs, he⟩ := hv r r' hr hr' (List.cons.inj hrest).2
  exact ⟨⟨hk, hs⟩, he⟩

theorem lookup_rel {l l' : List (String × Json)}
    (h : List.Forall₂ (fun kv kv' => kv.1 = kv'.1 ∧ kv.2.Same kv'.2) l l') (k : String) :
    Option.Rel Json.Same (l.lookup k) (l'.lookup k) := by
  induction h with
  | nil => exact .none
  | @cons kv kv' _ _ hkv _ ih =>
    obtain ⟨j, v⟩ := kv
    obtain ⟨j', v'⟩ := kv'
    obtain ⟨rfl, hv⟩ := hkv
    rw [List.lookup_cons, List.lookup_cons]
    cases k == j
    · exact ih
    · exact .some hv

theorem render_inj {a b : Json} {r r' : List Char} (hr : Ends r) (hr' : Ends r')
    (h : render a ++ r = render b ++ r') : a.Same b ∧ r = r' := by
  induction a using Json.induction generalizing b r r' with
  | null =>
    have hk := kind_eq_of_render h
    cases b with
    | null => exact ⟨fun _ => rfl, List.append_cancel_left h⟩
    | bool | int | float | str | arr | obj => simp [kind] at hk
  | bool b' =>
    have hk := kind_eq_of_render h
    cases b with
    | bool b => cases b <;> cases b' <;> simp_all [render, Json.Same]
    | null | int | float | str | arr | obj => simp [kind] at hk
  | int i =>
    have hk := kind_eq_of_render h
    cases b with
    | int j =>
      obtain ⟨ht, he⟩ := number_inj (intText_number i) (intText_number j) hr hr' h
      obtain rfl := Int.repr_injective (String.toList_inj.mp ht)
      exact ⟨fun _ => rfl, he⟩
    | float f =>
      obtain ⟨ht, _⟩ := number_inj (intText_number i) (floatText_number f) hr hr' h
      obtain ⟨c, hc, hfrac⟩ := List.any_eq_true.mp f.fraction
      have hno := intText_no_fraction i c (ht ▸ hc)
      simp [hno] at hfrac
    | null | bool | str | arr | obj => simp [kind] at hk
  | float f =>
    have hk := kind_eq_of_render h
    cases b with
    | int j =>
      obtain ⟨ht, _⟩ := number_inj (floatText_number f) (intText_number j) hr hr' h
      obtain ⟨c, hc, hfrac⟩ := List.any_eq_true.mp f.fraction
      have hno := intText_no_fraction j c (ht ▸ hc)
      simp [hno] at hfrac
    | float g =>
      obtain ⟨ht, he⟩ := number_inj (floatText_number f) (floatText_number g) hr hr' h
      exact ⟨.of_leaf (fun _ => rfl) (fun _ => rfl) (by simp only [Json.shape, ht]), he⟩
    | null | bool | str | arr | obj => simp [kind] at hk
  | str s =>
    have hk := kind_eq_of_render h
    cases b with
    | str s' =>
      obtain ⟨rfl, he⟩ := quote_inj h
      exact ⟨fun _ => rfl, he⟩
    | null | bool | int | float | arr | obj => simp [kind] at hk
  | arr xs ih =>
    have hk := kind_eq_of_render h
    cases b with
    | arr ys =>
      rw [render, render, renderList_eq, renderList_eq, separated_map, separated_map] at h
      obtain ⟨hall, he⟩ := separated_inj (R := Json.Same) (.inl rfl) render_head_ne
        (fun x hx y r r' hr hr' hxy => ih x hx hr hr' hxy) (List.cons.inj h).2
      exact ⟨.arr hall, he⟩
    | null | bool | int | float | str | obj => simp [kind] at hk
  | obj kvs ih =>
    have hk := kind_eq_of_render h
    cases b with
    | obj kvs' =>
      rw [render, render, renderFields_eq, renderFields_eq, sortMembers_map, sortMembers_map,
        separated_map, separated_map] at h
      obtain ⟨hall, he⟩ := separated_inj (R := fun kv kv' => kv.1 = kv'.1 ∧ Json.Same kv.2 kv'.2)
        (.inr rfl) (fun kv r => by simp [member, quote])
        (fun kv hkv kv' r r' hr hr' hm =>
          member_inj (fun r r' hr hr' hv => ih kv (mem_sortMembers hkv) hr hr' hv) hr hr' hm)
        (List.cons.inj h).2
      refine ⟨.obj fun k => ?_, he⟩
      rw [← lookup_sortMembers kvs, ← lookup_sortMembers kvs']
      exact lookup_rel hall k
    | null | bool | int | float | str | arr => simp [kind] at hk

def dumps (j : Json) : Except Exc (List UInt8) :=
  if j.safe then .ok (utf8 (render j)) else .error .canonicalizationError

theorem utf8_inj {cs cs' : List Char} (h : utf8 cs = utf8 cs') : cs = cs' :=
  String.ofList_inj.mp (String.toByteArray_inj.mp (congrArg List.toByteArray h))

theorem dumps_safe {j : Json} (h : j.safe = true) : dumps j = .ok (utf8 (render j)) := if_pos h

theorem dumps_outside {j : Json} (h : j.safe = false) :
    dumps j = .error .canonicalizationError := by
  rw [dumps, h]
  rfl

theorem dumps_inj {a b : Json} {x : List UInt8} (ha : dumps a = .ok x) (hb : dumps b = .ok x) :
    a.Same b := by
  unfold dumps at ha hb
  split_ifs at ha hb
  cases ha
  have h := utf8_inj (Except.ok.inj hb).symm
  exact (@render_inj a b [] [] (by simp [Ends]) (by simp [Ends]) (by simpa using h)).1

end Canonical

end Federlet
