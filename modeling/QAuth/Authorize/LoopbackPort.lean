import QAuth.Authorize.RedirectUri

/-!
# The port exception

A requested redirect URI matches a registered one when they are the same text, or when both have
the shape of a loopback redirect and are the same text once the port is taken out. What the
pattern lets through is then read by the URL parser: the browser sends the response to the host
that the parser finds.

The pattern fixes all that stands before the path, and what stands there is nothing the parser
would read otherwise: no blank is dropped from it, no at sign or backslash moves the end of the
host. The host is one of two names, or four numbers. A number with a leading zero is octal for the
parser, so `127.0.0.010` is another loopback address, the same on both sides; and `127.0.0.09`
is none at all, so that neither text is an address, and the policy refuses it.
-/

namespace QAuth.Authorize

open Text (charsOf units unitsOf)

/-! ### The text of a loopback redirect -/

def portText : Option (List Char) → List Char
  | none => []
  | some port => ':' :: port

def loopbackText (host : List Char) (port : Option (List Char)) (rest : JsString) : JsString :=
  units "http://" ++ (host ++ portText port).flatMap unitsOf ++ rest

/-- One to three digits. -/
def IsGroup (octet : List Char) : Prop :=
  octet ≠ [] ∧ octet.length ≤ 3 ∧ ∀ c ∈ octet, c.isDigit = true

instance (octet : List Char) : Decidable (IsGroup octet) :=
  inferInstanceAs (Decidable (_ ∧ _ ∧ _))

/-- A host that the pattern captures. -/
inductive IsShape : List Char → Prop
  | bracketed : IsShape "[::1]".toList
  | localhost : IsShape "localhost".toList
  | dotted {octets : List (List Char)} (hlength : octets.length = 3)
      (hoctets : ∀ octet ∈ octets, IsGroup octet) : IsShape (Words.join '.' ("127".toList :: octets))

/-- The digits of a port. -/
structure IsPort (port : List Char) : Prop where
  ne_nil : port ≠ []
  length_le : port.length ≤ 5
  digits : ∀ c ∈ port, c.isDigit = true
  canonical : isCanonicalPort port = true

variable {platform : Url.Platform} {uri requested rest : JsString} {registered : List JsString}
  {host : List Char} {port : Option (List Char)}

theorem isDigit_ofNat {u : UInt16} (h : isDigit u = true) :
    (Char.ofNat u.toNat).isDigit = true ∧ unitsOf (Char.ofNat u.toNat) = [u] := by
  simp only [isDigit, Bool.and_eq_true, decide_eq_true_eq, UInt16.le_iff_toNat_le,
    UInt16.reduceToNat] at h
  constructor
  · have hdigit : ∀ n < 0x3A, 0x30 ≤ n → (Char.ofNat n).isDigit = true := by decide
    exact hdigit u.toNat (by omega) h.1
  · refine Text.unitsOf_ofNat ?_ ?_
    · simp only [Text.isHigh, Bool.and_eq_false_iff, decide_eq_false_iff_not,
        UInt16.le_iff_toNat_le, UInt16.reduceToNat]
      omega
    · simp only [Text.isLow, Bool.and_eq_false_iff, decide_eq_false_iff_not,
        UInt16.le_iff_toNat_le, UInt16.reduceToNat]
      omega

theorem charsOf_digits {text : JsString} (h : ∀ u ∈ text, isDigit u = true) :
    (∀ c ∈ charsOf text, c.isDigit = true) ∧ (charsOf text).flatMap unitsOf = text := by
  have htext : (text.map fun u ↦ Char.ofNat u.toNat).flatMap unitsOf = text := by
    rw [List.flatMap_map, List.flatMap_congr fun u hu ↦ (isDigit_ofNat (h u hu)).2]
    simp
  have hchars : charsOf text = text.map fun u ↦ Char.ofNat u.toNat := by
    conv_lhs => rw [← htext]
    rw [Text.charsOf_flatMap_unitsOf]
  rw [hchars]
  refine ⟨fun c hc ↦ ?_, htext⟩
  obtain ⟨u, hu, rfl⟩ := List.mem_map.mp hc
  exact (isDigit_ofNat (h u hu)).1

theorem digits_eq {text : JsString} {octet : List Char} (h : digits text = (octet, rest)) :
    text = octet.flatMap unitsOf ++ rest ∧ ∀ c ∈ octet, c.isDigit = true := by
  rw [digits, List.span_eq_takeWhile_dropWhile] at h
  obtain ⟨rfl, rfl⟩ := Prod.mk.inj h
  have hall : ∀ u ∈ text.takeWhile isDigit, isDigit u = true := fun u hu ↦
    List.mem_takeWhile_imp hu
  obtain ⟨hdigits, htext⟩ := charsOf_digits hall
  rw [htext, List.takeWhile_append_dropWhile]
  exact ⟨rfl, hdigits⟩

theorem dottedOctets_eq_some {n : ℕ} {text : JsString} {dotted : List Char}
    (h : dottedOctets n text = some (dotted, rest)) : ∃ octets : List (List Char),
      octets.length = n ∧ (∀ octet ∈ octets, IsGroup octet) ∧ dotted = octets.flatMap ('.' :: ·) ∧
        text = dotted.flatMap unitsOf ++ rest := by
  induction n generalizing text dotted with
  | zero =>
    obtain ⟨rfl, rfl⟩ := Prod.mk.inj (Option.some.inj h)
    exact ⟨[], rfl, nofun, rfl, rfl⟩
  | succ n ih =>
    rw [dottedOctets.eq_def] at h
    split at h
    · next heq => cases heq
    · next m text heq =>
      obtain rfl := Nat.succ.inj heq
      rcases hcut : digits text with ⟨octet, after⟩
      rw [hcut] at h
      obtain ⟨hlength, h⟩ := Option.ite_none_right_eq_some.mp h
      obtain ⟨⟨dotted, rest⟩, hdotted, hpair⟩ := Option.map_eq_some_iff.mp h
      obtain ⟨rfl, rfl⟩ := Prod.mk.inj hpair
      obtain ⟨octets, hn, hoctets, rfl, rfl⟩ := ih hdotted
      obtain ⟨rfl, hdigits⟩ := digits_eq hcut
      refine ⟨octet :: octets, congrArg (· + 1) hn, ?_, rfl, ?_⟩
      · rintro octet hmem
        rcases List.mem_cons.mp hmem with rfl | hmem
        · exact ⟨List.ne_nil_of_length_pos hlength.1, hlength.2, hdigits⟩
        · exact hoctets octet hmem
      · have hdot : unitsOf '.' = [0x2E] := by decide
        simp [hdot]
    · cases h

theorem join_cons_eq (first : List Char) (octets : List (List Char)) :
    Words.join '.' (first :: octets) = first ++ octets.flatMap ('.' :: ·) := by
  induction octets generalizing first with
  | nil => simp [Words.join]
  | cons octet octets ih => rw [Words.join_cons_cons, ih, List.flatMap_cons, List.cons_append]

theorem loopbackHost_eq_some {text : JsString} (h : loopbackHost text = some (host, rest)) :
    IsShape host ∧ text = host.flatMap unitsOf ++ rest := by
  rw [loopbackHost] at h
  split at h
  · next rest' hafter =>
    obtain ⟨rfl, rfl⟩ := Prod.mk.inj (Option.some.inj h)
    exact ⟨.bracketed, Words.after_eq_some_iff.mp hafter⟩
  · split at h
    · next rest' hafter =>
      obtain ⟨rfl, rfl⟩ := Prod.mk.inj (Option.some.inj h)
      exact ⟨.localhost, Words.after_eq_some_iff.mp hafter⟩
    · obtain ⟨text', hafter, h⟩ := Option.bind_eq_some_iff.mp h
      obtain ⟨⟨dotted, rest⟩, hdotted, hpair⟩ := Option.map_eq_some_iff.mp h
      obtain ⟨rfl, rfl⟩ := Prod.mk.inj hpair
      obtain ⟨octets, hlength, hoctets, rfl, htext⟩ := dottedOctets_eq_some hdotted
      have hhost : "127".toList ++ octets.flatMap ('.' :: ·) =
          Words.join '.' ("127".toList :: octets) := (join_cons_eq _ _).symm
      refine ⟨?_, ?_⟩
      · rw [hhost]
        exact .dotted hlength hoctets
      · rw [Words.after_eq_some_iff.mp hafter, htext, List.flatMap_append, List.append_assoc]
        rfl

theorem optionalPort_eq_some {text : JsString} (h : optionalPort text = some (port, rest)) :
    text = (portText port).flatMap unitsOf ++ rest ∧
      ∀ digits ∈ port, digits ≠ [] ∧ digits.length ≤ 5 ∧ ∀ c ∈ digits, c.isDigit = true := by
  rw [optionalPort.eq_def] at h
  split at h
  · next text =>
    rcases hcut : digits text with ⟨octet, after⟩
    rw [hcut] at h
    obtain ⟨hlength, h⟩ := Option.ite_none_right_eq_some.mp h
    obtain ⟨rfl, rfl⟩ := Prod.mk.inj (Option.some.inj h)
    obtain ⟨rfl, hdigits⟩ := digits_eq hcut
    refine ⟨?_, ?_⟩
    · have hcolon : unitsOf ':' = [0x3A] := by decide
      simp [portText, hcolon]
    · rintro _ ⟨⟩
      exact ⟨List.ne_nil_of_length_pos hlength.1, hlength.2, hdigits⟩
  · obtain ⟨rfl, rfl⟩ := Prod.mk.inj (Option.some.inj h)
    exact ⟨rfl, nofun⟩

/-- What the pattern captures, and the text it was found in. -/
theorem splitLoopbackRedirect_eq_some {split : Split} (h : splitLoopbackRedirect uri = some split) :
    ∃ host port rest, uri = loopbackText host port rest ∧ IsShape host ∧
      ("127.".toList.isPrefixOf host = true → isIpv4LoopbackHost host = true) ∧
      (∀ digits ∈ port, IsPort digits) ∧ isRest rest = true ∧
      split.withoutPort = units "http://" ++ host.flatMap unitsOf ++ rest := by
  obtain ⟨⟨host, port, rest⟩, hshape, h⟩ := Option.bind_eq_some_iff.mp h
  obtain ⟨hhost, h⟩ := Option.ite_none_left_eq_some.mp h
  obtain ⟨hport, h⟩ := Option.ite_none_left_eq_some.mp h
  obtain ⟨text, hscheme, hshape⟩ := Option.bind_eq_some_iff.mp hshape
  obtain ⟨⟨_, text'⟩, hbefore, hshape⟩ := Option.bind_eq_some_iff.mp hshape
  obtain ⟨⟨_, _⟩, hbetween, hshape⟩ := Option.bind_eq_some_iff.mp hshape
  obtain ⟨hrest, hshape⟩ := Option.ite_none_right_eq_some.mp hshape
  cases hshape
  obtain ⟨hisShape, rfl⟩ := loopbackHost_eq_some hbefore
  obtain ⟨rfl, hdigits⟩ := optionalPort_eq_some hbetween
  refine ⟨host, port, rest, ?_, hisShape, ?_, ?_, hrest, ?_⟩
  · rw [Words.after_eq_some_iff.mp hscheme, loopbackText, List.flatMap_append]
    simp only [List.append_assoc]
  · intro hstarts
    rw [hstarts] at hhost
    simpa using hhost
  · intro digits hmem
    obtain ⟨hne, hlength, hall⟩ := hdigits digits hmem
    obtain rfl := Option.mem_def.mp hmem
    exact ⟨hne, hlength, hall, by simpa using hport⟩
  · rw [← Option.some.inj h]

/-! ### What the pattern captures in it -/

theorem digits_append {octet : List Char} (hoctet : ∀ c ∈ octet, c.isDigit = true)
    (hrest : ∀ u ∈ rest.head?, isDigit u = false) :
    digits (octet.flatMap unitsOf ++ rest) = (octet, rest) := by
  have hall : ∀ u ∈ octet.flatMap unitsOf, isDigit u = true := by
    intro u hu
    obtain ⟨c, hc, hu⟩ := List.mem_flatMap.mp hu
    have hlt : c.toNat < 128 := Url.isPlain_lt (Url.isDigit_facts (hoctet c hc)).1
    have hdigit := Url.ascii_induction
      (p := fun c ↦ c.isDigit = true → ∀ u ∈ unitsOf c, isDigit u = true) (by decide) hlt
    exact hdigit (hoctet c hc) u hu
  rw [digits, Words.span_append hall hrest]
  exact congrArg (·, rest) (Text.charsOf_flatMap_unitsOf octet)

theorem dottedOctets_append {octets : List (List Char)} (hoctets : ∀ octet ∈ octets, IsGroup octet)
    (hrest : ∀ u ∈ rest.head?, isDigit u = false) :
    dottedOctets octets.length ((octets.flatMap ('.' :: ·)).flatMap unitsOf ++ rest) =
      some (octets.flatMap ('.' :: ·), rest) := by
  induction octets with
  | nil => rfl
  | cons octet octets ih =>
    have hgroup := hoctets octet List.mem_cons_self
    have htext : ((octet :: octets).flatMap ('.' :: ·)).flatMap unitsOf ++ rest =
        0x2E :: (octet.flatMap unitsOf ++
          ((octets.flatMap ('.' :: ·)).flatMap unitsOf ++ rest)) := by
      have hdot : unitsOf '.' = [0x2E] := by decide
      simp [hdot]
    have hnext : ∀ u ∈ ((octets.flatMap ('.' :: ·)).flatMap unitsOf ++ rest).head?,
        isDigit u = false := by
      cases octets with
      | nil => exact hrest
      | cons next octets =>
        rintro u ⟨⟩
        decide
    rw [htext, List.length_cons, dottedOctets, digits_append hgroup.2.2 hnext]
    have hlength : 1 ≤ octet.length := List.length_pos_iff.mpr hgroup.1
    simp only [hlength, hgroup.2.1, and_self, if_true]
    rw [ih fun o ho ↦ hoctets o (List.mem_cons_of_mem _ ho)]
    rfl

theorem loopbackHost_append (hshape : IsShape host) (hrest : ∀ u ∈ rest.head?, isDigit u = false) :
    loopbackHost (host.flatMap unitsOf ++ rest) = some (host, rest) := by
  cases hshape with
  | bracketed =>
    have hafter : Words.after (units "[::1]") ("[::1]".toList.flatMap unitsOf ++ rest) = some rest :=
      Words.after_eq_some_iff.mpr rfl
    rw [loopbackHost, hafter]
  | localhost =>
    have hfirst : Words.after (units "[::1]") ("localhost".toList.flatMap unitsOf ++ rest) = none :=
      rfl
    have hafter : Words.after (units "localhost") ("localhost".toList.flatMap unitsOf ++ rest) =
        some rest := Words.after_eq_some_iff.mpr rfl
    rw [loopbackHost, hfirst]
    simp only [hafter]
  | @dotted octets hlength hoctets =>
    rw [join_cons_eq, List.flatMap_append, List.append_assoc]
    generalize htext : (octets.flatMap ('.' :: ·)).flatMap unitsOf ++ rest = text
    have hfirst : Words.after (units "[::1]") ("127".toList.flatMap unitsOf ++ text) = none := rfl
    have hsecond : Words.after (units "localhost") ("127".toList.flatMap unitsOf ++ text) = none :=
      rfl
    have hafter : Words.after (units "127") ("127".toList.flatMap unitsOf ++ text) = some text :=
      Words.after_eq_some_iff.mpr rfl
    have hdotted := dottedOctets_append hoctets hrest
    rw [hlength, htext] at hdotted
    rw [loopbackHost, hfirst]
    simp only [hsecond, hafter, Option.bind_some, hdotted, Option.map_some]

theorem isRest_head (h : isRest rest = true) :
    ∀ u ∈ rest.head?, isDigit u = false ∧ u ≠ 0x3A := by
  cases rest with
  | nil => nofun
  | cons u rest =>
    rintro _ ⟨⟩
    simp only [isRest, Bool.and_eq_true, List.contains_iff_mem, List.mem_cons, List.not_mem_nil,
      or_false] at h
    rcases h.1 with rfl | rfl | rfl <;> decide

theorem optionalPort_append (hport : ∀ digits ∈ port, IsPort digits) (hrest : isRest rest = true) :
    optionalPort ((portText port).flatMap unitsOf ++ rest) = some (port, rest) := by
  have hhead := isRest_head hrest
  cases port with
  | none =>
    change optionalPort rest = _
    rw [optionalPort.eq_def]
    split
    · exact absurd rfl (hhead 0x3A rfl).2
    · rfl
  | some digits =>
    have hdigits := hport digits rfl
    change optionalPort (0x3A :: (digits.flatMap unitsOf ++ rest)) = _
    rw [optionalPort, digits_append hdigits.digits fun u hu ↦ (hhead u hu).1]
    exact if_pos ⟨List.length_pos_iff.mpr hdigits.ne_nil, hdigits.length_le⟩

theorem splitLoopbackRedirect_loopbackText (hshape : IsShape host)
    (hipv4 : "127.".toList.isPrefixOf host = true → isIpv4LoopbackHost host = true)
    (hport : ∀ digits ∈ port, IsPort digits) (hrest : isRest rest = true) :
    splitLoopbackRedirect (loopbackText host port rest) =
      some ⟨units "http://" ++ host.flatMap unitsOf ++ rest, port⟩ := by
  have hnext : ∀ u ∈ ((portText port).flatMap unitsOf ++ rest).head?, isDigit u = false := by
    cases port with
    | none => exact fun u hu ↦ (isRest_head hrest u hu).1
    | some digits =>
      rintro u ⟨⟩
      decide
  have hafter : Words.after (units "http://") (loopbackText host port rest) =
      some (host.flatMap unitsOf ++ ((portText port).flatMap unitsOf ++ rest)) := by
    rw [Words.after_eq_some_iff, loopbackText, List.flatMap_append]
    simp only [List.append_assoc]
  have hhost : ¬("127.".toList.isPrefixOf host && !isIpv4LoopbackHost host) = true := by
    intro h
    rw [Bool.and_eq_true] at h
    rw [hipv4 h.1] at h
    exact absurd h.2 (by decide)
  have hcanonical : ¬port.any (!isCanonicalPort ·) = true := by
    cases port with
    | none => decide
    | some digits => simp [(hport digits rfl).canonical]
  rw [splitLoopbackRedirect, LOOPBACK_REDIRECT_SHAPE, hafter]
  simp only [Option.bind_some, loopbackHost_append hshape hnext, optionalPort_append hport hrest,
    if_pos hrest]
  rw [if_neg hhost, if_neg hcanonical]

/-! ### What the parser reads in it -/

/-- A host that is the machine itself. -/
def IsLoopbackHost : Url.Host → Prop
  | .domain name => name = "localhost".toList
  | .ipv4 address => address / 256 ^ 3 = 127
  | .ipv6 text => text = "::1".toList

/-- An address of the machine itself, without a user. -/
structure IsLoopback (url : Url.Web) : Prop where
  scheme : url.scheme = "http".toList
  username : url.username = []
  password : url.password = []
  host : IsLoopbackHost url.host

/-- Some part of the host begins with a zero, as octal numbers do, and has a digit that those do
not have. -/
def HasUnreadOctet (host : List Char) : Prop :=
  ∃ octet ∈ host.splitOn '.', octet.head? = some '0' ∧ ('8' ∈ octet ∨ '9' ∈ octet)

/-- A shape is read as a host of the machine itself, or as none for want of an octal number. -/
theorem readHost_shape (platform : Url.Platform) (hshape : IsShape host)
    (hipv4 : "127.".toList.isPrefixOf host = true → isIpv4LoopbackHost host = true) :
    (∃ read, Url.readHost platform.toNames host = some read ∧ IsLoopbackHost read ∧
        (∀ address, read = .ipv4 address → address < 256 ^ 4)) ∨
      (Url.readHost platform.toNames host = none ∧ HasUnreadOctet host) := by
  cases hshape with
  | bracketed =>
    refine .inl ⟨.ipv6 "::1".toList, ?_, rfl, nofun⟩
    change (platform.ipv6 "::1".toList).map Url.Host.ipv6 = _
    rw [platform.ipv6_loopback]
    rfl
  | localhost =>
    refine .inl ⟨.domain "localhost".toList, ?_, rfl, nofun⟩
    have hne : "localhost".toList ≠ [] := by decide
    rw [Url.readHost_plain hne (by decide) (by decide)]
    decide
  | @dotted octets hlength hoctets =>
    have hparts : ∀ part ∈ "127".toList :: octets, part ≠ [] ∧ ∀ c ∈ part, c.isDigit = true := by
      rintro part hmem
      rcases List.mem_cons.mp hmem with rfl | hmem
      · exact ⟨nofun, by decide⟩
      · exact ⟨(hoctets part hmem).1, (hoctets part hmem).2.2⟩
    have hread : Url.readHost platform.toNames (Words.join '.' ("127".toList :: octets)) =
        ((("127".toList :: octets).mapM Url.ipv4Number).bind (Url.ipv4OfNumbers 4)).map .ipv4 :=
      Url.readHost_digits (List.cons_ne_nil _ _) (by simp [hlength]) hparts
    have hsplit : (Words.join '.' ("127".toList :: octets)).splitOn '.' = "127".toList :: octets :=
      Words.splitOn_join (List.cons_ne_nil _ _) fun part hpart ↦
        Url.not_dot_mem_of_digits (hparts part hpart).2
    have hsmall : ∀ octet ∈ octets, ∀ n, Url.ipv4Number octet = some n → n ≤ 255 := by
      have hbegins : "127.".toList.isPrefixOf (Words.join '.' ("127".toList :: octets)) = true := by
        obtain ⟨a, b, c, rfl⟩ := List.length_eq_three.mp hlength
        rfl
      have hall := hipv4 hbegins
      simp only [isIpv4LoopbackHost, hsplit, Bool.and_eq_true, List.all_eq_true] at hall
      intro octet hmem n hn
      have hoctet := hall.1.2 octet (List.mem_cons_of_mem _ hmem)
      simp only [isOctet, Bool.and_eq_true] at hoctet
      obtain ⟨m, hm⟩ := Url.number_digits fun c hc ↦ Url.digit_ten ((hoctets octet hmem).2.2 c hc)
      have hle : m ≤ 255 := by simpa [hm] using hoctet.2
      exact (Url.ipv4Number_le (hoctets octet hmem).2.2 hn hm).trans hle
    have hunread : ∀ octet ∈ octets, Url.ipv4Number octet = none →
        HasUnreadOctet (Words.join '.' ("127".toList :: octets)) := by
      intro octet hmem hnone
      refine ⟨octet, ?_, Url.ipv4Number_eq_none (hoctets octet hmem).1 (hoctets octet hmem).2.2 hnone⟩
      rw [hsplit]
      exact List.mem_cons_of_mem _ hmem
    have hfirst : Url.ipv4Number "127".toList = some 127 := by decide
    obtain ⟨a, b, c, rfl⟩ := List.length_eq_three.mp hlength
    rw [hread]
    simp only [List.mapM_cons, List.mapM_nil, hfirst]
    cases ha : Url.ipv4Number a with
    | none => exact .inr ⟨rfl, hunread a (by simp) ha⟩
    | some k =>
      cases hb : Url.ipv4Number b with
      | none => exact .inr ⟨rfl, hunread b (by simp) hb⟩
      | some m =>
        cases hc : Url.ipv4Number c with
        | none => exact .inr ⟨rfl, hunread c (by simp) hc⟩
        | some n =>
          have hk : k ≤ 255 := hsmall a (by simp) k ha
          have hm : m ≤ 255 := hsmall b (by simp) m hb
          have hn : n ≤ 255 := hsmall c (by simp) n hc
          have hvalue : Url.ipv4OfNumbers 4 [127, k, m, n] =
              some (127 * 256 ^ 3 + (k * 256 ^ 2 + (m * 256 + n))) := by
            simp only [Url.ipv4OfNumbers]
            rw [if_neg (by omega), if_neg (by omega), if_neg (by omega), if_pos (by omega)]
            rfl
          refine .inl ⟨.ipv4 (127 * 256 ^ 3 + (k * 256 ^ 2 + (m * 256 + n))), ?_, ?_, ?_⟩
          · change (Url.ipv4OfNumbers 4 [127, k, m, n]).map Url.Host.ipv4 = _
            rw [hvalue]
            rfl
          · change (127 * 256 ^ 3 + (k * 256 ^ 2 + (m * 256 + n))) / 256 ^ 3 = 127
            omega
          · rintro _ ⟨⟩
            omega

/-- The port that the parser keeps. -/
def portNumber (port : Option (List Char)) : Option ℕ :=
  (port.bind (Url.number 10)).filter (· ≠ 80)

theorem isServerChar {c : Char} (h : Url.isPlain c = true ∨ c = '[' ∨ c = ']' ∨ c = ':') :
    Url.isBlank c = false ∧ Url.isEnd c = false ∧ c ≠ '@' := by
  rcases h with h | rfl | rfl | rfl
  · exact Url.ascii_induction (p := fun c ↦ Url.isPlain c = true →
      Url.isBlank c = false ∧ Url.isEnd c = false ∧ c ≠ '@') (by decide) (Url.isPlain_lt h) h
  all_goals decide

theorem IsShape.chars (h : IsShape host) :
    ∀ c ∈ host, Url.isPlain c = true ∨ c = '[' ∨ c = ']' ∨ c = ':' := by
  cases h with
  | bracketed => decide
  | localhost => decide
  | @dotted octets hlength hoctets =>
    intro c hc
    by_contra hnot
    rw [not_or] at hnot
    have hdot : '.' ≠ c → False := by
      intro hne
      refine Words.not_mem_join hne.symm (fun part hpart hmem ↦ hnot.1 ?_) hc
      rcases List.mem_cons.mp hpart with rfl | hpart
      · have h127 : ∀ c ∈ "127".toList, Url.isPlain c = true := by decide
        exact h127 c hmem
      · exact (Url.isDigit_facts ((hoctets part hpart).2.2 c hmem)).1
    exact hdot fun heq ↦ hnot.1 (heq ▸ rfl)

theorem IsShape.ne_nil (h : IsShape host) : host ≠ [] := by
  cases h with
  | bracketed => decide
  | localhost => decide
  | dotted => simp [join_cons_eq]

theorem splitPort_append (h : ∀ c ∈ host, c ≠ ':' ∧ c ≠ '[' ∧ c ≠ ']')
    (port : Option (List Char)) : Url.splitPort false (host ++ portText port) = (host, port) := by
  cases port with
  | none => exact Url.splitPort_of_not_mem h (.inl rfl)
  | some digits => exact Url.splitPort_of_not_mem h (.inr ⟨digits, rfl⟩)

theorem IsShape.splitPort (h : IsShape host) (port : Option (List Char)) :
    Url.splitPort false (host ++ portText port) = (host, port) := by
  cases h with
  | bracketed => cases port <;> rfl
  | localhost => exact splitPort_append (by decide) port
  | @dotted octets hlength hoctets =>
    refine splitPort_append (fun c hc ↦ ?_) port
    refine ⟨?_, ?_, ?_⟩
    all_goals
      rintro rfl
      refine Words.not_mem_join (by decide) (fun part hpart hmem ↦ ?_) hc
      rcases List.mem_cons.mp hpart with rfl | hpart
      · exact absurd hmem (by decide)
      · exact absurd ((hoctets part hpart).2.2 _ hmem) (by decide)

theorem readPort_eq (h : ∀ digits ∈ port, IsPort digits) :
    Url.readPort 80 port = some (portNumber port) := by
  cases port with
  | none => rfl
  | some digits =>
    obtain ⟨hne, -, hdigits, hcanonical⟩ := h digits rfl
    obtain ⟨n, hn⟩ := Url.number_digits fun c hc ↦ Url.digit_ten (hdigits c hc)
    have hle : n ≤ 65535 := by
      simp only [isCanonicalPort, hn, Option.any_some, Bool.and_eq_true, decide_eq_true_eq]
        at hcanonical
      exact hcanonical.2
    cases digits with
    | nil => exact absurd rfl hne
    | cons c digits =>
      rw [Url.readPort, if_pos (List.all_eq_true.mpr hdigits), hn, Option.bind_some,
        if_neg (Nat.not_lt.mpr hle), portNumber, Option.bind_some, hn, Option.filter_some]
      · by_cases h80 : n = 80 <;> simp [h80]
      · nofun

theorem isEnd_of_isRest (h : isRest rest = true) :
    ∀ c ∈ (charsOf rest).head?, Url.isEnd c = true := by
  cases rest with
  | nil => nofun
  | cons u rest =>
    simp only [isRest, Bool.and_eq_true, List.contains_iff_mem, List.mem_cons,
      List.not_mem_nil, or_false] at h
    rcases h.1 with rfl | rfl | rfl
    · change ∀ c ∈ (charsOf (unitsOf '/' ++ rest)).head?, _
      rw [Text.charsOf_unitsOf_append]
      rintro c ⟨⟩
      rfl
    · change ∀ c ∈ (charsOf (unitsOf '?' ++ rest)).head?, _
      rw [Text.charsOf_unitsOf_append]
      rintro c ⟨⟩
      rfl
    · change ∀ c ∈ (charsOf (unitsOf '#' ++ rest)).head?, _
      rw [Text.charsOf_unitsOf_append]
      rintro c ⟨⟩
      rfl

/-- The address of a loopback redirect, from the host that the parser reads. -/
def loopbackUrl (port : Option (List Char)) (rest : JsString) (host : Url.Host) : Url.Web :=
  let place := Url.readPlace (Url.cleanEnd (charsOf rest))
  { scheme := "http".toList, username := [], password := [], host, port := portNumber port,
    path := place.path, query := place.query, fragment := place.fragment }

/-- The parser reads a loopback redirect as the pattern does, down to the host. -/
theorem newUrl_loopbackText (platform : Url.Platform) (hshape : IsShape host) (hport : ∀ digits ∈ port, IsPort digits)
    (hrest : isRest rest = true) : newUrl platform (loopbackText host port rest) =
      ((Url.readHost platform.toNames host).map (loopbackUrl port rest)).map .web := by
  have htext : charsOf (loopbackText host port rest) =
      "http".toList ++ "://".toList ++ (host ++ portText port) ++ charsOf rest := by
    have happend : loopbackText host port rest =
        ("http://".toList ++ (host ++ portText port)).flatMap unitsOf ++ rest := by
      rw [List.flatMap_append]
      rfl
    rw [happend, Text.charsOf_flatMap_append]
    rfl
  have hchars : ∀ c ∈ host ++ portText port,
      Url.isBlank c = false ∧ Url.isEnd c = false ∧ c ≠ '@' := by
    intro c hc
    refine isServerChar ?_
    rcases List.mem_append.mp hc with hc | hc
    · exact hshape.chars c hc
    · cases port with
      | none => cases hc
      | some digits =>
        rcases List.mem_cons.mp hc with rfl | hc
        · exact .inr (.inr (.inr rfl))
        · exact .inl (Url.isDigit_facts ((hport digits rfl).digits c hc)).1
  have hhost : host ≠ [] := hshape.ne_nil
  have hserver : Url.readServer platform.toNames "http".toList 80 (host ++ portText port)
      (Url.readPlace (Url.cleanEnd (charsOf rest))) =
        (Url.readHost platform.toNames host).map (loopbackUrl port rest) := by
    have hat : '@' ∉ host ++ portText port := fun hmem ↦ (hchars '@' hmem).2.2 rfl
    rw [Url.readServer, Url.splitUserinfo_of_not_mem hat]
    simp only [hshape.splitPort port]
    rw [if_neg hhost, readPort_eq hport]
    cases Url.readHost platform.toNames host <;> rfl
  have hscheme : ∀ text, Url.readScheme ("http".toList ++ ':' :: text) = some ("http".toList, text) :=
    fun _ ↦ rfl
  have hdefault : Url.defaultPort "http".toList = some 80 := by decide
  rw [newUrl, htext, Url.parse_server hscheme (by decide) hdefault (by simp [hhost])
    (fun c hc ↦ ⟨(hchars c hc).1, (hchars c hc).2.1⟩) (isEnd_of_isRest hrest), hserver]

/-! ### What the policy makes of it -/

theorem isOctet_toDigits {n : ℕ} (h : n < 256) : isOctet (Nat.toDigits 10 n) = true := by
  have hall : ∀ n < 256, isOctet (Nat.toDigits 10 n) = true := by decide +kernel
  exact hall n h

/-- The bytes of an address, as it is written. -/
def octetsOf (address : ℕ) : List (List Char) :=
  [address / 256 ^ 3, address / 256 ^ 2 % 256, address / 256 % 256, address % 256].map fun byte ↦
    Nat.toDigits 10 byte

theorem isOctet_of_mem_octetsOf {address : ℕ} (h : address < 256 ^ 4) :
    ∀ octet ∈ octetsOf address, isOctet octet = true := by
  intro octet hmem
  obtain ⟨byte, hbyte, rfl⟩ := List.mem_map.mp hmem
  refine isOctet_toDigits ?_
  simp only [List.mem_cons, List.not_mem_nil, or_false] at hbyte
  rcases hbyte with rfl | rfl | rfl | rfl <;> omega

theorem isDigit_of_isOctet {octet : List Char} (h : isOctet octet = true) :
    octet ≠ [] ∧ ∀ c ∈ octet, c.isDigit = true := by
  simp only [isOctet, Bool.and_eq_true, decide_eq_true_eq, List.all_eq_true] at h
  exact ⟨List.ne_nil_of_length_pos h.1.1.1, h.1.2⟩

/-- An address of the loopback block is written as the source looks for it. -/
theorem isIpv4LoopbackHost_ipv4Text {address : ℕ} (hlt : address < 256 ^ 4)
    (hfirst : address / 256 ^ 3 = 127) : isIpv4LoopbackHost (Url.ipv4Text address) = true ∧
      ∀ c ∈ Url.ipv4Text address, Url.isPlain c = true := by
  have hoctets := isOctet_of_mem_octetsOf hlt
  have hsplit : (Url.ipv4Text address).splitOn '.' = octetsOf address :=
    Words.splitOn_join (List.cons_ne_nil _ _) fun octet hmem ↦
      Url.not_dot_mem_of_digits (isDigit_of_isOctet (hoctets octet hmem)).2
  refine ⟨?_, fun c hc ↦ ?_⟩
  · have h127 : Url.number 10 (Nat.toDigits 10 127) = some 127 := by decide
    simp only [isIpv4LoopbackHost, hsplit, Bool.and_eq_true, List.all_eq_true, decide_eq_true_eq]
    refine ⟨⟨rfl, hoctets⟩, ?_⟩
    change Url.number 10 (Nat.toDigits 10 (address / 256 ^ 3)) = some 127
    rw [hfirst, h127]
  · by_cases hdot : c = '.'
    · subst hdot
      rfl
    · by_contra hnot
      refine Words.not_mem_join hdot (fun octet hmem hc ↦ hnot ?_) hc
      exact (Url.isDigit_facts ((isDigit_of_isOctet (hoctets octet hmem)).2 c hc)).1

theorem stripBrackets_of_not_mem {text : List Char} (hopen : '[' ∉ text) (hclose : ']' ∉ text) :
    stripBrackets text = text := by
  have hhead : text.head? ≠ some '[' := fun h ↦ hopen (List.mem_of_head? h)
  have hlast : text.getLast? ≠ some ']' := fun h ↦ hclose (List.mem_of_getLast? h)
  simp only [stripBrackets]
  rw [if_neg hhead, if_neg hlast]

theorem isLoopback_text {read : Url.Host} (h : IsLoopbackHost read)
    (hlt : ∀ address, read = .ipv4 address → address < 256 ^ 4) :
    (LOOPBACK_HOSTS.contains (stripBrackets (Url.lower read.text)) ||
      isIpv4LoopbackHost (stripBrackets (Url.lower read.text))) = true := by
  cases read with
  | domain name =>
    obtain rfl := h
    decide
  | ipv6 text =>
    obtain rfl := h
    decide
  | ipv4 address =>
    obtain ⟨hhost, hplain⟩ := isIpv4LoopbackHost_ipv4Text (hlt address rfl) h
    have hlower : Url.lower (Url.ipv4Text address) = Url.ipv4Text address := by
      rw [Url.lower]
      conv_rhs => rw [← List.map_id (Url.ipv4Text address)]
      exact List.map_congr_left fun c hc ↦ (Url.isPlain_facts (hplain c hc)).1
    have hopen : '[' ∉ Url.ipv4Text address := fun hmem ↦ absurd (hplain _ hmem) (by decide)
    have hclose : ']' ∉ Url.ipv4Text address := fun hmem ↦ absurd (hplain _ hmem) (by decide)
    rw [Url.Host.text, hlower, stripBrackets_of_not_mem hopen hclose, hhost, Bool.or_true]

/-- A redirect to the machine itself is judged by the policy's two fields alone. -/
theorem isRedirectUriAllowedForPolicy_loopback {read : Url.Host}
    (huri : newUrl platform uri = some (.web (loopbackUrl port rest read)))
    (hread : IsLoopbackHost read) (hlt : ∀ address, read = .ipv4 address → address < 256 ^ 4) :
    isHttpLocalhostRedirect platform uri = true ∧ ∀ policy customSchemes,
      isRedirectUriAllowedForPolicy platform uri policy customSchemes =
        (policy.localhostRedirectAllowed || policy.pkceRequired) := by
  have hprotocol : (loopbackUrl port rest read).protocol = "http:".toList := rfl
  have hlocal : isHttpLocalhostRedirect platform uri = true := by
    simp only [isHttpLocalhostRedirect, huri]
    rw [if_neg (not_not.mpr hprotocol)]
    exact isLoopback_text hread hlt
  have hplain : isPlainHttpRedirect platform uri = true := by
    simp only [isPlainHttpRedirect, huri]
    exact decide_eq_true hprotocol
  refine ⟨hlocal, fun policy customSchemes ↦ ?_⟩
  have hscheme : isAllowedRedirectUriScheme platform uri customSchemes = true := by
    simp only [isAllowedRedirectUriScheme, huri]
    exact if_pos (.inr (.inl hprotocol))
  rw [isRedirectUriAllowedForPolicy, hscheme, hplain, hlocal]
  rfl

/-- What is no address is refused. -/
theorem isRedirectUriAllowedForPolicy_of_none (h : newUrl platform uri = none)
    (policy : EnvironmentPolicy) (customSchemes : List (List Char)) :
    isRedirectUriAllowedForPolicy platform uri policy customSchemes = false := by
  have hscheme : isAllowedRedirectUriScheme platform uri customSchemes = false := by
    simp only [isAllowedRedirectUriScheme, h]
  rw [isRedirectUriAllowedForPolicy, hscheme]
  rfl

/-! ### The port exception -/

/-- No code unit of the mark of a path, a query or a fragment. -/
def isBefore (u : UInt16) : Bool := !([0x2F, 0x3F, 0x23] : List UInt16).contains u

theorem isBefore_of_shape (hshape : IsShape host) :
    ∀ u ∈ host.flatMap unitsOf, isBefore u = true := by
  intro u hu
  obtain ⟨c, hc, hu⟩ := List.mem_flatMap.mp hu
  have hlt : c.toNat < 128 := by
    obtain h | rfl | rfl | rfl := hshape.chars c hc
    · exact Url.isPlain_lt h
    all_goals decide
  have hall := Url.ascii_induction (p := fun c ↦ (Url.isPlain c = true ∨ c = '[' ∨ c = ']' ∨
    c = ':') → ∀ u ∈ unitsOf c, isBefore u = true) (by decide) hlt
  exact hall (hshape.chars c hc) u hu

theorem isBefore_head (hrest : isRest rest = true) : ∀ u ∈ rest.head?, isBefore u = false := by
  cases rest with
  | nil => nofun
  | cons u rest =>
    rintro _ ⟨⟩
    rw [isRest, Bool.and_eq_true] at hrest
    rw [isBefore, hrest.1]
    rfl

theorem withoutPort_inj {host' : List Char} {rest' : JsString} (hshape : IsShape host)
    (hshape' : IsShape host') (hrest : isRest rest = true) (hrest' : isRest rest' = true)
    (h : units "http://" ++ host.flatMap unitsOf ++ rest =
      units "http://" ++ host'.flatMap unitsOf ++ rest') : host = host' ∧ rest = rest' := by
  rw [List.append_assoc, List.append_assoc] at h
  obtain ⟨hhost, hrest⟩ := Words.append_inj_of_head (isBefore_of_shape hshape)
    (isBefore_head hrest) (isBefore_of_shape hshape') (isBefore_head hrest')
    (List.append_cancel_left h)
  refine ⟨?_, hrest⟩
  rw [← Text.charsOf_flatMap_unitsOf host, hhost, Text.charsOf_flatMap_unitsOf]

/-- The two texts are addresses of the machine itself that differ in nothing but the port, and the
source takes the requested one for what it is. -/
structure SamePlace (platform : Url.Platform) (requested registered : JsString)
    (url url' : Url.Web) : Prop where
  read : newUrl platform requested = some (.web url)
  read' : newUrl platform registered = some (.web url')
  loopback : IsLoopback url
  same : { url with port := none } = { url' with port := none }
  localhost : isHttpLocalhostRedirect platform requested = true
  allowed : ∀ policy customSchemes,
    isRedirectUriAllowedForPolicy platform requested policy customSchemes =
      (policy.localhostRedirectAllowed || policy.pkceRequired)

/-- Neither text is an address, for want of an octal number, and the policy refuses the requested
one. -/
structure NoPlace (platform : Url.Platform) (requested registered : JsString)
    (host : List Char) : Prop where
  read : newUrl platform requested = none
  read' : newUrl platform registered = none
  unread : HasUnreadOctet host
  refused : ∀ policy customSchemes,
    isRedirectUriAllowedForPolicy platform requested policy customSchemes = false

/-- **What matches is registered, or differs from a registered redirect in the port alone.** -/
theorem redirectUriMatchesRegistered_sound (platform : Url.Platform) (requested : JsString)
    (registered : List JsString) (h : redirectUriMatchesRegistered requested registered = true) :
    requested ∈ registered ∨ ∃ r ∈ registered, ∃ host port port' rest,
      requested = loopbackText host port rest ∧ r = loopbackText host port' rest ∧
        ((∃ url url', SamePlace platform requested r url url') ∨
          NoPlace platform requested r host) := by
  rw [redirectUriMatchesRegistered] at h
  split at h
  · next hcontains => exact .inl (List.contains_iff_mem.mp hcontains)
  · split at h
    · cases h
    · next req hreq =>
      obtain ⟨r, hr, hsame⟩ := List.any_eq_true.mp h
      obtain ⟨split, hsplit, hwithout⟩ := Option.map_eq_some_iff.mp (of_decide_eq_true hsame)
      obtain ⟨host, port, rest, rfl, hshape, hipv4, hport, hrest, hreqText⟩ :=
        splitLoopbackRedirect_eq_some hreq
      obtain ⟨host', port', rest', rfl, hshape', hipv4', hport', hrest', hrText⟩ :=
        splitLoopbackRedirect_eq_some hsplit
      obtain ⟨rfl, rfl⟩ := withoutPort_inj hshape hshape' hrest hrest'
        (hreqText.symm.trans (hwithout.symm.trans hrText))
      refine .inr ⟨_, hr, host, port, port', rest, rfl, rfl, ?_⟩
      have hnew := newUrl_loopbackText platform hshape hport hrest
      have hnew' := newUrl_loopbackText platform hshape hport' hrest
      have hreads := readHost_shape platform hshape hipv4
      obtain ⟨read, hread, hlocal, hlt⟩ | ⟨hread, hunread⟩ := hreads
      · rw [hread, Option.map_some, Option.map_some] at hnew hnew'
        obtain ⟨hlocalhost, hallowed⟩ := isRedirectUriAllowedForPolicy_loopback hnew hlocal hlt
        refine .inl ⟨loopbackUrl port rest read, loopbackUrl port' rest read, ?_⟩
        exact ⟨hnew, hnew', ⟨rfl, rfl, rfl, hlocal⟩, rfl, hlocalhost, hallowed⟩
      · rw [hread, Option.map_none, Option.map_none] at hnew hnew'
        exact .inr ⟨hnew, hnew', hunread, isRedirectUriAllowedForPolicy_of_none hnew⟩

theorem redirectUriMatchesRegistered_loopbackText {port' : Option (List Char)}
    (hshape : IsShape host)
    (hipv4 : "127.".toList.isPrefixOf host = true → isIpv4LoopbackHost host = true)
    (hport : ∀ digits ∈ port, IsPort digits) (hport' : ∀ digits ∈ port', IsPort digits)
    (hrest : isRest rest = true) (hr : loopbackText host port' rest ∈ registered) :
    redirectUriMatchesRegistered (loopbackText host port rest) registered = true := by
  rw [redirectUriMatchesRegistered, splitLoopbackRedirect_loopbackText hshape hipv4 hport hrest]
  split
  · rfl
  · refine List.any_eq_true.mpr ⟨_, hr, ?_⟩
    rw [splitLoopbackRedirect_loopbackText hshape hipv4 hport' hrest]
    exact decide_eq_true rfl

section Samples

theorem isPort_sample : ∀ digits ∈ some "8080".toList, IsPort digits := by
  rintro _ ⟨⟩
  exact ⟨by decide, by decide, by decide, by decide⟩

theorem isPort_of_none : ∀ digits ∈ (none : Option (List Char)), IsPort digits := nofun

/-- `http://127.0.0.1/cb`, at a port. -/
def callback (port : Option (List Char)) : JsString :=
  loopbackText "127.0.0.1".toList port (units "/cb")

/-- `http://127.0.0.09/cb`, at a port. -/
def unreadCallback (port : Option (List Char)) : JsString :=
  loopbackText "127.0.0.09".toList port (units "/cb")

theorem redirectUriMatchesRegistered_sound_sample :
    callback (some "8080".toList) ∈ [callback none] ∨
      ∃ r ∈ [callback none], ∃ host port port' rest,
        callback (some "8080".toList) = loopbackText host port rest ∧
          r = loopbackText host port' rest ∧
            ((∃ url url', SamePlace .ascii (callback (some "8080".toList)) r url url') ∨
              NoPlace .ascii (callback (some "8080".toList)) r host) := by
  have hshape : IsShape "127.0.0.1".toList :=
    @IsShape.dotted ["0".toList, "0".toList, "1".toList] rfl (by decide)
  have hmatches : redirectUriMatchesRegistered (callback (some "8080".toList)) [callback none] = true :=
    redirectUriMatchesRegistered_loopbackText hshape (by decide) isPort_sample isPort_of_none (by decide)
      List.mem_cons_self
  exact redirectUriMatchesRegistered_sound .ascii _ _ hmatches

theorem newUrl_unreadCallback {port : Option (List Char)} (hport : ∀ digits ∈ port, IsPort digits)
    (platform : Url.Platform) : newUrl platform (unreadCallback port) = none := by
  have hshape : IsShape "127.0.0.09".toList :=
    @IsShape.dotted ["0".toList, "0".toList, "09".toList] rfl (by decide)
  have hread : Url.readHost platform.toNames "127.0.0.09".toList = none := by
    have hne : "127.0.0.09".toList ≠ [] := by decide
    rw [Url.readHost_plain hne (by decide) (by decide)]
    decide
  rw [unreadCallback, newUrl_loopbackText platform hshape hport (by decide), hread]
  rfl

/-- A match of two texts that are no addresses. -/
theorem redirectUriMatchesRegistered_unread :
    redirectUriMatchesRegistered (unreadCallback (some "8080".toList)) [unreadCallback none] = true ∧
      unreadCallback (some "8080".toList) ∉ [unreadCallback none] ∧
        ∀ platform, newUrl platform (unreadCallback (some "8080".toList)) = none ∧
          newUrl platform (unreadCallback none) = none := by
  have hshape : IsShape "127.0.0.09".toList :=
    @IsShape.dotted ["0".toList, "0".toList, "09".toList] rfl (by decide)
  refine ⟨?_, by decide, fun platform ↦ ⟨?_, ?_⟩⟩
  · exact redirectUriMatchesRegistered_loopbackText hshape (by decide) isPort_sample isPort_of_none
      (by decide) List.mem_cons_self
  · exact newUrl_unreadCallback isPort_sample platform
  · exact newUrl_unreadCallback isPort_of_none platform

end Samples

end QAuth.Authorize
