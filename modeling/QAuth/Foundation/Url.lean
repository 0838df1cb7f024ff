import QAuth.Foundation.UrlHost
import Mathlib.Data.List.DropRight

/-!
# Web addresses

The parser of the URL standard, for the schemes that name a server, over the characters of a
text: what it drops, where it ends the scheme, the server and the path, and how it writes each
part again. Addresses of the other schemes are known by their scheme alone.
-/

namespace Url

/-- What a parser is given. -/
structure Platform extends Names where
  /-- Whether a text is an address of a scheme that names no server. -/
  accepts : List Char → List Char → Bool

/-- A parser that is given names in ASCII only, and the loopback address. -/
def Platform.ascii : Platform where
  idna _ := none
  ipv6 text := if text = "::1".toList then some text else none
  accepts _ _ := false
  idna_lower := nofun
  ipv6_loopback := rfl

/-! ### The scheme -/

/-- A control character, or a space. -/
def isBlank (c : Char) : Bool := c ≤ ' '

/-- A tab, or the end of a line. -/
def isDropped (c : Char) : Bool := c = '\t' || c = '\n' || c = '\r'

/-- The text as the parser reads it. -/
def clean (text : List Char) : List Char :=
  ((text.dropWhile isBlank).rdropWhile isBlank).filter (!isDropped ·)

def isSchemeChar (c : Char) : Bool := c.isAlphanum || c = '+' || c = '-' || c = '.'

/-- The scheme in small letters, and what follows its colon. -/
def readScheme (text : List Char) : Option (List Char × List Char) :=
  match text.span isSchemeChar with
  | (c :: scheme, ':' :: rest) => if c.isAlpha then some (lower (c :: scheme), rest) else none
  | _ => none

/-- The port of a scheme whose addresses name a server. -/
def defaultPort (scheme : List Char) : Option ℕ :=
  [("ftp", 21), ("http", 80), ("https", 443), ("ws", 80), ("wss", 443)].findSome? fun (name, port) ↦
    if name.toList = scheme then some port else none

/-! ### The server -/

def isSlash (c : Char) : Bool := c = '/' || c = '\\'

/-- A character that ends the server's name. -/
def isEnd (c : Char) : Bool := isSlash c || c = '?' || c = '#'

/-- The bytes of a character that must be escaped, in hexadecimal. -/
def escape (c : Char) : List Char :=
  (String.utf8EncodeChar c).flatMap fun byte ↦
    ['%', (Nat.digitChar (byte.toNat / 16)).toUpper, (Nat.digitChar (byte.toNat % 16)).toUpper]

/-- The text with the characters of a class escaped. -/
def encode (escaped : Char → Bool) (text : List Char) : List Char :=
  text.flatMap fun c ↦ if escaped c then escape c else [c]

def isOutside (c : Char) : Bool := c < ' ' || '~' < c

def inFragmentSet (c : Char) : Bool := isOutside c || " \"<>`".toList.contains c

def inQuerySet (c : Char) : Bool := isOutside c || " \"#<>'".toList.contains c

def inPathSet (c : Char) : Bool := isOutside c || " \"#<>?^`\x7b\x7d".toList.contains c

def inUserinfoSet (c : Char) : Bool := inPathSet c || "/:;=@[\\]|".toList.contains c

/-- The name and the password before the last at sign, and what follows it. -/
def splitUserinfo (server : List Char) : Option (List Char × List Char) × List Char :=
  if '@' ∈ server then
    let userinfo := (server.rdropWhile (· ≠ '@')).dropLast
    let (name, password) := userinfo.span (· ≠ ':')
    (some (encode inUserinfoSet name, encode inUserinfoSet password.tail),
      server.rtakeWhile (· ≠ '@'))
  else (none, server)

/-- The host, and the port after the first colon outside brackets. -/
def splitPort : Bool → List Char → List Char × Option (List Char)
  | _, [] => ([], none)
  | inside, c :: rest =>
    if c = ':' ∧ inside = false then ([], some rest)
    else
      let (host, port) := splitPort (if c = '[' then true else if c = ']' then false else inside) rest
      (c :: host, port)

/-- The port, when it is not the scheme's own. -/
def readPort (default : ℕ) : Option (List Char) → Option (Option ℕ)
  | none | some [] => some none
  | some digits =>
    if digits.all Char.isDigit then
      (number 10 digits).bind fun port ↦
        if 65535 < port then none else some (if port = default then none else some port)
    else none

/-! ### The path -/

def isSingleDot (segment : List Char) : Bool :=
  [".", "%2e"].any fun dots ↦ lower segment = dots.toList

def isDoubleDot (segment : List Char) : Bool :=
  ["..", ".%2e", "%2e.", "%2e%2e"].any fun dots ↦ lower segment = dots.toList

/-- The path that segments lead to. -/
def walk : List (List Char) → List (List Char) → List (List Char)
  | done, [] => done
  | done, [last] =>
    if isDoubleDot last then done.dropLast ++ [[]]
    else if isSingleDot last then done ++ [[]]
    else done ++ [last]
  | done, segment :: next :: rest =>
    if isDoubleDot segment then walk done.dropLast (next :: rest)
    else if isSingleDot segment then walk done (next :: rest)
    else walk (done ++ [segment]) (next :: rest)

/-- The path, after the slash that begins it. -/
def readPath (text : List Char) : List (List Char) :=
  let text := match text with
    | c :: rest => if isSlash c then rest else c :: rest
    | [] => []
  walk [] ((text.splitOnP isSlash).map (encode inPathSet))

/-! ### The address -/

/-- An address that names a server. -/
structure Web where
  scheme : List Char
  username : List Char
  password : List Char
  host : Host
  port : Option ℕ
  path : List (List Char)
  query : Option (List Char)
  fragment : Option (List Char)

namespace Web

variable (url : Web)

def protocol : List Char := url.scheme ++ [':']

def hostname : List Char := url.host.text

def origin : List Char :=
  url.scheme ++ "://".toList ++ url.host.text ++
    match url.port with
    | some port => ':' :: Nat.toDigits 10 port
    | none => []

def pathname : List Char := url.path.flatMap ('/' :: ·)

/-- A part after its mark; nothing where it is empty. -/
def marked (mark : Char) : Option (List Char) → List Char
  | none | some [] => []
  | some text => mark :: text

def search : List Char := marked '?' url.query

def hash : List Char := marked '#' url.fragment

end Web

/-- An address. -/
inductive Parsed
  | web (url : Web)
  | other (scheme : List Char)

def Parsed.protocol : Parsed → List Char
  | .web url => url.protocol
  | .other scheme => scheme ++ [':']

/-- What follows the server: a path, a query and a fragment. -/
structure Place where
  path : List (List Char)
  query : Option (List Char)
  fragment : Option (List Char)

/-- The part after a mark, if there is one. -/
def afterMark : List Char → Option (List Char)
  | _ :: rest => some rest
  | [] => none

def readPlace (text : List Char) : Place :=
  let (before, fragment) := text.span (· ≠ '#')
  let (path, query) := before.span (· ≠ '?')
  ⟨readPath path, (afterMark query).map (encode inQuerySet),
    (afterMark fragment).map (encode inFragmentSet)⟩

/-- The address that a server and a place make. -/
def readServer (names : Names) (scheme : List Char) (default : ℕ) (server : List Char)
    (place : Place) : Option Web :=
  let (userinfo, server) := splitUserinfo server
  let (host, port) := splitPort false server
  if host = [] then none
  else
    (readHost names host).bind fun host ↦ (readPort default port).map fun port ↦
      { scheme, username := (userinfo.map (·.1)).getD [], password := (userinfo.map (·.2)).getD [],
        host, port, path := place.path, query := place.query, fragment := place.fragment }

/-- The address that a text spells on its own. -/
def parse (platform : Platform) (text : List Char) : Option Parsed :=
  (readScheme (clean text)).bind fun (scheme, rest) ↦
    match defaultPort scheme with
    | some default =>
      let (server, rest) := (rest.dropWhile isSlash).span (!isEnd ·)
      (readServer platform.toNames scheme default server (readPlace rest)).map .web
    | none => if platform.accepts scheme rest then some (.other scheme) else none

variable {platform : Platform} {scheme server rest text : List Char}

/-! ### Before and after the server -/

theorem rdropWhile_append {α : Type*} {p : α → Bool} {before : List α}
    (hbefore : ∀ c ∈ before.getLast?, p c = false) (rest : List α) :
    (before ++ rest).rdropWhile p = before ++ rest.rdropWhile p := by
  induction rest using List.reverseRecOn with
  | nil =>
    rw [List.append_nil, List.rdropWhile_nil, List.append_nil, List.rdropWhile_eq_self_iff]
    intro h
    rw [hbefore _ (List.getLast?_eq_some_getLast h)]
    exact Bool.false_ne_true
  | append_singleton rest c ih =>
    rw [← List.append_assoc]
    by_cases hc : p c = true
    · rw [List.rdropWhile_concat_pos _ _ _ hc, List.rdropWhile_concat_pos _ _ _ hc, ih]
    · rw [List.rdropWhile_concat_neg _ _ _ hc, List.rdropWhile_concat_neg _ _ _ hc,
        List.append_assoc]

/-- The end of a text as the parser reads it. -/
def cleanEnd (text : List Char) : List Char := (text.rdropWhile isBlank).filter (!isDropped ·)

theorem isDropped_of_isBlank {c : Char} (h : isBlank c = false) : isDropped c = false := by
  by_contra hdropped
  simp only [isDropped, Bool.not_eq_false, Bool.or_eq_true, decide_eq_true_eq] at hdropped
  rcases hdropped with (rfl | rfl) | rfl <;> exact absurd h (by decide)

/-- What the parser drops from a text that begins with none of it. -/
theorem clean_append {before : List Char} (hne : before ≠ [])
    (hbefore : ∀ c ∈ before, isBlank c = false) (rest : List Char) :
    clean (before ++ rest) = before ++ cleanEnd rest := by
  have hstart : (before ++ rest).dropWhile isBlank = before ++ rest := by
    cases before with
    | nil => exact absurd rfl hne
    | cons c before =>
      rw [List.cons_append, List.dropWhile_cons_of_neg]
      simp [hbefore c List.mem_cons_self]
  have hkept : before.filter (!isDropped ·) = before := by
    rw [List.filter_eq_self]
    intro c hc
    rw [isDropped_of_isBlank (hbefore c hc)]
    rfl
  rw [clean, hstart, rdropWhile_append fun c hc ↦ hbefore c (List.mem_of_getLast? hc),
    List.filter_append, hkept, cleanEnd]

theorem isBlank_of_isEnd {c : Char} (h : isEnd c = true) : isBlank c = false := by
  simp only [isEnd, isSlash, Bool.or_eq_true, decide_eq_true_eq] at h
  rcases h with ((rfl | rfl) | rfl) | rfl <;> decide

/-- A text that begins after the server still does when the parser has read it. -/
theorem cleanEnd_head (h : ∀ c ∈ text.head?, isEnd c = true) :
    ∀ c ∈ (cleanEnd text).head?, isEnd c = true := by
  cases text with
  | nil => simp [cleanEnd]
  | cons c rest =>
    have hc : isEnd c = true := h c rfl
    have hblank := isBlank_of_isEnd hc
    have hclean : cleanEnd (c :: rest) = c :: cleanEnd rest := by
      have hsplit : ([c] ++ rest).rdropWhile isBlank = [c] ++ rest.rdropWhile isBlank :=
        rdropWhile_append (by simpa using hblank) rest
      change (([c] ++ rest).rdropWhile isBlank).filter (!isDropped ·) = _
      rw [hsplit, List.singleton_append, List.filter_cons_of_pos]
      · rfl
      · rw [isDropped_of_isBlank hblank]
        rfl
    rw [hclean]
    rintro d ⟨⟩
    exact hc

theorem span_server (hserver : ∀ c ∈ server, isEnd c = false)
    (hrest : ∀ c ∈ rest.head?, isEnd c = true) :
    (server ++ rest).span (!isEnd ·) = (server, rest) := by
  refine Words.span_append (fun c hc ↦ ?_) (fun c hc ↦ ?_)
  · rw [hserver c hc]
    rfl
  · rw [hrest c hc]
    rfl

/-- A text that begins with a scheme and a server spells the address that they make with the
place after them. -/
theorem parse_server {default : ℕ} (hscheme : ∀ rest, readScheme (scheme ++ ':' :: rest) =
      some (scheme, rest)) (hblank : ∀ c ∈ scheme, isBlank c = false)
    (hdefault : defaultPort scheme = some default) (hne : server ≠ [])
    (hserver : ∀ c ∈ server, isBlank c = false ∧ isEnd c = false)
    (hrest : ∀ c ∈ rest.head?, isEnd c = true) :
    parse platform (scheme ++ "://".toList ++ server ++ rest) =
      (readServer platform.toNames scheme default server (readPlace (cleanEnd rest))).map .web := by
  have hbefore : ∀ c ∈ scheme ++ "://".toList ++ server, isBlank c = false := by
    intro c hc
    rcases List.mem_append.mp hc with hc | hc
    · rcases List.mem_append.mp hc with hc | hc
      · exact hblank c hc
      · have hseparator : ∀ c ∈ "://".toList, isBlank c = false := by decide
        exact hseparator c hc
    · exact (hserver c hc).1
  have hnonempty : scheme ++ "://".toList ++ server ≠ [] := by simp
  have hslashes : ('/' :: '/' :: (server ++ cleanEnd rest)).dropWhile isSlash =
      server ++ cleanEnd rest := by
    cases server with
    | nil => exact absurd rfl hne
    | cons c server =>
      have hc : isSlash c = false := by
        have hend := (hserver c List.mem_cons_self).2
        simp only [isEnd, Bool.or_eq_false_iff] at hend
        exact hend.1.1
      rw [List.dropWhile_cons_of_pos (by decide), List.dropWhile_cons_of_pos (by decide),
        List.cons_append, List.dropWhile_cons_of_neg (by simp [hc])]
  have hread : readScheme (clean (scheme ++ "://".toList ++ server ++ rest)) =
      some (scheme, '/' :: '/' :: (server ++ cleanEnd rest)) := by
    rw [clean_append hnonempty hbefore, ← hscheme]
    simp
  rw [parse, hread, Option.bind_some]
  simp only [hdefault, hslashes, span_server (fun c hc ↦ (hserver c hc).2) (cleanEnd_head hrest)]

/-- A server without an at sign. -/
theorem splitUserinfo_of_not_mem (h : '@' ∉ server) : splitUserinfo server = (none, server) :=
  if_neg h

theorem splitPort_of_not_mem {host : List Char} (h : ∀ c ∈ host, c ≠ ':' ∧ c ≠ '[' ∧ c ≠ ']')
    (hrest : rest = [] ∨ ∃ port, rest = ':' :: port) :
    splitPort false (host ++ rest) = (host, afterMark rest) := by
  induction host with
  | nil =>
    obtain rfl | ⟨port, rfl⟩ := hrest
    · rfl
    · rfl
  | cons c host ih =>
    obtain ⟨hcolon, hopen, hclose⟩ := h c List.mem_cons_self
    rw [List.cons_append, splitPort, if_neg (fun hc ↦ hcolon hc.1), if_neg hopen, if_neg hclose,
      ih fun d hd ↦ h d (List.mem_cons_of_mem _ hd)]

theorem isPlain_server {c : Char} (h : isPlain c = true) :
    (isBlank c = false ∧ isEnd c = false) ∧ c ≠ '@' ∧ c ≠ ':' ∧ c ≠ '[' ∧ c ≠ ']' :=
  ascii_induction (p := fun c ↦ isPlain c = true → (isBlank c = false ∧ isEnd c = false) ∧
    c ≠ '@' ∧ c ≠ ':' ∧ c ≠ '[' ∧ c ≠ ']') (by decide) (isPlain_lt h) h

/-- The address of a scheme, a plain name and a place. -/
def Web.named (scheme name : List Char) (place : Place) : Web :=
  { scheme, username := [], password := [], host := .domain name, port := none, path := place.path,
    query := place.query, fragment := place.fragment }

theorem parse_named (platform : Platform) {default : ℕ} {name : List Char}
    (hscheme : ∀ rest, readScheme (scheme ++ ':' :: rest) = some (scheme, rest))
    (hblank : ∀ c ∈ scheme, isBlank c = false) (hdefault : defaultPort scheme = some default)
    (hne : name ≠ []) (hplain : ∀ c ∈ name, isPlain c = true)
    (hlabel : hasEncodedLabel name = false) (hends : endsInNumber name = false)
    (hrest : ∀ c ∈ rest.head?, isEnd c = true) :
    parse platform (scheme ++ "://".toList ++ name ++ rest) =
      some (.web (.named scheme name (readPlace (cleanEnd rest)))) := by
  have hserver := fun c hc ↦ (isPlain_server (hplain c hc))
  have hat : '@' ∉ name := fun hmem ↦ (hserver '@' hmem).2.1 rfl
  have hport : splitPort false name = (name, none) := by
    have h := splitPort_of_not_mem (fun c hc ↦ (hserver c hc).2.2) (.inl rfl)
    rwa [List.append_nil] at h
  rw [parse_server hscheme hblank hdefault hne (fun c hc ↦ (hserver c hc).1) hrest, readServer,
    splitUserinfo_of_not_mem hat]
  simp only [hport]
  rw [if_neg hne, readHost_plain hne hplain hlabel, hostOfName, if_neg (by simp [hends])]
  rfl

/-! ### What an address is made of -/

theorem parse_eq_web {url : Web} (h : parse platform text = some (.web url)) :
    (∃ host, readHost platform.toNames host = some url.host) ∧
      (∃ rest, url.path = (readPlace rest).path) ∧ (defaultPort url.scheme).isSome = true := by
  obtain ⟨⟨scheme, rest⟩, -, h⟩ := Option.bind_eq_some_iff.mp h
  dsimp only at h
  split at h
  · next default hdefault =>
    obtain ⟨_, hserver, hurl⟩ := Option.map_eq_some_iff.mp h
    obtain rfl := Parsed.web.inj hurl
    rw [readServer] at hserver
    obtain ⟨-, hserver⟩ := Option.ite_none_left_eq_some.mp hserver
    obtain ⟨host, hhost, hserver⟩ := Option.bind_eq_some_iff.mp hserver
    obtain ⟨port, -, rfl⟩ := Option.map_eq_some_iff.mp hserver
    exact ⟨⟨_, hhost⟩, ⟨_, rfl⟩, by rw [hdefault]; rfl⟩
  · obtain ⟨-, hother⟩ := Option.ite_none_right_eq_some.mp h
    cases hother

theorem slash_not_mem_escape (c : Char) : '/' ∉ escape c := by
  intro hmem
  obtain ⟨byte, -, hmem⟩ := List.mem_flatMap.mp hmem
  have hdigit : ∀ n < 16, '/' ≠ (Nat.digitChar n).toUpper := by decide
  have hbyte : byte.toNat < 256 := byte.toNat_lt
  simp only [List.mem_cons, List.not_mem_nil, or_false] at hmem
  rcases hmem with hmem | hmem | hmem
  · exact absurd hmem (by decide)
  · exact hdigit _ (by omega) hmem
  · exact hdigit _ (by omega) hmem

theorem slash_not_mem_encode {escaped : Char → Bool} (h : '/' ∉ text) : '/' ∉ encode escaped text := by
  intro hmem
  obtain ⟨c, hc, hmem⟩ := List.mem_flatMap.mp hmem
  split at hmem
  · exact slash_not_mem_escape c hmem
  · rw [List.mem_singleton] at hmem
    exact h (hmem ▸ hc)

theorem mem_walk {segment : List Char} {segments done : List (List Char)}
    (h : segment ∈ walk done segments) : segment = [] ∨ segment ∈ done ∨ segment ∈ segments := by
  fun_induction walk done segments with
  | case1 done => exact .inr (.inl h)
  | case2 done last =>
    rcases List.mem_append.mp h with h | h
    · exact .inr (.inl (List.dropLast_subset _ h))
    · exact .inl (List.mem_singleton.mp h)
  | case3 done last =>
    rcases List.mem_append.mp h with h | h
    · exact .inr (.inl h)
    · exact .inl (List.mem_singleton.mp h)
  | case4 done last =>
    rcases List.mem_append.mp h with h | h
    · exact .inr (.inl h)
    · exact .inr (.inr h)
  | case5 done first next rest _ ih =>
    rcases ih h with h | h | h
    · exact .inl h
    · exact .inr (.inl (List.dropLast_subset _ h))
    · exact .inr (.inr (List.mem_cons_of_mem _ h))
  | case6 done first next rest _ _ ih =>
    rcases ih h with h | h | h
    · exact .inl h
    · exact .inr (.inl h)
    · exact .inr (.inr (List.mem_cons_of_mem _ h))
  | case7 done first next rest _ _ ih =>
    rcases ih h with h | h | h
    · exact .inl h
    · rcases List.mem_append.mp h with h | h
      · exact .inr (.inl h)
      · exact .inr (.inr (List.mem_singleton.mp h ▸ List.mem_cons_self))
    · exact .inr (.inr (List.mem_cons_of_mem _ h))

theorem slash_not_mem_readPath {segment : List Char} (h : segment ∈ readPath text) :
    '/' ∉ segment := by
  obtain rfl | h | h := mem_walk h
  · exact List.not_mem_nil
  · cases h
  · obtain ⟨piece, hpiece, rfl⟩ := List.mem_map.mp h
    refine slash_not_mem_encode fun hmem ↦ ?_
    have hslash := Words.sep_eq_false_of_mem_splitOnP _ piece hpiece '/' hmem
    exact absurd hslash (by decide)

theorem slash_not_mem_path {url : Web} (h : parse platform text = some (.web url))
    {segment : List Char} (hsegment : segment ∈ url.path) : '/' ∉ segment := by
  obtain ⟨-, ⟨rest, hpath⟩, -⟩ := parse_eq_web h
  rw [hpath] at hsegment
  exact slash_not_mem_readPath hsegment

/-! ### The paths under a path -/

def pathText (segments : List (List Char)) : List Char := segments.flatMap ('/' :: ·)

theorem pathText_head {segments : List (List Char)} :
    ∀ c ∈ (pathText segments).head?, c = '/' := by
  cases segments with
  | nil => nofun
  | cons segment segments =>
    rintro c ⟨⟩
    rfl

/-- A path without the slashes at its end has no empty segment there. -/
theorem pathText_rdropWhile {segments : List (List Char)} (h : ∀ segment ∈ segments, '/' ∉ segment) :
    (pathText segments).rdropWhile (· = '/') = pathText (segments.rdropWhile (·.isEmpty)) := by
  induction segments using List.reverseRecOn with
  | nil => rfl
  | append_singleton segments segment ih =>
    have hrest : ∀ s ∈ segments, '/' ∉ s := fun s hs ↦ h s (List.mem_append_left _ hs)
    have hsegment : '/' ∉ segment := h segment (by simp)
    have htext : pathText (segments ++ [segment]) = pathText segments ++ '/' :: segment := by
      simp [pathText]
    cases hlast : segment.isEmpty with
    | true =>
      rw [List.isEmpty_iff] at hlast
      subst hlast
      rw [htext, List.rdropWhile_concat_pos _ _ _ (by simp),
        List.rdropWhile_concat_pos _ _ _ (by simp), ih hrest]
    | false =>
      rw [List.rdropWhile_concat_neg _ _ _ (by simp [hlast]), htext, List.rdropWhile_eq_self_iff]
      intro hne
      rw [decide_eq_true_eq]
      intro hslash
      rw [List.getLast_append_of_right_ne_nil _ _ (List.cons_ne_nil _ _)] at hslash
      rw [List.isEmpty_eq_false_iff] at hlast
      rw [List.getLast_cons hlast] at hslash
      exact hsegment (hslash ▸ List.getLast_mem hlast)

/-- What ends in no empty segment goes on in a path exactly if it does in the path without the
empty segments at its end. -/
theorem prefix_rdropWhile_iff {α : Type*} {p : α → Bool} {before l : List α}
    (hbefore : ∀ c ∈ before.getLast?, p c = false) : before <+: l.rdropWhile p ↔ before <+: l := by
  refine ⟨fun h ↦ h.trans (List.rdropWhile_prefix p l), ?_⟩
  rintro ⟨rest, rfl⟩
  rw [rdropWhile_append hbefore]
  exact List.prefix_append _ _

/-- A text goes on from another at a slash, or ends with it, exactly if its segments go on. -/
theorem pathText_prefix_iff {segments segments' : List (List Char)}
    (h : ∀ segment ∈ segments, '/' ∉ segment) (h' : ∀ segment ∈ segments', '/' ∉ segment) :
    (∃ rest, (∀ c ∈ rest.head?, c = '/') ∧ pathText segments ++ rest = pathText segments') ↔
      segments <+: segments' := by
  constructor
  · rintro ⟨rest, hrest, htext⟩
    induction segments generalizing segments' with
    | nil => exact List.nil_prefix
    | cons segment segments ih =>
      cases segments' with
      | nil => cases htext
      | cons segment' segments' =>
        have htail : segment ++ (pathText segments ++ rest) = segment' ++ pathText segments' := by
          rw [← List.append_assoc]
          exact (List.cons.inj htext).2
        have hhead : ∀ c ∈ (pathText segments ++ rest).head?, (decide (c ≠ '/')) = false := by
          intro c hc
          rw [decide_eq_false_iff_not, not_not]
          cases segments with
          | nil => exact hrest c hc
          | cons s segments =>
            cases hc
            rfl
        have hhead' : ∀ c ∈ (pathText segments').head?, (decide (c ≠ '/')) = false := by
          intro c hc
          rw [decide_eq_false_iff_not, not_not]
          exact pathText_head c hc
        have hkeep : ∀ s : List Char, '/' ∉ s → ∀ c ∈ s, decide (c ≠ '/') = true := by
          intro s hs c hc
          rw [decide_eq_true_eq]
          rintro rfl
          exact hs hc
        obtain ⟨rfl, hmore⟩ := Words.append_inj_of_head (hkeep _ (h _ List.mem_cons_self)) hhead
          (hkeep _ (h' _ List.mem_cons_self)) hhead' htail
        rw [List.prefix_cons_inj]
        exact ih (fun s hs ↦ h s (List.mem_cons_of_mem _ hs))
          (fun s hs ↦ h' s (List.mem_cons_of_mem _ hs)) hmore
  · rintro ⟨more, rfl⟩
    exact ⟨pathText more, fun c ↦ pathText_head c, by simp [pathText]⟩

end Url
