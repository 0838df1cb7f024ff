import QAuth.Federation.StatusListUri

/-!
# What the allowlist lets through

The allowlist judges a text by the address that the URL parser reads in it, on both sides: a
prefix and a candidate. What the parser normalises (letter case, escapes, dot segments, numbers
between dots) is therefore judged once, and an address of a number never has a name. Two things
it keeps apart that the checks take for the same: a name with a dot at its end, which is the same
name, so that `localhost.` is not refused; and a fragment without text, whose `hash` is that of an
address without one.

A prefix covers a candidate by the text of their paths. No segment of a path has a slash, so the
text of one goes on from the text of the other at a slash exactly if its segments go on.
-/

namespace QAuth.Federation.StatusListUri

open Text (charsOf units)

variable {platform : Url.Platform} {url candidate : Url.Web} {name : List Char}
  {prefixes : List Configured} {allowlist : StatusListUriAllowlist} {uri : JsString}

/-! ### Names -/

/-- A name without a dot at its end. -/
def withoutDot (name : List Char) : List Char :=
  if name.getLast? = some '.' then name.dropLast else name

/-- The name is `localhost`, or one under it, in any letter case. -/
def NamesLocalhost (name : List Char) : Prop :=
  Url.lower (withoutDot name) = "localhost".toList ∨
    ".localhost".toList <:+ Url.lower (withoutDot name)

instance (name : List Char) : Decidable (NamesLocalhost name) := inferInstanceAs (Decidable (_ ∨ _))

/-- The name is `localhost.`, or one under it. -/
def EndsInLocalhostDot (name : List Char) : Prop :=
  name = "localhost.".toList ∨ ".localhost.".toList <:+ name

theorem lower_of_isUpper {text : List Char} (h : ∀ c ∈ text, c.isUpper = false) :
    Url.lower text = text := by
  rw [Url.lower]
  conv_rhs => rw [← List.map_id text]
  exact List.map_congr_left fun c hc ↦ Url.toLower_of_isUpper (h c hc)

theorem isAlwaysRefusedHost_iff :
    isAlwaysRefusedHost name = true ↔ name = "localhost".toList ∨ ".localhost".toList <:+ name := by
  simp [isAlwaysRefusedHost, ALWAYS_REFUSED_HOST_SUFFIXES, List.isSuffixOf_iff_suffix]

theorem namesLocalhost_iff (hupper : ∀ c ∈ name, c.isUpper = false)
    (hrefused : isAlwaysRefusedHost name = false) :
    NamesLocalhost name ↔ EndsInLocalhostDot name := by
  have hnot : ¬(name = "localhost".toList ∨ ".localhost".toList <:+ name) := by
    rw [← isAlwaysRefusedHost_iff, hrefused]
    exact Bool.false_ne_true
  by_cases hdot : name.getLast? = some '.'
  · obtain ⟨before, rfl⟩ := List.getLast?_eq_some_iff.mp hdot
    have hbefore : Url.lower before = before :=
      lower_of_isUpper fun c hc ↦ hupper c (List.mem_append_left _ hc)
    rw [NamesLocalhost, withoutDot, if_pos hdot, List.dropLast_concat, hbefore, EndsInLocalhostDot]
    have hlast : "localhost.".toList = "localhost".toList ++ ['.'] := rfl
    have hlast' : ".localhost.".toList = ".localhost".toList ++ ['.'] := rfl
    rw [hlast, hlast', List.suffix_append_inj_of_length_eq rfl, List.append_left_inj]
    simp only [and_true]
  · have hname : Url.lower name = name := lower_of_isUpper hupper
    rw [NamesLocalhost, withoutDot, if_neg hdot, hname]
    refine iff_of_false hnot fun h ↦ hdot ?_
    rcases h with rfl | ⟨before, rfl⟩
    · rfl
    · rw [List.getLast?_append]
      rfl

/-! ### Addresses that are not refused -/

/-- What an address that is not refused is like. -/
structure Fetchable (platform : Url.Platform) (uri : JsString) (url : Url.Web) : Prop where
  parse : Url.parse platform (charsOf uri) = some (.web url)
  scheme : url.scheme = "https".toList
  username : url.username = []
  password : url.password = []
  hash : url.hash = []
  ipv4 : isIpv4Literal url.hostname = false
  refused : isAlwaysRefusedHost url.hostname = false
  named : ∃ name, url.host = .domain name

/-- Four numbers between dots are refused. -/
theorem isIpv4Literal_ipv4Text (address : ℕ) : isIpv4Literal (Url.ipv4Text address) = true := by
  have hall : (Url.ipv4Text address).all (fun c ↦ c.isDigit || c = '.') = true := by
    refine List.all_eq_true.mpr fun c hc ↦ ?_
    simpa using Url.mem_ipv4Text hc
  have hne : (Url.ipv4Text address).isEmpty = false :=
    List.isEmpty_eq_false_iff.mpr (Url.ipv4Text_ne_nil address)
  simp only [isIpv4Literal, hall, hne]
  rfl

theorem isIpv6Literal_iff {raw : List Char} (h : Url.parse platform raw = some (.web url)) :
    isIpv6Literal url.hostname = true ↔ ∃ text, url.host = .ipv6 text := by
  obtain ⟨⟨host, hhost⟩, -, -⟩ := Url.parse_eq_web h
  rw [Url.Web.hostname]
  cases hkind : url.host with
  | domain name =>
    rw [hkind] at hhost
    obtain ⟨-, hforbidden, -, -⟩ := Url.readHost_domain hhost
    refine iff_of_false (fun hliteral ↦ ?_) nofun
    simp only [isIpv6Literal, Bool.and_eq_true, decide_eq_true_eq] at hliteral
    exact absurd (hforbidden '[' (List.mem_of_head? hliteral.1)) (by decide)
  | ipv4 address =>
    refine iff_of_false (fun hliteral ↦ ?_) nofun
    simp only [isIpv6Literal, Bool.and_eq_true, decide_eq_true_eq] at hliteral
    exact absurd (Url.mem_ipv4Text (List.mem_of_head? hliteral.1)) (by decide)
  | ipv6 text =>
    refine iff_of_true ?_ ⟨text, rfl⟩
    rw [isIpv6Literal, Url.Host.text, List.getLast?_concat]
    rfl

theorem protocol_eq_iff : url.protocol = "https:".toList ↔ url.scheme = "https".toList := by
  have hhttps : "https:".toList = "https".toList ++ [':'] := rfl
  rw [Url.Web.protocol, hhttps, List.append_left_inj]

theorem parseFetchableHttpsUrl_eq_some_iff :
    parseFetchableHttpsUrl platform uri = some url ↔ Fetchable platform uri url := by
  rw [parseFetchableHttpsUrl]
  constructor
  · intro h
    split at h
    · next u hparse =>
      obtain ⟨hprotocol, h⟩ := Option.ite_none_left_eq_some.mp h
      obtain ⟨huser, h⟩ := Option.ite_none_left_eq_some.mp h
      obtain ⟨hhash, h⟩ := Option.ite_none_left_eq_some.mp h
      obtain ⟨-, h⟩ := Option.ite_none_left_eq_some.mp h
      obtain ⟨hliteral, h⟩ := Option.ite_none_left_eq_some.mp h
      obtain ⟨hrefused, h⟩ := Option.ite_none_left_eq_some.mp h
      obtain rfl := Option.some.inj h
      simp only [not_or, not_not] at huser hhash hprotocol
      simp only [Bool.or_eq_true, not_or, Bool.not_eq_true] at hliteral hrefused
      refine ⟨hparse, protocol_eq_iff.mp hprotocol, huser.1, huser.2, hhash, hliteral.2, hrefused, ?_⟩
      cases hhost : u.host with
      | domain name => exact ⟨name, rfl⟩
      | ipv4 address =>
        have hfour := isIpv4Literal_ipv4Text address
        have hname : u.hostname = Url.ipv4Text address := by rw [Url.Web.hostname, hhost]; rfl
        rw [← hname, hliteral.2] at hfour
        cases hfour
      | ipv6 text =>
        rw [(isIpv6Literal_iff hparse).mpr ⟨text, hhost⟩] at hliteral
        cases hliteral.1
    · cases h
  · intro h
    obtain ⟨name, hname⟩ := h.named
    have hsix : isIpv6Literal url.hostname = false := by
      rw [← Bool.not_eq_true, isIpv6Literal_iff h.parse, hname]
      nofun
    obtain ⟨⟨host, hhost⟩, -, -⟩ := Url.parse_eq_web h.parse
    rw [hname] at hhost
    have hne : url.hostname ≠ [] := by
      rw [Url.Web.hostname, hname]
      exact (Url.readHost_domain hhost).1
    simp only [h.parse]
    rw [if_neg (not_not.mpr (protocol_eq_iff.mpr h.scheme)), if_neg (by simp [h.username, h.password]),
      if_neg (not_not.mpr h.hash), if_neg hne, if_neg (by simp [hsix, h.ipv4]),
      if_neg (by simp [h.refused])]

/-! ### Paths -/

/-- The address's path goes on from the other's at the end of a segment. -/
def Extends (base path : List (List Char)) : Prop := base.rdropWhile (·.isEmpty) <+: path

theorem rdropWhile_getLast {path : List (List Char)} :
    ∀ segment ∈ (path.rdropWhile (·.isEmpty)).getLast?, segment.isEmpty = false := by
  intro segment hsegment
  obtain ⟨hne, rfl⟩ := List.mem_getLast?_eq_getLast hsegment
  exact Bool.not_eq_true _ ▸ List.rdropWhile_last_not _ _ hne

/-- A compiled prefix covers the addresses of its origin whose path goes on from its own. -/
theorem covers_iff (hurl : ∀ segment ∈ url.path, '/' ∉ segment)
    (hcandidate : ∀ segment ∈ candidate.path, '/' ∉ segment) :
    (compiledPrefix url).covers candidate = true ↔
      url.origin = candidate.origin ∧ Extends url.path candidate.path := by
  have hsub : ∀ path : List (List Char), (∀ segment ∈ path, '/' ∉ segment) →
      ∀ segment ∈ path.rdropWhile (·.isEmpty), '/' ∉ segment := fun path h segment hsegment ↦
    h segment ((List.rdropWhile_prefix _ path).subset hsegment)
  have hbase : (compiledPrefix url).path = Url.pathText (url.path.rdropWhile (·.isEmpty)) :=
    Url.pathText_rdropWhile hurl
  have hpath : stripSlashes candidate.pathname =
      Url.pathText (candidate.path.rdropWhile (·.isEmpty)) := Url.pathText_rdropWhile hcandidate
  have hlast := @rdropWhile_getLast url.path
  rw [Extends, ← Url.prefix_rdropWhile_iff hlast,
    ← Url.pathText_prefix_iff (hsub _ hurl) (hsub _ hcandidate)]
  simp only [CompiledPrefix.covers, hbase, hpath, Bool.and_eq_true, Bool.or_eq_true,
    decide_eq_true_eq, List.isPrefixOf_iff_prefix]
  refine and_congr Iff.rfl ⟨?_, ?_⟩
  · rintro ((hnil | heq) | ⟨rest, hrest⟩)
    · exact ⟨Url.pathText (candidate.path.rdropWhile (·.isEmpty)), fun c ↦ Url.pathText_head c,
        by rw [hnil, List.nil_append]⟩
    · exact ⟨[], nofun, by rw [heq, List.append_nil]⟩
    · refine ⟨'/' :: rest, ?_, by rw [← hrest, List.append_assoc]; rfl⟩
      rintro c ⟨⟩
      rfl
  · rintro ⟨rest, hhead, hrest⟩
    cases rest with
    | nil => exact .inl (.inr (by rw [← hrest, List.append_nil]))
    | cons c rest =>
      obtain rfl := hhead c rfl
      exact .inr ⟨rest, by rw [← hrest, List.append_assoc]; rfl⟩

/-! ### The allowlist -/

/-- The entry is a text that is read as an address without a query. -/
def IsEntry (platform : Url.Platform) (entry : Configured) (url : Url.Web) : Prop :=
  ∃ text, entry = .text text ∧ (parsePrefix platform text).filter (·.search = []) = some url

theorem parsePrefix_path {text : JsString}
    (h : (parsePrefix platform text).filter (·.search = []) = some url) :
    ∀ segment ∈ url.path, '/' ∉ segment := by
  obtain ⟨h, -⟩ := Option.filter_eq_some_iff.mp h
  obtain ⟨-, h⟩ := Option.ite_none_right_eq_some.mp h
  exact fun segment ↦ Url.slash_not_mem_path (parseFetchableHttpsUrl_eq_some_iff.mp h).parse

/-- The compiled prefixes are those of the entries. -/
theorem mem_compileFrom {index : ℕ} {compiled : List CompiledPrefix}
    (h : compileFrom platform index prefixes = .ok compiled) (c : CompiledPrefix) :
    c ∈ compiled ↔ ∃ entry ∈ prefixes, ∃ url, IsEntry platform entry url ∧ c = compiledPrefix url := by
  induction prefixes generalizing index compiled with
  | nil =>
    cases h
    simp
  | cons entry prefixes ih =>
    rw [compileFrom.eq_def] at h
    dsimp only at h
    split at h
    · cases h
    · next url hurl =>
      cases hrest : compileFrom platform (index + 1) prefixes with
      | error e =>
        rw [hrest] at h
        cases h
      | ok rest =>
        rw [hrest] at h
        cases h
        have hentry : ∀ u, IsEntry platform entry u ↔ u = url := by
          intro u
          cases entry with
          | text text =>
            constructor
            · rintro ⟨_, ⟨⟩, hu⟩
              exact Option.some.inj (hu.symm.trans hurl)
            · rintro rfl
              exact ⟨text, rfl, hurl⟩
          | other shown => cases hurl
        rw [List.mem_cons, ih hrest, List.exists_mem_cons_iff]
        refine or_congr ?_ Iff.rfl
        constructor
        · rintro rfl
          exact ⟨url, (hentry url).mpr rfl, rfl⟩
        · rintro ⟨u, hu, rfl⟩
          rw [(hentry u).mp hu]

/-- Some entry has the address's origin, and its path goes on from the entry's. -/
def Covered (platform : Url.Platform) (prefixes : List Configured) (url : Url.Web) : Prop :=
  ∃ entry ∈ prefixes, ∃ base, IsEntry platform entry base ∧ base.origin = url.origin ∧
    Extends base.path url.path

theorem permits_iff (h : createStatusListUriAllowlist platform (some prefixes) = .ok allowlist) :
    allowlist.permits platform uri = true ↔
      ∃ url, Fetchable platform uri url ∧ Covered platform prefixes url := by
  obtain ⟨compiled, hcompiled, rfl⟩ : ∃ compiled, compileFrom platform 0 prefixes = .ok compiled ∧
      allowlist = ⟨compiled⟩ := by
    rw [createStatusListUriAllowlist] at h
    cases hcompiled : compileFrom platform 0 prefixes with
    | error e =>
      rw [hcompiled] at h
      cases h
    | ok compiled =>
      rw [hcompiled] at h
      cases h
      exact ⟨compiled, rfl, rfl⟩
  have hcovered : ∀ url, Fetchable platform uri url →
      (compiled.any (·.covers url) = true ↔ Covered platform prefixes url) := by
    intro url hurl
    have hpath : ∀ segment ∈ url.path, '/' ∉ segment := fun segment ↦
      Url.slash_not_mem_path hurl.parse
    rw [List.any_eq_true]
    constructor
    · rintro ⟨c, hc, hcovers⟩
      obtain ⟨entry, hentry, base, hbase, rfl⟩ := (mem_compileFrom hcompiled c).mp hc
      have hbasePath := parsePrefix_path hbase.choose_spec.2
      exact ⟨entry, hentry, base, hbase, (covers_iff hbasePath hpath).mp hcovers⟩
    · rintro ⟨entry, hentry, base, hbase, hcovers⟩
      have hbasePath := parsePrefix_path hbase.choose_spec.2
      exact ⟨_, (mem_compileFrom hcompiled _).mpr ⟨entry, hentry, base, hbase, rfl⟩,
        (covers_iff hbasePath hpath).mpr hcovers⟩
  rw [StatusListUriAllowlist.permits]
  cases hfetch : parseFetchableHttpsUrl platform uri with
  | none =>
    refine iff_of_false Bool.false_ne_true ?_
    rintro ⟨url, hurl, -⟩
    rw [parseFetchableHttpsUrl_eq_some_iff.mpr hurl] at hfetch
    cases hfetch
  | some url =>
    have hurl := parseFetchableHttpsUrl_eq_some_iff.mp hfetch
    dsimp only
    rw [hcovered url hurl]
    constructor
    · exact fun hcovers ↦ ⟨url, hurl, hcovers⟩
    · rintro ⟨u, hu, hcovers⟩
      rw [parseFetchableHttpsUrl_eq_some_iff.mpr hu] at hfetch
      cases hfetch
      exact hcovers

/-! ### What it is for -/

/-- The address is one that the allowlist is to let through: `https`, without a user or a
fragment, under a name that is not `localhost` or under it, and under an entry. -/
def Guarded (platform : Url.Platform) (prefixes : List Configured) (uri : JsString) : Prop :=
  ∃ url, Url.parse platform (charsOf uri) = some (.web url) ∧ url.scheme = "https".toList ∧
    url.username = [] ∧ url.password = [] ∧ url.fragment = none ∧
      (∃ name, url.host = .domain name ∧ ¬NamesLocalhost name) ∧ Covered platform prefixes url

/-- The address is one that the checks miss: it is `localhost` or a name under it with a dot at
its end, or has a fragment without text; and nothing else is refused in it. -/
def Slips (platform : Url.Platform) (prefixes : List Configured) (uri : JsString) : Prop :=
  ∃ url name, Url.parse platform (charsOf uri) = some (.web url) ∧ url.scheme = "https".toList ∧
    url.username = [] ∧ url.password = [] ∧ url.hash = [] ∧ url.host = .domain name ∧
      isIpv4Literal name = false ∧ isAlwaysRefusedHost name = false ∧
        (EndsInLocalhostDot name ∨ url.fragment = some []) ∧ Covered platform prefixes url

theorem hash_eq_nil_iff : url.hash = [] ↔ url.fragment = none ∨ url.fragment = some [] := by
  rw [Url.Web.hash]
  cases url.fragment with
  | none => simp [Url.Web.marked]
  | some text => cases text <;> simp [Url.Web.marked]

/-- A fetchable address that is not guarded is one that slips through. -/
theorem guarded_iff_not_slips
    (h : createStatusListUriAllowlist platform (some prefixes) = .ok allowlist) :
    (allowlist.permits platform uri = true → Guarded platform prefixes uri) ↔
      ¬Slips platform prefixes uri := by
  have hnames : ∀ {url : Url.Web} {name : List Char}, Url.parse platform (charsOf uri) =
      some (.web url) → url.host = .domain name → isAlwaysRefusedHost name = false →
        (NamesLocalhost name ↔ EndsInLocalhostDot name) := by
    intro url name hparse hname hrefused
    obtain ⟨⟨host, hhost⟩, -, -⟩ := Url.parse_eq_web hparse
    rw [hname] at hhost
    exact namesLocalhost_iff (Url.readHost_domain hhost).2.2.1 hrefused
  rw [permits_iff h]
  constructor
  · rintro hguarded ⟨url, name, hparse, hscheme, husername, hpassword, hhash, hname, hipv4, hrefused,
      hslips, hcovered⟩
    have hhostname : url.hostname = name := by rw [Url.Web.hostname, hname]; rfl
    have hfetch : Fetchable platform uri url :=
      ⟨hparse, hscheme, husername, hpassword, hhash, hhostname ▸ hipv4, hhostname ▸ hrefused,
        ⟨name, hname⟩⟩
    obtain ⟨u, hu, -, -, -, hfragment, ⟨name', hname', hlocal⟩, -⟩ := hguarded ⟨url, hfetch, hcovered⟩
    obtain rfl : url = u := by
      rw [hparse] at hu
      exact Url.Parsed.web.inj (Option.some.inj hu)
    obtain rfl : name = name' := by
      rw [hname] at hname'
      exact Url.Host.domain.inj hname'
    rcases hslips with hdot | hempty
    · exact hlocal ((hnames hparse hname hrefused).mpr hdot)
    · rw [hfragment] at hempty
      cases hempty
  · rintro hnot ⟨url, hfetch, hcovered⟩
    obtain ⟨name, hname⟩ := hfetch.named
    have hhostname : url.hostname = name := by rw [Url.Web.hostname, hname]; rfl
    have hipv4 : isIpv4Literal name = false := hhostname ▸ hfetch.ipv4
    have hrefused : isAlwaysRefusedHost name = false := hhostname ▸ hfetch.refused
    have hkeeps : ¬(EndsInLocalhostDot name ∨ url.fragment = some []) := fun hslips ↦
      hnot ⟨url, name, hfetch.parse, hfetch.scheme, hfetch.username, hfetch.password, hfetch.hash,
        hname, hipv4, hrefused, hslips, hcovered⟩
    rw [not_or] at hkeeps
    have hfragment : url.fragment = none := (hash_eq_nil_iff.mp hfetch.hash).resolve_right hkeeps.2
    refine ⟨url, hfetch.parse, hfetch.scheme, hfetch.username, hfetch.password, hfragment,
      ⟨name, hname, ?_⟩, hcovered⟩
    rw [hnames hfetch.parse hname hrefused]
    exact hkeeps.1

/-! ### The signers -/

theorem mem_compileDelegations {index : ℕ} {entries : List (JsString × Configured)}
    {compiled : List CompiledDelegation}
    (h : compileDelegations platform index entries = .ok compiled) {d : CompiledDelegation}
    (hd : d ∈ compiled) : ∃ entry ∈ entries, ∃ base signer,
      IsEntry platform (.text entry.1) base ∧ parseSigner platform entry.2 = some signer ∧
        d = { compiledPrefix base with signer := signer.origin } := by
  induction entries generalizing index compiled with
  | nil =>
    cases h
    cases hd
  | cons entry entries ih =>
    obtain ⟨text, named⟩ := entry
    rw [compileDelegations.eq_def] at h
    dsimp only at h
    split at h
    · next base signer hbase hsigner =>
      cases hrest : compileDelegations platform (index + 1) entries with
      | error e =>
        rw [hrest] at h
        cases h
      | ok rest =>
        rw [hrest] at h
        cases h
        rcases List.mem_cons.mp hd with rfl | hd
        · exact ⟨_, List.mem_cons_self, base, signer, ⟨text, rfl, hbase⟩, hsigner, rfl⟩
        · obtain ⟨entry, hentry, hfacts⟩ := ih hrest hd
          exact ⟨entry, List.mem_cons_of_mem _ hentry, hfacts⟩
    · cases h

theorem create_singleton {entry : Configured} (h : IsEntry platform entry url) :
    createStatusListUriAllowlist platform (some [entry]) = .ok ⟨[compiledPrefix url]⟩ := by
  obtain ⟨text, rfl, hurl⟩ := h
  rw [createStatusListUriAllowlist, compileFrom.eq_def]
  simp only [hurl]
  rfl

/-- The signers of an address are those of entries whose prefix, alone in an allowlist, permits
it. -/
def SignersOfPermitted (platform : Url.Platform) (entries : List (JsString × Configured))
    (delegations : StatusListSignerDelegations) (uri : JsString) : Prop :=
  ∀ signer ∈ delegations.signersFor platform uri, ∃ entry ∈ entries, ∃ url,
    parseSigner platform entry.2 = some url ∧ signer = url.origin ∧ ∃ allowlist,
      createStatusListUriAllowlist platform (some [.text entry.1]) = .ok allowlist ∧
        allowlist.permits platform uri = true

theorem signersOfPermitted {entries : List (JsString × Configured)}
    {delegations : StatusListSignerDelegations}
    (h : createStatusListSignerDelegations platform (some entries) = .ok delegations) :
    SignersOfPermitted platform entries delegations uri := by
  intro signer hsigner
  rw [createStatusListSignerDelegations, Option.getD_some] at h
  cases hcompiled : compileDelegations platform 0 entries with
  | error e =>
    rw [hcompiled] at h
    cases h
  | ok compiled =>
    rw [hcompiled] at h
    cases h
    rw [StatusListSignerDelegations.signersFor] at hsigner
    cases hfetch : parseFetchableHttpsUrl platform uri with
    | none =>
      rw [hfetch] at hsigner
      cases hsigner
    | some candidate =>
      rw [hfetch] at hsigner
      obtain ⟨d, hd, rfl⟩ := List.mem_map.mp hsigner
      obtain ⟨hd, hcovers⟩ := List.mem_filter.mp hd
      obtain ⟨entry, hentry, base, url, hbase, hurl, rfl⟩ := mem_compileDelegations hcompiled hd
      refine ⟨entry, hentry, url, hurl, rfl, _, create_singleton hbase, ?_⟩
      rw [StatusListUriAllowlist.permits, hfetch]
      simpa using hcovers

/-- **The allowlist and the signers let through what they are for, but for what slips.** -/
theorem permits_guarded_iff (platform : Url.Platform) (prefixes : List Configured)
    (allowlist : StatusListUriAllowlist) (entries : List (JsString × Configured))
    (delegations : StatusListSignerDelegations)
    (hallowlist : createStatusListUriAllowlist platform (some prefixes) = .ok allowlist)
    (hdelegations : createStatusListSignerDelegations platform (some entries) = .ok delegations)
    (uri : JsString) :
    ((allowlist.permits platform uri = true → Guarded platform prefixes uri) ↔
      ¬Slips platform prefixes uri) ∧ SignersOfPermitted platform entries delegations uri :=
  ⟨guarded_iff_not_slips hallowlist, signersOfPermitted hdelegations⟩

section Samples

def addressOf (name path : List Char) : JsString :=
  ("https".toList ++ "://".toList ++ name ++ path).flatMap Text.unitsOf

def placeOf (name path : List Char) : Url.Web :=
  .named "https".toList name (Url.readPlace (Url.cleanEnd path))

theorem fetchable_addressOf {path : List Char} (hne : name ≠ [])
    (hplain : ∀ c ∈ name, Url.isPlain c = true) (hlabel : Url.hasEncodedLabel name = false)
    (hends : Url.endsInNumber name = false) (hpath : ∀ c ∈ path.head?, Url.isEnd c = true)
    (hhash : (placeOf name path).hash = []) (hipv4 : isIpv4Literal name = false)
    (hrefused : isAlwaysRefusedHost name = false) :
    Fetchable platform (addressOf name path) (placeOf name path) := by
  have hdefault : Url.defaultPort "https".toList = some 443 := by decide
  have hscheme : ∀ text,
      Url.readScheme ("https".toList ++ ':' :: text) = some ("https".toList, text) := fun _ ↦ rfl
  have hparse := Url.parse_named platform hscheme (by decide) hdefault hne hplain hlabel hends hpath
  have hhostname : (placeOf name path).hostname = name := rfl
  have hread : Url.parse platform (charsOf (addressOf name path)) =
      some (.web (placeOf name path)) := by
    have htext : charsOf (addressOf name path) = "https".toList ++ "://".toList ++ name ++ path :=
      Text.charsOf_flatMap_unitsOf _
    rw [htext, hparse, placeOf]
  exact ⟨hread, rfl, rfl, rfl, hhash, by rw [hhostname, hipv4], by rw [hhostname, hrefused],
    ⟨name, rfl⟩⟩

theorem fetchable_sample : Fetchable .ascii (addressOf "status.example".toList "/lists".toList)
      (placeOf "status.example".toList "/lists".toList) ∧
    Fetchable .ascii (addressOf "localhost.".toList "/lists".toList)
      (placeOf "localhost.".toList "/lists".toList) := by
  have hpath : ∀ c ∈ "/lists".toList.head?, Url.isEnd c = true := by
    rintro c ⟨⟩
    rfl
  constructor
  · refine fetchable_addressOf ?_ ?_ ?_ ?_ hpath ?_ ?_ ?_ <;> decide
  · refine fetchable_addressOf ?_ ?_ ?_ ?_ hpath ?_ ?_ ?_ <;> decide

theorem trim_sample : trim (addressOf "status.example".toList "/lists".toList) =
      addressOf "status.example".toList "/lists".toList ∧
    trim (addressOf "localhost.".toList "/lists".toList) =
      addressOf "localhost.".toList "/lists".toList := by
  decide

/-- An address that is not refused is an entry, if nothing is trimmed from it. -/
theorem isEntry_of_fetchable (hfetch : Fetchable platform uri url) (htrim : trim uri = uri)
    (hne : 0 < uri.length) (hlength : uri.length ≤ MAX_PREFIX_LENGTH) (hsearch : url.search = []) :
    IsEntry platform (.text uri) url := by
  refine ⟨uri, rfl, ?_⟩
  rw [parsePrefix, htrim, if_pos ⟨hne, hlength⟩, parseFetchableHttpsUrl_eq_some_iff.mpr hfetch,
    Option.filter_some, if_pos (decide_eq_true hsearch)]

theorem isEntry_sample :
    IsEntry .ascii (.text (addressOf "status.example".toList "/lists".toList))
        (placeOf "status.example".toList "/lists".toList) ∧
      IsEntry .ascii (.text (addressOf "localhost.".toList "/lists".toList))
        (placeOf "localhost.".toList "/lists".toList) :=
  ⟨isEntry_of_fetchable fetchable_sample.1 trim_sample.1 (by decide) (by decide) (by decide),
    isEntry_of_fetchable fetchable_sample.2 trim_sample.2 (by decide) (by decide) (by decide)⟩

theorem delegations_sample : createStatusListSignerDelegations .ascii
      (some [(addressOf "status.example".toList "/lists".toList,
        .text (addressOf "status.example".toList "/lists".toList))]) =
    .ok ⟨[⟨compiledPrefix (placeOf "status.example".toList "/lists".toList),
      (placeOf "status.example".toList "/lists".toList).origin⟩]⟩ := by
  obtain ⟨_, ⟨⟩, hentry⟩ := isEntry_sample.1
  have hsigner : parseSigner .ascii (.text (addressOf "status.example".toList "/lists".toList)) =
      some (placeOf "status.example".toList "/lists".toList) := by
    rw [parseSigner, trim_sample.1, if_pos (by decide)]
    exact parseFetchableHttpsUrl_eq_some_iff.mpr fetchable_sample.1
  rw [createStatusListSignerDelegations, Option.getD_some, compileDelegations.eq_def]
  simp only [hentry, hsigner]
  rfl

theorem permits_guarded_iff_sample :
    ((StatusListUriAllowlist.permits .ascii
        ⟨[compiledPrefix (placeOf "status.example".toList "/lists".toList)]⟩
        (addressOf "status.example".toList "/lists".toList) = true →
      Guarded .ascii [.text (addressOf "status.example".toList "/lists".toList)]
        (addressOf "status.example".toList "/lists".toList)) ↔
      ¬Slips .ascii [.text (addressOf "status.example".toList "/lists".toList)]
        (addressOf "status.example".toList "/lists".toList)) ∧
      SignersOfPermitted .ascii [(addressOf "status.example".toList "/lists".toList,
          .text (addressOf "status.example".toList "/lists".toList))]
        ⟨[⟨compiledPrefix (placeOf "status.example".toList "/lists".toList),
          (placeOf "status.example".toList "/lists".toList).origin⟩]⟩
        (addressOf "status.example".toList "/lists".toList) :=
  permits_guarded_iff .ascii _ _ _ _ (create_singleton isEntry_sample.1) delegations_sample _

/-- An address of `localhost` is permitted, by an allowlist that names it with a dot at its end. -/
theorem permits_localhost_dot :
    createStatusListUriAllowlist .ascii
        (some [.text (addressOf "localhost.".toList "/lists".toList)]) =
      .ok ⟨[compiledPrefix (placeOf "localhost.".toList "/lists".toList)]⟩ ∧
    StatusListUriAllowlist.permits .ascii
        ⟨[compiledPrefix (placeOf "localhost.".toList "/lists".toList)]⟩
        (addressOf "localhost.".toList "/lists".toList) = true ∧
      ¬Guarded .ascii [.text (addressOf "localhost.".toList "/lists".toList)]
        (addressOf "localhost.".toList "/lists".toList) := by
  have hfetch := fetchable_sample.2
  refine ⟨create_singleton isEntry_sample.2, ?_, ?_⟩
  · rw [StatusListUriAllowlist.permits, parseFetchableHttpsUrl_eq_some_iff.mpr hfetch]
    decide
  · rintro ⟨url, hparse, -, -, -, -, ⟨name, hname, hlocal⟩, -⟩
    rw [hfetch.parse] at hparse
    obtain rfl := Url.Parsed.web.inj (Option.some.inj hparse)
    cases hname
    exact hlocal (by decide)

end Samples

end QAuth.Federation.StatusListUri
