import Mathlib.Data.List.Find
import Mathlib.Data.List.Perm.Subperm
import QAuth.Federation.Revealed

/-!
# A holder can only withhold

The walk of `Disclosures` is sound for the claims that `Revealed` describes: what it accepts is
what the presented Disclosures reveal of the signed payload, each of them used once.
-/

namespace QAuth.Federation

open Guards Json

variable {ν : Type}

/-! ### The walk -/

/-- What a parsed Disclosure carries. -/
def ParsedDisclosure.contents (disclosure : ParsedDisclosure ν) : Option String × Value ν :=
  (disclosure.claimName, disclosure.value)

section Walk

variable (disclosures : List (ParsedDisclosure ν))

def openedBy (digest : String) : Option (Option String × Value ν) :=
  (byDigest disclosures digest).map ParsedDisclosure.contents

/-- A walk used more digests, each of a Disclosure and none twice. -/
structure Consumes (used used' ds : List String) : Prop where
  eq : used' = ds ++ used
  nodup : used.Nodup → used'.Nodup
  presented : ∀ d ∈ ds, (byDigest disclosures d).isSome

variable {disclosures}

theorem Consumes.refl (used : List String) : Consumes disclosures used used [] :=
  ⟨rfl, id, by simp⟩

theorem Consumes.trans {used used' used'' ds ds' : List String}
    (h : Consumes disclosures used used' ds) (h' : Consumes disclosures used' used'' ds') :
    Consumes disclosures used used'' (ds' ++ ds) where
  eq := by rw [h'.eq, h.eq, List.append_assoc]
  nodup := h'.nodup ∘ h.nodup
  presented d hd := by
    rcases List.mem_append.mp hd with hd | hd
    · exact h'.presented d hd
    · exact h.presented d hd

/-- A digest that no Disclosure has leaves the used ones. -/
theorem consumeDigest_eq_none {digest : String} {used used' : List String}
    (h : consumeDigest disclosures digest used = .ok (none, used')) :
    byDigest disclosures digest = none ∧ used' = used := by
  rw [consumeDigest] at h
  cases hfound : byDigest disclosures digest with
  | none =>
    rw [hfound] at h
    cases h
    exact ⟨rfl, rfl⟩
  | some disclosure =>
    rw [hfound] at h
    by_cases hused : digest ∈ used <;> simp [hused] at h

theorem consumeDigest_eq_some {digest : String} {used used' : List String}
    {disclosure : ParsedDisclosure ν}
    (h : consumeDigest disclosures digest used = .ok (some disclosure, used')) :
    byDigest disclosures digest = some disclosure ∧ digest ∉ used ∧ used' = digest :: used := by
  rw [consumeDigest] at h
  cases hfound : byDigest disclosures digest with
  | none =>
    rw [hfound] at h
    cases h
  | some disclosure' =>
    rw [hfound] at h
    by_cases hused : digest ∈ used
    · simp [hused] at h
    · simp only [hused, if_false, Except.ok.injEq, Prod.mk.injEq, Option.some.injEq] at h
      exact ⟨congrArg some h.1, hused, h.2.symm⟩

theorem Consumes.single {digest : String} {used used' : List String}
    {disclosure : ParsedDisclosure ν}
    (h : consumeDigest disclosures digest used = .ok (some disclosure, used')) :
    Consumes disclosures used used' [digest] := by
  obtain ⟨hfound, hfresh, rfl⟩ := consumeDigest_eq_some h
  refine ⟨rfl, fun hnodup ↦ List.nodup_cons.mpr ⟨hfresh, hnodup⟩, fun d hd ↦ ?_⟩
  rw [List.mem_singleton.mp hd, hfound]
  rfl

/-- What resolves the claims one level down reveals well named claims. -/
def Reveals (disclosures : List (ParsedDisclosure ν)) (next : Next ν) : Prop :=
  ∀ v used w used', v.WellNamed → next v used = .ok (w, used') →
    ∃ ds, Revealed (openedBy disclosures) v w ds ∧ Consumes disclosures used used' ds

theorem placeholder_eq_some {v : Value ν} {digest : String}
    (h : placeholder v = .ok (some digest)) : v = .obj [("...", .str digest)] := by
  cases v with
  | obj members =>
    rw [placeholder] at h
    cases hlookup : members.lookup "..." with
    | none => simp [hlookup] at h
    | some d =>
      rw [hlookup] at h
      by_cases hlen : members.length = 1
      · obtain ⟨⟨name, w⟩, rfl⟩ := List.length_eq_one_iff.mp hlen
        have hmem := mem_of_lookup_eq_some hlookup
        simp only [List.mem_singleton, Prod.mk.injEq] at hmem
        cases d with
        | str d =>
          obtain rfl : d = digest := by simpa using h
          rw [← hmem.1, ← hmem.2]
        | _ => simp at h
      · simp [hlen] at h
  | _ => simp [placeholder] at h

theorem placeholder_eq_none {v : Value ν} (h : placeholder v = .ok none) :
    v.member? "..." = none := by
  cases v with
  | obj members =>
    rw [Value.member?]
    rw [placeholder] at h
    cases hlookup : members.lookup "..." with
    | none => rfl
    | some d =>
      rw [hlookup] at h
      by_cases hlen : members.length = 1
      · cases d <;> simp [hlen] at h
      · simp [hlen] at h
  | _ => rfl

/-- The walk over the elements of an array is sound where the level below is. -/
theorem discloseArray_revealed {next : Next ν} (hnext : Reveals disclosures next)
    (hvalues : ∀ p ∈ disclosures, p.value.WellNamed) {items out : List (Value ν)}
    (hitems : ∀ v ∈ items, v.WellNamed) {used used' : List String}
    (h : discloseArray disclosures next items used = .ok (out, used')) :
    ∃ ds, RevealedItems (openedBy disclosures) items out ds ∧
      Consumes disclosures used used' ds := by
  induction items generalizing out used used' with
  | nil =>
    rw [discloseArray] at h
    cases h
    exact ⟨[], .nil, .refl used⟩
  | cons element rest ih =>
    have hrest : ∀ v ∈ rest, v.WellNamed := fun v hv ↦ hitems v (List.mem_cons_of_mem _ hv)
    rw [discloseArray, bind_eq_ok_iff] at h
    obtain ⟨place, hplace, h⟩ := h
    cases place with
    | none =>
      simp only [bind_eq_ok_iff, Prod.exists, Except.ok.injEq, Prod.mk.injEq] at h
      obtain ⟨value, used₁, hvalue, values, used₂, hvalues', rfl, rfl⟩ := h
      obtain ⟨ds, hr, hc⟩ := hnext _ _ _ _ (hitems _ List.mem_cons_self) hvalue
      obtain ⟨ds', hr', hc'⟩ := ih hrest hvalues'
      exact ⟨_, .plain (placeholder_eq_none hplace) hr hr', hc.trans hc'⟩
    | some digest =>
      obtain rfl := placeholder_eq_some hplace
      simp only [bind_eq_ok_iff, Prod.exists] at h
      obtain ⟨disclosure, used₁, hconsume, h⟩ := h
      cases disclosure with
      | none =>
        obtain ⟨hnone, rfl⟩ := consumeDigest_eq_none hconsume
        obtain ⟨ds, hr, hc⟩ := ih hrest h
        exact ⟨ds, .withheld (by rw [openedBy, hnone]; rfl) hr, hc⟩
      | some disclosure =>
        obtain ⟨hfound, -, -⟩ := consumeDigest_eq_some hconsume
        simp only [bind_eq_ok_iff, refuseIf_eq_ok_iff, Prod.exists, Except.ok.injEq,
          Prod.mk.injEq, Option.not_isSome_iff_eq_none] at h
        obtain ⟨-, hname, value, used₂, hvalue, values, used₃, hvalues', rfl, rfl⟩ := h
        have hmem : disclosure ∈ disclosures := List.mem_of_find?_eq_some hfound
        obtain ⟨ds, hr, hc⟩ := hnext _ _ _ _ (hvalues _ hmem) hvalue
        obtain ⟨ds', hr', hc'⟩ := ih hrest hvalues'
        have hopen : openedBy disclosures digest = some (none, disclosure.value) := by
          rw [openedBy, hfound, Option.map_some, ParsedDisclosure.contents, hname]
        exact ⟨_, .disclosed hopen hr hr', ((Consumes.single hconsume).trans hc).trans hc'⟩

/-- A claim that is not yet present is added at the end. -/
theorem defineClaim_of_notMem {target : List (String × Value ν)} {name : String} {value : Value ν}
    (h : name ∉ target.map Prod.fst) : defineClaim target name value = target ++ [(name, value)] :=
  if_neg h

/-- The plain members keep their names. -/
theorem RevealedMembers.names_sublist {opened : String → Option (Option String × Value ν)} :
    ∀ {members out : List (String × Value ν)} {ds}, RevealedMembers opened members out ds →
      (out.map Prod.fst).Sublist (members.map Prod.fst)
  | _, _, _, .nil => .slnil
  | _, _, _, .machinery _ h => h.names_sublist.cons _
  | _, _, _, .plain _ _ h => h.names_sublist.cons_cons _

/-- The walk over the plain members of an object is sound where the level below is. -/
theorem discloseMembers_revealed {next : Next ν} (hnext : Reveals disclosures next)
    {members result out : List (String × Value ν)} (hmembers : ∀ m ∈ members, m.2.WellNamed)
    (hnames : ((result ++ members).map Prod.fst).Nodup) {used used' : List String}
    (h : discloseMembers next members result used = .ok (out, used')) :
    ∃ plain ds, out = result ++ plain ∧ RevealedMembers (openedBy disclosures) members plain ds ∧
      Consumes disclosures used used' ds := by
  induction members generalizing result used with
  | nil =>
    rw [discloseMembers] at h
    cases h
    exact ⟨[], [], (List.append_nil _).symm, .nil, .refl _⟩
  | cons m rest ih =>
    obtain ⟨key, value⟩ := m
    have hrest : ∀ m ∈ rest, m.2.WellNamed := fun m hm ↦ hmembers m (List.mem_cons_of_mem _ hm)
    rw [List.map_append, List.map_cons] at hnames
    rw [discloseMembers] at h
    by_cases hkey : key = "_sd" ∨ key = "_sd_alg"
    · rw [if_pos hkey] at h
      have hnames' : ((result ++ rest).map Prod.fst).Nodup := by
        rw [List.map_append]
        exact hnames.sublist (List.Sublist.append_left (List.sublist_cons_self _ _) _)
      obtain ⟨plain, ds, hout, hr, hc⟩ := ih hrest hnames' h
      exact ⟨plain, ds, hout, .machinery hkey hr, hc⟩
    · simp only [if_neg hkey, bind_eq_ok_iff, Prod.exists] at h
      obtain ⟨w, used₁, hvalue, h⟩ := h
      have hfresh : key ∉ result.map Prod.fst := fun hmem ↦
        (List.disjoint_of_nodup_append hnames) hmem List.mem_cons_self
      rw [defineClaim_of_notMem hfresh] at h
      have hnames' : ((result ++ [(key, w)] ++ rest).map Prod.fst).Nodup := by
        rw [List.append_assoc, List.map_append]
        exact hnames
      obtain ⟨ds, hr, hc⟩ := hnext _ _ _ _ (hmembers _ List.mem_cons_self) hvalue
      obtain ⟨plain, ds', hout, hr', hc'⟩ := ih hrest hnames' h
      refine ⟨(key, w) :: plain, ds' ++ ds, ?_, .plain hkey hr hr', hc.trans hc'⟩
      rw [hout, List.append_assoc, List.singleton_append]

/-- The walk over the digests of an object is sound where the level below is. -/
theorem discloseDigests_revealed {next : Next ν} (hnext : Reveals disclosures next)
    (hvalues : ∀ p ∈ disclosures, p.value.WellNamed) {sd : List (Value ν)} {seen : List String}
    {result out : List (String × Value ν)} (hnames : (result.map Prod.fst).Nodup)
    {used used' : List String}
    (h : discloseDigests disclosures next sd seen result used = .ok (out, used')) :
    ∃ digests claims ds, sd = digests.map .str ∧ out = result ++ claims ∧
      (out.map Prod.fst).Nodup ∧ RevealedDigests (openedBy disclosures) digests claims ds ∧
      Consumes disclosures used used' ds := by
  induction sd generalizing seen result used with
  | nil =>
    rw [discloseDigests] at h
    cases h
    exact ⟨[], [], [], rfl, (List.append_nil _).symm, hnames, .nil, .refl _⟩
  | cons d rest ih =>
    cases d with
    | str digest =>
      simp only [discloseDigests, bind_eq_ok_iff, Prod.exists] at h
      obtain ⟨-, -, disclosure, used₁, hconsume, h⟩ := h
      cases disclosure with
      | none =>
        obtain ⟨hnone, rfl⟩ := consumeDigest_eq_none hconsume
        obtain ⟨digests, claims, ds, rfl, hout, hnodup, hr, hc⟩ := ih hnames h
        exact ⟨digest :: digests, claims, ds, rfl, hout, hnodup,
          .withheld (by rw [openedBy, hnone]; rfl) hr, hc⟩
      | some disclosure =>
        obtain ⟨hfound, -, -⟩ := consumeDigest_eq_some hconsume
        simp only [bind_eq_ok_iff, require_eq_ok_iff, refuseIf_eq_ok_iff, Prod.exists] at h
        obtain ⟨name, hname, -, hfresh, w, used₂, hvalue, h⟩ := h
        rw [defineClaim_of_notMem hfresh] at h
        have hnames' : ((result ++ [(name, w)]).map Prod.fst).Nodup := by
          rw [List.map_append]
          exact hnames.append (List.nodup_singleton _) (by simpa using hfresh)
        have hmem : disclosure ∈ disclosures := List.mem_of_find?_eq_some hfound
        obtain ⟨ds, hr, hc⟩ := hnext _ _ _ _ (hvalues _ hmem) hvalue
        obtain ⟨digests, claims, ds', rfl, hout, hnodup, hr', hc'⟩ := ih hnames' h
        have hopen : openedBy disclosures digest = some (some name, disclosure.value) := by
          rw [openedBy, hfound, Option.map_some, ParsedDisclosure.contents, hname]
        refine ⟨digest :: digests, (name, w) :: claims, _, rfl, ?_, hnodup,
          .disclosed hopen hr hr', ((Consumes.single hconsume).trans hc).trans hc'⟩
        rw [hout, List.append_assoc, List.singleton_append]
    | _ =>
      rw [discloseDigests] at h
      · cases h
      · rintro _ heq
        cases heq

/-- The walk over an object is sound where the level below is. -/
theorem discloseObject_revealed {next : Next ν} (hnext : Reveals disclosures next)
    (hvalues : ∀ p ∈ disclosures, p.value.WellNamed) {members out : List (String × Value ν)}
    (hmembers : (Value.obj members).WellNamed) {used used' : List String}
    (h : discloseObject disclosures next members used = .ok (out, used')) :
    ∃ ds, Revealed (openedBy disclosures) (.obj members) (.obj out) ds ∧
      Consumes disclosures used used' ds := by
  obtain ⟨hnodup, hmembers⟩ := Value.wellNamed_obj.mp hmembers
  simp only [discloseObject, bind_eq_ok_iff, Prod.exists] at h
  obtain ⟨result, used₁, hplain, h⟩ := h
  obtain ⟨plain, ds, hresult, hr, hc⟩ := discloseMembers_revealed hnext hmembers
    (by rwa [List.nil_append]) hplain
  obtain rfl : result = plain := hresult
  have hnames : (result.map Prod.fst).Nodup := hnodup.sublist hr.names_sublist
  cases hsd : members.lookup "_sd" with
  | none =>
    rw [hsd] at h
    cases h
    refine ⟨[] ++ ds, ?_, hc⟩
    rw [← List.append_nil out]
    exact .obj hr (.inl ⟨hsd, rfl⟩) .nil (by rwa [List.append_nil])
  | some v =>
    rw [hsd] at h
    cases v with
    | arr sd =>
      obtain ⟨digests, claims, ds', rfl, rfl, hall, hr', hc'⟩ :=
        discloseDigests_revealed hnext hvalues hnames h
      exact ⟨ds' ++ ds, .obj hr (.inr hsd) hr' hall, hc.trans hc'⟩
    | _ => cases h

/-- The walk is sound at every level. -/
theorem discloseValue_revealed (hvalues : ∀ p ∈ disclosures, p.value.WellNamed) (levels : ℕ) :
    Reveals disclosures (discloseValue disclosures levels) := by
  induction levels with
  | zero =>
    intro v used w used' _ h
    rw [discloseValue] at h
    cases h
  | succ levels ih =>
    intro v used w used' hv h
    cases v with
    | arr items =>
      simp only [discloseValue, bind_eq_ok_iff, Prod.exists, Except.ok.injEq, Prod.mk.injEq] at h
      obtain ⟨out, used₁, h, rfl, rfl⟩ := h
      obtain ⟨ds, hr, hc⟩ := discloseArray_revealed ih hvalues (Value.wellNamed_arr.mp hv) h
      exact ⟨ds, .arr hr, hc⟩
    | obj members =>
      simp only [discloseValue, bind_eq_ok_iff, Prod.exists, Except.ok.injEq, Prod.mk.injEq] at h
      obtain ⟨out, used₁, h, rfl, rfl⟩ := h
      exact discloseObject_revealed ih hvalues hv h
    | null =>
      cases h
      exact ⟨[], .null, .refl used⟩
    | bool b =>
      cases h
      exact ⟨[], .bool b, .refl used⟩
    | num x =>
      cases h
      exact ⟨[], .num x, .refl used⟩
    | str s =>
      cases h
      exact ⟨[], .str s, .refl used⟩

theorem resolveDisclosures_revealed (hvalues : ∀ p ∈ disclosures, p.value.WellNamed)
    {payload claims : List (String × Value ν)} (hpayload : (Value.obj payload).WellNamed)
    (h : resolveDisclosures disclosures payload = .ok claims) :
    ∃ ds, Revealed (openedBy disclosures) (.obj payload) (.obj claims) ds ∧
      ds.Nodup ∧ ds.Perm (disclosures.map (·.digest)) := by
  simp only [resolveDisclosures, bind_eq_ok_iff, refuseIf_eq_ok_iff, Prod.exists, ne_eq,
    not_not, Except.ok.injEq] at h
  obtain ⟨out, used, hwalk, -, hlength, rfl⟩ := h
  obtain ⟨ds, hr, hc⟩ := discloseObject_revealed
    (discloseValue_revealed hvalues MAX_CLAIM_DEPTH) hvalues hpayload hwalk
  have hds : used = ds := by rw [hc.eq, List.append_nil]
  subst hds
  have hsub : used ⊆ disclosures.map (·.digest) := by
    intro d hd
    obtain ⟨p, hp⟩ := Option.isSome_iff_exists.mp (hc.presented d hd)
    have hdigest : p.digest = d := by simpa using List.find?_some hp
    exact List.mem_map.mpr ⟨p, List.mem_of_find?_eq_some hp, hdigest⟩
  -- as many digests are used as there are Disclosures
  have hperm : used.Subperm (disclosures.map (·.digest)) :=
    (hc.nodup List.nodup_nil).subperm hsub
  exact ⟨used, hr, hc.nodup List.nodup_nil,
    hperm.perm_of_length_le (by rw [hlength, List.length_map])⟩

end Walk

/-! ### Parsed Disclosures -/

/-- What a decoded Disclosure carries is well named. -/
theorem wellNamed_of_readContents {v : Value ν} {contents : Option String × Value ν}
    (hv : v.WellNamed) (h : readContents v = some contents) : contents.2.WellNamed := by
  unfold readContents at h
  split at h
  · cases h
    exact Value.wellNamed_arr.mp hv _ (by simp)
  · split at h
    · cases h
    · cases h
      exact Value.wellNamed_arr.mp hv _ (by simp)
  · cases h

/-- A parsed Disclosure is what some bytes carry, under their digest. -/
structure ParsedDisclosure.Sound (codec : DisclosureCodec ν) (p : ParsedDisclosure ν) : Prop where
  digest_eq : p.digest = digestDisclosure codec p.encoded
  carried : (codec.decode (asciiBytes p.encoded)).bind readContents = some p.contents

theorem ParsedDisclosure.Sound.wellNamed {codec : DisclosureCodec ν} {p : ParsedDisclosure ν}
    (h : p.Sound codec) : p.value.WellNamed := by
  obtain ⟨v, hv, hread⟩ := Option.bind_eq_some_iff.mp h.carried
  exact wellNamed_of_readContents (codec.wellNamed _ v hv) hread

/-- One Disclosure after those that were parsed. -/
theorem parseDisclosures_cons {codec : DisclosureCodec ν} {encoded : String} {rest : List String}
    {parsed out : List (ParsedDisclosure ν)}
    (h : parseDisclosures codec (encoded :: rest) parsed = .ok out) :
    ∃ p : ParsedDisclosure ν, p.encoded = encoded ∧ p.Sound codec ∧
      p.digest ∉ parsed.map (·.digest) ∧ parseDisclosures codec rest (parsed ++ [p]) = .ok out := by
  have hnew (digest : String) (hnone : ¬ (byDigest parsed digest).isSome) :
      digest ∉ parsed.map (·.digest) := by
    rw [Option.not_isSome_iff_eq_none, byDigest, List.find?_eq_none] at hnone
    rintro hmem
    obtain ⟨p, hp, rfl⟩ := List.mem_map.mp hmem
    exact hnone p hp (by simp)
  simp only [parseDisclosures, bind_eq_ok_iff, require_eq_ok_iff] at h
  obtain ⟨decoded, hdecoded, h⟩ := h
  split at h
  · rename_i salt value
    simp only [bind_eq_ok_iff, refuseTwice, refuseIf_eq_ok_iff] at h
    obtain ⟨-, hfresh, h⟩ := h
    refine ⟨_, rfl, ⟨rfl, ?_⟩, hnew _ hfresh, h⟩
    rw [hdecoded]
    rfl
  · rename_i salt name value
    simp only [bind_eq_ok_iff, refuseTwice, refuseIf_eq_ok_iff] at h
    obtain ⟨-, hfresh, h⟩ := h
    cases name with
    | str claimName =>
      simp only [bind_eq_ok_iff, refuseIf_eq_ok_iff] at h
      obtain ⟨-, hname, h⟩ := h
      refine ⟨_, rfl, ⟨rfl, ?_⟩, hnew _ hfresh, h⟩
      rw [hdecoded]
      exact if_neg hname
    | _ => cases h
  all_goals cases h

theorem parseDisclosures_sound {codec : DisclosureCodec ν} {encoded : List String}
    {parsed out : List (ParsedDisclosure ν)} (hparsed : ∀ p ∈ parsed, p.Sound codec)
    (hnodup : (parsed.map (·.digest)).Nodup)
    (h : parseDisclosures codec encoded parsed = .ok out) :
    out.map (·.encoded) = parsed.map (·.encoded) ++ encoded ∧ (∀ p ∈ out, p.Sound codec) ∧
      (out.map (·.digest)).Nodup := by
  induction encoded generalizing parsed with
  | nil =>
    rw [parseDisclosures] at h
    cases h
    exact ⟨(List.append_nil _).symm, hparsed, hnodup⟩
  | cons e rest ih =>
    obtain ⟨p, rfl, hp, hfresh, h⟩ := parseDisclosures_cons h
    have hparsed' : ∀ q ∈ parsed ++ [p], q.Sound codec := by
      intro q hq
      rcases List.mem_append.mp hq with hq | hq
      · exact hparsed q hq
      · rwa [List.mem_singleton.mp hq]
    have hnodup' : ((parsed ++ [p]).map (·.digest)).Nodup := by
      rw [List.map_append]
      exact hnodup.append (List.nodup_singleton _) (by simpa using hfresh)
    obtain ⟨hencoded, hsound, hdigests⟩ := ih hparsed' hnodup' h
    refine ⟨?_, hsound, hdigests⟩
    rw [hencoded, List.map_append, List.append_assoc]
    rfl

/-- Sound Disclosures open what those presented carry. -/
theorem openedBy_eq_opening {codec : DisclosureCodec ν} {disclosures : List (ParsedDisclosure ν)}
    (hsound : ∀ p ∈ disclosures, p.Sound codec) :
    openedBy disclosures = opening codec (disclosures.map (·.encoded)) := by
  funext digest
  have hfind : disclosures.find? (fun p ↦ digestDisclosure codec p.encoded == digest) =
      byDigest disclosures digest := by
    refine List.find?_congr fun p hp ↦ ?_
    rw [(hsound p hp).digest_eq]
  rw [openedBy, opening, List.find?_map]
  simp only [Function.comp_def, hfind]
  cases hp : byDigest disclosures digest with
  | none => rfl
  | some p => exact (hsound p (List.mem_of_find?_eq_some hp)).carried.symm

/-! ### Presentations -/

section Presentations

variable {codec : DisclosureCodec ν} {payload claims : List (String × Value ν)}
  {presented : List String}

theorem discloseClaims_revealed (hpayload : (Value.obj payload).WellNamed)
    (h : discloseClaims codec payload presented = .ok claims) :
    ∃ used, Revealed (opening codec presented) (.obj payload) (.obj claims) used ∧ used.Nodup ∧
      used.Perm (presented.map (digestDisclosure codec)) := by
  rw [discloseClaims, bind_eq_ok_iff] at h
  obtain ⟨disclosures, hparse, hresolve⟩ := h
  obtain ⟨hencoded, hsound, -⟩ := parseDisclosures_sound (by simp) (by simp) hparse
  rw [List.map_nil, List.nil_append] at hencoded
  obtain ⟨used, hr, hnodup, hperm⟩ := resolveDisclosures_revealed
    (fun p hp ↦ (hsound p hp).wellNamed) hpayload hresolve
  have hdigests : disclosures.map (·.digest) = presented.map (digestDisclosure codec) := by
    rw [← hencoded, List.map_map]
    exact List.map_congr_left fun p hp ↦ (hsound p hp).digest_eq
  rw [openedBy_eq_opening hsound, hencoded] at hr
  rw [hdigests] at hperm
  exact ⟨used, hr, hnodup, hperm⟩

/-- What is opened is what the digest commits to, where no two byte strings share a digest. -/
theorem commits_of_opening (hcollision : Function.Injective codec.digest) {digest : String}
    {contents : Option String × Value ν} (h : opening codec presented digest = some contents) :
    Commits codec digest contents := by
  obtain ⟨encoded, hfound, h⟩ := Option.bind_eq_some_iff.mp h
  have hdigest : codec.digest (asciiBytes encoded) = digest := by
    simpa [digestDisclosure] using List.find?_some hfound
  refine ⟨asciiBytes encoded, hdigest, h, fun other hother ↦ hcollision ?_⟩
  rw [hother, hdigest]

theorem opening_mono {fewer : List String} (hfewer : fewer ⊆ presented)
    (hnodup : (presented.map (digestDisclosure codec)).Nodup) {digest : String}
    {contents : Option String × Value ν} (h : opening codec fewer digest = some contents) :
    opening codec presented digest = some contents := by
  obtain ⟨encoded, hfound, h⟩ := Option.bind_eq_some_iff.mp h
  have hdigest : digestDisclosure codec encoded = digest := by
    simpa using List.find?_some hfound
  have hmem : encoded ∈ presented := hfewer (List.mem_of_find?_eq_some hfound)
  refine Option.bind_eq_some_iff.mpr ⟨encoded, ?_, h⟩
  cases hother : presented.find? (digestDisclosure codec · == digest) with
  | none =>
    rw [List.find?_eq_none] at hother
    exact absurd (by simpa using hdigest) (hother encoded hmem)
  | some other =>
    have hdigest' : digestDisclosure codec other = digest := by
      simpa using List.find?_some hother
    rw [List.inj_on_of_nodup_map hnodup (List.mem_of_find?_eq_some hother) hmem
      (hdigest'.trans hdigest.symm)]

theorem registered_claim_signed (hpayload : (Value.obj payload).WellNamed)
    (h : discloseClaims codec payload presented = .ok claims)
    (hassert : assertNoForbiddenSelectiveDisclosure payload claims = .ok ()) {name : String}
    (hname : name ∈ NON_SELECTIVELY_DISCLOSABLE_CLAIMS) {w : Value ν} (hw : (name, w) ∈ claims) :
    ∃ v ds, (name, v) ∈ payload ∧ Revealed (opening codec presented) v w ds := by
  obtain ⟨used, hr, -, -⟩ := discloseClaims_revealed hpayload h
  have hsigned := assertNoForbiddenSelectiveDisclosure_eq_ok_iff.mp hassert name hname
    (List.mem_map.mpr ⟨_, hw, rfl⟩)
  obtain ⟨⟨_, v⟩, hv, rfl⟩ := List.mem_map.mp hsigned
  have hplain : ∀ claim ∈ NON_SELECTIVELY_DISCLOSABLE_CLAIMS,
      ¬ (claim = "_sd" ∨ claim = "_sd_alg") := by decide
  obtain ⟨w', ds, hw', hr'⟩ := hr.exists_revealed (hplain _ hname) hv
  have heq := List.inj_on_of_nodup_map hr.names_nodup hw hw' rfl
  cases heq
  exact ⟨v, ds, hv, hr'⟩

/-- A holder can only withhold: the accepted claims are the signed ones with the digests of the
presented Disclosures, each once, replaced by what they commit to, plain claims are unchanged, and
fewer Disclosures give a restriction. -/
theorem discloseClaims_withholds (hcollision : Function.Injective codec.digest)
    (hpayload : (Value.obj payload).WellNamed)
    (h : discloseClaims codec payload presented = .ok claims) :
    (∃ used, Revealed (opening codec presented) (.obj payload) (.obj claims) used ∧ used.Nodup ∧
      used.Perm (presented.map (digestDisclosure codec))) ∧
    (∀ digest contents, opening codec presented digest = some contents →
      Commits codec digest contents) ∧
    (∀ name v, (name, v) ∈ payload → ¬ IsMachinery name → Plain v → (name, v) ∈ claims) ∧
    ∀ fewer claims', fewer ⊆ presented → discloseClaims codec payload fewer = .ok claims' →
      Restricts (.obj claims') (.obj claims) := by
  obtain ⟨used, hr, hnodup, hperm⟩ := discloseClaims_revealed hpayload h
  refine ⟨⟨used, hr, hnodup, hperm⟩, fun _ _ ↦ commits_of_opening hcollision,
    fun name v hv hname hplain ↦ ?_, fun fewer claims' hfewer h' ↦ ?_⟩
  · obtain ⟨w, ds, hw, hr'⟩ := hr.exists_revealed hname hv
    obtain ⟨rfl, -⟩ := hr'.eq_of_plain hplain
    exact hw
  · obtain ⟨used', hr', -, -⟩ := discloseClaims_revealed hpayload h'
    exact hr'.restricts (fun _ _ ↦ opening_mono hfewer (hperm.nodup_iff.mp hnodup)) hr

end Presentations

/-! ### A sample -/

/-- The characters of some bytes, in place of a digest. -/
def sampleDigest (bytes : List UInt8) : String := String.ofList (bytes.map Char.ofUInt8)

theorem sampleDigest_injective : Function.Injective sampleDigest := by
  intro as bs h
  refine List.map_injective_iff.mpr (fun a b hab ↦ ?_) (String.ofList_injective h)
  have hval : a.toUInt32 = b.toUInt32 := congrArg Char.val hab
  exact UInt8.toUInt32_inj.mp hval

/-- The Disclosure of `["s","name",true]`. -/
def sampleDisclosure : String := "WyJzIiwibmFtZSIsdHJ1ZV0"

/-- A reader of that Disclosure. -/
def sampleCodec : DisclosureCodec Unit where
  decode bytes := if bytes = asciiBytes sampleDisclosure then
    some (.arr [.str "s", .str "name", .bool true]) else none
  wellNamed bytes v h := by
    split at h
    · cases h
      simp [Value.WellNamed, Value.WellNamedItems]
    · cases h
  digest := sampleDigest

/-- A payload with one plain claim and the digest of the sample. -/
def samplePayload : List (String × Value Unit) :=
  [("vct", .str "id"), ("_sd", .arr [.str (digestDisclosure sampleCodec sampleDisclosure)])]

theorem discloseClaims_withholds_sample :
    let claims := [("vct", .str "id"), ("name", .bool true)]
    (∃ used, Revealed (opening sampleCodec [sampleDisclosure]) (.obj samplePayload) (.obj claims)
      used ∧ used.Nodup ∧ used.Perm ([sampleDisclosure].map (digestDisclosure sampleCodec))) ∧
    (∀ digest contents, opening sampleCodec [sampleDisclosure] digest = some contents →
      Commits sampleCodec digest contents) ∧
    (∀ name v, (name, v) ∈ samplePayload → ¬ IsMachinery name → Plain v → (name, v) ∈ claims) ∧
    ∀ fewer claims', fewer ⊆ [sampleDisclosure] →
      discloseClaims sampleCodec samplePayload fewer = .ok claims' →
        Restricts (.obj claims') (.obj claims) :=
  discloseClaims_withholds sampleDigest_injective
    (by simp [samplePayload, Value.WellNamed, Value.WellNamedMembers, Value.WellNamedItems])
    (by decide)

end QAuth.Federation
