import QAuth.Approvals.CanonicalRequest
import QAuth.Foundation.Sha256

/-!
# What an approval's hash binds

Two requests have one `op_hash` exactly where they are the same request, with the same nonce. The
encoding folds requests together (the method's letter case, the path's realm, absent parts, the
order of members), and what it folds is what makes two requests the same.
-/

namespace QAuth.Approvals

open Audit (Bytes Digest Json Sha256 sortedMembers utf16 utf8)
open Guards Text

/-! ### The same request -/

/-- The own members of the path parameters or the query, none where they are absent. -/
def JsValue.parameters (v : JsValue) : List (JsString × JsValue) :=
  match v.orEmpty with
  | .obj _ members => members
  | _ => []

/-- The same JSON value, up to the order of members. -/
def JsValue.Same (v w : JsValue) : Prop := v.json.Same w.json

/-- The members of another name. -/
def aside (key : JsString) (members : List (JsString × JsValue)) : List (JsString × JsValue) :=
  members.filter fun m ↦ m.1 ≠ key

/-- The requests that one approval is for. -/
structure SameRequest (upper : Char → List Char) (a b : CanonicalRequestInput) : Prop where
  operationId : a.operationId = b.operationId
  method : toUpperCase upper a.method = toUpperCase upper b.method
  realmId : a.realmId = b.realmId
  params : (JsValue.obj .plain (aside (units "realmId") a.params.val.parameters)).Same
    (.obj .plain (aside (units "realmId") b.params.val.parameters))
  query : (JsValue.obj .plain a.query.val.parameters).Same (.obj .plain b.query.val.parameters)
  body : a.body.val.orNull.Same b.body.val.orNull
  requester : a.requester = b.requester

/-- The server's nonce. -/
abbrev Nonce := {bytes : Bytes // bytes.length = APPROVAL_NONCE_BYTES}

/-- The two requests are not hashed alike unless the same is hashed. -/
def CollisionFree (sha256 : Sha256) (r r' : CanonicalRequest) (n m : Nonce) : Prop :=
  ∀ s t, canonicalizeJson (.obj .plain (hashedMembers r n.val)) = .ok s →
    canonicalizeJson (.obj .plain (hashedMembers r' m.val)) = .ok t →
    sha256 (utf8 s) = sha256 (utf8 t) → utf8 s = utf8 t

variable {upper : Char → List Char} {sha256 : Sha256} {a b : CanonicalRequestInput}
  {r r' : CanonicalRequest} {n m : Nonce} {ms ns : List (JsString × JsValue)}
  {key s t : JsString}

/-! ### Objects up to the order of members -/

/-- Sorted members whose names differ stand in one order. -/
theorem sortMembers_eq_of_perm {xs ys : List (String × Json)} (h : xs.Perm ys)
    (hnodup : (xs.map (·.1)).Nodup) : Audit.sortMembers xs = Audit.sortMembers ys := by
  have hperm : (Audit.sortMembers xs).Perm (Audit.sortMembers ys) :=
    (Table.perm_orderBy.trans h).trans Table.perm_orderBy.symm
  refine List.Perm.eq_of_pairwise (fun x y hx hy hxy hyx ↦ ?_) Table.pairwise_orderBy
    Table.pairwise_orderBy hperm
  have hutf16 : utf16 x.1 = utf16 y.1 := le_antisymm hxy hyx
  have hname : x.1 = y.1 := by
    rw [← textOf_units x.1, ← textOf_units y.1]
    rw [← unitsOf_eq_utf16, ← unitsOf_eq_utf16] at hutf16
    have hinj : Function.Injective UInt16.toNat := fun u v huv ↦ UInt16.toNat_inj.mp huv
    rw [List.map_injective_iff.mpr hinj hutf16]
  exact List.inj_on_of_nodup_map hnodup (Table.mem_orderBy.mp hx)
    (h.mem_iff.mpr (Table.mem_orderBy.mp hy)) hname

theorem names_sortedMembers (xs : List (String × Json)) :
    (sortedMembers xs).map (·.1) = xs.map (·.1) := by
  rw [Audit.sortedMembers_eq_map, List.map_map]
  rfl

/-- Objects are the same where their members are, in any order. -/
theorem same_obj_iff {xs ys : List (String × Json)} (hnodup : (xs.map (·.1)).Nodup) :
    (Json.obj xs).Same (.obj ys) ↔ (sortedMembers xs).Perm (sortedMembers ys) := by
  rw [Json.Same, Json.sorted, Json.sorted, Json.obj.injEq]
  constructor
  · intro h
    have hperm : (Audit.sortMembers (sortedMembers xs)).Perm (sortedMembers ys) := by
      rw [h]
      exact Table.perm_orderBy
    exact Table.perm_orderBy.symm.trans hperm
  · intro h
    exact sortMembers_eq_of_perm h (by rw [names_sortedMembers]; exact hnodup)

/-- Objects of the same names are the same where their members are, one by one. -/
theorem same_obj_iff_forall₂ {xs ys : List (String × Json)} (hnodup : (ys.map (·.1)).Nodup)
    (hnames : xs.map (·.1) = ys.map (·.1)) :
    (Json.obj xs).Same (.obj ys) ↔ List.Forall₂ (fun x y ↦ x.2.Same y.2) xs ys := by
  have hlength : xs.length = ys.length := by
    simpa using congrArg List.length hnames
  constructor
  · intro h
    rw [List.forall₂_iff_get]
    refine ⟨hlength, fun i hx hy ↦ ?_⟩
    have hname : (xs.get ⟨i, hx⟩).1 = (ys.get ⟨i, hy⟩).1 := by
      have := congrArg (·[i]?) hnames
      simpa [hx, hy] using this
    have hmem : ((xs.get ⟨i, hx⟩).1, (xs.get ⟨i, hx⟩).2) ∈ xs := List.get_mem xs _
    refine h.field hmem hnodup ?_
    rw [hname]
    exact List.get_mem ys _
  · intro h
    have heq : sortedMembers xs = sortedMembers ys := by
      clear hnodup hlength
      induction h with
      | nil => rfl
      | @cons x y xs ys hhead _ ih =>
        obtain ⟨hname, hnames⟩ : x.1 = y.1 ∧ xs.map (·.1) = ys.map (·.1) := List.cons.inj hnames
        rw [sortedMembers, sortedMembers, ih hnames, hname, show Json.sorted _ = _ from hhead]
    rw [Json.Same, Json.sorted, Json.sorted, heq]

@[simp] theorem same_str_iff {x y : String} : (Json.str x).Same (.str y) ↔ x = y := by
  rw [Json.Same, Json.sorted, Json.sorted, Json.str.injEq] <;> (intro _ h; cases h)

/-! ### The path's realm -/

/-- A member that is set is one of the members, with the members of other names. -/
theorem perm_withMember {v : JsValue} (hnodup : (ms.map (·.1)).Nodup) :
    (withMember ms key v).Perm ((key, v) :: aside key ms) := by
  rw [withMember]
  split
  case isTrue hmem =>
    induction ms with
    | nil => simp at hmem
    | cons x ms ih =>
      rw [List.map_cons, List.nodup_cons] at hnodup
      by_cases hx : x.1 = key
      · have hrest : ∀ y ∈ ms, y.1 ≠ key := fun y hy heq ↦
          hnodup.1 (List.mem_map.mpr ⟨y, hy, heq.trans hx.symm⟩)
        have hmap : (ms.map fun y ↦ if y.1 = key then (key, v) else y) = ms := by
          conv_rhs => rw [← List.map_id ms]
          exact List.map_congr_left fun y hy ↦ if_neg (hrest y hy)
        have haside : (ms.filter fun m ↦ m.1 ≠ key) = ms :=
          List.filter_eq_self.mpr fun y hy ↦ decide_eq_true (hrest y hy)
        rw [List.map_cons, if_pos hx, hmap, aside, List.filter_cons, if_neg (by simp [hx]), haside]
      · have hmem' : key ∈ ms.map (·.1) :=
          (List.mem_cons.mp hmem).resolve_left fun heq ↦ hx heq.symm
        rw [List.map_cons, if_neg hx, aside, List.filter_cons, if_pos (by simp [hx])]
        exact ((ih hnodup.2 hmem').cons x).trans (List.Perm.swap _ _ _)
  case isFalse hmem =>
    have haside : aside key ms = ms := List.filter_eq_self.mpr fun y hy ↦
      decide_eq_true fun heq ↦ hmem (List.mem_map.mpr ⟨y, hy, heq⟩)
    rw [haside]
    exact List.perm_append_singleton _ _

theorem jsonMembers_perm (h : ms.Perm ns) : (jsonMembers ms).Perm (jsonMembers ns) := by
  rw [jsonMembers_eq_map, jsonMembers_eq_map]
  exact (h.filter _).map _

theorem nodup_names_jsonMembers (hnodup : (ms.map (·.1)).Nodup)
    (hjson : areJsonMembers ms = true) : ((jsonMembers ms).map (·.1)).Nodup := by
  have hnames := areJsonMembers_iff.mp hjson
  rw [jsonMembers_eq_map, List.map_map]
  refine List.Nodup.map_on ?_ (List.Nodup.of_map (·.1)
    (hnodup.sublist (List.filter_sublist.map _)))
  intro x hx y hy heq
  exact List.inj_on_of_nodup_map hnodup (List.mem_of_mem_filter hx) (List.mem_of_mem_filter hy)
    (textOf_injective (hnames x hx).1 (hnames y hy).1 heq)

/-- Objects with one more member each are the same where that member and the others are. -/
theorem perm_cons_iff_of_name {β : Type} {name : String} {x y : β} {xs ys : List (String × β)}
    (hys : name ∉ ys.map (·.1)) :
    ((name, x) :: xs).Perm ((name, y) :: ys) ↔ x = y ∧ xs.Perm ys := by
  constructor
  · intro h
    have hmem : (name, x) ∈ (name, y) :: ys := h.mem_iff.mp List.mem_cons_self
    rcases List.mem_cons.mp hmem with heq | hmem
    · obtain rfl : x = y := (Prod.mk.inj heq).2
      exact ⟨rfl, h.cons_inv⟩
    · exact absurd (List.mem_map.mpr ⟨_, hmem, rfl⟩) hys
  · rintro ⟨rfl, h⟩
    exact h.cons _

/-- An object with one member more, as a JSON value. -/
structure Extended (key s : JsString) (ms : List (JsString × JsValue)) : Prop where
  perm : (jsonMembers (withMember ms key (.str s))).Perm
    ((textOf key, .str (textOf s)) :: jsonMembers (aside key ms))
  nodup : ((jsonMembers (withMember ms key (.str s))).map (·.1)).Nodup
  name : textOf key ∉ (jsonMembers (aside key ms)).map (·.1)
  rest : ((jsonMembers (aside key ms)).map (·.1)).Nodup

theorem extended (hnodup : (ms.map (·.1)).Nodup)
    (hjson : areJsonMembers (withMember ms key (.str s)) = true) : Extended key s ms := by
  have hperm : (withMember ms key (.str s)).Perm ((key, .str s) :: aside key ms) :=
    perm_withMember hnodup
  have hjsonperm : (jsonMembers (withMember ms key (.str s))).Perm
      ((textOf key, .str (textOf s)) :: jsonMembers (aside key ms)) := by
    refine (jsonMembers_perm hperm).trans ?_
    rw [jsonMembers, if_neg (by simp), JsValue.json]
  have hnames : ((withMember ms key (.str s)).map (·.1)).Nodup := by
    refine (hperm.map _).nodup_iff.mpr ?_
    rw [List.map_cons, List.nodup_cons]
    refine ⟨?_, hnodup.sublist (List.filter_sublist.map _)⟩
    intro hmem
    obtain ⟨x, hx, heq⟩ := List.mem_map.mp hmem
    exact of_decide_eq_true (List.mem_filter.mp hx).2 heq
  have hnodupjson := nodup_names_jsonMembers hnames hjson
  have hcons := (hjsonperm.map (·.1)).nodup_iff.mp hnodupjson
  rw [List.map_cons, List.nodup_cons] at hcons
  exact ⟨hjsonperm, hnodupjson, hcons.1, hcons.2⟩

/-- The path parameters with the realm are the same where the realm and the others are. -/
theorem same_withMember_iff (hms : Extended key s ms) (hns : Extended key t ns) :
    (JsValue.obj .plain (withMember ms key (.str s))).Same
        (.obj .plain (withMember ns key (.str t))) ↔
      textOf s = textOf t ∧
        (JsValue.obj .plain (aside key ms)).Same (.obj .plain (aside key ns)) := by
  have hsorted : ∀ {xs ys : List (String × Json)}, xs.Perm ys →
      (sortedMembers xs).Perm (sortedMembers ys) := by
    intro xs ys h
    rw [Audit.sortedMembers_eq_map, Audit.sortedMembers_eq_map]
    exact h.map _
  have hcons : ∀ text members, sortedMembers ((textOf key, .str text) :: members) =
      (textOf key, .str text) :: sortedMembers members := by
    intro text members
    rw [sortedMembers, Json.sorted]
    · intro _ h
      cases h
    · intro _ h
      cases h
  rw [JsValue.Same, JsValue.Same, JsValue.json, JsValue.json, JsValue.json, JsValue.json,
    same_obj_iff hms.nodup, same_obj_iff hms.rest,
    (hsorted hms.perm).congr_left, (hsorted hns.perm).congr_right, hcons, hcons,
    perm_cons_iff_of_name (by rw [names_sortedMembers]; exact hns.name), Json.str.injEq]

/-! ### What is hashed -/

/-- What the canonical request of an input is. -/
structure CanonicalOf (upper : Char → List Char) (a : CanonicalRequestInput)
    (r : CanonicalRequest) : Prop where
  operationId : r.operationId = a.operationId
  method : r.method = toUpperCase upper a.method
  params : r.params = withMember a.params.val.parameters (units "realmId") (.str a.realmId)
  query : r.query = a.query.val.parameters
  body : r.body = a.body.val.orNull
  realmId : r.realmId = a.realmId
  requester : r.requester = a.requester
  isJson : areJsonMembers r.members = true

theorem parameters_of_parameterRecord {v : JsValue} (h : parameterRecord v.orEmpty = some ms) :
    v.parameters = ms := by
  rw [JsValue.parameters]
  generalize v.orEmpty = w at h
  cases w with
  | obj prototype members =>
    cases prototype
    · exact Option.some.inj h
    · exact Option.some.inj h
    · cases h
  | _ => cases h

theorem canonicalRequest_eq_ok_iff :
    canonicalRequest upper a = .ok r ↔
      ∃ params query, parameterRecord a.params.val.orEmpty = some params ∧
        parameterRecord a.query.val.orEmpty = some query ∧
        r = requestOf upper a params query ∧
        assertStorable (units "the request") (.obj .plain r.members) = .ok () ∧
        areJsonMembers r.members = true := by
  rw [canonicalRequest]
  constructor
  · intro h
    split at h
    case h_2 => cases h
    case h_1 params query hparams hquery =>
      simp only [bind_eq_ok_iff] at h
      obtain ⟨_, hstorable, h⟩ := h
      split at h
      case h_1 => cases h
      case h_2 text htext =>
        cases h
        have hjson := (serialize_eq_ok_iff.mp htext).1
        rw [JsValue.isJson] at hjson
        exact ⟨params, query, hparams, hquery, rfl, hstorable, hjson⟩
  · rintro ⟨params, query, hparams, hquery, rfl, hstorable, hjson⟩
    have htext : canonicalizeJson (.obj .plain (requestOf upper a params query).members) = .ok _ :=
      serialize_eq_ok_iff.mpr ⟨by rw [JsValue.isJson]; exact hjson, rfl⟩
    simp only [hparams, hquery, hstorable, htext]
    rfl

theorem canonicalOf_of_eq_ok (h : canonicalRequest upper a = .ok r) : CanonicalOf upper a r := by
  obtain ⟨params, query, hparams, hquery, rfl, -, hjson⟩ := canonicalRequest_eq_ok_iff.mp h
  rw [← parameters_of_parameterRecord hparams, ← parameters_of_parameterRecord hquery]
    at hjson ⊢
  exact ⟨rfl, rfl, rfl, rfl, rfl, rfl, rfl, hjson⟩

/-- An object has a name once. -/
theorem nodup_parameters (v : Unknown) : (v.val.parameters.map (·.1)).Nodup := by
  obtain ⟨v, hv⟩ := v
  cases v with
  | obj prototype members =>
    rw [JsValue.WellNamed] at hv
    exact hv.1
  | _ => simp [JsValue.parameters, JsValue.orEmpty]

theorem isUndefined_orNull (v : JsValue) : v.orNull.isUndefined = false := by
  cases v <;> rfl

theorem jsonMembers_hashedMembers (h : CanonicalOf upper a r) :
    jsonMembers (hashedMembers r n.val) =
      [("operationId", .str (textOf r.operationId)), ("method", .str (textOf r.method)),
        ("params", (JsValue.obj .plain r.params).json),
        ("query", (JsValue.obj .plain r.query).json), ("body", r.body.json),
        ("realmId", .str (textOf r.realmId)),
        ("requester", (JsValue.obj .plain r.requester.members).json),
        ("nonce", .str (String.ofList (Base64Url.encode n.val)))] := by
  have hbody : r.body.isUndefined = false := by
    rw [h.body]
    exact isUndefined_orNull _
  simp [hashedMembers, CanonicalRequest.members, jsonMembers, hbody, JsValue.json]

theorem canonicalizeJson_hashedMembers (h : CanonicalOf upper a r) :
    canonicalizeJson (.obj .plain (hashedMembers r n.val)) =
      .ok (JsValue.obj .plain (hashedMembers r n.val)).json.sorted.text := by
  refine serialize_eq_ok_iff.mpr ⟨?_, rfl⟩
  have hmembers := areJsonMembers_iff.mp h.isJson
  rw [JsValue.isJson, areJsonMembers_iff]
  intro x hx
  rw [hashedMembers, present, List.filter_append, List.mem_append] at hx
  rcases hx with hx | hx
  · exact hmembers x hx
  · obtain rfl := List.mem_singleton.mp (List.mem_of_mem_filter hx)
    exact ⟨loneSurrogate_units _, by simp [JsValue.isJson]⟩

theorem opHashOf_eq_ok (h : CanonicalOf upper a r) :
    opHashOf sha256 r n.val =
      .ok (sha256 (utf8 (JsValue.obj .plain (hashedMembers r n.val)).json.sorted.text)) := by
  rw [opHashOf, if_neg (not_not.mpr n.property), canonicalizeJson_hashedMembers h]
  rfl

theorem text_injective {v w : Json} (h : v.text = w.text) : v = w :=
  (Audit.separates_text v w [] [] nofun nofun (by rw [h])).1

/-- A text of the request, as it stands in a member. -/
theorem textOf_eq_iff (hs : loneSurrogate none s = false) (ht : loneSurrogate none t = false) :
    textOf s = textOf t ↔ s = t :=
  ⟨textOf_injective hs ht, congrArg textOf⟩

theorem RequesterKind.word_injective : Function.Injective RequesterKind.word := by
  rintro (_ | _) (_ | _) <;> decide

/-- The strings of a canonical request are texts, and its path parameters are JSON values. -/
structure CanonicalRequest.Clean (r : CanonicalRequest) : Prop where
  operationId : loneSurrogate none r.operationId = false
  method : loneSurrogate none r.method = false
  params : areJsonMembers r.params = true
  realmId : loneSurrogate none r.realmId = false
  requesterRealm : loneSurrogate none r.requester.realmId = false
  requesterAccount : loneSurrogate none r.requester.accountId = false

theorem clean_of_canonicalOf (h : CanonicalOf upper a r) : r.Clean := by
  have hjson := h.isJson
  simp only [CanonicalRequest.members, ApprovalRequester.members, areJsonMembers,
    JsValue.isUndefined_str, JsValue.isUndefined_obj, JsValue.isJson, loneSurrogate_units,
    Bool.and_eq_true, Bool.not_eq_true', Bool.false_or, Bool.not_false, Bool.true_and,
    Bool.and_true] at hjson
  obtain ⟨hoperation, hmethod, hparams, -, -, hrealm, hrequesterRealm, haccount⟩ := hjson
  exact ⟨hoperation, hmethod, hparams, hrealm, hrequesterRealm, haccount⟩

/-- The same requester is written alike. -/
theorem same_requester_iff (h : r.Clean) (h' : r'.Clean) :
    (JsValue.obj .plain r.requester.members).Same (.obj .plain r'.requester.members) ↔
      r.requester = r'.requester := by
  have hmembers : ∀ q : ApprovalRequester, (JsValue.obj .plain q.members).json =
      .obj [("kind", .str q.kind.word), ("realmId", .str (textOf q.realmId)),
        ("accountId", .str (textOf q.accountId))] := fun q ↦ by
    simp [ApprovalRequester.members, JsValue.json, jsonMembers]
  rw [JsValue.Same, hmembers, hmembers, same_obj_iff_forall₂ (by simp) (by rfl)]
  simp only [List.forall₂_cons, List.forall₂_nil_left_iff, same_str_iff, and_true,
    RequesterKind.word_injective.eq_iff, textOf_eq_iff h.requesterRealm h'.requesterRealm,
    textOf_eq_iff h.requesterAccount h'.requesterAccount]
  obtain ⟨kind, realm, account⟩ := r.requester
  obtain ⟨kind', realm', account'⟩ := r'.requester
  simp

/-- What is hashed is the same exactly for one request with one nonce. -/
theorem same_hashedMembers_iff (ha : CanonicalOf upper a r) (hb : CanonicalOf upper b r') :
    (JsValue.obj .plain (hashedMembers r n.val)).Same
        (.obj .plain (hashedMembers r' m.val)) ↔
      n = m ∧ SameRequest upper a b := by
  have hr := clean_of_canonicalOf ha
  have hr' := clean_of_canonicalOf hb
  have hparams : (JsValue.obj .plain r.params).Same (.obj .plain r'.params) ↔
      textOf a.realmId = textOf b.realmId ∧
        (JsValue.obj .plain (aside (units "realmId") a.params.val.parameters)).Same
          (.obj .plain (aside (units "realmId") b.params.val.parameters)) := by
    rw [ha.params, hb.params]
    exact same_withMember_iff (extended (nodup_parameters _) (ha.params ▸ hr.params))
      (extended (nodup_parameters _) (hb.params ▸ hr'.params))
  have hnonce : String.ofList (Base64Url.encode n.val) = String.ofList (Base64Url.encode m.val) ↔
      n = m := by
    rw [String.ofList_inj, Base64Url.encode_injective.eq_iff, Subtype.ext_iff]
  rw [JsValue.Same, JsValue.json, JsValue.json, jsonMembers_hashedMembers ha,
    jsonMembers_hashedMembers hb, same_obj_iff_forall₂ (by simp) (by rfl)]
  simp only [List.forall₂_cons, List.forall₂_nil_left_iff, same_str_iff, and_true, hnonce,
    textOf_eq_iff hr.operationId hr'.operationId, textOf_eq_iff hr.method hr'.method,
    textOf_eq_iff hr.realmId hr'.realmId]
  change _ ∧ _ ∧ (JsValue.obj .plain r.params).Same (.obj .plain r'.params) ∧
    (JsValue.obj .plain r.query).Same (.obj .plain r'.query) ∧ r.body.Same r'.body ∧ _ ∧
    (JsValue.obj .plain r.requester.members).Same (.obj .plain r'.requester.members) ∧ _ ↔ _
  rw [same_requester_iff hr hr', hparams, ha.operationId, hb.operationId, ha.method, hb.method,
    ha.query, hb.query, ha.body, hb.body, ha.realmId, hb.realmId, ha.requester, hb.requester]
  constructor
  · rintro ⟨hoperation, hmethod, ⟨-, hparams⟩, hquery, hbody, hrealm, hrequester, hnonce⟩
    exact ⟨hnonce, hoperation, hmethod, hrealm, hparams, hquery, hbody, hrequester⟩
  · rintro ⟨hnonce, h⟩
    exact ⟨h.operationId, h.method, ⟨congrArg textOf h.realmId, h.params⟩, h.query, h.body,
      h.realmId, h.requester, hnonce⟩

/-- Two requests have one hash exactly where they are one request, with one nonce: an approval is
for the request it was filed for, and for no other. -/
theorem opHashOf_eq_iff (upper : Char → List Char) (sha256 : Sha256)
    {a b : CanonicalRequestInput} {r r' : CanonicalRequest} {n m : Nonce}
    (ha : canonicalRequest upper a = .ok r) (hb : canonicalRequest upper b = .ok r')
    (hfree : CollisionFree sha256 r r' n m) :
    opHashOf sha256 r n.val = opHashOf sha256 r' m.val ↔ n = m ∧ SameRequest upper a b := by
  have ha := canonicalOf_of_eq_ok ha
  have hb := canonicalOf_of_eq_ok hb
  rw [← same_hashedMembers_iff ha hb, opHashOf_eq_ok ha, opHashOf_eq_ok hb, Except.ok.injEq]
  constructor
  · intro heq
    have hbytes := hfree _ _ (canonicalizeJson_hashedMembers ha)
      (canonicalizeJson_hashedMembers hb) heq
    exact text_injective (Audit.utf8_injective hbytes)
  · intro hsame
    rw [show Json.sorted _ = _ from hsame]

/-! ### Two requests -/

/-- A user disabled, or enabled again. -/
def statusUpdate (enabled : Bool) : CanonicalRequestInput where
  operationId := units "users.update"
  method := units "patch"
  params := ⟨.obj .parsed [(units "userId", .str (units "u1")), (units "realmId", .str (units "R"))],
    by simp [JsValue.WellNamed, JsValue.WellNamedMembers]; decide⟩
  query := ⟨.undefined, trivial⟩
  body := ⟨.obj .plain [(units "enabled", .bool enabled)],
    by simp [JsValue.WellNamed, JsValue.WellNamedMembers]⟩
  realmId := units "r"
  requester := ⟨.human, units "r", units "a1"⟩

/-- The realm's id is the stored one, whatever the path spells. -/
def statusRequest (enabled : Bool) : CanonicalRequest :=
  requestOf (fun c ↦ [c]) (statusUpdate enabled)
    [(units "userId", .str (units "u1")), (units "realmId", .str (units "R"))] []

theorem canonicalRequest_statusUpdate (enabled : Bool) :
    canonicalRequest (fun c ↦ [c]) (statusUpdate enabled) = .ok (statusRequest enabled) := by
  refine canonicalRequest_eq_ok_iff.mpr ⟨_, _, rfl, rfl, rfl, ?_, ?_⟩
  · cases enabled <;> decide
  · cases enabled <;> decide

/-- A nonce of one byte throughout. -/
def nonceOf (byte : UInt8) : Nonce := ⟨List.replicate 32 byte, List.length_replicate⟩

def digestOf (enabled : Bool) (n : Nonce) : Except JsString Digest :=
  opHashOf (fun bytes ↦ ⟨Sha256.hash bytes, Sha256.length_hash bytes⟩) (statusRequest enabled) n.val

theorem digestOf_eq (enabled : Bool) (n : Nonce) : digestOf enabled n =
    (canonicalizeJson (.obj .plain (hashedMembers (statusRequest enabled) n.val))).map fun text ↦
      let bytes := text.flatMap String.utf8EncodeChar
      ⟨Sha256.hash bytes, Sha256.length_hash bytes⟩ := by
  have hlength : n.val.length = APPROVAL_NONCE_BYTES := n.property
  rw [digestOf, opHashOf, if_neg (not_not.mpr hlength)]
  cases canonicalizeJson (.obj .plain (hashedMembers (statusRequest enabled) n.val)) with
  | error message => rfl
  | ok text =>
    show Except.ok _ = Except.ok _
    rw [Audit.utf8_eq_flatMap]

theorem opHashOf_eq_iff_statusUpdate :
    digestOf true (nonceOf 0) = digestOf false (nonceOf 0) ↔
      nonceOf 0 = nonceOf 0 ∧
        SameRequest (fun c ↦ [c]) (statusUpdate true) (statusUpdate false) := by
  refine opHashOf_eq_iff _ _ (canonicalRequest_statusUpdate true)
    (canonicalRequest_statusUpdate false) ?_
  intro s t hs ht heq
  have hne : digestOf true (nonceOf 0) ≠ digestOf false (nonceOf 0) := by
    rw [digestOf_eq, digestOf_eq]
    decide +kernel
  refine absurd ?_ hne
  rw [digestOf, digestOf, opHashOf, opHashOf, if_neg (by decide), if_neg (by decide), hs, ht]
  exact congrArg Except.ok heq

end QAuth.Approvals
