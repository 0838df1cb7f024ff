import QAuth.Federation.Disclosures

/-!
# What Disclosures reveal

The claims that Disclosures reveal, as a relation between the signed claims and those that result.
An opening says which digests are opened, and to what.
-/

namespace QAuth.Federation

open Guards Json

variable {ν : Type}

/-! ### Contents of Disclosures -/

/-- The claim name, absent for an array element, and the value in a decoded Disclosure. -/
def readContents : Value ν → Option (Option String × Value ν)
  | .arr [.str _, value] => some (none, value)
  | .arr [.str _, .str name, value] =>
    if name = "_sd" ∨ name = "..." then none else some (some name, value)
  | _ => none

def opening (codec : DisclosureCodec ν) (presented : List String) (digest : String) :
    Option (Option String × Value ν) := do
  let encoded ← presented.find? (digestDisclosure codec · == digest)
  let decoded ← codec.decode (asciiBytes encoded)
  readContents decoded

/-- The issuer put the digest of some contents: bytes with that digest carry them, and no other
bytes have it. -/
def Commits (codec : DisclosureCodec ν) (digest : String)
    (contents : Option String × Value ν) : Prop :=
  ∃ bytes, codec.digest bytes = digest ∧ (codec.decode bytes).bind readContents = some contents ∧
    ∀ other, codec.digest other = digest → other = bytes

/-! ### Revealed claims -/

/-- The member names that carry the machinery of selective disclosure. -/
def IsMachinery (name : String) : Prop := name = "_sd" ∨ name = "_sd_alg"

/-- The digests that an object carries. -/
def Digests (members : List (String × Value ν)) (digests : List String) : Prop :=
  members.lookup "_sd" = none ∧ digests = [] ∨
    members.lookup "_sd" = some (.arr (digests.map .str))

section Revealed

variable (opened : String → Option (Option String × Value ν))

mutual

/-- A value with digests opened, and the digests that were, the last one first. -/
inductive Revealed : Value ν → Value ν → List String → Prop
  | null : Revealed .null .null []
  | bool (b : Bool) : Revealed (.bool b) (.bool b) []
  | num (x : ν) : Revealed (.num x) (.num x) []
  | str (s : String) : Revealed (.str s) (.str s) []
  | arr {items out digests} (h : RevealedItems items out digests) :
      Revealed (.arr items) (.arr out) digests
  | obj {members plain claims sd ds ds'} (hplain : RevealedMembers members plain ds)
      (hsd : Digests members sd) (hclaims : RevealedDigests sd claims ds')
      (hnames : ((plain ++ claims).map Prod.fst).Nodup) :
      Revealed (.obj members) (.obj (plain ++ claims)) (ds' ++ ds)

/-- The elements of an array, where `{"...": digest}` stands for an element that may be withheld. -/
inductive RevealedItems : List (Value ν) → List (Value ν) → List String → Prop
  | nil : RevealedItems [] [] []
  | plain {v w items out ds ds'} (hv : v.member? "..." = none) (hw : Revealed v w ds)
      (h : RevealedItems items out ds') : RevealedItems (v :: items) (w :: out) (ds' ++ ds)
  | withheld {d items out ds} (hd : opened d = none) (h : RevealedItems items out ds) :
      RevealedItems (.obj [("...", .str d)] :: items) out ds
  | disclosed {d v w items out ds ds'} (hd : opened d = some (none, v)) (hw : Revealed v w ds)
      (h : RevealedItems items out ds') :
      RevealedItems (.obj [("...", .str d)] :: items) (w :: out) (ds' ++ (ds ++ [d]))

/-- The plain members of an object, without the machinery. -/
inductive RevealedMembers : List (String × Value ν) → List (String × Value ν) → List String → Prop
  | nil : RevealedMembers [] [] []
  | machinery {name v members out ds} (hname : IsMachinery name)
      (h : RevealedMembers members out ds) : RevealedMembers ((name, v) :: members) out ds
  | plain {name v w members out ds ds'} (hname : ¬ IsMachinery name) (hw : Revealed v w ds)
      (h : RevealedMembers members out ds') :
      RevealedMembers ((name, v) :: members) ((name, w) :: out) (ds' ++ ds)

/-- The claims that the digests of an object stand for. -/
inductive RevealedDigests : List String → List (String × Value ν) → List String → Prop
  | nil : RevealedDigests [] [] []
  | withheld {d sd out ds} (hd : opened d = none) (h : RevealedDigests sd out ds) :
      RevealedDigests (d :: sd) out ds
  | disclosed {d name v w sd out ds ds'} (hd : opened d = some (some name, v))
      (hw : Revealed v w ds) (h : RevealedDigests sd out ds') :
      RevealedDigests (d :: sd) ((name, w) :: out) (ds' ++ (ds ++ [d]))

end

end Revealed

/-! ### Plain claims -/

mutual

/-- No object in the value carries digests, or stands for one. -/
def Plain : Value ν → Prop
  | .arr items => PlainItems items
  | .obj members => PlainMembers members
  | _ => True

/-- `Plain` of every item of an array. -/
def PlainItems : List (Value ν) → Prop
  | [] => True
  | v :: vs => v.member? "..." = none ∧ Plain v ∧ PlainItems vs

/-- `Plain` of every member of an object. -/
def PlainMembers : List (String × Value ν) → Prop
  | [] => True
  | (name, v) :: rest => ¬ IsMachinery name ∧ Plain v ∧ PlainMembers rest

end

theorem PlainMembers.lookup_sd_eq_none :
    ∀ {members : List (String × Value ν)}, PlainMembers members → members.lookup "_sd" = none
  | [], _ => rfl
  | (name, v) :: rest, ⟨hname, _, h⟩ => by
    rw [List.lookup_cons, beq_false_of_ne fun heq ↦ hname (.inl heq.symm)]
    exact h.lookup_sd_eq_none

section Unchanged

variable {opened : String → Option (Option String × Value ν)}

mutual

/-- A plain claim is unchanged, and opens nothing. -/
theorem Revealed.eq_of_plain : ∀ {v w : Value ν} {ds}, Revealed opened v w ds → Plain v →
    w = v ∧ ds = []
  | _, _, _, .null, _ => ⟨rfl, rfl⟩
  | _, _, _, .bool _, _ => ⟨rfl, rfl⟩
  | _, _, _, .num _, _ => ⟨rfl, rfl⟩
  | _, _, _, .str _, _ => ⟨rfl, rfl⟩
  | _, _, _, .arr h, hv => by
    rw [Plain] at hv
    obtain ⟨rfl, rfl⟩ := h.eq_of_plain hv
    exact ⟨rfl, rfl⟩
  | _, _, _, .obj hplain hsd hclaims _, hv => by
    rw [Plain] at hv
    obtain ⟨rfl, rfl⟩ := hplain.eq_of_plain hv
    rcases hsd with ⟨-, rfl⟩ | hsd
    · cases hclaims
      simp
    · rw [hv.lookup_sd_eq_none] at hsd
      cases hsd

theorem RevealedItems.eq_of_plain : ∀ {items out : List (Value ν)} {ds},
    RevealedItems opened items out ds → PlainItems items → out = items ∧ ds = []
  | _, _, _, .nil, _ => ⟨rfl, rfl⟩
  | _, _, _, .plain _ hw h, hitems => by
    rw [PlainItems] at hitems
    obtain ⟨rfl, rfl⟩ := hw.eq_of_plain hitems.2.1
    obtain ⟨rfl, rfl⟩ := h.eq_of_plain hitems.2.2
    exact ⟨rfl, rfl⟩
  | _, _, _, .withheld _ _, hitems => by simp [PlainItems, Value.member?] at hitems
  | _, _, _, .disclosed _ _ _, hitems => by simp [PlainItems, Value.member?] at hitems

theorem RevealedMembers.eq_of_plain : ∀ {members out : List (String × Value ν)} {ds},
    RevealedMembers opened members out ds → PlainMembers members → out = members ∧ ds = []
  | _, _, _, .nil, _ => ⟨rfl, rfl⟩
  | _, _, _, .machinery hname _, hmembers => by
    rw [PlainMembers] at hmembers
    exact absurd hname hmembers.1
  | _, _, _, .plain _ hw h, hmembers => by
    rw [PlainMembers] at hmembers
    obtain ⟨rfl, rfl⟩ := hw.eq_of_plain hmembers.2.1
    obtain ⟨rfl, rfl⟩ := h.eq_of_plain hmembers.2.2
    exact ⟨rfl, rfl⟩

end

/-- Every plain member is among those revealed. -/
theorem RevealedMembers.exists_revealed {name : String} {v : Value ν}
    (hname : ¬ IsMachinery name) : ∀ {members out : List (String × Value ν)} {ds},
    RevealedMembers opened members out ds → (name, v) ∈ members →
      ∃ w ds', (name, w) ∈ out ∧ Revealed opened v w ds'
  | _, _, _, .nil, hmem => by simp at hmem
  | _, _, _, .machinery hname' h, hmem => by
    rcases List.mem_cons.mp hmem with heq | hmem
    · cases heq
      exact absurd hname' hname
    · exact h.exists_revealed hname hmem
  | _, _, _, .plain _ hw h, hmem => by
    rcases List.mem_cons.mp hmem with heq | hmem
    · cases heq
      exact ⟨_, _, List.mem_cons_self, hw⟩
    · obtain ⟨w, ds', hout, hr⟩ := h.exists_revealed hname hmem
      exact ⟨w, ds', List.mem_cons_of_mem _ hout, hr⟩

/-- Every plain member of revealed claims is there under its name. -/
theorem Revealed.exists_revealed {members out : List (String × Value ν)} {ds : List String}
    (h : Revealed opened (.obj members) (.obj out) ds) {name : String} {v : Value ν}
    (hname : ¬ IsMachinery name) (hmem : (name, v) ∈ members) :
    ∃ w ds', (name, w) ∈ out ∧ Revealed opened v w ds' := by
  cases h with
  | obj hplain _ _ _ =>
    obtain ⟨w, ds', hout, hr⟩ := hplain.exists_revealed hname hmem
    exact ⟨w, ds', List.mem_append_left _ hout, hr⟩

/-- Revealed members have names of their own. -/
theorem Revealed.names_nodup {members out : List (String × Value ν)} {ds : List String}
    (h : Revealed opened (.obj members) (.obj out) ds) : (out.map Prod.fst).Nodup := by
  cases h with
  | obj _ _ _ hnames => exact hnames

end Unchanged

/-! ### Restrictions -/

mutual

/-- Claims with elements of arrays and members of objects withheld. -/
inductive Restricts : Value ν → Value ν → Prop
  | refl (v : Value ν) : Restricts v v
  | arr {vs ws} (h : RestrictsItems vs ws) : Restricts (.arr vs) (.arr ws)
  | obj {vs ws} (h : RestrictsMembers vs ws) : Restricts (.obj vs) (.obj ws)

/-- Elements that keep their order. -/
inductive RestrictsItems : List (Value ν) → List (Value ν) → Prop
  | nil : RestrictsItems [] []
  | withheld {w vs ws} (h : RestrictsItems vs ws) : RestrictsItems vs (w :: ws)
  | kept {v w vs ws} (hv : Restricts v w) (h : RestrictsItems vs ws) :
      RestrictsItems (v :: vs) (w :: ws)

/-- Members that each restrict the member of their name. -/
inductive RestrictsMembers : List (String × Value ν) → List (String × Value ν) → Prop
  | nil {ws} : RestrictsMembers [] ws
  | kept {name v w vs ws} (hname : ws.lookup name = some w) (hv : Restricts v w)
      (h : RestrictsMembers vs ws) : RestrictsMembers ((name, v) :: vs) ws

end

theorem RestrictsMembers.of_mem {ws : List (String × Value ν)}
    (hws : (ws.map Prod.fst).Nodup) {vs : List (String × Value ν)}
    (h : ∀ m ∈ vs, ∃ w, (m.1, w) ∈ ws ∧ Restricts m.2 w) : RestrictsMembers vs ws := by
  induction vs with
  | nil => exact .nil
  | cons m vs ih =>
    obtain ⟨w, hmem, hw⟩ := h m List.mem_cons_self
    exact .kept (lookup_eq_some_of_mem hws hmem) hw
      (ih fun m' hm' ↦ h m' (List.mem_cons_of_mem _ hm'))

/-! ### Fewer openings -/

theorem Digests.unique {members : List (String × Value ν)} {sd sd' : List String}
    (h : Digests members sd) (h' : Digests members sd') : sd = sd' := by
  rcases h with ⟨hnone, rfl⟩ | h <;> rcases h' with ⟨hnone', rfl⟩ | h'
  · rfl
  · rw [hnone] at h'
    cases h'
  · rw [hnone'] at h
    cases h
  · rw [h] at h'
    have hmap : sd.map Value.str = sd'.map (Value.str (ν := ν)) := by
      injection h' with h'
      injection h'
    exact List.map_injective_iff.mpr (fun a b hab ↦ by injection hab) hmap

section Fewer

variable {few many : String → Option (Option String × Value ν)}

mutual

/-- An opening that opens fewer digests reveals a restriction. -/
theorem Revealed.restricts (hle : ∀ d c, few d = some c → many d = some c) :
    ∀ {v w w' ds ds'}, Revealed few v w ds → Revealed many v w' ds' → Restricts w w'
  | _, _, _, _, _, .null, .null => .refl _
  | _, _, _, _, _, .bool b, .bool _ => .refl _
  | _, _, _, _, _, .num x, .num _ => .refl _
  | _, _, _, _, _, .str s, .str _ => .refl _
  | _, _, _, _, _, .arr h, .arr h' => .arr (h.restricts hle h')
  | _, _, _, _, _, .obj hplain hsd hclaims _, .obj hplain' hsd' hclaims' hnames' => by
    obtain rfl := hsd.unique hsd'
    refine .obj (.of_mem hnames' fun m hm ↦ ?_)
    rcases List.mem_append.mp hm with hm | hm
    · obtain ⟨w, hw, hr⟩ := hplain.restricts hle hplain' m hm
      exact ⟨w, List.mem_append_left _ hw, hr⟩
    · obtain ⟨w, hw, hr⟩ := hclaims.restricts hle hclaims' m hm
      exact ⟨w, List.mem_append_right _ hw, hr⟩

theorem RevealedItems.restricts (hle : ∀ d c, few d = some c → many d = some c) :
    ∀ {vs ws ws' ds ds'}, RevealedItems few vs ws ds → RevealedItems many vs ws' ds' →
      RestrictsItems ws ws'
  | _, _, _, _, _, .nil, .nil => .nil
  | _, _, _, _, _, .plain _ hw h, .plain _ hw' h' =>
    .kept (hw.restricts hle hw') (h.restricts hle h')
  | _, _, _, _, _, .plain hv _ _, .withheld _ _ => by simp [Value.member?] at hv
  | _, _, _, _, _, .plain hv _ _, .disclosed _ _ _ => by simp [Value.member?] at hv
  | _, _, _, _, _, .withheld _ _, .plain hv' _ _ => by simp [Value.member?] at hv'
  | _, _, _, _, _, .withheld _ h, .withheld _ h' => h.restricts hle h'
  | _, _, _, _, _, .withheld _ h, .disclosed _ _ h' => .withheld (h.restricts hle h')
  | _, _, _, _, _, .disclosed _ _ _, .plain hv' _ _ => by simp [Value.member?] at hv'
  | _, _, _, _, _, .disclosed hd _ _, .withheld hd' _ => by
    rw [hle _ _ hd] at hd'
    cases hd'
  | _, _, _, _, _, .disclosed hd hw h, .disclosed hd' hw' h' => by
    rw [hle _ _ hd] at hd'
    cases hd'
    exact .kept (hw.restricts hle hw') (h.restricts hle h')

theorem RevealedMembers.restricts (hle : ∀ d c, few d = some c → many d = some c) :
    ∀ {vs ws ws' ds ds'}, RevealedMembers few vs ws ds → RevealedMembers many vs ws' ds' →
      ∀ m ∈ ws, ∃ w, (m.1, w) ∈ ws' ∧ Restricts m.2 w
  | _, _, _, _, _, .nil, .nil, m, hm => by simp at hm
  | _, _, _, _, _, .machinery _ h, .machinery _ h', m, hm => h.restricts hle h' m hm
  | _, _, _, _, _, .machinery hname _, .plain hname' _ _, _, _ => absurd hname hname'
  | _, _, _, _, _, .plain hname _ _, .machinery hname' _, _, _ => absurd hname' hname
  | _, _, _, _, _, .plain _ hw h, .plain _ hw' h', m, hm => by
    rcases List.mem_cons.mp hm with rfl | hm
    · exact ⟨_, List.mem_cons_self, hw.restricts hle hw'⟩
    · obtain ⟨w, hmem, hr⟩ := h.restricts hle h' m hm
      exact ⟨w, List.mem_cons_of_mem _ hmem, hr⟩

theorem RevealedDigests.restricts (hle : ∀ d c, few d = some c → many d = some c) :
    ∀ {sd ws ws' ds ds'}, RevealedDigests few sd ws ds → RevealedDigests many sd ws' ds' →
      ∀ m ∈ ws, ∃ w, (m.1, w) ∈ ws' ∧ Restricts m.2 w
  | _, _, _, _, _, .nil, .nil, m, hm => by simp at hm
  | _, _, _, _, _, .withheld _ h, .withheld _ h', m, hm => h.restricts hle h' m hm
  | _, _, _, _, _, .withheld _ h, .disclosed _ _ h', m, hm => by
    obtain ⟨w, hmem, hr⟩ := h.restricts hle h' m hm
    exact ⟨w, List.mem_cons_of_mem _ hmem, hr⟩
  | _, _, _, _, _, .disclosed hd _ _, .withheld hd' _, _, _ => by
    rw [hle _ _ hd] at hd'
    cases hd'
  | _, _, _, _, _, .disclosed hd hw h, .disclosed hd' hw' h', m, hm => by
    rw [hle _ _ hd] at hd'
    cases hd'
    rcases List.mem_cons.mp hm with rfl | hm
    · exact ⟨_, List.mem_cons_self, hw.restricts hle hw'⟩
    · obtain ⟨w, hmem, hr⟩ := h.restricts hle h' m hm
      exact ⟨w, List.mem_cons_of_mem _ hmem, hr⟩

end

end Fewer

end QAuth.Federation
