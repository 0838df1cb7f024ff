import QAuth.Foundation.JsonEdit
import QAuth.Policy.Registry

/-!
# The layout of the realm policies

Where the fields of a registry sit, once its groups are registered one after the other: no field lies
on the way to another, a path names one field, and a field is what its group defines.
-/

namespace QAuth.Policy

open Guards Json

/-! ### Fields lie apart -/

/-- Two fields of a tree are one, or neither lies on the way to the other. -/
theorem Node.entries_apart {node : Node} (hwell : node.WellNamed) {d e : RegisteredPolicyField}
    (hd : d ∈ node.entries) (he : e ∈ node.entries) :
    d = e ∨ Apart d.segments e.segments := by
  induction node using Node.induction generalizing d e with
  | field f =>
    left
    rw [Node.entries, List.mem_singleton] at hd he
    rw [hd, he]
  | group members ih =>
    obtain ⟨hnodup, hmembers⟩ := hwell
    obtain ⟨m, hm, d', hd', rfl⟩ := mem_entriesOfMembers.mp hd
    obtain ⟨n, hn, e', he', rfl⟩ := mem_entriesOfMembers.mp he
    by_cases hname : m.1 = n.1
    · obtain rfl : m = n := Table.eq_of_key_eq hnodup hm hn hname
      obtain rfl | ⟨hde, hed⟩ := ih m hm (hmembers.of_mem hm) hd' he'
      · exact .inl rfl
      · refine .inr ⟨?_, ?_⟩
        · exact fun h ↦ hde (List.prefix_cons_inj _ |>.mp h)
        · exact fun h ↦ hed (List.prefix_cons_inj _ |>.mp h)
    · refine .inr ⟨?_, ?_⟩
      · exact fun h ↦ hname (List.cons_prefix_cons.mp h).1
      · exact fun h ↦ hname (List.cons_prefix_cons.mp h).1.symm

/-- No two fields of a tree are at one path. -/
theorem Node.nodup_entries {node : Node} (hwell : node.WellNamed) :
    (node.entries.map (·.segments)).Nodup := by
  induction node using Node.induction with
  | field f => exact List.nodup_singleton _
  | group members ih =>
    obtain ⟨hnodup, hmembers⟩ := hwell
    rw [Node.entries]
    induction members with
    | nil => exact List.nodup_nil
    | cons m rest ihrest =>
      obtain ⟨hfresh, hnodup⟩ := List.nodup_cons.mp hnodup
      have hhere := ih m List.mem_cons_self hmembers.1
      have hothers := ihrest (fun n hn ↦ ih n (List.mem_cons_of_mem _ hn)) hnodup hmembers.2
      rw [entriesOfMembers, List.map_append, List.nodup_append, List.map_map]
      refine ⟨?_, hothers, ?_⟩
      · have hmap : m.2.entries.map (RegisteredPolicyField.segments ∘ .inside m.1) =
            (m.2.entries.map (·.segments)).map (m.1 :: ·) := by
          rw [List.map_map]
          rfl
        rw [hmap]
        exact hhere.map fun s t hst ↦ (List.cons.inj hst).2
      · rintro s hs t ht rfl
        obtain ⟨d, -, hd⟩ := List.mem_map.mp hs
        obtain ⟨e, he, het⟩ := List.mem_map.mp ht
        obtain ⟨n, hn, e', -, rfl⟩ := mem_entriesOfMembers.mp he
        have hname : m.1 = n.1 := (List.cons.inj (hd.trans het.symm)).1
        exact hfresh (List.mem_map.mpr ⟨n, hn, hname.symm⟩)

/-- A field of a group has a name. -/
theorem segments_ne_nil {members : List (String × Node)} {e : RegisteredPolicyField}
    (he : e ∈ entriesOfMembers members) : e.segments ≠ [] := by
  obtain ⟨m, -, e', -, rfl⟩ := mem_entriesOfMembers.mp he
  exact List.cons_ne_nil _ _

/-! ### Dotted paths -/

theorem dot_not_mem_of_isMemberName {name : String} (h : isMemberName name = true) :
    '.' ∉ name.toList := by
  intro hdot
  rw [isMemberName] at h
  split at h
  · rename_i first rest hlist
    simp only [Bool.and_eq_true, List.all_eq_true] at h
    obtain ⟨⟨hfirst, hrest⟩, -⟩ := h
    rw [hlist] at hdot
    obtain rfl | hdot := List.mem_cons.mp hdot
    · exact absurd hfirst (by decide)
    · exact absurd (hrest _ hdot) (by decide)
  · cases h

/-- A dotted path is one path of names without dots. -/
theorem pathOf_injective {p q : List String} (hp : p ≠ []) (hq : q ≠ [])
    (hpdot : ∀ n ∈ p, '.' ∉ n.toList) (hqdot : ∀ n ∈ q, '.' ∉ n.toList)
    (h : pathOf p = pathOf q) : p = q := by
  have hsplit {s : List String} (hs : s ≠ []) (hdot : ∀ n ∈ s, '.' ∉ n.toList) :
      (pathOf s).toList.splitOn '.' = s.map String.toList := by
    rw [pathOf, String.toList_intercalate]
    refine List.splitOn_intercalate _ ?_ (by simpa using hs)
    rintro l hl
    obtain ⟨n, hn, rfl⟩ := List.mem_map.mp hl
    exact hdot n hn
  have hlists : p.map String.toList = q.map String.toList := by
    rw [← hsplit hp hpdot, ← hsplit hq hqdot, h]
  exact (List.map_injective_iff.mpr fun s t hst ↦ String.toList_injective hst) hlists

theorem isMemberName_of_checkNames {place : String} {names : List String}
    {seen : List (List Char)} (h : checkNames place names seen = .ok ()) :
    ∀ name ∈ names, isMemberName name = true := by
  induction names generalizing seen with
  | nil => simp
  | cons name rest ih =>
    simp only [checkNames, bind_eq_ok_iff, refuseIf_eq_ok_iff, not_not] at h
    obtain ⟨_, hname, _, -, hrest⟩ := h
    exact List.forall_mem_cons.mpr ⟨hname, ih hrest⟩

mutual

theorem isMemberName_of_buildTree {names path : List String} {name : String} :
    ∀ {shape : Shape} {node : Node}, buildTree names path name shape = .ok node →
      ∀ e ∈ node.entries, ∀ n ∈ e.segments, isMemberName n = true
  | .field definition, node, h, e, he, n, hn => by
    simp only [buildTree, bind_eq_ok_iff] at h
    obtain ⟨f, -, _, -, h⟩ := h
    cases h
    obtain rfl : e = ⟨[], f⟩ := by simpa [Node.entries] using he
    cases hn
  | .group members, node, h, e, he, n, hn => by
    simp only [buildTree, bind_eq_ok_iff] at h
    obtain ⟨_, -, _, -, _, hnames, nodes, hnodes, h⟩ := h
    cases h
    exact isMemberName_of_buildMembers hnodes (isMemberName_of_checkNames hnames) e he n hn
  | .other, node, h, e, he, n, hn => by
    simp [buildTree] at h

theorem isMemberName_of_buildMembers {names path : List String} :
    ∀ {members : List (String × Shape)} {nodes : List (String × Node)},
      buildMembers names path members = .ok nodes →
        (∀ name ∈ members.map Prod.fst, isMemberName name = true) →
          ∀ e ∈ entriesOfMembers nodes, ∀ n ∈ e.segments, isMemberName n = true
  | [], nodes, h, _, e, he, _, _ => by
    simp only [buildMembers, Except.ok.injEq] at h
    subst h
    cases he
  | (name, shape) :: rest, nodes, h, hnames, e, he, n, hn => by
    simp only [buildMembers, bind_eq_ok_iff] at h
    obtain ⟨node, hnode, nodes', hnodes, h⟩ := h
    cases h
    obtain he | he := List.mem_append.mp he
    · obtain ⟨e', he', rfl⟩ := List.mem_map.mp he
      obtain rfl | hn := List.mem_cons.mp hn
      · exact hnames _ List.mem_cons_self
      · exact isMemberName_of_buildTree hnode e' he' n hn
    · exact isMemberName_of_buildMembers hnodes
        (fun m hm ↦ hnames m (List.mem_cons_of_mem _ hm)) e he n hn

end

/-! ### Registered groups -/

mutual

/-- What a shape defines at a path. -/
def Shape.field? : Shape → List String → Option FieldDefinition
  | .field definition, [] => some definition
  | .group members, name :: rest => fieldOfMembers members name rest
  | _, _ => none

/-- What the members of a group define at a path. -/
def fieldOfMembers : List (String × Shape) → String → List String → Option FieldDefinition
  | [], _, _ => none
  | (n, shape) :: others, name, rest =>
    if n = name then shape.field? rest else fieldOfMembers others name rest

end

theorem toFieldDefinition_of_policyField {d : FieldDefinition} {f : PolicyField}
    (h : policyField d = .ok f) : f.toFieldDefinition = d := by
  rw [policyField] at h
  split at h
  · cases h
    rfl
  · cases h

mutual

/-- A field that a shape defines is in the tree it is built into. -/
theorem exists_entry_of_buildTree {names path : List String} {name : String} :
    ∀ {shape : Shape} {node : Node} {segments : List String} {d : FieldDefinition},
      buildTree names path name shape = .ok node → shape.field? segments = some d →
        ∃ e ∈ node.entries, e.segments = segments ∧ e.field.toFieldDefinition = d
  | .field definition, node, segments, d, h, hd => by
    simp only [buildTree, bind_eq_ok_iff, mapError_eq_ok_iff] at h
    obtain ⟨f, hf, _, -, h⟩ := h
    cases h
    cases segments with
    | nil =>
      obtain rfl : definition = d := by simpa [Shape.field?] using hd
      exact ⟨⟨[], f⟩, by simp [Node.entries], rfl, toFieldDefinition_of_policyField hf⟩
    | cons n rest => simp [Shape.field?] at hd
  | .group members, node, segments, d, h, hd => by
    simp only [buildTree, bind_eq_ok_iff] at h
    obtain ⟨_, -, _, -, _, -, nodes, hnodes, h⟩ := h
    cases h
    cases segments with
    | nil => simp [Shape.field?] at hd
    | cons n rest => exact exists_entry_of_buildMembers hnodes hd
  | .other, node, segments, d, h, hd => by
    simp [buildTree] at h

theorem exists_entry_of_buildMembers {names path : List String} :
    ∀ {members : List (String × Shape)} {nodes : List (String × Node)} {name : String}
      {rest : List String} {d : FieldDefinition},
      buildMembers names path members = .ok nodes → fieldOfMembers members name rest = some d →
        ∃ e ∈ entriesOfMembers nodes, e.segments = name :: rest ∧ e.field.toFieldDefinition = d
  | [], nodes, name, rest, d, h, hd => by
    simp [fieldOfMembers] at hd
  | (n, shape) :: others, nodes, name, rest, d, h, hd => by
    simp only [buildMembers, bind_eq_ok_iff] at h
    obtain ⟨node, hnode, nodes', hnodes, h⟩ := h
    cases h
    rw [fieldOfMembers] at hd
    split_ifs at hd with hn
    · subst hn
      obtain ⟨e, he, rfl, hfield⟩ := exists_entry_of_buildTree hnode hd
      exact ⟨e.inside n, List.mem_append.mpr (.inl (List.mem_map_of_mem he)), rfl, hfield⟩
    · obtain ⟨e, he, hsegments, hfield⟩ := exists_entry_of_buildMembers hnodes hd
      exact ⟨e, List.mem_append.mpr (.inr he), hsegments, hfield⟩

end

/-- The registry of some groups, each registered after those before it. -/
def registerAll (groups : List (String × List (String × Shape))) :
    Except PolicyDefinitionError PolicyRegistry :=
  groups.foldlM (fun registry group ↦ registerPolicyGroup registry group.1 group.2) .empty

theorem roots_of_registerPolicyGroup {registry next : PolicyRegistry} {name : String}
    {members : List (String × Shape)} (h : registerPolicyGroup registry name members = .ok next) :
    isMemberName name = true ∧ ∃ tree, buildTree [] [name] name (.group members) = .ok tree ∧
      next.roots = registry.roots ++ [(name, tree)] := by
  simp only [registerPolicyGroup, bind_eq_ok_iff, refuseIf_eq_ok_iff, not_not] at h
  obtain ⟨_, hname, h⟩ := h
  refine ⟨hname, ?_⟩
  split_ifs at h
  obtain ⟨_, -, h⟩ := bind_eq_ok_iff.mp h
  split at h
  · cases h
  · rename_i tree htree
    obtain ⟨seeds, -, h⟩ := bind_eq_ok_iff.mp h
    cases h
    exact ⟨tree, htree, rfl⟩

/-- What the registration of some groups leaves in a registry. -/
structure Registered (groups : List (String × List (String × Shape))) (registry : PolicyRegistry) :
    Prop where
  names : ∀ e ∈ registry.entries, ∀ n ∈ e.segments, isMemberName n = true
  built : ∀ group ∈ groups, ∃ tree,
    buildTree [] [group.1] group.1 (.group group.2) = .ok tree ∧ (group.1, tree) ∈ registry.roots

theorem registered_of_registerAll {groups : List (String × List (String × Shape))}
    {registry : PolicyRegistry} (h : registerAll groups = .ok registry) :
    Registered groups registry := by
  have hfrom : ∀ (done rest : List (String × List (String × Shape))) (before : PolicyRegistry),
      Registered done before →
      rest.foldlM (fun r g ↦ registerPolicyGroup r g.1 g.2) before = .ok registry →
      Registered (done ++ rest) registry := by
    intro done rest
    induction rest generalizing done with
    | nil =>
      rintro before hbefore h
      cases h
      rwa [List.append_nil]
    | cons group rest ih =>
      rintro before hbefore h
      rw [List.foldlM_cons, bind_eq_ok_iff] at h
      obtain ⟨next, hnext, hrest⟩ := h
      obtain ⟨hname, tree, htree, hroots⟩ := roots_of_registerPolicyGroup hnext
      rw [List.append_cons]
      refine ih (done ++ [group]) next ?_ hrest
      constructor
      · rintro e he n hn
        obtain ⟨m, hm, e', he', rfl⟩ := mem_entriesOfMembers.mp he
        rw [hroots, List.mem_append] at hm
        obtain hm | hm := hm
        · exact hbefore.names _ (mem_entriesOfMembers.mpr ⟨m, hm, e', he', rfl⟩) n hn
        · obtain rfl := List.mem_singleton.mp hm
          obtain rfl | hn := List.mem_cons.mp hn
          · exact hname
          · exact isMemberName_of_buildTree htree e' he' n hn
      · rintro g hg
        rw [hroots]
        obtain hg | hg := List.mem_append.mp hg
        · obtain ⟨t, ht, hmem⟩ := hbefore.built g hg
          exact ⟨t, ht, List.mem_append_left _ hmem⟩
        · obtain rfl := List.mem_singleton.mp hg
          exact ⟨tree, htree, List.mem_append_right _ (List.mem_singleton_self _)⟩
  refine hfrom [] groups .empty ?_ h
  constructor
  · rintro e he
    cases he
  · rintro g hg
    cases hg

namespace Registered

variable {groups : List (String × List (String × Shape))} {registry : PolicyRegistry}
  {d e : RegisteredPolicyField}

/-- Two fields at one dotted path are one. -/
theorem eq_of_path_eq (h : Registered groups registry) (hd : d ∈ registry.entries)
    (he : e ∈ registry.entries) (hpath : d.path = e.path) : d = e := by
  have hsegments : d.segments = e.segments :=
    pathOf_injective (segments_ne_nil hd) (segments_ne_nil he)
      (fun n hn ↦ dot_not_mem_of_isMemberName (h.names d hd n hn))
      (fun n hn ↦ dot_not_mem_of_isMemberName (h.names e he n hn)) hpath
  refine (Node.entries_apart registry.wellNamed hd he).resolve_right ?_
  rintro ⟨hstarts, -⟩
  exact hstarts (hsegments ▸ List.prefix_rfl)

/-- No two fields are at one dotted path. -/
theorem nodup_paths (h : Registered groups registry) : (registry.entries.map (·.path)).Nodup := by
  have hentries : registry.entries.Nodup := (Node.nodup_entries registry.wellNamed).of_map
  refine List.Nodup.map_on ?_ hentries
  rintro d hd e he hpath
  exact h.eq_of_path_eq hd he hpath

theorem exists_entry (h : Registered groups registry) {name : String}
    {members : List (String × Shape)} (hgroup : (name, members) ∈ groups) {rest : List String}
    {definition : FieldDefinition} (hfield : (Shape.group members).field? rest = some definition) :
    ∃ e ∈ registry.entries, e.segments = name :: rest ∧ e.field.toFieldDefinition = definition := by
  obtain ⟨tree, htree, hroot⟩ := h.built _ hgroup
  obtain ⟨e, he, rfl, hdefinition⟩ := exists_entry_of_buildTree htree hfield
  exact ⟨e.inside name, mem_entriesOfMembers.mpr ⟨_, hroot, e, he, rfl⟩, rfl, hdefinition⟩

end Registered

end QAuth.Policy
