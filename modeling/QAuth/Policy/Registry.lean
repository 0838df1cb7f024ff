import QAuth.Foundation.Table
import QAuth.Policy.Field

/-!
# The realm policy registry

The registry of `registry.ts`: groups of fields, registered under a name once, and the parser of the
policy documents and writes they make up.
-/

namespace QAuth.Policy

open Guards Json

/-! ### Groups as they are registered -/

/-- A member of a group, as it is registered. -/
inductive Shape
  /-- A value that carries a field's brand. -/
  | field (definition : FieldDefinition)
  | group (members : List (String × Shape))
  /-- Any other value. -/
  | other

/-- A node of the registered tree. -/
inductive Node
  | field (field : PolicyField)
  | group (members : List (String × Node))

/-- The names every object inherits. -/
def objectPrototypeNames : List String :=
  ["constructor", "hasOwnProperty", "isPrototypeOf", "propertyIsEnumerable", "toLocaleString",
    "toString", "valueOf", "__defineGetter__", "__defineSetter__", "__lookupGetter__",
    "__lookupSetter__", "__proto__"]

/-- One lower camelCase word, and not one that `Object.prototype` has. -/
def isMemberName (name : String) : Bool :=
  match name.toList with
  | first :: rest =>
    first.isLower && rest.all Char.isAlphanum && !objectPrototypeNames.contains name
  | [] => false

/-- How deep a group may nest. -/
def MAX_DEPTH : ℕ := 4

/-- A name in lower case, as member names (ASCII letters and digits) fold. -/
def folded (name : String) : List Char := name.toList.map Char.toLower

/-- The name a secret member takes in the representation. -/
def setFlagName (name : String) : String := name ++ "Set"

/-- A dotted path. -/
def pathOf (segments : List String) : String := ".".intercalate segments

def checkNames (place : String) : List String → List (List Char) →
    Except PolicyDefinitionError Unit
  | [], _ => .ok ()
  | name :: rest, seen => do
    refuseIf (¬ isMemberName name)
      (.under s!"{place}.{name}" (.rule ("a member name is one lower camelCase word, and not one " ++
        "Object.prototype has")))
    refuseIf (folded name ∈ seen) (.under s!"{place}.{name}" (.rule "differs only in case"))
    checkNames place rest (folded name :: seen)

mutual

def buildTree (names : List String) (path : List String) (name : String) :
    Shape → Except PolicyDefinitionError Node
  | .field definition => do
    let field ← (policyField definition).mapError (.under (pathOf path))
    refuseIf (field.secret ∧ folded (setFlagName name) ∈ names.map folded)
      (.under (pathOf path) (.rule (s!"the representation shows this secret as {setFlagName name}, " ++
        "which another member already is")))
    .ok (.field field)
  | .group members => do
    refuseIf (members = [] : Prop) (.under (pathOf path) (.rule "a group has at least one field"))
    refuseIf (MAX_DEPTH < path.length) (.under (pathOf path) (.rule "groups nest at most 4 deep"))
    checkNames (pathOf path) (members.map Prod.fst) []
    let nodes ← buildMembers (members.map Prod.fst) path members
    .ok (.group nodes)
  | .other =>
    .error (.under (pathOf path) (.rule ("a member is a field made by policyField, or a nested " ++
      "group")))

/-- The trees of the members of a group. -/
def buildMembers (names : List String) (path : List String) :
    List (String × Shape) → Except PolicyDefinitionError (List (String × Node))
  | [] => .ok []
  | (name, shape) :: rest => do
    let node ← buildTree names (path ++ [name]) name shape
    let nodes ← buildMembers names path rest
    .ok ((name, node) :: nodes)

end

mutual

/-- No two members of a group share a name. -/
def Node.WellNamed : Node → Prop
  | .field _ => True
  | .group members => (members.map Prod.fst).Nodup ∧ WellNamedMembers members

/-- The groups among the members are well named. -/
def WellNamedMembers : List (String × Node) → Prop
  | [] => True
  | (_, node) :: rest => node.WellNamed ∧ WellNamedMembers rest

end

theorem WellNamedMembers.of_mem {members : List (String × Node)} (h : WellNamedMembers members)
    {m : String × Node} (hm : m ∈ members) : m.2.WellNamed := by
  induction members with
  | nil => cases hm
  | cons n rest ih =>
    rcases List.mem_cons.mp hm with rfl | hm
    · exact h.1
    · exact ih h.2 hm

theorem Node.WellNamed.append {members : List (String × Node)}
    (h : (Node.group members).WellNamed) {name : String} {node : Node}
    (hname : name ∉ members.map Prod.fst) (hnode : node.WellNamed) :
    (Node.group (members ++ [(name, node)])).WellNamed := by
  obtain ⟨hnodup, hmembers⟩ := h
  constructor
  · rw [List.map_append, List.map_singleton, List.nodup_append]
    refine ⟨hnodup, List.nodup_singleton name, ?_⟩
    rintro n hn m hm rfl
    obtain rfl : n = name := List.mem_singleton.mp hm
    exact hname hn
  · clear hnodup hname
    induction members with
    | nil => exact ⟨hnode, trivial⟩
    | cons m rest ih => exact ⟨hmembers.1, ih hmembers.2⟩

/-- Names that pass differ. -/
theorem nodup_of_checkNames {place : String} {names : List String} {seen : List (List Char)}
    (h : checkNames place names seen = .ok ()) :
    names.Nodup ∧ ∀ name ∈ names, folded name ∉ seen := by
  induction names generalizing seen with
  | nil => simp
  | cons name rest ih =>
    simp only [checkNames, bind_eq_ok_iff, refuseIf_eq_ok_iff] at h
    obtain ⟨-, -, -, hfresh, hrest⟩ := h
    obtain ⟨hnodup, hout⟩ := ih hrest
    refine ⟨List.nodup_cons.mpr ⟨fun hmem ↦ ?_, hnodup⟩, fun n hn ↦ ?_⟩
    · exact hout name hmem List.mem_cons_self
    · rcases List.mem_cons.mp hn with rfl | hn
      · exact hfresh
      · exact fun hseen ↦ hout n hn (List.mem_cons_of_mem _ hseen)

mutual

theorem Node.wellNamed_of_buildTree {names path : List String} {name : String} :
    ∀ {shape : Shape} {node : Node}, buildTree names path name shape = .ok node → node.WellNamed
  | .field definition, node, h => by
    simp only [buildTree, bind_eq_ok_iff] at h
    obtain ⟨f, -, _, -, h⟩ := h
    cases h
    trivial
  | .group members, node, h => by
    simp only [buildTree, bind_eq_ok_iff] at h
    obtain ⟨_, -, _, -, _, hnames, nodes, hnodes, h⟩ := h
    cases h
    obtain ⟨hmap, hwell⟩ := wellNamed_of_buildMembers hnodes
    refine ⟨?_, hwell⟩
    rw [hmap]
    exact (nodup_of_checkNames hnames).1
  | .other, node, h => by
    simp [buildTree] at h

theorem wellNamed_of_buildMembers {names path : List String} :
    ∀ {members : List (String × Shape)} {nodes : List (String × Node)},
      buildMembers names path members = .ok nodes →
        nodes.map Prod.fst = members.map Prod.fst ∧ WellNamedMembers nodes
  | [], nodes, h => by
    simp only [buildMembers, Except.ok.injEq] at h
    subst h
    exact ⟨rfl, trivial⟩
  | (name, shape) :: rest, nodes, h => by
    simp only [buildMembers, bind_eq_ok_iff] at h
    obtain ⟨node, hnode, nodes', hnodes, h⟩ := h
    cases h
    obtain ⟨hmap, hwell⟩ := wellNamed_of_buildMembers hnodes
    exact ⟨by simp [hmap], Node.wellNamed_of_buildTree hnode, hwell⟩

end

/-! ### The fields of a tree -/

/-- A field and the names on the way to it. -/
structure RegisteredPolicyField where
  segments : List String
  field : PolicyField

namespace RegisteredPolicyField

/-- The dotted path of a field. -/
def path (entry : RegisteredPolicyField) : String := pathOf entry.segments

/-- The field, one member further down. -/
def inside (name : String) (entry : RegisteredPolicyField) : RegisteredPolicyField :=
  { entry with segments := name :: entry.segments }

end RegisteredPolicyField

mutual

/-- The fields of a tree, in its order. -/
def Node.entries : Node → List RegisteredPolicyField
  | .field f => [⟨[], f⟩]
  | .group members => entriesOfMembers members

/-- The fields of the members of a group. -/
def entriesOfMembers : List (String × Node) → List RegisteredPolicyField
  | [] => []
  | (name, node) :: rest => node.entries.map (.inside name) ++ entriesOfMembers rest

end

theorem mem_entriesOfMembers {members : List (String × Node)} {e : RegisteredPolicyField} :
    e ∈ entriesOfMembers members ↔ ∃ m ∈ members, ∃ e' ∈ m.2.entries, e'.inside m.1 = e := by
  induction members with
  | nil => simp [entriesOfMembers]
  | cons m rest ih => simp [entriesOfMembers, ih]

/-! ### Documents and writes -/

/-- The two forms a value is parsed in. -/
inductive PolicyView
  /-- The stored policies: no secret appears. -/
  | document
  /-- A write: a secret may be set, or cleared with `null`. -/
  | input
deriving DecidableEq

/-- An entry of a list that `Set` compares by value. -/
def comparedEntry : Value → Option Value
  | .num x => some (.num (.exact x.toRat))
  | .arr _ | .obj _ => none
  | v => some v

def isUniqueList : Value → Bool
  | .arr items => decide (items.filterMap comparedEntry).Nodup
  | _ => true

/-- The type of a field, with the rule on the entries of a set. -/
def baseSchema (field : PolicyField) (value : Value) : Option Value :=
  (field.schema.safeParse value).filter fun parsed ↦
    !isSetDirection field.direction || isUniqueList parsed

/-- What a field's member reads as: a missing one as its default, or as nothing for a secret. -/
def fieldSchema (field : PolicyField) (given : Option Value) : Option (Option Value) :=
  match given with
  | none => some (if field.secret then none else some field.default)
  | some value =>
    -- `null` clears a secret
    if field.secret && decide (value = .null) then some (some .null)
    else (baseSchema field value).map some

def Node.isSecret : Node → Bool
  | .field f => f.secret
  | .group _ => false

/-- The view leaves the member out. -/
def Node.hidden (view : PolicyView) (node : Node) : Bool :=
  decide (view = .document) && node.isSecret

/-- A member of a value has a place in the group: as a member, or in a write as the flag of a secret,
which is dropped. -/
def knows (view : PolicyView) (members : List (String × Node)) (given : String × Value) : Bool :=
  members.any fun m ↦
    decide (m.1 = given.1) && !m.2.hidden view ||
      decide (view = .input) && m.2.isSecret && decide (setFlagName m.1 = given.1) &&
        (flag? (some given.2)).isSome

mutual

/-- A member read in a view; a missing group reads as an empty one. -/
def Node.parse (view : PolicyView) : Node → Option Value → Option (Option Value)
  | .field f, given => fieldSchema f given
  | .group members, given =>
    match given.getD (.obj []) with
    | .obj given =>
      if given.all (knows view members) then
        (parseMembers view members given).map fun parsed ↦ some (.obj parsed)
      else none
    | _ => none

/-- The members of a group read in a view. -/
def parseMembers (view : PolicyView) :
    List (String × Node) → List (String × Value) → Option (List (String × Value))
  | [], _ => some []
  | (name, node) :: rest, given =>
    if node.hidden view then parseMembers view rest given
    else do
      let value ← node.parse view (given.lookup name)
      let values ← parseMembers view rest given
      some ((value.map (name, ·)).toList ++ values)

end

/-! ### What a parsed value holds -/

theorem fst_mem_of_parseMembers {view : PolicyView} {members : List (String × Node)}
    {given parsed : List (String × Value)} (h : parseMembers view members given = some parsed)
    {p : String × Value} (hp : p ∈ parsed) : p.1 ∈ members.map Prod.fst := by
  induction members generalizing parsed with
  | nil =>
    cases h
    cases hp
  | cons m rest ih =>
    obtain ⟨name, node⟩ := m
    rw [parseMembers] at h
    split_ifs at h
    · exact List.mem_cons_of_mem _ (ih h hp)
    · simp only [Option.bind_eq_bind, Option.bind_eq_some_iff, Option.some.injEq] at h
      obtain ⟨value, -, values, hvalues, rfl⟩ := h
      rcases List.mem_append.mp hp with hp | hp
      · cases value with
        | none => cases hp
        | some v =>
          obtain rfl : p = (name, v) := by simpa using hp
          exact List.mem_cons_self
      · exact List.mem_cons_of_mem _ (ih hvalues hp)

theorem lookup_eq_none_of_parseMembers {view : PolicyView} {members : List (String × Node)}
    {given parsed : List (String × Value)} (h : parseMembers view members given = some parsed)
    {name : String} (hname : name ∉ members.map Prod.fst) : parsed.lookup name = none := by
  rw [List.lookup_eq_none_iff]
  intro p hp
  exact bne_iff_ne.mpr fun heq ↦ hname (heq ▸ fst_mem_of_parseMembers h hp)

/-- A parsed group holds what each of its members reads as, and nothing for a hidden one. -/
theorem lookup_parseMembers {view : PolicyView} {members : List (String × Node)}
    {given parsed : List (String × Value)} (hnodup : (members.map Prod.fst).Nodup)
    (h : parseMembers view members given = some parsed) {m : String × Node} (hm : m ∈ members) :
    if m.2.hidden view then parsed.lookup m.1 = none
    else m.2.parse view (given.lookup m.1) = some (parsed.lookup m.1) := by
  induction members generalizing parsed with
  | nil => cases hm
  | cons n rest ih =>
    obtain ⟨name, node⟩ := n
    obtain ⟨hfresh, hnodup⟩ := List.nodup_cons.mp hnodup
    rw [parseMembers] at h
    rcases List.mem_cons.mp hm with rfl | hm
    · split_ifs at h ⊢ with hhidden
      · exact lookup_eq_none_of_parseMembers h hfresh
      · simp only [Option.bind_eq_bind, Option.bind_eq_some_iff, Option.some.injEq] at h
        obtain ⟨value, hvalue, values, hvalues, rfl⟩ := h
        rw [hvalue]
        cases value with
        | none => simpa using (lookup_eq_none_of_parseMembers hvalues hfresh).symm
        | some v => simp
    · have hne : (m.1 == name) = false :=
        beq_false_of_ne fun heq ↦ hfresh (List.mem_map.mpr ⟨m, hm, heq⟩)
      split_ifs at h with hhidden
      · exact ih hnodup h hm
      · simp only [Option.bind_eq_bind, Option.bind_eq_some_iff, Option.some.injEq] at h
        obtain ⟨value, -, values, hvalues, rfl⟩ := h
        have hlookup : ((value.map (name, ·)).toList ++ values).lookup m.1 = values.lookup m.1 := by
          cases value with
          | none => rfl
          | some v => simp [List.lookup_cons, hne]
        rw [hlookup]
        exact ih hnodup hvalues hm

/-- Trees, with the trees they are made of. -/
theorem Node.induction {P : Node → Prop} (field : ∀ f, P (.field f))
    (group : ∀ members, (∀ m ∈ members, P m.2) → P (.group members)) : ∀ node, P node
  | .field f => field f
  | .group members => group members fun m _ ↦ Node.induction field group m.2
termination_by node => sizeOf node
decreasing_by
  have := List.sizeOf_lt_of_mem ‹m ∈ members›
  have : sizeOf m.2 < sizeOf m := by
    cases m
    simp only [Prod.mk.sizeOf_spec]
    omega
  simp only [Node.group.sizeOf_spec]
  omega

/-- What a group is read from: the members of an object, or none where it is missing. -/
theorem parse_group_eq_some {view : PolicyView} {members : List (String × Node)}
    {given parsed : Option Value} (h : (Node.group members).parse view given = some parsed) :
    ∃ gs ps, (given = some (.obj gs) ∨ given = none ∧ gs = []) ∧ gs.all (knows view members) ∧
      parseMembers view members gs = some ps ∧ parsed = some (.obj ps) := by
  rw [Node.parse] at h
  split at h
  · rename_i gs hgiven
    split_ifs at h with hknown
    obtain ⟨ps, hps, rfl⟩ := Option.map_eq_some_iff.mp h
    refine ⟨gs, ps, ?_, hknown, hps, rfl⟩
    cases given with
    | none => exact .inr ⟨rfl, by simpa using hgiven.symm⟩
    | some v => exact .inl (congrArg some hgiven)
  · cases h

/-- The value at a path in what a group is read from. -/
theorem bind_at?_cons {given : Option Value} {gs : List (String × Value)}
    (h : given = some (.obj gs) ∨ given = none ∧ gs = []) (name : String) (rest : List String) :
    given.bind (Value.at? · (name :: rest)) = (gs.lookup name).bind (Value.at? · rest) := by
  rcases h with rfl | ⟨rfl, rfl⟩
  · rfl
  · rfl

theorem Node.at?_parse {view : PolicyView} {node : Node} {given parsed : Option Value}
    (hwell : node.WellNamed) (h : node.parse view given = some parsed)
    {e : RegisteredPolicyField} (he : e ∈ node.entries)
    (hshown : view = .document → e.field.secret = false) :
    fieldSchema e.field (given.bind (Value.at? · e.segments)) =
      some (parsed.bind (Value.at? · e.segments)) := by
  induction node using Node.induction generalizing given parsed e with
  | field f =>
    obtain rfl : e = ⟨[], f⟩ := by simpa [Node.entries] using he
    simpa [Node.parse] using h
  | group members ih =>
    obtain ⟨hnodup, hmembers⟩ := hwell
    obtain ⟨gs, ps, hgiven, -, hps, rfl⟩ := parse_group_eq_some h
    obtain ⟨m, hm, e', he', rfl⟩ := mem_entriesOfMembers.mp he
    have hlookup := lookup_parseMembers hnodup hps hm
    have hhidden : m.2.hidden view = false := by
      obtain ⟨name, node⟩ := m
      cases node with
      | group _ => simp [Node.hidden, Node.isSecret]
      | field f =>
        obtain rfl : e' = ⟨[], f⟩ := by simpa [Node.entries] using he'
        cases view with
        | document =>
          have hf : f.secret = false := hshown rfl
          simp [Node.hidden, Node.isSecret, hf]
        | input => simp [Node.hidden]
    rw [hhidden, if_neg Bool.false_ne_true] at hlookup
    have hinner := ih m hm (hmembers.of_mem hm) hlookup he' hshown
    rw [RegisteredPolicyField.inside, bind_at?_cons hgiven, bind_at?_cons (.inl rfl)]
    exact hinner

theorem lookup_hidden_eq_none {members : List (String × Node)} {gs : List (String × Value)}
    (hnodup : (members.map Prod.fst).Nodup) (hknown : gs.all (knows .document members))
    {m : String × Node} (hm : m ∈ members) (hhidden : m.2.hidden .document = true) :
    gs.lookup m.1 = none := by
  rw [List.lookup_eq_none_iff]
  intro p hp
  refine bne_iff_ne.mpr fun heq ↦ ?_
  have hknows := List.all_eq_true.mp hknown p hp
  simp only [knows, List.any_eq_true, Bool.or_eq_true, Bool.and_eq_true, decide_eq_true_eq,
    Bool.not_eq_true', reduceCtorEq, false_and, or_false] at hknows
  obtain ⟨n, hn, hname, hshown⟩ := hknows
  obtain rfl : m = n := Table.eq_of_key_eq hnodup hm hn (heq.trans hname.symm)
  rw [hhidden] at hshown
  cases hshown

theorem Node.at?_secret_of_document {node : Node} {given parsed : Option Value}
    (hwell : node.WellNamed) (hgroup : node.isSecret = false)
    (h : node.parse .document given = some parsed) {e : RegisteredPolicyField}
    (he : e ∈ node.entries) (hsecret : e.field.secret = true) :
    given.bind (Value.at? · e.segments) = none ∧
      parsed.bind (Value.at? · e.segments) = none := by
  induction node using Node.induction generalizing given parsed e with
  | field f =>
    obtain rfl : e = ⟨[], f⟩ := by simpa [Node.entries] using he
    exact absurd hsecret (by simpa [Node.isSecret] using hgroup)
  | group members ih =>
    obtain ⟨hnodup, hmembers⟩ := hwell
    obtain ⟨gs, ps, hgiven, hknown, hps, rfl⟩ := parse_group_eq_some h
    obtain ⟨m, hm, e', he', rfl⟩ := mem_entriesOfMembers.mp he
    have hlookup := lookup_parseMembers hnodup hps hm
    rw [RegisteredPolicyField.inside, bind_at?_cons hgiven, bind_at?_cons (.inl rfl)]
    cases hs : m.2.isSecret with
    | true =>
      have hhidden : m.2.hidden .document = true := by simp [Node.hidden, hs]
      rw [if_pos hhidden] at hlookup
      rw [lookup_hidden_eq_none hnodup hknown hm hhidden, hlookup]
      exact ⟨rfl, rfl⟩
    | false =>
      rw [Node.hidden, hs, Bool.and_false, if_neg Bool.false_ne_true] at hlookup
      exact ih m hm (hmembers.of_mem hm) hs hlookup he' hsecret

/-! ### The registry -/

/-- The registered groups and the environment keys that seed their fields. -/
structure PolicyRegistry where
  roots : List (String × Node)
  seedKeys : List (String × String)
  wellNamed : (Node.group roots).WellNamed

namespace PolicyRegistry

/-- No group is registered. -/
def empty : PolicyRegistry := ⟨[], [], List.nodup_nil, trivial⟩

/-- The fields in the order they were registered. -/
def entries (registry : PolicyRegistry) : List RegisteredPolicyField :=
  entriesOfMembers registry.roots

/-- A value read as a stored document or as a write. -/
def parse (registry : PolicyRegistry) (view : PolicyView) (value : Value) : Option Value :=
  ((Node.group registry.roots).parse view (some value)).join

end PolicyRegistry

def checkSeeds : List RegisteredPolicyField → List (String × String) →
    Except PolicyDefinitionError (List (String × String))
  | [], seeds => .ok seeds
  | entry :: rest, seeds =>
    match entry.field.seedEnv with
    | none => checkSeeds rest seeds
    | some key => do
      refuseSome ((seeds.lookup key).map fun seeded ↦
        .under entry.path (.rule s!"{key} already seeds {seeded}; one key seeds one field"))
      checkSeeds rest (seeds ++ [(key, entry.path)])

/-- Add a group under a name that is not taken, also in another case. -/
def registerPolicyGroup (registry : PolicyRegistry) (name : String)
    (members : List (String × Shape)) : Except PolicyDefinitionError PolicyRegistry := do
  refuseIf (¬ isMemberName name)
    (.rule "a group name is one lower camelCase word, and not one Object.prototype has")
  if hname : name ∈ registry.roots.map Prod.fst then
    .error (.rule s!"a policy group named {name} is already registered")
  else
    refuseIf (folded name ∈ (registry.roots.map Prod.fst).map folded)
      (.rule s!"the policy group {name} differs only in case from a registered group")
    match h : buildTree [] [name] name (.group members) with
    | .error e => .error e
    | .ok tree =>
      let seedKeys ← checkSeeds (tree.entries.map (.inside name)) registry.seedKeys
      .ok {
        roots := registry.roots ++ [(name, tree)]
        seedKeys
        wellNamed := registry.wellNamed.append hname (Node.wellNamed_of_buildTree h) }

end QAuth.Policy
