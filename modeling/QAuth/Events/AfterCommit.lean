import Mathlib.Data.List.Nodup
import Mathlib.Data.List.Count
import QAuth.Foundation.Run

/-!
# Work that waits for a commit

`events/after-commit.ts`: a callback registered on a transaction runs once its COMMIT has returned.
A nested transaction is a savepoint with callbacks of its own, which join those of the level around
it when it is released and are dropped when it is rolled back.

The levels that are open are a stack, the innermost first, since a level has at most one savepoint
open at a time; a callback may be registered on any of them. The state also keeps, for each
callback, the levels it was registered in and the savepoints that were open inside its level then.
-/

namespace QAuth.Events.AfterCommit

open Transition

/-! ### The machine -/

/-- A transaction or savepoint: its id, and the callbacks that wait in it. A callback is the number
of its registration. -/
structure CommitScope where
  id : ℕ
  callbacks : List ℕ
deriving DecidableEq

/-- What is kept of a registration: the ids of the level it was made on and of those around it, the
innermost first, and the ids of the savepoints that were open inside that level. -/
structure Registration where
  path : List ℕ
  inside : List ℕ
deriving DecidableEq

/-- A transaction of a tracked database: its open levels, the innermost first, the registrations so
far, the levels that were committed or released, and the callbacks that have run. -/
structure State where
  opened : ℕ
  scopes : List CommitScope
  registered : List Registration
  committed : List ℕ
  ran : List ℕ
deriving DecidableEq

/-- How the COMMIT of a transaction ends. -/
inductive Answer
  | commit
  /-- Postgres answers the COMMIT of an aborted transaction with `ROLLBACK`, without an error. -/
  | rollback
  /-- The work throws, or the COMMIT fails. -/
  | failure
deriving DecidableEq

/-- What happens in a transaction. -/
inductive Action
  /-- The transaction begins. -/
  | start
  /-- A savepoint opens inside the innermost level. -/
  | savepoint
  /-- `afterCommit` on a level, given by its id. -/
  | afterCommit (id : ℕ)
  /-- The innermost savepoint is released. -/
  | release
  /-- The innermost savepoint is rolled back. -/
  | rollback
  /-- The COMMIT returns, or the transaction ends without one. -/
  | finish (answer : Answer)

/-- Nothing has happened yet. -/
def State.Initial (s : State) : Prop := s = ⟨0, [], [], [], []⟩

/-- A level opens inside the innermost one. -/
def State.enter (s : State) : State :=
  { s with opened := s.opened + 1, scopes := ⟨s.opened, []⟩ :: s.scopes }

/-- `afterCommit`: the level takes the callback, or, where it is not open, nothing does. -/
def State.afterCommit (s : State) (id : ℕ) : State × Bool :=
  match s.scopes.findIdx? (·.id = id) with
  | none => (s, false)
  | some depth =>
    ({ s with
      scopes := s.scopes.modify depth fun scope ↦
        { scope with callbacks := scope.callbacks ++ [s.registered.length] }
      registered := s.registered ++ [⟨(s.scopes.drop depth).map CommitScope.id,
        (s.scopes.take depth).map CommitScope.id⟩] }, true)

/-- One step; `none` where the action is not possible now. -/
def step (s : State) : Action → Option State
  | .start => if s.opened = 0 then some s.enter else none
  | .savepoint => if s.scopes = [] then none else some s.enter
  | .afterCommit id => some (s.afterCommit id).1
  | .release =>
    match s.scopes with
    | inner :: scope :: scopes =>
      -- The callbacks of the savepoint come last in the level around it.
      some { s with
        scopes := { scope with callbacks := scope.callbacks ++ inner.callbacks } :: scopes
        committed := inner.id :: s.committed }
    | _ => none
  | .rollback =>
    match s.scopes with
    | _ :: scope :: scopes => some { s with scopes := scope :: scopes }
    | _ => none
  | .finish answer =>
    match s.scopes with
    | [scope] =>
      if answer = .commit then
        some { s with scopes := [], committed := scope.id :: s.committed, ran := scope.callbacks }
      else some { s with scopes := [] }
    | _ => none

/-- A transaction as a transition system. -/
def system : System State Action where
  initial := State.Initial
  step := step

/-! ### What holds of the open levels -/

/-- The callbacks that wait, the outermost level's first. -/
def pending : List CommitScope → List ℕ
  | [] => []
  | scope :: scopes => pending scopes ++ scope.callbacks

/-- The callback `j` was registered on a level while the savepoint of `i`, or one around it, was
open inside that level. -/
def Overtakes (registered : List Registration) (j i : ℕ) : Prop :=
  ∃ a b, registered[j]? = some b ∧ registered[i]? = some a ∧ ∃ id ∈ b.inside, id ∈ a.path

/-- The order in which callbacks run. -/
def Precedes (registered : List Registration) (i j : ℕ) : Prop :=
  (i < j ∧ ¬ Overtakes registered j i) ∨ (j < i ∧ Overtakes registered i j)

/-- The callback waits in the level `ids.head`: of its levels, `ids` are the ones still open, and all
the others have been committed. -/
def Waits (s : State) (ids : List ℕ) (i : ℕ) : Prop :=
  ∃ a, s.registered[i]? = some a ∧ ∃ closed, a.path = closed ++ ids ∧ ∀ id ∈ closed, id ∈ s.committed

/-- Each callback waits in the level that has it. -/
def Waiting (s : State) : List CommitScope → Prop
  | [] => True
  | scope :: scopes =>
    (∀ i ∈ scope.callbacks, Waits s ((scope :: scopes).map CommitScope.id) i) ∧ Waiting s scopes

/-- What holds of the levels and the callbacks. -/
structure Inv (s : State) : Prop where
  ids : (s.scopes.map CommitScope.id).Nodup
  opened : ∀ id ∈ s.scopes.map CommitScope.id, id < s.opened
  committed : ∀ id ∈ s.committed, id < s.opened ∧ id ∉ s.scopes.map CommitScope.id
  paths : ∀ a ∈ s.registered, ∀ id ∈ a.path, id < s.opened
  waiting : Waiting s s.scopes
  ordered : (pending s.scopes).Pairwise (Precedes s.registered)
  kept : ∀ i a, s.registered[i]? = some a →
    (∀ id ∈ a.path, id ∈ s.committed ∨ id ∈ s.scopes.map CommitScope.id) →
    i ∈ pending s.scopes ∨ i ∈ s.ran
  ran : ∀ i ∈ s.ran, ∃ a, s.registered[i]? = some a ∧ ∀ id ∈ a.path, id ∈ s.committed
  ranOrdered : s.ran.Pairwise (Precedes s.registered)
  /-- Callbacks run when the transaction is over. -/
  ended : s.ran ≠ [] → s.scopes = [] ∧ s.opened ≠ 0

section Waiting

variable {s t : State} {inner rest : List CommitScope} {i j : ℕ}

theorem pending_append : pending (inner ++ rest) = pending rest ++ pending inner := by
  induction inner with
  | nil => exact (List.append_nil _).symm
  | cons scope inner ih =>
    rw [List.cons_append, pending, ih, pending, List.append_assoc]

theorem Waits.mono {ids : List ℕ} (hregistered : ∃ new, t.registered = s.registered ++ new)
    (hcommitted : ∀ id ∈ s.committed, id ∈ t.committed) (h : Waits s ids i) : Waits t ids i := by
  obtain ⟨a, ha, closed, hpath, hclosed⟩ := h
  obtain ⟨new, hnew⟩ := hregistered
  refine ⟨a, ?_, closed, hpath, fun id hid ↦ hcommitted id (hclosed id hid)⟩
  rw [hnew, List.getElem?_append_left (List.getElem?_eq_some_iff.mp ha).1]
  exact ha

theorem Waiting.mono {scopes : List CommitScope}
    (hregistered : ∃ new, t.registered = s.registered ++ new)
    (hcommitted : ∀ id ∈ s.committed, id ∈ t.committed) (h : Waiting s scopes) :
    Waiting t scopes := by
  induction scopes with
  | nil => trivial
  | cons scope scopes ih =>
    exact ⟨fun i hi ↦ (h.1 i hi).mono hregistered hcommitted, ih h.2⟩

theorem Waiting.of_append (h : Waiting s (inner ++ rest)) : Waiting s rest := by
  induction inner with
  | nil => exact h
  | cons scope inner ih => exact ih h.2

/-- A callback of the levels `inner` was registered in one of them, or inside one. -/
theorem Waiting.exists_mem_path (h : Waiting s (inner ++ rest)) (hi : i ∈ pending inner) :
    ∃ a, s.registered[i]? = some a ∧ ∃ id ∈ inner.map CommitScope.id, id ∈ a.path := by
  induction inner with
  | nil => cases hi
  | cons scope inner ih =>
    rcases List.mem_append.mp hi with hi | hi
    · obtain ⟨a, ha, id, hid, hpath⟩ := ih h.2 hi
      exact ⟨a, ha, id, List.mem_cons_of_mem _ hid, hpath⟩
    · obtain ⟨a, ha, closed, hpath, -⟩ := h.1 i hi
      refine ⟨a, ha, scope.id, List.mem_cons_self, ?_⟩
      rw [hpath]
      exact List.mem_append_right _ List.mem_cons_self

/-- The levels of a callback that waits have been committed or are open. -/
theorem Waiting.of_mem_path (h : Waiting s rest) (hi : i ∈ pending rest) :
    ∃ a, s.registered[i]? = some a ∧
      ∀ id ∈ a.path, id ∈ s.committed ∨ id ∈ rest.map CommitScope.id := by
  induction rest with
  | nil => cases hi
  | cons scope rest ih =>
    rcases List.mem_append.mp hi with hi | hi
    · obtain ⟨a, ha, hpath⟩ := ih h.2 hi
      exact ⟨a, ha, fun id hid ↦ (hpath id hid).imp_right (List.mem_cons_of_mem _)⟩
    · obtain ⟨a, ha, closed, hpath, hclosed⟩ := h.1 i hi
      refine ⟨a, ha, fun id hid ↦ ?_⟩
      rw [hpath] at hid
      exact (List.mem_append.mp hid).imp_left (hclosed id)

theorem Waiting.lt (h : Waiting s rest) (hi : i ∈ pending rest) : i < s.registered.length := by
  obtain ⟨a, ha, -⟩ := h.of_mem_path hi
  exact (List.getElem?_eq_some_iff.mp ha).1

/-- A level takes one more callback, which waits in it. -/
theorem Waiting.push {scope : CommitScope} (h : Waiting s (inner ++ scope :: rest))
    (hi : Waits s ((scope :: rest).map CommitScope.id) i) :
    Waiting s (inner ++ { scope with callbacks := scope.callbacks ++ [i] } :: rest) := by
  induction inner with
  | nil =>
    refine ⟨fun j hj ↦ ?_, h.2⟩
    rcases List.mem_append.mp hj with hj | hj
    · exact h.1 j hj
    · rw [List.mem_singleton.mp hj]
      exact hi
  | cons top inner ih =>
    refine ⟨fun j hj ↦ ?_, ih h.2⟩
    have hwaits := h.1 j hj
    simpa using hwaits

end Waiting

/-! ### Registrations -/

section Register

variable {s : State} {registered new : List Registration} {i j : ℕ}

/-- Later registrations do not change whether one callback overtakes another. -/
theorem overtakes_append (hi : i < registered.length) (hj : j < registered.length) :
    Overtakes (registered ++ new) j i ↔ Overtakes registered j i := by
  unfold Overtakes
  rw [List.getElem?_append_left hi, List.getElem?_append_left hj]

theorem precedes_append (hi : i < registered.length) (hj : j < registered.length) :
    Precedes (registered ++ new) i j ↔ Precedes registered i j := by
  unfold Precedes
  rw [overtakes_append hi hj, overtakes_append hj hi]

/-- `afterCommit` does nothing on a level that is not open, and otherwise appends the callback to
the level. -/
theorem afterCommit_cases (s : State) (id : ℕ) :
    s.afterCommit id = (s, false) ∨
      ∃ inner scope outer, s.scopes = inner ++ scope :: outer ∧
        s.afterCommit id = ({ s with
          scopes := inner ++
            { scope with callbacks := scope.callbacks ++ [s.registered.length] } :: outer
          registered := s.registered ++ [⟨(scope :: outer).map CommitScope.id,
            inner.map CommitScope.id⟩] }, true) := by
  unfold State.afterCommit
  split
  · exact .inl rfl
  · rename_i depth hdepth
    right
    obtain ⟨hlt, -, -⟩ := List.findIdx?_eq_some_iff_getElem.mp hdepth
    have hsplit : s.scopes = s.scopes.take depth ++ s.scopes[depth] :: s.scopes.drop (depth + 1) := by
      rw [List.getElem_cons_drop, List.take_append_drop]
    refine ⟨s.scopes.take depth, s.scopes[depth], s.scopes.drop (depth + 1), hsplit, ?_⟩
    rw [List.getElem_cons_drop, List.modify_eq_take_cons_drop hlt]

theorem Inv.afterCommit (h : Inv s) {inner outer : List CommitScope} {scope : CommitScope}
    (hscopes : s.scopes = inner ++ scope :: outer) :
    Inv { s with
      scopes := inner ++
        { scope with callbacks := scope.callbacks ++ [s.registered.length] } :: outer
      registered := s.registered ++ [⟨(scope :: outer).map CommitScope.id,
        inner.map CommitScope.id⟩] } := by
  have hids : (inner ++ (⟨scope.id, scope.callbacks ++ [s.registered.length]⟩ : CommitScope) ::
      outer).map CommitScope.id = s.scopes.map CommitScope.id := by
    rw [hscopes]
    simp
  have hwaiting := h.waiting
  have hordered := h.ordered
  rw [hscopes] at hwaiting hordered
  have hpending : pending (inner ++ scope :: outer) =
      (pending outer ++ scope.callbacks) ++ pending inner := pending_append
  have hpending' : pending (inner ++ (⟨scope.id, scope.callbacks ++ [s.registered.length]⟩ :
      CommitScope) :: outer) =
      (pending outer ++ scope.callbacks) ++ s.registered.length :: pending inner := by
    rw [pending_append, pending]
    simp
  have hlt : ∀ x ∈ pending (inner ++ scope :: outer), x < s.registered.length :=
    fun x hx ↦ hwaiting.lt hx
  have hlast : (s.registered ++ [(⟨(scope :: outer).map CommitScope.id,
      inner.map CommitScope.id⟩ : Registration)])[s.registered.length]? =
      some ⟨(scope :: outer).map CommitScope.id, inner.map CommitScope.id⟩ :=
    List.getElem?_concat_length
  refine ⟨?_, ?_, ?_, ?_, ?_, ?_, ?_, ?_, ?_, fun hran ↦ ?_⟩
  · rw [hids]
    exact h.ids
  · rw [hids]
    exact h.opened
  · rw [hids]
    exact h.committed
  · intro a ha id hid
    rcases List.mem_append.mp ha with ha | ha
    · exact h.paths a ha id hid
    · rw [List.mem_singleton.mp ha] at hid
      refine h.opened id ?_
      rw [hscopes, List.map_append]
      exact List.mem_append_right _ hid
  · refine Waiting.push (Waiting.mono ⟨_, rfl⟩ (fun _ hid ↦ hid) hwaiting) ?_
    exact ⟨_, hlast, [], rfl, nofun⟩
  · rw [hpending] at hlt hordered
    rw [hpending']
    obtain ⟨houter, hinner, hbetween⟩ := List.pairwise_append.mp hordered
    have hkeep : ∀ x y, x < s.registered.length → y < s.registered.length →
        Precedes s.registered x y → Precedes (s.registered ++ [⟨(scope :: outer).map CommitScope.id,
          inner.map CommitScope.id⟩]) x y := fun x y hx hy ↦ (precedes_append hx hy).mpr
    refine List.pairwise_append.mpr ⟨?_, List.pairwise_cons.mpr ⟨fun y hy ↦ ?_, ?_⟩,
      fun x hx y hy ↦ ?_⟩
    · exact houter.imp_of_mem fun hx hy ↦
        hkeep _ _ (hlt _ (List.mem_append_left _ hx)) (hlt _ (List.mem_append_left _ hy))
    -- What waits inside the level is overtaken.
    · right
      have hy' := hlt y (List.mem_append_right _ hy)
      obtain ⟨b, hb, id, hid, hpath⟩ := hwaiting.exists_mem_path hy
      refine ⟨hy', b, _, hlast, ?_, id, hid, hpath⟩
      rw [List.getElem?_append_left hy']
      exact hb
    · exact hinner.imp_of_mem fun hx hy ↦
        hkeep _ _ (hlt _ (List.mem_append_right _ hx)) (hlt _ (List.mem_append_right _ hy))
    · have hx' := hlt x (List.mem_append_left _ hx)
      rcases List.mem_cons.mp hy with rfl | hy
      -- What waits in the level or around it is not.
      · refine .inl ⟨hx', ?_⟩
        rintro ⟨a, b, hb, ha, id, hid, hpath⟩
        rw [hlast] at hb
        rw [← Option.some.inj hb] at hid
        have hrest : Waiting s (scope :: outer) := hwaiting.of_append
        obtain ⟨a', ha', hlevels⟩ := hrest.of_mem_path hx
        rw [List.getElem?_append_left hx', ha'] at ha
        rw [← Option.some.inj ha] at hpath
        have hopen : id ∈ s.scopes.map CommitScope.id := by
          rw [hscopes, List.map_append]
          exact List.mem_append_left _ hid
        rcases hlevels id hpath with hcommitted | houter
        · exact (h.committed id hcommitted).2 hopen
        · have hnodup := h.ids
          rw [hscopes, List.map_append, List.nodup_append] at hnodup
          exact hnodup.2.2 id hid id houter rfl
      · exact hkeep _ _ hx' (hlt y (List.mem_append_right _ hy)) (hbetween x hx y hy)
  · intro i a ha hlevels
    rw [hids] at hlevels
    rw [hpending']
    by_cases hi : i < s.registered.length
    · rw [List.getElem?_append_left hi] at ha
      refine (h.kept i a ha hlevels).imp_left fun hmem ↦ ?_
      rw [hscopes, hpending] at hmem
      rcases List.mem_append.mp hmem with hmem | hmem
      · exact List.mem_append_left _ hmem
      · exact List.mem_append_right _ (List.mem_cons_of_mem _ hmem)
    · have hlen := (List.getElem?_eq_some_iff.mp ha).1
      rw [List.length_append, List.length_singleton] at hlen
      obtain rfl : i = s.registered.length := by omega
      exact .inl (List.mem_append_right _ List.mem_cons_self)
  · intro i hi
    obtain ⟨a, ha, hpath⟩ := h.ran i hi
    refine ⟨a, ?_, hpath⟩
    rw [List.getElem?_append_left (List.getElem?_eq_some_iff.mp ha).1]
    exact ha
  · refine h.ranOrdered.imp_of_mem fun hx hy ↦ ?_
    obtain ⟨a, ha, -⟩ := h.ran _ hx
    obtain ⟨b, hb, -⟩ := h.ran _ hy
    exact (precedes_append (List.getElem?_eq_some_iff.mp ha).1
      (List.getElem?_eq_some_iff.mp hb).1).mpr
  · obtain ⟨hclosed, -⟩ := h.ended hran
    rw [hscopes] at hclosed
    simp at hclosed

end Register

/-! ### Steps -/

section Steps

variable {s t : State} {a : Action}

theorem Inv.enter (h : Inv s) (hopen : s.opened = 0 ∨ s.scopes ≠ []) : Inv s.enter where
  ids := List.nodup_cons.mpr ⟨fun hmem ↦ Nat.lt_irrefl _ (h.opened _ hmem), h.ids⟩
  opened id hid := by
    rcases List.mem_cons.mp hid with rfl | hid
    · exact Nat.lt_succ_self _
    · exact Nat.lt_succ_of_lt (h.opened id hid)
  committed id hid := by
    obtain ⟨hlt, hclosed⟩ := h.committed id hid
    refine ⟨Nat.lt_succ_of_lt hlt, fun hmem ↦ ?_⟩
    rcases List.mem_cons.mp hmem with rfl | hmem
    · exact Nat.lt_irrefl _ hlt
    · exact hclosed hmem
  paths a ha id hid := Nat.lt_succ_of_lt (h.paths a ha id hid)
  waiting := ⟨nofun, h.waiting.mono ⟨[], (List.append_nil s.registered).symm⟩ fun _ hid ↦ hid⟩
  ordered := by
    show (pending s.scopes ++ []).Pairwise _
    rw [List.append_nil]
    exact h.ordered
  kept i a ha hlevels := by
    show i ∈ pending s.scopes ++ [] ∨ _
    rw [List.append_nil]
    refine h.kept i a ha fun id hid ↦ ?_
    rcases hlevels id hid with hcommitted | hopen
    · exact .inl hcommitted
    · rcases List.mem_cons.mp hopen with rfl | hopen
      · exact absurd (h.paths a (List.mem_of_getElem? ha) _ hid) (Nat.lt_irrefl _)
      · exact .inr hopen
  ran := h.ran
  ranOrdered := h.ranOrdered
  ended hran := by
    obtain ⟨hclosed, hopened⟩ := h.ended hran
    exact (hopen.elim hopened fun hscopes ↦ hscopes hclosed).elim

/-- A released savepoint leaves its callbacks where they were in the order. -/
theorem Inv.release (h : Inv s) {inner scope : CommitScope} {scopes : List CommitScope}
    (hscopes : s.scopes = inner :: scope :: scopes) :
    Inv { s with
      scopes := { scope with callbacks := scope.callbacks ++ inner.callbacks } :: scopes
      committed := inner.id :: s.committed } := by
  obtain ⟨hids, hopened, hcommitted, hpaths, hwaiting, hordered, hkept, hran, hranOrdered, hover⟩ := h
  rw [hscopes] at hids hopened hcommitted hwaiting hordered hkept hover
  obtain ⟨hinner, hids⟩ := List.nodup_cons.mp hids
  have hpending : pending (⟨scope.id, scope.callbacks ++ inner.callbacks⟩ :: scopes) =
      pending (inner :: scope :: scopes) := by
    simp only [pending, List.append_assoc]
  have hmono : ∀ id ∈ s.committed, id ∈ inner.id :: s.committed :=
    fun _ hid ↦ List.mem_cons_of_mem _ hid
  obtain ⟨hwaitInner, hwaitScope, hwaiting⟩ := hwaiting
  refine ⟨hids, fun id hid ↦ hopened id (List.mem_cons_of_mem _ hid), ?_, hpaths, ⟨?_, ?_⟩, ?_, ?_,
    ?_, hranOrdered, fun hran ↦ nomatch (hover hran).1⟩
  · intro id hid
    rcases List.mem_cons.mp hid with rfl | hid
    · exact ⟨hopened _ List.mem_cons_self, hinner⟩
    · obtain ⟨hlt, hclosed⟩ := hcommitted id hid
      exact ⟨hlt, fun hmem ↦ hclosed (List.mem_cons_of_mem _ hmem)⟩
  · intro i hi
    rcases List.mem_append.mp hi with hi | hi
    · exact (hwaitScope i hi).mono ⟨[], (List.append_nil s.registered).symm⟩ hmono
    · obtain ⟨a, ha, closed, hpath, hclosed⟩ := hwaitInner i hi
      refine ⟨a, ha, closed ++ [inner.id], ?_, fun id hid ↦ ?_⟩
      · rw [hpath, List.append_assoc]
        rfl
      · rcases List.mem_append.mp hid with hid | hid
        · exact hmono id (hclosed id hid)
        · rw [List.mem_singleton.mp hid]
          exact List.mem_cons_self
  · exact hwaiting.mono ⟨[], (List.append_nil s.registered).symm⟩ hmono
  · rw [hpending]
    exact hordered
  · intro i a ha hlevels
    rw [hpending]
    refine hkept i a ha fun id hid ↦ ?_
    rcases hlevels id hid with hcommitted | hopen
    · rcases List.mem_cons.mp hcommitted with rfl | hcommitted
      · exact .inr List.mem_cons_self
      · exact .inl hcommitted
    · exact .inr (List.mem_cons_of_mem _ hopen)
  · intro i hi
    obtain ⟨a, ha, hpath⟩ := hran i hi
    exact ⟨a, ha, fun id hid ↦ hmono id (hpath id hid)⟩

/-- A level that ends without a commit drops its callbacks, and no others. -/
theorem Inv.drop (h : Inv s) {inner : CommitScope} {scopes : List CommitScope}
    (hscopes : s.scopes = inner :: scopes) : Inv { s with scopes := scopes } := by
  obtain ⟨hids, hopened, hcommitted, hpaths, hwaiting, hordered, hkept, hran, hranOrdered, hover⟩ := h
  rw [hscopes] at hids hopened hcommitted hwaiting hordered hkept hover
  obtain ⟨hinner, hids⟩ := List.nodup_cons.mp hids
  refine ⟨hids, fun id hid ↦ hopened id (List.mem_cons_of_mem _ hid), fun id hid ↦ ?_, hpaths, ?_, ?_,
    ?_, hran, hranOrdered, fun hran ↦ nomatch (hover hran).1⟩
  · obtain ⟨hlt, hclosed⟩ := hcommitted id hid
    exact ⟨hlt, fun hmem ↦ hclosed (List.mem_cons_of_mem _ hmem)⟩
  · exact hwaiting.2.mono ⟨[], (List.append_nil s.registered).symm⟩ fun _ hid ↦ hid
  · exact (List.pairwise_append.mp hordered).1
  · intro i a ha hlevels
    rcases hkept i a ha fun id hid ↦ (hlevels id hid).imp_right (List.mem_cons_of_mem _) with
      hmem | hran
    · rcases List.mem_append.mp hmem with hmem | hmem
      · exact .inl hmem
      · obtain ⟨b, hb, closed, hpath, -⟩ := hwaiting.1 i hmem
        rw [ha] at hb
        have hin : inner.id ∈ a.path := by
          rw [Option.some.inj hb, hpath]
          exact List.mem_append_right _ List.mem_cons_self
        rcases hlevels _ hin with hcommit | hopen
        · exact absurd List.mem_cons_self (hcommitted _ hcommit).2
        · exact absurd hopen hinner
    · exact .inr hran

/-- The COMMIT of the transaction runs the callbacks that wait in it. -/
theorem Inv.commit (h : Inv s) {scope : CommitScope} (hscopes : s.scopes = [scope]) :
    Inv { s with scopes := [], committed := scope.id :: s.committed, ran := scope.callbacks } := by
  obtain ⟨hids, hopened, hcommitted, hpaths, hwaiting, hordered, hkept, hran, hranOrdered, hover⟩ := h
  rw [hscopes] at hopened hcommitted hwaiting hordered hkept hover
  have hpending : pending [scope] = scope.callbacks := rfl
  rw [hpending] at hordered hkept
  refine ⟨List.nodup_nil, nofun, fun id hid ↦ ⟨?_, List.not_mem_nil⟩, hpaths, trivial, .nil, ?_,
    fun i hi ↦ ?_, hordered, fun _ ↦ ⟨rfl, fun hzero ↦ ?_⟩⟩
  · rcases List.mem_cons.mp hid with rfl | hid
    · exact hopened _ List.mem_cons_self
    · exact (hcommitted id hid).1
  · intro i a ha hlevels
    have hold : ∀ id ∈ a.path, id ∈ s.committed ∨ id ∈ [scope].map CommitScope.id := by
      intro id hid
      rcases hlevels id hid with hid | hid
      · rcases List.mem_cons.mp hid with rfl | hid
        · exact .inr List.mem_cons_self
        · exact .inl hid
      · cases hid
    rcases hkept i a ha hold with hmem | hmem
    · exact .inr hmem
    · exact nomatch (hover (List.ne_nil_of_mem hmem)).1
  · obtain ⟨a, ha, closed, hpath, hclosed⟩ := hwaiting.1 i hi
    refine ⟨a, ha, fun id hid ↦ ?_⟩
    rw [hpath] at hid
    rcases List.mem_append.mp hid with hid | hid
    · exact List.mem_cons_of_mem _ (hclosed id hid)
    · rw [List.mem_singleton.mp hid]
      exact List.mem_cons_self
  · have hlt : scope.id < s.opened := hopened _ List.mem_cons_self
    exact Nat.not_lt_zero _ (Nat.lt_of_lt_of_eq hlt hzero)

theorem Inv.step (h : Inv s) (hstep : step s a = some t) : Inv t := by
  unfold AfterCommit.step at hstep
  split at hstep
  · split_ifs at hstep with hopen
    rw [← Option.some.inj hstep]
    exact h.enter (.inl hopen)
  · split_ifs at hstep with hopen
    rw [← Option.some.inj hstep]
    exact h.enter (.inr hopen)
  · rename_i id
    rw [← Option.some.inj hstep]
    rcases afterCommit_cases s id with hcase | ⟨inner, scope, outer, hscopes, hcase⟩
    · rw [hcase]
      exact h
    · rw [hcase]
      exact h.afterCommit hscopes
  · split at hstep
    · rename_i hscopes
      rw [← Option.some.inj hstep]
      exact h.release hscopes
    · cases hstep
  · split at hstep
    · rename_i hscopes
      rw [← Option.some.inj hstep]
      exact h.drop hscopes
    · cases hstep
  · split at hstep
    · rename_i hscopes
      split_ifs at hstep
      · rw [← Option.some.inj hstep]
        exact h.commit hscopes
      · rw [← Option.some.inj hstep]
        exact h.drop hscopes
    · cases hstep

theorem invariant : system.Invariant Inv where
  initial s hs := by
    rw [show s = ⟨0, [], [], [], []⟩ from hs]
    exact ⟨.nil, nofun, nofun, nofun, trivial, .nil, nofun, nofun, .nil, nofun⟩
  step _ _ _ h hstep := h.step hstep

end Steps

/-- A callback runs exactly once if every level it was registered in was committed, its own and each
around it, and never otherwise. The callbacks that run do so in the order in which they were
registered, except that one registered on a level while a savepoint inside that level was open runs
before the callbacks that the savepoint then held. -/
theorem callbacks_run {s : State} (h : system.Reachable s) :
    (∀ i a, s.registered[i]? = some a →
      s.ran.count i = if ∀ id ∈ a.path, id ∈ s.committed then 1 else 0) ∧
      (∀ i ∈ s.ran, i < s.registered.length) ∧ s.ran.Pairwise (Precedes s.registered) := by
  have hinv : Inv s := invariant.reachable h
  have hnodup : s.ran.Nodup := hinv.ranOrdered.imp fun hprecedes heq ↦ by
    subst heq
    rcases hprecedes with ⟨hlt, -⟩ | ⟨hlt, -⟩ <;> exact Nat.lt_irrefl _ hlt
  refine ⟨fun i a ha ↦ ?_, fun i hi ↦ ?_, hinv.ranOrdered⟩
  · have hiff : i ∈ s.ran ↔ ∀ id ∈ a.path, id ∈ s.committed := by
      constructor
      · intro hi
        obtain ⟨b, hb, hpath⟩ := hinv.ran i hi
        rw [Option.some.inj (ha.symm.trans hb)]
        exact hpath
      · intro hpath
        refine (hinv.kept i a ha fun id hid ↦ .inl (hpath id hid)).resolve_left fun hmem ↦ ?_
        have hwaiting : Waiting s (s.scopes ++ []) := by
          rw [List.append_nil]
          exact hinv.waiting
        obtain ⟨b, hb, id, hopen, hid⟩ := hwaiting.exists_mem_path hmem
        rw [← Option.some.inj (ha.symm.trans hb)] at hid
        exact (hinv.committed id (hpath id hid)).2 hopen
    split_ifs with hpath
    · exact List.count_eq_one_of_mem hnodup (hiff.mpr hpath)
    · exact List.count_eq_zero.mpr fun hi ↦ hpath (hiff.mp hi)
  · obtain ⟨a, ha, -⟩ := hinv.ran i hi
    exact (List.getElem?_eq_some_iff.mp ha).1

/-- A callback on the transaction, registered while a savepoint is open, runs before the one that
the savepoint already held. -/
theorem not_run_in_order : ¬ ∀ s, system.Reachable s → s.ran.Pairwise (· < ·) := by
  intro hall
  have hrun : exec step ⟨0, [], [], [], []⟩ [.start, .savepoint, .afterCommit 1, .afterCommit 0,
      .release, .finish .commit] =
      some ⟨2, [], [⟨[1, 0], []⟩, ⟨[0], [1]⟩], [0, 1], [1, 0]⟩ := by decide
  have hstart : system.Reachable ⟨0, [], [], [], []⟩ := .of_initial rfl
  have hordered := hall _ (hstart.run (.of_exec hrun))
  simp at hordered

/-- A released savepoint and one that is rolled back, each with a callback. -/
theorem callbacks_run_nested :
    ∃ s, exec step ⟨0, [], [], [], []⟩ [.start, .afterCommit 0, .savepoint, .afterCommit 1, .release,
        .savepoint, .afterCommit 2, .rollback, .afterCommit 0, .finish .commit] = some s ∧
      s.ran = [0, 1, 3] ∧ s.ran.Pairwise (Precedes s.registered) := by
  have hrun : exec step ⟨0, [], [], [], []⟩ [.start, .afterCommit 0, .savepoint, .afterCommit 1,
      .release, .savepoint, .afterCommit 2, .rollback, .afterCommit 0, .finish .commit] =
      some ⟨3, [], [⟨[0], []⟩, ⟨[1, 0], []⟩, ⟨[2, 0], []⟩, ⟨[0], []⟩], [0, 1], [0, 1, 3]⟩ := by
    decide
  have hstart : system.Reachable ⟨0, [], [], [], []⟩ := .of_initial rfl
  exact ⟨_, hrun, rfl, (callbacks_run (hstart.run (.of_exec hrun))).2.2⟩

end QAuth.Events.AfterCommit
