import Mathlib.Data.List.Chain
import Rebac.Proofs.Validity.Rules

/-!
# Cycles among the relations of a type

A relation refers to the relations that the last definition of its name computes
from.  The search finds a cycle exactly if one is reached from some relation.
What carries the induction is that every relation that has been visited and left
again reaches no cycle.
-/

namespace Rebac

namespace Rule

mutual

theorem mem_references_iff (rule : Rule) (reference : String) :
    reference ∈ rule.references ↔ .computed reference ∈ rule.nodes := by
  cases rule with
  | union children =>
      rw [references, nodes, mem_referencesList_iff children reference, List.mem_cons]
      constructor
      · exact Or.inr
      · rintro (equal | member)
        · cases equal
        · exact member
  | direct => simp [references, nodes]
  | computed relation => simp [references, nodes]
  | through tupleset relation => simp [references, nodes]

theorem mem_referencesList_iff (rules : List Rule) (reference : String) :
    reference ∈ referencesList rules ↔ .computed reference ∈ nodesList rules := by
  cases rules with
  | nil => simp [referencesList, nodesList]
  | cons rule rules =>
      rw [referencesList, nodesList, List.mem_append, List.mem_append,
        mem_references_iff rule reference, mem_referencesList_iff rules reference]

end

end Rule

namespace TypeDefinition

variable {type : TypeDefinition}

/-- Whether the last definition of a relation computes from a relation of the
type. -/
def Refers (type : TypeDefinition) (name reference : String) : Prop :=
  ∃ relation, FirstNamed (·.name) type.relations.reverse name relation ∧
    .computed reference ∈ relation.rule.nodes ∧ reference ∈ type.relationNames

/-- Whether references lead from a relation to one that refers to itself, directly
or through others. -/
def ReachesCycle (type : TypeDefinition) (name : String) : Prop :=
  ∃ turn, Relation.ReflTransGen type.Refers name turn ∧ Relation.TransGen type.Refers turn turn

/-- The first relation, in declaration order, that reaches a cycle. -/
def IsCycleRoot (type : TypeDefinition) (name : String) : Prop :=
  ∃ before after, type.relationNames = before ++ name :: after ∧
    type.ReachesCycle name ∧ ∀ other ∈ before, ¬ type.ReachesCycle other

theorem mem_successors_iff {name reference : String} :
    reference ∈ type.successors name ↔ type.Refers name reference := by
  simp only [successors, List.mem_filter, List.contains_iff_mem, references, Refers]
  cases found : type.relations.reverse.find? (·.name = name) with
  | none =>
      constructor
      · rintro ⟨member, _⟩
        cases member
      · rintro ⟨relation, first, _⟩
        rw [find?_eq_some_iff_firstNamed.mpr first] at found
        cases found
  | some last =>
      constructor
      · rintro ⟨member, defined⟩
        exact ⟨last, find?_eq_some_iff_firstNamed.mp found,
          (Rule.mem_references_iff _ _).mp member, defined⟩
      · rintro ⟨relation, first, member, defined⟩
        rw [find?_eq_some_iff_firstNamed.mpr first] at found
        obtain rfl := Option.some.inj found
        exact ⟨(Rule.mem_references_iff _ _).mpr member, defined⟩

theorem ReachesCycle.exists_refers {name : String} (reaches : type.ReachesCycle name) :
    ∃ reference, type.Refers name reference ∧ type.ReachesCycle reference := by
  obtain ⟨turn, walk, cycle⟩ := reaches
  rcases walk.cases_head with rfl | ⟨reference, step, rest⟩
  · obtain ⟨reference, step, rest⟩ := Relation.TransGen.head'_iff.mp cycle
    exact ⟨reference, step, name, rest, cycle⟩
  · exact ⟨reference, step, turn, rest, cycle⟩

/-- A walk along references that ends with its first repetition, written
backwards. -/
structure IsCycleWalk (type : TypeDefinition) (reversed : List String) : Prop where
  edges : reversed.IsChain fun later earlier => type.Refers earlier later
  repeats : ∃ last rest, reversed = last :: rest ∧ last ∈ rest ∧ rest.Nodup

theorem transGen_of_isChain {last earlier : String} {rest : List String}
    (edges : (last :: rest).IsChain fun later earlier => type.Refers earlier later)
    (member : earlier ∈ rest) : Relation.TransGen type.Refers earlier last := by
  induction rest generalizing last with
  | nil => cases member
  | cons previous rest induction =>
      obtain ⟨step, edges⟩ := List.isChain_cons_cons.mp edges
      rcases List.mem_cons.mp member with rfl | inTail
      · exact .single step
      · exact .tail (induction edges inTail) step

theorem IsCycleWalk.reachesCycle {reversed : List String}
    (walk : type.IsCycleWalk reversed) {name : String} (member : name ∈ reversed) :
    type.ReachesCycle name := by
  obtain ⟨edges, last, rest, rfl, again, _⟩ := walk
  have cycle := transGen_of_isChain edges again
  rcases List.mem_cons.mp member with rfl | earlier
  · exact ⟨name, .refl, cycle⟩
  · exact ⟨last, (transGen_of_isChain edges earlier).to_reflTransGen, cycle⟩

/-- The state of a search: its path is a walk without repetition, and what has been
visited and left again reaches no cycle. -/
structure IsSearching (type : TypeDefinition) (path visited : List String) : Prop where
  edges : path.IsChain fun later earlier => type.Refers earlier later
  distinct : path.Nodup
  defined : ∀ name ∈ path, name ∈ type.relationNames
  opened : ∀ name ∈ path, name ∈ visited
  left : ∀ name ∈ visited, name ∉ path → ¬ type.ReachesCycle name

/-- What a search yields that goes on from a path to some relations: a walk into a
cycle that extends a given one, or a state in which these relations are left. -/
def Yields (type : TypeDefinition) (start path visited names : List String) :
    Search → Prop
  | .cycle reversed => type.IsCycleWalk reversed ∧ start <:+ reversed
  | .exhausted later => type.IsSearching path later ∧ visited ⊆ later ∧
      ∀ name ∈ names, name ∈ later ∧ name ∉ path

/-- Whether a search may go on from a path to a relation. -/
structure MayVisit (type : TypeDefinition) (path : List String) (name : String) :
    Prop where
  edges : (name :: path).IsChain fun later earlier => type.Refers earlier later
  defined : name ∈ type.relationNames

section

variable {path visited : List String} {name : String}

theorem IsSearching.enter (searching : type.IsSearching path visited)
    (may : type.MayVisit path name) (fresh : name ∉ path) :
    type.IsSearching (name :: path) (name :: visited) := by
  constructor
  · exact may.edges
  · exact List.nodup_cons.mpr ⟨fresh, searching.distinct⟩
  · intro other member
    rcases List.mem_cons.mp member with rfl | earlier
    · exact may.defined
    · exact searching.defined other earlier
  · intro other member
    rcases List.mem_cons.mp member with rfl | earlier
    · exact List.mem_cons_self
    · exact List.mem_cons_of_mem _ (searching.opened other earlier)
  · intro other member outside
    simp only [List.mem_cons, not_or] at outside
    rcases List.mem_cons.mp member with rfl | earlier
    · exact absurd rfl outside.1
    · exact searching.left other earlier outside.2

theorem IsSearching.leave (searching : type.IsSearching (name :: path) visited)
    (left : ∀ reference ∈ type.successors name,
      reference ∈ visited ∧ reference ∉ name :: path) :
    type.IsSearching path visited := by
  constructor
  · exact searching.edges.of_cons
  · exact (List.nodup_cons.mp searching.distinct).2
  · exact fun other member => searching.defined other (List.mem_cons_of_mem _ member)
  · exact fun other member => searching.opened other (List.mem_cons_of_mem _ member)
  · intro other member outside
    by_cases same : other = name
    · subst same
      intro reaches
      obtain ⟨reference, refers, reachesToo⟩ := reaches.exists_refers
      obtain ⟨known, absent⟩ := left reference (mem_successors_iff.mpr refers)
      exact searching.left reference known absent reachesToo
    · apply searching.left other member
      simp [same, outside]

theorem MayVisit.next (may : type.MayVisit path name) {reference : String}
    (refers : type.Refers name reference) : type.MayVisit (name :: path) reference := by
  constructor
  · exact List.isChain_cons_cons.mpr ⟨refers, may.edges⟩
  · obtain ⟨_, _, _, defined⟩ := refers
    exact defined

theorem yields_of_mem (searching : type.IsSearching path visited)
    (may : type.MayVisit path name) (repeated : name ∈ path) :
    type.Yields (name :: path) path visited [name] (.cycle (name :: path)) := by
  constructor
  · exact ⟨may.edges, name, path, rfl, repeated, searching.distinct⟩
  · exact List.suffix_refl _

theorem IsSearching.length_lt (searching : type.IsSearching path visited)
    (may : type.MayVisit path name) (fresh : name ∉ path) :
    path.length < type.relations.length := by
  have entered := searching.enter may fresh
  have bound : (name :: path).length ≤ type.relationNames.length :=
    entered.distinct.length_le_of_subset entered.defined
  rwa [relationNames, List.length_map] at bound

end

theorem yields_visitAll {steps : Nat} {path : List String}
    (visits : ∀ {visited : List String} {name : String},
      type.IsSearching path visited → type.MayVisit path name →
        type.Yields (name :: path) path visited [name]
          (type.visit steps path visited name))
    {visited names : List String} (searching : type.IsSearching path visited)
    (may : ∀ name ∈ names, type.MayVisit path name) :
    type.Yields path path visited names (type.visitAll steps path visited names) := by
  induction names generalizing visited with
  | nil =>
      rw [visitAll]
      exact ⟨searching, List.Subset.refl _, List.forall_mem_nil _⟩
  | cons name names induction =>
      have first := visits searching (may name List.mem_cons_self)
      rw [visitAll]
      cases outcome : type.visit steps path visited name with
      | cycle reversed =>
          rw [outcome] at first
          obtain ⟨walk, extended⟩ := first
          exact ⟨walk, (List.suffix_cons name path).trans extended⟩
      | exhausted later =>
          rw [outcome] at first
          obtain ⟨searching', kept, visitedFirst⟩ := first
          have others := induction searching'
            fun other member => may other (List.mem_cons_of_mem _ member)
          simp only
          cases rest : type.visitAll steps path later names with
          | cycle reversed =>
              rw [rest] at others
              exact others
          | exhausted final =>
              rw [rest] at others
              obtain ⟨searching'', keptToo, visitedOthers⟩ := others
              refine ⟨searching'', fun _ known => keptToo (kept known), ?_⟩
              intro other member
              rcases List.mem_cons.mp member with rfl | inTail
              · obtain ⟨known, outside⟩ := visitedFirst other List.mem_cons_self
                exact ⟨keptToo known, outside⟩
              · exact visitedOthers other inTail

/-- Visiting a relation finds a cycle or leaves the relation. -/
theorem yields_visit {steps : Nat} {path visited : List String} {name : String}
    (enough : type.relations.length ≤ steps + path.length)
    (searching : type.IsSearching path visited) (may : type.MayVisit path name) :
    type.Yields (name :: path) path visited [name]
      (type.visit steps path visited name) := by
  induction steps generalizing path visited name with
  | zero =>
      rw [visit]
      split
      · rename_i repeated
        exact yields_of_mem searching may (by simpa using repeated)
      · rename_i fresh
        have room := searching.length_lt may (by simpa using fresh)
        omega
  | succ steps induction =>
      rw [visit]
      split
      · rename_i repeated
        exact yields_of_mem searching may (by simpa using repeated)
      · rename_i fresh
        have outside : name ∉ path := by simpa using fresh
        split
        · rename_i known
          refine ⟨searching, List.Subset.refl _, ?_⟩
          intro other member
          obtain rfl := List.mem_singleton.mp member
          exact ⟨by simpa using known, outside⟩
        · have enoughLeft : type.relations.length ≤ steps + (name :: path).length := by
            rw [List.length_cons]
            omega
          have deeper := yields_visitAll (induction enoughLeft)
            (searching.enter may outside)
            fun reference member => may.next (mem_successors_iff.mp member)
          cases outcome : type.visitAll steps (name :: path) (name :: visited)
              (type.successors name) with
          | cycle reversed =>
              rw [outcome] at deeper
              exact deeper
          | exhausted later =>
              rw [outcome] at deeper
              obtain ⟨searching', kept, left⟩ := deeper
              refine ⟨searching'.leave left,
                fun other member => kept (List.mem_cons_of_mem _ member), ?_⟩
              intro other member
              obtain rfl := List.mem_singleton.mp member
              exact ⟨kept List.mem_cons_self, outside⟩

/-- What the search from some relations finds, if those before them reach no
cycle. -/
theorem searchFrom_spec {visited roots : List String}
    (searching : type.IsSearching [] visited)
    (defined : ∀ root ∈ roots, root ∈ type.relationNames) :
    match type.searchFrom visited roots with
    | none => ∀ root ∈ roots, ¬ type.ReachesCycle root
    | some (root, walk) => type.IsCycleWalk walk.reverse ∧ walk.head? = some root ∧
        ∃ before after, roots = before ++ root :: after ∧
          ∀ other ∈ before, ¬ type.ReachesCycle other := by
  induction roots generalizing visited with
  | nil => exact List.forall_mem_nil _
  | cons root roots induction =>
      have may : type.MayVisit [] root :=
        ⟨List.isChain_singleton root, defined root List.mem_cons_self⟩
      have first := yields_visit (Nat.le_add_right _ _) searching may
      rw [searchFrom]
      cases outcome : type.visit type.relations.length [] visited root with
      | cycle reversed =>
          rw [outcome] at first
          obtain ⟨walk, before, rfl⟩ := first
          simp only
          refine ⟨by rwa [List.reverse_reverse], ?_, [], roots, rfl, List.forall_mem_nil _⟩
          rw [List.reverse_append]
          rfl
      | exhausted later =>
          rw [outcome] at first
          obtain ⟨searching', kept, left⟩ := first
          obtain ⟨known, outside⟩ := left root List.mem_cons_self
          have acyclic := searching'.left root known outside
          have others := induction searching'
            fun other member => defined other (List.mem_cons_of_mem _ member)
          simp only
          cases found : type.searchFrom later roots with
          | none =>
              rw [found] at others
              exact List.forall_mem_cons.mpr ⟨acyclic, others⟩
          | some result =>
              rw [found] at others
              obtain ⟨walk, starts, before, after, split, earlier⟩ := others
              exact ⟨walk, starts, root :: before, after, by rw [split]; rfl,
                List.forall_mem_cons.mpr ⟨acyclic, earlier⟩⟩

theorem IsCycleRoot.mem {name : String} (root : type.IsCycleRoot name) :
    name ∈ type.relationNames := by
  obtain ⟨before, after, split, _⟩ := root
  rw [split]
  exact List.mem_append_right _ List.mem_cons_self

theorem IsCycleRoot.reachesCycle {name : String} (root : type.IsCycleRoot name) :
    type.ReachesCycle name := by
  obtain ⟨_, _, _, reaches, _⟩ := root
  exact reaches

theorem isSearching_start (type : TypeDefinition) : type.IsSearching [] [] := by
  constructor
  · exact List.isChain_nil
  · exact List.nodup_nil
  · exact List.forall_mem_nil _
  · exact List.forall_mem_nil _
  · exact fun name member => absurd member List.not_mem_nil

/-- The walk that the search finds starts at the first relation that reaches a
cycle. -/
theorem isCycleRoot_of_cycle? {name : String} {walk : List String}
    (found : type.cycle? = some (name, walk)) :
    type.IsCycleWalk walk.reverse ∧ walk.head? = some name ∧ type.IsCycleRoot name := by
  have spec := searchFrom_spec type.isSearching_start fun _ member => member
  rw [cycle?] at found
  rw [found] at spec
  obtain ⟨cycle, start, before, after, split, earlier⟩ := spec
  have reached : name ∈ walk.reverse :=
    List.mem_reverse.mpr (List.mem_of_head? start)
  exact ⟨cycle, start, before, after, split, cycle.reachesCycle reached, earlier⟩

theorem cycle?_eq_none_iff :
    type.cycle? = none ↔ ∀ name ∈ type.relationNames, ¬ type.ReachesCycle name := by
  constructor
  · intro exhausted
    have spec := searchFrom_spec type.isSearching_start fun _ member => member
    rw [cycle?] at exhausted
    rw [exhausted] at spec
    exact spec
  · intro acyclic
    cases found : type.cycle? with
    | none => rfl
    | some result =>
        obtain ⟨_, _, root⟩ := isCycleRoot_of_cycle? found
        exact absurd root.reachesCycle (acyclic _ root.mem)

/-- Cycles have one root at most. -/
theorem IsCycleRoot.unique {name other : String} (root : type.IsCycleRoot name)
    (otherRoot : type.IsCycleRoot other) : name = other := by
  classical
  have first : ∀ candidate, type.IsCycleRoot candidate →
      type.relationNames.find? (fun name => decide (type.ReachesCycle name)) =
        some candidate := by
    rintro candidate ⟨before, after, split, reaches, earlier⟩
    apply List.find?_eq_some_iff_append.mpr
    refine ⟨decide_eq_true reaches, before, after, split, ?_⟩
    intro name member
    simpa using earlier name member
  have same := (first name root).symm.trans (first other otherRoot)
  exact Option.some.inj same

theorem exists_cycle?_iff {name : String} :
    (∃ walk, type.cycle? = some (name, walk)) ↔ type.IsCycleRoot name := by
  constructor
  · rintro ⟨walk, found⟩
    exact (isCycleRoot_of_cycle? found).2.2
  · intro root
    cases found : type.cycle? with
    | none =>
        exact absurd root.reachesCycle (cycle?_eq_none_iff.mp found name root.mem)
    | some result =>
        obtain ⟨other, walk⟩ := result
        obtain rfl := root.unique (isCycleRoot_of_cycle? found).2.2
        exact ⟨walk, rfl⟩

end TypeDefinition

end Rebac
