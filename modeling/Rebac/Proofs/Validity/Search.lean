import Rebac.Proofs.Validity.Cycle

/-!
# The search for cycles without a bound

`Explores` describes the depth-first search with nothing that bounds its depth: a
derivation is a run that has come to an end.  The bound on the depth never cuts a run
short, because a path without repetition leaves room for another relation.  The search
therefore ends on every type, and finds a cycle exactly if there is one.
-/

namespace Rebac.TypeDefinition

/-- What it comes to when a search goes on from a path, which is written backwards, to
some relations in turn. -/
inductive Explores (type : TypeDefinition) :
    List String → List String → List String → Search → Prop where
  | nil {path visited : List String} :
      Explores type path visited [] (.exhausted visited)
  | back {path visited names : List String} {name : String} :
      name ∈ path →
      Explores type path visited (name :: names) (.cycle (name :: path))
  | known {path visited names : List String} {name : String} {outcome : Search} :
      name ∉ path →
      name ∈ visited →
      Explores type path visited names outcome →
      Explores type path visited (name :: names) outcome
  | found {path visited names reversed : List String} {name : String} :
      name ∉ path →
      name ∉ visited →
      Explores type (name :: path) (name :: visited) (type.successors name)
        (.cycle reversed) →
      Explores type path visited (name :: names) (.cycle reversed)
  | left {path visited later names : List String} {name : String} {outcome : Search} :
      name ∉ path →
      name ∉ visited →
      Explores type (name :: path) (name :: visited) (type.successors name)
        (.exhausted later) →
      Explores type path later names outcome →
      Explores type path visited (name :: names) outcome

/-- What it comes to when a search is started from relations in turn. -/
inductive Searches (type : TypeDefinition) :
    List String → List String → Option (String × List String) → Prop where
  | nil {visited : List String} : Searches type visited [] none
  | found {visited roots reversed : List String} {root : String} :
      Explores type [] visited [root] (.cycle reversed) →
      Searches type visited (root :: roots) (some (root, reversed.reverse))
  | next {visited later roots : List String} {root : String}
      {result : Option (String × List String)} :
      Explores type [] visited [root] (.exhausted later) →
      Searches type later roots result →
      Searches type visited (root :: roots) result

variable {type : TypeDefinition}

theorem Explores.unique {path visited names : List String} {first second : Search}
    (explores : type.Explores path visited names first)
    (other : type.Explores path visited names second) : first = second := by
  induction explores generalizing second with
  | nil =>
      cases other with
      | nil => rfl
  | back onPath =>
      cases other with
      | back => rfl
      | known offPath => exact absurd onPath offPath
      | found offPath => exact absurd onPath offPath
      | left offPath => exact absurd onPath offPath
  | known offPath known _ induction =>
      cases other with
      | back onPath => exact absurd onPath offPath
      | known _ _ others => exact induction others
      | found _ fresh => exact absurd known fresh
      | left _ fresh => exact absurd known fresh
  | found offPath fresh _ induction =>
      cases other with
      | back onPath => exact absurd onPath offPath
      | known _ known => exact absurd known fresh
      | found _ _ deeper => exact induction deeper
      | left _ _ deeper => cases induction deeper
  | left offPath fresh _ _ induction inductionOthers =>
      cases other with
      | back onPath => exact absurd onPath offPath
      | known _ known => exact absurd known fresh
      | found _ _ deeper => cases induction deeper
      | left _ _ deeper others =>
          cases induction deeper
          exact inductionOthers others

theorem Searches.unique {visited roots : List String}
    {first second : Option (String × List String)}
    (searches : type.Searches visited roots first)
    (other : type.Searches visited roots second) : first = second := by
  induction searches with
  | nil =>
      cases other with
      | nil => rfl
  | found cycle =>
      cases other with
      | found cycleToo =>
          cases cycle.unique cycleToo
          rfl
      | next exhausted => cases cycle.unique exhausted
  | next exhausted _ induction =>
      cases other with
      | found cycle => cases exhausted.unique cycle
      | next exhaustedToo others =>
          cases exhausted.unique exhaustedToo
          exact induction others

theorem Explores.append {path visited later before after : List String} {outcome : Search}
    (first : type.Explores path visited before (.exhausted later))
    (others : type.Explores path later after outcome) :
    type.Explores path visited (before ++ after) outcome := by
  generalize shape : Search.exhausted later = exhausted at first
  induction first with
  | nil =>
      cases shape
      exact others
  | back => cases shape
  | known offPath known _ induction => exact .known offPath known (induction others shape)
  | found => cases shape
  | left offPath fresh deeper _ _ induction =>
      exact .left offPath fresh deeper (induction others shape)

theorem Explores.append_cycle {path visited before reversed : List String}
    (cycle : type.Explores path visited before (.cycle reversed)) (after : List String) :
    type.Explores path visited (before ++ after) (.cycle reversed) := by
  generalize shape : Search.cycle reversed = found at cycle ⊢
  induction cycle with
  | nil => cases shape
  | back onPath => exact .back onPath
  | known offPath known _ induction => exact .known offPath known (induction shape)
  | found offPath fresh deeper => exact .found offPath fresh deeper
  | left offPath fresh deeper _ _ induction =>
      exact .left offPath fresh deeper (induction shape)

theorem explores_visitAll {steps : Nat} {path : List String}
    (enough : type.relations.length ≤ steps + path.length)
    (visits : ∀ {visited : List String} {name : String},
      type.IsSearching path visited → type.MayVisit path name →
        type.Explores path visited [name] (type.visit steps path visited name))
    {visited names : List String} (searching : type.IsSearching path visited)
    (may : ∀ name ∈ names, type.MayVisit path name) :
    type.Explores path visited names (type.visitAll steps path visited names) := by
  induction names generalizing visited with
  | nil =>
      rw [visitAll]
      exact .nil
  | cons name names induction =>
      have mayFirst := may name List.mem_cons_self
      have mayOthers : ∀ other ∈ names, type.MayVisit path other :=
        fun other member => may other (List.mem_cons_of_mem _ member)
      have first := visits searching mayFirst
      have spec := yields_visit enough searching mayFirst
      rw [visitAll]
      cases outcome : type.visit steps path visited name with
      | cycle reversed =>
          rw [outcome] at first
          exact first.append_cycle names
      | exhausted later =>
          rw [outcome] at first spec
          obtain ⟨searchingLater, _, _⟩ := spec
          exact first.append (induction searchingLater mayOthers)

/-- A visit that may go as deep as there are relations left goes as deep as it needs. -/
theorem explores_visit {steps : Nat} {path visited : List String} {name : String}
    (enough : type.relations.length ≤ steps + path.length)
    (searching : type.IsSearching path visited) (may : type.MayVisit path name) :
    type.Explores path visited [name] (type.visit steps path visited name) := by
  induction steps generalizing path visited name with
  | zero =>
      rw [visit]
      split
      · rename_i repeated
        exact .back (by simpa using repeated)
      · rename_i fresh
        have room := searching.length_lt may (by simpa using fresh)
        omega
  | succ steps induction =>
      rw [visit]
      split
      · rename_i repeated
        exact .back (by simpa using repeated)
      · rename_i fresh
        have outside : name ∉ path := by simpa using fresh
        split
        · rename_i known
          exact .known outside (by simpa using known) .nil
        · rename_i unknown
          have unvisited : name ∉ visited := by simpa using unknown
          have enoughLeft : type.relations.length ≤ steps + (name :: path).length := by
            rw [List.length_cons]
            omega
          have deeper := explores_visitAll enoughLeft (induction enoughLeft)
            (searching.enter may outside)
            fun reference member => may.next (mem_successors_iff.mp member)
          cases outcome : type.visitAll steps (name :: path) (name :: visited)
              (type.successors name) with
          | cycle reversed =>
              rw [outcome] at deeper
              exact .found outside unvisited deeper
          | exhausted later =>
              rw [outcome] at deeper
              exact .left outside unvisited deeper .nil

theorem searches_searchFrom {visited roots : List String}
    (searching : type.IsSearching [] visited)
    (defined : ∀ root ∈ roots, root ∈ type.relationNames) :
    type.Searches visited roots (type.searchFrom visited roots) := by
  induction roots generalizing visited with
  | nil => exact .nil
  | cons root roots induction =>
      have may : type.MayVisit [] root :=
        ⟨List.isChain_singleton root, defined root List.mem_cons_self⟩
      have enough := Nat.le_add_right type.relations.length ([] : List String).length
      have first := explores_visit enough searching may
      have spec := yields_visit enough searching may
      rw [searchFrom]
      cases outcome : type.visit type.relations.length [] visited root with
      | cycle reversed =>
          rw [outcome] at first
          exact .found first
      | exhausted later =>
          rw [outcome] at first spec
          obtain ⟨searchingLater, _, _⟩ := spec
          exact .next first (induction searchingLater
            fun other member => defined other (List.mem_cons_of_mem _ member))

/-- The search ends, and what it comes to is what the bounded search finds. -/
theorem searches_iff {result : Option (String × List String)} :
    type.Searches [] type.relationNames result ↔ type.cycle? = result := by
  have run : type.Searches [] type.relationNames type.cycle? :=
    searches_searchFrom type.isSearching_start fun _ member => member
  constructor
  · intro other
    exact run.unique other
  · intro same
    rwa [same] at run

theorem mem_relationNames_of_transGen {name : String}
    (cycle : Relation.TransGen type.Refers name name) : name ∈ type.relationNames := by
  obtain ⟨_, _, _, _, _, defined⟩ := Relation.TransGen.tail'_iff.mp cycle
  exact defined

theorem cycle?_eq_none_iff_acyclic :
    type.cycle? = none ↔ ∀ name, ¬ Relation.TransGen type.Refers name name := by
  rw [cycle?_eq_none_iff]
  constructor
  · intro unreached name cycle
    exact unreached name (mem_relationNames_of_transGen cycle) ⟨name, .refl, cycle⟩
  · intro acyclic name _ reaches
    obtain ⟨turn, _, cycle⟩ := reaches
    exact acyclic turn cycle

/-- A walk along references from a relation that ends as soon as it comes back to a
relation on it. -/
structure IsWalkIntoCycle (type : TypeDefinition) (root : String)
    (walk : List String) : Prop where
  starts : walk.head? = some root
  edges : walk.IsChain type.Refers
  returns : ∃ front last, walk = front ++ [last] ∧ last ∈ front ∧ front.Nodup

theorem IsCycleWalk.isWalkIntoCycle {root : String} {walk : List String}
    (cycle : type.IsCycleWalk walk.reverse) (starts : walk.head? = some root) :
    type.IsWalkIntoCycle root walk := by
  obtain ⟨edges, last, rest, shape, again, distinct⟩ := cycle
  constructor
  · exact starts
  · exact List.isChain_reverse.mp edges
  · refine ⟨rest.reverse, last, ?_, List.mem_reverse.mpr again,
      (List.reverse_perm rest).nodup_iff.mpr distinct⟩
    rw [← List.reverse_reverse walk, shape, List.reverse_cons]

/-- The search for a cycle ends on every type.  It finds none exactly if no relation
refers to itself, directly or through others; what it finds otherwise is a walk into a
cycle. -/
theorem cycle?_exact (type : TypeDefinition) :
    (∀ result, type.Searches [] type.relationNames result ↔ type.cycle? = result) ∧
      (type.cycle? = none ↔ ∀ name, ¬ Relation.TransGen type.Refers name name) ∧
        ∀ root walk, type.cycle? = some (root, walk) → type.IsWalkIntoCycle root walk := by
  refine ⟨fun _ => searches_iff, cycle?_eq_none_iff_acyclic, ?_⟩
  intro root walk found
  obtain ⟨cycle, starts, _⟩ := isCycleRoot_of_cycle? found
  exact cycle.isWalkIntoCycle starts

/-- A type with a relation that is defined twice.  Only its last definition closes a
cycle, behind a relation that is left and one that is not defined. -/
def redefined : TypeDefinition :=
  { name := "doc"
    relations := [
      { name := "owner", rule := .through "parent" "owner", userTypes := [] },
      { name := "editor", rule := .computed "owner", userTypes := [] },
      { name := "viewer", rule := .union [.computed "owner", .computed "editor"]
        userTypes := [] },
      { name := "editor"
        rule := .union [.computed "owner", .computed "auditor", .computed "viewer"]
        userTypes := [] }] }

theorem cycle?_exact_redefined :
    redefined.cycle? = some ("editor", ["editor", "viewer", "editor"]) ∧
      redefined.IsWalkIntoCycle "editor" ["editor", "viewer", "editor"] := by
  have found : redefined.cycle? = some ("editor", ["editor", "viewer", "editor"]) := by
    simp [redefined, cycle?, searchFrom, visit, visitAll, successors, references,
      relationNames, Rule.references, Rule.referencesList]
  obtain ⟨_, _, walks⟩ := cycle?_exact redefined
  exact ⟨found, walks _ _ found⟩

end Rebac.TypeDefinition
