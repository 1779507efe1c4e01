import Rebac.Condition.Expression

/-!
# Names that an expression may use

A name needs no declaration where it is a member, a constant or a called builtin.  Any
other use has to be of a parameter or of a name that some comprehension binds.  The check
finds exactly the leftmost use for which this is not so.
-/

namespace Rebac.Expression

/-- A name that needs no declaration between some tokens: a member, a constant, or a
builtin that is called. -/
inductive IsFixed (before : List Token) (name : List Char) (after : List Token) : Prop where
  | member : before.getLast? = some .dot → IsFixed before name after
  | constant : name ∈ constantWords → IsFixed before name after
  | call : name ∈ builtins → after.head? = some (.opening .round) →
      IsFixed before name after

/-- Whether a comprehension among the tokens binds a name. -/
def Binds (tokens : List Token) (name : List Char) : Prop :=
  ∃ front binder back, binder ∈ binders ∧
    tokens = front ++ .dot :: .name binder :: .opening .round :: .name name :: .comma :: back

/-- A name that is a parameter or is bound by some comprehension. -/
def IsDeclared (parameters : List String) (tokens : List Token) (name : List Char) : Prop :=
  String.ofList name ∈ parameters ∨ Binds tokens name

/-- Each name is fixed where it is used, or it is declared. -/
def NamesAreKnown (parameters : List String) (tokens : List Token) : Prop :=
  ∀ before name after, tokens = before ++ .name name :: after →
    IsFixed before name after ∨ IsDeclared parameters tokens name

/-- The leftmost name that is neither fixed where it is used nor declared. -/
def FirstUnknown (parameters : List String) (tokens : List Token) (name : List Char) : Prop :=
  ∃ before after, tokens = before ++ .name name :: after ∧
    (¬IsFixed before name after ∧ ¬IsDeclared parameters tokens name) ∧
      ∀ front other between, before = front ++ .name other :: between →
        IsFixed front other (between ++ .name name :: after) ∨
          IsDeclared parameters tokens other

theorem boundName?_eq_some_iff {tokens : List Token} {name : List Char} :
    boundName? tokens = some name ↔
      ∃ binder back, binder ∈ binders ∧
        tokens = .dot :: .name binder :: .opening .round :: .name name :: .comma :: back := by
  constructor
  · intro found
    unfold boundName? at found
    split at found
    · rename_i binder bound back
      split at found
      · rename_i known
        obtain rfl := Option.some.inj found
        exact ⟨binder, back, List.contains_iff_mem.mp known, rfl⟩
      · cases found
    · cases found
  · intro calls
    obtain ⟨binder, back, known, rfl⟩ := calls
    rw [boundName?, if_pos (List.contains_iff_mem.mpr known)]

theorem mem_boundNames_iff {tokens : List Token} {name : List Char} :
    name ∈ boundNames tokens ↔ Binds tokens name := by
  induction tokens with
  | nil =>
      constructor
      · intro member
        cases member
      · intro binds
        obtain ⟨front, binder, back, _, shape⟩ := binds
        simp at shape
  | cons token rest induction =>
      rw [boundNames, List.mem_append, Option.mem_toList, induction]
      constructor
      · intro member
        rcases member with first | ⟨front, binder, back, known, shape⟩
        · obtain ⟨binder, back, known, shape⟩ := boundName?_eq_some_iff.mp first
          exact ⟨[], binder, back, known, shape⟩
        · exact ⟨token :: front, binder, back, known, by rw [shape, List.cons_append]⟩
      · intro binds
        obtain ⟨front, binder, back, known, shape⟩ := binds
        cases front with
        | nil => exact .inl (boundName?_eq_some_iff.mpr ⟨binder, back, known, shape⟩)
        | cons first front => exact .inr ⟨front, binder, back, known, (List.cons.inj shape).2⟩

/-- A name that is fixed where it is used, or one of some names. -/
def IsKnown (declared : List (List Char)) (before : List Token) (name : List Char)
    (after : List Token) : Prop :=
  IsFixed before name after ∨ name ∈ declared

theorem opensCall_iff {tokens : List Token} :
    opensCall tokens = true ↔ tokens.head? = some (.opening .round) := by
  unfold opensCall
  split
  · simp
  · rename_i other
    cases tokens with
    | nil => simp
    | cons token rest =>
        have different : token ≠ .opening .round := fun same => other rest (by rw [same])
        simpa using different

section Search

variable {declared : List (List Char)}

theorem isKnown_iff {before after : List Token} {name : List Char} :
    IsKnown declared before name after ↔
      (decide (before.getLast? = some .dot) || constantWords.contains name ||
        (opensCall after && builtins.contains name) || declared.contains name) = true := by
  simp only [Bool.or_eq_true, Bool.and_eq_true, decide_eq_true_eq, List.contains_iff_mem,
    opensCall_iff]
  constructor
  · intro known
    rcases known with fixed | member
    · cases fixed with
      | member behindDot => exact .inl (.inl (.inl behindDot))
      | constant constant => exact .inl (.inl (.inr constant))
      | call builtin opens => exact .inl (.inr ⟨opens, builtin⟩)
    · exact .inr member
  · intro known
    rcases known with ((behindDot | constant) | ⟨opens, builtin⟩) | member
    · exact .inl (.member behindDot)
    · exact .inl (.constant constant)
    · exact .inl (.call builtin opens)
    · exact .inr member

theorem undeclared?_name {before rest : List Token} {name : List Char} :
    undeclared? declared (decide (before.getLast? = some .dot)) (.name name :: rest) =
      if (decide (before.getLast? = some .dot) || constantWords.contains name ||
          (opensCall rest && builtins.contains name) || declared.contains name) = true then
        undeclared? declared (decide ((before ++ [Token.name name]).getLast? = some .dot)) rest
      else some name := by
  rw [undeclared?, List.getLast?_concat]
  simp

theorem undeclared?_other {before rest : List Token} {token : Token}
    (noName : ∀ name, token ≠ .name name) :
    undeclared? declared (decide (before.getLast? = some .dot)) (token :: rest) =
      undeclared? declared (decide ((before ++ [token]).getLast? = some .dot)) rest := by
  rw [List.getLast?_concat]
  cases token with
  | name name => exact absurd rfl (noName name)
  | dot => simp [undeclared?]
  | _ => simp [undeclared?]

/-- What the search for undeclared names may say about tokens behind some others: all their
names are known, or this is the leftmost one that is not. -/
def Judges (declared : List (List Char)) (before rest : List Token) :
    Option (List Char) → Prop
  | none => ∀ front name back, rest = front ++ .name name :: back →
      IsKnown declared (before ++ front) name back
  | some name => ∃ front back, rest = front ++ .name name :: back ∧
      ¬IsKnown declared (before ++ front) name back ∧
        ∀ first other between, front = first ++ .name other :: between →
          IsKnown declared (before ++ first) other (between ++ .name name :: back)

theorem Judges.cons {before rest : List Token} {token : Token} {found : Option (List Char)}
    (judges : Judges declared (before ++ [token]) rest found)
    (known : ∀ name, token = .name name → IsKnown declared before name rest) :
    Judges declared before (token :: rest) found := by
  cases found with
  | none =>
      intro front name back shape
      cases front with
      | nil =>
          obtain ⟨same, rfl⟩ := List.cons.inj shape
          rw [List.append_nil]
          exact known name same
      | cons first front =>
          obtain ⟨rfl, tail⟩ := List.cons.inj shape
          have behind := judges front name back tail
          rwa [List.append_assoc, List.singleton_append] at behind
  | some name =>
      obtain ⟨front, back, rfl, unknown, earlier⟩ := judges
      rw [List.append_assoc, List.singleton_append] at unknown
      refine ⟨token :: front, back, rfl, unknown, ?_⟩
      intro first other between shape
      cases first with
      | nil =>
          obtain ⟨same, rfl⟩ := List.cons.inj shape
          rw [List.append_nil]
          exact known other same
      | cons second first =>
          obtain ⟨rfl, tail⟩ := List.cons.inj shape
          have behind := earlier first other between tail
          rwa [List.append_assoc, List.singleton_append] at behind

theorem judges_undeclared? (declared : List (List Char)) (before rest : List Token) :
    Judges declared before rest
      (undeclared? declared (decide (before.getLast? = some .dot)) rest) := by
  induction rest generalizing before with
  | nil =>
      intro front name back shape
      simp at shape
  | cons token rest induction =>
      cases token with
      | name name =>
          rw [undeclared?_name]
          by_cases known : IsKnown declared before name rest
          · rw [if_pos (isKnown_iff.mp known)]
            apply (induction (before ++ [.name name])).cons
            intro other same
            obtain rfl := Token.name.inj same
            exact known
          · rw [if_neg fun holds => known (isKnown_iff.mpr holds)]
            refine ⟨[], rest, rfl, ?_, ?_⟩
            · rwa [List.append_nil]
            · intro first other between shape
              simp at shape
      | _ =>
          rw [undeclared?_other (by simp)]
          exact (induction _).cons (by simp)

end Search

theorem mem_declared_iff {parameters : List String} {tokens : List Token}
    {name : List Char} :
    name ∈ parameters.map String.toList ++ boundNames tokens ↔
      IsDeclared parameters tokens name := by
  rw [List.mem_append, mem_boundNames_iff, IsDeclared, List.mem_map]
  have spelled : (∃ parameter ∈ parameters, parameter.toList = name) ↔
      String.ofList name ∈ parameters := by
    constructor
    · intro member
      obtain ⟨parameter, inParameters, rfl⟩ := member
      rwa [String.ofList_toList]
    · intro member
      exact ⟨String.ofList name, member, String.toList_ofList⟩
  rw [spelled]

/-- What the check finds among all tokens of an expression. -/
theorem undeclared?_finds (parameters : List String) (tokens : List Token) :
    match undeclared? (parameters.map String.toList ++ boundNames tokens) false tokens with
    | none => NamesAreKnown parameters tokens
    | some name => FirstUnknown parameters tokens name := by
  have judges := judges_undeclared? (parameters.map String.toList ++ boundNames tokens) [] tokens
  have start : decide (([] : List Token).getLast? = some .dot) = false := rfl
  rw [start] at judges
  cases found : undeclared? (parameters.map String.toList ++ boundNames tokens) false tokens with
  | none =>
      rw [found] at judges
      simp only [Judges, IsKnown, List.nil_append, mem_declared_iff] at judges
      exact judges
  | some name =>
      rw [found] at judges
      simp only [Judges, IsKnown, List.nil_append, mem_declared_iff] at judges
      obtain ⟨before, after, shape, unknown, earlier⟩ := judges
      exact ⟨before, after, shape, not_or.mp unknown, earlier⟩

theorem FirstUnknown.not_namesAreKnown {parameters : List String} {tokens : List Token}
    {name : List Char} (unknown : FirstUnknown parameters tokens name) :
    ¬NamesAreKnown parameters tokens := by
  intro known
  obtain ⟨before, after, shape, notKnown, _⟩ := unknown
  exact not_or.mpr notKnown (known before name after shape)

theorem exists_firstUnknown_iff {parameters : List String} {tokens : List Token} :
    (∃ name, FirstUnknown parameters tokens name) ↔ ¬NamesAreKnown parameters tokens := by
  constructor
  · intro first
    obtain ⟨name, unknown⟩ := first
    exact unknown.not_namesAreKnown
  · intro notKnown
    have finds := undeclared?_finds parameters tokens
    cases found : undeclared? (parameters.map String.toList ++ boundNames tokens) false
        tokens with
    | none =>
        rw [found] at finds
        exact absurd finds notKnown
    | some name =>
        rw [found] at finds
        exact ⟨name, finds⟩

/-- Only one name is the leftmost unknown one. -/
theorem FirstUnknown.unique {parameters : List String} {tokens : List Token}
    {name other : List Char} (unknown : FirstUnknown parameters tokens name)
    (unknownOther : FirstUnknown parameters tokens other) : name = other := by
  -- Of two such names at different places, the right one would have the left one before it.
  obtain ⟨before, after, shape, notKnown, earlier⟩ := unknown
  obtain ⟨beforeOther, afterOther, shapeOther, notKnownOther, earlierOther⟩ := unknownOther
  rcases List.append_eq_append_iff.mp (shape.symm.trans shapeOther) with
    ⟨between, prefixOther, rest⟩ | ⟨between, prefixName, rest⟩
  · cases between with
    | nil => exact Token.name.inj (List.cons.inj rest).1
    | cons first between =>
        obtain ⟨rfl, rfl⟩ := List.cons.inj rest
        exact absurd (earlierOther before name between prefixOther) (not_or.mpr notKnown)
  · cases between with
    | nil => exact Token.name.inj (List.cons.inj rest).1.symm
    | cons first between =>
        obtain ⟨rfl, rfl⟩ := List.cons.inj rest
        exact absurd (earlier beforeOther other between prefixName) (not_or.mpr notKnownOther)

theorem undeclared?_eq_none_iff {parameters : List String} {tokens : List Token} :
    undeclared? (parameters.map String.toList ++ boundNames tokens) false tokens = none ↔
      NamesAreKnown parameters tokens := by
  have finds := undeclared?_finds parameters tokens
  constructor
  · intro found
    rwa [found] at finds
  · intro known
    cases found : undeclared? (parameters.map String.toList ++ boundNames tokens) false
        tokens with
    | none => rfl
    | some name =>
        rw [found] at finds
        exact absurd known finds.not_namesAreKnown

theorem undeclared?_eq_some_iff {parameters : List String} {tokens : List Token}
    {name : List Char} :
    undeclared? (parameters.map String.toList ++ boundNames tokens) false tokens = some name ↔
      FirstUnknown parameters tokens name := by
  have finds := undeclared?_finds parameters tokens
  constructor
  · intro found
    rwa [found] at finds
  · intro unknown
    cases found : undeclared? (parameters.map String.toList ++ boundNames tokens) false
        tokens with
    | none =>
        rw [found] at finds
        exact absurd finds unknown.not_namesAreKnown
    | some other =>
        rw [found] at finds
        rw [finds.unique unknown]

end Rebac.Expression
