import Rebac.Proofs.Condition.Language

/-!
# The scope of comprehensions

A comprehension binds a name in its arguments, but the check looks a name up among all
names that are bound anywhere in the expression.  A use is reported exactly if no
comprehension at all binds its name, so a bound name may be used behind the arguments.
-/

namespace Rebac.Expression

/-- A comprehension among the tokens that binds a name in some arguments. -/
def BindsIn (tokens : List Token) (name : List Char) (arguments : List Token) : Prop :=
  ∃ front binder back, binder ∈ binders ∧
    tokens = front ++ .dot :: .name binder :: .opening .round ::
      (.name name :: .comma :: arguments ++ .closing .round :: back) ∧
    IsDyck (brackets arguments)

/-- A use of a name in the arguments of a comprehension that binds it. -/
def IsScoped (before : List Token) (name : List Char) (after : List Token) : Prop :=
  ∃ front binder inside rest back arguments, binder ∈ binders ∧
    before = front ++ .dot :: .name binder :: .opening .round :: inside ∧
    after = rest ++ .closing .round :: back ∧
    inside ++ .name name :: rest = .name name :: .comma :: arguments ∧
    IsDyck (brackets arguments)

/-- Each name that needs a declaration is a parameter or used in its scope. -/
def UsesAreScoped (parameters : List String) (tokens : List Token) : Prop :=
  ∀ before name after, tokens = before ++ .name name :: after →
    IsFixed before name after ∨ String.ofList name ∈ parameters ∨ IsScoped before name after

theorem Binds.exists_bindsIn {tokens : List Token} {name : List Char}
    (binds : Binds tokens name) (nested : IsDyck (brackets tokens)) :
    ∃ arguments, BindsIn tokens name arguments := by
  obtain ⟨front, binder, back, known, rfl⟩ := binds
  have split : front ++ .dot :: .name binder :: .opening .round :: .name name :: .comma :: back =
      (front ++ [.dot, .name binder]) ++ .opening .round :: .name name :: .comma :: back := by
    simp
  rw [split] at nested
  obtain ⟨inner, behind, shape, dyck⟩ := exists_closing_of_isDyck nested
  cases inner with
  | nil => cases (List.cons.inj shape).1
  | cons first inner =>
      obtain ⟨rfl, tail⟩ := List.cons.inj shape
      cases inner with
      | nil => cases (List.cons.inj tail).1
      | cons second arguments =>
          obtain ⟨rfl, rfl⟩ := List.cons.inj tail
          exact ⟨arguments, front, binder, behind, known, rfl, dyck⟩

theorem not_isScoped_of_not_mem {before after : List Token} {name : List Char}
    (absent : .closing .round ∉ after) : ¬IsScoped before name after := by
  intro inScope
  obtain ⟨_, _, _, rest, back, _, _, _, rfl, _⟩ := inScope
  exact absent (List.mem_append_right rest List.mem_cons_self)

theorem mark?_ne_name {name : List Char} (character : Char) :
    mark? character ≠ some (.name name) := by
  intro mark
  unfold mark? at mark
  split at mark
  all_goals cases mark

theorem Cuts.name_of_mem {text : List Char} {found : List Lexeme} {name : List Char}
    (cuts : Cuts text found) (member : .name name ∈ found.map (·.token)) :
    ∃ character run, name = character :: run ∧ isIdentifierStart character = true ∧
      ∀ other ∈ run, isIdentifierCharacter other = true := by
  induction cuts with
  | nil => cases member
  | blank _ _ induction => exact induction member
  | literal _ _ _ induction => exact induction (by simpa using member)
  | number _ _ _ induction => exact induction (by simpa using member)
  | name start longest _ induction =>
      rcases List.mem_cons.mp member with same | later
      · obtain rfl := Token.name.inj same
        exact ⟨_, _, rfl, start, longest.inside⟩
      · exact induction later
  | operator _ _ _ induction => exact induction (by simpa using member)
  | mark mark _ induction =>
      rcases List.mem_cons.mp member with same | later
      · exact absurd (mark.trans (congrArg some same.symm)) (mark?_ne_name _)
      · exact induction later

theorem HasTokens.conjoin {text : List Char} {tokens : List Token} {name : List Char}
    (has : HasTokens text tokens) (member : .name name ∈ tokens) :
    HasTokens (text ++ (" && ".toList ++ name))
      (tokens ++ [.operator "&&".toList, .name name]) := by
  obtain ⟨found, cuts, rfl⟩ := has
  obtain ⟨character, run, rfl, start, identifier⟩ := cuts.name_of_mem member
  have nameLongest : IsLongest isIdentifierCharacter run [] := ⟨identifier, by simp⟩
  have nameCuts := Cuts.name start nameLongest .nil
  rw [List.append_nil] at nameCuts
  have joinLongest : IsLongest isOperatorCharacter ['&'] (' ' :: character :: run) := by
    constructor
    · intro other member
      obtain rfl := List.mem_singleton.mp member
      rfl
    · intro other first
      obtain rfl : ' ' = other := by simpa using first
      rfl
  have joined := Cuts.operator (by decide : isOperatorCharacter '&' = true) joinLongest
    (.blank (by decide) nameCuts)
  have joinCuts := Cuts.blank (by decide : Text.isBlank ' ' = true) joined
  have ends : EndsRun (" && ".toList ++ character :: run) := endsRun_cons (by decide) _
  exact ⟨_, cuts.append ends joinCuts, by simp⟩

theorem IsFixed.append {before after : List Token} {name : List Char}
    (fixed : IsFixed before name after) (more : List Token) :
    IsFixed before name (after ++ more) := by
  cases fixed with
  | member behindDot => exact .member behindDot
  | constant constant => exact .constant constant
  | call builtin opens =>
      apply IsFixed.call builtin
      rw [List.head?_append, opens]
      rfl

theorem Binds.append {tokens : List Token} {name : List Char} (binds : Binds tokens name)
    (more : List Token) : Binds (tokens ++ more) name := by
  obtain ⟨front, binder, back, known, rfl⟩ := binds
  exact ⟨front, binder, back ++ more, known, by simp⟩

theorem IsDeclared.append {parameters : List String} {tokens : List Token}
    {name : List Char} (declared : IsDeclared parameters tokens name) (more : List Token) :
    IsDeclared parameters (tokens ++ more) name :=
  declared.imp_right fun binds => binds.append more

theorem NamesAreKnown.conjoin {parameters : List String} {tokens : List Token}
    {name : List Char} (known : NamesAreKnown parameters tokens)
    (declared : IsDeclared parameters tokens name) (run : List Char) :
    NamesAreKnown parameters (tokens ++ [.operator run, .name name]) := by
  intro before other after shape
  rcases List.append_eq_append_iff.mp shape with
    ⟨between, _, rest⟩ | ⟨between, rfl, rest⟩
  · -- The use stands behind the old tokens, where there is only the new name.
    obtain rfl : name = other := by
      have member : Token.name other ∈ [.operator run, .name name] := by simp [rest]
      simpa [eq_comm] using member
    exact .inr (declared.append _)
  · cases between with
    | nil => simp at rest
    | cons first between =>
        obtain ⟨rfl, rfl⟩ := List.cons.inj rest
        rcases known before other between rfl with fixed | declaredOther
        · exact .inl (fixed.append _)
        · exact .inr (declaredOther.append _)

theorem RunsAreSupported.conjoin {tokens : List Token} {run : List Char}
    (supported : RunsAreSupported tokens) (supportedRun : IsSupported run)
    (name : List Char) : RunsAreSupported (tokens ++ [.operator run, .name name]) := by
  intro other member
  rcases List.mem_append.mp member with inTokens | behind
  · exact supported other inTokens
  · obtain rfl : other = run := by simpa using behind
    exact supportedRun

theorem isSupported_and : IsSupported "&&".toList :=
  isOperatorRun_iff.mp (by decide)

/-- A name that is declared in an expression may be used behind it. -/
theorem check_conjoin {parameters : List String} {text : List Char} {tokens : List Token}
    {name : List Char} (accepted : check parameters text = .ok ())
    (has : HasTokens text tokens) (member : .name name ∈ tokens)
    (declared : IsDeclared parameters tokens name) :
    check parameters (text ++ (" && ".toList ++ name)) = .ok () := by
  have expression := check_eq_ok_iff.mp accepted
  have longer := has.conjoin member
  apply check_eq_ok_iff.mpr
  constructor
  · intro blank
    exact expression.filled fun character inText =>
      blank character (List.mem_append_left _ inText)
  · exact isClean_iff.mpr (longer.imp fun _ cut => cut.1)
  · intro others hasOthers
    rw [← longer.unique hasOthers]
    exact (expression.names tokens has).conjoin declared _
  · intro others hasOthers
    rw [← longer.unique hasOthers]
    exact (expression.runs tokens has).conjoin isSupported_and name
  · intro others hasOthers
    rw [← longer.unique hasOthers, brackets_append]
    exact (expression.nested tokens has).append .nil

theorem exists_undeclared_iff {parameters : List String} {text : List Char}
    {tokens : List Token} (filled : ¬Text.AllBlank text) (has : HasTokens text tokens) :
    (∃ name, check parameters text = .error (.undeclared name)) ↔
      ¬NamesAreKnown parameters tokens := by
  rw [← exists_firstUnknown_iff]
  constructor
  · intro reported
    obtain ⟨name, failed⟩ := reported
    cases check_eq_error_iff.mp failed with
    | token _ hasOthers fault =>
        rw [has.unique hasOthers]
        cases fault with
        | undeclared unknown => exact ⟨_, unknown⟩
  · intro first
    obtain ⟨name, unknown⟩ := first
    exact ⟨_, check_eq_error_iff.mpr (.token filled has (.undeclared unknown))⟩

theorem Binds.mem {tokens : List Token} {name : List Char} (binds : Binds tokens name) :
    .name name ∈ tokens := by
  obtain ⟨front, binder, back, _, rfl⟩ := binds
  simp

theorem IsScoped.binds {before after : List Token} {name : List Char}
    (inScope : IsScoped before name after) : Binds (before ++ .name name :: after) name := by
  obtain ⟨front, binder, inside, rest, back, arguments, known, rfl, rfl, shape, _⟩ := inScope
  refine ⟨front, binder, arguments ++ .closing .round :: back, known, ?_⟩
  have whole := congrArg (· ++ Token.closing .round :: back) shape
  simpa using whole

/-- A use is reported exactly if no comprehension binds its name anywhere.  Whatever a
comprehension of an accepted expression binds may be used behind the expression as well,
out of its scope. -/
theorem check_ignores_scopes {parameters : List String} {text : List Char}
    {tokens : List Token} (filled : ¬Text.AllBlank text) (has : HasTokens text tokens) :
    (UsesAreScoped parameters tokens → NamesAreKnown parameters tokens) ∧
    ((∃ name, check parameters text = .error (.undeclared name)) ↔
      ∃ before name after, tokens = before ++ .name name :: after ∧
        ¬IsFixed before name after ∧ String.ofList name ∉ parameters ∧
          ¬Binds tokens name) ∧
    ∀ name, check parameters text = .ok () → Binds tokens name →
      (∃ arguments, BindsIn tokens name arguments) ∧
      check parameters (text ++ (" && ".toList ++ name)) = .ok () ∧
      HasTokens (text ++ (" && ".toList ++ name))
        ((tokens ++ [.operator "&&".toList]) ++ [.name name]) ∧
      ¬IsScoped (tokens ++ [.operator "&&".toList]) name [] := by
  refine ⟨?_, ?_, ?_⟩
  · intro inScopes before name after shape
    rcases inScopes before name after shape with fixed | parameter | inScope
    · exact .inl fixed
    · exact .inr (.inl parameter)
    · rw [shape]
      exact .inr (.inr inScope.binds)
  · rw [exists_undeclared_iff filled has]
    simp only [NamesAreKnown, IsDeclared, Classical.not_forall, not_or, exists_prop]
  · intro name accepted binds
    have expression := check_eq_ok_iff.mp accepted
    refine ⟨binds.exists_bindsIn (expression.nested tokens has), ?_, ?_, ?_⟩
    · exact check_conjoin accepted has binds.mem (.inr binds)
    · have longer := has.conjoin binds.mem
      rwa [List.append_cons] at longer
    · exact not_isScoped_of_not_mem List.not_mem_nil

theorem check_ignores_scopes_exists :
    ∃ tokens, HasTokens "xs.exists(x, x > 2)".toList tokens ∧
      ¬Text.AllBlank "xs.exists(x, x > 2)".toList ∧
      check ["xs"] "xs.exists(x, x > 2)".toList = .ok () ∧
      check ["xs"] "xs.exists(x, x > 2) && x".toList = .ok () ∧
      ¬IsScoped (tokens ++ [.operator "&&".toList]) "x".toList [] := by
  have has : HasTokens "xs.exists(x, x > 2)".toList _ := tokenize_eq_ok_iff.mp
    (by decide +kernel : tokenize "xs.exists(x, x > 2)".toList =
      .ok [.name "xs".toList, .dot, .name "exists".toList, .opening .round,
        .name "x".toList, .comma, .name "x".toList, .operator ">".toList, .number,
        .closing .round])
  have filled : ¬Text.AllBlank "xs.exists(x, x > 2)".toList := by decide
  have accepted : check ["xs"] "xs.exists(x, x > 2)".toList = .ok () := by decide +kernel
  obtain ⟨_, _, reaches⟩ := check_ignores_scopes filled has
  obtain ⟨_, longer, _, outOfScope⟩ := reaches "x".toList accepted
    ⟨[.name "xs".toList], "exists".toList, _, by decide, rfl⟩
  exact ⟨_, has, filled, accepted, longer, outOfScope⟩

/-- Behind the arguments that bind it, a name is accepted although it is out of scope. -/
theorem accepted_out_of_scope :
    ∃ tokens, HasTokens "xs.exists(x, x > 2) && x > 1".toList tokens ∧
      check ["xs"] "xs.exists(x, x > 2) && x > 1".toList = .ok () ∧
      ¬UsesAreScoped ["xs"] tokens := by
  have has : HasTokens "xs.exists(x, x > 2) && x > 1".toList _ := tokenize_eq_ok_iff.mp
    (by decide +kernel : tokenize "xs.exists(x, x > 2) && x > 1".toList =
      .ok [.name "xs".toList, .dot, .name "exists".toList, .opening .round,
        .name "x".toList, .comma, .name "x".toList, .operator ">".toList, .number,
        .closing .round, .operator "&&".toList, .name "x".toList, .operator ">".toList,
        .number])
  refine ⟨_, has, by decide +kernel, ?_⟩
  intro inScopes
  have uses := inScopes
    [.name "xs".toList, .dot, .name "exists".toList, .opening .round, .name "x".toList,
      .comma, .name "x".toList, .operator ">".toList, .number, .closing .round,
      .operator "&&".toList]
    "x".toList [.operator ">".toList, .number] rfl
  rcases uses with fixed | parameter | inScope
  · cases fixed with
    | member behindDot => exact absurd behindDot (by decide)
    | constant constant => exact absurd constant (by decide)
    | call builtin _ => exact absurd builtin (by decide)
  · exact absurd parameter (by decide)
  · exact not_isScoped_of_not_mem (by decide) inScope

end Rebac.Expression
