import Rebac.Proofs.Condition.Clean
import Rebac.Proofs.Condition.Names
import Rebac.Proofs.Condition.Nesting
import Rebac.Proofs.Text.Trim

/-!
# The language of condition expressions

An expression is a text that is not blank, falls apart into lexemes, uses only names that
it may use, joins them by supported operators only, and nests its brackets.  The check
accepts exactly these texts.  Otherwise it reports the first of these demands that is not
met, and the leftmost name or operator run that does not meet it.
-/

namespace Rebac.Expression

/-- An operator or nothing, followed by any number of unary operators. -/
structure IsSupported (run : List Char) : Prop where
  filled : run ≠ []
  split : ∃ operator chain, run = operator ++ chain ∧ (operator = [] ∨ operator ∈ operators) ∧
    ∀ character ∈ chain, character = '!' ∨ character = '-'

/-- Each operator run is supported. -/
def RunsAreSupported (tokens : List Token) : Prop :=
  ∀ run, .operator run ∈ tokens → IsSupported run

/-- The leftmost operator run that is not supported. -/
def FirstUnsupported (tokens : List Token) (run : List Char) : Prop :=
  ∃ before after, tokens = before ++ .operator run :: after ∧ ¬IsSupported run ∧
    RunsAreSupported before

theorem isUnaryChain_iff {run : List Char} :
    isUnaryChain run = true ↔
      run ≠ [] ∧ ∀ character ∈ run, character = '!' ∨ character = '-' := by
  simp [isUnaryChain]

theorem ne_nil_of_mem_operators {operator : List Char} (member : operator ∈ operators) :
    operator ≠ [] := by
  intro empty
  subst empty
  exact absurd member (by decide)

theorem isOperatorRun_iff {run : List Char} : isOperatorRun run = true ↔ IsSupported run := by
  simp only [isOperatorRun, Bool.or_eq_true, List.any_eq_true, Bool.and_eq_true,
    List.contains_iff_mem, isUnaryChain_iff]
  constructor
  · intro accepted
    rcases accepted with (operator | ⟨filled, unary⟩) | ⟨width, _, operator, filled, unary⟩
    · exact ⟨ne_nil_of_mem_operators operator, run, [], by simp, .inr operator, by simp⟩
    · exact ⟨filled, [], run, rfl, .inl rfl, unary⟩
    · refine ⟨?_, run.take width, run.drop width, (List.take_append_drop width run).symm,
        .inr operator, unary⟩
      intro empty
      subst empty
      exact filled List.drop_nil
  · intro supported
    obtain ⟨filled, operator, chain, rfl, listed, unary⟩ := supported
    rcases listed with rfl | listed
    · exact .inl (.inr ⟨filled, unary⟩)
    · by_cases bare : chain = []
      · subst bare
        rw [List.append_nil]
        exact .inl (.inl listed)
      · refine .inr ⟨operator.length, ?_, ?_, ?_, ?_⟩
        · have filledOperator := List.length_pos_iff.mpr (ne_nil_of_mem_operators listed)
          have filledChain := List.length_pos_iff.mpr bare
          rw [List.mem_range'_1, List.length_append]
          omega
        · rwa [List.take_left]
        · rwa [List.drop_left]
        · rwa [List.drop_left]

theorem unsupportedRun?_eq_none_iff {token : Token} :
    unsupportedRun? token = none ↔ ∀ run, token = .operator run → IsSupported run := by
  cases token with
  | operator run => simp [unsupportedRun?, isOperatorRun_iff]
  | _ => simp [unsupportedRun?]

theorem unsupportedRun?_eq_some_iff {token : Token} {run : List Char} :
    unsupportedRun? token = some run ↔ token = .operator run ∧ ¬IsSupported run := by
  cases token with
  | operator other =>
      simp only [unsupportedRun?, Token.operator.injEq]
      by_cases supported : IsSupported other
      · rw [if_pos (isOperatorRun_iff.mpr supported)]
        constructor
        · intro nothing
          cases nothing
        · intro found
          obtain ⟨rfl, unsupported⟩ := found
          exact absurd supported unsupported
      · rw [if_neg fun accepted => supported (isOperatorRun_iff.mp accepted)]
        constructor
        · intro found
          obtain rfl := Option.some.inj found
          exact ⟨rfl, supported⟩
        · intro found
          rw [found.1]
  | _ => simp [unsupportedRun?]

theorem findSome?_unsupportedRun?_eq_none_iff {tokens : List Token} :
    tokens.findSome? unsupportedRun? = none ↔ RunsAreSupported tokens := by
  rw [List.findSome?_eq_none_iff]
  simp only [unsupportedRun?_eq_none_iff]
  constructor
  · intro each run member
    exact each _ member run rfl
  · intro each token member run same
    subst same
    exact each run member

theorem findSome?_unsupportedRun?_eq_some_iff {tokens : List Token} {run : List Char} :
    tokens.findSome? unsupportedRun? = some run ↔ FirstUnsupported tokens run := by
  rw [List.findSome?_eq_some_iff]
  constructor
  · intro found
    obtain ⟨before, token, after, shape, failed, earlier⟩ := found
    obtain ⟨rfl, unsupported⟩ := unsupportedRun?_eq_some_iff.mp failed
    refine ⟨before, after, shape, unsupported, ?_⟩
    exact findSome?_unsupportedRun?_eq_none_iff.mp (List.findSome?_eq_none_iff.mpr earlier)
  · intro found
    obtain ⟨before, after, shape, unsupported, earlier⟩ := found
    refine ⟨before, .operator run, after, shape, ?_, ?_⟩
    · exact unsupportedRun?_eq_some_iff.mpr ⟨rfl, unsupported⟩
    · exact List.findSome?_eq_none_iff.mp (findSome?_unsupportedRun?_eq_none_iff.mpr earlier)

/-- The first fault among the tokens of an expression: an unknown name, else an operator run
that is not supported, else a bracket. -/
inductive FirstTokenFault (parameters : List String) (tokens : List Token) :
    ExpressionFault → Prop where
  | undeclared {name : List Char} :
      FirstUnknown parameters tokens name →
      FirstTokenFault parameters tokens (.undeclared (String.ofList name))
  | invalidOperator {run : List Char} :
      NamesAreKnown parameters tokens →
      FirstUnsupported tokens run →
      FirstTokenFault parameters tokens (.invalidOperator (String.ofList run))
  | malformed {cause : Malformation} :
      NamesAreKnown parameters tokens →
      RunsAreSupported tokens →
      Misnests (brackets tokens) cause →
      FirstTokenFault parameters tokens (.malformed cause)

theorem checkTokens_eq_ok_iff {parameters : List String} {tokens : List Token} :
    checkTokens parameters tokens = .ok () ↔
      NamesAreKnown parameters tokens ∧ RunsAreSupported tokens ∧
        IsDyck (brackets tokens) := by
  rw [← undeclared?_eq_none_iff, ← findSome?_unsupportedRun?_eq_none_iff,
    ← misnested?_eq_none_iff]
  constructor
  · intro passed
    simp only [checkTokens] at passed
    split at passed
    · cases passed
    · rename_i known
      split at passed
      · cases passed
      · rename_i supported
        split at passed
        · cases passed
        · rename_i nested
          exact ⟨known, supported, nested⟩
  · intro met
    obtain ⟨known, supported, nested⟩ := met
    simp only [checkTokens, known, supported, nested]

theorem checkTokens_eq_error_iff {parameters : List String} {tokens : List Token}
    {fault : ExpressionFault} :
    checkTokens parameters tokens = .error fault ↔
      FirstTokenFault parameters tokens fault := by
  constructor
  · intro failed
    simp only [checkTokens] at failed
    split at failed
    · rename_i name unknown
      obtain rfl := Except.error.inj failed
      exact .undeclared (undeclared?_eq_some_iff.mp unknown)
    · rename_i known
      split at failed
      · rename_i run unsupported
        obtain rfl := Except.error.inj failed
        exact .invalidOperator (undeclared?_eq_none_iff.mp known)
          (findSome?_unsupportedRun?_eq_some_iff.mp unsupported)
      · rename_i supported
        split at failed
        · rename_i cause misnested
          obtain rfl := Except.error.inj failed
          exact .malformed (undeclared?_eq_none_iff.mp known)
            (findSome?_unsupportedRun?_eq_none_iff.mp supported)
            (misnested?_eq_some_iff.mp misnested)
        · cases failed
  · intro first
    cases first with
    | undeclared unknown =>
        simp only [checkTokens, undeclared?_eq_some_iff.mpr unknown]
    | invalidOperator known unsupported =>
        simp only [checkTokens, undeclared?_eq_none_iff.mpr known,
          findSome?_unsupportedRun?_eq_some_iff.mpr unsupported]
    | malformed known supported misnests =>
        simp only [checkTokens, undeclared?_eq_none_iff.mpr known,
          findSome?_unsupportedRun?_eq_none_iff.mpr supported,
          misnested?_eq_some_iff.mpr misnests]

/-- The tokens of the lexemes that a text falls apart into. -/
def HasTokens (text : List Char) (tokens : List Token) : Prop :=
  ∃ found, Cuts text found ∧ found.map (·.token) = tokens

/-- A text that is an expression over some parameters. -/
structure IsExpression (parameters : List String) (text : List Char) : Prop where
  filled : ¬Text.AllBlank text
  clean : IsClean text
  names : ∀ tokens, HasTokens text tokens → NamesAreKnown parameters tokens
  runs : ∀ tokens, HasTokens text tokens → RunsAreSupported tokens
  nested : ∀ tokens, HasTokens text tokens → IsDyck (brackets tokens)

/-- The first demand on expressions that a text does not meet. -/
inductive FirstFault (parameters : List String) (text : List Char) :
    ExpressionFault → Prop where
  | empty : Text.AllBlank text → FirstFault parameters text .empty
  | stray {cause : Malformation} :
      ¬Text.AllBlank text →
      Strays text cause →
      FirstFault parameters text (.malformed cause)
  | token {tokens : List Token} {fault : ExpressionFault} :
      ¬Text.AllBlank text →
      HasTokens text tokens →
      FirstTokenFault parameters tokens fault →
      FirstFault parameters text fault

theorem HasTokens.unique {text : List Char} {tokens others : List Token}
    (has : HasTokens text tokens) (hasOthers : HasTokens text others) : tokens = others := by
  obtain ⟨found, cuts, rfl⟩ := has
  obtain ⟨foundOthers, cutsOthers, rfl⟩ := hasOthers
  rw [cuts.unique cutsOthers]

theorem check_of_allBlank {parameters : List String} {text : List Char}
    (blank : Text.AllBlank text) : check parameters text = .error .empty := by
  rw [check, Text.trim_eq_nil_iff.mpr blank]
  rfl

/-- A text that is not blank is judged by its tokens. -/
theorem check_of_not_allBlank {parameters : List String} {text : List Char}
    (filled : ¬Text.AllBlank text) :
    check parameters text =
      match tokenize text with
      | .error cause => .error (.malformed cause)
      | .ok tokens => checkTokens parameters tokens := by
  have solid : (Text.trim text).isEmpty = false := by
    rw [List.isEmpty_eq_false_iff]
    intro nothing
    exact filled (Text.trim_eq_nil_iff.mp nothing)
  rw [check, solid]
  rfl

theorem check_eq_ok_iff {parameters : List String} {text : List Char} :
    check parameters text = .ok () ↔ IsExpression parameters text := by
  by_cases blank : Text.AllBlank text
  · rw [check_of_allBlank blank]
    constructor
    · intro passed
      cases passed
    · intro expression
      exact absurd blank expression.filled
  · rw [check_of_not_allBlank blank]
    constructor
    · intro passed
      split at passed
      · cases passed
      · rename_i tokens cut
        obtain ⟨known, supported, nested⟩ := checkTokens_eq_ok_iff.mp passed
        have has : HasTokens text tokens := tokenize_eq_ok_iff.mp cut
        constructor
        · exact blank
        · exact isClean_iff.mpr (has.imp fun _ cut => cut.1)
        · intro others hasOthers
          rwa [← has.unique hasOthers]
        · intro others hasOthers
          rwa [← has.unique hasOthers]
        · intro others hasOthers
          rwa [← has.unique hasOthers]
    · intro expression
      obtain ⟨found, cuts⟩ := isClean_iff.mp expression.clean
      have has : HasTokens text (found.map (·.token)) := ⟨found, cuts, rfl⟩
      rw [tokenize_eq_ok_iff.mpr has]
      exact checkTokens_eq_ok_iff.mpr
        ⟨expression.names _ has, expression.runs _ has, expression.nested _ has⟩

theorem check_eq_error_iff {parameters : List String} {text : List Char}
    {fault : ExpressionFault} :
    check parameters text = .error fault ↔ FirstFault parameters text fault := by
  by_cases blank : Text.AllBlank text
  · rw [check_of_allBlank blank]
    constructor
    · intro failed
      obtain rfl := Except.error.inj failed
      exact .empty blank
    · intro first
      cases first with
      | empty _ => rfl
      | stray filled _ => exact absurd blank filled
      | token filled _ _ => exact absurd blank filled
  · rw [check_of_not_allBlank blank]
    constructor
    · intro failed
      split at failed
      · rename_i cause stray
        obtain rfl := Except.error.inj failed
        exact .stray blank (tokenize_eq_error_iff.mp stray)
      · rename_i tokens cut
        exact .token blank (tokenize_eq_ok_iff.mp cut) (checkTokens_eq_error_iff.mp failed)
    · intro first
      cases first with
      | empty allBlank => exact absurd allBlank blank
      | stray _ strays => rw [tokenize_eq_error_iff.mpr strays]
      | token _ has fault =>
          rw [tokenize_eq_ok_iff.mpr has]
          exact checkTokens_eq_error_iff.mpr fault

/-- The check accepts exactly the expressions, and otherwise reports the first demand that
is not met. -/
theorem check_exact (parameters : List String) (text : List Char) :
    (check parameters text = .ok () ↔ IsExpression parameters text) ∧
      ∀ fault, check parameters text = .error fault ↔ FirstFault parameters text fault := by
  constructor
  · exact check_eq_ok_iff
  · intro fault
    exact check_eq_error_iff

end Rebac.Expression
