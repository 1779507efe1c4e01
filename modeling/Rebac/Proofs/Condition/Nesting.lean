import Rebac.Condition.Expression

/-!
# Brackets that nest

The brackets of a text nest if they make up a Dyck word over the three kinds of them.
The check for nesting keeps the brackets that are still open; it passes exactly such
words, and otherwise names the first closing bracket that closes nothing, or the last
opening one that is not closed.
-/

namespace Rebac.Expression

def isBracket : Token → Bool
  | .opening _ => true
  | .closing _ => true
  | _ => false

/-- The brackets among some tokens. -/
def brackets (tokens : List Token) : List Token :=
  tokens.filter isBracket

inductive IsDyck : List Token → Prop where
  | nil : IsDyck []
  | enclose (bracket : Bracket) {inner rest : List Token} :
      IsDyck inner →
      IsDyck rest →
      IsDyck (.opening bracket :: (inner ++ .closing bracket :: rest))

/-- The brackets that a row of brackets leaves open, the last one first. -/
inductive LeavesOpen : List Bracket → List Token → Prop where
  | nested {word : List Token} : IsDyck word → LeavesOpen [] word
  | opening (bracket : Bracket) {stack : List Bracket} {front word : List Token} :
      LeavesOpen stack front →
      IsDyck word →
      LeavesOpen (bracket :: stack) (front ++ .opening bracket :: word)

/-- The first fault in a row of brackets that does not nest. -/
inductive Misnests : List Token → Malformation → Prop where
  | unbalanced (bracket : Bracket) {stack : List Bracket} {front rest : List Token} :
      LeavesOpen stack front →
      stack.head? ≠ some bracket →
      Misnests (front ++ .closing bracket :: rest) (.unbalanced bracket)
  | unclosed (bracket : Bracket) {stack : List Bracket} {word : List Token} :
      LeavesOpen (bracket :: stack) word →
      Misnests word (.unclosed bracket)

theorem brackets_append (front back : List Token) :
    brackets (front ++ back) = brackets front ++ brackets back :=
  List.filter_append ..

theorem misnested?_brackets (stack : List Bracket) (tokens : List Token) :
    misnested? stack (brackets tokens) = misnested? stack tokens := by
  induction tokens generalizing stack with
  | nil => rfl
  | cons token tokens induction =>
      cases token with
      | opening bracket =>
          have kept : brackets (.opening bracket :: tokens) =
              .opening bracket :: brackets tokens := rfl
          rw [kept, misnested?, misnested?, induction]
      | closing bracket =>
          have kept : brackets (.closing bracket :: tokens) =
              .closing bracket :: brackets tokens := rfl
          cases stack with
          | nil => rw [kept, misnested?, misnested?]
          | cons top stack => rw [kept, misnested?, misnested?, induction stack]
      | _ => cases stack <;> exact induction _

theorem IsDyck.append {left right : List Token} (dyck : IsDyck left)
    (dyckRight : IsDyck right) : IsDyck (left ++ right) := by
  induction dyck with
  | nil => exact dyckRight
  | enclose bracket inner _ _ induction =>
      rw [List.cons_append, List.append_assoc, List.cons_append]
      exact .enclose bracket inner induction

theorem IsDyck.misnested?_append {word : List Token} (dyck : IsDyck word)
    (stack : List Bracket) (rest : List Token) :
    misnested? stack (word ++ rest) = misnested? stack rest := by
  induction dyck generalizing stack rest with
  | nil => rfl
  | enclose bracket _ _ inductionInner inductionRest =>
      rw [List.cons_append, List.append_assoc, List.cons_append, misnested?,
        inductionInner, misnested?, if_pos rfl, inductionRest]

theorem LeavesOpen.misnested?_append {stack : List Bracket} {front : List Token}
    (leaves : LeavesOpen stack front) (rest : List Token) :
    misnested? [] (front ++ rest) = misnested? stack rest := by
  induction leaves generalizing rest with
  | nested dyck => exact dyck.misnested?_append [] rest
  | opening bracket _ dyck induction =>
      rw [List.append_assoc, induction, List.cons_append, misnested?,
        dyck.misnested?_append]

theorem LeavesOpen.append {stack : List Bracket} {front word : List Token}
    (leaves : LeavesOpen stack front) (dyck : IsDyck word) :
    LeavesOpen stack (front ++ word) := by
  cases leaves with
  | nested nested => exact .nested (nested.append dyck)
  | opening bracket before nested =>
      rw [List.append_assoc, List.cons_append]
      exact .opening bracket before (nested.append dyck)

theorem LeavesOpen.close {bracket : Bracket} {stack : List Bracket} {front : List Token}
    (leaves : LeavesOpen (bracket :: stack) front) :
    LeavesOpen stack (front ++ [.closing bracket]) := by
  cases leaves with
  | opening _ before nested =>
      rw [List.append_assoc, List.cons_append]
      exact before.append (.enclose bracket nested .nil)

/-- What the check says about brackets behind some that were read already. -/
theorem misnested?_spec {stack : List Bracket} {front rest : List Token}
    (leaves : LeavesOpen stack front) (each : ∀ token ∈ rest, isBracket token = true) :
    match misnested? stack rest with
    | none => IsDyck (front ++ rest)
    | some cause => Misnests (front ++ rest) cause := by
  induction rest generalizing stack front with
  | nil =>
      rw [List.append_nil]
      cases stack with
      | nil =>
          cases leaves with
          | nested dyck => exact dyck
      | cons bracket stack => exact .unclosed bracket leaves
  | cons token rest induction =>
      have others : ∀ other ∈ rest, isBracket other = true :=
        fun other member => each other (List.mem_cons_of_mem _ member)
      cases token with
      | opening bracket =>
          have longer := induction (.opening bracket leaves .nil) others
          rw [misnested?]
          rwa [← List.append_cons] at longer
      | closing bracket =>
          cases stack with
          | nil => exact .unbalanced bracket leaves (by simp)
          | cons top stack =>
              rw [misnested?]
              by_cases same : top = bracket
              · subst top
                have longer := induction leaves.close others
                rw [if_pos rfl]
                rwa [← List.append_cons] at longer
              · rw [if_neg same]
                exact .unbalanced bracket leaves (by simpa using same)
      | _ => cases each _ List.mem_cons_self

theorem isBracket_of_mem_brackets (tokens : List Token) :
    ∀ token ∈ brackets tokens, isBracket token = true :=
  fun _ member => (List.mem_filter.mp member).2

/-- The check passes exactly the tokens whose brackets nest. -/
theorem misnested?_eq_none_iff {tokens : List Token} :
    misnested? [] tokens = none ↔ IsDyck (brackets tokens) := by
  rw [← misnested?_brackets]
  constructor
  · intro passed
    have spec := misnested?_spec (.nested .nil) (isBracket_of_mem_brackets tokens)
    rw [passed] at spec
    exact spec
  · intro dyck
    have through := dyck.misnested?_append [] []
    rwa [List.append_nil] at through

theorem Misnests.misnested?_eq {word : List Token} {cause : Malformation}
    (misnests : Misnests word cause) : misnested? [] word = some cause := by
  cases misnests with
  | unbalanced bracket leaves noTop =>
      rename_i stack front rest
      rw [leaves.misnested?_append]
      cases stack with
      | nil => rw [misnested?]
      | cons top stack =>
          rw [misnested?, if_neg (by simpa using noTop)]
  | unclosed bracket leaves =>
      have whole := leaves.misnested?_append []
      rwa [List.append_nil] at whole

/-- The check names exactly the first fault of brackets that do not nest. -/
theorem misnested?_eq_some_iff {tokens : List Token} {cause : Malformation} :
    misnested? [] tokens = some cause ↔ Misnests (brackets tokens) cause := by
  rw [← misnested?_brackets]
  constructor
  · intro failed
    have spec := misnested?_spec (.nested .nil) (isBracket_of_mem_brackets tokens)
    rw [failed] at spec
    exact spec
  · exact Misnests.misnested?_eq

theorem IsDyck.exists_closing {front rest : List Token} {bracket : Bracket}
    (dyck : IsDyck (front ++ .opening bracket :: rest)) :
    ∃ inner back, rest = inner ++ .closing bracket :: back ∧ IsDyck inner := by
  generalize shape : front ++ .opening bracket :: rest = word at dyck
  induction dyck generalizing front rest with
  | nil => simp at shape
  | @enclose outer inner behind dyckInner _ inductionInner inductionBehind =>
      cases front with
      | nil =>
          obtain ⟨same, rfl⟩ := List.cons.inj shape
          obtain rfl := Token.opening.inj same
          exact ⟨inner, behind, rfl, dyckInner⟩
      | cons first front =>
          obtain ⟨_, tail⟩ := List.cons.inj shape
          rcases List.append_eq_append_iff.mp tail with
            ⟨more, within, closes⟩ | ⟨more, rfl, closes⟩
          · cases more with
            | nil => simp at closes
            | cons second more =>
                obtain ⟨rfl, rfl⟩ := List.cons.inj closes
                obtain ⟨own, back, rfl, dyckOwn⟩ := inductionInner within.symm
                exact ⟨own, back ++ .closing outer :: behind, by simp, dyckOwn⟩
          · cases more with
            | nil => simp at closes
            | cons second more =>
                obtain ⟨rfl, later⟩ := List.cons.inj closes
                exact inductionBehind later.symm

theorem exists_closing_of_isDyck {front rest : List Token} {bracket : Bracket}
    (dyck : IsDyck (brackets (front ++ .opening bracket :: rest))) :
    ∃ inner back, rest = inner ++ .closing bracket :: back ∧ IsDyck (brackets inner) := by
  have split : brackets (front ++ .opening bracket :: rest) =
      brackets front ++ .opening bracket :: brackets rest := brackets_append _ _
  rw [split] at dyck
  obtain ⟨word, behind, shape, dyckWord⟩ := dyck.exists_closing
  obtain ⟨inner, tail, rfl, rfl, closes⟩ := List.filter_eq_append_iff.mp shape
  obtain ⟨skipped, back, rfl, noBracket, _, _⟩ := List.filter_eq_cons_iff.mp closes
  refine ⟨inner ++ skipped, back, by simp, ?_⟩
  have nothing : brackets skipped = [] := List.filter_eq_nil_iff.mpr noBracket
  rw [brackets_append, nothing, List.append_nil]
  exact dyckWord

end Rebac.Expression
