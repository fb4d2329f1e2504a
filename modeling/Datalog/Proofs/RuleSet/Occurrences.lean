import Datalog.Proofs.RuleSet.Statements
import Datalog.Proofs.Source.Soundness

/-!
# Where variables are required

The variables of a rule that need values, found where they are written. In the translated rule
named arguments are sorted and the parts of the body regrouped; `Source.Requires` lists the
identifiers of the rule as written, place by place, and `Draft.ReadsRule.mem_demands_iff` says
that they name the same variables. Terms are written in the order of their offsets
(`Source.sublist_termsAt`), so the search through the rule as written finds the first identifier
that requires a variable (`Source.exists_occurrence?`).
-/

namespace Datalog

/-- The order in which the places of a rule are looked at for unbound variables. -/
def Place.rank : Place → Nat
  | .head => 0
  | .negatedAtom => 1
  | .constraint => 2

namespace Rule

/-- The variables of a rule in a place, once for each occurrence. -/
def variablesAt (rule : Rule) : Place → List String
  | .head => rule.head.variables
  | .negatedAtom => rule.negative.flatMap Atom.variables
  | .constraint => rule.constraints.flatMap Constraint.variables

variable {rule : Rule} {name : String} {place : Place}

/-- A variable needs a value in each place where it occurs. -/
theorem mem_demands_iff : (name, place) ∈ rule.demands ↔ name ∈ rule.variablesAt place := by
  cases place <;> simp [demands, variablesAt]

/-- The variables that need values come place by place. -/
theorem pairwise_rank_demands (rule : Rule) :
    rule.demands.Pairwise fun earlier later => earlier.2.rank ≤ later.2.rank := by
  have alike (names : List String) (place : Place) :
      (names.map (·, place)).Pairwise fun earlier later => earlier.2.rank ≤ later.2.rank :=
    List.pairwise_map.2 (List.pairwise_of_forall fun _ _ => Nat.le_refl _)
  have apart (names others : List String) {place other : Place}
      (inOrder : place.rank ≤ other.rank) :
      ∀ earlier ∈ names.map (·, place), ∀ later ∈ others.map (·, other),
        earlier.2.rank ≤ later.2.rank := by
    intro earlier isEarlier later isLater
    obtain ⟨_, _, rfl⟩ := List.mem_map.1 isEarlier
    obtain ⟨_, _, rfl⟩ := List.mem_map.1 isLater
    exact inOrder
  rw [demands, List.pairwise_append, List.pairwise_append]
  refine ⟨⟨alike _ _, alike _ _, apart _ _ (by decide)⟩, alike _ _, fun earlier isEarlier => ?_⟩
  rcases List.mem_append.1 isEarlier with inHead | inNegated
  · exact apart _ _ (by decide) earlier inHead
  · exact apart _ _ (by decide) earlier inNegated

/-- The unbound variable that is found needs a value and has none, and all those in earlier
places are bound. -/
theorem of_unboundVariable?_eq_some (isUnbound : rule.unboundVariable? = some (name, place)) :
    (name, place) ∈ rule.demands ∧ rule.boundVariables.contains name = false ∧
      ∀ demand ∈ rule.demands, demand.2.rank < place.rank →
        rule.boundVariables.contains demand.1 = true := by
  obtain ⟨notBound, before, after, isSplit, areBound⟩ := List.find?_eq_some_iff_append.1 isUnbound
  have inOrder := rule.pairwise_rank_demands
  rw [isSplit, List.pairwise_append] at inOrder
  refine ⟨by simp [isSplit], by simpa using notBound, fun demand member isEarlier => ?_⟩
  rw [isSplit] at member
  rcases List.mem_append.1 member with isBefore | member
  · simpa using areBound demand isBefore
  · rcases List.mem_cons.1 member with rfl | isAfter
    · exact absurd isEarlier (Nat.lt_irrefl _)
    · have isLater := (List.pairwise_cons.1 inOrder.2.1).1 demand isAfter
      exact absurd isEarlier (Nat.not_lt.2 isLater)

end Rule

namespace Source

/-- An identifier with a name is among the arguments of an atom. -/
def Atom.Names (atom : Atom) (name : String) : Prop :=
  ∃ token, .identifier token ∈ atom.args.terms ∧ token.lexeme = name

/-- A body binds a variable when one of its positive atoms names it. -/
def Binds (body : List Literal) (name : String) : Prop :=
  ∃ atom, .positive atom ∈ body ∧ atom.Names name

/-- The identifiers of a rule in the places whose variables must be bound. -/
inductive Requires (head : Atom) (body : List Literal) : Place → Token → Prop where
  | head {token : Token} (isTerm : .identifier token ∈ head.args.terms) :
      Requires head body .head token
  | negatedAtom {atom : Atom} {token : Token} (inBody : .negated atom ∈ body)
      (isTerm : .identifier token ∈ atom.args.terms) : Requires head body .negatedAtom token
  | left {token operator : Token} {right : Term}
      (inBody : .comparison (.identifier token) operator right ∈ body) :
      Requires head body .constraint token
  | right {left : Term} {operator token : Token}
      (inBody : .comparison left operator (.identifier token) ∈ body) :
      Requires head body .constraint token

section ReadingOrder

/-- The tokens of pieces in two parts are those of the one part and of the other. -/
theorem tokensOf_append (first second : List Piece) :
    tokensOf (first ++ second) = tokensOf first ++ tokensOf second :=
  List.filterMap_append

variable {α : Type} {pieces : α → List Piece} {tokens : α → List Token} {items : List α}

/-- Tokens that come in order in the pieces of each item come in order in those of a list. -/
theorem sublist_tokensOf_listed
    (each : ∀ item ∈ items, (tokens item).Sublist (tokensOf (pieces item))) :
    (items.flatMap tokens).Sublist (tokensOf (listed pieces items)) := by
  cases items with
  | nil => exact .slnil
  | cons first others =>
      obtain ⟨ofFirst, ofOthers⟩ := List.forall_mem_cons.1 each
      rw [List.flatMap_cons, listed, tokensOf_append]
      refine ofFirst.append ?_
      clear each
      induction others with
      | nil => exact .slnil
      | cons other others inductionHypothesis =>
          obtain ⟨ofOther, ofOthers⟩ := List.forall_mem_cons.1 ofOthers
          rw [List.flatMap_cons, List.flatMap_cons, tokensOf_append]
          exact ofOther.append (inductionHypothesis ofOthers)

/-- The terms of arguments come in the order in which they are written. -/
theorem Args.sublist_tokensOf (args : Args) :
    (args.terms.map Term.token).Sublist (tokensOf args.pieces) := by
  cases args with
  | ordered terms =>
      change (terms.map Term.token).Sublist (tokensOf (listed Term.pieces terms))
      rw [List.map_eq_flatMap]
      exact sublist_tokensOf_listed fun term _ => .refl _
  | named fields =>
      change ((fields.map Prod.snd).map Term.token).Sublist (tokensOf (listed fieldPieces fields))
      rw [List.map_map, List.map_eq_flatMap]
      exact sublist_tokensOf_listed fun field _ => .cons _ (.refl _)

/-- The terms of an atom come in the order in which they are written. -/
theorem Atom.sublist_tokensOf (atom : Atom) :
    (atom.args.terms.map Term.token).Sublist (tokensOf atom.argsPieces) := by
  have isInside : atom.args.pieces.Sublist atom.argsPieces :=
    (List.sublist_cons_self _ _).trans (List.sublist_append_left _ _)
  exact atom.args.sublist_tokensOf.trans (isInside.filterMap _)

/-- The terms of a part of a body in a place come in the order in which they are written. -/
theorem Literal.sublist_tokensOf (literal : Literal) (place : Place) :
    ((Draft.termsIn place literal).map Term.token).Sublist (tokensOf literal.pieces) := by
  cases literal with
  | positive atom => exact List.nil_sublist _
  | negated atom =>
      rw [Draft.termsIn]
      split
      next => exact .cons _ atom.sublist_tokensOf
      next => exact List.nil_sublist _
  | comparison left operator right =>
      rw [Draft.termsIn]
      split
      next => exact .cons_cons _ (.cons _ (.refl _))
      next => exact List.nil_sublist _

/-- The terms of a rule in a place, in the order in which they are written. -/
def termsAt (head : Atom) (body : List Literal) : Place → List Term
  | .head => head.args.terms
  | place => body.flatMap (Draft.termsIn place)

/-- The terms of a rule in a place come in the order of its tokens. -/
theorem sublist_termsAt (head : Atom) (body : List Literal) (place : Place) :
    ((termsAt head body place).map Term.token).Sublist
      (tokensOf (Clause.rule head body).pieces) := by
  have inBody (place : Place) :
      ((body.flatMap (Draft.termsIn place)).map Term.token).Sublist
        (tokensOf (Clause.rule head body).pieces) := by
    have isInside : (listed Literal.pieces body).Sublist (Clause.rule head body).pieces :=
      ((List.sublist_cons_self _ _).trans (List.sublist_append_right _ _)).trans
        (List.sublist_append_left _ _)
    rw [List.map_flatMap]
    exact (sublist_tokensOf_listed fun literal _ => literal.sublist_tokensOf place).trans
      (isInside.filterMap _)
  cases place with
  | head =>
      have isInside : head.argsPieces.Sublist (Clause.rule head body).pieces :=
        ((List.sublist_cons_self _ _).trans (List.sublist_append_left _ _)).trans
          (List.sublist_append_left _ _)
      exact head.sublist_tokensOf.trans (isInside.filterMap _)
  | negatedAtom => exact inBody _
  | constraint => exact inBody _

/-- The tokens of a clause of a source come one behind the other. -/
theorem pairwise_precedes_of_parse {source : String} {clauses : List Clause} {clause : Clause}
    (isParsed : parse source = .ok clauses) (isClause : clause ∈ clauses) :
    (tokensOf clause.pieces).Pairwise Token.Precedes := by
  obtain ⟨wellFormed, last, laid, _⟩ := laid_of_parse isParsed
  have ordered := laid.pairwise_precedes fun _ =>
    lexeme_ne_of_mem_tokensOf (isSolid_clauses wellFormed)
  obtain ⟨earlier, later, rfl⟩ := List.append_of_mem isClause
  rw [List.flatMap_append, List.flatMap_cons] at ordered
  exact ordered.sublist
    (((List.sublist_append_left _ _).trans (List.sublist_append_right _ _)).filterMap _)

variable {head : Atom} {body : List Literal} {name : String} {place : Place} {token : Token}

/-- A rule requires the identifiers among the terms in a place. -/
theorem requires_iff : Requires head body place token ↔
    .identifier token ∈ termsAt head body place := by
  constructor
  · intro isRequired
    cases isRequired with
    | head isTerm => exact isTerm
    | negatedAtom inBody isTerm => exact List.mem_flatMap.2 ⟨_, inBody, isTerm⟩
    | left inBody => exact List.mem_flatMap.2 ⟨_, inBody, List.mem_cons_self⟩
    | right inBody =>
        exact List.mem_flatMap.2 ⟨_, inBody, List.mem_cons_of_mem _ List.mem_cons_self⟩
  · intro isTerm
    cases place with
    | head => exact .head isTerm
    | negatedAtom =>
        obtain ⟨literal, inBody, isTerm⟩ := List.mem_flatMap.1 isTerm
        cases literal with
        | positive atom => cases isTerm
        | negated atom => exact .negatedAtom inBody isTerm
        | comparison left operator right => cases isTerm
    | constraint =>
        obtain ⟨literal, inBody, isTerm⟩ := List.mem_flatMap.1 isTerm
        cases literal with
        | positive atom => cases isTerm
        | negated atom => cases isTerm
        | comparison left operator right =>
            rcases List.mem_cons.1 isTerm with rfl | isTerm
            · exact .left inBody
            · obtain rfl := List.mem_singleton.1 isTerm
              exact .right inBody

/-- The first identifier with a name that a rule requires in a place. -/
structure FirstRequired (head : Atom) (body : List Literal) (name : String) (place : Place)
    (token : Token) : Prop where
  isRequired : Requires head body place token
  isNamed : token.lexeme = name
  isFirst : ∀ other, Requires head body place other → other.lexeme = name →
    token = other ∨ token.Precedes other

/-- A term names a variable with its identifier. -/
theorem naming?_eq_some_iff {term : Term} :
    Draft.naming? name term = some token ↔ term = .identifier token ∧ token.lexeme = name := by
  cases term with
  | literal => simp [Draft.naming?]
  | wildcard => simp [Draft.naming?]
  | identifier found =>
      simp only [Draft.naming?, Option.ite_none_right_eq_some, Option.some.injEq,
        Term.identifier.injEq]
      constructor
      · rintro ⟨isNamed, rfl⟩
        exact ⟨rfl, isNamed⟩
      · rintro ⟨rfl, isNamed⟩
        exact ⟨isNamed, rfl⟩

/-- A variable that is required somewhere in a place is found where it is required first. -/
theorem exists_occurrence? (isRequired : Requires head body place token)
    (isNamed : token.lexeme = name)
    (ordered : (tokensOf (Clause.rule head body).pieces).Pairwise Token.Precedes) :
    ∃ first, Draft.occurrence? head body name place = some first ∧
      FirstRequired head body name place first := by
  have isSearch : Draft.occurrence? head body name place =
      (termsAt head body place).findSome? (Draft.naming? name) := by
    cases place <;> rfl
  have inOrder := ordered.sublist (sublist_termsAt head body place)
  rw [List.pairwise_map] at inOrder
  have isFound : ((termsAt head body place).findSome? (Draft.naming? name)).isSome = true :=
    List.findSome?_isSome_iff.2 ⟨_, requires_iff.1 isRequired, by
      rw [naming?_eq_some_iff.2 ⟨rfl, isNamed⟩]
      rfl⟩
  obtain ⟨first, isFirst⟩ := Option.isSome_iff_exists.1 isFound
  obtain ⟨before, term, after, isSplit, isTerm, noneBefore⟩ :=
    List.findSome?_eq_some_iff.1 isFirst
  obtain ⟨rfl, isNamed⟩ := naming?_eq_some_iff.1 isTerm
  refine ⟨first, isSearch.trans isFirst, requires_iff.2 ?_, isNamed, ?_⟩
  · simp [isSplit]
  · intro other isRequired isNamedAlso
    rw [requires_iff, isSplit] at isRequired
    rw [isSplit] at inOrder
    rcases List.mem_append.1 isRequired with isBefore | isRequired
    · have impossible := noneBefore _ isBefore
      rw [naming?_eq_some_iff.2 ⟨rfl, isNamedAlso⟩] at impossible
      cases impossible
    · rcases List.mem_cons.1 isRequired with same | isAfter
      · exact .inl (Term.identifier.inj same).symm
      · exact .inr ((List.pairwise_cons.1 (List.pairwise_append.1 inOrder).2.1).1 _ isAfter)

end ReadingOrder

end Source

namespace Draft

section Variables

variable {τ : Type} {reads : Source.Term → τ → Prop}

/-- What arguments mean are the meanings of their terms, perhaps in another order. -/
theorem ReadsArgs.exists_perm {source : Source.Args} {args : Args τ}
    (isRead : ReadsArgs reads source args) :
    ∃ results, results.Perm args.terms ∧ List.Forall₂ reads source.terms results := by
  cases isRead with
  | @ordered terms results areRead => exact ⟨results, .refl _, areRead⟩
  | @named fields results areRead distinct =>
      refine ⟨results.map Prod.snd, ((Record.perm_entries_ofList distinct).map _).symm, ?_⟩
      change List.Forall₂ reads (fields.map Prod.snd) (results.map Prod.snd)
      rw [List.forall₂_map_left_iff, List.forall₂_map_right_iff]
      exact areRead.imp fun _ _ => And.right

/-- The variables among terms are the identifiers that they are read from. -/
def ReadsNames (var? : τ → Option String) (reads : Source.Term → τ → Prop) : Prop :=
  ∀ ⦃term result⦄, reads term result → ∀ name,
    var? result = some name ↔ ∃ token, term = .identifier token ∧ token.lexeme = name

/-- The variables of heads are the identifiers that they are read from. -/
theorem readsNames_headTerm : ReadsNames HeadTerm.var? ReadsHeadTerm := by
  intro term result isRead name
  cases isRead <;> simp [HeadTerm.var?]

/-- The variables of bodies are the identifiers that they are read from. -/
theorem readsNames_term : ReadsNames Term.var? ReadsTerm := by
  intro term result isRead name
  cases isRead <;> simp [Term.var?]

/-- The variables of an atom are those that are named in it. -/
theorem ReadsNames.mem_filterMap_iff {var? : τ → Option String} (readsNames : ReadsNames var? reads)
    {source : Source.Atom} {atom : AtomOf τ} (isRead : ReadsAtom reads source atom)
    {name : String} :
    name ∈ atom.terms.filterMap var? ↔ source.Names name := by
  obtain ⟨results, perm, areRead⟩ := isRead.args.exists_perm
  have named := exists_mem_iff_of_forall₂ areRead fun term result isRead =>
    (readsNames isRead name).symm
  simp only [perm.mem_iff] at named
  rw [List.mem_filterMap]
  refine named.symm.trans ⟨?_, ?_⟩
  · rintro ⟨_, isTerm, token, rfl, isNamed⟩
    exact ⟨token, isTerm, isNamed⟩
  · rintro ⟨token, isTerm, isNamed⟩
    exact ⟨_, isTerm, token, rfl, isNamed⟩

end Variables

section Demands

variable {head : Source.Atom} {body : List Source.Literal} {rule : Rule} {name : String}

/-- The variables of a comparison are the identifiers that are compared. -/
theorem ReadsConstraint.mem_variables_iff {left right : Source.Term} {operator : Source.Token}
    {constraint : Constraint} (isRead : ReadsConstraint left operator right constraint) :
    name ∈ constraint.variables ↔ ∃ token, (left = .identifier token ∨ right = .identifier token) ∧
      token.lexeme = name := by
  cases isRead with
  | comparison found operator _ isRight _ =>
      rw [Constraint.variables, List.mem_cons, Option.mem_toList, readsNames_term isRight name]
      constructor
      · rintro (rfl | ⟨token, rfl, isNamed⟩)
        · exact ⟨found, .inl rfl, rfl⟩
        · exact ⟨token, .inr rfl, isNamed⟩
      · rintro ⟨token, same | rfl, isNamed⟩
        · obtain rfl := Source.Term.identifier.inj same
          exact .inl isNamed.symm
        · exact .inr ⟨token, rfl, isNamed⟩

/-- A variable is bound in a rule if the body binds it. -/
theorem ReadsRule.contains_boundVariables_iff (isRead : ReadsRule head body rule) :
    rule.boundVariables.contains name = true ↔ Source.Binds body name := by
  rw [Rule.contains_boundVariables]
  refine (exists_mem_iff_of_forall₂ (readsBody_iff.1 isRead.body).1 fun source atom isAtom =>
    (readsNames_term.mem_filterMap_iff isAtom).symm).symm.trans ?_
  simp only [Source.Binds, Source.Literal.mem_filterMap_positive?]

/-- The variables that need values in a rule are those of the identifiers that it requires. -/
theorem ReadsRule.mem_demands_iff (isRead : ReadsRule head body rule) {place : Place} :
    (name, place) ∈ rule.demands ↔
      ∃ token, Source.Requires head body place token ∧ token.lexeme = name := by
  obtain ⟨_, negated, comparisons⟩ := readsBody_iff.1 isRead.body
  rw [Rule.mem_demands_iff]
  cases place with
  | head =>
      refine (readsNames_headTerm.mem_filterMap_iff isRead.head).trans ?_
      exact exists_congr fun token => and_congr_left' ⟨.head, fun isRequired => by
        cases isRequired; assumption⟩
  | negatedAtom =>
      rw [Rule.variablesAt, List.mem_flatMap]
      refine (exists_mem_iff_of_forall₂ negated fun source atom isAtom =>
        (readsNames_term.mem_filterMap_iff isAtom).symm).symm.trans ?_
      constructor
      · rintro ⟨atom, inBody, token, isTerm, isNamed⟩
        exact ⟨token, .negatedAtom (Source.Literal.mem_filterMap_negated?.1 inBody) isTerm, isNamed⟩
      · rintro ⟨token, isRequired, isNamed⟩
        cases isRequired with
        | negatedAtom inBody isTerm =>
            exact ⟨_, Source.Literal.mem_filterMap_negated?.2 inBody, token, isTerm, isNamed⟩
  | constraint =>
      rw [Rule.variablesAt, List.mem_flatMap]
      refine (exists_mem_iff_of_forall₂ comparisons fun parts constraint isConstraint =>
        isConstraint.mem_variables_iff.symm).symm.trans ?_
      constructor
      · rintro ⟨⟨left, operator, right⟩, inBody, token, isOperand, isNamed⟩
        have inBody := Source.Literal.mem_filterMap_comparison?.1 inBody
        rcases isOperand with rfl | rfl
        · exact ⟨token, .left inBody, isNamed⟩
        · exact ⟨token, .right inBody, isNamed⟩
      · rintro ⟨token, isRequired, isNamed⟩
        cases isRequired with
        | left inBody =>
            exact ⟨_, Source.Literal.mem_filterMap_comparison?.2 inBody, token, .inl rfl, isNamed⟩
        | right inBody =>
            exact ⟨_, Source.Literal.mem_filterMap_comparison?.2 inBody, token, .inr rfl, isNamed⟩

end Demands

end Draft

end Datalog
