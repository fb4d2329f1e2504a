import Datalog.Proofs.RuleSet.Statements
import Datalog.Proofs.Source.Completeness
import Datalog.Proofs.Source.Literals
import Datalog.RuleSet.Printer

/-!
# Statements as written

The text of a statement is a clause that states it. `Writes` says that characters, wherever
they stand in a source, are laid out as something with a given meaning. It composes along a
text, and is shown of terms, of lists of items, of atoms, of the parts of bodies and of whole
clauses. Lines of statements are then parsed as clauses that state these and nothing else
(`exists_parse_lines`).
-/

namespace Datalog

/-- A part of the body of a rule. -/
inductive Part where
  | positive (atom : Atom)
  | negated (atom : Atom)
  | comparison (constraint : Constraint)

/-- The text of a part of a body. -/
def Part.text : Part → String
  | positive atom => atom.text
  | negated atom => "not " ++ atom.text
  | comparison constraint => constraint.text

/-- The parts of the body of a rule in the order in which they are printed. -/
def Rule.parts (rule : Rule) : List Part :=
  rule.positive.map .positive ++ rule.negative.map .negated ++ rule.constraints.map .comparison

/-- The text of an atom whose terms have texts. -/
def atomText {τ : Type} (text : τ → String) (atom : AtomOf τ) : String :=
  applicationText atom.relation (atom.args.text text)

/-- The text of a statement with its full stop. -/
def Statement.text : Statement → String
  | .fact atom => atomText Value.text atom ++ "."
  | .rule stated => stated.text

/-- A rule prints the parts of its body behind its head. -/
theorem Rule.text_eq_of_parts {rule : Rule} (nonempty : rule.parts ≠ []) :
    rule.text = rule.head.text ++ " :- " ++ commaSeparated (rule.parts.map Part.text) ++ "." := by
  have isBody : rule.positive.map Atom.text ++
      rule.negative.map (fun atom => "not " ++ atom.text) ++
      rule.constraints.map Constraint.text = rule.parts.map Part.text := by
    rw [parts, List.map_append, List.map_append, List.map_map, List.map_map, List.map_map]
    rfl
  rw [text, isBody, List.isEmpty_eq_false_iff.2 (mt List.map_eq_nil_iff.1 nonempty)]
  exact congrArg (· ++ ".") String.append_assoc.symm

/-- A fact in the shape of its relation has the text of an atom. -/
theorem textIn_shape (atom : AtomOf Value) :
    Fact.textIn ⟨atom.relation, atom.terms⟩ (some atom.shape) = atomText Value.text atom := by
  obtain ⟨relation, args⟩ := atom
  cases args with
  | ordered values => rfl
  | named record =>
      have sameLength : record.fields.length = record.values.length := by
        rw [Record.fields, Record.values, List.length_map, List.length_map]
      have zipped : record.fields.zip (record.values.map Value.text) =
          (record.map Value.text).entries := by
        rw [Record.fields, Record.values, List.map_map, List.zip_map']
        rfl
      change Fact.textIn ⟨relation, record.values⟩ (some (.named record.fields)) = _
      rw [Fact.textIn, if_pos sameLength, zipped]
      rfl

namespace Draft

/-- What a part of a body means. -/
inductive ReadsPart : Source.Literal → Part → Prop where
  | positive {source : Source.Atom} {atom : Atom} (isAtom : ReadsAtom ReadsTerm source atom) :
      ReadsPart (.positive source) (.positive atom)
  | negated {source : Source.Atom} {atom : Atom} (isAtom : ReadsAtom ReadsTerm source atom) :
      ReadsPart (.negated source) (.negated atom)
  | comparison {left right : Source.Term} {operator : Source.Token} {constraint : Constraint}
      (isConstraint : ReadsConstraint left operator right constraint) :
      ReadsPart (.comparison left operator right) (.comparison constraint)

/-- What a wildcard means is one. -/
theorem ReadsTerm.exists_eq_wildcard {token : Source.Token} {term : Term}
    (isRead : ReadsTerm (.wildcard token) term) : ∃ name, term = .wildcard name := by
  cases isRead <;> exact ⟨_, rfl⟩

/-- A body that is written in the order in which it is printed means its parts. -/
theorem readsBody_of_parts {body : List Source.Literal} {positive negative : List Atom}
    {constraints : List Constraint} (areRead : List.Forall₂ ReadsPart body
      (positive.map .positive ++ negative.map .negated ++ constraints.map .comparison)) :
    ReadsBody body positive negative constraints := by
  -- The parts come kind by kind, so each induction begins where the one before it ends.
  induction positive generalizing body with
  | cons atom positive inductionHypothesis =>
      cases areRead with
      | cons isRead rest =>
          cases isRead with
          | positive isAtom => exact .positive isAtom (inductionHypothesis rest)
  | nil =>
      induction negative generalizing body with
      | cons atom negative inductionHypothesis =>
          cases areRead with
          | cons isRead rest =>
              cases isRead with
              | negated isAtom => exact .negated isAtom (inductionHypothesis rest)
      | nil =>
          induction constraints generalizing body with
          | cons constraint constraints inductionHypothesis =>
              cases areRead with
              | cons isRead rest =>
                  cases isRead with
                  | comparison isConstraint =>
                      exact .comparison isConstraint (inductionHypothesis rest)
          | nil =>
              cases areRead
              exact .nil

end Draft

namespace Source

/-- Characters are laid out as something with a meaning, wherever they stand. -/
def Writes {α : Type} (chars : List Char) (means : α → Prop) (pieces : α → List Piece) : Prop :=
  ∀ ⦃start later : Cursor⦄, start.Reads chars later →
    ∃ item, means item ∧ Laid start (pieces item) later

section Composition

variable {α β : Type} {chars others : List Char} {means : α → Prop} {meansAlso : β → Prop}
  {pieces : α → List Piece} {morePieces : β → List Piece}

/-- What is laid out as one thing is laid out as another one of the same pieces. -/
theorem Writes.imp (writes : Writes chars means pieces) (build : α → β)
    (isMeant : ∀ item, means item → meansAlso (build item))
    (samePieces : ∀ item, morePieces (build item) = pieces item) :
    Writes chars meansAlso morePieces := by
  intro start later reads
  obtain ⟨item, means, laid⟩ := writes reads
  exact ⟨build item, isMeant item means, samePieces item ▸ laid⟩

/-- Consecutive characters are laid out one part after the other. -/
theorem Writes.append (writes : Writes chars means pieces)
    (writesOthers : Writes others meansAlso morePieces) :
    Writes (chars ++ others) (fun pair : α × β => means pair.1 ∧ meansAlso pair.2)
      fun pair => pieces pair.1 ++ morePieces pair.2 := by
  intro start later reads
  obtain ⟨middle, readsFirst, readsSecond⟩ := reads.exists_of_append
  obtain ⟨first, isFirst, laidFirst⟩ := writes readsFirst
  obtain ⟨second, isSecond, laidSecond⟩ := writesOthers readsSecond
  exact ⟨(first, second), ⟨isFirst, isSecond⟩, laidFirst.append laidSecond⟩

/-- What has a first piece may stand behind a blank. -/
theorem Writes.behindBlank (writes : Writes chars means pieces)
    (nonempty : ∀ item, means item → pieces item ≠ []) : Writes (' ' :: chars) means pieces := by
  intro start later reads
  obtain ⟨afterBlank, readsBlank, reads⟩ := reads.exists_of_cons
  obtain ⟨item, isMeant, laid⟩ := writes reads
  obtain ⟨piece, rest, isFirst⟩ := List.exists_cons_of_ne_nil (nonempty item isMeant)
  have isGap : Gap [' '] afterBlank.rest := .blank rfl (.nil _)
  rw [isFirst] at laid
  have laidBehind := Parser.laid_of_reads readsBlank isGap laid
  exact ⟨item, isMeant, isFirst ▸ laidBehind⟩

/-- Nothing is laid out where no characters stand. -/
theorem laid_nil {start later : Cursor} (reads : start.Reads [] later) : Laid start [] later :=
  .stop (by rw [reads.eq_skip]; rfl)

/-- A lexeme is laid out as a token. -/
theorem writes_lexeme (lexeme : String) :
    Writes lexeme.toList (fun token => token.lexeme = lexeme) fun token => [.token token] :=
  fun start _ reads =>
    ⟨⟨lexeme, start.offset⟩, rfl, .cons (.nil _) (.nil _) reads rfl (.nil _)⟩

/-- Punctuation is laid out as such. -/
theorem writes_mark (chars : List Char) :
    Writes chars (fun _ : Unit => True) fun _ => [.mark chars] :=
  fun _ _ reads => ⟨(), trivial, .cons (.nil _) (.nil _) reads trivial (.nil _)⟩

/-- A lexeme that leads a part of a body is not taken for a negation if it is another word or
if no blank follows it. -/
theorem writes_leading {lexeme : String} (writes : Writes others meansAlso morePieces)
    (noNegation : lexeme = "not" → StartsWith (!Text.isBlank ·) others) :
    Writes (lexeme.toList ++ others)
      (fun pair : Token × β => pair.1.lexeme = lexeme ∧ meansAlso pair.2)
      fun pair => .leading pair.1 :: morePieces pair.2 := by
  intro start later reads
  obtain ⟨middle, readsFirst, readsSecond⟩ := reads.exists_of_append
  obtain ⟨item, isMeant, laid⟩ := writes readsSecond
  refine ⟨(⟨lexeme, start.offset⟩, item), ⟨rfl, isMeant⟩, ?_⟩
  refine .cons (.nil _) (.nil _) readsFirst ⟨rfl, fun isNot beginsBlank => ?_⟩ laid
  obtain ⟨first, rest, rfl, notBlank⟩ := noNegation isNot
  rw [readsSecond.rest] at beginsBlank
  exact absurd beginsBlank (Bool.eq_false_iff.1 (Bool.not_eq_true' _ ▸ notBlank))

/-- The word that negates is laid out as such in front of a blank. -/
theorem writes_negation (writes : Writes others meansAlso morePieces)
    (nonempty : ∀ item, meansAlso item → morePieces item ≠ []) :
    Writes (['n', 'o', 't'] ++ ' ' :: others) meansAlso
      fun item => .negation :: morePieces item := by
  intro start later reads
  obtain ⟨middle, readsWord, readsOthers⟩ := reads.exists_of_append
  obtain ⟨item, isMeant, laid⟩ := writes.behindBlank nonempty readsOthers
  refine ⟨item, isMeant, .cons (.nil _) (.nil _) readsWord ?_ laid⟩
  change BeginsBlank middle.rest
  rw [readsOthers.rest]
  rfl

end Composition

section Lists

variable {α β : Type} {means : β → α → Prop} {pieces : α → List Piece}
  {chars : β → List Char} {results : List β}

/-- Items behind commas are laid out one after the other, if each has a first piece. -/
theorem writes_others (writes : ∀ result ∈ results, Writes (chars result) (means result) pieces)
    (nonempty : ∀ item, pieces item ≠ []) :
    Writes (results.flatMap fun result => [',', ' '] ++ chars result)
      (fun items => List.Forall₂ means results items)
      (fun items => items.flatMap fun item => .mark [','] :: pieces item) := by
  induction results with
  | nil => exact fun _ _ reads => ⟨[], .nil, laid_nil reads⟩
  | cons result results inductionHypothesis =>
      obtain ⟨writesFirst, writes⟩ := List.forall_mem_cons.1 writes
      have writesItem := (writes_mark [',']).append (writesFirst.behindBlank fun item _ => nonempty item)
      refine (writesItem.append (inductionHypothesis writes)).imp
        (fun parts => parts.1.2 :: parts.2) ?_ fun _ => rfl
      rintro ⟨⟨_, item⟩, items⟩ ⟨⟨_, isMeant⟩, areMeant⟩
      exact .cons isMeant areMeant

/-- Items with a comma and a blank between them begin with the first. -/
theorem intercalate_cons {separator first : List Char} {others : List (List Char)} :
    separator.intercalate (first :: others) =
      first ++ others.flatMap fun other => separator ++ other := by
  induction others generalizing first with
  | nil => simp
  | cons second others inductionHypothesis =>
      rw [List.intercalate_cons_cons, inductionHypothesis, List.flatMap_cons, List.append_assoc,
        List.append_assoc]

/-- Items with a comma and a blank between them are laid out as a list. -/
theorem writes_listed (writes : ∀ result ∈ results, Writes (chars result) (means result) pieces)
    (nonempty : ∀ item, pieces item ≠ []) :
    Writes ([',', ' '].intercalate (results.map chars))
      (fun items => List.Forall₂ means results items) (listed pieces) := by
  cases results with
  | nil => exact fun _ _ reads => ⟨[], .nil, laid_nil reads⟩
  | cons first others =>
      obtain ⟨writesFirst, writes⟩ := List.forall_mem_cons.1 writes
      rw [List.map_cons, intercalate_cons, List.flatMap_map]
      refine (writesFirst.append (writes_others writes nonempty)).imp
        (fun parts => parts.1 :: parts.2) ?_ fun _ => rfl
      rintro ⟨item, items⟩ ⟨isMeant, areMeant⟩
      exact .cons isMeant areMeant

/-- The characters of items with a comma and a blank between them. -/
theorem toList_commaSeparated (items : List String) :
    (commaSeparated items).toList = [',', ' '].intercalate (items.map String.toList) :=
  String.toList_intercalate

end Lists

section Atoms

variable {τ : Type} {text : τ → String} {reads : Term → τ → Prop}

/-- A term whose text is laid out as a term with this meaning. -/
def Written (text : τ → String) (reads : Term → τ → Prop) (result : τ) : Prop :=
  Writes (text result).toList (fun term => term.WellFormed ∧ reads term result) Term.pieces

/-- What is read from a token of one kind is written as the lexeme of that token. -/
theorem written_of_token {result : τ} (kind : Token → Term)
    (sameToken : ∀ token, (kind token).token = token)
    (isTerm : ∀ token, token.lexeme = text result →
      (kind token).WellFormed ∧ reads (kind token) result) : Written text reads result :=
  (writes_lexeme (text result)).imp kind isTerm fun token =>
    congrArg (fun found => [Piece.token found]) (sameToken token)

/-- A shape whose field names, if it has any, are names in ascending order, and not none. -/
inductive WritableShape : Shape → Prop where
  | ordered (arity : Nat) : WritableShape (.ordered arity)
  | named {fields : List String} (nonempty : fields ≠ [])
      (areNames : ∀ field ∈ fields, IsName field.toList)
      (ascending : fields.Pairwise fun earlier later => compare earlier later = .lt) :
      WritableShape (.named fields)

/-- A name applied, in a shape that can be written, to terms that are written as they are
read. -/
structure WritableAtom (text : τ → String) (reads : Term → τ → Prop) (atom : AtomOf τ) :
    Prop where
  isName : IsName atom.relation.toList
  shape : WritableShape atom.shape
  areWritten : ∀ term ∈ atom.terms, Written text reads term

/-- A name and the text of a term are laid out as a field. -/
theorem writes_field {entry : String × τ} (isName : IsName entry.1.toList)
    (isWritten : Written text reads entry.2) :
    Writes (entry.1 ++ ": " ++ text entry.2).toList
      (fun field => FieldWellFormed field ∧
        field.1.lexeme = entry.1 ∧ reads field.2 entry.2) fieldPieces := by
  rw [String.toList_append, String.toList_append, List.append_assoc]
  refine ((writes_lexeme entry.1).append ((writes_mark [':']).append
    (isWritten.behindBlank fun _ _ => List.cons_ne_nil _ _))).imp
      (fun parts => (parts.1, parts.2.2)) ?_ fun _ => rfl
  rintro ⟨token, _, term⟩ ⟨sameName, _, wellFormed, isRead⟩
  exact ⟨⟨(congrArg (IsName ·.toList) sameName).mpr isName, wellFormed⟩, sameName, isRead⟩

/-- The text of arguments is laid out as arguments. -/
theorem writes_args {args : Datalog.Args τ} (writable : WritableShape args.shape)
    (areWritten : ∀ term ∈ args.terms, Written text reads term) :
    Writes (args.text text).toList
      (fun source => source.WellFormed ∧ Draft.ReadsArgs reads source args) Args.pieces := by
  cases args with
  | ordered terms =>
      rw [Datalog.Args.text, toList_commaSeparated, List.map_map]
      refine (writes_listed areWritten fun _ => List.cons_ne_nil _ _).imp .ordered ?_ fun _ => rfl
      intro sources areMeant
      refine ⟨.ordered fun source member => ?_, .ordered ?_⟩
      · obtain ⟨_, _, wellFormed, _⟩ := exists_mem_of_forall₂ areMeant.flip member
        exact wellFormed
      · exact (areMeant.imp fun _ _ => And.right).flip
  | named record =>
      cases writable with
      | named nonempty areNames _ =>
          have writesFields : ∀ entry ∈ record.entries,
              Writes (entry.1 ++ ": " ++ text entry.2).toList
                (fun field => FieldWellFormed field ∧
                  field.1.lexeme = entry.1 ∧ reads field.2 entry.2) fieldPieces :=
            fun entry member => writes_field (areNames _ (List.mem_map_of_mem member))
              (areWritten _ (List.mem_map_of_mem member))
          rw [Datalog.Args.text, toList_commaSeparated, fieldTexts, Record.map, List.map_map,
            List.map_map]
          refine (writes_listed writesFields fun _ => List.cons_ne_nil _ _).imp
            .named ?_ fun _ => rfl
          intro fields areMeant
          have areRead := (areMeant.imp fun _ _ => And.right).flip
          refine ⟨.named ?_ fun field member => ?_, ?_⟩
          · rintro rfl
            exact nonempty (congrArg (List.map Prod.fst) (List.forall₂_nil_right_iff.1 areMeant))
          · obtain ⟨_, _, wellFormed, _⟩ := exists_mem_of_forall₂ areMeant.flip member
            exact wellFormed
          · rw [← Record.ofList_entries record]
            exact .named areRead record.nodup_fields

/-- A constant is written as the literal of its value. -/
theorem written_literal {result : τ} {value : Value}
    (denotes : Denotes (text result).toList value)
    (isRead : ∀ token, reads (.literal token value) result) : Written text reads result :=
  written_of_token (.literal · value) (fun _ => rfl) fun token isText =>
    ⟨.literal (isText ▸ denotes), isRead token⟩

/-- A variable is written as its name. -/
theorem written_identifier {result : τ} (isName : IsName (text result).toList)
    (isFree : text result ∉ reservedNames)
    (isRead : ∀ token, token.lexeme = text result → reads (.identifier token) result) :
    Written text reads result :=
  written_of_token .identifier (fun _ => rfl) fun token isText =>
    ⟨.identifier (isText ▸ isName) (isText ▸ isFree), isRead token isText⟩

/-- A wildcard is written as its name. -/
theorem written_wildcard {result : τ} (isWildcard : IsWildcard (text result).toList)
    (isRead : ∀ token, token.lexeme = text result → reads (.wildcard token) result) :
    Written text reads result :=
  written_of_token .wildcard (fun _ => rfl) fun token isText =>
    ⟨.wildcard (isText ▸ isWildcard), isRead token isText⟩

/-- A value that its text denotes is written as it is read. -/
theorem written_value {value : Value} (denotes : Denotes value.text.toList value) :
    Written Value.text Draft.ReadsValue value :=
  written_literal denotes (.literal · value)

/-- Terms, one for each place of a shape, are arguments in that shape. -/
theorem WritableShape.exists_args {shape : Shape} (writable : WritableShape shape)
    {terms : List τ} (arity : shape.arity = terms.length) :
    ∃ args : Datalog.Args τ, args.shape = shape ∧ args.terms = terms := by
  cases writable with
  | ordered => exact ⟨.ordered terms, congrArg Shape.ordered arity.symm, rfl⟩
  | @named fields _ _ ascending =>
      have sameFields : (fields.zip terms).map Prod.fst = fields := List.map_fst_zip arity.le
      have sameTerms : (fields.zip terms).map Prod.snd = terms := List.map_snd_zip arity.ge
      rw [← sameFields] at ascending
      exact ⟨.named ⟨fields.zip terms, List.pairwise_map.1 ascending⟩,
        congrArg Shape.named sameFields, sameTerms⟩

/-- A fact that has a value for each place of a shape is an atom in that shape. -/
theorem exists_atom {fact : Fact} {shape : Shape} (isName : IsName fact.relation.toList)
    (denoted : ∀ value ∈ fact.values, Denotes value.text.toList value)
    (writable : WritableShape shape) (arity : shape.arity = fact.values.length) :
    ∃ atom : AtomOf Value, WritableAtom Value.text Draft.ReadsValue atom ∧
      (⟨atom.relation, atom.terms⟩ : Fact) = fact ∧ atom.shape = shape := by
  obtain ⟨args, rfl, sameTerms⟩ := writable.exists_args arity
  rw [← sameTerms] at denoted
  exact ⟨⟨fact.relation, args⟩,
    ⟨isName, writable, fun value member => written_value (denoted value member)⟩,
    congrArg (Fact.mk fact.relation) sameTerms, rfl⟩

variable {atom : AtomOf τ}

/-- The characters of an atom: its relation, and its arguments in parentheses. -/
theorem toList_atomText (text : τ → String) (atom : AtomOf τ) :
    (atomText text atom).toList =
      atom.relation.toList ++ (['('] ++ ((atom.args.text text).toList ++ [')'])) := by
  rw [atomText, applicationText, String.toList_append, String.toList_append,
    String.toList_append, List.append_assoc, List.append_assoc]
  rfl

/-- Arguments in parentheses are laid out as such. -/
theorem writes_arguments (writable : WritableAtom text reads atom) :
    Writes (['('] ++ ((atom.args.text text).toList ++ [')']))
      (fun args => args.WellFormed ∧ Draft.ReadsArgs reads args atom.args)
      fun args => .mark ['('] :: args.pieces ++ [.mark [')']] :=
  ((writes_mark ['(']).append
      ((writes_args writable.shape writable.areWritten).append (writes_mark [')']))).imp
    (fun parts => parts.2.1) (fun _ areMeant => areMeant.2.1) fun _ => rfl

/-- The text of an atom is laid out as an atom. -/
theorem writes_atom (writable : WritableAtom text reads atom) :
    Writes (atomText text atom).toList
      (fun source => source.WellFormed ∧ Draft.ReadsAtom reads source atom) Atom.pieces := by
  rw [toList_atomText]
  refine ((writes_lexeme atom.relation).append (writes_arguments writable)).imp
    (fun parts => ⟨parts.1, parts.2⟩) ?_ fun _ => rfl
  rintro ⟨token, args⟩ ⟨sameName, wellFormed, areRead⟩
  exact ⟨⟨(congrArg (IsName ·.toList) sameName).mpr writable.isName, wellFormed⟩,
    sameName.symm, areRead⟩

end Atoms

/-- A comparison between a variable whose name is not the word that negates and a term that is
no wildcard. -/
structure WritableConstraint (constraint : Constraint) : Prop where
  isName : IsName constraint.left.toList
  isFree : constraint.left ∉ reservedNames
  noNegation : constraint.left ≠ "not"
  isWritten : Written Datalog.Term.text Draft.ReadsTerm constraint.right
  noWildcard : ∀ name, constraint.right ≠ .wildcard name

/-- A part of a body that can be written. -/
inductive WritablePart : Part → Prop where
  | positive {atom : Datalog.Atom}
      (isAtom : WritableAtom Datalog.Term.text Draft.ReadsTerm atom) :
      WritablePart (.positive atom)
  | negated {atom : Datalog.Atom}
      (isAtom : WritableAtom Datalog.Term.text Draft.ReadsTerm atom) :
      WritablePart (.negated atom)
  | comparison {constraint : Constraint} (isConstraint : WritableConstraint constraint) :
      WritablePart (.comparison constraint)

/-- A statement that can be written. A rule has a body, and is safe. -/
inductive WritableStatement : Statement → Prop where
  | fact {atom : AtomOf Value} (isAtom : WritableAtom Value.text Draft.ReadsValue atom) :
      WritableStatement (.fact atom)
  | rule {rule : Rule} (head : WritableAtom HeadTerm.text Draft.ReadsHeadTerm rule.head)
      (nonempty : rule.parts ≠ []) (body : ∀ part ∈ rule.parts, WritablePart part)
      (safe : rule.Safe) : WritableStatement (.rule rule)

/-- The symbol of a comparison is an operator. -/
theorem isOperator_symbol (comparison : Comparison) : IsOperator comparison.symbol.toList := by
  cases comparison <;> exact ⟨by decide, by decide⟩

/-- The text of a comparison is laid out as a comparison. -/
theorem writes_constraint {constraint : Constraint} (writable : WritableConstraint constraint) :
    Writes constraint.text.toList
      (fun literal => literal.WellFormed ∧ Draft.ReadsPart literal (.comparison constraint))
      Literal.pieces := by
  obtain ⟨name, comparison, operand⟩ := constraint
  have isText : (Constraint.mk name comparison operand).text.toList =
      name.toList ++ ((' ' :: comparison.symbol.toList) ++ ' ' :: operand.text.toList) := by
    simp [Constraint.text]
  rw [isText]
  have writesOperator := (writes_lexeme comparison.symbol).behindBlank
    fun _ _ => List.cons_ne_nil _ _
  have writesRight := writable.isWritten.behindBlank fun _ _ => List.cons_ne_nil _ _
  refine (writes_leading (writesOperator.append writesRight)
    fun isNot => absurd isNot writable.noNegation).imp
      (fun parts => .comparison (.identifier parts.1) parts.2.1 parts.2.2) ?_ fun _ => rfl
  rintro ⟨⟨_, offset⟩, operator, right⟩ ⟨rfl, isSymbol, wellFormed, isRead⟩
  -- Only a wildcard could have been read from one, and the operand is none.
  have noWildcard : ∀ token, right ≠ .wildcard token := by
    rintro token rfl
    obtain ⟨wildcard, isWildcard⟩ := isRead.exists_eq_wildcard
    exact writable.noWildcard wildcard isWildcard
  have isOperator : operator.lexeme = comparison.symbol := isSymbol
  refine ⟨.comparison (.identifier writable.isName writable.isFree) ?_ wellFormed,
    .comparison (.comparison ⟨_, offset⟩ operator ?_ isRead noWildcard)⟩
  · rw [isOperator]
    exact isOperator_symbol comparison
  · rw [isOperator]
    exact Comparison.ofLexeme?_symbol comparison

/-- The text of a part of a body is laid out as such a part. -/
theorem writes_part {part : Part} (writable : WritablePart part) :
    Writes part.text.toList
      (fun literal => literal.WellFormed ∧ Draft.ReadsPart literal part) Literal.pieces := by
  cases writable with
  | @positive atom isAtom =>
      change Writes (atomText Datalog.Term.text atom).toList _ _
      rw [toList_atomText]
      refine (writes_leading (writes_arguments isAtom) fun _ => ⟨'(', _, rfl, rfl⟩).imp
        (fun parts => .positive ⟨parts.1, parts.2⟩) ?_ fun _ => rfl
      rintro ⟨⟨_, offset⟩, args⟩ ⟨rfl, wellFormed, areRead⟩
      exact ⟨.positive ⟨isAtom.isName, wellFormed⟩, .positive ⟨rfl, areRead⟩⟩
  | @negated atom isAtom =>
      change Writes ("not " ++ atomText Datalog.Term.text atom).toList _ _
      rw [String.toList_append]
      exact (writes_negation (writes_atom isAtom) fun _ _ => List.cons_ne_nil _ _).imp .negated
        (fun _ isMeant => ⟨.negated isMeant.1, .negated isMeant.2⟩) fun _ => rfl
  | comparison isConstraint => exact writes_constraint isConstraint

/-- Parts of bodies have a first piece. -/
theorem Literal.pieces_ne_nil (literal : Literal) : literal.pieces ≠ [] := by
  cases literal <;> exact List.cons_ne_nil _ _

/-- The text of a rule is laid out as a clause that states it. -/
theorem writes_rule {rule : Rule}
    (head : WritableAtom HeadTerm.text Draft.ReadsHeadTerm rule.head)
    (nonempty : rule.parts ≠ []) (body : ∀ part ∈ rule.parts, WritablePart part)
    (safe : rule.Safe) :
    Writes rule.text.toList
      (fun clause => clause.WellFormed ∧ Draft.ReadsClause clause (.rule rule))
      Clause.pieces := by
  have isText : rule.text.toList = (atomText HeadTerm.text rule.head).toList ++
      ((' ' :: [':', '-']) ++
        ((' ' :: [',', ' '].intercalate (rule.parts.map (·.text.toList))) ++ ['.'])) := by
    rw [Rule.text_eq_of_parts nonempty, String.toList_append, String.toList_append,
      String.toList_append, toList_commaSeparated, List.map_map, List.append_assoc,
      List.append_assoc]
    rfl
  rw [isText]
  have writesBody : Writes (' ' :: [',', ' '].intercalate (rule.parts.map (·.text.toList)))
      (fun literals => List.Forall₂ (fun part literal =>
        literal.WellFormed ∧ Draft.ReadsPart literal part) rule.parts literals)
      (listed Literal.pieces) := by
    refine (writes_listed (fun part member => writes_part (body part member))
      Literal.pieces_ne_nil).behindBlank fun literals areMeant => ?_
    obtain ⟨part, others, isFirst⟩ := List.exists_cons_of_ne_nil nonempty
    rw [isFirst] at areMeant
    cases areMeant
    exact List.append_ne_nil_of_left_ne_nil (Literal.pieces_ne_nil _) _
  refine ((writes_atom head).append ((writes_mark [':', '-']).behindBlank
    (fun _ _ => List.cons_ne_nil _ _) |>.append (writesBody.append (writes_mark ['.'])))).imp
      (fun parts => .rule parts.1 parts.2.2.1) ?_ fun _ => ?_
  · rintro ⟨source, _, literals, _⟩ ⟨⟨wellFormed, isHead⟩, _, areMeant, _⟩
    refine ⟨.rule wellFormed ?_ fun literal member => ?_,
      .rule ⟨isHead, Draft.readsBody_of_parts (areMeant.imp fun _ _ => And.right).flip⟩ safe⟩
    · rintro rfl
      exact nonempty (List.forall₂_nil_right_iff.1 areMeant)
    · obtain ⟨_, _, wellFormed, _⟩ := exists_mem_of_forall₂ areMeant.flip member
      exact wellFormed
  · simp [Clause.pieces]

/-- The text of a statement is laid out as a clause that states it. -/
theorem writes_statement {statement : Statement} (writable : WritableStatement statement) :
    Writes statement.text.toList
      (fun clause => clause.WellFormed ∧ Draft.ReadsClause clause statement) Clause.pieces := by
  cases writable with
  | @fact atom isAtom =>
      change Writes (atomText Value.text atom ++ ".").toList _ _
      rw [String.toList_append]
      exact ((writes_atom isAtom).append (writes_mark ['.'])).imp (fun parts => .fact parts.1)
        (fun _ areMeant => ⟨.fact areMeant.1.1, .fact areMeant.1.2⟩) fun _ => rfl
  | rule head nonempty body safe => exact writes_rule head nonempty body safe

section Lines

variable {statements : List Statement}

/-- Lines of statements are laid out as clauses, each behind the end of the line before it. -/
theorem exists_laid_lines (writable : ∀ statement ∈ statements, WritableStatement statement)
    {cursor : Cursor} {gap : List Char} (areBlank : ∀ char ∈ gap, Text.isBlank char = true)
    (isRest : cursor.rest =
      gap ++ statements.flatMap fun statement => statement.text.toList ++ ['\n']) :
    ∃ clauses last, List.Forall₂ (fun statement clause =>
        clause.WellFormed ∧ Draft.ReadsClause clause statement) statements clauses ∧
      Laid cursor (clauses.flatMap Clause.pieces) last ∧ Gap last.rest [] := by
  induction statements generalizing cursor gap with
  | nil =>
      rw [List.flatMap_nil, List.append_nil] at isRest
      exact ⟨[], cursor, .nil, .nil cursor, isRest ▸ .blanks areBlank []⟩
  | cons statement statements inductionHypothesis =>
      obtain ⟨isWritable, writable⟩ := List.forall_mem_cons.1 writable
      rw [List.flatMap_cons, List.append_assoc] at isRest
      have readsGap : cursor.Reads gap (cursor.skip gap) := .skip ⟨_, isRest.symm⟩
      have isNext := readsGap.rest.symm.trans isRest
      rw [List.append_cancel_left_eq] at isNext
      have readsClause := Cursor.Reads.skip ⟨_, isNext.symm⟩
      obtain ⟨clause, isMeant, laidClause⟩ := writes_statement isWritable readsClause
      have isBehind := readsClause.rest.symm.trans isNext
      rw [List.append_cancel_left_eq] at isBehind
      have lineEnd : ∀ char ∈ ['\n'], Text.isBlank char = true := by decide
      obtain ⟨clauses, last, areMeant, laidOthers, isGap⟩ :=
        inductionHypothesis writable lineEnd isBehind
      obtain ⟨relation, pieces, _, isFirst⟩ := isMeant.1.exists_pieces_eq
      rw [isFirst] at laidClause
      have laidBehind := Parser.laid_of_reads readsGap (.blanks areBlank _) laidClause
      rw [← isFirst] at laidBehind
      exact ⟨clause :: clauses, last, .cons isMeant areMeant, laidBehind.append laidOthers, isGap⟩

/-- Lines of statements are parsed as clauses that state these. -/
theorem exists_parse_lines (writable : ∀ statement ∈ statements, WritableStatement statement) :
    ∃ clauses, parse (lines (statements.map Statement.text)) = .ok clauses ∧
      List.Forall₂ Draft.ReadsClause clauses statements := by
  have isRest : (Cursor.start (lines (statements.map Statement.text))).rest =
      [] ++ statements.flatMap fun statement => statement.text.toList ++ ['\n'] := by
    rw [Cursor.start, lines, String.toList_join, List.map_map, List.flatMap_map]
    exact List.flatMap_congr fun statement _ => String.toList_append
  obtain ⟨clauses, last, areMeant, laid, isGap⟩ :=
    exists_laid_lines writable (fun _ member => by cases member) isRest
  refine ⟨clauses, parse_eq_ok_iff.2 (readClauses_of_laid (Nat.le_refl _) ?_ laid isGap), ?_⟩
  · intro clause member
    obtain ⟨_, _, wellFormed, _⟩ := exists_mem_of_forall₂ areMeant.flip member
    exact wellFormed
  · exact (areMeant.imp fun _ _ => And.right).flip

end Lines

end Source

end Datalog
