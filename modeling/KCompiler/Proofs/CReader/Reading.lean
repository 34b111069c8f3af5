import KCompiler.Proofs.CReader.Expression
import KCompiler.Proofs.Emission.Lexicon
import KCompiler.Proofs.WellFormed

/-! # How C groups emitted expressions

Every operation is emitted in parentheses, so that C reads it as it was. Only a cast stands
without, and an operator behind it binds to the operand of the cast and not to the cast.
-/

namespace KCompiler

/-- An expression as C groups it: an operator behind a cast goes to the operand of the cast. -/
def Expr.regrouped : Expr → Expr
  | .unary op .behind (.cast operand target) => .cast (.unary op .behind operand.regrouped) target
  | .unary op side operand => .unary op side operand.regrouped
  | .binary op lhs rhs => .binary op lhs.regrouped rhs.regrouped
  | .cast operand target => .cast operand.regrouped target
  | .ident name => .ident name
  | .literal value => .literal value
  | .call callee typeArgs args => .call callee typeArgs args

/-- Expressions that C can express: types are names, and nothing is called. -/
def Expr.Readable : Expr → Prop
  | .ident _ => True
  | .literal _ => True
  | .binary _ lhs rhs => lhs.Readable ∧ rhs.Readable
  | .unary op side operand => op.standsOn side ∧ operand.Readable
  | .cast operand target => operand.Readable ∧ ∃ name, target = .named name
  | .call _ _ _ => False

def Expr.isCast : Expr → Bool
  | .cast _ _ => true
  | _ => false

namespace C

open Reading

/-- A reader gives an expression and leaves some words. -/
def Reads {input : List Word} (reading : Option (Reading input)) (expr : Expr)
    (rest : List Word) : Prop :=
  ∃ hlength, reading = some ⟨expr, rest, hlength⟩

section Reads

variable {input rest : List Word} {reading : Option (Reading input)} {expr : Expr}

theorem reads_done (expr : Expr) (input : List Word) :
    Reads (done expr : Option (Reading input)) expr input :=
  ⟨_, rfl⟩

theorem Reads.behind (hreads : Reads reading expr rest) (word : Word) :
    Reads (behind word reading) expr rest := by
  obtain ⟨hlength, rfl⟩ := hreads
  exact ⟨_, rfl⟩

theorem Reads.map (hreads : Reads reading expr rest) (f : Expr → Expr) :
    Reads (map f reading) (f expr) rest := by
  obtain ⟨hlength, rfl⟩ := hreads
  exact ⟨_, rfl⟩

theorem Reads.andThen {left : List Word} {result : Expr}
    {next : Expr → (rest : List Word) → rest.length ≤ input.length → Option (Reading rest)}
    (hreads : Reads reading expr rest)
    (hnext : ∀ hlength, Reads (next expr rest hlength) result left) :
    Reads (andThen reading next) result left := by
  obtain ⟨hlength, rfl⟩ := hreads
  obtain ⟨hleft, hsome⟩ := hnext hlength
  refine ⟨Nat.le_trans hleft hlength, ?_⟩
  simp [Reading.andThen, hsome]

end Reads

/-- What stands behind an operand goes on with it neither as an operator nor as an operand. -/
def Stops (rest : List Word) : Prop :=
  ∀ word ∈ rest.head?, trailingOf? word = none ∧ beginsOperand word = false

section Levels

variable {input rest : List Word} {expr lhs rhs : Expr} {op : BinaryOp}

theorem operatorOf?_binary (ops : List BinaryOp) (op : BinaryOp) :
    operatorOf? ops (.op op.operator) = if op ∈ ops then some op else none := by
  rw [operatorOf?, BinaryOp.ofOperator?_eq_some_iff.mpr rfl]
  by_cases hop : op ∈ ops
  · simp [hop]
  · simp [hop]

/-- No operator of some levels stands at the front of some words. -/
def NoOperator (ladder : List (List BinaryOp)) (rest : List Word) : Prop :=
  ∀ ops ∈ ladder, ∀ word ∈ rest.head?, operatorOf? ops word = none

theorem chain_reads_done {ops : List BinaryOp} {tighter : List (List BinaryOp)}
    (hrest : ∀ word ∈ rest.head?, operatorOf? ops word = none) :
    Reads (chain ops tighter expr rest) expr rest := by
  cases rest with
  | nil =>
      rw [chain]
      exact reads_done expr []
  | cons word rest =>
      rw [chain, hrest word rfl]
      exact reads_done expr _

/-- An operand passes through all levels if no operator of theirs follows. -/
theorem binary_reads_operand {ladder : List (List BinaryOp)}
    (hunary : Reads (unary input) expr rest) (hrest : NoOperator ladder rest) :
    Reads (binary ladder input) expr rest := by
  induction ladder with
  | nil =>
      rw [binary]
      exact hunary
  | cons ops tighter ih =>
      obtain ⟨hops, htighter⟩ := List.forall_mem_cons.mp hrest
      rw [binary]
      exact (ih htighter).andThen fun _ => chain_reads_done hops

/-- An operator between two operands is read at its level, and passes through the looser ones. -/
theorem binary_reads {ladder : List (List BinaryOp)} {second : List Word}
    (hnodup : ladder.flatten.Nodup) (hop : op ∈ ladder.flatten)
    (hlhs : Reads (unary input) lhs (.op op.operator :: second))
    (hrhs : Reads (unary second) rhs rest) (hrest : NoOperator ladder rest) :
    Reads (binary ladder input) (.binary op lhs rhs) rest := by
  induction ladder with
  | nil => cases hop
  | cons ops tighter ih =>
      obtain ⟨hnone, htighter⟩ := List.forall_mem_cons.mp hrest
      rw [List.flatten_cons, List.nodup_append] at hnodup
      obtain ⟨-, hnodup, hdisjoint⟩ := hnodup
      rw [binary]
      by_cases hlevel : op ∈ ops
      · have hother : NoOperator tighter (.op op.operator :: second) := by
          intro others hothers word hword
          cases hword
          rw [operatorOf?_binary, if_neg]
          intro hmem
          exact hdisjoint op hlevel op (List.mem_flatten_of_mem hothers hmem) rfl
        refine (binary_reads_operand hlhs hother).andThen fun _ => ?_
        rw [chain, operatorOf?_binary, if_pos hlevel]
        exact ((binary_reads_operand hrhs htighter).andThen fun _ =>
          chain_reads_done hnone).behind _
      · have htight : op ∈ tighter.flatten :=
          (List.mem_append.mp (List.flatten_cons ▸ hop)).resolve_left hlevel
        exact (ih hnodup htight htighter).andThen fun _ => chain_reads_done hnone

end Levels

/-- The end of the words, or a mark that opens nothing. -/
def Closes (rest : List Word) : Prop :=
  ∀ word ∈ rest.head?, ∃ mark, word = .punct mark ∧ mark ≠ .lparen

section Assignments

variable {input rest second : List Word} {expr lhs rhs : Expr} {op : BinaryOp}

theorem Closes.operatorOf? (hrest : Closes rest) (ops : List BinaryOp) :
    ∀ word ∈ rest.head?, operatorOf? ops word = none := by
  intro word hword
  obtain ⟨mark, rfl, -⟩ := hrest word hword
  rfl

theorem Closes.stops (hrest : Closes rest) : Stops rest := by
  intro word hword
  obtain ⟨mark, rfl, hmark⟩ := hrest word hword
  refine ⟨rfl, ?_⟩
  cases mark with
  | lparen => exact absurd rfl hmark
  | _ => rfl

theorem assignment_reads_done (hbinary : Reads (binary levels input) expr rest)
    (hrest : Closes rest) : Reads (assignment input) expr rest := by
  rw [assignment]
  refine hbinary.andThen fun _ => ?_
  cases rest with
  | nil => exact reads_done expr []
  | cons word rest =>
      simp only [hrest.operatorOf? assignments word rfl]
      exact reads_done expr _

theorem assignment_reads_operand (hunary : Reads (unary input) expr rest) (hrest : Closes rest) :
    Reads (assignment input) expr rest :=
  assignment_reads_done (binary_reads_operand hunary fun ops _ => hrest.operatorOf? ops) hrest

/-- An operator between two operands, of whatever level. -/
theorem assignment_reads_binary (hlhs : Reads (unary input) lhs (.op op.operator :: second))
    (hrhs : Reads (unary second) rhs rest) (hrest : Closes rest) :
    Reads (assignment input) (.binary op lhs rhs) rest := by
  by_cases hop : op ∈ assignments
  · have hnone : NoOperator levels (.op op.operator :: second) := by
      intro ops hops word hword
      cases hword
      rw [operatorOf?_binary, if_neg]
      revert hop ops
      cases op <;> decide
    rw [assignment]
    refine (binary_reads_operand hlhs hnone).andThen fun _ => ?_
    simp only [operatorOf?_binary, if_pos hop]
    exact ((assignment_reads_operand hrhs hrest).map _).behind _
  · have hlevel : op ∈ levels.flatten := by
      revert hop
      cases op <;> decide
    exact assignment_reads_done
      (binary_reads (by decide) hlevel hlhs hrhs fun ops _ => hrest.operatorOf? ops) hrest

end Assignments

section Operands

variable {words rest : List Word} {expr : Expr}

theorem trailers_reads_done (hrest : Stops rest) : Reads (trailers expr rest) expr rest := by
  cases rest with
  | nil => exact reads_done expr []
  | cons word rest =>
      rw [trailers, (hrest word rfl).1]
      exact reads_done expr _

/-- An expression in parentheses, whatever stands behind it. -/
theorem primary_reads_group
    (hinside : ∀ rest, Reads (assignment (words ++ .punct .rparen :: rest)) expr
      (.punct .rparen :: rest)) (rest : List Word) :
    Reads (primary (groupWords words ++ rest)) expr rest := by
  rw [groupWords, List.cons_append, List.append_assoc, primary]
  refine Reads.behind ((hinside rest).andThen fun _ => ?_) _
  exact (reads_done expr rest).behind _

/-- A name stands alone in its words. -/
theorem eq_nil_of_cWords {name : String} {more : List Word}
    (hwords : expr.cWords = .name name :: more) : more = [] := by
  cases expr with
  | ident other =>
      cases hwords
      rfl
  | unary op side operand => cases side <;> cases hwords
  | _ => cases hwords

/-- Parentheses are no cast unless a name stands alone in them and an operand behind them. -/
theorem unary_group
    (hwords : ∀ name more, words = .name name :: more →
      (more = [] ∧ ∀ word ∈ rest.head?, beginsOperand word = false) ∨
        ∃ operator tail, more = .op operator :: tail) :
    unary (groupWords words ++ rest) = suffixed (groupWords words ++ rest) := by
  by_cases hname : ∃ name, words = [.name name]
  · obtain ⟨name, rfl⟩ := hname
    have hrest : ∀ word ∈ rest.head?, beginsOperand word = false := by
      simpa using hwords name [] rfl
    cases rest with
    | nil =>
        simp only [groupWords, List.cons_append, List.nil_append]
        rw [unary]
        all_goals simp
    | cons word rest =>
        simp only [groupWords, List.cons_append, List.nil_append]
        rw [unary, if_neg (by simp [hrest word rfl])]
  · rw [groupWords, List.cons_append, List.append_assoc, unary]
    · intro type word others hinput
      obtain ⟨-, hinput⟩ := List.cons.inj hinput
      cases words with
      | nil => cases hinput
      | cons first more =>
          obtain ⟨rfl, hinput⟩ := List.cons.inj hinput
          rcases hwords type more rfl with ⟨rfl, -⟩ | ⟨operator, tail, rfl⟩
          · exact hname ⟨type, rfl⟩
          · cases hinput
    · simp

/-- Operands other than casts are primary expressions. -/
theorem unary_of_not_isCast (hcast : expr.isCast = false) (hreadable : expr.Readable)
    (rest : List Word) : unary (expr.cWords ++ rest) = suffixed (expr.cWords ++ rest) := by
  have hgroup {first : Expr} {operator : Operator} {second : List Word} :
      ∀ name more, first.cWords ++ .op operator :: second = .name name :: more →
        (more = [] ∧ ∀ word ∈ rest.head?, beginsOperand word = false) ∨
          ∃ operator tail, more = .op operator :: tail := by
    intro name more hwords
    right
    cases hfirst : first.cWords with
    | nil =>
        rw [hfirst] at hwords
        cases hwords
    | cons word tail =>
        rw [hfirst] at hwords
        obtain ⟨rfl, rfl⟩ := List.cons.inj hwords
        obtain rfl := eq_nil_of_cWords hfirst
        exact ⟨operator, second, rfl⟩
  cases expr with
  | ident name =>
      rw [Expr.cWords, List.cons_append, unary]
      all_goals simp
  | literal value =>
      rw [Expr.cWords, List.cons_append, unary]
      all_goals simp
  | binary op lhs rhs => exact unary_group hgroup
  | unary op side operand =>
      cases side with
      | before => exact unary_group fun _ _ hwords => by cases hwords
      | behind => exact unary_group hgroup
  | cast operand target => cases hcast
  | call callee typeArgs args => exact hreadable.elim

theorem suffixed_reads {input : List Word} (hprimary : Reads (primary input) expr rest)
    (hrest : Stops rest) : Reads (suffixed input) expr rest := by
  rw [suffixed]
  exact hprimary.andThen fun _ => trailers_reads_done hrest

/-- An operator behind a primary expression. -/
theorem suffixed_reads_trailing {input : List Word} {op : UnaryOp} (hop : op.standsOn .behind)
    (hprimary : Reads (primary input) expr (.op op.operator :: rest)) (hrest : Stops rest) :
    Reads (suffixed input) (.unary op .behind expr) rest := by
  have htrailing : trailingOf? (.op op.operator) = some op := by
    obtain rfl | rfl : op = .inc ∨ op = .dec := by simpa [UnaryOp.standsOn] using hop
    · rfl
    · rfl
  rw [suffixed]
  refine hprimary.andThen fun _ => ?_
  rw [trailers, htrailing]
  exact (trailers_reads_done hrest).behind _

/-- An operator before an operand. -/
theorem unary_reads_leading (op : UnaryOp) {input : List Word}
    (hunary : Reads (unary input) expr rest) :
    Reads (unary (.op op.operator :: input)) (.unary op .before expr) rest := by
  have hleading : UnaryOp.leading? op.operator = some op := by cases op <;> rfl
  rw [unary, hleading]
  exact (hunary.map _).behind _

/-- A cast of what is read from parentheses and the words behind them. -/
theorem unary_reads_cast (type : String) {after : List Word}
    (hunary : Reads (unary (groupWords words ++ after)) expr rest) :
    Reads (unary (groupWords [.name type] ++ (groupWords words ++ after)))
      (.cast expr (.named type)) rest := by
  have hbegins : beginsOperand (.punct .lparen) := rfl
  simp only [groupWords, List.cons_append, List.nil_append] at hunary ⊢
  rw [unary, if_pos hbegins]
  exact (((hunary.map _).behind _).behind _).behind _

theorem closes_rparen (rest : List Word) : Closes (.punct .rparen :: rest) := by
  intro word hword
  cases hword
  exact ⟨.rparen, rfl, by decide⟩

theorem stops_binary (op : BinaryOp) (rest : List Word) : Stops (.op op.operator :: rest) := by
  intro word hword
  cases hword
  refine ⟨?_, rfl⟩
  cases op <;> rfl

/-- The operand of a cast, in its parentheses. -/
theorem unary_operand_group (expr : Expr)
    (hrest : ∀ word ∈ rest.head?, beginsOperand word = false) :
    unary (groupWords expr.cWords ++ rest) = suffixed (groupWords expr.cWords ++ rest) :=
  unary_group fun _ _ hwords => .inl ⟨eq_nil_of_cWords hwords, hrest⟩

theorem primary_reads_operand {words : List Word}
    (hunary : ∀ rest, Stops rest → Reads (unary (words ++ rest)) expr rest) (rest : List Word) :
    Reads (primary (groupWords words ++ rest)) expr rest :=
  primary_reads_group (fun rest => assignment_reads_operand
    (hunary _ (closes_rparen rest).stops) (closes_rparen rest)) rest

/-- What is a primary expression is an operand too. -/
theorem operand_reads_of_primary (hcast : expr.isCast = false) (hreadable : expr.Readable)
    (hprimary : ∀ rest, Reads (primary (expr.cWords ++ rest)) expr.regrouped rest) :
    (expr.isCast = false → ∀ rest, Reads (primary (expr.cWords ++ rest)) expr.regrouped rest) ∧
      ∀ rest, Stops rest → Reads (unary (expr.cWords ++ rest)) expr.regrouped rest := by
  refine ⟨fun _ => hprimary, fun rest hrest => ?_⟩
  rw [unary_of_not_isCast hcast hreadable]
  exact suffixed_reads (hprimary rest) hrest

theorem regrouped_trailing (hcast : expr.isCast = false) (op : UnaryOp) :
    (Expr.unary op .behind expr).regrouped = .unary op .behind expr.regrouped := by
  cases expr with
  | cast operand target => cases hcast
  | _ => rfl

end Operands

/-- The words of an expression are read as C groups it, unless they are gone on with. Apart from
casts they are primary expressions, whatever stands behind them. -/
theorem operand_reads : (expr : Expr) → expr.Readable →
    (expr.isCast = false → ∀ rest, Reads (primary (expr.cWords ++ rest)) expr.regrouped rest) ∧
      ∀ rest, Stops rest → Reads (unary (expr.cWords ++ rest)) expr.regrouped rest
  | .ident name, hreadable => by
      refine operand_reads_of_primary rfl hreadable fun rest => ?_
      rw [Expr.cWords, List.cons_append, primary]
      exact (reads_done _ _).behind _
  | .literal value, hreadable => by
      refine operand_reads_of_primary rfl hreadable fun rest => ?_
      rw [Expr.cWords, List.cons_append, primary]
      exact (reads_done _ _).behind _
  | .binary op lhs rhs, hreadable => by
      have hlhs := (operand_reads lhs hreadable.1).2
      have hrhs := (operand_reads rhs hreadable.2).2
      refine operand_reads_of_primary rfl hreadable (primary_reads_group fun rest => ?_)
      have hclose := closes_rparen rest
      rw [List.append_assoc, List.cons_append]
      exact assignment_reads_binary (hlhs _ (stops_binary op _)) (hrhs _ hclose.stops) hclose
  | .unary op .before operand, hreadable => by
      have hoperand := (operand_reads operand hreadable.2).2
      refine operand_reads_of_primary rfl hreadable (primary_reads_group fun rest => ?_)
      have hclose := closes_rparen rest
      exact assignment_reads_operand (unary_reads_leading op (hoperand _ hclose.stops)) hclose
  | .unary op .behind operand, hreadable => by
      refine operand_reads_of_primary rfl hreadable (primary_reads_group fun rest => ?_)
      have hclose := closes_rparen rest
      refine assignment_reads_operand ?_ hclose
      rw [List.append_assoc, List.singleton_append]
      cases operand with
      | cast inner target =>
          obtain ⟨name, rfl⟩ := hreadable.2.2
          have hinner := primary_reads_operand (operand_reads inner hreadable.2.1).2
          rw [Expr.cWords, List.append_assoc]
          refine unary_reads_cast name ?_
          rw [unary_operand_group inner (by simp [beginsOperand])]
          exact suffixed_reads_trailing hreadable.1 (hinner _) hclose.stops
      | _ =>
          rw [unary_of_not_isCast rfl hreadable.2, regrouped_trailing rfl]
          have hprimary := (operand_reads _ hreadable.2).1 rfl
          exact suffixed_reads_trailing hreadable.1 (hprimary _) hclose.stops
  | .cast operand target, hreadable => by
      obtain ⟨name, rfl⟩ := hreadable.2
      have hoperand := primary_reads_operand (operand_reads operand hreadable.1).2
      refine ⟨fun hcast => absurd hcast (by simp [Expr.isCast]), fun rest hrest => ?_⟩
      rw [Expr.cWords, List.append_assoc]
      refine unary_reads_cast name ?_
      rw [unary_operand_group operand fun word hword => (hrest word hword).2]
      exact suffixed_reads (hoperand rest) hrest

section Texts

variable {expr : Expr} {words : List Word} {text : String}

theorem closes_nil : Closes [] := by simp [Closes]

theorem closes_semicolon : Closes [.punct .semicolon] := by
  intro word hword
  cases hword
  exact ⟨.semicolon, rfl, by decide⟩

theorem assignment_reads (hreadable : expr.Readable) {rest : List Word} (hrest : Closes rest) :
    Reads (assignment (expr.cWords ++ rest)) expr.regrouped rest :=
  assignment_reads_operand ((operand_reads expr hreadable).2 rest hrest.stops) hrest

theorem assignment_reads_statement (hreadable : expr.Readable) {rest : List Word}
    (hrest : Closes rest) :
    Reads (assignment (expr.statementWords ++ rest)) expr.regrouped rest := by
  cases expr with
  | binary op lhs rhs =>
      by_cases hop : op.isAssignment
      · have hlhs := (operand_reads lhs hreadable.1).2
        have hrhs := (operand_reads rhs hreadable.2).2
        rw [Expr.statementWords, if_pos hop, List.append_assoc, List.cons_append]
        exact assignment_reads_binary (hlhs _ (stops_binary op _)) (hrhs _ hrest.stops) hrest
      · rw [Expr.statementWords, if_neg hop]
        exact assignment_reads hreadable hrest
  | _ => exact assignment_reads hreadable hrest

theorem readExpression_eq (hreadable : expr.Readable)
    (hwords : words? text.toList = some expr.cWords) :
    readExpression text = some expr.regrouped := by
  have hreads := assignment_reads hreadable closes_nil
  rw [List.append_nil] at hreads
  obtain ⟨hlength, hread⟩ := hreads
  simp [readExpression, hwords, hread]

theorem readStatement_eq (hreadable : expr.Readable)
    (hwords : words? text.toList = some (expr.statementWords ++ [.punct .semicolon])) :
    readStatement text = some expr.regrouped := by
  obtain ⟨hlength, hread⟩ := assignment_reads_statement hreadable closes_semicolon
  simp [readStatement, hwords, hread]

end Texts

end C
end KCompiler
