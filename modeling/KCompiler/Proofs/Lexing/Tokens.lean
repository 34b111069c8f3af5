import KCompiler.Proofs.Lexing.Places

/-! # Where the tokens of a source come from

A token is made by one rule of the lexer, of the text that begins where the token does. What a rule
ensures of its tokens, for every text that may follow, is thus known of all tokens of a source.
-/

namespace KCompiler

namespace Scan

variable {first : Char} {rest text : List Char} {kind : Kind}

theorem kind_charEnd {taken : Nat} {content : List Char}
    (htoken : (charEnd taken content rest).token = some (kind, text)) : kind = .char := by
  unfold charEnd at htoken
  split at htoken <;> exact (Prod.mk.inj (Option.some.inj htoken)).1.symm

theorem kind_charLiteral (htoken : (charLiteral rest).token = some (kind, text)) :
    kind = .char := by
  unfold charLiteral at htoken
  split at htoken
  case h_2 => exact (Prod.mk.inj (Option.some.inj htoken)).1.symm
  all_goals exact kind_charEnd htoken

/-- The ways in which the piece of a first character gives a token. -/
inductive Gives (first : Char) (rest : List Char) : Kind → List Char → Prop
  | word {kind : Kind} {text : List Char} (hfirst : isIdentifierStart first)
      (htoken : (word first rest).token = some (kind, text)) : Gives first rest kind text
  | number {kind : Kind} {text : List Char} (hfirst : first.isDigit)
      (htoken : (number first rest).token = some (kind, text)) : Gives first rest kind text
  | string : Gives first rest .string (stringBody rest).2
  | char (text : List Char) : Gives first rest .char text
  | newline (text : List Char) : Gives first rest .newline text
  | punct {mark : Punct} (hmark : punct? first = some mark) : Gives first rest (.punct mark) [first]
  | op {operator : Operator} (hoperator : operator? (first :: rest) = some operator) :
      Gives first rest (.op operator) operator.symbol.toList

/-- An operator is spelt by the first character and those behind it that belong to it. -/
theorem cons_take_of_operator? {operator : Operator}
    (hoperator : operator? (first :: rest) = some operator) :
    first :: rest.take (operator.symbol.length - 1) = operator.symbol.toList := by
  obtain ⟨c, body, hsymbol⟩ := exists_symbol_cons operator
  obtain ⟨after, htext⟩ := isPrefix_of_operator? hoperator
  rw [hsymbol, List.cons_append] at htext
  obtain ⟨rfl, rfl⟩ := List.cons.inj htext
  rw [← String.length_toList, hsymbol, List.length_cons, Nat.add_sub_cancel, List.take_left]

theorem gives_of_symbol (htoken : (symbol first rest).token = some (kind, text)) :
    Gives first rest kind text := by
  cases hmark : punct? first with
  | some mark =>
      rw [symbol_of_punct? hmark] at htoken
      obtain ⟨rfl, rfl⟩ := Prod.mk.inj (Option.some.inj htoken)
      exact .punct hmark
  | none =>
      cases hoperator : operator? (first :: rest) with
      | some operator =>
          rw [symbol_of_operator? hmark hoperator] at htoken
          obtain ⟨rfl, rfl⟩ := Prod.mk.inj (Option.some.inj htoken)
          rw [cons_take_of_operator? hoperator]
          exact .op hoperator
      | none =>
          rw [symbol_of_none hmark hoperator] at htoken
          split at htoken
          next hstart => exact .word hstart htoken
          next => cases htoken

theorem gives_of_piece (htoken : (piece first rest).token = some (kind, text)) :
    Gives first rest kind text := by
  unfold piece at htoken
  split at htoken
  next =>
    obtain ⟨rfl, -⟩ := Prod.mk.inj (Option.some.inj htoken)
    exact .newline _
  next => cases htoken
  next =>
    unfold blockComment at htoken
    split at htoken <;> cases htoken
  next =>
    obtain ⟨rfl, rfl⟩ := Prod.mk.inj (Option.some.inj htoken)
    exact .string
  next =>
    obtain rfl := kind_charLiteral htoken
    exact .char _
  next =>
    split at htoken
    next hdigit => exact .number hdigit htoken
    next => exact gives_of_symbol htoken

/-! ## Broken pieces -/

/-- The ways in which the piece of a first character is broken. -/
inductive Raises (first : Char) (rest : List Char) : Issue → Prop
  | openComment : Raises first rest .openComment
  | openChar : Raises first rest .openChar
  | unclosedChar (found : Char) : Raises first rest (.unclosedChar found)
  | emptyChar : Raises first rest .emptyChar
  | missingDigits (radix : Radix) (hfirst : first.isDigit) : Raises first rest (.missingDigits radix)

variable {issue : Issue}

theorem raises_of_charEnd {taken : Nat} {content text : List Char}
    (hissue : (charEnd taken content text).issue = some issue) : Raises first rest issue := by
  unfold charEnd at hissue
  split at hissue
  next =>
    cases hissue
    exact .openChar
  next => cases hissue
  next found _ _ =>
    cases hissue
    exact .unclosedChar found

theorem raises_of_number (hfirst : first.isDigit)
    (hissue : (number first rest).issue = some issue) : Raises first rest issue := by
  unfold number at hissue
  dsimp only at hissue
  split at hissue
  next radix _ =>
    split at hissue <;> cases hissue
    exact .missingDigits radix hfirst
  next => split at hissue <;> cases hissue

theorem symbol_issue (first : Char) (rest : List Char) : (symbol first rest).issue = none := by
  unfold symbol
  split
  · rfl
  · rfl
  · split <;> rfl

theorem raises_of_piece (hissue : (piece first rest).issue = some issue) :
    Raises first rest issue := by
  unfold piece at hissue
  split at hissue
  case h_1 | h_2 | h_4 => cases hissue
  case h_3 =>
    unfold blockComment at hissue
    split at hissue <;> cases hissue
    exact .openComment
  case h_5 =>
    unfold charLiteral at hissue
    split at hissue
    case h_2 =>
      cases hissue
      exact .emptyChar
    all_goals exact raises_of_charEnd hissue
  case h_6 =>
    split at hissue
    next hfirst => exact raises_of_number hfirst hissue
    next =>
      rw [symbol_issue] at hissue
      cases hissue

end Scan

/-! ## Tokens and pieces -/

theorem Location.offset_afterAll (place : Location) (text : List Char) :
    (place.afterAll text).offset = place.offset + String.utf8Len text := by
  induction text generalizing place with
  | nil => rfl
  | cons c text ih =>
      rw [afterAll_cons, ih, String.utf8Len_cons]
      simp only [after]
      omega

/-- A token is made of a piece that begins where the token does. -/
theorem exists_of_mem_locate {place : Location} {pieces : List Piece} {token : Token}
    (hmem : token ∈ (locate place pieces).tokens) (hkind : token.kind ≠ .eof) :
    ∃ before piece after, pieces = before ++ piece :: after ∧
      piece.token = some (token.kind, token.text.toList) ∧
      token.bytes.lo = place.offset + String.utf8Len (before.flatMap Piece.lexeme) := by
  induction pieces generalizing place with
  | nil =>
      rw [locate, List.mem_singleton] at hmem
      exact absurd (congrArg Token.kind hmem) hkind
  | cons piece pieces ih =>
      rw [locate, List.mem_append] at hmem
      rcases hmem with hmem | hmem
      · obtain ⟨⟨kind, text⟩, htoken, rfl⟩ :=
          Option.map_eq_some_iff.mp (Option.mem_toList.mp hmem)
        exact ⟨[], piece, pieces, rfl, by rw [htoken, String.toList_ofList], rfl⟩
      · obtain ⟨before, holder, after, rfl, htoken, hlo⟩ := ih hmem
        refine ⟨piece :: before, holder, after, rfl, htoken, ?_⟩
        rw [hlo, Location.offset_afterAll, List.flatMap_cons, String.utf8Len_append, Nat.add_assoc]

/-- The last pieces of a text are the pieces of the text that they cover. -/
theorem pieces_flatMap_of_suffix {text : List Char} {before after : List Piece}
    (hpieces : pieces text = before ++ after) : pieces (after.flatMap Piece.lexeme) = after := by
  induction before generalizing text with
  | nil =>
      rw [List.nil_append] at hpieces
      rw [← hpieces, pieces_flatMap_lexeme]
  | cons piece before ih =>
      cases text with
      | nil => simp [pieces] at hpieces
      | cons first rest =>
          rw [pieces, List.cons_append] at hpieces
          exact ih (List.cons.inj hpieces).2

/-- Where a token begins, a source falls into the pieces before it and those of the rest, the first
of which gives the token. -/
theorem exists_split_of_mem_lex {source : String} {token : Token}
    (hmem : token ∈ (lex source).tokens) (hkind : token.kind ≠ .eof) :
    ∃ front first rest before, visibleText source = front ++ first :: rest ∧
      token.bytes.lo = String.utf8Len front ∧
      (Scan.piece first rest).token = some (token.kind, token.text.toList) ∧
      pieces (visibleText source) = before ++ pieces (first :: rest) := by
  obtain ⟨before, piece, after, hpieces, htoken, hlo⟩ := exists_of_mem_locate hmem hkind
  have hafter := pieces_flatMap_of_suffix hpieces
  have hcover : visibleText source =
      before.flatMap Piece.lexeme ++ (piece :: after).flatMap Piece.lexeme := by
    rw [← List.flatMap_append, ← hpieces, pieces_flatMap_lexeme]
  cases hback : (piece :: after).flatMap Piece.lexeme with
  | nil =>
      rw [hback, pieces] at hafter
      cases hafter
  | cons first rest =>
      rw [hback] at hafter hcover
      refine ⟨_, first, rest, before, hcover, by rw [hlo]; exact Nat.zero_add _, ?_, ?_⟩
      · rw [pieces] at hafter
        obtain ⟨rfl, -⟩ := List.cons.inj hafter
        exact htoken
      · rw [hafter, hpieces]

/-- What every rule of the lexer ensures is known of all tokens. -/
theorem forall_mem_lex {P : Kind → List Char → Prop} (heof : ∀ text, P .eof text)
    (hrules : ∀ first rest kind text, Cursor.sentinel ∉ rest → Scan.Gives first rest kind text →
      P kind text)
    {source : String} : ∀ token ∈ (lex source).tokens, P token.kind token.text.toList := by
  intro token hmem
  by_cases hkind : token.kind = .eof
  · rw [hkind]
    exact heof _
  obtain ⟨front, first, rest, -, htext, -, htoken, -⟩ := exists_split_of_mem_lex hmem hkind
  refine hrules first rest _ _ (fun hrest => ?_) (Scan.gives_of_piece htoken)
  have hsentinel : Cursor.sentinel ∈ visibleText source := by simp [htext, hrest]
  have htest := List.all_eq_true.mp List.all_takeWhile _ hsentinel
  simp at htest

end KCompiler
