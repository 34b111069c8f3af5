import KCompiler.Proofs.Lexing.Spelling
import KCompiler.Proofs.Lexing.Tokens
import KCompiler.Proofs.Trees.Parsed

/-! # Trees of sources

The rules of the lexer bind the texts of tokens: names are identifiers, numbers carry no sign, and
no text holds the null character, at which a source ends. So the trees of a source are over
identifiers, numbers that are not negative and strings without null characters.
-/

namespace KCompiler

/-- The texts that tokens of a kind can have. -/
def Kind.Permits (text : List Char) : Kind → Prop
  | .identifier | .builtin _ => WordLike (String.ofList text)
  | .integer => '-' ∉ text
  | .string => Cursor.sentinel ∉ text
  | _ => True

namespace Scan

variable {first : Char} {rest text : List Char} {kind : Kind}

theorem permits_word (hfirst : isIdentifierStart first)
    (htoken : (word first rest).token = some (kind, text)) : kind.Permits text := by
  obtain ⟨rfl, rfl⟩ := Prod.mk.inj (Option.some.inj htoken)
  have hname : WordLike (String.ofList (first :: rest.take (runLength isIdentifierPart rest))) := by
    refine ⟨first, rest.take (runLength isIdentifierPart rest), by simp, hfirst, ?_⟩
    intro c hmem
    by_contra hpart
    exact notMem_run (eq_false_of_ne_true hpart) hmem
  generalize hkind : (Kind.ofWord? _).getD .identifier = kind
  cases hkind ▸ Kind.ofWord_getD _ with
  | keyword => trivial
  | builtin | identifier => exact hname

theorem isRadixDigit_minus (radix : Radix) : isRadixDigit radix '-' = false := by
  cases radix <;> decide

theorem permits_number (hfirst : first.isDigit)
    (htoken : (number first rest).token = some (kind, text)) : kind.Permits text := by
  have hsign : '-' ≠ first := by
    rintro rfl
    cases hfirst
  obtain ⟨other, issue, hkind, -, hnumber⟩ := number_eq_spelled first rest
  rw [hnumber] at htoken
  obtain ⟨rfl, rfl⟩ := Prod.mk.inj (Option.some.inj htoken)
  rcases hkind with rfl | rfl
  · exact notMem_number hsign rfl (by decide) rfl isRadixDigit_minus
  · trivial

theorem unescape_ne_sentinel {c : Char} (hc : c ≠ Cursor.sentinel) :
    unescape c ≠ Cursor.sentinel := by
  unfold unescape
  split
  case h_6 => exact hc
  all_goals decide

theorem sentinel_notMem_stringBody (hrest : Cursor.sentinel ∉ rest) :
    Cursor.sentinel ∉ (stringBody rest).2 := by
  fun_induction stringBody rest with
  | case1 | case2 | case3 => simp
  | case4 c rest width content hbody ih =>
      simp only [List.mem_cons, not_or] at hrest
      rw [hbody] at ih
      simp only [List.mem_cons, not_or]
      exact ⟨(unescape_ne_sentinel (Ne.symm hrest.2.1)).symm, ih hrest.2.2⟩
  | case5 c rest hquote hslash hescape width content hbody ih =>
      simp only [List.mem_cons, not_or] at hrest
      rw [hbody] at ih
      simp only [List.mem_cons, not_or]
      exact ⟨hrest.1, ih hrest.2⟩

theorem Gives.permits (hgives : Gives first rest kind text) (hrest : Cursor.sentinel ∉ rest) :
    kind.Permits text := by
  cases hgives with
  | word hfirst htoken => exact permits_word hfirst htoken
  | number hfirst htoken => exact permits_number hfirst htoken
  | string => exact sentinel_notMem_stringBody hrest
  | char | newline | punct | op => trivial

end Scan

theorem permits_of_mem_lex {source : String} {token : Token}
    (hmem : token ∈ (lex source).tokens) : token.kind.Permits token.text.toList :=
  forall_mem_lex (P := fun kind text => kind.Permits text) (fun _ => trivial)
    (fun _ _ _ _ hrest hgives => hgives.permits hrest) token hmem

theorem Number.readInteger_nonneg {radix : Nat} {text : List Char} {value : Int}
    (hsign : '-' ∉ text) (hvalue : readInteger radix text = .ok value) : 0 ≤ value := by
  have hnat {result : Except IntegerError Nat} (hresult : result.map Int.ofNat = .ok value) :
      0 ≤ value := by
    cases result with
    | error _ => cases hresult
    | ok n =>
        cases hresult
        exact Int.natCast_nonneg n
  unfold readInteger at hvalue
  split at hvalue
  case h_4 | h_6 => exact hnat hvalue
  case h_5 => simp at hsign
  all_goals cases hvalue

theorem integerValue_nonneg {text : String} {value : Int} (hsign : '-' ∉ text.toList)
    (hvalue : integerValue text = .ok value) : 0 ≤ value := by
  unfold integerValue at hvalue
  split at hvalue
  next mark digits htext =>
    split at hvalue
    · refine Number.readInteger_nonneg (fun hmem => hsign ?_) hvalue
      simp [htext, hmem]
    · exact Number.readInteger_nonneg hsign hvalue
  next => exact Number.readInteger_nonneg hsign hvalue

/-- Literals that a source can have. -/
def Literal.IsSourced : Literal → Prop
  | .int value => 0 ≤ value
  | .string value => Cursor.sentinel ∉ value.toList
  | _ => True

theorem Literal.isSourced_of_ofToken? {token : Token} {value : Literal} {findings : List Finding}
    (hpermits : token.kind.Permits token.text.toList)
    (hvalue : Literal.ofToken? token = some (value, findings)) : value.IsSourced := by
  unfold Literal.ofToken? at hvalue
  split at hvalue
  next hkind =>
    rw [hkind] at hpermits
    split at hvalue
    next n hn =>
      cases hvalue
      exact integerValue_nonneg hpermits hn
    next =>
      cases hvalue
      exact Int.le_refl 0
  next => split at hvalue <;> cases hvalue <;> trivial
  next hkind =>
    rw [hkind] at hpermits
    cases hvalue
    exact hpermits
  case h_7 => cases hvalue
  all_goals
    cases hvalue
    trivial

/-- What is known of the leaves of a source. -/
def Vocabulary.source : Vocabulary where
  Known
    | .ident name | .name name | .builtin name => WordLike name
    | .literal value => value.IsSourced
  known_default := by
    rintro leaf (rfl | rfl | rfl)
    · exact (show WordLike Builtin.unit.symbol by decide)
    · exact Int.le_refl 0
    · exact (show WordLike Module.error.name by decide)

theorem bearsOnly_of_mem_lex {source : String} {token : Token}
    (hmem : token ∈ (lex source).tokens) : token.BearsOnly .source := by
  have hpermits := permits_of_mem_lex hmem
  have hbuiltin (hkind : token.kind.isBuiltin) : WordLike token.text := by
    cases hsome : token.kind with
    | builtin type => simpa [hsome, Kind.Permits] using hpermits
    | _ => simp [hsome, Kind.isBuiltin] at hkind
  have hidentifier (hkind : token.kind = .identifier) : WordLike token.text := by
    simpa [hkind, Kind.Permits] using hpermits
  intro leaf hbears
  cases leaf with
  | ident name =>
      obtain ⟨hkind | hkind, rfl⟩ := hbears
      · exact hidentifier hkind
      · exact hbuiltin hkind
  | name name =>
      obtain ⟨hkind, rfl⟩ := hbears
      exact hidentifier hkind
  | builtin name =>
      obtain ⟨hkind, rfl⟩ := hbears
      exact hbuiltin hkind
  | literal value =>
      obtain ⟨findings, hvalue⟩ := hbears
      exact Literal.isSourced_of_ofToken? hpermits hvalue

/-- The module of a source is well formed, over identifiers and literals that a source can have. -/
theorem parseModule_lex_fits (source : String) :
    (parseModule (lex source).tokens).value.Fits .source :=
  parseModule_fits fun _ hmem => bearsOnly_of_mem_lex hmem

end KCompiler
