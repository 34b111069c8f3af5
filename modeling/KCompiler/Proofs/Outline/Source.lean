import KCompiler.Proofs.Outline.Trees

/-! # Outlines of sources

The lexer makes a token of a word a builtin type exactly if it is spelt like one, and a number has no
sign and is no word. So the trees of all sources are over names and literals that an outline tells
apart, whether the source has errors or not, and its outline tells the module of a source.
-/

namespace KCompiler

/-! ## Numbers that are read -/

namespace Number

theorem Binary64.isUnsigned_ofRatio (numerator denominator : Nat) :
    (ofRatio numerator denominator).IsUnsigned := by
  unfold ofRatio
  split
  · decide
  · extract_lets unit scaled bits
    rw [IsUnsigned, UInt64.toNat_ofNat_of_lt' (lt_of_le_of_lt (Nat.min_le_right _ _) (by decide))]
    exact Nat.min_le_right _ _

theorem Binary64.isUnsigned_ofDecimal (digits : Nat) (exponent : Int) :
    (ofDecimal digits exponent).IsUnsigned := by
  unfold ofDecimal
  extract_lets places
  split
  · decide
  · split
    · decide
    · exact isUnsigned_ofRatio _ _

theorem isUnsigned_of_readDecimal {text : List Char} {value : Binary64}
    (hvalue : readDecimal text = some value) : value.IsUnsigned := by
  unfold readDecimal at hvalue
  extract_lets whole afterWhole pointed fraction rest at hvalue
  split at hvalue
  · cases hvalue
  · obtain ⟨exponent, -, rfl⟩ := Option.map_eq_some_iff.mp hvalue
    exact Binary64.isUnsigned_ofDecimal _ _

theorem toLower_of_isDigit {c : Char} (hc : c.isDigit) : c.toLower = c := by
  obtain ⟨-, hnine⟩ : c.val ≥ '0'.val ∧ c.val ≤ '9'.val := by simpa [Char.isDigit] using hc
  refine dif_neg fun hupper => ?_
  exact absurd (UInt32.le_trans hupper.1 hnine) (by decide)

theorem isUnsigned_of_readMagnitude {first : Char} {text : List Char} {value : Binary64}
    (hfirst : first.isDigit) (hvalue : readMagnitude (first :: text) = some value) :
    value.IsUnsigned := by
  unfold readMagnitude at hvalue
  extract_lets word at hvalue
  split at hvalue
  · cases hvalue
    decide
  · split at hvalue
    next hword =>
      have hletters : first.toLower :: text.map Char.toLower = "nan".toList := by
        rw [← hword, String.toList_ofList, List.map_cons]
      obtain ⟨hletter, -⟩ := List.cons.inj hletters
      rw [toLower_of_isDigit hfirst] at hletter
      rw [hletter] at hfirst
      cases hfirst
    next => exact isUnsigned_of_readDecimal hvalue

theorem isUnsigned_of_readDouble {first : Char} {text : List Char} {value : Binary64}
    (hfirst : first.isDigit) (hvalue : readDouble (first :: text) = .ok value) :
    value.IsUnsigned := by
  have hread : (readMagnitude (first :: text)).elim (.error DecimalError.invalid) .ok =
      Except.ok value := by
    unfold readDouble at hvalue
    split at hvalue
    next heq => cases heq
    next heq =>
      obtain ⟨rfl, -⟩ := List.cons.inj heq
      cases hfirst
    next heq =>
      obtain ⟨rfl, -⟩ := List.cons.inj heq
      cases hfirst
    next => exact hvalue
  cases hmagnitude : readMagnitude (first :: text) with
  | none =>
      rw [hmagnitude] at hread
      cases hread
  | some found =>
      rw [hmagnitude] at hread
      cases hread
      exact isUnsigned_of_readMagnitude hfirst hmagnitude

end Number

/-! ## Tokens -/

/-- What the kind of a token tells of its text. -/
def Kind.Tells (text : List Char) : Kind → Prop
  | .identifier => ∀ type : Builtin, type.symbol ≠ String.ofList text
  | .builtin type => type.symbol = String.ofList text
  | .float => ∃ first rest, text = first :: rest ∧ first.isDigit
  | _ => True

namespace Scan

theorem tells_of_ofWord {text : List Char} {kind : Kind}
    (hword : kind.OfWord (String.ofList text)) : kind.Tells text := by
  cases hword with
  | keyword => trivial
  | builtin hsymbol => exact hsymbol
  | identifier _ htype => exact htype

theorem Gives.tells {first : Char} {rest text : List Char} {kind : Kind}
    (hgives : Gives first rest kind text) : kind.Tells text := by
  cases hgives with
  | word hfirst htoken =>
      obtain ⟨rfl, rfl⟩ := Prod.mk.inj (Option.some.inj htoken)
      exact tells_of_ofWord (Kind.ofWord_getD _)
  | number hfirst htoken =>
      obtain ⟨other, issue, hkind, -, hnumber⟩ := number_eq_spelled first rest
      rw [hnumber] at htoken
      obtain ⟨rfl, rfl⟩ := Prod.mk.inj (Option.some.inj htoken)
      rcases hkind with rfl | rfl
      · trivial
      · exact ⟨first, _, rfl, hfirst⟩
  | string | char | newline | punct | op => trivial

end Scan

theorem tells_of_mem_lex {source : String} {token : Token} (hmem : token ∈ (lex source).tokens) :
    token.kind.Tells token.text.toList :=
  forall_mem_lex (P := fun kind text => kind.Tells text) (fun _ => trivial)
    (fun _ _ _ _ _ hgives => hgives.tells) token hmem

theorem Literal.isShown_of_ofToken? {token : Token} {value : Literal} {findings : List Finding}
    (htells : token.kind.Tells token.text.toList)
    (hvalue : Literal.ofToken? token = some (value, findings)) : value.IsShown := by
  unfold Literal.ofToken? at hvalue
  split at hvalue
  next => split at hvalue <;> cases hvalue <;> trivial
  next hkind =>
    rw [hkind] at htells
    obtain ⟨first, rest, htext, hfirst⟩ := htells
    split at hvalue
    next x hx =>
      cases hvalue
      rw [floatValue, htext] at hx
      exact Number.isUnsigned_of_readDouble hfirst hx
    next =>
      cases hvalue
      exact (by decide : Number.Binary64.zero.IsUnsigned)
  case h_7 => cases hvalue
  all_goals
    cases hvalue
    trivial

theorem bearsOnly_shown_of_mem_lex {source : String} {token : Token}
    (hmem : token ∈ (lex source).tokens) : token.BearsOnly .shown := by
  have htells := tells_of_mem_lex hmem
  have hnames := bearsOnly_of_mem_lex hmem
  intro leaf hbears
  cases leaf with
  | ident name => exact hnames (.ident name) hbears
  | name name =>
      refine ⟨hnames (.name name) hbears, ?_⟩
      obtain ⟨hkind, rfl⟩ := hbears
      simpa [hkind, Kind.Tells] using htells
  | builtin name =>
      obtain ⟨hkind, rfl⟩ := hbears
      cases hsome : token.kind with
      | builtin type => exact ⟨type, by simpa [hsome, Kind.Tells] using htells⟩
      | _ => simp [hsome, Kind.isBuiltin] at hkind
  | literal value =>
      obtain ⟨findings, hvalue⟩ := hbears
      exact Literal.isShown_of_ofToken? htells hvalue

/-! ## Modules -/

/-- Sources whose modules have the same outline have the same module, whatever is wrong with them. -/
theorem parseModule_eq_of_outlineText {source other : String}
    (hsame : (parseModule (lex source).tokens).value.outlineText =
      (parseModule (lex other).tokens).value.outlineText) :
    (parseModule (lex source).tokens).value = (parseModule (lex other).tokens).value :=
  Module.eq_of_outlineText (parseModule_fits fun _ hmem => bearsOnly_shown_of_mem_lex hmem)
    (parseModule_fits fun _ hmem => bearsOnly_shown_of_mem_lex hmem) hsame

/-- An operand that is missing is taken for a zero, and a function without a type gives no value. So a
source with an error and one without can have the same outline, and then have the same module. -/
theorem parseModule_eq_of_outlineText_missing :
    let source := "mod m\nfx f(mut x: A[B]): _Unit \x7b 1.50 + \x7d"
    let other := "mod m\nfx f(mut x: A[B]) \x7b 1.5+0 \x7d"
    (parseModule (lex source).tokens).findings ≠ [] ∧
      (parseModule (lex other).tokens).findings = [] ∧
      (parseModule (lex source).tokens).value.outlineText =
        (parseModule (lex other).tokens).value.outlineText ∧
      (parseModule (lex source).tokens).value = (parseModule (lex other).tokens).value := by
  intro source other
  have hsame : (parseModule (lex source).tokens).value.outlineText =
      (parseModule (lex other).tokens).value.outlineText := by decide +kernel
  exact ⟨by decide +kernel, by decide +kernel, hsame, parseModule_eq_of_outlineText hsame⟩

end KCompiler
