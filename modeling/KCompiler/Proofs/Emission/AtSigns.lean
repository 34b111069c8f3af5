import KCompiler.Proofs.Emission.Lines
import KCompiler.Proofs.Emission.Target

/-! # At signs in C

C has no spelling for names with an at sign. A name that begins with one is refused, but an at sign
may stand anywhere in a name, and the name of the module is never refused: all other at signs of
names are written as they are. So the C text has an at sign outside of its literals exactly if the
module or one of its emitted names has one.
-/

namespace KCompiler

/-! ## Code and literals -/

namespace C

/-- Where a reader of C stands: in the code, in a literal, or behind a backslash in a literal. -/
inductive Region where
  | code
  | literal (quote : Char)
  | escape (quote : Char)
  deriving DecidableEq

def Region.next : Region → Char → Region
  | .code, c => if c = '"' ∨ c = '\'' then .literal c else .code
  | .literal quote, c =>
    if c = '\\' then .escape quote else if c = quote then .code else .literal quote
  | .escape quote, _ => .literal quote

/-- The characters of a text outside of string and character literals. -/
def outsideLiterals : Region → List Char → List Char
  | _, [] => []
  | region, c :: rest =>
    if region = .code ∧ region.next c = .code then c :: outsideLiterals (region.next c) rest
    else outsideLiterals (region.next c) rest

/-- A text that leaves no literal open, and what it has outside of them. -/
def Keeps (text kept : List Char) : Prop :=
  ∀ rest, outsideLiterals .code (text ++ rest) = kept ++ outsideLiterals .code rest

section Keeps

variable {text kept first second outer inner : List Char}

theorem keeps_nil : Keeps [] [] :=
  fun _ => rfl

theorem Keeps.append (hfirst : Keeps first outer) (hsecond : Keeps second inner) :
    Keeps (first ++ second) (outer ++ inner) := by
  intro rest
  rw [List.append_assoc, hfirst, hsecond, List.append_assoc]

theorem Keeps.outsideLiterals_eq (hkeeps : Keeps text kept) : outsideLiterals .code text = kept := by
  simpa [outsideLiterals] using hkeeps []

theorem keeps_flatMap {α : Type} {f g : α → List Char} {items : List α}
    (hitems : ∀ item ∈ items, Keeps (f item) (g item)) :
    Keeps (items.flatMap f) (items.flatMap g) := by
  induction items with
  | nil => exact keeps_nil
  | cons item items ih =>
      rw [List.forall_mem_cons] at hitems
      exact hitems.1.append (ih hitems.2)

/-- A text without quotes. -/
theorem keeps_of_noQuotes (hquotes : ∀ c ∈ text, c ≠ '"' ∧ c ≠ '\'') : Keeps text text := by
  intro rest
  induction text with
  | nil => rfl
  | cons c text ih =>
      rw [List.forall_mem_cons] at hquotes
      have hnext : Region.code.next c = .code := if_neg (not_or.mpr hquotes.1)
      rw [List.cons_append, outsideLiterals, if_pos ⟨rfl, hnext⟩, hnext, ih hquotes.2,
        List.cons_append]

theorem outsideLiterals_of_ne {region : Region} (hregion : region ≠ .code) (c : Char)
    (rest : List Char) :
    outsideLiterals region (c :: rest) = outsideLiterals (region.next c) rest := by
  rw [outsideLiterals, if_neg fun hcode => hregion hcode.1]

variable {quote : Char}

/-- The reader stays in a literal at a character that neither closes it nor escapes the next. -/
theorem outsideLiterals_inside {c : Char} (hquote : c ≠ quote) (hslash : c ≠ '\\')
    (rest : List Char) :
    outsideLiterals (.literal quote) (c :: rest) = outsideLiterals (.literal quote) rest := by
  rw [outsideLiterals_of_ne (by simp), Region.next, if_neg hslash, if_neg hquote]

theorem outsideLiterals_digits (hquote : quote = '"' ∨ quote = '\'') {digits : List Char}
    (hdigits : ∀ digit ∈ digits, digit.isDigit) (rest : List Char) :
    outsideLiterals (.literal quote) (digits ++ rest) = outsideLiterals (.literal quote) rest := by
  induction digits with
  | nil => rfl
  | cons digit digits ih =>
      rw [List.forall_mem_cons] at hdigits
      have hne {c : Char} (hc : c.isDigit = false) : digit ≠ c := by
        rintro rfl
        rw [hc] at hdigits
        exact absurd hdigits.1 (by simp)
      have hclose : quote.isDigit = false := by rcases hquote with rfl | rfl <;> rfl
      rw [List.cons_append, outsideLiterals_inside (hne hclose) (hne rfl), ih hdigits.2]

theorem outsideLiterals_escapeChar (hquote : quote = '"' ∨ quote = '\'') (c : Char)
    (rest : List Char) :
    outsideLiterals (.literal quote) (escapeChar quote c ++ rest) =
      outsideLiterals (.literal quote) rest := by
  rcases escapeChar_cases quote c with ⟨mark, digits, hform, -, hdigits⟩ | ⟨hform, hne, -, hslash⟩
  · rw [hform, List.cons_append, List.cons_append, outsideLiterals_of_ne (by simp),
      outsideLiterals_of_ne (by simp [Region.next])]
    exact outsideLiterals_digits hquote hdigits rest
  · rw [hform]
    exact outsideLiterals_inside hne hslash rest

theorem outsideLiterals_escapeText (hquote : quote = '"' ∨ quote = '\'') (text rest : List Char) :
    outsideLiterals (.literal quote) (escapeText quote text ++ rest) =
      outsideLiterals (.literal quote) rest := by
  induction text with
  | nil => rfl
  | cons c text ih =>
      rw [escapeText, List.flatMap_cons, List.append_assoc, ← escapeText,
        outsideLiterals_escapeChar hquote, ih]

/-- A literal has nothing outside of literals, whatever it holds. -/
theorem keeps_literal (hquote : quote = '"' ∨ quote = '\'') (text : List Char) :
    Keeps (quote :: (escapeText quote text ++ [quote])) [] := by
  intro rest
  have hopen : Region.code.next quote = .literal quote := if_pos hquote
  have hclose : (Region.literal quote).next quote = .code := by
    rw [Region.next, if_neg (by rcases hquote with rfl | rfl <;> decide), if_pos rfl]
  rw [List.cons_append, outsideLiterals, if_neg (by simp [hopen]), hopen, List.append_assoc,
    outsideLiterals_escapeText hquote, List.singleton_append, outsideLiterals_of_ne (by simp), hclose]
  rfl

end Keeps
end C

open C

/-! ## Texts of sources -/

section Kept

variable (mangling : Mangling)

/-- What a part has outside of literals. -/
def Part.kept : Part → List Char
  | .literal (.string _) => []
  | .literal (.char _) => []
  | part => (part.text mangling).toList

theorem isMarkChar_apply {name : String} (hname : name.toList.all isMarkChar) :
    ∀ c ∈ (mangling.apply name).toList, isMarkChar c := by
  have hmark : ∀ c ∈ Mangling.mark.toList, isMarkChar c := List.all_eq_true.mp rfl
  intro c hmem
  by_cases hc : c ∈ Mangling.mark.toList
  · exact hmark c hc
  · exact List.all_eq_true.mp hname c (mem_of_mem_apply hmem hc)

theorem noQuotes_of_isMarkChar {c : Char} (hc : isMarkChar c) : c ≠ '"' ∧ c ≠ '\'' := by
  constructor <;> rintro rfl <;> cases hc

theorem keeps_of_isMarkChar {text : List Char} (hmarks : ∀ c ∈ text, isMarkChar c) :
    Keeps text text :=
  keeps_of_noQuotes fun c hmem => noQuotes_of_isMarkChar (hmarks c hmem)

theorem isMarkChar_of_isNumeral {c : Char} (hc : Number.isNumeral c) : isMarkChar c := by
  simp only [Number.isNumeral, Bool.or_eq_true, Char.isDigit, Bool.and_eq_true, decide_eq_true_eq]
    at hc
  rcases hc with ⟨hlow, hhigh⟩ | hmem
  · have hlow : '0'.toNat ≤ c.toNat := hlow
    have hhigh : c.toNat ≤ '9'.toNat := hhigh
    have hne {other : Char} (hother : other.toNat < '0'.toNat ∨ '9'.toNat < other.toNat) :
        c ≠ other := by
      rintro rfl
      omega
    have hlow : 0x20 ≤ c.toNat := Nat.le_trans (by decide) hlow
    have hhigh : c.toNat < 0x7f := Nat.lt_of_le_of_lt hhigh (by decide)
    simp [isMarkChar, hlow, hhigh, hne]
  · simp only [List.mem_cons, List.not_mem_nil, or_false] at hmem
    rcases hmem with rfl | rfl | rfl | rfl | rfl | rfl | rfl | rfl <;> rfl

/-- The marks of a part: what is neither a name of the program nor a literal with quotes is written
with fixed characters. -/
theorem Part.isMarkChar_kept {part : Part} (hsourced : part.IsSourced)
    (hname : ∀ name, part ≠ .named name) : ∀ c ∈ part.kept mangling, isMarkChar c := by
  cases part with
  | mark text => exact List.all_eq_true.mp hsourced
  | defined name => exact isMarkChar_apply mangling hsourced
  | named name => exact absurd rfl (hname name)
  | literal value =>
      cases value with
      | int n =>
          exact fun c hmem => isMarkChar_of_isNumeral (Number.isNumeral_of_mem_toString n c hmem)
      | float x => exact fun c hmem => isMarkChar_of_isNumeral (x.isNumeral_of_mem_text c hmem)
      | bool b =>
          refine isMarkChar_apply mangling ?_
          cases b <;> rfl
      | string _ => simp [Part.kept]
      | char _ => simp [Part.kept]

theorem WordLike.noQuotes {name : String} (hname : WordLike name) :
    ∀ c ∈ name.toList, c ≠ '"' ∧ c ≠ '\'' := by
  intro c hmem
  have hpart := hname.isIdentifierPart c hmem
  constructor <;> rintro rfl <;> exact absurd hpart (by decide)

theorem Part.keeps {part : Part} (hsourced : part.IsSourced) :
    Keeps (part.text mangling).toList (part.kept mangling) := by
  have hfixed (hname : ∀ name, part ≠ .named name)
      (hkept : part.kept mangling = (part.text mangling).toList) :
      Keeps (part.text mangling).toList (part.kept mangling) := by
    have hmarks := part.isMarkChar_kept mangling hsourced hname
    rw [hkept] at hmarks ⊢
    exact keeps_of_isMarkChar hmarks
  cases part with
  | mark text => exact hfixed (by simp) rfl
  | defined name => exact hfixed (by simp) rfl
  | named name => exact keeps_of_noQuotes (WordLike.apply hsourced mangling).noQuotes
  | literal value =>
      cases value with
      | string text =>
          simpa [Part.kept, Part.text, Literal.emit, stringText] using
            keeps_literal (.inl rfl) text.toList
      | char c =>
          simpa [Part.kept, Part.text, Literal.emit, charText] using keeps_literal (.inr rfl) [c]
      | int | float | bool => exact hfixed (by simp) rfl

/-- The name of the program that a part is. -/
def Part.name? : Part → Option String
  | .named name => some name
  | _ => none

theorem Part.at_mem_kept_iff {part : Part} (hsourced : part.IsSourced) :
    '@' ∈ part.kept mangling ↔ ∃ name ∈ part.name?, '@' ∈ name.toList := by
  by_cases hnamed : ∃ name, part = .named name
  · obtain ⟨name, rfl⟩ := hnamed
    refine ⟨fun hmem => ⟨name, rfl, mem_of_mem_apply hmem (by decide)⟩, ?_⟩
    rintro ⟨other, hsame, hmem⟩
    cases hsame
    cases mangling with
    | off => exact hmem
    | on => simp [Part.kept, Part.text, Mangling.apply, hmem]
  · have hmarks := part.isMarkChar_kept mangling hsourced fun name hname => hnamed ⟨name, hname⟩
    refine ⟨fun hmem => absurd (hmarks _ hmem) (by decide), ?_⟩
    rintro ⟨name, hsame, -⟩
    cases part with
    | named other => exact absurd ⟨other, rfl⟩ hnamed
    | mark | defined | literal => cases hsame

theorem keeps_written {parts : List Part} (hsourced : AllSourced parts) :
    Keeps (written mangling parts).toList (parts.flatMap (Part.kept mangling)) := by
  rw [toList_written]
  exact keeps_flatMap fun part hmem => part.keeps mangling (hsourced part hmem)

end Kept

/-! ## Names that are refused -/

/-- No name among the parts begins with an at sign. -/
def NoForeign (parts : List Part) : Prop :=
  ∀ name ∈ parts.filterMap Part.name?, name.toList.head? ≠ some '@'

section NoForeign

variable {name : String} {part : Part} {parts first second : List Part}

theorem noForeign_nil : NoForeign [] := by
  simp [NoForeign]

theorem noForeign_append : NoForeign (first ++ second) ↔ NoForeign first ∧ NoForeign second := by
  rw [NoForeign, List.filterMap_append]
  exact List.forall_mem_append

theorem noForeign_cons (hpart : part.name? = none) : NoForeign (part :: parts) ↔ NoForeign parts := by
  rw [NoForeign, List.filterMap_cons_none hpart]
  rfl

theorem noForeign_mark {text : String} : NoForeign (.mark text :: parts) ↔ NoForeign parts :=
  noForeign_cons rfl

theorem nameObstacles_eq_nil_iff : nameObstacles name = [] ↔ name.toList.head? ≠ some '@' := by
  simp [nameObstacles]

theorem noForeign_named :
    NoForeign (.named name :: parts) ↔ nameObstacles name = [] ∧ NoForeign parts := by
  have hname : (Part.named name).name? = some name := rfl
  rw [NoForeign, List.filterMap_cons_some hname, List.forall_mem_cons, nameObstacles_eq_nil_iff]
  rfl

theorem Ty.noForeign {type : Ty} (hnone : type.obstacles = []) : NoForeign type.cParts := by
  cases type with
  | builtin name => exact noForeign_mark.mpr noForeign_nil
  | named name => exact noForeign_named.mpr ⟨hnone, noForeign_nil⟩
  | generic base args => cases hnone

theorem Expr.noForeign : (expr : Expr) → expr.obstacles = [] → NoForeign expr.cParts
  | .ident _, hnone => noForeign_named.mpr ⟨hnone, noForeign_nil⟩
  | .literal _, _ => (noForeign_cons rfl).mpr noForeign_nil
  | .binary op lhs rhs, hnone => by
      obtain ⟨hleft, hright⟩ := List.append_eq_nil_iff.mp hnone
      simp only [cParts, noForeign_mark, noForeign_append]
      exact ⟨lhs.noForeign hleft, rhs.noForeign hright, noForeign_nil⟩
  | .unary op .before operand, hnone => by
      simp only [cParts, noForeign_mark, noForeign_append]
      exact ⟨operand.noForeign hnone, noForeign_nil⟩
  | .unary op .behind operand, hnone => by
      simp only [cParts, noForeign_mark, noForeign_append]
      exact ⟨operand.noForeign hnone, noForeign_nil⟩
  | .cast operand target, hnone => by
      obtain ⟨htarget, hoperand⟩ := List.append_eq_nil_iff.mp hnone
      simp only [cParts, noForeign_mark, noForeign_append]
      exact ⟨target.noForeign htarget, operand.noForeign hoperand, noForeign_nil⟩
  | .call _ _ _, hnone => by cases hnone

theorem Expr.noForeign_statementParts {expr : Expr} (hnone : expr.obstacles = []) :
    NoForeign expr.statementParts := by
  have hplain : NoForeign (expr.cParts ++ [.mark ";"]) :=
    noForeign_append.mpr ⟨expr.noForeign hnone, noForeign_mark.mpr noForeign_nil⟩
  cases expr with
  | binary op lhs rhs =>
      rw [statementParts]
      split
      · obtain ⟨hleft, hright⟩ := List.append_eq_nil_iff.mp hnone
        simp only [noForeign_mark, noForeign_append]
        exact ⟨lhs.noForeign hleft, rhs.noForeign hright, noForeign_nil⟩
      · exact hplain
  | _ => exact hplain

theorem VariableDecl.noForeign {decl : VariableDecl} (hnone : decl.obstacles = []) :
    NoForeign decl.cParts := by
  simp only [VariableDecl.obstacles, List.append_eq_nil_iff] at hnone
  obtain ⟨⟨⟨-, htype⟩, hname⟩, hinit⟩ := hnone
  have hvalue : NoForeign (decl.init.elim [] Expr.cParts) := by
    cases hsome : decl.init with
    | none => exact noForeign_nil
    | some init =>
        rw [hsome] at hinit
        exact init.noForeign hinit
  rw [VariableDecl.cParts, noForeign_cons rfl]
  simp only [noForeign_mark, noForeign_named, noForeign_append]
  exact ⟨decl.type.noForeign htype, hname, hvalue, noForeign_nil⟩

theorem VariableDecl.noForeign_fieldParts {decl : VariableDecl}
    (hnone : decl.fieldObstacles = []) : NoForeign decl.fieldParts := by
  simp only [VariableDecl.fieldObstacles, List.append_eq_nil_iff] at hnone
  simp only [VariableDecl.fieldParts, noForeign_mark, noForeign_named, noForeign_append]
  exact ⟨decl.type.noForeign hnone.1.2, hnone.2, noForeign_nil⟩

theorem RecordHead.noForeign {head : RecordHead} {methods : List FunctionDecl}
    (hnone : head.obstacles methods = []) : NoForeign head.cParts := by
  simp only [RecordHead.obstacles, List.append_eq_nil_iff, List.flatMap_eq_nil_iff] at hnone
  obtain ⟨⟨-, htype⟩, hfields⟩ := hnone
  have hname : NoForeign head.type.cParts := by
    revert htype
    cases head.type with
    | named name => exact fun hnone => noForeign_named.mpr ⟨hnone, noForeign_nil⟩
    | builtin name => exact fun hnone => by cases hnone
    | generic base args => exact fun hnone => by cases hnone
  have hparts : NoForeign (head.fields.flatMap VariableDecl.fieldParts) := by
    intro name hmem
    obtain ⟨part, hpart, hname⟩ := List.mem_filterMap.mp hmem
    obtain ⟨field, hfield, hpart⟩ := List.mem_flatMap.mp hpart
    exact VariableDecl.noForeign_fieldParts (hfields field hfield) name
      (List.mem_filterMap.mpr ⟨part, hpart, hname⟩)
  simp only [RecordHead.cParts, noForeign_mark, noForeign_append]
  exact ⟨hname, hparts, hname, noForeign_nil⟩

mutual
theorem Stmt.noForeign : (stmt : Stmt) → stmt.obstacles = [] → NoForeign stmt.cParts
  | .expr _, hnone => Expr.noForeign_statementParts hnone
  | .variable _, hnone => VariableDecl.noForeign hnone
  | .typeAlias target name, hnone => by
      obtain ⟨htarget, hname⟩ := List.append_eq_nil_iff.mp hnone
      simp only [Stmt.cParts, noForeign_mark, noForeign_named, noForeign_append]
      exact ⟨target.noForeign htarget, hname, noForeign_nil⟩
  | .record _ _, hnone => RecordHead.noForeign hnone
  | .branch condition body none, hnone => by
      obtain ⟨hcondition, hbody⟩ := List.append_eq_nil_iff.mp hnone
      simp only [Stmt.cParts, noForeign_mark, noForeign_append]
      exact ⟨condition.noForeign hcondition, Stmt.noForeign_all body hbody, noForeign_nil⟩
  | .branch condition body (some otherwise), hnone => by
      obtain ⟨hfront, hotherwise⟩ := List.append_eq_nil_iff.mp hnone
      obtain ⟨hcondition, hbody⟩ := List.append_eq_nil_iff.mp hfront
      simp only [Stmt.cParts, noForeign_mark, noForeign_append]
      exact ⟨condition.noForeign hcondition, Stmt.noForeign_all body hbody,
        Stmt.noForeign_all otherwise hotherwise, noForeign_nil⟩
  | .loop condition body, hnone => by
      obtain ⟨hcondition, hbody⟩ := List.append_eq_nil_iff.mp hnone
      simp only [Stmt.cParts, noForeign_mark, noForeign_append]
      exact ⟨condition.noForeign hcondition, Stmt.noForeign_all body hbody, noForeign_nil⟩
  | .defer _, _ => noForeign_nil
  | .break, _ => noForeign_mark.mpr noForeign_nil
  | .continue, _ => noForeign_mark.mpr noForeign_nil
  | .function _, _ => noForeign_nil

theorem Stmt.noForeign_all : (stmts : List Stmt) → Stmt.allObstacles stmts = [] →
    NoForeign (Stmt.allParts stmts)
  | [], _ => noForeign_nil
  | stmt :: stmts, hnone => by
      obtain ⟨hfirst, hmore⟩ := List.append_eq_nil_iff.mp hnone
      exact noForeign_append.mpr ⟨stmt.noForeign hfirst, Stmt.noForeign_all stmts hmore⟩
end

end NoForeign

/-! ## Modules -/

/-- The names of the program in the lines of its statements. -/
def Module.lineNames (program : Module) : List String :=
  program.statements.flatMap fun stmt => stmt.cParts.filterMap Part.name?

theorem Builtin.isMarkChar_name (type : Builtin) : ("K" ++ type.symbol).toList.all isMarkChar := by
  cases type <;> decide

theorem isMarkChar_preludeLines (mangling : Mangling) :
    ∀ line ∈ preludeLines mangling, ∀ c ∈ line.toList, isMarkChar c := by
  have hfixed {text : String} (htext : text.toList.all isMarkChar) : ∀ c ∈ text.toList, isMarkChar c :=
    List.all_eq_true.mp htext
  have hdefined {name : String} (hname : name.toList.all isMarkChar) :
      ∀ c ∈ (mangling.apply name).toList, isMarkChar c :=
    isMarkChar_apply mangling hname
  have hbuiltin (type : Builtin) : ∀ c ∈ ("typedef " ++ type.cType ++ " " ++
      mangling.apply ("K" ++ type.symbol) ++ ";").toList, isMarkChar c := by
    simp only [String.toList_append, List.forall_mem_append, and_assoc]
    exact ⟨hfixed rfl, hfixed type.isMarkChar_cType, hfixed rfl, hdefined type.isMarkChar_name,
      hfixed rfl⟩
  simp only [preludeLines, List.forall_mem_append, List.forall_mem_cons, List.forall_mem_map]
  refine ⟨⟨?_, fun type _ => hbuiltin type⟩, ?_⟩
  · simp only [String.toList_append, List.forall_mem_append, and_assoc]
    exact ⟨hfixed rfl, hfixed rfl, hdefined rfl, hfixed rfl, hfixed rfl, hdefined rfl, hfixed rfl,
      hfixed rfl, hdefined rfl, hfixed rfl, by simp⟩
  · simp only [String.toList_append, List.forall_mem_append, and_assoc]
    exact ⟨hfixed rfl, hdefined rfl, hfixed rfl, hfixed rfl, hfixed rfl, hdefined rfl, hfixed rfl,
      hfixed rfl, hfixed rfl, hdefined rfl, hfixed rfl, by simp⟩

theorem toList_endLines (lines : List String) :
    (endLines lines).toList = lines.flatMap fun line => line.toList ++ ['\n'] := by
  simp [endLines, String.toList_join, List.flatMap_map]

/-- The fixed lines of a module have no quote and no at sign. -/
theorem ne_of_mem_preludeText {mangling : Mangling} {c mark : Char}
    (hmem : c ∈ (preludeText mangling).toList) (hmark : isMarkChar mark = false)
    (hline : mark ≠ '\n') : c ≠ mark := by
  rintro rfl
  rw [preludeText, toList_endLines] at hmem
  obtain ⟨line, hmemLine, hmem⟩ := List.mem_flatMap.mp hmem
  rcases List.mem_append.mp hmem with hmem | hmem
  · rw [isMarkChar_preludeLines mangling line hmemLine _ hmem] at hmark
    cases hmark
  · exact hline (List.mem_singleton.mp hmem)

theorem Module.noQuotes_guard {program : Module} (hname : WordLike program.name)
    (mangling : Mangling) : ∀ c ∈ (program.guard mangling).toList, c ≠ '"' ∧ c ≠ '\'' := by
  intro c hmem
  have hquotes := hname.noQuotes
  constructor <;> rintro rfl
  · exact (hquotes _ (program.mem_of_mem_guard (by decide) hmem)).1 rfl
  · exact (hquotes _ (program.mem_of_mem_guard (by decide) hmem)).2 rfl

theorem Text.mem_upper_of_mem {text : String} (hmem : '@' ∈ text.toList) :
    '@' ∈ (upper text).toList := by
  rw [upper, String.toList_ofList]
  exact List.mem_flatMap.mpr ⟨'@', hmem, by decide⟩

theorem Module.at_mem_guard_iff (program : Module) (mangling : Mangling) :
    '@' ∈ (program.guard mangling).toList ↔ '@' ∈ program.name.toList := by
  refine ⟨program.mem_of_mem_guard (by decide), fun hmem => ?_⟩
  have hupper := Text.mem_upper_of_mem hmem
  cases mangling <;> simp [Module.guard, Mangling.apply, hupper]

theorem keeps_newline : Keeps ['\n'] ['\n'] :=
  keeps_of_noQuotes (by simp)

/-- What the lines of statements have outside of literals. -/
def keptLines (mangling : Mangling) (stmts : List Stmt) : List Char :=
  stmts.flatMap fun stmt => stmt.cParts.flatMap (Part.kept mangling) ++ ['\n']

theorem keeps_lines {stmts : List Stmt} (mangling : Mangling)
    (hsourced : ∀ stmt ∈ stmts, AllSourced stmt.cParts) :
    Keeps (endLines (stmts.map (Stmt.line mangling))).toList (keptLines mangling stmts) := by
  rw [toList_endLines, List.flatMap_map]
  exact keeps_flatMap fun stmt hmem =>
    (keeps_written mangling (hsourced stmt hmem)).append keeps_newline

theorem at_mem_keptLines_iff {stmts : List Stmt} (mangling : Mangling)
    (hsourced : ∀ stmt ∈ stmts, AllSourced stmt.cParts) :
    '@' ∈ keptLines mangling stmts ↔
      ∃ name ∈ stmts.flatMap fun stmt => stmt.cParts.filterMap Part.name?, '@' ∈ name.toList := by
  constructor
  · intro hmem
    obtain ⟨stmt, hstmt, hmem⟩ := List.mem_flatMap.mp hmem
    obtain ⟨part, hpart, hmem⟩ := List.mem_flatMap.mp
      ((List.mem_append.mp hmem).resolve_right (by decide))
    obtain ⟨name, hname, hmem⟩ :=
      (part.at_mem_kept_iff mangling (hsourced stmt hstmt part hpart)).mp hmem
    exact ⟨name, List.mem_flatMap.mpr ⟨stmt, hstmt, List.mem_filterMap.mpr ⟨part, hpart, hname⟩⟩, hmem⟩
  · rintro ⟨name, hname, hmem⟩
    obtain ⟨stmt, hstmt, hname⟩ := List.mem_flatMap.mp hname
    obtain ⟨part, hpart, hname⟩ := List.mem_filterMap.mp hname
    have hkept := (part.at_mem_kept_iff mangling (hsourced stmt hstmt part hpart)).mpr
      ⟨name, hname, hmem⟩
    exact List.mem_flatMap.mpr ⟨stmt, hstmt, List.mem_append_left _
      (List.mem_flatMap.mpr ⟨part, hpart, hkept⟩)⟩

/-- The lines that guard a module. -/
theorem Module.keeps_guardLines {program : Module} (hname : WordLike program.name)
    (mangling : Mangling) :
    let lines := endLines
      ["#ifndef " ++ program.guard mangling, "#define " ++ program.guard mangling]
    Keeps lines.toList lines.toList := by
  intro lines
  have hguard := program.noQuotes_guard hname mangling
  have hword : ∀ c ∈ "#ifndef ".toList ++ "#define ".toList, c ≠ '"' ∧ c ≠ '\'' :=
    fun c hmem => noQuotes_of_isMarkChar (List.all_eq_true.mp rfl c hmem)
  refine keeps_of_noQuotes fun c hmem => ?_
  simp only [lines, toList_endLines, List.flatMap_cons, List.flatMap_nil, String.toList_append,
    List.mem_append, List.mem_singleton, List.not_mem_nil, or_false] at hmem
  rcases hmem with ((hmem | hmem) | rfl) | (hmem | hmem) | rfl
  · exact hword c (List.mem_append_left _ hmem)
  · exact hguard c hmem
  · decide
  · exact hword c (List.mem_append_right _ hmem)
  · exact hguard c hmem
  · decide

theorem Module.at_mem_guardLines_iff (program : Module) (mangling : Mangling) :
    '@' ∈ (endLines ["#ifndef " ++ program.guard mangling,
      "#define " ++ program.guard mangling]).toList ↔ '@' ∈ program.name.toList := by
  rw [← program.at_mem_guard_iff mangling]
  simp [toList_endLines]

/-- The C text of a module has an at sign outside of its literals exactly if the module or a name
in one of its lines has one. -/
theorem Module.at_mem_outsideLiterals_iff {program : Module} {mangling : Mangling} {out : String}
    (hover : program.Over .source) (hemit : program.emit mangling = .ok out) :
    '@' ∈ outsideLiterals .code out.toList ↔
      ∃ name ∈ program.name :: program.lineNames, '@' ∈ name.toList := by
  have hsourced : ∀ stmt ∈ program.statements, AllSourced stmt.cParts :=
    fun stmt hmem => stmt.allSourced (Stmt.over_of_mem hover.2 stmt hmem)
  have hprelude : Keeps (preludeText mangling).toList (preludeText mangling).toList :=
    keeps_of_noQuotes fun c hmem =>
      ⟨ne_of_mem_preludeText hmem rfl (by decide), ne_of_mem_preludeText hmem rfl (by decide)⟩
  have hnowhere : '@' ∉ (preludeText mangling).toList :=
    fun hmem => ne_of_mem_preludeText hmem (by rfl : isMarkChar '@' = false) (by decide) rfl
  have hendif : Keeps "#endif".toList "#endif".toList :=
    keeps_of_isMarkChar (List.all_eq_true.mp rfl)
  have hclosing : Keeps "#endif\n".toList "#endif\n".toList := hendif.append keeps_newline
  have hkeeps := (((program.keeps_guardLines hover.1 mangling).append hprelude).append
    (keeps_lines mangling hsourced)).append hclosing
  rw [Module.emit_eq, unobstructed_eq_ok_iff] at hemit
  rw [← hemit.2, String.toList_append, String.toList_append, String.toList_append,
    hkeeps.outsideLiterals_eq]
  simp only [List.mem_append, program.at_mem_guardLines_iff mangling,
    at_mem_keptLines_iff mangling hsourced, hnowhere, or_false, List.exists_mem_cons_iff,
    Module.lineNames]
  exact or_iff_left (by decide)

/-- The C text of a source has an at sign outside of its literals exactly if the module or a name in
one of its lines has one. Of the latter, none begins with it. -/
theorem at_sign_in_code_iff {source out : String} {mangling : Mangling} {program : Module}
    (hprogram : (parseModule (lex source).tokens).value = program)
    (hemit : program.emit mangling = .ok out) :
    ('@' ∈ outsideLiterals .code out.toList ↔
      ∃ name ∈ program.name :: program.lineNames, '@' ∈ name.toList) ∧
      ∀ name ∈ program.lineNames, name.toList.head? ≠ some '@' := by
  have hover : program.Over .source := hprogram ▸ (parseModule_lex_fits source).2
  refine ⟨program.at_mem_outsideLiterals_iff hover hemit, ?_⟩
  rw [Module.emit_eq, unobstructed_eq_ok_iff, Module.obstacles, Stmt.allObstacles_eq,
    List.flatMap_eq_nil_iff] at hemit
  intro name hname
  obtain ⟨stmt, hstmt, hname⟩ := List.mem_flatMap.mp hname
  exact stmt.noForeign (hemit.1 stmt hstmt) name hname

/-- At signs in literals are no matter: this text has none outside of them. -/
theorem at_sign_in_code_iff_literals :
    let program : Module := ⟨"m", [.expr (.binary .assign (.ident "s") (.literal (.string "@\"@")))]⟩
    (parseModule (lex "mod m\ns = \"@\\\"@\"").tokens).value = program ∧
      ∃ out, program.emit .on = .ok out ∧
        ('@' ∈ outsideLiterals .code out.toList ↔
          ∃ name ∈ program.name :: program.lineNames, '@' ∈ name.toList) ∧
        ∀ name ∈ program.lineNames, name.toList.head? ≠ some '@' := by
  have hprogram : (parseModule (lex "mod m\ns = \"@\\\"@\"").tokens).value =
      ⟨"m", [.expr (.binary .assign (.ident "s") (.literal (.string "@\"@")))]⟩ := by
    with_unfolding_all rfl
  exact ⟨hprogram, _, rfl, at_sign_in_code_iff hprogram rfl⟩

/-- Sources without errors whose C text has a name with an at sign: the guard of a module whose name
begins with one, and a variable with one inside its name. -/
theorem at_sign_reaches_code :
    ((lex "mod @m").findings = [] ∧ (parseModule (lex "mod @m").tokens).findings = [] ∧
      ∃ out, (parseModule (lex "mod @m").tokens).value.emit .off = .ok out ∧
        '@' ∈ outsideLiterals .code out.toList) ∧
      ((lex "mod m\nx@y: _Int = 1").findings = [] ∧
        (parseModule (lex "mod m\nx@y: _Int = 1").tokens).findings = [] ∧
        ∃ out, (parseModule (lex "mod m\nx@y: _Int = 1").tokens).value.emit .off = .ok out ∧
          '@' ∈ outsideLiterals .code out.toList) := by
  have hguard : parseModule (lex "mod @m").tokens = ⟨⟨"@m", []⟩, []⟩ := by with_unfolding_all rfl
  have hline : parseModule (lex "mod m\nx@y: _Int = 1").tokens =
      ⟨⟨"m", [.variable ⟨"x@y", .builtin "_Int", some (.literal (.int 1)), .empty, .topLevel⟩]⟩,
        []⟩ := by
    with_unfolding_all rfl
  have hguardOver := (parseModule_lex_fits "mod @m").2
  have hlineOver := (parseModule_lex_fits "mod m\nx@y: _Int = 1").2
  rw [hguard] at hguardOver
  rw [hline] at hlineOver
  refine ⟨⟨by with_unfolding_all rfl, by rw [hguard], ?_⟩, by with_unfolding_all rfl, by rw [hline], ?_⟩
  · rw [hguard]
    exact ⟨_, rfl, (Module.at_mem_outsideLiterals_iff hguardOver rfl).mpr ⟨"@m", by simp, by decide⟩⟩
  · rw [hline]
    exact ⟨_, rfl, (Module.at_mem_outsideLiterals_iff hlineOver rfl).mpr
      ⟨"x@y", List.mem_cons_of_mem _ (by decide), by decide⟩⟩

end KCompiler
