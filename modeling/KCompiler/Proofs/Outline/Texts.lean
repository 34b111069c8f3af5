import KCompiler.Proofs.Number.Written
import KCompiler.Proofs.Outline.Nodes
import KCompiler.Proofs.Outline.Quoted
import KCompiler.Proofs.Trees.Source

/-! # What the lines of an outline tell

A line joins names, types and words by characters that none of them contains. So each part can be
told from the line, together with what stands behind it: names end where a character stands that is
no part of a name, and lists in brackets end where the bracket closes.
-/

namespace KCompiler

open Scan

variable {α : Type} {rest more : List Char}

/-- A text that does not go on with a name. -/
def EndsName (text : List Char) : Prop :=
  ∀ c ∈ text.head?, isIdentifierPart c = false

theorem endsName_cons {c : Char} (hc : isIdentifierPart c = false) : EndsName (c :: rest) := by
  simpa [EndsName] using hc

/-- A text that begins with a character of a name. -/
def OpensName (text : List Char) : Prop :=
  ∃ first rest, text = first :: rest ∧ isIdentifierPart first

theorem OpensName.append {text : List Char} (htext : OpensName text) (rest : List Char) :
    OpensName (text ++ rest) := by
  obtain ⟨first, behind, rfl, hfirst⟩ := htext
  exact ⟨first, behind ++ rest, rfl, hfirst⟩

theorem OpensName.cons_ne {text : List Char} (htext : OpensName text) {c : Char}
    (hc : isIdentifierPart c = false) : c :: rest ≠ text := by
  rintro rfl
  obtain ⟨first, behind, hcons, hfirst⟩ := htext
  obtain ⟨rfl, -⟩ := List.cons.inj hcons
  rw [hc] at hfirst
  cases hfirst

theorem WordLike.opensName {name : String} (hname : WordLike name) : OpensName name.toList := by
  have hparts := hname.isIdentifierPart
  obtain ⟨first, behind, htext, -, -⟩ := hname
  exact ⟨first, behind, htext, hparts first (by simp [htext])⟩

theorem WordLike.oneLine {name : String} (hname : WordLike name) : OneLine name :=
  fun hmem => absurd (hname.isIdentifierPart _ hmem) (by decide)

/-- A name ends where a character stands that is no part of a name. -/
theorem eq_of_name {name other : String} (hname : WordLike name) (hother : WordLike other)
    (hrest : EndsName rest) (hmore : EndsName more)
    (hsame : name.toList ++ rest = other.toList ++ more) : name = other ∧ rest = more := by
  have hends {text : List Char} (htext : EndsName text) : ∀ c ∈ text.head?, ¬ isIdentifierPart c :=
    fun c hmem => by simp [htext c hmem]
  obtain ⟨hnames, hbehind⟩ := eq_of_run hname.isIdentifierPart hother.isIdentifierPart (hends hrest)
    (hends hmore) hsame
  exact ⟨String.toList_inj.mp hnames, hbehind⟩

/-! ## Lists -/

/-- A text that goes on with a comma or with the end of a list. -/
def GoesOn (closing : Char) (text : List Char) : Prop :=
  text.head? = some ',' ∨ text.head? = some closing

/-- The written form of an item can be told apart from that of another one, wherever they stand in
a list. -/
def Distinct (closing : Char) (write : α → String) (item other : α) : Prop :=
  ∀ rest more, GoesOn closing rest → GoesOn closing more →
    (write item).toList ++ rest = (write other).toList ++ more → item = other ∧ rest = more

/-- The items of a list behind the first one. -/
def further (write : α → String) (items : List α) : List Char :=
  items.flatMap fun item => ',' :: ' ' :: (write item).toList

theorem toList_intercalate_cons (write : α → String) (item : α) (items : List α) :
    (", ".intercalate ((item :: items).map write)).toList =
      (write item).toList ++ further write items := by
  induction items generalizing item with
  | nil => simp [further]
  | cons next items ih =>
      have hnext := ih next
      simp only [List.map_cons, further, List.flatMap_cons] at hnext ⊢
      rw [String.intercalate_cons_cons, String.toList_append, String.toList_append, hnext]
      simp

theorem goesOn_further (closing : Char) (write : α → String) (items : List α) (rest : List Char) :
    GoesOn closing (further write items ++ closing :: rest) := by
  cases items with
  | nil => exact .inr rfl
  | cons item items => exact .inl rfl

theorem eq_of_further {closing : Char} {write : α → String} (hclosing : closing ≠ ',')
    {items others : List α}
    (hitems : ∀ item ∈ items, ∀ other ∈ others, Distinct closing write item other)
    (hsame : further write items ++ closing :: rest = further write others ++ closing :: more) :
    items = others ∧ rest = more := by
  induction items generalizing others with
  | nil =>
      cases others with
      | nil => exact ⟨rfl, (List.cons.inj hsame).2⟩
      | cons other others => exact absurd (List.cons.inj hsame).1 hclosing
  | cons item items ih =>
      cases others with
      | nil => exact absurd (List.cons.inj hsame).1.symm hclosing
      | cons other others =>
          simp only [further, List.flatMap_cons, List.cons_append, List.append_assoc,
            List.cons.injEq, true_and] at hsame
          obtain ⟨rfl, hbehind⟩ := hitems item (by simp) other (by simp) _ _
            (goesOn_further closing write items rest) (goesOn_further closing write others more) hsame
          obtain ⟨rfl, hends⟩ := ih
            (fun item hitem other hother => hitems item (by simp [hitem]) other (by simp [hother]))
            hbehind
          exact ⟨rfl, hends⟩

/-- A list tells its items and where it ends. -/
theorem eq_of_intercalate {closing : Char} {write : α → String} (hclosing : closing ≠ ',')
    (hpart : isIdentifierPart closing = false) {items others : List α}
    (hitems : ∀ item ∈ items, ∀ other ∈ others, Distinct closing write item other)
    (hopens : ∀ item ∈ items, OpensName (write item).toList)
    (hothers : ∀ other ∈ others, OpensName (write other).toList)
    (hsame : (", ".intercalate (items.map write)).toList ++ closing :: rest =
      (", ".intercalate (others.map write)).toList ++ closing :: more) :
    items = others ∧ rest = more := by
  cases items with
  | nil =>
      cases others with
      | nil => exact ⟨rfl, by simpa using hsame⟩
      | cons other others =>
          rw [toList_intercalate_cons, List.append_assoc] at hsame
          exact absurd hsame (((hothers other (by simp)).append _).cons_ne hpart)
  | cons item items =>
      cases others with
      | nil =>
          rw [toList_intercalate_cons, List.append_assoc] at hsame
          exact absurd hsame.symm (((hopens item (by simp)).append _).cons_ne hpart)
      | cons other others =>
          rw [toList_intercalate_cons, toList_intercalate_cons, List.append_assoc,
            List.append_assoc] at hsame
          obtain ⟨rfl, hbehind⟩ := hitems item (by simp) other (by simp) _ _
            (goesOn_further closing write items rest) (goesOn_further closing write others more) hsame
          obtain ⟨rfl, hends⟩ := eq_of_further hclosing
            (fun item hitem other hother => hitems item (by simp [hitem]) other (by simp [hother]))
            hbehind
          exact ⟨rfl, hends⟩

theorem oneLine_intercalate {texts : List String} (htexts : ∀ text ∈ texts, OneLine text) :
    OneLine (", ".intercalate texts) := by
  induction texts with
  | nil => exact (by decide : OneLine "")
  | cons text texts ih =>
      obtain ⟨htext, hmore⟩ := List.forall_mem_cons.mp htexts
      cases texts with
      | nil => simpa using htext
      | cons next texts =>
          rw [String.intercalate_cons_cons]
          exact (htext.append (by decide)).append (ih hmore)

/-! ## Types -/

/-- The literals that an outline tells apart: an outline of a number shows no sign. -/
def Literal.IsShown : Literal → Prop
  | .float value => value.IsUnsigned
  | _ => True

/-- The leaves that an outline tells apart. A type shows only its name, so no builtin type may share
its name with another type. -/
def Vocabulary.shown : Vocabulary where
  Known
    | .ident name => WordLike name
    | .name name => WordLike name ∧ ∀ type : Builtin, type.symbol ≠ name
    | .builtin name => ∃ type : Builtin, type.symbol = name
    | .literal value => value.IsShown
  known_default := by
    rintro leaf (rfl | rfl | rfl)
    · exact ⟨.unit, rfl⟩
    · trivial
    · refine ⟨by decide, ?_⟩
      intro type
      cases type <;> decide

theorem Builtin.wordLike_symbol (type : Builtin) : WordLike type.symbol := by
  cases type <;> decide

/-- A text that goes on neither with a name nor with the arguments of a type. -/
def EndsType (text : List Char) : Prop :=
  EndsName text ∧ text.head? ≠ some '['

theorem endsType_cons {c : Char} (hpart : isIdentifierPart c = false) (hc : c ≠ '[') :
    EndsType (c :: rest) :=
  ⟨endsName_cons hpart, by simpa using hc⟩

theorem endsType_nil : EndsType [] :=
  ⟨by simp [EndsName], by simp⟩

theorem GoesOn.endsType {closing : Char} (hpart : isIdentifierPart closing = false)
    (hclosing : closing ≠ '[') (hrest : GoesOn closing rest) : EndsType rest := by
  cases rest with
  | nil => exact endsType_nil
  | cons c rest =>
      rcases hrest with hc | hc
      · obtain rfl : c = ',' := Option.some.inj hc
        exact endsType_cons (by decide) (by decide)
      · obtain rfl : c = closing := Option.some.inj hc
        exact endsType_cons hpart hclosing

namespace Ty

@[simp]
theorem texts_eq_map (types : List Ty) : texts types = types.map text := by
  induction types with
  | nil => rfl
  | cons type types ih => rw [texts, ih, List.map_cons]

theorem toList_text_generic (base : Ty) (args : List Ty) (rest : List Char) :
    (generic base args).text.toList ++ rest =
      base.text.toList ++ '[' :: ((", ".intercalate (args.map text)).toList ++ ']' :: rest) := by
  simp [text]

theorem wordLike_text {type : Ty} (hsimple : type.isGeneric = false) (hover : type.Over .shown) :
    WordLike type.text := by
  cases type with
  | builtin name =>
      obtain ⟨builtin, rfl⟩ := hover
      exact builtin.wordLike_symbol
  | named name => exact hover.1
  | generic base args => cases hsimple

/-- Types without arguments are told apart by their names. -/
theorem eq_of_text_eq {type other : Ty} (htype : type.isGeneric = false)
    (hother : other.isGeneric = false) (hover : type.Over .shown) (hothers : other.Over .shown)
    (hsame : type.text = other.text) : type = other := by
  cases type with
  | builtin name =>
      cases other with
      | builtin _ => exact congrArg builtin hsame
      | named _ =>
          obtain ⟨builtin, rfl⟩ := hover
          exact absurd hsame (hothers.2 builtin)
      | generic _ _ => cases hother
  | named name =>
      cases other with
      | builtin _ =>
          obtain ⟨builtin, rfl⟩ := hothers
          exact absurd hsame.symm (hover.2 builtin)
      | named _ => exact congrArg named hsame
      | generic _ _ => cases hother
  | generic _ _ => cases htype

theorem opensName_text (type : Ty) (hwell : type.WellFormed) (hover : type.Over .shown) :
    OpensName type.text.toList := by
  cases type with
  | builtin name => exact (wordLike_text rfl hover).opensName
  | named name => exact (wordLike_text rfl hover).opensName
  | generic base args =>
      have hbase := (wordLike_text hwell.1 hover.1).opensName
      simpa [text] using hbase.append _

theorem fits_of_mem {types : List Ty} (hwell : AllWellFormed types) (hover : AllOver .shown types) :
    ∀ type ∈ types, type.Fits .shown := by
  induction types with
  | nil => simp
  | cons type types ih =>
      exact List.forall_mem_cons.mpr ⟨⟨hwell.1, hover.1⟩, ih hwell.2 hover.2⟩

theorem eq_of_text_simple {type other : Ty} (hsimple : type.isGeneric = false)
    (hover : type.Over .shown) (hother : other.Fits .shown) (hrest : EndsType rest)
    (hmore : EndsName more) (hsame : type.text.toList ++ rest = other.text.toList ++ more) :
    type = other ∧ rest = more := by
  have hname := wordLike_text hsimple hover
  cases hkind : other.isGeneric with
  | false =>
      obtain ⟨htext, hends⟩ := eq_of_name hname (wordLike_text hkind hother.2) hrest.1 hmore hsame
      exact ⟨eq_of_text_eq hsimple hkind hover hother.2 htext, hends⟩
  | true =>
      cases other with
      | builtin _ | named _ => cases hkind
      | generic base args =>
          -- The base of the other type would be the whole name, with a bracket behind it.
          obtain ⟨hwell, hbase, -⟩ := hother
          rw [toList_text_generic] at hsame
          obtain ⟨-, rfl⟩ := eq_of_name hname (wordLike_text hwell.1 hbase) hrest.1
            (endsName_cons (by decide)) hsame
          exact absurd rfl hrest.2

mutual
/-- A type tells its base and its arguments, and where it ends. -/
theorem eq_of_text : (type other : Ty) → type.Fits .shown → other.Fits .shown →
    ∀ {rest more : List Char}, EndsType rest → EndsType more →
      type.text.toList ++ rest = other.text.toList ++ more → type = other ∧ rest = more
  | .builtin _, _, htype, hother, _, _, hrest, hmore, hsame =>
      eq_of_text_simple rfl htype.2 hother hrest hmore.1 hsame
  | .named _, _, htype, hother, _, _, hrest, hmore, hsame =>
      eq_of_text_simple rfl htype.2 hother hrest hmore.1 hsame
  | .generic base args, .builtin _, htype, hother, _, _, hrest, hmore, hsame => by
      obtain ⟨heq, -⟩ := eq_of_text_simple rfl hother.2 htype hmore hrest.1 hsame.symm
      cases heq
  | .generic base args, .named _, htype, hother, _, _, hrest, hmore, hsame => by
      obtain ⟨heq, -⟩ := eq_of_text_simple rfl hother.2 htype hmore hrest.1 hsame.symm
      cases heq
  | .generic base args, .generic head params, htype, hother, _, _, _, _, hsame => by
      obtain ⟨⟨hsimple, hargs⟩, hbase, hknown⟩ := htype
      obtain ⟨⟨hplain, hparams⟩, hhead, hshown⟩ := hother
      rw [toList_text_generic, toList_text_generic] at hsame
      -- A base is a name, as it takes no arguments of its own: it ends at its bracket.
      obtain ⟨htext, hbehind⟩ := eq_of_name (wordLike_text hsimple hbase)
        (wordLike_text hplain hhead) (endsName_cons (by decide)) (endsName_cons (by decide)) hsame
      obtain rfl := eq_of_text_eq hsimple hplain hbase hhead htext
      have hopens (types : List Ty) (hfits : ∀ type ∈ types, type.Fits .shown) :
          ∀ type ∈ types, OpensName type.text.toList :=
        fun type hmem => opensName_text type (hfits type hmem).1 (hfits type hmem).2
      obtain ⟨rfl, hends⟩ := eq_of_intercalate (by decide) (by decide)
        (fun arg harg other hother => distinct_of_mem args hargs hknown arg harg other
          (fits_of_mem hparams hshown other hother))
        (hopens args (fits_of_mem hargs hknown)) (hopens params (fits_of_mem hparams hshown))
        (List.cons.inj hbehind).2
      exact ⟨rfl, hends⟩

theorem distinct_of_mem : (types : List Ty) → AllWellFormed types → AllOver .shown types →
    ∀ type ∈ types, ∀ other : Ty, other.Fits .shown → Distinct ']' text type other
  | [], _, _, _, hmem, _, _ => absurd hmem List.not_mem_nil
  | type :: types, hwell, hover, member, hmem, other, hother => by
      rcases List.mem_cons.mp hmem with hfirst | hmem
      · rw [hfirst]
        intro rest more hrest hmore
        exact eq_of_text type other ⟨hwell.1, hover.1⟩ hother
          (hrest.endsType (by decide) (by decide)) (hmore.endsType (by decide) (by decide))
      · exact distinct_of_mem types hwell.2 hover.2 member hmem other hother
end

mutual
theorem oneLine_text : (type : Ty) → type.Over .shown → OneLine type.text
  | .builtin _, hover => (wordLike_text rfl hover).oneLine
  | .named _, hover => (wordLike_text rfl hover).oneLine
  | .generic base args, hover =>
      (((oneLine_text base hover.1).append (by decide)).append
        (oneLine_intercalate (oneLine_texts args hover.2))).append (by decide)

theorem oneLine_texts : (types : List Ty) → AllOver .shown types → ∀ text ∈ texts types, OneLine text
  | [], _ => by simp [texts]
  | type :: types, hover => by
      rw [texts]
      exact List.forall_mem_cons.mpr ⟨oneLine_text type hover.1, oneLine_texts types hover.2⟩
end

end Ty

/-- A type that ends a line behind a word. -/
theorem Ty.eq_of_line {type other : Ty} (htype : type.Fits .shown) (hother : other.Fits .shown)
    {word : String} (hsame : word ++ type.text = word ++ other.text) : type = other := by
  replace hsame := congrArg String.toList hsame
  rw [String.toList_append, String.toList_append, List.append_cancel_left_eq] at hsame
  exact (Ty.eq_of_text type other htype hother endsType_nil endsType_nil
    (by simpa using hsame)).1

/-! ## First words and literals -/

/-- The name at the front of a text. -/
def firstWord (text : String) : String :=
  String.ofList (text.toList.takeWhile isIdentifierPart)

theorem toList_firstWord (text : String) :
    (firstWord text).toList = text.toList.takeWhile isIdentifierPart :=
  String.toList_ofList

/-- A line that begins with a name can be told from its rendered text. -/
theorem OneLine.isPlain {text : String} (htext : OneLine text) (hword : firstWord text ≠ "") :
    IsPlain text := by
  refine ⟨htext, fun hblank => hword ?_⟩
  rw [← String.toList_inj, toList_firstWord]
  cases hlist : text.toList with
  | nil => rfl
  | cons c rest =>
      rw [hlist] at hblank
      obtain rfl : c = ' ' := Option.some.inj hblank
      rw [List.takeWhile_cons_of_neg (by decide)]
      rfl

/-- A text with a known first word and more behind it. -/
def Opens (word text : String) : Prop :=
  firstWord text = word ∧ text ≠ word

instance (word text : String) : Decidable (Opens word text) :=
  inferInstanceAs (Decidable (_ ∧ _))

theorem Opens.append {word text : String} (hopens : Opens word text) (more : String) :
    Opens word (text ++ more) := by
  obtain ⟨rfl, hne⟩ := hopens
  have hfront := List.takeWhile_prefix isIdentifierPart (l := text.toList)
  rw [← toList_firstWord] at hfront
  have hshort : (firstWord text).toList.length < text.toList.length :=
    lt_of_le_of_ne hfront.length_le fun hlength =>
      hne (String.toList_inj.mp (hfront.eq_of_length hlength)).symm
  constructor
  · rw [← String.toList_inj, toList_firstWord, String.toList_append, List.takeWhile_append,
      ← toList_firstWord, if_neg hshort.ne]
  · intro hsame
    rw [← hsame, String.toList_append, List.length_append] at hshort
    omega

theorem Opens.front {word lead text : String} (hopens : Opens word lead)
    (htext : text.toList = lead.toList ++ rest) : Opens word text := by
  have hsame : text = lead ++ String.ofList rest := by
    rw [← String.toList_inj, htext, String.toList_append, String.toList_ofList]
  rw [hsame]
  exact hopens.append _

namespace Literal

/-- The word for the kind of a literal. -/
def word : Literal → String
  | .int _ => "int"
  | .float _ => "float"
  | .string _ => "string"
  | .char _ => "char"
  | .bool _ => "bool"

def valueText : Literal → String
  | .int value => toString value
  | .float value => value.text
  | .string value => Text.quoted value
  | .char value => Text.quotedChar value
  | .bool value => toString value

theorem outlineText_eq (value : Literal) : value.outlineText = value.word ++ " " ++ value.valueText := by
  cases value <;> exact congrArg (· ++ _) (by simp only [word]; decide)

theorem opens_outlineText (value : Literal) : Opens value.word value.outlineText := by
  have hword : Opens value.word (value.word ++ " ") := by
    cases value <;> simp only [word] <;> decide
  rw [outlineText_eq]
  exact hword.append value.valueText

theorem oneLine_outlineText (value : Literal) : OneLine value.outlineText := by
  cases value with
  | int n => exact (by decide : OneLine "int ").append (Number.newline_notMem_toString n)
  | float x => exact (by decide : OneLine "float ").append x.newline_notMem_text
  | string text => exact (by decide : OneLine "string ").append (Text.newline_notMem_quoted text)
  | char c => exact (by decide : OneLine "char ").append (Text.newline_notMem_quotedChar c)
  | bool b => cases b <;> decide

theorem eq_of_outlineText {value other : Literal} (hvalue : value.IsShown)
    (hother : other.IsShown) (hsame : value.outlineText = other.outlineText) : value = other := by
  have hword : value.word = other.word := by
    rw [← value.opens_outlineText.1, hsame, other.opens_outlineText.1]
  rw [outlineText_eq, outlineText_eq, hword, String.append_right_inj] at hsame
  cases value with
  | int n =>
      cases other with
      | int m => exact congrArg int (Number.eq_of_toString hsame)
      | _ => simp [word] at hword
  | float x =>
      cases other with
      | float y => exact congrArg float (hvalue.eq_of_text hother hsame)
      | _ => simp [word] at hword
  | string text =>
      cases other with
      | string more => exact congrArg string (Text.quoted_injective hsame)
      | _ => simp [word] at hword
  | char c =>
      cases other with
      | char d => exact congrArg char (Text.quotedChar_injective hsame)
      | _ => simp [word] at hword
  | bool b =>
      cases other with
      | bool c => cases b <;> cases c <;> first | rfl | exact absurd hsame (by decide)
      | _ => simp [word] at hword

end Literal

end KCompiler
