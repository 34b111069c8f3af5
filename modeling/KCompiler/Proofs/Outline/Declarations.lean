import KCompiler.Proofs.Outline.Texts

/-! # What the lines of declarations tell

The line of a variable, a record or a function has all of the declaration but what is listed below
it. Parameters stand on the line of their function, and as they can only be mutable, the mark before
a parameter tells its modifiers.
-/

namespace KCompiler

variable {rest more : List Char}

namespace Modifiers

/-- The modifiers that a declaration can have, in every order. -/
def all : List Modifiers :=
  [⟨[], by decide⟩, ⟨[.pub], by decide⟩, ⟨[.mut], by decide⟩, ⟨[.pub, .mut], by decide⟩,
    ⟨[.mut, .pub], by decide⟩]

theorem mem_all (modifiers : Modifiers) : modifiers ∈ all := by
  obtain ⟨list, hnodup⟩ := modifiers
  rcases list with _ | ⟨first, _ | ⟨second, _ | ⟨third, list⟩⟩⟩
  · simp [all]
  · cases first <;> simp [all]
  · cases first <;> cases second <;> simp [all] at hnodup ⊢
  · cases first <;> cases second <;> cases third <;> simp at hnodup

/-- A parameter can only be mutable. -/
theorem eq_of_parameter {modifiers others : Modifiers}
    (hmodifiers : Grammar.Allowed modifiers .parameter .variable)
    (hothers : Grammar.Allowed others .parameter .variable)
    (hsame : modifiers.contains .mut = others.contains .mut) : modifiers = others := by
  have htable : ∀ modifiers ∈ all, ∀ others ∈ all, Grammar.Allowed modifiers .parameter .variable →
      Grammar.Allowed others .parameter .variable →
        modifiers.contains .mut = others.contains .mut → modifiers = others := by
    decide
  exact htable modifiers modifiers.mem_all others others.mem_all hmodifiers hothers hsame

end Modifiers

/-- What stands behind the type of a declaration. -/
def placeText (modifiers : Modifiers) (scope : Scope) : String :=
  modifiers.outlineText ++ " (" ++ scope.text ++ ")"

def Scope.all : List Scope := [.topLevel, .field, .method, .block, .parameter]

theorem Scope.mem_all (scope : Scope) : scope ∈ all := by
  cases scope <;> decide

theorem eq_of_placeText {modifiers others : Modifiers} {scope place : Scope}
    (hsame : placeText modifiers scope = placeText others place) :
    modifiers = others ∧ scope = place := by
  have htable : ∀ modifiers ∈ Modifiers.all, ∀ others ∈ Modifiers.all, ∀ scope ∈ Scope.all,
      ∀ place ∈ Scope.all, placeText modifiers scope = placeText others place →
        modifiers = others ∧ scope = place := by
    decide +kernel
  exact htable modifiers modifiers.mem_all others others.mem_all scope scope.mem_all place
    place.mem_all hsame

theorem oneLine_placeText (modifiers : Modifiers) (scope : Scope) :
    OneLine (placeText modifiers scope) := by
  have htable : ∀ modifiers ∈ Modifiers.all, ∀ scope ∈ Scope.all,
      OneLine (placeText modifiers scope) := by
    decide +kernel
  exact htable modifiers modifiers.mem_all scope scope.mem_all

theorem endsType_placeText (modifiers : Modifiers) (scope : Scope) :
    EndsType (placeText modifiers scope).toList := by
  have hblank : ∃ rest, (placeText modifiers scope).toList = ' ' :: rest := by
    unfold placeText Modifiers.outlineText
    split
    all_goals
      simp only [String.toList_append]
      exact ⟨_, rfl⟩
  obtain ⟨rest, htext⟩ := hblank
  rw [htext]
  exact endsType_cons (by decide) (by decide)

/-- The end of a declaration tells its type, its modifiers and its place. -/
theorem eq_of_declared {type other : Ty} {modifiers others : Modifiers} {scope place : Scope}
    (htype : type.Fits .shown) (hother : other.Fits .shown)
    (hsame : type.text.toList ++ (placeText modifiers scope).toList =
      other.text.toList ++ (placeText others place).toList) :
    type = other ∧ modifiers = others ∧ scope = place := by
  obtain ⟨rfl, hplace⟩ := Ty.eq_of_text type other htype hother (endsType_placeText modifiers scope)
    (endsType_placeText others place) hsame
  exact ⟨rfl, eq_of_placeText (String.toList_inj.mp hplace)⟩

namespace VariableDecl

/-- The line of a declaration. -/
def headText (decl : VariableDecl) : String :=
  "variable " ++ decl.name ++ ": " ++ decl.type.text ++ decl.modifiers.outlineText ++
    " (" ++ decl.scope.text ++ ")"

-- Here and below the first word is generalized, so that it is not taken apart itself.
theorem toList_headText (decl : VariableDecl) : decl.headText.toList =
    "variable ".toList ++ (decl.name.toList ++ ':' :: ' ' ::
      (decl.type.text.toList ++ (placeText decl.modifiers decl.scope).toList)) := by
  unfold headText placeText
  generalize "variable " = word
  simp only [String.toList_append, List.append_assoc]
  rfl

theorem oneLine_headText {decl : VariableDecl} (hdecl : decl.Over .shown) :
    OneLine decl.headText := by
  rw [OneLine, toList_headText]
  simp only [List.mem_append, List.mem_cons, not_or]
  exact ⟨by decide, hdecl.name.1.oneLine, by decide, by decide, Ty.oneLine_text _ hdecl.type,
    oneLine_placeText _ _⟩

variable {scope place : Scope}

/-- All of a declaration but its initial value is on its line. -/
theorem eq_of_headText {decl other : VariableDecl} (hdecl : decl.Fits .shown scope)
    (hother : other.Fits .shown place) (hinit : decl.init = other.init)
    (hsame : decl.headText = other.headText) : decl = other := by
  replace hsame := congrArg String.toList hsame
  rw [toList_headText, toList_headText, List.append_cancel_left_eq] at hsame
  obtain ⟨hname, hbehind⟩ := eq_of_name hdecl.2.name.1 hother.2.name.1 (endsName_cons (by decide))
    (endsName_cons (by decide)) hsame
  simp only [List.cons.injEq, true_and] at hbehind
  obtain ⟨htype, hmodifiers, hscope⟩ := eq_of_declared ⟨hdecl.1.type, hdecl.2.type⟩
    ⟨hother.1.type, hother.2.type⟩ hbehind
  cases decl
  cases other
  simp_all

theorem toList_parameterText (decl : VariableDecl) : decl.parameterText.toList =
    (if decl.isMutable then "mut ".toList else []) ++
      (decl.name.toList ++ ':' :: ' ' :: decl.type.text.toList) := by
  unfold parameterText
  split <;> simp

theorem mut_ne_name {name : String} (hname : WordLike name) {rest more : List Char} :
    "mut ".toList ++ rest ≠ name.toList ++ ':' :: more := by
  intro hsame
  have hword : WordLike "mut" := by decide
  obtain ⟨-, hbehind⟩ := eq_of_name hword hname (endsName_cons (by decide))
    (endsName_cons (by decide)) (show "mut".toList ++ ' ' :: rest = _ from hsame)
  simp at hbehind

/-- A parameter is told by its name, its type and whether it is mutable. -/
theorem distinct_parameterText {decl other : VariableDecl} (hdecl : decl.Fits .shown .parameter)
    (hother : other.Fits .shown .parameter) (hinit : decl.init = none) (hnone : other.init = none) :
    Distinct ')' parameterText decl other := by
  intro rest more hrest hmore hsame
  rw [toList_parameterText, toList_parameterText, List.append_assoc, List.append_assoc,
    List.append_assoc, List.append_assoc, List.cons_append, List.cons_append, List.cons_append,
    List.cons_append] at hsame
  -- Behind `mut` stands a blank where a name has a colon, also if the name is `mut`.
  have hmutable : decl.isMutable = other.isMutable := by
    cases hfirst : decl.isMutable with
    | true =>
        cases hsecond : other.isMutable with
        | true => rfl
        | false => exact absurd (by simpa [hfirst, hsecond] using hsame) (mut_ne_name hother.2.name.1)
    | false =>
        cases hsecond : other.isMutable with
        | true =>
            exact absurd (by simpa [hfirst, hsecond] using hsame.symm) (mut_ne_name hdecl.2.name.1)
        | false => rfl
  rw [hmutable, List.append_cancel_left_eq] at hsame
  obtain ⟨hname, hbehind⟩ := eq_of_name hdecl.2.name.1 hother.2.name.1 (endsName_cons (by decide))
    (endsName_cons (by decide)) hsame
  simp only [List.cons.injEq, true_and] at hbehind
  obtain ⟨htype, hends⟩ := Ty.eq_of_text _ _ ⟨hdecl.1.type, hdecl.2.type⟩
    ⟨hother.1.type, hother.2.type⟩ (hrest.endsType (by decide) (by decide))
    (hmore.endsType (by decide) (by decide)) hbehind
  have hmodifiers := Modifiers.eq_of_parameter hdecl.1.allowed hother.1.allowed hmutable
  have hscope : decl.scope = other.scope := hdecl.1.scope_eq.trans hother.1.scope_eq.symm
  cases decl
  cases other
  simp_all

theorem oneLine_parameterText {decl : VariableDecl} (hdecl : decl.Over .shown) :
    OneLine decl.parameterText := by
  rw [OneLine, toList_parameterText]
  simp only [List.mem_append, List.mem_cons, not_or]
  exact ⟨by split <;> decide, hdecl.name.1.oneLine, by decide, by decide,
    Ty.oneLine_text _ hdecl.type⟩

theorem opensName_parameterText {decl : VariableDecl} (hdecl : decl.Over .shown) :
    OpensName decl.parameterText.toList := by
  rw [toList_parameterText]
  split
  · exact ⟨'m', _, rfl, by decide⟩
  · exact hdecl.name.1.opensName.append _

end VariableDecl

namespace Signature

/-- The names of the types over which a function is generic. -/
def genericsText (generics : List String) : List Char :=
  if generics.isEmpty then [] else '[' :: ((", ".intercalate generics).toList ++ [']'])

theorem toList_outlineText (signature : Signature) : signature.outlineText.toList =
    "function ".toList ++ (signature.name.toList ++ (genericsText signature.generics ++ '(' ::
      ((", ".intercalate (signature.params.map VariableDecl.parameterText)).toList ++ ')' :: ':' ::
        ' ' :: (signature.returnType.text.toList ++
          (placeText signature.modifiers signature.scope).toList)))) := by
  unfold outlineText genericsText placeText
  generalize "function " = word
  simp only [String.toList_append, List.append_assoc]
  split
  · rfl
  · simp only [String.toList_append, List.append_assoc, List.cons_append, List.nil_append]
    rfl

theorem newline_notMem_genericsText {generics : List String}
    (hnames : ∀ name ∈ generics, WordLike name) : '\n' ∉ genericsText generics := by
  have hlist := oneLine_intercalate fun name hmem => (hnames name hmem).oneLine
  unfold genericsText
  split
  · simp
  · simp only [List.mem_cons, List.mem_append, not_or]
    exact ⟨by decide, hlist, by decide⟩

theorem oneLine_outlineText {signature : Signature} (hover : signature.Over .shown) :
    OneLine signature.outlineText := by
  have hparams : ∀ text ∈ signature.params.map VariableDecl.parameterText, OneLine text := by
    simpa using fun param hmem => VariableDecl.oneLine_parameterText (hover.params param hmem)
  rw [OneLine, toList_outlineText]
  simp only [List.mem_append, List.mem_cons, not_or]
  exact ⟨by decide, hover.name.1.oneLine,
    newline_notMem_genericsText fun name hmem => (hover.generics name hmem).1, by decide,
    oneLine_intercalate hparams, by decide, by decide, by decide, Ty.oneLine_text _ hover.returnType,
    oneLine_placeText _ _⟩

theorem endsName_genericsText (generics : List String) (rest : List Char) :
    EndsName (genericsText generics ++ '(' :: rest) := by
  unfold genericsText
  split <;> exact endsName_cons (by decide)

theorem eq_of_genericsText {generics others : List String} (hnames : ∀ name ∈ generics, WordLike name)
    (hothers : ∀ name ∈ others, WordLike name)
    (hsame : genericsText generics ++ '(' :: rest = genericsText others ++ '(' :: more) :
    generics = others ∧ rest = more := by
  cases generics with
  | nil =>
      cases others with
      | nil => exact ⟨rfl, (List.cons.inj hsame).2⟩
      | cons other others => simp [genericsText] at hsame
  | cons name generics =>
      cases others with
      | nil => simp [genericsText] at hsame
      | cons other others =>
          simp only [genericsText, List.isEmpty_cons, Bool.false_eq_true, if_false, List.cons_append,
            List.append_assoc, List.nil_append, List.cons.injEq, true_and] at hsame
          rw [← List.map_id (name :: generics), ← List.map_id (other :: others)] at hsame
          have hdistinct : ∀ first ∈ name :: generics, ∀ second ∈ other :: others,
              Distinct ']' id first second := fun first hfirst second hsecond _ _ hrest hmore =>
            eq_of_name (hnames first hfirst) (hothers second hsecond)
              (hrest.endsType (by decide) (by decide)).1 (hmore.endsType (by decide) (by decide)).1
          obtain ⟨hgenerics, hends⟩ := eq_of_intercalate (by decide) (by decide) hdistinct
            (fun first hfirst => (hnames first hfirst).opensName)
            (fun second hsecond => (hothers second hsecond).opensName) hsame
          exact ⟨hgenerics, (List.cons.inj hends).2⟩

variable {scope place : Scope}

/-- A signature is told by its line. -/
theorem eq_of_outlineText {signature other : Signature} (hwell : signature.WellFormed scope)
    (hover : signature.Over .shown) (hother : other.WellFormed place) (hothers : other.Over .shown)
    (hsame : signature.outlineText = other.outlineText) : signature = other := by
  replace hsame := congrArg String.toList hsame
  rw [toList_outlineText, toList_outlineText, List.append_cancel_left_eq] at hsame
  obtain ⟨hname, hbehind⟩ := eq_of_name hover.name.1 hothers.name.1
    (endsName_genericsText _ _) (endsName_genericsText _ _) hsame
  obtain ⟨hgenerics, hbehind⟩ := eq_of_genericsText (fun name hmem => (hover.generics name hmem).1)
    (fun name hmem => (hothers.generics name hmem).1) hbehind
  obtain ⟨hparams, hbehind⟩ := eq_of_intercalate (by decide) (by decide)
    (fun param hparam second hsecond => VariableDecl.distinct_parameterText
      ⟨(hwell.params param hparam).1, hover.params param hparam⟩
      ⟨(hother.params second hsecond).1, hothers.params second hsecond⟩
      (hwell.params param hparam).2 (hother.params second hsecond).2)
    (fun param hparam => VariableDecl.opensName_parameterText (hover.params param hparam))
    (fun param hparam => VariableDecl.opensName_parameterText (hothers.params param hparam)) hbehind
  simp only [List.cons.injEq, true_and] at hbehind
  obtain ⟨htype, hmodifiers, hscope⟩ := eq_of_declared ⟨hwell.returnType, hover.returnType⟩
    ⟨hother.returnType, hothers.returnType⟩ hbehind
  cases signature
  cases other
  simp_all

end Signature

namespace RecordHead

/-- The line of a record. -/
def headText (head : RecordHead) : String :=
  "record " ++ head.type.text ++ head.modifiers.outlineText ++ " (" ++ head.scope.text ++ ")"

theorem toList_headText (head : RecordHead) : head.headText.toList =
    "record ".toList ++ (head.type.text.toList ++ (placeText head.modifiers head.scope).toList) := by
  unfold headText placeText
  generalize "record " = word
  simp only [String.toList_append, List.append_assoc]

theorem oneLine_headText {head : RecordHead} (hover : head.Over .shown) : OneLine head.headText := by
  rw [OneLine, toList_headText]
  simp only [List.mem_append, not_or]
  exact ⟨by decide, Ty.oneLine_text _ hover.type, oneLine_placeText _ _⟩

variable {scope place : Scope}

/-- All of a record but its fields is on its line. -/
theorem eq_of_headText {head other : RecordHead} (hwell : head.WellFormed scope)
    (hover : head.Over .shown) (hother : other.WellFormed place) (hothers : other.Over .shown)
    (hfields : head.fields = other.fields) (hsame : head.headText = other.headText) : head = other := by
  replace hsame := congrArg String.toList hsame
  rw [toList_headText, toList_headText, List.append_cancel_left_eq] at hsame
  obtain ⟨htype, hmodifiers, hscope⟩ := eq_of_declared ⟨hwell.type, hover.type⟩
    ⟨hother.type, hothers.type⟩ hsame
  cases head
  cases other
  simp_all

end RecordHead

/-- The line of an alias. -/
def aliasText (target : Ty) (name : String) : String :=
  "alias " ++ target.text ++ " as " ++ name

theorem toList_aliasText (target : Ty) (name : String) : (aliasText target name).toList =
    "alias ".toList ++ (target.text.toList ++ ' ' :: 'a' :: 's' :: ' ' :: name.toList) := by
  unfold aliasText
  generalize "alias " = word
  simp only [String.toList_append, List.append_assoc]
  rfl

theorem oneLine_aliasText {target : Ty} {name : String} (htarget : target.Over .shown)
    (hname : WordLike name) : OneLine (aliasText target name) := by
  rw [OneLine, toList_aliasText]
  simp only [List.mem_append, List.mem_cons, not_or]
  exact ⟨by decide, target.oneLine_text htarget, by decide, by decide, by decide, by decide,
    hname.oneLine⟩

theorem eq_of_aliasText {target other : Ty} {name second : String} (htarget : target.Fits .shown)
    (hother : other.Fits .shown) (hsame : aliasText target name = aliasText other second) :
    target = other ∧ name = second := by
  replace hsame := congrArg String.toList hsame
  rw [toList_aliasText, toList_aliasText, List.append_cancel_left_eq] at hsame
  obtain ⟨htype, hbehind⟩ := Ty.eq_of_text target other htarget hother
    (endsType_cons (by decide) (by decide)) (endsType_cons (by decide) (by decide)) hsame
  simp only [List.cons.injEq, true_and] at hbehind
  exact ⟨htype, String.toList_inj.mp hbehind⟩

end KCompiler
