/-! # Modifiers of declarations

A declaration may be public or mutable where its place in the program and its kind
allow it. Modifiers are kept in the order they were written, each at most once.
-/

namespace KCompiler

/-- What a declaration can be marked as. -/
inductive Modifier where
  | pub
  | «mut»
  deriving DecidableEq, Repr

/-- Where a declaration stands. -/
inductive Scope where
  | topLevel
  | field
  | method
  | block
  | parameter
  deriving DecidableEq, Repr

/-- What is declared. -/
inductive DeclKind where
  | «variable»
  | record
  | function
  deriving DecidableEq, Repr

def Scope.text : Scope → String
  | .topLevel => "module"
  | .field => "record field"
  | .method => "record method"
  | .block => "local"
  | .parameter => "function parameter"

def DeclKind.text : DeclKind → String
  | .variable => "variable"
  | .record => "record"
  | .function => "function"

namespace Modifier

/-- The keyword of a modifier. -/
def text : Modifier → String
  | .pub => "pub"
  | .mut => "mut"

/-- The places where a modifier means something. -/
def scopes : Modifier → List Scope
  | .pub => [.topLevel, .field, .method]
  | .mut => [.topLevel, .field, .block, .parameter]

/-- The declarations that can carry a modifier. -/
def declKinds : Modifier → List DeclKind
  | .pub => [.variable, .record, .function]
  | .mut => [.variable]

def allows (modifier : Modifier) (scope : Scope) (kind : DeclKind) : Bool :=
  scope ∈ modifier.scopes && kind ∈ modifier.declKinds

end Modifier

/-- A modifier on a declaration that cannot carry it. -/
structure ModifierError where
  modifier : Modifier
  scope : Scope
  kind : DeclKind
  deriving DecidableEq, Repr

def ModifierError.message (error : ModifierError) : String :=
  "modifier `" ++ error.modifier.text ++ "` is not allowed on a " ++ error.scope.text ++ " " ++
    error.kind.text

/-- The modifiers of one declaration, in the order in which they are written. -/
structure Modifiers where
  toList : List Modifier
  nodup : toList.Nodup
  deriving DecidableEq, Repr

namespace Modifiers

def empty : Modifiers := ⟨[], List.nodup_nil⟩

instance : Inhabited Modifiers := ⟨empty⟩

def contains (modifiers : Modifiers) (modifier : Modifier) : Bool :=
  modifiers.toList.contains modifier

def isEmpty (modifiers : Modifiers) : Bool :=
  modifiers.toList.isEmpty

theorem nodup_concat {modifiers : Modifiers} {modifier : Modifier}
    (habsent : modifiers.contains modifier = false) :
    (modifiers.toList ++ [modifier]).Nodup := by
  have hnotin : modifier ∉ modifiers.toList := by simpa [contains] using habsent
  rw [List.nodup_append]
  refine ⟨modifiers.nodup, by simp, ?_⟩
  rintro other hother last hlast rfl
  exact hnotin (List.mem_singleton.mp hlast ▸ hother)

/-- Adds a modifier behind the others, unless it is there. -/
def insert (modifiers : Modifiers) (modifier : Modifier) : Modifiers :=
  if hfound : modifiers.contains modifier then modifiers
  else ⟨modifiers.toList ++ [modifier], nodup_concat (by simpa using hfound)⟩

/-- The modifiers of a list, each where it comes first. -/
def ofList (modifiers : List Modifier) : Modifiers :=
  modifiers.foldl insert empty

/-- The modifiers, with blanks between them. -/
def text (modifiers : Modifiers) : String :=
  " ".intercalate (modifiers.toList.map Modifier.text)

/-- The modifiers that a declaration can carry. -/
def allowed (modifiers : Modifiers) (scope : Scope) (kind : DeclKind) : Modifiers :=
  ⟨modifiers.toList.filter (·.allows scope kind), modifiers.nodup.filter _⟩

/-- The modifiers that it cannot carry, as errors. -/
def refused (modifiers : Modifiers) (scope : Scope) (kind : DeclKind) :
    List ModifierError :=
  (modifiers.toList.filter (!·.allows scope kind)).map (⟨·, scope, kind⟩)

/-- Accepts modifiers that a declaration can carry, and otherwise gives the first error. -/
def validate (modifiers : Modifiers) (scope : Scope) (kind : DeclKind) :
    Except ModifierError Unit :=
  match modifiers.refused scope kind with
  | [] => .ok ()
  | error :: _ => .error error

end Modifiers
end KCompiler
