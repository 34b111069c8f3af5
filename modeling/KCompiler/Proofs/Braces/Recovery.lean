import KCompiler.Proofs.Invariant.Basic

/-! # Braces that are skipped

How many braces a stretch of tokens opens and leaves open. Recovery skips a brace only together
with all that it encloses, so that it changes nothing about the braces around it, unless the
input ends before they close.
-/

namespace KCompiler

def openings (tokens : List Token) : Nat :=
  tokens.countP (·.kind = .punct .lbrace)

def closings (tokens : List Token) : Nat :=
  tokens.countP (·.kind = .punct .rbrace)

/-- What a token adds to the braces that are open. -/
def Kind.braceWeight : Kind → Int
  | .punct .lbrace => 1
  | .punct .rbrace => -1
  | _ => 0

/-- How many more braces are opened than closed. -/
def braceDepth (tokens : List Token) : Int :=
  openings tokens - closings tokens

section Depth

variable {token : Token} {input middle rest : List Token} {first second : Int}

@[simp]
theorem braceDepth_nil : braceDepth [] = 0 := rfl

theorem Kind.braceWeight_of_isBrace {kind : Kind} (hkind : kind.isBrace = false) :
    kind.braceWeight = 0 := by
  unfold Kind.braceWeight
  split
  next => cases hkind
  next => cases hkind
  next => rfl

theorem Kind.braceWeight_eq (kind : Kind) :
    kind.braceWeight =
      (if kind = .punct .lbrace then 1 else 0) - (if kind = .punct .rbrace then 1 else 0) := by
  unfold Kind.braceWeight
  split
  next => rfl
  next => rfl
  next hopen hclose =>
    rw [if_neg hopen, if_neg hclose]
    rfl

@[simp]
theorem braceDepth_cons (token : Token) (rest : List Token) :
    braceDepth (token :: rest) = token.kind.braceWeight + braceDepth rest := by
  simp only [braceDepth, openings, closings, List.countP_cons, decide_eq_true_eq,
    Kind.braceWeight_eq]
  split <;> split <;> omega

theorem braceDepth_append (front back : List Token) :
    braceDepth (front ++ back) = braceDepth front + braceDepth back := by
  simp only [braceDepth, openings, closings, List.countP_append]
  omega

/-- Tokens are taken from an input that open `total` more braces than they close, or at least so
many if nothing is left. -/
def Consumes (total : Int) (input rest : List Token) : Prop :=
  EofFree input → total ≤ braceDepth input - braceDepth rest ∧
    (rest ≠ [] → braceDepth input - braceDepth rest = total)

theorem EofFree.of_suffix (hfree : EofFree input) (hsuffix : rest <:+ input) : EofFree rest :=
  fun token htoken => hfree token (hsuffix.mem htoken)

namespace Consumes

theorem of_eq (hconsumes : Consumes first input rest) (heq : first = second) :
    Consumes second input rest :=
  heq ▸ hconsumes

theorem refl (input : List Token) : Consumes 0 input input :=
  fun _ => ⟨by omega, fun _ => by omega⟩

theorem trans (hfirst : Consumes first input middle) (hsecond : Consumes second middle rest)
    (hmiddle : middle <:+ input) (hrest : rest <:+ middle) :
    Consumes (first + second) input rest := by
  intro hfree
  obtain ⟨hatLeast, hexact⟩ := hfirst hfree
  obtain ⟨hatLeast', hexact'⟩ := hsecond (hfree.of_suffix hmiddle)
  refine ⟨by omega, fun hleft => ?_⟩
  -- If anything is left in the end, something was left in between.
  have hnonempty : middle ≠ [] := by
    rintro rfl
    exact hleft (List.suffix_nil.mp hrest)
  have htaken := hexact hnonempty
  have htaken' := hexact' hleft
  omega

theorem head (token : Token) (rest : List Token) :
    Consumes token.kind.braceWeight (token :: rest) rest := by
  intro _
  rw [braceDepth_cons]
  exact ⟨by omega, fun _ => by omega⟩

theorem cons (hconsumes : Consumes first input rest) (hsuffix : rest <:+ input) (token : Token) :
    Consumes (token.kind.braceWeight + first) (token :: input) rest :=
  (head token input).trans hconsumes (List.suffix_cons token input) hsuffix

end Consumes

theorem PassesBy.consumes (hpasses : PassesBy input rest) : Consumes 0 input rest := by
  obtain ⟨front, rfl, hfront⟩ := hpasses
  have hdepth : braceDepth front = 0 := by
    induction front with
    | nil => rfl
    | cons token front ih =>
        rw [List.forall_mem_cons] at hfront
        rw [braceDepth_cons, Kind.braceWeight_of_isBrace hfront.1, ih hfront.2]
        rfl
  intro _
  rw [braceDepth_append, hdepth]
  exact ⟨by omega, fun _ => by omega⟩

end Depth

section Recovery

theorem skipBlock_consumes (depth : Nat) (input : List Token) :
    Consumes (-depth) input (skipBlock depth input) := by
  fun_induction skipBlock depth input with
  | case1 input => exact .refl input
  | case2 depth =>
      intro _
      exact ⟨by omega, fun hne => absurd rfl hne⟩
  | case3 depth token rest hkind =>
      -- The skip stops at the end of the input, with its braces open.
      exact fun hfree => absurd hkind (hfree token List.mem_cons_self)
  | case4 depth token rest hkind ih | case5 depth token rest hkind ih =>
      have hcons := ih.cons (skipBlock_suffix _ _) token
      rw [hkind] at hcons
      refine hcons.of_eq ?_
      simp only [Kind.braceWeight]
      omega
  | case6 depth token rest _ hopen hclose ih =>
      have hcons := ih.cons (skipBlock_suffix _ _) token
      rwa [Kind.braceWeight_eq, if_neg hopen, if_neg hclose, Int.sub_zero, Int.zero_add] at hcons

theorem skipToken_consumes {token : Token} (hboundary : token.kind.isBoundary = false)
    (rest : List Token) : Consumes 0 (token :: rest) (skipToken (token :: rest)) := by
  rw [skipToken]
  split
  next hkind =>
    have hcons := (skipBlock_consumes 1 rest).cons (skipBlock_suffix 1 rest) token
    rwa [hkind] at hcons
  next hopen =>
    have hclose : token.kind ≠ .punct .rbrace := by
      intro hkind
      simp [hkind, Kind.isBoundary] at hboundary
    have hhead := Consumes.head token rest
    rwa [Kind.braceWeight_eq, if_neg hopen, if_neg hclose] at hhead

theorem recover_consumes (input : List Token) : Consumes 0 input (recover input) := by
  fun_induction recover input with
  | case1 => exact .refl []
  | case2 token rest _ => exact .refl (token :: rest)
  | case3 token rest hboundary ih =>
      have hskip := skipToken_consumes (by simpa using hboundary) rest
      have hsuffix := skipToken_cons_suffix token rest
      exact hskip.trans ih (hsuffix.trans (List.suffix_cons token rest)) (recover_suffix _)

/-- What is taken to find a token. -/
def soughtWeight (kind : Kind) : Option Token → Int
  | none => 0
  | some _ => kind.braceWeight

theorem seek_consumes (kind : Kind) (skips : Nat) (input : List Token) :
    Consumes (soughtWeight kind (seek kind skips input).value) input
      (seek kind skips input).rest := by
  fun_induction seek kind skips input with
  | case1 input => exact .refl input
  | case2 => exact .refl []
  | case3 skips token rest hkind =>
      rw [← hkind]
      exact .head token rest
  | case4 skips token rest => exact .refl (token :: rest)
  | case5 skips token rest _ hboundary ih =>
      have hskip := skipToken_consumes (by simpa using hboundary) rest
      have hsuffix := (skipToken_cons_suffix token rest).trans (List.suffix_cons token rest)
      have hconsumes := hskip.trans ih hsuffix (seek kind skips _).suffix
      rwa [Int.zero_add] at hconsumes

end Recovery

end KCompiler
