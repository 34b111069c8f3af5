import KCompiler.Token.Lexeme
import Mathlib.Data.List.Infix

/-! # The longest operator

Operators are read one character at a time and never given back. What is read is the longest
operator that the text begins with, because every beginning of an operator is one itself.
-/

namespace KCompiler

namespace Operator

variable {operator longer : Operator} {c : Char}

theorem mem_all (operator : Operator) : operator ∈ all := by
  cases operator <;> decide

theorem symbol_of_ofChar? (hsingle : ofChar? c = some operator) :
    operator.symbol.toList = [c] := by
  unfold ofChar? at hsingle
  split at hsingle <;> cases hsingle <;> rfl

theorem ofChar?_of_symbol (hsymbol : operator.symbol.toList = [c]) :
    ofChar? c = some operator := by
  revert hsymbol
  cases operator <;> rintro ⟨⟩ <;> rfl

theorem symbol_of_longer? (hlonger : operator.longer? c = some longer) :
    longer.symbol.toList = operator.symbol.toList ++ [c] := by
  unfold longer? at hlonger
  split at hlonger <;> cases hlonger <;> rfl

/-- Every operator is reached from the one that it has without its last character. -/
theorem longer?_of_symbol (hsymbol : longer.symbol.toList = operator.symbol.toList ++ [c]) :
    operator.longer? c = some longer := by
  have htable : ∀ operator ∈ all, ∀ longer ∈ all,
      longer.symbol.toList.dropLast = operator.symbol.toList →
        longer.symbol.toList.getLast?.bind operator.longer? = some longer := by
    decide
  have hreached := htable operator (mem_all operator) longer (mem_all longer)
  rw [hsymbol, List.dropLast_concat, List.getLast?_concat] at hreached
  exact hreached rfl

/-- What begins an operator is an operator. -/
theorem exists_symbol_take (operator : Operator) {n : Nat} (hn : 0 < n) :
    ∃ shorter : Operator, shorter.symbol.toList = operator.symbol.toList.take n := by
  have htake : ∀ n ∈ [1, 2], ∃ shorter ∈ all,
      shorter.symbol.toList = operator.symbol.toList.take n := by
    cases operator <;> decide
  by_cases hlong : 3 ≤ n
  · have hlength : operator.symbol.toList.length ≤ 3 := by cases operator <;> decide
    exact ⟨operator, (List.take_of_length_le (hlength.trans hlong)).symm⟩
  · obtain ⟨shorter, -, hshorter⟩ := htake n (by simp; omega)
    exact ⟨shorter, hshorter⟩

theorem symbol_injective {first second : Operator} (hsymbol : first.symbol = second.symbol) :
    first = second := by
  have hofSymbol (operator : Operator) :
      all.find? (·.symbol = operator.symbol) = some operator := by
    cases operator <;> decide
  have hfirst := hofSymbol first
  rw [hsymbol, hofSymbol] at hfirst
  exact (Option.some.inj hfirst).symm

/-- Characters are taken until one comes that makes no operator. -/
theorem exists_extend (operator : Operator) (rest : List Char) :
    ∃ taken after, rest = taken ++ after ∧
      (operator.extend rest).symbol.toList = operator.symbol.toList ++ taken ∧
      ∀ c ∈ after.head?, (operator.extend rest).longer? c = none := by
  induction rest generalizing operator with
  | nil => exact ⟨[], [], rfl, by simp [extend], by simp⟩
  | cons c rest ih =>
      rw [extend]
      cases hlonger : operator.longer? c with
      | none => exact ⟨[], c :: rest, rfl, by simp, by simpa using hlonger⟩
      | some longer =>
          obtain ⟨taken, after, rfl, hsymbol, hstop⟩ := ih longer
          refine ⟨c :: taken, after, rfl, ?_, hstop⟩
          rw [hsymbol, symbol_of_longer? hlonger, List.append_assoc, List.singleton_append]

/-- Nothing longer that the text begins with is an operator. -/
theorem length_le_extend (operator : Operator) (rest : List Char) (other : Operator)
    (hother : other.symbol.toList <+: operator.symbol.toList ++ rest) :
    other.symbol.length ≤ (operator.extend rest).symbol.length := by
  obtain ⟨taken, after, rfl, hsymbol, hstop⟩ := exists_extend operator rest
  rw [← List.append_assoc, ← hsymbol] at hother
  generalize operator.extend (taken ++ after) = found at hother hstop
  by_contra hlonger
  rw [← String.length_toList, ← String.length_toList, not_le] at hlonger
  -- The other operator goes on behind the one that was found, and so it begins with a third one.
  obtain ⟨tail, htail⟩ : found.symbol.toList <+: other.symbol.toList :=
    List.prefix_of_prefix_length_le (List.prefix_append _ _) hother (Nat.le_of_lt hlonger)
  rw [← htail, List.length_append] at hlonger
  cases tail with
  | nil => simp at hlonger
  | cons c tail =>
      rw [← htail, List.prefix_append_right_inj] at hother
      obtain ⟨behind, rfl⟩ := hother
      obtain ⟨longer, hlonger⟩ := exists_symbol_take other (Nat.succ_pos found.symbol.toList.length)
      rw [← htail, Nat.succ_eq_add_one, List.take_length_add_append] at hlonger
      have hnone := hstop c rfl
      rw [longer?_of_symbol hlonger] at hnone
      cases hnone

end Operator

namespace Scan

variable {first : Char} {rest text : List Char} {operator : Operator}

/-- The longest operator that a text begins with. -/
def operator? (text : List Char) : Option Operator :=
  Operator.all.find? fun operator => operator.symbol.toList.isPrefixOf text

theorem isPrefix_of_operator? (hoperator : operator? text = some operator) :
    operator.symbol.toList <+: text := by
  simpa using List.find?_some hoperator

theorem symbol_length_pairwise :
    Operator.all.Pairwise fun first second => second.symbol.length ≤ first.symbol.length := by
  decide

/-- No operator that a text begins with is longer than the one that is read. -/
theorem length_le_of_operator? {other : Operator} (hoperator : operator? text = some operator)
    (hother : other.symbol.toList <+: text) : other.symbol.length ≤ operator.symbol.length := by
  obtain ⟨-, before, after, hall, hbefore⟩ := List.find?_eq_some_iff_append.mp hoperator
  have hmem : other ∈ before ++ operator :: after := hall ▸ other.mem_all
  have hsorted := hall ▸ symbol_length_pairwise
  rcases List.mem_append.mp hmem with hmem | hmem
  · have hnot := hbefore other hmem
    rw [List.isPrefixOf_iff_prefix.mpr hother] at hnot
    cases hnot
  · rcases List.mem_cons.mp hmem with rfl | hmem
    · exact Nat.le_refl _
    · exact List.rel_of_pairwise_cons (List.pairwise_append.mp hsorted).2.1 hmem

theorem exists_symbol_cons (operator : Operator) :
    ∃ c more, operator.symbol.toList = c :: more := by
  cases operator <;> exact ⟨_, _, rfl⟩

/-- A character that begins an operator is one itself. -/
theorem exists_symbol_singleton (hfirst : operator.symbol.toList.head? = some first) :
    ∃ single ∈ Operator.all, single.symbol.toList = [first] := by
  obtain ⟨single, hsingle⟩ := operator.exists_symbol_take Nat.one_pos
  obtain ⟨c, more, hsymbol⟩ := exists_symbol_cons operator
  refine ⟨single, single.mem_all, ?_⟩
  rw [hsymbol] at hfirst hsingle
  rw [hsingle, Option.some.inj hfirst]
  rfl

/-- Looking one character ahead finds the longest operator. -/
theorem operator?_cons (first : Char) (rest : List Char) :
    operator? (first :: rest) = (Operator.ofChar? first).map (·.extend rest) := by
  cases hsingle : Operator.ofChar? first with
  | none =>
      refine List.find?_eq_none.mpr fun operator _ hbegins => ?_
      have hhead : operator.symbol.toList.head? = some first := by
        obtain ⟨c, more, hsymbol⟩ := exists_symbol_cons operator
        obtain ⟨rfl, -⟩ : c = first ∧ _ := by simpa [hsymbol] using hbegins
        rw [hsymbol]
        rfl
      obtain ⟨single, -, hsymbol⟩ := exists_symbol_singleton hhead
      rw [Operator.ofChar?_of_symbol hsymbol] at hsingle
      cases hsingle
  | some single =>
      have hfirst := Operator.symbol_of_ofChar? hsingle
      have hextend : (single.extend rest).symbol.toList <+: first :: rest := by
        obtain ⟨taken, after, hrest, hsymbol, -⟩ := single.exists_extend rest
        exact ⟨after, by rw [hsymbol, hfirst, hrest]; rfl⟩
      obtain ⟨found, hfound⟩ : ∃ found, operator? (first :: rest) = some found :=
        Option.isSome_iff_exists.mp (List.find?_isSome.mpr
          ⟨_, Operator.mem_all _, List.isPrefixOf_iff_prefix.mpr hextend⟩)
      have hbegins := isPrefix_of_operator? hfound
      -- Both begin the text and neither is longer than the other.
      have hle := single.length_le_extend rest found (by rwa [hfirst])
      have hge := length_le_of_operator? hfound hextend
      rw [← String.length_toList, ← String.length_toList] at hle hge
      have hsame := (List.prefix_of_prefix_length_le hbegins hextend hle).eq_of_length
        (Nat.le_antisymm hle hge)
      rw [hfound, Option.map_some, Operator.symbol_injective (String.toList_inj.mp hsame)]

/-- The first character decides whether an operator begins. -/
theorem operator?_eq_none (hoperator : operator? (first :: text) = none) (more : List Char) :
    operator? (first :: more) = none := by
  rw [operator?_cons, Option.map_eq_none_iff] at hoperator ⊢
  exact hoperator

theorem operator?_symbol (operator : Operator) :
    operator? operator.symbol.toList = some operator := by
  cases operator <;> rfl

/-! ## The rule for marks, operators and words -/

theorem symbol_of_punct? {mark : Punct} (hmark : punct? first = some mark) (rest : List Char) :
    symbol first rest = spelled (.punct mark) first rest 0 := by
  simp only [symbol, hmark]

theorem symbol_of_operator? (hmark : punct? first = none)
    (hoperator : operator? (first :: rest) = some operator) :
    symbol first rest = spelled (.op operator) first rest (operator.symbol.length - 1) := by
  rw [operator?_cons] at hoperator
  obtain ⟨single, hsingle, rfl⟩ := Option.map_eq_some_iff.mp hoperator
  simp only [symbol, hmark, hsingle]

theorem symbol_of_none (hmark : punct? first = none) (hoperator : operator? (first :: rest) = none) :
    symbol first rest = if isIdentifierStart first then word first rest else { width := 0 } := by
  rw [operator?_cons, Option.map_eq_none_iff] at hoperator
  simp only [symbol, hmark, hoperator]

end Scan

end KCompiler
