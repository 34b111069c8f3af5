import KCompiler.Tree.Outline

/-! # Outlines as trees of texts

An outline lists a tree of texts, each with its depth. The tree can be told from the depths alone,
and the lines can be told from the rendered text as long as no line holds a line break or begins
with a blank.
-/

namespace KCompiler

/-- A text with the nodes that stand one step deeper below it. -/
inductive OutlineNode where
  | mk (text : String) (below : List OutlineNode)

namespace OutlineNode

def text : OutlineNode → String
  | ⟨text, _⟩ => text

/-- Nodes under a label, which is left out where there is nothing to label. -/
def group (label : String) (nodes : List OutlineNode) : List OutlineNode :=
  if nodes.isEmpty then [] else [⟨label, nodes⟩]

/-- Of two groups with different labels, it can be told what is in each of them. -/
theorem eq_of_groups {label second : String} (hlabels : label ≠ second)
    {nodes others below under : List OutlineNode}
    (hsame : group label nodes ++ group second below = group label others ++ group second under) :
    nodes = others ∧ below = under := by
  cases nodes <;> cases others <;> cases below <;> cases under <;>
    simp_all [group, Ne.symm hlabels]

mutual
/-- The lines of a node at a depth. -/
def lines (depth : Nat) : OutlineNode → List OutlineLine
  | ⟨text, below⟩ => ⟨depth, text⟩ :: allLines (depth + 1) below

def allLines (depth : Nat) : List OutlineNode → List OutlineLine
  | [] => []
  | node :: nodes => node.lines depth ++ allLines depth nodes
end

@[simp]
theorem allLines_append (depth : Nat) (nodes others : List OutlineNode) :
    allLines depth (nodes ++ others) = allLines depth nodes ++ allLines depth others := by
  induction nodes with
  | nil => rfl
  | cons node nodes ih => simp [allLines, ih]

@[simp]
theorem allLines_group (depth : Nat) (label : String) (nodes : List OutlineNode) :
    allLines depth (group label nodes) =
      if nodes.isEmpty then [] else ⟨depth, label⟩ :: allLines (depth + 1) nodes := by
  unfold group
  split <;> simp [allLines, lines]

/-- Lines that go on less deep. -/
def Shallower (depth : Nat) (lines : List OutlineLine) : Prop :=
  ∀ line ∈ lines.head?, line.depth < depth

theorem shallower_allLines {depth : Nat} {rest : List OutlineLine} (hrest : Shallower depth rest)
    (nodes : List OutlineNode) : Shallower (depth + 1) (allLines depth nodes ++ rest) := by
  intro line hline
  cases nodes with
  | nil => exact Nat.lt_succ_of_lt (hrest line hline)
  | cons node nodes =>
      obtain ⟨text, below⟩ := node
      obtain rfl : ⟨depth, text⟩ = line := Option.some.inj hline
      exact Nat.lt_succ_self depth

theorem head?_allLines_cons {depth : Nat} (node : OutlineNode) (nodes : List OutlineNode)
    (rest : List OutlineLine) : ∃ line, (allLines depth (node :: nodes) ++ rest).head? = some line ∧
      line.depth = depth := by
  obtain ⟨text, below⟩ := node
  exact ⟨⟨depth, text⟩, rfl, rfl⟩

mutual
/-- The depths of lines tell the nodes. What is below a node ends where the lines go on less deep. -/
theorem eq_of_lines : (node other : OutlineNode) → ∀ {depth : Nat} {rest more : List OutlineLine},
    Shallower (depth + 1) rest → Shallower (depth + 1) more →
      node.lines depth ++ rest = other.lines depth ++ more → node = other ∧ rest = more
  | ⟨text, below⟩, ⟨other, under⟩, _, _, _, hrest, hmore, hsame => by
      simp only [lines, List.cons_append, List.cons.injEq, OutlineLine.mk.injEq, true_and] at hsame
      obtain ⟨rfl, hbelow⟩ := hsame
      obtain ⟨rfl, hbehind⟩ := eq_of_allLines below under hrest hmore hbelow
      exact ⟨rfl, hbehind⟩

theorem eq_of_allLines : (nodes others : List OutlineNode) →
    ∀ {depth : Nat} {rest more : List OutlineLine}, Shallower depth rest → Shallower depth more →
      allLines depth nodes ++ rest = allLines depth others ++ more → nodes = others ∧ rest = more
  | [], [], _, _, _, _, _, hsame => ⟨rfl, hsame⟩
  -- The line of a node that only one list has would be less deep than its siblings.
  | [], other :: others, depth, rest, more, hrest, _, hsame => by
      obtain ⟨line, hline, hdepth⟩ := @head?_allLines_cons depth other others more
      have hless := hrest line (by rw [Option.mem_def, ← hline, ← hsame]; rfl)
      omega
  | node :: nodes, [], depth, rest, more, _, hmore, hsame => by
      obtain ⟨line, hline, hdepth⟩ := @head?_allLines_cons depth node nodes rest
      have hless := hmore line (by rw [Option.mem_def, ← hline, hsame]; rfl)
      omega
  | node :: nodes, other :: others, _, _, _, hrest, hmore, hsame => by
      simp only [allLines, List.append_assoc] at hsame
      obtain ⟨rfl, hbehind⟩ := eq_of_lines node other (shallower_allLines hrest nodes)
        (shallower_allLines hmore others) hsame
      obtain ⟨rfl, hends⟩ := eq_of_allLines nodes others hrest hmore hbehind
      exact ⟨rfl, hends⟩
end

end OutlineNode

/-! ## Rendered lines -/

/-- A run of items with a property ends with the last of them. -/
theorem eq_of_run {α : Type} {P : α → Prop} {run other rest more : List α} (hrun : ∀ item ∈ run, P item)
    (hother : ∀ item ∈ other, P item) (hrest : ∀ item ∈ rest.head?, ¬ P item)
    (hmore : ∀ item ∈ more.head?, ¬ P item) (hsame : run ++ rest = other ++ more) :
    run = other ∧ rest = more := by
  induction run generalizing other with
  | nil =>
      cases other with
      | nil => exact ⟨rfl, hsame⟩
      | cons second other =>
          obtain rfl : rest = second :: (other ++ more) := hsame
          exact absurd (hother second (by simp)) (hrest second rfl)
  | cons first run ih =>
      cases other with
      | nil =>
          obtain rfl : first :: (run ++ rest) = more := hsame
          exact absurd (hrun first (by simp)) (hmore first rfl)
      | cons second other =>
          obtain ⟨rfl, htail⟩ := List.cons.inj hsame
          obtain ⟨rfl, hends⟩ := ih (List.forall_mem_cons.mp hrun).2 (List.forall_mem_cons.mp hother).2
            htail
          exact ⟨rfl, hends⟩

/-- A text without a line break. -/
def OneLine (text : String) : Prop :=
  '\n' ∉ text.toList

instance (text : String) : Decidable (OneLine text) :=
  inferInstanceAs (Decidable ('\n' ∉ text.toList))

theorem OneLine.append {text more : String} (htext : OneLine text) (hmore : OneLine more) :
    OneLine (text ++ more) := by
  rw [OneLine, String.toList_append, List.mem_append, not_or]
  exact ⟨htext, hmore⟩

/-- A text that can be told from its rendered line. -/
structure IsPlain (text : String) : Prop where
  oneLine : OneLine text
  noBlankFirst : text.toList.head? ≠ some ' '

instance (text : String) : Decidable (IsPlain text) :=
  decidable_of_iff (OneLine text ∧ text.toList.head? ≠ some ' ')
    ⟨fun hplain => ⟨hplain.1, hplain.2⟩, fun hplain => ⟨hplain.1, hplain.2⟩⟩

namespace OutlineNode

mutual
/-- A node all of whose lines can be told from a rendered outline. -/
def AllPlain : OutlineNode → Prop
  | ⟨text, below⟩ => IsPlain text ∧ EachPlain below

def EachPlain : List OutlineNode → Prop
  | [] => True
  | node :: nodes => node.AllPlain ∧ EachPlain nodes
end

mutual
theorem AllPlain.lines : (node : OutlineNode) → node.AllPlain → ∀ depth,
    ∀ line ∈ node.lines depth, IsPlain line.text
  | ⟨_, below⟩, hplain, depth => by
      rw [OutlineNode.lines]
      exact List.forall_mem_cons.mpr ⟨hplain.1, EachPlain.lines below hplain.2 (depth + 1)⟩

theorem EachPlain.lines : (nodes : List OutlineNode) → EachPlain nodes → ∀ depth,
    ∀ line ∈ allLines depth nodes, IsPlain line.text
  | [], _, _ => by simp [allLines]
  | node :: nodes, hplain, depth => by
      rw [allLines]
      exact List.forall_mem_append.mpr
        ⟨AllPlain.lines node hplain.1 depth, EachPlain.lines nodes hplain.2 depth⟩
end

theorem eachPlain_iff {nodes : List OutlineNode} :
    EachPlain nodes ↔ ∀ node ∈ nodes, node.AllPlain := by
  induction nodes with
  | nil => simp [EachPlain]
  | cons node nodes ih => rw [EachPlain, ih, List.forall_mem_cons]

theorem EachPlain.append {nodes others : List OutlineNode} (hnodes : EachPlain nodes)
    (hothers : EachPlain others) : EachPlain (nodes ++ others) :=
  eachPlain_iff.mpr
    (List.forall_mem_append.mpr ⟨eachPlain_iff.mp hnodes, eachPlain_iff.mp hothers⟩)

theorem EachPlain.group {nodes : List OutlineNode} (hnodes : EachPlain nodes) {label : String}
    (hlabel : IsPlain label) : EachPlain (group label nodes) := by
  unfold OutlineNode.group
  split
  · trivial
  · exact ⟨⟨hlabel, hnodes⟩, trivial⟩

end OutlineNode

theorem OutlineLine.toList_render (line : OutlineLine) : line.render.toList =
    List.replicate (indentWidth * line.depth) ' ' ++ line.text.toList ++ ['\n'] := by
  simp [render, Text.blanks]

/-- The first line break of a text ends its first line. -/
theorem eq_of_line {line other rest more : List Char} (hline : '\n' ∉ line) (hother : '\n' ∉ other)
    (hsame : line ++ '\n' :: rest = other ++ '\n' :: more) : line = other ∧ rest = more := by
  have hinside {text : List Char} (htext : '\n' ∉ text) : ∀ c ∈ text, c ≠ '\n' :=
    fun c hmem hc => htext (hc ▸ hmem)
  obtain ⟨hlines, hbehind⟩ := eq_of_run (hinside hline) (hinside hother) (by simp) (by simp) hsame
  exact ⟨hlines, (List.cons.inj hbehind).2⟩

/-- Where the blanks at the front of a text end, the rest begins. -/
theorem eq_of_blanks {count other : Nat} {text more : List Char} (htext : text.head? ≠ some ' ')
    (hmore : more.head? ≠ some ' ')
    (hsame : List.replicate count ' ' ++ text = List.replicate other ' ' ++ more) :
    count = other ∧ text = more := by
  have hblank (count : Nat) : ∀ c ∈ List.replicate count ' ', c = ' ' :=
    fun c hmem => List.eq_of_mem_replicate hmem
  have hends {text : List Char} (htext : text.head? ≠ some ' ') : ∀ c ∈ text.head?, c ≠ ' ' :=
    fun c hmem hc => htext (hc ▸ hmem)
  obtain ⟨hblanks, hbehind⟩ := eq_of_run (hblank count) (hblank other) (hends htext) (hends hmore) hsame
  exact ⟨by simpa using congrArg List.length hblanks, hbehind⟩

theorem OutlineLine.newline_notMem_render {line : OutlineLine} (hline : IsPlain line.text) :
    '\n' ∉ List.replicate (indentWidth * line.depth) ' ' ++ line.text.toList := by
  have hnone : '\n' ∉ line.text.toList := hline.oneLine
  simp [hnone]

theorem OutlineLine.eq_of_render {line other : OutlineLine} (hline : IsPlain line.text)
    (hother : IsPlain other.text) {rest more : List Char}
    (hsame : line.render.toList ++ rest = other.render.toList ++ more) :
    line = other ∧ rest = more := by
  rw [line.toList_render, other.toList_render, List.append_assoc, List.append_assoc _ ['\n']] at hsame
  obtain ⟨htext, hrest⟩ := eq_of_line (newline_notMem_render hline) (newline_notMem_render hother) hsame
  obtain ⟨hblanks, hwords⟩ := eq_of_blanks hline.noBlankFirst hother.noBlankFirst htext
  have hdepth := Nat.eq_of_mul_eq_mul_left (by decide : 0 < indentWidth) hblanks
  exact ⟨congr (congrArg OutlineLine.mk hdepth) (String.toList_inj.mp hwords), hrest⟩

/-- A rendered outline tells its lines. -/
theorem eq_of_renderOutline {lines others : List OutlineLine}
    (hlines : ∀ line ∈ lines, IsPlain line.text) (hothers : ∀ line ∈ others, IsPlain line.text)
    (hsame : renderOutline lines = renderOutline others) : lines = others := by
  replace hsame := congrArg String.toList hsame
  simp only [renderOutline, String.toList_join, List.flatMap_map] at hsame
  induction lines generalizing others with
  | nil =>
      cases others with
      | nil => rfl
      | cons other others => simp [OutlineLine.toList_render] at hsame
  | cons line lines ih =>
      cases others with
      | nil => simp [OutlineLine.toList_render] at hsame
      | cons other others =>
          rw [List.forall_mem_cons] at hlines hothers
          rw [List.flatMap_cons, List.flatMap_cons] at hsame
          obtain ⟨rfl, hrest⟩ := OutlineLine.eq_of_render hlines.1 hothers.1 hsame
          rw [ih hlines.2 hothers.2 hrest]

end KCompiler
