import Pom8.Proofs.Faults

/-!
# The tokens of a scanned source

A scan that ends has kept the items of code of each line, in order and with a
line break after them.  Lines without code leave no token, and each label is
bound to the number of groups before its line.
-/

namespace Pom8

theorem Source.eq_of_mem_numberedLines
    {source : String} {first second : List Char} {number : Nat}
    (hfirst : (first, number) ∈ numberedLines source)
    (hsecond : (second, number) ∈ numberedLines source) : first = second := by
  have hfirst' := (List.mem_zipIdx_iff_le_and_getElem?_sub.mp hfirst).2
  have hsecond' := (List.mem_zipIdx_iff_le_and_getElem?_sub.mp hsecond).2
  exact Option.some.inj (hfirst'.symm.trans hsecond')

/-- The name of a symbol with the line that defines it. -/
def Symbol.definition (symbol : Symbol) : String × Nat :=
  (symbol.name, symbol.line)

/-- The kinds of the tokens that statements are made of. -/
def Token.Kind.ofCode : List Kind :=
  [.register, .mnemonic, .hexadecimal, .decimal, .binary]

namespace Scan

open Source

/-! ## Groups of tokens -/

/-- The tokens of one line of code, without the line break after them. -/
structure Group where
  line : Nat
  body : List Token
  body_ne_nil : body ≠ []
  kind_mem : ∀ token ∈ body, token.kind ∈ Token.Kind.ofCode
  line_eq : ∀ token ∈ body, token.line = line

/-- The tokens of a line of code, ended by a line break. -/
def Group.tokens (group : Group) : List Token :=
  group.body ++ [Token.lineBreak group.line]

/-- The groups of a scanned source: one for each line with an item of code, in
order, with the texts of these items.  The symbols are the labels of the source
in reading order, each with its line and the number of groups before it. -/
structure GroupedByLine
    (source : String) (scan : Scan) (groups : List Group) : Prop where
  tokens : scan.tokens.toList = groups.flatMap Group.tokens
  increasing : (groups.map Group.line).Pairwise (· < ·)
  bounds : ∀ group ∈ groups,
    1 ≤ group.line ∧ group.line ≤ (lines source).length
  texts : ∀ group ∈ groups, ∃ line, (line, group.line) ∈ numberedLines source ∧
    group.body.map (fun token => token.text) =
      (codeItems line).map String.ofList
  covered : ∀ line number, (line, number) ∈ numberedLines source →
    ((∃ group ∈ groups, group.line = number) ↔ codeItems line ≠ [])
  symbols : scan.symbols.entries = (labels source).map fun label =>
    ⟨Text.lower label.text,
      groups.countP fun group => group.line < label.line, label.line⟩

/-- The group of a numbered line holds the tokens that a scan keeps of it. -/
def IsGroupOf (line : List Char × Nat) (group : Group) : Prop :=
  group.line = line.2 ∧ group.body = keptTokens line.2 (items line.1)

theorem kind_mem_ofCode_of_mem_keptTokens
    {number : Nat} {line : List Char} {token : Token}
    (h : token ∈ keptTokens number (items line)) :
    token.kind ∈ Token.Kind.ofCode := by
  obtain ⟨item, hitem, hlabel, hlexeme⟩ := mem_keptTokens_iff.mp h
  have hkind := Token.ofText?_of_toLexeme_eq hlexeme
  obtain ⟨hnewline, hcomment⟩ := kind_ne_of_mem_items hitem hkind
  have hne : token.kind ≠ .label := by
    intro hlabelKind
    rw [hlabelKind, kind_eq_label_iff, hlabel] at hkind
    cases hkind
  cases hcase : token.kind with
  | label => exact absurd hcase hne
  | comment => exact absurd hcase hcomment
  | newline => exact absurd hcase hnewline
  | register | mnemonic | hexadecimal | decimal | binary => decide

theorem exists_isGroupOf
    {source : String}
    (hclassified : ∀ line ∈ lines source, ∀ item ∈ items line, Classified item)
    {line : List Char × Nat} (hline : line ∈ codeLines source) :
    ∃ group, IsGroupOf line group := by
  obtain ⟨hmem, hcode⟩ := Grammar.mem_lines_of_mem_codeLines hline
  have hread := Grammar.readFrom_keptTokens line.2 (hclassified line.1 hmem)
  have hne : keptTokens line.2 (items line.1) ≠ [] := by
    rw [← List.length_pos_iff, ← hread.length_eq, List.length_pos_iff]
    exact hcode
  refine ⟨⟨line.2, keptTokens line.2 (items line.1), hne, ?_, ?_⟩, rfl, rfl⟩
  · intro token htoken
    exact kind_mem_ofCode_of_mem_keptTokens htoken
  · intro token htoken
    obtain ⟨item, -, -, hlexeme⟩ := mem_keptTokens_iff.mp htoken
    rw [hlexeme]

/-! ## The groups of a source -/

section Groups

variable {source : String} {groups : List Group}

theorem map_line_of_isGroupOf
    (h : List.Forall₂ IsGroupOf (codeLines source) groups) :
    groups.map Group.line = (codeLines source).map Prod.snd :=
  (map_eq_map_of_forall₂ (h.imp fun _ _ hgroup => hgroup.1.symm)).symm

theorem flatMap_tokens_of_isGroupOf
    (h : List.Forall₂ IsGroupOf (codeLines source) groups) :
    groups.flatMap Group.tokens = (numberedLines source).flatMap lineTokens := by
  have hmap : groups.map Group.tokens = (codeLines source).map fun line =>
      keptTokens line.2 (items line.1) ++ [Token.lineBreak line.2] := by
    refine (map_eq_map_of_forall₂ (h.imp ?_)).symm
    rintro line group ⟨hline, hbody⟩
    rw [Group.tokens, hline, hbody]
  rw [flatMap_lineTokens, Draft.joinGroups, List.flatMap_map, List.flatMap_def,
    hmap, List.flatMap_def]
  rfl

theorem texts_of_isGroupOf
    {line : List Char × Nat} {group : Group} (h : IsGroupOf line group)
    (hclassified : ∀ item ∈ items line.1, Classified item) :
    group.body.map (fun token => token.text) =
      (codeItems line.1).map String.ofList := by
  rw [h.2]
  refine (map_eq_map_of_forall₂
    ((Grammar.readFrom_keptTokens line.2 hclassified).imp ?_)).symm
  intro item token htoken
  rw [htoken]

/-- There is a group for every line of code and for no other line. -/
theorem exists_group_iff
    (h : List.Forall₂ IsGroupOf (codeLines source) groups)
    {line : List Char} {number : Nat} (hline : (line, number) ∈ numberedLines source) :
    (∃ group ∈ groups, group.line = number) ↔ codeItems line ≠ [] := by
  rw [← List.mem_map, map_line_of_isGroupOf h, List.mem_map, ← isCode_iff]
  constructor
  · rintro ⟨⟨other, number⟩, hother, rfl⟩
    obtain ⟨hmem, hcode⟩ := List.mem_filter.mp hother
    rwa [eq_of_mem_numberedLines hline hmem]
  · intro hcode
    exact ⟨(line, number), List.mem_filter.mpr ⟨hline, hcode⟩, rfl⟩

end Groups

/-! ## The symbols of a source -/

/-- The name under which a label is kept, with its line. -/
def definitionOf (label : Lexeme) : String × Nat :=
  (Text.lower label.text, label.line)

/-- A lexeme adds the label it defines to the symbols, and nothing else. -/
theorem map_definition_of_step
    {scan next : Scan} {lexeme : Lexeme} (h : step scan lexeme = .running next) :
    next.symbols.entries.map Symbol.definition =
      scan.symbols.entries.map Symbol.definition ++
        (labelOf? lexeme).toList.map definitionOf := by
  cases hlabel : labelOf? lexeme with
  | none =>
      rw [(exists_step_of_labelOf?_eq_none hlabel h 0 scan).1]
      simp
  | some label =>
      rw [step_of_labelOf?_eq_some hlabel] at h
      split at h
      next => cases h
      next symbols hdefine =>
        obtain rfl := Progress.running.inj h
        simp [(SymbolTable.define_eq_ok_iff.mp hdefine).2, Symbol.definition,
          definitionOf]

/-- The symbols of a scan are the labels it has read, in order. -/
theorem map_definition_of_run
    {lexemes : List Lexeme} {scan : Scan}
    (h : Progress.run step {} lexemes = .running scan) :
    scan.symbols.entries.map Symbol.definition =
      (lexemes.filterMap labelOf?).map definitionOf := by
  refine Progress.run_induction (motive := fun lexemes scan =>
    scan.symbols.entries.map Symbol.definition =
      (lexemes.filterMap labelOf?).map definitionOf) rfl ?_ h
  intro before state lexeme next hbefore hstep
  rw [map_definition_of_step hstep, hbefore, List.filterMap_append,
    List.map_append]
  cases hlabel : labelOf? lexeme with
  | none => simp [hlabel]
  | some label => simp [hlabel]

theorem entries_of_isGroupOf
    {source : String} {scan : Scan} {groups : List Group}
    (hscan : ofSource source = .running scan)
    (h : List.Forall₂ IsGroupOf (codeLines source) groups) :
    scan.symbols.entries = (labels source).map fun label =>
      ⟨Text.lower label.text,
        groups.countP fun group => group.line < label.line, label.line⟩ := by
  -- The address of a symbol counts the groups before its line.
  have haddress : ∀ symbol ∈ scan.symbols.entries, symbol.address =
      groups.countP fun group => group.line < symbol.line := by
    intro symbol hsymbol
    rw [(linesRead_of_ofSource hscan).symbols] at hsymbol
    rw [address_of_mem_symbolsFrom (numberedLines_pairwise_lt source) hsymbol,
      Nat.zero_add]
    change (codeLines source).countP
      ((fun number => decide (number < symbol.line)) ∘ Prod.snd) = _
    rw [← List.countP_map, ← map_line_of_isGroupOf h, List.countP_map]
    rfl
  calc
    scan.symbols.entries =
        scan.symbols.entries.map fun symbol => ⟨symbol.name,
          groups.countP fun group => group.line < symbol.line, symbol.line⟩ := by
      refine (List.map_id _).symm.trans (List.map_congr_left ?_)
      intro symbol hsymbol
      rw [← haddress symbol hsymbol]
      rfl
    _ = (scan.symbols.entries.map Symbol.definition).map fun definition =>
          ⟨definition.1, groups.countP fun group => group.line < definition.2,
            definition.2⟩ := by
      rw [List.map_map]
      rfl
    _ = _ := by
      rw [map_definition_of_run hscan, ← labels_eq_filterMap, List.map_map]
      rfl

/-! ## The whole scan -/

/-- The tokens of a source that is scanned to its end are grouped by the lines of
code, and its symbols count these groups. -/
theorem scanned_tokens_are_grouped_by_line
    {source : String} {scan : Scan} (h : ofSource source = .running scan) :
    ∃ groups, GroupedByLine source scan groups := by
  have hread := linesRead_of_ofSource h
  have hclassified := (exists_ofSource_eq_running_iff.mp ⟨scan, h⟩).1
  obtain ⟨groups, hgroups⟩ := exists_forall₂_of_forall_mem
    fun line hline => exists_isGroupOf hclassified hline
  have hlines := map_line_of_isGroupOf hgroups
  -- Every group comes from a line of code.
  have horigin : ∀ group ∈ groups, ∃ line ∈ codeLines source,
      IsGroupOf line group := fun group hgroup =>
    exists_mem_left_of_forall₂ hgroups hgroup
  refine ⟨groups, ?_⟩
  exact
    { tokens := by
        rw [hread.tokens, flatMap_tokens_of_isGroupOf hgroups]
        rfl
      increasing := by
        rw [hlines, List.pairwise_map]
        exact (numberedLines_pairwise_lt source).filter _
      bounds := by
        intro group hgroup
        obtain ⟨line, hline, hnumber, -⟩ := horigin group hgroup
        rw [hnumber]
        exact line_bounds_of_mem_numberedLines (List.mem_filter.mp hline).1
      texts := by
        intro group hgroup
        obtain ⟨line, hline, hof⟩ := horigin group hgroup
        refine ⟨line.1, ?_, texts_of_isGroupOf hof (hclassified line.1 ?_)⟩
        · rw [hof.1]
          exact (List.mem_filter.mp hline).1
        · exact (Grammar.mem_lines_of_mem_codeLines hline).1
      covered := fun line number hline => exists_group_iff hgroups hline
      symbols := entries_of_isGroupOf h hgroups }

/-- Labels on a line of their own, between the items of a line and at the end,
with a comment and an empty line between the lines of code. -/
theorem scanned_tokens_are_grouped_by_line_mixed :
    ∃ scan groups,
      ofSource "a:\nldi b: r1, 5 ; x\n\njmp a\r\nc:" = .running scan ∧
        scan.tokens.toList.map (fun token => (token.kind, token.text, token.line)) =
          [(.mnemonic, "ldi", 2), (.register, "r1", 2), (.decimal, "5", 2),
            (.newline, "\n", 2), (.mnemonic, "jmp", 4), (.mnemonic, "a", 4),
            (.newline, "\n", 4)] ∧
        scan.symbols.entries = [⟨"a", 0, 1⟩, ⟨"b", 0, 2⟩, ⟨"c", 2, 5⟩] ∧
        GroupedByLine "a:\nldi b: r1, 5 ; x\n\njmp a\r\nc:" scan groups := by
  have hview : (ofSource "a:\nldi b: r1, 5 ; x\n\njmp a\r\nc:").toExcept.toOption.map
      (fun scan => (scan.tokens.toList.map
        (fun token => (token.kind, token.text, token.line)),
          scan.symbols.entries)) =
      some ([(.mnemonic, "ldi", 2), (.register, "r1", 2), (.decimal, "5", 2),
        (.newline, "\n", 2), (.mnemonic, "jmp", 4), (.mnemonic, "a", 4),
        (.newline, "\n", 4)], [⟨"a", 0, 1⟩, ⟨"b", 0, 2⟩, ⟨"c", 2, 5⟩]) := by
    decide +kernel
  cases hscan : ofSource "a:\nldi b: r1, 5 ; x\n\njmp a\r\nc:" with
  | halted scan fault =>
      rw [hscan] at hview
      cases hview
  | running scan =>
      rw [hscan] at hview
      obtain ⟨htokens, hsymbols⟩ := Prod.mk.inj (Option.some.inj hview)
      obtain ⟨groups, hgroups⟩ := scanned_tokens_are_grouped_by_line hscan
      exact ⟨scan, groups, rfl, htokens, hsymbols, hgroups⟩

end Scan
end Pom8
