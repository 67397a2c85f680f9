import Pom8.Proofs.CaseFolding
import Pom8.Proofs.LineBreaks
import Pom8.Proofs.LineGroups

/-!
# What faults quote

A fault names a line and quotes a text.  The text is taken from that line: an
item as it stands, an item without its colon, or the first item of code in upper
case.  Comments are no items, and labels are gone before statements are read, so
neither is ever found in the place of something else.
-/

namespace Pom8

namespace Fault

open Source

/-- What a fault quotes, where its line reads as given. -/
def Quotes (source : String) (line : List Char) : Fault → Prop
  | unrecognised _ text =>
    text.toList ∈ items line ∧ ∀ kind : Token.Kind, kind.admits text.toList = false
  | duplicateLabel number label first =>
    label.toList ++ [':'] ∈ items line ∧ first ≤ number ∧
      ∃ before after earlier,
        labels source = before ++ ⟨label, number⟩ :: after ∧
          earlier ∈ before ∧ earlier.line = first ∧
            Text.SameLetters earlier.text label
  | unknownMnemonic _ name =>
    ∃ head rest, codeItems line = head :: rest ∧
      name = Text.upper (String.ofList head)
  | unexpected _ _ found =>
    foundName found = Token.Kind.newline.name ∨
      ∃ item ∈ items line, ∃ kind,
        Token.Kind.ofText? (String.ofList item) = some kind ∧
          kind ≠ .label ∧ kind ≠ .comment ∧
            foundName found = kind.name ++ " '" ++ String.ofList item ++ "'"
  | outOfRange _ text kind =>
    text.toList ∈ items line ∧ Token.Kind.ofText? text = some kind
  | undefinedLabel _ label =>
    label.toList ∈ items line ∧
      ∀ name ∈ labelNames source, ¬Text.SameLetters name label

end Fault

/-! ## Faults of a scan -/

namespace Source

theorem lexemes_pairwise_le (source : String) :
    (lexemes source).Pairwise fun first second => first.line ≤ second.line := by
  have hlines := numberedLines_pairwise_lt source
  refine List.pairwise_flatMap.mpr ⟨?_, hlines.imp ?_⟩
  · intro line _
    refine List.pairwise_of_forall_mem_list ?_
    intro first hfirst second hsecond
    rw [Scan.line_of_mem_lineLexemes hfirst, Scan.line_of_mem_lineLexemes hsecond]
  · intro line line' hlt first hfirst second hsecond
    rw [Scan.line_of_mem_lineLexemes hfirst, Scan.line_of_mem_lineLexemes hsecond]
    exact Nat.le_of_lt hlt

/-- A lexeme other than a line break is an item of its line. -/
theorem exists_line_of_mem_lexemes
    {source : String} {lexeme : Lexeme} (h : lexeme ∈ lexemes source)
    (hbreak : lexeme.text ≠ lineBreak) :
    ∃ line, (line, lexeme.line) ∈ numberedLines source ∧
      lexeme.text.toList ∈ items line := by
  obtain ⟨⟨line, number⟩, hline, hmem⟩ := List.mem_flatMap.mp h
  change lexeme ∈ lineLexemes line number at hmem
  rw [lineLexemes, List.mem_append, List.mem_map, List.mem_singleton] at hmem
  rcases hmem with ⟨item, hitem, rfl⟩ | rfl
  · exact ⟨line, hline, by rwa [String.toList_ofList]⟩
  · exact absurd rfl hbreak

end Source

namespace Scan

open Source

variable {source : String} {fault : Fault} {last : Scan}

/-- A label that a scan has defined stands earlier among those it has read. -/
theorem exists_earlier_of_find?
    {before : List Lexeme} {state : Scan} {name : String} {first : Symbol}
    (hrun : Progress.run step {} before = .running state)
    (hfirst : state.symbols.find? name = some first) :
    ∃ earlier ∈ before.filterMap labelOf?,
      earlier.line = first.line ∧ Text.SameLetters earlier.text name := by
  have hname : first.name = Text.lower name := by
    simpa using List.find?_some hfirst
  have hmem : first.definition ∈ state.symbols.entries.map Symbol.definition :=
    List.mem_map_of_mem (List.mem_of_find?_eq_some hfirst)
  rw [map_definition_of_run hrun] at hmem
  obtain ⟨earlier, hearlier, hdefinition⟩ := List.mem_map.mp hmem
  obtain ⟨hlower, hline⟩ := Prod.mk.inj hdefinition
  exact ⟨earlier, hearlier, hline, Text.sameLetters_iff.mpr (hlower.trans hname)⟩

theorem quotes_of_ofSource_eq_halted (h : ofSource source = .halted last fault) :
    ∃ line, (line, fault.line) ∈ numberedLines source ∧
      fault.Quotes source line := by
  obtain ⟨before, lexeme, after, state, hlexemes, hbefore, hstep⟩ :=
    Progress.exists_split_of_run_eq_halted h
  have hmem : lexeme ∈ lexemes source := by simp [hlexemes]
  rcases halted_cases_of_step hstep with
    ⟨hnone, rfl⟩ | ⟨label, first, hlabel, hfirst, rfl⟩
  · have hbreak : lexeme.text ≠ lineBreak := by
      intro hbreak
      rw [hbreak, Token.ofText?_lineBreak] at hnone
      cases hnone
    obtain ⟨line, hline, hitem⟩ := exists_line_of_mem_lexemes hmem hbreak
    refine ⟨line, hline, hitem, ?_⟩
    intro kind
    exact Bool.eq_false_iff.mpr
      (List.find?_eq_none.mp hnone kind (Token.Kind.mem_order kind))
  · obtain ⟨htext, hnumber⟩ := eq_of_labelOf?_eq_some hlabel
    have hbreak : lexeme.text ≠ lineBreak := by
      intro hbreak
      rw [hbreak] at htext
      have hlast := congrArg List.getLast? htext
      rw [List.getLast?_concat] at hlast
      exact absurd hlast (by decide)
    obtain ⟨line, hline, hitem⟩ := exists_line_of_mem_lexemes hmem hbreak
    obtain ⟨earlier, hearlier, hearlierLine, hsame⟩ :=
      exists_earlier_of_find? hbefore hfirst
    have hle : earlier.line ≤ label.line := by
      obtain ⟨origin, horigin, hof⟩ := List.mem_filterMap.mp hearlier
      have hsorted := lexemes_pairwise_le source
      rw [hlexemes, List.pairwise_append] at hsorted
      rw [hnumber, (eq_of_labelOf?_eq_some hof).2]
      exact hsorted.2.2 origin horigin lexeme List.mem_cons_self
    refine ⟨line, ?_, ?_, ?_, before.filterMap labelOf?, after.filterMap labelOf?,
      earlier, ?_, hearlier, hearlierLine, hsame⟩
    · rw [Fault.line, hnumber]
      exact hline
    · rwa [← htext]
    · rwa [← hearlierLine]
    · rw [labels_eq_filterMap, hlexemes, List.filterMap_append,
        List.filterMap_cons_some hlabel]

end Scan

/-! ## Faults of statements -/

namespace Draft

open Source

variable {source : String} {fault : Fault} {line : List Char} {number : Nat}
  {token : Token}

/-- The tokens of a line are its line break and its items of code. -/
theorem exists_item_of_mem_lineTokens
    (h : token ∈ lineTokens (line, number)) (hnewline : token.kind ≠ .newline) :
    ∃ item ∈ items line, Token.isLabel item = false ∧
      token.toLexeme = ⟨String.ofList item, number⟩ := by
  unfold lineTokens at h
  split at h
  · rw [List.mem_append, mem_keptTokens_iff, List.mem_singleton] at h
    rcases h with hitem | rfl
    · exact hitem
    · exact absurd rfl hnewline
  · exact absurd h List.not_mem_nil

theorem quotes_unexpected
    (h : token ∈ lineTokens (line, number)) (place : Nat) (expected : Expectation) :
    (Fault.unexpected place expected (some token)).Quotes source line := by
  by_cases hnewline : token.kind = .newline
  · left
    rw [Fault.foundName, Token.display, hnewline]
  · right
    obtain ⟨item, hitem, hlabel, hlexeme⟩ := exists_item_of_mem_lineTokens h hnewline
    have hkind := Token.ofText?_of_toLexeme_eq hlexeme
    refine ⟨item, hitem, token.kind, hkind, ?_, (kind_ne_of_mem_items hitem hkind).2, ?_⟩
    · intro hlabelKind
      rw [hlabelKind, kind_eq_label_iff, hlabel] at hkind
      cases hkind
    · rw [Fault.foundName, Token.display]
      split
      next hcase => exact absurd hcase hnewline
      next => rw [hlexeme]

/-- A statement is started by the first item of code of its line. -/
theorem exists_head_of_lineTokens
    (hclassified : ∀ item ∈ items line, Classified item) {rest : List Token}
    (h : lineTokens (line, number) = token :: rest) :
    ∃ head others, codeItems line = head :: others ∧
      token.text = String.ofList head := by
  unfold lineTokens at h
  split at h
  next hcode =>
    obtain ⟨head, others, hitems⟩ :=
      List.exists_cons_of_ne_nil (isCode_iff.mp hcode)
    have hread := Grammar.readFrom_keptTokens number hclassified
    rw [hitems] at hread
    obtain ⟨first, tokens, hfirst, -, hkept⟩ := List.forall₂_cons_left_iff.mp hread
    rw [hkept, List.cons_append] at h
    obtain ⟨rfl, -⟩ := List.cons.inj h
    exact ⟨head, others, hitems, by rw [hfirst]⟩
  next => cases h

/-- Between two tokens of a line some statement is under way. -/
theorem eq_nil_of_run_lineTokens
    {symbols : SymbolTable} {draft state : Draft} {front back : List Token}
    (hline : lineTokens (line, number) = front ++ token :: back)
    (hrun : Progress.run (step symbols) draft front = .running state)
    (hnone : state.statement = none) : front = [] := by
  rcases List.eq_nil_or_concat' front with rfl | ⟨before, previous, rfl⟩
  · rfl
  · obtain ⟨middle, -, hstep⟩ := Progress.run_concat_eq_running_iff.mp hrun
    -- Only the last token of a line is its line break.
    have hkept : previous ∈ keptTokens number (items line) := by
      have hfront := congrArg List.dropLast hline
      rw [List.dropLast_append_of_ne_nil (List.cons_ne_nil token back)] at hfront
      unfold lineTokens at hfront
      split at hfront
      · rw [List.dropLast_concat] at hfront
        simp [hfront]
      · simp at hfront
    have hnewline := kind_ne_newline_of_mem_keptTokens hkept
    obtain ⟨statement, hsome, -⟩ := exists_statement_of_step hnewline hstep
    rw [hnone] at hsome
    cases hsome

/-- What a statement quotes of the token it refuses. -/
theorem quotes_of_take_eq_error
    {symbols : SymbolTable} {statement : Statement}
    (hsymbols : symbols.entries.map Symbol.name =
      (labelNames source).map Text.lower)
    (htoken : token ∈ lineTokens (line, number))
    (h : statement.take symbols token = .error fault) :
    fault.Quotes source line := by
  rcases Statement.error_cases_of_take h with rfl | ⟨hnewline, hrefused⟩
  · exact quotes_unexpected htoken token.line statement.expectation
  · obtain ⟨item, hitem, -, hlexeme⟩ := exists_item_of_mem_lineTokens htoken hnewline
    have htext : token.text.toList ∈ items line := by
      rwa [hlexeme, String.toList_ofList]
    rcases hrefused with rfl | ⟨hcontains, rfl⟩
    · exact ⟨htext, token.kind_eq⟩
    · refine ⟨htext, ?_⟩
      intro name hname hsame
      have hdefined := (Grammar.contains_iff hsymbols).mpr
        ⟨name, hname, Text.sameLetters_iff.mp hsame⟩
      exact absurd hdefined (by simp [hcontains])

theorem quotes_of_ofTokens_eq_halted
    {scan : Scan} {last : Draft} (hscan : Scan.ofSource source = .running scan)
    (h : ofTokens scan.symbols scan.tokens.toList = .halted last fault) :
    ∃ line, (line, fault.line) ∈ numberedLines source ∧
      fault.Quotes source line := by
  have hread := Scan.linesRead_of_ofSource hscan
  have hsymbols : scan.symbols.entries.map Symbol.name =
      (labelNames source).map Text.lower := by
    rw [← map_name_symbolsFrom_numberedLines 0, hread.symbols]
    rfl
  have htokens : scan.tokens.toList = (numberedLines source).flatMap lineTokens :=
    hread.tokens
  rw [htokens, ofTokens_lineTokens] at h
  obtain ⟨before, line, after, draft, hlines, hbefore, hline⟩ :=
    exists_line_of_run_eq_halted h
  obtain ⟨front, token, back, state, hsplit, hfront, hstep⟩ :=
    Progress.exists_split_of_run_eq_halted hline
  have hmem := mem_numberedLines_of_lines_eq hlines
  have htoken : token ∈ lineTokens (line, before.length + 1) := by simp [hsplit]
  have hnumber : fault.line = before.length + 1 :=
    (concerns_of_step_eq_halted hstep).line_eq.trans (line_of_mem_lineTokens htoken)
  refine ⟨line, hnumber ▸ hmem, ?_⟩
  rcases halted_cases_of_step hstep with ⟨hnone, hstart⟩ | ⟨statement, -, htake⟩
  · rcases Statement.error_cases_of_start hstart with rfl | rfl
    · -- The line has no statement under way, so this is its first token.
      obtain rfl := eq_nil_of_run_lineTokens hsplit hfront hnone
      obtain ⟨head, others, hitems, htext⟩ :=
        exists_head_of_lineTokens (hread.classified _ hmem) hsplit
      exact ⟨head, others, hitems, by rw [htext]⟩
    · exact quotes_unexpected htoken token.line .mnemonic
  · exact quotes_of_take_eq_error hsymbols htoken htake

end Draft

/-! ## The fault of a source -/

/-- The fault of a source quotes the line that it names. -/
theorem fault_quotes_its_line
    {source : String} {fault : Fault} (h : assemble source = .error fault) :
    ∃ line, (line, fault.line) ∈ Source.numberedLines source ∧
      fault.Quotes source line := by
  rcases assemble_eq_error_iff.mp h with ⟨scan, hscan⟩ | ⟨scan, draft, hscan, hdraft⟩
  · exact Scan.quotes_of_ofSource_eq_halted hscan
  · exact Draft.quotes_of_ofTokens_eq_halted hscan hdraft

/-- A label that is defined twice, a name that is no mnemonic, and a literal that
is too large. -/
theorem fault_quotes_its_line_mixed :
    (assemble "a: nop\nb: a: hlt ; c" = .error (.duplicateLabel 2 "a" 1) ∧
      ∃ line, (line, 2) ∈ Source.numberedLines "a: nop\nb: a: hlt ; c" ∧
        (Fault.duplicateLabel 2 "a" 1).Quotes "a: nop\nb: a: hlt ; c" line) ∧
    (assemble "nop\nb: foo r1" = .error (.unknownMnemonic 2 "FOO") ∧
      ∃ line, (line, 2) ∈ Source.numberedLines "nop\nb: foo r1" ∧
        (Fault.unknownMnemonic 2 "FOO").Quotes "nop\nb: foo r1" line) ∧
    assemble "ldi r1, 0x400;" = .error (.outOfRange 1 "0x400" .hexadecimal) ∧
      ∃ line, (line, 1) ∈ Source.numberedLines "ldi r1, 0x400;" ∧
        (Fault.outOfRange 1 "0x400" .hexadecimal).Quotes "ldi r1, 0x400;" line := by
  have htwice : assemble "a: nop\nb: a: hlt ; c" =
      .error (.duplicateLabel 2 "a" 1) := by
    decide +kernel
  have hname : assemble "nop\nb: foo r1" = .error (.unknownMnemonic 2 "FOO") := by
    decide +kernel
  have hlarge : assemble "ldi r1, 0x400;" =
      .error (.outOfRange 1 "0x400" .hexadecimal) := by
    decide +kernel
  exact ⟨⟨htwice, fault_quotes_its_line htwice⟩, ⟨hname, fault_quotes_its_line hname⟩,
    hlarge, fault_quotes_its_line hlarge⟩

end Pom8
