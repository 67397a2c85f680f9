import Pom8.Proofs.Assembling

/-!
# Addresses of labels

Addresses are counted during the scan, and instructions are listed by the draft
of the tokens.  The two agree: the address of a label is the number of
instructions on earlier lines, so it leads to the first instruction on the line
of the label or after it.
-/

namespace Pom8

/-! ## The lines of a source and of its program -/

namespace Source

theorem numberedLines_pairwise_lt (source : String) :
    (numberedLines source).Pairwise fun first second => first.2 < second.2 := by
  rw [← List.pairwise_map (f := Prod.snd) (R := (· < ·)), numberedLines,
    List.zipIdx_map_snd]
  exact List.pairwise_lt_range'

/-- A symbol stands on a numbered line that has its label. -/
theorem exists_label_of_mem_symbolsFrom
    {address : Nat} {lines : List (List Char × Nat)} {symbol : Symbol}
    (h : symbol ∈ symbolsFrom address lines) :
    ∃ line ∈ lines, line.2 = symbol.line ∧
      ∃ item ∈ labelItems line.1, Text.lower (labelName item) = symbol.name := by
  induction lines generalizing address with
  | nil => cases h
  | cons line rest ih =>
      rw [symbolsFrom, List.mem_append] at h
      rcases h with h | h
      · obtain ⟨item, hitem, rfl⟩ := List.mem_map.mp h
        exact ⟨line, List.mem_cons_self, rfl, item, hitem, rfl⟩
      · obtain ⟨other, hother, hlabel⟩ := ih h
        exact ⟨other, List.mem_cons_of_mem _ hother, hlabel⟩

/-- The address of a symbol counts the lines of code before its own line. -/
theorem address_of_mem_symbolsFrom
    {address : Nat} {lines : List (List Char × Nat)} {symbol : Symbol}
    (hlines : lines.Pairwise fun first second => first.2 < second.2)
    (h : symbol ∈ symbolsFrom address lines) :
    symbol.address = address +
      (lines.filter fun line => isCode line.1).countP
        fun line => line.2 < symbol.line := by
  induction lines generalizing address with
  | nil => cases h
  | cons line rest ih =>
      obtain ⟨hline, hrest⟩ := List.pairwise_cons.mp hlines
      rw [symbolsFrom, List.mem_append] at h
      rcases h with h | h
      · obtain ⟨item, -, rfl⟩ := List.mem_map.mp h
        have hnone : ((line :: rest).filter fun other => isCode other.1).countP
            (fun other => other.2 < line.2) = 0 := by
          rw [List.countP_eq_zero]
          intro other hother
          rcases List.mem_cons.mp (List.mem_of_mem_filter hother) with rfl | hother
          · simp
          · have := hline other hother
            simp only [decide_eq_true_eq]
            omega
        rw [hnone, Nat.add_zero]
      · obtain ⟨other, hother, hnumber, -⟩ := exists_label_of_mem_symbolsFrom h
        have hbefore : line.2 < symbol.line := by
          rw [← hnumber]
          exact hline other hother
        rw [ih hrest h]
        by_cases hcode : isCode line.1 = true
        · rw [if_pos hcode, List.filter_cons, if_pos hcode,
            List.countP_cons_of_pos (by simpa using hbefore)]
          omega
        · rw [if_neg hcode, List.filter_cons, if_neg hcode]

end Source

/-- An instruction stands on the line of its tokens. -/
theorem Instruction.Written.line_eq
    {symbols : SymbolTable} {number : Nat} {found : List (List Char)}
    {instruction : Instruction}
    (h : Written symbols (Source.keptTokens number found) instruction) :
    instruction.line = number := by
  generalize htokens : Source.keptTokens number found = tokens at h
  cases h with
  | @statement head tokens =>
      have hhead : head ∈ Source.keptTokens number found := by simp [htokens]
      obtain ⟨item, -, -, hlexeme⟩ := mem_keptTokens_iff.mp hhead
      simp [hlexeme]

namespace AssembledFrom

variable {source : String} {assembly : Assembly}

/-- The instructions of a program stand on the lines of code, in order. -/
theorem map_line_program (h : AssembledFrom source assembly) :
    assembly.program.map Instruction.line =
      (Source.codeLines source).map Prod.snd := by
  have hlines : List.Forall₂ (· = ·) ((Source.codeLines source).map Prod.snd)
      (assembly.program.map Instruction.line) := by
    rw [List.forall₂_map_left_iff, List.forall₂_map_right_iff]
    exact h.program.imp fun _ _ hwritten => hwritten.line_eq.symm
  rw [List.forall₂_eq_eq_eq] at hlines
  exact hlines.symm

theorem program_pairwise_lt (h : AssembledFrom source assembly) :
    assembly.program.Pairwise fun first second => first.line < second.line := by
  rw [← List.pairwise_map (f := Instruction.line) (R := (· < ·)),
    h.map_line_program, List.pairwise_map]
  exact (Source.numberedLines_pairwise_lt source).filter _

theorem address_eq_countP
    (h : AssembledFrom source assembly) {symbol : Symbol}
    (hsymbol : symbol ∈ assembly.symbols.entries) :
    symbol.address =
      assembly.program.countP fun instruction =>
        instruction.line < symbol.line := by
  rw [h.symbols] at hsymbol
  rw [Source.address_of_mem_symbolsFrom
    (Source.numberedLines_pairwise_lt source) hsymbol, Nat.zero_add]
  change (Source.codeLines source).countP
    ((fun number => decide (number < symbol.line)) ∘ Prod.snd) = _
  rw [← List.countP_map, ← h.map_line_program, List.countP_map]
  rfl

end AssembledFrom

/-- The address of each label is the number of instructions on earlier lines: it
leads to the first instruction on the line of the label or after it, or to the
end of the program if there is none. -/
theorem label_address_leads_to_next_instruction
    {source : String} {assembly : Assembly}
    (h : assemble source = .ok assembly) :
    (assembly.program.map Instruction.line).Pairwise (· < ·) ∧
      ∀ symbol ∈ assembly.symbols.entries,
        (∃ line, (line, symbol.line) ∈ Source.numberedLines source ∧
          ∃ item ∈ Source.labelItems line,
            Text.lower (Source.labelName item) = symbol.name) ∧
        symbol.address = assembly.program.countP (fun instruction =>
          instruction.line < symbol.line) ∧
        (∀ instruction, assembly.program[symbol.address]? = some instruction →
          symbol.line ≤ instruction.line ∧
            ∀ other ∈ assembly.program, symbol.line ≤ other.line →
              instruction.line ≤ other.line) ∧
        symbol.address ≤ assembly.program.length ∧
        (symbol.address = assembly.program.length ↔
          ∀ instruction ∈ assembly.program, ¬symbol.line ≤ instruction.line) := by
  have hassembled := assemble_eq_ok_iff_assembledFrom.mp h
  have hlines := hassembled.program_pairwise_lt
  refine ⟨List.pairwise_map.mpr hlines, ?_⟩
  intro symbol hsymbol
  have haddress := hassembled.address_eq_countP hsymbol
  refine ⟨?_, haddress, ?_, ?_, ?_⟩
  · rw [hassembled.symbols] at hsymbol
    obtain ⟨⟨line, number⟩, hline, rfl, hlabel⟩ :=
      Source.exists_label_of_mem_symbolsFrom hsymbol
    exact ⟨line, hline, hlabel⟩
  · intro instruction hinstruction
    rw [haddress] at hinstruction
    exact least_of_getElem?_countP hlines hinstruction
  · rw [haddress]
    exact List.countP_le_length
  · rw [haddress, List.countP_eq_length]
    simp

/-- Labels before, between and after the items of a line, alone on a line, and
after the last instruction. -/
theorem label_address_leads_to_next_instruction_mixed :
    ∃ assembly,
      assemble "a:\nb: LDI c: r1, 5 d:\n; x\n\ne:\nJMP e\nf:" = .ok assembly ∧
        assembly.program.map Instruction.line = [2, 6] ∧
          assembly.symbols.entries.map
              (fun symbol => (symbol.name, symbol.address, symbol.line)) =
            [("a", 0, 1), ("b", 0, 2), ("c", 0, 2), ("d", 0, 2), ("e", 1, 5),
              ("f", 2, 7)] ∧
            ∀ symbol ∈ assembly.symbols.entries,
              symbol.address = assembly.program.countP (fun instruction =>
                instruction.line < symbol.line) := by
  obtain ⟨assembly, hassembly, hview⟩ :=
    exists_assembly_of_toOption_eq
      (show (assemble "a:\nb: LDI c: r1, 5 d:\n; x\n\ne:\nJMP e\nf:").toOption.map
          (fun assembly => (assembly.program.map Instruction.line,
            assembly.symbols.entries.map
              (fun symbol => (symbol.name, symbol.address, symbol.line)))) =
        some ([2, 6], [("a", 0, 1), ("b", 0, 2), ("c", 0, 2), ("d", 0, 2),
          ("e", 1, 5), ("f", 2, 7)]) by decide +kernel)
  rw [Prod.mk.injEq] at hview
  obtain ⟨-, hsymbols⟩ := label_address_leads_to_next_instruction hassembly
  exact ⟨assembly, hassembly, hview.1, hview.2,
    fun symbol hsymbol => (hsymbols symbol hsymbol).2.1⟩

end Pom8
