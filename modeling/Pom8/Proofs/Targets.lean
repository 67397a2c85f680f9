import Pom8.Proofs.Places
import Pom8.Proofs.References

/-!
# Targets as labels and as literals

The target of a branch is written as a label or as a hexadecimal literal.  Where
the label has an address that a literal can express, the literal can take its
place: words and symbols stay as they are.  A literal of a greater address is
refused, so that only a label reaches there.
-/

namespace Pom8

open Source

/-- The place is that of the operand of a branch: the only item of code before it
on its line is the mnemonic of one. -/
def Source.Place.IsBranchOperand (place : Place) : Prop :=
  ∃ head mnemonic, codeItems place.start = [head] ∧
    Mnemonic.ofText? (String.ofList head) = some mnemonic ∧
      mnemonic.format = .branch

/-! ## Statements of a branch with a label -/

/-- The mnemonics of branch format stand alone or take one target. -/
theorem Mnemonic.layouts_of_branch
    {mnemonic : Mnemonic} (hformat : mnemonic.format = .branch) :
    mnemonic.layouts = [[]] ∨ mnemonic.layouts = [[.target]] := by
  unfold layouts
  split
  · exact Or.inl rfl
  · rw [hformat]
    exact Or.inr rfl

namespace Grammar

variable {labels : List String} {item head : List Char} {found : List (List Char)}
  {mnemonic : Mnemonic} {operands : List Operand}

/-- A name in the place of a target is a label. -/
theorem WritesOperand.eq_label_of_isName
    {operand : Operand} (h : WritesOperand labels .target item operand)
    (hname : Token.isName item = true) : operand = .label (String.ofList item) := by
  cases h with
  | hexadecimal => exact absurd hname (by simp [Token.isName, Text.isLetter])
  | label => rfl

/-- A branch with a name after its mnemonic has the label of this name for its only
operand. -/
theorem WritesStatement.branch_cases
    (h : WritesStatement labels (head :: item :: found) mnemonic operands)
    (hformat : mnemonic.format = .branch) (hname : Token.isName item = true) :
    found = [] ∧ operands = [.label (String.ofList item)] ∧
      mnemonic.layouts = [[.target]] ∧
        Token.Kind.ofText? (String.ofList head) = some .mnemonic := by
  rcases h with ⟨hkind, -, hallows, hoperands⟩
  have hlayout := allows_iff.mp hallows
  rcases Mnemonic.layouts_of_branch hformat with hlayouts | hlayouts
  · rw [hlayouts, List.mem_singleton] at hlayout
    subst hlayout
    cases hoperands
  · rw [hlayouts, List.mem_singleton] at hlayout
    subst hlayout
    rcases hoperands with _ | ⟨htarget, hrest⟩
    cases hrest
    exact ⟨rfl, by rw [htarget.eq_label_of_isName hname], hlayouts, hkind⟩

end Grammar

/-! ## One item replaced by another -/

/-- The place comes right after the mnemonic of a branch with a target, and no other
operand comes after it. -/
structure Source.Place.FollowsBranch
    (place : Place) (head : List Char) (mnemonic : Mnemonic) : Prop where
  start : codeItems place.start = [head]
  rest : codeItems place.rest = []
  kind : Token.Kind.ofText? (String.ofList head) = some .mnemonic
  name : Mnemonic.ofText? (String.ofList head) = some mnemonic
  format : mnemonic.format = .branch
  layouts : mnemonic.layouts = [[.target]]

theorem Source.Place.FollowsBranch.codeItems_fillLine
    {place : Place} {head item : List Char} {mnemonic : Mnemonic}
    (h : place.FollowsBranch head mnemonic) (hitem : IsPlain item) :
    codeItems (place.fillLine item) = [head, item] := by
  rw [place.codeItems_fillLine hitem, h.start, h.rest]
  rfl

theorem Token.isHexadecimal_of_isNumeral
    {digits : List Char} (h : Grammar.IsNumeral Numeral.isHexDigit digits) :
    isHexadecimal ('0' :: 'x' :: digits) = true :=
  isHexadecimal_iff.mpr ⟨'x', digits, rfl, Or.inl rfl, Grammar.isNumeral_iff.mp h⟩

theorem Source.isCodeItem_hexadecimal
    {digits : List Char} (h : Grammar.IsNumeral Numeral.isHexDigit digits) :
    IsCodeItem ('0' :: 'x' :: digits) :=
  ⟨.hexadecimal, Token.isHexadecimal_of_isNumeral h, by decide⟩

/-- After a branch, a literal that is not too great writes its target. -/
theorem Source.Place.FollowsBranch.writesInstruction
    {place : Place} {head digits : List Char} {mnemonic : Mnemonic}
    (h : place.FollowsBranch head mnemonic)
    (hdigits : Grammar.IsNumeral Numeral.isHexDigit digits)
    (hle : Numeral.value 16 digits ≤ 0x3FF) (labels : List String) :
    Grammar.WritesInstruction labels
      (place.fillLine ('0' :: 'x' :: digits), place.line)
      ⟨mnemonic, [.immediate (Numeral.value 16 digits) .hexadecimal], .branch,
        place.line⟩ := by
  have hallows : Grammar.Allows mnemonic [.target] := by
    rw [Grammar.allows_iff, h.layouts]
    exact List.mem_singleton_self _
  refine ⟨rfl, h.format.symm, ?_⟩
  rw [h.codeItems_fillLine (isCodeItem_hexadecimal hdigits).isPlain]
  exact .statement h.kind (Grammar.ofText?_eq_some_iff.mp h.name) hallows
    (.cons (.hexadecimal (Or.inr rfl) (Or.inl rfl) hdigits hle) .nil)

/-- A branch to an address has the word of a branch to a label there. -/
theorem Instruction.encode_literal_target
    {symbols : SymbolTable} {name : String} {address : Nat}
    (h : symbols.address? name = some address) (mnemonic : Mnemonic) (line : Nat) :
    encode symbols ⟨mnemonic, [.immediate address .hexadecimal], .branch, line⟩ =
      encode symbols ⟨mnemonic, [.label name], .branch, line⟩ := by
  have hfield : addressField symbols
      ⟨mnemonic, [.immediate address .hexadecimal], .branch, line⟩ =
        addressField symbols ⟨mnemonic, [.label name], .branch, line⟩ := by
    simp [addressField, h]
  simp only [encode, branchWord, hfield]
  rfl

/-- A branch refuses a literal that is too great. -/
theorem Statement.take_hexadecimal_of_lt
    {symbols : SymbolTable} {mnemonic : Mnemonic} {token : Token} {number : Nat}
    {digits : List Char} (hlayouts : mnemonic.layouts = [[.target]])
    (htoken : token.toLexeme = ⟨String.ofList ('0' :: 'x' :: digits), number⟩)
    (hdigits : Grammar.IsNumeral Numeral.isHexDigit digits)
    (hlt : 0x3FF < Numeral.value 16 digits) :
    take symbols ⟨mnemonic, number, number, [], mnemonic.layouts⟩ token =
      .error (.outOfRange number (String.ofList ('0' :: 'x' :: digits)) .hexadecimal) := by
  have hkind : token.kind = .hexadecimal :=
    Grammar.kind_eq_of_admits htoken (by decide)
      (Token.isHexadecimal_of_isNumeral hdigits)
  have hoperand : Operand.ofToken? token =
      some (.immediate (Numeral.value 16 digits) .hexadecimal) := by
    simp [Operand.ofToken?, hkind, htoken]
  have hinvalid : ¬(Operand.immediate (Numeral.value 16 digits) .hexadecimal).isValid
      symbols = true := by
    rw [Grammar.isValid_immediate_iff, Radix.greatest]
    omega
  have hopen : mnemonic.layouts.filterMap (Layout.after? token.kind) ≠ [] := by
    rw [hlayouts, hkind]
    decide
  have hfault : invalidOperand token
      (.immediate (Numeral.value 16 digits) .hexadecimal) =
        .outOfRange token.line token.text token.kind :=
    rfl
  rw [take_of_filterMap_ne_nil hoperand hopen, if_neg hinvalid, hfault, hkind, htoken]

namespace AssembledFrom

variable {place : Place} {item digits : List Char} {assembly : Assembly}

/-- An item that is bound to an address is a name. -/
theorem isName_of_address?
    {source : String} {address : Nat} (h : AssembledFrom source assembly)
    (haddress : assembly.symbols.address? (String.ofList item) = some address) :
    Token.isName item = true := by
  obtain ⟨symbol, hsymbol, hbinding⟩ :=
    List.mem_map.mp (SymbolTable.address?_eq_some_iff.mp haddress)
  have hname : symbol.name = Text.lower (String.ofList item) :=
    congrArg Prod.fst hbinding
  have hstored := (h.isStoredName hsymbol).1
  rwa [hname, Text.toList_lower, String.toList_ofList, Token.isName_map_toLower]
    at hstored

/-- The program of a source around one line: another item on the line changes its
instruction only. -/
theorem exists_program_of_fill
    (h : AssembledFrom (place.fill item) assembly) (hitem : IsPlain item) :
    ∃ first instruction last, assembly.program = first ++ instruction :: last ∧
      Instruction.Written assembly.symbols
        (keptTokens place.line (items (place.fillLine item))) instruction ∧
        ∀ other replaced, IsCodeItem other →
          Instruction.Written assembly.symbols
              (keptTokens place.line (items (place.fillLine other))) replaced →
            AssembledFrom (place.fill other)
              ⟨first ++ replaced :: last, assembly.symbols,
                Word.ofProgram assembly.symbols (first ++ replaced :: last)⟩ := by
  have hprogram := h.program
  rw [place.codeLines_fill hitem] at hprogram
  obtain ⟨first, instruction, last, heq, hfirst, hwritten, hlast⟩ :=
    exists_split_of_forall₂ hprogram
  refine ⟨first, instruction, last, heq, hwritten, ?_⟩
  intro other replaced hother hreplaced
  exact
    { classified := place.classified_fill hitem hother h.classified
      symbols := h.symbols.trans (place.symbolsFrom_fill hitem hother.isPlain)
      program := by
        rw [place.codeLines_fill hother.isPlain]
        exact List.rel_append hfirst (.cons hreplaced hlast)
      words := rfl }

/-- The instruction of a line with a label at the place of a branch operand. -/
theorem exists_followsBranch
    {instruction : Instruction} (h : AssembledFrom (place.fill item) assembly)
    (hname : Token.isName item = true) (hbranch : place.IsBranchOperand)
    (hwritten : Instruction.Written assembly.symbols
      (keptTokens place.line (items (place.fillLine item))) instruction) :
    ∃ head mnemonic, place.FollowsBranch head mnemonic ∧
      instruction = ⟨mnemonic, [.label (String.ofList item)], .branch, place.line⟩ := by
  have hitem := isPlain_of_isName hname
  obtain ⟨head, mnemonic, hstart, hmnemonic, hformat⟩ := hbranch
  obtain ⟨hnumber, hlayout, hstatement⟩ :=
    (@Grammar.written_keptTokens_iff _ _ h.map_name_entries
      (place.fillLine item, place.line)
      (h.classified _ (place.fillLine_mem_lines hitem)) instruction).mp hwritten
  rw [place.codeItems_fillLine hitem, hstart, List.singleton_append] at hstatement
  obtain ⟨mnemonic', operands, format, number⟩ := instruction
  dsimp only at hnumber hlayout hstatement
  obtain rfl : mnemonic' = mnemonic := by
    rcases hstatement with ⟨-, hupper, -, -⟩
    rw [Grammar.ofText?_eq_some_iff.mpr hupper] at hmnemonic
    exact Option.some.inj hmnemonic
  obtain ⟨hrest, rfl, hlayouts, hkind⟩ := hstatement.branch_cases hformat hname
  refine ⟨head, mnemonic', ⟨hstart, hrest, hkind, hmnemonic, hformat, hlayouts⟩, ?_⟩
  rw [hlayout, hformat, hnumber]

/-- A literal with the address of a label can take the place of the label. -/
theorem exists_fill_hexadecimal
    (h : AssembledFrom (place.fill item) assembly)
    (hbranch : place.IsBranchOperand)
    (haddress : assembly.symbols.address? (String.ofList item) =
      some (Numeral.value 16 digits))
    (hdigits : Grammar.IsNumeral Numeral.isHexDigit digits)
    (hle : Numeral.value 16 digits ≤ 0x3FF) :
    ∃ replaced, AssembledFrom (place.fill ('0' :: 'x' :: digits)) replaced ∧
      replaced.words = assembly.words ∧ replaced.symbols = assembly.symbols := by
  have hname := h.isName_of_address? haddress
  have hitem := isPlain_of_isName hname
  have hliteral := isCodeItem_hexadecimal hdigits
  obtain ⟨first, instruction, last, hprogram, hwritten, hreplace⟩ :=
    h.exists_program_of_fill hitem
  obtain ⟨head, mnemonic, hfollows, rfl⟩ :=
    h.exists_followsBranch hname hbranch hwritten
  have hclassified := place.classified_fill hitem hliteral h.classified _
    (place.fillLine_mem_lines hliteral.isPlain)
  have hbranchWritten := (Grammar.written_keptTokens_iff h.map_name_entries hclassified _).mpr
    (hfollows.writesInstruction hdigits hle _)
  refine ⟨_, hreplace _ _ hliteral hbranchWritten, ?_, rfl⟩
  simp only [h.words, hprogram, Word.ofProgram, List.map_append, List.map_cons,
    Instruction.encode_literal_target haddress]

/-- A literal that is too great is refused in the place of a label. -/
theorem assemble_fill_hexadecimal
    (h : AssembledFrom (place.fill item) assembly)
    (hbranch : place.IsBranchOperand)
    (haddress : assembly.symbols.address? (String.ofList item) =
      some (Numeral.value 16 digits))
    (hdigits : Grammar.IsNumeral Numeral.isHexDigit digits)
    (hlt : 0x3FF < Numeral.value 16 digits) :
    assemble (place.fill ('0' :: 'x' :: digits)) =
      .error (.outOfRange place.line (String.ofList ('0' :: 'x' :: digits))
        .hexadecimal) := by
  have hname := h.isName_of_address? haddress
  have hitem := isPlain_of_isName hname
  have hliteral := isCodeItem_hexadecimal hdigits
  obtain ⟨_, instruction, _, -, hwritten, -⟩ := h.exists_program_of_fill hitem
  obtain ⟨head, mnemonic, hfollows, -⟩ := h.exists_followsBranch hname hbranch hwritten
  have hclassified := place.classified_fill hitem hliteral h.classified
  refine assemble_eq_error_of_line hclassified
    (h.symbols.trans (place.symbolsFrom_fill hitem hliteral.isPlain))
    (place.lines_fill hliteral.isPlain) ?_ ?_
  · intro line hline hcode
    apply h.exists_written
    rw [place.codeLines_fill hitem]
    exact List.mem_append_left _ (List.mem_filter.mpr ⟨hline, hcode⟩)
  · intro draft hnone
    rw [place.length_linesAbove]
    refine Draft.exists_run_lineTokens_eq_halted
      (hfollows.codeItems_fillLine hliteral.isPlain)
      (hclassified _ (place.fillLine_mem_lines hliteral.isPlain))
      hfollows.kind hfollows.name ?_ hnone
    intro token htoken
    exact Statement.take_hexadecimal_of_lt hfollows.layouts htoken hdigits hlt

end AssembledFrom

/-! ## Every target has a place -/

namespace Grammar

variable {labels : List String} {layout : Layout} {mnemonic : Mnemonic}

theorem WritesOperands.target_mem
    {found : List (List Char)} {operands : List Operand} {name : String}
    (h : WritesOperands labels layout found operands) (hlabel : .label name ∈ operands) :
    .target ∈ layout := by
  induction h with
  | nil => exact absurd hlabel List.not_mem_nil
  | cons hoperand _ ih =>
      rcases List.mem_cons.mp hlabel with rfl | hlabel
      · cases hoperand
        exact List.mem_cons_self
      · exact List.mem_cons_of_mem _ (ih hlabel)

theorem Allows.eq_of_target_mem
    (h : Allows mnemonic layout) (htarget : .target ∈ layout) :
    layout = [.target] ∧ mnemonic.format = .branch := by
  cases h with
  | branch hformat => exact ⟨rfl, hformat⟩
  | _ => simp at htarget

end Grammar

/-- The label that an instruction names stands in the source, at the place of the
operand of a branch on the line of the instruction. -/
theorem AssembledFrom.exists_place
    {source name : String} {assembly : Assembly} {instruction : Instruction}
    (h : AssembledFrom source assembly) (hmem : instruction ∈ assembly.program)
    (hlabel : .label name ∈ instruction.operands) :
    ∃ place : Place, place.fill name.toList = source ∧
      place.line = instruction.line ∧ place.IsBranchOperand := by
  obtain ⟨line, hline, hwrites⟩ :=
    exists_mem_left_of_forall₂ (Grammar.assembledFrom_iff.mp h).2.program hmem
  have hnumbered := (List.mem_filter.mp hline).1
  obtain ⟨hnumber, -, hstatement⟩ := hwrites
  generalize hitems : codeItems line.1 = found at hstatement
  generalize instruction.operands = operands at hlabel hstatement
  generalize instruction.mnemonic = mnemonic at hstatement
  rcases hstatement with @⟨head, others, _, layout, _, hkind, hupper, hallows, hoperands⟩
  obtain ⟨rfl, hformat⟩ := hallows.eq_of_target_mem (hoperands.target_mem hlabel)
  rcases hoperands with _ | @⟨_, _, item, _, operand, _, hoperand, hnone⟩
  cases hnone
  obtain rfl : operand = .label name := (List.mem_singleton.mp hlabel).symm
  obtain rfl : item = name.toList := by
    cases hoperand
    exact String.toList_ofList.symm
  -- The labels before the operand belong to the front of the line.
  obtain ⟨front, back, hsplit, hfront, hback⟩ := List.filter_eq_append_iff.mp
    (show codeItems line.1 = [head] ++ [name.toList] from hitems)
  obtain ⟨between, after, rfl, hbetween, -, -⟩ := List.filter_eq_cons_iff.mp hback
  obtain ⟨place, hfill, hplace, hstart⟩ := Source.exists_place hnumbered
    (show items line.1 = (front ++ between) ++ name.toList :: after by
      rw [hsplit, List.append_assoc])
  refine ⟨place, hfill, hplace.trans hnumber.symm, head, mnemonic, ?_,
    Grammar.ofText?_eq_some_iff.mpr hupper, hformat⟩
  rw [codeItems, hstart, List.filter_append, hfront, List.filter_eq_nil_iff.mpr hbetween,
    List.append_nil]

/-! ## Labels and literals -/

/-- A label in the place of a branch operand can be replaced by a hexadecimal
literal of its address, and words and symbols stay the same, as long as the address
is at most `0x3FF`.  The literal of a greater address is refused on its line.  Every
label that an instruction names stands at such a place. -/
theorem label_target_agrees_with_literal_target
    {source : String} {assembly : Assembly} (h : assemble source = .ok assembly) :
    (∀ instruction ∈ assembly.program, ∀ name, .label name ∈ instruction.operands →
      ∃ place : Place, place.fill name.toList = source ∧
        place.line = instruction.line ∧ place.IsBranchOperand) ∧
      ∀ (place : Place) (item digits : List Char) (address : Nat),
        place.fill item = source → place.IsBranchOperand →
          assembly.symbols.address? (String.ofList item) = some address →
            Grammar.IsNumeral Numeral.isHexDigit digits →
              Numeral.value 16 digits = address →
                (address ≤ 0x3FF →
                  ∃ replaced, assemble (place.fill ('0' :: 'x' :: digits)) =
                      .ok replaced ∧
                    replaced.words = assembly.words ∧
                      replaced.symbols = assembly.symbols) ∧
                  (0x3FF < address →
                    assemble (place.fill ('0' :: 'x' :: digits)) =
                      .error (.outOfRange place.line
                        (String.ofList ('0' :: 'x' :: digits)) .hexadecimal)) := by
  have hassembled := assemble_eq_ok_iff_assembledFrom.mp h
  refine ⟨fun instruction hmem name hlabel => hassembled.exists_place hmem hlabel, ?_⟩
  rintro place item digits address rfl hbranch haddress hdigits rfl
  constructor
  · intro hle
    obtain ⟨replaced, hreplaced, hsame⟩ :=
      hassembled.exists_fill_hexadecimal hbranch haddress hdigits hle
    exact ⟨replaced, assemble_eq_ok_iff_assembledFrom.mpr hreplaced, hsame⟩
  · intro hlt
    exact hassembled.assemble_fill_hexadecimal hbranch haddress hdigits hlt

/-- A label two instructions on is replaced before a comment, and one after 1024
instructions cannot be replaced. -/
theorem label_target_agrees_with_literal_target_far :
    (∃ (place : Place) (assembly replaced : Assembly),
        place.fill "b".toList = "a: NOP\nJMP b ; x\nb: HLT" ∧ place.IsBranchOperand ∧
          assemble "a: NOP\nJMP b ; x\nb: HLT" = .ok assembly ∧
            assembly.symbols.address? "b" = some 2 ∧
              assemble "a: NOP\nJMP 0x2 ; x\nb: HLT" = .ok replaced ∧
                replaced.words = assembly.words ∧
                  replaced.symbols = assembly.symbols) ∧
      ∃ (place : Place) (assembly : Assembly),
        place.fill "far".toList = longJump 1024 ∧ place.IsBranchOperand ∧
          assemble (longJump 1024) = .ok assembly ∧
            assembly.symbols.address? "far" = some 1024 ∧
              assemble (place.fill "0x400".toList) =
                .error (.outOfRange place.line "0x400" .hexadecimal) := by
  constructor
  · have hview : (assemble "a: NOP\nJMP b ; x\nb: HLT").toOption.map
        (fun assembly => assembly.symbols.address? "b") = some (some 2) := by
      decide +kernel
    obtain ⟨assembly, hassembly, haddress⟩ := exists_assembly_of_toOption_eq hview
    let place : Place :=
      { above := "a: NOP\n".toList
        start := "JMP ".toList
        rest := " ; x".toList
        below := "\nb: HLT".toList
        above_ends := by simp
        lineBreak_not_mem_start := by decide
        comment_not_mem_start := by decide
        start_ends := by
          rintro c ⟨⟩
          decide
        rest_starts := by
          rintro c ⟨⟩
          decide
        lineBreak_not_mem_rest := by decide
        below_starts := by simp }
    have hbranch : place.IsBranchOperand :=
      ⟨"JMP".toList, .jmp, by decide, by decide +kernel, rfl⟩
    have hdigits : Grammar.IsNumeral Numeral.isHexDigit ['2'] :=
      Grammar.isNumeral_iff.mpr (by decide)
    have hfill : place.fill "b".toList = "a: NOP\nJMP b ; x\nb: HLT" := by decide
    obtain ⟨hreplaced, -⟩ := (label_target_agrees_with_literal_target hassembly).2 place
      "b".toList ['2'] 2 hfill hbranch haddress hdigits (by decide)
    obtain ⟨replaced, hok, hsame⟩ := hreplaced (by decide)
    exact ⟨place, assembly, replaced, hfill, hbranch, hassembly, haddress, hok, hsame⟩
  · have hfollows := follows_longJump 1024
    obtain ⟨assembly, hdescribes⟩ := Grammar.exists_describes_of_follows hfollows
    have hassembly := Grammar.assemble_eq_ok_iff_describes.mpr ⟨hfollows, hdescribes⟩
    obtain ⟨instruction, hmem, hoperands⟩ := exists_jump_of_describes_longJump hdescribes
    have haddress : assembly.symbols.address? "far" = some 1024 := by
      rw [SymbolTable.address?, SymbolTable.find?, hdescribes.symbols,
        symbolsFrom_longJump]
      decide +kernel
    obtain ⟨hplaces, hreplaced⟩ := label_target_agrees_with_literal_target hassembly
    obtain ⟨place, hfill, -, hbranch⟩ :=
      hplaces instruction hmem "far" (by simp [hoperands])
    have hdigits : Grammar.IsNumeral Numeral.isHexDigit ['4', '0', '0'] :=
      Grammar.isNumeral_iff.mpr (by decide)
    obtain ⟨-, hrefused⟩ := hreplaced place "far".toList ['4', '0', '0'] 1024 hfill
      hbranch haddress hdigits (by decide)
    exact ⟨place, assembly, hfill, hbranch, hassembly, haddress, hrefused (by decide)⟩

end Pom8
