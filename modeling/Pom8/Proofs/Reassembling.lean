import Mathlib.Data.List.Nodup
import Mathlib.Data.List.Perm.Basic
import Pom8.Proofs.Fields
import Pom8.Proofs.Printing

/-!
# Printed programs

A program is printed with the labels of each address in front of the
instruction at it.  Every line of this text is read as what it was printed
from, and the lines of code count the addresses again, so the text is assembled
to the same words and instructions under the same labels.
-/

namespace Pom8

/-! ## Printing -/

/-- The name of a symbol with its address. -/
def Symbol.binding (symbol : Symbol) : String × Nat :=
  (symbol.name, symbol.address)

/-- The names that are bound to an address. -/
def SymbolTable.namesAt (table : SymbolTable) (address : Nat) : List String :=
  (table.entries.filter fun symbol => symbol.address == address).map Symbol.name

/-- The instruction without the number of its line. -/
def Instruction.unnumbered (instruction : Instruction) : Instruction :=
  { instruction with line := 0 }

namespace Source

/-- The line that defines a label. -/
def labelLine (name : String) : List Char :=
  name.toList ++ [':']

/-- The lines of instructions from an address on, each after the lines of the
labels of its address; the labels of the address after the last one follow. -/
def printedLines (labels : Nat → List String) (address : Nat) :
    List Instruction → List (List Char)
  | [] => (labels address).map labelLine
  | instruction :: rest =>
    (labels address).map labelLine ++
      instruction.text.toList :: printedLines labels (address + 1) rest

/-- The text of a program with the labels of its addresses. -/
def printed (labels : Nat → List String) (program : List Instruction) : String :=
  ofLines (printedLines labels 0 program)

/-! ## The lines of labels -/

/-- The names of labels as symbol tables keep them. -/
def IsStoredName (name : String) : Prop :=
  Token.isName name.toList = true ∧ Text.lower name = name

section Labels

variable {name : String}

theorem isLabel_labelLine (h : IsStoredName name) :
    Token.isLabel (labelLine name) = true :=
  Token.isLabel_iff.mpr ⟨name.toList, rfl, h.1⟩

theorem isItemCharacter_labelLine (h : IsStoredName name) :
    ∀ c ∈ labelLine name, isItemCharacter c = true := by
  intro c hc
  rcases List.mem_append.mp hc with hc | hc
  · exact (isPlain_of_isName h.1).isItemCharacter c hc
  · rw [List.mem_singleton.mp hc]
    decide

theorem items_labelLine (h : IsStoredName name) :
    items (labelLine name) = [labelLine name] :=
  items_eq_singleton (by simp [labelLine]) (isItemCharacter_labelLine h)

theorem isCode_labelLine (h : IsStoredName name) :
    isCode (labelLine name) = false := by
  simp [isCode, items_labelLine h, isLabel_labelLine h]

theorem definedSymbols_labelLine (h : IsStoredName name) (number address : Nat) :
    definedSymbols number address (items (labelLine name)) =
      [⟨name, address, number⟩] := by
  have hname : labelName (labelLine name) = name := by
    rw [labelName, labelLine, List.dropLast_concat, String.ofList_toList]
  simp [definedSymbols, items_labelLine h, isLabel_labelLine h, hname, h.2]

/-- Lines of labels bind their names to one address. -/
theorem map_binding_labelLines
    {names : List String} (h : ∀ name ∈ names, IsStoredName name)
    (address number : Nat) (rest : List (List Char × Nat)) :
    (symbolsFrom address ((names.map labelLine).zipIdx number ++ rest)).map
        Symbol.binding =
      (names.map fun name => (name, address)) ++
        (symbolsFrom address rest).map Symbol.binding := by
  induction names generalizing number with
  | nil => rfl
  | cons name names ih =>
      rw [List.forall_mem_cons] at h
      rw [List.map_cons, List.zipIdx_cons, List.cons_append, symbolsFrom,
        definedSymbols_labelLine h.1, isCode_labelLine h.1, List.map_append,
        if_neg Bool.false_ne_true, ih h.2]
      rfl

end Labels

/-! ## The lines of instructions -/

section Instructions

variable {instruction : Instruction}

theorem codeItems_text (h : instruction.IsPrintable) :
    codeItems instruction.text.toList = instruction.printedItems := by
  rw [codeItems, h.items_text, List.filter_eq_self]
  intro item hitem
  rw [(h item hitem).isPlain.isLabel_eq_false]
  rfl

theorem isCode_text (h : instruction.IsPrintable) :
    isCode instruction.text.toList = true := by
  rw [isCode_iff, codeItems_text h]
  exact List.cons_ne_nil _ _

theorem definedSymbols_text
    (h : instruction.IsPrintable) (number address : Nat) :
    definedSymbols number address (items instruction.text.toList) = [] := by
  rw [definedSymbols, h.items_text, List.map_eq_nil_iff, List.filter_eq_nil_iff]
  intro item hitem
  rw [(h item hitem).isPlain.isLabel_eq_false]
  exact Bool.false_ne_true

end Instructions

/-! ## The lines of a printed program -/

section Program

variable {labels : Nat → List String} {program : List Instruction}

/-- The lines of code are those of the instructions. -/
theorem filter_isCode_printedLines
    (hlabels : ∀ address, ∀ name ∈ labels address, IsStoredName name)
    (hprogram : ∀ instruction ∈ program, instruction.IsPrintable)
    (address : Nat) :
    (printedLines labels address program).filter isCode =
      program.map fun instruction => instruction.text.toList := by
  have hnone : ∀ address, ((labels address).map labelLine).filter isCode = [] := by
    intro address
    rw [List.filter_eq_nil_iff]
    intro line hline
    obtain ⟨name, hname, rfl⟩ := List.mem_map.mp hline
    rw [isCode_labelLine (hlabels address name hname)]
    exact Bool.false_ne_true
  induction program generalizing address with
  | nil => exact hnone address
  | cons instruction rest ih =>
      rw [List.forall_mem_cons] at hprogram
      rw [printedLines, List.filter_append, hnone, List.nil_append,
        List.filter_cons_of_pos (isCode_text hprogram.1), ih hprogram.2]
      rfl

/-- Each label is bound to the address that it was printed for. -/
theorem map_binding_printedLines
    (hlabels : ∀ address, ∀ name ∈ labels address, IsStoredName name)
    (hprogram : ∀ instruction ∈ program, instruction.IsPrintable)
    (address number : Nat) :
    (symbolsFrom address ((printedLines labels address program).zipIdx number)).map
        Symbol.binding =
      (List.range' address (program.length + 1)).flatMap fun place =>
        (labels place).map fun name => (name, place) := by
  induction program generalizing address number with
  | nil =>
      have hbinding := map_binding_labelLines (hlabels address) address number []
      rw [List.append_nil] at hbinding
      rw [printedLines, hbinding]
      simp [symbolsFrom]
  | cons instruction rest ih =>
      rw [List.forall_mem_cons] at hprogram
      have hrange : List.range' address (rest.length + 1 + 1) =
          address :: List.range' (address + 1) (rest.length + 1) := List.range'_succ
      rw [printedLines, List.zipIdx_append, map_binding_labelLines (hlabels address),
        List.zipIdx_cons, symbolsFrom, definedSymbols_text hprogram.1,
        if_pos (isCode_text hprogram.1), List.nil_append, ih hprogram.2,
        List.length_cons, hrange, List.flatMap_cons]

theorem forall_mem_printedLines
    {property : List Char → Prop}
    (hlabels : ∀ address, ∀ name ∈ labels address, property (labelLine name))
    (hprogram : ∀ instruction ∈ program, property instruction.text.toList)
    (address : Nat) :
    ∀ line ∈ printedLines labels address program, property line := by
  have hnames : ∀ address, ∀ line ∈ (labels address).map labelLine,
      property line := by
    intro address line hline
    obtain ⟨name, hname, rfl⟩ := List.mem_map.mp hline
    exact hlabels address name hname
  induction program generalizing address with
  | nil => exact hnames address
  | cons instruction rest ih =>
      rw [List.forall_mem_cons] at hprogram
      rw [printedLines, List.forall_mem_append, List.forall_mem_cons]
      exact ⟨hnames address, hprogram.1, ih hprogram.2 (address + 1)⟩

theorem lines_printed
    (hlabels : ∀ address, ∀ name ∈ labels address, IsStoredName name)
    (hprogram : ∀ instruction ∈ program, instruction.IsPrintable) :
    lines (printed labels program) = printedLines labels 0 program := by
  apply lines_ofLines
  apply forall_mem_printedLines
  · intro address name hname hmem
    have hcharacter := isItemCharacter_labelLine (hlabels address name hname) '\n' hmem
    exact absurd hcharacter (by decide)
  · intro instruction hinstruction
    exact (hprogram instruction hinstruction).lineBreak_not_mem_text

theorem classified_of_mem_printedLines
    (hlabels : ∀ address, ∀ name ∈ labels address, IsStoredName name)
    (hprogram : ∀ instruction ∈ program, instruction.IsPrintable) :
    ∀ line ∈ printedLines labels 0 program, ∀ item ∈ items line, Classified item := by
  apply forall_mem_printedLines
  · intro address name hname item hitem
    have hstored := hlabels address name hname
    rw [items_labelLine hstored, List.mem_singleton] at hitem
    rw [hitem]
    exact ⟨.label, kind_eq_label_iff.mpr (isLabel_labelLine hstored)⟩
  · intro instruction hinstruction item hitem
    have hprintable := hprogram instruction hinstruction
    rw [hprintable.items_text] at hitem
    exact (hprintable item hitem).classified

theorem map_fst_codeLines (source : String) :
    (codeLines source).map Prod.fst = (lines source).filter isCode := by
  have hlines : (numberedLines source).map Prod.fst = lines source :=
    List.zipIdx_map_fst 1 (lines source)
  rw [← hlines, List.filter_map]
  rfl

end Program

end Source

/-! ## The map from names to addresses -/

namespace SymbolTable

variable {table : SymbolTable}

theorem address?_eq_some_iff {name : String} {address : Nat} :
    table.address? name = some address ↔
      (Text.lower name, address) ∈ table.entries.map Symbol.binding := by
  rw [address?, Option.map_eq_some_iff, List.mem_map]
  constructor
  · rintro ⟨symbol, hfind, haddress⟩
    have hname : symbol.name = Text.lower name := by
      simpa using List.find?_some hfind
    exact ⟨symbol, List.mem_of_find?_eq_some hfind, Prod.ext hname haddress⟩
  · rintro ⟨symbol, hmem, hbinding⟩
    obtain ⟨hname, haddress⟩ := Prod.mk.inj hbinding
    cases hfind : table.find? name with
    | none =>
        exact absurd (List.mem_map.mpr ⟨symbol, hmem, hname⟩)
          (find?_eq_none_iff.mp hfind)
    | some other =>
        have hother : other.name = Text.lower name := by
          simpa using List.find?_some hfind
        have heq : other = symbol :=
          List.inj_on_of_nodup_map table.names_nodup
            (List.mem_of_find?_eq_some hfind) hmem (hother.trans hname.symm)
        exact ⟨other, rfl, heq ▸ haddress⟩

/-- Tables with the same bindings give every name the same address. -/
theorem address?_eq_of_perm
    {other : SymbolTable}
    (h : (table.entries.map Symbol.binding).Perm (other.entries.map Symbol.binding))
    (name : String) : table.address? name = other.address? name := by
  apply Option.ext
  intro address
  rw [address?_eq_some_iff, address?_eq_some_iff, h.mem_iff]

theorem map_namesAt (table : SymbolTable) (address : Nat) :
    ((table.namesAt address).map fun name => (name, address)) =
      (table.entries.filter fun symbol => symbol.address == address).map
        Symbol.binding := by
  rw [namesAt, List.map_map]
  apply List.map_congr_left
  intro symbol hsymbol
  have haddress : symbol.address = address := by
    simpa using (List.mem_filter.mp hsymbol).2
  rw [Function.comp_apply, Symbol.binding, haddress]

/-- The names of consecutive addresses are those of the symbols between them. -/
theorem flatMap_namesAt_perm (table : SymbolTable) (first count : Nat) :
    ((List.range' first count).flatMap fun address =>
        (table.namesAt address).map fun name => (name, address)).Perm
      ((table.entries.filter fun symbol =>
        first ≤ symbol.address ∧ symbol.address < first + count).map
          Symbol.binding) := by
  induction count generalizing first with
  | zero =>
      have hnone : (table.entries.filter fun symbol =>
          first ≤ symbol.address ∧ symbol.address < first + 0) = [] := by
        rw [List.filter_eq_nil_iff]
        intro symbol _
        simp
      rw [hnone]
      exact .refl _
  | succ count ih =>
      -- The symbols at the first address are set apart from the others.
      have hsplit := List.filter_append_perm
        (fun symbol : Symbol => symbol.address == first)
        (table.entries.filter fun symbol =>
          first ≤ symbol.address ∧ symbol.address < first + (count + 1))
      rw [List.filter_filter, List.filter_filter] at hsplit
      have hfirst : ∀ symbol : Symbol,
          (symbol.address == first && decide (first ≤ symbol.address ∧
            symbol.address < first + (count + 1))) = (symbol.address == first) := by
        intro symbol
        rw [Bool.eq_iff_iff]
        simp only [Bool.and_eq_true, beq_iff_eq, decide_eq_true_eq]
        omega
      have hrest : ∀ symbol : Symbol,
          (!(symbol.address == first) && decide (first ≤ symbol.address ∧
            symbol.address < first + (count + 1))) =
              decide (first + 1 ≤ symbol.address ∧
                symbol.address < first + 1 + count) := by
        intro symbol
        rw [Bool.eq_iff_iff]
        simp only [Bool.and_eq_true, Bool.not_eq_true', beq_eq_false_iff_ne,
          decide_eq_true_eq]
        omega
      simp only [hfirst, hrest] at hsplit
      rw [List.range'_succ, List.flatMap_cons, map_namesAt]
      have htail := (ih (first + 1)).append_left
        ((table.entries.filter fun symbol => symbol.address == first).map
          Symbol.binding)
      rw [← List.map_append] at htail
      exact htail.trans (hsplit.map Symbol.binding)

end SymbolTable

/-! ## Assembling a printed program -/

namespace AssembledFrom

variable {source : String} {assembly : Assembly}

/-- Symbols are kept under names in lower case. -/
theorem isStoredName
    (h : AssembledFrom source assembly) {symbol : Symbol}
    (hmem : symbol ∈ assembly.symbols.entries) :
    Source.IsStoredName symbol.name := by
  rw [h.symbols] at hmem
  obtain ⟨line, -, -, item, hitem, hname⟩ :=
    Source.exists_label_of_mem_symbolsFrom hmem
  obtain ⟨name, rfl, hletters⟩ :=
    Token.isLabel_iff.mp (List.mem_filter.mp hitem).2
  have hlabel : Source.labelName (name ++ [':']) = String.ofList name := by
    rw [Source.labelName, List.dropLast_concat]
  rw [← hname, hlabel]
  refine ⟨?_, Text.lower_lower _⟩
  rwa [Text.toList_lower, String.toList_ofList, Token.isName_map_toLower]

/-- All symbols lie between the first instruction and the end of the program. -/
theorem flatMap_namesAt_perm (h : AssembledFrom source assembly) :
    ((List.range' 0 (assembly.program.length + 1)).flatMap fun address =>
        (assembly.symbols.namesAt address).map fun name => (name, address)).Perm
      (assembly.symbols.entries.map Symbol.binding) := by
  have hperm :=
    assembly.symbols.flatMap_namesAt_perm 0 (assembly.program.length + 1)
  have hall : (assembly.symbols.entries.filter fun symbol =>
      0 ≤ symbol.address ∧
        symbol.address < 0 + (assembly.program.length + 1)) =
          assembly.symbols.entries := by
    rw [List.filter_eq_self]
    intro symbol hmem
    have hle : symbol.address ≤ assembly.program.length := by
      rw [h.address_eq_countP hmem]
      exact List.countP_le_length
    simp only [decide_eq_true_eq]
    omega
  rwa [hall] at hperm

end AssembledFrom

/-- Statements that are written on some lines make up a program with the numbers
of these lines. -/
theorem Grammar.exists_renumbered
    {labels : List String} {lines : List (List Char × Nat)}
    {program : List Instruction}
    (h : List.Forall₂
      (fun line instruction =>
        WritesInstruction labels line { instruction with line := line.2 })
      lines program) :
    ∃ again, List.Forall₂ (WritesInstruction labels) lines again ∧
      again.map Instruction.unnumbered = program.map Instruction.unnumbered := by
  induction h with
  | nil => exact ⟨[], .nil, rfl⟩
  | @cons line instruction _ _ hline _ ih =>
      obtain ⟨again, hagain, hprogram⟩ := ih
      refine ⟨{ instruction with line := line.2 } :: again, .cons hline hagain, ?_⟩
      rw [List.map_cons, hprogram]
      rfl

/-- The words of a program depend on its line numbers not at all, and on its
symbols through their bindings. -/
theorem Word.ofProgram_congr
    {symbols other : SymbolTable} {program again : List Instruction}
    (hprogram :
      again.map Instruction.unnumbered = program.map Instruction.unnumbered)
    (hsymbols : (other.entries.map Symbol.binding).Perm
      (symbols.entries.map Symbol.binding)) :
    ofProgram other again = ofProgram symbols program := by
  have hunnumbered : ∀ (table : SymbolTable) (list : List Instruction),
      ofProgram table (list.map Instruction.unnumbered) = ofProgram table list := by
    intro table list
    rw [ofProgram, List.map_map]
    rfl
  rw [← hunnumbered, hprogram, hunnumbered]
  apply List.map_congr_left
  intro instruction _
  apply Instruction.encode_congr
  intro name _
  exact SymbolTable.address?_eq_of_perm hsymbols name

theorem Grammar.WritesInstruction.writes_text
    {labels other : List String} {line : List Char × Nat} {instruction : Instruction}
    (hlabels : ∀ name ∈ labels, Text.lower name ∈ other.map Text.lower)
    (h : WritesInstruction labels line instruction) (number : Nat) :
    WritesInstruction other (instruction.text.toList, number)
      { instruction with line := number } where
  number := rfl
  format := h.format
  statement := by
    rw [Source.codeItems_text h.statement.isPrintable]
    exact h.statement.writes_text hlabels

section Printed

variable {source : String} {assembly : Assembly} {labels : Nat → List String}

theorem AssembledFrom.exists_writesInstruction
    (h : AssembledFrom source assembly) :
    ∀ instruction ∈ assembly.program, ∃ line,
      Grammar.WritesInstruction (Source.labelNames source) line instruction := by
  intro instruction hinstruction
  obtain ⟨line, -, hline⟩ := exists_mem_left_of_forall₂
    (Grammar.assembledFrom_iff.mp h).2.program hinstruction
  exact ⟨line, hline⟩

theorem AssembledFrom.isPrintable
    (h : AssembledFrom source assembly) :
    ∀ instruction ∈ assembly.program, instruction.IsPrintable := by
  intro instruction hinstruction
  obtain ⟨line, hline⟩ := h.exists_writesInstruction instruction hinstruction
  exact hline.statement.isPrintable

theorem AssembledFrom.isStoredName_of_mem_labels
    (h : AssembledFrom source assembly)
    (hlabels : ∀ address,
      (labels address).Perm (assembly.symbols.namesAt address)) :
    ∀ address, ∀ name ∈ labels address, Source.IsStoredName name := by
  intro address name hname
  have hmem := (hlabels address).mem_iff.mp hname
  obtain ⟨symbol, hsymbol, rfl⟩ := List.mem_map.mp hmem
  exact h.isStoredName (List.mem_filter.mp hsymbol).1

/-- A printed program binds the names of the program to their addresses. -/
theorem AssembledFrom.binding_printed_perm
    (h : AssembledFrom source assembly)
    (hlabels : ∀ address,
      (labels address).Perm (assembly.symbols.namesAt address)) :
    ((Source.symbolsFrom 0
        (Source.numberedLines (Source.printed labels assembly.program))).map
          Symbol.binding).Perm
      (assembly.symbols.entries.map Symbol.binding) := by
  have hstored := h.isStoredName_of_mem_labels hlabels
  rw [Source.numberedLines, Source.lines_printed hstored h.isPrintable,
    Source.map_binding_printedLines hstored h.isPrintable]
  apply List.Perm.trans _ h.flatMap_namesAt_perm
  apply List.Perm.flatMap_left
  intro address _
  exact (hlabels address).map _

/-- The lines of code of a printed program write its instructions, wherever its
labels are defined. -/
theorem AssembledFrom.writesInstruction_printed
    (h : AssembledFrom source assembly)
    (hlabels : ∀ address,
      (labels address).Perm (assembly.symbols.namesAt address))
    {other : List String}
    (hother : ∀ name ∈ Source.labelNames source,
      Text.lower name ∈ other.map Text.lower) :
    List.Forall₂
      (fun line instruction =>
        Grammar.WritesInstruction other line { instruction with line := line.2 })
      (Source.codeLines (Source.printed labels assembly.program))
      assembly.program := by
  have hstored := h.isStoredName_of_mem_labels hlabels
  have htexts := Source.map_fst_codeLines (Source.printed labels assembly.program)
  rw [Source.lines_printed hstored h.isPrintable,
    Source.filter_isCode_printedLines hstored h.isPrintable,
    ← List.forall₂_eq_eq_eq, List.forall₂_map_left_iff,
    List.forall₂_map_right_iff] at htexts
  have hboth := (List.forall₂_and_left _ _).mpr
    ⟨h.exists_writesInstruction, htexts.flip⟩
  apply hboth.flip.imp
  rintro ⟨line, number⟩ instruction ⟨⟨before, hbefore⟩, htext⟩
  obtain rfl : line = instruction.text.toList := htext
  exact hbefore.writes_text hother number

end Printed

/-- A program that is printed with its labels, in any order at each address, is
assembled again: to the same words, to the same instructions but for the numbers
of their lines, and with the same names bound to the same addresses. -/
theorem printed_program_is_assembled_again
    {source : String} {assembly : Assembly} (h : assemble source = .ok assembly)
    {labels : Nat → List String}
    (hlabels : ∀ address,
      (labels address).Perm (assembly.symbols.namesAt address)) :
    ∃ again,
      assemble (Source.printed labels assembly.program) = .ok again ∧
        again.words = assembly.words ∧
        again.program.map Instruction.unnumbered =
          assembly.program.map Instruction.unnumbered ∧
        (again.symbols.entries.map Symbol.binding).Perm
          (assembly.symbols.entries.map Symbol.binding) := by
  have hfrom := assemble_eq_ok_iff_assembledFrom.mp h
  have hstored := hfrom.isStoredName_of_mem_labels hlabels
  have hbinding := hfrom.binding_printed_perm hlabels
  have hnames : ((Source.symbolsFrom 0 (Source.numberedLines
      (Source.printed labels assembly.program))).map Symbol.name).Perm
        (assembly.symbols.entries.map Symbol.name) := by
    have hfst := hbinding.map Prod.fst
    rwa [List.map_map, List.map_map] at hfst
  -- Every label of the source is defined again.
  have hdefined : ∀ name ∈ Source.labelNames source, Text.lower name ∈
      (Source.labelNames (Source.printed labels assembly.program)).map Text.lower := by
    intro name hname
    rw [← Source.map_name_symbolsFrom_numberedLines 0, hnames.mem_iff, hfrom.symbols,
      Source.map_name_symbolsFrom_numberedLines]
    exact List.mem_map_of_mem hname
  obtain ⟨again, hagain, hsame⟩ :=
    Grammar.exists_renumbered (hfrom.writesInstruction_printed hlabels hdefined)
  let symbols : SymbolTable :=
    ⟨_, hnames.nodup_iff.mpr assembly.symbols.names_nodup⟩
  refine ⟨⟨again, symbols, Word.ofProgram symbols again⟩, ?_, ?_, hsame, hbinding⟩
  · rw [assemble_eq_ok_iff_assembledFrom, Grammar.assembledFrom_iff,
      Source.lines_printed hstored hfrom.isPrintable]
    exact ⟨Source.classified_of_mem_printedLines hstored hfrom.isPrintable,
      { program := hagain
        symbols := rfl
        words := rfl }⟩
  · rw [hfrom.words]
    exact Word.ofProgram_congr hsame hbinding

/-- Two labels of one address may change places, and one may stand at the end. -/
theorem printed_program_is_assembled_again_loop :
    ∃ assembly again,
      assemble "top: loop: ANDI R1 0x1f ; mask\nBRZ loop\nend:" = .ok assembly ∧
        Source.printed (fun address => (assembly.symbols.namesAt address).reverse)
            assembly.program =
          "loop:\ntop:\nANDI r1, 0x01F\nBRZ loop\nend:\n" ∧
        assemble "loop:\ntop:\nANDI r1, 0x01F\nBRZ loop\nend:\n" = .ok again ∧
        again.words = assembly.words ∧
        again.program.map Instruction.unnumbered =
          assembly.program.map Instruction.unnumbered ∧
        (again.symbols.entries.map Symbol.binding).Perm
          (assembly.symbols.entries.map Symbol.binding) := by
  have hview :
      (assemble "top: loop: ANDI R1 0x1f ; mask\nBRZ loop\nend:").toOption.map
          (fun assembly => Source.printed
            (fun address => (assembly.symbols.namesAt address).reverse)
            assembly.program) =
        some "loop:\ntop:\nANDI r1, 0x01F\nBRZ loop\nend:\n" := by
    decide +kernel
  obtain ⟨assembly, hassembly, hprinted⟩ := exists_assembly_of_toOption_eq hview
  obtain ⟨again, hagain, hsame⟩ := printed_program_is_assembled_again hassembly
    (fun address => List.reverse_perm (assembly.symbols.namesAt address))
  exact ⟨assembly, again, hassembly, hprinted, hprinted ▸ hagain, hsame⟩

end Pom8
