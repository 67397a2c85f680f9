import Pom8.Proofs.CaseFolding
import Pom8.Proofs.Faults
import Pom8.Proofs.Lookahead
import Pom8.Proofs.Reassembling

/-!
# Labels that can be referred to

A label is defined by an item with a colon and referred to by an item without
one, and the two items are told apart by different shapes.  A name that is also
the name of a register can be defined, but a reference to it is read as the
register.  Every other name reaches its label, in any case of its letters, even
if it is the name of a mnemonic.
-/

namespace Pom8

open Source

/-! ## Statements that are refused -/

/-- A statement is refused at its first operand. -/
theorem Draft.exists_run_eq_halted_of_take
    {symbols : SymbolTable} {draft : Draft} {head token : Token}
    {mnemonic : Mnemonic} {fault : Fault}
    (hnone : draft.statement = none) (hkind : head.kind = .mnemonic)
    (hname : Mnemonic.ofText? head.text = some mnemonic)
    (hnewline : token.kind ≠ .newline)
    (htake : Statement.take symbols
      ⟨mnemonic, head.line, head.line, [], mnemonic.layouts⟩ token = .error fault)
    (rest : List Token) :
    ∃ last, Progress.run (step symbols) draft (head :: token :: rest) =
      .halted last fault := by
  let statement : Statement :=
    ⟨mnemonic, head.line, head.line, [], mnemonic.layouts⟩
  have hstart : step symbols draft head =
      .running { draft with statement := some statement } :=
    (step_of_none hnone).mpr
      ⟨_, Statement.start_eq_ok_iff.mpr ⟨hkind, mnemonic, hname, rfl⟩, rfl⟩
  have hrefused : step symbols { draft with statement := some statement } token =
      .halted { draft with statement := some statement } fault := by
    simp only [step, hnewline, false_and, if_false, statement, htake]
  have hhalted : Progress.run (step symbols) draft [head, token] =
      .halted { draft with statement := some statement } fault := by
    rw [Progress.run_cons, hstart]
    exact (Progress.run_singleton _ token).trans hrefused
  exact ⟨_, Progress.run_append_of_halted hhalted rest⟩

/-- Lines whose code can be read leave no statement under way. -/
theorem Draft.exists_run_lineTokens
    {symbols : SymbolTable} {lines : List (List Char × Nat)}
    (h : ∀ line ∈ lines, isCode line.1 = true → ∃ instruction,
      Instruction.Written symbols (keptTokens line.2 (items line.1)) instruction) :
    ∃ draft, Progress.run (step symbols) {} (lines.flatMap lineTokens) =
      .running draft ∧ draft.statement = none := by
  have hwritten : ∀ line ∈ lines.filter (fun line => isCode line.1),
      ∃ instruction, Instruction.Written symbols (lineGroup line).1 instruction := by
    intro line hline
    obtain ⟨hmem, hcode⟩ := List.mem_filter.mp hline
    exact h line hmem hcode
  obtain ⟨program, hprogram⟩ := exists_forall₂_of_forall_mem hwritten
  rw [← List.forall₂_map_left_iff, ← Function.comp_def, ← List.map_map] at hprogram
  rw [flatMap_lineTokens]
  apply exists_run_joinGroups _ hprogram rfl
  intro group hgroup
  obtain ⟨line, -, rfl⟩ := List.mem_map.mp hgroup
  rfl

/-- A source is refused with the fault of its first line that is refused. -/
theorem assemble_eq_error_of_line
    {source : String} {symbols : SymbolTable} {fault : Fault}
    (hclassified : ∀ line ∈ lines source, ∀ item ∈ items line, Classified item)
    (hentries : symbols.entries = symbolsFrom 0 (numberedLines source))
    {before after : List (List Char)} {line : List Char}
    (hlines : lines source = before ++ line :: after)
    (hbefore : ∀ line ∈ before.zipIdx 1, isCode line.1 = true → ∃ instruction,
      Instruction.Written symbols (keptTokens line.2 (items line.1)) instruction)
    (hline : ∀ draft : Draft, draft.statement = none → ∃ last,
      Progress.run (Draft.step symbols) draft
        (lineTokens (line, before.length + 1)) = .halted last fault) :
    assemble source = .error fault := by
  obtain ⟨scan, hscan, rfl⟩ := Scan.exists_ofSource_of_entries_eq hclassified hentries
  obtain ⟨draft, hdraft, hnone⟩ := Draft.exists_run_lineTokens hbefore
  obtain ⟨last, hlast⟩ := hline draft hnone
  have htokens : scan.tokens.toList = (numberedLines source).flatMap lineTokens :=
    (Scan.linesRead_of_ofSource hscan).tokens
  refine assemble_eq_error_iff.mpr (Or.inr ⟨scan, last, hscan, ?_⟩)
  rw [htokens, Draft.ofTokens_lineTokens]
  exact run_eq_halted_of_agreeUpTo Draft.ofItems_lineTokens hlines hdraft hlast rfl

/-- The tokens of a line with two items of code. -/
theorem Source.exists_lineTokens_eq_pair
    {line head item : List Char} (hitems : codeItems line = [head, item])
    (hclassified : ∀ item ∈ items line, Classified item) (number : Nat) :
    ∃ first second : Token,
      lineTokens (line, number) = [first, second, Token.lineBreak number] ∧
        first.toLexeme = ⟨String.ofList head, number⟩ ∧
          second.toLexeme = ⟨String.ofList item, number⟩ := by
  have hread := Grammar.readFrom_keptTokens number hclassified
  have hcode : isCode line = true := isCode_iff.mpr (by simp [hitems])
  rw [hitems] at hread
  obtain ⟨first, tokens, hfirst, hrest, hkept⟩ := List.forall₂_cons_left_iff.mp hread
  obtain ⟨second, others, hsecond, hnone, rfl⟩ := List.forall₂_cons_left_iff.mp hrest
  rw [List.forall₂_nil_left_iff] at hnone
  refine ⟨first, second, ?_, hfirst, hsecond⟩
  rw [lineTokens, if_pos hcode, hkept, hnone]
  rfl

/-- A line of a mnemonic and one operand is refused where the operand is. -/
theorem Draft.exists_run_lineTokens_eq_halted
    {symbols : SymbolTable} {draft : Draft} {line head item : List Char}
    {number : Nat} {mnemonic : Mnemonic} {fault : Fault}
    (hitems : codeItems line = [head, item])
    (hclassified : ∀ item ∈ items line, Classified item)
    (hkind : Token.Kind.ofText? (String.ofList head) = some .mnemonic)
    (hname : Mnemonic.ofText? (String.ofList head) = some mnemonic)
    (hrefused : ∀ token : Token, token.toLexeme = ⟨String.ofList item, number⟩ →
      Statement.take symbols ⟨mnemonic, number, number, [], mnemonic.layouts⟩ token =
        .error fault)
    (hnone : draft.statement = none) :
    ∃ last, Progress.run (step symbols) draft (lineTokens (line, number)) =
      .halted last fault := by
  obtain ⟨first, second, htokens, hfirst, hsecond⟩ :=
    exists_lineTokens_eq_pair hitems hclassified number
  have hitem : item ∈ items line := by
    have hcode : item ∈ codeItems line := by simp [hitems]
    exact (List.mem_filter.mp hcode).1
  have hnewline : second.kind ≠ .newline :=
    (kind_ne_of_mem_items hitem (Token.ofText?_of_toLexeme_eq hsecond)).1
  have hmnemonic : first.kind = .mnemonic := by
    have hfirstKind := Token.ofText?_of_toLexeme_eq hfirst
    rw [hkind] at hfirstKind
    exact (Option.some.inj hfirstKind).symm
  have htake := hrefused second hsecond
  have hline : first.line = number := by rw [hfirst]
  rw [← hline] at htake
  rw [htokens]
  exact exists_run_eq_halted_of_take hnone hmnemonic (by rwa [hfirst]) hnewline htake _

/-! ## A jump after a source -/

/-- The jump to a label. -/
def Instruction.jumpTo (name : String) : Instruction :=
  { mnemonic := .jmp, operands := [.label name] }

namespace Source

/-- A source with a jump after it, on a line of its own. -/
def withJump (source name : String) : String :=
  source ++ "\nJMP " ++ name ++ "\n"

theorem withJump_eq_join (source name : String) :
    withJump source name =
      join source (ofLines [(Instruction.jumpTo name).text.toList]) := by
  apply String.toList_inj.mp
  simp [withJump, join, ofLines, lineBreak, Instruction.toList_text,
    Instruction.jumpTo, Mnemonic.name, Operand.text]

/-- The lines of code before a jump are those of the source. -/
theorem mem_codeLines_of_mem_segments
    {source : String} {line : List Char × Nat} (hmem : line ∈ (segments source).zipIdx 1)
    (hcode : isCode line.1 = true) : line ∈ codeLines source := by
  refine List.mem_filter.mpr ⟨?_, hcode⟩
  rcases segments_eq source with hsegments | hsegments
  · rwa [hsegments] at hmem
  · rw [hsegments, List.zipIdx_append, List.mem_append] at hmem
    rcases hmem with hmem | hmem
    · exact hmem
    · rw [List.zipIdx_singleton, List.mem_singleton] at hmem
      rw [hmem, isCode_nil] at hcode
      exact absurd hcode (by decide)

variable {source name : String} (hname : Token.isName name.toList = true)

include hname

theorem isPrintable_jumpTo : (Instruction.jumpTo name).IsPrintable := by
  have hjump : Token.isName "JMP".toList = true := by decide
  intro item hitem
  have hcases : item = "JMP".toList ∨ item = name.toList := by
    simpa [Instruction.printedItems, Instruction.jumpTo, Mnemonic.name,
      Operand.text] using hitem
  rcases hcases with rfl | rfl
  · exact ⟨.mnemonic, hjump, by decide⟩
  · exact ⟨.mnemonic, hname, by decide⟩

theorem codeItems_jumpTo :
    codeItems (Instruction.jumpTo name).text.toList = ["JMP".toList, name.toList] :=
  codeItems_text (isPrintable_jumpTo hname)

theorem lines_jumpTo :
    lines (ofLines [(Instruction.jumpTo name).text.toList]) =
      [(Instruction.jumpTo name).text.toList] := by
  apply lines_ofLines
  intro line hline
  rw [List.mem_singleton.mp hline]
  exact (isPrintable_jumpTo hname).lineBreak_not_mem_text

theorem lines_withJump :
    lines (withJump source name) =
      segments source ++ [(Instruction.jumpTo name).text.toList] := by
  rw [withJump_eq_join, lines_join, lines_jumpTo hname]

/-- A jump defines no label. -/
theorem symbolsFrom_withJump :
    symbolsFrom 0 (numberedLines (withJump source name)) =
      symbolsFrom 0 (numberedLines source) := by
  have hjump : numberedLines (ofLines [(Instruction.jumpTo name).text.toList]) =
      [((Instruction.jumpTo name).text.toList, 1)] := by
    rw [numberedLines, lines_jumpTo hname]
    rfl
  rw [withJump_eq_join, symbolsFrom_join, hjump, symbolsFrom,
    definedSymbols_text (isPrintable_jumpTo hname)]
  simp [symbolsFrom]

theorem codeLines_withJump :
    codeLines (withJump source name) =
      codeLines source ++
        [((Instruction.jumpTo name).text.toList, 1 + offset source)] := by
  have hjump : codeLines (ofLines [(Instruction.jumpTo name).text.toList]) =
      [((Instruction.jumpTo name).text.toList, 1)] := by
    rw [codeLines, numberedLines, lines_jumpTo hname]
    exact List.filter_cons_of_pos (isCode_text (isPrintable_jumpTo hname))
  rw [withJump_eq_join, codeLines_join, hjump]
  rfl

theorem classified_withJump
    (h : ∀ line ∈ lines source, ∀ item ∈ items line, Classified item) :
    ∀ line ∈ lines (withJump source name), ∀ item ∈ items line, Classified item := by
  rw [withJump_eq_join]
  apply classified_join h
  intro line hline item hitem
  rw [lines_jumpTo hname, List.mem_singleton] at hline
  rw [hline, (isPrintable_jumpTo hname).items_text] at hitem
  exact (isPrintable_jumpTo hname item hitem).classified

end Source

/-! ## Names of registers -/

/-- The names that are also names of registers: the letter r, in lower case as all
names are stored, and one digit or more. -/
def NamesRegister (name : String) : Prop :=
  ∃ digits, name.toList = 'r' :: digits ∧ Grammar.IsNumeral Char.isDigit digits

theorem isRegister_iff_namesRegister
    {name stored : String} (hstored : IsStoredName stored)
    (hletters : Text.SameLetters name stored) :
    Token.isRegister name.toList = true ↔ NamesRegister stored := by
  have hlower : Text.lower name = stored := by
    rw [Text.sameLetters_iff.mp hletters, hstored.2]
  rw [← Token.isRegister_map_toLower, ← Text.toList_lower, hlower,
    Token.isRegister_iff]
  constructor
  · rintro ⟨c, digits, htext, hc, hdigits⟩
    refine ⟨digits, ?_, Grammar.isNumeral_iff.mpr hdigits⟩
    have hcase : c.toLower = c := by
      have hcharacters := Text.toList_lower stored
      rw [hstored.2, htext, List.map_cons, List.cons.injEq] at hcharacters
      exact hcharacters.1.symm
    rcases hc with rfl | rfl
    · exact htext
    · exact absurd hcase (by decide)
  · rintro ⟨digits, htext, hdigits⟩
    exact ⟨'r', digits, htext, Or.inl rfl, Grammar.isNumeral_iff.mp hdigits⟩

/-! ## Jumps that are taken and jumps that are refused -/

/-- An assembly with one more instruction. -/
def Assembly.append (assembly : Assembly) (instruction : Instruction) : Assembly where
  program := assembly.program ++ [instruction]
  symbols := assembly.symbols
  words := assembly.words ++ [instruction.encode assembly.symbols]

namespace AssembledFrom

variable {source name : String} {assembly : Assembly}

theorem map_name_entries (h : AssembledFrom source assembly) :
    assembly.symbols.entries.map Symbol.name = (labelNames source).map Text.lower := by
  rw [h.symbols, map_name_symbolsFrom_numberedLines]

theorem exists_written
    (h : AssembledFrom source assembly) {line : List Char × Nat}
    (hline : line ∈ codeLines source) :
    ∃ instruction, Instruction.Written assembly.symbols
      (keptTokens line.2 (items line.1)) instruction := by
  obtain ⟨instruction, -, hwritten⟩ := exists_mem_right_of_forall₂ h.program hline
  exact ⟨instruction, hwritten⟩

/-- A jump to a label is assembled after the source, if the name of the label is
not read as a register. -/
theorem withJump
    (h : AssembledFrom source assembly) (hname : Token.isName name.toList = true)
    (hregister : Token.isRegister name.toList = false)
    (hdefined : assembly.symbols.contains name = true) :
    AssembledFrom (Source.withJump source name)
      (assembly.append { Instruction.jumpTo name with line := 1 + offset source }) where
  classified := classified_withJump hname h.classified
  symbols := h.symbols.trans (symbolsFrom_withJump hname).symm
  program := by
    obtain ⟨label, hlabel, hlower⟩ :=
      (Grammar.contains_iff h.map_name_entries).mp hdefined
    have hoperand : Grammar.WritesOperand (labelNames source) .target name.toList
        (.label name) := by
      have hwrites := Grammar.WritesOperand.label hname hregister hlabel
        (by rwa [String.ofList_toList])
      rwa [String.ofList_toList] at hwrites
    have hstatement : Grammar.WritesStatement (labelNames source)
        ["JMP".toList, name.toList] .jmp [.label name] :=
      .statement (by decide) (by decide +kernel) (.branch rfl (by decide))
        (.cons hoperand .nil)
    rw [codeLines_withJump hname]
    refine List.rel_append h.program (.cons ?_ .nil)
    rw [Grammar.written_keptTokens_iff h.map_name_entries]
    · refine ⟨rfl, rfl, ?_⟩
      rw [codeItems_jumpTo hname]
      exact hstatement
    · intro item hitem
      rw [(isPrintable_jumpTo hname).items_text] at hitem
      exact (isPrintable_jumpTo hname item hitem).classified
  words := by
    rw [Assembly.append, h.words, Word.ofProgram, Word.ofProgram, List.map_append]
    rfl

/-- A jump to the name of a register is refused, whatever labels there are. -/
theorem assemble_withJump_of_isRegister
    (h : AssembledFrom source assembly) (hname : Token.isName name.toList = true)
    (hregister : Token.isRegister name.toList = true) :
    ∃ token : Token, token.kind = .register ∧ token.text = name ∧
      assemble (Source.withJump source name) =
        .error (.unexpected (1 + offset source) (.operand .target) (some token)) := by
  have hkind : Token.Kind.ofText? name = some .register :=
    Token.Kind.ofText?_eq_some_iff.mpr ⟨hregister, fun hmnemonic => by cases hmnemonic⟩
  obtain ⟨token, htoken, htokenKind⟩ :=
    Token.exists_ofLexeme?_eq_some hkind (1 + offset source)
  rw [Token.ofLexeme?_eq_some_iff] at htoken
  refine ⟨token, htokenKind, by rw [htoken], ?_⟩
  have hclassified := classified_withJump hname h.classified
  have hlines : lines (Source.withJump source name) =
      segments source ++ (Instruction.jumpTo name).text.toList :: [] :=
    lines_withJump hname
  have hjump : Mnemonic.ofText? (String.ofList "JMP".toList) = some .jmp := by
    decide +kernel
  have hlayouts : Mnemonic.jmp.layouts.filterMap (Layout.after? token.kind) = [] := by
    rw [htokenKind]
    rfl
  refine assemble_eq_error_of_line hclassified
    (h.symbols.trans (symbolsFrom_withJump hname).symm) hlines ?_ ?_
  · intro line hline hcode
    exact h.exists_written (mem_codeLines_of_mem_segments hline hcode)
  · intro draft hnone
    have hitems : ∀ item ∈ items (Instruction.jumpTo name).text.toList, Classified item :=
      hclassified _ (by rw [hlines]; exact List.mem_concat_self)
    refine Draft.exists_run_lineTokens_eq_halted (codeItems_jumpTo hname) hitems
      (by decide) hjump ?_ hnone
    intro other hother
    rw [length_segments, Nat.add_comm, String.ofList_toList] at hother
    obtain rfl : other = token := Token.eq_of_toLexeme_eq (hother.trans htoken.symm)
    rw [Statement.take_of_filterMap_eq_nil hlayouts, htoken]
    rfl

end AssembledFrom

/-! ## Which labels can be referred to -/

/-- The word of a jump has the low bits of the address of its label. -/
theorem Instruction.encode_jumpTo
    {symbols : SymbolTable} {name : String} {address : Nat}
    (h : symbols.address? name = some address) (line : Nat) :
    encode symbols { jumpTo name with line := line } =
      0#8 ++ 4#6 ++ 0#2 ++ BitVec.ofNat 16 (address % 65536) := by
  have haddress : addressField symbols { jumpTo name with line := line } =
      BitVec.ofNat 16 (address % 65536) := by
    apply BitVec.eq_of_toNat_eq
    simp [addressField, jumpTo, h]
  rw [← haddress]
  rfl

theorem SymbolTable.address?_of_sameLetters
    {symbols : SymbolTable} {symbol : Symbol} {name : String}
    (hmem : symbol ∈ symbols.entries) (hstored : IsStoredName symbol.name)
    (hletters : Text.SameLetters name symbol.name) :
    symbols.address? name = some symbol.address := by
  rw [address?_eq_some_iff, Text.sameLetters_iff.mp hletters, hstored.2]
  exact List.mem_map_of_mem hmem

/-- A jump at the end of a source reaches every label, by its name in any case of
the letters, except those with the name of a register.  The jump leaves words and
symbols as they are and has a word of its own; a jump to the name of a register is
refused on its line, where a target is called for. -/
theorem jump_reaches_label_iff_name_is_no_register
    {source name : String} {assembly : Assembly} {symbol : Symbol}
    (h : assemble source = .ok assembly) (hsymbol : symbol ∈ assembly.symbols.entries)
    (hletters : Text.SameLetters name symbol.name) :
    let longer := source ++ "\nJMP " ++ name ++ "\n"
    ((∃ extended, assemble longer = .ok extended) ↔ ¬NamesRegister symbol.name) ∧
      (∀ extended, assemble longer = .ok extended →
        extended.words = assembly.words ++
            [0#8 ++ 4#6 ++ 0#2 ++ BitVec.ofNat 16 (symbol.address % 65536)] ∧
          extended.symbols = assembly.symbols) ∧
        ∀ fault, assemble longer = .error fault →
          ∃ token : Token, token.kind = .register ∧ token.text = name ∧
            fault = .unexpected (source.toList.count '\n' + 2) (.operand .target)
              (some token) := by
  intro longer
  have hassembled := assemble_eq_ok_iff_assembledFrom.mp h
  have hstored := hassembled.isStoredName hsymbol
  have haddress := SymbolTable.address?_of_sameLetters hsymbol hstored hletters
  have hname : Token.isName name.toList = true := by
    rw [← Token.isName_map_toLower, ← Text.toList_lower, Text.sameLetters_iff.mp hletters,
      hstored.2]
    exact hstored.1
  rw [← isRegister_iff_namesRegister hstored hletters]
  cases hregister : Token.isRegister name.toList with
  | false =>
      have hdefined : assembly.symbols.contains name = true := by
        rw [SymbolTable.contains, ← Option.isSome_map, ← SymbolTable.address?, haddress]
        rfl
      have hjump : assemble longer = .ok _ :=
        assemble_eq_ok_iff_assembledFrom.mpr (hassembled.withJump hname hregister hdefined)
      rw [hjump]
      refine ⟨by simp, ?_, by simp⟩
      intro extended hextended
      rw [← Except.ok.inj hextended, Assembly.append,
        Instruction.encode_jumpTo haddress]
      exact ⟨rfl, rfl⟩
  | true =>
      obtain ⟨token, hkind, htext, hfault⟩ :=
        hassembled.assemble_withJump_of_isRegister hname hregister
      have hline : 1 + offset source = source.toList.count '\n' + 2 := by
        rw [offset]
        omega
      have hrefused : assemble longer = .error _ := hfault
      rw [hrefused, hline]
      refine ⟨by simp, by simp, ?_⟩
      intro fault hcases
      exact ⟨token, hkind, htext, (Except.error.inj hcases).symm⟩

/-- A label with the name of a mnemonic is reached, and one with the name of a
register is not. -/
theorem jump_reaches_label_iff_name_is_no_register_add :
    ∃ assembly, assemble "r1: NOP\nadd: HLT" = .ok assembly ∧
      assembly.symbols.entries = [⟨"r1", 0, 1⟩, ⟨"add", 1, 2⟩] ∧
        (Text.SameLetters "Add" "add" ∧ ¬NamesRegister "add" ∧
          ∃ extended, assemble ("r1: NOP\nadd: HLT" ++ "\nJMP " ++ "Add" ++ "\n") =
              .ok extended ∧
            extended.words = assembly.words ++ [0x100001#32]) ∧
          Text.SameLetters "R1" "r1" ∧ NamesRegister "r1" ∧
            ∃ token : Token, token.kind = .register ∧ token.text = "R1" ∧
              assemble ("r1: NOP\nadd: HLT" ++ "\nJMP " ++ "R1" ++ "\n") =
                .error (.unexpected 3 (.operand .target) (some token)) := by
  have hview : (assemble "r1: NOP\nadd: HLT").toOption.map
      (fun assembly => assembly.symbols.entries) =
        some [⟨"r1", 0, 1⟩, ⟨"add", 1, 2⟩] := by
    decide +kernel
  obtain ⟨assembly, hassembly, hentries⟩ := exists_assembly_of_toOption_eq hview
  have hadd : Text.SameLetters "Add" "add" := by
    unfold Text.SameLetters
    decide
  have hr1 : Text.SameLetters "R1" "r1" := by
    unfold Text.SameLetters
    decide
  have hmnemonic : ¬NamesRegister "add" := by
    rintro ⟨digits, htext, -⟩
    simp at htext
  have hregister : NamesRegister "r1" :=
    ⟨['1'], by decide, Grammar.isNumeral_iff.mpr (by decide)⟩
  refine ⟨assembly, hassembly, hentries, ⟨hadd, hmnemonic, ?_⟩, hr1, hregister, ?_⟩
  · obtain ⟨hreached, hwords, -⟩ :=
      @jump_reaches_label_iff_name_is_no_register _ _ _ ⟨"add", 1, 2⟩ hassembly
        (by simp [hentries]) hadd
    obtain ⟨extended, hextended⟩ := hreached.mpr hmnemonic
    exact ⟨extended, hextended, (hwords extended hextended).1⟩
  · obtain ⟨hreached, -, hfault⟩ :=
      @jump_reaches_label_iff_name_is_no_register _ _ _ ⟨"r1", 0, 1⟩ hassembly
        (by simp [hentries]) hr1
    cases hrefused : assemble ("r1: NOP\nadd: HLT" ++ "\nJMP " ++ "R1" ++ "\n") with
    | ok extended => exact absurd hregister (hreached.mp ⟨extended, hrefused⟩)
    | error fault =>
        obtain ⟨token, hkind, htext, rfl⟩ := hfault fault hrefused
        exact ⟨token, hkind, htext, rfl⟩

end Pom8
