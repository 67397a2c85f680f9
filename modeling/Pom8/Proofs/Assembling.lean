import Pom8.Assembly
import Pom8.Proofs.Scanning
import Pom8.Proofs.Statements

/-!
# What an assembly holds

The tokens of a finished scan come in one group for each line of code.  A
source is therefore assembled exactly when its scan ends and the items of each
line of code write an instruction; the program lists these instructions in the
order of the lines.
-/

namespace Pom8

open Source

/-- An assembly runs through a scan and a draft of its tokens. -/
theorem assemble_eq_ok_iff {source : String} {assembly : Assembly} :
    assemble source = .ok assembly ↔
      ∃ scan draft, Scan.ofSource source = .running scan ∧
        Draft.ofTokens scan.symbols scan.tokens.toList = .running draft ∧
          assembly = ⟨draft.instructions.toList, scan.symbols,
            Word.ofProgram scan.symbols draft.instructions.toList⟩ := by
  unfold assemble Report.ofSource
  cases Scan.ofSource source with
  | halted scan fault => simp
  | running scan =>
      unfold Report.ofScan
      cases hdraft : Draft.ofTokens scan.symbols scan.tokens.toList with
      | halted draft fault => simp [hdraft]
      | running draft => simp [hdraft, @eq_comm _ _ assembly]

/-- An assembly fails with the fault of the scan, or else with that of the draft. -/
theorem assemble_eq_error_iff {source : String} {fault : Fault} :
    assemble source = .error fault ↔
      (∃ scan, Scan.ofSource source = .halted scan fault) ∨
        ∃ scan draft, Scan.ofSource source = .running scan ∧
          Draft.ofTokens scan.symbols scan.tokens.toList = .halted draft fault := by
  unfold assemble Report.ofSource
  cases Scan.ofSource source with
  | halted scan other => simp
  | running scan =>
      unfold Report.ofScan
      cases hdraft : Draft.ofTokens scan.symbols scan.tokens.toList with
      | halted draft other => simp [hdraft]
      | running draft => simp [hdraft]

theorem exists_assembly_of_toOption_eq
    {α : Type} {source : String} {view : Assembly → α} {a : α}
    (h : (assemble source).toOption.map view = some a) :
    ∃ assembly, assemble source = .ok assembly ∧ view assembly = a := by
  cases hassembly : assemble source with
  | error fault =>
      rw [hassembly] at h
      cases h
  | ok assembly =>
      rw [hassembly] at h
      exact ⟨assembly, rfl, Option.some.inj h⟩

/-! ## The groups of a scanned source -/

theorem mem_keptTokens_iff
    {number : Nat} {found : List (List Char)} {token : Token} :
    token ∈ keptTokens number found ↔
      ∃ item ∈ found, Token.isLabel item = false ∧
        token.toLexeme = ⟨String.ofList item, number⟩ := by
  simp [keptTokens, Token.ofLexeme?_eq_some_iff, and_assoc]

theorem kind_ne_newline_of_mem_keptTokens
    {number : Nat} {line : List Char} {token : Token}
    (h : token ∈ keptTokens number (items line)) : token.kind ≠ .newline := by
  obtain ⟨item, hitem, -, hlexeme⟩ := mem_keptTokens_iff.mp h
  exact (kind_ne_of_mem_items hitem (Token.ofText?_of_toLexeme_eq hlexeme)).1

/-- The tokens of a line of code and its line break. -/
def lineGroup (line : List Char × Nat) : List Token × Token :=
  (keptTokens line.2 (items line.1), Token.lineBreak line.2)

theorem kind_of_mem_lineGroups
    {lines : List (List Char × Nat)} {group : List Token × Token}
    (h : group ∈ lines.map lineGroup) : group.2.kind = .newline := by
  obtain ⟨line, -, rfl⟩ := List.mem_map.mp h
  rfl

theorem kind_ne_newline_of_mem_lineGroups
    {lines : List (List Char × Nat)} {group : List Token × Token}
    (h : group ∈ lines.map lineGroup) :
    ∀ token ∈ group.1, token.kind ≠ .newline := by
  intro token htoken
  obtain ⟨line, -, rfl⟩ := List.mem_map.mp h
  exact kind_ne_newline_of_mem_keptTokens htoken

theorem flatMap_lineTokens (lines : List (List Char × Nat)) :
    lines.flatMap lineTokens =
      Draft.joinGroups
        ((lines.filter fun line => isCode line.1).map lineGroup) := by
  induction lines with
  | nil => rfl
  | cons line rest ih =>
      rw [List.flatMap_cons, ih]
      by_cases hcode : isCode line.1 = true
      · simp [lineTokens, hcode, Draft.joinGroups, lineGroup]
      · simp [lineTokens, hcode]

/-! ## Assemblies and lines of code -/

/-- What the assembly of a source holds. -/
structure AssembledFrom (source : String) (assembly : Assembly) : Prop where
  classified : ∀ line ∈ lines source, ∀ item ∈ items line, Classified item
  symbols : assembly.symbols.entries = symbolsFrom 0 (numberedLines source)
  program : List.Forall₂
    (fun line instruction => Instruction.Written assembly.symbols
      (keptTokens line.2 (items line.1)) instruction)
    (codeLines source) assembly.program
  words : assembly.words = Word.ofProgram assembly.symbols assembly.program

theorem exists_ofTokens_iff
    {source : String} {scan : Scan} (hscan : Scan.ofSource source = .running scan)
    {program : List Instruction} :
    (∃ draft, Draft.ofTokens scan.symbols scan.tokens.toList = .running draft ∧
        draft.instructions.toList = program) ↔
      List.Forall₂
        (fun line instruction => Instruction.Written scan.symbols
          (keptTokens line.2 (items line.1)) instruction)
        (codeLines source) program := by
  have htokens : scan.tokens.toList =
      Draft.joinGroups ((codeLines source).map lineGroup) := by
    rw [(Scan.linesRead_of_ofSource hscan).tokens, flatMap_lineTokens]
    rfl
  rw [htokens, Draft.ofTokens_joinGroups_iff (fun _ => kind_of_mem_lineGroups)
    (fun _ => kind_ne_newline_of_mem_lineGroups), List.map_map,
    List.forall₂_map_left_iff]
  rfl

/-- A source whose items have kinds is scanned if its symbols can stand in one
table, and its scan ends with this table. -/
theorem Scan.exists_ofSource_of_entries_eq
    {source : String} {symbols : SymbolTable}
    (hclassified : ∀ line ∈ lines source, ∀ item ∈ items line, Classified item)
    (hentries : symbols.entries = symbolsFrom 0 (numberedLines source)) :
    ∃ scan, ofSource source = .running scan ∧ scan.symbols = symbols := by
  have hnames : ((labelNames source).map Text.lower).Nodup := by
    rw [← map_name_symbolsFrom_numberedLines 0, ← hentries]
    exact symbols.names_nodup
  obtain ⟨scan, hscan⟩ := exists_ofSource_eq_running_iff.mpr ⟨hclassified, hnames⟩
  exact ⟨scan, hscan, SymbolTable.eq_of_entries_eq
    ((linesRead_of_ofSource hscan).symbols.trans hentries.symm)⟩

/-- A source is assembled exactly to what its lines of code write. -/
theorem assemble_eq_ok_iff_assembledFrom
    {source : String} {assembly : Assembly} :
    assemble source = .ok assembly ↔ AssembledFrom source assembly := by
  rw [assemble_eq_ok_iff]
  constructor
  · rintro ⟨scan, draft, hscan, hdraft, rfl⟩
    have hread := Scan.linesRead_of_ofSource hscan
    exact
      { classified := (Scan.exists_ofSource_eq_running_iff.mp ⟨scan, hscan⟩).1
        symbols := hread.symbols
        program := (exists_ofTokens_iff hscan).mp ⟨draft, hdraft, rfl⟩
        words := rfl }
  · intro h
    obtain ⟨scan, hscan, hsymbols⟩ :=
      Scan.exists_ofSource_of_entries_eq h.classified h.symbols
    obtain ⟨draft, hdraft, hprogram⟩ := (exists_ofTokens_iff hscan).mpr
      (by rw [hsymbols]; exact h.program)
    refine ⟨scan, draft, hscan, hdraft, ?_⟩
    rw [hprogram, hsymbols, ← h.words]

end Pom8
