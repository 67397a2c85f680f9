import Mathlib.Data.Multiset.MapFold
import Pom8.Proofs.Reassembling

/-!
# Sources apart from their layout

The skeleton of a source lists what its lines of code hold, with the labels that
lead to each of them.  Comments, empty lines, separators and the places of labels
among the lines leave no trace in it, and yet it tells the outcome: whether a
source is assembled, and to what, depends on its skeleton only.
-/

namespace Pom8

/-! ## Skeletons -/

/-- What a source holds apart from its layout. -/
@[ext]
structure Skeleton where
  /-- The items of each line of code, with the labels on this line and on the
  lines without code before it. -/
  statements : List (List (List Char) × Multiset (List Char))
  /-- The labels after the last line of code. -/
  trailing : Multiset (List Char)

namespace Skeleton

instance : DecidableEq Skeleton := fun first second =>
  decidable_of_iff
    (first.statements = second.statements ∧ first.trailing = second.trailing)
    Skeleton.ext_iff.symm

/-- The skeleton of some lines, where some labels wait for the first line of
code. -/
def ofLines (waiting : Multiset (List Char)) : List (List Char) → Skeleton
  | [] => ⟨[], waiting⟩
  | line :: rest =>
    if Source.isCode line then
      let after := ofLines 0 rest
      { after with
        statements :=
          (Source.codeItems line, waiting + Source.labelItems line) ::
            after.statements }
    else ofLines (waiting + Source.labelItems line) rest

/-- The skeleton of a source. -/
def ofSource (source : String) : Skeleton :=
  ofLines 0 (Source.lines source)

/-- The names that some labels bind to an address. -/
def bound (address : Nat) (labels : Multiset (List Char)) :
    Multiset (String × Nat) :=
  labels.map fun item => (Text.lower (Source.labelName item), address)

/-- The bindings of the labels of some statements, from an address on, and of the
labels after them. -/
def bindingsFrom (trailing : Multiset (List Char)) (address : Nat) :
    List (List (List Char) × Multiset (List Char)) → Multiset (String × Nat)
  | [] => bound address trailing
  | statement :: rest =>
    bound address statement.2 + bindingsFrom trailing (address + 1) rest

/-- The bindings of all labels: those of a statement go to its place. -/
def bindings (address : Nat) (skeleton : Skeleton) : Multiset (String × Nat) :=
  bindingsFrom skeleton.trailing address skeleton.statements

variable {waiting : Multiset (List Char)} {line : List Char}
  {rest : List (List Char)}

theorem ofLines_of_isCode (h : Source.isCode line = true) :
    ofLines waiting (line :: rest) =
      ⟨(Source.codeItems line, waiting + Source.labelItems line) ::
          (ofLines 0 rest).statements,
        (ofLines 0 rest).trailing⟩ := by
  rw [ofLines, if_pos h]

theorem ofLines_of_not_isCode (h : ¬Source.isCode line = true) :
    ofLines waiting (line :: rest) =
      ofLines (waiting + Source.labelItems line) rest := by
  rw [ofLines, if_neg h]

theorem bound_add (address : Nat) (first second : Multiset (List Char)) :
    bound address (first + second) = bound address first + bound address second :=
  Multiset.map_add _ first second

/-! ## What a skeleton tells -/

/-- A skeleton tells the items of the lines of code. -/
theorem statements_ofLines (waiting : Multiset (List Char)) (lines : List (List Char)) :
    (ofLines waiting lines).statements.map Prod.fst =
      (lines.filter Source.isCode).map Source.codeItems := by
  induction lines generalizing waiting with
  | nil => rfl
  | cons line rest ih =>
      by_cases hcode : Source.isCode line = true
      · rw [ofLines_of_isCode hcode, List.map_cons, ih, List.filter_cons_of_pos hcode,
          List.map_cons]
      · rw [ofLines_of_not_isCode hcode, ih, List.filter_cons_of_neg hcode]

theorem map_binding_definedSymbols (address : Nat) (line : List Char × Nat) :
    (((Source.definedSymbols line.2 address (Source.items line.1)).map
        Symbol.binding : List (String × Nat)) : Multiset (String × Nat)) =
      bound address (Source.labelItems line.1) := by
  rw [Source.definedSymbols, List.map_map, bound, Multiset.map_coe]
  rfl

/-- A skeleton tells the bindings of the symbols, though not their order: the
labels that wait are bound to the address of the next line of code. -/
theorem bindings_ofLines
    (address : Nat) (waiting : Multiset (List Char))
    (lines : List (List Char × Nat)) :
    (ofLines waiting (lines.map Prod.fst)).bindings address =
      bound address waiting +
        ((Source.symbolsFrom address lines).map Symbol.binding :
          List (String × Nat)) := by
  induction lines generalizing address waiting with
  | nil => exact (Multiset.add_zero _).symm
  | cons line rest ih =>
      rw [Source.symbolsFrom, List.map_append, ← Multiset.coe_add,
        map_binding_definedSymbols, ← Multiset.add_assoc, ← bound_add, List.map_cons]
      by_cases hcode : Source.isCode line.1 = true
      · have hrest := ih (address + 1) 0
        rw [bound, Multiset.map_zero, Multiset.zero_add] at hrest
        rw [ofLines_of_isCode hcode, if_pos hcode, ← hrest]
        rfl
      · rw [ofLines_of_not_isCode hcode, if_neg hcode, ih]

theorem statements_ofSource (source : String) :
    (ofSource source).statements.map Prod.fst =
      (Source.codeLines source).map fun line => Source.codeItems line.1 := by
  rw [ofSource, statements_ofLines, ← Source.map_fst_codeLines, List.map_map]
  rfl

theorem bindings_ofSource (source : String) :
    (ofSource source).bindings 0 =
      ((Source.symbolsFrom 0 (Source.numberedLines source)).map Symbol.binding :
        List (String × Nat)) := by
  have hlines : (Source.numberedLines source).map Prod.fst = Source.lines source :=
    List.zipIdx_map_fst 1 (Source.lines source)
  rw [ofSource, ← hlines, bindings_ofLines, bound, Multiset.map_zero,
    Multiset.zero_add]

/-- A skeleton tells whether every item has a kind, for labels always do. -/
theorem classified_iff (source : String) :
    (∀ line ∈ Source.lines source, ∀ item ∈ Source.items line,
        Source.Classified item) ↔
      ∀ found ∈ (ofSource source).statements.map Prod.fst, ∀ item ∈ found,
        Source.Classified item := by
  rw [ofSource, statements_ofLines, List.forall_mem_map]
  constructor
  · intro h line hline item hitem
    exact h line (List.mem_filter.mp hline).1 item (List.mem_filter.mp hitem).1
  · intro h line hline item hitem
    by_cases hlabel : Token.isLabel item = true
    · exact ⟨.label, Source.kind_eq_label_iff.mpr hlabel⟩
    · have hcode : item ∈ Source.codeItems line :=
        List.mem_filter.mpr ⟨hitem, by simpa using hlabel⟩
      have hline : line ∈ (Source.lines source).filter Source.isCode :=
        List.mem_filter.mpr
          ⟨hline, Source.isCode_iff.mpr (List.ne_nil_of_mem hcode)⟩
      exact h line hline item hcode

end Skeleton

/-! ## Statements under other labels -/

namespace Grammar

variable {labels other : List String}

theorem WritesOperand.relabelled
    (hlabels : ∀ name ∈ labels, Text.lower name ∈ other.map Text.lower)
    {slot : Slot} {item : List Char} {operand : Operand}
    (h : WritesOperand labels slot item operand) :
    WritesOperand other slot item operand := by
  cases h with
  | register hc hdigits hbound => exact .register hc hdigits hbound
  | decimal hdigits hbound => exact .decimal hdigits hbound
  | negative hdigits hbound => exact .negative hdigits hbound
  | binary hc hdigits hbound => exact .binary hc hdigits hbound
  | hexadecimal hslot hc hdigits hbound => exact .hexadecimal hslot hc hdigits hbound
  | label hname hregister hmem hlower =>
      obtain ⟨defined, hdefined, heq⟩ := List.mem_map.mp (hlabels _ hmem)
      exact .label hname hregister hdefined (heq.trans hlower)

theorem WritesOperands.relabelled
    (hlabels : ∀ name ∈ labels, Text.lower name ∈ other.map Text.lower)
    {layout : Layout} {found : List (List Char)} {operands : List Operand}
    (h : WritesOperands labels layout found operands) :
    WritesOperands other layout found operands := by
  induction h with
  | nil => exact .nil
  | cons hoperand _ ih => exact .cons (hoperand.relabelled hlabels) ih

/-- A statement may be written wherever the same labels are defined. -/
theorem WritesStatement.relabelled
    (hlabels : ∀ name ∈ labels, Text.lower name ∈ other.map Text.lower)
    {found : List (List Char)} {mnemonic : Mnemonic} {operands : List Operand}
    (h : WritesStatement labels found mnemonic operands) :
    WritesStatement other found mnemonic operands := by
  cases h with
  | statement hkind hname hallows hoperands =>
      exact .statement hkind hname hallows (hoperands.relabelled hlabels)

end Grammar

/-! ## Sources with the same skeleton -/

section SameSkeleton

variable {first second : String}

theorem binding_perm_of_skeleton_eq
    (h : Skeleton.ofSource first = Skeleton.ofSource second) :
    ((Source.symbolsFrom 0 (Source.numberedLines second)).map Symbol.binding).Perm
      ((Source.symbolsFrom 0 (Source.numberedLines first)).map Symbol.binding) := by
  rw [← Multiset.coe_eq_coe, ← Skeleton.bindings_ofSource,
    ← Skeleton.bindings_ofSource, h]

/-- The lines of code of two sources with one skeleton write the same
instructions, each on its own line. -/
theorem writesInstruction_of_skeleton_eq
    (h : Skeleton.ofSource first = Skeleton.ofSource second)
    (hlabels : ∀ name ∈ Source.labelNames first,
      Text.lower name ∈ (Source.labelNames second).map Text.lower)
    {program : List Instruction}
    (hprogram : List.Forall₂
      (Grammar.WritesInstruction (Source.labelNames first))
      (Source.codeLines first) program) :
    List.Forall₂
      (fun line instruction => Grammar.WritesInstruction (Source.labelNames second)
        line { instruction with line := line.2 })
      (Source.codeLines second) program := by
  have hcode : ((Source.codeLines first).map fun line => Source.codeItems line.1) =
      (Source.codeLines second).map fun line => Source.codeItems line.1 := by
    rw [← Skeleton.statements_ofSource, h, Skeleton.statements_ofSource]
  have hwritten : List.Forall₂
      (fun found instruction =>
        instruction.format = instruction.mnemonic.format ∧
          Grammar.WritesStatement (Source.labelNames first) found
            instruction.mnemonic instruction.operands)
      ((Source.codeLines first).map fun line => Source.codeItems line.1)
      program := by
    rw [List.forall₂_map_left_iff]
    exact hprogram.imp fun _ _ hline => ⟨hline.format, hline.statement⟩
  rw [hcode, List.forall₂_map_left_iff] at hwritten
  apply hwritten.imp
  rintro line instruction ⟨hformat, hstatement⟩
  exact ⟨rfl, hformat, hstatement.relabelled hlabels⟩

/-- A source with the skeleton of one that is assembled is assembled as well. -/
theorem exists_assembly_of_skeleton_eq
    (h : Skeleton.ofSource first = Skeleton.ofSource second)
    {assembly : Assembly} (hfirst : assemble first = .ok assembly) :
    ∃ other, assemble second = .ok other ∧
      other.words = assembly.words ∧
      other.program.map Instruction.unnumbered =
        assembly.program.map Instruction.unnumbered ∧
      (other.symbols.entries.map Symbol.binding).Perm
        (assembly.symbols.entries.map Symbol.binding) := by
  obtain ⟨hclassified, hdescribes⟩ := Grammar.assembledFrom_iff.mp
    (assemble_eq_ok_iff_assembledFrom.mp hfirst)
  have hbinding := binding_perm_of_skeleton_eq h
  rw [← hdescribes.symbols] at hbinding
  have hnames : ((Source.symbolsFrom 0 (Source.numberedLines second)).map
      Symbol.name).Perm (assembly.symbols.entries.map Symbol.name) := by
    have hfst := hbinding.map Prod.fst
    rwa [List.map_map, List.map_map] at hfst
  have hlabels : ∀ name ∈ Source.labelNames first,
      Text.lower name ∈ (Source.labelNames second).map Text.lower := by
    intro name hname
    rw [← Source.map_name_symbolsFrom_numberedLines 0, hnames.mem_iff,
      hdescribes.symbols, Source.map_name_symbolsFrom_numberedLines]
    exact List.mem_map_of_mem hname
  obtain ⟨program, hprogram, hsame⟩ := Grammar.exists_renumbered
    (writesInstruction_of_skeleton_eq h hlabels hdescribes.program)
  let symbols : SymbolTable :=
    ⟨_, hnames.nodup_iff.mpr assembly.symbols.names_nodup⟩
  refine ⟨⟨program, symbols, Word.ofProgram symbols program⟩, ?_, ?_, hsame,
    hbinding⟩
  · rw [assemble_eq_ok_iff_assembledFrom, Grammar.assembledFrom_iff,
      Skeleton.classified_iff, ← h, ← Skeleton.classified_iff]
    exact ⟨hclassified,
      { program := hprogram
        symbols := rfl
        words := rfl }⟩
  · rw [hdescribes.words]
    exact Word.ofProgram_congr hsame hbinding

end SameSkeleton

/-- Two outcomes agree but for the places of things in the source: both hold the
same words, the same instructions up to their lines and the same map from names
to addresses, or both are faults. -/
inductive SameMeaning : Except Fault Assembly → Except Fault Assembly → Prop
  | assembled
      {first second : Assembly}
      (words : first.words = second.words)
      (program :
        first.program.map Instruction.unnumbered =
          second.program.map Instruction.unnumbered)
      (bindings : (first.symbols.entries.map Symbol.binding).Perm
        (second.symbols.entries.map Symbol.binding))
      (addresses : ∀ name,
        first.symbols.address? name = second.symbols.address? name) :
      SameMeaning (.ok first) (.ok second)
  | refused (first second : Fault) : SameMeaning (.error first) (.error second)

/-- Sources with the same skeleton have the same meaning, however their lines are
laid out. -/
theorem assemble_ignores_layout
    {first second : String}
    (h : Skeleton.ofSource first = Skeleton.ofSource second) :
    SameMeaning (assemble first) (assemble second) := by
  cases hfirst : assemble first with
  | ok assembly =>
      obtain ⟨other, hsecond, hwords, hprogram, hbinding⟩ :=
        exists_assembly_of_skeleton_eq h hfirst
      rw [hsecond]
      exact .assembled hwords.symm hprogram.symm hbinding.symm
        (SymbolTable.address?_eq_of_perm hbinding.symm)
  | error fault =>
      cases hsecond : assemble second with
      | ok assembly =>
          -- The second source would carry the first one along.
          obtain ⟨other, hother, -⟩ := exists_assembly_of_skeleton_eq h.symm hsecond
          rw [hfirst] at hother
          cases hother
      | error other => exact .refused fault other

/-- A program in two layouts, with labels before, after and between its lines of
code, and a statement that is refused in both. -/
theorem assemble_ignores_layout_loop :
    (Skeleton.ofSource "a: b: nop ; x\n\nc:\r\njmp a\nd:" =
          Skeleton.ofSource "b:\nnop a:\n,c: jmp,,a;y\r\n\td:\n" ∧
        (assemble "a: b: nop ; x\n\nc:\r\njmp a\nd:").isOk = true ∧
        SameMeaning (assemble "a: b: nop ; x\n\nc:\r\njmp a\nd:")
          (assemble "b:\nnop a:\n,c: jmp,,a;y\r\n\td:\n")) ∧
      Skeleton.ofSource "mov r1" = Skeleton.ofSource "\n mov,\tr1 ;\n" ∧
        (assemble "mov r1").isOk = false ∧
        SameMeaning (assemble "mov r1") (assemble "\n mov,\tr1 ;\n") := by
  have hloop : Skeleton.ofSource "a: b: nop ; x\n\nc:\r\njmp a\nd:" =
      Skeleton.ofSource "b:\nnop a:\n,c: jmp,,a;y\r\n\td:\n" := by
    decide +kernel
  have hmov : Skeleton.ofSource "mov r1" = Skeleton.ofSource "\n mov,\tr1 ;\n" := by
    decide +kernel
  exact ⟨⟨hloop, by decide +kernel, assemble_ignores_layout hloop⟩, hmov,
    by decide +kernel, assemble_ignores_layout hmov⟩

end Pom8
