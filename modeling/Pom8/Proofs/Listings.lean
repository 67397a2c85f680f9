import Pom8.Proofs.Decoding
import Pom8.Proofs.Reassembling
import Pom8.Proofs.Sessions

/-!
# Listings that line up

A column is as wide as its longest cell, so where the next one begins depends on all
rows at once.  Rows are therefore described against offsets that belong to the whole
listing: each row fills up with blanks to the next offset, and in some row a single
blank is enough.
-/

namespace Pom8

/-! ## Upper-case hexadecimal -/

namespace Numeral

/-- Digits that write a number in upper-case hexadecimal.  There are at least as many
as the width asks for, and zeros in front only to reach it. -/
structure IsUpperHex (width n : Nat) (digits : List Char) : Prop where
  mem : ∀ c ∈ digits, c ∈ "0123456789ABCDEF".toList
  value_eq : value 16 digits = n
  width_le : width ≤ digits.length
  head?_ne : width < digits.length → digits.head? ≠ some '0'

theorem length_digits (base width n : Nat) :
    (digits base width n).length = max width (Nat.toDigits base n).length := by
  rw [digits, List.leftpad, List.length_append, List.length_replicate]
  omega

theorem exists_head?_toDigits {base n : Nat} (hbase : 1 < base) (hn : n ≠ 0) :
    ∃ d < base, d ≠ 0 ∧ (Nat.toDigits base n).head? = some d.digitChar := by
  induction n using Nat.strongRecOn with
  | ind n ih =>
      by_cases hlt : n < base
      · exact ⟨n, hlt, hn, by rw [Nat.toDigits_of_lt_base hlt]; rfl⟩
      · have hle : base ≤ n := by omega
        obtain ⟨d, hd, hne, hhead⟩ := ih (n / base)
          (Nat.div_lt_self (by omega) hbase) (Nat.div_pos hle (by omega)).ne'
        refine ⟨d, hd, hne, ?_⟩
        rw [Nat.toDigits_of_base_le hbase hle, List.head?_append, hhead]
        rfl

theorem toUpper_digitChar_ne_zero {d : Nat} (h : d < 16) (hd : d ≠ 0) :
    d.digitChar.toUpper ≠ '0' := by
  revert d
  decide

theorem isUpperHex_upperHex {width : Nat} (hwidth : 0 < width) (n : Nat) :
    IsUpperHex width n (upperHex width n).toList := by
  rw [upperHex, String.toList_ofList]
  constructor
  · intro c hc
    obtain ⟨d, hd, rfl⟩ := List.mem_map.mp hc
    have hmember := @forall_mem_digits
      (fun c => "0123456789ABCDEF".toList.contains c.toUpper) 16 (by decide)
      (by decide) (by decide) width n d hd
    exact List.contains_iff_mem.mp hmember
  · rw [value_map_toUpper, value_digits (by decide) (by decide)]
  · rw [List.length_map, length_digits]
    exact Nat.le_max_left _ _
  · -- A numeral longer than the width has no padding, and zero is no such numeral.
    intro hlonger
    rw [List.length_map, length_digits] at hlonger
    have hlt : width < (Nat.toDigits 16 n).length := by omega
    have hn : n ≠ 0 := by
      rintro rfl
      rw [Nat.toDigits_zero, List.length_singleton] at hlt
      omega
    obtain ⟨d, hd, hne, hhead⟩ := exists_head?_toDigits (show 1 < 16 by decide) hn
    have hpad : width - (Nat.toDigits 16 n).length = 0 := by omega
    rw [digits, List.leftpad, hpad, List.replicate_zero, List.nil_append,
      List.head?_map, hhead]
    exact fun h => toUpper_digitChar_ne_zero hd hne (Option.some.inj h)

end Numeral

/-! ## Columns -/

namespace Listing

variable {cells : List String} {cell : String}

theorem max?_length_eq_width (cells : List String) :
    (0 :: cells.map String.length).max? = some (width cells) := by
  rw [List.max?_cons', List.foldl_map]
  rfl

theorem length_le_width (h : cell ∈ cells) : cell.length ≤ width cells :=
  (List.max?_eq_some_iff.mp (max?_length_eq_width cells)).2 _
    (List.mem_cons_of_mem _ (List.mem_map_of_mem h))

theorem exists_length_eq_width (h : cells ≠ []) :
    ∃ cell ∈ cells, cell.length = width cells := by
  -- The start of the fold is the width only if all cells are empty.
  rcases List.mem_cons.mp
    (List.max?_eq_some_iff.mp (max?_length_eq_width cells)).1 with hzero | hmem
  · obtain ⟨cell, hcell⟩ := List.exists_mem_of_ne_nil cells h
    exact ⟨cell, hcell, by have := length_le_width hcell; omega⟩
  · exact List.mem_map.mp hmem

/-- Where the columns of a listing begin, in characters. -/
structure Columns where
  instruction : Nat
  arrow : Nat
  word : Nat

namespace Columns

/-- A line that shows an instruction and its word at an address.  So many blanks stand
before the instruction and after it that it and the arrow begin at their columns. -/
def Shows (columns : Columns) (address : Nat) (instruction : Instruction)
    (word : Word) (before after : Nat) (line : String) : Prop :=
  ∃ digits, Numeral.IsUpperHex 4 address digits ∧
    line.toList =
      ['0', 'x'] ++ digits ++ [':'] ++ List.replicate before ' ' ++
        instruction.text.toList ++ List.replicate after ' ' ++
          ['=', '>', ' '] ++ word.text.toList ∧
    2 + digits.length + 1 + before = columns.instruction ∧
    columns.instruction + instruction.text.length + after = columns.arrow ∧
    columns.arrow + 3 = columns.word

/-- A listing whose line for an address shows the instruction and the word there. -/
def ShowsAt (columns : Columns) (assembly : Assembly) (lines : List String)
    (address before after : Nat) : Prop :=
  ∃ line instruction word, lines[address]? = some line ∧
    assembly.program[address]? = some instruction ∧
    assembly.words[address]? = some word ∧
    columns.Shows address instruction word before after line

/-- A listing with one line for each instruction and with columns no further apart
than its longest cells make them. -/
structure Aligns (columns : Columns) (assembly : Assembly) (lines : List String) :
    Prop where
  length_eq : lines.length = assembly.program.length
  showsAt : ∀ address < lines.length, ∃ before after, 0 < before ∧ 0 < after ∧
    columns.ShowsAt assembly lines address before after
  length_line : ∀ line ∈ lines, line.length = columns.word + 32
  lineBreak_not_mem : ∀ line ∈ lines, '\n' ∉ line.toList
  tight_address : lines ≠ [] →
    ∃ address after, columns.ShowsAt assembly lines address 1 after
  tight_instruction : lines ≠ [] →
    ∃ address before, columns.ShowsAt assembly lines address before 1

variable {columns : Columns} {address : Nat} {instruction : Instruction}
  {word : Word} {before after : Nat} {line : String}

/-- The columns after cells of the given widths. -/
def ofWidths (address instruction : Nat) : Columns :=
  ⟨address + 1, address + instruction + 2, address + instruction + 5⟩

theorem Shows.length_eq
    (h : columns.Shows address instruction word before after line) :
    line.length = columns.word + 32 := by
  obtain ⟨digits, -, htext, hinstruction, harrow, hword⟩ := h
  have hlength := congrArg List.length htext
  simp only [List.length_append, List.length_replicate, List.length_cons,
    List.length_nil, String.length_toList, Word.length_text] at hlength
  omega

theorem Shows.lineBreak_not_mem
    (h : columns.Shows address instruction word before after line)
    (hinstruction : instruction.IsPrintable) : '\n' ∉ line.toList := by
  obtain ⟨digits, hdigits, htext, -⟩ := h
  have hdigit : '\n' ∉ digits := fun hmem => absurd (hdigits.mem _ hmem) (by decide)
  have hword : '\n' ∉ word.text.toList := fun hmem =>
    absurd (Word.eq_of_mem_text hmem) (by decide)
  rw [htext]
  simp [hdigit, hword, hinstruction.lineBreak_not_mem_text]

end Columns

/-! ## The rows of an assembly -/

variable {assembly : Assembly} {row : Row} {k : Nat}

/-- The width of the addresses of an assembly. -/
def addressWidth (assembly : Assembly) : Nat :=
  width ((rows assembly).map Row.address)

/-- The width of the instructions of an assembly. -/
def instructionWidth (assembly : Assembly) : Nat :=
  width ((rows assembly).map Row.instruction)

/-- The columns of the listing of an assembly. -/
def columns (assembly : Assembly) : Columns :=
  .ofWidths (addressWidth assembly) (instructionWidth assembly)

theorem lines_eq (assembly : Assembly) :
    lines assembly = (rows assembly).map
      (Row.text (addressWidth assembly) (instructionWidth assembly)) :=
  rfl

theorem getElem?_rows_eq_some_iff :
    (rows assembly)[k]? = some row ↔
      ∃ instruction word, assembly.program[k]? = some instruction ∧
        assembly.words[k]? = some word ∧ row = Row.of k instruction word := by
  rw [rows, List.getElem?_map, List.getElem?_zipIdx, Option.map_map,
    Option.map_eq_some_iff]
  constructor
  · rintro ⟨⟨instruction, word⟩, hzip, rfl⟩
    obtain ⟨hinstruction, hword⟩ := List.getElem?_zip_eq_some.mp hzip
    exact ⟨instruction, word, hinstruction, hword, by simp⟩
  · rintro ⟨instruction, word, hinstruction, hword, rfl⟩
    exact ⟨(instruction, word), List.getElem?_zip_eq_some.mpr ⟨hinstruction, hword⟩,
      by simp⟩

theorem toList_pad_blank (width : Nat) (cell : String) :
    (pad width cell).toList ++ [' '] =
      cell.toList ++ List.replicate (width - cell.length + 1) ' ' := by
  simp [pad, List.replicate_succ']

theorem Row.toList_text (addressWidth instructionWidth : Nat) (row : Row) :
    (row.text addressWidth instructionWidth).toList =
      row.address.toList ++
        List.replicate (addressWidth - row.address.length + 1) ' ' ++
          row.instruction.toList ++
            List.replicate (instructionWidth - row.instruction.length + 1) ' ' ++
              ['=', '>', ' '] ++ row.word.toList := by
  have harrow : " => ".toList = [' '] ++ ['=', '>', ' '] := rfl
  have hblank : " ".toList = [' '] := rfl
  simp only [Row.text, String.toList_append, harrow, hblank]
  rw [← List.append_assoc, toList_pad_blank, List.append_assoc _ _ [' '],
    toList_pad_blank, ← List.append_assoc]

/-- A row that fits its columns is filled up with blanks to the next of them. -/
theorem Row.shows_text {a i : Nat} {instruction : Instruction} {word : Word}
    (haddress : (Row.of k instruction word).address.length ≤ a)
    (hinstruction : instruction.text.length ≤ i) :
    (Columns.ofWidths a i).Shows k instruction word
      (a - (Row.of k instruction word).address.length + 1)
      (i - instruction.text.length + 1) ((Row.of k instruction word).text a i) := by
  have hlength : (Row.of k instruction word).address.length =
      2 + (Numeral.upperHex 4 k).toList.length + 1 := by
    rw [String.length_toList, Row.of, String.length_append, String.length_append]
    rfl
  refine ⟨(Numeral.upperHex 4 k).toList, Numeral.isUpperHex_upperHex (by decide) k,
    ?_, ?_, ?_, rfl⟩
  · rw [Row.toList_text]
    simp [Row.of]
  · simp only [Columns.ofWidths]
    omega
  · simp only [Columns.ofWidths]
    omega

theorem showsAt_of_getElem?_rows (h : (rows assembly)[k]? = some row) :
    (columns assembly).ShowsAt assembly (lines assembly) k
      (addressWidth assembly - row.address.length + 1)
      (instructionWidth assembly - row.instruction.length + 1) := by
  have hmem := List.mem_of_getElem? h
  have haddress := length_le_width (List.mem_map_of_mem (f := Row.address) hmem)
  have htext := length_le_width (List.mem_map_of_mem (f := Row.instruction) hmem)
  obtain ⟨instruction, word, hinstruction, hword, rfl⟩ := getElem?_rows_eq_some_iff.mp h
  refine ⟨_, instruction, word, ?_, hinstruction, hword, Row.shows_text haddress htext⟩
  rw [lines_eq, List.getElem?_map, h]
  rfl

theorem exists_shows_of_mem_lines {line : String} (h : line ∈ lines assembly) :
    ∃ instruction ∈ assembly.program, ∃ address word before after,
      (columns assembly).Shows address instruction word before after line := by
  rw [lines_eq] at h
  obtain ⟨row, hrow, rfl⟩ := List.mem_map.mp h
  obtain ⟨k, hk⟩ := List.getElem?_of_mem hrow
  obtain ⟨line, instruction, word, hline, hinstruction, -, hshows⟩ :=
    showsAt_of_getElem?_rows hk
  rw [lines_eq, List.getElem?_map, hk] at hline
  obtain rfl := Option.some.inj hline
  exact ⟨instruction, List.mem_of_getElem? hinstruction, k, word, _, _, hshows⟩

/-- Some row has the longest of the cells in a column. -/
theorem exists_row_of_width (cell : Row → String) (h : rows assembly ≠ []) :
    ∃ (k : Nat) (row : Row), (rows assembly)[k]? = some row ∧
      (cell row).length = width ((rows assembly).map cell) := by
  obtain ⟨text, htext, hlength⟩ :=
    exists_length_eq_width (mt (@List.map_eq_nil_iff _ _ cell _).mp h)
  obtain ⟨row, hrow, rfl⟩ := List.mem_map.mp htext
  obtain ⟨k, hk⟩ := List.getElem?_of_mem hrow
  exact ⟨k, row, hk, hlength⟩

/-- The lines of a listing line up, if there is a word for each instruction. -/
theorem aligns_lines
    (hwords : assembly.words.length = assembly.program.length)
    (hprintable : ∀ instruction ∈ assembly.program, instruction.IsPrintable) :
    (columns assembly).Aligns assembly (lines assembly) := by
  have hrows : lines assembly ≠ [] → rows assembly ≠ [] := by
    rw [lines_eq]
    exact mt fun h => by rw [h, List.map_nil]
  constructor
  case length_eq => simp [lines, rows, hwords]
  case showsAt =>
    intro address haddress
    rw [lines_eq, List.length_map] at haddress
    exact ⟨_, _, Nat.succ_pos _, Nat.succ_pos _,
      showsAt_of_getElem?_rows (List.getElem?_eq_getElem haddress)⟩
  case length_line =>
    intro line hline
    obtain ⟨_, _, _, _, _, _, hshows⟩ := exists_shows_of_mem_lines hline
    exact hshows.length_eq
  case lineBreak_not_mem =>
    intro line hline
    obtain ⟨instruction, hmem, _, _, _, _, hshows⟩ := exists_shows_of_mem_lines hline
    exact hshows.lineBreak_not_mem (hprintable instruction hmem)
  case tight_address =>
    intro hne
    obtain ⟨k, row, hrow, hlength⟩ := exists_row_of_width Row.address (hrows hne)
    have hshows := showsAt_of_getElem?_rows hrow
    rw [hlength, addressWidth, Nat.sub_self] at hshows
    exact ⟨k, _, hshows⟩
  case tight_instruction =>
    intro hne
    obtain ⟨k, row, hrow, hlength⟩ := exists_row_of_width Row.instruction (hrows hne)
    have hshows := showsAt_of_getElem?_rows hrow
    rw [hlength, instructionWidth, Nat.sub_self] at hshows
    exact ⟨k, _, hshows⟩

end Listing

theorem Assembly.listing_eq (assembly : Assembly) :
    assembly.listing =
      String.join ((Listing.lines assembly).map (· ++ "\n")) ++ "\n" := by
  simp [Assembly.listing, joinLines, Source.lineBreak]

theorem AssembledFrom.aligns_lines {source : String} {assembly : Assembly}
    (h : AssembledFrom source assembly) :
    (Listing.columns assembly).Aligns assembly (Listing.lines assembly) :=
  Listing.aligns_lines (by rw [h.words]; simp [Word.ofProgram]) h.isPrintable

/-! ## Standard output -/

namespace CommandLine

open FileSystem

section Output

variable {Disk : Type} [FileSystem Disk] {disk : Disk}

/-- Standard output does not depend on what comes of the output file. -/
theorem Plan.stdout_settle (plan : Plan) (disk : Disk) :
    (plan.settle disk).1.stdout = plan.stdout := by
  rcases plan.settle_cases disk with hsettle | ⟨path, fault, hsettle⟩
  · rw [hsettle]
  · rw [hsettle, withoutOutput]

theorem stdout_invoke
    {arguments : List String} {options : Options}
    {source : String} {assembly : Assembly}
    (hoptions : Options.ofArguments arguments = .ok options)
    (hholds : Holds disk options.input source)
    (hassembly : assemble source = .ok assembly) :
    (invoke arguments disk).stdout = options.listingText assembly ++
      (if options.output.isNone then assembly.machineCode else "") := by
  rw [invoke_eq_session hoptions]
  dsimp only
  rw [Options.session, Plan.stdout_settle, readText_eq_ok_iff.mpr hholds]
  exact (Options.plan_of_assembly hassembly).2.1

/-- Asking for a listing puts one in front of standard output and changes nothing else
there.  It has a line for each instruction, with its address and its word, and in all
lines the columns begin at the same offsets. -/
theorem listing_lines_up_before_output
    {arguments listed : List String} {options : Options}
    {source : String} {assembly : Assembly}
    (hplain : Options.ofArguments arguments = .ok { options with listing := false })
    (hlisted : Options.ofArguments listed = .ok { options with listing := true })
    (hholds : Holds disk options.input source)
    (hassembly : assemble source = .ok assembly) :
    ∃ (lines : List String) (columns : Listing.Columns),
      columns.Aligns assembly lines ∧
        (invoke listed disk).stdout =
          String.join (lines.map (· ++ "\n")) ++ "\n" ++
            (invoke arguments disk).stdout := by
  have hassembled := assemble_eq_ok_iff_assembledFrom.mp hassembly
  refine ⟨_, _, hassembled.aligns_lines, ?_⟩
  rw [stdout_invoke hplain hholds hassembly, stdout_invoke hlisted hholds hassembly]
  simp [Options.listingText, Assembly.listing_eq]

end Output

/-- Two instructions of different length, with the flag in a bundle. -/
theorem listing_lines_up_before_output_bundled :
    let disk : Files := { entries := [⟨⟨.root, "a"⟩, "ldi r1, 5\nhlt".toUTF8⟩] }
    ∃ (assembly : Assembly) (lines : List String) (columns : Listing.Columns),
      assembly.program.map Instruction.text = ["LDI r1, 5", "HLT"] ∧
        columns.Aligns assembly lines ∧
          (invoke ["-vd", "a"] disk).stdout =
            String.join (lines.map (· ++ "\n")) ++ "\n" ++
              (invoke ["a", "-v"] disk).stdout := by
  intro disk
  have hholds : Holds disk "a" "ldi r1, 5\nhlt" := rfl
  have hview : (assemble "ldi r1, 5\nhlt").toOption.map (fun assembly =>
      assembly.program.map Instruction.text) = some ["LDI r1, 5", "HLT"] := by
    decide +kernel
  obtain ⟨assembly, hassembly, htexts⟩ := exists_assembly_of_toOption_eq hview
  have hplain : Options.ofArguments ["a", "-v"] = .ok ⟨"a", none, false, 1⟩ := by
    decide
  have hlisted : Options.ofArguments ["-vd", "a"] = .ok ⟨"a", none, true, 1⟩ := by
    decide
  obtain ⟨lines, columns, haligns, hstdout⟩ :=
    @listing_lines_up_before_output _ _ disk _ _ ⟨"a", none, true, 1⟩ _ _ hplain hlisted
      hholds hassembly
  exact ⟨assembly, lines, columns, htexts, haligns, hstdout⟩

end CommandLine
end Pom8
