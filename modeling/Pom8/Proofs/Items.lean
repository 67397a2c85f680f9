import Mathlib.Data.List.TakeWhile
import Pom8.Proofs.Kinds

/-!
# The items of a line

`Source.items` lists the longest runs of a line that hold neither a separator
nor a semicolon and stand before the first semicolon.  An item is never a line
break or a comment, so each item either defines a label or belongs to the code
of its line.
-/

namespace Pom8.Source

/-- Whether a character can belong to an item. -/
def isItemCharacter (c : Char) : Bool :=
  !Text.isSeparator c && c != ';'

/-- The items of a line in order: separators are passed over, an item goes on as
long as it can, and a semicolon ends the line. -/
inductive Itemised : List Char → List (List Char) → Prop
  | nil : Itemised [] []
  | comment (rest : List Char) : Itemised (';' :: rest) []
  | separator {c : Char} {rest : List Char} {found : List (List Char)} :
      Text.isSeparator c = true → Itemised rest found →
        Itemised (c :: rest) found
  | item {run rest : List Char} {found : List (List Char)} :
      run ≠ [] → (∀ c ∈ run, isItemCharacter c = true) →
        (∀ c ∈ rest.head?, isItemCharacter c = false) → Itemised rest found →
          Itemised (run ++ rest) (run :: found)

theorem isItemCharacter_iff {c : Char} :
    isItemCharacter c = true ↔ Text.isSeparator c = false ∧ c ≠ ';' := by
  simp [isItemCharacter]

theorem isItemCharacter_eq_false_iff {c : Char} :
    isItemCharacter c = false ↔ Text.isSeparator c = true ∨ c = ';' := by
  rw [← Bool.not_eq_true, isItemCharacter_iff, not_and_or, Bool.not_eq_false,
    not_not]

/-! ## Reading a line from the left -/

theorem items_of_code_eq_nil
    {line : List Char} (h : code line = []) : items line = [] := by
  simp [items, h]

@[simp] theorem items_nil : items [] = [] :=
  items_of_code_eq_nil rfl

@[simp] theorem items_comment (rest : List Char) : items (';' :: rest) = [] :=
  items_of_code_eq_nil (by simp [code])

theorem code_separator
    {c : Char} (hc : Text.isSeparator c = true) (rest : List Char) :
    code (c :: rest) = c :: code rest := by
  have hcomment : c ≠ ';' := by
    rintro rfl
    exact absurd hc (by decide)
  simp [code, hcomment]

theorem items_separator
    {c : Char} (hc : Text.isSeparator c = true) (rest : List Char) :
    items (c :: rest) = items rest := by
  rw [items, code_separator hc, List.splitOnP_cons_eq_if_modifyHead, if_pos hc]
  simp [items]

theorem items_append
    {run rest : List Char} (hne : run ≠ [])
    (hrun : ∀ c ∈ run, isItemCharacter c = true)
    (hrest : ∀ c ∈ rest.head?, isItemCharacter c = false) :
    items (run ++ rest) = run :: items rest := by
  have hcode : code (run ++ rest) = run ++ code rest :=
    List.takeWhile_append_of_pos fun c hc => by
      simpa using (isItemCharacter_iff.mp (hrun c hc)).2
  have hsplit : ∀ c ∈ run, Text.isSeparator c = false :=
    fun c hc => (isItemCharacter_iff.mp (hrun c hc)).1
  -- The run ends with the code of the line or at a separator.
  have hstop : code rest = [] ∨
      ∃ c tail, rest = c :: tail ∧ Text.isSeparator c = true := by
    cases rest with
    | nil => exact Or.inl rfl
    | cons c tail =>
        rcases isItemCharacter_eq_false_iff.mp (hrest c rfl) with hc | rfl
        · exact Or.inr ⟨c, tail, rfl, hc⟩
        · exact Or.inl (by simp [code])
  rcases hstop with hnil | ⟨c, tail, rfl, hc⟩
  · rw [items_of_code_eq_nil hnil, items, hcode, hnil, List.append_nil,
      List.splitOnP_eq_singleton hsplit]
    simp [hne]
  · rw [items_separator hc, items, hcode, code_separator hc,
      List.splitOnP_append_cons_of_forall_mem hsplit c hc]
    simp [items, hne]

theorem items_eq_of_itemised
    {line : List Char} {found : List (List Char)} (h : Itemised line found) :
    items line = found := by
  induction h with
  | nil => exact items_nil
  | comment rest => exact items_comment rest
  | separator hc _ ih => rw [items_separator hc, ih]
  | item hne hrun hrest _ ih => rw [items_append hne hrun hrest, ih]

/-- Every line has items, and `items` finds them. -/
theorem itemised_items (line : List Char) : Itemised line (items line) := by
  induction hlength : line.length using Nat.strongRecOn
    generalizing line with
  | ind n ih =>
      subst hlength
      cases line with
      | nil => exact .nil
      | cons c rest =>
          by_cases hitem : isItemCharacter c = true
          · -- The longest run of item characters is not empty.
            have hsplit := List.takeWhile_append_dropWhile
              (p := isItemCharacter) (l := c :: rest)
            have hne : (c :: rest).takeWhile isItemCharacter ≠ [] := by
              simp [hitem]
            have hrun : ∀ d ∈ (c :: rest).takeWhile isItemCharacter,
                isItemCharacter d = true := fun d hd => List.mem_takeWhile_imp hd
            have hrest : ∀ d ∈ ((c :: rest).dropWhile isItemCharacter).head?,
                isItemCharacter d = false := by
              intro d hd
              have hhead := List.head?_dropWhile_not isItemCharacter (c :: rest)
              rw [Option.mem_def.mp hd] at hhead
              exact hhead
            have hshorter : ((c :: rest).dropWhile isItemCharacter).length <
                (c :: rest).length := by
              have hlength := congrArg List.length hsplit
              rw [List.length_append] at hlength
              have := List.length_pos_iff.mpr hne
              omega
            have htail := ih _ hshorter _ rfl
            have hitems := items_append hne hrun hrest
            rw [hsplit] at hitems
            rw [hitems]
            have hall := Itemised.item hne hrun hrest htail
            rwa [hsplit] at hall
          · rw [Bool.not_eq_true, isItemCharacter_eq_false_iff] at hitem
            rcases hitem with hc | rfl
            · rw [items_separator hc]
              exact .separator hc (ih _ (by simp) rest rfl)
            · rw [items_comment]
              exact .comment rest

theorem items_eq_iff {line : List Char} {found : List (List Char)} :
    items line = found ↔ Itemised line found := by
  constructor
  · rintro rfl
    exact itemised_items line
  · exact items_eq_of_itemised

theorem Itemised.isItemCharacter_of_mem
    {line item : List Char} {found : List (List Char)}
    (h : Itemised line found) (hmem : item ∈ found) :
    item ≠ [] ∧ ∀ c ∈ item, isItemCharacter c = true := by
  induction h with
  | nil => exact absurd hmem List.not_mem_nil
  | comment rest => exact absurd hmem List.not_mem_nil
  | separator _ _ ih => exact ih hmem
  | item hne hrun _ _ ih =>
      rcases List.mem_cons.mp hmem with rfl | hmem
      · exact ⟨hne, hrun⟩
      · exact ih hmem

/-! ## Labels and code -/

/-- The items of a line that define labels. -/
def labelItems (line : List Char) : List (List Char) :=
  (items line).filter Token.isLabel

/-- The items of a line other than labels. -/
def codeItems (line : List Char) : List (List Char) :=
  (items line).filter fun item => !Token.isLabel item

/-- Whether a line has an item other than labels. -/
def isCode (line : List Char) : Bool :=
  (items line).any fun item => !Token.isLabel item

theorem isCode_iff {line : List Char} :
    isCode line = true ↔ codeItems line ≠ [] := by
  simp [isCode, codeItems, List.filter_eq_nil_iff]

theorem kind_eq_label_iff {item : List Char} :
    Token.Kind.ofText? (String.ofList item) = some .label ↔
      Token.isLabel item = true := by
  rw [Token.Kind.ofText?_eq_some_iff, String.toList_ofList]
  simp [Token.Kind.admits]

/-- An item is no line break and no comment. -/
theorem kind_ne_of_mem_items
    {line item : List Char} {kind : Token.Kind} (hitem : item ∈ items line)
    (hkind : Token.Kind.ofText? (String.ofList item) = some kind) :
    kind ≠ .newline ∧ kind ≠ .comment := by
  obtain ⟨-, hcharacters⟩ :=
    (itemised_items line).isItemCharacter_of_mem hitem
  have hadmits := (Token.Kind.ofText?_eq_some_iff.mp hkind).1
  rw [String.toList_ofList] at hadmits
  constructor
  · rintro rfl
    have hbreak : item = ['\n'] := by simpa [Token.Kind.admits] using hadmits
    exact absurd (hcharacters '\n' (by simp [hbreak])) (by decide)
  · rintro rfl
    obtain ⟨rest, rfl⟩ := List.head?_eq_some_iff.mp
      (show item.head? = some ';' by simpa [Token.Kind.admits] using hadmits)
    exact absurd (hcharacters ';' (by simp)) (by decide)

end Pom8.Source
