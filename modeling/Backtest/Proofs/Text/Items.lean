import Backtest.Proofs.Text.Trimming

/-!
# Items of a list

The pieces of a text between separators are those of the library's splitting, so a text is its pieces with
the separator between them. The items of a list are trimmed pieces that are not empty. No comma stands in
one of them, and nothing is lost when they are put together with commas again.
-/

namespace Backtest.Text

/-! ### Pieces -/

section Pieces

variable {separator : Char} {text front : List Char}

theorem pieces_eq_splitOn (separator : Char) (text : List Char) :
    pieces separator text = text.splitOn separator := by
  induction text with
  | nil => rfl
  | cons c rest ih =>
      rw [pieces, ih, List.splitOn_cons_eq_if_modifyHead]
      simp only [beq_iff_eq]
      cases hpieces : rest.splitOn separator with
      | nil => exact absurd hpieces (List.splitOn_ne_nil _ _)
      | cons piece others => rfl

/-- A text that begins with a piece and its separator. -/
theorem pieces_append_cons (hfront : separator ∉ front) (rest : List Char) :
    pieces separator (front ++ separator :: rest) = front :: pieces separator rest := by
  rw [pieces_eq_splitOn, pieces_eq_splitOn, List.splitOn_append_cons_self_of_not_mem hfront]

theorem not_mem_of_mem_pieces : ∀ piece ∈ pieces separator text, separator ∉ piece := by
  induction text with
  | nil => simp [pieces]
  | cons c rest ih =>
      rw [pieces]
      split_ifs with hsame
      · exact List.forall_mem_cons.mpr ⟨List.not_mem_nil, ih⟩
      · split
        · exact List.forall_mem_singleton.mpr (by simpa using Ne.symm hsame)
        · next piece others hpieces =>
            rw [hpieces, List.forall_mem_cons] at ih
            refine List.forall_mem_cons.mpr ⟨?_, ih.2⟩
            rw [List.mem_cons, not_or]
            exact ⟨Ne.symm hsame, ih.1⟩

end Pieces

/-- What stands before the first character that is accepted, and what stands behind it. -/
theorem splitFirst?_eq_some_iff {accepts : Char → Bool} {text before after : List Char} :
    splitFirst? accepts text = some (before, after) ↔
      ∃ c, text = before ++ c :: after ∧ accepts c = true ∧ ∀ other ∈ before, accepts other = false := by
  induction text generalizing before with
  | nil => simp [splitFirst?]
  | cons first rest ih =>
      rw [splitFirst?]
      split_ifs with hfirst
      · rw [Option.some_inj, Prod.mk.injEq]
        constructor
        · rintro ⟨rfl, rfl⟩
          exact ⟨first, rfl, hfirst, by simp⟩
        · rintro ⟨c, htext, haccepts, hbefore⟩
          rcases List.cons_eq_append_iff.mp htext with ⟨rfl, hrest⟩ | ⟨later, rfl, _⟩
          · exact ⟨rfl, (List.cons_eq_cons.mp hrest).2.symm⟩
          · cases hfirst.symm.trans (hbefore first List.mem_cons_self)
      · rw [Option.map_eq_some_iff]
        constructor
        · rintro ⟨⟨inner, _⟩, hinner, hpair⟩
          cases hpair
          obtain ⟨c, rfl, haccepts, hbefore⟩ := ih.mp hinner
          exact ⟨c, rfl, haccepts, List.forall_mem_cons.mpr ⟨by simpa using hfirst, hbefore⟩⟩
        · rintro ⟨c, htext, haccepts, hbefore⟩
          rcases List.cons_eq_append_iff.mp htext with ⟨rfl, hrest⟩ | ⟨inner, rfl, hrest⟩
          · rw [(List.cons_eq_cons.mp hrest).1] at haccepts
            exact absurd haccepts hfirst
          · exact ⟨(inner, after), ih.mpr ⟨c, hrest, haccepts, (List.forall_mem_cons.mp hbefore).2⟩, rfl⟩

/-! ### Items -/

theorem mem_of_mem_trimChars {text : List Char} {c : Char} (hc : c ∈ trimChars text) : c ∈ text := by
  rw [trimChars, trimRight, List.mem_reverse] at hc
  have hleft : c ∈ trimLeft text := List.mem_reverse.mp ((List.dropWhile_sublist isBlank).mem hc)
  exact (List.dropWhile_sublist isBlank).mem hleft

section Items

variable {text item : String}

theorem mem_items_iff : item ∈ items text ↔
    item ≠ "" ∧ ∃ piece ∈ pieces ',' text.toList, String.ofList (trimChars piece) = item := by
  rw [items, List.mem_map]
  constructor
  · rintro ⟨chars, hchars, rfl⟩
    rw [List.mem_filter, List.mem_map, decide_eq_true_iff] at hchars
    obtain ⟨⟨piece, hpiece, rfl⟩, hsome⟩ := hchars
    exact ⟨mt String.ofList_eq_empty_iff.mp hsome, piece, hpiece, rfl⟩
  · rintro ⟨hsome, piece, hpiece, rfl⟩
    refine ⟨trimChars piece, List.mem_filter.mpr ⟨List.mem_map_of_mem hpiece, ?_⟩, rfl⟩
    rw [decide_eq_true_iff]
    exact mt String.ofList_eq_empty_iff.mpr hsome

theorem trim_of_mem_items (hitem : item ∈ items text) : trim item = item := by
  obtain ⟨_, piece, _, rfl⟩ := mem_items_iff.mp hitem
  exact trim_ofList_trimChars piece

theorem isBlankText_of_mem_items (hitem : item ∈ items text) : isBlankText item = false := by
  have hsome : trim item ≠ "" := by
    rw [trim_of_mem_items hitem]
    exact (mem_items_iff.mp hitem).1
  rw [← trim_of_mem_items hitem]
  exact isBlankText_trim hsome

theorem comma_not_mem_of_mem_items (hitem : item ∈ items text) : ',' ∉ item.toList := by
  obtain ⟨_, piece, hpiece, rfl⟩ := mem_items_iff.mp hitem
  rw [String.toList_ofList]
  exact mt mem_of_mem_trimChars (not_mem_of_mem_pieces piece hpiece)

/-- Trimmed texts without commas that are not empty are the items of the list that they make. -/
theorem items_intercalate {given : List String} (htrim : ∀ item ∈ given, trim item = item)
    (hsome : ∀ item ∈ given, item ≠ "") (hcomma : ∀ item ∈ given, ',' ∉ item.toList) :
    items (",".intercalate given) = given := by
  cases given with
  | nil => rfl
  | cons first others =>
      have hpieces : pieces ',' (",".intercalate (first :: others)).toList =
          (first :: others).map String.toList := by
        rw [pieces_eq_splitOn, String.toList_intercalate]
        exact List.splitOn_intercalate ',' (List.forall_mem_map.mpr hcomma) (List.cons_ne_nil _ _)
      have htrimmed : ((first :: others).map String.toList).map trimChars =
          (first :: others).map String.toList := by
        rw [List.map_map]
        refine List.map_congr_left fun item hitem => ?_
        have htoList := congrArg String.toList (htrim item hitem)
        rwa [trim, String.toList_ofList] at htoList
      have hkept : ((first :: others).map String.toList).filter (· ≠ []) =
          (first :: others).map String.toList := by
        rw [List.filter_eq_self, List.forall_mem_map]
        intro item hitem
        rw [decide_eq_true_iff]
        exact mt String.toList_eq_nil_iff.mp (hsome item hitem)
      rw [items, hpieces, htrimmed, hkept, List.map_map]
      exact (List.map_congr_left fun item _ => String.ofList_toList).trans (List.map_id _)

/-- A wide space is a blank, too. -/
example : items "up ,, \u2003calm dip," = ["up", "calm dip"] := by decide

end Items

end Backtest.Text
