import Backtest.Proofs.Csv.Fields

/-!
# Writing a table

Whatever bytes the fields of a table are made of, there is a text with these fields: every field stands
between quotes and every quote in it is written twice. Reading such a text gives its fields back.
-/

namespace Backtest.Csv

open Text (Bytes)

/-- The bytes of a field with every quote written twice. -/
def escape : Bytes → Bytes
  | [] => []
  | byte :: rest => if byte = quote then quote :: quote :: escape rest else byte :: escape rest

def quoted (field : Bytes) : Bytes := quote :: (escape field ++ [quote])

/-- A record of these fields, with the line feed behind it. -/
def line : List Bytes → Bytes
  | [] => []
  | [field] => quoted field ++ [lineFeed]
  | field :: second :: rest => quoted field ++ comma :: line (second :: rest)

def write (rows : List (List Bytes)) : Bytes := rows.flatMap line

/-! ### Reading without places -/

/-- The fields of the records that are still to be read, the first of which has come as far as the
draft. -/
def cut (mode : Mode) (draft : Draft) : Bytes → List (List Bytes)
  | [] => if mode.isBetween then [] else [draft.finish]
  | byte :: rest =>
    match mode.move byte with
    | .skip mode => cut mode draft rest
    | .keep mode => cut mode (draft.keep byte) rest
    | .endField => cut .fieldStart draft.endField rest
    | .endRecord mode => draft.finish :: cut mode .empty rest

/-- The places do not bear on what is read. -/
theorem map_fields_scan (start place : Place) (mode : Mode) (draft : Draft) (bytes : Bytes) :
    (scan start place mode draft bytes).map Record.fields = cut mode draft bytes := by
  induction bytes generalizing start place mode draft with
  | nil =>
      rw [scan, cut]
      split_ifs <;> rfl
  | cons byte rest ih =>
      rw [scan, cut]
      cases mode.move byte with
      | skip mode => exact ih ..
      | keep mode => exact ih ..
      | endField => exact ih ..
      | endRecord mode => exact congrArg _ (ih ..)

theorem fieldsOf_eq_cut {bytes : Bytes} (hmark : byteOrderMark.isPrefixOf bytes = false) :
    fieldsOf bytes = cut .recordStart .empty bytes := by
  rw [fieldsOf, records, hmark]
  exact map_fields_scan ..

/-! ### Reading what was written -/

theorem cut_escape (fields : List Bytes) (read field rest : Bytes) :
    cut .quoted ⟨fields, read⟩ (escape field ++ rest) =
      cut .quoted ⟨fields, field.reverse ++ read⟩ rest := by
  induction field generalizing read with
  | nil => rfl
  | cons byte field ih =>
      rw [List.reverse_cons, List.append_assoc, List.singleton_append, ← ih, escape]
      split_ifs with hquote
      · subst hquote
        rfl
      · rw [List.cons_append, cut, Mode.move, if_neg hquote]
        rfl

/-- A quotation is read where a quote opens one. -/
theorem cut_quoted {mode : Mode} (hmode : mode.move quote = .skip .quoted) (fields : List Bytes)
    (field rest : Bytes) :
    cut mode ⟨fields, []⟩ (quoted field ++ rest) = cut .afterQuote ⟨fields, field.reverse⟩ rest := by
  rw [quoted, List.cons_append, List.append_assoc, cut, hmode]
  dsimp only
  rw [cut_escape, List.append_nil]
  rfl

theorem cut_comma (fields : List Bytes) (field rest : Bytes) :
    cut .afterQuote ⟨fields, field.reverse⟩ (comma :: rest) =
      cut .fieldStart ⟨field :: fields, []⟩ rest := by
  show cut .fieldStart ⟨field.reverse.reverse :: fields, []⟩ rest = _
  rw [List.reverse_reverse]

theorem cut_lineFeed (fields : List Bytes) (field rest : Bytes) :
    cut .afterQuote ⟨fields, field.reverse⟩ (lineFeed :: rest) =
      (fields.reverse ++ [field]) :: cut .recordStart .empty rest := by
  show (field.reverse.reverse :: fields).reverse :: cut .recordStart .empty rest = _
  rw [List.reverse_reverse, List.reverse_cons]

theorem cut_line {mode : Mode} (hmode : mode.move quote = .skip .quoted) (fields : List Bytes)
    {row : List Bytes} (hrow : row ≠ []) (rest : Bytes) :
    cut mode ⟨fields, []⟩ (line row ++ rest) =
      (fields.reverse ++ row) :: cut .recordStart .empty rest := by
  induction row generalizing mode fields with
  | nil => exact absurd rfl hrow
  | cons field row ih =>
      cases row with
      | nil =>
          rw [line, List.append_assoc, cut_quoted hmode]
          exact cut_lineFeed fields field rest
      | cons second row =>
          have hopen : Mode.fieldStart.move quote = .skip .quoted := rfl
          rw [line, List.append_assoc, cut_quoted hmode, List.cons_append, cut_comma,
            ih hopen (field :: fields) (List.cons_ne_nil second row), List.reverse_cons,
            List.append_assoc, List.singleton_append]

theorem cut_write {rows : List (List Bytes)} (hrows : ∀ row ∈ rows, row ≠ []) :
    cut .recordStart .empty (write rows) = rows := by
  induction rows with
  | nil => rfl
  | cons row rows ih =>
      obtain ⟨hrow, hrest⟩ := List.forall_mem_cons.mp hrows
      rw [write, List.flatMap_cons]
      exact (cut_line rfl [] hrow _).trans (congrArg _ (ih hrest))

/-- A text that was written begins with a quote, so no byte order mark is found in it. -/
theorem isPrefixOf_write {rows : List (List Bytes)} (hrows : ∀ row ∈ rows, row ≠ []) :
    byteOrderMark.isPrefixOf (write rows) = false := by
  cases rows with
  | nil => rfl
  | cons row rows =>
      cases row with
      | nil => exact absurd rfl (hrows [] List.mem_cons_self)
      | cons field row =>
        cases row with
        | nil => rfl
        | cons second row => rfl

/-- **Reading what was written.** A text that was written has the fields that it was written from. -/
theorem fieldsOf_write {rows : List (List Bytes)} (hrows : ∀ row ∈ rows, row ≠ []) :
    fieldsOf (write rows) = rows := by
  rw [fieldsOf_eq_cut (isPrefixOf_write hrows), cut_write hrows]

end Backtest.Csv
