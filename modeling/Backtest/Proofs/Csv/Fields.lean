import Backtest.Csv.Table
import Backtest.Proofs.Error.Stages

/-!
# The fields of a table

What a table says is said by the fields of its records. The places of the records stand in faults alone,
so two texts with the same fields, the one with quotes and the other without, are the same table wherever
their fields are texts.
-/

namespace Backtest.Csv

open Text (Bytes)

/-- The fields of each record of a text. -/
def fieldsOf (bytes : Bytes) : List (List Bytes) := (records bytes).map Record.fields

/-- The fields are UTF-8 and stand for these texts. -/
def AreTexts (fields : List Bytes) (texts : List String) : Prop :=
  List.Forall₂ (fun field text => Text.decode field = .ok text) fields texts

theorem textsFrom_eq_ok_iff {place : Place} {index : Nat} {fields : List Bytes} {texts : List String} :
    textsFrom place index fields = .ok texts ↔ AreTexts fields texts := by
  rw [AreTexts]
  induction fields generalizing index texts with
  | nil => rw [textsFrom, Except.ok.injEq, List.forall₂_nil_left_iff, eq_comm]
  | cons field rest ih =>
      rw [textsFrom, List.forall₂_cons_left_iff]
      simp only [bind_eq_ok_iff, mapError_eq_ok_iff, ih, pure_eq_ok_iff]
      constructor
      · rintro ⟨text, htext, others, hothers, rfl⟩
        exact ⟨text, others, htext, hothers, rfl⟩
      · rintro ⟨text, others, htext, hothers, rfl⟩
        exact ⟨text, htext, others, hothers, rfl⟩

theorem Record.row_eq_ok_iff {width : Nat} {record : Record} {texts : List String} :
    record.row width = .ok texts ↔ record.fields.length = width ∧ AreTexts record.fields texts := by
  rw [Record.row]
  split_ifs with hwidth
  · rw [and_iff_right hwidth]
    exact textsFrom_eq_ok_iff
  · exact iff_of_false (fun herror => nomatch herror) fun hboth => hwidth hboth.1

/-- The table of a header and rows that can all be read. -/
def Table.ofTexts (header : List String) (rows : List (List String)) : Table := ⟨header, rows.map .ok⟩

theorem Table.mem_rows_ofTexts {header texts : List String} {rows : List (List String)} :
    .ok texts ∈ (Table.ofTexts header rows).rows ↔ texts ∈ rows := by
  rw [ofTexts, List.mem_map]
  exact ⟨fun ⟨_, hmem, hsame⟩ => Except.ok.inj hsame ▸ hmem, fun hmem => ⟨texts, hmem, rfl⟩⟩

/-- A text is a table whose rows can all be read when its fields are texts and its records have one
width. -/
theorem Table.ofBytes_eq_ok_iff {bytes : Bytes} {header : List Bytes} {rows : List (List Bytes)}
    (hfields : fieldsOf bytes = header :: rows) {titles : List String} {texts : List (List String)} :
    Table.ofBytes bytes = .ok (.ofTexts titles texts) ↔ AreTexts header titles ∧
      List.Forall₂ (fun row texts => row.length = header.length ∧ AreTexts row texts) rows texts := by
  rw [fieldsOf, List.map_eq_cons_iff] at hfields
  obtain ⟨first, others, hrecords, rfl, rfl⟩ := hfields
  have hrows : others.map (Record.row first.fields.length) = texts.map .ok ↔
      List.Forall₂ (fun row texts => row.length = first.fields.length ∧ AreTexts row texts)
        (others.map Record.fields) texts := by
    rw [← List.forall₂_eq_eq_eq]
    simp only [List.forall₂_map_left_iff, List.forall₂_map_right_iff, Record.row_eq_ok_iff]
  rw [Table.ofBytes, hrecords, ← hrows, Table.ofTexts]
  simp only [Record.texts, bind_eq_ok_iff, textsFrom_eq_ok_iff, pure_eq_ok_iff, Table.mk.injEq]
  constructor
  · rintro ⟨titles, htitles, rfl, hothers⟩
    exact ⟨htitles, hothers⟩
  · rintro ⟨htitles, hothers⟩
    exact ⟨titles, htitles, rfl, hothers⟩

end Backtest.Csv
