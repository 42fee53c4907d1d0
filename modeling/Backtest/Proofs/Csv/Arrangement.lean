import Mathlib.Data.List.Perm.Basic
import Mathlib.Data.List.Nodup
import Backtest.Proofs.Csv.Fields

/-!
# Tables in another order

A table is put in another order by the same rearrangement of the fields of every record, the header's
among them, and by any rearrangement of the records below the header. An order of columns is given as the
list of their former places.
-/

namespace Backtest.Csv

open Text (Bytes)

variable {β : Type} [Inhabited β] {order : List Nat} {size place place' : Nat}

/-- The items in another order, which gives for each place the former one. -/
def arrange (order : List Nat) (items : List β) : List β :=
  order.map fun place => items[place]?.getD default

@[simp]
theorem length_arrange (order : List Nat) (items : List β) :
    (arrange order items).length = order.length :=
  List.length_map _

theorem getElem?_arrange (hmoved : order[place']? = some place) (items : List β) :
    (arrange order items)[place']? = some (items[place]?.getD default) := by
  rw [arrange, List.getElem?_map, hmoved, Option.map_some]

/-- Nothing is lost and nothing comes twice. -/
theorem arrange_perm {items : List β} (horder : order.Perm (List.range items.length)) :
    (arrange order items).Perm items := by
  have hsame : (List.range items.length).map (fun place => items[place]?.getD default) = items := by
    refine List.ext_getElem (by simp) fun place hplace hplace' => ?_
    simp [hplace']
  exact (horder.map _).trans (.of_eq hsame)

theorem lt_of_moved (horder : order.Perm (List.range size))
    (hmoved : order[place']? = some place) : place < size :=
  List.mem_range.mp (horder.mem_iff.mp (List.mem_of_getElem? hmoved))

theorem exists_moved (horder : order.Perm (List.range size)) (hplace : place < size) :
    ∃ place' : Nat, order[place']? = some place :=
  List.mem_iff_getElem?.mp (horder.mem_iff.mpr (List.mem_range.mpr hplace))

/-! ### Fields -/

theorem AreTexts.arrange {fields : List Bytes} {texts : List String} (htexts : AreTexts fields texts)
    (horder : ∀ place ∈ order, place < fields.length) :
    AreTexts (Csv.arrange order fields) (Csv.arrange order texts) := by
  rw [AreTexts, Csv.arrange, Csv.arrange, List.forall₂_map_left_iff, List.forall₂_map_right_iff,
    List.forall₂_same]
  intro place hplace
  have hbound : place < fields.length := horder place hplace
  have hbound' : place < texts.length := htexts.length_eq ▸ hbound
  rw [List.getElem?_eq_getElem hbound, List.getElem?_eq_getElem hbound']
  exact htexts.get hbound hbound'

/-- A text with the fields of a table in another order is this table in that order. -/
theorem Table.ofBytes_arranged {bytes bytes' : Bytes} {header : List Bytes}
    {rows rows' : List (List Bytes)} {titles : List String} {texts : List (List String)}
    (hfields : fieldsOf bytes = header :: rows)
    (horder : order.Perm (List.range header.length)) (hrows : rows'.Perm rows)
    (hfields' : fieldsOf bytes' = (header :: rows').map (arrange order))
    (htable : Table.ofBytes bytes = .ok (.ofTexts titles texts)) :
    ∃ texts' : List (List String), texts'.Perm texts ∧
      Table.ofBytes bytes' = .ok (.ofTexts (arrange order titles) (texts'.map (arrange order))) := by
  obtain ⟨htitles, htexts⟩ := (Table.ofBytes_eq_ok_iff hfields).mp htable
  obtain ⟨texts', htexts', hperm⟩ := List.perm_comp_forall₂ hrows htexts
  have hwidth : ∀ place ∈ order, place < header.length := fun place hplace =>
    List.mem_range.mp (horder.mem_iff.mp hplace)
  refine ⟨texts', hperm, (Table.ofBytes_eq_ok_iff hfields').mpr ⟨htitles.arrange hwidth, ?_⟩⟩
  rw [List.forall₂_map_left_iff, List.forall₂_map_right_iff]
  refine htexts'.imp fun row texts hrow => ⟨?_, hrow.2.arrange (hrow.1 ▸ hwidth)⟩
  rw [length_arrange, length_arrange]

end Backtest.Csv
