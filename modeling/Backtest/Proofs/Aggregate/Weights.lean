import Backtest.Aggregate.Weights
import Backtest.Proofs.Error.Stages
import Backtest.Proofs.Lookup
import Backtest.Proofs.Text.Items

/-!
# Texts of weights

A text of weights is read item by item. It is accepted when every item says a name and a usable number and
no name comes twice, and then the table has the entries that the items say and no others.
-/

namespace Backtest.Weights

variable {α : Type} [Scalar α]

/-- The item is a name, a colon that is its first, and a finite number that is not negative. Blanks around
the name and around the number do not count. -/
def Says (item : String) (entry : String × α) : Prop :=
  ∃ before after, item.toList = before ++ ':' :: after ∧ ':' ∉ before ∧
    String.ofList (Text.trimChars before) = entry.1 ∧
    Scalar.ofText? (String.ofList (Text.trimChars after)) = some entry.2 ∧
    Scalar.isFinite entry.2 = true ∧ ¬entry.2 < 0

/-! ### One item -/

theorem splitFirst?_colon_eq_some_iff {text before after : List Char} :
    Text.splitFirst? (· = ':') text = some (before, after) ↔
      text = before ++ ':' :: after ∧ ':' ∉ before := by
  rw [Text.splitFirst?_eq_some_iff]
  simp only [decide_eq_true_iff, decide_eq_false_iff_not]
  constructor
  · rintro ⟨_, htext, rfl, hbefore⟩
    exact ⟨htext, fun hmem => hbefore ':' hmem rfl⟩
  · rintro ⟨htext, hbefore⟩
    refine ⟨':', htext, rfl, ?_⟩
    rintro _ hmem rfl
    exact hbefore hmem

theorem entryOf_eq_ok_iff {item : String} {entry : String × α} :
    entryOf item = .ok entry ↔ Says item entry := by
  obtain ⟨name, weight⟩ := entry
  unfold entryOf Says
  constructor
  · intro hentry
    split at hentry
    · cases hentry
    · next before after hsplit =>
        simp only at hentry
        split at hentry
        · cases hentry
        · next value hvalue =>
            split_ifs at hentry with hbad
            cases hentry
            obtain ⟨htext, hbefore⟩ := splitFirst?_colon_eq_some_iff.mp hsplit
            exact ⟨before, after, htext, hbefore, rfl, hvalue, by simpa using hbad⟩
  · rintro ⟨before, after, htext, hbefore, rfl, hvalue, hfinite, hsign⟩
    have hgood : ¬(!Scalar.isFinite weight || decide (weight < 0)) = true := by simp [hfinite, hsign]
    simp only [splitFirst?_colon_eq_some_iff.mpr ⟨htext, hbefore⟩, hvalue, if_neg hgood]

theorem addEntry_eq_ok_iff {weights result : Weights α} {item : String} :
    addEntry weights item = .ok result ↔
      ∃ entry, Says item entry ∧ entry.1 ∉ weights.names ∧ weights.insert entry.1 entry.2 = result := by
  simp only [← entryOf_eq_ok_iff, ← NameTable.get?_eq_none_iff]
  unfold addEntry NameTable.contains
  cases entryOf (α := α) item with
  | error fault => simp
  | ok entry =>
      obtain ⟨name, weight⟩ := entry
      cases hheld : weights.get? name <;> simp [hheld]

/-! ### All items -/

/-- Items that are added to a table. -/
theorem foldlM_addEntry_eq_ok_iff {items : List String} {weights result : Weights α} :
    items.foldlM addEntry weights = .ok result ↔
      ∃ entries, List.Forall₂ Says items entries ∧ (entries.map Prod.fst).Nodup ∧
        (∀ entry ∈ entries, entry.1 ∉ weights.names) ∧
        result.entries.Perm (entries ++ weights.entries) := by
  induction items generalizing weights with
  | nil =>
      rw [List.foldlM_nil, pure_eq_ok_iff]
      constructor
      · rintro rfl
        exact ⟨[], .nil, .nil, by simp, .refl _⟩
      · rintro ⟨entries, hsays, _, _, hperm⟩
        cases hsays
        exact (NameTable.eq_of_perm hperm).symm
  | cons item rest ih =>
      rw [List.foldlM_cons, bind_eq_ok_iff]
      simp only [addEntry_eq_ok_iff, ih, List.forall₂_cons_left_iff]
      constructor
      · rintro ⟨_, ⟨entry, hsays, hnew, rfl⟩, others, hothers, hdistinct, hfresh, hperm⟩
        simp only [NameTable.mem_names_insert, not_or] at hfresh
        refine ⟨entry :: others, ⟨entry, others, hsays, hothers, rfl⟩, ?_, ?_, ?_⟩
        · rw [List.map_cons, List.nodup_cons]
          refine ⟨?_, hdistinct⟩
          rw [List.mem_map]
          rintro ⟨other, hother, hsame⟩
          exact (hfresh other hother).1 hsame
        · exact List.forall_mem_cons.mpr ⟨hnew, fun other hother => (hfresh other hother).2⟩
        · exact hperm.trans (((NameTable.perm_insert hnew).append_left others).trans List.perm_middle)
      · rintro ⟨_, ⟨entry, others, hsays, hothers, rfl⟩, hdistinct, hfresh, hperm⟩
        rw [List.map_cons, List.nodup_cons, List.mem_map, not_exists] at hdistinct
        rw [List.forall_mem_cons] at hfresh
        refine ⟨_, ⟨entry, hsays, hfresh.1, rfl⟩, others, hothers, hdistinct.2, ?_, ?_⟩
        · intro other hother
          rw [NameTable.mem_names_insert, not_or]
          exact ⟨fun hsame => hdistinct.1 other ⟨hother, hsame⟩, hfresh.2 other hother⟩
        · exact hperm.trans
            (((NameTable.perm_insert hfresh.1).append_left others).trans List.perm_middle).symm

theorem ofText_eq_ok_iff {text : String} {weights : Weights α} :
    ofText text = .ok weights ↔
      ∃ entries, List.Forall₂ Says (Text.items text) entries ∧ (entries.map Prod.fst).Nodup ∧
        weights.entries.Perm entries := by
  rw [ofText, foldlM_addEntry_eq_ok_iff]
  simp [NameTable.empty, NameTable.names]

/-- **Lists and weights are read without loss.** The items of a list are the trimmed pieces between its
commas that are not empty. They are not blank, have no blanks at their ends and no commas in them, and
they are the items of the list that they make with commas between them. A text of weights is accepted when
each of its items says a name and a usable number and the names are distinct. The table then has one entry
for every item, with the name and the number that it says. -/
theorem items_and_weights_lossless (text : String) :
    (∀ item, item ∈ Text.items text ↔
      item ≠ "" ∧ ∃ piece ∈ Text.pieces ',' text.toList, String.ofList (Text.trimChars piece) = item) ∧
    (∀ item ∈ Text.items text,
      Text.isBlankText item = false ∧ Text.trim item = item ∧ ',' ∉ item.toList) ∧
    Text.items (",".intercalate (Text.items text)) = Text.items text ∧
    ((∃ weights : Weights α, ofText text = .ok weights) ↔
      ∃ entries : List (String × α), List.Forall₂ Says (Text.items text) entries ∧
        (entries.map Prod.fst).Nodup) ∧
    ∀ weights : Weights α, ofText text = .ok weights ↔
      ∃ entries, List.Forall₂ Says (Text.items text) entries ∧ (entries.map Prod.fst).Nodup ∧
        weights.entries.Perm entries := by
  refine ⟨fun item => Text.mem_items_iff, fun item hitem => ?_, ?_, ?_,
    fun weights => ofText_eq_ok_iff⟩
  · exact ⟨Text.isBlankText_of_mem_items hitem, Text.trim_of_mem_items hitem,
      Text.comma_not_mem_of_mem_items hitem⟩
  · exact Text.items_intercalate (fun _ => Text.trim_of_mem_items)
      (fun _ hitem => (Text.mem_items_iff.mp hitem).1) fun _ => Text.comma_not_mem_of_mem_items
  · constructor
    · rintro ⟨weights, hweights⟩
      obtain ⟨entries, hsays, hdistinct, _⟩ := ofText_eq_ok_iff.mp hweights
      exact ⟨entries, hsays, hdistinct⟩
    · rintro ⟨entries, hsays, hdistinct⟩
      exact ⟨.ofList entries,
        ofText_eq_ok_iff.mpr ⟨entries, hsays, hdistinct, NameTable.perm_ofList hdistinct⟩⟩

end Backtest.Weights
