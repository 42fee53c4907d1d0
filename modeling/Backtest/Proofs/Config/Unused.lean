import Backtest.Proofs.Config.Reading
import Backtest.Proofs.Config.Strategies
import Backtest.Proofs.Text.LowerCase
import Backtest.Scalar.Binary64

/-!
# Sections that no strategy is read from

Names of sections are stored without capitals and looked up in lower case, whatever their letters. The report
of unused sections compares names without the case of ASCII letters only. So it is right about every
strategy whose name has no capitals outside of ASCII, and it reports the section of any other strategy as
unused although the strategy has been read from it.
-/

namespace Backtest.Config

/-! ### Names of sections -/

theorem memberOfGroup?_eq_some_iff {group name : String} :
    memberOfGroup? group = some name ↔ group = memberGroup name := by
  rw [memberOfGroup?, memberGroup, String.ext_iff, String.toList_append, ← String.length_toList]
  split_ifs with hprefix
  · obtain ⟨rest, hrest⟩ := List.isPrefixOf_iff_prefix.mp hprefix
    rw [← hrest, List.drop_left, Option.some_inj, List.append_cancel_left_eq, String.ext_iff,
      String.toList_ofList]
  · refine iff_of_false (by simp) fun hgroup => hprefix ?_
    rw [List.isPrefixOf_iff_prefix, hgroup]
    exact List.prefix_append _ _

theorem equalIgnoringCase_memberGroup (left right : String) :
    Text.equalIgnoringCase (memberGroup left) (memberGroup right) = Text.equalIgnoringCase left right := by
  simp only [Text.equalIgnoringCase, memberGroup, String.toList_append, List.map_append,
    List.append_cancel_left_eq]

theorem plainCapitals_memberGroup_iff {name : String} :
    Text.PlainCapitals (memberGroup name).toList ↔ Text.PlainCapitals name.toList := by
  have hstart : Text.PlainCapitals memberStart.toList := fun c hc _ =>
    of_decide_eq_true (List.all_eq_true.mp (rfl : memberStart.toList.all (·.toNat < 128) = true) c hc)
  rw [memberGroup, String.toList_append, Text.PlainCapitals, List.forall_mem_append]
  exact and_iff_right hstart

namespace Document

variable {document : Document}

/-- No name of a section has capitals. -/
def Lowered (document : Document) : Prop :=
  ∀ group ∈ document.names, ∀ c ∈ group.toList, ¬Text.IsCapital c

theorem lowered_empty : Lowered .empty := by
  intro group hgroup
  cases hgroup

section Lines

variable {group : String}

theorem Lowered.insert (hlowered : document.Lowered) (hgroup : ∀ c ∈ group.toList, ¬Text.IsCapital c)
    (entries : Group) : Lowered ⟨document.groups.insert group entries⟩ := by
  intro other hother
  rcases NameTable.mem_names_insert.mp hother with rfl | hother
  · exact hgroup
  · exact hlowered other hother

theorem not_isCapital_of_group {number : Nat} {line : List Char}
    (hline : Line.ofChars number line = .ok (.group group)) : ∀ c ∈ group.toList, ¬Text.IsCapital c := by
  unfold Line.ofChars at hline
  split at hline
  · cases hline
  · split at hline
    · cases hline
    · cases hline
      exact Text.not_isCapital_of_mem_lower
  · split at hline <;> cases hline

theorem addLines_lowered {lines : List (List Char)} {current : String} {number : Nat} {result : Document}
    (hlowered : document.Lowered) (hcurrent : ∀ c ∈ current.toList, ¬Text.IsCapital c)
    (hresult : addLines document current number lines = .ok result) : result.Lowered := by
  induction lines generalizing document current number with
  | nil =>
      cases hresult
      exact hlowered
  | cons line rest ih =>
      rw [addLines] at hresult
      split at hresult
      · cases hresult
      · exact ih hlowered hcurrent hresult
      · next name hline =>
          have hname := not_isCapital_of_group hline
          exact ih (hlowered.insert hname _) hname hresult
      · exact ih (hlowered.insert hcurrent _) hcurrent hresult

theorem ofText_lowered {text : String} (hread : ofText text = .ok document) : document.Lowered := by
  have hdefault : Text.lower defaultGroup = defaultGroup := by decide
  exact addLines_lowered lowered_empty (hdefault ▸ Text.not_isCapital_of_mem_lower) hread

end Lines

/-! ### What a strategy is read from -/

/-- The name under which the section of a listed strategy is stored. -/
def sectionOf (strategy : Strategy) : String := Text.lower (memberGroup strategy.name)

theorem strategy_congr {other : Document} {group : String}
    (hgroup : other.groups.get? (Text.lower group) = document.groups.get? (Text.lower group)) (name : String) :
    other.strategy group name = document.strategy group name := by
  have hget (key : String) : other.get? group key = document.get? group key := by
    rw [get?, get?, hgroup]
  simp only [strategy, kind, nonBlank?, hget]

section Report

variable {α : Type} {strategies : List Strategy} {method : Aggregate.Method α} {name : String}

theorem mem_unusedSections_iff :
    name ∈ document.unusedSections (.aggregate strategies method) ↔
      (name ≠ "" ∧ memberGroup name ∈ document.names) ∧
        ∀ strategy ∈ strategies, Text.equalIgnoringCase strategy.name name = false := by
  simp only [unusedSections, memberSections, List.mem_filter, List.mem_filterMap,
    memberOfGroup?_eq_some_iff, exists_eq_right, decide_eq_true_iff, Bool.not_eq_true', List.any_eq_false,
    Bool.not_eq_true]
  rw [and_comm (a := name ≠ "")]

/-- A section's own name and another one are the same without the case of ASCII letters exactly when the other
one is looked up in this section and has no capitals outside of ASCII. -/
theorem equalIgnoringCase_iff_sectionOf (hlowered : document.Lowered)
    (hsection : memberGroup name ∈ document.names) {strategy : Strategy} :
    Text.equalIgnoringCase strategy.name name = true ↔
      sectionOf strategy = memberGroup name ∧ Text.PlainCapitals strategy.name.toList := by
  rw [← equalIgnoringCase_memberGroup, Text.equalIgnoringCase_iff (hlowered _ hsection),
    plainCapitals_memberGroup_iff]
  rfl

end Report

variable {α : Type} [Scalar α]

theorem named_of_plan {strategies : List Strategy} {method : Aggregate.Method α}
    (hplan : document.plan = .ok (.aggregate strategies method)) :
    strategies.map Strategy.name = document.members ∧
      ∀ strategy ∈ strategies, document.strategy (memberGroup strategy.name) strategy.name = .ok strategy := by
  unfold plan at hplan
  split_ifs at hplan
  · obtain ⟨_, hbuilt, hrest⟩ := bind_eq_ok_iff.mp hplan
    obtain ⟨_, _, hresult⟩ := bind_eq_ok_iff.mp hrest
    cases hresult
    exact named_of_mapM_strategy hbuilt
  · obtain ⟨_, _, hresult⟩ := bind_eq_ok_iff.mp hplan
    cases hresult

/-- **Sections that are reported as unused.** A plan of several strategies is read from the sections of the
listed names, whose letters are lower-cased. The report names a member when it has a section, and every
strategy that is read from this section has a capital outside of ASCII in its name. -/
theorem unused_sections_reported {text : String} {document : Document} {strategies : List Strategy}
    {method : Aggregate.Method α} (hread : ofText text = .ok document)
    (hplan : document.plan = .ok (.aggregate strategies method)) :
    strategies.map Strategy.name = document.members ∧
    (∀ strategy ∈ strategies, ∀ other : Document,
      other.groups.get? (sectionOf strategy) = document.groups.get? (sectionOf strategy) →
      other.strategy (memberGroup strategy.name) strategy.name = .ok strategy) ∧
    ∀ name, name ∈ document.unusedSections (.aggregate strategies method) ↔
      (name ≠ "" ∧ memberGroup name ∈ document.names) ∧
        ∀ strategy ∈ strategies, sectionOf strategy = memberGroup name →
          ∃ c ∈ strategy.name.toList, Text.IsCapital c ∧ 128 ≤ c.toNat := by
  obtain ⟨hnames, heach⟩ := named_of_plan hplan
  refine ⟨hnames, fun strategy hstrategy other hsection => ?_, fun name => ?_⟩
  · rw [strategy_congr hsection, heach strategy hstrategy]
  · rw [mem_unusedSections_iff]
    refine and_congr_right fun hname => forall₂_congr fun strategy _ => ?_
    rw [← Bool.not_eq_true, equalIgnoringCase_iff_sectionOf (ofText_lowered hread) hname.2, not_and]
    simp [Text.PlainCapitals]

/-! ### A listed section and one that is not listed -/

namespace Sample

/-- A majority of one strategy, with its section and another one. -/
def listedText (name : String) : String :=
  "[aggregate]\nmethod = majority\nstrategies = " ++ name ++ "\n\n[strategy." ++ name ++
    "]\nlong = up\n\n[strategy.mean]\nlong = down\n"

def listed (name : String) : Strategy := ⟨name, .longCash, some "up", none, none, none⟩

/-- The strategies of an aggregated plan. -/
def strategies? (document : Document) : Option (List Strategy) :=
  match document.plan (α := Binary64) with
  | .ok (.aggregate strategies _) => some strategies
  | _ => none

theorem exists_plan_of_strategies? {document : Document} {strategies : List Strategy}
    (hstrategies : strategies? document = some strategies) :
    ∃ method, document.plan (α := Binary64) = .ok (.aggregate strategies method) := by
  unfold strategies? at hstrategies
  split at hstrategies
  · next method hplan =>
      cases hstrategies
      exact ⟨method, hplan⟩
  · cases hstrategies

end Sample

theorem unused_sections_reported_sample :
    ∃ document strategies, ∃ method : Aggregate.Method Binary64,
      ofText (Sample.listedText "Trend") = .ok document ∧
      document.plan = .ok (.aggregate strategies method) ∧
      "mean" ∈ document.unusedSections (.aggregate strategies method) ∧
      "trend" ∉ document.unusedSections (.aggregate strategies method) := by
  have hsucceeds : succeedsWith (fun document => decide (
        Sample.strategies? document = some [Sample.listed "Trend"] ∧
          document.names = ["aggregate", "strategy.mean", "strategy.trend"]))
      (ofText (Sample.listedText "Trend")) = true := by
    decide +kernel
  obtain ⟨document, hread, htest⟩ := exists_of_succeedsWith hsucceeds
  obtain ⟨hstrategies, hnames⟩ := of_decide_eq_true htest
  obtain ⟨method, hplan⟩ := Sample.exists_plan_of_strategies? hstrategies
  obtain ⟨_, _, hreported⟩ := unused_sections_reported hread hplan
  have hsection : sectionOf (Sample.listed "Trend") = "strategy.trend" := by decide
  refine ⟨document, _, method, hread, hplan, (hreported "mean").mpr ⟨⟨by decide, ?_⟩, ?_⟩, ?_⟩
  · rw [hnames]
    decide
  · rw [List.forall_mem_singleton, hsection]
    exact fun hmean => absurd hmean (by decide)
  · intro htrend
    have hcapital := ((hreported "trend").mp htrend).2
    rw [List.forall_mem_singleton] at hcapital
    obtain ⟨c, hc, _, hcode⟩ := hcapital hsection
    have hcodes : ("Trend".toList.all fun c => decide (c.toNat < 128)) = true := by decide
    exact absurd (of_decide_eq_true (List.all_eq_true.mp hcodes c hc)) (Nat.not_lt.mpr hcode)

/-- A strategy that is read from the section of an accented name, which is reported as unused. -/
theorem exists_used_section_reported :
    ∃ document strategies, ∃ method : Aggregate.Method Binary64,
      ofText (Sample.listedText "É") = .ok document ∧
      document.plan = .ok (.aggregate strategies method) ∧
      (∃ strategy ∈ strategies, sectionOf strategy = memberGroup "é") ∧
      "é" ∈ document.unusedSections (.aggregate strategies method) := by
  have hsucceeds : succeedsWith (fun document => decide (
        Sample.strategies? document = some [Sample.listed "É"] ∧
          document.names = ["aggregate", "strategy.mean", "strategy.é"]))
      (ofText (Sample.listedText "É")) = true := by
    decide +kernel
  obtain ⟨document, hread, htest⟩ := exists_of_succeedsWith hsucceeds
  obtain ⟨hstrategies, hnames⟩ := of_decide_eq_true htest
  obtain ⟨method, hplan⟩ := Sample.exists_plan_of_strategies? hstrategies
  refine ⟨document, _, method, hread, hplan, ⟨_, List.mem_singleton_self _, by decide⟩,
    mem_unusedSections_iff.mpr ⟨⟨by decide, ?_⟩, ?_⟩⟩
  · rw [hnames]
    decide
  · exact List.forall_mem_singleton.mpr (by decide)

end Document

end Backtest.Config
