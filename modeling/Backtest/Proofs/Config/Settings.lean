import Backtest.Config.Validation
import Backtest.Proofs.Config.Reading
import Backtest.Proofs.Simulation.Checks

/-!
# Settings that were checked

The numbers of a run are read twice. The check trims a value, passes over a blank one, and refuses what
is no finite number. The settings are built from the value as it stands, and what cannot be read leaves
the default in place. Values are stored without blanks around them, so behind the check the two readings
agree, and no number that was given is replaced by a default.
-/

namespace Backtest.Config.Document

section Numbers

variable {α : Type} [Scalar α] {document : Document} {group key : String}

theorem ofText?_empty : Scalar.ofText? "" = (none : Option α) := rfl

theorem nonBlank?_eq_of_trimmed (htrimmed : document.Trimmed) :
    document.nonBlank? group key = (document.get? group key).filter (· ≠ "") := by
  rw [nonBlank?]
  cases htext : document.get? group key with
  | none => rfl
  | some text => rw [Option.map_some, htrimmed group key text htext]

theorem of_number? {found : Option α} (hnumber : document.number? group key = .ok found) :
    document.nonBlank? group key = none ∧ found = none ∨
      ∃ text value, document.nonBlank? group key = some text ∧ Scalar.ofText? text = some value ∧
        Scalar.isFinite value = true ∧ found = some value := by
  unfold number? at hnumber
  split at hnumber
  · next hblank =>
      cases hnumber
      exact .inl ⟨hblank, rfl⟩
  · next text htext =>
      split at hnumber
      · next value hfound =>
          cases hnumber
          obtain ⟨hvalue, hfinite⟩ := Option.filter_eq_some_iff.mp hfound
          exact .inr ⟨text, value, htext, hvalue, hfinite, rfl⟩
      · cases hnumber

theorem isFinite_of_number? {value : α} (hnumber : document.number? group key = .ok (some value)) :
    Scalar.isFinite value = true := by
  rcases of_number? hnumber with ⟨_, hnone⟩ | ⟨_, _, _, _, hfinite, hfound⟩
  · cases hnone
  · cases hfound
    exact hfinite

/-- A number that can be read is read alike by both. -/
theorem numberOr_eq_getD (htrimmed : document.Trimmed) {found : Option α}
    (hnumber : document.number? group key = .ok found) (default : α) :
    document.numberOr group key default = found.getD default := by
  rw [numberOr]
  have hread := of_number? hnumber
  rw [nonBlank?_eq_of_trimmed htrimmed] at hread
  rcases hread with ⟨hblank, rfl⟩ | ⟨text, value, htext, hvalue, hfinite, rfl⟩
  · cases hstored : document.get? group key with
    | none => rfl
    | some text =>
        have hempty : text = "" := by simpa [hstored] using hblank
        rw [hempty, Option.bind_some, ofText?_empty]
        rfl
  · rw [(Option.filter_eq_some_iff.mp htext).1, Option.bind_some, hvalue]
    exact if_pos hfinite

/-- The value is the number of a key in the section of the run, or a default where it has none. -/
def Gives (document : Document) (key : String) (default value : α) : Prop :=
  ∃ found, document.number? runGroup key = .ok found ∧ value = found.getD default

variable {passes : α → Bool} {fault : ValueFault}

theorem checkNumber_eq_ok_iff :
    document.checkNumber key passes fault = .ok () ↔
      ∃ found, document.number? runGroup key = .ok found ∧
        ∀ value, found = some value → passes value = true := by
  rw [checkNumber, bind_eq_ok_iff]
  refine exists_congr fun found => and_congr_right fun _ => ?_
  cases found with
  | none => exact iff_of_true rfl (by simp)
  | some value =>
      by_cases hpasses : passes value = true
      · simp [hpasses, pure_eq_ok_iff]
      · simp only [hpasses]
        exact iff_of_false (fun hthrow => nomatch hthrow) fun hall => hpasses (hall value rfl)

theorem gives_of_checkNumber (htrimmed : document.Trimmed)
    (hcheck : document.checkNumber key passes fault = .ok ()) (default : α) :
    document.Gives key default (document.numberOr runGroup key default) := by
  obtain ⟨found, hnumber, _⟩ := checkNumber_eq_ok_iff.mp hcheck
  exact ⟨found, hnumber, numberOr_eq_getD htrimmed hnumber default⟩

/-- What a default has, and every finite number that passes the check, the number that is built has. -/
theorem numberOr_of_checkNumber (htrimmed : document.Trimmed)
    (hcheck : document.checkNumber key passes fault = .ok ()) {default : α} (property : α → Prop)
    (hdefault : property default)
    (hgiven : ∀ value, Scalar.isFinite value = true → passes value = true → property value) :
    property (document.numberOr runGroup key default) := by
  obtain ⟨found, hnumber, hpasses⟩ := checkNumber_eq_ok_iff.mp hcheck
  rw [numberOr_eq_getD htrimmed hnumber]
  cases found with
  | none => exact hdefault
  | some value => exact hgiven value (isFinite_of_number? hnumber) (hpasses value rfl)

end Numbers

/-! ### All settings -/

/-- The convention is the one that the section of the run names, or the default where it names none. -/
def GivesConvention (document : Document) (convention : FeeConvention) : Prop :=
  match document.nonBlank? runGroup "fee_convention" with
  | none => convention = .absorbed
  | some text => FeeConvention.ofText text = .ok convention

variable {document : Document}

theorem givesConvention_of_feeConvention {convention : FeeConvention}
    (hconvention : document.feeConvention = .ok convention) : document.GivesConvention convention := by
  unfold feeConvention at hconvention
  unfold GivesConvention
  cases htext : document.nonBlank? runGroup "fee_convention" with
  | none =>
      simp only [htext, Except.ok.injEq] at hconvention
      exact hconvention.symm
  | some text =>
      simp only [htext] at hconvention
      exact mapError_eq_ok_iff.mp hconvention

/-- **Settings that were checked.** After the check of a run, its settings can be built. Every number in
them is the one that its key has, or the default where it has none, the convention likewise, and the
terms pass the check of the simulation. -/
theorem runSettings_of_checkRun (htrimmed : document.Trimmed)
    (hcheck : document.checkRun Binary64 = .ok ()) :
    ∃ (terms : Terms Binary64) (risk : RiskTerms Binary64), document.runSettings = .ok (terms, risk) ∧
      document.Gives "initial_capital" ((10000 : Nat) : Binary64) terms.initialCapital ∧
      document.Gives "fee_rate" (Scalar.ratio 1 1000) terms.feeRate ∧
      document.Gives "risk_free_rate" 0 risk.riskFreeRate ∧
      document.Gives "var_confidence" (Scalar.ratio 95 100) risk.varConfidence ∧
      document.GivesConvention terms.feeConvention ∧ terms.check = .ok () := by
  obtain ⟨_, hcapital, hrest⟩ := bind_eq_ok_iff.mp hcheck
  obtain ⟨_, hfeeRate, hrest⟩ := bind_eq_ok_iff.mp hrest
  obtain ⟨convention, hconvention, hrest⟩ := bind_eq_ok_iff.mp hrest
  obtain ⟨_, hriskFreeRate, hvarConfidence⟩ := bind_eq_ok_iff.mp hrest
  obtain ⟨⟨hfinite, hleast⟩, hbelow⟩ := Terms.passes_iff.mp Terms.default_passes
  refine ⟨_, _, bind_eq_ok_iff.mpr ⟨convention, hconvention, rfl⟩,
    gives_of_checkNumber htrimmed hcapital _, gives_of_checkNumber htrimmed hfeeRate _,
    gives_of_checkNumber htrimmed hriskFreeRate _, gives_of_checkNumber htrimmed hvarConfidence _,
    givesConvention_of_feeConvention hconvention, Terms.passes_iff.mpr ⟨?_, ?_⟩⟩
  · refine numberOr_of_checkNumber htrimmed hcapital
      (fun capital => Scalar.isFinite capital = true ∧ ¬capital < Terms.leastCapital) ⟨hfinite, hleast⟩
      fun value hvalue hpasses => ⟨hvalue, by simpa using hpasses⟩
  · exact numberOr_of_checkNumber htrimmed hfeeRate
      (fun feeRate => Scalar.isBelow 0 Terms.feeRateBound feeRate = true) hbelow
      fun value _ hpasses => hpasses

namespace Sample

/-- Some numbers are written with blanks around them, one is blank, and one is not given. -/
def runText : String :=
  "[backtest]\ninitial_capital =   5e3 \nfee_rate =\nfee_convention = Legacy\nvar_confidence = .9\n"

end Sample

theorem runSettings_of_checkRun_sample :
    ∃ document, Document.ofText Sample.runText = .ok document ∧ document.Trimmed ∧
      document.checkRun Binary64 = .ok () ∧
      ∃ (terms : Terms Binary64) (risk : RiskTerms Binary64), document.runSettings = .ok (terms, risk) ∧
        document.Gives "initial_capital" ((10000 : Nat) : Binary64) terms.initialCapital ∧
        document.Gives "fee_rate" (Scalar.ratio 1 1000) terms.feeRate ∧
        document.Gives "risk_free_rate" 0 risk.riskFreeRate ∧
        document.Gives "var_confidence" (Scalar.ratio 95 100) risk.varConfidence ∧
        document.GivesConvention terms.feeConvention ∧ terms.check = .ok () := by
  have hsucceeds : succeedsWith (fun document => decide (document.checkRun Binary64 = .ok ()))
      (Document.ofText Sample.runText) = true := by
    decide +kernel
  obtain ⟨document, hread, htest⟩ := exists_of_succeedsWith hsucceeds
  have hcheck : document.checkRun Binary64 = .ok () := of_decide_eq_true htest
  have htrimmed : document.Trimmed := ofText_trimmed hread
  exact ⟨document, hread, htrimmed, hcheck, runSettings_of_checkRun htrimmed hcheck⟩

end Backtest.Config.Document
