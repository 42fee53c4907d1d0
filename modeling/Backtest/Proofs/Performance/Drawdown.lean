import Mathlib.Algebra.Order.Field.Rat
import Mathlib.Data.Nat.SuccPred
import Mathlib.Order.Interval.Finset.Fin
import Mathlib.Order.PartialSups
import Backtest.Performance.Drawdown
import Backtest.Proofs.Calendar.Order
import Backtest.Scalar.Rational

/-!
# The deepest fall

One pass over an equity curve finds its deepest fall: the least of the falls of each day's value below the
highest value up to the day. The pass carries the highest value so far with the first day that had it, and
the deepest fall so far with the first day that had it. A day on which the highest value is not positive
has no fall.
-/

namespace Backtest.Drawdown

variable {curve : List (EquityPoint Rat)} {last next top : Fin curve.length} {worst : Drawdown Rat}

def valueAt (curve : List (EquityPoint Rat)) (day : Fin curve.length) : Rat := curve[day].portfolioValue

/-- The highest value up to a day. -/
def peakAt (curve : List (EquityPoint Rat)) (day : Fin curve.length) : Rat :=
  partialSups (valueAt curve) day

/-- How far a day's value is below the highest value up to this day, as a share of the latter. -/
def fallAt (curve : List (EquityPoint Rat)) (day : Fin curve.length) : Rat :=
  (valueAt curve day - peakAt curve day) / peakAt curve day

/-- The falls of those days on which the highest value is positive, and zero for no fall. -/
def falls (curve : List (EquityPoint Rat)) (days : Set (Fin curve.length)) : Set Rat :=
  insert 0 {fall | ∃ day ∈ days, 0 < peakAt curve day ∧ fallAt curve day = fall}

/-- The first of the days with a fall of the given depth. -/
def IsBottom (curve : List (EquityPoint Rat)) (days : Set (Fin curve.length)) (depth : Rat)
    (day : Fin curve.length) : Prop :=
  IsLeast {day | day ∈ days ∧ 0 < peakAt curve day ∧ fallAt curve day = depth} day

/-- The first day with the highest value up to the given day. -/
def IsTop (curve : List (EquityPoint Rat)) (day top : Fin curve.length) : Prop :=
  IsLeast {start | valueAt curve start = peakAt curve day} top

/-- It is the deepest of the falls on the days, with the first days of its peak and of its trough. -/
structure DeepestAmong (curve : List (EquityPoint Rat)) (days : Set (Fin curve.length))
    (drawdown : Drawdown Rat) : Prop where
  depth_least : IsLeast (falls curve days) drawdown.depth
  span_eq : drawdown.depth < 0 → ∃ top bottom, IsBottom curve days drawdown.depth bottom ∧
    IsTop curve bottom top ∧ drawdown.span = some (curve[top].date, curve[bottom].date)
  span_eq_none : ¬drawdown.depth < 0 → drawdown.span = .none

/-! ### The highest value -/

theorem valueAt_le_peakAt {first : Fin curve.length} (hle : first ≤ last) :
    valueAt curve first ≤ peakAt curve last :=
  le_partialSups_of_le (valueAt curve) hle

theorem exists_valueAt_eq_peakAt (curve : List (EquityPoint Rat)) (day : Fin curve.length) :
    ∃ start ≤ day, valueAt curve start = peakAt curve day := by
  obtain ⟨start, hle, heq⟩ := exists_partialSups_eq (valueAt curve) day
  exact ⟨start, hle, heq.symm⟩

theorem peakAt_next (hnext : last ⋖ next) :
    peakAt curve next = max (peakAt curve last) (valueAt curve next) := by
  apply le_antisymm
  · refine partialSups_le _ _ _ fun day hday => ?_
    rcases hday.eq_or_lt with rfl | hlt
    · exact le_max_right _ _
    · exact le_max_of_le_left (valueAt_le_peakAt (hnext.le_of_lt hlt))
  · exact max_le (partialSups_monotone (valueAt curve) hnext.le) (valueAt_le_peakAt le_rfl)

theorem fallAt_of_peak (hvalue : valueAt curve last = peakAt curve last) :
    fallAt curve last = 0 := by
  rw [fallAt, hvalue, sub_self, zero_div]

theorem IsTop.of_peakAt_eq (htop : IsTop curve last top) (hpeak : peakAt curve next = peakAt curve last) :
    IsTop curve next top := by
  unfold IsTop
  rwa [hpeak]

/-! ### One more day -/

theorem le_next_iff (hnext : last ⋖ next) {day : Fin curve.length} :
    day ≤ next ↔ day = next ∨ day ≤ last := by
  constructor
  · intro hday
    exact hday.eq_or_lt.imp_right hnext.le_of_lt
  · rintro (rfl | hday)
    · exact le_rfl
    · exact hday.trans hnext.le

namespace DeepestAmong

theorem depth_nonpos {days : Set (Fin curve.length)} (hworst : DeepestAmong curve days worst) :
    worst.depth ≤ 0 :=
  hworst.depth_least.2 (Set.mem_insert 0 _)

/-- The next day does not fall deeper. -/
theorem keep (hworst : DeepestAmong curve (Set.Iic last) worst) (hnext : last ⋖ next)
    (hfall : 0 < peakAt curve next → worst.depth ≤ fallAt curve next) :
    DeepestAmong curve (Set.Iic next) worst where
  depth_least := by
    refine ⟨(Set.insert_subset_insert ?_) hworst.depth_least.1, ?_⟩
    · rintro fall ⟨day, hday, hpositive, rfl⟩
      exact ⟨day, hday.trans hnext.le, hpositive, rfl⟩
    · rintro fall (rfl | ⟨day, hday, hpositive, rfl⟩)
      · exact hworst.depth_nonpos
      · rcases (le_next_iff hnext).mp hday with rfl | hday
        · exact hfall hpositive
        · exact hworst.depth_least.2 (.inr ⟨day, hday, hpositive, rfl⟩)
  span_eq hnegative := by
    obtain ⟨top, bottom, ⟨⟨hbefore, hbottom⟩, hfirst⟩, htop, hspan⟩ := hworst.span_eq hnegative
    refine ⟨top, bottom, ⟨⟨hbefore.trans hnext.le, hbottom⟩, ?_⟩, htop, hspan⟩
    rintro day ⟨hday, hequal⟩
    rcases (le_next_iff hnext).mp hday with rfl | hday
    · exact hbefore.trans hnext.le
    · exact hfirst ⟨hday, hequal⟩
  span_eq_none := hworst.span_eq_none

/-- The next day falls deeper than those before it. -/
theorem deepen (hworst : DeepestAmong curve (Set.Iic last) worst) (hnext : last ⋖ next)
    (hpositive : 0 < peakAt curve next) (hfall : fallAt curve next < worst.depth)
    (htop : IsTop curve next top) :
    DeepestAmong curve (Set.Iic next)
      ⟨fallAt curve next, some (curve[top].date, curve[next].date)⟩ where
  depth_least := by
    refine ⟨.inr ⟨next, Set.self_mem_Iic, hpositive, rfl⟩, ?_⟩
    rintro fall (rfl | ⟨day, hday, hpeak, rfl⟩)
    · exact hfall.le.trans hworst.depth_nonpos
    · rcases (le_next_iff hnext).mp hday with rfl | hday
      · exact le_rfl
      · exact hfall.le.trans (hworst.depth_least.2 (.inr ⟨day, hday, hpeak, rfl⟩))
  span_eq _ := by
    refine ⟨top, next, ⟨⟨Set.self_mem_Iic, hpositive, rfl⟩, ?_⟩, htop, rfl⟩
    rintro day ⟨hday, hpeak, hequal⟩
    rcases (le_next_iff hnext).mp hday with rfl | hday
    · exact le_rfl
    · exact absurd (hworst.depth_least.2 (.inr ⟨day, hday, hpeak, rfl⟩)) (by rw [hequal]; exact hfall.not_ge)
  span_eq_none hpositive := absurd (hfall.trans_le hworst.depth_nonpos) hpositive

end DeepestAmong

/-! ### The pass -/

/-- What the pass carries once it has seen a day. -/
structure Tracked (curve : List (EquityPoint Rat)) (last : Fin curve.length) (peak : Rat)
    (peakDate : Date) (worst : Drawdown Rat) : Prop where
  peak_eq : peak = peakAt curve last
  first_top : ∃ top, IsTop curve last top ∧ peakDate = curve[top].date
  deepest : DeepestAmong curve (Set.Iic last) worst

variable {peak : Rat} {peakDate : Date}

namespace Tracked

/-- The value of the next day is the new highest one. -/
theorem climb (htracked : Tracked curve last peak peakDate worst) (hnext : last ⋖ next)
    (htaller : peak < valueAt curve next) :
    Tracked curve next (valueAt curve next) curve[next].date worst := by
  have hlower : peakAt curve last < valueAt curve next := htracked.peak_eq ▸ htaller
  have hpeak : peakAt curve next = valueAt curve next := by
    rw [peakAt_next hnext, max_eq_right hlower.le]
  refine ⟨hpeak.symm, ⟨next, ⟨hpeak.symm, fun start hstart => ?_⟩, rfl⟩, ?_⟩
  · by_contra hbefore
    have hle := valueAt_le_peakAt (hnext.le_of_lt (not_le.mp hbefore))
    exact hlower.not_ge (hpeak ▸ hstart ▸ hle)
  · refine htracked.deepest.keep hnext fun _ => ?_
    rw [fallAt_of_peak hpeak.symm]
    exact htracked.deepest.depth_nonpos

/-- The value of the next day is no new highest one. -/
theorem stay (htracked : Tracked curve last peak peakDate worst)
    (hpeak : peakAt curve next = peakAt curve last) {deepest : Drawdown Rat}
    (hdeepest : DeepestAmong curve (Set.Iic next) deepest) : Tracked curve next peak peakDate deepest where
  peak_eq := htracked.peak_eq.trans hpeak.symm
  first_top := htracked.first_top.imp fun _ htop => ⟨htop.1.of_peakAt_eq hpeak, htop.2⟩
  deepest := hdeepest

theorem exists_scan_next (htracked : Tracked curve last peak peakDate worst) (hnext : last ⋖ next)
    (rest : List (EquityPoint Rat)) :
    ∃ highest highestDate deepest, Tracked curve next highest highestDate deepest ∧
      scan peak peakDate worst (curve[next] :: rest) = scan highest highestDate deepest rest := by
  rw [scan]
  by_cases htaller : peak < curve[next].portfolioValue
  · exact ⟨_, _, _, htracked.climb hnext htaller, if_pos htaller⟩
  rw [if_neg htaller]
  have hpeak : peakAt curve next = peak := by
    rw [peakAt_next hnext, ← htracked.peak_eq]
    exact max_eq_left (not_lt.mp htaller)
  have hsame : peakAt curve next = peakAt curve last := hpeak.trans htracked.peak_eq
  by_cases hnone : peak ≤ 0
  · refine ⟨_, _, _, htracked.stay hsame (htracked.deepest.keep hnext fun hpositive => ?_), if_pos hnone⟩
    exact absurd (hpeak ▸ hpositive) hnone.not_gt
  rw [if_neg hnone]
  have hdepth : (curve[next].portfolioValue - peak) / peak = fallAt curve next := by
    rw [fallAt, hpeak]
    rfl
  simp only [hdepth]
  by_cases hdeeper : fallAt curve next < worst.depth
  · obtain ⟨top, htop, rfl⟩ := htracked.first_top
    refine ⟨_, _, _, htracked.stay hsame (htracked.deepest.deepen hnext ?_ hdeeper ?_), if_pos hdeeper⟩
    · exact hpeak ▸ not_le.mp hnone
    · exact htop.of_peakAt_eq hsame
  · exact ⟨_, _, _, htracked.stay hsame (htracked.deepest.keep hnext fun _ => not_lt.mp hdeeper),
      if_neg hdeeper⟩

theorem deepest_scan {rest : List (EquityPoint Rat)} (hrest : curve.drop (last.val + 1) = rest)
    (htracked : Tracked curve last peak peakDate worst) :
    DeepestAmong curve Set.univ (scan peak peakDate worst rest) := by
  -- The pass has seen the days up to `last`, and `rest` are the days that are left.
  induction rest generalizing last peak peakDate worst with
  | nil =>
      have hall : Set.Iic last = Set.univ := by
        ext day
        have hlength := List.drop_eq_nil_iff.mp hrest
        simp only [Set.mem_Iic, Set.mem_univ, iff_true, Fin.le_def]
        omega
      exact hall ▸ htracked.deepest
  | cons point rest ih =>
      have hlength : last.val + 1 < curve.length := by
        by_contra hover
        rw [List.drop_eq_nil_of_le (not_lt.mp hover)] at hrest
        cases hrest
      let next : Fin curve.length := ⟨last.val + 1, hlength⟩
      have hnext : last ⋖ next := Fin.covBy_iff.mpr (Nat.covBy_iff_add_one_eq.mpr rfl)
      rw [List.drop_eq_getElem_cons hlength] at hrest
      cases hrest
      obtain ⟨highest, highestDate, deepest, hstep, heq⟩ :=
        htracked.exists_scan_next hnext (curve.drop (last.val + 1 + 1))
      exact heq ▸ ih rfl hstep

end Tracked

theorem deepestAmong_none {days : Set (Fin curve.length)} (hlevel : ∀ day ∈ days, fallAt curve day = 0) :
    DeepestAmong curve days none where
  depth_least := by
    refine ⟨Set.mem_insert 0 _, ?_⟩
    rintro fall (rfl | ⟨day, hday, _, rfl⟩)
    · exact le_rfl
    · exact (hlevel day hday).ge
  span_eq hnegative := absurd hnegative (lt_irrefl 0)
  span_eq_none _ := rfl

theorem tracked_first (first : EquityPoint Rat) (rest : List (EquityPoint Rat)) :
    Tracked (first :: rest) ⟨0, Nat.zero_lt_succ _⟩ first.portfolioValue first.date none := by
  obtain ⟨start, hstart, hpeak⟩ := exists_valueAt_eq_peakAt (first :: rest) ⟨0, Nat.zero_lt_succ _⟩
  obtain rfl : start = ⟨0, Nat.zero_lt_succ _⟩ := le_antisymm hstart (Nat.zero_le _)
  refine ⟨hpeak, ⟨_, ⟨hpeak, fun day _ => Nat.zero_le _⟩, rfl⟩, deepestAmong_none fun day hday => ?_⟩
  obtain rfl : day = ⟨0, Nat.zero_lt_succ _⟩ := le_antisymm hday (Nat.zero_le _)
  exact fallAt_of_peak hpeak

theorem ofCurve_cons (first : EquityPoint Rat) (rest : List (EquityPoint Rat)) :
    ofCurve (first :: rest) = scan first.portfolioValue first.date none rest := by
  rw [ofCurve, scan, if_neg (lt_irrefl _)]
  -- The first day is its own peak and has no fall.
  simp [none]

theorem deepest_ofCurve (curve : List (EquityPoint Rat)) :
    DeepestAmong curve Set.univ (ofCurve curve) := by
  cases curve with
  | nil => exact deepestAmong_none fun day => day.elim0
  | cons first rest =>
      rw [ofCurve_cons]
      exact (tracked_first first rest).deepest_scan rfl

/-! ### Falls between any two days -/

/-- The falls from a positive value to the value of this or a later day, and zero for no fall. -/
def declines (curve : List (EquityPoint Rat)) : Set Rat :=
  insert 0 {fall | ∃ start finish, start ≤ finish ∧ 0 < valueAt curve start ∧
    (valueAt curve finish - valueAt curve start) / valueAt curve start = fall}

variable {start finish : Fin curve.length} {depth : Rat}

theorem fallAt_eq (hpositive : 0 < peakAt curve finish) :
    fallAt curve finish = valueAt curve finish / peakAt curve finish - 1 := by
  rw [fallAt, sub_div, div_self hpositive.ne']

/-- The higher the value that a fall starts from, the deeper it is. -/
theorem fallAt_le_decline (hvalue : 0 ≤ valueAt curve finish) (hle : start ≤ finish)
    (hpositive : 0 < valueAt curve start) :
    fallAt curve finish ≤ (valueAt curve finish - valueAt curve start) / valueAt curve start := by
  have hpeak := valueAt_le_peakAt hle
  calc
    fallAt curve finish = valueAt curve finish / peakAt curve finish - 1 :=
      fallAt_eq (hpositive.trans_le hpeak)
    _ ≤ valueAt curve finish / valueAt curve start - 1 :=
      sub_le_sub_right (div_le_div_of_nonneg_left hvalue hpositive hpeak) 1
    _ = (valueAt curve finish - valueAt curve start) / valueAt curve start := by
      rw [sub_div, div_self hpositive.ne']

theorem isLeast_declines (hvalues : ∀ day, 0 ≤ valueAt curve day)
    (hdepth : IsLeast (falls curve Set.univ) depth) : IsLeast (declines curve) depth := by
  constructor
  · refine Set.insert_subset_insert ?_ hdepth.1
    rintro fall ⟨day, _, hpositive, rfl⟩
    obtain ⟨start, hle, hpeak⟩ := exists_valueAt_eq_peakAt curve day
    exact ⟨start, day, hle, hpeak ▸ hpositive, by rw [hpeak, fallAt]⟩
  · rintro fall (rfl | ⟨start, finish, hle, hpositive, rfl⟩)
    · exact hdepth.2 (Set.mem_insert 0 _)
    · have hfall : fallAt curve finish ∈ falls curve Set.univ :=
        .inr ⟨finish, Set.mem_univ _, hpositive.trans_le (valueAt_le_peakAt hle), rfl⟩
      exact (hdepth.2 hfall).trans (fallAt_le_decline (hvalues finish) hle hpositive)

theorem neg_one_le_of_mem_falls (hvalues : ∀ day, 0 ≤ valueAt curve day)
    (hfall : depth ∈ falls curve Set.univ) : -1 ≤ depth := by
  rcases hfall with rfl | ⟨day, _, hpositive, rfl⟩
  · exact neg_one_lt_zero.le
  · rw [fallAt_eq hpositive, neg_le_sub_iff_le_add, le_add_iff_nonneg_left]
    exact div_nonneg (hvalues day) hpositive.le

/-! ### The dates of a fall -/

theorem IsTop.le (htop : IsTop curve last top) : top ≤ last := by
  obtain ⟨start, hle, hpeak⟩ := exists_valueAt_eq_peakAt curve last
  exact (htop.2 hpeak).trans hle

theorem durationDays_of_span {drawdown : Drawdown Rat} {first second : Date}
    (hspan : drawdown.span = some (first, second)) : drawdown.durationDays = first.daysTo second := by
  rw [durationDays, hspan]

theorem daysTo_nonneg (hascending : (curve.map EquityPoint.date).Pairwise (· ≤ ·)) (hle : start ≤ finish) :
    0 ≤ curve[start].date.daysTo curve[finish].date := by
  have hdates : curve[start].date ≤ curve[finish].date := by
    rcases hle.eq_or_lt with rfl | hlt
    · exact le_rfl
    · exact List.pairwise_iff_getElem.mp (List.pairwise_map.mp hascending) _ _ _ _ hlt
  exact sub_nonneg.mpr hdates

/-- **The pass finds the deepest fall.** The depth is the least of the falls below the highest value so
far, or zero if there is none. If no value is negative, it is also the least of the falls from any day to
a later one, and no fall is deeper than a loss of everything. A depth below zero has the dates of the
first day that falls so deep and of the first day with the highest value up to it, and the days between
them; otherwise there are no dates and no days. -/
theorem ofCurve_deepest_fall (curve : List (EquityPoint Rat)) :
    IsLeast (falls curve Set.univ) (ofCurve curve).depth ∧
    ((∀ day, 0 ≤ valueAt curve day) →
      IsLeast (declines curve) (ofCurve curve).depth ∧ -1 ≤ (ofCurve curve).depth) ∧
    ((ofCurve curve).depth < 0 →
      ∃ top bottom, IsBottom curve Set.univ (ofCurve curve).depth bottom ∧ IsTop curve bottom top ∧
        (ofCurve curve).span = some (curve[top].date, curve[bottom].date) ∧
        (ofCurve curve).durationDays = curve[top].date.daysTo curve[bottom].date ∧
        ((curve.map EquityPoint.date).Pairwise (· ≤ ·) → 0 ≤ (ofCurve curve).durationDays)) ∧
    (¬(ofCurve curve).depth < 0 →
      (ofCurve curve).span = .none ∧ (ofCurve curve).durationDays = 0) := by
  obtain ⟨hleast, hspan, hnospan⟩ := deepest_ofCurve curve
  refine ⟨hleast, fun hvalues => ?_, fun hnegative => ?_, fun hnone => ?_⟩
  · exact ⟨isLeast_declines hvalues hleast, neg_one_le_of_mem_falls hvalues hleast.1⟩
  · obtain ⟨top, bottom, hbottom, htop, hdates⟩ := hspan hnegative
    have hdays := durationDays_of_span hdates
    refine ⟨top, bottom, hbottom, htop, hdates, hdays, fun hascending => ?_⟩
    rw [hdays]
    exact daysTo_nonneg hascending htop.le
  · refine ⟨hnospan hnone, ?_⟩
    rw [durationDays, hnospan hnone]

namespace Sample

/-- Two falls from a peak on the second day, the deeper one before the value recovers. -/
def dip : List (EquityPoint Rat) :=
  [(0, 100), (1, 110), (2, 88), (5, 66), (6, 99)].map fun (day, value) =>
    ⟨⟨day⟩, value, value, .long, 0, 1, 0⟩

end Sample

theorem ofCurve_deepest_fall_sample :
    IsLeast (falls Sample.dip Set.univ) (-2 / 5) ∧ IsLeast (declines Sample.dip) (-2 / 5) ∧
      (∃ top bottom, IsBottom Sample.dip Set.univ (-2 / 5) bottom ∧ IsTop Sample.dip bottom top ∧
        (ofCurve Sample.dip).span = some (Sample.dip[top].date, Sample.dip[bottom].date)) ∧
      0 ≤ (ofCurve Sample.dip).durationDays ∧ (ofCurve Sample.dip).span = some (⟨1⟩, ⟨5⟩) := by
  have hdepth : (ofCurve Sample.dip).depth = -2 / 5 := by decide +kernel
  have hvalues : ∀ day, 0 ≤ valueAt Sample.dip day := by decide +kernel
  obtain ⟨hleast, hdeclines, hfall, _⟩ := ofCurve_deepest_fall Sample.dip
  obtain ⟨top, bottom, hbottom, htop, hspan, _, hdays⟩ := hfall (by decide +kernel)
  rw [hdepth] at hleast hbottom
  refine ⟨hleast, hdepth ▸ (hdeclines hvalues).1, ⟨top, bottom, hbottom, htop, hspan⟩, ?_, ?_⟩
  · exact hdays (by decide +kernel)
  · decide +kernel

end Backtest.Drawdown
