import Backtest.Proofs.Condition.Evaluation

/-!
# The truth of conditions

A formula over conditions is true on a date when it is true of what the conditions say on this date, and
on no other date. It has a value exactly when all its names are known and their series are on the same
dates. The series are compared two at a time, where they meet in a connective. So when there is no value,
the node that is to blame is the first one, in the order in which the nodes are evaluated, that is a name
without a series or has names with series on different dates below it.
-/

namespace Backtest

/-! ### Nodes in the order of evaluation -/

/-- The nodes of a formula, each behind the nodes below it, those on the left first. -/
def Formula.postorder {β : Type} : Formula β → List (Formula β)
  | atom value => [atom value]
  | and left right => left.postorder ++ right.postorder ++ [and left right]
  | or left right => left.postorder ++ right.postorder ++ [or left right]

theorem Formula.atoms_subset_of_mem_postorder {β : Type} {formula node : Formula β}
    (hnode : node ∈ formula.postorder) : node.atoms ⊆ formula.atoms := by
  induction formula with
  | atom value =>
      rw [postorder, List.mem_singleton] at hnode
      subst hnode
      exact List.Subset.refl _
  | and left right ihleft ihright | or left right ihleft ihright =>
      simp only [postorder, List.mem_append, List.mem_singleton] at hnode
      rcases hnode with (hleft | hright) | rfl
      · exact List.subset_append_of_subset_left _ (ihleft hleft)
      · exact List.subset_append_of_subset_right _ (ihright hright)
      · exact List.Subset.refl _

variable {conditions : ConditionSet} {dates : List Date}

/-! ### What the conditions say -/

namespace ConditionSet

/-- The condition is known and true on the date. -/
def holdsOn (conditions : ConditionSet) (date : Date) (name : String) : Bool :=
  (conditions.get? name).any fun series => series.get? date = some true

/-- The dates of each series that one of the names has. -/
def axes (conditions : ConditionSet) (names : List String) : List (List Date) :=
  names.filterMap fun name => (conditions.get? name).map Series.dates

/-- The series of the names are all on the same dates. -/
def OneAxis (conditions : ConditionSet) (names : List String) : Prop :=
  ∀ first ∈ conditions.axes names, ∀ second ∈ conditions.axes names, first = second

instance (conditions : ConditionSet) (names : List String) : Decidable (conditions.OneAxis names) :=
  inferInstanceAs (Decidable (∀ first ∈ conditions.axes names, ∀ second ∈ conditions.axes names,
    first = second))

/-- What a node is to blame for: a name has no series, or below a connective there are names with series on
different dates. -/
def nodeFault? (conditions : ConditionSet) : Condition → Option Error
  | .atom name => if name ∈ conditions.names then none else some (.unknownCondition name)
  | node => if conditions.OneAxis node.atoms then none else some (.schema .misalignedConditions)

theorem holdsOn_eq {name : String} {series : Series Bool} {date : Date} {truth : Bool}
    (hseries : conditions.get? name = some series) (htruth : series.get? date = some truth) :
    conditions.holdsOn date name = truth := by
  rw [holdsOn, hseries, Option.any_some, htruth]
  cases truth <;> rfl

theorem mem_axes_iff {names : List String} {axis : List Date} :
    axis ∈ conditions.axes names ↔
      ∃ name ∈ names, ∃ series, conditions.get? name = some series ∧ series.dates = axis := by
  simp [axes, List.mem_filterMap]

theorem Cover.oneAxis {names : List String} (hcover : conditions.Cover dates names) :
    conditions.OneAxis names := by
  have heq : ∀ axis ∈ conditions.axes names, axis = dates := by
    intro axis haxis
    obtain ⟨name, hname, series, hseries, rfl⟩ := mem_axes_iff.mp haxis
    obtain ⟨other, hother, hdates⟩ := hcover name hname
    cases hseries.symm.trans hother
    exact hdates
  intro first hfirst second hsecond
  rw [heq first hfirst, heq second hsecond]

theorem exists_cover_iff {names : List String} (hsome : names ≠ []) :
    (∃ dates, conditions.Cover dates names) ↔
      (∀ name ∈ names, name ∈ conditions.names) ∧ conditions.OneAxis names := by
  constructor
  · rintro ⟨dates, hcover⟩
    refine ⟨fun name hname => ?_, hcover.oneAxis⟩
    obtain ⟨series, hseries, _⟩ := hcover name hname
    exact NameTable.mem_names_iff.mpr ⟨series, hseries⟩
  · rintro ⟨hknown, haxis⟩
    obtain ⟨first, hfirst⟩ := List.exists_mem_of_ne_nil names hsome
    obtain ⟨series, hseries⟩ := NameTable.mem_names_iff.mp (hknown first hfirst)
    refine ⟨series.dates, fun name hname => ?_⟩
    obtain ⟨other, hother⟩ := NameTable.mem_names_iff.mp (hknown name hname)
    exact ⟨other, hother, haxis _ (mem_axes_iff.mpr ⟨name, hname, other, hother, rfl⟩) _
      (mem_axes_iff.mpr ⟨first, hfirst, series, hseries, rfl⟩)⟩

end ConditionSet

namespace Condition

variable {condition : Condition} {series : Series Bool}

theorem cover_of_eval (heval : eval conditions condition = .ok series) :
    conditions.Cover series.dates condition.atoms :=
  exists_eval_iff.mp ⟨series, heval, rfl⟩

theorem exists_eval_eq_ok_iff :
    (∃ series, eval conditions condition = .ok series) ↔
      (∀ name ∈ condition.atoms, name ∈ conditions.names) ∧ conditions.OneAxis condition.atoms := by
  obtain ⟨name, hname⟩ := exists_mem_atoms condition
  rw [← ConditionSet.exists_cover_iff (List.ne_nil_of_mem hname)]
  simp only [← exists_eval_iff]
  constructor
  · rintro ⟨series, heval⟩
    exact ⟨series.dates, series, heval, rfl⟩
  · rintro ⟨_, series, heval, _⟩
    exact ⟨series, heval⟩

/-! ### Truth on a date -/

theorem get?_eval (heval : eval conditions condition = .ok series) {date : Date}
    (hdate : date ∈ series.dates) :
    series.get? date = some (condition.holds (conditions.holdsOn date)) := by
  induction condition generalizing series with
  | atom name =>
      obtain ⟨truth, htruth⟩ := Series.mem_dates_iff.mp hdate
      rw [Formula.holds, ConditionSet.holdsOn_eq (eval_atom_eq_ok_iff.mp heval) htruth, htruth]
  | and left right ihleft ihright | or left right ihleft ihright =>
      obtain ⟨first, second, hfirst, hsecond, haxis, rfl⟩ := bind_combine_eq_ok_iff.mp heval
      rw [Series.dates_zipWith _ haxis] at hdate
      rw [Series.get?_zipWith _ haxis, ihleft hfirst hdate, ihright hsecond (haxis ▸ hdate)]
      rfl

/-! ### The first node that is to blame -/

theorem nodeFault?_of_cover {node : Condition} (hcover : conditions.Cover dates node.atoms) :
    conditions.nodeFault? node = none := by
  cases node with
  | atom name =>
      obtain ⟨series, hseries, _⟩ := hcover name (List.mem_singleton.mpr rfl)
      exact if_pos (NameTable.mem_names_iff.mpr ⟨series, hseries⟩)
  | and | or => exact if_pos hcover.oneAxis

theorem of_nodeFault? {node : Condition} {fault : Error} (hfault : conditions.nodeFault? node = some fault) :
    fault = .schema .misalignedConditions ∨
      ∃ name ∈ node.atoms, name ∉ conditions.names ∧ fault = .unknownCondition name := by
  cases node with
  | atom name =>
      rw [ConditionSet.nodeFault?] at hfault
      split_ifs at hfault with hname
      cases hfault
      exact .inr ⟨name, List.mem_singleton.mpr rfl, hname, rfl⟩
  | and | or =>
      rw [ConditionSet.nodeFault?] at hfault
      · split_ifs at hfault
        cases hfault
        exact .inl rfl
      · intro name hnode
        cases hnode

theorem findSome?_nodeFault?_of_eval_ok (heval : eval conditions condition = .ok series) :
    condition.postorder.findSome? conditions.nodeFault? = none := by
  rw [List.findSome?_eq_none_iff]
  intro node hnode
  have hcover : conditions.Cover series.dates node.atoms := fun name hname =>
    cover_of_eval heval name (Formula.atoms_subset_of_mem_postorder hnode hname)
  exact nodeFault?_of_cover hcover

theorem dates_mem_axes (heval : eval conditions condition = .ok series) :
    series.dates ∈ conditions.axes condition.atoms := by
  obtain ⟨name, hname⟩ := exists_mem_atoms condition
  exact ConditionSet.mem_axes_iff.mpr ⟨name, hname, cover_of_eval heval name hname⟩

/-- The step of either connective: when its sides report the first fault below them, so does it. -/
theorem findSome?_nodeFault?_of_bind_combine {connective : Bool → Bool → Bool}
    {left right node : Condition} {fault : Error}
    (hnode : conditions.nodeFault? node =
      if conditions.OneAxis (left.atoms ++ right.atoms) then none
      else some (.schema .misalignedConditions))
    (hleft : eval conditions left = .error fault →
      left.postorder.findSome? conditions.nodeFault? = some fault)
    (hright : eval conditions right = .error fault →
      right.postorder.findSome? conditions.nodeFault? = some fault)
    (heval : (do
      let left ← eval conditions left
      let right ← eval conditions right
      combine connective left right) = .error fault) :
    (left.postorder ++ right.postorder ++ [node]).findSome? conditions.nodeFault? = some fault := by
  rw [List.findSome?_append, List.findSome?_append]
  rcases bind_combine_eq_error_iff.mp heval with
    hfault | ⟨first, hfirst, hfault⟩ | ⟨first, second, hfirst, hsecond, haxis, rfl⟩
  · rw [hleft hfault]
    rfl
  · rw [findSome?_nodeFault?_of_eval_ok hfirst, hright hfault]
    rfl
  · have htwo : ¬conditions.OneAxis (left.atoms ++ right.atoms) := by
      intro hone
      refine haxis (hone _ ?_ _ ?_)
      · rw [ConditionSet.axes, List.filterMap_append]
        exact List.mem_append_left _ (dates_mem_axes hfirst)
      · rw [ConditionSet.axes, List.filterMap_append]
        exact List.mem_append_right _ (dates_mem_axes hsecond)
    rw [findSome?_nodeFault?_of_eval_ok hfirst, findSome?_nodeFault?_of_eval_ok hsecond,
      List.findSome?_singleton, hnode, if_neg htwo]
    rfl

theorem findSome?_nodeFault?_of_eval_error {fault : Error}
    (heval : eval conditions condition = .error fault) :
    condition.postorder.findSome? conditions.nodeFault? = some fault := by
  induction condition with
  | atom name =>
      have hnone : ¬∃ series, conditions.get? name = some series := by
        rintro ⟨series, hseries⟩
        rw [eval_atom_eq_ok_iff.mpr hseries] at heval
        cases heval
      rw [Formula.postorder, List.findSome?_singleton, ConditionSet.nodeFault?,
        if_neg (mt NameTable.mem_names_iff.mp hnone)]
      rw [eval] at heval
      split at heval
      · cases heval
      · cases heval
        rfl
  | and left right ihleft ihright | or left right ihleft ihright =>
      exact findSome?_nodeFault?_of_bind_combine rfl ihleft ihright heval

theorem eval_eq_error_iff {fault : Error} :
    eval conditions condition = .error fault ↔
      condition.postorder.findSome? conditions.nodeFault? = some fault := by
  refine ⟨findSome?_nodeFault?_of_eval_error, fun hfirst => ?_⟩
  cases heval : eval conditions condition with
  | ok series =>
      rw [findSome?_nodeFault?_of_eval_ok heval] at hfirst
      cases hfirst
  | error other =>
      rw [findSome?_nodeFault?_of_eval_error heval] at hfirst
      rw [Option.some.inj hfirst]

theorem of_eval_eq_error {fault : Error} (heval : eval conditions condition = .error fault) :
    fault = .schema .misalignedConditions ∨
      ∃ name ∈ condition.atoms, name ∉ conditions.names ∧ fault = .unknownCondition name := by
  obtain ⟨node, hnode, hfault⟩ := List.exists_of_findSome?_eq_some (eval_eq_error_iff.mp heval)
  refine (of_nodeFault? hfault).imp_right ?_
  rintro ⟨name, hname, hunknown⟩
  exact ⟨name, Formula.atoms_subset_of_mem_postorder hnode hname, hunknown⟩

/-- **Conditions are evaluated date by date.** A formula has a value exactly when all its names are known
and their series are on one axis. The value is on this axis, and on each of its dates it is what the
formula says of the conditions there. When there is no value, the error is that of the first node that is
to blame; it is either that series are not on the same dates or a name of the formula that is not
known. -/
theorem eval_pointwise (conditions : ConditionSet) (condition : Condition) :
    ((∃ series, eval conditions condition = .ok series) ↔
      (∀ name ∈ condition.atoms, name ∈ conditions.names) ∧ conditions.OneAxis condition.atoms) ∧
    (∀ series, eval conditions condition = .ok series →
      conditions.Cover series.dates condition.atoms ∧
        ∀ date ∈ series.dates,
          series.get? date = some (condition.holds (conditions.holdsOn date))) ∧
    ∀ fault, eval conditions condition = .error fault →
      condition.postorder.findSome? conditions.nodeFault? = some fault ∧
        (fault = .schema .misalignedConditions ∨
          ∃ name ∈ condition.atoms, name ∉ conditions.names ∧ fault = .unknownCondition name) := by
  refine ⟨exists_eval_eq_ok_iff, fun series heval => ⟨cover_of_eval heval, ?_⟩, fun fault heval => ?_⟩
  · exact fun date hdate => get?_eval heval hdate
  · exact ⟨eval_eq_error_iff.mp heval, of_eval_eq_error heval⟩

namespace Sample

/-- Two conditions on the same two dates, and one on the first of them alone. -/
def twoAxes : ConditionSet :=
  let both : Axis := ⟨[⟨1⟩, ⟨2⟩], by decide⟩
  let one : Axis := ⟨[⟨1⟩], by decide⟩
  .ofList [("calm", .onAxis both fun _ => true), ("up", .onAxis both fun date => date = ⟨1⟩),
    ("once", .onAxis one fun _ => true)]

end Sample

theorem eval_pointwise_sample :
    (∃ series, eval Sample.twoAxes (.and (.atom "up") (.atom "calm")) = .ok series ∧
      ∀ date ∈ series.dates, series.get? date =
        some (Sample.twoAxes.holdsOn date "up" && Sample.twoAxes.holdsOn date "calm")) ∧
    eval Sample.twoAxes (.or (.and (.atom "up") (.atom "once")) (.atom "ghost")) =
      .error (.schema .misalignedConditions) := by
  constructor
  · obtain ⟨hvalue, htruth, _⟩ := eval_pointwise Sample.twoAxes (.and (.atom "up") (.atom "calm"))
    obtain ⟨series, heval⟩ := hvalue.mpr (by decide +kernel)
    exact ⟨series, heval, (htruth series heval).2⟩
  · let condition : Condition := .or (.and (.atom "up") (.atom "once")) (.atom "ghost")
    have hfirst : condition.postorder.findSome? Sample.twoAxes.nodeFault? =
        some (.schema .misalignedConditions) := by decide +kernel
    obtain ⟨hvalue, _, hfault⟩ := eval_pointwise Sample.twoAxes condition
    cases heval : eval Sample.twoAxes condition with
    | ok series => exact absurd (hvalue.mp ⟨series, heval⟩) (by decide +kernel)
    | error fault =>
        rw [Option.some.inj (hfirst.symm.trans (hfault fault heval).1)]

end Condition

end Backtest
