import Backtest.Command.Preparation
import Backtest.Host.Memory
import Backtest.Proofs.Config.Setup
import Backtest.Proofs.Market.Reading

/-!
# What a preparation makes sure of

A configuration that has been prepared together with its market has passed all checks that are made
before a run. The run makes its own checks, in other places and of other values. The two agree, on
whatever files the preparation has read, with one exception: only the run looks for two strategies of
one name.
-/

namespace Backtest.Command

open Host

/-! ### Sessions in memory -/

namespace Session

variable {β γ : Type} {memory left : Memory}

/-- What a session gives on a memory, and the memory it leaves. -/
def on (session : Session Simulated β) (memory : Memory) : Except Failure β × Memory :=
  session.run.run memory

theorem on_bind (session : Session Simulated β) (next : β → Session Simulated γ) (memory : Memory) :
    (session >>= next).on memory =
      match session.on memory with
      | (.ok value, between) => (next value).on between
      | (.error failure, between) => (.error failure, between) := by
  unfold on ExceptT.run StateT.run
  simp only [bind, ExceptT.bind, ExceptT.mk, StateT.bind, ExceptT.bindCont]
  cases session memory with
  | mk found between => cases found <;> rfl

theorem on_bind_of_ok {session : Session Simulated β} {next : β → Session Simulated γ} {value : β}
    {between : Memory} (hsession : session.on memory = (.ok value, between)) :
    (session >>= next).on memory = (next value).on between := by
  rw [on_bind, hsession]

theorem on_bind_eq_ok_iff {session : Session Simulated β} {next : β → Session Simulated γ} {result : γ} :
    (session >>= next).on memory = (.ok result, left) ↔
      ∃ value between, session.on memory = (.ok value, between) ∧
        (next value).on between = (.ok result, left) := by
  rw [on_bind]
  cases session.on memory with
  | mk found between => cases found <;> simp

theorem on_note (line : String) :
    (note line : Session Simulated Unit).on memory = (.ok (), memory.note line) := rfl

theorem on_read (path : String) :
    (read path : Session Simulated _).on memory = (.ok (memory.readFile path), memory) := rfl

theorem on_require_eq_ok_iff {checked : Except Error β} {value : β} :
    (require checked : Session Simulated β).on memory = (.ok value, left) ↔
      checked = .ok value ∧ memory = left := by
  have hrequire : (require checked : Session Simulated β).on memory =
      (checked.mapError .error, memory) := rfl
  rw [hrequire, Prod.mk.injEq, mapError_eq_ok_iff]

theorem on_pure_eq_ok_iff {value result : β} :
    (pure value : Session Simulated β).on memory = (.ok result, left) ↔ value = result ∧ memory = left := by
  have hpure : (pure value : Session Simulated β).on memory = (.ok value, memory) := rfl
  rw [hpure, Prod.mk.injEq, Except.ok.injEq]

theorem readFile_note (memory : Memory) (line : String) :
    (memory.note line).readFile = memory.readFile := rfl

/-- Notes leave the files as they are. -/
theorem exists_on_notes (lines : List String) (memory : Memory) :
    ∃ noted, (notes lines : Session Simulated Unit).on memory = (.ok (), noted) ∧
      noted.readFile = memory.readFile := by
  induction lines generalizing memory with
  | nil => exact ⟨memory, rfl, rfl⟩
  | cons line rest ih => exact ih (memory.note line)

/-- A session goes past its checks exactly when each of them has passed. -/
theorem exists_on_noteChecks_iff {checks : List Plan.Check} :
    (∃ left, (noteChecks checks : Session Simulated Unit).on memory = (.ok (), left)) ↔
      ∀ check ∈ checks, ∃ lines, check = .ok lines := by
  induction checks generalizing memory with
  | nil => exact iff_of_true ⟨memory, rfl⟩ (by simp)
  | cons check rest ih =>
      rw [List.forall_mem_cons]
      cases check with
      | ok lines =>
          obtain ⟨noted, hnoted, _⟩ := exists_on_notes lines memory
          have hgoesOn : (noteChecks (.ok lines :: rest) : Session Simulated Unit).on memory =
              (noteChecks rest : Session Simulated Unit).on noted := on_bind_of_ok hnoted
          rw [hgoesOn, ih]
          exact (and_iff_right ⟨lines, rfl⟩).symm
      | error failure =>
          refine iff_of_false ?_ fun hall => ?_
          · rintro ⟨left, hleft⟩
            cases hleft
          · obtain ⟨lines, hlines⟩ := hall.1
            cases hlines

end Session

/-! ### What is prepared -/

section Prepare

variable {α : Type} [Scalar α] {path : String} {asked : Option String} {memory : Memory}
  {prepared : Prepared α}

/-- The files of a memory hold a configuration and a market that pass every check. -/
structure Accepts (path : String) (asked : Option String) (memory : Memory) (document : Config.Document)
    (prepared : Prepared α) : Prop where
  document_eq : Config.Document.ofFile path (memory.readFile path) = .ok document
  setup_eq : document.setup = .ok prepared.setup
  symbol_eq : document.symbol asked = .ok prepared.symbol
  market_eq :
    let file := Path.join (document.dataDirectory path) (Market.fileName prepared.symbol)
    Market.ofFile prepared.symbol file (memory.readFile file) = .ok prepared.market
  checks_ok : ∀ check ∈ prepared.setup.plan.formulaChecks prepared.market.conditions.names,
    ∃ lines, check = .ok lines

open Session in
theorem exists_on_prepare_iff :
    (∃ left, (prepare α path asked : Session Simulated _).on memory = (.ok prepared, left)) ↔
      ∃ document, Accepts path asked memory document prepared := by
  unfold prepare
  constructor
  · rintro ⟨left, hrun⟩
    rw [on_bind_of_ok (on_note _), on_bind_of_ok (on_read _), readFile_note] at hrun
    obtain ⟨document, _, hloaded, hrun⟩ := on_bind_eq_ok_iff.mp hrun
    obtain ⟨hdocument, rfl⟩ := on_require_eq_ok_iff.mp hloaded
    obtain ⟨setup, _, hbuilt, hrun⟩ := on_bind_eq_ok_iff.mp hrun
    obtain ⟨hsetup, rfl⟩ := on_require_eq_ok_iff.mp hbuilt
    obtain ⟨noted, hnoted, hfiles⟩ := exists_on_notes
      ((document.unusedSections setup.plan).map unusedWarning) _
    rw [on_bind_of_ok (on_note _), on_bind_of_ok hnoted] at hrun
    obtain ⟨symbol, _, hnamed, hrun⟩ := on_bind_eq_ok_iff.mp hrun
    obtain ⟨hsymbol, rfl⟩ := on_require_eq_ok_iff.mp hnamed
    rw [on_bind_of_ok (on_note _), on_bind_of_ok (on_read _), readFile_note, hfiles] at hrun
    obtain ⟨market, _, hfetched, hrun⟩ := on_bind_eq_ok_iff.mp hrun
    obtain ⟨hmarket, rfl⟩ := on_require_eq_ok_iff.mp hfetched
    rw [on_bind_of_ok (on_note _), on_bind_of_ok (on_note _)] at hrun
    obtain ⟨_, _, hchecks, hlast⟩ := on_bind_eq_ok_iff.mp hrun
    obtain ⟨rfl, _⟩ := on_pure_eq_ok_iff.mp hlast
    exact ⟨document, hdocument, hsetup, hsymbol, hmarket, exists_on_noteChecks_iff.mp ⟨_, hchecks⟩⟩
  · rintro ⟨document, hdocument, hsetup, hsymbol, hmarket, hchecks⟩
    obtain ⟨setup, symbol, market⟩ := prepared
    obtain ⟨noted, hnoted, hfiles⟩ := exists_on_notes
      ((document.unusedSections setup.plan).map unusedWarning) _
    rw [on_bind_of_ok (on_note _), on_bind_of_ok (on_read _), readFile_note,
      on_bind_of_ok (on_require_eq_ok_iff.mpr ⟨hdocument, rfl⟩),
      on_bind_of_ok (on_require_eq_ok_iff.mpr ⟨hsetup, rfl⟩), on_bind_of_ok (on_note _),
      on_bind_of_ok hnoted, on_bind_of_ok (on_require_eq_ok_iff.mpr ⟨hsymbol, rfl⟩),
      on_bind_of_ok (on_note _), on_bind_of_ok (on_read _), readFile_note, hfiles, readFile_note,
      readFile_note]
    rw [on_bind_of_ok (on_require_eq_ok_iff.mpr ⟨hmarket, rfl⟩), on_bind_of_ok (on_note _),
      on_bind_of_ok (on_note _)]
    obtain ⟨left, hleft⟩ := exists_on_noteChecks_iff.mpr hchecks
    exact ⟨left, on_bind_of_ok hleft⟩

end Prepare

/-! ### What is left for the run -/

section Run

variable {α : Type} [Scalar α] {names : List String} {plan : Plan α}

omit [Scalar α] in
theorem readable_of_formulaChecks
    (hchecks : ∀ check ∈ plan.formulaChecks names, ∃ lines, check = .ok lines) : plan.Readable names := by
  rw [Plan.formulaChecks, List.forall_mem_append] at hchecks
  obtain ⟨hformulas, hvotes⟩ := hchecks
  refine ⟨fun strategy hstrategy entry hentry => ?_, ?_⟩
  · have hmem : Plan.checkFormula names strategy.name entry.1 entry.2 ∈
        plan.strategies.flatMap (Plan.strategyChecks names) :=
      List.mem_flatMap.mpr ⟨strategy, hstrategy, List.mem_map.mpr ⟨entry, hentry, rfl⟩⟩
    obtain ⟨lines, hlines⟩ := hformulas _ hmem
    unfold Plan.checkFormula at hlines
    split at hlines
    · next condition hparse => exact ⟨condition, hparse⟩
    · cases hlines
  · rintro strategies method rfl expression rfl
    obtain ⟨lines, hlines⟩ := hvotes _ (List.mem_singleton.mpr rfl)
    unfold Plan.checkVote at hlines
    split at hlines
    · next vote hparse => exact ⟨vote, hparse⟩
    · cases hlines

variable [LawfulScalar α] [Roots α] {path : String} {asked : Option String} {memory left : Host.Memory}
  {prepared : Prepared α}

/-- **What a check accepts, a run can run**, unless two strategies have the same name. On bars with
valid closes a prepared plan gives a result if the names of its strategies are distinct. If they are
not, the run is refused for a repeated name, and nothing else is ever left for it to find. -/
theorem run_of_prepare
    (hprepare : (prepare α path asked : Session Host.Simulated _).on memory = (.ok prepared, left))
    (hclose : ∀ bar ∈ prepared.market.bars, bar.hasValidClose = true) :
    let run := prepared.setup.plan.run prepared.market.bars prepared.market.conditions
      prepared.setup.terms prepared.setup.risk
    let names := prepared.setup.plan.strategies.map Strategy.name
    (names.Nodup → ∃ result, run = .ok result) ∧
      (¬names.Nodup → ∃ name, run = .error (.validation (.duplicateStrategy name))) := by
  obtain ⟨document, _, hsetup, _, hmarket, hchecks⟩ := exists_on_prepare_iff.mp ⟨left, hprepare⟩
  obtain ⟨hstrategies, hplan, hterms⟩ := Config.Document.setup_eq_ok hsetup
  have hchecked : prepared.setup.plan.Checked :=
    Config.Document.checked_of_checkStrategies hstrategies hplan
  have hreadable := readable_of_formulaChecks hchecks
  obtain ⟨hsome, haligned⟩ := Market.ofFile_accepted hmarket
  -- A formula that can be read names a condition, and a condition puts the bars in order.
  have hascending : (prepared.market.bars.map Bar.date).Pairwise (· < ·) := by
    obtain ⟨strategy, hstrategy, entry, hentry⟩ := hchecked.exists_expression
    obtain ⟨condition, hparse⟩ := hreadable.formulas strategy hstrategy entry hentry
    obtain ⟨name, hname⟩ := Condition.exists_mem_atoms condition
    exact haligned.ascending (Condition.mem_of_mem_atoms hparse hname)
  intro run names
  constructor
  · intro hnames
    exact (Plan.exists_run_iff hterms hsome hascending hclose haligned).mpr
      ((hchecked.ready_iff hreadable).mpr hnames)
  · intro hrepeated
    exact Plan.exists_run_eq_of_repeated haligned (hchecked.strategies_ready hreadable) hrepeated

end Run

/-! ### A strategy listed twice -/

namespace Sample

/-- A configuration that combines the listed strategies, of which it describes one. -/
def configuration (members : String) : String :=
  "[backtest]\nsymbol = SPX\n\n[aggregate]\nmethod = majority\nstrategies = " ++ members ++
    "\n\n[strategy.a]\nlong = up\n"

def table : String :=
  "date,open,high,low,close,volume,up\n2024-01-02,100,100,100,100,1000,1\n"

def memory (members : String) : Host.Memory where
  tree := ⟨[(["run.ini"], .file (Text.encode (configuration members))),
    (["SPX.csv"], .file (Text.encode table))]⟩
  notes := []

def preparation (members : String) : Except Failure (Prepared Rat) × Host.Memory :=
  (prepare Rat "run.ini" none : Session Host.Simulated _).on (memory members)

/-- Whether a run is refused needs no roots. -/
@[reducible]
def roots : Roots Rat := ⟨id, fun base _ => base⟩

def run (prepared : Prepared Rat) : Except Error (Result Rat) :=
  @Plan.run Rat _ roots prepared.setup.plan prepared.market.bars prepared.market.conditions
    prepared.setup.terms prepared.setup.risk

def names (prepared : Prepared Rat) : List String := prepared.setup.plan.strategies.map Strategy.name

/-- The preparation succeeds, and what is prepared passes a test. -/
def passes (test : Prepared Rat → Bool) : Except Failure (Prepared Rat) × Host.Memory → Bool
  | (.ok prepared, _) => test prepared
  | (.error _, _) => false

theorem exists_of_passes {test : Prepared Rat → Bool}
    {result : Except Failure (Prepared Rat) × Host.Memory} (hpasses : passes test result = true) :
    ∃ prepared left, result = (.ok prepared, left) ∧ test prepared = true := by
  obtain ⟨found, left⟩ := result
  cases found with
  | ok prepared => exact ⟨prepared, left, rfl, hpasses⟩
  | error failure => cases hpasses

def isTradable (prepared : Prepared Rat) : Bool := prepared.market.bars.all Bar.hasValidClose

def isRefusedFor (name : String) (prepared : Prepared Rat) : Bool :=
  match run prepared with
  | .ok _ => false
  | .error error => error = .validation (.duplicateStrategy name)

end Sample

theorem run_of_prepare_sample :
    ∃ prepared left, Sample.preparation "a" = (.ok prepared, left) ∧
      (∀ bar ∈ prepared.market.bars, bar.hasValidClose = true) ∧
      (Sample.names prepared).Nodup ∧ ∃ result, Sample.run prepared = .ok result := by
  have hpasses : Sample.passes
      (fun prepared => Sample.isTradable prepared && decide (Sample.names prepared).Nodup)
      (Sample.preparation "a") = true := by
    decide +kernel
  obtain ⟨prepared, left, hprepare, htest⟩ := Sample.exists_of_passes hpasses
  obtain ⟨htradable, hnames⟩ := (Bool.and_eq_true _ _).mp htest
  have hclose : ∀ bar ∈ prepared.market.bars, bar.hasValidClose = true := List.all_eq_true.mp htradable
  have hnodup : (Sample.names prepared).Nodup := of_decide_eq_true hnames
  exact ⟨prepared, left, hprepare, hclose, hnodup,
    (@run_of_prepare Rat _ _ Sample.roots _ _ _ _ _ hprepare hclose).1 hnodup⟩

/-- A configuration may list a strategy twice. It passes every check of a preparation, and the run
refuses it. -/
theorem exists_prepare_and_run_refused :
    ∃ prepared left, Sample.preparation "a, a" = (.ok prepared, left) ∧
      (∀ bar ∈ prepared.market.bars, bar.hasValidClose = true) ∧
      Sample.run prepared = .error (.validation (.duplicateStrategy "a")) := by
  have hpasses : Sample.passes
      (fun prepared => Sample.isTradable prepared && Sample.isRefusedFor "a" prepared)
      (Sample.preparation "a, a") = true := by
    decide +kernel
  obtain ⟨prepared, left, hprepare, htest⟩ := Sample.exists_of_passes hpasses
  obtain ⟨htradable, hrefused⟩ := (Bool.and_eq_true _ _).mp htest
  refine ⟨prepared, left, hprepare, List.all_eq_true.mp htradable, ?_⟩
  unfold Sample.isRefusedFor at hrefused
  split at hrefused
  · cases hrefused
  · next error hrun => rw [hrun, of_decide_eq_true hrefused]

end Backtest.Command
