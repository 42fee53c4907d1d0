import Backtest.Config.Plan

/-!
# Setting up a run

All of a configuration is checked before anything is built from it, and the terms of the run are
checked once more when they are built.
-/

namespace Backtest

/-- What a configuration says about a run, apart from its market. -/
structure Setup (α : Type) where
  plan : Plan α
  name : String
  terms : Terms α
  risk : RiskTerms α

namespace Config.Document

variable {α : Type} [Scalar α]

def setup (document : Document) : Except Error (Setup α) := do
  document.checkRun α
  document.checkStrategies α
  let plan ← document.plan
  let (terms, risk) ← document.runSettings
  terms.check
  return { plan, name := document.planName plan, terms, risk }

end Config.Document

end Backtest
