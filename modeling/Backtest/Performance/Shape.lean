import Backtest.Performance.Returns

/-!
# Skewness and kurtosis

The shape of the distribution of daily returns, corrected for the size of the sample. Neither is
defined for a few observations or for returns that are all alike; both count as zero there.
-/

namespace Backtest.Returns

variable {α : Type} [Scalar α]

/-- The mean of a power of the distances to the mean. -/
def centralMoment (power : α → α) (returns : List α) : α :=
  let centre := mean returns
  returns.foldl (fun total value => total + power (value - centre)) 0 / count returns

def secondMoment (returns : List α) : α := centralMoment (fun d => d * d) returns

def thirdMoment (returns : List α) : α := centralMoment (fun d => d * d * d) returns

def fourthMoment (returns : List α) : α := centralMoment (fun d => d * d * d * d) returns

/-- Zero below three observations. -/
def skewness [Roots α] (returns : List α) : α :=
  if returns.length < 3 then 0
  else
    let second := secondMoment returns
    if second == 0 then 0
    else
      let n := count returns
      let raw := thirdMoment returns / Roots.power second (Scalar.ratio 3 2)
      Roots.sqrt (n * (n - 1)) / (n - ((2 : Nat) : α)) * raw

/-- The excess over the normal distribution; zero below four observations. -/
def kurtosis (returns : List α) : α :=
  if returns.length < 4 then 0
  else
    let second := secondMoment returns
    if second == 0 then 0
    else
      let n := count returns
      let excess := fourthMoment returns / (second * second) - ((3 : Nat) : α)
      ((n + 1) * excess + ((6 : Nat) : α)) * (n - 1)
        / ((n - ((2 : Nat) : α)) * (n - ((3 : Nat) : α)))

end Backtest.Returns
