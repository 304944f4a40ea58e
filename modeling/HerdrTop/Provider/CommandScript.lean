import HerdrTop.Provider.Facts
import Mathlib.Data.Bool.AllAny
import Mathlib.Data.List.TakeWhile

/-!
# Sanitized command scripts

The head of a command is shown without the assignments before it. `sanitizeCommandScript` strips assignments
and `env` wrappers for as long as it finds them, and when it stops at a wrapper that it does not understand it
drops every assignment after it. Texts are their characters. Which characters outside ASCII are alphanumeric is
a parameter.

`Leads` describes the scripts that the stripping is meant for, and `EnvFault` the wrappers that it does not
understand, both without the code.

## What is proved

* `isAssignmentToken_iff`: what an assignment token is.
* `stripPrefixes_done`: the stripping ends.
* `sanitize_hides_assignments`: the result for every script that `Leads` describes, and at every `EnvFault`.
-/

namespace HerdrTop.CommandScript

/-! ### The code -/

section Code

variable (alphanumeric : Char → Bool)

def trimStart (value : List Char) : List Char := value.dropWhile isWhiteSpace

def leadingToken (value : List Char) : Option (List Char × List Char) :=
  if value = [] then none
  else some (value.takeWhile (!isWhiteSpace ·), value.dropWhile (!isWhiteSpace ·))

/-- The words of a text (`split_whitespace`). -/
def splitWhitespace (value : List Char) : List (List Char) :=
  (value.splitOnP isWhiteSpace).filter fun word => word ≠ []

def isQuote (c : Char) : Bool := c = '\'' || c = '"'

def stripMatchedQuotePair : List Char → List Char
  | [] => []
  | first :: rest => if isQuote first ∧ rest.getLast? = some first then rest.dropLast else first :: rest

def isWord (c : Char) : Bool := c = '_' || alphanumeric c

def isAssignmentToken (token : List Char) : Bool :=
  let token := stripMatchedQuotePair token
  let name := token.takeWhile (· ≠ '=')
  token.contains '=' && name ≠ [] && name.all (isWord alphanumeric)

def stripAssignmentPrefix (script : List Char) : Option (List Char) :=
  match leadingToken script with
  | none => none
  | some (assignment, remainder) => if isAssignmentToken alphanumeric assignment then some remainder else none

def envName : List Char := "env".toList

/-- The spellings of the option for an empty environment. -/
def ignoreSpellings : List (List Char) := ["-".toList, "-i".toList, "--ignore-environment".toList]

/-- The spellings of the option that takes a variable away, with its name in the next word. -/
def unsetSpellings : List (List Char) := ["-u".toList, "--unset".toList]

def unsetEquals : List Char := "--unset=".toList

def endOfOptions : List Char := "--".toList

/-- What an `env` wrapper runs, from its options on; each round takes one option. -/
def envCommandFrom : ℕ → List Char → Option (List Char)
  | 0, _ => none
  | fuel + 1, remainder =>
    match leadingToken remainder with
    | none => none
    | some (token, afterToken) =>
      if token ∈ ignoreSpellings then envCommandFrom fuel (trimStart afterToken)
      else if token ∈ unsetSpellings then
        match leadingToken (trimStart afterToken) with
        | none => none
        | some (_, afterName) => envCommandFrom fuel (trimStart afterName)
      else if token = endOfOptions then
        if trimStart afterToken = [] then none else some (trimStart afterToken)
      else if unsetEquals <+: token ∧ unsetEquals.length < token.length then
        envCommandFrom fuel (trimStart afterToken)
      else if token.head? = some '-' then none
      else some remainder

def envCommand (remainder : List Char) : Option (List Char) :=
  envCommandFrom (remainder.length + 1) remainder

def stripEnvWrapperPrefix (script : List Char) : Option (List Char) :=
  match leadingToken script with
  | none => none
  | some (command, remainder) => if command = envName then envCommand (trimStart remainder) else none

/-- One word after a wrapper that is not understood: whether an assignment was dropped, and what is kept. -/
def redactStep : Bool × List Char → List Char → Bool × List Char
  | (removedAssignment, redacted), token =>
    if isAssignmentToken alphanumeric token then (true, redacted)
    else (removedAssignment, (if redacted = [] then redacted else redacted ++ [' ']) ++ token)

/-- Drops the assignments after a wrapper that is not understood. -/
def redactUnclassifiedEnvWrapperAssignments (script : List Char) : Option (List Char) :=
  match leadingToken script with
  | none => none
  | some (command, remainder) =>
    if command ≠ envName ∨ (stripEnvWrapperPrefix script).isSome then none
    else
      let (removedAssignment, redacted) := (splitWhitespace remainder).foldl (redactStep alphanumeric) (false, [])
      if removedAssignment then some redacted else none

/-- One assignment or wrapper less. -/
def stripPrefix (script : List Char) : Option (List Char) :=
  ((stripAssignmentPrefix alphanumeric script).or (stripEnvWrapperPrefix script)).map trimStart

def stripPrefixesFrom : ℕ → List Char → List Char
  | 0, script => script
  | fuel + 1, script =>
    match stripPrefix alphanumeric script with
    | none => script
    | some rest => stripPrefixesFrom fuel rest

/-- Without any assignments and wrappers that lead the script. -/
def stripPrefixes (script : List Char) : List Char := stripPrefixesFrom alphanumeric script.length script

def truncate60 (value : List Char) : List Char := value.take 60

def sanitizeCommandScript (script : List Char) : List Char :=
  let remainder := stripPrefixes alphanumeric script
  truncate60 ((redactUnclassifiedEnvWrapperAssignments alphanumeric remainder).getD remainder)

example : sanitizeCommandScript Char.isAlphanum "OUTER=value env -i INNER=secret env -- curl".toList =
    "curl".toList := by decide

end Code

/-! ### The scripts -/

/-- Text without white space. -/
structure Token where
  text : List Char
  nonempty : text ≠ []
  solid : ∀ c ∈ text, isWhiteSpace c = false

/-- White space between tokens. -/
structure Gap where
  text : List Char
  nonempty : text ≠ []
  blank : ∀ c ∈ text, isWhiteSpace c = true

/-- `NAME=value` without white space, bare or in quotes. -/
structure Assignment (alphanumeric : Char → Bool) where
  name : List Char
  value : List Char
  quote : Option Char
  named : name ≠ []
  word : ∀ c ∈ name, isWord alphanumeric c = true
  matched : ∀ q ∈ quote, isQuote q = true

def Assignment.text {alphanumeric : Char → Bool} (a : Assignment alphanumeric) : List Char :=
  match a.quote with
  | none => a.name ++ '=' :: a.value
  | some q => q :: (a.name ++ '=' :: a.value ++ [q])

/-- An option of `env` that is understood. -/
inductive EnvOption
  | ignoreEnvironment (spelling : List Char) (h : spelling ∈ ignoreSpellings)
  | unset (spelling : List Char) (h : spelling ∈ unsetSpellings) (gap : Gap) (name : Token)
  | unsetEquals (name : Token)

def EnvOption.text : EnvOption → List Char
  | .ignoreEnvironment spelling _ => spelling
  | .unset spelling _ gap name => spelling ++ gap.text ++ name.text
  | .unsetEquals name => CommandScript.unsetEquals ++ name.text

/-- Options, each after a gap. -/
def optionsText (options : List (Gap × EnvOption)) : List Char :=
  options.flatMap fun option => option.1.text ++ option.2.text

/-- A text that starts with no white space. -/
def Solid (text : List Char) : Prop := ∀ c ∈ text.head?, isWhiteSpace c = false

/-- A text that is empty or starts with white space. -/
def Open (text : List Char) : Prop := ∀ c ∈ text.head?, isWhiteSpace c = true

/-- A script that leads to a command, or to what else it ends in, with assignments and wrappers before it. -/
inductive Leads (alphanumeric : Char → Bool) : List Char → List Char → Prop
  | here (command : List Char) : Leads alphanumeric command command
  | assignment {script command : List Char} (a : Assignment alphanumeric) (gap : Gap) :
      (∀ c ∈ a.text, isWhiteSpace c = false) → Solid script → Leads alphanumeric script command →
      Leads alphanumeric (a.text ++ gap.text ++ script) command
  /-- What follows the options does not look like one. -/
  | env {script command : List Char} (options : List (Gap × EnvOption)) (gap : Gap) :
      script ≠ [] → script.head? ≠ some '-' → Solid script → Leads alphanumeric script command →
      Leads alphanumeric (envName ++ optionsText options ++ gap.text ++ script) command
  /-- The options end with dashes. -/
  | envDashes {script command : List Char} (options : List (Gap × EnvOption)) (before after : Gap) :
      script ≠ [] → Solid script → Leads alphanumeric script command →
      Leads alphanumeric (envName ++ optionsText options ++ before.text ++ endOfOptions ++ after.text ++ script)
        command

/-- A spelling of an option that is understood. -/
def Supported (option : List Char) : Prop :=
  option ∈ ignoreSpellings ∨ option ∈ unsetSpellings ∨ option = endOfOptions ∨
    ∃ name : Token, option = unsetEquals ++ name.text

/-- What can follow the options of a wrapper that is not understood. -/
inductive EnvFault : List Char → Prop
  /-- Nothing to run. -/
  | noCommand {blank : List Char} : (∀ c ∈ blank, isWhiteSpace c = true) → EnvFault blank
  /-- Nothing to run after the dashes. -/
  | noCommandAfterDashes {blank : List Char} (gap : Gap) : (∀ c ∈ blank, isWhiteSpace c = true) →
      EnvFault (gap.text ++ endOfOptions ++ blank)
  /-- No name to take away. -/
  | noName {blank spelling : List Char} (gap : Gap) : spelling ∈ unsetSpellings →
      (∀ c ∈ blank, isWhiteSpace c = true) → EnvFault (gap.text ++ spelling ++ blank)
  /-- An option that is not understood. -/
  | unsupported {rest : List Char} (gap : Gap) (option : Token) : option.text.head? = some '-' →
      ¬Supported option.text → Open rest → EnvFault (gap.text ++ option.text ++ rest)

/-! ### Tokens and gaps -/

variable {alphanumeric : Char → Bool} {rest token text : List Char}

theorem Gap.opens (gap : Gap) (rest : List Char) : Open (gap.text ++ rest) := by
  obtain ⟨_ | ⟨c, gap⟩, hne, hblank⟩ := gap
  · exact absurd rfl hne
  · intro c' hc'
    cases hc'
    exact hblank c List.mem_cons_self

theorem leadingToken_append (hsolid : ∀ c ∈ token, isWhiteSpace c = false) (hrest : Open rest)
    (hne : token ++ rest ≠ []) : leadingToken (token ++ rest) = some (token, rest) := by
  have hall : ∀ c ∈ token, (!isWhiteSpace c) = true := fun c hc => by rw [hsolid c hc]; rfl
  have hstop : rest.takeWhile (!isWhiteSpace ·) = [] ∧ rest.dropWhile (!isWhiteSpace ·) = rest := by
    cases rest with
    | nil => exact ⟨rfl, rfl⟩
    | cons c rest =>
      have hc := hrest c rfl
      simp [hc]
  rw [leadingToken, if_neg hne, List.takeWhile_append_of_pos hall, List.dropWhile_append_of_pos hall, hstop.1,
    hstop.2, List.append_nil]

theorem Token.leads (t : Token) (hrest : Open rest) : leadingToken (t.text ++ rest) = some (t.text, rest) :=
  leadingToken_append t.solid hrest (by simp [t.nonempty])

theorem trimStart_solid (h : Solid rest) : trimStart rest = rest := by
  cases rest with
  | nil => rfl
  | cons c rest =>
    have hc := h c rfl
    simp [trimStart, hc]

theorem trimStart_append (hblank : ∀ c ∈ text, isWhiteSpace c = true) (rest : List Char) :
    trimStart (text ++ rest) = trimStart rest := List.dropWhile_append_of_pos hblank

theorem trimStart_blank (hblank : ∀ c ∈ text, isWhiteSpace c = true) : trimStart text = [] :=
  List.dropWhile_eq_nil_iff.mpr hblank

theorem length_trimStart_le (text : List Char) : (trimStart text).length ≤ text.length :=
  List.length_dropWhile_le _ _

/-- A token takes its text off. -/
theorem leadingToken_length {value remainder : List Char} (h : leadingToken value = some (token, remainder)) :
    value.length = token.length + remainder.length := by
  unfold leadingToken at h
  split_ifs at h
  cases h
  rw [← List.length_append, List.takeWhile_append_dropWhile]

/-! ### Options -/

/-- A round of the wrapper, whatever is left of the fuel. -/
theorem envCommandFrom_fuel {fuel fuel' : ℕ} (h : rest.length < fuel) (h' : rest.length < fuel') :
    envCommandFrom fuel rest = envCommandFrom fuel' rest := by
  induction fuel generalizing fuel' rest with
  | zero => omega
  | succ fuel ih =>
    obtain ⟨fuel', rfl⟩ : ∃ n, fuel' = n + 1 := ⟨fuel' - 1, by omega⟩
    unfold envCommandFrom
    cases hlead : leadingToken rest with
    | none => rfl
    | some split =>
      obtain ⟨token, afterToken⟩ := split
      have hlength := leadingToken_length hlead
      have htrim := length_trimStart_le afterToken
      dsimp only
      split_ifs with hignore hunset
      · have hpos : 0 < token.length := List.length_pos_iff.mpr (by rintro rfl; exact absurd hignore (by decide))
        exact ih (by omega) (by omega)
      · have hpos : 0 < token.length := List.length_pos_iff.mpr (by rintro rfl; exact absurd hunset (by decide))
        cases hname : leadingToken (trimStart afterToken) with
        | none => rfl
        | some split =>
          obtain ⟨name, afterName⟩ := split
          have hlength' := leadingToken_length hname
          have htrim' := length_trimStart_le afterName
          exact ih (by omega) (by omega)
      · rfl
      · rfl
      · rename_i hequals
        have hpos : 0 < token.length := by omega
        exact ih (by omega) (by omega)
      · rfl
      · rfl

/-- A round of the wrapper. -/
theorem envCommand_step {afterToken : List Char} (h : leadingToken rest = some (token, afterToken)) :
    envCommand rest =
      if token ∈ ignoreSpellings then envCommand (trimStart afterToken)
      else if token ∈ unsetSpellings then
        match leadingToken (trimStart afterToken) with
        | none => none
        | some (_, afterName) => envCommand (trimStart afterName)
      else if token = endOfOptions then
        if trimStart afterToken = [] then none else some (trimStart afterToken)
      else if unsetEquals <+: token ∧ unsetEquals.length < token.length then envCommand (trimStart afterToken)
      else if token.head? = some '-' then none
      else some rest := by
  have hlength := leadingToken_length h
  have htrim := length_trimStart_le afterToken
  rw [envCommand, envCommandFrom, h]
  dsimp only
  split_ifs with hignore hunset
  · have hpos : 0 < token.length := List.length_pos_iff.mpr (by rintro rfl; exact absurd hignore (by decide))
    exact envCommandFrom_fuel (by omega) (by omega)
  · have hpos : 0 < token.length := List.length_pos_iff.mpr (by rintro rfl; exact absurd hunset (by decide))
    cases hname : leadingToken (trimStart afterToken) with
    | none => rfl
    | some split =>
      obtain ⟨name, afterName⟩ := split
      have hlength' := leadingToken_length hname
      have htrim' := length_trimStart_le afterName
      exact envCommandFrom_fuel (by omega) (by omega)
  · rfl
  · rfl
  · rename_i hequals
    have hpos : 0 < token.length := by omega
    exact envCommandFrom_fuel (by omega) (by omega)
  · rfl
  · rfl

/-- The spellings are different from each other, and each starts with a dash. -/
theorem spellings_apart : (∀ spelling ∈ unsetSpellings, spelling ∉ ignoreSpellings) ∧
    endOfOptions ∉ ignoreSpellings ∧ endOfOptions ∉ unsetSpellings := by decide

theorem spelling_dash : (∀ spelling ∈ ignoreSpellings, spelling.head? = some '-') ∧
    (∀ spelling ∈ unsetSpellings, spelling.head? = some '-') ∧ endOfOptions.head? = some '-' ∧
    unsetEquals.head? = some '-' := by decide

theorem spelling_solid : (∀ spelling ∈ ignoreSpellings, ∀ c ∈ spelling, isWhiteSpace c = false) ∧
    (∀ spelling ∈ unsetSpellings, ∀ c ∈ spelling, isWhiteSpace c = false) ∧
    (∀ c ∈ endOfOptions, isWhiteSpace c = false) ∧ ∀ c ∈ unsetEquals, isWhiteSpace c = false := by
  have hall : ∀ spelling ∈ ignoreSpellings ++ unsetSpellings ++ [endOfOptions, unsetEquals],
      (spelling.all fun c => decide (isWhiteSpace c = false)) = true := by decide +kernel
  have hsolid : ∀ spelling ∈ ignoreSpellings ++ unsetSpellings ++ [endOfOptions, unsetEquals],
      ∀ c ∈ spelling, isWhiteSpace c = false := fun spelling hspelling =>
    List.all_iff_forall_prop.mp (hall spelling hspelling)
  simp only [List.mem_append, List.mem_cons, List.not_mem_nil, or_false] at hsolid
  exact ⟨fun spelling h => hsolid spelling (.inl (.inl h)), fun spelling h => hsolid spelling (.inl (.inr h)),
    hsolid _ (.inr (.inl rfl)), hsolid _ (.inr (.inr rfl))⟩

/-- The equals sign tells the option with a name in it from the others. -/
theorem unsetEquals_apart (name : List Char) : unsetEquals ++ name ∉ ignoreSpellings ∧
    unsetEquals ++ name ∉ unsetSpellings ∧ unsetEquals ++ name ≠ endOfOptions := by
  have hequals : (unsetEquals ++ name)[7]? = some '=' := by
    rw [List.getElem?_append_left (by decide)]
    decide
  have hothers : (∀ spelling ∈ ignoreSpellings, spelling[7]? ≠ some '=') ∧
      (∀ spelling ∈ unsetSpellings, spelling[7]? ≠ some '=') ∧ endOfOptions[7]? ≠ some '=' := by decide
  exact ⟨fun h => hothers.1 _ h hequals, fun h => hothers.2.1 _ h hequals,
    fun h => hothers.2.2 (h ▸ hequals)⟩

theorem Token.solid_append (t : Token) (rest : List Char) : Solid (t.text ++ rest) := by
  obtain ⟨_ | ⟨c, text⟩, hne, hsolid⟩ := t
  · exact absurd rfl hne
  · intro c' hc'
    cases hc'
    exact hsolid c List.mem_cons_self

/-- A spelling is a token. -/
theorem leads_of_dash {spelling : List Char} (hdash : spelling.head? = some '-')
    (hsolid : ∀ c ∈ spelling, isWhiteSpace c = false) (hrest : Open rest) :
    leadingToken (spelling ++ rest) = some (spelling, rest) := by
  refine leadingToken_append hsolid hrest fun hnil => ?_
  rw [(List.append_eq_nil_iff.mp hnil).1] at hdash
  cases hdash

theorem solid_of_dash {spelling : List Char} (hdash : spelling.head? = some '-') (rest : List Char) :
    Solid (spelling ++ rest) := by
  cases spelling with
  | nil => cases hdash
  | cons c spelling =>
    intro c' hc'
    cases hdash
    cases hc'
    rfl

/-- The first word of an option. -/
theorem EnvOption.solid (option : EnvOption) (rest : List Char) : Solid (option.text ++ rest) := by
  cases option with
  | ignoreEnvironment spelling h =>
    exact solid_of_dash (spelling_dash.1 _ h) rest
  | unset spelling h gap name =>
    show Solid (spelling ++ gap.text ++ name.text ++ rest)
    rw [List.append_assoc, List.append_assoc]
    exact solid_of_dash (spelling_dash.2.1 _ h) _
  | unsetEquals name => exact fun c hc => by cases hc; rfl

/-- An option is passed over. -/
theorem envCommand_option (option : EnvOption) (hrest : Open rest) :
    envCommand (option.text ++ rest) = envCommand (trimStart rest) := by
  cases option with
  | ignoreEnvironment spelling h =>
    have hlead := leads_of_dash (spelling_dash.1 _ h) (spelling_solid.1 _ h) hrest
    exact (envCommand_step hlead).trans (if_pos h)
  | unset spelling h gap name =>
    have hlead := leads_of_dash (spelling_dash.2.1 _ h) (spelling_solid.2.1 _ h)
      (gap.opens (name.text ++ rest))
    have hgap : trimStart (gap.text ++ (name.text ++ rest)) = name.text ++ rest := by
      rw [trimStart_append gap.blank, trimStart_solid (name.solid_append rest)]
    show envCommand (spelling ++ gap.text ++ name.text ++ rest) = _
    rw [List.append_assoc, List.append_assoc]
    refine (envCommand_step hlead).trans ?_
    rw [if_neg (spellings_apart.1 _ h), if_pos h, hgap, name.leads hrest]
  | unsetEquals name =>
    have hsolid : ∀ c ∈ unsetEquals ++ name.text, isWhiteSpace c = false := by
      intro c hc
      rcases List.mem_append.mp hc with hc | hc
      · exact spelling_solid.2.2.2 c hc
      · exact name.solid c hc
    have hlead := leadingToken_append hsolid hrest (by simp [name.nonempty])
    obtain ⟨hignore, hunset, hdashes⟩ := unsetEquals_apart name.text
    refine (envCommand_step hlead).trans ?_
    rw [if_neg hignore, if_neg hunset, if_neg hdashes, if_pos]
    refine ⟨List.prefix_append _ _, ?_⟩
    have hpos := List.length_pos_iff.mpr name.nonempty
    rw [List.length_append]
    omega

theorem optionsText_opens {tail : List Char} (options : List (Gap × EnvOption)) (htail : Open tail) :
    Open (optionsText options ++ tail) := by
  cases options with
  | nil => exact htail
  | cons option options =>
    rw [optionsText, List.flatMap_cons, List.append_assoc, List.append_assoc]
    exact option.1.opens _

/-- Options are passed over, one after the other. -/
theorem envCommand_options {tail : List Char} (options : List (Gap × EnvOption)) (htail : Open tail) :
    envCommand (trimStart (optionsText options ++ tail)) = envCommand (trimStart tail) := by
  induction options with
  | nil => rfl
  | cons option options ih =>
    rw [optionsText, List.flatMap_cons, List.append_assoc, List.append_assoc,
      trimStart_append option.1.blank, trimStart_solid (option.2.solid _)]
    exact (envCommand_option option.2 (optionsText_opens options htail)).trans ih

/-- What does not look like an option is run. -/
theorem envCommand_command (hne : rest ≠ []) (hsolid : Solid rest) (hdash : rest.head? ≠ some '-') :
    envCommand rest = some rest := by
  obtain ⟨c, text, rfl⟩ := List.exists_cons_of_ne_nil hne
  have hc := hsolid c rfl
  have hlead : leadingToken (c :: text) =
      some (c :: text.takeWhile (!isWhiteSpace ·), text.dropWhile (!isWhiteSpace ·)) := by
    simp [leadingToken, hc]
  have hdash' : (c :: text.takeWhile (!isWhiteSpace ·)).head? ≠ some '-' := hdash
  have hdashes : c :: text.takeWhile (!isWhiteSpace ·) ≠ endOfOptions := by
    intro h
    rw [h] at hdash'
    exact hdash' rfl
  have hequals : ¬unsetEquals <+: c :: text.takeWhile (!isWhiteSpace ·) := by
    rintro ⟨name, hname⟩
    rw [← hname] at hdash'
    exact hdash' rfl
  rw [envCommand_step hlead, if_neg (fun h => hdash' (spelling_dash.1 _ h)),
    if_neg (fun h => hdash' (spelling_dash.2.1 _ h)), if_neg hdashes, if_neg (fun h => hequals h.1),
    if_neg hdash']

/-- What follows the dashes is run. -/
theorem envCommand_dashes (gap : Gap) (hne : rest ≠ []) (hsolid : Solid rest) :
    envCommand (endOfOptions ++ (gap.text ++ rest)) = some rest := by
  have hlead := leads_of_dash spelling_dash.2.2.1 spelling_solid.2.2.1 (gap.opens rest)
  have hgap : trimStart (gap.text ++ rest) = rest := by
    rw [trimStart_append gap.blank, trimStart_solid hsolid]
  rw [envCommand_step hlead, if_neg spellings_apart.2.1, if_neg spellings_apart.2.2, if_pos rfl, hgap, if_neg hne]

theorem blank_opens (hblank : ∀ c ∈ text, isWhiteSpace c = true) : Open text := by
  cases text with
  | nil => exact fun c hc => by cases hc
  | cons c text =>
    intro c' hc'
    cases hc'
    exact hblank c List.mem_cons_self

theorem EnvFault.opens {tail : List Char} (h : EnvFault tail) : Open tail := by
  cases h with
  | noCommand hblank => exact blank_opens hblank
  | noCommandAfterDashes gap hblank =>
    rw [List.append_assoc]
    exact gap.opens _
  | noName gap hspelling hblank =>
    rw [List.append_assoc]
    exact gap.opens _
  | unsupported gap option hdash hsupported hrest =>
    rw [List.append_assoc]
    exact gap.opens _

theorem envCommand_nil : envCommand [] = none := by
  rfl

/-- Nothing is found to run at a fault. -/
theorem envCommand_fault {tail : List Char} (h : EnvFault tail) : envCommand (trimStart tail) = none := by
  cases h with
  | noCommand hblank => rw [trimStart_blank hblank, envCommand_nil]
  | @noCommandAfterDashes blank gap hblank =>
    have hlead := leads_of_dash spelling_dash.2.2.1 spelling_solid.2.2.1 (blank_opens hblank)
    have hgap : trimStart (gap.text ++ endOfOptions ++ blank) = endOfOptions ++ blank := by
      rw [List.append_assoc, trimStart_append gap.blank]
      exact trimStart_solid (solid_of_dash spelling_dash.2.2.1 blank)
    rw [hgap, envCommand_step hlead, if_neg spellings_apart.2.1, if_neg spellings_apart.2.2, if_pos rfl,
      trimStart_blank hblank, if_pos rfl]
  | @noName blank spelling gap hspelling hblank =>
    have hlead := leads_of_dash (spelling_dash.2.1 _ hspelling) (spelling_solid.2.1 _ hspelling)
      (blank_opens hblank)
    have hgap : trimStart (gap.text ++ spelling ++ blank) = spelling ++ blank := by
      rw [List.append_assoc, trimStart_append gap.blank]
      exact trimStart_solid (solid_of_dash (spelling_dash.2.1 _ hspelling) blank)
    rw [hgap, envCommand_step hlead, if_neg (spellings_apart.1 _ hspelling), if_pos hspelling, trimStart_blank hblank]
    rfl
  | @unsupported rest gap option hdash hsupported hrest =>
    have hgap : trimStart (gap.text ++ option.text ++ rest) = option.text ++ rest := by
      rw [List.append_assoc, trimStart_append gap.blank, trimStart_solid (option.solid_append rest)]
    rw [hgap, envCommand_step (option.leads hrest), if_neg (fun h => hsupported (.inl h)),
      if_neg (fun h => hsupported (.inr (.inl h))), if_neg (fun h => hsupported (.inr (.inr (.inl h)))), if_neg,
      if_pos hdash]
    rintro ⟨⟨name, hname⟩, hlength⟩
    refine hsupported (.inr (.inr (.inr ⟨⟨name, ?_, fun c hc => option.solid c ?_⟩, hname.symm⟩)))
    · rintro rfl
      rw [← hname, List.append_nil] at hlength
      omega
    · rw [← hname]
      exact List.mem_append_right _ hc

/-! ### Assignments -/

/-- What is alphanumeric among the ASCII characters. -/
def OnAscii (alphanumeric : Char → Bool) : Prop := ∀ c : Char, c.toNat < 128 → alphanumeric c = c.isAlphanum

theorem word_apart (hascii : OnAscii alphanumeric) {c : Char} (h : isWord alphanumeric c = true) :
    isQuote c = false ∧ c ≠ '=' := by
  have hword : ∀ c : Char, c.toNat < 128 → c ≠ '_' → c.isAlphanum = false → isWord alphanumeric c = false := by
    intro c hsmall hne hnot
    rw [isWord, hascii c hsmall, hnot, decide_eq_false hne]
    rfl
  constructor
  · rw [isQuote, Bool.or_eq_false_iff]
    constructor
    · refine decide_eq_false ?_
      rintro rfl
      exact absurd ((hword '\'' (by decide) (by decide) (by decide)).symm.trans h) (by decide)
    · refine decide_eq_false ?_
      rintro rfl
      exact absurd ((hword '"' (by decide) (by decide) (by decide)).symm.trans h) (by decide)
  · rintro rfl
    exact absurd ((hword '=' (by decide) (by decide) (by decide)).symm.trans h) (by decide)

theorem stripMatchedQuotePair_quoted {q : Char} (hq : isQuote q = true) (inner : List Char) :
    stripMatchedQuotePair (q :: (inner ++ [q])) = inner := by
  rw [stripMatchedQuotePair, if_pos ⟨hq, List.getLast?_concat⟩, List.dropLast_concat]

theorem stripMatchedQuotePair_bare {token : List Char} (h : ∀ c ∈ token.head?, isQuote c = false) :
    stripMatchedQuotePair token = token := by
  cases token with
  | nil => rfl
  | cons c token =>
    refine if_neg fun hquote => ?_
    rw [h c rfl] at hquote
    cases hquote.1

/-- A name and a value make an assignment. -/
theorem takeWhile_name {name : List Char} (value : List Char) (h : ∀ c ∈ name, c ≠ '=') :
    (name ++ '=' :: value).takeWhile (· ≠ '=') = name := by
  rw [List.takeWhile_append_of_pos fun c hc => decide_eq_true (h c hc)]
  simp

/-- A token is taken for an assignment if and only if it is one. -/
theorem isAssignmentToken_iff (hascii : OnAscii alphanumeric) (token : List Char) :
    isAssignmentToken alphanumeric token = true ↔ ∃ a : Assignment alphanumeric, a.text = token := by
  have hread : ∀ text : List Char, (text.contains '=' && text.takeWhile (· ≠ '=') ≠ [] &&
      (text.takeWhile (· ≠ '=')).all (isWord alphanumeric)) = true ↔
        ∃ name value, text = name ++ '=' :: value ∧ name ≠ [] ∧ ∀ c ∈ name, isWord alphanumeric c = true := by
    intro text
    rw [Bool.and_eq_true, Bool.and_eq_true, List.all_eq_true, decide_eq_true_eq, List.contains_iff_mem]
    constructor
    · rintro ⟨⟨hmem, hne⟩, hword⟩
      have hsplit := @List.takeWhile_append_dropWhile _ (· ≠ '=') text
      cases hrest : text.dropWhile (· ≠ '=') with
      | nil =>
        rw [List.dropWhile_eq_nil_iff] at hrest
        exact absurd (hrest _ hmem) (by decide)
      | cons c value =>
        have hc : c = '=' := by
          have hhead := List.head?_dropWhile_not (· ≠ '=') text
          rw [hrest] at hhead
          simpa using hhead
        subst hc
        exact ⟨_, value, by rw [← hrest, hsplit], hne, hword⟩
    · rintro ⟨name, value, rfl, hne, hword⟩
      rw [takeWhile_name value fun c hc => (word_apart hascii (hword c hc)).2]
      exact ⟨⟨List.mem_append_right _ List.mem_cons_self, hne⟩, hword⟩
  show (_ && _ && _) = true ↔ _
  rw [hread]
  constructor
  · rintro ⟨name, value, htext, hne, hword⟩
    cases token with
    | nil => simp [stripMatchedQuotePair] at htext
    | cons first rest =>
      rw [stripMatchedQuotePair] at htext
      split_ifs at htext with hquote
      · refine ⟨⟨name, value, some first, hne, hword, fun q hq => by cases hq; exact hquote.1⟩, ?_⟩
        have hrest : rest.dropLast ++ [first] = rest := by
          obtain ⟨init, hinit⟩ := List.getLast?_eq_some_iff.mp hquote.2
          rw [hinit, List.dropLast_concat]
        show first :: (name ++ '=' :: value ++ [first]) = first :: rest
        rw [← htext, hrest]
      · exact ⟨⟨name, value, none, hne, hword, fun q hq => by cases hq⟩, htext.symm⟩
  · rintro ⟨⟨name, value, quote, hne, hword, hmatched⟩, rfl⟩
    refine ⟨name, value, ?_, hne, hword⟩
    cases quote with
    | none =>
      refine stripMatchedQuotePair_bare fun c hc => (word_apart hascii (hword c ?_)).1
      obtain ⟨c', name, rfl⟩ := List.exists_cons_of_ne_nil hne
      cases hc
      exact List.mem_cons_self
    | some q => exact stripMatchedQuotePair_quoted (hmatched q rfl) _

theorem env_not_assignment : isAssignmentToken alphanumeric envName = false := by
  have hnone : (stripMatchedQuotePair envName).contains '=' = false := by decide
  rw [isAssignmentToken, hnone]
  rfl

/-! ### Stripping -/

theorem stripPrefix_assignment (hascii : OnAscii alphanumeric) (a : Assignment alphanumeric) (gap : Gap)
    (hsolid : ∀ c ∈ a.text, isWhiteSpace c = false) (hrest : Solid rest) :
    stripPrefix alphanumeric (a.text ++ gap.text ++ rest) = some rest := by
  have hlead := leadingToken_append hsolid (gap.opens rest) (by simp [gap.nonempty])
  rw [List.append_assoc, stripPrefix, stripAssignmentPrefix, hlead]
  dsimp only
  rw [if_pos ((isAssignmentToken_iff hascii _).mpr ⟨a, rfl⟩), Option.some_or, Option.map_some,
    trimStart_append gap.blank, trimStart_solid hrest]

theorem env_leads (hrest : Open rest) : leadingToken (envName ++ rest) = some (envName, rest) :=
  leadingToken_append (List.all_iff_forall_prop.mp (by decide)) hrest
    fun h => absurd (List.append_eq_nil_iff.mp h).1 (by decide)

theorem stripEnv_eq (hrest : Open rest) : stripEnvWrapperPrefix (envName ++ rest) = envCommand (trimStart rest) := by
  rw [stripEnvWrapperPrefix, env_leads hrest]
  exact if_pos rfl

theorem stripPrefix_env (hrest : Open rest) :
    stripPrefix alphanumeric (envName ++ rest) = (envCommand (trimStart rest)).map trimStart := by
  rw [stripPrefix, stripAssignmentPrefix, env_leads hrest, stripEnv_eq hrest]
  dsimp only
  rw [if_neg (by rw [env_not_assignment]; decide), Option.none_or]

/-- What a wrapper runs is a part of what follows it. -/
theorem envCommandFrom_length {fuel : ℕ} {command : List Char} (h : envCommandFrom fuel rest = some command) :
    command.length ≤ rest.length := by
  induction fuel generalizing rest with
  | zero => cases h
  | succ fuel ih =>
    unfold envCommandFrom at h
    cases hlead : leadingToken rest with
    | none =>
      rw [hlead] at h
      cases h
    | some split =>
      obtain ⟨token, afterToken⟩ := split
      have hlength := leadingToken_length hlead
      have htrim := length_trimStart_le afterToken
      rw [hlead] at h
      dsimp only at h
      split_ifs at h
      · have := ih h
        omega
      · cases hname : leadingToken (trimStart afterToken) with
        | none =>
          rw [hname] at h
          cases h
        | some split =>
          obtain ⟨name, afterName⟩ := split
          have hlength' := leadingToken_length hname
          have htrim' := length_trimStart_le afterName
          rw [hname] at h
          have := ih h
          omega
      · cases h
        omega
      · have := ih h
        omega
      · cases h
        exact le_rfl

/-- A step of the stripping takes something off. -/
theorem stripPrefix_length {script rest : List Char} (h : stripPrefix alphanumeric script = some rest) :
    rest.length < script.length := by
  unfold stripPrefix stripAssignmentPrefix stripEnvWrapperPrefix at h
  cases hlead : leadingToken script with
  | none =>
    rw [hlead] at h
    cases h
  | some split =>
    obtain ⟨token, remainder⟩ := split
    have hlength := leadingToken_length hlead
    rw [hlead] at h
    dsimp only at h
    obtain ⟨stripped, hstripped, rfl⟩ := Option.map_eq_some_iff.mp h
    have htrim := length_trimStart_le stripped
    by_cases hassignment : isAssignmentToken alphanumeric token = true
    · rw [if_pos hassignment, Option.some_or] at hstripped
      cases hstripped
      have hpos : 0 < token.length := by
        refine List.length_pos_iff.mpr ?_
        rintro rfl
        cases hassignment
      omega
    · rw [if_neg hassignment, Option.none_or] at hstripped
      split_ifs at hstripped with henv
      have hcommand := envCommandFrom_length hstripped
      have htrim' := length_trimStart_le remainder
      have hpos : 0 < token.length := henv ▸ by decide
      omega

theorem stripPrefixesFrom_fuel {fuel fuel' : ℕ} {script : List Char} (h : script.length ≤ fuel)
    (h' : script.length ≤ fuel') :
    stripPrefixesFrom alphanumeric fuel script = stripPrefixesFrom alphanumeric fuel' script := by
  induction fuel generalizing fuel' script with
  | zero =>
    obtain rfl : script = [] := List.length_eq_zero_iff.mp (by omega)
    cases fuel' <;> rfl
  | succ fuel ih =>
    cases fuel' with
    | zero =>
      obtain rfl : script = [] := List.length_eq_zero_iff.mp (by omega)
      rfl
    | succ fuel' =>
      unfold stripPrefixesFrom
      cases hstrip : stripPrefix alphanumeric script with
      | none => rfl
      | some rest =>
        have hlength := stripPrefix_length hstrip
        exact ih (by omega) (by omega)

/-- A round of the stripping. -/
theorem stripPrefixes_step {script rest : List Char} (h : stripPrefix alphanumeric script = some rest) :
    stripPrefixes alphanumeric script = stripPrefixes alphanumeric rest := by
  have hlength := stripPrefix_length h
  obtain ⟨n, hn⟩ : ∃ n, script.length = n + 1 := ⟨script.length - 1, by omega⟩
  rw [stripPrefixes, hn, stripPrefixesFrom, h]
  exact stripPrefixesFrom_fuel (by omega) le_rfl

/-- The last round. -/
theorem stripPrefixes_stop {script : List Char} (h : stripPrefix alphanumeric script = none) :
    stripPrefixes alphanumeric script = script := by
  unfold stripPrefixes
  cases script.length with
  | zero => rfl
  | succ n => rw [stripPrefixesFrom, h]

/-- The stripping ends: nothing is left to strip. -/
theorem stripPrefixes_done (script : List Char) :
    stripPrefix alphanumeric (stripPrefixes alphanumeric script) = none := by
  induction hn : script.length using Nat.strong_induction_on generalizing script with
  | _ n ih =>
    cases hstrip : stripPrefix alphanumeric script with
    | none => rw [stripPrefixes_stop hstrip, hstrip]
    | some rest =>
      rw [stripPrefixes_step hstrip]
      exact ih rest.length (hn ▸ stripPrefix_length hstrip) rest rfl

/-- What leads a script is stripped. -/
theorem stripPrefixes_leads (hascii : OnAscii alphanumeric) {script command : List Char}
    (h : Leads alphanumeric script command) :
    stripPrefixes alphanumeric script = stripPrefixes alphanumeric command := by
  induction h with
  | here command => rfl
  | assignment a gap hsolid hrest _ ih =>
    exact (stripPrefixes_step (stripPrefix_assignment hascii a gap hsolid hrest)).trans ih
  | @env script command options gap hne hdash hsolid _ ih =>
    refine Eq.trans (stripPrefixes_step ?_) ih
    rw [List.append_assoc, List.append_assoc, stripPrefix_env (optionsText_opens options (gap.opens script)),
      envCommand_options options (gap.opens script), trimStart_append gap.blank, trimStart_solid hsolid,
      envCommand_command hne hsolid hdash, Option.map_some, trimStart_solid hsolid]
  | @envDashes script command options before after hne hsolid _ ih =>
    refine Eq.trans (stripPrefixes_step ?_) ih
    have hopen := before.opens (endOfOptions ++ (after.text ++ script))
    have hdashes : trimStart (before.text ++ (endOfOptions ++ (after.text ++ script))) =
        endOfOptions ++ (after.text ++ script) := by
      rw [trimStart_append before.blank]
      exact trimStart_solid (solid_of_dash spelling_dash.2.2.1 _)
    simp only [List.append_assoc]
    rw [stripPrefix_env (optionsText_opens options hopen), envCommand_options options hopen, hdashes,
      envCommand_dashes after hne hsolid, Option.map_some, trimStart_solid hsolid]

/-! ### The result -/

/-- The words that are kept, with one space between two of them. -/
def joinWords (words : List (List Char)) : List Char := [' '].intercalate words

theorem joinWords_cons (word : List Char) (words : List (List Char)) :
    joinWords (word :: words) = word ++ words.flatMap (' ' :: ·) := by
  induction words generalizing word with
  | nil => simp [joinWords]
  | cons next words ih =>
    rw [joinWords, List.intercalate_cons_cons, List.flatMap_cons]
    show word ++ [' '] ++ joinWords (next :: words) = _
    rw [ih]
    simp

theorem foldl_redactStep_of_ne {removed : Bool} {redacted : List Char} (words : List (List Char))
    (hne : redacted ≠ []) : words.foldl (redactStep alphanumeric) (removed, redacted) =
      (removed || words.any (isAssignmentToken alphanumeric),
        redacted ++ (words.filter fun word => !isAssignmentToken alphanumeric word).flatMap (' ' :: ·)) := by
  induction words generalizing removed redacted with
  | nil => simp
  | cons word words ih =>
    rw [List.foldl_cons, redactStep]
    cases hword : isAssignmentToken alphanumeric word with
    | true => simp [ih hne, hword]
    | false =>
      have hne' : redacted ++ [' '] ++ word ≠ [] := by simp
      rw [if_neg Bool.false_ne_true, if_neg hne, ih hne']
      simp [hword]

/-- What is left of the words after a wrapper that is not understood. -/
theorem foldl_redactStep {removed : Bool} {words : List (List Char)} (hwords : ∀ word ∈ words, word ≠ []) :
    words.foldl (redactStep alphanumeric) (removed, []) = (removed || words.any (isAssignmentToken alphanumeric),
      joinWords (words.filter fun word => !isAssignmentToken alphanumeric word)) := by
  induction words generalizing removed with
  | nil => simp [joinWords]
  | cons word words ih =>
    rw [List.foldl_cons, redactStep]
    cases hword : isAssignmentToken alphanumeric word with
    | true =>
      have hrest := @ih true fun w hw => hwords w (List.mem_cons_of_mem _ hw)
      simp [hrest, hword]
    | false =>
      have hne := hwords word List.mem_cons_self
      simp [foldl_redactStep_of_ne words hne, hword, joinWords_cons]

/-- At a fault, the assignments are dropped. -/
theorem redact_fault {options : List (Gap × EnvOption)} {tail : List Char} (hfault : EnvFault tail)
    (hassigns : ∃ word ∈ splitWhitespace (optionsText options ++ tail), isAssignmentToken alphanumeric word = true) :
    redactUnclassifiedEnvWrapperAssignments alphanumeric (envName ++ (optionsText options ++ tail)) =
      some (joinWords ((splitWhitespace (optionsText options ++ tail)).filter fun word =>
        !isAssignmentToken alphanumeric word)) := by
  have hopen := optionsText_opens options hfault.opens
  have hnone : stripEnvWrapperPrefix (envName ++ (optionsText options ++ tail)) = none := by
    rw [stripEnv_eq hopen, envCommand_options options hfault.opens, envCommand_fault hfault]
  have hfold := @foldl_redactStep alphanumeric false (splitWhitespace (optionsText options ++ tail))
    fun word hword => of_decide_eq_true (List.mem_filter.mp hword).2
  have hany : (splitWhitespace (optionsText options ++ tail)).any (isAssignmentToken alphanumeric) = true :=
    List.any_eq_true.mpr hassigns
  unfold redactUnclassifiedEnvWrapperAssignments
  rw [env_leads hopen, hnone]
  dsimp only
  rw [if_neg (by simp), hfold, hany]
  rfl

/-- A command that is neither an assignment nor a wrapper is not stripped. -/
theorem stripPrefix_command {command token after : List Char} (hlead : leadingToken command = some (token, after))
    (hassignment : isAssignmentToken alphanumeric token = false) (henv : token ≠ envName) :
    stripPrefix alphanumeric command = none := by
  rw [stripPrefix, stripAssignmentPrefix, stripEnvWrapperPrefix, hlead]
  dsimp only
  rw [if_neg (by rw [hassignment]; decide), if_neg henv]
  rfl

/-- Stripping ends for every script, with nothing left to strip.
When assignments and wrappers with options that are understood lead a script to a command whose first word is
neither an assignment nor `env`, in any number and any mix, the first sixty characters of the command are left.
When they lead to a wrapper whose options are not understood, or not complete, and an assignment follows it, the
first sixty characters of the words after it that are no assignments are left, with one space between two. -/
theorem sanitize_hides_assignments (hascii : OnAscii alphanumeric) :
    (∀ script, stripPrefix alphanumeric (stripPrefixes alphanumeric script) = none) ∧
    (∀ script command token after, Leads alphanumeric script command →
      leadingToken command = some (token, after) → (¬∃ a : Assignment alphanumeric, a.text = token) →
      token ≠ envName → sanitizeCommandScript alphanumeric script = command.take 60) ∧
    ∀ script options tail, Leads alphanumeric script (envName ++ (optionsText options ++ tail)) → EnvFault tail →
      (∃ word ∈ splitWhitespace (optionsText options ++ tail), isAssignmentToken alphanumeric word = true) →
      sanitizeCommandScript alphanumeric script =
        (joinWords ((splitWhitespace (optionsText options ++ tail)).filter fun word =>
          !isAssignmentToken alphanumeric word)).take 60 := by
  refine ⟨stripPrefixes_done, fun script command token after hleads hlead hassignment henv => ?_,
    fun script options tail hleads hfault hassigns => ?_⟩
  · rw [← isAssignmentToken_iff hascii, Bool.not_eq_true] at hassignment
    have hstop := stripPrefixes_stop (stripPrefix_command hlead hassignment henv)
    have hredact : redactUnclassifiedEnvWrapperAssignments alphanumeric command = none := by
      rw [redactUnclassifiedEnvWrapperAssignments, hlead]
      exact if_pos (.inl henv)
    rw [sanitizeCommandScript, stripPrefixes_leads hascii hleads, hstop, hredact]
    rfl
  · have hopen := optionsText_opens options hfault.opens
    have hstop : stripPrefixes alphanumeric (envName ++ (optionsText options ++ tail)) =
        envName ++ (optionsText options ++ tail) := by
      refine stripPrefixes_stop ?_
      rw [stripPrefix_env hopen, envCommand_options options hfault.opens, envCommand_fault hfault]
      rfl
    rw [sanitizeCommandScript, stripPrefixes_leads hascii hleads, hstop, redact_fault hfault hassigns]
    rfl

theorem solid_of_head {text : List Char} (h : (text.head?.all fun c => !isWhiteSpace c) = true) : Solid text := by
  intro c hc
  rw [Option.mem_def.mp hc, Option.all_some, Bool.not_eq_true'] at h
  exact h

theorem sanitize_hides_assignments_cargo :
    sanitizeCommandScript Char.isAlphanum "A=b env -i cargo test".toList = "cargo test".toList := by
  have hspace : ∀ c ∈ [' '], isWhiteSpace c = true := List.forall_mem_singleton.mpr (by decide)
  have hcargo : Leads Char.isAlphanum ("env".toList ++ " -i".toList ++ [' '] ++ "cargo test".toList)
      "cargo test".toList :=
    .env [(⟨[' '], by decide, hspace⟩, .ignoreEnvironment "-i".toList (by decide))] ⟨[' '], by decide, hspace⟩
      (by decide) (by decide) (solid_of_head (by decide)) (.here _)
  have hleads : Leads Char.isAlphanum "A=b env -i cargo test".toList "cargo test".toList :=
    .assignment ⟨['A'], ['b'], none, by decide, List.forall_mem_singleton.mpr (by decide), nofun⟩
      ⟨[' '], by decide, hspace⟩ (List.all_iff_forall_prop.mp (by decide)) (solid_of_head (by decide)) hcargo
  refine (sanitize_hides_assignments fun _ _ => rfl).2.1 _ _ _ _ hleads
    (rfl : _ = some ("cargo".toList, " test".toList)) ?_ (by decide)
  rw [← isAssignmentToken_iff fun _ _ => rfl]
  decide

end HerdrTop.CommandScript
