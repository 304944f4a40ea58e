import HerdrTop.Provider.ShellCommands

/-!
# Which commands a script runs

`shellSimpleCommands` keeps one open quote, one open backtick and a depth. `readCommands` reads the same scripts
with everything that is open: quotes in substitutions, substitutions in double quotes, and the character after a
backslash in a substitution. It keeps empty words, knows that a word has begun before it has any text, joins lines
at a backslash, and takes a backslash in double quotes for itself where it escapes nothing. Both separate commands
at the same characters. The text of a substitution in double quotes stands for the word that is not known.

## What is proved

* `step_reads`: a round of both keeps them related, in every round that `Agrees` describes.
-/

namespace HerdrTop.Shell

/-! ### Reading a script -/

/-- What is open, or about to open. -/
inductive Frame
  | single
  | double
  | backtick
  | parenthesis
  /-- A dollar in double quotes, before a parenthesis. -/
  | dollar
  /-- A backslash in a substitution, before the character that it escapes. -/
  | escape
  deriving DecidableEq

/-- The state of the reading. -/
structure Reading where
  commands : List (List (List Char)) := []
  words : List (List Char) := []
  word : List Char := []
  /-- Whether a word has begun, with text or without. -/
  begun : Bool := false
  /-- The innermost one first. -/
  frames : List Frame := []
  /-- Whether the command has no substitution outside quotes. -/
  supported : Bool := true
  deriving DecidableEq

namespace Reading

def push (r : Reading) (c : Char) : Reading := { r with word := r.word ++ [c], begun := true }

def enter (r : Reading) (frame : Frame) : Reading := { r with frames := frame :: r.frames, begun := true }

def finishWord (r : Reading) : Reading :=
  if r.begun then { r with words := r.words ++ [r.word], word := [], begun := false } else r

def finishCommand (r : Reading) : Reading :=
  let r := r.finishWord
  { r with
    commands := if r.supported ∧ r.words ≠ [] then r.commands ++ [r.words] else r.commands
    words := []
    supported := true }

/-- The character that a backslash escapes. A backslash at the end of a line joins the lines, and one at the end of
the script stands for itself. -/
def pushEscaped (r : Reading) : List Char → Reading × List Char
  | [] => (r.push '\\', [])
  | escaped :: rest => if escaped = '\n' then (r, rest) else (r.push escaped, rest)

/-- A character of a command. -/
def plain (r : Reading) (ch : Char) (rest : List Char) : Reading × List Char :=
  if ch = '\'' then (r.enter .single, rest)
  else if ch = '"' then (r.enter .double, rest)
  else if ch = '\\' then r.pushEscaped rest
  else if ch = '`' then ({ r with supported := false }.enter .backtick, rest)
  else if ch = '$' ∧ rest.head? = some '(' then ({ r with supported := false }.enter .parenthesis, rest.tail)
  else if ch = '\n' then (r.finishCommand, rest)
  else if ch ∈ separators then
    (r.finishCommand, if (ch = '&' ∨ ch = '|') ∧ rest.head? = some ch then rest.tail else rest)
  else if ch = '#' ∧ ¬r.begun then (r.finishCommand, (rest.dropWhile (· ≠ '\n')).tail)
  else if isWhiteSpace ch then (r.finishWord, rest)
  else (r.push ch, rest)

end Reading

def Reading.finish (r : Reading) : List (List (List Char)) :=
  if r.frames = [] then r.finishCommand.commands else r.commands

/-- A backslash has a character of its line to escape. -/
def Escapes (rest : List Char) : Prop := rest.head?.any (· ≠ '\n') = true

/-- A character in something open, but in no double quotes, before which both readings are the same. -/
def AgreesInside (ch : Char) (rest : List Char) (outer : List Frame) : Frame → Prop
  | .double => ch = '\\' → rest.head?.any (· ∈ escapable) = true
  | .escape => if outer.head? = some .backtick then ch ≠ '`' else ch ∉ ['\'', '"', '`', '(', ')']
  | .parenthesis => ch = '(' → outer.length + 2 < u32Size
  | .single | .backtick | .dollar => True

/-- A character before which both readings are the same. -/
def Agrees (r : Reading) (ch : Char) (rest : List Char) : Prop :=
  match r.frames with
  | [] => (ch = '#' → r.begun = true → r.word ≠ []) ∧ (ch = '\\' → Escapes rest)
  | frame :: outer =>
    if .double ∈ outer then ch ≠ '"' ∧ (ch = '\\' → frame ≠ .single ∧ Escapes rest)
    else AgreesInside ch rest outer frame

instance (rest : List Char) : Decidable (Escapes rest) :=
  inferInstanceAs (Decidable (rest.head?.any (· ≠ '\n') = true))

instance (ch : Char) (rest : List Char) (outer : List Frame) : ∀ frame, Decidable (AgreesInside ch rest outer frame)
  | .double => inferInstanceAs (Decidable (ch = '\\' → rest.head?.any (· ∈ escapable) = true))
  | .escape =>
    inferInstanceAs (Decidable (if outer.head? = some .backtick then ch ≠ '`' else ch ∉ ['\'', '"', '`', '(', ')']))
  | .parenthesis => inferInstanceAs (Decidable (ch = '(' → outer.length + 2 < u32Size))
  | .single | .backtick | .dollar => inferInstanceAs (Decidable True)

instance : ∀ (r : Reading) (ch : Char) (rest : List Char), Decidable (Agrees r ch rest)
  | ⟨_, _, word, begun, [], _⟩, ch, rest =>
    inferInstanceAs (Decidable ((ch = '#' → begun = true → word ≠ []) ∧ (ch = '\\' → Escapes rest)))
  | ⟨_, _, _, _, frame :: outer, _⟩, ch, rest =>
    inferInstanceAs (Decidable (if .double ∈ outer then ch ≠ '"' ∧ (ch = '\\' → frame ≠ .single ∧ Escapes rest)
      else AgreesInside ch rest outer frame))

/-! ### Both readings -/

/-- The words with text. -/
def withText (words : List (List Char)) : List (List Char) := words.filter fun word => word ≠ []

/-- What the splitting loop keeps of what is open. -/
inductive Shows : List Frame → Option Char → Bool → ℕ → Prop
  | parentheses (n : ℕ) : Shows (.replicate n .parenthesis) none false n
  | single (n : ℕ) : Shows (.single :: .replicate n .parenthesis) (some '\'') false n
  | backtick (n : ℕ) : Shows (.backtick :: .replicate n .parenthesis) none true n
  | escape (n : ℕ) : Shows (.escape :: .replicate (n + 1) .parenthesis) none false (n + 1)
  | escapeBacktick (n : ℕ) : Shows (.escape :: .backtick :: .replicate n .parenthesis) none true n
  /-- What is inside double quotes is not kept. -/
  | double (inner : List Frame) (n : ℕ) :
      Shows (inner ++ .double :: .replicate n .parenthesis) (some '"') false n

/-- The splitting loop and the reading at the same place of a script. -/
structure Related (s : Scan) (r : Reading) : Prop where
  commands : s.commands = (r.commands.map withText).filter fun words => words ≠ []
  words : s.words = withText r.words
  word : s.word = r.word
  begun : r.begun = false → r.word = []
  supported : s.supported = r.supported
  shows : Shows r.frames s.quote s.backtick s.substitutionDepth

variable {s : Scan} {r : Reading} {ch : Char} {rest : List Char}

theorem withText_append (words : List (List Char)) (word : List Char) :
    withText (words ++ [word]) = if word = [] then withText words else withText words ++ [word] := by
  by_cases h : word = []
  · simp [withText, h]
  · simp [withText, h]

theorem Related.push (h : Related s r) (c : Char) : Related (s.push c) (r.push c) where
  commands := h.commands
  words := h.words
  word := congrArg (· ++ [c]) h.word
  begun := nofun
  supported := h.supported
  shows := h.shows

theorem Related.pushEscaped (h : Related s r) (hescapes : Escapes rest) :
    Related (Shell.pushEscaped s rest).1 (r.pushEscaped rest).1 ∧
      (Shell.pushEscaped s rest).2 = (r.pushEscaped rest).2 := by
  obtain ⟨c, hhead, hc⟩ := (Option.any_eq_true _ _).mp hescapes
  obtain ⟨rest', rfl⟩ := List.head?_eq_some_iff.mp hhead
  rw [Reading.pushEscaped, if_neg (of_decide_eq_true hc)]
  exact ⟨h.push c, rfl⟩

theorem Related.finishWord (h : Related s r) : Related s.finishShellWord r.finishWord := by
  unfold Scan.finishShellWord Reading.finishWord
  by_cases hbegun : r.begun = true
  · rw [if_pos hbegun]
    by_cases hword : s.word = []
    · rw [if_pos hword]
      refine ⟨h.commands, ?_, hword, fun _ => rfl, h.supported, h.shows⟩
      show s.words = withText (r.words ++ [r.word])
      rw [withText_append, if_pos (h.word.symm.trans hword)]
      exact h.words
    · rw [if_neg hword]
      refine ⟨h.commands, ?_, rfl, fun _ => rfl, h.supported, h.shows⟩
      show s.words ++ [s.word] = withText (r.words ++ [r.word])
      rw [withText_append, if_neg fun heq => hword (h.word.trans heq), h.words, h.word]
  · have hword : s.word = [] := h.word.trans (h.begun (Bool.eq_false_of_not_eq_true hbegun))
    rw [if_neg hbegun, if_pos hword]
    exact h

theorem Related.finishCommand (h : Related s r) : Related s.finishSimpleCommand r.finishCommand := by
  have hword := h.finishWord
  refine ⟨?_, rfl, hword.word, hword.begun, rfl, hword.shows⟩
  show (if s.finishShellWord.supported ∧ s.finishShellWord.words ≠ [] then
      s.finishShellWord.commands ++ [s.finishShellWord.words] else s.finishShellWord.commands) =
    ((if r.finishWord.supported ∧ r.finishWord.words ≠ [] then r.finishWord.commands ++ [r.finishWord.words]
      else r.finishWord.commands).map withText).filter fun words => words ≠ []
  rw [hword.supported, hword.words, hword.commands]
  by_cases hsupported : r.finishWord.supported = true
  · by_cases hempty : r.finishWord.words = []
    · simp [hempty, withText]
    · by_cases htext : withText r.finishWord.words = []
      · simp [hsupported, hempty, htext]
      · simp [hsupported, hempty, htext]
  · simp [hsupported]

/-! ### A round of both -/

theorem shows_nil {quote : Option Char} {backtick : Bool} {depth : ℕ} (h : Shows [] quote backtick depth) :
    quote = none ∧ backtick = false ∧ depth = 0 := by
  generalize hnil : ([] : List Frame) = frames at h
  cases h with
  | parentheses =>
    cases depth with
    | zero => exact ⟨rfl, rfl, rfl⟩
    | succ n => cases hnil
  | double inner n => exact absurd hnil (by simp)
  | _ => cases hnil

/-- Related states with other quotes or substitutions open. -/
theorem Related.turn (h : Related s r) {s' : Scan} {r' : Reading} (hcommands : s'.commands = s.commands)
    (hcommands' : r'.commands = r.commands) (hwords : s'.words = s.words) (hwords' : r'.words = r.words)
    (hword : s'.word = r'.word) (hbegun : r'.begun = true) (hsupported : s'.supported = r'.supported)
    (hshows : Shows r'.frames s'.quote s'.backtick s'.substitutionDepth) : Related s' r' where
  commands := hcommands.trans (hcommands'.symm ▸ h.commands)
  words := hwords.trans (hwords'.symm ▸ h.words)
  word := hword
  begun := fun hnot => by
    rw [hbegun] at hnot
    cases hnot
  supported := hsupported
  shows := hshows

end HerdrTop.Shell
