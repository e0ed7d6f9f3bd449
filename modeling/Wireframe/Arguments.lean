/-!
# Arguments of a check

## Main definitions

* `Arguments` — what a check is asked to do.
* `OptionName` — the options, with their long and short spellings.
* `UsageError` — why a row of words is no command.
* `Arguments.ofWords` — the arguments that a row of words stands for.
-/

namespace Wireframe

/-- How a check reports. -/
inductive ReportFormat where
  | human
  | json
  deriving DecidableEq, Repr

namespace ReportFormat

/-- The name of a format. -/
def name : ReportFormat → String
  | .human => "human"
  | .json => "json"

/-- The format with a given name. -/
def ofName? (name : String) : Option ReportFormat :=
  [human, json].find? (·.name == name)

end ReportFormat

/-- What a check is asked to do. -/
structure Arguments where
  input : String
  config : Option String := none
  format : Option ReportFormat := none
  /-- Where to write the source map. -/
  sourceMap : Option String := none
  denyWarnings : Bool := false
  /-- Fail on errors instead of reporting them with everything else. -/
  strict : Bool := false
  logLevel : String := "warn"
  deriving DecidableEq, Repr

/-- The options of a check. -/
inductive OptionName where
  | config
  | format
  | sourceMap
  | denyWarnings
  | strict
  | logLevel
  | help
  | version
  deriving DecidableEq, Repr

namespace OptionName

/-- Every option. -/
def all : List OptionName :=
  [.config, .format, .sourceMap, .denyWarnings, .strict, .logLevel, .help, .version]

/-- The spelling after two hyphens. -/
def long : OptionName → String
  | .config => "config"
  | .format => "format"
  | .sourceMap => "source-map"
  | .denyWarnings => "deny-warnings"
  | .strict => "strict"
  | .logLevel => "log-level"
  | .help => "help"
  | .version => "version"

/-- The spelling after one hyphen, if there is one. -/
def short? : OptionName → Option Char
  | .config => some 'c'
  | .format => some 'f'
  | .help => some 'h'
  | .version => some 'V'
  | .sourceMap | .denyWarnings | .strict | .logLevel => none

/-- Whether the option comes with a value. -/
def takesValue : OptionName → Bool
  | .config | .format | .sourceMap | .logLevel => true
  | .denyWarnings | .strict | .help | .version => false

/-- The option with a given long spelling. Spellings are not abbreviated. -/
def ofLong? (spelling : String) : Option OptionName :=
  all.find? (·.long == spelling)

/-- The option with a given short spelling. -/
def ofShort? (spelling : Char) : Option OptionName :=
  all.find? (·.short? == some spelling)

end OptionName

/-- Why a row of words is no command to check a file. -/
inductive UsageError where
  | missingInput
  /-- An option that there is not, or a second input. -/
  | unknownArgument
  | missingValue
  | unknownFormat
  | repeatedOption
  /-- A value for an option that takes none. -/
  | unexpectedValue
  | helpRequested
  | versionRequested
  deriving DecidableEq, Repr

/-- The words read so far. -/
structure WordState where
  input : Option String := none
  /-- The options that are settled, with their values. -/
  given : List (OptionName × String) := []
  /-- An option that still waits for its value, or whose value was the last word. -/
  pending : Option (OptionName × Option String) := none
  /-- Whether all further words are inputs. -/
  ended : Bool := false
  deriving DecidableEq, Repr

namespace WordState

/-- Settle an option. -/
def give (s : WordState) (option : OptionName) (value : String) : Except UsageError WordState :=
  match option with
  | .help => .error .helpRequested
  | .version => .error .versionRequested
  | _ =>
    if (s.given.lookup option).isSome then .error .repeatedOption
    else if option = .format ∧ (ReportFormat.ofName? value).isNone then .error .unknownFormat
    else .ok { s with given := (option, value) :: s.given }

/-- Settle the option that is pending. -/
def settle (s : WordState) : Except UsageError WordState :=
  match s.pending with
  | none => .ok s
  | some (_, none) => .error .missingValue
  | some (option, some value) => { s with pending := none }.give option value

/-- Take a word that is no option. -/
def takeInput (s : WordState) (word : String) : Except UsageError WordState :=
  match s.input with
  | some _ => .error .unknownArgument
  | none => s.settle.map fun s => { s with input := some word }

/-- Take what follows two hyphens. -/
def takeLong (s : WordState) (text : List Char) : Except UsageError WordState := do
  let spelling := String.ofList (text.takeWhile (· != '='))
  let attached := text.dropWhile (· != '=')
  match OptionName.ofLong? spelling, attached with
  | none, _ => .error .unknownArgument
  | some option, [] =>
    let s ← s.settle
    if option.takesValue then return { s with pending := some (option, none) } else s.give option ""
  | some option, _ :: value =>
    if option.takesValue then (← s.settle).give option (String.ofList value)
    else .error .unexpectedValue

/-- Take what follows one hyphen: options without a value, and at the end perhaps one with a value.
An equals sign in front of the value is no part of it. -/
def takeShort (s : WordState) : List Char → Except UsageError WordState
  | [] => .ok s
  | c :: rest =>
    match OptionName.ofShort? c with
    | none => .error .unknownArgument
    | some option => do
      let s ← s.settle
      if option.takesValue then
        match rest with
        | [] => return { s with pending := some (option, none) }
        | '=' :: value => s.give option (String.ofList value)
        | value => s.give option (String.ofList value)
      else
        let s ← s.give option ""
        s.takeShort rest

/-- Take one word. -/
def take (s : WordState) (word : String) : Except UsageError WordState :=
  if s.ended then s.takeInput word
  else
    -- a word that looks like an option is one, even where a value is waited for
    match word.toList, s.pending with
    | ['-', '-'], _ => .ok { s with ended := true }
    | '-' :: '-' :: text, _ => s.takeLong text
    | '-' :: c :: rest, _ => s.takeShort (c :: rest)
    | _, some (option, none) => .ok { s with pending := some (option, some word) }
    | _, _ => s.takeInput word

/-- The value of an option. -/
def value? (s : WordState) (option : OptionName) : Option String :=
  s.given.lookup option

/-- The arguments that the words stand for. -/
def finish (s : WordState) : Except UsageError Arguments := do
  let s ← s.settle
  match s.input with
  | none => .error .missingInput
  | some input => return {
      input
      config := s.value? .config
      format := (s.value? .format).bind ReportFormat.ofName?
      sourceMap := s.value? .sourceMap
      denyWarnings := (s.value? .denyWarnings).isSome
      strict := (s.value? .strict).isSome
      logLevel := (s.value? .logLevel).getD "warn" }

end WordState

/-- The arguments that a row of words stands for. -/
def Arguments.ofWords (words : List String) : Except UsageError Arguments := do
  (← words.foldlM WordState.take {}).finish

end Wireframe
