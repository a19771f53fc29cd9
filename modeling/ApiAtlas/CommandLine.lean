import ApiAtlas.Outline
import ApiAtlas.Yaml.Printer

namespace ApiAtlas

/-- What is known of a file before a command runs. -/
inductive FileState
  /-- There is none; `creatable` if its directory exists. -/
  | missing (creatable : Bool)
  /-- It is there and holds no text. -/
  | unreadable
  | text (content : String)
deriving Repr, DecidableEq

/-- The two formats an atlas is printed in. -/
abbrev OutputFormat := Format

/-- A command. -/
inductive Command
  | inspect (input : String) (format : OutputFormat) (summary : Bool)
  | validate (input : String)
  | init (force : Bool)
  | version
deriving Repr, DecidableEq

/-- A command with the file of its settings. -/
structure Invocation where
  config : String
  command : Command
deriving Repr, DecidableEq

/-- What a command leaves behind. -/
structure Outcome where
  exit : Nat
  stdout : String := ""
  stderr : String := ""
  /-- The file that is written. -/
  written : Option (String × String) := none
deriving Repr, DecidableEq

namespace CommandLine

/-- The file of the settings where none is named. -/
def configFileName : String := ".apitree.yaml"

/-- The name of the program and its version. -/
def versionText : String := "apitree 0.3.0\n"

/-- The settings that a new file holds. -/
def defaultConfig : String := "\n".intercalate [
  "# apitree configuration",
  "naming:",
  "  convention: pascal          # pascal | camel | snake | screaming_snake",
  "  reserved_words: []          # e.g. [type, object, class]",
  "  strict: false               # error instead of numeric suffixes on name collisions",
  "  max_suffix: 999",
  "  operation_naming: use_operation_id  # use_operation_id | use_route_based",
  "  aliases: \x7b\x7d",
  "    # createChatCompletion: chat",
  "",
  "enums:",
  "  open_extensions: [x-extensible-enum, x-open-enum]",
  "",
  "routes:",
  "  # root_name: OpenAPI",
  "  max_depth: 32",
  ""]

/-- The options given so far; none may come twice at one level. -/
structure Options where
  config : Option String := none
  input : Option String := none
  format : Option String := none
  summary : Bool := false
  force : Bool := false
deriving Repr, DecidableEq, Inhabited

/-- An option that a command takes. -/
inductive OptionKind
  | config
  | input
  | format
  | summary
  | force
deriving Repr, DecidableEq

namespace OptionKind

/-- The name after two dashes. -/
def long : OptionKind → String
  | .config => "config"
  | .input => "input"
  | .format => "format"
  | .summary => "summary"
  | .force => "force"

/-- The letter after one dash. -/
def short? : OptionKind → Option Char
  | .config => some 'c'
  | .input => some 'i'
  | _ => none

/-- The option comes with a value. -/
def takesValue : OptionKind → Bool
  | .summary => false
  | .force => false
  | _ => true

/-- Set the option; it fails on a second time and on an empty value. -/
def set? (kind : OptionKind) (value : String) (options : Options) : Option Options :=
  let once (earlier : Option String) : Bool := earlier.isNone && !value.isEmpty
  match kind with
  | .config => if once options.config then some { options with config := some value } else none
  | .input => if once options.input then some { options with input := some value } else none
  | .format => if once options.format then some { options with format := some value } else none
  | .summary => if options.summary then none else some { options with summary := true }
  | .force => if options.force then none else some { options with force := true }

end OptionKind

/-- The option of a word among those allowed, and the value in the same word, if there is one. -/
def optionOf? (allowed : List OptionKind) (word : List Char) :
    Option (OptionKind × Option (List Char)) :=
  match word with
  | '-' :: '-' :: name =>
    let (name, value) := match cutAt? '=' name with
      | some (name, value) => (name, some value)
      | none => (name, none)
    (allowed.find? fun kind => kind.long.toList == name).map (·, value)
  | '-' :: letter :: value =>
    let value := match value with
      | [] => none
      | '=' :: value => some value
      | value => some value
    (allowed.find? fun kind => kind.short? == some letter).map (·, value)
  | _ => none

/-- A word is an option by its looks. -/
def looksLikeOption (word : String) : Bool :=
  match word.toList with
  | '-' :: _ :: _ => true
  | _ => false

/-- The word after which no word is an option. -/
def endOfOptions : String := "--"

/-- The word asks for the version; what follows the letter does not count. -/
def asksForVersion (word : String) : Bool :=
  word == "--version" || ['-', 'V'].isPrefixOf word.toList

/-- Read options down to the first word that is none. -/
def readOptions (allowed : List OptionKind) :
    List String → Options → Option (Options × List String)
  | [], options => some (options, [])
  | word :: rest, options =>
    if !looksLikeOption word || word == endOfOptions || asksForVersion word then
      some (options, word :: rest)
    else
      match optionOf? allowed word.toList with
      | none => none
      | some (kind, value) =>
        if !kind.takesValue then
          if value.isSome then none
          else (kind.set? "" options).bind fun options => readOptions allowed rest options
        else
          match value, rest with
          | some value, rest =>
            (kind.set? (String.ofList value) options).bind fun options =>
              readOptions allowed rest options
          | none, value :: rest =>
            if looksLikeOption value then none
            else (kind.set? value options).bind fun options => readOptions allowed rest options
          | none, [] => none

/-- The options of a command, after which no word may follow. -/
def commandOptions (allowed : List OptionKind) (words : List String) : Option Options := do
  let (options, rest) ← readOptions allowed words {}
  if rest.isEmpty || rest == [endOfOptions] then some options else none

/-- The format of a name. -/
def formatOf? (name : String) : Option OutputFormat :=
  if name == "yaml" then some .yaml else if name == "json" then some .json else none

/-- What the words of a command line ask for. -/
def parse (words : List String) : Option Invocation := do
  let (outer, words) ← readOptions [.config] words {}
  let name :: words := words | none
  let invocation (inner : Options) (command : Command) : Invocation :=
    ⟨(inner.config <|> outer.config).getD configFileName, command⟩
  if name == "inspect" then
    let inner ← commandOptions [.config, .input, .format, .summary] words
    let format ← formatOf? (inner.format.getD "yaml")
    pure (invocation inner (.inspect (← inner.input) format inner.summary))
  else if name == "validate" then
    let inner ← commandOptions [.config, .input] words
    pure (invocation inner (.validate (← inner.input)))
  else if name == "init" then
    let inner ← commandOptions [.config, .force] words
    pure (invocation inner (.init inner.force))
  else if asksForVersion name then pure (invocation {} .version)
  else none

/-- The files that a command looks at. -/
def Invocation.files (invocation : Invocation) : List String :=
  match invocation.command with
  | .inspect input _ _ => [invocation.config, input]
  | .validate input => [invocation.config, input]
  | .init _ => [invocation.config]
  | .version => []

/-- The format of a document by the ending of its file name. -/
def formatOfFile (path : String) : Format :=
  let name := afterLast '/' path.toList
  if (afterLast '.' name) == "json".toList && name.length > 5 then .json else .yaml

/-- An end with an error. -/
def failed (message : String) : Outcome := { exit := 1, stderr := "Error: " ++ message }

/-- The settings in a file; defaults if there is none. -/
def loadSettings (files : String → FileState) (path : String) : Except Outcome Settings :=
  match files path with
  | .missing _ => .ok {}
  | .unreadable => .error (failed ("failed to read config " ++ path))
  | .text content =>
    match Settings.parse content with
    | some settings => .ok settings
    | none => .error (failed ("failed to parse config " ++ path))

/-- The atlas of the document in a file. -/
def loadAtlas (files : String → FileState) (config input : String) : Except Outcome Atlas := do
  let settings ← loadSettings files config
  match files input with
  | .text content =>
    match Document.parse (formatOfFile input) content with
    | .error _ => throw (failed ("failed to parse " ++ input))
    | .ok document =>
      match Atlas.of settings document with
      | .error _ => throw (failed ("failed to transform " ++ input))
      | .ok atlas => pure atlas
  | _ => throw (failed ("failed to read " ++ input))

/-- The atlas in full. -/
def print (format : OutputFormat) (atlas : Atlas) : String :=
  match format with
  | .json => atlas.plain.toJson.toIndentedText ++ "\n"
  | .yaml => Yaml.documentText atlas.fields

/-- The counts of an atlas and its report. -/
def verdict (atlas : Atlas) : Outcome :=
  let head := [
    atlas.info.title ++ " " ++ atlas.info.version,
    "  Models: " ++ toString atlas.models.nodes.length,
    "  Named types: " ++ toString atlas.names.length,
    "  Routes: " ++ toString atlas.root.all.length]
  let tail :=
    if atlas.report.isEmpty then ["Validation successful."]
    else
      (toString atlas.report.length ++ " unit(s) failed to resolve:") ::
        atlas.report.map fun entry => "  " ++ entry.text
  { exit := if atlas.report.isEmpty then 0 else 1
    stderr := String.join ((head ++ tail).map (· ++ "\n")) }

/-- Run a command. -/
def Invocation.run (invocation : Invocation) (files : String → FileState) : Outcome :=
  let config := invocation.config
  match invocation.command with
  | .inspect input format summary =>
    match loadAtlas files config input with
    | .error outcome => outcome
    | .ok atlas =>
      { exit := 0, stdout := if summary then atlas.outline else print format atlas }
  | .validate input =>
    match loadAtlas files config input with
    | .error outcome => outcome
    | .ok atlas => verdict atlas
  | .init force =>
    let write : Outcome :=
      { exit := 0, stderr := "Created " ++ config ++ "\n", written := some (config, defaultConfig) }
    match files config with
    | .missing creatable =>
      if creatable then write else failed ("failed to write " ++ config)
    | .unreadable =>
      if force then failed ("failed to write " ++ config)
      else failed (config ++ " already exists. Use --force to overwrite.")
    | .text _ =>
      if force then write else failed (config ++ " already exists. Use --force to overwrite.")
  | .version => { exit := 0, stdout := versionText }

/-- Words that ask for nothing that can be done. -/
def usageError : Outcome := { exit := 2 }

/-- Run what the words of a command line ask for. -/
def run (words : List String) (files : String → FileState) : Outcome :=
  match parse words with
  | some invocation => Invocation.run invocation files
  | none => usageError

end CommandLine

end ApiAtlas
