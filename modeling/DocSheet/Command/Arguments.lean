import DocSheet.Encoding
import DocSheet.Files.Path

/-!
# Command-line arguments

The words of a command line name the manifest and set options. Long options take their
value behind an equals sign or from the next word; short ones also directly behind the
letter, and switches may share one dash. A word that starts with a dash is no value,
and behind `--` every word is a manifest.

A value from a word of its own is looked at when the next word is understood, or at the
end; so a word that is not understood comes first.
-/

namespace DocSheet

structure Options where
  manifest : Path
  docFile : Option Path
  output : Option Path
  format : String
  encoding : Encoding
  namespaces : List String
  listMembers : Bool
  verbose : Bool
  deriving DecidableEq, Repr

inductive UsageError
  | missingArgument
  | unknownArgument
  | repeatedArgument
  | invalidValue
  | unexpectedValue
  | helpRequested
  deriving DecidableEq, Repr

namespace Arguments

/-- What takes a value. The manifest takes one without being named. -/
inductive Setting
  | manifest
  | docFile
  | output
  | format
  | encoding
  | namespaceName
  deriving DecidableEq, Repr

inductive Switch
  | verbose
  | listMembers
  | help
  deriving DecidableEq, Repr

inductive Name
  | setting (setting : Setting)
  | switch (switch : Switch)
  deriving DecidableEq, Repr

def longName? (name : List Char) : Option Name :=
  match String.ofList name with
  | "xml" => some (.setting .docFile)
  | "output" => some (.setting .output)
  | "format" => some (.setting .format)
  | "encoding" => some (.setting .encoding)
  | "namespace" => some (.setting .namespaceName)
  | "list-members" => some (.switch .listMembers)
  | "verbose" => some (.switch .verbose)
  | "help" => some (.switch .help)
  | _ => none

def shortName? : Char → Option Name
  | 'o' => some (.setting .output)
  | 'f' => some (.setting .format)
  | 'v' => some (.switch .verbose)
  | 'h' => some (.switch .help)
  | _ => none

/-! ## Drafts -/

/-- The arguments understood so far, and the setting that waits for its value to be
looked at. A waiting setting without a value may take it from the next word. -/
structure Draft where
  manifest : Option Path
  docFile : Option Path
  output : Option Path
  format : Option String
  encoding : Option Encoding
  namespaces : List String
  listMembers : Bool
  verbose : Bool
  /-- Whether a word has been taken for the manifest. -/
  manifestTaken : Bool
  waiting : Option (Setting × Option String)
  deriving DecidableEq, Repr

def Draft.empty : Draft :=
  { manifest := none, docFile := none, output := none, format := none, encoding := none
    namespaces := [], listMembers := false, verbose := false, manifestTaken := false
    waiting := none }

namespace Draft

def isGiven (draft : Draft) : Setting → Bool
  | .manifest => draft.manifest.isSome
  | .docFile => draft.docFile.isSome
  | .output => draft.output.isSome
  | .format => draft.format.isSome
  | .encoding => draft.encoding.isSome
  | .namespaceName => false

/-- Paths are not empty. -/
def path? (value : String) : Except UsageError Path :=
  if value.isEmpty then .error .invalidValue else .ok ⟨value⟩

/-- Gives a setting its value. All but the namespaces have one value. -/
def give (draft : Draft) (setting : Setting) (value : String) : Except UsageError Draft :=
  if draft.isGiven setting then .error .repeatedArgument
  else match setting with
    | .manifest => (path? value).map fun path => { draft with manifest := some path }
    | .docFile => (path? value).map fun path => { draft with docFile := some path }
    | .output => (path? value).map fun path => { draft with output := some path }
    | .format => .ok { draft with format := some value }
    | .encoding => match Encoding.ofName? value with
      | none => .error .invalidValue
      | some encoding => .ok { draft with encoding := some encoding }
    | .namespaceName => .ok { draft with namespaces := draft.namespaces ++ [value] }

/-- Looks at the value of the waiting setting. -/
def settle (draft : Draft) : Except UsageError Draft :=
  match draft.waiting with
  | none => .ok draft
  | some (_, none) => .error .invalidValue
  | some (setting, some value) => { draft with waiting := none }.give setting value

/-- Lets a setting wait for its value. -/
def await (draft : Draft) (setting : Setting) (value : Option String) :
    Except UsageError Draft :=
  draft.settle.map fun settled => { settled with waiting := some (setting, value) }

/-- Gives a setting a value that stands in the same word. -/
def attach (draft : Draft) (setting : Setting) (value : String) : Except UsageError Draft :=
  draft.settle.bind (·.give setting value)

def turnOn (draft : Draft) (switch : Switch) : Except UsageError Draft :=
  draft.settle.bind fun settled => match switch with
    | .help => .error .helpRequested
    | .verbose =>
      if settled.verbose then .error .repeatedArgument else .ok { settled with verbose := true }
    | .listMembers =>
      if settled.listMembers then .error .repeatedArgument
      else .ok { settled with listMembers := true }

/-! ## Words -/

/-- Understands a word behind its two dashes. -/
def long (draft : Draft) (word : List Char) : Except UsageError Draft :=
  let (name, value) := match Text.cutFirst '=' word with
    | some (name, value) => (name, some (String.ofList value))
    | none => (word, none)
  match longName? name, value with
  | none, _ => .error .unknownArgument
  | some (.setting setting), some value => draft.attach setting value
  | some (.setting setting), none => draft.await setting none
  | some (.switch _), some _ => .error .unexpectedValue
  | some (.switch switch), none => draft.turnOn switch

/-- Understands the letters behind a single dash. -/
def short (draft : Draft) : List Char → Except UsageError Draft
  | [] => .ok draft
  | letter :: rest => match shortName? letter with
    | none => .error .unknownArgument
    | some (.switch switch) => match draft.turnOn switch with
      | .error e => .error e
      | .ok next => next.short rest
    | some (.setting setting) => match rest with
      | [] => draft.await setting none
      | '=' :: value => draft.attach setting (String.ofList value)
      | value => draft.attach setting (String.ofList value)

/-- Takes a word for the manifest, which there is one of. -/
def positional (draft : Draft) (word : String) : Except UsageError Draft :=
  if draft.manifestTaken then .error .unknownArgument
  else (draft.await .manifest (some word)).map fun next => { next with manifestTaken := true }

/-- Takes a word that is no option: for the value of the waiting setting, or else for the
manifest. -/
def plain (draft : Draft) (word : String) : Except UsageError Draft :=
  match draft.waiting with
  | some (setting, none) => .ok { draft with waiting := some (setting, some word) }
  | _ => draft.positional word

/-- Understands words; `ended` says that no further word is an option. -/
def words (ended : Bool) (draft : Draft) : List String → Except UsageError Draft
  | [] => draft.settle
  | word :: more =>
    let understood := if ended then (draft.positional word).map fun next => (true, next)
      else match word.toList with
        | ['-', '-'] => .ok (true, draft)
        | '-' :: '-' :: name => (draft.long name).map fun next => (false, next)
        | '-' :: letter :: letters => (draft.short (letter :: letters)).map fun next =>
            (false, next)
        | _ => (draft.plain word).map fun next => (false, next)
    match understood with
    | .error e => .error e
    | .ok (ended, next) => next.words ended more

/-- The options of a draft: text in UTF-16 unless said otherwise. -/
def options (draft : Draft) : Except UsageError Options :=
  match draft.manifest with
  | none => .error .missingArgument
  | some manifest => .ok
    { manifest
      docFile := draft.docFile
      output := draft.output
      format := draft.format.getD "text"
      encoding := draft.encoding.getD .utf16
      namespaces := draft.namespaces
      listMembers := draft.listMembers
      verbose := draft.verbose }

end Draft

/-- Understands a command line, without the name of the program. -/
def read (words : List String) : Except UsageError Options :=
  (Draft.empty.words false words).bind (·.options)

end Arguments

end DocSheet
