import ApiDocs.Config

/-!
# Arguments of the command

Arguments are read from left to right. An option that takes values keeps them until the next argument
that is none of its values; only then are they checked, so a later argument that is not known at all
is found first.
-/

namespace ApiDocs.CommandLine

structure Arguments where
  projectPath : String := ""
  schemas : Option String := none
  paths : Option String := none
  output : Option String := none
  format : Option Format := none
  config : Option String := none
  /-- Names of further directories to skip. -/
  ignore : List String := []
  errorRef : Option String := none
  defaultErrors : Option (List Nat) := none
  tagsFrom : Option String := none
  exportUi : Option String := none
  strict : Bool := false
  verbose : Bool := false
deriving Repr, DecidableEq, Inhabited

/-- Why arguments cannot be used, or that they ask for something else. -/
inductive UsageError where
  | unknownArgument
  | invalidValue
  | valueValidation
  | missingRequiredArgument
  | argumentConflict
  | tooManyValues
  | displayHelp
  | displayVersion
deriving Repr, DecidableEq

/-- What takes values. -/
inductive Slot where
  | project
  | schemas
  | paths
  | output
  | format
  | config
  | ignore
  | errorRef
  | defaultErrors
  | tagsFrom
  | exportUi
deriving Repr, DecidableEq

/-- What takes none. -/
inductive Switch where
  | strict
  | verbose
  | help
  | version
deriving Repr, DecidableEq

inductive OptionName where
  | slot (s : Slot)
  | switch (s : Switch)
deriving Repr, DecidableEq

def longOptions : List (String × OptionName) := [
  ("schemas", .slot .schemas),
  ("paths", .slot .paths),
  ("output", .slot .output),
  ("format", .slot .format),
  ("config", .slot .config),
  ("ignore", .slot .ignore),
  ("error-ref", .slot .errorRef),
  ("default-errors", .slot .defaultErrors),
  ("tags-from", .slot .tagsFrom),
  ("export-ui", .slot .exportUi),
  ("strict", .switch .strict),
  ("verbose", .switch .verbose),
  ("help", .switch .help),
  ("version", .switch .version)]

def shortOptions : List (Char × OptionName) := [
  ('o', .slot .output),
  ('f', .slot .format),
  ('c', .slot .config),
  ('v', .switch .verbose),
  ('h', .switch .help),
  ('V', .switch .version)]

/-! ## Values -/

def pathValue (value : String) : Except UsageError String :=
  if value.isEmpty then .error .invalidValue else .ok value

def formatValue (value : String) : Except UsageError Format :=
  match Format.ofName? value with
  | some f => .ok f
  | none => .error .invalidValue

def codeValue (value : String) : Except UsageError Nat :=
  match integerChars? value.toList with
  | some n => if Word.Unsigned 16 n then .ok n.toNat else .error .valueValidation
  | none => .error .valueValidation

def setOnce {α : Type} (old : Option α) (value : Except UsageError α) :
    Except UsageError (Option α) := do
  if old.isSome then .error .argumentConflict else some <$> value

/-- The arguments with the values of a slot. All slots but the error codes need one. -/
def Arguments.put (a : Arguments) (slot : Slot) (values : List String) :
    Except UsageError Arguments := do
  match slot, values with
  | .defaultErrors, values =>
    let codes ← (values.flatMap (Text.parts ',')).mapM codeValue
    .ok { a with defaultErrors := some (a.defaultErrors.getD [] ++ codes) }
  | _, [] => .error .invalidValue
  | .project, v :: _ => .ok { a with projectPath := ← pathValue v }
  | .schemas, v :: _ => .ok { a with schemas := ← setOnce a.schemas (pathValue v) }
  | .paths, v :: _ => .ok { a with paths := ← setOnce a.paths (pathValue v) }
  | .output, v :: _ => .ok { a with output := ← setOnce a.output (pathValue v) }
  | .format, v :: _ => .ok { a with format := ← setOnce a.format (formatValue v) }
  | .config, v :: _ => .ok { a with config := ← setOnce a.config (pathValue v) }
  | .ignore, v :: _ => .ok { a with ignore := a.ignore ++ Text.parts ',' v }
  | .errorRef, v :: _ => .ok { a with errorRef := ← setOnce a.errorRef (.ok v) }
  | .tagsFrom, v :: _ => .ok { a with tagsFrom := ← setOnce a.tagsFrom (pathValue v) }
  | .exportUi, v :: _ => .ok { a with exportUi := ← setOnce a.exportUi (pathValue v) }

def Arguments.turnOn (a : Arguments) : Switch → Except UsageError Arguments
  | .strict => if a.strict then .error .argumentConflict else .ok { a with strict := true }
  | .verbose => if a.verbose then .error .argumentConflict else .ok { a with verbose := true }
  | .help => .error .displayHelp
  | .version => .error .displayVersion

/-! ## Reading -/

structure Progress where
  arguments : Arguments := {}
  /-- A slot with values that are not checked yet. -/
  pending : Option (Slot × List String) := none
  /-- The next word is a value of the pending slot. -/
  expecting : Bool := false
  /-- The project path has come. -/
  located : Bool := false
  /-- Only positions count. -/
  trailing : Bool := false

namespace Progress

def settle (p : Progress) : Except UsageError Progress := do
  match p.pending with
  | none => .ok p
  | some (slot, values) =>
    .ok { p with arguments := ← p.arguments.put slot values, pending := none, expecting := false }

def turnOn (p : Progress) (s : Switch) : Except UsageError Progress := do
  let p ← p.settle
  .ok { p with arguments := ← p.arguments.turnOn s }

def await (p : Progress) (slot : Slot) : Except UsageError Progress := do
  .ok { ← p.settle with pending := some (slot, []), expecting := true }

def attach (p : Progress) (slot : Slot) (value : String) : Except UsageError Progress := do
  let p ← p.settle
  .ok { p with arguments := ← p.arguments.put slot [value] }

/-- An option with two dashes, and the value after an equals sign. -/
def long (p : Progress) (name : String) (value : Option String) : Except UsageError Progress :=
  match longOptions.lookup name, value with
  | none, _ => .error .unknownArgument
  | some (.switch s), none => p.turnOn s
  | some (.switch _), some _ => .error .tooManyValues
  | some (.slot s), none => p.await s
  | some (.slot s), some value => p.attach s value

/-- Options with one letter each; the rest after one that takes a value is the value. -/
def short (p : Progress) : List Char → Except UsageError Progress
  | [] => .ok p
  | c :: cs =>
    match shortOptions.lookup c with
    | none => .error .unknownArgument
    | some (.switch s) => do (← p.turnOn s).short cs
    | some (.slot s) =>
      match cs with
      | [] => p.await s
      | '=' :: value => p.attach s (String.ofList value)
      | value => p.attach s (String.ofList value)

def word (p : Progress) (text : String) : Except UsageError Progress :=
  match p.expecting && !p.trailing, p.pending with
  | true, some (slot, values) =>
    .ok { p with pending := some (slot, values ++ [text]), expecting := slot = .defaultErrors }
  | _, _ => do
    if p.located then .error .unknownArgument
    else .ok { ← p.settle with pending := some (.project, [text]), expecting := false, located := true }

def next (p : Progress) (text : String) : Except UsageError Progress :=
  match p.trailing, text.toList with
  | false, ['-', '-'] => .ok { p with trailing := true }
  | false, '-' :: '-' :: cs =>
    match Text.cutChars '=' cs with
    | some (name, value) => p.long (String.ofList name) (some (String.ofList value))
    | none => p.long (String.ofList cs) none
  | false, '-' :: c :: cs => p.short (c :: cs)
  | _, _ => p.word text

end Progress

def Arguments.ofWords (words : List String) : Except UsageError Arguments := do
  let p ← (← words.foldlM Progress.next {}).settle
  if p.located then .ok p.arguments else .error .missingRequiredArgument

end ApiDocs.CommandLine
