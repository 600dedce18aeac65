import DocTemplate.Data.Format
import DocTemplate.Files.SystemError

/-! Failures of commands and how they are reported.

A fault is a failure that the program knows, with advice of its own. A cause comes from outside,
under notes that say what was being done, and is reported with all of them. A crash ends the program
where it is, without a report. -/

namespace DocTemplate

/-- What stands for the words of a reader about a text that it cannot read. -/
def readerMessage : String := "<parser message>"

/-- A place in a template that cannot be compiled. -/
structure SyntaxAnomaly where
  message : String
  position : Nat
deriving DecidableEq, Repr

def SyntaxAnomaly.text (a : SyntaxAnomaly) : String :=
  "Template syntax anomaly at offset " ++ toString a.position ++ ": " ++ a.message

/-- A failure that the program knows. -/
inductive Fault where
  | templateNotFound (path : String)
  | templateTooLarge (path : String) (size limit : Nat)
  | templateNotUtf8 (path : String)
  | contextNotFound (path : String)
  | unsupportedContextFormat (path extension : String)
  | invalidContext (path : String)
  | configError (message : String)
  | strictViolation (count : Nat)
  | template (a : SyntaxAnomaly)
  | system (e : SystemError)
  | unreadable (f : Format)
  | other (message : String)
deriving DecidableEq, Repr

namespace Fault

def message : Fault → String
  | templateNotFound path => "Template file not found: " ++ path
  | templateTooLarge path size limit =>
    "Template " ++ path ++ " is " ++ toString size ++ " bytes, which exceeds the " ++
      toString limit ++ " byte limit"
  | templateNotUtf8 path => "Template " ++ path ++ " is not valid UTF-8"
  | contextNotFound path => "Context file not found: " ++ path
  | unsupportedContextFormat path extension =>
    "Unsupported context file format '" ++ extension ++ "' for " ++ path
  | invalidContext path => "Invalid context file " ++ path ++ ": " ++ readerMessage
  | configError message => "Configuration error: " ++ message
  | strictViolation count => toString count ++ " diagnostic(s) reported in strict mode"
  | template a => a.text
  | system e => "IO error: " ++ e.message
  | unreadable .json => "JSON error: " ++ readerMessage
  | unreadable .toml => "TOML parsing error: " ++ readerMessage
  | unreadable .yaml => "YAML parsing error: " ++ readerMessage
  | other message => message

/-- What the user can do about a fault. -/
def suggestion? : Fault → Option String
  | templateNotFound _ =>
    some <| "Check the template path, or set templates_dir in the config file for relative paths"
  | templateTooLarge .. =>
    some <| "Raise max_template_size in the config file if this template is expected to be " ++
      "this large"
  | templateNotUtf8 _ => some "Re-save the template with UTF-8 encoding"
  | contextNotFound _ => some "Check the path passed to --data or --context"
  | unsupportedContextFormat .. => some "Use a .json, .toml, .yaml or .yml file"
  | invalidContext _ | unreadable .json | unreadable .yaml =>
    some <| "Fix the syntax of the data file; it must parse as JSON, TOML or YAML according to " ++
      "its extension"
  | configError _ | unreadable .toml =>
    some <| "Check the configuration file, or run 'docgen config show' to see the effective " ++
      "settings"
  | strictViolation _ => some "Fix the reported diagnostics, or run without --strict"
  | system _ => some "Check that the path exists and is accessible"
  | template _ | other _ => none

/-- Why a fault is one. -/
def details? : Fault → Option String
  | templateTooLarge .. =>
    some "Oversized templates are rejected before compiling to bound memory use"
  | strictViolation _ =>
    some "Strict mode treats missing variables and unbalanced tags as failures"
  | template _ =>
    some <| "Malformed nesting is normally repaired automatically; this template could not be"
  | _ => none

end Fault

/-- What went wrong outside the program's own rules. -/
inductive Cause where
  | system (e : SystemError)
  | unreadable (f : Format)
  | anomaly (a : SyntaxAnomaly)
  | message (text : String)
deriving DecidableEq, Repr

namespace Cause

def text : Cause → String
  | system e => e.message
  | unreadable _ => readerMessage
  | anomaly a => a.text
  | message text => text

def suggestion? : Cause → Option String
  | system e =>
    match e.kind with
    | .permissionDenied => some "Check the file permissions and ownership"
    | .notFound => some "Check that the file or directory exists and the path is correct"
    | .invalidData | .unexpectedEof | .other => none
  | unreadable .toml => some "Check the TOML syntax. Verify quotes, brackets, and key names"
  | unreadable .json | unreadable .yaml | anomaly _ | message _ => none

def details? : Cause → Option String
  | system e =>
    if e.kind = .permissionDenied then
      some "docgen could not read or write one of the files involved"
    else none
  | unreadable _ | anomaly _ | message _ => none

end Cause

/-- A fault, a cause under notes, the outermost note first, or a crash. -/
inductive Failure where
  | fault (f : Fault)
  | cause (notes : List String) (c : Cause)
  | crash (reason : String)
deriving DecidableEq, Repr

/-- A fault with advice, as it is shown to the user. -/
structure Report where
  fault : Fault
  details : Option String
  suggestion : Option String
deriving DecidableEq, Repr

namespace Report

def text (r : Report) : String :=
  r.fault.message ++
    (match r.details with
      | some details => "\nDetails: " ++ details
      | none => "") ++
    (match r.suggestion with
      | some suggestion => "\nSuggestion: " ++ suggestion
      | none => "")

end Report

namespace Failure

/-- Puts a note over a failure. A fault speaks for itself and takes none, and nothing comes after a
crash. -/
def withNote (note : String) : Failure → Failure
  | fault f => fault f
  | cause notes c => cause (note :: notes) c
  | crash reason => crash reason

/-- What a number of diagnostics means: a failure if there are any and the run is strict. -/
def verdict (strict : Bool) (count : Nat) : Except Failure Unit :=
  if strict ∧ 0 < count then .error (.fault (.strictViolation count)) else .ok ()

/-- The lines of a chain of causes, numbered from `n` on. -/
def chain (n : Nat) : List String → String
  | [] => ""
  | text :: texts => "\n  " ++ toString n ++ ": " ++ text ++ chain (n + 1) texts

/-- The outermost text, and under it all the others. -/
def message (notes : List String) (c : Cause) : String :=
  match notes ++ [c.text] with
  | [] => ""
  | [text] => text
  | text :: texts => text ++ "\n\nCaused by:" ++ chain 1 texts

def report? : Failure → Option Report
  | fault f => some ⟨f, f.details?, f.suggestion?⟩
  | cause notes c => some ⟨.other (message notes c), c.details?, c.suggestion?⟩
  | crash _ => none

/-- The exit code of the program after a failure. -/
def exitCode : Failure → Nat
  | fault _ | cause .. => 1
  | crash _ => 101

end Failure
end DocTemplate
