import PatternRules.Config.Codec
import PatternRules.Files.Tree

/-!
Configurations in files.
-/

namespace PatternRules

/-- Why a file cannot be read as text. -/
inductive FileFault where
  | notFound
  | isDirectory
  | notDirectory
  | nameTooLong
  | nameInvalid
  | notText
deriving DecidableEq

/-- What the system says about a fault. -/
def FileFault.describe : FileFault → String
  | notFound => "No such file or directory (os error 2)"
  | isDirectory => "Is a directory (os error 21)"
  | notDirectory => "Not a directory (os error 20)"
  | nameTooLong => "File name too long (os error 36)"
  | nameInvalid => "file name contained an unexpected NUL byte"
  | notText => "stream did not contain valid UTF-8"

/-- The text of a file. -/
def FileTree.readText (tree : FileTree) (path : String) : Except FileFault String :=
  match tree.find path with
  | .absent => .error .notFound
  | .directory => .error .isDirectory
  | .notDirectory => .error .notDirectory
  | .nameTooLong => .error .nameTooLong
  | .nameInvalid => .error .nameInvalid
  | .file _ content =>
    match String.fromUTF8? content with
    | some text => .ok text
    | none => .error .notText

/-- Why there is no configuration at a path. -/
inductive LoadFault where
  | file (path : String) (fault : FileFault)
  | config (fault : ConfigFault)
deriving DecidableEq

/-- What is said about a fault; a text that is no JSON has no message. -/
def LoadFault.message? : LoadFault → Option String
  | file path fault =>
    some ("cannot read config file " ++ Text.quoted path ++ ": " ++ fault.describe)
  | config fault => fault.message?

/-- Reads a configuration from a file. -/
def Config.load (tree : FileTree) (path : String) : Except LoadFault Config := do
  let text ← (tree.readText path).mapError (.file path)
  (Config.ofText text.toList).mapError .config

end PatternRules
