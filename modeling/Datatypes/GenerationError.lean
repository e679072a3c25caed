import Datatypes.Convention
import Datatypes.FileError

namespace Datatypes

inductive Standard where
  | psr4
  | psr0
deriving DecidableEq, Repr

def Standard.name : Standard → String
  | .psr4 => "psr-4"
  | .psr0 => "psr-0"

inductive ConventionsFault where
  | unreadable (cause : FileError)
  | malformed
  | emptyNamespace
deriving DecidableEq, Repr

def ConventionsFault.message : ConventionsFault → String
  | .unreadable cause => cause.message
  | .malformed => "<toml error>"
  | .emptyNamespace => "namespace name must not be empty"

inductive ManifestFault where
  | unreadable (cause : FileError)
  | malformed
  | noDirectory (standard : Standard) (key : String)
deriving DecidableEq, Repr

def ManifestFault.message : ManifestFault → String
  | .unreadable cause => cause.message
  | .malformed => "<json error>"
  | .noDirectory standard key => standard.name ++ " entry '" ++ key ++ "' has no directory"

inductive GenerationError where
  | unknownDeriving (definition deriv ns : String)
  | violation (definition : String) (cause : Violation)
  | unknownNamespace (ns : String)
  | invalidConventions (path : String) (cause : ConventionsFault)
  | invalidManifest (path : String) (cause : ManifestFault)
  | noPath (class_ : String)
  | notWritten (path : String) (cause : FileError)
deriving DecidableEq, Repr

def GenerationError.message : GenerationError → String
  | .unknownDeriving definition deriv ns =>
    definition ++ ": no convention registered for deriving '" ++ deriv ++ "' in namespace '" ++
      ns ++ "'"
  | .violation definition cause => definition ++ ": " ++ cause.reason
  | .unknownNamespace ns => "unknown convention namespace '" ++ ns ++ "'"
  | .invalidConventions path cause => "invalid conventions file " ++ path ++ ": " ++ cause.message
  | .invalidManifest path cause => "invalid composer file " ++ path ++ ": " ++ cause.message
  | .noPath class_ => "could not find psr autoloading path for " ++ class_
  | .notWritten path cause => "cannot write " ++ path ++ ": " ++ cause.message

end Datatypes
