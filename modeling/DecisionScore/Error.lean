/-! # Errors

Why an analysis can fail, and the message of each cause. -/

namespace DecisionScore

/-- Why a file cannot be read. -/
inductive ReadFault where
  | notFound
  | notADirectory
  | isADirectory
  | noPermission
  | tooManyLinks
  | notText
deriving DecidableEq, Repr

/-- The wording of a read fault. -/
def ReadFault.message : ReadFault → String
  | notFound => "No such file or directory (os error 2)"
  | notADirectory => "Not a directory (os error 20)"
  | isADirectory => "Is a directory (os error 21)"
  | noPermission => "Permission denied (os error 13)"
  | tooManyLinks => "Too many levels of symbolic links (os error 40)"
  | notText => "stream did not contain valid UTF-8"

/-- Why an analysis fails. -/
inductive AnalysisError where
  | unsupportedLanguage (what : String)
  | malformedSource (line : Nat)
  | unreadable (fault : ReadFault) (path : String)
  | config (detail : String)
  | internal (detail : String)
deriving DecidableEq, Repr

/-- The wording of an error. -/
def AnalysisError.message : AnalysisError → String
  | unsupportedLanguage what => "Unsupported language: " ++ what
  | malformedSource line => "Malformed source near line " ++ toString line
  | unreadable fault path => "I/O error: " ++ fault.message ++ " (path: " ++ path ++ ")"
  | config detail => "Config error: " ++ detail
  | internal detail => "Analysis failed: " ++ detail

end DecisionScore
