import DecisionScore.Text.Blank

/-! # Languages

The supported languages, the tags and file extensions that stand for them, and how each one is
scored. -/

namespace DecisionScore

/-- The supported languages. -/
inductive Language where
  | python
  | java
  | cpp
deriving DecidableEq, Repr, Inhabited

/-- How a language is scored. -/
inductive Frontend where
  /-- By the tree of the text. -/
  | tree
  /-- Line by line, for texts with braces. -/
  | lines
deriving DecidableEq, Repr

namespace Language

/-- The name of a language. -/
def tag : Language → String
  | python => "python"
  | java => "java"
  | cpp => "c++"

/-- The language a tag stands for.  White space around it and the case of ASCII letters do not
matter. -/
def ofTag? (s : String) : Option Language :=
  match String.ofList ((Text.trim s.toList).map Char.toLower) with
  | "python" | "py" => some python
  | "java" => some java
  | "c++" | "cpp" | "cxx" | "cc" => some cpp
  | _ => none

/-- The language a file extension stands for. -/
def ofExtension? : String → Option Language
  | "py" => some python
  | "java" => some java
  | "cpp" | "cc" | "cxx" | "c++" | "hpp" | "hh" | "hxx" | "h" => some cpp
  | _ => none

/-- How the language is scored. -/
def frontend : Language → Frontend
  | python => .tree
  | java | cpp => .lines

/-- Whether there is a grammar for the language. -/
def hasGrammar (l : Language) : Bool := l = python

/-- Names that look like the head of a method but are constructions of exceptions. -/
def excludedIdentifiers : Language → List String
  | python => []
  | java => ["RuntimeException", "IllegalArgumentException", "IllegalStateException",
      "NullPointerException", "IndexOutOfBoundsException", "UnsupportedOperationException",
      "ArithmeticException"]
  | cpp => ["runtime_error", "invalid_argument", "out_of_range", "logic_error", "domain_error",
      "length_error"]

end Language

end DecisionScore
