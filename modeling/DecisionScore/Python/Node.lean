import DecisionScore.Tree

/-! # Nodes of a Python tree

The kinds of node that matter to scoring have names of their own; every other named node is a
`phrase`, and keywords and punctuation are `mark`s. -/

namespace DecisionScore.Python

/-- The kinds of node. -/
inductive Kind where
  | functionDefinition
  | classDefinition
  | ifStatement
  | elifClause
  | elseClause
  | whileStatement
  | forStatement
  | tryStatement
  | conditionalExpression
  | booleanOperator
  | binaryOperator
  | comparisonOperator
  | attribute
  | keywordArgument
  | identifier
  | integer
  | float
  | trueLiteral
  | falseLiteral
  | noneLiteral
  | ellipsis
  | string
  | concatenatedString
  | comment
  | lineContinuation
  /-- Any other named node. -/
  | phrase
  /-- A keyword or a punctuation mark. -/
  | mark
deriving DecidableEq, Repr, Inhabited

/-- Whether nodes of the kind are named, so that they count among the named children. -/
def Kind.isNamed (k : Kind) : Bool := k != .mark

/-- Whether nodes of the kind may stand anywhere in a text. -/
def Kind.isExtra (k : Kind) : Bool := k == .comment || k == .lineContinuation

/-- The roles a node can play in its parent. -/
inductive Role where
  | alias | alternative | argument | arguments | attribute | body | cause | code | condition
  | consequence | definition | expression | formatSpecifier | function | guard | key | left
  | moduleName | name | object | operator | operators | parameters | returnType | right
  | subject | subscript | superclasses | type | typeConversion | typeParameters | value
deriving DecidableEq, Repr, Inhabited

/-- The tree of a Python text. -/
abbrev Node := Tree Kind Role

end DecisionScore.Python
