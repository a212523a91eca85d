import DecisionScore.Grammar.Table
import DecisionScore.Python.Node
import DecisionScore.Python.Token

/-! # The grammar of Python

The rules of the language, versions 2 and 3 together: `print` and `exec` statements stand beside
`match` and type aliases.  `rule` gives the rule of each nonterminal and `shown` the kind of node
it makes; a nonterminal that is not shown hands its children to its parent. -/

namespace DecisionScore.Python

open Grammar

/-- The nonterminals. -/
inductive Nonterminal where
  | module | statement | simpleStatements
  | importStatement | importPrefix | relativeImport | futureImport | importFrom | importList
  | aliasedImport | wildcardImport
  | printStatement | chevron | assertStatement | expressionStatement | namedExpression
  | namedTarget | returnStatement | deleteStatement | raiseStatement | passStatement
  | breakStatement | continueStatement
  | ifStatement | elifClause | elseClause | matchStatement | matchBlock | caseClause
  | forStatement | whileStatement | tryStatement | exceptClause | exceptGroupClause
  | finallyClause | withStatement | withClause | withItem | functionDefinition | parameters
  | lambdaParameters | listSplat | dictionarySplat | globalStatement | nonlocalStatement
  | execStatement | typeAlias | classDefinition | typeParameter | parenthesizedListSplat
  | argumentList | decoratedDefinition | decorator | block | expressionList | dottedName
  | casePattern | simplePattern | caseAsPattern | unionPattern | caseListPattern
  | caseTuplePattern | dictPattern | keyValuePattern | keywordPattern | splatPattern
  | classPattern | complexPattern
  | parameterList | patterns | parameter | pattern | tuplePattern | listPattern
  | defaultParameter | typedDefaultParameter | listSplatPattern | dictionarySplatPattern
  | asPattern | iterated | expression | primary | notOperator | booleanOperator
  | binaryOperator | unaryOperator | comparisonOperator | lambda | iteratedLambda | assignment
  | augmentedAssignment | patternList | rightHandSide | yield | attribute | subscript | slice
  | call | typedParameter | type | splatType | genericType | unionType | constrainedType
  | memberType | keywordArgument
  | list | set | tuple | dictionary | pair | listComprehension | dictionaryComprehension
  | setComprehension | generatorExpression | comprehensionClauses | parenthesized
  | collectionElements | forInClause | ifClause | conditionalExpression
  | concatenatedString | string | stringContent | interpolation | interpolated
  | formatSpecifier | await | positionalSeparator | keywordSeparator
deriving DecidableEq, Repr, Inhabited

/-- A rule of the grammar. -/
abbrev PhraseRule := Rule Token Nonterminal Kind Role

open Rule

/-- A token in a rule. -/
def tok (t : Token) : PhraseRule := .token t

/-- A nonterminal in a rule. -/
def nt (n : Nonterminal) : PhraseRule := .ref n

/-- One or more, with commas between. -/
def commaSep1 (r : PhraseRule) : PhraseRule := sep1 r (tok .comma)

/-- A left-associative level of precedence. -/
def leftAt (level : Int) (r : PhraseRule) : PhraseRule := prec level (assoc .left r)

/-- A right-associative level of precedence. -/
def rightAt (level : Int) (r : PhraseRule) : PhraseRule := prec level (assoc .right r)

/-! ### Parts without a node of their own -/

/-- A word that is a keyword elsewhere, used as an identifier. -/
def keywordIdentifier : PhraseRule :=
  alt
    (prec (-3) (shownAs .identifier (oneOf [tok .kwPrint, tok .kwExec, tok .kwAsync,
      tok .kwAwait, tok .kwMatch])))
    (shownAs .identifier (tok .kwType))

/-- A statement that fits on one line. -/
def simpleStatement : PhraseRule :=
  oneOf [nt .futureImport, nt .importStatement, nt .importFrom, nt .printStatement,
    nt .assertStatement, nt .expressionStatement, nt .returnStatement, nt .deleteStatement,
    nt .raiseStatement, nt .passStatement, nt .breakStatement, nt .continueStatement,
    nt .globalStatement, nt .nonlocalStatement, nt .execStatement, nt .typeAlias]

/-- A statement with a body. -/
def compoundStatement : PhraseRule :=
  oneOf [nt .ifStatement, nt .forStatement, nt .whileStatement, nt .tryStatement,
    nt .withStatement, nt .functionDefinition, nt .classDefinition, nt .decoratedDefinition,
    nt .matchStatement]

/-- The body of a statement: on the same line, indented below, or left out. -/
def suite : PhraseRule :=
  oneOf [shownAs .phrase (nt .simpleStatements), seq (tok .indent) (nt .block),
    shownAs .phrase (tok .newline)]

/-- One expression or several. -/
def expressions : PhraseRule := alt (nt .expression) (nt .expressionList)

/-- One target or several. -/
def leftHandSide : PhraseRule := alt (nt .pattern) (nt .patternList)

/-- A tuple of case patterns between brackets. -/
def casePatterns (left right : Token) : PhraseRule :=
  chain [tok left, opt (seq (commaSep1 (nt .casePattern)) (opt (tok .comma))), tok right]

/-- One binary operator. -/
def binary (side : Assoc) (operator : Token) (level : Int) : PhraseRule :=
  prec level (assoc side (chain [role .left (nt .primary), role .operator (tok operator),
    role .right (nt .primary)]))

/-- One boolean operator. -/
def logical (operator : Token) (level : Int) : PhraseRule :=
  leftAt level (chain [role .left (nt .expression), role .operator (tok operator),
    role .right (nt .expression)])

/-- An integer or a float. -/
def numeral : PhraseRule := alt (tok .integer) (tok .float)

/-- What a `*` or `**` can gather into. -/
def gathered : PhraseRule :=
  oneOf [tok .identifier, keywordIdentifier, nt .subscript, nt .attribute]

/-! ### The rules -/

/-- The rule of each nonterminal. -/
def rule : Nonterminal → PhraseRule
  | .module => many (nt .statement)
  | .statement => alt (nt .simpleStatements) compoundStatement
  | .simpleStatements =>
    chain [sep1 simpleStatement (tok .semicolon), opt (tok .semicolon), tok .newline]
  | .importStatement => seq (tok .kwImport) (nt .importList)
  | .importPrefix => many1 (tok .dot)
  | .relativeImport => seq (nt .importPrefix) (opt (nt .dottedName))
  | .futureImport => chain [tok .kwFrom, tok .kwFuture, tok .kwImport,
      alt (nt .importList) (chain [tok .lparen, nt .importList, tok .rparen])]
  | .importFrom => chain [tok .kwFrom,
      role .moduleName (alt (nt .relativeImport) (nt .dottedName)), tok .kwImport,
      oneOf [nt .wildcardImport, nt .importList,
        chain [tok .lparen, nt .importList, tok .rparen]]]
  | .importList =>
    seq (commaSep1 (role .name (alt (nt .dottedName) (nt .aliasedImport)))) (opt (tok .comma))
  | .aliasedImport =>
    chain [role .name (nt .dottedName), tok .kwAs, role .alias (tok .identifier)]
  | .wildcardImport => tok .star
  | .printStatement => alt
      (prec 1 (chain [tok .kwPrint, nt .chevron,
        many (seq (tok .comma) (role .argument (nt .expression))), opt (tok .comma)]))
      (prec (-3) (prefer (-1) (chain [tok .kwPrint,
        commaSep1 (role .argument (nt .expression)), opt (tok .comma)])))
  | .chevron => seq (tok .shiftRight) (nt .expression)
  | .assertStatement => seq (tok .kwAssert) (commaSep1 (nt .expression))
  | .expressionStatement => oneOf [nt .expression,
      seq (commaSep1 (nt .expression)) (opt (tok .comma)),
      nt .assignment, nt .augmentedAssignment, nt .yield]
  | .namedExpression =>
    chain [role .name (nt .namedTarget), tok .walrus, role .value (nt .expression)]
  | .namedTarget => alt (tok .identifier) keywordIdentifier
  | .returnStatement => seq (tok .kwReturn) (opt expressions)
  | .deleteStatement => seq (tok .kwDel) expressions
  | .raiseStatement => chain [tok .kwRaise, opt expressions,
      opt (seq (tok .kwFrom) (role .cause (nt .expression)))]
  | .passStatement => leftAt 0 (tok .kwPass)
  | .breakStatement => leftAt 0 (tok .kwBreak)
  | .continueStatement => leftAt 0 (tok .kwContinue)
  | .ifStatement => chain [tok .kwIf, role .condition (nt .expression), tok .colon,
      role .consequence suite, many (role .alternative (nt .elifClause)),
      opt (role .alternative (nt .elseClause))]
  | .elifClause => chain [tok .kwElif, role .condition (nt .expression), tok .colon,
      role .consequence suite]
  | .elseClause => chain [tok .kwElse, tok .colon, role .body suite]
  | .matchStatement => chain [tok .kwMatch, commaSep1 (role .subject (nt .expression)),
      opt (tok .comma), tok .colon, role .body (shownAs .phrase (nt .matchBlock))]
  | .matchBlock => alt
      (chain [tok .indent, many (role .alternative (nt .caseClause)), tok .dedent])
      (tok .newline)
  | .caseClause => chain [tok .kwCase, commaSep1 (nt .casePattern), opt (tok .comma),
      opt (role .guard (nt .ifClause)), tok .colon, role .consequence suite]
  | .forStatement => chain [opt (tok .kwAsync), tok .kwFor, role .left leftHandSide,
      tok .kwIn, role .right expressions, tok .colon, role .body suite,
      role .alternative (opt (nt .elseClause))]
  | .whileStatement => chain [tok .kwWhile, role .condition (nt .expression), tok .colon,
      role .body suite, opt (role .alternative (nt .elseClause))]
  | .tryStatement => chain [tok .kwTry, tok .colon, role .body suite,
      oneOf [
        chain [many1 (nt .exceptClause), opt (nt .elseClause), opt (nt .finallyClause)],
        chain [many1 (nt .exceptGroupClause), opt (nt .elseClause), opt (nt .finallyClause)],
        nt .finallyClause]]
  | .exceptClause => chain [tok .kwExcept,
      opt (seq (nt .expression)
        (opt (seq (alt (tok .kwAs) (tok .comma)) (nt .expression)))),
      tok .colon, suite]
  | .exceptGroupClause => chain [tok .exceptStar,
      seq (nt .expression) (opt (seq (tok .kwAs) (nt .expression))), tok .colon, suite]
  | .finallyClause => chain [tok .kwFinally, tok .colon, suite]
  | .withStatement => chain [opt (tok .kwAsync), tok .kwWith, nt .withClause, tok .colon,
      role .body suite]
  | .withClause => alt
      (seq (commaSep1 (nt .withItem)) (opt (tok .comma)))
      (chain [tok .lparen, commaSep1 (nt .withItem), opt (tok .comma), tok .rparen])
  | .withItem => prefer 1 (role .value (nt .expression))
  | .functionDefinition => chain [opt (tok .kwAsync), tok .kwDef,
      role .name (tok .identifier), role .typeParameters (opt (nt .typeParameter)),
      role .parameters (nt .parameters),
      opt (seq (tok .arrow) (role .returnType (nt .type))), tok .colon, role .body suite]
  | .parameters => chain [tok .lparen, opt (nt .parameterList), tok .rparen]
  | .lambdaParameters => nt .parameterList
  | .listSplat => seq (tok .star) (nt .expression)
  | .dictionarySplat => seq (tok .doubleStar) (nt .expression)
  | .globalStatement => seq (tok .kwGlobal) (commaSep1 (tok .identifier))
  | .nonlocalStatement => seq (tok .kwNonlocal) (commaSep1 (tok .identifier))
  | .execStatement => chain [tok .kwExec, role .code (alt (nt .string) (tok .identifier)),
      opt (seq (tok .kwIn) (commaSep1 (nt .expression)))]
  | .typeAlias => prefer 1 (chain [tok .kwType, nt .type, tok .equals, nt .type])
  | .classDefinition => chain [tok .kwClass, role .name (tok .identifier),
      role .typeParameters (opt (nt .typeParameter)),
      role .superclasses (opt (nt .argumentList)), tok .colon, role .body suite]
  | .typeParameter => chain [tok .lbracket, commaSep1 (nt .type), tok .rbracket]
  | .parenthesizedListSplat => prec 1 (chain [tok .lparen,
      alt (shownAs .phrase (nt .parenthesizedListSplat)) (nt .listSplat), tok .rparen])
  | .argumentList => chain [tok .lparen,
      opt (commaSep1 (oneOf [nt .expression, nt .listSplat, nt .dictionarySplat,
        shownAs .phrase (nt .parenthesizedListSplat), nt .keywordArgument])),
      opt (tok .comma), tok .rparen]
  | .decoratedDefinition => seq (many1 (nt .decorator))
      (role .definition (alt (nt .classDefinition) (nt .functionDefinition)))
  | .decorator => chain [tok .atSign, nt .expression, tok .newline]
  | .block => seq (many (nt .statement)) (tok .dedent)
  | .expressionList => rightAt 0 (seq (nt .expression) (alt (tok .comma)
      (seq (many1 (seq (tok .comma) (nt .expression))) (opt (tok .comma)))))
  | .dottedName => prec 1 (sep1 (tok .identifier) (tok .dot))
  | .casePattern => prec 1 (oneOf [shownAs .phrase (nt .caseAsPattern), nt .keywordPattern,
      nt .simplePattern])
  | .simplePattern => prec 1 (oneOf [nt .classPattern, nt .splatPattern, nt .unionPattern,
      shownAs .phrase (nt .caseListPattern), shownAs .phrase (nt .caseTuplePattern),
      nt .dictPattern, nt .string, nt .concatenatedString, tok .kwTrue, tok .kwFalse,
      tok .kwNone, seq (opt (tok .minus)) numeral, nt .complexPattern, nt .dottedName,
      tok .kwUnderscore])
  | .caseAsPattern => chain [nt .casePattern, tok .kwAs, tok .identifier]
  | .unionPattern => rightAt 0 (seq (nt .simplePattern)
      (many1 (leftAt 0 (seq (tok .bar) (nt .simplePattern)))))
  | .caseListPattern => casePatterns .lbracket .rbracket
  | .caseTuplePattern => casePatterns .lparen .rparen
  | .dictPattern => chain [tok .lbrace,
      opt (seq (commaSep1 (alt (nt .keyValuePattern) (nt .splatPattern))) (opt (tok .comma))),
      tok .rbrace]
  | .keyValuePattern =>
    chain [role .key (nt .simplePattern), tok .colon, role .value (nt .casePattern)]
  | .keywordPattern => chain [tok .identifier, tok .equals, nt .simplePattern]
  | .splatPattern => prec 1 (seq (alt (tok .star) (tok .doubleStar))
      (alt (tok .identifier) (tok .kwUnderscore)))
  | .classPattern => seq (nt .dottedName) (casePatterns .lparen .rparen)
  | .complexPattern => prec 1 (chain [opt (tok .minus), numeral,
      alt (tok .plus) (tok .minus), numeral])
  | .parameterList => seq (commaSep1 (nt .parameter)) (opt (tok .comma))
  | .patterns => seq (commaSep1 (nt .pattern)) (opt (tok .comma))
  | .parameter => oneOf [tok .identifier, nt .typedParameter, nt .defaultParameter,
      nt .typedDefaultParameter, nt .listSplatPattern, nt .tuplePattern,
      nt .keywordSeparator, nt .positionalSeparator, nt .dictionarySplatPattern]
  | .pattern => oneOf [tok .identifier, keywordIdentifier, nt .subscript, nt .attribute,
      nt .listSplatPattern, nt .tuplePattern, nt .listPattern]
  | .tuplePattern => chain [tok .lparen, opt (nt .patterns), tok .rparen]
  | .listPattern => chain [tok .lbracket, opt (nt .patterns), tok .rbracket]
  | .defaultParameter => chain [role .name (alt (tok .identifier) (nt .tuplePattern)),
      tok .equals, role .value (nt .expression)]
  | .typedDefaultParameter => prec (-1) (chain [role .name (tok .identifier), tok .colon,
      role .type (nt .type), tok .equals, role .value (nt .expression)])
  | .listSplatPattern => seq (tok .star) gathered
  | .dictionarySplatPattern => seq (tok .doubleStar) gathered
  | .asPattern => leftAt 0 (chain [nt .expression, tok .kwAs,
      role .alias (shownAs .phrase (nt .expression))])
  | .iterated => alt (nt .expression) (shownAs .phrase (nt .iteratedLambda))
  | .expression => oneOf [nt .comparisonOperator, nt .notOperator, nt .booleanOperator,
      nt .lambda, nt .primary, nt .conditionalExpression, nt .namedExpression, nt .asPattern]
  | .primary => oneOf [nt .await, nt .binaryOperator, tok .identifier, keywordIdentifier,
      nt .string, nt .concatenatedString, tok .integer, tok .float, tok .kwTrue, tok .kwFalse,
      tok .kwNone, nt .unaryOperator, nt .attribute, nt .subscript, nt .call, nt .list,
      nt .listComprehension, nt .dictionary, nt .dictionaryComprehension, nt .set,
      nt .setComprehension, nt .tuple, nt .parenthesized, nt .generatorExpression, tok .dots,
      shownAs .phrase (nt .listSplatPattern)]
  | .notOperator => prec 12 (seq (tok .kwNot) (role .argument (nt .expression)))
  | .booleanOperator => alt (logical .kwAnd 11) (logical .kwOr 10)
  | .binaryOperator => oneOf [binary .left .plus 18, binary .left .minus 18,
      binary .left .star 19, binary .left .atSign 19, binary .left .slash 19,
      binary .left .percent 19, binary .left .doubleSlash 19, binary .right .doubleStar 21,
      binary .left .bar 14, binary .left .ampersand 15, binary .left .caret 16,
      binary .left .shiftLeft 17, binary .left .shiftRight 17]
  | .unaryOperator => prec 20 (seq
      (role .operator (oneOf [tok .plus, tok .minus, tok .tilde]))
      (role .argument (nt .primary)))
  | .comparisonOperator => leftAt 13 (seq (nt .primary) (many1 (seq
      (role .operators (oneOf [tok .less, tok .lessEqual, tok .equalEqual, tok .notEqual,
        tok .greaterEqual, tok .greater, tok .lessGreater, tok .kwIn,
        shownAs .mark (seq (tok .kwNot) (tok .kwIn)), tok .kwIs,
        shownAs .mark (seq (tok .kwIs) (tok .kwNot))]))
      (nt .primary))))
  | .lambda => prec (-2) (chain [tok .kwLambda,
      role .parameters (opt (nt .lambdaParameters)), tok .colon, role .body (nt .expression)])
  | .iteratedLambda => chain [tok .kwLambda,
      role .parameters (opt (nt .lambdaParameters)), tok .colon, role .body (nt .iterated)]
  | .assignment => seq (role .left leftHandSide) (oneOf [
      seq (tok .equals) (role .right (nt .rightHandSide)),
      seq (tok .colon) (role .type (nt .type)),
      chain [tok .colon, role .type (nt .type), tok .equals,
        role .right (nt .rightHandSide)]])
  | .augmentedAssignment => chain [role .left leftHandSide,
      role .operator (oneOf [tok .plusEqual, tok .minusEqual, tok .starEqual, tok .slashEqual,
        tok .atEqual, tok .doubleSlashEqual, tok .percentEqual, tok .doubleStarEqual,
        tok .shiftRightEqual, tok .shiftLeftEqual, tok .ampersandEqual, tok .caretEqual,
        tok .barEqual]),
      role .right (nt .rightHandSide)]
  | .patternList => seq (nt .pattern) (alt (tok .comma)
      (seq (many1 (seq (tok .comma) (nt .pattern))) (opt (tok .comma))))
  | .rightHandSide => oneOf [nt .expression, nt .expressionList, nt .assignment,
      nt .augmentedAssignment, nt .patternList, nt .yield]
  | .yield => rightAt 0 (seq (tok .kwYield)
      (alt (seq (tok .kwFrom) (nt .expression)) (opt expressions)))
  | .attribute => prec 22 (chain [role .object (nt .primary), tok .dot,
      role .attribute (tok .identifier)])
  | .subscript => prec 22 (chain [role .value (nt .primary), tok .lbracket,
      commaSep1 (role .subscript (alt (nt .expression) (nt .slice))), opt (tok .comma),
      tok .rbracket])
  | .slice => chain [opt (nt .expression), tok .colon, opt (nt .expression),
      opt (seq (tok .colon) (opt (nt .expression)))]
  | .call => prec 22 (seq (role .function (nt .primary))
      (role .arguments (alt (nt .generatorExpression) (nt .argumentList))))
  | .typedParameter => prec (-1) (chain [
      oneOf [tok .identifier, nt .listSplatPattern, nt .dictionarySplatPattern], tok .colon,
      role .type (nt .type)])
  | .type => oneOf [nt .expression, nt .splatType, nt .genericType, nt .unionType,
      nt .constrainedType, nt .memberType]
  | .splatType => prec 1 (seq (alt (tok .star) (tok .doubleStar)) (tok .identifier))
  | .genericType => prec 1 (seq (tok .identifier) (nt .typeParameter))
  | .unionType => leftAt 0 (chain [nt .type, tok .bar, nt .type])
  | .constrainedType => rightAt 0 (chain [nt .type, tok .colon, nt .type])
  | .memberType => chain [nt .type, tok .dot, tok .identifier]
  | .keywordArgument => chain [role .name (alt (tok .identifier) keywordIdentifier),
      tok .equals, role .value (nt .expression)]
  | .list => chain [tok .lbracket, opt (nt .collectionElements), tok .rbracket]
  | .set => chain [tok .lbrace, nt .collectionElements, tok .rbrace]
  | .tuple => chain [tok .lparen, opt (nt .collectionElements), tok .rparen]
  | .dictionary => chain [tok .lbrace,
      opt (commaSep1 (alt (nt .pair) (nt .dictionarySplat))), opt (tok .comma), tok .rbrace]
  | .pair => chain [role .key (nt .expression), tok .colon, role .value (nt .expression)]
  | .listComprehension => chain [tok .lbracket, role .body (nt .expression),
      nt .comprehensionClauses, tok .rbracket]
  | .dictionaryComprehension => chain [tok .lbrace, role .body (nt .pair),
      nt .comprehensionClauses, tok .rbrace]
  | .setComprehension => chain [tok .lbrace, role .body (nt .expression),
      nt .comprehensionClauses, tok .rbrace]
  | .generatorExpression => chain [tok .lparen, role .body (nt .expression),
      nt .comprehensionClauses, tok .rparen]
  | .comprehensionClauses => seq (nt .forInClause)
      (many (alt (nt .forInClause) (nt .ifClause)))
  | .parenthesized => prec 1 (chain [tok .lparen, alt (nt .expression) (nt .yield),
      tok .rparen])
  | .collectionElements => seq
      (commaSep1 (oneOf [nt .expression, nt .yield, nt .listSplat,
        nt .parenthesizedListSplat]))
      (opt (tok .comma))
  | .forInClause => leftAt 0 (chain [opt (tok .kwAsync), tok .kwFor, role .left leftHandSide,
      tok .kwIn, role .right (commaSep1 (nt .iterated)), opt (tok .comma)])
  | .ifClause => seq (tok .kwIf) (nt .expression)
  | .conditionalExpression => rightAt (-1) (chain [nt .expression, tok .kwIf, nt .expression,
      tok .kwElse, nt .expression])
  | .concatenatedString => seq (nt .string) (many1 (nt .string))
  | .string => chain [tok .stringStart, many (alt (nt .interpolation) (nt .stringContent)),
      tok .stringEnd]
  | .stringContent => rightAt 0 (many1 (oneOf [tok .escapeInterpolation, tok .escapeSequence,
      tok .loneBackslash, tok .stringContent]))
  | .interpolation => chain [tok .lbrace, role .expression (nt .interpolated),
      opt (tok .equals), opt (role .typeConversion (tok .typeConversion)),
      opt (role .formatSpecifier (nt .formatSpecifier)), tok .rbrace]
  | .interpolated => oneOf [nt .expression, nt .expressionList, nt .patternList, nt .yield]
  | .formatSpecifier => seq (tok .colon)
      (many (alt (tok .formatText) (shownAs .phrase (nt .interpolation))))
  | .await => prec 20 (seq (tok .kwAwait) (nt .primary))
  | .positionalSeparator => tok .slash
  | .keywordSeparator => tok .star

/-- The kind of node each nonterminal makes, if any. -/
def shown : Nonterminal → Option Kind
  | .statement | .simpleStatements | .importList | .namedTarget | .matchBlock | .simplePattern
  | .caseAsPattern | .caseListPattern | .caseTuplePattern | .keyValuePattern | .parameterList
  | .patterns | .parameter | .pattern | .iterated | .expression | .primary | .rightHandSide
  | .comprehensionClauses | .collectionElements | .interpolated => none
  | .functionDefinition => some .functionDefinition
  | .classDefinition => some .classDefinition
  | .ifStatement => some .ifStatement
  | .elifClause => some .elifClause
  | .elseClause => some .elseClause
  | .whileStatement => some .whileStatement
  | .forStatement => some .forStatement
  | .tryStatement => some .tryStatement
  | .conditionalExpression => some .conditionalExpression
  | .booleanOperator => some .booleanOperator
  | .binaryOperator => some .binaryOperator
  | .comparisonOperator => some .comparisonOperator
  | .attribute => some .attribute
  | .keywordArgument => some .keywordArgument
  | .string => some .string
  | .concatenatedString => some .concatenatedString
  | _ => some .phrase

/-- All nonterminals, in the order of their numbers. -/
def nonterminals : List Nonterminal :=
  [.module, .statement, .simpleStatements, .importStatement, .importPrefix, .relativeImport,
   .futureImport, .importFrom, .importList, .aliasedImport, .wildcardImport, .printStatement,
   .chevron, .assertStatement, .expressionStatement, .namedExpression, .namedTarget,
   .returnStatement, .deleteStatement, .raiseStatement, .passStatement, .breakStatement,
   .continueStatement, .ifStatement, .elifClause, .elseClause, .matchStatement, .matchBlock,
   .caseClause, .forStatement, .whileStatement, .tryStatement, .exceptClause, .exceptGroupClause,
   .finallyClause, .withStatement, .withClause, .withItem, .functionDefinition, .parameters,
   .lambdaParameters, .listSplat, .dictionarySplat, .globalStatement, .nonlocalStatement,
   .execStatement, .typeAlias, .classDefinition, .typeParameter, .parenthesizedListSplat,
   .argumentList, .decoratedDefinition, .decorator, .block, .expressionList, .dottedName,
   .casePattern, .simplePattern, .caseAsPattern, .unionPattern, .caseListPattern,
   .caseTuplePattern, .dictPattern, .keyValuePattern, .keywordPattern, .splatPattern,
   .classPattern, .complexPattern, .parameterList, .patterns, .parameter, .pattern, .tuplePattern,
   .listPattern, .defaultParameter, .typedDefaultParameter, .listSplatPattern,
   .dictionarySplatPattern, .asPattern, .iterated, .expression, .primary, .notOperator,
   .booleanOperator, .binaryOperator, .unaryOperator, .comparisonOperator, .lambda,
   .iteratedLambda, .assignment, .augmentedAssignment, .patternList, .rightHandSide, .yield,
   .attribute, .subscript, .slice, .call, .typedParameter, .type, .splatType, .genericType,
   .unionType, .constrainedType, .memberType, .keywordArgument, .list, .set, .tuple, .dictionary,
   .pair, .listComprehension, .dictionaryComprehension, .setComprehension, .generatorExpression,
   .comprehensionClauses, .parenthesized, .collectionElements, .forInClause, .ifClause,
   .conditionalExpression, .concatenatedString, .string, .stringContent, .interpolation,
   .interpolated, .formatSpecifier, .await, .positionalSeparator, .keywordSeparator]

/-- The grammar. -/
def spec : Spec Token Nonterminal Kind Role where
  tokenIndex := Token.index
  nonterminals := nonterminals
  nonterminalIndex := Nonterminal.ctorIdx
  rule := rule
  shown := shown
  start := .module

/-- The grammar with its tables. -/
def table : Table Kind Role := spec.table

end DecisionScore.Python
