import CodeRisk.Grammar.Rule
import CodeRisk.Java.Kind

/-!
# The grammar of Java

The rules of the language, each under the kind of node it yields or, where it yields no node of its
own, under a name that only the grammar uses. Levels and sides settle how operators group. Keywords
are not reserved: a word is a keyword only where the grammar can use it as one.
-/
namespace CodeRisk.Java

/-- The phrases of the grammar: those that become nodes, and those whose parts become parts of the
phrase around them. -/
inductive Phrase where
  | node (kind : NodeKind)
  | topLevel
  | literal
  | plainString
  | textBlock
  | stringParts
  | textParts
  | expression
  | primary
  | reservedIdentifier
  | unqualifiedCreation
  | expressions
  | inferredNames
  | castTypes
  | typeArgumentList
  | wildcardBounds
  | emptyDimensions
  | sizedDimensions
  | switchGroups
  | switchRules
  | switchLabels
  | recordComponents
  | statement
  | statements
  | catchClauses
  | catchTypes
  | resourceList
  | declarators
  | declaratorName
  | initializers
  | annotationItem
  | annotations
  | elementValue
  | elementValues
  | elementPairs
  | declaration
  | moduleDirective
  | moduleDirectives
  | requiresModifiers
  | nameList
  | enumConstants
  | modifierItems
  | typeParameterList
  | boundTypes
  | types
  | classMembers
  | constructorDeclarator
  | interfaceMembers
  | annotationMembers
  | defaultValue
  | type
  | plainType
  | methodHeader
  | methodDeclarator
  | parameterList
  | receiverPath
  deriving DecidableEq, Repr, Hashable

/-- A rule of the grammar. -/
abbrev JavaRule := Grammar.Rule Terminal Phrase Field TokenKind

namespace Rules
open Grammar Grammar.Rule

/-- The token with this spelling. -/
def token (spelling : String) : JavaRule := .terminal (.fixed spelling)

instance : Coe String JavaRule := ⟨token⟩

/-- The phrase that yields a node of the kind. -/
def node (k : NodeKind) : JavaRule := .phrase (.node k)

/-- A phrase by its name. -/
def sub (n : Phrase) : JavaRule := .phrase n

def openBrace : JavaRule := token "\x7b"
def closeBrace : JavaRule := token "\x7d"

/-- The rules between braces. -/
def braces (rs : List JavaRule) : JavaRule := all (openBrace :: (rs ++ [closeBrace]))

/-- The rules between parentheses. -/
def parens (rs : List JavaRule) : JavaRule := all (token "(" :: (rs ++ [token ")"]))

/-- Items of a phrase of its own, if any. -/
def maybe (n : Phrase) : JavaRule := opt (sub n)

/-- One of the spellings. -/
def oneOf (spellings : List String) : JavaRule := any (spellings.map token)

def identifier : JavaRule := .terminal .identifier

/-- A plain identifier or one of the words that are keywords in few places. -/
def anyIdentifier : JavaRule := alt identifier (sub .reservedIdentifier)

/-- An identifier that names a type. -/
def typeName : JavaRule := shown .typeIdentifier identifier

/-- A name with or without a path before it. -/
def qualifiedName : JavaRule := any [identifier, sub .reservedIdentifier, node .scopedIdentifier]

/-- A type that is not an array. -/
def simpleType : JavaRule := any [
  "void", node .integralType, node .floatingPointType, "boolean", typeName,
  node .scopedTypeIdentifier, node .genericType]

/-- A value that a variable may start with. -/
def initializer : JavaRule := alt (sub .expression) (node .arrayInitializer)

/-- How strongly the operators bind, from the weakest to the strongest. -/
def assignmentLevel : Int := 1
def declarationLevel : Int := 2
def elementValueLevel : Int := 2
def ternaryLevel : Int := 3
def relationLevel : Int := 10
def castLevel : Int := 14
def unaryLevel : Int := 15

/-- The binary operators with their levels. -/
def binaryOperators : List (String × Int) := [
  (">", 10), ("<", 10), (">=", 10), ("<=", 10), ("==", 9), ("!=", 9), ("&&", 5), ("||", 4),
  ("+", 12), ("-", 12), ("*", 13), ("/", 13), ("&", 8), ("|", 6), ("^", 7), ("%", 13),
  ("<<", 11), (">>", 11), (">>>", 11)]

def assignmentOperators : List String :=
  ["=", "+=", "-=", "*=", "/=", "&=", "|=", "^=", "%=", "<<=", ">>=", ">>>="]

def leftLevel (n : Int) (r : JavaRule) : JavaRule := level n (grouped .left r)
def rightLevel (n : Int) (r : JavaRule) : JavaRule := level n (grouped .right r)

def literals : List (Phrase × JavaRule) := [
  (.literal, any [
    .terminal .decimalInteger, .terminal .hexInteger, .terminal .octalInteger,
    .terminal .binaryInteger, .terminal .decimalFloat, .terminal .hexFloat, "true", "false",
    .terminal .character, node .stringLiteral, "null"]),
  (.node .stringLiteral, alt (sub .plainString) (sub .textBlock)),
  (.plainString, all ["\"", maybe .stringParts, "\""]),
  (.textBlock, all ["\"\"\"", maybe .textParts, "\"\"\""]),
  (.stringParts, listOf .stringParts
    (any [.terminal .stringFragment, .terminal .escape, node .stringInterpolation])),
  (.textParts, listOf .textParts
    (any [.terminal .textFragment, .terminal .escape, node .stringInterpolation])),
  (.node .stringInterpolation, all ["\\\x7b", sub .expression, closeBrace])]

def expressions : List (Phrase × JavaRule) := [
  (.expression, any [
    node .assignment, node .binary, node .instanceof, node .lambda, node .ternary, node .update,
    sub .primary, node .unary, node .cast, node .switch]),
  (.node .cast, level castLevel (alt
    (all ["(", sub .type, ")", label .value (sub .expression)])
    (all ["(", sub .castTypes, ")", label .value (alt (sub .primary) (node .lambda))]))),
  (.castTypes, listBy "&" .castTypes (sub .type)),
  (.node .assignment, rightLevel assignmentLevel (all [
    any [identifier, sub .reservedIdentifier, node .fieldAccess, node .arrayAccess],
    oneOf assignmentOperators,
    sub .expression])),
  (.node .binary, any (binaryOperators.map fun (operator, n) =>
    leftLevel n (all [sub .expression, token operator, sub .expression]))),
  (.node .instanceof, level relationLevel (all [
    sub .expression, "instanceof", opt "final",
    alt (all [sub .type, opt (label .name anyIdentifier)]) (node .recordPattern)])),
  (.node .lambda, all [
    label .parameters (any [identifier, node .formalParameters, node .inferredParameters,
      sub .reservedIdentifier]),
    "->",
    label .body (alt (sub .expression) (node .block))]),
  (.node .inferredParameters, parens [sub .inferredNames]),
  (.inferredNames, listBy "," .inferredNames anyIdentifier),
  (.node .ternary, rightLevel ternaryLevel (all [
    label .condition (sub .expression), "?",
    label .consequence (sub .expression), ":",
    label .alternative (sub .expression)])),
  (.node .unary, any (["+", "-", "!", "~"].map fun operator =>
    leftLevel unaryLevel (all [token operator, sub .expression]))),
  (.node .update, leftLevel unaryLevel (any [
    all [sub .expression, "++"], all [sub .expression, "--"],
    all ["++", sub .expression], all ["--", sub .expression]])),
  (.primary, any [
    sub .literal, node .classLiteral, "this", identifier, sub .reservedIdentifier,
    node .parenthesized, node .objectCreation, node .fieldAccess, node .arrayAccess,
    node .methodInvocation, node .methodReference, node .arrayCreation,
    node .templateExpression]),
  (.reservedIdentifier, alt
    (level (-3) (shown .identifier (oneOf ["open", "module", "record", "with", "sealed"])))
    (shown .identifier "yield")),
  (.node .arrayCreation, grouped .right (all [
    "new", maybe .annotations, simpleType,
    alt (all [sub .sizedDimensions, opt (node .dimensions)])
      (all [node .dimensions, label .value (node .arrayInitializer)])])),
  (.sizedDimensions, listOf .sizedDimensions (node .dimensionsExpr)),
  (.node .dimensionsExpr, all [maybe .annotations, "[", sub .expression, "]"]),
  (.node .parenthesized, parens [sub .expression]),
  (.node .classLiteral, weight 17 (all [sub .plainType, ".", "class"])),
  (.node .objectCreation, alt (sub .unqualifiedCreation)
    (all [sub .primary, ".", sub .unqualifiedCreation])),
  (.unqualifiedCreation, grouped .right (all [
    "new", maybe .annotations, opt (node .typeArguments), simpleType, node .argumentList,
    opt (node .classBody)])),
  (.node .fieldAccess, all [
    alt (sub .primary) "super", opt (all [".", "super"]), ".", alt anyIdentifier "this"]),
  (.node .templateExpression, all [sub .primary, ".", node .stringLiteral]),
  (.node .arrayAccess, all [sub .primary, "[", sub .expression, "]"]),
  (.node .methodInvocation, all [
    alt (label .name anyIdentifier)
      (all [alt (sub .primary) "super", ".", opt (all ["super", "."]),
        opt (node .typeArguments), label .name anyIdentifier]),
    node .argumentList]),
  (.node .argumentList, parens [maybe .expressions]),
  (.expressions, listBy "," .expressions (sub .expression)),
  (.node .methodReference, all [
    any [sub .type, sub .primary, "super"], "::", opt (node .typeArguments),
    alt "new" identifier]),
  (.node .typeArguments, all ["<", maybe .typeArgumentList, ">"]),
  (.typeArgumentList, listBy "," .typeArgumentList (alt (sub .type) (node .wildcard))),
  (.node .wildcard, all [maybe .annotations, "?", maybe .wildcardBounds]),
  (.wildcardBounds, alt (all ["extends", sub .type]) (all ["super", sub .type])),
  (.node .dimensions, grouped .right (sub .emptyDimensions)),
  (.emptyDimensions, listOf .emptyDimensions (all [maybe .annotations, "[", "]"])),
  (.node .switch, all [
    "switch", label .condition (node .parenthesized), label .body (node .switchBlock)]),
  (.node .switchBlock, braces [any [.empty, sub .switchGroups, sub .switchRules]]),
  (.switchGroups, listOf .switchGroups (node .switchGroup)),
  (.switchRules, listOf .switchRules (node .switchRule)),
  (.node .switchGroup, grouped .left (all [sub .switchLabels, maybe .statements])),
  (.switchLabels, listOf .switchLabels (all [node .switchLabel, ":"])),
  (.node .switchRule, all [node .switchLabel, "->",
    any [node .expressionStatement, node .throwStatement, node .block]]),
  (.node .switchLabel, alt
    (all ["case", alt (node .pattern) (sub .expressions), opt (node .guard)])
    "default"),
  (.node .pattern, alt (node .typePattern) (node .recordPattern)),
  (.node .typePattern, all [sub .plainType, anyIdentifier]),
  (.node .recordPattern, all [
    any [identifier, sub .reservedIdentifier, node .genericType], node .recordPatternBody]),
  (.node .recordPatternBody, parens [maybe .recordComponents]),
  (.recordComponents, listBy "," .recordComponents
    (alt (node .recordPatternComponent) (node .recordPattern))),
  (.node .recordPatternComponent, alt "_" (all [sub .plainType, anyIdentifier])),
  (.node .guard, all ["when", sub .expression])]

def statements : List (Phrase × JavaRule) := [
  (.statement, any [
    sub .declaration, node .expressionStatement, node .labeledStatement, node .ifStatement,
    node .whileStatement, node .forStatement, node .enhancedForStatement, node .block, ";",
    node .assertStatement, node .doStatement, node .breakStatement, node .continueStatement,
    node .returnStatement, node .yieldStatement, node .switch, node .synchronizedStatement,
    node .localVariableDeclaration, node .throwStatement, node .tryStatement,
    node .tryWithResources]),
  (.statements, listOf .statements (sub .statement)),
  (.node .block, braces [maybe .statements]),
  (.node .expressionStatement, all [sub .expression, ";"]),
  (.node .labeledStatement, all [identifier, ":", sub .statement]),
  (.node .assertStatement, alt
    (all ["assert", sub .expression, ";"])
    (all ["assert", sub .expression, ":", sub .expression, ";"])),
  (.node .doStatement, all [
    "do", label .body (sub .statement), "while", label .condition (node .parenthesized), ";"]),
  (.node .breakStatement, all ["break", opt identifier, ";"]),
  (.node .continueStatement, all ["continue", opt identifier, ";"]),
  (.node .returnStatement, all ["return", opt (sub .expression), ";"]),
  (.node .yieldStatement, all ["yield", sub .expression, ";"]),
  (.node .synchronizedStatement, all [
    "synchronized", node .parenthesized, label .body (node .block)]),
  (.node .throwStatement, all ["throw", sub .expression, ";"]),
  (.node .tryStatement, all ["try", label .body (node .block),
    alt (sub .catchClauses) (all [maybe .catchClauses, node .finallyClause])]),
  (.catchClauses, listOf .catchClauses (node .catchClause)),
  (.node .catchClause, all [
    "catch", "(", node .catchFormalParameter, ")", label .body (node .block)]),
  (.node .catchFormalParameter, all [
    opt (node .modifiers), node .catchType, sub .declaratorName]),
  (.node .catchType, sub .catchTypes),
  (.catchTypes, listBy "|" .catchTypes (sub .plainType)),
  (.node .finallyClause, all ["finally", node .block]),
  (.node .tryWithResources, all ["try", label .resources (node .resourceSpecification),
    label .body (node .block), maybe .catchClauses, opt (node .finallyClause)]),
  (.node .resourceSpecification, parens [sub .resourceList, opt ";"]),
  (.resourceList, listBy ";" .resourceList (node .resource)),
  (.node .resource, any [
    all [opt (node .modifiers), sub .plainType, sub .declaratorName, "=",
      label .value (sub .expression)],
    identifier,
    node .fieldAccess]),
  (.node .ifStatement, grouped .right (all [
    "if", label .condition (node .parenthesized), label .consequence (sub .statement),
    opt (all ["else", label .alternative (sub .statement)])])),
  (.node .whileStatement, all [
    "while", label .condition (node .parenthesized), label .body (sub .statement)]),
  (.node .forStatement, all [
    "for", "(",
    alt (node .localVariableDeclaration) (all [maybe .expressions, ";"]),
    label .condition (maybe .expression), ";",
    maybe .expressions, ")",
    label .body (sub .statement)]),
  (.node .enhancedForStatement, all [
    "for", "(", opt (node .modifiers), sub .plainType, sub .declaratorName, ":",
    label .value (sub .expression), ")",
    label .body (sub .statement)]),
  (.node .localVariableDeclaration, all [
    opt (node .modifiers), sub .plainType, sub .declarators, ";"]),
  (.declarators, listBy "," .declarators (node .variableDeclarator)),
  (.node .variableDeclarator, all [
    sub .declaratorName, opt (all ["=", label .value initializer])]),
  (.declaratorName, all [
    label .name (any [identifier, sub .reservedIdentifier, "_"]), opt (node .dimensions)]),
  (.initializers, listBy "," .initializers initializer),
  (.node .arrayInitializer, braces [maybe .initializers, opt ","])]

def annotations : List (Phrase × JavaRule) := [
  (.annotationItem, alt (node .annotationMarker) (node .annotationForm)),
  (.annotations, listOf .annotations (sub .annotationItem)),
  (.node .annotationMarker, all ["@", label .name qualifiedName]),
  (.node .annotationForm, all ["@", label .name qualifiedName, node .annotationArguments]),
  (.node .annotationArguments, parens [
    any [sub .elementValue, sub .elementPairs, .empty]]),
  (.elementPairs, listBy "," .elementPairs (node .elementValuePair)),
  (.node .elementValuePair, all [anyIdentifier, "=", label .value (sub .elementValue)]),
  (.elementValue, level elementValueLevel (any [
    sub .expression, node .elementValueArray, sub .annotationItem])),
  (.elementValues, listBy "," .elementValues (sub .elementValue)),
  (.node .elementValueArray, braces [maybe .elementValues, opt ","])]

def modifierWords : List String := [
  "public", "protected", "private", "abstract", "static", "final", "strictfp", "default",
  "synchronized", "native", "transient", "volatile", "sealed", "non-sealed"]

def declarations : List (Phrase × JavaRule) := [
  (.declaration, level declarationLevel (any [
    node .moduleDeclaration, node .packageDeclaration, node .importDeclaration,
    node .classDeclaration, node .recordDeclaration, node .interfaceDeclaration,
    node .annotationTypeDeclaration, node .enumDeclaration])),
  (.node .moduleDeclaration, all [
    maybe .annotations, opt "open", "module", label .name qualifiedName,
    label .body (node .moduleBody)]),
  (.node .moduleBody, braces [maybe .moduleDirectives]),
  (.moduleDirectives, listOf .moduleDirectives (sub .moduleDirective)),
  (.moduleDirective, any [
    node .requiresDirective, node .exportsDirective, node .opensDirective, node .usesDirective,
    node .providesDirective]),
  (.node .requiresDirective, all ["requires", maybe .requiresModifiers, qualifiedName, ";"]),
  (.requiresModifiers, listOf .requiresModifiers (node .requiresModifier)),
  (.node .requiresModifier, oneOf ["transitive", "static"]),
  (.nameList, listBy "," .nameList qualifiedName),
  (.node .exportsDirective, all ["exports", qualifiedName, opt (all ["to", sub .nameList]), ";"]),
  (.node .opensDirective, all ["opens", qualifiedName, opt (all ["to", sub .nameList]), ";"]),
  (.node .usesDirective, all ["uses", qualifiedName, ";"]),
  (.node .providesDirective, all ["provides", qualifiedName, "with", sub .nameList, ";"]),
  (.node .packageDeclaration, all [maybe .annotations, "package", qualifiedName, ";"]),
  (.node .importDeclaration, all [
    "import", opt "static", qualifiedName, opt (all [".", node .asterisk]), ";"]),
  (.node .asterisk, "*"),
  (.node .scopedIdentifier, all [qualifiedName, ".", label .name anyIdentifier]),
  (.node .modifiers, sub .modifierItems),
  (.modifierItems, listOf .modifierItems (alt (sub .annotationItem) (oneOf modifierWords))),
  (.node .enumDeclaration, all [
    opt (node .modifiers), "enum", label .name identifier, opt (node .superInterfaces),
    label .body (node .enumBody)]),
  (.node .enumBody, braces [
    maybe .enumConstants, opt ",", opt (node .enumBodyDeclarations)]),
  (.enumConstants, listBy "," .enumConstants (node .enumConstant)),
  (.node .enumBodyDeclarations, all [";", maybe .classMembers]),
  (.node .enumConstant, all [
    opt (node .modifiers), label .name identifier, opt (node .argumentList),
    opt (label .body (node .classBody))]),
  (.node .classDeclaration, all [
    opt (node .modifiers), "class", label .name identifier, opt (node .typeParameters),
    opt (node .superclass), opt (node .superInterfaces), opt (node .permits),
    label .body (node .classBody)]),
  (.node .typeParameters, all ["<", sub .typeParameterList, ">"]),
  (.typeParameterList, listBy "," .typeParameterList (node .typeParameter)),
  (.node .typeParameter, all [maybe .annotations, typeName, opt (node .typeBound)]),
  (.node .typeBound, all ["extends", sub .boundTypes]),
  (.boundTypes, listBy "&" .boundTypes (sub .type)),
  (.node .superclass, all ["extends", sub .type]),
  (.node .superInterfaces, all ["implements", node .typeList]),
  (.node .extendsInterfaces, all ["extends", node .typeList]),
  (.node .permits, all ["permits", node .typeList]),
  (.node .typeList, sub .types),
  (.types, listBy "," .types (sub .type)),
  (.node .classBody, braces [maybe .classMembers]),
  (.classMembers, listOf .classMembers (any [
    node .fieldDeclaration, node .recordDeclaration, node .methodDeclaration,
    node .compactConstructorDeclaration, node .classDeclaration, node .interfaceDeclaration,
    node .annotationTypeDeclaration, node .enumDeclaration, node .block,
    node .staticInitializer, node .constructorDeclaration, ";"])),
  (.node .staticInitializer, all ["static", node .block]),
  (.node .fieldDeclaration, all [
    opt (node .modifiers), sub .plainType, sub .declarators, ";"]),
  (.node .constructorDeclaration, all [
    opt (node .modifiers), sub .constructorDeclarator, opt (node .throws),
    label .body (node .constructorBody)]),
  (.constructorDeclarator, all [
    opt (node .typeParameters), label .name identifier,
    label .parameters (node .formalParameters)]),
  (.node .constructorBody, braces [
    opt (node .explicitConstructorInvocation), maybe .statements]),
  (.node .explicitConstructorInvocation, all [
    alt (all [opt (node .typeArguments), alt "this" "super"])
      (all [sub .primary, ".", opt (node .typeArguments), "super"]),
    node .argumentList, ";"]),
  (.node .compactConstructorDeclaration, all [
    opt (node .modifiers), label .name identifier, label .body (node .block)]),
  (.node .recordDeclaration, all [
    opt (node .modifiers), "record", label .name identifier, opt (node .typeParameters),
    label .parameters (node .formalParameters), opt (node .superInterfaces),
    label .body (node .classBody)]),
  (.node .annotationTypeDeclaration, all [
    opt (node .modifiers), "@interface", label .name identifier,
    label .body (node .annotationTypeBody)]),
  (.node .annotationTypeBody, braces [maybe .annotationMembers]),
  (.annotationMembers, listOf .annotationMembers (any [
    node .annotationTypeElement, node .constantDeclaration, node .classDeclaration,
    node .interfaceDeclaration, node .enumDeclaration, node .annotationTypeDeclaration, ";"])),
  (.node .annotationTypeElement, all [
    opt (node .modifiers), sub .plainType, label .name anyIdentifier, "(", ")",
    opt (node .dimensions), maybe .defaultValue, ";"]),
  (.defaultValue, all ["default", label .value (sub .elementValue)]),
  (.node .interfaceDeclaration, all [
    opt (node .modifiers), "interface", label .name identifier, opt (node .typeParameters),
    opt (node .extendsInterfaces), opt (node .permits), label .body (node .interfaceBody)]),
  (.node .interfaceBody, braces [maybe .interfaceMembers]),
  (.interfaceMembers, listOf .interfaceMembers (any [
    node .constantDeclaration, node .enumDeclaration, node .methodDeclaration,
    node .classDeclaration, node .interfaceDeclaration, node .recordDeclaration,
    node .annotationTypeDeclaration, ";"])),
  (.node .constantDeclaration, all [
    opt (node .modifiers), sub .plainType, sub .declarators, ";"])]

def types : List (Phrase × JavaRule) := [
  (.type, alt (sub .plainType) (node .annotatedType)),
  (.plainType, alt simpleType (node .arrayType)),
  (.node .annotatedType, all [sub .annotations, sub .plainType]),
  (.node .scopedTypeIdentifier, all [
    any [typeName, node .scopedTypeIdentifier, node .genericType], ".",
    maybe .annotations, typeName]),
  (.node .genericType, weight 10 (all [
    alt typeName (node .scopedTypeIdentifier), node .typeArguments])),
  (.node .arrayType, all [sub .plainType, node .dimensions]),
  (.node .integralType, oneOf ["byte", "short", "int", "long", "char"]),
  (.node .floatingPointType, oneOf ["float", "double"]),
  (.methodHeader, all [
    opt (all [node .typeParameters, maybe .annotations]), sub .plainType,
    sub .methodDeclarator, opt (node .throws)]),
  (.methodDeclarator, all [
    label .name anyIdentifier, label .parameters (node .formalParameters),
    opt (node .dimensions)]),
  (.node .formalParameters, parens [any [
    .empty, node .receiverParameter, sub .parameterList,
    all [node .receiverParameter, ",", maybe .parameterList]]]),
  (.parameterList, listBy "," .parameterList
    (alt (node .formalParameter) (node .spreadParameter))),
  (.node .formalParameter, all [
    opt (node .modifiers), sub .plainType, sub .declaratorName]),
  (.node .receiverParameter, all [
    maybe .annotations, sub .plainType, maybe .receiverPath, "this"]),
  (.receiverPath, listOf .receiverPath (all [identifier, "."])),
  (.node .spreadParameter, all [
    opt (node .modifiers), sub .plainType, "...", maybe .annotations,
    node .variableDeclarator]),
  (.node .throws, all ["throws", sub .types]),
  (.node .methodDeclaration, all [
    opt (node .modifiers), sub .methodHeader, alt (label .body (node .block)) ";"])]

end Rules

/-- The rules of Java. A file is a sequence of statements and methods, possibly an empty one. -/
def grammar : Grammar.Grammar Terminal Phrase Field TokenKind :=
  { start := .topLevel
    rules :=
      (.topLevel, Grammar.Rule.listOf .topLevel
        (Grammar.Rule.alt (Rules.sub .statement) (Rules.node .methodDeclaration))) ::
      Rules.literals ++ Rules.expressions ++ Rules.statements ++ Rules.annotations ++
      Rules.declarations ++ Rules.types }

end CodeRisk.Java
