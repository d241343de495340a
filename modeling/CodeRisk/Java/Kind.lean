/-!
# Kinds of tokens and nodes

The leaves of a Java syntax tree are tokens, its branches are nodes. Some children carry a label that
tells their role in the node above them.
-/
namespace CodeRisk.Java

/-- What a leaf of the syntax tree is. `fixed` stands for every keyword, operator and bracket that
has no kind of its own. -/
inductive TokenKind where
  | fixed
  | lineComment
  | blockComment
  | identifier
  | typeIdentifier
  | decimalIntegerLiteral
  | hexIntegerLiteral
  | octalIntegerLiteral
  | binaryIntegerLiteral
  | decimalFloatLiteral
  | hexFloatLiteral
  | characterLiteral
  | trueLiteral
  | falseLiteral
  | nullLiteral
  | stringFragment
  | textFragment
  | escapeSequence
  | this
  | super
  | underscorePattern
  | voidType
  | booleanType
  deriving DecidableEq, Repr, Hashable

/-- What a branch of the syntax tree is. `error` stands for text that could not be read. -/
inductive NodeKind where
  | error
  | program
  | stringLiteral
  | stringInterpolation
  | assignment
  | binary
  | instanceof
  | lambda
  | ternary
  | update
  | unary
  | cast
  | parenthesized
  | classLiteral
  | objectCreation
  | arrayCreation
  | fieldAccess
  | arrayAccess
  | methodInvocation
  | methodReference
  | templateExpression
  | inferredParameters
  | argumentList
  | typeArguments
  | wildcard
  | dimensions
  | dimensionsExpr
  | switch
  | switchBlock
  | switchGroup
  | switchRule
  | switchLabel
  | guard
  | pattern
  | typePattern
  | recordPattern
  | recordPatternBody
  | recordPatternComponent
  | block
  | expressionStatement
  | labeledStatement
  | assertStatement
  | doStatement
  | breakStatement
  | continueStatement
  | returnStatement
  | yieldStatement
  | synchronizedStatement
  | throwStatement
  | tryStatement
  | tryWithResources
  | catchClause
  | catchFormalParameter
  | catchType
  | finallyClause
  | resourceSpecification
  | resource
  | ifStatement
  | whileStatement
  | forStatement
  | enhancedForStatement
  | localVariableDeclaration
  | variableDeclarator
  | arrayInitializer
  | annotationMarker
  | annotationForm
  | annotationArguments
  | elementValuePair
  | elementValueArray
  | moduleDeclaration
  | moduleBody
  | requiresDirective
  | requiresModifier
  | exportsDirective
  | opensDirective
  | usesDirective
  | providesDirective
  | packageDeclaration
  | importDeclaration
  | asterisk
  | scopedIdentifier
  | classDeclaration
  | superclass
  | superInterfaces
  | extendsInterfaces
  | permits
  | typeList
  | typeParameters
  | typeParameter
  | typeBound
  | modifiers
  | classBody
  | fieldDeclaration
  | staticInitializer
  | constructorDeclaration
  | constructorBody
  | explicitConstructorInvocation
  | compactConstructorDeclaration
  | methodDeclaration
  | formalParameters
  | formalParameter
  | receiverParameter
  | spreadParameter
  | throws
  | recordDeclaration
  | interfaceDeclaration
  | interfaceBody
  | constantDeclaration
  | annotationTypeDeclaration
  | annotationTypeBody
  | annotationTypeElement
  | enumDeclaration
  | enumBody
  | enumBodyDeclarations
  | enumConstant
  | integralType
  | floatingPointType
  | scopedTypeIdentifier
  | genericType
  | arrayType
  | annotatedType
  deriving DecidableEq, Repr, Hashable

/-- The role of a child in its parent. -/
inductive Field where
  | name
  | parameters
  | body
  | condition
  | consequence
  | alternative
  | value
  | resources
  deriving DecidableEq, Repr

/-- A kind of token. -/
inductive Terminal where
  /-- A keyword, an operator or a bracket, with its spelling. -/
  | fixed (spelling : String)
  | identifier
  | decimalInteger
  | hexInteger
  | octalInteger
  | binaryInteger
  | decimalFloat
  | hexFloat
  | character
  | stringFragment
  | textFragment
  | escape
  /-- The end of the text. -/
  | ending
  deriving DecidableEq, Repr, Hashable

namespace TokenKind

/-- Whether the token counts as a named node: keywords, operators and brackets do not. -/
def isNamed (k : TokenKind) : Bool :=
  k != .fixed

/-- Whether the token is a comment. -/
def isComment : TokenKind → Bool
  | lineComment | blockComment => true
  | _ => false

end TokenKind

/-- The kind of the leaf that a token becomes. -/
def Terminal.kind : Terminal → TokenKind
  | fixed "this" => .this
  | fixed "super" => .super
  | fixed "true" => .trueLiteral
  | fixed "false" => .falseLiteral
  | fixed "null" => .nullLiteral
  | fixed "void" => .voidType
  | fixed "boolean" => .booleanType
  | fixed "_" => .underscorePattern
  | fixed _ => .fixed
  | identifier => .identifier
  | decimalInteger => .decimalIntegerLiteral
  | hexInteger => .hexIntegerLiteral
  | octalInteger => .octalIntegerLiteral
  | binaryInteger => .binaryIntegerLiteral
  | decimalFloat => .decimalFloatLiteral
  | hexFloat => .hexFloatLiteral
  | character => .characterLiteral
  | stringFragment => .stringFragment
  | textFragment => .textFragment
  | escape => .escapeSequence
  | ending => .fixed

end CodeRisk.Java
