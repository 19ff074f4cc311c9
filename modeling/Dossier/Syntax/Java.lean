import Dossier.Syntax.Grammar

/-!
# The grammar of Java

Besides whole compilation units the grammar takes loose methods and statements, so a
fragment of a file has a tree too. Where a declaration and an expression could both start
with a name, the declaration is tried first; a name in round brackets is a cast only in
front of something that can be cast. The closing angle brackets of type arguments are
taken one at a time off the longer marks they may be part of.

Every rule for an expression or a type leaves exactly one tree.
-/

namespace Dossier.Syntax.Java

/-- The node kinds of Java. -/
inductive Kind where
  | file
  | classDeclaration
  | interfaceDeclaration
  | enumDeclaration
  | recordDeclaration
  | methodDeclaration
  | constructorDeclaration
  | identifier
  | parameters
  | formalParameter
  | spreadParameter
  | typeIdentifier
  | type
  | block
  | ifStatement
  | forStatement
  | enhancedForStatement
  | whileStatement
  | doStatement
  | catchClause
  | caseLabel
  | defaultLabel
  | ternaryExpression
  | binaryExpression
  | operator
  | methodInvocation
  | objectCreation
  | lambda
  | literal
  | group
deriving DecidableEq, Repr, Inhabited

/-- The symbols of the grammar. -/
inductive Symbol where
  | file
  | marker
  | annotationValue
  | declaration
  | members
  | member
  | type
  | simpleType
  | typeArguments
  | typeParameters
  | parameters
  | block
  | statement
  | localVariables
  | variableValue
  | arguments
  | expression
  | ternary
  | binary (level : Nat)
  | unary
  | primary
  | atom
  | casePattern
  | switchBody
deriving DecidableEq, Repr, Inhabited

open Rule

/-- A rule of this grammar. -/
abbrev R := Rule Symbol Kind

/-- The binary operators, the loosest first. -/
def operators : List (List String) :=
  [["||"], ["&&"], ["|"], ["^"], ["&"], ["==", "!="], ["<", ">", "<=", ">="],
    ["<<", ">>", ">>>"], ["+", "-"], ["*", "/", "%"]]

/-- The level of the relational operators. -/
def relationalLevel : Nat := 6

/-- The operators that assign. -/
def assigning : List String :=
  ["=", "+=", "-=", "*=", "/=", "%=", "&=", "|=", "^=", "<<=", ">>=", ">>>="]

/-- The primitive types. -/
def primitives : List String :=
  ["boolean", "byte", "char", "double", "float", "int", "long", "short", "void"]

/-- A name. -/
def name : R := leaf .identifier (.kind .name)

/-- Any word, where only a name can stand. -/
def anyName : R := leaf .identifier .anyWord

/-- One expression. -/
def expression : R := sym .expression

/-- One type. -/
def type : R := sym .type

/-- Names with points between them. -/
def qualifiedName : R := sepBy1 name (mark ".")

/-- Annotations. -/
def annotations : R := many (sym .marker)

/-- What may stand before a declaration. -/
def modifiers : R :=
  many
    (oneOf
       [ sym .marker,
         oneWord
           [ "public",
             "protected",
             "private",
             "abstract",
             "static",
             "final",
             "strictfp",
             "default",
             "synchronized",
             "native",
             "transient",
             "volatile" ],
         inOrder [word "sealed", notAhead (oneMark ["=", ".", "("])],
         inOrder [word "non", mark "-", word "sealed"] ])

/-- An annotation and its values. -/
def marker : R :=
  let value : R := oneOf [inOrder [name, mark "=", sym .annotationValue], sym .annotationValue]
  node .group (inOrder [mark "@", qualifiedName, opt (parens (opt (sepBy1 value (mark ","))))])

/-- Square brackets after a type or a name. -/
def dimensions : R := many (inOrder [annotations, mark "[", mark "]"])

/-! ### Types -/

/-- Types in angle brackets. -/
def angles (item : R) : R := inOrder [mark "<", opt (sepBy1 item (mark ",")), head ">"]

/-- An argument of a generic type. -/
def typeArgument : R :=
  oneOf
    [ inOrder [annotations, mark "?", opt (inOrder [oneWord ["extends", "super"], type])],
      type ]

/-- A type without square brackets. -/
def simpleType : R :=
  oneOf
    [ node .type (oneWord primitives),
      inOrder
        [ leaf .typeIdentifier (.kind .name),
          many
            (oneOf
               [ wrap .type .operand (sym .typeArguments),
                 wrap .type .operand (inOrder [mark ".", annotations, name]) ]) ] ]

/-- A declaration of type parameters. -/
def typeParameters : R :=
  angles (inOrder [annotations, name, opt (inOrder [word "extends", sepBy1 type (mark "&")])])

/-- Types after a word. -/
def clause (w : String) : R := inOrder [word w, sepBy1 type (mark ",")]

/-! ### Declarations -/

/-- The parameters of a method. -/
def parameters : R :=
  let receiver : R :=
    node .group (inOrder [annotations, type, many (inOrder [name, mark "."]), word "this"])
  let parameter : R :=
    oneOf
      [ node .spreadParameter
          (inOrder [modifiers, type, annotations, mark "...", annotations, name, dimensions]),
        node .formalParameter (inOrder [modifiers, type, name, dimensions]) ]
  node .parameters (parens (opt (sepBy1 (oneOf [receiver, parameter]) (mark ","))))

/-- The members between curly brackets. -/
def classBody : R := braces (sym .members)

/-- What may stand between the name of a class and its body. -/
def heritage : R := many (oneOf [clause "extends", clause "implements", clause "permits"])

/-- A constant of an enumeration. -/
def enumConstant : R := node .group (inOrder [modifiers, name, opt (sym .arguments), opt classBody])

/-- The declarations that introduce a type, and those that open a file. -/
def declaration : R :=
  oneOf
    [ node .classDeclaration
        (inOrder
           [ modifiers,
             word "class",
             role .name anyName,
             opt (sym .typeParameters),
             heritage,
             classBody ]),
      node .interfaceDeclaration
        (inOrder
           [ modifiers,
             word "interface",
             role .name anyName,
             opt (sym .typeParameters),
             heritage,
             classBody ]),
      node .enumDeclaration
        (inOrder
           [ modifiers,
             word "enum",
             role .name anyName,
             heritage,
             braces
               (inOrder
                  [ opt (commas enumConstant),
                    opt (mark ","),
                    opt (inOrder [mark ";", sym .members]) ]) ]),
      node .recordDeclaration
        (inOrder
           [ modifiers,
             word "record",
             role .name name,
             opt (sym .typeParameters),
             role .parameters (sym .parameters),
             heritage,
             classBody ]),
      node .group (inOrder [modifiers, mark "@", word "interface", name, classBody]),
      node .group (inOrder [annotations, word "package", qualifiedName, mark ";"]),
      node .group
        (inOrder
           [ word "import",
             opt (word "static"),
             qualifiedName,
             opt (inOrder [mark ".", mark "*"]),
             mark ";" ]),
      node .group
        (inOrder
           [ annotations,
             opt (word "open"),
             word "module",
             qualifiedName,
             braces (many (inOrder [many1 (oneOf [anyName, oneMark [".", ","]]), mark ";"])) ]) ]

/-- Exceptions that a method may throw. -/
def throwsClause : R := opt (clause "throws")

/-- A method with or without a body, or an element of an annotation type. -/
def method : R :=
  node .methodDeclaration
    (inOrder
       [ modifiers,
         opt (inOrder [sym .typeParameters, annotations]),
         type,
         role .name anyName,
         role .parameters (sym .parameters),
         dimensions,
         throwsClause,
         oneOf
           [ role .body (sym .block),
             inOrder [opt (inOrder [word "default", sym .annotationValue]), mark ";"] ] ])

/-- Variables of one type. -/
def localVariables : R :=
  inOrder
    [ modifiers,
      type,
      sepBy1 (inOrder [name, dimensions, opt (inOrder [mark "=", sym .variableValue])])
        (mark ",") ]

/-- A member of a class. -/
def member : R :=
  oneOf
    [ mark ";",
      sym .declaration,
      node .constructorDeclaration
        (inOrder
           [ modifiers,
             opt (sym .typeParameters),
             role .name name,
             role .parameters (sym .parameters),
             throwsClause,
             role .body (sym .block) ]),
      node .group (inOrder [modifiers, name, sym .block]),
      method,
      node .group (inOrder [sym .localVariables, mark ";"]),
      node .group (inOrder [opt (word "static"), sym .block]) ]

/-! ### Statements -/

/-- A condition in round brackets. -/
def condition : R := node .group (parens expression)

/-- One statement. -/
def statement1 : R := sym .statement

/-- A loop by three clauses. -/
def forStatement : R :=
  let list : R := opt (sepBy1 expression (mark ","))
  node .forStatement
    (inOrder
       [ word "for",
         parens
           (inOrder [oneOf [sym .localVariables, list], mark ";", opt expression, mark ";", list]),
         statement1 ])

/-- A loop over the items of a collection. -/
def enhancedForStatement : R :=
  node .enhancedForStatement
    (inOrder
       [ word "for",
         parens (inOrder [modifiers, type, name, dimensions, mark ":", expression]),
         statement1 ])

/-- The handlers of a try statement. -/
def catchClause : R :=
  node .catchClause
    (inOrder
       [ word "catch",
         parens (inOrder [modifiers, sepBy1 type (mark "|"), name]),
         sym .block ])

/-- A try statement with or without resources. -/
def tryStatement : R :=
  let resource : R := oneOf [inOrder [modifiers, type, name, mark "=", expression], expression]
  let finallyClause : R := inOrder [word "finally", sym .block]
  node .group
    (inOrder
       [ word "try",
         oneOf
           [ inOrder
               [ parens (inOrder [sepBy1 resource (mark ";"), opt (mark ";")]),
                 sym .block,
                 many catchClause,
                 opt finallyClause ],
             inOrder
               [ sym .block,
                 oneOf [inOrder [many1 catchClause, opt finallyClause], finallyClause] ] ] ])

/-- The statements. -/
def statement : R :=
  oneOf
    [ mark ";",
      sym .block,
      node .ifStatement
        (inOrder [word "if", condition, statement1, opt (inOrder [word "else", statement1])]),
      node .whileStatement (inOrder [word "while", condition, statement1]),
      enhancedForStatement,
      forStatement,
      node .doStatement (inOrder [word "do", statement1, word "while", condition, mark ";"]),
      tryStatement,
      node .group (inOrder [word "switch", condition, sym .switchBody]),
      node .group (inOrder [word "synchronized", condition, sym .block]),
      node .group (inOrder [word "return", opt expression, mark ";"]),
      node .group (inOrder [word "throw", expression, mark ";"]),
      node .group (inOrder [oneWord ["break", "continue"], opt name, mark ";"]),
      node .group
        (inOrder [word "assert", expression, opt (inOrder [mark ":", expression]), mark ";"]),
      node .group
        (inOrder [word "yield", notAhead (oneMark ["=", ".", "++", "--"]), expression, mark ";"]),
      node .group (inOrder [name, mark ":", statement1]),
      sym .declaration,
      node .group (inOrder [sym .localVariables, mark ";"]),
      node .group (inOrder [expression, mark ";"]) ]

/-! ### Expressions -/

/-- Operands with the operators of one level between them. -/
def infixChain (operand : R) (marks : List String) (extra : List R) : R :=
  let operation : R :=
    wrap .binaryExpression .operand
      (inOrder [role .operator (node .operator (oneMark marks)), operand])
  inOrder [operand, many (oneOf (operation :: extra))]

/-- A test of the type of a value, which may bind it. -/
def typeTest : R :=
  wrap .group .operand
    (inOrder [word "instanceof", opt (word "final"), oneOf [sym .casePattern, type]])

/-- A function without a name. -/
def lambda : R :=
  node .lambda
    (inOrder
       [ oneOf [name, sym .parameters, node .group (parens (opt (sepBy1 name (mark ","))))],
         mark "->",
         oneOf [sym .block, expression] ])

/-- What can be cast to a type that is no primitive one. -/
def castable : R :=
  ahead
    (oneOf
       [ kind .name,
         kind .number,
         kind .text,
         kind .letter,
         mark "(",
         mark "!",
         mark "~",
         oneWord
           [ "this",
             "super",
             "new",
             "true",
             "false",
             "null",
             "switch",
             "void",
             "int",
             "long",
             "char",
             "byte",
             "short",
             "float",
             "double",
             "boolean" ] ])

/-- A cast. -/
def cast : R :=
  oneOf
    [ node .group (inOrder [mark "(", node .type (oneWord primitives), mark ")", sym .unary]),
      node .group
        (inOrder
           [ mark "(",
             sepBy1 type (mark "&"),
             mark ")",
             castable,
             oneOf [lambda, sym .unary] ]) ]

/-- The members between curly brackets after a constructor call, or nothing. -/
def creation : R :=
  node .objectCreation
    (inOrder
       [ word "new",
         annotations,
         opt (sym .typeArguments),
         role .type (sym .simpleType),
         sym .arguments,
         opt classBody ])

/-- An array made with sizes or with items. -/
def arrayCreation : R :=
  node .group
    (inOrder
       [ word "new",
         annotations,
         sym .simpleType,
         oneOf
           [ inOrder [many1 (inOrder [annotations, mark "[", expression, mark "]"]), dimensions],
             inOrder [dimensions, sym .variableValue] ] ])

/-- What may follow an operand. -/
def access : R :=
  oneOf
    [ wrap .methodInvocation .operand
        (inOrder [mark ".", opt (sym .typeArguments), role .name anyName, sym .arguments]),
      wrap .objectCreation .operand
        (inOrder
           [ mark ".",
             word "new",
             annotations,
             opt (sym .typeArguments),
             role .type (sym .simpleType),
             sym .arguments,
             opt classBody ]),
      wrap .group .operand (inOrder [mark ".", oneOf [anyName, kind .text]]),
      wrap .group .operand (brackets expression),
      wrap .group .operand
        (inOrder [mark "::", opt (sym .typeArguments), oneOf [word "new", anyName]]) ]

/-- The operands. -/
def atom : R :=
  oneOf
    [ creation,
      arrayCreation,
      -- a type with brackets of its own, as the subject of a reference
      node .group
        (inOrder [type, mark "::", opt (sym .typeArguments), oneOf [word "new", name]]),
      node .group (inOrder [type, mark ".", word "class"]),
      node .methodInvocation (inOrder [role .name name, sym .arguments]),
      name,
      node .group (inOrder [oneWord ["this", "super"], sym .arguments]),
      node .literal (oneWord ["this", "super", "true", "false", "null"]),
      node .literal (oneOf [kind .number, kind .text, kind .letter]),
      node .group (parens expression),
      node .group (inOrder [word "switch", condition, sym .switchBody]) ]

/-- The label of a case, and what runs there. -/
def switchEntry : R :=
  let item : R :=
    oneOf
      [ inOrder [sym .casePattern, ahead (oneOf [oneMark ["->", ":", ","], word "when"])],
        word "default",
        sym .ternary ]
  let guarded : R := opt (inOrder [word "when", sym .ternary])
  let label : R :=
    oneOf
      [ node .caseLabel (inOrder [word "case", sepBy1 item (mark ","), guarded]),
        node .defaultLabel (word "default") ]
  inOrder [label, oneOf [inOrder [mark "->", statement1], inOrder [mark ":", many statement1]]]

/-- What each symbol stands for. -/
def rule : Symbol → R
  | .file => node .file (many (oneOf [sym .declaration, method, sym .statement]))
  | .marker => marker
  | .annotationValue =>
    oneOf
      [ sym .marker,
        node .group (braces (opt (commas (sym .annotationValue)))),
        sym .ternary ]
  | .declaration => declaration
  | .members => many (sym .member)
  | .member => member
  | .type =>
    inOrder
      [ annotations,
        sym .simpleType,
        many (wrap .type .operand (inOrder [annotations, mark "[", mark "]"])) ]
  | .simpleType => simpleType
  | .typeArguments => angles typeArgument
  | .typeParameters => typeParameters
  | .parameters => parameters
  | .block => node .block (braces (many statement1))
  | .statement => statement
  | .localVariables => localVariables
  | .variableValue =>
    oneOf [node .group (braces (opt (commas (sym .variableValue)))), expression]
  | .arguments => node .group (parens (opt (sepBy1 expression (mark ","))))
  | .expression =>
    oneOf
      [ lambda,
        inOrder
          [ sym .ternary,
            opt (wrap .group .operand (inOrder [oneMark assigning, expression])) ] ]
  | .ternary =>
    inOrder
      [ sym (.binary 0),
        opt
          (wrap .ternaryExpression .operand
             (inOrder [mark "?", expression, mark ":", oneOf [lambda, sym .ternary]])) ]
  | .binary level =>
    match operators[level]? with
    | some marks =>
      infixChain (sym (.binary (level + 1))) marks
        (if level = relationalLevel then [typeTest] else [])
    | none => sym .unary
  | .unary =>
    oneOf
      [ node .group (inOrder [oneMark ["++", "--", "+", "-", "!", "~"], sym .unary]),
        cast,
        inOrder [sym .primary, many (wrap .group .operand (oneMark ["++", "--"]))] ]
  | .primary => inOrder [sym .atom, many access]
  | .atom => atom
  | .casePattern =>
    node .group
      (inOrder
         [ modifiers,
           type,
           oneOf [inOrder [parens (opt (sepBy1 (sym .casePattern) (mark ","))), opt name], name] ])
  | .switchBody => node .group (braces (many switchEntry))

/-- **The grammar of Java.** -/
def grammar : Grammar Symbol Kind :=
  ⟨rule, .file⟩

end Dossier.Syntax.Java
