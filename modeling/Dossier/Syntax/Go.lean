import Dossier.Syntax.Grammar

/-!
# The grammar of Go

The end of a line ends a statement wherever the statement could end there, and is blank
space everywhere else. So the rules for expressions carry the place they are used in. On
a *line* an expression goes on only with tokens of the same line; inside brackets and in
the *header* of a control statement line ends mean nothing. In a header a curly bracket
opens the body, never a composite literal.

Every rule for an expression leaves exactly one tree.
-/

namespace Dossier.Syntax.Go

/-- The node kinds of Go. -/
inductive Kind where
  | file
  | functionDeclaration
  | methodDeclaration
  | parameters
  | parameter
  | variadicParameter
  | identifier
  | type
  | block
  | ifStatement
  | forStatement
  | expressionCase
  | typeCase
  | communicationCase
  | defaultCase
  | binaryExpression
  | operator
  | callExpression
  | selectorExpression
  | indexExpression
  | compositeLiteral
  | functionLiteral
  | literal
  | group
deriving DecidableEq, Repr, Inhabited

/-- The place an expression is used in. -/
inductive Place where
  /-- In a statement of its own: the end of the line can end it. -/
  | line
  /-- In the header of a control statement: a curly bracket ends it. -/
  | header
  /-- Inside brackets. -/
  | inside
deriving DecidableEq, Repr, Inhabited

/-- The symbols of the grammar. -/
inductive Symbol where
  | file
  | declaration
  | statement
  | statements
  | block
  | ifStatement
  | simple (p : Place)
  | expressions (p : Place)
  | expression (p : Place)
  | binary (p : Place) (level : Nat)
  | unary (p : Place)
  | primary (p : Place)
  | operand
  | argument
  | literalValue
  | type
  | parameters
  | parameter
  | result
deriving DecidableEq, Repr, Inhabited

open Rule

/-- A rule of this grammar. -/
abbrev R := Rule Symbol Kind

/-- The binary operators, the loosest first. -/
def operators : List (List String) :=
  [["||"], ["&&"], ["==", "!=", "<", "<=", ">", ">="], ["+", "-", "|", "^"],
    ["*", "/", "%", "<<", ">>", "&", "&^"]]

/-- The operators that assign. -/
def assigning : List String :=
  ["=", ":=", "+=", "-=", "*=", "/=", "%=", "&=", "|=", "^=", "<<=", ">>=", "&^="]

/-- A name. -/
def name : R := leaf .identifier (.kind .name)

/-- Any word, where only a name can stand. -/
def anyName : R := leaf .identifier .anyWord

/-- One type. -/
def type : R := sym .type

/-- Matches where the expression at a place may go on. -/
def goesOn : Place → R
  | .line => notAhead freshLine
  | _ => empty

/-- Something that may follow at the end of a statement, on the same line. -/
def tail (r : R) : R := opt (inOrder [goesOn .line, r])

/-- What ends a statement: a semicolon, the end of the line, or a closing bracket, which is
left. -/
def terminator : R := oneOf [mark ";", freshLine, ahead (oneMark [")", "\x7d"])]

/-- Items between brackets, each ended like a statement. -/
def lines (o c : String) (item : R) : R := between o c (many (inOrder [item, terminator]))

/-- One item, or several between round brackets. -/
def oneOrMore (item : R) : R := oneOf [lines "(" ")" item, item]

/-- Names with commas between them. -/
def names : R := sepBy1 name (mark ",")

/-! ### Types and parameters -/

/-- The name of a type, perhaps from another package, and its arguments. -/
def typeName : R := inOrder [name, opt (inOrder [mark ".", anyName]), opt (brackets (commas type))]

/-- The fields of a structure. -/
def field : R :=
  inOrder [oneOf [inOrder [names, type], inOrder [opt (mark "*"), typeName]], tail (kind .text)]

/-- The type elements of an interface, and of constraints. -/
def typeElement : R := sepBy1 (inOrder [opt (mark "~"), type]) (mark "|")

/-- The methods and elements of an interface. -/
def interfaceItem : R := oneOf [inOrder [name, sym .parameters, tail (sym .result)], typeElement]

/-- The types. -/
def typeRule : R :=
  node .type
    (oneOf
       [ inOrder [mark "*", type],
         parens type,
         inOrder
           [ mark "[",
             oneOf
               [ mark "]",
                 inOrder [mark "...", mark "]"],
                 inOrder [sym (.expression .inside), mark "]"] ],
             type ],
         inOrder [word "map", brackets type, type],
         inOrder [mark "<-", word "chan", type],
         inOrder [word "chan", opt (mark "<-"), type],
         inOrder [word "func", sym .parameters, opt (sym .result)],
         inOrder [word "struct", lines "\x7b" "\x7d" field],
         inOrder [word "interface", lines "\x7b" "\x7d" interfaceItem],
         typeName ])

/-- A declaration of type parameters. -/
def typeParameters : R := brackets (commas (inOrder [names, typeElement]))

/-- A parameter, or several of one type. -/
def parameter : R :=
  oneOf
    [ node .variadicParameter (inOrder [opt name, mark "...", role .type type]),
      node .parameter (inOrder [role .name names, role .type type]),
      node .parameter (role .type type) ]

/-! ### Declarations -/

/-- The body of a function. -/
def body : R := role .body (sym .block)

/-- A function or a method; the body may be elsewhere. -/
def functionDeclaration : R :=
  oneOf
    [ node .methodDeclaration
        (inOrder
           [ word "func",
             role .receiver (sym .parameters),
             role .name anyName,
             role .parameters (sym .parameters),
             tail (sym .result),
             tail body ]),
      node .functionDeclaration
        (inOrder
           [ word "func",
             role .name anyName,
             opt typeParameters,
             role .parameters (sym .parameters),
             tail (sym .result),
             tail body ]) ]

/-- The declarations of constants, variables and types. -/
def declaration : R :=
  let values : R := inOrder [mark "=", sym (.expressions .line)]
  node .group
    (oneOf
       [ inOrder
           [ word "var",
             oneOrMore (inOrder [names, oneOf [values, inOrder [type, tail values]]]) ],
         inOrder
           [ word "const",
             oneOrMore
               (inOrder [names, tail (oneOf [values, inOrder [type, values]])]) ],
         inOrder
           [ word "type",
             oneOrMore
               (inOrder
                  [ name,
                    oneOf [inOrder [mark "=", type], inOrder [typeParameters, type], type] ]) ] ])

/-- The clauses that open a file. -/
def preamble : R :=
  let path : R := inOrder [opt (oneOf [mark ".", name]), kind .text]
  node .group (oneOf [inOrder [word "package", name], inOrder [word "import", oneOrMore path]])

/-! ### Statements -/

/-- A statement that fits in a header, or stands on a line. -/
def simple (p : Place) : R :=
  inOrder
    [ sym (.expressions p),
      opt
        (inOrder
           [ goesOn p,
             oneOf
               [ inOrder [oneMark assigning, sym (.expressions p)],
                 oneMark ["++", "--"],
                 inOrder [mark "<-", sym (.expression p)] ] ]) ]

/-- A statement before the condition, value or guard of a header. -/
def headerStart : R := opt (inOrder [opt (sym (.simple .header)), mark ";"])

/-- What runs in a case. -/
def caseBody : R := inOrder [mark ":", sym .statements]

/-- The branch taken when no other is. -/
def defaultCase : R := node .defaultCase (inOrder [word "default", caseBody])

/-- A loop, by a range, by three clauses, by a condition, or without end. -/
def forStatement : R :=
  let header : R :=
    oneOf
      [ inOrder
          [ opt (inOrder [sym (.expressions .header), oneMark ["=", ":="]]),
            word "range",
            sym (.expression .header),
            ahead (mark "\x7b") ],
        inOrder
          [ opt (sym (.simple .header)),
            mark ";",
            opt (sym (.expression .header)),
            mark ";",
            opt (sym (.simple .header)),
            ahead (mark "\x7b") ],
        sym (.expression .header),
        empty ]
  node .forStatement (inOrder [word "for", header, sym .block])

/-- A choice by the type of a value. -/
def typeSwitch : R :=
  node .group
    (inOrder
       [ word "switch",
         headerStart,
         opt (inOrder [sym (.expressions .header), mark ":="]),
         sym (.expression .header),
         mark ".",
         parens (word "type"),
         braces
           (many
              (oneOf
                 [ defaultCase,
                   node .typeCase (inOrder [word "case", commas type, caseBody]) ])) ])

/-- A choice by value or condition. -/
def expressionSwitch : R :=
  node .group
    (inOrder
       [ word "switch",
         headerStart,
         opt (sym (.expression .header)),
         braces
           (many
              (oneOf
                 [ defaultCase,
                   node .expressionCase
                     (inOrder [word "case", sym (.expressions .inside), caseBody]) ])) ])

/-- A choice among communications. -/
def selectStatement : R :=
  node .group
    (inOrder
       [ word "select",
         braces
           (many
              (oneOf
                 [ defaultCase,
                   node .communicationCase
                     (inOrder [word "case", sym (.simple .inside), caseBody]) ])) ])

/-- The statements. -/
def statement : R :=
  oneOf
    [ sym .declaration,
      node .group
        (inOrder [word "return", tail (sym (.expressions .line))]),
      node .group (inOrder [oneWord ["go", "defer"], sym (.expression .line)]),
      sym .ifStatement,
      forStatement,
      typeSwitch,
      expressionSwitch,
      selectStatement,
      node .group (inOrder [oneWord ["break", "continue"], tail name]),
      node .group (inOrder [word "goto", name]),
      word "fallthrough",
      sym .block,
      node .group (inOrder [name, mark ":", opt (sym .statement)]),
      node .group (sym (.simple .line)) ]

/-! ### Expressions -/

/-- The operands that go on with operators at a place. -/
def infixChain (p : Place) (operand : R) (marks : List String) : R :=
  inOrder
    [ operand,
      many
        (inOrder
           [ goesOn p,
             wrap .binaryExpression .operand
               (inOrder [role .operator (node .operator (oneMark marks)), operand]) ]) ]

/-- The bounds of an index, a slice, or the arguments of a generic name. -/
def index : R :=
  let bound : R := opt (sym .argument)
  inOrder
    [ bound,
      oneOf
        [ inOrder [mark ":", bound, opt (inOrder [mark ":", bound])],
          inOrder [many (inOrder [mark ",", sym .argument]), opt (mark ",")] ] ]

/-- What may follow an operand. -/
def accesses (p : Place) : R :=
  let always : List R :=
    [ wrap .selectorExpression .operand (inOrder [mark ".", role .member anyName]),
      wrap .group .operand (inOrder [mark ".", parens type]),
      wrap .indexExpression .operand (brackets index),
      wrap .callExpression .callee
        (parens (opt (commas (inOrder [sym .argument, opt (mark "...")])))) ]
  match p with
  | .header => oneOf always
  | _ => oneOf (wrap .compositeLiteral .type (sym .literalValue) :: always)

/-- The operands. -/
def operand : R :=
  oneOf
    [ name,
      node .literal (oneOf [kind .number, kind .text, kind .letter]),
      node .functionLiteral
        (inOrder [word "func", sym .parameters, opt (sym .result), sym .block]),
      node .compositeLiteral (inOrder [sym .type, sym .literalValue]),
      node .group
        (inOrder [sym .type, parens (inOrder [sym (.expression .inside), opt (mark ",")])]),
      node .group (parens (oneOf [sym (.expression .inside), type])) ]

/-- What each symbol stands for. -/
def rule : Symbol → R
  | .file =>
    node .file
      (inOrder
         [ many (mark ";"),
           many
             (inOrder
                [ oneOf [preamble, functionDeclaration, sym .statement],
                  many1 (oneOf [mark ";", inOrder [freshLine, opt (mark ";")]]) ]) ])
  | .declaration => declaration
  | .statement => statement
  | .statements =>
    inOrder [many (mark ";"), many (inOrder [sym .statement, terminator, many (mark ";")])]
  | .block => node .block (braces (sym .statements))
  | .ifStatement =>
    node .ifStatement
      (inOrder
         [ word "if",
           oneOf
             [ inOrder [sym (.expression .header), ahead (mark "\x7b")],
               inOrder [opt (sym (.simple .header)), mark ";", sym (.expression .header)] ],
           sym .block,
           tail (inOrder [word "else", oneOf [sym .ifStatement, sym .block]]) ])
  | .simple p => simple p
  | .expressions p =>
    inOrder [sym (.expression p), many (inOrder [goesOn p, mark ",", sym (.expression p)])]
  | .expression p => sym (.binary p 0)
  | .binary p level =>
    match operators[level]? with
    | some marks => infixChain p (sym (.binary p (level + 1))) marks
    | none => sym (.unary p)
  | .unary p =>
    oneOf
      [ node .group (inOrder [oneMark ["+", "-", "!", "^", "*", "&", "<-"], sym (.unary p)]),
        sym (.primary p) ]
  | .primary p => inOrder [sym .operand, many (inOrder [goesOn p, accesses p])]
  | .operand => operand
  | .argument =>
    oneOf
      [ inOrder [sym (.expression .inside), ahead (oneMark [",", ")", "]", ":", "..."])],
        type ]
  | .literalValue =>
    let part : R := oneOf [sym .literalValue, sym (.expression .inside)]
    node .group (braces (opt (commas (inOrder [part, opt (inOrder [mark ":", part])]))))
  | .type => typeRule
  | .parameters => node .parameters (parens (opt (commas (sym .parameter))))
  | .parameter => parameter
  | .result => oneOf [sym .parameters, type]

/-- **The grammar of Go.** -/
def grammar : Grammar Symbol Kind :=
  ⟨rule, .file⟩

end Dossier.Syntax.Go
