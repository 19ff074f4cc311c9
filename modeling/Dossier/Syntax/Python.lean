import Dossier.Syntax.Grammar

/-!
# The grammar of Python

The rules follow the reference grammar of the language, with the print and exec
statements of its second major version besides. A tree keeps apart what the outline of a
file is read from: functions and classes, their names, parameters and bodies, calls and
their callees, and the constructs that branch. Other constructs are `group` nodes.

Every rule for an expression leaves exactly one tree, so that an operator, a call or an
access can take it in as its first child.
-/

namespace Dossier.Syntax.Python

/-- The node kinds of Python. -/
inductive Kind where
  | file
  | functionDefinition
  | classDefinition
  | block
  | parameters
  | identifier
  | typedParameter
  | defaultParameter
  | typedDefaultParameter
  | listSplat
  | dictionarySplat
  | ifStatement
  | elifClause
  | forStatement
  | whileStatement
  | exceptClause
  | caseClause
  | casePattern
  | conditional
  | booleanOperator
  | binaryOperator
  | comparison
  | forInClause
  | ifClause
  | call
  | arguments
  | attribute
  | subscript
  | lambda
  | literal
  | string
  | group
deriving DecidableEq, Repr, Inhabited

/-- The symbols of the grammar. -/
inductive Symbol where
  | file
  | statement
  | compound
  | definition
  | simpleLine
  | simple
  | assigned
  | suite
  | caseClause
  | targets
  | target
  | expressions
  | starred
  | expression
  | disjunction
  | conjunction
  | inversion
  | comparison
  | binary (level : Nat)
  | unary
  | power
  | primary
  | atom
  | hole
  | clauses
  | argument
  | casePattern
  | pattern
deriving DecidableEq, Repr, Inhabited

open Rule

/-- A rule of this grammar. -/
abbrev R := Rule Symbol Kind

/-- The left-associative binary operators, the loosest first. -/
def operators : List (List String) :=
  [["|"], ["^"], ["&"], ["<<", ">>"], ["+", "-"], ["*", "/", "%", "//", "@"]]

/-- The operators that also assign. -/
def assigning : List String :=
  ["+=", "-=", "*=", "/=", "@=", "//=", "%=", "**=", ">>=", "<<=", "&=", "^=", "|="]

/-- A name that is not reserved. -/
def name : R := leaf .identifier (.kind .name)

/-- Any word, where only a name can stand. -/
def anyName : R := leaf .identifier .anyWord

/-- One expression. -/
def expression : R := sym .expression

/-- A comprehension, or elements with commas between them. -/
def elements (element : R) : R :=
  inOrder
    [ element,
      oneOf [sym .clauses, inOrder [many (inOrder [mark ",", element]), opt (mark ",")]] ]

/-- The arguments of a call. -/
def arguments : R := node .arguments (parens (opt (elements (sym .argument))))

/-- What may follow an operand: an access, a subscript or a call. -/
def access : R := wrap .attribute .operand (inOrder [mark ".", role .member anyName])

/-- The colons of a slice and what stands between them. -/
def sliceTail : R := inOrder [mark ":", opt expression, opt (inOrder [mark ":", opt expression])]

/-- A subscript. -/
def subscript : R :=
  wrap .subscript .operand
    (brackets (commas (oneOf [inOrder [sym .starred, opt sliceTail], sliceTail])))

/-- A call. -/
def call : R := wrap .call .callee arguments

/-- What may follow an operand that is assigned to: anything but a call at its end. -/
def trailer : R :=
  oneOf [access, subscript, inOrder [call, ahead (oneMark [".", "[", "("])]]

/-- A string literal, made of one or more pieces. -/
def string : R := node .string (many1 (inOrder [kind .textOpen, many (sym .hole), kind .textClose]))

/-! ### Parameters -/

/-- Type parameters in square brackets, or nothing. -/
def typeParameters : R :=
  opt
    (brackets
       (commas
          (node .group
             (inOrder
                [ opt (oneMark ["*", "**"]),
                  name,
                  opt (inOrder [mark ":", expression]),
                  opt (inOrder [mark "=", expression]) ]))))

/-- A parameter that takes the remaining arguments. -/
def splat : R :=
  oneOf
    [ node .dictionarySplat (inOrder [mark "**", anyName]),
      node .listSplat (inOrder [mark "*", name]) ]

/-- A parameter without a type. -/
def plainParameter : R :=
  oneOf
    [ node .defaultParameter
        (inOrder [oneOf [name, node .group (parens (sym .targets))], mark "=", expression]),
      splat,
      mark "*",
      mark "/",
      name,
      node .group (parens (sym .targets)) ]

/-- A parameter of a function. -/
def parameter : R :=
  oneOf
    [ node .typedDefaultParameter (inOrder [name, mark ":", expression, mark "=", expression]),
      node .typedParameter (inOrder [oneOf [name, splat], mark ":", sym .starred]),
      plainParameter ]

/-! ### Statements -/

/-- The body of a compound statement: an indented block, nothing at all, or statements on
the same line. -/
def suite : R :=
  oneOf
    [ inOrder
        [ kind .indent,
          role .body (node .block (inOrder [many (sym .statement), kind .dedent])) ],
      role .body (node .block (kind .lineEnd)),
      role .body (node .block (sym .simpleLine)) ]

/-- A colon and a body. -/
def colonSuite : R := inOrder [mark ":", sym .suite]

/-- The branch taken when no other was. -/
def elseClause : R := opt (node .group (inOrder [word "else", colonSuite]))

/-- A function, perhaps an asynchronous one. -/
def functionDefinition : R :=
  node .functionDefinition
    (inOrder
       [ opt (word "async"),
         word "def",
         role .name anyName,
         typeParameters,
         role .parameters (node .parameters (parens (opt (commas parameter)))),
         opt (inOrder [mark "->", expression]),
         colonSuite ])

/-- A class. -/
def classDefinition : R :=
  node .classDefinition
    (inOrder [word "class", role .name anyName, typeParameters, opt arguments, colonSuite])

/-- An item of a with statement. -/
def withItem : R := inOrder [expression, opt (inOrder [word "as", sym .target])]

/-- The handlers of a try statement. -/
def exceptClauses : R :=
  oneOf
    [ many1
        (node .group
           (inOrder
              [ word "except",
                mark "*",
                expression,
                opt (inOrder [word "as", expression]),
                colonSuite ])),
      many1
        (node .exceptClause
           (inOrder
              [ word "except",
                opt
                  (inOrder [expression, opt (inOrder [oneOf [word "as", mark ","], expression])]),
                colonSuite ])) ]

/-- The statements that hold other statements. -/
def compound : R :=
  oneOf
    [ node .group
        (inOrder [many1 (inOrder [mark "@", expression, kind .lineEnd]), sym .definition]),
      sym .definition,
      node .ifStatement
        (inOrder
           [ word "if",
             expression,
             colonSuite,
             many (node .elifClause (inOrder [word "elif", expression, colonSuite])),
             elseClause ]),
      node .forStatement
        (inOrder
           [ opt (word "async"),
             word "for",
             sym .targets,
             word "in",
             sym .expressions,
             colonSuite,
             elseClause ]),
      node .whileStatement (inOrder [word "while", expression, colonSuite, elseClause]),
      node .group
        (inOrder
           [ word "try",
             colonSuite,
             oneOf
               [ inOrder [exceptClauses, elseClause, opt (inOrder [word "finally", colonSuite])],
                 inOrder [word "finally", colonSuite] ] ]),
      node .group
        (inOrder
           [ opt (word "async"),
             word "with",
             oneOf [inOrder [parens (commas withItem), ahead (mark ":")], commas withItem],
             colonSuite ]),
      node .group
        (inOrder
           [ word "match",
             commas (sym .starred),
             mark ":",
             oneOf
               [ inOrder [kind .indent, many (sym .caseClause), kind .dedent],
                 kind .lineEnd ] ]) ]

/-- One case of a match statement. -/
def caseClause : R :=
  node .caseClause
    (inOrder
       [ word "case",
         commas (sym .casePattern),
         opt (node .ifClause (inOrder [word "if", expression])),
         colonSuite ])

/-- A name with points in it. -/
def dottedName : R := inOrder [name, many (inOrder [mark ".", anyName])]

/-- A name with points in it, perhaps under another name. -/
def aliased : R := inOrder [dottedName, opt (inOrder [word "as", anyName])]

/-- The statements that fit on a line. -/
def simple : R :=
  oneOf
    [ inOrder [word "import", sepBy1 aliased (mark ",")],
      inOrder
        [ word "from",
          oneOf
            [ inOrder [many1 (oneMark [".", "..."]), opt (dottedName)],
              dottedName ],
          word "import",
          oneOf [mark "*", parens (commas aliased), commas aliased] ],
      inOrder [word "return", opt (sym .expressions)],
      inOrder
        [ word "raise",
          opt (inOrder [sym .expressions, opt (inOrder [word "from", expression])]) ],
      word "pass",
      word "break",
      word "continue",
      inOrder [word "assert", sepBy1 expression (mark ",")],
      inOrder [word "del", sym .expressions],
      inOrder [oneWord ["global", "nonlocal"], sepBy1 name (mark ",")],
      inOrder
        [ sym .targets,
          oneOf
            [ inOrder [mark "=", sym .assigned],
              inOrder [oneMark assigning, sym .expressions],
              inOrder [mark ":", expression, opt (inOrder [mark "=", sym .assigned])] ] ],
      inOrder [sym .expressions, ahead (oneOf [kind .lineEnd, mark ";"])],
      inOrder [word "type", name, typeParameters, mark "=", expression],
      inOrder
        [ word "print",
          opt (inOrder [mark ">>", expression, opt (mark ",")]),
          opt (sym .expressions) ],
      inOrder
        [ word "exec",
          sym (.binary 0),
          opt (inOrder [word "in", sepBy1 expression (mark ",")]) ] ]

/-! ### Expressions -/

/-- An operand, and while an operator follows, the operator and the next operand. -/
def infixChain (k : Kind) (operand operator : R) : R :=
  inOrder [operand, many (wrap k .operand (inOrder [operator, operand]))]

/-- The relational operators. -/
def relation : R :=
  oneOf
    [ oneMark ["<", "<=", "==", "!=", ">=", ">", "<>"],
      word "in",
      inOrder [word "not", word "in"],
      inOrder [word "is", opt (word "not")] ]

/-- An item of a display in curly brackets that unpacks a dictionary. -/
def unpacked : R := node .group (inOrder [mark "**", sym (.binary 0)])

/-- The items of a dictionary after the first one. -/
def moreEntries : R :=
  inOrder
    [ many (inOrder [mark ",", oneOf [unpacked, inOrder [expression, mark ":", expression]]]),
      opt (mark ",") ]

/-- The items of a set after the first one. -/
def moreMembers : R := inOrder [many (inOrder [mark ",", sym .starred]), opt (mark ",")]

/-- What stands in curly brackets: a dictionary or a set, or a comprehension of one. -/
def display : R :=
  oneOf
    [ inOrder [unpacked, moreEntries],
      inOrder
        [ sym .starred,
          oneOf
            [ inOrder [mark ":", expression, oneOf [sym .clauses, moreEntries]],
              sym .clauses,
              moreMembers ] ],
      opt (mark ",") ]

/-- The operands of no operator. -/
def atom : R :=
  oneOf
    [ name,
      leaf .literal (.kind .number),
      string,
      leaf .literal (.mark "..."),
      node .literal (oneWord ["True", "False", "None"]),
      node .group (parens (opt (oneOf [elements (sym .starred), sym .expressions]))),
      node .group (brackets (opt (elements (sym .starred)))),
      node .group (braces display) ]

/-- A lambda expression. -/
def lambda : R :=
  node .lambda (inOrder [word "lambda", opt (commas plainParameter), mark ":", expression])

/-! ### Patterns -/

/-- The arguments of a class pattern. -/
def classPatternArgument : R := oneOf [inOrder [name, mark "=", sym .pattern], sym .casePattern]

/-- A pattern without alternatives. -/
def patternAtom : R :=
  oneOf
    [ inOrder [oneMark ["*", "**"], name],
      string,
      inOrder [opt (mark "-"), kind .number, opt (inOrder [oneMark ["+", "-"], kind .number])],
      oneWord ["True", "False", "None"],
      parens (opt (commas (sym .casePattern))),
      brackets (opt (commas (sym .casePattern))),
      braces
        (opt
           (commas
              (oneOf
                 [ inOrder [mark "**", name],
                   inOrder [sym .pattern, mark ":", sym .casePattern] ]))),
      inOrder [sepBy1 name (mark "."), opt (parens (opt (commas classPatternArgument)))] ]

/-- What each symbol stands for. -/
def rule : Symbol → R
  | .file => node .file (many (sym .statement))
  | .statement => oneOf [sym .compound, sym .simpleLine]
  | .compound => compound
  | .definition => oneOf [functionDefinition, classDefinition]
  | .simpleLine => inOrder [sepBy1 (sym .simple) (mark ";"), opt (mark ";"), kind .lineEnd]
  | .simple => node .group simple
  | .assigned => oneOf [inOrder [sym .targets, mark "=", sym .assigned], sym .expressions]
  | .suite => suite
  | .caseClause => caseClause
  | .targets => commas (sym .target)
  | .target =>
    inOrder
      [ opt (mark "*"),
        oneOf
          [ inOrder
              [ oneOf
                  [ name,
                    node .group (parens (opt (sym .targets))),
                    node .group (brackets (opt (sym .targets))) ],
                many trailer ],
            inOrder [sym .atom, many1 trailer] ] ]
  | .expressions =>
    oneOf
      [ node .group
          (inOrder
             [ word "yield",
               oneOf [inOrder [word "from", expression], opt (sym .expressions)] ]),
        commas (sym .starred) ]
  | .starred => oneOf [node .group (inOrder [mark "*", sym (.binary 0)]), expression]
  | .expression =>
    oneOf
      [ lambda,
        inOrder
          [ sym .disjunction,
            oneOf
              [ wrap .group .operand (inOrder [mark ":=", expression]),
                opt
                  (wrap .conditional .operand
                     (inOrder [word "if", expression, word "else", expression])) ] ] ]
  | .disjunction => infixChain .booleanOperator (sym .conjunction) (word "or")
  | .conjunction => infixChain .booleanOperator (sym .inversion) (word "and")
  | .inversion => oneOf [node .group (inOrder [word "not", sym .inversion]), sym .comparison]
  | .comparison => infixChain .comparison (sym (.binary 0)) relation
  | .binary level =>
    match operators[level]? with
    | some marks => infixChain .binaryOperator (sym (.binary (level + 1))) (oneMark marks)
    | none => sym .unary
  | .unary => oneOf [node .group (inOrder [oneMark ["-", "+", "~"], sym .unary]), sym .power]
  | .power =>
    inOrder
      [ oneOf [node .group (inOrder [word "await", sym .primary]), sym .primary],
        opt (wrap .binaryOperator .operand (inOrder [mark "**", sym .unary])) ]
  | .primary => inOrder [sym .atom, many (oneOf [access, subscript, call])]
  | .atom => atom
  | .hole =>
    node .group
      (inOrder
         [ kind .holeOpen,
           sym .expressions,
           opt (mark "="),
           opt (kind .holeConversion),
           opt (inOrder [kind .holeLayout, many (sym .hole)]),
           kind .holeClose ])
  | .clauses =>
    let first : R :=
      node .forInClause
        (inOrder
           [ opt (word "async"),
             word "for",
             sym .targets,
             word "in",
             sepBy1 expression (mark ","),
             opt (mark ",") ])
    inOrder [first, many (oneOf [first, node .ifClause (inOrder [word "if", expression])])]
  | .argument =>
    oneOf
      [ node .group (inOrder [oneMark ["**", "*"], expression]),
        node .group (inOrder [anyName, mark "=", expression]),
        expression ]
  | .casePattern => node .casePattern (inOrder [sym .pattern, opt (inOrder [word "as", name])])
  | .pattern => node .group (sepBy1 patternAtom (mark "|"))

/-- **The grammar of Python.** -/
def grammar : Grammar Symbol Kind :=
  ⟨rule, .file⟩

end Dossier.Syntax.Python
