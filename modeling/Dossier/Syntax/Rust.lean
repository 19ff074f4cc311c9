import Dossier.Syntax.Grammar

/-!
# The grammar of Rust

The grammar follows the reference of the language. The rules for expressions carry whether
they stand in the *header* of a control expression, where a curly bracket opens the body
and never the fields of a structure. A statement or an arm that begins with an expression
in curly brackets ends with it, unless a point or a question mark follows.

What a macro is applied to is taken as it is, bracket by bracket. Attributes, and the
documentation comments that stand for them, are accepted where the language has them.

Every rule for an expression or a type leaves exactly one tree.
-/

namespace Dossier.Syntax.Rust

/-- The node kinds of Rust. -/
inductive Kind where
  | file
  | function
  | implementation
  | trait
  | module
  /-- A declaration without functions of its own that could be recorded. -/
  | declaration
  | identifier
  | parameters
  | parameter
  | receiver
  | block
  | path
  | segment
  | referenceType
  | type
  | ifExpression
  | whileExpression
  | forExpression
  | loopExpression
  | matchExpression
  | arm
  | guard
  | binary
  | operator
  | call
  | methodCall
  | macroCall
  | closure
  | literal
  | group
deriving DecidableEq, Repr, Inhabited

/-- The place an expression is used in. -/
inductive Place where
  /-- Where a path may go on with the fields of a structure. -/
  | free
  /-- In front of the body of a control expression. -/
  | header
deriving DecidableEq, Repr, Inhabited

/-- The symbols of the grammar. -/
inductive Symbol where
  | file
  | attributes
  | tokenTree
  | item
  | member
  | function
  | block
  | statement
  | braced
  | pattern
  | patternAtom
  | type
  | bounds
  | genericArgument
  | genericParameters
  | pathInType
  | path
  | expression (p : Place)
  | range (p : Place)
  | binary (p : Place) (level : Nat)
  | unary (p : Place)
  | primary (p : Place)
  | atom (p : Place)
  | argument
deriving DecidableEq, Repr, Inhabited

open Rule

/-- A rule of this grammar. -/
abbrev R := Rule Symbol Kind

/-- The left-associative operators, the loosest first; those of `comparisonLevel` do not
chain. -/
def operators : List (List String) :=
  [["||"], ["&&"], ["==", "!=", "<", ">", "<=", ">="], ["|"], ["^"], ["&"], ["<<", ">>"],
    ["+", "-"], ["*", "/", "%"]]

/-- The level of the comparisons. -/
def comparisonLevel : Nat := 2

/-- The operators that assign. -/
def assigning : List String :=
  ["=", "+=", "-=", "*=", "/=", "%=", "^=", "&=", "|=", "<<=", ">>="]

/-- A name. -/
def name : R := leaf .identifier (.kind .name)

/-- One type. -/
def type : R := sym .type

/-- An expression where nothing restricts it. -/
def expression : R := sym (.expression .free)

/-- Attributes before what they apply to. -/
def attributes : R := sym .attributes

/-- A lifetime. -/
def lifetime : R := kind .lifetime

/-- Tokens in matched brackets. -/
def delimited : R :=
  oneOf
    [ parens (many (sym .tokenTree)),
      brackets (many (sym .tokenTree)),
      braces (many (sym .tokenTree)) ]

/-- One token, or tokens in matched brackets. -/
def tokenTree : R := oneOf [delimited, inOrder [notAhead (oneMark [")", "]", "\x7d"]), token .any]]

/-- Attributes inside what they apply to. -/
def innerAttributes : R :=
  many (oneOf [kind .docInside, inOrder [mark "#", mark "!", brackets (many (sym .tokenTree))]])

/-! ### Paths and types -/

/-- The words that may stand in a path. -/
def segment : R :=
  oneOf
    [ leaf .segment (.kind .name),
      node .segment (oneWord ["super", "self", "Self", "crate", "try"]) ]

/-- Arguments in angle brackets. -/
def genericArguments : R := inOrder [head "<", opt (commas (sym .genericArgument)), head ">"]

/-- What a function type returns. -/
def returnType : R := opt (inOrder [mark "->", type])

/-- A segment of a path in a type, with its arguments. An opening angle bracket always
opens arguments here. -/
def typeSegment : R :=
  inOrder
    [ segment,
      oneOf
        [ inOrder
            [ opt (inOrder [mark "::", ahead (head "<")]),
              notAhead (mark "<="),
              node .group genericArguments ],
          node .group
            (inOrder [opt (mark "::"), parens (opt (commas type)), returnType]),
          inOrder [notAhead (inOrder [notAhead (mark "<="), head "<"])] ] ]

/-- The type and trait that a path is qualified by. -/
def qualifier : R :=
  inOrder
    [ head "<",
      node .group type,
      opt (inOrder [word "as", opt (mark "::"), sepBy1 typeSegment (mark "::")]),
      head ">",
      mark "::" ]

/-- A path in a type. -/
def pathInType : R :=
  node .path (inOrder [oneOf [qualifier, opt (mark "::")], sepBy1 typeSegment (mark "::")])

/-- A path in an expression: arguments come after two colons. -/
def path : R :=
  let next : R := inOrder [mark "::", oneOf [node .group genericArguments, segment]]
  node .path (inOrder [oneOf [qualifier, opt (mark "::")], segment, many next])

/-- Lifetimes that a type or bound holds for. -/
def forLifetimes : R := opt (inOrder [word "for", sym .genericParameters])

/-- Bounds with plus signs between them. -/
def bounds : R :=
  let modifier : R :=
    inOrder [opt (oneOf [mark "?", mark "~"]), opt (word "const"), opt (word "async")]
  let bound : R :=
    oneOf
      [ lifetime,
        inOrder
          [ word "use",
            head "<",
            many (inOrder [notAhead (head ">"), token .any]),
            head ">" ],
        parens (inOrder [modifier, forLifetimes, sym .pathInType]),
        inOrder [modifier, forLifetimes, sym .pathInType] ]
  opt (inOrder [sepBy1 bound (mark "+"), opt (mark "+")])

/-- A function type. -/
def functionType : R :=
  let argument : R :=
    inOrder
      [ attributes,
        oneOf
          [ mark "...",
            inOrder [opt (inOrder [oneOf [kind .name, word "_"], mark ":"]), type] ] ]
  inOrder
    [ forLifetimes,
      opt (word "unsafe"),
      opt (inOrder [word "extern", opt (kind .text)]),
      word "fn",
      parens (opt (commas argument)),
      returnType ]

/-- The types. -/
def typeRule : R :=
  oneOf
    [ node .referenceType
        (inOrder [head "&", opt lifetime, opt (word "mut"), role .operand type]),
      node .type (inOrder [mark "*", oneWord ["const", "mut"], type]),
      node .type
        (parens (opt (commas (inOrder [type, many (inOrder [mark "+", sym .bounds])])))),
      node .type (brackets (inOrder [type, opt (inOrder [mark ";", expression])])),
      node .type (mark "!"),
      node .type (word "_"),
      node .type functionType,
      node .type (inOrder [oneWord ["dyn", "impl"], forLifetimes, sym .bounds]),
      node .type (inOrder [word "for", sym .genericParameters, sym .pathInType]),
      inOrder
        [ sym .pathInType,
          opt (wrap .macroCall .operand (inOrder [mark "!", node .group delimited])) ] ]

/-- A generic argument. -/
def genericArgument : R :=
  oneOf
    [ lifetime,
      inOrder
        [ kind .name,
          opt genericArguments,
          oneOf
            [ inOrder [mark "=", oneOf [type, kind .number]],
              inOrder [mark ":", sym .bounds] ] ],
      inOrder [type, many (inOrder [mark "+", sym .bounds])],
      inOrder [opt (mark "-"), oneOf [kind .number, kind .text, kind .letter]],
      oneWord ["true", "false"],
      sym .block ]

/-- A declaration of generic parameters. -/
def genericParameters : R :=
  let parameter : R :=
    inOrder
      [ attributes,
        oneOf
          [ inOrder [lifetime, opt (inOrder [mark ":", sym .bounds])],
            inOrder
              [ word "const",
                kind .name,
                mark ":",
                type,
                opt (inOrder [mark "=", sym .genericArgument]) ],
            inOrder
              [ kind .name,
                opt (inOrder [mark ":", sym .bounds]),
                opt (inOrder [mark "=", type]) ] ] ]
  node .group (inOrder [head "<", opt (commas parameter), head ">"])

/-- Generic parameters, or nothing. -/
def generics : R := opt (sym .genericParameters)

/-- The conditions on generic parameters, or nothing. -/
def whereClause : R :=
  let condition : R :=
    oneOf
      [ inOrder [lifetime, mark ":", sym .bounds],
        inOrder [forLifetimes, type, mark ":", sym .bounds] ]
  opt (node .group (inOrder [word "where", opt (commas condition)]))

/-! ### Patterns -/

/-- What a range in a pattern starts or ends with. -/
def rangeEnd : R :=
  oneOf
    [ inOrder [opt (mark "-"), oneOf [kind .number, kind .text, kind .letter]],
      oneWord ["true", "false"],
      inOrder [word "const", sym .block],
      sym .path ]

/-- The field of a structure in a pattern. -/
def fieldPattern : R :=
  inOrder
    [ attributes,
      oneOf
        [ mark "..",
          inOrder [oneOf [kind .name, kind .number], mark ":", sym .pattern],
          inOrder [opt (word "box"), opt (word "ref"), opt (word "mut"), kind .name] ] ]

/-- The patterns without alternatives. -/
def patternAtom : R :=
  let rangeMark : R := oneMark ["..=", "...", ".."]
  oneOf
    [ word "_",
      inOrder [head "&", opt (word "mut"), sym .patternAtom],
      parens (opt (commas (sym .pattern))),
      brackets (opt (commas (sym .pattern))),
      inOrder [word "box", sym .patternAtom],
      inOrder
        [ -- a name that is bound
          oneOf [inOrder [word "ref", opt (word "mut")], word "mut", empty],
          kind .name,
          notAhead (oneMark ["::", "(", "\x7b", "!", "..=", "...", ".."]),
          opt (inOrder [mark "@", sym .patternAtom]) ],
      inOrder [word "mut", word "self"],
      inOrder [oneMark ["..=", ".."], rangeEnd],
      mark "..",
      inOrder
        [ rangeEnd,
          oneOf
            [ inOrder [rangeMark, opt rangeEnd],
              parens (opt (commas (sym .pattern))),
              braces (opt (commas fieldPattern)),
              inOrder [mark "!", delimited],
              empty ] ] ]

/-- A pattern with alternatives. -/
def pattern : R := inOrder [opt (mark "|"), sepBy1 (sym .patternAtom) (mark "|")]

/-! ### Declarations -/

/-- Who may see a declaration. -/
def visibility : R :=
  opt
    (inOrder
       [ word "pub",
         opt
           (parens (oneOf [oneWord ["crate", "self", "super"], inOrder [word "in", sym .path]])) ])

/-- A parameter of a function, or the object a method is called on. -/
def parameter : R :=
  inOrder
    [ attributes,
      oneOf
        [ node .receiver (inOrder [head "&", opt lifetime, opt (word "mut"), word "self"]),
          node .receiver
            (inOrder [opt (word "mut"), word "self", opt (inOrder [mark ":", type])]),
          node .group (inOrder [opt (inOrder [sym .pattern, mark ":"]), mark "..."]),
          node .parameter (inOrder [sym .pattern, mark ":", type]) ] ]

/-- What stands before the body of a function. -/
def signature : R :=
  inOrder
    [ opt (word "const"),
      opt (word "async"),
      opt (oneOf [word "unsafe", inOrder [word "safe", ahead (oneWord ["fn", "extern"])]]),
      opt (inOrder [word "extern", opt (kind .text)]),
      word "fn",
      role .name name,
      generics,
      role .parameters (node .parameters (parens (opt (commas parameter)))),
      returnType,
      whereClause ]

/-- A function, or the declaration of one that is defined elsewhere. -/
def function : R :=
  oneOf
    [ node .function (inOrder [signature, role .body (sym .block)]),
      node .declaration (inOrder [signature, mark ";"]) ]

/-- The fields of a structure, in curly brackets. -/
def namedFields : R :=
  braces
    (opt
       (commas
          (inOrder
             [ attributes,
               visibility,
               kind .name,
               mark ":",
               type,
               opt (inOrder [mark "=", expression]) ])))

/-- The fields of a structure, in round brackets. -/
def numberedFields : R := parens (opt (commas (inOrder [attributes, visibility, type])))

/-- A variant of an enumeration. -/
def variant : R :=
  inOrder
    [ attributes,
      visibility,
      kind .name,
      opt (oneOf [namedFields, numberedFields]),
      opt (inOrder [mark "=", expression]) ]

/-- A constant, a static or a type. -/
def constant : R :=
  oneOf
    [ node .declaration
        (inOrder
           [ word "const",
             oneOf [kind .name, word "_"],
             generics,
             mark ":",
             type,
             opt (inOrder [mark "=", expression]),
             whereClause,
             mark ";" ]),
      node .declaration
        (inOrder
           [ word "static",
             opt (word "mut"),
             kind .name,
             mark ":",
             type,
             opt (inOrder [mark "=", expression]),
             mark ";" ]),
      node .declaration
        (inOrder
           [ word "type",
             kind .name,
             generics,
             opt (inOrder [mark ":", sym .bounds]),
             whereClause,
             opt (inOrder [mark "=", type]),
             whereClause,
             mark ";" ]) ]

/-- The members between the brackets of an implementation, a trait or a foreign block. -/
def members : R := braces (inOrder [innerAttributes, many (sym .member)])

/-- A macro as a declaration. -/
def macroItem : R :=
  node .declaration
    (inOrder
       [ sym .path,
         mark "!",
         opt (kind .name),
         oneOf
           [ braces (many (sym .tokenTree)),
             inOrder
               [ oneOf [parens (many (sym .tokenTree)), brackets (many (sym .tokenTree))],
                 mark ";" ] ] ])

/-- An implementation of a type, or of a trait for a type. The functions of a constant
implementation are not recorded. -/
def implementation : R :=
  let heading : R := inOrder [opt (word "default"), opt (word "unsafe"), word "impl", generics]
  let implemented : R :=
    oneOf [inOrder [opt (mark "!"), type, word "for", role .type type], role .type type]
  oneOf
    [ node .declaration (inOrder [heading, word "const", implemented, whereClause, members]),
      node .implementation (inOrder [heading, implemented, whereClause, members]) ]

/-- The declarations of a file or a module. -/
def items : R := many (oneOf [sym .item, inOrder [attributes, macroItem]])

/-- The declarations. -/
def item : R :=
  inOrder
    [ attributes,
      visibility,
      oneOf
        [ sym .function,
          constant,
          node .module
            (inOrder
               [ opt (word "unsafe"),
                 word "mod",
                 role .name name,
                 oneOf [mark ";", braces (inOrder [innerAttributes, items])] ]),
          implementation,
          node .trait
            (inOrder
               [ opt (word "unsafe"),
                 opt (word "auto"),
                 word "trait",
                 role .name name,
                 generics,
                 opt (inOrder [mark ":", sym .bounds]),
                 whereClause,
                 oneOf [inOrder [mark "=", sym .bounds, whereClause, mark ";"], members] ]),
          node .declaration
            (inOrder
               [ word "struct",
                 kind .name,
                 generics,
                 oneOf
                   [ inOrder [whereClause, oneOf [namedFields, mark ";"]],
                     inOrder [numberedFields, whereClause, mark ";"] ] ]),
          node .declaration
            (inOrder
               [ word "enum",
                 kind .name,
                 generics,
                 whereClause,
                 braces (opt (commas variant)) ]),
          node .declaration
            (inOrder [word "union", kind .name, generics, whereClause, namedFields]),
          node .declaration
            (inOrder
               [ word "use",
                 many1 (inOrder [notAhead (mark ";"), sym .tokenTree]),
                 mark ";" ]),
          node .declaration
            (inOrder
               [ word "extern",
                 word "crate",
                 oneOf [kind .name, word "self"],
                 opt (inOrder [word "as", oneOf [kind .name, word "_"]]),
                 mark ";" ]),
          node .declaration
            (inOrder [opt (word "unsafe"), word "extern", opt (kind .text), members]),
          node .declaration
            (inOrder
               [ word "macro",
                 kind .name,
                 opt (parens (many (sym .tokenTree))),
                 braces (many (sym .tokenTree)) ]) ] ]

/-- A member of an implementation, a trait or a foreign block. -/
def member : R :=
  inOrder
    [ attributes,
      visibility,
      opt (inOrder [word "default", notAhead (mark "!")]),
      oneOf [sym .function, constant, macroItem] ]

/-! ### Statements -/

/-- A condition and a block. -/
def conditional (w : String) : R := inOrder [word w, sym (.expression .header), sym .block]

/-- A conditional expression. -/
def ifExpression : R :=
  node .ifExpression
    (inOrder [conditional "if", opt (inOrder [word "else", oneOf [sym .braced, sym .block]])])

/-- An arm of a match expression. -/
def arm : R :=
  let ended : R := oneOf [mark ",", ahead (mark "\x7d")]
  node .arm
    (inOrder
       [ attributes,
         sym .pattern,
         opt (node .guard (inOrder [word "if", expression])),
         mark "=>",
         oneOf
           [ inOrder [sym .braced, notAhead (oneMark [".", "?"]), opt (mark ",")],
             inOrder [expression, ended] ] ])

/-- A loop, perhaps with a label. -/
def loop : R :=
  let label : R := opt (inOrder [lifetime, mark ":"])
  oneOf
    [ node .whileExpression (inOrder [label, conditional "while"]),
      node .forExpression
        (inOrder
           [ label,
             word "for",
             sym .pattern,
             word "in",
             sym (.expression .header),
             sym .block ]),
      node .loopExpression (inOrder [label, word "loop", sym .block]),
      node .group (inOrder [lifetime, mark ":", sym .block]) ]

/-- The expressions that end with a curly bracket and may stand as statements. -/
def braced : R :=
  oneOf
    [ ifExpression,
      node .matchExpression
        (inOrder
           [ word "match",
             sym (.expression .header),
             braces (inOrder [innerAttributes, many arm]) ]),
      loop,
      node .group (inOrder [oneWord ["unsafe", "const", "try"], sym .block]),
      sym .block ]

/-- Where an expression in curly brackets starts. -/
def bracedAhead : R :=
  ahead
    (oneOf
       [ oneWord ["if", "match", "while", "loop"],
         inOrder [word "for", notAhead (head "<")],
         inOrder [lifetime, mark ":"],
         inOrder [oneWord ["unsafe", "const", "try"], mark "\x7b"],
         mark "\x7b" ])

/-- The statements. -/
def statement : R :=
  let ended : R := oneOf [mark ";", ahead (mark "\x7d")]
  oneOf
    [ mark ";",
      inOrder
        [ attributes,
          node .group
            (inOrder
               [ word "let",
                 sym .pattern,
                 opt (inOrder [mark ":", type]),
                 opt (inOrder [mark "=", expression, opt (inOrder [word "else", sym .block])]),
                 mark ";" ]) ],
      sym .item,
      node .declaration
        (inOrder [attributes, sym .path, mark "!", kind .name, delimited, opt (mark ";")]),
      inOrder
        [ attributes,
          node .macroCall (inOrder [sym .path, mark "!", braces (many (sym .tokenTree))]),
          notAhead (oneMark [".", "?"]),
          opt (mark ";") ],
      inOrder
        [ attributes,
          bracedAhead,
          sym .braced,
          notAhead (oneMark [".", "?"]),
          opt (mark ";") ],
      inOrder [attributes, expression, ended] ]

/-! ### Expressions -/

/-- Operands with operators between them; comparisons take at most one. -/
def infixChain (level : Nat) (operand : R) (marks : List String) : R :=
  let operation : R :=
    wrap .binary .operand (inOrder [role .operator (node .operator (oneMark marks)), operand])
  inOrder [operand, if level = comparisonLevel then opt operation else many operation]

/-- What may follow an operand. -/
def access : R :=
  oneOf
    [ wrap .group .operand (inOrder [mark ".", word "await"]),
      wrap .methodCall .operand
        (inOrder
           [ mark ".",
             role .member name,
             opt (inOrder [mark "::", node .group genericArguments]),
             parens (opt (commas (sym .argument))) ]),
      wrap .group .operand (inOrder [mark ".", oneOf [name, kind .number]]),
      wrap .call .callee (parens (opt (commas (sym .argument)))),
      wrap .group .operand (brackets expression),
      wrap .group .operand (mark "?") ]

/-- The values of the fields of a structure. -/
def fieldValues : R :=
  let field : R :=
    inOrder [attributes, oneOf [kind .name, kind .number], opt (inOrder [mark ":", expression])]
  braces
    (inOrder
       [ opt (inOrder [sepBy1 field (mark ","), opt (mark ",")]),
         opt (inOrder [mark "..", opt expression]) ])

/-- A function without a name. -/
def closure (p : Place) : R :=
  let parameter : R := inOrder [attributes, sym .patternAtom, opt (inOrder [mark ":", type])]
  node .closure
    (inOrder
       [ forLifetimes,
         opt (word "const"),
         opt (word "static"),
         opt (word "async"),
         opt (word "move"),
         oneOf [mark "||", inOrder [mark "|", opt (commas parameter), mark "|"]],
         oneOf [inOrder [mark "->", type, sym .block], sym (.expression p)] ])

/-- Where an expression at a place cannot start. -/
def noExpression (p : Place) : R :=
  match p with
  | .free => oneOf [oneMark [")", "]", "\x7d", ",", ";", "=>"], kind .stray]
  | .header => oneMark ["\x7b", ")", "]", "\x7d", ",", ";", "=>"]

/-- An operand that may be left out. -/
def optExpression (p : Place) (e : R) : R := opt (inOrder [notAhead (noExpression p), e])

/-- The operands at a place. -/
def atomRule (p : Place) : R :=
  let fields : List R :=
    match p with
    | .free => [wrap .group .type fieldValues]
    | .header => []
  oneOf
    [ node .literal (oneOf [kind .number, kind .text, kind .letter]),
      node .literal (oneWord ["true", "false"]),
      inOrder [bracedAhead, sym .braced],
      inOrder
        [ sym .path,
          opt
            (oneOf
               (wrap .macroCall .operand (inOrder [mark "!", node .group delimited]) :: fields)) ],
      node .group (parens (inOrder [innerAttributes, opt (commas (sym .argument))])),
      node .group
        (brackets
           (inOrder
              [ innerAttributes,
                opt
                  (oneOf
                    [inOrder [sym .argument, mark ";", expression], commas (sym .argument)]) ])),
      node .group (inOrder [word "async", opt (word "move"), sym .block]),
      closure p,
      node .group (inOrder [word "return", optExpression p (sym (.expression p))]),
      node .group (inOrder [word "break", opt lifetime, optExpression p (sym (.expression p))]),
      node .group (inOrder [word "continue", opt lifetime]),
      node .group (inOrder [word "yield", optExpression p (sym (.expression p))]),
      node .group
        (inOrder [word "let", sym .pattern, mark "=", sym (.binary .header comparisonLevel)]),
      node .group (word "_") ]

/-- What each symbol stands for. -/
def rule : Symbol → R
  | .file => node .file (inOrder [innerAttributes, items])
  | .attributes =>
    many (oneOf [kind .docBefore, inOrder [mark "#", brackets (many (sym .tokenTree))]])
  | .tokenTree => tokenTree
  | .item => item
  | .member => member
  | .function => function
  | .block => node .block (braces (inOrder [innerAttributes, many (sym .statement)]))
  | .statement => statement
  | .braced => braced
  | .pattern => pattern
  | .patternAtom => patternAtom
  | .type => typeRule
  | .bounds => bounds
  | .genericArgument => genericArgument
  | .genericParameters => genericParameters
  | .pathInType => pathInType
  | .path => path
  | .expression p =>
    inOrder
      [ sym (.range p),
        opt (wrap .binary .operand (inOrder [oneMark assigning, sym (.expression p)])) ]
  | .range p =>
    let rangeMark : R := oneMark ["..=", ".."]
    let bound : R := optExpression p (sym (.binary p 0))
    oneOf
      [ node .group (inOrder [rangeMark, bound]),
        inOrder [sym (.binary p 0), opt (wrap .group .operand (inOrder [rangeMark, bound]))] ]
  | .binary p level =>
    match operators[level]? with
    | some marks => infixChain level (sym (.binary p (level + 1))) marks
    | none => inOrder [sym (.unary p), many (wrap .group .operand (inOrder [word "as", type]))]
  | .unary p =>
    oneOf
      [ node .group
          (inOrder
             [ head "&",
               opt (inOrder [word "raw", oneWord ["const", "mut"]]),
               opt (word "mut"),
               sym (.unary p) ]),
        node .group (inOrder [oneMark ["*", "!", "-"], sym (.unary p)]),
        sym (.primary p) ]
  | .primary p => inOrder [attributes, sym (.atom p), many access]
  | .atom p => atomRule p
  | .argument => expression

/-- **The grammar of Rust.** -/
def grammar : Grammar Symbol Kind :=
  ⟨rule, .file⟩

end Dossier.Syntax.Rust
