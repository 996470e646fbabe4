import Flowgraph.Syntax.Grammar
import Flowgraph.Syntax.Ecmascript.Token

/-!
# JavaScript and TypeScript

The grammar of JavaScript, with the types of TypeScript and the elements of JSX where the dialect has
them, as far as functions and calls depend on it. Operators are read without regard to their
precedence, and the inside of most types is read as balanced text.
-/

namespace Flowgraph.Ecmascript

open Grammar (Expr sign signNot optional)

/-- A dialect: whether it has types, and whether it has elements. -/
structure Dialect where
  types : Bool
  elements : Bool

def Dialect.javaScript : Dialect := ⟨false, true⟩

def Dialect.typeScript : Dialect := ⟨true, false⟩

def Dialect.tsx : Dialect := ⟨true, true⟩

/-- The nonterminals. The flag of an expression says that its arrow functions have no result types. -/
inductive Rule where
  | statement
  | block
  | expression
  | assignment (untyped : Bool)
  | operand (untyped : Bool)
  | atom (untyped : Bool)
  | link
  | call
  | template
  | object
  | array
  | classBody
  | parameters
  | element
  | type
  | typeOperand
  | typeArguments

abbrev E := Expr Rule

/-! ## Pieces -/

def kw (w : String) : E := Grammar.keyword isNamePart w

def name : E := .token nameLength

def word : E := .token wordLength

def string : E := .token stringLength

def group (opening : Char) : E := .token (groupLength opening)

def commaList (item : E) : E := .seq [optional item, .many (.seq [sign ",", optional item])]

def braced (part : E) : E := .seq [sign "\x7b", part, sign "\x7d"]

def parenthesized (part : E) : E := .seq [sign "(", part, sign ")"]

def semicolon : E := optional (sign ";")

def value : E := .rule (.assignment false)

/-- One of the given characters. -/
def oneOf (chars : List Char) : E :=
  .token fun s =>
    match s with
    | c :: _ => if chars.contains c then 1 else 0
    | [] => 0

/-- `part`, if the dialect has it. -/
def provided (has : Bool) (part : E) : E := if has then part else .choice []

/-- A character that no rule covers, inside braces. -/
def skipped : E := .seq [.absent (sign "\x7d"), .token fun s => if s.isEmpty then 0 else 1]

/-- Text up to one of the given signs. -/
def textBefore (stops : List Char) : E := .token (balancedLength fun c => stops.contains c)

/-! ## Types -/

def typeParameters : E :=
  .seq [sign "<", commaList (.seq [
    .many (.seq [.choice [kw "const", kw "in", kw "out"], .ahead word]), word,
    optional (.seq [kw "extends", .rule .type]), optional (.seq [sign "=", .rule .type])]), sign ">"]

/-- The type of a result, which may be a predicate. -/
def resultType : E :=
  .choice [
    .seq [kw "asserts", .sameLine, word, optional (.seq [kw "is", .rule .type])],
    .seq [word, kw "is", .rule .type],
    .rule .type]

/-- A union or intersection, with branches behind `extends`. -/
def types : E :=
  .seq [optional (.choice [sign "|", sign "&"]), .rule .typeOperand,
    .many (.seq [.choice [signNot "|" "|", signNot "&" "&"], .rule .typeOperand]),
    optional (.seq [kw "extends", .rule .type,
      optional (.seq [signNot "?" ".", .rule .type, sign ":", .rule .type])])]

def typeOperands : E :=
  .seq [
    .choice [
      .seq [optional typeParameters, group '(', sign "=>", resultType],
      .seq [optional (kw "abstract"), kw "new", optional typeParameters, group '(', sign "=>",
        .rule .type],
      .seq [.choice [kw "keyof", kw "unique", kw "readonly", kw "infer"],
        .ahead (.choice [word, oneOf ['(', '{', '[', '"', '\'', '\x60']]), .rule .typeOperand],
      .seq [kw "typeof", .choice [
        .seq [.node "call_expression" (.seq [.field "function" (.node "import" (kw "import")),
          group '(']), path],
        .seq [word, path]]],
      .seq [kw "import", group '(', path],
      group '(', group '{', group '[',
      string, .token templateLength, .seq [optional (sign "-"), .token numberLength],
      .seq [word, path]],
    .many (.seq [.sameLine, sign "[", optional (.rule .type), sign "]"])]
where
  path : E :=
    .seq [.many (.seq [sign ".", .choice [word, .token privateNameLength]]),
      optional (.seq [.sameLine, .rule .typeArguments])]

def typeAnnotation (d : Dialect) : E := optional (provided d.types (.seq [sign ":", .rule .type]))

def resultAnnotation (d : Dialect) : E := optional (provided d.types (.seq [sign ":", resultType]))

def optionalTypeParameters (d : Dialect) : E := optional (provided d.types typeParameters)

def optionalTypeArguments (d : Dialect) : E := optional (provided d.types (.rule .typeArguments))

/-! ## Functions -/

def decorators : E := .many (.seq [sign "@", .rule (.operand false)])

/-- A name, or a pattern that takes a value apart. -/
def target : E := .choice [name, .rule .object, .rule .array]

def initializer : E := optional (.seq [signNot "=" "=>", value])

/-- A word in front of a member, unless it is the name of the member itself. -/
def modifier (words : List String) : E :=
  .seq [.choice (words.map kw), .absent (oneOf ['(', '=', ';', ',', ':', '?', '!', '<', '}'])]

def parameter (d : Dialect) : E :=
  .seq [decorators,
    .many (provided d.types (.seq [
      modifier ["public", "private", "protected", "readonly", "override"], .ahead target])),
    optional (sign "..."), target, optional (provided d.types (sign "?")), typeAnnotation d,
    initializer]

def signature (d : Dialect) : E :=
  .seq [optionalTypeParameters d, .rule .parameters, resultAnnotation d]

def functionHead (starred : Bool) : E :=
  .seq [optional (.seq [kw "async", .sameLine]), kw "function",
    if starred then sign "*" else .absent (sign "*")]

def functionDeclaration (d : Dialect) : E :=
  .choice [
    .node "function_declaration" (.seq [functionHead false, .field "name" (.node "identifier" name),
      signature d, .rule .block]),
    .node "generator_function_declaration" (.seq [functionHead true,
      .field "name" (.node "identifier" name), signature d, .rule .block]),
    provided d.types (.seq [functionHead false, name, signature d, semicolon])]

def functionExpression (d : Dialect) : E :=
  .choice [
    .node "function_expression" (.seq [functionHead false, optional name, signature d, .rule .block]),
    .node "generator_function" (.seq [functionHead true, optional name, signature d, .rule .block])]

def arrowFunction (d : Dialect) (untyped : Bool) : E :=
  .node "arrow_function" (.choice [.seq [kw "async", .sameLine, arrow], arrow])
where
  arrow : E :=
    .seq [.choice [
        .seq [name, sign "=>"],
        .seq [optionalTypeParameters d, .rule .parameters,
          if untyped then .seq [] else resultAnnotation d, sign "=>"]],
      .choice [.rule .block, .rule (.assignment untyped)]]

/-- What makes a function in front of it a part of a larger expression. -/
def continuation (d : Dialect) : E :=
  .choice [.rule .link, .rule .call,
    oneOf ['?', '*', '/', '%', '&', '|', '^', '<', '>', '='], signNot "+" "+", signNot "-" "-",
    sign "!=", kw "instanceof", kw "in",
    provided d.types (.seq [.sameLine, .choice [kw "as", kw "satisfies"]])]

/-- The value given to a name: a function where it is nothing else, or an expression. -/
def namedValue (d : Dialect) : E :=
  .choice [
    .seq [.field "value" (.choice [arrowFunction d false, functionExpression d]),
      .absent (continuation d)],
    .field "value" (.node "expression" value)]

/-! ## Classes and objects -/

def memberName : E :=
  .node "property" (.choice [word, .token privateNameLength, string, .token numberLength,
    .seq [sign "[", value, sign "]"]])

def memberModifiers : E :=
  .many (modifier ["static", "async", "get", "set", "public", "private", "protected", "override",
    "readonly", "declare", "abstract", "accessor"])

def methodHead (d : Dialect) : E :=
  .seq [memberModifiers, optional (sign "*"), .field "name" memberName,
    optional (provided d.types (sign "?")), signature d]

def method (d : Dialect) : E := .node "method_definition" (.seq [methodHead d, .rule .block])

def fieldValue (d : Dialect) : E := optional (.seq [signNot "=" "=>", namedValue d])

/-- A member of a class. The decorators of a method are part of it unless the dialect has types. -/
def classMember (d : Dialect) : E :=
  .choice [
    sign ";",
    .seq [kw "static", .rule .block],
    if d.types then .seq [decorators, method d]
    else .node "method_definition" (.seq [decorators, methodHead d, .rule .block]),
    provided d.types (.seq [memberModifiers, sign "[", word, sign ":", .rule .type, sign "]",
      typeAnnotation d]),
    provided d.types (.seq [decorators, methodHead d]),
    if d.types then
      .node "public_field_definition" (.seq [decorators, memberModifiers, .field "name" memberName,
        optional (oneOf ['?', '!']), typeAnnotation d, fieldValue d])
    else
      .node "field_definition" (.seq [decorators, memberModifiers, .field "property" memberName,
        fieldValue d])]

def classDefinition (d : Dialect) : E :=
  .seq [decorators, optional (provided d.types (kw "abstract")), kw "class",
    optional (.seq [.absent (.choice [kw "extends", kw "implements"]), name]),
    optionalTypeParameters d,
    optional (.seq [kw "extends", commaList (.seq [.rule (.operand false),
      optionalTypeArguments d])]),
    optional (provided d.types (.seq [kw "implements", commaList (.rule .type)])),
    .rule .classBody]

def objectMember (d : Dialect) : E :=
  .choice [
    .seq [sign "...", value],
    method d,
    .seq [memberName, sign ":", value],
    .seq [name, initializer]]

/-! ## Expressions -/

def argumentList : E := parenthesized (commaList (.seq [optional (sign "..."), value]))

/-- What extends an expression without calling it. -/
def links (d : Dialect) : E :=
  .choice [
    .seq [.choice [sign "?.", sign "."], .choice [word, .token privateNameLength]],
    .seq [optional (sign "?."), sign "[", .rule .expression, sign "]"],
    provided d.types (.seq [.sameLine, signNot "!" "="])]

/-- What calls an expression: arguments, or a template it is the tag of. -/
def calls (d : Dialect) : E :=
  .choice [
    argumentList,
    .rule .template,
    .seq [sign "?.", argumentList],
    provided d.types (.seq [optional (sign "?."), .rule .typeArguments,
      .choice [argumentList, .rule .template]])]

def infixOperator : E :=
  .choice [
    .choice ((["===", "!==", "**=", "<<=", ">>>=", ">>=", "&&=", "||=", "??=", "+=", "-=", "*=",
      "/=", "%=", "&=", "|=", "^=", "==", "!=", ">>>", "<<", ">>", "<=", ">=", "&&", "||", "??",
      "**", "*", "/", "%", "&", "|", "^", "<", ">"]).map sign),
    signNot "=" ">", signNot "+" "+", signNot "-" "-", kw "instanceof", kw "in"]

/-- The part of an expression behind an operand. -/
def operation (d : Dialect) (untyped : Bool) : E :=
  .choice [
    .seq [.sameLine, .choice [sign "++", sign "--"]],
    provided d.types (.seq [.sameLine, .choice [kw "as", kw "satisfies"],
      .choice [kw "const", .rule .type]]),
    .seq [infixOperator, .rule (.operand untyped)],
    .seq [sign "?", .rule (.assignment false), sign ":", .rule (.assignment untyped)],
    .seq [sign "?", .rule (.assignment true), sign ":", .rule (.assignment untyped)]]

def newExpression (d : Dialect) : E :=
  .choice [
    .seq [kw "new", sign ".", word],
    .node "new_expression" (.seq [kw "new",
      .field "constructor" (.node "expression" (.seq [.rule (.atom false), .many (.rule .link)])),
      optionalTypeArguments d, optional argumentList])]

def templates : E :=
  .seq [sign "\x60",
    .many (.choice [.adjacent templateTextLength,
      .seq [.adjacent (Grammar.literalLength ['$', '{']), .rule .expression, sign "\x7d"]]),
    .adjacent (Grammar.literalLength ['\x60'])]

/-- The contents of an element, up to and with its closing tag. -/
def elementContents : E :=
  .seq [sign ">",
    .many (.choice [.adjacent elementTextLength,
      braced (optional (.seq [optional (sign "..."), .rule .expression])),
      .rule .element]),
    sign "<", sign "/", optional (.token tagNameLength), sign ">"]

/-- An element with its attributes and contents, or a fragment. -/
def elements (d : Dialect) : E :=
  .seq [sign "<", .choice [
    elementContents,
    .seq [.token tagNameLength, optionalTypeArguments d,
      .many (.choice [
        braced (.seq [sign "...", value]),
        .seq [.token tagNameLength, optional (.seq [sign "=",
          .choice [.token attributeStringLength, braced (optional (.rule .expression)),
            .rule .element]])]]),
      .choice [.seq [sign "/", sign ">"], elementContents]]]]

def prefixOperator : E :=
  .choice [sign "++", sign "--", sign "!", sign "~", sign "+", sign "-", kw "typeof", kw "void",
    kw "delete", kw "await"]

def operands (d : Dialect) (untyped : Bool) : E :=
  .choice [
    .seq [prefixOperator, .rule (.operand untyped)],
    .seq [kw "yield", optional (.seq [.sameLine, optional (sign "*"),
      .rule (.assignment untyped)])],
    provided (d.types && !d.elements) (.seq [.absent (arrowFunction d untyped), sign "<",
      .choice [kw "const", .rule .type], sign ">", .rule (.operand untyped)]),
    .postfixed (.rule (.atom untyped)) (.rule .link) (.rule .call) "call_expression" "function"]

def atoms (d : Dialect) (untyped : Bool) : E :=
  .choice [
    arrowFunction d untyped,
    functionExpression d,
    classDefinition d,
    newExpression d,
    .seq [kw "import", .ahead (oneOf ['(', '.'])],
    name,
    .token privateNameLength,
    .token numberLength,
    string,
    .rule .template,
    parenthesized (.rule .expression),
    .rule .array,
    .rule .object,
    .token regexLength,
    provided d.elements (.rule .element)]

/-! ## Statements -/

def declarator (d : Dialect) : E :=
  .node "variable_declarator" (.seq [.field "name" (.node "target" target),
    optional (provided d.types (sign "!")), typeAnnotation d,
    optional (.seq [signNot "=" "=>", namedValue d])])

def variableList (d : Dialect) : E :=
  .seq [.choice [kw "const", kw "var", .seq [kw "let", .ahead target]],
    declarator d, .many (.seq [sign ",", declarator d])]

def importStatement (d : Dialect) : E :=
  .seq [kw "import", .absent (oneOf ['(', '.']), .choice [
    provided d.types (.seq [optional (.seq [kw "type", .ahead name]), name, sign "=",
      textBefore [';', '\n'], semicolon]),
    .seq [optional (textBefore ['"', '\'']), source, semicolon]]]
where
  source : E :=
    .seq [string, optional (.seq [.sameLine, .choice [kw "with", kw "assert"], group '{'])]

def exportStatement (d : Dialect) : E :=
  .seq [decorators, kw "export", .choice [
    .seq [optional (kw "type"), sign "*", optional (textBefore ['"', '\'']),
      importStatement.source, semicolon],
    .seq [optional (kw "type"), group '{',
      optional (.seq [kw "from", importStatement.source]), semicolon],
    .seq [kw "default", .choice [functionDeclaration d, classDefinition d,
      provided d.types (interfaceDeclaration d), .seq [value, semicolon]]],
    provided d.types (.seq [sign "=", .rule .expression, semicolon]),
    provided d.types (.seq [kw "as", kw "namespace", name, semicolon]),
    .rule .statement]]
where
  interfaceDeclaration (d : Dialect) : E :=
    .seq [kw "interface", name, optionalTypeParameters d,
      optional (.seq [kw "extends", commaList (.rule .type)]), group '{']

def typeStatements (d : Dialect) : E :=
  .choice [
    exportStatement.interfaceDeclaration d,
    .seq [kw "type", .sameLine, name, optionalTypeParameters d, sign "=", .rule .type, semicolon],
    .seq [optional (kw "const"), kw "enum", name,
      braced (commaList (.seq [memberName, initializer]))],
    .seq [.choice [kw "namespace", kw "module"], .sameLine,
      .choice [string, .seq [name, .many (.seq [sign ".", name])]], .choice [.rule .block, semicolon]],
    .seq [kw "declare", kw "global", .rule .block],
    .seq [kw "declare", .sameLine, .ahead word, .rule .statement]]

def forStatement (d : Dialect) : E :=
  .seq [kw "for", optional (kw "await"), parenthesized (.choice [
      .seq [optional (.choice [kw "const", kw "var", .seq [kw "let", .ahead target]]),
        .rule (.operand false), .choice [kw "of", kw "in"], .rule .expression],
      .seq [optional (.choice [variableList d, .rule .expression]), sign ";",
        optional (.rule .expression), sign ";", optional (.rule .expression)]]),
    .rule .statement]

def condition : E := parenthesized (.rule .expression)

def switchStatement : E :=
  .seq [kw "switch", condition, braced (.many (.seq [
    .choice [.seq [kw "case", .rule .expression], kw "default"], sign ":",
    .many (.seq [.absent (.choice [kw "case", kw "default"]),
      .choice [.rule .statement, skipped]])]))]

def tryStatement (d : Dialect) : E :=
  .seq [kw "try", .rule .block,
    optional (.seq [kw "catch", optional (parenthesized (.seq [target, typeAnnotation d])),
      .rule .block]),
    optional (.seq [kw "finally", .rule .block])]

def statements (d : Dialect) : E :=
  .choice [
    .rule .block,
    sign ";",
    importStatement d,
    exportStatement d,
    provided d.types (typeStatements d),
    .seq [variableList d, semicolon],
    functionDeclaration d,
    classDefinition d,
    .seq [kw "if", condition, .rule .statement, optional (.seq [kw "else", .rule .statement])],
    forStatement d,
    .seq [.choice [kw "while", kw "with"], condition, .rule .statement],
    .seq [kw "do", .rule .statement, kw "while", condition, semicolon],
    switchStatement,
    tryStatement d,
    .seq [.choice [kw "return", kw "throw"], optional (.seq [.sameLine, .rule .expression]),
      semicolon],
    .seq [.choice [kw "break", kw "continue"], optional (.seq [.sameLine, name]), semicolon],
    .seq [kw "debugger", semicolon],
    .seq [name, sign ":", .rule .statement],
    .seq [.rule .expression, semicolon]]

/-- The rules of the grammar in a dialect. -/
def rules (d : Dialect) : Rule → E
  | .statement => statements d
  | .block => braced (.many (.choice [.rule .statement, skipped]))
  | .expression => .seq [value, .many (.seq [sign ",", value])]
  | .assignment untyped => .seq [.rule (.operand untyped), .many (operation d untyped)]
  | .operand untyped => operands d untyped
  | .atom untyped => atoms d untyped
  | .link => links d
  | .call => calls d
  | .template => templates
  | .object => braced (commaList (objectMember d))
  | .array => .seq [sign "[", commaList (.seq [optional (sign "..."), value]), sign "]"]
  | .classBody => braced (.many (.choice [classMember d, skipped]))
  | .parameters => parenthesized (commaList (parameter d))
  | .element => elements d
  | .type => types
  | .typeOperand => typeOperands
  | .typeArguments => .seq [sign "<", commaList (.rule .type), sign ">"]

def grammar (d : Dialect) : Grammar Rule := ⟨fun _ => blanks, rules d⟩

/-- The syntax tree of a source text. -/
def readSource (d : Dialect) (source : String) : SyntaxTree :=
  Grammar.readText (grammar d) (.rule .statement) source

end Flowgraph.Ecmascript
