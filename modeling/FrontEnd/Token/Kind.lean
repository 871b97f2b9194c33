import FrontEnd.Operator

set_option autoImplicit false

/-! # Kinds of tokens

A token is a reserved word (a `Keyword` or the name of a `BuiltinType`), a `Mark` of punctuation,
an operator, or one of six categories whose text varies. Words, marks and operators have one
spelling each (`Kind.spelling`); for the categories `Kind.spelling` is the name of the category.
`Kind.name` is the short name under which a listing of tokens shows a kind.
-/

namespace FrontEnd

/-- The reserved words that are not the names of types. -/
inductive Keyword where
  | fnWord | mdWord | test | skip | ifWord | elif | elseWord | inWord | asWord | cast | recast
  | autoCast | struct | impl | constImpl | endImpl | does | behavior | enum | defer | deferErr
  | restrict | typedef | forWord | whileWord | untilWord | whenWord | goto | breakWord
  | continueWord | returnWord | tryWord | trueWord | falseWord | letWord | valWord | constWord
  | new | delete | useWord | usingWord | namespaceWord | package | api | externWord | sizeOf
  | alignOf | typeOf | typeidOf | typeinfoOf | typeFrom | nameOf | assert | assertDb
  | null | undefined | unused
deriving DecidableEq, Repr

namespace Keyword

/-- The word itself. -/
def spelling : Keyword → String
  | fnWord => "fn"
  | mdWord => "md"
  | test => "test"
  | skip => "skip"
  | ifWord => "if"
  | elif => "elif"
  | elseWord => "else"
  | inWord => "in"
  | asWord => "as"
  | cast => "cast"
  | recast => "recast"
  | autoCast => "auto_cast"
  | struct => "struct"
  | impl => "impl"
  | constImpl => "constimpl"
  | endImpl => "endimpl"
  | does => "does"
  | behavior => "behavior"
  | enum => "enum"
  | defer => "defer"
  | deferErr => "defer_err"
  | restrict => "restrict"
  | typedef => "typedef"
  | forWord => "for"
  | whileWord => "while"
  | untilWord => "until"
  | whenWord => "when"
  | goto => "goto"
  | breakWord => "break"
  | continueWord => "continue"
  | returnWord => "return"
  | tryWord => "try"
  | trueWord => "true"
  | falseWord => "false"
  | letWord => "let"
  | valWord => "val"
  | constWord => "const"
  | new => "new"
  | delete => "delete"
  | useWord => "use"
  | usingWord => "using"
  | namespaceWord => "namespace"
  | package => "package"
  | api => "api"
  | externWord => "extern"
  | sizeOf => "size_of"
  | alignOf => "align_of"
  | typeOf => "type_of"
  | typeidOf => "typeid_of"
  | typeinfoOf => "typeinfo_of"
  | typeFrom => "type_from"
  | nameOf => "name_of"
  | assert => "assert"
  | assertDb => "assert_db"
  | null => "null"
  | undefined => "undefined"
  | unused => "unused"

/-- The name of the word in a listing. -/
def name : Keyword → String
  | fnWord => "Fn"
  | mdWord => "Md"
  | test => "Test"
  | skip => "Skip"
  | ifWord => "If"
  | elif => "Elif"
  | elseWord => "Else"
  | inWord => "In"
  | asWord => "As"
  | cast => "Cast"
  | recast => "Recast"
  | autoCast => "AutoCast"
  | struct => "Struct"
  | impl => "Impl"
  | constImpl => "ConstImpl"
  | endImpl => "EndImpl"
  | does => "Does"
  | behavior => "Behavior"
  | enum => "Enum"
  | defer => "Defer"
  | deferErr => "DeferErr"
  | restrict => "Restrict"
  | typedef => "Typedef"
  | forWord => "For"
  | whileWord => "While"
  | untilWord => "Until"
  | whenWord => "When"
  | goto => "Goto"
  | breakWord => "Break"
  | continueWord => "Continue"
  | returnWord => "Return"
  | tryWord => "Try"
  | trueWord => "True"
  | falseWord => "False"
  | letWord => "Let"
  | valWord => "Val"
  | constWord => "Const"
  | new => "New"
  | delete => "Delete"
  | useWord => "Use"
  | usingWord => "Using"
  | namespaceWord => "Namespace"
  | package => "Package"
  | api => "Api"
  | externWord => "Extern"
  | sizeOf => "SizeOf"
  | alignOf => "AlignOf"
  | typeOf => "TypeOf"
  | typeidOf => "TypeIdOf"
  | typeinfoOf => "TypeInfoOf"
  | typeFrom => "TypeFrom"
  | nameOf => "NameOf"
  | assert => "Assert"
  | assertDb => "AssertDb"
  | null => "Null"
  | undefined => "Undefined"
  | unused => "Unused"

/-- All keywords. -/
def all : List Keyword :=
  [fnWord, mdWord, test, skip, ifWord, elif, elseWord, inWord, asWord, cast, recast, autoCast,
    struct, impl, constImpl, endImpl, does, behavior, enum, defer, deferErr, restrict, typedef,
    forWord, whileWord, untilWord, whenWord, goto, breakWord, continueWord, returnWord, tryWord,
    trueWord, falseWord, letWord, valWord, constWord, new, delete, useWord, usingWord,
    namespaceWord, package, api, externWord, sizeOf, alignOf, typeOf, typeidOf, typeinfoOf,
    typeFrom, nameOf, assert, assertDb, null, undefined, unused]

end Keyword

/-- The types that the language names by reserved words. -/
inductive BuiltinType where
  | int | uint | float | double | string | cstring | char | bool
  | b8 | b16 | b32 | b64 | u8 | u16 | u32 | u64 | u128 | s8 | s16 | s32 | s64 | s128
  | f16 | f32 | f64 | f128 | void | rawptr | uintptr | typeid | anytype
deriving DecidableEq, Repr

namespace BuiltinType

/-- The word itself. -/
def spelling : BuiltinType → String
  | int => "int"
  | uint => "uint"
  | float => "float"
  | double => "double"
  | string => "string"
  | cstring => "cstring"
  | char => "char"
  | bool => "bool"
  | b8 => "b8"
  | b16 => "b16"
  | b32 => "b32"
  | b64 => "b64"
  | u8 => "u8"
  | u16 => "u16"
  | u32 => "u32"
  | u64 => "u64"
  | u128 => "u128"
  | s8 => "s8"
  | s16 => "s16"
  | s32 => "s32"
  | s64 => "s64"
  | s128 => "s128"
  | f16 => "f16"
  | f32 => "f32"
  | f64 => "f64"
  | f128 => "f128"
  | void => "void"
  | rawptr => "rawptr"
  | uintptr => "uintptr"
  | typeid => "typeid"
  | anytype => "__anytype"

/-- The name of the word in a listing. -/
def name : BuiltinType → String
  | int => "Int"
  | uint => "Uint"
  | float => "Float"
  | double => "Double"
  | string => "StringType"
  | cstring => "CStringType"
  | char => "CharType"
  | bool => "Bool"
  | b8 => "B8"
  | b16 => "B16"
  | b32 => "B32"
  | b64 => "B64"
  | u8 => "U8"
  | u16 => "U16"
  | u32 => "U32"
  | u64 => "U64"
  | u128 => "U128"
  | s8 => "S8"
  | s16 => "S16"
  | s32 => "S32"
  | s64 => "S64"
  | s128 => "S128"
  | f16 => "F16"
  | f32 => "F32"
  | f64 => "F64"
  | f128 => "F128"
  | void => "Void"
  | rawptr => "RawPtr"
  | uintptr => "UintPtr"
  | typeid => "TypeId"
  | anytype => "AnyType"

/-- All builtin types. -/
def all : List BuiltinType :=
  [int, uint, float, double, string, cstring, char, bool, b8, b16, b32, b64, u8, u16, u32, u64,
    u128, s8, s16, s32, s64, s128, f16, f32, f64, f128, void, rawptr, uintptr, typeid, anytype]

end BuiltinType

/-- Punctuation, and the operator signs that never stand between two operands. -/
inductive Mark where
  | colon | comma | semicolon | leftParen | rightParen | leftBrace | rightBrace | leftBracket
  | rightBracket | dot | closedRange | openRange | dotDot | atSign | hash | scope | define
  | defineConst | bang | tilde | arrow | leftArrow | question | questionDot
deriving DecidableEq, Repr

namespace Mark

/-- The characters of a mark. -/
def spelling : Mark → String
  | colon => ":"
  | comma => ","
  | semicolon => ";"
  | leftParen => "("
  | rightParen => ")"
  | leftBrace => "\x7b"
  | rightBrace => "\x7d"
  | leftBracket => "["
  | rightBracket => "]"
  | dot => "."
  | closedRange => "..="
  | openRange => "..<"
  | dotDot => ".."
  | atSign => "@"
  | hash => "#"
  | scope => "::"
  | define => ":="
  | defineConst => "::="
  | bang => "!"
  | tilde => "~"
  | arrow => "->"
  | leftArrow => "<-"
  | question => "?"
  | questionDot => "?."

/-- The name of a mark in a listing. -/
def name : Mark → String
  | colon => "Colon"
  | comma => "Comma"
  | semicolon => "Semicolon"
  | leftParen => "LParen"
  | rightParen => "RParen"
  | leftBrace => "LBrace"
  | rightBrace => "RBrace"
  | leftBracket => "LBracket"
  | rightBracket => "RBracket"
  | dot => "Dot"
  | closedRange => "ClosedRange"
  | openRange => "OpenRange"
  | dotDot => "DotDot"
  | atSign => "At"
  | hash => "Hash"
  | scope => "Scope"
  | define => "LetDecl"
  | defineConst => "ConstDecl"
  | bang => "Bang"
  | tilde => "BitNot"
  | arrow => "Arrow"
  | leftArrow => "LeftArrow"
  | question => "Question"
  | questionDot => "QuestionDot"

/-- All marks. -/
def all : List Mark :=
  [colon, comma, semicolon, leftParen, rightParen, leftBrace, rightBrace, leftBracket,
    rightBracket, dot, closedRange, openRange, dotDot, atSign, hash, scope, define, defineConst,
    bang, tilde, arrow, leftArrow, question, questionDot]

end Mark

/-- The kind of a token. -/
inductive Kind where
  | word (keyword : Keyword)
  | builtin (type : BuiltinType)
  | mark (mark : Mark)
  | operator (op : BinaryOp)
  | step (step : Step) (overflow : Overflow)
  | identifier
  | stringLiteral
  | charLiteral
  | number
  | invalid
  | endOfFile
deriving DecidableEq, Repr

namespace Kind

/-- The one spelling of a word, mark or operator; for the other kinds the name of the category. -/
def spelling : Kind → String
  | word w => w.spelling
  | builtin t => t.spelling
  | mark m => m.spelling
  | operator op => op.symbol
  | step s o => o.mark ++ s.symbol
  | identifier => "identifier"
  | stringLiteral => "string literal"
  | charLiteral => "character literal"
  | number => "number"
  | invalid => "invalid token"
  | endOfFile => "end of file"

/-- The kinds with a spelling of their own. -/
def isFixed : Kind → Bool
  | word _ | builtin _ | mark _ | operator _ | step _ _ => true
  | _ => false

/-- How a message refers to a kind: a spelling in quotes, or the plain name of a category. -/
def describe (k : Kind) : String :=
  if k.isFixed then "'" ++ k.spelling ++ "'" else k.spelling

/-- The names of the types that need no declaration. -/
def isBuiltinType : Kind → Bool
  | builtin _ => true
  | _ => false

/-- The level of a token that can continue an expression. -/
def level? : Kind → Option Nat
  | operator op => some op.level
  | step _ _ => some Step.level
  | _ => none

/-- The tokens that stand behind a single operand. -/
def isStep : Kind → Bool
  | step _ _ => true
  | _ => false

/-- The operator between two operands that a token stands for. -/
def binaryOp? : Kind → Option BinaryOp
  | operator op => some op
  | _ => none

/-- The tokens that group from right to left. -/
def groupsRight : Kind → Bool
  | operator op => op.groupsRight
  | _ => false

end Kind

/-! ## Names in a listing -/

/-- The ending that a flavour of overflow adds to a name. -/
def Overflow.nameEnding : Overflow → String
  | plain => ""
  | wrapping => "Wrap"
  | saturating => "Sat"

/-- The name of an operator in a listing. -/
def BinaryOp.name : BinaryOp → String
  | add o => "Add" ++ o.nameEnding
  | sub o => "Sub" ++ o.nameEnding
  | mul o => "Mul" ++ o.nameEnding
  | div => "Div"
  | mod => "Mod"
  | shl o => "Shl" ++ o.nameEnding
  | shr => "Shr"
  | lt => "Lt"
  | le => "LtEq"
  | gt => "Gt"
  | ge => "GtEq"
  | eq => "Eq"
  | ne => "NotEq"
  | bitAnd => "BitAnd"
  | bitXor => "Caret"
  | bitOr => "BitOr"
  | and => "And"
  | or => "Or"
  | nullCoalesce => "NullCoalesce"
  | assign => "Assign"
  | addAssign o => "AddEq" ++ o.nameEnding
  | subAssign o => "SubEq" ++ o.nameEnding
  | mulAssign o => "MulEq" ++ o.nameEnding
  | divAssign => "DivEq"
  | modAssign => "ModEq"
  | shlAssign o => "ShlEq" ++ o.nameEnding
  | shrAssign => "ShrEq"
  | bitAndAssign => "BitAndEq"
  | bitOrAssign => "BitOrEq"
  | bitXorAssign => "BitXorEq"
  | orAssign => "OrEq"
  | nullCoalesceAssign => "NullCoalesceEq"

/-- The name of a step in a listing, without its flavour. -/
def Step.name : Step → String
  | increment => "Inc"
  | decrement => "Dec"

namespace Kind

/-- The name of a kind in a listing. -/
def name : Kind → String
  | word w => w.name
  | builtin t => t.name
  | mark m => m.name
  | operator op => op.name
  | step s o => s.name ++ o.nameEnding
  | identifier => "Ident"
  | stringLiteral => "StringLit"
  | charLiteral => "CharLit"
  | number => "Number"
  | invalid => "Error"
  | endOfFile => "Eof"

/-- All kinds. -/
def all : List Kind :=
  Keyword.all.map word ++ BuiltinType.all.map builtin ++ Mark.all.map mark ++
    BinaryOp.all.map operator ++ Step.all.flatMap (fun s => Overflow.all.map (step s)) ++
    [identifier, stringLiteral, charLiteral, number, invalid, endOfFile]

/-- The kind that a listing shows under a name. -/
def ofName? (name : String) : Option Kind := all.find? (·.name == name)

end Kind

end FrontEnd
