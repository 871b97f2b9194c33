import FrontEnd.Token.Kind

set_option autoImplicit false

/-! # Reserved words

Every keyword and every builtin type is a reserved word; any other word is an identifier. Words are
compared as bytes. To find the kind of a word, only the reserved words with the same first byte are
looked at, which stand together in one `WordGroup`, and of these only those of the same length are
compared with it byte by byte.
-/

namespace FrontEnd

/-- The reserved words with their kinds. -/
def reservedWords : List (String × Kind) :=
  [("__anytype", .builtin .anytype), ("align_of", .word .alignOf), ("api", .word .api),
    ("as", .word .asWord), ("assert", .word .assert), ("assert_db", .word .assertDb),
    ("auto_cast", .word .autoCast), ("b8", .builtin .b8), ("b16", .builtin .b16),
    ("b32", .builtin .b32), ("b64", .builtin .b64), ("behavior", .word .behavior),
    ("bool", .builtin .bool), ("break", .word .breakWord), ("cast", .word .cast),
    ("char", .builtin .char), ("const", .word .constWord), ("constimpl", .word .constImpl),
    ("continue", .word .continueWord), ("cstring", .builtin .cstring), ("defer", .word .defer),
    ("defer_err", .word .deferErr), ("delete", .word .delete), ("does", .word .does),
    ("double", .builtin .double), ("elif", .word .elif), ("else", .word .elseWord),
    ("endimpl", .word .endImpl), ("enum", .word .enum), ("extern", .word .externWord),
    ("f16", .builtin .f16), ("f32", .builtin .f32), ("f64", .builtin .f64),
    ("f128", .builtin .f128), ("false", .word .falseWord), ("float", .builtin .float),
    ("fn", .word .fnWord), ("for", .word .forWord), ("goto", .word .goto), ("if", .word .ifWord),
    ("impl", .word .impl), ("in", .word .inWord), ("int", .builtin .int), ("let", .word .letWord),
    ("md", .word .mdWord), ("name_of", .word .nameOf), ("namespace", .word .namespaceWord),
    ("new", .word .new), ("null", .word .null), ("package", .word .package),
    ("rawptr", .builtin .rawptr), ("recast", .word .recast), ("restrict", .word .restrict),
    ("return", .word .returnWord), ("s8", .builtin .s8), ("s16", .builtin .s16),
    ("s32", .builtin .s32), ("s64", .builtin .s64), ("s128", .builtin .s128),
    ("size_of", .word .sizeOf), ("skip", .word .skip), ("string", .builtin .string),
    ("struct", .word .struct), ("test", .word .test), ("true", .word .trueWord),
    ("try", .word .tryWord), ("type_from", .word .typeFrom), ("type_of", .word .typeOf),
    ("typedef", .word .typedef), ("typeid", .builtin .typeid), ("typeid_of", .word .typeidOf),
    ("typeinfo_of", .word .typeinfoOf), ("u8", .builtin .u8), ("u16", .builtin .u16),
    ("u32", .builtin .u32), ("u64", .builtin .u64), ("u128", .builtin .u128),
    ("uint", .builtin .uint), ("uintptr", .builtin .uintptr), ("undefined", .word .undefined),
    ("until", .word .untilWord), ("unused", .word .unused), ("use", .word .useWord),
    ("using", .word .usingWord), ("val", .word .valWord), ("void", .builtin .void),
    ("when", .word .whenWord), ("while", .word .whileWord)]

/-- The bytes of a word in UTF-8. -/
def wordBytes (word : String) : List UInt8 := word.toUTF8.data.toList

/-- The reserved words that start with one byte. -/
structure WordGroup where
  first : UInt8
  words : List (List UInt8 × Kind)

namespace WordGroup

/-- The groups with one more word, put at the end of the group that it belongs to. The empty word
belongs to none. -/
def insert (groups : List WordGroup) (word : List UInt8 × Kind) : List WordGroup :=
  match word.1 with
  | [] => groups
  | b :: _ => go b groups
where
  /-- The walk along the groups to the one for the byte `b`. -/
  go (b : UInt8) : List WordGroup → List WordGroup
    | [] => [⟨b, [word]⟩]
    | g :: rest =>
      if g.first = b then ⟨b, g.words ++ [word]⟩ :: rest else g :: go b rest

/-- The kind of the word of a group that has these bytes behind its first. All words of a group
start with the same byte, so that one is not compared. -/
def kindOf? (g : WordGroup) (tail : List UInt8) : Option Kind :=
  (g.words.find? fun word => word.1.length == tail.length + 1 && word.1.tail == tail).map (·.2)

/-- The kind that the groups give to a word. -/
def kind? (groups : List WordGroup) : List UInt8 → Option Kind
  | [] => none
  | b :: tail => (groups.find? (·.first == b)).bind (·.kindOf? tail)

end WordGroup

/-- The reserved words, grouped by their first bytes. -/
def wordGroups : List WordGroup :=
  (reservedWords.map fun word => (wordBytes word.1, word.2)).foldl WordGroup.insert []

/-- The kind of a word: that of the reserved word it is, or an identifier. -/
def wordKind (word : List Char) : Kind :=
  (WordGroup.kind? wordGroups (wordBytes (String.ofList word))).getD .identifier

end FrontEnd
