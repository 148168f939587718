import AiProxy.Lib.Regex

/-!
# The patterns of the redactor

The regular expressions of `redaction.rs`. What a pattern needs of the Unicode tables beyond ASCII is
a parameter (`Unicode`); white space is the property `White_Space`, and the case-insensitive
letters are those that fold to an ASCII letter.
-/

namespace AiProxy.Mcp

structure Unicode where
  toLowercase : Text → Text
  /-- `\w`. -/
  isWord : Char → Bool
  /-- `\d`. -/
  isDecimal : Char → Bool
  /-- Equality under simple case folding. -/
  simpleFold : Char → Char → Bool
  isWord_ascii : ∀ c : Char, c.toNat < 128 → isWord c = (c.isAlphanum || c == '_')
  isDecimal_ascii : ∀ c : Char, c.toNat < 128 → isDecimal c = c.isDigit

/-- `char::is_whitespace` and `\s`. -/
def isWhitespace (c : Char) : Bool :=
  (0x09 ≤ c.toNat && c.toNat ≤ 0x0d) || c.toNat == 0x20 || c.toNat == 0x85 || c.toNat == 0xa0 ||
    c.toNat == 0x1680 || (0x2000 ≤ c.toNat && c.toNat ≤ 0x200a) || c.toNat == 0x2028 ||
    c.toNat == 0x2029 || c.toNat == 0x202f || c.toNat == 0x205f || c.toNat == 0x3000

/-- A lower-case letter under `(?i)`: the long s folds to `s`, the Kelvin sign to `k`. -/
def foldsTo (c x : Char) : Bool :=
  x.toLower == c || (c == 's' && x.toNat == 0x17f) || (c == 'k' && x.toNat == 0x212a)

/-- A word under `(?i)`. -/
def word (s : String) : Regex := .all (s.toList.map fun c => .char (foldsTo c))

def oneOf (s : String) : Regex := .char fun c => s.toList.contains c

def noneOf (s : String) : Regex := .char fun c => !s.toList.contains c

/-- `\s*` -/
def spaces : Regex := .star (.char isWhitespace)

/-- `(?:[^"\\]|\\.)*` -/
def stringBody : Regex := .star (.alt (noneOf "\"\\") (.seq (oneOf "\\") (noneOf "\n")))

/-- `"(?:[^"\\]|\\.)*"` -/
def quotedString : Regex := .all [oneOf "\"", stringBody, oneOf "\""]

/-- `[_-]?` -/
def joint : Regex := .opt (oneOf "_-")

def secretWord : Regex :=
  .anyOf (word "authorization")
    [word "cookie", word "set-cookie", .all [word "api", joint, word "key"], word "x-api-key",
      .all [word "auth", joint, word "key"], .all [word "access", joint, word "token"],
      .all [word "refresh", joint, word "token"], .all [word "id", joint, word "token"],
      word "token", word "password", word "passwd", word "pwd",
      .all [word "client", joint, word "secret"], word "secret", word "csrf", word "xsrf",
      word "jwt", word "signature", word "sig", word "x-amz-signature", word "x-goog-signature",
      word "密码", word "口令", word "令牌", word "密钥"]

/-- `\s*[:=]\s*` -/
def textSeparator : Regex := .all [spaces, oneOf ":=", spaces]

/-- `"(?:[^"\\]|\\.)*"|[^"\r\n,;]+` -/
def textValue : Regex := .alt quotedString (.plus (noneOf "\"\r\n,;"))

def textSecretRegex (u : Unicode) : Regex :=
  .all [.wordBoundary u.isWord, .group 1 secretWord, .group 2 textSeparator, .group 3 textValue]

/-- `\s*:\s*` -/
def jsonSeparator : Regex := .all [spaces, oneOf ":", spaces]

/-- `[-+]?\d+(?:\.\d+)?(?:[eE][-+]?\d+)?` -/
def jsonNumber (u : Unicode) : Regex :=
  .all [.opt (oneOf "-+"), .plus (.char u.isDecimal),
    .opt (.all [oneOf ".", .plus (.char u.isDecimal)]),
    .opt (.all [oneOf "eE", .opt (oneOf "-+"), .plus (.char u.isDecimal)])]

def jsonValue (u : Unicode) : Regex :=
  .anyOf quotedString
    [jsonNumber u, word "true", word "false", word "null",
      .all [oneOf "\x7b", .star (noneOf "\x7b\x7d"), oneOf "\x7d"],
      .all [oneOf "[", .star (noneOf "[]"), oneOf "]"]]

def jsonQuotedSecretRegex (u : Unicode) : Regex :=
  .all [oneOf "\"", .group 1 stringBody, oneOf "\"", .group 2 jsonSeparator, .group 3 (jsonValue u)]

/-- The class `[A-Za-z0-9._~+/=-]` under `(?i)`. -/
def bearerChar (c : Char) : Bool :=
  c.isAlphanum || "._~+/=-".toList.contains c || c.toNat == 0x17f || c.toNat == 0x212a

def bearerRegex : Regex :=
  .all [.group 1 (.all [word "bearer", .plus (.char isWhitespace)]), .plus (.char bearerChar)]

/-- The class `[A-Za-z0-9_-]`. -/
def jwtChar : Regex := .char fun c => c.isAlphanum || "_-".toList.contains c

def jwtRegex (u : Unicode) : Regex :=
  .all [.wordBoundary u.isWord, oneOf "e", oneOf "y", oneOf "J", jwtChar.atLeast 8, oneOf ".",
    jwtChar.atLeast 8, oneOf ".", jwtChar.atLeast 8, .wordBoundary u.isWord]

def emailRegex : Regex :=
  .all [.plus (.char fun c => c.isAlphanum || "._%+-".toList.contains c), oneOf "@",
    .plus (.char fun c => c.isAlphanum || ".-".toList.contains c), oneOf ".",
    Regex.atLeast (.char Char.isAlpha) 2]

def phoneRegex (u : Unicode) : Regex :=
  .all [.wordBoundary u.isWord,
    .opt (.all [.opt (oneOf "+"), oneOf "8", oneOf "6", .opt (oneOf "- ")]), oneOf "1",
    .char fun c => '3' ≤ c && c ≤ '9', Regex.times (.char Char.isDigit) 9,
    .wordBoundary u.isWord]

end AiProxy.Mcp
