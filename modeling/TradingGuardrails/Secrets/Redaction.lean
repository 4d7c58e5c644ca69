import TradingGuardrails.Text.Json
import TradingGuardrails.Text.Pattern

/-!
Redaction of secrets in texts and in JSON values. The patterns are applied one after
the other, and bearer tokens that follow an authorization label are kept aside under a
placeholder meanwhile.
-/
namespace TradingGuardrails

open Text

namespace Redaction

open Pattern

def blanks : Pattern := star (.char isSpace)

def blanks1 : Pattern := plus (.char isSpace)

def assign : Pattern := oneOf [':', '=']

def dash : Pattern := optional (oneOf ['_', '-'])

def secretKeyPattern : Pattern :=
  choice [
    wordAnyCase "authorization",
    sequence [wordAnyCase "api", dash, wordAnyCase "key"],
    sequence [wordAnyCase "api", dash, wordAnyCase "secret"],
    sequence [wordAnyCase "private", dash, wordAnyCase "key"],
    sequence [wordAnyCase "secret", dash, wordAnyCase "key"],
    wordAnyCase "mnemonic",
    sequence [wordAnyCase "seed", dash, wordAnyCase "phrase"],
    sequence [wordAnyCase "vault", dash, wordAnyCase "token"]]

def pemPattern : Pattern :=
  sequence [
    wordAnyCase "-----BEGIN ",
    star (.char fun c => c.isAlpha || c == ' '),
    wordAnyCase "PRIVATE KEY-----",
    .many false none (.char fun _ => true),
    wordAnyCase "-----END ",
    star (.char fun c => c.isAlpha || c == ' '),
    wordAnyCase "PRIVATE KEY-----"]

def quotedSecretAssignmentPattern (q : Char) : Pattern :=
  let quotes := optional (oneOf ['"', '\''])
  sequence [
    .group (sequence [quotes, secretKeyPattern, quotes, blanks, assign, blanks, oneOf [q]]),
    .group (star (noneOf [q])),
    .group (oneOf [q])]

def unquotedSecretAssignmentPattern : Pattern :=
  sequence [
    .group (sequence [secretKeyPattern, blanks, assign, blanks]),
    .group (plus (noneOf ['\r', '\n', ',', '\x7d']))]

def labeledHexSecretPattern : Pattern :=
  sequence [
    .boundary,
    .group (sequence [
      choice [wordAnyCase "key", wordAnyCase "private key", wordAnyCase "secret key"],
      blanks1, wordAnyCase "is", blanks1]),
    wordAnyCase "0x",
    times 64 (.char fun c => c.isDigit || ('a' ≤ c.toLower && c.toLower ≤ 'f')),
    .boundary]

def tokenChar : Pattern :=
  .char fun c => !isSpace c && c != ',' && c != '\x7d'

def authorizationBearerTokenPattern : Pattern :=
  sequence [
    .boundary,
    .group (sequence [
      wordAnyCase "authorization", blanks, assign, blanks, wordAnyCase "bearer", blanks1]),
    plus tokenChar]

def bearerTokenPattern : Pattern :=
  sequence [.boundary, .group (sequence [wordAnyCase "bearer", blanks1]), plus tokenChar]

def redacted : List Char := "[REDACTED]".toList

def placeholder (n : Nat) : List Char :=
  "__BEARER_REDACTION_".toList ++ (toString n).toList ++ "__".toList

def keepLabel (_ : Nat) (groups : List (List Char)) : List Char :=
  groups.headD [] ++ (redacted ++ groups.getD 2 [])

def restore : Nat → List (List (List Char)) → List Char → List Char
  | _, [], cs => cs
  | n, groups :: found, cs =>
      restore (n + 1) found (replaceFirst (placeholder n) (groups.headD [] ++ redacted) cs)

def redactChars (text : List Char) : List Char :=
  let (marked, found) :=
    authorizationBearerTokenPattern.replaceAll (fun n _ => placeholder n) text
  let text := (bearerTokenPattern.replaceAll keepLabel marked).1
  let text := (pemPattern.replaceAll (fun _ _ => redacted) text).1
  let text := ((quotedSecretAssignmentPattern '"').replaceAll keepLabel text).1
  let text := ((quotedSecretAssignmentPattern '\'').replaceAll keepLabel text).1
  let text := (unquotedSecretAssignmentPattern.replaceAll keepLabel text).1
  let text := (labeledHexSecretPattern.replaceAll keepLabel text).1
  restore 0 found text

end Redaction

def redactSecrets (text : String) : String :=
  String.ofList (Redaction.redactChars text.toList)

def lowerCase (s : String) : List Char :=
  s.toList.flatMap fun c =>
    if c.toNat == 304 then ['i', '\u0307'] else if c.toNat == 8490 then ['k'] else [c.toLower]

def isSecretKey (key : String) : Bool :=
  let normalized := (lowerCase key).filter fun c => c != '_' && c != '-'
  let includes (word : String) := (Pattern.word word).occurs normalized
  includes "secret" || includes "private" || includes "mnemonic" || includes "seed" ||
    normalized == "token".toList || normalized == "authorization".toList ||
    ["vaulttoken", "accesstoken", "refreshtoken", "authtoken", "bearertoken"].any
      (fun suffix => suffix.toList.isSuffixOf normalized) ||
    "apikey".toList.isSuffixOf normalized || "apisecret".toList.isSuffixOf normalized

mutual
def redactJson (redactText : String → String) : Json → Json
  | .null => .null
  | .bool b => .bool b
  | .num n => .num n
  | .str s => .str (redactText s)
  | .arr xs => .arr (redactElements redactText xs)
  | .obj fs => .obj (redactMembers redactText fs)

def redactElements (redactText : String → String) : List Json → List Json
  | [] => []
  | x :: xs => redactJson redactText x :: redactElements redactText xs

def redactMembers (redactText : String → String) : List (String × Json) → List (String × Json)
  | [] => []
  | (key, value) :: fs =>
      (key, if isSecretKey key then .str "[REDACTED]" else redactJson redactText value) ::
        redactMembers redactText fs
end

def redactObject (v : Json) : Json :=
  redactJson redactSecrets v

end TradingGuardrails
