import Firestone.Error
import Firestone.Lib.Members
import Firestone.Lib.Text
import Mathlib.Data.List.Basic

/-!
# Registry credentials and authentication challenges

What a registry client sends to prove who it is, and how it reads a `WWW-Authenticate` header.

* `BasicCredential.headerValue` — static credentials as a header value.
* `parseAuthChallenge` — the scheme and the parameters of a challenge.
-/

namespace Firestone.Oci

open Firestone.Lib

/-! ## Basic credentials -/

def base64Alphabet : List Char := "ABCDEFGHIJKLMNOPQRSTUVWXYZabcdefghijklmnopqrstuvwxyz0123456789+/".toList

def base64Symbol (index : Nat) : Char := base64Alphabet.getD index 'A'

/-- Standard padded base64. -/
@[grind =] def base64Encode : Bytes → List Char
  | a :: b :: c :: rest =>
    let value := a.toNat * 65536 + b.toNat * 256 + c.toNat
    base64Symbol (value / 262144 % 64) :: base64Symbol (value / 4096 % 64) :: base64Symbol (value / 64 % 64) ::
      base64Symbol (value % 64) :: base64Encode rest
  | [a, b] =>
    let value := a.toNat * 65536 + b.toNat * 256
    [base64Symbol (value / 262144 % 64), base64Symbol (value / 4096 % 64), base64Symbol (value / 64 % 64), '=']
  | [a] =>
    let value := a.toNat * 65536
    [base64Symbol (value / 262144 % 64), base64Symbol (value / 4096 % 64), '=', '=']
  | [] => []

structure BasicCredential where
  user : String
  secret : String
  deriving DecidableEq, Repr

def BasicCredential.headerValue (credential : BasicCredential) : String :=
  let encoded := String.ofList (base64Encode (bytes s!"{credential.user}:{credential.secret}"))
  s!"Basic {encoded}"

/-! ## Challenges -/

inductive AuthScheme
  | bearer | basic
  deriving DecidableEq, Repr

structure AuthChallenge where
  scheme : AuthScheme
  /-- By lowercase name, in name order. -/
  parameters : List (String × String)
  deriving DecidableEq, Repr

def AuthChallenge.parameter (challenge : AuthChallenge) (name : String) : Option String :=
  challenge.parameters.lookup name

/-- The text up to the closing quote, and what follows it. A backslash stands for the character after it. -/
@[grind =] def readQuoted : List Char → List Char × List Char
  | [] => ([], [])
  | '\\' :: c :: rest => (c :: (readQuoted rest).1, (readQuoted rest).2)
  | '"' :: rest => ([], rest)
  | c :: rest => (c :: (readQuoted rest).1, (readQuoted rest).2)

/-- The value after an equals sign, quoted or up to the next comma. -/
def readValue : List Char → List Char × List Char
  | '"' :: rest => readQuoted rest
  | rest => (rest.takeWhile (· ≠ ','), rest.dropWhile (· ≠ ','))

/-- The first value of a name counts. -/
def addParameter (name value : String) (parameters : List (String × String)) : List (String × String) :=
  if name = "" || (parameters.lookup name).isSome then parameters else insertMember name value parameters

/-- One parameter in each round. Every round reads at least one character, so that as many rounds as characters do. -/
def parseParameters : Nat → List Char → List (String × String) → List (String × String)
  | 0, _, parameters => parameters
  | _, [], parameters => parameters
  | rounds + 1, rest, parameters =>
    let rest := rest.dropWhile fun c => isWhitespace c || c = ','
    let name := toAsciiLowercase (trim (String.ofList (rest.takeWhile fun c => c ≠ '=' && c ≠ ',')))
    match rest.dropWhile fun c => c ≠ '=' && c ≠ ',' with
    | '=' :: rest =>
      parseParameters rounds (readValue rest).2
        (addParameter name (trim (String.ofList (readValue rest).1)) parameters)
    | rest => parseParameters rounds rest.tail (addParameter name "" parameters)

def parseChallengeParameters (rest : String) : List (String × String) :=
  parseParameters rest.toList.length rest.toList []

def parseAuthChallenge (value : String) : Res AuthChallenge :=
  let trimmed := (trim value).toList
  let schemeText := String.ofList (trimmed.takeWhile fun c => !isWhitespace c)
  let rest := String.ofList (trimmed.dropWhile fun c => !isWhitespace c)
  if eqIgnoreAsciiCase schemeText "bearer" then .ok ⟨.bearer, parseChallengeParameters rest⟩
  else if eqIgnoreAsciiCase schemeText "basic" then .ok ⟨.basic, parseChallengeParameters rest⟩
  else .error ((FirestoneError.new .dependency
    s!"registry requested unsupported authentication scheme '{schemeText}'").withHint
    "firestone authenticates with anonymous Bearer tokens or Basic credentials")

end Firestone.Oci
