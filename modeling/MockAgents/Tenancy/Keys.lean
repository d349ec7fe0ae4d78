import MockAgents.Lib.Base64
/-!
# Roles, principals and API keys

`types.go` and the key format of `store.go`.  Plaintexts are byte strings.  Hashing is
a parameter: `bcrypt` accepts exactly the plaintext it hashed, and SHA-256 digests of
different plaintexts differ.
-/

namespace MockAgents.Tenancy

open Lib Lib.Utf8 Lib.Json

inductive Role where
  | viewer
  | editor
  | admin
  | platform
  /-- a text outside the fixed set -/
  | other (name : String)
deriving DecidableEq, Repr

def Role.text : Role → String
  | .viewer => "viewer"
  | .editor => "editor"
  | .admin => "admin"
  | .platform => "platform"
  | .other name => name

def Role.rank : Role → Int
  | .viewer => 1
  | .editor => 2
  | .admin => 3
  | .platform => 4
  | .other _ => -1

def Role.isValid (r : Role) : Bool := decide (0 < r.rank)

structure Principal where
  tenantID : String
  keyID : String
  role : Role
  credentialVersion : Int
deriving DecidableEq, Repr

structure APIKey where
  id : String
  tenantID : String
  name : String
  keyPrefix : Bytes
  role : Role
  /-- in nanoseconds -/
  createdAt : Int
deriving DecidableEq, Repr

structure NewAPIKeyResult where
  key : APIKey
  plaintext : Bytes
deriving DecidableEq, Repr

inductive Err where
  | notFound
  | conflict
  | forbidden
  | invalidKey
  | invalidRole (role : Role)
  | tenant (id : String) (err : Err)
  | presetForm
  | presetPrefix
  | presetShort
  | presetLetters
  /-- the text of an error of the database driver or of the random source -/
  | system (text : String)
deriving DecidableEq, Repr

/-- The error texts; `printable` is the table behind `%q`. -/
def Err.text (printable : Char → Bool) : Err → String
  | .notFound => "tenancy: not found"
  | .conflict => "tenancy: already exists"
  | .forbidden => "tenancy: forbidden"
  | .invalidKey => "tenancy: invalid api key"
  | .invalidRole role => "invalid role " ++ Strconv.quote printable (bytes role.text)
  | .tenant id err => "tenant " ++ id ++ ": " ++ err.text printable
  | .presetForm => "key must have the form mak_<8 hex chars>_<secret>"
  | .presetPrefix => "key prefix must be mak_ followed by 8 hex characters"
  | .presetShort => "key secret (after the second underscore) must be at least 24 characters"
  | .presetLetters => "key secret may contain only A-Z, a-z, 0-9, '_' and '-'"
  | .system text => text

/-- `authorizeKeyTarget`; there is no actor on an internal call. -/
def authorizeKeyTarget (actor : Option Principal) (tenantID : String) (target : Role) :
    Except Err Unit :=
  match actor with
  | none => .ok ()
  | some actor =>
    if actor.role = .platform then .ok ()
    else if actor.tenantID ≠ tenantID || target = .platform then .error .forbidden
    else .ok ()

/-! ## The key format -/

def apiKeyPrefixLen : Nat := 12

/-- The check before any lookup: the text can be `mak_<8hex>_<secret>`. -/
def wellFormed (plaintext : Bytes) : Bool :=
  decide (apiKeyPrefixLen < plaintext.length) && decide (plaintext.take 4 = bytes "mak_") &&
    decide (plaintext[apiKeyPrefixLen]? = some (byte '_'))

def isSecretLetter (c : UInt8) : Bool :=
  (byte 'a' ≤ c && c ≤ byte 'z') || (byte 'A' ≤ c && c ≤ byte 'Z') ||
    (byte '0' ≤ c && c ≤ byte '9') || c == byte '_' || c == byte '-'

def validatePresetAPIKey (plaintext : Bytes) : Except Err Bytes :=
  if !wellFormed plaintext then .error .presetForm
  else
    let keyPrefix := plaintext.take apiKeyPrefixLen
    let secret := plaintext.drop (apiKeyPrefixLen + 1)
    if !(keyPrefix.drop 4).all Scanner.isHex then .error .presetPrefix
    else if secret.length < 24 then .error .presetShort
    -- a rune outside ASCII is refused, and so is each of its bytes
    else if !secret.all isSecretLetter then .error .presetLetters
    else .ok keyPrefix

/-- The random bytes behind one generated key and its hash. -/
structure Draw where
  pfxBytes : Bytes
  secret : Bytes
  salt : Nat

def hexEncode (b : Bytes) : Bytes :=
  b.flatMap fun x =>
    [byte (Strconv.hexDigit (x.toNat / 16)), byte (Strconv.hexDigit (x.toNat % 16))]

/-- `generateAPIKey`: the plaintext and its public prefix. -/
def generateAPIKey (d : Draw) : Bytes × Bytes :=
  let keyPrefix := bytes "mak_" ++ hexEncode d.pfxBytes
  (keyPrefix ++ [byte '_'] ++ encode (Base64.rawURLEncodeToString d.secret), keyPrefix)

def Draw.plaintext (d : Draw) : Bytes := (generateAPIKey d).1

/-! ## Hashing -/

/-- The hash functions of the store: `hashKey` digests the plaintext for the cache,
`generate` and `compare` are bcrypt. -/
structure Crypto (H D : Type) where
  hashKey : Bytes → D
  hashKey_injective : Function.Injective hashKey
  generate : Bytes → Nat → Except String H
  compare : H → Bytes → Bool
  compare_generate : ∀ {plaintext salt hash}, generate plaintext salt = .ok hash →
    ∀ q, compare hash q = decide (q = plaintext)

def Crypto.plain : Crypto Bytes Bytes where
  hashKey p := p
  hashKey_injective _ _ h := h
  generate p _ := .ok p
  compare h q := decide (q = h)
  compare_generate h q := by
    cases h
    rfl

end MockAgents.Tenancy
