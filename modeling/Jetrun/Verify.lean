import Jetrun.Lib.Hex
import Jetrun.Lib.Utf8

/-!
# Webhook authentication

GitHub and Bitbucket sign the body with HMAC-SHA256, under header names that overlap; GitLab sends a
shared secret. Which scheme applies is decided by the provider and never by the request. HMAC-SHA256
is a parameter.
-/

namespace Jetrun

inductive Provider
  | gitHub
  | gitLab
  | bitbucket
deriving DecidableEq

namespace Provider

def asStr : Provider → String
  | gitHub => "github"
  | gitLab => "gitlab"
  | bitbucket => "bitbucket"

/-- The provider a webhook path names. -/
def ofPath (s : String) : Option Provider :=
  if s = "github" then some gitHub
  else if s = "gitlab" then some gitLab
  else if s = "bitbucket" then some bitbucket
  else none

def eventHeader : Provider → String
  | gitHub => "x-github-event"
  | gitLab => "x-gitlab-event"
  | bitbucket => "x-event-key"

def deliveryHeader : Provider → String
  | gitHub => "x-github-delivery"
  | gitLab => "x-gitlab-event-uuid"
  | bitbucket => "x-request-uuid"

end Provider

section Text

def stripPrefix (pre s : String) : Option String :=
  if pre.toList <+: s.toList then some (String.ofList (s.toList.drop pre.toList.length)) else none

def toAsciiLowercase (s : String) : String := String.ofList (s.toList.map Char.toLower)

end Text

/-- The headers of a request in their order; the value of one is `none` if it is not text. -/
abbrev HeaderMap := List (String × Option String)

/-- Text headers by lower-case name, a later one in place of an earlier one. -/
structure Headers where
  fields : List (String × String)

namespace Headers

def ofMap (map : HeaderMap) : Headers :=
  ⟨map.filterMap fun (k, v) => v.map fun v => (toAsciiLowercase k, v)⟩

def get (h : Headers) (name : String) : Option String :=
  (h.fields.reverse.find? fun field => field.1 = name).map (·.2)

end Headers

/-- `bodyAuthenticated` says whether the proof covers the payload itself. -/
structure Verified where
  bodyAuthenticated : Bool
deriving DecidableEq

inductive VerifyError
  | noSecretConfigured (provider : Provider)
  | missingHeader (name : String)
  | malformedSignature
  | legacySha1Refused
  | signatureMismatch
deriving DecidableEq

def githubSig256 : String := "x-hub-signature-256"

def githubSigLegacy : String := "x-hub-signature"

def bitbucketSig : String := "x-hub-signature"

def gitlabToken : String := "x-gitlab-token"

/-- HMAC-SHA256: a key and a message to thirty-two bytes. -/
structure Hmac where
  mac : List UInt8 → List UInt8 → List UInt8
  length_mac : ∀ secret body, (mac secret body).length = 32

section Verify

variable (hmac : Hmac)

def verifyHmacSha256 (header : String) (body secret : List UInt8) : Except VerifyError Verified :=
  match stripPrefix "sha256=" header with
  | none => .error .malformedSignature
  | some hexPart =>
    if hexPart.utf8ByteSize ≠ 64 then .error .malformedSignature
    else
      match Hex.decode hexPart.toList with
      | none => .error .malformedSignature
      | some expected =>
        if hmac.mac secret body = expected then .ok ⟨true⟩ else .error .signatureMismatch

def verify (provider : Provider) (headers : Headers) (body : List UInt8)
    (secret : Option (List UInt8)) : Except VerifyError Verified :=
  match secret with
  | none => .error (.noSecretConfigured provider)
  | some [] => .error (.noSecretConfigured provider)
  | some secret =>
    match provider with
    | .gitHub =>
      match headers.get githubSig256 with
      | some sig => verifyHmacSha256 hmac sig body secret
      | none =>
        if (headers.get githubSigLegacy).isSome then .error .legacySha1Refused
        else .error (.missingHeader githubSig256)
    | .bitbucket =>
      match headers.get bitbucketSig with
      | none => .error (.missingHeader bitbucketSig)
      | some sig => verifyHmacSha256 hmac sig body secret
    | .gitLab =>
      match headers.get gitlabToken with
      | none => .error (.missingHeader gitlabToken)
      | some token =>
        if Utf8.encode token = secret then .ok ⟨false⟩ else .error .signatureMismatch

/-- The signature a provider would send. -/
def signHmacSha256 (body secret : List UInt8) : String :=
  "sha256=" ++ String.ofList (Hex.encode (hmac.mac secret body))

end Verify

section Genuine

variable (hmac : Hmac)

/-- The header names the scheme and spells the MAC of the body, in digits of either case. -/
def Signed (header : String) (body secret : List UInt8) : Prop :=
  ∃ digits : List Char, header.toList = "sha256=".toList ++ digits ∧ digits.length = 64 ∧
    Hex.Spells digits (hmac.mac secret body)

/-- The proof a provider sends with a delivery of its own. -/
def Genuine (headers : Headers) (body secret : List UInt8) : Provider → Prop
  | .gitHub => ∃ header, headers.get githubSig256 = some header ∧ Signed hmac header body secret
  | .gitLab => ∃ token, headers.get gitlabToken = some token ∧ Utf8.encode token = secret
  | .bitbucket => ∃ header, headers.get bitbucketSig = some header ∧ Signed hmac header body secret

/-- The provider proves that it sent this very body. -/
def Provider.signsBody : Provider → Bool
  | .gitLab => false
  | _ => true

end Genuine

end Jetrun
