import ChatServer.Jwt.Base64

/-!
# Tokens: `jwt::builder`, `jwt::decode` and `jwt::verifier`

A token is three parts with dots between them: the header and the payload, two JSON objects, and
the signature of the two. The builder writes it with `sign`; `decode` reads it, and `verify` checks
the algorithm, the signature and the claims.

What comes from elsewhere is in `Library`: Boost.JSON, HMAC-SHA256, the resolution of
`system_clock`, and the order in which the verifier's `std::unordered_map` iterates over its
checks. A date is a number of ticks of the clock. An error is the `what()` of the exception that
leaves `jwt::decode` or `verify`.
-/

namespace ChatServer.Jwt

open Lib

/-! ## JSON values and the claims in them -/

/-- `boost::json::value`. -/
inductive Json where
  | null
  | bool (b : Bool)
  | int64 (n : Int)
  | uint64 (n : Nat)
  | double (d : Float)
  | string (s : Bytes)
  | array (elems : List Json)
  | object (members : List (Bytes × Json))

/-- `jwt::json::type`. -/
inductive JsonType where
  | boolean | integer | number | string | array | object
  deriving DecidableEq

/-- `boost::json::object`, in the order of its members. -/
abbrev Claims := List (Bytes × Json)

/-- `what()` of a `std::bad_cast`. -/
def badCast : Bytes := ascii "std::bad_cast"

namespace Json

/-- `boost_json::get_type`. -/
def getType : Json → Except Bytes JsonType
  | .bool _ => .ok .boolean
  | .int64 _ | .uint64 _ => .ok .integer
  | .double _ => .ok .number
  | .string _ => .ok .string
  | .array _ => .ok .array
  | .object _ => .ok .object
  | .null => .error (ascii "invalid type")

/-- `boost_json::as_object`. -/
def asObject : Json → Except Bytes Claims
  | .object members => .ok members
  | _ => .error badCast

/-- `boost_json::as_array`. -/
def asArray : Json → Except Bytes (List Json)
  | .array elems => .ok elems
  | _ => .error badCast

/-- `boost_json::as_string`. -/
def asString : Json → Except Bytes Bytes
  | .string s => .ok s
  | _ => .error badCast

/-- `boost_json::as_integer`: a `uint64_t` is cast to `int64_t`. -/
def asInteger : Json → Except Bytes Int
  | .int64 n => .ok n
  | .uint64 n => .ok ((n : Int).bmod UInt64.size)
  | _ => .error badCast

/-- `boost_json::as_boolean`. -/
def asBoolean : Json → Except Bytes Bool
  | .bool b => .ok b
  | _ => .error badCast

/-- `boost_json::as_number`. -/
def asNumber : Json → Except Bytes Float
  | .double d => .ok d
  | _ => .error badCast

/-- `basic_claim::as_set`. -/
def asSet (value : Json) : Except Bytes (List Bytes) := do
  let elems ← value.asArray
  elems.mapM asString

end Json

/-- Boost.JSON: `serialize`, and `parse` or the `what()` of its exception. -/
structure JsonCodec where
  serialize : Json → Bytes
  parse : Bytes → Except Bytes Json

/-- `map_of_claims::has_claim`. -/
def hasClaim (claims : Claims) (name : Bytes) : Bool := (claims.lookup name).isSome

/-- `map_of_claims::get_claim`. -/
def getClaim (claims : Claims) (name : Bytes) : Except Bytes Json :=
  match claims.lookup name with
  | some value => .ok value
  | none => .error (ascii "claim not found")

/-- `claims[id] = c`. -/
def setClaim (claims : Claims) (id : Bytes) (c : Json) : Claims :=
  if hasClaim claims id then claims.map fun member => if member.1 = id then (id, c) else member
  else claims ++ [(id, c)]

/-- `map_of_claims::parse_claims`. -/
def parseClaims (json : JsonCodec) (str : Bytes) : Except Bytes Claims := do
  let val ← json.parse str
  val.asObject

/-! ## Dates -/

/-- `system_clock::to_time_t` of a clock with `ticks` ticks a second. -/
def toTimeT (ticks : Nat) (d : Int) : Int := d.tdiv ticks

/-- `system_clock::from_time_t`. The code multiplies in `int64_t`, and C++ defines the product if it
is in range (`DateInRange`). -/
def fromTimeT (ticks : Nat) (t : Int) : Int := t * ticks

/-- The claim that `basic_claim` makes of a date. -/
def dateClaim (ticks : Nat) (d : Int) : Json := .int64 (toTimeT ticks d)

/-- `basic_claim::as_date`. C++ defines the conversion of a double to `time_t` if it is in range
(`DateInRange`). -/
def asDate (ticks : Nat) (value : Json) : Except Bytes Int := do
  if (← value.getType) = .number then
    return fromTimeT ticks (← value.asNumber).round.toInt64.toInt
  else return fromTimeT ticks (← value.asInteger)

/-- C++ defines `as_date` of the claim: a double rounds to a number of `int64_t`, and the date is
one whose ticks an `int64_t` counts. -/
structure DateInRange (ticks : Nat) (value : Json) : Prop where
  number : ∀ d, value = .double d →
    -9223372036854775808.0 ≤ d.round ∧ d.round < 9223372036854775808.0
  product : ∀ d, asDate ticks value = .ok d →
    -9223372036854775808 ≤ d ∧ d < 9223372036854775808

example : ¬DateInRange 1000000000 (.int64 10000000000) := fun h =>
  absurd (h.product _ rfl).2 (by decide)

/-! ## The algorithm -/

/-- `algorithm::hmacsha`. -/
structure Hmacsha where
  secret : Bytes
  md : Bytes → Bytes → Bytes
  algName : Bytes

namespace Hmacsha

/-- `hmacsha::sign`. -/
def sign (algo : Hmacsha) (data : Bytes) : Bytes := algo.md algo.secret data

/-- `hmacsha::verify`. -/
def verify (algo : Hmacsha) (data signature : Bytes) : Except Bytes Unit :=
  let res := algo.sign data
  let matched := (res.zip signature).all (fun p => p.1 == p.2) && res.length == signature.length
  if matched then .ok () else .error (ascii "invalid signature")

end Hmacsha

/-! ## The builder -/

/-- `jwt::builder`. -/
structure Builder where
  headerClaims : Claims := []
  payloadClaims : Claims := []

namespace Builder

/-- `builder::set_payload_claim`. -/
def setPayloadClaim (b : Builder) (id : Bytes) (c : Json) : Builder :=
  { b with payloadClaims := setClaim b.payloadClaims id c }

/-- `builder::set_issuer`. -/
def setIssuer (b : Builder) (str : Bytes) : Builder := b.setPayloadClaim (ascii "iss") (.string str)

/-- `builder::set_audience`. -/
def setAudience (b : Builder) (aud : Bytes) : Builder :=
  b.setPayloadClaim (ascii "aud") (.string aud)

/-- `builder::set_issued_at`. -/
def setIssuedAt (b : Builder) (ticks : Nat) (d : Int) : Builder :=
  b.setPayloadClaim (ascii "iat") (dateClaim ticks d)

/-- `builder::set_expires_at`. -/
def setExpiresAt (b : Builder) (ticks : Nat) (d : Int) : Builder :=
  b.setPayloadClaim (ascii "exp") (dateClaim ticks d)

/-- The header that `builder::sign` writes. -/
def header (b : Builder) (algo : Hmacsha) : Claims :=
  if hasClaim b.headerClaims (ascii "alg") then b.headerClaims
  else setClaim b.headerClaims (ascii "alg") (.string algo.algName)

/-- `builder::sign`. -/
def sign (b : Builder) (json : JsonCodec) (algo : Hmacsha) : Bytes :=
  let encode := fun data => base64url.trim (base64url.encode data)
  let header := encode (json.serialize (.object (b.header algo)))
  let payload := encode (json.serialize (.object b.payloadClaims))
  let token := header ++ ascii "." ++ payload
  token ++ ascii "." ++ encode (algo.sign token)

end Builder

/-! ## Decoding -/

/-- `jwt::decoded_jwt`. -/
structure DecodedJwt where
  headerClaims : Claims
  payloadClaims : Claims
  headerBase64 : Bytes
  payloadBase64 : Bytes
  signature : Bytes

/-- The decoder of a part of a token. -/
def decodePart (str : Bytes) : Except Bytes Bytes := base64url.decode (base64url.pad str)

/-- `jwt::decode`. -/
def decode (json : JsonCodec) (token : Bytes) : Except Bytes DecodedJwt :=
  match find (ascii ".") token with
  | none => .error (ascii "invalid token supplied")
  | some hdrEnd =>
    match find (ascii ".") (token.drop (hdrEnd + 1)) with
    | none => .error (ascii "invalid token supplied")
    | some pos => do
      let payloadEnd := hdrEnd + 1 + pos
      let headerBase64 := token.take hdrEnd
      let payloadBase64 := (token.drop (hdrEnd + 1)).take (payloadEnd - hdrEnd - 1)
      let signatureBase64 := token.drop (payloadEnd + 1)
      let header ← decodePart headerBase64
      let payload ← decodePart payloadBase64
      let signature ← decodePart signatureBase64
      let headerClaims ← parseClaims json header
      let payloadClaims ← parseClaims json payload
      return { headerClaims, payloadClaims, headerBase64, payloadBase64, signature }

/-- `decoded_jwt::get_algorithm`. -/
def DecodedJwt.getAlgorithm (jwt : DecodedJwt) : Except Bytes Bytes := do
  let c ← getClaim jwt.headerClaims (ascii "alg")
  c.asString

/-! ## The verifier -/

/-- `what()` of a `token_verification_exception` with each error. -/
inductive TokenError where
  | wrongAlgorithm | missingClaim | claimTypeMissmatch | claimValueMissmatch | tokenExpired
  | audienceMissmatch
  deriving DecidableEq

/-- `token_verification_error_category().message`. -/
def TokenError.message : TokenError → Bytes
  | .wrongAlgorithm => ascii "wrong algorithm"
  | .missingClaim => ascii "decoded JWT is missing required claim(s)"
  | .claimTypeMissmatch => ascii "claim type does not match expected type"
  | .claimValueMissmatch => ascii "claim value does not match expected value"
  | .tokenExpired => ascii "token expired"
  | .audienceMissmatch => ascii "token doesn't contain the required audience"

/-- The check fails with the error unless `ok`. -/
def require (ok : Bool) (e : TokenError) : Except Bytes Unit :=
  if ok then .ok () else .error e.message

/-- `verify_ops::verify_context`, for a claim of the payload. -/
structure VerifyContext where
  ticks : Nat
  currentTime : Int
  jwt : DecodedJwt
  defaultLeeway : Nat
  claimKey : Bytes

/-- `verify_context::get_claim`. -/
def VerifyContext.getClaim (ctx : VerifyContext) : Except Bytes Json :=
  match ctx.jwt.payloadClaims.lookup ctx.claimKey with
  | some value => .ok value
  | none => .error TokenError.missingClaim.message

/-- A check of the verifier. -/
abbrev Check := VerifyContext → Except Bytes Unit

/-- The check of a date that the verifier makes if the payload has the claim `name`: `ok` compares
the current time, the date and the leeway. -/
def dateCheck (name : Bytes) (ok : Int → Int → Int → Bool) : Check := fun ctx =>
  if !hasClaim ctx.jwt.payloadClaims name then .ok ()
  else do
    let c ← getClaim ctx.jwt.payloadClaims name
    let date ← asDate ctx.ticks c
    require (ok ctx.currentTime date (ctx.defaultLeeway * ctx.ticks)) .tokenExpired

/-- The check `"exp"`. -/
def checkExp : Check := dateCheck (ascii "exp") fun now exp leeway => !(now > exp + leeway)

/-- The check `"iat"`. -/
def checkIat : Check := dateCheck (ascii "iat") fun now iat leeway => !(now < iat - leeway)

/-- The check `"nbf"`. -/
def checkNbf : Check := dateCheck (ascii "nbf") fun now nbf leeway => !(now < nbf - leeway)

/-- `verify_ops::equals_claim`. -/
def equalsClaim (json : JsonCodec) (expected : Json) : Check := fun ctx => do
  let type ← expected.getType
  let jc ← ctx.getClaim
  require ((← jc.getType) = type) .claimTypeMissmatch
  let isMatch ← match type with
    | .boolean => do pure ((← expected.asBoolean) == (← jc.asBoolean))
    | .integer => do pure ((← expected.asInteger) == (← jc.asInteger))
    | .number => do pure ((← expected.asNumber) == (← jc.asNumber))
    | .string => do pure ((← expected.asString) == (← jc.asString))
    | .array | .object => pure (json.serialize expected == json.serialize jc)
  require isMatch .claimValueMissmatch

/-- `verify_ops::is_subset_claim`. -/
def isSubsetClaim (expected : List Bytes) : Check := fun ctx => do
  let c ← ctx.getClaim
  match ← c.getType with
  | .string => require (expected == [← c.asString]) .audienceMissmatch
  | .array => do
    let jc ← c.asSet
    require (expected.all fun e => jc.contains e) .audienceMissmatch
  | _ => .error TokenError.claimTypeMissmatch.message

/-- `jwt::verifier`. -/
structure Verifier where
  claims : List (Bytes × Check)
  defaultLeeway : Nat
  algs : List (Bytes × Hmacsha)

/-- `verifier::verify`, at the clock reading `now`. -/
def Verifier.verify (verifier : Verifier) (ticks : Nat) (jwt : DecodedJwt) (now : Int) :
    Except Bytes Unit := do
  let data := jwt.headerBase64 ++ ascii "." ++ jwt.payloadBase64
  let algo ← jwt.getAlgorithm
  match verifier.algs.lookup algo with
  | none => .error TokenError.wrongAlgorithm.message
  | some alg => do
    alg.verify data jwt.signature
    forM verifier.claims fun c =>
      c.2 { ticks, currentTime := now, jwt, defaultLeeway := verifier.defaultLeeway,
            claimKey := c.1 }

/-! ## The tokens of the server -/

/-- The checks of the server's verifier: its constructor sets the first three, `with_issuer` and
`with_audience` the others. -/
def checks (json : JsonCodec) : List (Bytes × Check) :=
  [(ascii "exp", checkExp), (ascii "iat", checkIat), (ascii "nbf", checkNbf),
    (ascii "iss", equalsClaim json (.string (ascii "auth0"))),
    (ascii "aud", isSubsetClaim [ascii "aud0"])]

/-- What comes from elsewhere (module doc). -/
structure Library where
  json : JsonCodec
  hmacSha256 : Bytes → Bytes → Bytes
  ticks : Nat
  iteration : List (Bytes × Check)
  iteration_perm : iteration.Perm (checks json)

namespace Library

variable (lib : Library)

/-- `jwt::algorithm::hs256{"secret"}`. -/
def hs256 : Hmacsha where
  secret := ascii "secret"
  md := lib.hmacSha256
  algName := ascii "HS256"

/-- The token that `handle_request` makes at two readings of the clock. -/
def create (now₁ now₂ : Nat) : Builder :=
  (((({} : Builder).setIssuer (ascii "auth0")).setAudience (ascii "aud0")).setIssuedAt lib.ticks
    now₁).setExpiresAt lib.ticks (now₂ + 3600 * lib.ticks)

/-- The token that `handle_request` signs. -/
def token (now₁ now₂ : Nat) : Bytes := (lib.create now₁ now₂).sign lib.json lib.hs256

/-- The body of the response: `boost::json::serialize(token)`. -/
def body (now₁ now₂ : Nat) : Bytes := lib.json.serialize (.string (lib.token now₁ now₂))

/-- The JSON values that `handle_request` serializes for a token. -/
def serialized (now₁ now₂ : Nat) : List Json :=
  [.object ((lib.create now₁ now₂).header lib.hs256),
    .object (lib.create now₁ now₂).payloadClaims, .string (lib.token now₁ now₂)]

/-- The verifier of `websocket_session::run`. -/
def verifier : Verifier where
  claims := lib.iteration
  defaultLeeway := 0
  algs := [(lib.hs256.algName, lib.hs256)]

/-- `jwt::decode` and `verify` in `websocket_session::run`. -/
def verify (token : Bytes) (now : Nat) : Except Bytes Unit := do
  let decoded ← decode lib.json token
  lib.verifier.verify lib.ticks decoded now

end Library

end ChatServer.Jwt
