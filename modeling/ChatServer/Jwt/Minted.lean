import ChatServer.Jwt.Token
import ChatServer.Http.Session
import ChatServer.Safety

/-!
# The tokens that the server makes open the WebSocket

The handler of `/api/ws` makes a token, a client puts it into the target of an upgrade request,
and `websocket_session::run` decodes and verifies it.

* `decode_sign`: decoding a signed token gives the claims that were signed.
* `verify_token`: the verifier accepts a token of the server in its window, in whatever order it
  makes its checks.
* `mintedToken`: from the response to a request for a token to the first operation of a session.
-/

namespace ChatServer.Jwt

open Lib

variable {json : JsonCodec}

/-! ## Decoding what was signed -/

theorem Hmacsha.verify_sign (algo : Hmacsha) (data : Bytes) :
    algo.verify data (algo.sign data) = .ok () := by
  have hall (s : Bytes) : (s.zip s).all (fun p => p.1 == p.2) = true := by
    induction s with
    | nil => rfl
    | cons c s ih => simp [ih]
  rw [Hmacsha.verify, hall]
  simp

/-- The text of a part of a token has no dot. -/
theorem dot_notMem_part (bin : Bytes) : chr '.' ∉ base64url.trim (base64url.encode bin) := by
  have hd : chr '.' ∉ base64url.data := by decide
  rw [Alphabet.trim_encode]
  exact fun h => hd (Alphabet.mem_chars h)

/-- A token is cut at its first two dots. -/
theorem decode_eq (json : JsonCodec) {header payload : Bytes} (hh : chr '.' ∉ header)
    (hp : chr '.' ∉ payload) (signature : Bytes) :
    decode json (header ++ ascii "." ++ payload ++ ascii "." ++ signature) = (do
      let h ← decodePart header
      let p ← decodePart payload
      let s ← decodePart signature
      let headerClaims ← parseClaims json h
      let payloadClaims ← parseClaims json p
      return ⟨headerClaims, payloadClaims, header, payload, s⟩) := by
  have hdot : ascii "." = [chr '.'] := by decide
  have hf : find [chr '.'] (header ++ [chr '.'] ++ payload ++ [chr '.'] ++ signature) =
      some header.length := by
    simp only [List.append_assoc]
    exact find_marker hh
  have hdrop : (header ++ [chr '.'] ++ payload ++ [chr '.'] ++ signature).drop
      (header.length + 1) = payload ++ ([chr '.'] ++ signature) := by
    simp
  have hf' : find [chr '.'] (payload ++ ([chr '.'] ++ signature)) = some payload.length :=
    find_marker hp
  have htake : (header ++ [chr '.'] ++ payload ++ [chr '.'] ++ signature).take header.length =
      header := by
    simp
  have hlast : (header ++ [chr '.'] ++ payload ++ [chr '.'] ++ signature).drop
      (header.length + 1 + payload.length + 1) = signature := by
    have hl : header.length + 1 + payload.length + 1 =
        (header ++ [chr '.'] ++ payload ++ [chr '.']).length := by
      simp only [List.length_append, List.length_singleton]
    rw [hl, List.drop_left]
  have hlen : header.length + 1 + payload.length - header.length - 1 = payload.length := by omega
  rw [decode, hdot, hf]
  simp only [hdrop, hf', htake, hlast, hlen, List.take_left]

/-- **Decoding a signed token** gives what was signed, if the parser reads what was serialized. -/
theorem decode_sign (b : Builder) (algo : Hmacsha)
    (hh : json.parse (json.serialize (.object (b.header algo))) = .ok (.object (b.header algo)))
    (hp : json.parse (json.serialize (.object b.payloadClaims)) = .ok (.object b.payloadClaims)) :
    ∃ header payload, decode json (b.sign json algo) =
      .ok ⟨b.header algo, b.payloadClaims, header, payload,
        algo.sign (header ++ ascii "." ++ payload)⟩ := by
  refine ⟨base64url.trim (base64url.encode (json.serialize (.object (b.header algo)))),
    base64url.trim (base64url.encode (json.serialize (.object b.payloadClaims))), ?_⟩
  rw [Builder.sign, decode_eq json (dot_notMem_part _) (dot_notMem_part _)]
  simp only [decodePart, Alphabet.decode_encode, ok_bind, parseClaims, hh, hp, Json.asObject]
  rfl

/-! ## The checks -/

theorem require_eq_ok {ok : Bool} {e : TokenError} : require ok e = .ok () ↔ ok = true := by
  cases ok <;> simp [require]

theorem dateCheck_eq_ok {name : Bytes} {ok : Int → Int → Int → Bool} {ctx : VerifyContext} {t : Int}
    (h : ctx.jwt.payloadClaims.lookup name = some (.int64 t)) :
    dateCheck name ok ctx = .ok () ↔
      ok ctx.currentTime (fromTimeT ctx.ticks t) (ctx.defaultLeeway * ctx.ticks) = true := by
  rw [dateCheck, hasClaim, getClaim, h]
  exact require_eq_ok

theorem dateCheck_absent {name : Bytes} {ok : Int → Int → Int → Bool} {ctx : VerifyContext}
    (h : ctx.jwt.payloadClaims.lookup name = none) : dateCheck name ok ctx = .ok () := by
  rw [dateCheck, hasClaim, h]
  rfl

theorem equalsClaim_string {ctx : VerifyContext} {s : Bytes}
    (h : ctx.jwt.payloadClaims.lookup ctx.claimKey = some (.string s)) :
    equalsClaim json (.string s) ctx = .ok () := by
  rw [equalsClaim, VerifyContext.getClaim, h]
  simp [Json.getType, Json.asString, ok_bind, require, pure, Except.pure]

theorem isSubsetClaim_string {ctx : VerifyContext} {s : Bytes}
    (h : ctx.jwt.payloadClaims.lookup ctx.claimKey = some (.string s)) :
    isSubsetClaim [s] ctx = .ok () := by
  rw [isSubsetClaim, VerifyContext.getClaim, h]
  simp [Json.getType, Json.asString, ok_bind, require]

namespace Library

variable (lib : Library)

/-- The claims of a token. -/
theorem create_claims (now₁ now₂ : Nat) :
    (lib.create now₁ now₂).header lib.hs256 = [(ascii "alg", .string (ascii "HS256"))] ∧
    (lib.create now₁ now₂).payloadClaims =
      [(ascii "iss", .string (ascii "auth0")), (ascii "aud", .string (ascii "aud0")),
        (ascii "iat", dateClaim lib.ticks now₁),
        (ascii "exp", dateClaim lib.ticks (now₂ + 3600 * lib.ticks))] := ⟨rfl, rfl⟩

/-- A date loses the part of it that is finer than a second. -/
theorem fromTimeT_toTimeT (ticks n : Nat) :
    fromTimeT ticks (toTimeT ticks n) = (n / ticks * ticks : Nat) := by
  rw [fromTimeT, toTimeT, ← Int.ofNat_tdiv, ← Int.natCast_mul]

variable {lib}

/-- The checks of the server's verifier on a token of the server. -/
theorem checks_token {now₁ now₂ : Nat} (ctx : VerifyContext) (ht : ctx.ticks = lib.ticks)
    (hl : ctx.defaultLeeway = 0)
    (hc : ctx.jwt.payloadClaims = (lib.create now₁ now₂).payloadClaims) :
    (∀ c ∈ checks lib.json, c.2 { ctx with claimKey := c.1 } = .ok ()) ↔
      ((now₁ / lib.ticks * lib.ticks : Nat) : Int) ≤ ctx.currentTime ∧
        ctx.currentTime ≤ ((now₂ + 3600 * lib.ticks) / lib.ticks * lib.ticks : Nat) := by
  rw [(lib.create_claims now₁ now₂).2] at hc
  have hiss : ctx.jwt.payloadClaims.lookup (ascii "iss") = some (.string (ascii "auth0")) := by
    rw [hc]; rfl
  have haud : ctx.jwt.payloadClaims.lookup (ascii "aud") = some (.string (ascii "aud0")) := by
    rw [hc]; rfl
  have hiat : ctx.jwt.payloadClaims.lookup (ascii "iat") = some (dateClaim lib.ticks now₁) := by
    rw [hc]; rfl
  have hexp : ctx.jwt.payloadClaims.lookup (ascii "exp") =
      some (dateClaim lib.ticks (now₂ + 3600 * lib.ticks : Nat)) := by
    rw [hc]; rfl
  have hnbf : ctx.jwt.payloadClaims.lookup (ascii "nbf") = none := by
    rw [hc]; rfl
  have hnow : checkExp { ctx with claimKey := ascii "exp" } = .ok () ↔
      ctx.currentTime ≤ ((now₂ + 3600 * lib.ticks) / lib.ticks * lib.ticks : Nat) := by
    apply Iff.trans (dateCheck_eq_ok (by exact hexp))
    show (!decide (ctx.currentTime > fromTimeT ctx.ticks (toTimeT lib.ticks _) +
      (ctx.defaultLeeway * ctx.ticks : Int))) = true ↔ _
    rw [ht, hl, fromTimeT_toTimeT]
    simp
  have hnow' : checkIat { ctx with claimKey := ascii "iat" } = .ok () ↔
      ((now₁ / lib.ticks * lib.ticks : Nat) : Int) ≤ ctx.currentTime := by
    apply Iff.trans (dateCheck_eq_ok (by exact hiat))
    show (!decide (ctx.currentTime < fromTimeT ctx.ticks (toTimeT lib.ticks _) -
      (ctx.defaultLeeway * ctx.ticks : Int))) = true ↔ _
    rw [ht, hl, fromTimeT_toTimeT]
    simp
  simp only [checks, List.forall_mem_cons, List.not_mem_nil, false_imp_iff, implies_true, and_true]
  rw [hnow, hnow']
  constructor
  · rintro ⟨hexp, hiat, -⟩
    exact ⟨hiat, hexp⟩
  · rintro ⟨hiat, hexp⟩
    exact ⟨hexp, hiat, dateCheck_absent hnbf, equalsClaim_string hiss, isSubsetClaim_string haud⟩

/-- **The verifier** accepts a token of the server in its window, whatever the order of its checks
is. -/
theorem verify_token {now₁ now₂ : Nat}
    (hjson : ∀ value ∈ lib.serialized now₁ now₂,
      lib.json.parse (lib.json.serialize value) = .ok value) (now : Nat) :
    lib.verify (lib.token now₁ now₂) now = .ok () ↔
      now₁ / lib.ticks * lib.ticks ≤ now ∧
        now ≤ (now₂ + 3600 * lib.ticks) / lib.ticks * lib.ticks := by
  obtain ⟨header, payload, hd⟩ := decode_sign (lib.create now₁ now₂) lib.hs256
    (hjson _ (by simp [serialized])) (hjson _ (by simp [serialized]))
  have halg : getClaim ((lib.create now₁ now₂).header lib.hs256) (ascii "alg") =
      .ok (.string (ascii "HS256")) := rfl
  have hlookup : lib.verifier.algs.lookup (ascii "HS256") = some lib.hs256 := rfl
  rw [verify, token, hd, ok_bind, Verifier.verify, DecodedJwt.getAlgorithm]
  simp only [halg, ok_bind, Json.asString, hlookup, Hmacsha.verify_sign]
  rw [verifier, forM_eq_ok_of_perm lib.iteration_perm, forM_eq_ok]
  refine (checks_token ⟨lib.ticks, now, _, 0, []⟩ rfl rfl rfl).trans ?_
  simp only [Int.ofNat_le]

/-- The bytes of a token mean themselves in a target. -/
theorem mem_token {now₁ now₂ : Nat} {c : UInt8} (h : c ∈ lib.token now₁ now₂) :
    c ∈ base64url.data ∨ c = chr '.' := by
  have hpart {bin : Bytes} (hc : c ∈ base64url.trim (base64url.encode bin)) :
      c ∈ base64url.data := by
    rw [Alphabet.trim_encode] at hc
    exact Alphabet.mem_chars hc
  have hdot : ascii "." = [chr '.'] := by decide
  simp only [token, Builder.sign, hdot, List.mem_append, List.mem_singleton] at h
  grind

end Library

end ChatServer.Jwt

namespace ChatServer

open Lib

/-- The handler's environment, with the tokens of the library. -/
def HttpEnv.withTokens (env : HttpEnv) (lib : Jwt.Library) : HttpEnv :=
  { env with mint := lib.body }

/-- The server's environment, with the verifier of the library. -/
def Env.withTokens (env : Env) (lib : Jwt.Library) : Env := { env with verify := lib.verify }

/-- The body of the response to a request for a token. -/
theorem octets_response {lib : Jwt.Library} (henv : HttpEnv) {call : Call}
    (hcall : call.req.target = ascii "/api/ws" ∧ call.req.method = .get) :
    (call.response (henv.withTokens lib)).body.octets = lib.body call.now₁ call.now₂ := by
  rw [Call.response, handleRequest]
  simp only [if_pos hcall]
  simp [tokenResponse, HttpEnv.withTokens, Body.octets]

/-- **A token opens the WebSocket in its window.** `token` is the string in the response to a
request for a token, and the target of an upgrade request carries a percent-encoding of it. The
session starts `async_accept` if the clock is in the window when it reads it, both ends cut to
seconds, and takes the 401 path if not. -/
theorem mintedToken {lib : Jwt.Library} (henv : HttpEnv) (env : Env) {call : Call}
    {token path e : Bytes} {req : Request} {v : Nat} {w : Server} {s : Ptr}
    (hjson : ∀ value ∈ lib.serialized call.now₁ call.now₂,
      lib.json.parse (lib.json.serialize value) = .ok value)
    (hcall : call.req.target = ascii "/api/ws" ∧ call.req.method = .get)
    (hbody : lib.json.parse (call.response (henv.withTokens lib)).body.octets =
      .ok (.string token))
    (hpath : chr '?' ∉ path) (he : PercentEncoded token e)
    (htarget : req.target = path ++ ascii "?token=" ++ e)
    (hw : (server (env.withTokens lib)).Reach w) (hs : w.enabled (.upgrade s req v) = true) :
    ∃ w' o, (server (env.withTokens lib)).next w (.upgrade s req v) = some w' ∧
      w'.session s = some o ∧
      if call.now₁ / lib.ticks * lib.ticks ≤ v ∧
          v ≤ (call.now₂ + 3600 * lib.ticks) / lib.ticks * lib.ticks then o.ops = [.accept]
      else ∃ what, o.ops = [.write401 (WebsocketSession.response401 req what), .close] := by
  -- The client reads the token in the response.
  rw [octets_response henv hcall, Jwt.Library.body,
    hjson _ (by simp [Jwt.Library.serialized])] at hbody
  obtain rfl : lib.token call.now₁ call.now₂ = token := by simpa using hbody
  -- The session finds it in the target.
  have htoken : extractToken req.target = lib.token call.now₁ call.now₂ := by
    have hd : chr '%' ∉ Jwt.base64url.data ∧ chr '+' ∉ Jwt.base64url.data ∧
        chr '%' ≠ chr '.' ∧ chr '+' ≠ chr '.' := by decide
    rw [htarget, extractToken_append hpath]
    exact urlDecode_percentEncoded he
      (fun hm => (Jwt.Library.mem_token hm).elim hd.1 hd.2.2.1)
      (fun hm => (Jwt.Library.mem_token hm).elim hd.2.1 hd.2.2.2)
  have hverify := Jwt.Library.verify_token hjson v
  rw [← htoken] at hverify
  obtain ⟨w', o, hn, ho, hops⟩ :=
    Server.upgrade_ops (env.withTokens lib) (Server.reach_inv hw) hs
  refine ⟨w', o, hn, ho, ?_⟩
  rw [hops]
  by_cases hwindow : call.now₁ / lib.ticks * lib.ticks ≤ v ∧
      v ≤ (call.now₂ + 3600 * lib.ticks) / lib.ticks * lib.ticks
  · have hv : (env.withTokens lib).verify (extractToken req.target) v = .ok () :=
      hverify.mpr hwindow
    rw [if_pos hwindow, hv]
  · rw [if_neg hwindow]
    cases hv : (env.withTokens lib).verify (extractToken req.target) v with
    | ok u => exact absurd (hverify.mp hv) hwindow
    | error what => exact ⟨what, rfl⟩

/-- The text of a JSON value that holds no other than strings and numbers. -/
def compact : Jwt.Json → Bytes
  | .object members =>
    ascii "\x7b" ++ List.intercalate (ascii ",") (members.map fun member =>
      ascii "\"" ++ member.1 ++ ascii "\":" ++ scalar member.2) ++ ascii "\x7d"
  | value => scalar value
where
  scalar : Jwt.Json → Bytes
    | .string s => ascii "\"" ++ s ++ ascii "\""
    | .int64 n => ascii (toString n)
    | _ => []

/-- A parser of the texts of some values. -/
def parseOne (values : List Jwt.Json) (s : Bytes) : Except Bytes Jwt.Json :=
  match values.find? fun value => compact value == s with
  | some value => .ok value
  | none => .error (ascii "syntax error")

theorem parseOne_compact {values : List Jwt.Json} (hd : (values.map compact).Nodup)
    {value : Jwt.Json} (hm : value ∈ values) : parseOne values (compact value) = .ok value := by
  have hf : values.find? (fun v => compact v == compact value) = some value := by
    induction values with
    | nil => cases hm
    | cons v values ih =>
      obtain ⟨hv, hd⟩ := List.nodup_cons.mp hd
      rcases List.mem_cons.mp hm with rfl | hm
      · simp
      · have hne : compact v ≠ compact value := fun h => hv (h ▸ List.mem_map_of_mem hm)
        simp [hne, ih hd hm]
  rw [parseOne, hf]

/-- The token of the second 1700000000. -/
def sampleToken : Bytes :=
  ascii ("eyJhbGciOiJIUzI1NiJ9" ++
    ".eyJpc3MiOiJhdXRoMCIsImF1ZCI6ImF1ZDAiLCJpYXQiOjE3MDAwMDAwMDAsImV4cCI6MTcwMDAwMzYwMH0" ++
    ".4ycqm7qBQcpavu4bl_gZ-V1Zk9t2hVam98cNcfiJ3hA")

/-- The values that are serialized for the token. -/
def sampleValues : List Jwt.Json :=
  [.object [(ascii "alg", .string (ascii "HS256"))],
    .object [(ascii "iss", .string (ascii "auth0")), (ascii "aud", .string (ascii "aud0")),
      (ascii "iat", .int64 1700000000), (ascii "exp", .int64 1700003600)],
    .string sampleToken]

/-- The library as it behaves on the token. -/
def sampleLibrary : Jwt.Library where
  json := { serialize := compact, parse := parseOne sampleValues }
  hmacSha256 _ _ := [0xe3, 0x27, 0x2a, 0x9b, 0xba, 0x81, 0x41, 0xca, 0x5a, 0xbe, 0xee, 0x1b, 0x97,
    0xf8, 0x19, 0xf9, 0x5d, 0x59, 0x93, 0xdb, 0x76, 0x85, 0x56, 0xa6, 0xf7, 0xc7, 0x0d, 0x71, 0xf8,
    0x89, 0xde, 0x10]
  ticks := 1000000000
  iteration := Jwt.checks _
  iteration_perm := .refl _

/-- A request for the token: the clock is read twice within the second. -/
def sampleCall : Call :=
  { Call.plain { method := .get, target := ascii "/api/ws" } with
    now₁ := 1700000000250000000, now₂ := 1700000000300000000 }

theorem token_sample : sampleLibrary.token sampleCall.now₁ sampleCall.now₂ = sampleToken := by
  decide +kernel

theorem serialized_sample : sampleLibrary.serialized sampleCall.now₁ sampleCall.now₂ =
    sampleValues := by
  have hiat : Jwt.dateClaim sampleLibrary.ticks sampleCall.now₁ = .int64 1700000000 :=
    congrArg Jwt.Json.int64 (by decide)
  have hexp : Jwt.dateClaim sampleLibrary.ticks
      (sampleCall.now₂ + 3600 * sampleLibrary.ticks) = .int64 1700003600 :=
    congrArg Jwt.Json.int64 (by decide)
  obtain ⟨hh, hp⟩ := sampleLibrary.create_claims sampleCall.now₁ sampleCall.now₂
  rw [Jwt.Library.serialized, token_sample, hh, hp, hiat, hexp, sampleValues]

/-- The token is accepted a second later, with its first byte escaped. -/
theorem mintedToken_sample :
    let req : Request :=
      { method := .get, upgrade := true,
        target := ascii "/ws" ++ ascii "?token=" ++ (ascii "%65" ++ sampleToken.tail) }
    ∃ w' o, (server (plainEnv.withTokens sampleLibrary)).next {}
      (.upgrade 1 req 1700000001000000000) = some w' ∧ w'.session 1 = some o ∧
        o.ops = [.accept] := by
  intro req
  have hjson : ∀ value ∈ sampleLibrary.serialized sampleCall.now₁ sampleCall.now₂,
      sampleLibrary.json.parse (sampleLibrary.json.serialize value) = .ok value := by
    rw [serialized_sample]
    exact fun value hm => parseOne_compact (by decide +kernel) hm
  have hbody : sampleLibrary.json.parse
      (sampleCall.response (plainHttp.withTokens sampleLibrary)).body.octets =
        .ok (.string sampleToken) := by
    rw [octets_response plainHttp ⟨rfl, rfl⟩, Jwt.Library.body, token_sample]
    apply hjson _
    rw [serialized_sample]
    simp [sampleValues]
  have htoken : sampleToken = chr 'e' :: sampleToken.tail := by decide +kernel
  have hescape (t : Bytes) : PercentEncoded (chr 'e' :: t) (ascii "%65" ++ t) :=
    .escape (chr 'e') (.inl (by decide)) (.inl (by decide)) (.refl t)
  have he := hescape sampleToken.tail
  rw [← htoken] at he
  have htarget : req.target = _ := rfl
  have hs : ({} : Server).enabled (.upgrade 1 req 1700000001000000000) = true := rfl
  obtain ⟨w', o, hn, ho, hops⟩ := mintedToken plainHttp plainEnv hjson ⟨rfl, rfl⟩ hbody
    (by decide : chr '?' ∉ ascii "/ws") he htarget ⟨[], rfl⟩ hs
  rw [if_pos (by decide)] at hops
  exact ⟨w', o, hn, ho, hops⟩

end ChatServer
