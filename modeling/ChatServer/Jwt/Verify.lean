import ChatServer.Jwt.Minted
import ChatServer.Jwt.Texts

/-!
# The tokens that the verifier accepts

`websocket_session::run` gives any text at all to `jwt::decode` and `verify`. A text is accepted
if and only if it is the text of a `SignedToken` for this server, at a time in its window. So there
is no way in without the code for the header and the payload, and the times at which a token is
accepted are an interval, without an end if the token has no `exp`.

* `verify_iff`: the accepted tokens. `spellings`: the texts of a signature.
* `Library.InRange`: the texts that are no token of a holder of the secret, or one whose dates the
  clock can count. `inRange_token`: the tokens of the server are among them.
* `acceptance`: the times of such a text. About the others C++ says nothing: reading their dates
  overflows.
-/

namespace ChatServer.Jwt

open Lib

/-- A token of a holder of the secret: header and payload are texts of two objects, the header names
the algorithm, and the signature is a text of the code of the two texts. -/
structure SignedToken (lib : Library) where
  header : Bytes
  payload : Bytes
  signature : Bytes
  headerOctets : Bytes
  payloadOctets : Bytes
  headerClaims : Claims
  claims : Claims
  decode_header : decodePart header = .ok headerOctets
  decode_payload : decodePart payload = .ok payloadOctets
  parse_header : lib.json.parse headerOctets = .ok (.object headerClaims)
  parse_payload : lib.json.parse payloadOctets = .ok (.object claims)
  algorithm : headerClaims.lookup (ascii "alg") = some (.string (ascii "HS256"))
  decode_signature : decodePart signature =
    .ok (lib.hmacSha256 (ascii "secret") (header ++ ascii "." ++ payload))

variable {lib : Library}

/-- The text of a token. -/
def SignedToken.text (t : SignedToken lib) : Bytes :=
  t.header ++ ascii "." ++ t.payload ++ ascii "." ++ t.signature

/-- The issuer is the server's, and the audience is the server or a list of strings with it. -/
def Addressed (claims : Claims) : Prop :=
  claims.lookup (ascii "iss") = some (.string (ascii "auth0")) ∧
    (claims.lookup (ascii "aud") = some (.string (ascii "aud0")) ∨
      ∃ names : List Bytes, claims.lookup (ascii "aud") = some (.array (names.map .string)) ∧
        ascii "aud0" ∈ names)

/-- The claim `name`, if there is one, is a date with `ok`. -/
def Dated (ticks : Nat) (claims : Claims) (name : Bytes) (ok : Int → Prop) : Prop :=
  ∀ value, claims.lookup name = some value → ∃ d, asDate ticks value = .ok d ∧ ok d

/-- The time is in the window of the claims. -/
structure InWindow (ticks : Nat) (claims : Claims) (now : Int) : Prop where
  exp : Dated ticks claims (ascii "exp") (now ≤ ·)
  iat : Dated ticks claims (ascii "iat") (· ≤ now)
  nbf : Dated ticks claims (ascii "nbf") (· ≤ now)

/-- C++ defines the dates among the claims. -/
def DatesInRange (ticks : Nat) (claims : Claims) : Prop :=
  ∀ name ∈ [ascii "exp", ascii "iat", ascii "nbf"], ∀ value,
    claims.lookup name = some value → DateInRange ticks value

/-- C++ defines `verify` on the text: the dates that are read are those of a token whose signature
has been checked. -/
def Library.InRange (lib : Library) (token : Bytes) : Prop :=
  ∀ t : SignedToken lib, t.text = token → DatesInRange lib.ticks t.claims

/-! ## The parts -/

theorem asObject_eq_ok {value : Json} {members : Claims} :
    value.asObject = .ok members ↔ value = .object members := by
  cases value <;> simp [Json.asObject]

theorem asString_eq_ok {value : Json} {s : Bytes} :
    value.asString = .ok s ↔ value = .string s := by
  cases value <;> simp [Json.asString]

theorem parseClaims_eq_ok {json : JsonCodec} {s : Bytes} {members : Claims} :
    parseClaims json s = .ok members ↔ json.parse s = .ok (.object members) := by
  rw [parseClaims, bind_eq_ok]
  simp only [asObject_eq_ok]
  constructor
  · rintro ⟨_, hp, rfl⟩
    exact hp
  · exact fun hp => ⟨_, hp, rfl⟩

/-- No part of a token has a dot. -/
theorem dot_notMem_of_decodePart {s bin : Bytes} (h : decodePart s = .ok bin) : chr '.' ∉ s := by
  have hdata : chr '.' ∉ base64url.data := by decide
  have hfill : chr '.' ∉ base64url.filling 2 := by decide
  obtain ⟨t, r, hs, ht, -⟩ := decodePart_iff.mp h
  intro hm
  rcases hs with rfl | ⟨-, rfl⟩
  · exact hdata (ht _ hm)
  · exact (List.mem_append.mp hm).elim (fun hm => hdata (ht _ hm)) hfill

/-- A text that is decoded has two dots. -/
theorem exists_parts {json : JsonCodec} {token : Bytes} {jwt : DecodedJwt}
    (h : decode json token = .ok jwt) : ∃ header payload signature,
      token = header ++ ascii "." ++ payload ++ ascii "." ++ signature ∧
        chr '.' ∉ header ∧ chr '.' ∉ payload := by
  have hdot : ascii "." = [chr '.'] := by decide
  rw [decode, hdot] at h
  by_cases hm : chr '.' ∈ token
  · obtain ⟨header, rest, rfl, hh⟩ := List.eq_append_cons_of_mem hm
    have hf : find [chr '.'] (header ++ chr '.' :: rest) = some header.length := find_marker hh
    have hdrop : (header ++ chr '.' :: rest).drop (header.length + 1) = rest := by simp
    rw [hf] at h
    simp only [hdrop] at h
    by_cases hm : chr '.' ∈ rest
    · obtain ⟨payload, signature, rfl, hp⟩ := List.eq_append_cons_of_mem hm
      exact ⟨header, payload, signature, by simp [hdot], hh, hp⟩
    · rw [find_eq_none_of_notMem hm] at h
      cases h
  · rw [find_eq_none_of_notMem hm] at h
    cases h

/-- **What `decode` reads.** -/
theorem decode_eq_ok {json : JsonCodec} {token : Bytes} {jwt : DecodedJwt} :
    decode json token = .ok jwt ↔ ∃ signature headerOctets payloadOctets,
      token = jwt.headerBase64 ++ ascii "." ++ jwt.payloadBase64 ++ ascii "." ++ signature ∧
      decodePart jwt.headerBase64 = .ok headerOctets ∧
      decodePart jwt.payloadBase64 = .ok payloadOctets ∧
      decodePart signature = .ok jwt.signature ∧
      json.parse headerOctets = .ok (.object jwt.headerClaims) ∧
      json.parse payloadOctets = .ok (.object jwt.payloadClaims) := by
  constructor
  · intro h
    obtain ⟨header, payload, signature, rfl, hh, hp⟩ := exists_parts h
    rw [decode_eq json hh hp] at h
    simp only [bind_eq_ok, parseClaims_eq_ok] at h
    obtain ⟨h', hdh, p', hdp, s', hds, hc, hph, pc, hpp, hret⟩ := h
    obtain rfl := Except.ok.inj hret
    exact ⟨signature, h', p', rfl, hdh, hdp, hds, hph, hpp⟩
  · rintro ⟨signature, h', p', rfl, hdh, hdp, hds, hph, hpp⟩
    rw [decode_eq json (dot_notMem_of_decodePart hdh) (dot_notMem_of_decodePart hdp), hdh, hdp, hds]
    simp only [ok_bind, parseClaims_eq_ok.mpr hph, parseClaims_eq_ok.mpr hpp]
    rfl

namespace SignedToken

variable (t : SignedToken lib)

theorem decode_text : decode lib.json t.text =
    .ok ⟨t.headerClaims, t.claims, t.header, t.payload,
      lib.hmacSha256 (ascii "secret") (t.header ++ ascii "." ++ t.payload)⟩ :=
  decode_eq_ok.mpr ⟨t.signature, t.headerOctets, t.payloadOctets, rfl, t.decode_header,
    t.decode_payload, t.decode_signature, t.parse_header, t.parse_payload⟩

/-- The dots of the text are those between its parts. -/
theorem parts_of_text {header payload signature : Bytes} (hh : chr '.' ∉ header)
    (hp : chr '.' ∉ payload)
    (h : t.text = header ++ ascii "." ++ payload ++ ascii "." ++ signature) :
    t.header = header ∧ t.payload = payload ∧ t.signature = signature := by
  have hdot : ascii "." = [chr '.'] := by decide
  simp only [text, hdot, List.append_assoc, List.singleton_append] at h
  obtain ⟨hheader, hrest⟩ :=
    append_cons_inj (dot_notMem_of_decodePart t.decode_header) hh h
  obtain ⟨hpayload, hsignature⟩ :=
    append_cons_inj (dot_notMem_of_decodePart t.decode_payload) hp hrest
  exact ⟨hheader, hpayload, hsignature⟩

/-- The claims are those that are decoded. -/
theorem claims_of_decode {jwt : DecodedJwt} (h : decode lib.json t.text = .ok jwt) :
    t.claims = jwt.payloadClaims := by
  rw [t.decode_text] at h
  rw [← Except.ok.inj h]

/-- The text has two dots. -/
theorem count_text : t.text.count (chr '.') = 2 := by
  have hdot : ascii "." = [chr '.'] := by decide
  have hh := List.count_eq_zero.mpr (dot_notMem_of_decodePart t.decode_header)
  have hp := List.count_eq_zero.mpr (dot_notMem_of_decodePart t.decode_payload)
  have hs := List.count_eq_zero.mpr (dot_notMem_of_decodePart t.decode_signature)
  simp only [text, hdot, List.count_append, hh, hp, hs, List.count_singleton_self]

theorem text_ne_nil : t.text ≠ [] := by
  intro h
  have hcount := t.count_text
  rw [h] at hcount
  cases hcount

end SignedToken

/-! ## The checks -/

theorem eq_of_zip_all {s t : Bytes} (h : (s.zip t).all (fun p => p.1 == p.2) = true)
    (hlen : s.length = t.length) : s = t := by
  induction s generalizing t with
  | nil => exact (List.length_eq_zero_iff.mp hlen.symm).symm
  | cons c s ih =>
    cases t with
    | nil => cases hlen
    | cons d t =>
      simp only [List.zip_cons_cons, List.all_cons, Bool.and_eq_true, beq_iff_eq] at h
      rw [h.1, ih h.2 (Nat.succ.inj hlen)]

/-- `hmacsha::verify` compares the whole signature. -/
theorem Hmacsha.verify_eq_ok {algo : Hmacsha} {data signature : Bytes} :
    algo.verify data signature = .ok () ↔ signature = algo.sign data := by
  constructor
  · intro h
    rw [Hmacsha.verify] at h
    split at h
    case isFalse => cases h
    case isTrue hm =>
      obtain ⟨hall, hlen⟩ := Bool.and_eq_true_iff.mp hm
      exact (eq_of_zip_all hall (beq_iff_eq.mp hlen)).symm
  · rintro rfl
    exact Hmacsha.verify_sign algo data

variable {ctx : VerifyContext}

/-- A check of a date succeeds if the claim is absent, or if it is a date with `ok`. -/
theorem dateCheck_iff {name : Bytes} {ok : Int → Int → Int → Bool} :
    dateCheck name ok ctx = .ok () ↔ ∀ value, ctx.jwt.payloadClaims.lookup name = some value →
      ∃ d, asDate ctx.ticks value = .ok d ∧
        ok ctx.currentTime d (ctx.defaultLeeway * ctx.ticks) = true := by
  cases hl : ctx.jwt.payloadClaims.lookup name with
  | none => simp [dateCheck_absent hl]
  | some value =>
    rw [dateCheck, hasClaim, getClaim, hl]
    simp only [Option.isSome_some, Bool.not_true, Bool.false_eq_true, if_false, ok_bind, bind_eq_ok,
      require_eq_ok, Option.some.injEq, forall_eq']

theorem getClaim_eq_ok {value : Json} :
    ctx.getClaim = .ok value ↔ ctx.jwt.payloadClaims.lookup ctx.claimKey = some value := by
  rw [VerifyContext.getClaim]
  cases ctx.jwt.payloadClaims.lookup ctx.claimKey <;> simp

/-- The check of the issuer. -/
theorem equalsClaim_iff {json : JsonCodec} {s : Bytes} :
    equalsClaim json (.string s) ctx = .ok () ↔
      ctx.jwt.payloadClaims.lookup ctx.claimKey = some (.string s) := by
  refine ⟨fun h => ?_, equalsClaim_string⟩
  rw [equalsClaim, show (Json.string s).getType = .ok .string from rfl, ok_bind, bind_eq_ok] at h
  obtain ⟨value, hc, h⟩ := h
  rw [getClaim_eq_ok.mp hc]
  cases value with
  | string s' =>
    have heq : require (s == s') .claimValueMissmatch = .ok () := h
    rw [beq_iff_eq.mp (require_eq_ok.mp heq)]
  | _ => cases h

theorem mapM_asString {elems : List Json} {names : List Bytes} :
    elems.mapM Json.asString = .ok names ↔ elems = names.map .string := by
  induction elems generalizing names with
  | nil => cases names <;> simp [pure, Except.pure]
  | cons value elems ih =>
    rw [List.mapM_cons]
    simp only [bind_eq_ok, asString_eq_ok, ih]
    cases names with
    | nil => simp [pure, Except.pure]
    | cons s names =>
      simp [pure, Except.pure]

/-- The check of the audience. -/
theorem isSubsetClaim_iff {s : Bytes} : isSubsetClaim [s] ctx = .ok () ↔
    ctx.jwt.payloadClaims.lookup ctx.claimKey = some (.string s) ∨
      ∃ names : List Bytes, ctx.jwt.payloadClaims.lookup ctx.claimKey =
        some (.array (names.map .string)) ∧ s ∈ names := by
  constructor
  · intro h
    rw [isSubsetClaim, bind_eq_ok] at h
    obtain ⟨value, hc, h⟩ := h
    rw [getClaim_eq_ok.mp hc]
    cases value with
    | string s' =>
      have heq : require ([s] == [s']) .audienceMissmatch = .ok () := h
      have hs := beq_iff_eq.mp (require_eq_ok.mp heq)
      exact .inl (by rw [(List.cons.inj hs).1])
    | array elems =>
      have hset : (Json.asSet (.array elems) >>= fun jc =>
        require ([s].all fun e => jc.contains e) .audienceMissmatch) = .ok () := h
      obtain ⟨names, hn, hmem⟩ := bind_eq_ok.mp hset
      obtain rfl := mapM_asString.mp hn
      exact .inr ⟨names, rfl, by simpa using require_eq_ok.mp hmem⟩
    | _ => cases h
  · rintro (h | ⟨names, hl, hmem⟩)
    · exact isSubsetClaim_string h
    · have hset : (Json.array (names.map .string)).asSet = .ok names := mapM_asString.mpr rfl
      have hall : require ([s].all fun e => names.contains e) .audienceMissmatch = .ok () :=
        require_eq_ok.mpr (by simpa using hmem)
      rw [isSubsetClaim, getClaim_eq_ok.mpr hl, ok_bind]
      show (Json.asSet _ >>= fun jc => require ([s].all fun e => jc.contains e) _) = _
      rw [hset, ok_bind, hall]

/-- The checks of the server's verifier. -/
theorem checks_iff {json : JsonCodec} (ctx : VerifyContext) (hl : ctx.defaultLeeway = 0) :
    (∀ c ∈ checks json, c.2 { ctx with claimKey := c.1 } = .ok ()) ↔
      Addressed ctx.jwt.payloadClaims ∧
        InWindow ctx.ticks ctx.jwt.payloadClaims ctx.currentTime := by
  have hexp (now d : Int) : (!decide (now > d + ((0 : Nat) * ctx.ticks : Int))) = true ↔
      now ≤ d := by simp
  have hfrom (now d : Int) : (!decide (now < d - ((0 : Nat) * ctx.ticks : Int))) = true ↔
      d ≤ now := by simp
  simp only [checks, List.forall_mem_cons, List.not_mem_nil, false_imp_iff, implies_true, and_true,
    checkExp, checkIat, checkNbf, dateCheck_iff, equalsClaim_iff, isSubsetClaim_iff, hl, hexp,
    hfrom]
  constructor
  · rintro ⟨hexp, hiat, hnbf, hiss, haud⟩
    exact ⟨⟨hiss, haud⟩, hexp, hiat, hnbf⟩
  · rintro ⟨⟨hiss, haud⟩, hexp, hiat, hnbf⟩
    exact ⟨hexp, hiat, hnbf, hiss, haud⟩

namespace Library

/-- The verifier on a decoded token. -/
theorem verifier_iff {jwt : DecodedJwt} {now : Nat} :
    lib.verifier.verify lib.ticks jwt now = .ok () ↔
      jwt.headerClaims.lookup (ascii "alg") = some (.string (ascii "HS256")) ∧
      jwt.signature = lib.hmacSha256 (ascii "secret")
        (jwt.headerBase64 ++ ascii "." ++ jwt.payloadBase64) ∧
      Addressed jwt.payloadClaims ∧ InWindow lib.ticks jwt.payloadClaims now := by
  have halg (algo : Bytes) : jwt.getAlgorithm = .ok algo ↔
      jwt.headerClaims.lookup (ascii "alg") = some (.string algo) := by
    rw [DecodedJwt.getAlgorithm, getClaim]
    cases jwt.headerClaims.lookup (ascii "alg") with
    | none => simp [error_bind]
    | some value => simp [ok_bind, asString_eq_ok]
  have hchecks : forM lib.verifier.claims (fun c : Bytes × Check =>
      c.2 { ticks := lib.ticks, currentTime := now, jwt, defaultLeeway := 0, claimKey := c.1 }) =
      .ok () ↔ Addressed jwt.payloadClaims ∧ InWindow lib.ticks jwt.payloadClaims now := by
    rw [verifier, forM_eq_ok_of_perm lib.iteration_perm, forM_eq_ok]
    exact checks_iff ⟨lib.ticks, now, jwt, 0, []⟩ rfl
  rw [Verifier.verify, bind_eq_ok]
  simp only [halg]
  constructor
  · rintro ⟨algo, ha, h⟩
    by_cases hname : algo = ascii "HS256"
    · subst hname
      rw [show lib.verifier.algs.lookup (ascii "HS256") = some lib.hs256 from rfl] at h
      obtain ⟨_, hmac, h⟩ := bind_eq_ok.mp h
      exact ⟨ha, Hmacsha.verify_eq_ok.mp hmac, hchecks.mp h⟩
    · have hnone : lib.verifier.algs.lookup algo = none := by
        have hne : (algo == ascii "HS256") = false := beq_false_of_ne hname
        simp [verifier, hs256, List.lookup_cons, hne]
      rw [hnone] at h
      cases h
  · rintro ⟨ha, hmac, h⟩
    refine ⟨_, ha, ?_⟩
    rw [show lib.verifier.algs.lookup (ascii "HS256") = some lib.hs256 from rfl]
    exact bind_eq_ok.mpr ⟨(), Hmacsha.verify_eq_ok.mpr hmac, hchecks.mpr h⟩

/-- **The accepted tokens** are those of a holder of the secret, for this server and in their
window. -/
theorem verify_iff {token : Bytes} {now : Nat} : lib.verify token now = .ok () ↔
    ∃ t : SignedToken lib, t.text = token ∧ Addressed t.claims ∧
      InWindow lib.ticks t.claims now := by
  rw [verify, bind_eq_ok]
  constructor
  · rintro ⟨jwt, hd, hv⟩
    obtain ⟨signature, h', p', rfl, hdh, hdp, hds, hph, hpp⟩ := decode_eq_ok.mp hd
    obtain ⟨halg, hmac, haddr, hwin⟩ := verifier_iff.mp hv
    exact ⟨⟨jwt.headerBase64, jwt.payloadBase64, signature, h', p', jwt.headerClaims,
      jwt.payloadClaims, hdh, hdp, hph, hpp, halg, hmac ▸ hds⟩, rfl, haddr, hwin⟩
  · rintro ⟨t, rfl, haddr, hwin⟩
    exact ⟨_, t.decode_text, verifier_iff.mpr ⟨t.algorithm, rfl, haddr, hwin⟩⟩

/-- The times of a token for this server. -/
theorem verify_text {t : SignedToken lib} (haddr : Addressed t.claims) {now : Nat} :
    lib.verify t.text now = .ok () ↔ InWindow lib.ticks t.claims now := by
  rw [verify, t.decode_text, ok_bind, verifier_iff]
  exact ⟨fun h => h.2.2.2, fun h => ⟨t.algorithm, rfl, haddr, h⟩⟩

end Library

/-! ## The window -/

/-- A claim that is a date if it is there bounds the time by at most one date. -/
theorem Dated.date {ticks : Nat} {claims : Claims} {name : Bytes} {ok : Int → Prop}
    (h : Dated ticks claims name ok) : ∃ date : Option Int,
      (date = none ↔ claims.lookup name = none) ∧
        ∀ ok' : Int → Prop, Dated ticks claims name ok' ↔ ∀ d ∈ date, ok' d := by
  unfold Dated at h ⊢
  cases hl : claims.lookup name with
  | none => exact ⟨none, by simp, fun ok' => by simp⟩
  | some value =>
    obtain ⟨d, hd, -⟩ := h value hl
    exact ⟨some d, by simp, fun ok' => by simp [hd]⟩

/-- **The window** is an interval of times, and has an end if there is a claim `exp`. -/
theorem InWindow.interval {ticks : Nat} {claims : Claims} {now : Nat}
    (h : InWindow ticks claims now) : ∃ (first : Nat) (last : Option Nat),
      (last = none ↔ claims.lookup (ascii "exp") = none) ∧
        ∀ n : Nat, InWindow ticks claims n ↔ first ≤ n ∧ ∀ m ∈ last, n ≤ m := by
  obtain ⟨exp, hnone, hexp⟩ := h.exp.date
  obtain ⟨iat, -, hiat⟩ := h.iat.date
  obtain ⟨nbf, -, hnbf⟩ := h.nbf.date
  have hfrom (date : Option Int) (n : Nat) : (∀ d ∈ date, d ≤ (n : Int)) ↔
      (date.getD 0).toNat ≤ n := by
    cases date <;> simp
  have hto (n : Nat) : (∀ d ∈ exp, (n : Int) ≤ d) ↔ ∀ m ∈ exp.map Int.toNat, n ≤ m := by
    have hpos : ∀ d ∈ exp, (now : Int) ≤ d := (hexp _).mp h.exp
    cases exp with
    | none => simp
    | some d =>
      have hd := hpos d rfl
      simp
      omega
  refine ⟨max (iat.getD 0).toNat (nbf.getD 0).toNat, exp.map Int.toNat, by simp [hnone],
    fun n => ?_⟩
  rw [Nat.max_le, ← hfrom, ← hfrom, ← hto]
  constructor
  · rintro ⟨he, hi, hn⟩
    exact ⟨⟨(hiat _).mp hi, (hnbf _).mp hn⟩, (hexp _).mp he⟩
  · rintro ⟨⟨hi, hn⟩, he⟩
    exact ⟨(hexp _).mpr he, (hiat _).mpr hi, (hnbf _).mpr hn⟩

/-! ## The dates of the server's tokens -/

/-- A clock reading that an `int64_t` counts is a date in range. -/
theorem dateInRange_dateClaim {ticks n : Nat} (h : n < 2 ^ 63) :
    DateInRange ticks (dateClaim ticks n) where
  number d hd := by cases hd
  product d hd := by
    have hdate : asDate ticks (dateClaim ticks n) = .ok (fromTimeT ticks (toTimeT ticks n)) := rfl
    rw [hdate, Library.fromTimeT_toTimeT] at hd
    have hle := Nat.div_mul_le_self n ticks
    obtain rfl := Except.ok.inj hd
    omega

/-- **The tokens of the server** have dates in range, while an hour from now is one. -/
theorem Library.inRange_token {now₁ now₂ : Nat}
    (hjson : ∀ value ∈ lib.serialized now₁ now₂,
      lib.json.parse (lib.json.serialize value) = .ok value)
    (h₁ : now₁ < 2 ^ 63) (h₂ : now₂ + 3600 * lib.ticks < 2 ^ 63) :
    lib.InRange (lib.token now₁ now₂) := by
  intro t ht name hname value hl
  obtain ⟨header, payload, hd⟩ := decode_sign (lib.create now₁ now₂) lib.hs256
    (hjson _ (by simp [serialized])) (hjson _ (by simp [serialized]))
  rw [show (lib.create now₁ now₂).sign lib.json lib.hs256 = t.text from ht.symm] at hd
  rw [t.claims_of_decode hd, (lib.create_claims now₁ now₂).2] at hl
  simp only [List.mem_cons, List.not_mem_nil, or_false] at hname
  obtain rfl | rfl | rfl := hname
  · obtain rfl : dateClaim lib.ticks (now₂ + 3600 * lib.ticks : Nat) = value := Option.some.inj hl
    exact dateInRange_dateClaim h₂
  · obtain rfl : dateClaim lib.ticks now₁ = value := Option.some.inj hl
    exact dateInRange_dateClaim h₁
  · cases hl

/-! ## What is accepted, and when -/

namespace Library

/-- **The tokens of this server.** A text on which C++ defines the verifier is accepted exactly if
it is a token signed with the secret, with dates in range, for this server and in its window. If it
is ever accepted, it is accepted in an interval of times, which has an end exactly if the token has
a claim `exp`. -/
theorem acceptance (lib : Library) (token : Bytes) (hrange : lib.InRange token) :
    (∀ now : Nat, lib.verify token now = .ok () ↔ ∃ t : SignedToken lib, t.text = token ∧
      DatesInRange lib.ticks t.claims ∧ Addressed t.claims ∧ InWindow lib.ticks t.claims now) ∧
    ((∀ now, lib.verify token now ≠ .ok ()) ∨
      ∃ t : SignedToken lib, t.text = token ∧ ∃ (first : Nat) (last : Option Nat),
        (last = none ↔ t.claims.lookup (ascii "exp") = none) ∧
          ∀ now, lib.verify token now = .ok () ↔ first ≤ now ∧ ∀ m ∈ last, now ≤ m) := by
  constructor
  · intro now
    rw [verify_iff]
    constructor
    · rintro ⟨t, ht, haddr, hwin⟩
      exact ⟨t, ht, hrange t ht, haddr, hwin⟩
    · rintro ⟨t, ht, -, haddr, hwin⟩
      exact ⟨t, ht, haddr, hwin⟩
  · by_cases h : ∃ now, lib.verify token now = .ok ()
    · obtain ⟨now, hv⟩ := h
      obtain ⟨t, rfl, haddr, hwin⟩ := verify_iff.mp hv
      obtain ⟨first, last, hlast, hinterval⟩ := hwin.interval
      exact .inr ⟨t, rfl, first, last, hlast, fun n => (verify_text haddr).trans (hinterval n)⟩
    · exact .inl fun now hv => h ⟨now, hv⟩

/-- The verifier goes by what the text of the signature stands for. -/
theorem verify_signature (lib : Library) {header payload : Bytes} (hh : chr '.' ∉ header)
    (hp : chr '.' ∉ payload) :
    ∃ Q : Nat → Prop, ∀ signature now,
      lib.verify (header ++ ascii "." ++ payload ++ ascii "." ++ signature) now = .ok () ↔
        decodePart signature =
          .ok (lib.hmacSha256 (ascii "secret") (header ++ ascii "." ++ payload)) ∧ Q now := by
  refine ⟨fun now => ∃ t : SignedToken lib, t.header = header ∧ t.payload = payload ∧
    Addressed t.claims ∧ InWindow lib.ticks t.claims now, fun signature now => ?_⟩
  rw [verify_iff]
  constructor
  · rintro ⟨t, ht, haddr, hwin⟩
    obtain ⟨rfl, rfl, rfl⟩ := t.parts_of_text hh hp ht
    exact ⟨t.decode_signature, t, rfl, rfl, haddr, hwin⟩
  · rintro ⟨hs, t, rfl, rfl, haddr, hwin⟩
    exact ⟨{ t with signature := signature, decode_signature := hs }, rfl, haddr, hwin⟩

/-- **The spellings of a signature.** An accepted token is one of four with its header and payload,
which differ in the text of the signature only and are accepted at the same times. -/
theorem spellings {lib : Library}
    (hmac : ∀ data, (lib.hmacSha256 (ascii "secret") data).length = 32)
    {header payload signature : Bytes} {now : Nat}
    (h : lib.verify (header ++ ascii "." ++ payload ++ ascii "." ++ signature) now = .ok ()) :
    ∃ texts : List Bytes, texts.Nodup ∧ texts.length = 4 ∧ ∀ s n,
      lib.verify (header ++ ascii "." ++ payload ++ ascii "." ++ s) n = .ok () ↔
        s ∈ texts ∧
          lib.verify (header ++ ascii "." ++ payload ++ ascii "." ++ signature) n = .ok () := by
  have hdot : ascii "." = [chr '.'] := by decide
  obtain ⟨hh, hp⟩ : chr '.' ∉ header ∧ chr '.' ∉ payload := by
    obtain ⟨t, ht, -⟩ := verify_iff.mp h
    have hcount := t.count_text
    rw [ht, hdot] at hcount
    simp only [List.count_append, List.count_singleton_self] at hcount
    exact ⟨List.count_eq_zero.mp (by omega), List.count_eq_zero.mp (by omega)⟩
  obtain ⟨Q, hQ⟩ := verify_signature lib hh hp
  generalize hdata : lib.hmacSha256 (ascii "secret") (header ++ ascii "." ++ payload) = mac at hQ
  have hspare : spare mac = 2 := by rw [spare, ← hdata, hmac]
  obtain ⟨texts, hnodup, hlen, htexts⟩ := exists_texts mac
  refine ⟨texts, hnodup, by rw [hlen, hspare]; rfl, fun s n => ?_⟩
  rw [hQ, hQ, htexts, hspare]
  have hsignature := ((hQ signature now).mp h).1
  constructor
  · rintro ⟨hs, hq⟩
    exact ⟨hs.resolve_right fun hfour => absurd hfour.1 (by decide), hsignature, hq⟩
  · rintro ⟨hs, -, hq⟩
    exact ⟨.inl hs, hq⟩

end Library

end ChatServer.Jwt

namespace ChatServer

open Lib

theorem json_sample : ∀ value ∈ sampleLibrary.serialized sampleCall.now₁ sampleCall.now₂,
    sampleLibrary.json.parse (sampleLibrary.json.serialize value) = .ok value := by
  rw [serialized_sample]
  exact fun value hm => parseOne_compact (by decide +kernel) hm

theorem verify_sample : sampleLibrary.verify sampleToken 1700000001000000000 = .ok () := by
  rw [← token_sample]
  exact (Jwt.Library.verify_token json_sample _).mpr (by decide)

theorem inRange_sample : sampleLibrary.InRange sampleToken := by
  rw [← token_sample]
  exact Jwt.Library.inRange_token json_sample (by decide) (by decide)

open Jwt in
/-- The sample token is accepted, and for how long. -/
theorem acceptance_sample :
    (∃ t : SignedToken sampleLibrary, t.text = sampleToken ∧
      DatesInRange sampleLibrary.ticks t.claims ∧ Addressed t.claims ∧
      InWindow sampleLibrary.ticks t.claims 1700000001000000000) ∧
    ∃ t : SignedToken sampleLibrary, t.text = sampleToken ∧ ∃ (first : Nat) (last : Option Nat),
      (last = none ↔ t.claims.lookup (ascii "exp") = none) ∧
        ∀ now, sampleLibrary.verify sampleToken now = .ok () ↔
          first ≤ now ∧ ∀ m ∈ last, now ≤ m := by
  obtain ⟨haccepted, hwindow⟩ := Library.acceptance sampleLibrary sampleToken inRange_sample
  exact ⟨(haccepted _).mp verify_sample, hwindow.resolve_left fun h => h _ verify_sample⟩

/-- The sample token is one of four. -/
theorem spellings_sample : ∃ header payload texts : List _, texts.length = 4 ∧
    sampleToken = header ++ ascii "." ++ payload ++ ascii "." ++
      ascii "4ycqm7qBQcpavu4bl_gZ-V1Zk9t2hVam98cNcfiJ3hA" ∧
    ∀ s n, sampleLibrary.verify (header ++ ascii "." ++ payload ++ ascii "." ++ s) n = .ok () ↔
      s ∈ texts ∧ sampleLibrary.verify sampleToken n = .ok () := by
  have htoken : sampleToken = sampleToken.take 20 ++ ascii "." ++
      (sampleToken.drop 21).take 83 ++ ascii "." ++
      ascii "4ycqm7qBQcpavu4bl_gZ-V1Zk9t2hVam98cNcfiJ3hA" := by decide +kernel
  have hv := verify_sample
  rw [htoken] at hv
  obtain ⟨texts, -, hlen, htexts⟩ := Jwt.Library.spellings (fun _ => rfl) hv
  refine ⟨_, _, texts, hlen, htoken, fun s n => ?_⟩
  rw [htexts, ← htoken]

end ChatServer
