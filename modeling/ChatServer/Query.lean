import ChatServer.UrlEncoding
import ChatServer.Safety

/-!
# The token parameter

`websocket_session::run` searches the target for `?token=` and takes all that follows it. In a
query that is a list of parameters this finds the first parameter only, together with those behind
it.

* `Query`: a target with a query, and the token that it carries.
* `extractToken_target`: what `run` takes from it.
* `tokenParameter`: when that is the token. `tokenParameter_second`: a token that is not found.
-/

namespace ChatServer

open Lib

/-- A target with a query of parameters, each a key and a value. At most one key is `token`. -/
structure Query where
  path : Bytes
  params : List (Bytes × Bytes)
  path_free : chr '?' ∉ path
  params_ne : params ≠ []
  free : ∀ param ∈ params, ∀ c ∈ ascii "?&=#", c ∉ param.1 ∧ c ∉ param.2
  one : (params.filter fun param => param.1 == ascii "token").length ≤ 1

namespace Query

/-- The text of some parameters. -/
def text (params : List (Bytes × Bytes)) : Bytes :=
  (ascii "&").intercalate (params.map fun param => param.1 ++ ascii "=" ++ param.2)

/-- The target of the request. -/
def target (q : Query) : Bytes := q.path ++ ascii "?" ++ text q.params

/-- The token that the query carries, empty if there is none. -/
def token (q : Query) : Bytes :=
  match q.params.lookup (ascii "token") with
  | some value => urlDecode value
  | none => []

variable {q : Query} {k v : Bytes} {params : List (Bytes × Bytes)}

/-! ## What `run` finds -/

/-- What follows the first parameter. -/
def tail (params : List (Bytes × Bytes)) : Bytes :=
  if params = [] then [] else chr '&' :: text params

theorem text_cons (k v : Bytes) (params : List (Bytes × Bytes)) :
    text ((k, v) :: params) = k ++ chr '=' :: (v ++ tail params) := by
  have heq : ascii "=" = [chr '='] := by decide
  have hamp : ascii "&" = [chr '&'] := by decide
  unfold tail
  by_cases hp : params = []
  · subst hp
    simp [text, heq]
  · have hm : params.map (fun param => param.1 ++ ascii "=" ++ param.2) ≠ [] :=
      mt List.map_eq_nil_iff.mp hp
    rw [if_neg hp, text, List.map_cons, List.intercalate_cons_of_ne_nil hm, hamp, heq]
    simp [text, heq, hamp]

/-- The text is made of the parameters and of the characters between them. -/
theorem mem_text {c : UInt8} (h : c ∈ text params) :
    c = chr '=' ∨ c = chr '&' ∨ ∃ param ∈ params, c ∈ param.1 ∨ c ∈ param.2 := by
  induction params with
  | nil => cases h
  | cons param params ih =>
    have htail : c ∈ tail params → c = chr '=' ∨ c = chr '&' ∨
        ∃ param ∈ params, c ∈ param.1 ∨ c ∈ param.2 := by
      unfold tail
      split
      · rintro ⟨⟩
      · intro hm
        rcases List.mem_cons.mp hm with rfl | hm
        · exact .inr (.inl rfl)
        · exact ih hm
    rw [text_cons, List.mem_append, List.mem_cons, List.mem_append] at h
    rcases h with h | h | h | h
    · exact .inr (.inr ⟨param, List.mem_cons_self, .inl h⟩)
    · exact .inl h
    · exact .inr (.inr ⟨param, List.mem_cons_self, .inr h⟩)
    · rcases htail h with h | h | ⟨other, hm, h⟩
      · exact .inl h
      · exact .inr (.inl h)
      · exact .inr (.inr ⟨other, List.mem_cons_of_mem _ hm, h⟩)

theorem text_free (q : Query) : chr '?' ∉ text q.params := by
  have hne : chr '?' ≠ chr '=' ∧ chr '?' ≠ chr '&' := by decide
  intro hm
  rcases mem_text hm with h | h | ⟨param, hp, h⟩
  · exact hne.1 h
  · exact hne.2 h
  · have hf := q.free param hp (chr '?') (by decide)
    exact h.elim hf.1 hf.2

/-- The text starts with the marker if the first key is the token's. -/
theorem token_isPrefixOf (hk : chr '=' ∉ k) (s : Bytes) :
    (ascii "token=").isPrefixOf (k ++ chr '=' :: s) = decide (k = ascii "token") := by
  have htoken : ascii "token=" = ascii "token" ++ [chr '='] := by decide
  have hfree : chr '=' ∉ ascii "token" := by decide
  rw [Bool.eq_iff_iff, List.isPrefixOf_iff_prefix, decide_eq_true_iff, htoken]
  constructor
  · rintro ⟨t, ht⟩
    rw [List.append_assoc, List.singleton_append] at ht
    exact (append_cons_inj hfree hk ht).1.symm
  · rintro rfl
    exact ⟨s, by rw [List.append_assoc, List.singleton_append]⟩

/-- **What `run` takes from a query**: the value of the first parameter, if that is the token, with
all that follows it. -/
theorem extractToken_target (hq : q.params = (k, v) :: params) :
    extractToken q.target =
      if k = ascii "token" then urlDecode (v ++ tail params) else [] := by
  have hm : ascii "?token=" = chr '?' :: ascii "token=" := by decide
  have hk : chr '=' ∉ k := (q.free (k, v) (hq ▸ List.mem_cons_self) (chr '=') (by decide)).1
  have hprefix := token_isPrefixOf hk (v ++ tail params)
  have hfree := text_free q
  rw [hq, text_cons] at hfree
  have htarget : q.target = q.path ++ (chr '?' :: (k ++ chr '=' :: (v ++ tail params))) := by
    have hmark : ascii "?" = [chr '?'] := by decide
    rw [target, hq, text_cons, hmark, List.append_assoc, List.singleton_append]
  by_cases hkey : k = ascii "token"
  · rw [if_pos hkey, htarget, hkey]
    have hjoin : ascii "?token=" = chr '?' :: (ascii "token" ++ [chr '=']) := by decide
    have happ := extractToken_append q.path_free (v ++ tail params)
    rw [hjoin] at happ
    simpa using happ
  · -- The only question mark is not followed by the marker.
    rw [if_neg hkey]
    have hnone : find (ascii "?token=") q.target = none := by
      rw [htarget, hm, find_skip q.path_free, find]
      simp only [List.isPrefixOf, beq_self_eq_true, Bool.true_and, hprefix, decide_eq_false hkey,
        Bool.false_eq_true, if_false, find_eq_none_of_notMem hfree, Option.map_none]
    rw [extractToken, hnone]

/-! ## When that is the token -/

/-- Bytes that stand for nothing are none. -/
theorem urlDecode_eq_nil_iff {s : Bytes} : urlDecode s = [] ↔ s = [] := by
  obtain ⟨ps, hps, rfl⟩ := exists_encoding s
  rw [urlDecode_encoded hps]
  cases ps with
  | nil => simp [encoded, decoded]
  | cons p ps => cases p <;> simp [Piece.text]

/-- What follows the value is decoded into something, too. -/
theorem urlDecode_tail_iff : urlDecode (v ++ tail params) = urlDecode v ↔ params = [] := by
  unfold tail
  split
  · rename_i hp
    simp [hp]
  · rename_i hp
    rw [urlDecode_append (by decide)]
    simp [hp, urlDecode_eq_nil_iff]

theorem lookup_eq_head? (key : Bytes) (params : List (Bytes × Bytes)) : params.lookup key =
    (params.filter fun param => param.1 == key).head?.map Prod.snd := by
  induction params with
  | nil => rfl
  | cons param params ih =>
    obtain ⟨k, v⟩ := param
    by_cases hk : k = key
    · simp [hk]
    · have hb : (key == k) = false := beq_eq_false_iff_ne.mpr (Ne.symm hk)
      simp [hk, List.lookup_cons, hb, ih]

theorem mem_of_lookup {key : Bytes} (h : params.lookup key = some v) : (key, v) ∈ params := by
  rw [lookup_eq_head?, Option.map_eq_some_iff] at h
  obtain ⟨⟨k, _⟩, hhead, rfl⟩ := h
  obtain ⟨hm, hk⟩ := List.mem_filter.mp (List.mem_of_head? hhead)
  obtain rfl : k = key := eq_of_beq hk
  exact hm

/-- The query carries no other token than one of its parameters. -/
theorem lookup_token (hm : (ascii "token", v) ∈ q.params) :
    q.params.lookup (ascii "token") = some v := by
  have hmem : (ascii "token", v) ∈ q.params.filter fun param => param.1 == ascii "token" :=
    List.mem_filter.mpr ⟨hm, beq_self_eq_true _⟩
  have hone : q.params.filter (fun param => param.1 == ascii "token") = [(ascii "token", v)] := by
    have hlen := q.one
    match hf : q.params.filter fun param => param.1 == ascii "token" with
    | [] => simp [hf] at hmem
    | [param] =>
      rw [hf] at hmem
      rw [hf, List.mem_singleton.mp hmem]
    | _ :: _ :: _ => simp [hf] at hlen
  rw [lookup_eq_head?, hone]
  rfl

theorem token_eq (hm : (ascii "token", v) ∈ q.params) : q.token = urlDecode v := by
  rw [token, lookup_token hm]

/-- `run` takes the token if it is the only parameter, or nothing of it is lost. -/
theorem extractToken_eq_token (q : Query) : extractToken q.target = q.token ↔
    ∀ value, (ascii "token", value) ∈ q.params → q.params = [(ascii "token", value)] ∨
      (q.params.head?.map Prod.fst ≠ some (ascii "token") ∧ value = []) := by
  obtain ⟨⟨k, v⟩, params, hq⟩ := List.exists_cons_of_ne_nil q.params_ne
  rw [extractToken_target hq]
  by_cases hk : k = ascii "token"
  · -- The first parameter is the token, and the others are taken for a part of it.
    have hm : (ascii "token", v) ∈ q.params := by rw [hq, hk]; exact List.mem_cons_self
    rw [if_pos hk, token_eq hm, urlDecode_tail_iff]
    constructor
    · rintro rfl value hvalue
      rw [hq, hk, List.mem_singleton] at hvalue
      exact .inl (by rw [hq, hk, hvalue])
    · intro h
      rcases h v hm with h | ⟨h, -⟩
      · rw [hq] at h
        exact (List.cons.inj h).2
      · exact absurd (by rw [hq, hk]; rfl) h
  · -- The first parameter is another one, and nothing is found.
    have hhead : q.params.head?.map Prod.fst ≠ some (ascii "token") := by
      rw [hq]
      exact fun h => hk (Option.some.inj h)
    rw [if_neg hk]
    constructor
    · intro h value hvalue
      rw [token_eq hvalue] at h
      exact .inr ⟨hhead, urlDecode_eq_nil_iff.mp h.symm⟩
    · intro h
      rw [token]
      cases hl : q.params.lookup (ascii "token") with
      | none => rfl
      | some value =>
        have hvalue : (ascii "token", value) ∈ q.params := mem_of_lookup hl
        rcases h value hvalue with h | ⟨-, rfl⟩
        · rw [h] at hhead
          exact absurd rfl hhead
        · rfl

end Query

/-! ## `run` -/

/-- `run` decodes and verifies `token`: whatever the verifier is, `async_accept` is started if and
only if it accepts this token. -/
def Verifies (req : Request) (token : Bytes) : Prop :=
  ∀ (env : Env) (w w' : Server) (s : Ptr) (now : Nat), (server env).Reach w →
    (server env).next w (.upgrade s req now) = some w' →
      ∃ o, w'.session s = some o ∧ (o.ops = [.accept] ↔ env.verify token now = .ok ())

theorem verifies_iff {req : Request} {token : Bytes} :
    Verifies req token ↔ extractToken req.target = token := by
  constructor
  · intro h
    by_contra hne
    -- A verifier that accepts this token alone.
    let env : Env :=
      { plainEnv with verify := fun t _ => if t = token then .ok () else .error [] }
    have hs : ({} : Server).enabled (.upgrade 1 req 0) = true := rfl
    have hi : ({} : Server).Inv := Server.reach_inv (show (server env).Reach {} from ⟨[], rfl⟩)
    obtain ⟨w', o, hn, ho, hops⟩ := Server.upgrade_ops env hi hs
    obtain ⟨o', ho', hiff⟩ := h env {} w' 1 0 ⟨[], rfl⟩ hn
    obtain rfl : o = o' := Option.some.inj (ho.symm.trans ho')
    have hbad : env.verify (extractToken req.target) 0 = .error [] := if_neg hne
    have haccept := hiff.mpr (if_pos rfl)
    rw [hops, hbad] at haccept
    cases haccept
  · rintro rfl env w w' s now hw hn
    have hi := Server.reach_inv hw
    obtain ⟨w'', o, hn', ho, hops⟩ := Server.upgrade_ops env hi (Server.next_cases hi hn).1
    obtain rfl : w' = w'' := Option.some.inj (hn.symm.trans hn')
    refine ⟨o, ho, ?_⟩
    rw [hops]
    cases env.verify (extractToken req.target) now <;> simp

/-- **The token parameter.** `run` decodes and verifies the token of the query if and only if the
query has no token, has no other parameter, or has an empty token that is not the first. -/
theorem tokenParameter (q : Query) (req : Request) :
    Verifies { req with target := q.target } q.token ↔
      ∀ value, (ascii "token", value) ∈ q.params → q.params = [(ascii "token", value)] ∨
        (q.params.head?.map Prod.fst ≠ some (ascii "token") ∧ value = []) := by
  rw [verifies_iff]
  exact q.extractToken_eq_token

/-- The token is the second parameter. -/
def secondParameter : Query where
  path := ascii "/ws"
  params := [(ascii "room", ascii "1"), (ascii "token", ascii "a.b.c")]
  path_free := by decide
  params_ne := by decide
  free := by decide +kernel
  one := by decide

/-- The token is not found. -/
theorem tokenParameter_second : ¬ ∀ (q : Query) (req : Request),
    Verifies { req with target := q.target } q.token := by
  intro h
  have htoken := verifies_iff.mp (h secondParameter {})
  have hfound : extractToken secondParameter.target = [] := by decide
  have hcarried : secondParameter.token = ascii "a.b.c" := by decide
  rw [hcarried] at htoken
  exact absurd (hfound.symm.trans htoken) (by decide)

end ChatServer
