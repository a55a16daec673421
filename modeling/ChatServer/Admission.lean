import ChatServer.Jwt.Verify
import ChatServer.Program
import ChatServer.UrlEncoding

/-!
# Who gets in

What an upgrade target has to carry, from its bytes to the claims of the token: behind the first
`?token=` an encoding of the text of a token that a holder of the secret has signed, for this server
and in its window. The dates of such a token have to be in range: otherwise C++ does not say what
the verifier does.

* `Credential`: all this, as data. `verify_extractToken`: the verifier accepts the targets that have
  it, and no others.
* `credentials`: in a run of the program the upgrade requests with a credential start a handshake,
  the others are refused, and nobody is sent anything but what someone with a credential said.
-/

namespace ChatServer

open Lib Jwt

/-- What a target shows at the time `now`. -/
structure Credential (lib : Library) (target : Bytes) (now : Nat) where
  path : Bytes
  pieces : List Piece
  token : SignedToken lib
  target_eq : target = path ++ ascii "?token=" ++ encoded pieces
  first : ∀ k < path.length, ¬ ascii "?token=" <+: target.drop k
  encoding : Encoding pieces
  decoded_eq : decoded pieces = token.text
  dates : DatesInRange lib.ticks token.claims
  addressed : Addressed token.claims
  window : InWindow lib.ticks token.claims now

/-- The token that a target carries. -/
theorem extractToken_iff {target text : Bytes} (hne : text ≠ []) :
    extractToken target = text ↔ ∃ path pieces,
      target = path ++ ascii "?token=" ++ encoded pieces ∧
      (∀ k < path.length, ¬ ascii "?token=" <+: target.drop k) ∧
      Encoding pieces ∧ decoded pieces = text := by
  have hseven : (ascii "?token=").length = 7 := by decide
  constructor
  · intro h
    rw [extractToken] at h
    cases hf : find (ascii "?token=") target with
    | none =>
      rw [hf] at h
      exact absurd h.symm hne
    | some n =>
      rw [hf] at h
      obtain ⟨⟨rest, hrest⟩, hfirst⟩ := find_eq_some_iff.mp hf
      have hlen : (target.take n).length = n := by
        have hdrop := congrArg List.length hrest
        rw [List.length_append, List.length_drop, hseven] at hdrop
        rw [List.length_take]
        omega
      have htail : target.drop (n + 7) = rest := by
        rw [← List.drop_drop, ← hrest, ← hseven, List.drop_left]
      obtain ⟨pieces, henc, hpieces⟩ := exists_encoding rest
      refine ⟨target.take n, pieces, ?_, by rwa [hlen], henc, ?_⟩
      · rw [hpieces, List.append_assoc, hrest, List.take_append_drop]
      · rw [← urlDecode_encoded henc, hpieces, ← htail]
        exact h
  · rintro ⟨path, pieces, htarget, hfirst, henc, rfl⟩
    have hdrop : target.drop path.length = ascii "?token=" ++ encoded pieces := by
      rw [htarget, List.append_assoc, List.drop_left]
    have hf : find (ascii "?token=") target = some path.length :=
      find_eq_some_iff.mpr ⟨hdrop ▸ List.prefix_append _ _, hfirst⟩
    rw [extractToken, hf]
    show urlDecode (target.drop (path.length + 7)) = _
    rw [← List.drop_drop, hdrop, ← hseven, List.drop_left]
    exact urlDecode_encoded henc

/-- **The targets that the verifier accepts**, where C++ defines what it does. -/
theorem verify_extractToken {lib : Library} {target : Bytes}
    (hrange : lib.InRange (extractToken target)) (now : Nat) :
    lib.verify (extractToken target) now = .ok () ↔ Nonempty (Credential lib target now) := by
  rw [Library.verify_iff]
  constructor
  · rintro ⟨t, ht, haddr, hwin⟩
    obtain ⟨path, pieces, htarget, hfirst, henc, hdec⟩ :=
      (extractToken_iff t.text_ne_nil).mp ht.symm
    exact ⟨⟨path, pieces, t, htarget, hfirst, henc, hdec, hrange t ht, haddr, hwin⟩⟩
  · rintro ⟨c⟩
    have htext := (extractToken_iff c.token.text_ne_nil).mpr
      ⟨c.path, c.pieces, c.target_eq, c.first, c.encoding, c.decoded_eq⟩
    exact ⟨c.token, htext.symm, c.addressed, c.window⟩

open Program in
/-- **Nobody speaks without a credential.** The library of tokens is the program's, and no upgrade
request presents a signed token with a date out of range. An upgrade request starts a handshake if
its target has a credential at that moment, and the 401 path if it has none. And whatever a client
is sent besides its own greeting was broadcast by a session whose upgrade request had one. -/
theorem credentials {lib : Library} {henv : HttpEnv} {env : Env} {calls : Setup} {l₀ l : Listener}
    {w : Server} {xs : List (Joint ListenerEvent Server.Event)} (hl : Listener.new calls = .ok l₀)
    (hr : (program henv (env.withTokens lib) l₀).Runs xs (l, w))
    (hrange : ∀ h ∈ handovers xs, lib.InRange (extractToken h.req.target)) :
    (∀ xs₁ x xs₂ h, xs = xs₁ ++ x :: xs₂ → handover? x = some h →
      ∃ l' w' o, (program henv (env.withTokens lib) l₀).Runs (xs₁ ++ [x]) (l', w') ∧
        w'.session h.session = some o ∧
        ((Nonempty (Credential lib h.req.target h.now) ∧ o.ops = [.accept]) ∨
          (IsEmpty (Credential lib h.req.target h.now) ∧ ∃ what,
            o.ops = [.write401 (WebsocketSession.response401 h.req what), .close]))) ∧
    ∀ s o m, w.session s = some o → m ∈ o.written ++ o.queue →
      m = ⟨greeting o.connectionId, none⟩ ∨ ∃ b ∈ w.history, b.message = m.str ∧
        ∃ h ∈ handovers xs, b.caller = some h.session ∧
          Nonempty (Credential lib h.req.target h.now) := by
  have hverify (h : Handover) (hm : h ∈ handovers xs) :
      (env.withTokens lib).verify (extractToken h.req.target) h.now = .ok () ↔
        Nonempty (Credential lib h.req.target h.now) := verify_extractToken (hrange h hm) h.now
  refine ⟨?_, fun s o m ho hm => ?_⟩
  · rintro xs₁ x xs₂ h rfl hx
    have hm : h ∈ handovers (xs₁ ++ x :: xs₂) := List.mem_filterMap.mpr ⟨x, by simp, hx⟩
    obtain ⟨e, rfl⟩ := handover?_eq_some hx
    obtain ⟨st₁, ⟨l', w'⟩, hr₁, hn⟩ := Coupling.runs_split hr
    have hnext : (server (env.withTokens lib)).next st₁.2 (.upgrade h.session h.req h.now) =
        some w' := (Coupling.next_eq_some.mp hn).2.2
    have hw := server_inv hr₁
    obtain ⟨w'', o, hnext', ho, hops⟩ :=
      Server.upgrade_ops (env.withTokens lib) hw (Server.next_cases hw hnext).1
    obtain rfl := Option.some.inj (hnext.symm.trans hnext')
    refine ⟨l', w', o, hr₁.snoc hn, ho, ?_⟩
    rw [hops]
    cases hv : (env.withTokens lib).verify (extractToken h.req.target) h.now with
    | ok u => exact .inl ⟨(hverify h hm).mp hv, rfl⟩
    | error what =>
      refine .inr ⟨not_nonempty_iff.mp fun hc => ?_, what, rfl⟩
      rw [(hverify h hm).mpr hc] at hv
      cases hv
  · have hright := Coupling.runs_right hr
    refine (Server.greeting_or_broadcast hright ho hm).imp_right ?_
    rintro ⟨b, hb, hm⟩
    obtain ⟨p, req, now, hcall, hup, hv⟩ := Server.exists_speaker hright hb
    obtain ⟨h, hh, rfl, rfl, rfl⟩ := exists_handover_of_mem hl hr hup
    exact ⟨b, hb, hm, h, hh, hcall, (hverify h hh).mp hv⟩

/-- Two clients upgrade, the first one with the sample token and the second one with none. The
first one joins and says a word. -/
def presented : List (Joint ListenerEvent Server.Event) :=
  let good : Call := .plain
    { method := .get, target := ascii "/ws?token=" ++ sampleToken, upgrade := true }
  let bad : Call := .plain { method := .get, target := ascii "/ws", upgrade := true }
  [.left (.accept (.ok 7)), .left (.accept (.ok 8)),
    .both (.http 0 (.read (.ok good))) (.upgrade 1 good.req 1700000001000000000),
    .both (.http 1 (.read (.ok bad))) (.upgrade 2 bad.req 1700000001000000000),
    .right (.accept 1 none 6), .right (.read 1 none true (ascii "hi"))]

theorem inRange_presented : ∀ h ∈ handovers presented,
    sampleLibrary.InRange (extractToken h.req.target) := by
  have htexts : (handovers presented).map (fun h => extractToken h.req.target) =
      [sampleToken, []] := by
    decide +kernel
  intro h hm
  have htext := List.mem_map_of_mem (f := fun h => extractToken h.req.target) hm
  simp only [htexts, List.mem_cons, List.not_mem_nil, or_false] at htext
  obtain htext | htext := htext
  · rw [htext]
    exact inRange_sample
  · exact fun t ht => absurd (ht.trans htext) t.text_ne_nil

/-- The first client starts a handshake, the second one is refused, and what is sent is from the
first one. -/
theorem credentials_presented : ∃ l w,
    (program plainHttp (plainEnv.withTokens sampleLibrary) {}).Runs presented (l, w) ∧
    w.history = [⟨some 1, ascii "hi"⟩] ∧
    (∃ l' w' o, (program plainHttp (plainEnv.withTokens sampleLibrary) {}).Runs
      (presented.take 3) (l', w') ∧ w'.session 1 = some o ∧ o.ops = [.accept]) ∧
    (∃ l' w' o req what, (program plainHttp (plainEnv.withTokens sampleLibrary) {}).Runs
      (presented.take 4) (l', w') ∧ w'.session 2 = some o ∧ req.target = ascii "/ws" ∧
      o.ops = [.write401 (WebsocketSession.response401 req what), .close]) ∧
    ∀ s o m, w.session s = some o →
      m ∈ o.written ++ o.queue → m = ⟨greeting o.connectionId, none⟩ ∨
        ∃ b ∈ w.history, b.message = m.str ∧ ∃ h ∈ handovers presented,
          b.caller = some h.session ∧
            Nonempty (Credential sampleLibrary h.req.target h.now) := by
  have hl : Listener.new .clean = .ok {} := rfl
  have hrun : (((program plainHttp (plainEnv.withTokens sampleLibrary) {}).exec
      (program plainHttp (plainEnv.withTokens sampleLibrary) {}).init presented).map
        fun st => st.2.history) = some [⟨some 1, ascii "hi"⟩] := by
    decide +kernel
  obtain ⟨⟨l, w⟩, hr, hhistory⟩ := Option.map_eq_some_iff.mp hrun
  obtain ⟨hjudged, hsent⟩ := credentials hl hr inRange_presented
  refine ⟨l, w, hr, hhistory, ?_, ?_, hsent⟩
  · obtain ⟨l', w', o, hr', ho, ⟨-, hops⟩ | ⟨hnone, -⟩⟩ :=
      hjudged (presented.take 2) _ (presented.drop 3) _ rfl rfl
    · exact ⟨l', w', o, hr', ho, hops⟩
    · have htext : extractToken (ascii "/ws?token=" ++ sampleToken) = sampleToken := by
        decide +kernel
      refine (not_nonempty_iff.mpr hnone).elim ((verify_extractToken ?_ _).mp ?_)
      · show sampleLibrary.InRange (extractToken (ascii "/ws?token=" ++ sampleToken))
        rw [htext]
        exact inRange_sample
      · show sampleLibrary.verify (extractToken (ascii "/ws?token=" ++ sampleToken)) _ = _
        rw [htext]
        exact verify_sample
  · obtain ⟨l', w', o, hr', ho, ⟨⟨c⟩, -⟩ | ⟨-, what, hops⟩⟩ :=
      hjudged (presented.take 3) _ (presented.drop 4) _ rfl rfl
    · -- The target is shorter than the marker.
      have hlen : (ascii "/ws").length = _ := congrArg List.length c.target_eq
      rw [List.length_append, List.length_append] at hlen
      have hseven : (ascii "?token=").length = 7 := by decide
      have hthree : (ascii "/ws").length = 3 := by decide
      omega
    · exact ⟨l', w', o, _, what, hr', ho, rfl, hops⟩

end ChatServer
