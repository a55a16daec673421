import ChatServer.Auth
import ChatServer.Refinement
import ChatServer.Lib.Potential

/-!
# What is broadcast, and to whom

`on_read` broadcasts each message that a client sends, and the destructor broadcasts the notice of
a session that had been accepted. `broadcast` sends to whoever is in the registry. A session gets
into the registry once, so what it is sent has no gap.

* `Account`: the broadcasts of one session are the messages it read, and at its end its notice.
  `broadcastsAccounted` states it of every run.
* `Gapless`: the messages of one session are its greeting and a prefix of the broadcasts since, all
  of them while it is registered. `deliveryGapless` states it of every run, and that nothing is
  sent to a session that has left the registry.
-/

namespace ChatServer

open Lib
open scoped List

/-- The notice of a session that had been accepted and is destroyed. -/
def Entry.farewell (x : Entry) : List Bytes :=
  if x.joined.isSome && x.destroyed then [notice x.connectionId] else []

namespace Server

variable {env : Env} {w w' : Server} {s p : Ptr} {e : Event} {es : List Event}

/-! ## The broadcasts of one session -/

/-- The message that the session at `s` has read. -/
def said (s : Ptr) : Event → Option Bytes
  | .read t none _ bytes => if t = s then some bytes else none
  | _ => none

/-- The messages that the session at `s` broadcast. -/
def broadcastsOf (w : Server) (s : Ptr) : List Bytes :=
  (w.history.filter (·.caller = some s)).map (·.message)

/-- The notice of the session at `s`, if it was due. -/
def farewell (w : Server) (s : Ptr) : List Bytes := (w.ledger s).elim [] Entry.farewell

theorem ledger_eq_none (h : w.session p = none) : w.ledger p = none := by
  unfold ledger; rw [h]; rfl

theorem said_quiet (hq : e.quiet = true) (s : Ptr) : said s e = none := by
  cases e with
  | read t ec text bytes => cases ec <;> [cases hq; rfl]
  | _ => rfl

theorem broadcastsOf_concat {b : Broadcast} (h : w'.history = w.history ++ [b]) (s : Ptr) :
    w'.broadcastsOf s =
      w.broadcastsOf s ++ if b.caller = some s then [b.message] else [] := by
  unfold broadcastsOf
  rw [h, List.filter_append, List.map_append]
  congr 1
  by_cases hb : b.caller = some s <;> simp [hb]

theorem posted_farewell (ss : SharedString) (l : List Ptr) (f : Ptr → Option Entry) (p : Ptr) :
    (posted ss l f p).elim [] Entry.farewell = (f p).elim [] Entry.farewell := by
  unfold posted
  split
  · cases f p <;> rfl
  · rfl

/-- **The broadcasts of the session at `s`** after the events `es`. -/
def Account (es : List Event) (w : Server) (s : Ptr) : Prop :=
  w.broadcastsOf s = es.filterMap (said s) ++ w.farewell s

/-- A step that the session at `s` does not broadcast in. -/
theorem Account.same (h : Account es w s) (hs : said s e = none)
    (hb : w'.broadcastsOf s = w.broadcastsOf s) (hf : w'.farewell s = w.farewell s) :
    Account (es ++ [e]) w' s := by
  unfold Account
  rw [hb, hf, List.filterMap_append, List.filterMap_cons_none hs, List.filterMap_nil,
    List.append_nil]
  exact h

/-- A step that changes one record, and not the notice that is due, does not change any notice. -/
theorem farewell_update {x : Entry} (ledger : w'.ledger = Function.update w.ledger p (some x))
    (hx : x.farewell = w.farewell p) (s : Ptr) : w'.farewell s = w.farewell s := by
  unfold farewell at hx ⊢
  rw [ledger]
  by_cases hsp : s = p
  · subst hsp
    rw [Function.update_self, ← hx]
    rfl
  · rw [Function.update_of_ne hsp]

/-- No notice was due for a session that is not destroyed. -/
theorem farewell_live {x : Entry} (was : w.ledger p = some x) (live : x.destroyed = false) :
    w.farewell p = [] := by
  unfold farewell
  rw [was]
  simp [Entry.farewell, live]

/-- A step that the session at `s` broadcasts in: it reads the message, or its notice is due. -/
theorem Account.broadcasts {b : Broadcast} (h : Account es w s)
    (history : w'.history = w.history ++ [b]) (hb : b.caller = some s)
    (hnone : w.farewell s = []) (hm : (said s e).toList ++ w'.farewell s = [b.message]) :
    Account (es ++ [e]) w' s := by
  have hsaid : [e].filterMap (said s) = (said s e).toList := by
    cases hs : said s e <;> simp [hs]
  unfold Account at h ⊢
  rw [broadcastsOf_concat history, if_pos hb, h, hnone, List.append_nil, List.filterMap_append,
    hsaid, List.append_assoc, hm]

/-- Every step keeps the account. -/
theorem Account.step (h : Account es w s) (ht : Turn env w e w') : Account (es ++ [e]) w' s := by
  have hsame (history : w'.history = w.history) : w'.broadcastsOf s = w.broadcastsOf s := by
    unfold broadcastsOf; rw [history]
  have hother {b : Broadcast} (history : w'.history = w.history ++ [b])
      (hb : b.caller ≠ some s) : w'.broadcastsOf s = w.broadcastsOf s := by
    rw [broadcastsOf_concat history, if_neg hb, List.append_nil]
  cases ht with
  | opened fresh sessions history ledger =>
    refine h.same rfl (hsame history) (farewell_update ledger ?_ s)
    unfold farewell
    rw [ledger_eq_none fresh]
    rfl
  | joined was sessions history ledger =>
    refine h.same rfl (hsame history) (farewell_update ledger ?_ s)
    unfold farewell
    rw [was]
    rfl
  | @said t text bytes _ x was live sessions history ledger =>
    have hf : w'.farewell s = w.farewell s := by
      unfold farewell
      rw [ledger, posted_farewell]
    by_cases hst : t = s
    · subst hst
      have hnone := farewell_live was live.2
      refine h.broadcasts history rfl hnone ?_
      have hs : Server.said t (.read t none text bytes) = some bytes := if_pos rfl
      rw [hs, hf, hnone]
      rfl
    · exact h.same (if_neg hst) (hother history (by simpa using hst)) hf
  | @left _ _ x quiet was live sessions history ledger =>
    have hpost : w'.farewell s = (Function.update w.ledger e.session
        (some { x with destroyed := true }) s).elim [] Entry.farewell := by
      unfold farewell
      rw [ledger, posted_farewell]
    by_cases hst : s = e.session
    · subst hst
      -- The notice is broadcast once: the session was not destroyed before.
      refine h.broadcasts history rfl (farewell_live was live.2) ?_
      rw [said_quiet quiet, hpost, Function.update_self]
      simp [Entry.farewell, Option.isSome_iff_ne_none.mpr live.1]
    · refine h.same (said_quiet quiet s) (hother history (by simpa using Ne.symm hst)) ?_
      rw [hpost, Function.update_of_ne hst]
      rfl
  | dropped quiet was sessions history ledger =>
    refine h.same (said_quiet quiet s) (hsame history) (farewell_update ledger ?_ s)
    unfold farewell
    rw [was]
    rfl
  | stays quiet sessions history ledger =>
    refine h.same (said_quiet quiet s) (hsame history) ?_
    unfold farewell
    rw [ledger]

theorem account (hr : (server env).Runs es w) (s : Ptr) : Account es w s := by
  have hnil : Account [] (server env).init s := rfl
  exact Sys.Runs.induct (P := fun es w => Account es w s) hnil
    (fun _ _ _ _ hr ih hn => ih.step ((reach_inv hr.reach).step_turn hn)) hr

/-- Every broadcast has a session on the stack. -/
theorem Turn.caller_isSome (ht : Turn env w e w') (h : ∀ b ∈ w.history, b.caller.isSome) :
    ∀ b ∈ w'.history, b.caller.isSome := by
  have hconcat {b₀ : Broadcast} (hb : w'.history = w.history ++ [b₀]) (hc : b₀.caller.isSome) :
      ∀ b ∈ w'.history, b.caller.isSome := by
    intro b hm
    rw [hb, List.mem_append, List.mem_singleton] at hm
    rcases hm with hm | rfl
    · exact h b hm
    · exact hc
  cases ht with
  | opened fresh sessions history ledger => rw [history]; exact h
  | joined was sessions history ledger => rw [history]; exact h
  | said was live sessions history ledger => exact hconcat history rfl
  | left quiet was live sessions history ledger => exact hconcat history rfl
  | dropped quiet was sessions history ledger => rw [history]; exact h
  | stays quiet sessions history ledger => rw [history]; exact h

theorem caller_isSome (hr : (server env).Runs es w) : ∀ b ∈ w.history, b.caller.isSome := by
  refine Sys.Runs.induct (P := fun _ w => ∀ b ∈ w.history, b.caller.isSome) ?_ ?_ hr
  · intro b hb
    cases hb
  · exact fun _ _ _ _ hr ih hn => ((reach_inv hr.reach).step_turn hn).caller_isSome ih

/-- The step that makes a broadcast: a message is read, or a session is destroyed. -/
theorem Turn.makes (ht : Turn env w e w') {b : Broadcast} (hb : w'.history = w.history ++ [b]) :
    b.caller = some e.session ∧ ∃ x, w.ledger e.session = some x ∧ x.joined ≠ none ∧
      ((∃ text, e = .read e.session none text b.message) ∨
        (e.quiet = true ∧ b.message = notice x.connectionId ∧
          w.leaves e.session w' = true)) := by
  have hnot (history : w'.history = w.history) : False := by
    rw [history] at hb
    exact absurd (congrArg List.length hb) (by simp)
  have hlast {b' : Broadcast} (history : w'.history = w.history ++ [b']) : b = b' := by
    rw [history] at hb
    exact (List.singleton_inj.mp (List.append_cancel_left hb)).symm
  cases ht with
  | opened fresh sessions history ledger => exact (hnot history).elim
  | joined was sessions history ledger => exact (hnot history).elim
  | @said t text bytes _ x was live sessions history ledger =>
    obtain rfl := hlast history
    exact ⟨rfl, x, was, live.1, .inl ⟨text, rfl⟩⟩
  | @left _ _ x quiet was live sessions history ledger =>
    obtain rfl := hlast history
    exact ⟨rfl, x, was, live.1, .inr ⟨quiet, rfl, leaves_of_destroyed was live ledger⟩⟩
  | dropped quiet was sessions history ledger => exact (hnot history).elim
  | stays quiet sessions history ledger => exact (hnot history).elim

/-- Every broadcast was made by one step of the run. -/
theorem exists_makes (hr : (server env).Runs es w) {b : Broadcast} (hb : b ∈ w.history) :
    ∃ es₁ e es₂ w₁ w₂, es = es₁ ++ e :: es₂ ∧ (server env).Runs es₁ w₁ ∧
      (server env).next w₁ e = some w₂ ∧ w₂.history = w₁.history ++ [b] := by
  refine Sys.Runs.induct (P := fun es w => ∀ b ∈ w.history, ∃ es₁ e es₂ w₁ w₂,
    es = es₁ ++ e :: es₂ ∧ (server env).Runs es₁ w₁ ∧ (server env).next w₁ e = some w₂ ∧
      w₂.history = w₁.history ++ [b]) ?_ ?_ hr b hb
  · intro b hb
    cases hb
  · intro es w e w' hr ih hn b hb
    have hold (hb : b ∈ w.history) : ∃ es₁ e₁ es₂ w₁ w₂, es ++ [e] = es₁ ++ e₁ :: es₂ ∧
        (server env).Runs es₁ w₁ ∧ (server env).next w₁ e₁ = some w₂ ∧
          w₂.history = w₁.history ++ [b] := by
      obtain ⟨es₁, e₁, es₂, w₁, w₂, rfl, hr₁, hn₁, hh⟩ := ih b hb
      exact ⟨es₁, e₁, es₂ ++ [e], w₁, w₂, by simp, hr₁, hn₁, hh⟩
    obtain history | ⟨b', history⟩ := ((reach_inv hr.reach).step_turn hn).history
    · exact hold (history ▸ hb)
    · rw [history, List.mem_append, List.mem_singleton] at hb
      rcases hb with hb | rfl
      · exact hold hb
      · exact ⟨es, e, [], w, w', rfl, hr, hn, history⟩

/-- **Who is registered was let in**: an upgrade with a verified token, and later a handshake that
succeeded and gave the session its id. -/
theorem exists_letIn (hr : (server env).Runs es w) {x : Entry} (hx : w.ledger p = some x)
    (hj : x.joined ≠ none) : ∃ es₁ req now es₂ time es₃,
      es = es₁ ++ .upgrade p req now :: (es₂ ++ .accept p none time :: es₃) ∧
      env.verify (extractToken req.target) now = .ok () ∧
      x.connectionId = generateRandomString env 16 time := by
  rcases heard hr hx with ⟨hnone, -⟩ | ⟨-, es₁, time, es₂, w₁, -, rfl, hr₁, hid, -⟩
  · exact absurd hnone hj
  · obtain ⟨w₁', hr₁', hex⟩ := Sys.runs_append.mp hr
    obtain rfl := hr₁.unique hr₁'
    obtain ⟨w₂, hn, -⟩ := Sys.exec_cons hex
    obtain ⟨he, -⟩ := next_cases (reach_inv hr₁.reach) hn
    obtain ⟨o, ho, hm⟩ : ∃ o, w₁.session p = some o ∧ _ := exists_of_enabled he rfl
    obtain ⟨-, req, now, hup, hv⟩ := (judged hr₁ p).handshake o ho hm
    obtain ⟨l₁, l₂, rfl⟩ := List.append_of_mem hup
    exact ⟨l₁, req, now, l₂, time, es₂, by simp, hv, hid⟩

/-- **Who broadcasts was let in.** -/
theorem exists_speaker (hr : (server env).Runs es w) {b : Broadcast} (hb : b ∈ w.history) :
    ∃ p req now, b.caller = some p ∧ Event.upgrade p req now ∈ es ∧
      env.verify (extractToken req.target) now = .ok () := by
  obtain ⟨es₁, e, es₂, w₁, w₂, rfl, hr₁, hn, hh⟩ := exists_makes hr hb
  obtain ⟨hcall, y, hy, hj, -⟩ := ((reach_inv hr₁.reach).step_turn hn).makes hh
  obtain ⟨l₁, req, now, l₂, time, l₃, rfl, hv, -⟩ := exists_letIn hr₁ hy hj
  exact ⟨e.session, req, now, hcall, by simp, hv⟩

/-! ## The messages of one session -/

/-- Who is in the registry after a step was there before it, or has just been registered. -/
theorem Turn.member_before (ht : Turn env w e w') {x y : Entry} (hg : Grows w w' p x y)
    (hy : w'.ledger p = some y) (hp : p ∈ w'.members) : p ∈ w.members := by
  have hsame (sessions : w'.sessions = w.sessions) : p ∈ w.members := by
    unfold members at hp ⊢
    rwa [sessions] at hp
  cases ht with
  | opened fresh sessions history ledger => exact hsame sessions
  | @joined t time _ was sessions history ledger =>
    obtain ⟨id, hl⟩ := mem_members.mp hp
    rw [sessions] at hl
    by_cases hid : id = generateRandomString env 16 time
    · -- The entry of the new member was registered by this step.
      rw [hid, AList.lookup_insert] at hl
      obtain rfl := Option.some.inj hl
      rw [ledger, Function.update_self] at hy
      obtain rfl := Option.some.inj hy
      have hx : x = {} := Option.some.inj (hg.was.symm.trans was)
      rw [hx] at hg
      exact absurd hg.joined (by simp)
    · rw [AList.lookup_insert_ne hid] at hl
      exact mem_members.mpr ⟨id, hl⟩
  | said was live sessions history ledger => exact hsame sessions
  | @left _ _ x₀ quiet was live sessions history ledger =>
    obtain ⟨id, hl⟩ := mem_members.mp hp
    rw [sessions] at hl
    by_cases hid : id = x₀.connectionId
    · rw [hid, AList.lookup_erase] at hl
      cases hl
    · rw [AList.lookup_erase_ne hid] at hl
      exact mem_members.mpr ⟨id, hl⟩
  | dropped quiet was sessions history ledger => exact hsame sessions
  | stays quiet sessions history ledger => exact hsame sessions

/-- A session that was registered is still there after a step. -/
theorem Turn.grows (ht : Turn env w e w') {x : Entry} (hx : w.ledger p = some x)
    (hj : x.joined ≠ none) : ∃ y, w'.ledger p = some y ∧ Grows w w' p x y := by
  obtain ⟨y, hy, -⟩ := ht.joined_stays hx hj
  refine ⟨y, hy, ?_⟩
  obtain ⟨hnone, -⟩ | ⟨hempty, -⟩ | ⟨x', hg⟩ := ht.before hy
  · rw [ledger_eq_none hnone] at hx
    cases hx
  · obtain rfl := Option.some.inj (hx.symm.trans hempty)
    exact absurd rfl hj
  · obtain rfl := Option.some.inj (hx.symm.trans hg.was)
    exact hg

/-- A step sends a session that was registered its broadcast, if it has one and the session is in
the registry, and nothing else. -/
theorem Turn.sends (ht : Turn env w e w') {x y : Entry} (hg : Grows w w' p x y)
    (hj : x.joined ≠ none) (hy : w'.ledger p = some y) :
    (w'.history = w.history ∧ y.sent = x.sent) ∨
    ∃ b, w'.history = w.history ++ [b] ∧ y.sent =
      if p ∈ w'.members then x.sent ++ [⟨b.message, some w.history.length⟩] else x.sent := by
  have hsame (history : w'.history = w.history) : y.sent = x.sent := by
    rcases hg.sent with hs | ⟨b, hb, -⟩
    · exact hs
    · rw [history] at hb
      exact absurd (congrArg List.length hb) (by simp)
  have hpost {b : Broadcast} {f : Ptr → Option Entry}
      (ledger : w'.ledger = posted ⟨b.message, some w.history.length⟩ w'.members f) {z : Entry}
      (hz : f p = some z) (hs : z.sent = x.sent) : y.sent =
        if p ∈ w'.members then x.sent ++ [⟨b.message, some w.history.length⟩] else x.sent := by
    rw [ledger] at hy
    obtain ⟨z', hz', rfl⟩ := posted_some hy
    obtain rfl := Option.some.inj (hz.symm.trans hz')
    split
    · rw [post_sent, hs]
    · exact hs
  cases ht with
  | opened fresh sessions history ledger => exact .inl ⟨history, hsame history⟩
  | joined was sessions history ledger => exact .inl ⟨history, hsame history⟩
  | @said t text bytes _ _ was live sessions history ledger =>
    exact .inr ⟨_, history, hpost (b := ⟨some t, bytes⟩) ledger hg.was rfl⟩
  | @left _ _ x₀ quiet was live sessions history ledger =>
    refine .inr ⟨_, history, ?_⟩
    by_cases hp : p = e.session
    · subst hp
      obtain rfl := Option.some.inj (was.symm.trans hg.was)
      exact hpost (b := ⟨some e.session, notice x₀.connectionId⟩) ledger
        (Function.update_self ..) rfl
    · exact hpost (b := ⟨some e.session, notice x₀.connectionId⟩) ledger
        ((Function.update_of_ne hp ..).trans hg.was) rfl
  | dropped quiet was sessions history ledger => exact .inl ⟨history, hsame history⟩
  | stays quiet sessions history ledger => exact .inl ⟨history, hsame history⟩

/-- **The messages of the session at `p`**: its greeting and a prefix of the broadcasts since it was
registered, all of them while it is in the registry. -/
def Gapless (w : Server) (p : Ptr) (x : Entry) : Prop :=
  ∀ n, x.joined = some n → n ≤ w.broadcasts.length ∧
    ∃ rest, x.sent = ⟨greeting x.connectionId, none⟩ :: rest ∧ rest <+: w.broadcasts.drop n ∧
      (p ∈ w.members → rest = w.broadcasts.drop n)

theorem Gapless.step {x y : Entry} (h : Gapless w p x) (ht : Turn env w e w')
    (hg : Grows w w' p x y) (hy : w'.ledger p = some y) : Gapless w' p y := by
  intro n hn
  have hjx : x.joined = some n := hg.joined.symm.trans hn
  obtain ⟨hle, rest, hs, hpre, hall⟩ := h n hjx
  have hmem := ht.member_before hg hy
  rw [hg.connectionId]
  obtain ⟨history, hsent⟩ | ⟨b, hb, hsent⟩ := ht.sends hg (by simp [hjx]) hy
  · have hbr : w'.broadcasts = w.broadcasts := by unfold broadcasts; rw [history]
    rw [hbr]
    exact ⟨hle, rest, hsent.trans hs, hpre, fun hp => hall (hmem hp)⟩
  · rw [broadcasts_concat hb, List.drop_append_of_le_length hle, List.length_append]
    refine ⟨Nat.le_add_right_of_le hle, ?_⟩
    by_cases hp : p ∈ w'.members
    · rw [if_pos hp, hs] at hsent
      rw [← hall (hmem hp)]
      exact ⟨_, hsent, List.prefix_refl _, fun _ => rfl⟩
    · rw [if_neg hp] at hsent
      exact ⟨rest, hsent.trans hs, hpre.trans (List.prefix_append _ _), fun h => absurd h hp⟩

theorem gapless (hr : (server env).Runs es w) {x : Entry} (hx : w.ledger p = some x) :
    Gapless w p x := by
  refine Sys.Runs.induct (P := fun _ w => ∀ x, w.ledger p = some x → Gapless w p x) ?_ ?_ hr x hx
  · intro x hx
    cases hx
  · intro es w e w' hr ih hn y hy
    have ht := (reach_inv hr.reach).step_turn hn
    obtain ⟨-, rfl, -⟩ | ⟨-, time, -, history, -, rfl⟩ | ⟨x, hg⟩ := ht.before hy
    · intro n hn
      cases hn
    · intro n hn
      cases hn
      rw [broadcasts_length, history]
      refine ⟨Nat.le_refl _, [], rfl, List.nil_prefix, fun _ => ?_⟩
      rw [eq_comm, List.drop_eq_nil_iff, broadcasts_length, history]
    · exact (ih x hg.was).step ht hg hy

/-- **What a client is sent** is its greeting or was broadcast. -/
theorem greeting_or_broadcast (hr : (server env).Runs es w) {o : WebsocketSession}
    (ho : w.session s = some o) {m : SharedString} (hm : m ∈ o.written ++ o.queue) :
    m = ⟨greeting o.connectionId, none⟩ ∨ ∃ b ∈ w.history, b.message = m.str := by
  have hw := reach_inv hr.reach
  cases hj : o.joined with
  | none =>
    rw [hw.written_queue ho] at hm
    have hnil : o.sent = [] := ((hw.objects s o ho).unjoined hj).2.1
    rw [show o.entry.sent = o.sent from rfl, hnil] at hm
    cases hm
  | some n =>
    obtain ⟨rest, hs, hpre, -⟩ := (gapless hr (ledger_eq ho) n hj).2
    rw [hw.written_queue ho, hs] at hm
    rcases List.mem_cons.mp hm with rfl | hm
    · exact .inl rfl
    · have hmem : m ∈ w.broadcasts := List.mem_of_mem_drop (hpre.subset hm)
      obtain ⟨k, hk, rfl⟩ := List.mem_mapIdx.mp hmem
      exact .inr ⟨_, List.getElem_mem hk, rfl⟩

/-- The session at `p` was registered and has left the registry; `sent` are its messages. -/
structure Gone (w : Server) (p : Ptr) (sent : List SharedString) : Prop where
  inv : w.Inv
  entry : ∃ x, w.ledger p = some x ∧ x.joined ≠ none ∧ x.sent = sent
  absent : p ∉ w.members

/-- Who has left the registry does not come back, and is sent nothing any more. -/
theorem Gone.step {sent : List SharedString} (h : Gone w p sent)
    (hn : (server env).next w e = some w') : Gone w' p sent := by
  have ht := h.inv.step_turn hn
  obtain ⟨x, hx, hj, hs⟩ := h.entry
  obtain ⟨y, hy, hg⟩ := ht.grows hx hj
  have hab : p ∉ w'.members := fun hp => h.absent (ht.member_before hg hy hp)
  refine ⟨inv_step h.inv hn, ⟨y, hy, hg.joined ▸ hj, ?_⟩, hab⟩
  obtain ⟨-, hsent⟩ | ⟨b, -, hsent⟩ := ht.sends hg hj hy
  · exact hsent.trans hs
  · rw [if_neg hab] at hsent
    exact hsent.trans hs

end Server

open Server in
/-- **Nothing is broadcast but what a client said, and everything once.** The messages that a
session has broadcast are those it read, in the order of the reads, and then its notice if it had
been accepted and is destroyed. No other call of `broadcast` is made. -/
theorem broadcastsAccounted {env : Env} {es : List Server.Event} {w : Server}
    (hr : (server env).Runs es w) :
    (∀ b ∈ w.history, b.caller.isSome) ∧
    ∀ s, (w.history.filter (·.caller = some s)).map (·.message) = es.filterMap (said s) ++
      (w.session s).elim [] fun o =>
        if o.joined.isSome && o.destroyed then [notice o.connectionId] else [] := by
  refine ⟨caller_isSome hr, fun s => (account hr s).trans ?_⟩
  congr 1
  unfold farewell ledger
  cases w.session s <;> rfl

/-- The first client said two messages, and its notice was broadcast when it was destroyed. -/
theorem broadcastsAccounted_displacement : ∃ w,
    (server secondsEnv).Runs (displacement ++ aftermath) w ∧ w.history.length = 6 ∧
    (∀ b ∈ w.history, b.caller.isSome) ∧
    (displacement ++ aftermath).filterMap (Server.said 1) = [ascii "a", ascii "c"] ∧
    (w.history.filter (·.caller = some 1)).map (·.message) =
      [ascii "a", ascii "c"] ++ [notice (generateRandomString secondsEnv 16 2)] := by
  have hr : (server secondsEnv).Runs (displacement ++ aftermath) _ := rfl
  exact ⟨_, hr, rfl, (broadcastsAccounted hr).1, rfl, (broadcastsAccounted hr).2 1⟩

open Server in
/-- **What a client is sent has no gap.** What a session has written and queued is its greeting and
then a prefix of the broadcasts since it was registered: all of them while it is in the registry.
Once it has left the registry, of its own or because another session took or erased its id, it
does not come back, and nothing is sent to it any more. -/
theorem deliveryGapless {env : Env} {es : List Server.Event} {w : Server} {s : Ptr}
    {o : WebsocketSession} {n : Nat} (hr : (server env).Runs es w) (ho : w.session s = some o)
    (hj : o.joined = some n) :
    (∃ rest, o.written ++ o.queue = ⟨greeting o.connectionId, none⟩ :: rest ∧
      rest <+: w.broadcasts.drop n ∧
      ((∃ id, w.sessions.lookup id = some s) → rest = w.broadcasts.drop n)) ∧
    ((¬∃ id, w.sessions.lookup id = some s) → ∀ es' w', (server env).exec w es' = some w' →
      (¬∃ id, w'.sessions.lookup id = some s) ∧
      ∃ o', w'.session s = some o' ∧ o'.written ++ o'.queue = o.written ++ o.queue) := by
  have hw := reach_inv hr.reach
  rw [hw.written_queue ho, ← mem_members]
  refine ⟨(gapless hr (ledger_eq ho) n hj).2, fun hab es' w' hex => ?_⟩
  have hgone : Gone w s o.entry.sent :=
    ⟨hw, ⟨o.entry, ledger_eq ho, by simp [WebsocketSession.entry, hj], rfl⟩, hab⟩
  have hgone' : Gone w' s o.entry.sent :=
    Sys.exec_induct (C := fun _ => True) (I := fun w => Gone w s o.entry.sent)
      (fun _ _ _ h _ hn => h.step hn) hgone (fun _ _ => trivial) hex
  obtain ⟨y, hy, -, hsent⟩ := hgone'.entry
  obtain ⟨o', ho', rfl⟩ := ledger_some hy
  refine ⟨fun h => hgone'.absent (mem_members.mpr h), o', ho', ?_⟩
  rw [hgone'.inv.written_queue ho', hsent]

/-- The first client was sent what was broadcast before its id was taken. After that it is still
heard, and not sent anything, also while the others are. -/
theorem deliveryGapless_displacement : ∃ w o w', (server secondsEnv).Runs displacement w ∧
    w.session 1 = some o ∧ o.joined = some 0 ∧
    w.broadcasts = [⟨ascii "a", some 0⟩, ⟨ascii "b", some 1⟩, ⟨ascii "c", some 2⟩] ∧
    (∃ rest, o.written ++ o.queue = ⟨greeting o.connectionId, none⟩ :: rest ∧
      rest = [⟨ascii "a", some 0⟩, ⟨ascii "b", some 1⟩] ∧ rest <+: w.broadcasts.drop 0) ∧
    (server secondsEnv).exec w aftermath = some w' ∧ w'.broadcasts.length = 6 ∧
    (¬∃ id, w'.sessions.lookup id = some 1) ∧
    ∃ o', w'.session 1 = some o' ∧ o'.written ++ o'.queue = o.written ++ o.queue := by
  have hr : (server secondsEnv).Runs displacement _ := rfl
  obtain ⟨⟨rest, hs, hpre, -⟩, hgone⟩ := deliveryGapless (s := 1) hr rfl rfl
  have hrest : rest = [⟨ascii "a", some 0⟩, ⟨ascii "b", some 1⟩] := (List.cons.inj hs).2.symm
  obtain ⟨hab', hsent⟩ := hgone (mt Server.mem_members.mpr (by decide)) aftermath _ rfl
  exact ⟨_, _, _, hr, rfl, rfl, by decide, ⟨rest, hs, hrest, hpre⟩, rfl, by decide, hab', hsent⟩

end ChatServer
