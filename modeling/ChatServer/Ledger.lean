import ChatServer.Safety

/-!
# The ledger: the server without its input and output

What the registry, the broadcasts and the messages of the sessions have to do with each other does
not depend on buffers, queues and outstanding operations. The ledger of a server keeps of each
session its id, when it was registered, whether it is destroyed, and what was sent to it.

* `Turn`: the six things that an event can do to the ledger. `Inv.turn`: each step of the server
  is one of them.
* `posted`: the effect of `broadcast` on the ledger.
* `Turn.before`: where an entry comes from, the case analysis of most invariants.
-/

namespace ChatServer

open Lib

/-- What the ledger keeps of a session. -/
structure Entry where
  connectionId : Bytes := []
  joined : Option Nat := none
  destroyed : Bool := false
  sent : List SharedString := []
  deriving DecidableEq

/-- A message more. -/
def Entry.post (x : Entry) (ss : SharedString) : Entry := { x with sent := x.sent ++ [ss] }

/-- The entry of a session. -/
def WebsocketSession.entry (o : WebsocketSession) : Entry :=
  ⟨o.connectionId, o.joined, o.destroyed, o.sent⟩

/-- The entries after `ss` was sent to each session of `l`. -/
def posted (ss : SharedString) (l : List Ptr) (f : Ptr → Option Entry) : Ptr → Option Entry :=
  fun p => if p ∈ l then (f p).map (·.post ss) else f p

namespace Server

open WebsocketSession

variable {env : Env} {w w' : Server} {s p : Ptr} {o o' : WebsocketSession} {e : Event}

/-- The entries of the sessions. -/
def ledger (w : Server) : Ptr → Option Entry := fun p => (w.session p).map (·.entry)

/-- What an event can do to the ledger. -/
inductive Turn (env : Env) (w : Server) : Event → Server → Prop
  /-- A new session. -/
  | opened {s : Ptr} {req : Request} {now : Nat} {w' : Server} (fresh : w.session s = none)
      (sessions : w'.sessions = w.sessions) (history : w'.history = w.history)
      (ledger : w'.ledger = Function.update w.ledger s (some {})) :
      Turn env w (.upgrade s req now) w'
  /-- A handshake succeeded: the session is registered and greeted. -/
  | joined {s : Ptr} {time : Nat} {w' : Server} (was : w.ledger s = some {})
      (sessions : w'.sessions = w.sessions.insert (generateRandomString env 16 time) s)
      (history : w'.history = w.history)
      (ledger : w'.ledger = Function.update w.ledger s (some
        ⟨generateRandomString env 16 time, some w.history.length, false,
          [⟨greeting (generateRandomString env 16 time), none⟩]⟩)) :
      Turn env w (.accept s none time) w'
  /-- A message was read: it is broadcast. -/
  | said {s : Ptr} {text : Bool} {bytes : Bytes} {w' : Server} {x : Entry}
      (was : w.ledger s = some x) (live : x.joined ≠ none ∧ x.destroyed = false)
      (sessions : w'.sessions = w.sessions)
      (history : w'.history = w.history ++ [⟨some s, bytes⟩])
      (ledger : w'.ledger = posted ⟨bytes, some w.history.length⟩ w'.members w.ledger) :
      Turn env w (.read s none text bytes) w'
  /-- A registered session is destroyed: its id is erased, and the notice is broadcast. -/
  | left {e : Event} {w' : Server} {x : Entry} (quiet : e.quiet = true)
      (was : w.ledger e.session = some x) (live : x.joined ≠ none ∧ x.destroyed = false)
      (sessions : w'.sessions = w.sessions.erase x.connectionId)
      (history : w'.history = w.history ++ [⟨some e.session, notice x.connectionId⟩])
      (ledger : w'.ledger = posted ⟨notice x.connectionId, some w.history.length⟩ w'.members
        (Function.update w.ledger e.session (some { x with destroyed := true }))) :
      Turn env w e w'
  /-- A session that was never registered is destroyed. -/
  | dropped {e : Event} {w' : Server} (quiet : e.quiet = true)
      (was : w.ledger e.session = some {}) (sessions : w'.sessions = w.sessions)
      (history : w'.history = w.history)
      (ledger : w'.ledger = Function.update w.ledger e.session (some { destroyed := true })) :
      Turn env w e w'
  /-- Nothing. -/
  | stays {e : Event} {w' : Server} (quiet : e.quiet = true) (sessions : w'.sessions = w.sessions)
      (history : w'.history = w.history) (ledger : w'.ledger = w.ledger) : Turn env w e w'

/-! ## Each step is one of them -/

theorem ledger_eq (ho : w.session s = some o) : w.ledger s = some o.entry := by
  unfold ledger; rw [ho]; rfl

theorem push_entry (o : WebsocketSession) (ss : SharedString) :
    (o.push ss).entry = o.entry.post ss := by
  simp [entry, Entry.post]

theorem delivered_ledger (ss : SharedString) (l : List Ptr) (f : Ptr → Option WebsocketSession) :
    (fun p => (delivered ss l f p).map (·.entry)) = posted ss l fun p => (f p).map (·.entry) := by
  funext p
  unfold delivered posted
  split
  · simp [Function.comp_def, push_entry]
  · rfl

theorem put_ledger (w : Server) (s : Ptr) (o : WebsocketSession) :
    (w.put s o).ledger = Function.update w.ledger s (some o.entry) := by
  funext p
  unfold put ledger
  by_cases hp : p = s
  · subst hp; simp
  · simp [hp]

theorem relay_ledger (w : Server) (message : Bytes) : (w.relay message).ledger =
    posted ⟨message, some w.history.length⟩ w.members w.ledger :=
  delivered_ledger _ _ _

/-- A session that is not destroyed and was never registered has an empty entry. -/
theorem Inv.entry_empty (hw : w.Inv) (ho : w.session s = some o) (hj : o.joined = none)
    (hd : o.destroyed = false) : o.entry = {} := by
  obtain ⟨hid, hs, -⟩ := (hw.objects s o ho).unjoined hj
  unfold entry
  rw [hid, hs, hj, hd]

theorem entry_release (o : WebsocketSession) :
    o.release.entry = { o.entry with destroyed := o.useCount == 1 } := rfl

/-- The end of a quiet handler. -/
theorem Inv.turn_quiet (hw : w.Inv) (he : w.enabled e = true) (hq : e.quiet = true) {op : Op}
    (hop : e.op? = some op) :
    Turn env w e (w.settle e.session ((w.object e.session).handled e)) := by
  obtain ⟨o, ho, hm⟩ := exists_of_enabled he hop
  rw [object_eq ho]
  have hok := hw.objects _ o ho
  obtain ⟨hd, -⟩ := hok.alive_of_mem hm
  have hk := handled_kept o e
  have hentry : (o.handled e).release.entry =
      { o.entry with destroyed := (o.handled e).useCount == 1 } := by
    rw [entry_release]
    simp only [entry, hk.connectionId, hk.joined, hk.sent]
  unfold Server.settle
  by_cases hu : (o.handled e).useCount = 1
  · have hrel : (o.handled e).release.entry = { o.entry with destroyed := true } := by
      rw [hentry, hu]; rfl
    by_cases hid : (o.handled e).connectionId = []
    · have hj : o.joined = none := by
        by_contra hj
        exact (hok.joined hj).1 (hk.connectionId ▸ hid)
      rw [if_neg (fun h => h.2 hid)]
      have hempty := hw.entry_empty ho hj hd
      exact .dropped hq ((ledger_eq ho).trans (congrArg some hempty)) rfl rfl
        ((put_ledger ..).trans (by rw [hrel, hempty]))
    · rw [if_pos ⟨hu, hid⟩]
      have hj : o.joined ≠ none := by
        intro hj
        exact hid (hk.connectionId.trans (hok.unjoined hj).1)
      refine .left hq (ledger_eq ho) ⟨hj, hd⟩ ?_ ?_ ?_
      · show w.sessions.erase (o.handled e).connectionId = _
        rw [hk.connectionId]; rfl
      · show w.history ++ [⟨some e.session, notice (o.handled e).connectionId⟩] = _
        rw [hk.connectionId]; rfl
      · have hput := put_ledger w e.session (o.handled e).release
        rw [hrel] at hput
        apply (relay_ledger (w.leave e.session (o.handled e)) _).trans
        show posted ⟨notice (o.handled e).connectionId, _⟩ _ (w.put e.session _).ledger = _
        rw [hput, hk.connectionId]; rfl
  · rw [if_neg (fun h => hu h.1)]
    have hrel : (o.handled e).release.entry = o.entry := by
      rw [hentry, beq_eq_false_iff_ne.mpr hu]
      exact congrArg (fun d => { o.entry with destroyed := d }) hd.symm
    refine .stays hq rfl rfl ((put_ledger ..).trans ?_)
    rw [hrel, ← ledger_eq ho, Function.update_eq_self]

/-- A message of the session at `s` was broadcast, and its next read has started. -/
theorem read_ledger (ho : w.session s = some o) (hd : o.destroyed = false)
    (hu : 0 < o.useCount) (text : Bool) (bytes : Bytes) :
    let w₁ := (w.enter s (o.received text bytes)).relay bytes
    (w₁.put s (w₁.object s).rearm.release).ledger =
      posted ⟨bytes, some w.history.length⟩ w.members w.ledger := by
  intro w₁
  obtain ⟨hs, hobj⟩ := relay_object w s (o.received text bytes) bytes
  have hself : w₁.session s = some (w₁.object s) := hs.trans (congrArg some hobj.symm)
  have hlive : (w₁.object s).destroyed = false ∧ 0 < (w₁.object s).useCount := by
    rw [hobj]; split
    · exact ⟨(push_destroyed _).trans hd, Nat.lt_of_lt_of_le hu (le_push_useCount
        (o := o.received text bytes) _)⟩
    · exact ⟨hd, hu⟩
  have hrearm : (w₁.object s).rearm.release.entry = (w₁.object s).entry := by
    rw [entry_release]
    have hne : ((w₁.object s).rearm.useCount == 1) = false :=
      beq_eq_false_iff_ne.mpr (Nat.ne_of_gt (Nat.succ_lt_succ hlive.2))
    rw [hne]
    exact congrArg (fun d => { (w₁.object s).entry with destroyed := d }) hlive.1.symm
  rw [put_ledger, hrearm, ← ledger_eq hself, Function.update_eq_self]
  apply (relay_ledger _ _).trans
  have henter : (w.enter s (o.received text bytes)).ledger = w.ledger := by
    apply (put_ledger ..).trans
    rw [show (o.received text bytes).entry = o.entry from rfl, ← ledger_eq ho,
      Function.update_eq_self]
  rw [henter]
  rfl

/-- The effect of an event on the ledger. -/
theorem Inv.turn (hw : w.Inv) (env : Env) (he : w.enabled e = true) :
    Turn env w e (w.effect env e) := by
  cases e with
  | upgrade s req now =>
    have hs : s ≠ nullptr ∧ w.session s = none := by simpa [enabled] using he
    refine .opened hs.2 rfl rfl ((put_ledger ..).trans ?_)
    rw [entry_release]
    unfold opened
    split <;> rfl
  | accept s ec time =>
    cases ec with
    | none =>
      obtain ⟨o, ho, hm⟩ : ∃ o, w.session s = some o ∧ _ := exists_of_enabled he rfl
      have hok := hw.objects s o ho
      obtain ⟨hj, -, -, hs, -⟩ := hok.accepting hm
      have hempty := hw.entry_empty ho hj (hok.alive_of_mem hm).1
      obtain ⟨-, hu⟩ := hok.accepted_kept hm (generateRandomString env 16 time) w.history.length
      refine .joined ((ledger_eq ho).trans (congrArg some hempty)) rfl rfl ?_
      rw [Server.effect, object_eq ho]
      apply (put_ledger ..).trans
      rw [entry_release, beq_eq_false_iff_ne.mpr hu]
      have hs' : (o.finish .accept).sent = [] := hs
      simp [WebsocketSession.accepted, start, entry, hs']
    | some ec => exact hw.turn_quiet he rfl rfl
  | read s ec text bytes =>
    cases ec with
    | none =>
      obtain ⟨o, ho, hm⟩ : ∃ o, w.session s = some o ∧ _ := exists_of_enabled he rfl
      have hok := hw.objects s o ho
      obtain ⟨hd, hu⟩ := hok.alive_of_mem hm
      refine .said (ledger_eq ho) ⟨hok.joined_of_mem hm (.inl rfl), hd⟩ rfl rfl ?_
      rw [Server.effect, object_eq ho]
      exact read_ledger ho hd hu text bytes
    | some ec => exact hw.turn_quiet he rfl rfl
  | write s frame ec => exact hw.turn_quiet he rfl rfl
  | close s ec => exact hw.turn_quiet he rfl rfl
  | write401 s res ec => exact hw.turn_quiet he rfl rfl

/-- **A step of the server** on the ledger. -/
theorem Inv.step_turn (hw : w.Inv) (hn : (server env).next w e = some w') : Turn env w e w' := by
  obtain ⟨he, views, rfl⟩ := next_cases hw hn
  cases hw.turn env he with
  | opened fresh sessions history ledger => exact .opened fresh sessions history ledger
  | joined was sessions history ledger => exact .joined was sessions history ledger
  | said was live sessions history ledger => exact .said was live sessions history ledger
  | left quiet was live sessions history ledger =>
    exact .left quiet was live sessions history ledger
  | dropped quiet was sessions history ledger => exact .dropped quiet was sessions history ledger
  | stays quiet sessions history ledger => exact .stays quiet sessions history ledger

/-! ## What the steps keep -/

theorem ledger_some {x : Entry} (h : w.ledger s = some x) :
    ∃ o, w.session s = some o ∧ o.entry = x := by
  unfold ledger at h
  exact Option.map_eq_some_iff.mp h

/-- A registered session is a live one that has been accepted, under its id. -/
theorem Inv.lookup_ledger (hw : w.Inv) {id : Bytes} (hl : w.sessions.lookup id = some s) :
    ∃ x, w.ledger s = some x ∧ x.joined ≠ none ∧ x.destroyed = false ∧ x.connectionId = id := by
  obtain ⟨o, ho, hd, -, -, hid⟩ := hw.entries id s hl
  exact ⟨o.entry, ledger_eq ho, hw.registered s o (mem_members.mpr ⟨id, hl⟩) ho, hd, hid⟩

@[simp] theorem post_connectionId (x : Entry) (ss : SharedString) :
    (x.post ss).connectionId = x.connectionId := rfl

@[simp] theorem post_joined (x : Entry) (ss : SharedString) : (x.post ss).joined = x.joined := rfl

@[simp] theorem post_destroyed (x : Entry) (ss : SharedString) :
    (x.post ss).destroyed = x.destroyed := rfl

@[simp] theorem post_sent (x : Entry) (ss : SharedString) : (x.post ss).sent = x.sent ++ [ss] := rfl

/-- An entry after a broadcast. -/
theorem posted_some {ss : SharedString} {l : List Ptr} {f : Ptr → Option Entry} {y : Entry}
    (h : posted ss l f p = some y) : ∃ x, f p = some x ∧ y = if p ∈ l then x.post ss else x := by
  unfold posted at h
  split at h
  · obtain ⟨x, hx, rfl⟩ := Option.map_eq_some_iff.mp h
    exact ⟨x, hx, (if_pos ‹_›).symm⟩
  · exact ⟨y, h, (if_neg ‹_›).symm⟩

/-- What a step does to an entry that it does not create or register: at most one message more,
of the step's broadcast and to a member. -/
structure Grows (w w' : Server) (p : Ptr) (x y : Entry) : Prop where
  was : w.ledger p = some x
  connectionId : y.connectionId = x.connectionId
  joined : y.joined = x.joined
  alive : y.destroyed = false → x.destroyed = false
  sent : y.sent = x.sent ∨ ∃ b, w'.history = w.history ++ [b] ∧ p ∈ w'.members ∧
    y.sent = x.sent ++ [⟨b.message, some w.history.length⟩]

theorem Grows.refl {x : Entry} (h : w.ledger p = some x) : Grows w w' p x x :=
  ⟨h, rfl, rfl, fun ha => ha, .inl rfl⟩

theorem Grows.posted {x y : Entry} {b : Broadcast} (h : w.ledger p = some x)
    (hid : y.connectionId = x.connectionId) (hj : y.joined = x.joined)
    (ha : y.destroyed = false → x.destroyed = false) (hs : y.sent = x.sent)
    (hb : w'.history = w.history ++ [b]) :
    Grows w w' p x (if p ∈ w'.members then y.post ⟨b.message, some w.history.length⟩ else y) := by
  by_cases hp : p ∈ w'.members
  · rw [if_pos hp]
    exact ⟨h, hid, hj, ha, .inr ⟨b, hb, hp, by rw [post_sent, hs]⟩⟩
  · rw [if_neg hp]
    exact ⟨h, hid, hj, ha, .inl hs⟩

/-- **Where an entry comes from**: it is new, or it has just been registered, or it was there
before. -/
theorem Turn.before (ht : Turn env w e w') {y : Entry} (hy : w'.ledger p = some y) :
    (w.session p = none ∧ y = {} ∧ ∃ req now, e = .upgrade p req now) ∨
    (w.ledger p = some {} ∧ ∃ time, e = .accept p none time ∧ w'.history = w.history ∧
      w'.sessions = w.sessions.insert (generateRandomString env 16 time) p ∧
      y = ⟨generateRandomString env 16 time, some w.history.length, false,
        [⟨greeting (generateRandomString env 16 time), none⟩]⟩) ∨
    ∃ x, Grows w w' p x y := by
  cases ht with
  | @opened s req now _ fresh sessions history ledger =>
    rw [ledger] at hy
    by_cases hp : p = s
    · subst hp
      rw [Function.update_self] at hy
      exact .inl ⟨fresh, (Option.some.inj hy).symm, req, now, rfl⟩
    · rw [Function.update_of_ne hp] at hy
      exact .inr (.inr ⟨y, .refl hy⟩)
  | @joined s time _ was sessions history ledger =>
    rw [ledger] at hy
    by_cases hp : p = s
    · subst hp
      rw [Function.update_self] at hy
      exact .inr (.inl ⟨was, time, rfl, history, sessions, (Option.some.inj hy).symm⟩)
    · rw [Function.update_of_ne hp] at hy
      exact .inr (.inr ⟨y, .refl hy⟩)
  | said was live sessions history ledger =>
    rw [ledger] at hy
    obtain ⟨x, hx, rfl⟩ := posted_some hy
    exact .inr (.inr ⟨x, .posted hx rfl rfl (fun ha => ha) rfl history⟩)
  | @left _ _ x₀ quiet was live sessions history ledger =>
    rw [ledger] at hy
    obtain ⟨x, hx, rfl⟩ := posted_some hy
    by_cases hp : p = e.session
    · subst hp
      rw [Function.update_self] at hx
      cases hx
      exact .inr (.inr ⟨x₀, .posted (y := { x₀ with destroyed := true }) was rfl rfl
        (fun _ => live.2) rfl history⟩)
    · rw [Function.update_of_ne hp] at hx
      exact .inr (.inr ⟨x, .posted hx rfl rfl (fun ha => ha) rfl history⟩)
  | dropped quiet was sessions history ledger =>
    rw [ledger] at hy
    by_cases hp : p = e.session
    · subst hp
      rw [Function.update_self] at hy
      cases hy
      exact .inr (.inr ⟨{}, was, rfl, rfl, fun ha => Bool.noConfusion ha, .inl rfl⟩)
    · rw [Function.update_of_ne hp] at hy
      exact .inr (.inr ⟨y, .refl hy⟩)
  | stays quiet sessions history ledger => exact .inr (.inr ⟨y, .refl (ledger ▸ hy)⟩)

/-- A session was opened by an upgrade. -/
theorem upgrade_mem {es : List Event} (hr : (server env).Runs es w) {x : Entry}
    (hx : w.ledger p = some x) : ∃ req now, Event.upgrade p req now ∈ es := by
  refine Sys.Runs.induct (P := fun es w => ∀ x, w.ledger p = some x →
    ∃ req now, Event.upgrade p req now ∈ es) ?_ ?_ hr x hx
  · intro x hx
    cases hx
  · intro es w e w' hr ih hn y hy
    have hold {x : Entry} (hx : w.ledger p = some x) :
        ∃ req now, Event.upgrade p req now ∈ es ++ [e] := by
      obtain ⟨req, now, hm⟩ := ih x hx
      exact ⟨req, now, List.mem_append_left _ hm⟩
    obtain ⟨-, -, req, now, rfl⟩ | ⟨hx, -⟩ | ⟨x, hx⟩ :=
      ((reach_inv hr.reach).step_turn hn).before hy
    · exact ⟨req, now, by simp⟩
    · exact hold hx
    · exact hold hx.was

end Server

end ChatServer
