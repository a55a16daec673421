import ChatServer.Object
import ChatServer.Lib.Except

/-!
# What an event does

`effect` is the state after the handler of an event, without the checks of the handlers: what each
of them does to the registry, the objects and the history, in closed form. `step_eq`: from a state
with the invariant `Server.Inv`, the handler of an enabled event does not fault and has this
effect, and at every moment that `send` or `broadcast` looked up the registry, each entry pointed
to a live session with an owner and with the entry's id (`View.Ok`). `inv_effect`: the effect
keeps the invariant. Every later result about the server is about `effect`.

* `relay`: the effect of `broadcast`, one message more for every member of the registry.
* `settle`: the effect of `release`; the last owner destroys the object.
-/

namespace ChatServer

open Lib

/-! ## The registry -/

/-- Every entry points to a session that has not begun destruction, that an outstanding or running
handler owns, and whose id is the entry's. -/
def View.Ok (v : View) : Prop :=
  ∀ id p, v.sessions.lookup id = some p → ∃ o, v.session p = some o ∧ o.destroyed = false ∧
    0 < o.useCount ∧ (o.ops ≠ [] ∨ v.running = some p) ∧ o.connectionId = id

namespace Server

/-- The state at this moment, as `look` records it. -/
def view (w : Server) : View := ⟨w.sessions, w.session, w.running⟩

/-- The sessions in the registry. -/
def members (w : Server) : List Ptr := w.sessions.entries.map (·.2)

theorem mem_members {w : Server} {p : Ptr} :
    p ∈ w.members ↔ ∃ id, w.sessions.lookup id = some p := by
  unfold members
  rw [List.mem_map]
  constructor
  · rintro ⟨⟨id, q⟩, hm, rfl⟩
    exact ⟨id, AList.mem_lookup_iff.mpr hm⟩
  · rintro ⟨id, h⟩
    exact ⟨⟨id, p⟩, AList.mem_lookup_iff.mp h, rfl⟩

/-- Two entries with sessions of their ids have two sessions. -/
theorem nodup_members {w : Server} (h : w.view.Ok) : w.members.Nodup := by
  apply List.Nodup.of_map (fun p => ((w.session p).map (·.connectionId)).getD [])
  have hk : w.members.map (fun p => ((w.session p).map (·.connectionId)).getD []) =
      w.sessions.keys := by
    unfold members AList.keys List.keys
    rw [List.map_map]
    apply List.map_congr_left
    intro e he
    obtain ⟨o, ho, -, -, -, hid⟩ := h e.1 e.2 (AList.mem_lookup_iff.mpr he)
    have ho' : w.session e.2 = some o := ho
    simp only [Function.comp_apply, ho', Option.map_some, Option.getD_some, hid]
  rw [hk]
  exact w.sessions.keys_nodup

/-- The objects after `ss` was sent to each session of `l`. -/
def delivered (ss : SharedString) (l : List Ptr) (f : Ptr → Option WebsocketSession) :
    Ptr → Option WebsocketSession :=
  fun p => if p ∈ l then (f p).map (·.push ss) else f p

@[simp] theorem delivered_nil (ss : SharedString) (f : Ptr → Option WebsocketSession) :
    delivered ss [] f = f := by
  funext p; simp [delivered]

theorem delivered_cons {ss : SharedString} {p : Ptr} {l : List Ptr}
    {f : Ptr → Option WebsocketSession} {o : WebsocketSession} (hp : p ∉ l) (ho : f p = some o) :
    delivered ss l (Function.update f p (some (o.push ss))) = delivered ss (p :: l) f := by
  funext q
  unfold delivered
  by_cases hq : q = p
  · subst hq; simp [hp, ho]
  · simp [hq]

theorem deref_eq {w : Server} {s : Ptr} {o : WebsocketSession} (ho : w.session s = some o)
    (hd : o.destroyed = false) : w.deref s = .ok o := by
  unfold deref; simp [ho, hd]

theorem update_eq {w : Server} {s : Ptr} {o o' : WebsocketSession}
    {f : WebsocketSession → Except Fault WebsocketSession} (ho : w.session s = some o)
    (hd : o.destroyed = false) (hf : f o = .ok o') : w.update s f = .ok (w.put s o') := by
  unfold update
  rw [deref_eq ho hd]
  show (f o >>= fun o => Except.ok (w.put s o)) = _
  rw [hf]; rfl

end Server

/-- What a handler may do to an object that the registry points to. -/
theorem View.Ok.update {v : View} (h : v.Ok) {p : Ptr} {o o' : WebsocketSession}
    (ho : v.session p = some o) (hd : o'.destroyed = o.destroyed) (hc : o.useCount ≤ o'.useCount)
    (hops : o.ops ≠ [] → o'.ops ≠ []) (hid : o'.connectionId = o.connectionId) :
    View.Ok { v with session := Function.update v.session p (some o') } := by
  intro id q hq
  obtain ⟨oq, hoq, hdq, hcq, howned, hidq⟩ := h id q hq
  by_cases hpq : q = p
  · subst hpq
    rw [ho] at hoq
    cases hoq
    exact ⟨o', by simp, by rw [hd, hdq], by omega, howned.imp_left hops, by rw [hid, hidq]⟩
  · exact ⟨oq, by simp [hpq, hoq], hdq, hcq, howned, hidq⟩

namespace Server

variable {w : Server}

/-- The loop of `broadcast` over entries of the registry. -/
theorem broadcastLoop_eq (ss : SharedString) (l : List (Sigma fun _ : Bytes => Ptr))
    (hn : (l.map (·.2)).Nodup) (hl : ∀ e ∈ l, w.sessions.lookup e.1 = some e.2)
    (hw : w.view.Ok) (h0 : w.session nullptr = none) :
    ∃ views, broadcastLoop ss l w = .ok { w with
        session := delivered ss (l.map (·.2)) w.session, views := w.views ++ views } ∧
      ∀ v ∈ views, v.Ok := by
  induction l generalizing w with
  | nil => exact ⟨[], by simp [broadcastLoop], by simp⟩
  | cons e l ih =>
    rw [List.map_cons, List.nodup_cons] at hn
    obtain ⟨o, ho', hd, hc, -, -⟩ := hw e.1 e.2 (hl e List.mem_cons_self)
    have ho : w.session e.2 = some o := ho'
    have hne : e.2 ≠ nullptr := by
      rintro he
      rw [he, h0] at ho
      cases ho
    -- The state after the first entry's `send`.
    have h1 : w.look.update e.2 (·.send ss) = .ok (w.look.put e.2 (o.push ss)) :=
      update_eq ho hd (WebsocketSession.send_eq hc ss)
    have hw1 : (w.look.put e.2 (o.push ss)).view.Ok :=
      View.Ok.update (v := w.view) hw ho (WebsocketSession.push_destroyed ss)
        (WebsocketSession.le_push_useCount ss) (WebsocketSession.push_ops_ne_nil ss)
        (WebsocketSession.push_connectionId ss)
    have h01 : (w.look.put e.2 (o.push ss)).session nullptr = none := by
      show Function.update w.session e.2 _ nullptr = none
      rw [Function.update_of_ne (Ne.symm hne), h0]
    obtain ⟨views, hr, hv⟩ := ih (w := w.look.put e.2 (o.push ss)) hn.2
      (fun e' he' => hl e' (List.mem_cons_of_mem _ he')) hw1 h01
    refine ⟨w.view :: views, ?_, ?_⟩
    · unfold broadcastLoop
      simp only [ne_eq, hne, not_false_eq_true, ↓reduceIte, h1]
      show broadcastLoop ss l (w.look.put e.2 (o.push ss)) = _
      rw [hr]
      simp only [put, look, List.append_assoc, List.map_cons, delivered_cons hn.1 ho]
      rfl
    · rintro v (_ | ⟨_, hm⟩)
      · exact hw
      · exact hv v hm

/-- The effect of `broadcast`. -/
def relay (w : Server) (message : Bytes) : Server :=
  { w with
    session := delivered ⟨message, some w.history.length⟩ w.members w.session
    history := w.history ++ [⟨w.running, message⟩] }

theorem broadcast_eq (hw : w.view.Ok) (h0 : w.session nullptr = none) (hi : w.iterating = false)
    (message : Bytes) :
    ∃ views, w.broadcast message = .ok { w.relay message with views := w.views ++ views } ∧
      ∀ v ∈ views, v.Ok := by
  obtain ⟨views, hr, hv⟩ := broadcastLoop_eq
    (w := { w with history := w.history ++ [⟨w.running, message⟩], iterating := true })
    ⟨message, some w.history.length⟩ w.sessions.entries (nodup_members hw)
    (fun e he => AList.mem_lookup_iff.mpr he) hw h0
  refine ⟨views, ?_, hv⟩
  unfold broadcast
  simp only [hr]
  show Except.ok _ = _
  simp only [relay, members, hi]

/-! ## The effect of an event -/

/-- The session at `s` has lost its last owner, and its destructor erased its id. -/
def leave (w : Server) (s : Ptr) (o : WebsocketSession) : Server :=
  { w.put s o.release with sessions := w.sessions.erase o.connectionId, running := some s }

/-- The effect of `release` when the object at `s` is `o`. -/
def settle (w : Server) (s : Ptr) (o : WebsocketSession) : Server :=
  if o.useCount = 1 ∧ o.connectionId ≠ [] then
    { (w.leave s o).relay (notice o.connectionId) with running := none }
  else w.put s o.release

/-- The object at `s`. -/
def object (w : Server) (s : Ptr) : WebsocketSession := (w.session s).getD {}

/-- The effect of an event (module doc). -/
def effect (env : Env) (w : Server) : Event → Server
  | .upgrade s req now => w.put s (WebsocketSession.opened env req now).release
  | .accept s none time =>
    let id := generateRandomString env 16 time
    { w.put s ((w.object s).accepted id w.history.length).release with
      sessions := w.sessions.insert id s }
  | .read s none text bytes =>
    let w := { w.put s ((w.object s).received text bytes) with running := some s }.relay bytes
    { w.put s (w.object s).rearm.release with running := none }
  | e => w.settle e.session ((w.object e.session).handled e)

/-- The invariant of the server between two handlers. -/
structure Inv (w : Server) : Prop where
  entries : w.view.Ok
  /-- Who is in the registry has been accepted. -/
  registered : ∀ p o, p ∈ w.members → w.session p = some o → o.joined ≠ none
  null : w.session nullptr = none
  running : w.running = none
  iterating : w.iterating = false
  objects : ∀ p o, w.session p = some o → o.Ok 0
  views : ∀ v ∈ w.views, v.Ok

end Server

/-! ## No handler faults -/

/-- The object at `s` of the running handler is changed. -/
theorem View.Ok.enter {v : View} (h : v.Ok) {s : Ptr} {o o' : WebsocketSession}
    (hr : v.running = none ∨ v.running = some s) (ho : v.session s = some o)
    (hd : o'.destroyed = false) (hc : 0 < o'.useCount) (hid : o'.connectionId = o.connectionId) :
    View.Ok ⟨v.sessions, Function.update v.session s (some o'), some s⟩ := by
  intro id q hq
  obtain ⟨oq, hoq, hdq, hcq, howned, hidq⟩ := h id q hq
  by_cases hqs : q = s
  · subst hqs
    rw [ho] at hoq
    cases hoq
    exact ⟨o', by simp, hd, hc, .inr rfl, hid.trans hidq⟩
  · refine ⟨oq, by simp [hqs, hoq], hdq, hcq, .inl (howned.resolve_right fun hv => ?_), hidq⟩
    rcases hr with hr | hr <;> rw [hr] at hv
    · cases hv
    · exact hqs (Option.some.inj hv).symm

/-- Messages are sent to some sessions. -/
theorem View.Ok.delivered {v : View} (h : v.Ok) (ss : SharedString) (l : List Ptr) :
    View.Ok { v with session := Server.delivered ss l v.session } := by
  intro id q hq
  obtain ⟨o, ho, hd, hc, howned, hid⟩ := h id q hq
  unfold Server.delivered
  by_cases hql : q ∈ l
  · refine ⟨o.push ss, by simp [hql, ho], by simp [hd], ?_, ?_, by simp [hid]⟩
    · exact Nat.lt_of_lt_of_le hc (WebsocketSession.le_push_useCount ss)
    · exact howned.imp_left (WebsocketSession.push_ops_ne_nil ss)
  · exact ⟨o, by simp [hql, ho], hd, hc, howned, hid⟩

namespace Server

open WebsocketSession

variable {w : Server} {s : Ptr} {o o' : WebsocketSession}

theorem put_put (w : Server) (s : Ptr) (o o' : WebsocketSession) :
    (w.put s o).put s o' = w.put s o' := by
  unfold put; simp

theorem put_self (w : Server) (s : Ptr) (o : WebsocketSession) :
    (w.put s o).session s = some o := by
  unfold put; simp

/-- The registry after the destructor of the session at `s` erased its id points to others. -/
theorem erased_ok (hw : w.view.Ok) (hr : w.running = none ∨ w.running = some s)
    (ho : w.session s = some o) (o' : WebsocketSession) :
    View.Ok ⟨w.sessions.erase o.connectionId, Function.update w.session s (some o'), some s⟩ := by
  intro id q hq
  have hne : id ≠ o.connectionId := by
    rintro rfl
    rw [AList.lookup_erase] at hq
    cases hq
  rw [AList.lookup_erase_ne hne] at hq
  obtain ⟨oq, hoq, hdq, hcq, howned, hidq⟩ := hw id q hq
  have hqs : q ≠ s := by
    rintro rfl
    have he : o = oq := Option.some.inj (ho.symm.trans hoq)
    exact hne (he ▸ hidq.symm)
  refine ⟨oq, by simp [hqs]; exact hoq, hdq, hcq, .inl (howned.resolve_right fun hv => ?_), hidq⟩
  rcases hr with hr | hr
  · exact absurd (hr.symm.trans hv) (by simp)
  · exact hqs (Option.some.inj (hr.symm.trans hv)).symm

theorem release_ok (ho : w.session s = some o) (hd : o.destroyed = false) :
    w.release s = (if o.useCount = 1 then (w.put s o.release).disconnect o.connectionId
      else .ok (w.put s o.release)) >>= fun w => .ok { w with running := none } := by
  unfold Server.release
  simp only [deref_eq ho hd, ok_bind, beq_iff_eq]
  by_cases hu : o.useCount = 1
  · rw [if_pos hu, if_pos hu]; rfl
  · rw [if_neg hu, if_neg hu]; rfl

theorem disconnect_ok {id : Bytes} (hid : id ≠ []) (hi : w.iterating = false) :
    w.disconnect id = { w with sessions := w.sessions.erase id }.broadcast (notice id) := by
  unfold disconnect
  rw [if_pos hid, if_neg (by simp [hi])]

/-- `release` from the handler of the session at `s`. -/
theorem release_eq (hw : w.view.Ok) (hr : w.running = some s) (h0 : w.session nullptr = none)
    (hi : w.iterating = false) (ho : w.session s = some o) (hd : o.destroyed = false) :
    ∃ views, w.release s =
        .ok { { w with running := none }.settle s o with views := w.views ++ views } ∧
      ∀ v ∈ views, v.Ok := by
  have hne : s ≠ nullptr := by
    rintro rfl
    exact absurd (h0.symm.trans ho) (by simp)
  unfold settle
  rw [release_ok ho hd]
  by_cases hu : o.useCount = 1
  · rw [if_pos hu]
    by_cases hid : o.connectionId = []
    · refine ⟨[], ?_, by simp⟩
      rw [if_neg (by simp [hid]), hid]
      simp [disconnect, ok_bind, put]
    · obtain ⟨views, hb, hv⟩ := broadcast_eq
        (w := { w.put s o.release with sessions := w.sessions.erase o.connectionId })
        (by have := erased_ok hw (.inr hr) ho o.release; rw [← hr] at this; exact this)
        (by show Function.update w.session s _ nullptr = none; simp [Ne.symm hne, h0]) hi
        (notice o.connectionId)
      refine ⟨views, ?_, hv⟩
      rw [if_pos ⟨hu, hid⟩, disconnect_ok (w := w.put s o.release) hid hi]
      refine (congrArg (· >>= _) hb).trans ?_
      rw [ok_bind]
      simp only [put, leave, relay, members, hr]
  · refine ⟨[], ?_, by simp⟩
    rw [if_neg hu, if_neg (by simp [hu]), ok_bind]
    simp [put]

theorem exists_of_pending {op : Op} (h : w.pending s op = true) :
    ∃ o, w.session s = some o ∧ op ∈ o.ops := by
  unfold pending at h
  split at h
  · cases h
  · exact ⟨_, ‹_›, by simpa using h⟩

theorem exists_of_enabled {e : Event} {op : Op} (h : w.enabled e = true) (hop : e.op? = some op) :
    ∃ o, w.session e.session = some o ∧ op ∈ o.ops := by
  cases e <;> cases hop <;> exact exists_of_pending h

theorem object_eq (ho : w.session s = some o) : w.object s = o := by
  unfold object; rw [ho]; rfl

/-- The state in which the handler of an operation of the session at `s` runs. -/
def enter (w : Server) (s : Ptr) (o : WebsocketSession) : Server :=
  { w.put s o with running := some s }

theorem enter_put (w : Server) (s : Ptr) (o o' : WebsocketSession) :
    (w.enter s o).put s o' = w.enter s o' := by
  unfold enter put; simp

theorem enter_session (w : Server) (s : Ptr) (o : WebsocketSession) :
    (w.enter s o).session s = some o := by
  unfold enter put; simp

theorem enter_null (h0 : w.session nullptr = none) (hs : s ≠ nullptr) :
    (w.enter s o).session nullptr = none := by
  unfold enter put; simp [Ne.symm hs, h0]

theorem Inv.ne_null (hw : w.Inv) (ho : w.session s = some o) : s ≠ nullptr := by
  rintro rfl
  exact absurd (hw.null.symm.trans ho) (by simp)

theorem Inv.enter (hw : w.Inv) (ho : w.session s = some o) (hd : o'.destroyed = false)
    (hc : 0 < o'.useCount) (hid : o'.connectionId = o.connectionId) : (w.enter s o').view.Ok :=
  hw.entries.enter (.inl hw.running) ho hd hc hid

/-- The completion of an operation is its handler, from `enter`, and `release`. -/
theorem complete_ok (hw : w.Inv) (ho : w.session s = some o) {op : Op} (hm : op ∈ o.ops)
    (handler : Server → Except Fault Server) :
    w.complete s op handler = handler (w.enter s (o.finish op)) >>= fun w => w.release s := by
  have hd := ((hw.objects s o ho).alive_of_mem hm).1
  have hu : (w.update s fun o => .ok (o.finish op)) = .ok (w.put s (o.finish op)) :=
    update_eq ho hd rfl
  unfold complete
  rw [hu]
  rfl

/-- The handler of `e` only touches the object. -/
theorem step_handled {env : Env} {e : Event} (hw : w.Inv) (ho : w.session s = some o) {op : Op}
    (hm : op ∈ o.ops) {handler : Server → Except Fault Server}
    (hs : w.step env e = w.complete s op handler)
    (he : w.effect env e = w.settle s ((w.object s).handled e))
    (hh : handler (w.enter s (o.finish op)) = .ok (w.enter s (o.handled e))) :
    ∃ views, w.step env e = .ok { w.effect env e with views := w.views ++ views } ∧
      ∀ v ∈ views, v.Ok := by
  obtain ⟨hd, hu⟩ := (hw.objects s o ho).alive_of_mem hm
  have hk := handled_kept o e
  have hd' : (o.handled e).destroyed = false := hk.destroyed.trans hd
  obtain ⟨views, hr, hv⟩ := release_eq
    (hw.enter ho hd' (Nat.lt_of_lt_of_le hu hk.useCount) hk.connectionId) rfl
    (enter_null hw.null (hw.ne_null ho)) hw.iterating (enter_session w s _) hd'
  refine ⟨views, ?_, hv⟩
  rw [hs, he, complete_ok hw ho hm, hh, ok_bind, hr, object_eq ho]
  simp only [settle, leave, Server.enter, put, Function.update_idem, hw.running]

/-- A member function of the session whose handler runs. -/
theorem update_enter {f : WebsocketSession → Except Fault WebsocketSession}
    (hd : o.destroyed = false) (hf : f o = .ok o') :
    (w.enter s o).update s f = .ok (w.enter s o') := by
  rw [update_eq (enter_session w s o) hd hf, enter_put]

theorem generateRandomString_ne_nil (env : Env) (time : Nat) :
    generateRandomString env 16 time ≠ [] := by
  unfold generateRandomString
  simp

theorem initiate_put (w : Server) (s : Ptr) (hd : o.destroyed = false) (hu : 0 < o.useCount)
    (op : Op) : (w.put s o).update s (·.initiate op) = .ok (w.put s (o.start op)) := by
  rw [update_eq (by simp [put]) hd (initiate_eq hu op), put_put]

/-- The object of the running handler after a broadcast: the session may be a member itself. -/
theorem relay_object (w : Server) (s : Ptr) (o : WebsocketSession) (message : Bytes) :
    let o' := if s ∈ w.members then o.push ⟨message, some w.history.length⟩ else o
    ((w.enter s o).relay message).session s = some o' ∧
      ((w.enter s o).relay message).object s = o' := by
  intro o'
  have h : ((w.enter s o).relay message).session s = some o' := by
    show delivered _ w.members (Function.update w.session s (some o)) s = some o'
    unfold delivered
    simp only [Function.update_self, Option.map_some, o']
    split <;> rfl
  exact ⟨h, object_eq h⟩

/-- The registry when the session at `s` has been inserted, before it is greeted. -/
theorem inserted_ok (hw : w.Inv) (ho : w.session s = some o) (hj : o.joined = none) {id : Bytes}
    (hd : o'.destroyed = false) (hc : 0 < o'.useCount) (hid : o'.connectionId = id) :
    ({ w.enter s o' with sessions := w.sessions.insert id s } : Server).view.Ok := by
  intro id' p hp
  have hp' : (w.sessions.insert id s).lookup id' = some p := hp
  by_cases hne : id' = id
  · subst hne
    rw [AList.lookup_insert] at hp'
    cases hp'
    exact ⟨o', enter_session w s o', hd, hc, .inr rfl, hid⟩
  · rw [AList.lookup_insert_ne hne] at hp'
    obtain ⟨op, hop, hdp, hcp, howned, hidp⟩ := hw.entries id' p hp'
    have hps : p ≠ s := by
      rintro rfl
      exact hw.registered p o (mem_members.mpr ⟨id', hp'⟩) ho hj
    refine ⟨op, ?_, hdp, hcp, .inl (howned.resolve_right fun hv => ?_), hidp⟩
    · show Function.update w.session s _ p = _
      rw [Function.update_of_ne hps]
      exact hop
    · exact absurd (hw.running.symm.trans hv) (by simp)

/-- The handshake of the session at `s` has succeeded. -/
theorem onAccept_eq (env : Env) (hw : w.Inv) (ho : w.session s = some o) (hm : .accept ∈ o.ops)
    (time : Nat) :
    let id := generateRandomString env 16 time
    ∃ views, (w.enter s (o.finish .accept)).onAccept env s time none =
        .ok { w.enter s (o.accepted id w.history.length) with
          sessions := w.sessions.insert id s, views := w.views ++ views } ∧
      ∀ v ∈ views, v.Ok := by
  intro id
  obtain ⟨hd, hu⟩ := (hw.objects s o ho).alive_of_mem hm
  let o₁ : WebsocketSession :=
    { o.finish .accept with connectionId := id, joined := some w.history.length }
  let w₁ : Server := { w.enter s o₁ with sessions := w.sessions.insert id s }
  have hv : w₁.view.Ok := inserted_ok hw ho ((hw.objects s o ho).accepting hm).1 hd hu rfl
  refine ⟨[w₁.view], ?_, by simpa using hv⟩
  have hset : ((w.enter s (o.finish .accept)).update s fun o => .ok
      { o with connectionId := id, joined := some w.history.length }) = .ok (w.enter s o₁) :=
    update_enter hd rfl
  have hsend : w₁.send id (greeting id) = .ok (w₁.look.put s (o₁.push ⟨greeting id, none⟩)) := by
    have hget : w₁.look.get id = s := by
      have hlookup : w₁.look.sessions.lookup id = some s := AList.lookup_insert w.sessions
      rw [Server.get, hlookup]
    unfold Server.send
    simp only [hget, ne_eq, hw.ne_null ho, not_false_eq_true, ↓reduceIte]
    exact update_eq (enter_session w s o₁) hd (send_eq (o := o₁) hu _)
  have hread := initiate_put (o := o₁.push ⟨greeting id, none⟩) w₁.look s
    (by rw [push_destroyed]; exact hd) (Nat.lt_of_lt_of_le hu (le_push_useCount (o := o₁) _)) .read
  unfold onAccept
  refine (congrArg (· >>= _) hset).trans ?_
  rw [ok_bind]
  unfold connect
  rw [if_neg (by show ¬(w.iterating = true); simp [hw.iterating])]
  refine (congrArg (· >>= _) hsend).trans ?_
  rw [ok_bind, hread]
  simp only [put, look, Server.enter, view, accepted, w₁, o₁, Function.update_idem]

/-- A read of the session at `s` has succeeded. -/
theorem onRead_eq (hw : w.Inv) (ho : w.session s = some o) (hm : .read ∈ o.ops) (text : Bool)
    (bytes : Bytes) :
    let w₁ := (w.enter s (o.received text bytes)).relay bytes
    ∃ views, (w.enter s (o.received text bytes)).onRead s none =
        .ok { w₁.put s (w₁.object s).rearm with views := w.views ++ views } ∧
      ∀ v ∈ views, v.Ok := by
  intro w₁
  obtain ⟨hd, hu⟩ := (hw.objects s o ho).alive_of_mem hm
  have hb := ((hw.objects s o ho).reading hm).1
  let o₁ : WebsocketSession := o.received text bytes
  have hv : (w.enter s o₁).view.Ok := hw.enter ho hd hu rfl
  obtain ⟨views, hrel, hviews⟩ := broadcast_eq hv (enter_null hw.null (hw.ne_null ho)) hw.iterating
    bytes
  obtain ⟨hs₂, he₂⟩ := relay_object w s o₁ bytes
  have hd₂ : (w₁.object s).destroyed = false := by
    rw [he₂]; split
    · rw [push_destroyed]; exact hd
    · exact hd
  have hu₂ : 0 < (w₁.object s).useCount := by
    rw [he₂]; split
    · exact Nat.lt_of_lt_of_le hu (le_push_useCount (o := o₁) _)
    · exact hu
  let w₂ : Server := { w₁ with views := w.views ++ views }
  have hclear : (w₂.update s fun o => .ok { o with buffer := [] }) =
      .ok (w₂.put s { w₁.object s with buffer := [] }) :=
    update_eq (he₂ ▸ hs₂) hd₂ rfl
  have hread := initiate_put (o := { w₁.object s with buffer := [] }) w₂ s hd₂ hu₂ .read
  have hderef : (w.enter s (o.received text bytes)).deref s = .ok (o.received text bytes) :=
    deref_eq (enter_session w s o₁) hd
  have hbuf : (o.received text bytes).buffer = bytes := by
    show o.buffer ++ bytes = bytes
    rw [hb, List.nil_append]
  refine ⟨views, ?_, hviews⟩
  unfold onRead
  rw [hderef, ok_bind, hbuf]
  refine (congrArg (· >>= _) hrel).trans ?_
  rw [ok_bind]
  refine (congrArg (· >>= _) hclear).trans ?_
  rw [ok_bind, hread]
  rfl

/-- `run` on a new session. -/
theorem run_eq (env : Env) (w : Server) (s : Ptr) (req : Request) (now : Nat) :
    (w.enter s { useCount := 1 }).run env s req now =
      .ok (w.enter s (WebsocketSession.opened env req now)) := by
  unfold Server.run WebsocketSession.opened
  cases hv : env.verify (extractToken req.target) now with
  | ok _ =>
    exact update_enter (o := { useCount := 1 }) rfl rfl
  | error what =>
    exact update_enter (o := { useCount := 1 }) rfl rfl

/-- The end of a handler after which the session has other owners. -/
theorem release_owned (ho : w.session s = some o)
    (hd : o.destroyed = false) (hu : o.useCount ≠ 1) :
    w.release s = .ok { w.put s o.release with running := none } := by
  rw [release_ok ho hd, if_neg hu]; rfl

/-- **No handler faults**, and its effect is `effect`. -/
theorem step_eq (env : Env) (hw : w.Inv) {e : Event} (he : w.enabled e = true) :
    ∃ views, w.step env e = .ok { w.effect env e with views := w.views ++ views } ∧
      ∀ v ∈ views, v.Ok := by
  cases e with
  | upgrade s req now =>
    refine ⟨[], ?_, by simp⟩
    have hrun : (({ w.put s { useCount := 1 } with running := some s } : Server).run env s req
      now) = _ := run_eq env w s req now
    have hu : (WebsocketSession.opened env req now).useCount ≠ 1 ∧
        (WebsocketSession.opened env req now).destroyed = false := by
      unfold WebsocketSession.opened
      split <;> exact ⟨by simp, rfl⟩
    simp only [step]
    refine (congrArg (· >>= _) hrun).trans ?_
    rw [ok_bind, release_owned (enter_session w s _) hu.2 hu.1, effect]
    simp [Server.enter, put, hw.running]
  | accept s ec time =>
    obtain ⟨o, ho, hm⟩ : ∃ o, w.session s = some o ∧ _ := exists_of_enabled he rfl
    obtain ⟨hd, hu⟩ := (hw.objects s o ho).alive_of_mem hm
    cases ec with
    | none =>
      obtain ⟨views, ha, hv⟩ := onAccept_eq env hw ho hm time
      refine ⟨views, ?_, hv⟩
      have hk := (hw.objects s o ho).accepted_kept hm (generateRandomString env 16 time)
        w.history.length
      simp only [step]
      rw [complete_ok hw ho hm, ha, ok_bind]
      refine (release_owned (o := o.accepted (generateRandomString env 16 time) w.history.length)
        (by simp [Server.enter, put]) hk.1 hk.2).trans ?_
      rw [effect, object_eq ho]
      simp [Server.enter, put, hw.running]
    | some ec =>
      refine step_handled hw ho hm (by rw [step]) rfl ?_
      exact update_enter hd rfl
  | read s ec text bytes =>
    obtain ⟨o, ho, hm⟩ : ∃ o, w.session s = some o ∧ _ := exists_of_enabled he rfl
    obtain ⟨hd, hu⟩ := (hw.objects s o ho).alive_of_mem hm
    have hrec : ((w.enter s (o.finish .read)).update s fun o => .ok
        { o with buffer := o.buffer ++ bytes, ws := { o.ws with gotText := text } }) =
          .ok (w.enter s (o.received text bytes)) := update_enter hd rfl
    cases ec with
    | none =>
      obtain ⟨views, hread, hv⟩ := onRead_eq hw ho hm text bytes
      refine ⟨views, ?_, hv⟩
      have hobj := (relay_object w s (o.received text bytes) bytes).2
      simp only [step]
      rw [complete_ok hw ho hm]
      refine (congrArg (· >>= _) ((congrArg (· >>= _) hrec).trans hread)).trans ?_
      rw [ok_bind]
      refine (release_owned
        (o := (((w.enter s (o.received text bytes)).relay bytes).object s).rearm)
        (by simp [put]) ?_ ?_).trans ?_
      · rw [hobj]; split
        · exact (push_destroyed _).trans hd
        · exact hd
      · rw [hobj]; split
        · exact Nat.ne_of_gt (Nat.succ_lt_succ (Nat.lt_of_lt_of_le hu
            (le_push_useCount (o := o.received text bytes) _)))
        · exact Nat.ne_of_gt (Nat.succ_lt_succ hu)
      · rw [effect, object_eq ho]
        simp [Server.enter, put]
    | some ec =>
      refine step_handled hw ho hm (by rw [step]) rfl ?_
      refine (congrArg (· >>= _) hrec).trans ?_
      exact update_enter hd rfl
  | write s frame ec =>
    obtain ⟨o, ho, hm⟩ : ∃ o, w.session s = some o ∧ _ := exists_of_enabled he rfl
    obtain ⟨hd, hu⟩ := (hw.objects s o ho).alive_of_mem hm
    refine step_handled hw ho hm (by rw [step]) rfl ?_
    refine update_enter hd ?_
    cases ec with
    | none =>
      obtain ⟨-, -, rest, hq⟩ := (hw.objects s o ho).pump.front (mem_writes.mpr hm)
      exact onWrite_none (o := o.finish (.write frame)) hu (by show o.queue ≠ []; simp [hq])
    | some ec => rfl
  | close s ec =>
    obtain ⟨o, ho, hm⟩ : ∃ o, w.session s = some o ∧ _ := exists_of_enabled he rfl
    refine step_handled hw ho hm (by rw [step]) rfl ?_
    exact update_enter ((hw.objects s o ho).alive_of_mem hm).1 rfl
  | write401 s res ec =>
    obtain ⟨o, ho, hm⟩ : ∃ o, w.session s = some o ∧ _ := exists_of_enabled he rfl
    refine step_handled hw ho hm (by rw [step]) rfl ?_
    exact update_enter ((hw.objects s o ho).alive_of_mem hm).1 rfl

end Server

end ChatServer
