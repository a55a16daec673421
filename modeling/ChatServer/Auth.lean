import ChatServer.Order

/-!
# The authentication gate

An id is the mark of a session that was let in: `run` starts the handshake only if the token is
verified, only a handshake that succeeds sets the id and registers the session, and `disconnect`
does nothing without an id. A session that is not let in is only visible to itself.

* `effect_congr`: what an event does depends on the registry, the history and its own session.
* `Judged`: the invariant of one session: a verified token before the handshake, a handshake before
  the registration.
* `authenticationGate`: who is registered, was sent anything or caused a broadcast has passed both;
  without the steps of all who have not, the others have the same run.
-/

namespace ChatServer

open Lib
open scoped List

namespace Server

open WebsocketSession

variable {env : Env} {w w' t : Server} {s p : Ptr} {e : Event} {es : List Event}

/-! ## What an event depends on -/

theorem delivered_congr {ss : SharedString} {l : List Ptr} {f g : Ptr → Option WebsocketSession}
    (h : f p = g p) : delivered ss l f p = delivered ss l g p := by
  unfold delivered; rw [h]

theorem update_congr {f g : Ptr → Option WebsocketSession} (x : Option WebsocketSession)
    (h : f p = g p) : Function.update f s x p = Function.update g s x p := by
  by_cases hp : p = s
  · subst hp; simp
  · rw [Function.update_of_ne hp, Function.update_of_ne hp, h]

/-- Two servers with the same registry and history. -/
structure Alike (t w : Server) : Prop where
  sessions : t.sessions = w.sessions
  history : t.history = w.history

theorem Alike.members (h : Alike t w) : t.members = w.members := by
  unfold Server.members; rw [h.sessions]

theorem settle_congr (h : Alike t w) (o : WebsocketSession) : Alike (t.settle s o) (w.settle s o) ∧
    ∀ p, t.session p = w.session p → (t.settle s o).session p = (w.settle s o).session p := by
  have hm : (t.leave s o).members = (w.leave s o).members := by
    unfold Server.members leave; rw [h.sessions]
  unfold settle
  by_cases hc : o.useCount = 1 ∧ o.connectionId ≠ []
  · rw [if_pos hc, if_pos hc]
    refine ⟨⟨?_, ?_⟩, fun p hp => ?_⟩
    · show t.sessions.erase _ = w.sessions.erase _
      rw [h.sessions]
    · show t.history ++ _ = w.history ++ _
      rw [h.history]; rfl
    · show delivered ⟨_, some t.history.length⟩ (t.leave s o).members _ p =
        delivered ⟨_, some w.history.length⟩ (w.leave s o).members _ p
      rw [hm, h.history]
      exact delivered_congr (update_congr _ hp)
  · rw [if_neg hc, if_neg hc]
    exact ⟨⟨h.sessions, h.history⟩, fun p hp => update_congr _ hp⟩

/-- **What an event does** to the registry, the history and a session depends on these and on the
session of the event. -/
theorem effect_congr (env : Env) (h : Alike t w) (ho : t.session e.session = w.session e.session) :
    Alike (t.effect env e) (w.effect env e) ∧
    ∀ p, t.session p = w.session p → (t.effect env e).session p = (w.effect env e).session p := by
  have hobj : t.object e.session = w.object e.session := by unfold object; rw [ho]
  have hquiet (heff : ∀ v : Server, v.effect env e =
      v.settle e.session ((v.object e.session).handled e)) :
      Alike (t.effect env e) (w.effect env e) ∧ ∀ p, t.session p = w.session p →
        (t.effect env e).session p = (w.effect env e).session p := by
    rw [heff t, heff w, hobj]
    exact settle_congr h _
  cases e with
  | upgrade s req now => exact ⟨⟨h.sessions, h.history⟩, fun p hp => update_congr _ hp⟩
  | accept s ec time =>
    cases ec with
    | none =>
      have hobj : t.object s = w.object s := hobj
      refine ⟨⟨?_, h.history⟩, fun p hp => ?_⟩
      · show t.sessions.insert _ s = w.sessions.insert _ s
        rw [h.sessions]
      · show (t.put s _).session p = (w.put s _).session p
        rw [hobj, h.history]
        exact update_congr _ hp
    | some ec => exact hquiet fun v => rfl
  | read s ec text bytes =>
    cases ec with
    | none =>
      have hobj : t.object s = w.object s := hobj
      let relayed (v : Server) : Server :=
        (v.enter s ((v.object s).received text bytes)).relay bytes
      have hrel : ∀ p, t.session p = w.session p ∨ p = s →
          (relayed t).session p = (relayed w).session p := by
        intro p hp
        show delivered ⟨_, some t.history.length⟩ t.members _ p =
          delivered ⟨_, some w.history.length⟩ w.members _ p
        rw [h.members, h.history, hobj]
        apply delivered_congr
        rcases hp with hp | rfl
        · exact update_congr _ hp
        · rw [enter_session, enter_session]
      have hself : (relayed t).object s = (relayed w).object s := by
        unfold object; rw [hrel s (.inr rfl)]
      refine ⟨⟨h.sessions, ?_⟩, fun p hp => ?_⟩
      · show t.history ++ _ = w.history ++ _
        rw [h.history]
      · show Function.update (relayed t).session s (some ((relayed t).object s).rearm.release) p =
          Function.update (relayed w).session s (some ((relayed w).object s).rearm.release) p
        rw [hself]
        exact update_congr _ (hrel p (.inl hp))
    | some ec => exact hquiet fun v => rfl
  | write s frame ec => exact hquiet fun v => rfl
  | close s ec => exact hquiet fun v => rfl
  | write401 s res ec => exact hquiet fun v => rfl

theorem enabled_congr (ho : t.session e.session = w.session e.session)
    (h : w.enabled e = true) : t.enabled e = true := by
  cases e <;> simp only [enabled, pending, Event.session] at * <;> rw [ho] <;> exact h

/-! ## A session that is not let in -/

/-- An event of a session that is not let in changes nothing but this session. -/
theorem Inv.effect_unjoined (env : Env) (hw : w.Inv) (he : w.enabled e = true)
    (hj : ∀ o, w.session e.session = some o → o.joined = none)
    (hna : ∀ s time, e ≠ .accept s none time) :
    ∃ o', w.effect env e = w.put e.session o' ∧ o'.joined = none := by
  have hquiet {op : Op} (hop : e.op? = some op)
      (heff : w.effect env e = w.settle e.session ((w.object e.session).handled e)) :
      ∃ o', w.effect env e = w.put e.session o' ∧ o'.joined = none := by
    obtain ⟨o, ho, -⟩ := exists_of_enabled he hop
    have hk := handled_kept o e
    have hid := ((hw.objects _ o ho).unjoined (hj o ho)).1
    rw [heff, object_eq ho]
    unfold Server.settle
    rw [if_neg (fun hc => hc.2 (hk.connectionId.trans hid))]
    exact ⟨_, rfl, hk.joined.trans (hj o ho)⟩
  cases e with
  | upgrade s req now =>
    refine ⟨_, rfl, ?_⟩
    show (opened env req now).joined = none
    unfold opened
    split <;> rfl
  | accept s ec time =>
    cases ec with
    | none => exact absurd rfl (hna s time)
    | some ec => exact hquiet rfl rfl
  | read s ec text bytes =>
    obtain ⟨o, ho, hm⟩ : ∃ o, w.session s = some o ∧ _ := exists_of_enabled he rfl
    exact absurd (hj o ho) ((hw.objects s o ho).joined_of_mem hm (.inl rfl))
  | write s frame ec => exact hquiet rfl rfl
  | close s ec => exact hquiet rfl rfl
  | write401 s res ec => exact hquiet rfl rfl

/-! ## Who was let in -/

/-- The event rejects the token of the session at `p`, or fails its handshake. -/
def rejects (env : Env) (p : Ptr) : Event → Bool
  | .upgrade s req now =>
    match env.verify (extractToken req.target) now with
    | .ok () => false
    | .error _ => s == p
  | .accept s (some _) _ => s == p
  | _ => false

/-- The token of the session at `p` was rejected, or its handshake failed. -/
def rejected (env : Env) (es : List Event) (p : Ptr) : Bool := es.any (rejects env p)

/-- The invariant of the session at `p` (module doc). -/
structure Judged (env : Env) (es : List Event) (w : Server) (p : Ptr) : Prop where
  unknown : w.session p = none → ∀ e ∈ es, e.session ≠ p
  handshake : ∀ o, w.session p = some o → .accept ∈ o.ops → rejected env es p = false ∧
    ∃ req now, .upgrade p req now ∈ es ∧ env.verify (extractToken req.target) now = .ok ()
  letIn : ∀ o, w.session p = some o → o.joined ≠ none → rejected env es p = false ∧
    ∃ req now time, [.upgrade p req now, .accept p none time] <+ es ∧
      env.verify (extractToken req.target) now = .ok ()

theorem rejects_ne (env : Env) (hp : p ≠ e.session) : rejects env p e = false := by
  have hs : (e.session == p) = false := beq_eq_false_iff_ne.mpr (Ne.symm hp)
  cases e with
  | upgrade s req now =>
    simp only [rejects]
    split
    · rfl
    · exact hs
  | accept s ec time => cases ec <;> first | rfl | exact hs
  | _ => rfl

theorem rejected_concat (h : rejected env es p = false) (he : rejects env p e = false) :
    rejected env (es ++ [e]) p = false := by
  unfold rejected at h ⊢
  rw [List.any_append, h]
  simp [he]

/-- An outstanding handshake has just been started, for a verified token, or it was outstanding
before. -/
theorem Inv.accept_before (hw : w.Inv) (he : w.enabled e = true) {o' : WebsocketSession}
    (ho' : (w.effect env e).session p = some o') (hm : .accept ∈ o'.ops) :
    (w.session p = none ∧ ∃ req now, e = .upgrade p req now ∧
      env.verify (extractToken req.target) now = .ok ()) ∨
    ∃ o, w.session p = some o ∧ .accept ∈ o.ops ∧ rejects env p e = false := by
  have hops : o'.ops = [.accept] := (((hw.effect he env).objects p o' ho').accepting hm).2.1
  by_cases hp : p = e.session
  · subst hp
    have hread {x : WebsocketSession} (hx : (w.effect env e).session e.session = some x)
        (hr : x.ops.head? = some .read) : False := by
      obtain rfl := Option.some.inj (hx.symm.trans ho')
      rw [hops] at hr
      cases hr
    have hquiet {op : Op} (hop : e.op? = some op) (hq : e.quiet = true)
        (heff : w.effect env e = w.settle e.session ((w.object e.session).handled e)) :
        False := by
      obtain ⟨o, ho, hmo⟩ := exists_of_enabled he hop
      rw [heff, object_eq ho, hw.settle_self ho (handled_kept o e).connectionId] at ho'
      have hops' : (o.handled e).ops = [.accept] := by
        rw [← hops, ← Option.some.inj ho']; rfl
      -- The handshake was outstanding besides the operation that completed.
      have hlen := List.length_erase_add_one hmo
      obtain h | ⟨f, h⟩ := handled_ops o hq hop <;> rw [h] at hops'
      · have hacc : .accept ∈ o.ops := List.mem_of_mem_erase (hops' ▸ List.mem_cons_self)
        rw [hops', ((hw.objects _ o ho).accepting hacc).2.1] at hlen
        exact absurd hlen (by decide)
      · cases hops'
    cases e with
    | upgrade s req now =>
      have hs : s ≠ nullptr ∧ w.session s = none := by simpa [enabled] using he
      refine .inl ⟨hs.2, req, now, rfl, ?_⟩
      cases hv : env.verify (extractToken req.target) now with
      | ok _ => rfl
      | error what =>
        obtain rfl := Option.some.inj ((put_self w s _).symm.trans ho')
        have hbad : (opened env req now).ops = [.accept] := hops
        unfold opened at hbad
        rw [hv] at hbad
        cases hbad
    | accept s ec time =>
      cases ec with
      | none => exact (hread (put_self ..) rfl).elim
      | some ec => exact (hquiet rfl rfl rfl).elim
    | read s ec text bytes =>
      cases ec with
      | none => exact (hread (put_self ..) rfl).elim
      | some ec => exact (hquiet rfl rfl rfl).elim
    | write s frame ec => exact (hquiet rfl rfl rfl).elim
    | close s ec => exact (hquiet rfl rfl rfl).elim
    | write401 s res ec => exact (hquiet rfl rfl rfl).elim
  · refine .inr ?_
    obtain h | ⟨ss, -, h⟩ := hw.effect_ne env he hp <;> rw [h] at ho'
    · exact ⟨o', ho', hm, rejects_ne env hp⟩
    · obtain ⟨o, ho, rfl⟩ := Option.map_eq_some_iff.mp ho'
      refine ⟨o, ho, ?_, rejects_ne env hp⟩
      rcases push_ops o ss with he | ⟨f, he⟩ <;> rw [he] at hm
      · exact hm
      · simpa using hm

/-- An event that rejects a session, or fails its handshake, happens before it is registered. -/
theorem Inv.rejects_joined (hw : w.Inv) (he : w.enabled e = true) {o : WebsocketSession}
    (ho : w.session p = some o) (hj : o.joined ≠ none) : rejects env p e = false := by
  by_cases hp : p = e.session
  · subst hp
    cases e with
    | upgrade s req now =>
      have hs : s ≠ nullptr ∧ w.session s = none := by simpa [enabled] using he
      exact absurd (hs.2.symm.trans ho) (by simp)
    | accept s ec time =>
      obtain ⟨o₁, ho₁, hm⟩ : ∃ o, w.session s = some o ∧ _ := exists_of_enabled he rfl
      obtain rfl := Option.some.inj (ho.symm.trans ho₁)
      exact absurd ((hw.objects s o ho).accepting hm).1 hj
    | _ => rfl
  · exact rejects_ne env hp

theorem Judged.step (h : Judged env es w p) (hw : w.Inv) (he : w.enabled e = true)
    (hw' : ∀ q, w'.session q = (w.effect env e).session q) (ht : Turn env w e w') :
    Judged env (es ++ [e]) w' p := by
  refine ⟨fun hnone e' hm hp => ?_, fun o' ho' hacc => ?_, fun o' ho' hj => ?_⟩
  · have hold : w.session p = none := by
      cases ho : w.session p with
      | none => rfl
      | some o =>
        have hsome := ht.isSome (p := p) (by rw [ledger_eq ho]; rfl)
        unfold ledger at hsome
        rw [hnone] at hsome
        cases hsome
    rcases List.mem_append.mp hm with hm | hm
    · exact h.unknown hold e' hm hp
    · rw [List.mem_singleton] at hm
      subst hm hp
      rw [hw'] at hnone
      cases hop : e'.op? with
      | none =>
        cases e' with
        | upgrade s req now => exact absurd ((put_self w s _).symm.trans hnone) (by simp)
        | _ => cases hop
      | some op =>
        obtain ⟨o, ho, -⟩ := exists_of_enabled he hop
        exact absurd (hold.symm.trans ho) (by simp)
  · rw [hw'] at ho'
    rcases hw.accept_before he ho' hacc with ⟨hnone, req, now, rfl, hv⟩ | ⟨o, ho, hm, hrej⟩
    · refine ⟨?_, req, now, by simp, hv⟩
      apply rejected_concat
      · unfold rejected
        rw [List.any_eq_false]
        exact fun e' hm => by rw [rejects_ne env (Ne.symm (h.unknown hnone e' hm))]; simp
      · simp only [rejects, hv]
    · obtain ⟨hno, req, now, hup, hv⟩ := h.handshake o ho hm
      exact ⟨rejected_concat hno hrej, req, now, List.mem_append_left _ hup, hv⟩
  · obtain ⟨-, hy, -⟩ | ⟨-, time, rfl, -⟩ | ⟨x, hg⟩ := ht.before (ledger_eq ho')
    · exact absurd (congrArg Entry.joined hy) hj
    · obtain ⟨o, ho, hm⟩ : ∃ o, w.session p = some o ∧ _ := exists_of_enabled he rfl
      obtain ⟨hno, req, now, hup, hv⟩ := h.handshake o ho hm
      refine ⟨rejected_concat hno rfl, req, now, time, ?_, hv⟩
      exact (List.singleton_sublist.mpr hup).append (List.Sublist.refl _)
    · obtain ⟨o, ho, rfl⟩ := ledger_some hg.was
      have hjo : o.joined ≠ none := fun hjo => hj (hg.joined.trans hjo)
      obtain ⟨hno, req, now, time, hsub, hv⟩ := h.letIn o ho hjo
      exact ⟨rejected_concat hno (hw.rejects_joined he ho hjo), req, now, time,
        hsub.trans (List.sublist_append_left _ _), hv⟩

theorem judged (hr : (server env).Runs es w) (p : Ptr) : Judged env es w p := by
  refine Sys.Runs.induct (P := fun es w => Judged env es w p) ⟨by simp, ?_, ?_⟩ ?_ hr
  · intro o ho
    cases ho
  · intro o ho
    cases ho
  · intro es w e w' hr ih hn
    have hw := reach_inv hr.reach
    obtain ⟨he, views, hw'⟩ := next_cases hw hn
    exact ih.step hw he (fun q => by rw [hw']) (hw.step_turn hn)

/-- Who has been registered stays so. -/
theorem Turn.joined_stays (ht : Turn env w e w') {x : Entry} (hx : w.ledger p = some x)
    (hj : x.joined ≠ none) : ∃ y, w'.ledger p = some y ∧ y.joined ≠ none := by
  obtain ⟨y, hy⟩ := Option.isSome_iff_exists.mp (ht.isSome (p := p) (by rw [hx]; rfl))
  refine ⟨y, hy, ?_⟩
  obtain ⟨hnone, -⟩ | ⟨-, time, -, -, -, rfl⟩ | ⟨x', hg⟩ := ht.before hy
  · unfold ledger at hx
    rw [hnone] at hx
    cases hx
  · simp
  · obtain rfl := Option.some.inj (hx.symm.trans hg.was)
    rw [hg.joined]
    exact hj

/-- Who causes a broadcast has been registered. -/
theorem Turn.caller (ht : Turn env w e w') {b : Broadcast} (hb : b ∈ w'.history)
    (hs : b.caller = some s) : b ∈ w.history ∨ ∃ x, w.ledger s = some x ∧ x.joined ≠ none := by
  cases ht with
  | opened fresh sessions history ledger => exact .inl (history ▸ hb)
  | joined was sessions history ledger => exact .inl (history ▸ hb)
  | said was live sessions history ledger =>
    rw [history, List.mem_append, List.mem_singleton] at hb
    apply hb.imp_right
    intro hb
    subst hb
    cases hs
    exact ⟨_, was, live.1⟩
  | left quiet was live sessions history ledger =>
    rw [history, List.mem_append, List.mem_singleton] at hb
    apply hb.imp_right
    intro hb
    subst hb
    cases hs
    exact ⟨_, was, live.1⟩
  | dropped quiet was sessions history ledger => exact .inl (history ▸ hb)
  | stays quiet sessions history ledger => exact .inl (history ▸ hb)

theorem caller_joined (hr : (server env).Runs es w) {b : Broadcast} (hb : b ∈ w.history)
    (hs : b.caller = some s) : ∃ x, w.ledger s = some x ∧ x.joined ≠ none := by
  refine Sys.Runs.induct (P := fun _ w => ∀ b ∈ w.history, b.caller = some s →
    ∃ x, w.ledger s = some x ∧ x.joined ≠ none) ?_ ?_ hr b hb hs
  · intro b hb
    cases hb
  · intro es w e w' hr ih hn b hb hs
    have ht := (reach_inv hr.reach).step_turn hn
    obtain ⟨x, hx, hj⟩ := (ht.caller hb hs).elim (fun hb => ih b hb hs) id
    exact ht.joined_stays hx hj

/-! ## The run without those who were not let in -/

/-- The servers of two runs, of which the second has no step of the sessions of `bad`. -/
structure Without (bad : Ptr → Bool) (w t : Server) : Prop where
  inv : t.Inv
  alike : Alike t w
  others : ∀ p, bad p = false → t.session p = w.session p
  absent : ∀ p, bad p = true → t.session p = none
  unjoined : ∀ p o, bad p = true → w.session p = some o → o.joined = none

/-- No session of `bad` completes its handshake. -/
def Refused (bad : Ptr → Bool) (_ : Server) (e : Event) (_ : Server) : Prop :=
  ∀ s time, e = .accept s none time → bad s = false

/-- A step of a session of `bad` is invisible to the others. -/
theorem Without.drop {bad : Ptr → Bool} (h : Without bad w t) (hw : w.Inv)
    (hn : (server env).next w e = some w') (hr : Refused bad w e w') (hb : bad e.session = true) :
    Without bad w' t := by
  obtain ⟨he, views, rfl⟩ := next_cases hw hn
  obtain ⟨o', heff, hj⟩ := hw.effect_unjoined env he
    (fun o ho => h.unjoined _ o hb ho) (fun s time hs => by
      subst hs
      exact absurd (hr s time rfl) (by rw [show bad s = true from hb]; simp))
  rw [heff]
  refine ⟨h.inv, ⟨h.alike.sessions, h.alike.history⟩, fun p hp => ?_, h.absent,
    fun p o hp ho => ?_⟩
  · have hps : p ≠ e.session := by
      rintro rfl
      exact absurd (hp.symm.trans hb) (by simp)
    exact (h.others p hp).trans (Function.update_of_ne hps ..).symm
  · by_cases hps : p = e.session
    · subst hps
      obtain rfl := Option.some.inj ((put_self w _ o').symm.trans ho)
      exact hj
    · exact h.unjoined p o hp ((Function.update_of_ne hps ..).symm.trans ho)

/-- A step of another session is one of the run without them, too. -/
theorem Without.keep {bad : Ptr → Bool} (h : Without bad w t) (hw : w.Inv)
    (hn : (server env).next w e = some w') (hb : bad e.session = false) :
    ∃ t', (server env).next t e = some t' ∧ Without bad w' t' := by
  obtain ⟨he, views, rfl⟩ := next_cases hw hn
  have ho := h.others _ hb
  have het := enabled_congr ho he
  obtain ⟨views', hnt⟩ := next_of_enabled env h.inv het
  obtain ⟨halike, hsame⟩ := effect_congr env h.alike ho
  refine ⟨_, hnt, inv_step h.inv hnt, ⟨halike.sessions, halike.history⟩, fun p hp => ?_,
    fun p hp => ?_, fun p o hp ho => ?_⟩
  · exact hsame p (h.others p hp)
  · have hps : p ≠ e.session := by
      rintro rfl
      exact absurd (hp.symm.trans hb) (by simp)
    obtain hold | ⟨ss, -, hold⟩ := h.inv.effect_ne env het hps
    · exact hold.trans (h.absent p hp)
    · refine hold.trans ?_
      rw [h.absent p hp]; rfl
  · have hps : p ≠ e.session := by
      rintro rfl
      exact absurd (hp.symm.trans hb) (by simp)
    obtain hold | ⟨ss, hm, -⟩ := hw.effect_ne env he hps
    · exact h.unjoined p o hp (hold.symm.trans ho)
    · -- Whoever is sent a message is registered.
      obtain ⟨o₁, ho₁, hj, -⟩ := hw.member hm
      exact absurd (h.unjoined p o₁ hp ho₁) hj

theorem without (env : Env) (bad : Ptr → Bool) : Sys.Simulates (server env) (server env)
    (Refused bad) (Sys.keep fun e => !bad e.session) (Without bad) where
  init := ⟨Inv.nil, ⟨rfl, rfl⟩, fun _ _ => rfl, fun _ _ => rfl, fun _ _ _ ho => by cases ho⟩
  step := by
    intro w e w' t hr h hn hc
    have hw := reach_inv hr
    unfold Sys.keep
    cases hb : bad e.session with
    | true => exact ⟨t, by simp [hb], h.drop hw hn hc hb⟩
    | false =>
      obtain ⟨t', hnt, ht'⟩ := h.keep hw hn hb
      exact ⟨t', by simpa [hb] using hnt, ht'⟩

end Server

open Server in
/-- **The authentication gate**, and that who is not let in is invisible. A session that is in the
registry, was ever sent a message or caused a broadcast had the token of its target verified in
`run`, and then its handshake succeeded. Without all the steps of the sessions whose token was
rejected or whose handshake failed, the run is one to the same registry and the same other
sessions. -/
theorem authenticationGate {env : Env} {es : List Server.Event} {w : Server}
    (hr : (server env).Runs es w) :
    (∀ s, ((∃ id, w.sessions.lookup id = some s) ∨
        (∃ o, w.session s = some o ∧ o.written ++ o.queue ≠ []) ∨
        ∃ b ∈ w.history, b.caller = some s) →
      ∃ req now time, [.upgrade s req now, .accept s none time] <+ es ∧
        env.verify (extractToken req.target) now = .ok ()) ∧
    ∃ w', (server env).Runs (es.filter fun e => !rejected env es e.session) w' ∧
      w'.sessions = w.sessions ∧
      ∀ s, rejected env es s = false → w'.session s = w.session s := by
  have hw := reach_inv hr.reach
  refine ⟨fun s hs => ?_, ?_⟩
  · obtain ⟨o, ho, hj⟩ : ∃ o, w.session s = some o ∧ o.joined ≠ none := by
      rcases hs with hreg | ⟨o, ho, hne⟩ | ⟨b, hb, hcall⟩
      · obtain ⟨o, ho, hj, -⟩ := hw.member (mem_members.mpr hreg)
        exact ⟨o, ho, hj⟩
      · refine ⟨o, ho, fun hj => hne ?_⟩
        rw [hw.written_queue ho]
        exact ((hw.objects s o ho).unjoined hj).2.1
      · obtain ⟨x, hx, hj⟩ := caller_joined hr hb hcall
        obtain ⟨o, ho, rfl⟩ := ledger_some hx
        exact ⟨o, ho, hj⟩
    exact ((judged hr s).letIn o ho hj).2
  · have hC : (server env).Meets (Refused (rejected env es)) es := by
      rintro es₁ e hp w₁ w₂ - - s time rfl
      have hm : .accept s none time ∈ es := hp.subset (by simp)
      cases ho : w.session s with
      | none => exact absurd rfl ((judged hr s).unknown ho _ hm)
      | some o =>
        rcases heard hr (ledger_eq ho) with ⟨-, -, hno⟩ | ⟨hj, -⟩
        · exact absurd hm (hno time)
        · exact ((judged hr s).letIn o ho hj).1
    obtain ⟨t, ht, h⟩ := (without env (rejected env es)).run hr hC
    rw [Sys.labels_keep _ hr] at ht
    exact ⟨t, ht, h.alike.sessions, h.others⟩

/-- The verifier accepts one token. -/
def gateEnv : Env :=
  { plainEnv with
    verify := fun token _ => if token = ascii "good" then .ok () else .error (ascii "bad") }

/-- The first of two clients has a bad token. -/
def twoTokens : List Server.Event :=
  [.upgrade 1 { target := ascii "/?token=x" } 0, .upgrade 2 { target := ascii "/?token=good" } 0,
    .accept 2 none 0, .close 1 none]

theorem authenticationGate_twoTokens : ∃ w w', (server gateEnv).Runs twoTokens w ∧
    (server gateEnv).Runs
      (twoTokens.filter fun e => !Server.rejected gateEnv twoTokens e.session) w' ∧
    w'.sessions = w.sessions := by
  have hr : (server gateEnv).Runs twoTokens _ := rfl
  obtain ⟨w', hr', hs, -⟩ := (authenticationGate hr).2
  exact ⟨_, w', hr, hr', hs⟩

example : twoTokens.filter (fun e => !Server.rejected gateEnv twoTokens e.session) =
    [.upgrade 2 { target := ascii "/?token=good" } 0, .accept 2 none 0] := by decide

end ChatServer
