import ChatServer.Effect

/-!
# No dangling pointers

The registry holds plain pointers, and only the handlers of outstanding operations own the
sessions. The invariant `Server.Inv` ties them together and every step keeps it (`inv_step`), ids
that collide included: an entry that is overwritten leaves a session that no entry points to, and
a destructor that erases the entry of another session takes it out of the registry.

* `reach_inv`: the invariant in every reachable state.
* `registrySafe`: the registry and the lookups of every run are safe, and no handler faults.
-/

namespace ChatServer

open Lib

namespace Server

open WebsocketSession

variable {env : Env} {w : Server} {s p : Ptr} {o o' : WebsocketSession}

/-! ## The invariant is kept -/

/-- A session in the registry has been accepted, is alive and is found by its id. -/
theorem Inv.member (hw : w.Inv) (hp : p ∈ w.members) :
    ∃ o, w.session p = some o ∧ o.joined ≠ none ∧ o.destroyed = false ∧ 0 < o.useCount ∧
      w.sessions.lookup o.connectionId = some p := by
  obtain ⟨id, hl⟩ := mem_members.mp hp
  obtain ⟨o, ho, hd, hu, -, hid⟩ := hw.entries id p hl
  exact ⟨o, ho, hw.registered p o hp ho, hd, hu, by rw [hid]; exact hl⟩

theorem delivered_ne (ss : SharedString) (l : List Ptr) (f : Ptr → Option WebsocketSession)
    (x : Option WebsocketSession) (hp : p ≠ s) :
    delivered ss l (Function.update f s x) p = delivered ss l f p := by
  unfold delivered; simp [hp]

/-- The sessions after a message was sent to some members of the registry. -/
theorem Inv.delivered (hw : w.Inv) {ss : SharedString} {l : List Ptr}
    (hl : ∀ p ∈ l, p ∈ w.members) (ho : Server.delivered ss l w.session p = some o') :
    o'.Ok 0 ∧ ∃ o, w.session p = some o ∧ o'.joined = o.joined := by
  unfold Server.delivered at ho
  split at ho
  · obtain ⟨o, hs, hj, -, hu, -⟩ := hw.member (hl p ‹_›)
    rw [hs] at ho
    cases ho
    exact ⟨(hw.objects p o hs).push hj hu ss, o, hs, push_joined ss⟩
  · exact ⟨hw.objects p o' ho, o', ho, rfl⟩

/-- The entries left after the destructor of the session at `s` erased its id. -/
theorem Inv.erased (hw : w.Inv) (ho : w.session s = some o) {id : Bytes}
    (hl : (w.sessions.erase o.connectionId).lookup id = some p) :
    p ≠ s ∧ w.sessions.lookup id = some p := by
  have hne : id ≠ o.connectionId := by
    rintro rfl
    rw [AList.lookup_erase] at hl
    cases hl
  rw [AList.lookup_erase_ne hne] at hl
  refine ⟨?_, hl⟩
  rintro rfl
  obtain ⟨o₁, ho₁, -, -, -, hid⟩ := hw.entries id p hl
  have he : o = o₁ := Option.some.inj (ho.symm.trans ho₁)
  exact hne (he ▸ hid.symm)

theorem Inv.leave_members (hw : w.Inv) (ho : w.session s = some o)
    (hid : o'.connectionId = o.connectionId) (hp : p ∈ (w.leave s o').members) :
    p ≠ s ∧ p ∈ w.members := by
  obtain ⟨id, hl⟩ := mem_members.mp hp
  have hl' : (w.sessions.erase o.connectionId).lookup id = some p := hid ▸ hl
  exact ⟨(hw.erased ho hl').1, mem_members.mpr ⟨id, (hw.erased ho hl').2⟩⟩

/-- `release` leaves the released object at `s`. -/
theorem Inv.settle_self (hw : w.Inv) (ho : w.session s = some o)
    (hid : o'.connectionId = o.connectionId) :
    (w.settle s o').session s = some o'.release := by
  unfold Server.settle
  split
  · have hn : s ∉ (w.leave s o').members := fun hm => (hw.leave_members ho hid hm).1 rfl
    show Server.delivered _ _ (Function.update w.session s (some o'.release)) s = _
    unfold Server.delivered
    rw [if_neg hn, Function.update_self]
  · exact put_self w s _

/-- The other sessions get the notice, if there is one. -/
theorem settle_ne (w : Server) (o' : WebsocketSession) (hp : p ≠ s) :
    (w.settle s o').session p = w.session p ∨
      (o'.useCount = 1 ∧ o'.connectionId ≠ []) ∧ (w.settle s o').session p =
        Server.delivered ⟨notice o'.connectionId, some w.history.length⟩ (w.leave s o').members
          w.session p := by
  unfold Server.settle
  split
  · exact .inr ⟨‹_›, delivered_ne _ _ _ _ hp⟩
  · exact .inl (Function.update_of_ne hp ..)

/-- The end of a handler that only touched its object. -/
theorem Inv.settle (hw : w.Inv) (ho : w.session s = some o) (h : o'.Ok 1)
    (hid : o'.connectionId = o.connectionId) (hj : o'.joined = o.joined) :
    (w.settle s o').Inv := by
  have hself := hw.settle_self ho hid
  have hmem {p : Ptr} (hp : p ∈ (w.leave s o').members) := hw.leave_members ho hid hp
  have hold : ∀ p ≠ s, ∀ o₂, (w.settle s o').session p = some o₂ →
      o₂.Ok 0 ∧ ∃ o₁, w.session p = some o₁ ∧ o₂.joined = o₁.joined := by
    intro p hp o₂ ho₂
    obtain he | ⟨-, he⟩ := settle_ne w o' hp <;> rw [he] at ho₂
    · exact ⟨hw.objects p o₂ ho₂, o₂, ho₂, rfl⟩
    · exact hw.delivered (fun q hq => (hmem hq).2) ho₂
  have hreg : ∀ p o₂, p ∈ w.members → (w.settle s o').session p = some o₂ → o₂.joined ≠ none := by
    intro p o₂ hp ho₂
    by_cases hps : p = s
    · subst hps
      rw [← Option.some.inj (hself.symm.trans ho₂)]
      exact hj ▸ hw.registered p o hp ho
    · obtain ⟨-, o₁, ho₁, hj₁⟩ := hold p hps o₂ ho₂
      exact hj₁ ▸ hw.registered p o₁ hp ho₁
  have hobj : ∀ p o₂, (w.settle s o').session p = some o₂ → o₂.Ok 0 := by
    intro p o₂ ho₂
    by_cases hps : p = s
    · subst hps
      rw [← Option.some.inj (hself.symm.trans ho₂)]
      exact h.release
    · exact (hold p hps o₂ ho₂).1
  have hnull : (w.settle s o').session nullptr = none := by
    obtain he | ⟨-, he⟩ := settle_ne w o' (Ne.symm (hw.ne_null ho)) <;> rw [he]
    · exact hw.null
    · unfold Server.delivered
      rw [hw.null]
      simp
  unfold Server.settle at hreg hobj hnull hself ⊢
  by_cases hc : o'.useCount = 1 ∧ o'.connectionId ≠ []
  · rw [if_pos hc] at hreg hobj hnull ⊢
    refine ⟨fun id p hl => ?_, fun p o₂ hp => hreg p o₂ (hmem hp).2, hnull, rfl, hw.iterating,
      hobj, hw.views⟩
    have he := (erased_ok hw.entries (.inl hw.running) ho o'.release).delivered
      ⟨notice o'.connectionId, some w.history.length⟩ (w.leave s o').members
    rw [← hid] at he
    obtain ⟨o₂, ho₂, hd, hu, hown, hid₂⟩ := he id p hl
    refine ⟨o₂, ho₂, hd, hu, .inl (hown.resolve_right fun hr => ?_), hid₂⟩
    have hp : p ∈ (w.leave s o').members := mem_members.mpr ⟨id, hl⟩
    exact (hmem hp).1 (Option.some.inj hr).symm
  · rw [if_neg hc] at hreg hobj hnull hself ⊢
    refine ⟨fun id p hl => ?_, hreg, hnull, hw.running, hw.iterating, hobj, hw.views⟩
    obtain ⟨o₁, ho₁, hd, hu, hown, hid₁⟩ := hw.entries id p hl
    by_cases hp : p = s
    · subst hp
      have he : o = o₁ := Option.some.inj (ho.symm.trans ho₁)
      -- A member has an id, so this was not its last owner.
      have hid' := ((hw.objects p o ho).joined
        (hw.registered p o (mem_members.mpr ⟨id, hl⟩) ho)).1
      have hu1 : o'.useCount ≠ 1 := fun hu1 => hc ⟨hu1, hid ▸ hid'⟩
      have hcount := h.counted
      have hops : 0 < o'.release.ops.length := by
        show 0 < o'.ops.length
        omega
      have hlive := (hobj p _ hself).alive
      have hpos : 0 < o'.release.useCount := by
        show 0 < o'.useCount - 1
        omega
      exact ⟨_, hself, hlive.mpr hpos, hpos, .inl (List.ne_nil_of_length_pos hops),
        hid.trans (he ▸ hid₁)⟩
    · exact ⟨o₁, (Function.update_of_ne hp ..).trans ho₁, hd, hu, hown, hid₁⟩

/-- A new or a changed object that no entry points to. -/
theorem Inv.put (hw : w.Inv) (hs : s ≠ nullptr) (hn : s ∉ w.members) (h : o'.Ok 0) :
    (w.put s o').Inv := by
  have hat : ∀ p ≠ s, (w.put s o').session p = w.session p :=
    fun p hp => Function.update_of_ne hp ..
  have hself : (w.put s o').session s = some o' := by simp [Server.put]
  refine ⟨fun id p hl => ?_, fun p o hp ho => ?_, ?_, hw.running, hw.iterating, fun p o ho => ?_,
    hw.views⟩
  · have hp : p ≠ s := by
      rintro rfl
      exact hn (mem_members.mpr ⟨id, hl⟩)
    obtain ⟨o, ho, hrest⟩ := hw.entries id p hl
    exact ⟨o, (hat p hp).trans ho, hrest⟩
  · have hps : p ≠ s := by
      rintro rfl
      exact hn hp
    exact hw.registered p o hp ((hat p hps).symm.trans ho)
  · exact (hat nullptr (Ne.symm hs)).trans hw.null
  · by_cases hp : p = s
    · subst hp
      rw [hself] at ho
      cases ho
      exact h
    · exact hw.objects p o ((hat p hp).symm.trans ho)

/-- The handshake of the session at `s` has succeeded. -/
theorem Inv.accepted (hw : w.Inv) (ho : w.session s = some o) (hm : .accept ∈ o.ops) (env : Env)
    (time : Nat) : (w.effect env (.accept s none time)).Inv := by
  rw [effect, object_eq ho]
  have hj := ((hw.objects s o ho).accepting hm).1
  have hok := (hw.objects s o ho).accepted hm (generateRandomString_ne_nil env time)
    w.history.length
  have hput := hw.put (hw.ne_null ho) (fun hs => hw.registered s o hs ho hj) hok
  have hself :=
    put_self w s (o.accepted (generateRandomString env 16 time) w.history.length).release
  -- The entries are those before, but for the new one.
  have hat : ∀ id p, (w.sessions.insert (generateRandomString env 16 time) s).lookup id = some p →
      (id = generateRandomString env 16 time ∧ p = s) ∨ w.sessions.lookup id = some p := by
    intro id p hl
    by_cases hne : id = generateRandomString env 16 time
    · rw [hne, AList.lookup_insert] at hl
      exact .inl ⟨hne, (Option.some.inj hl).symm⟩
    · rw [AList.lookup_insert_ne hne] at hl
      exact .inr hl
  refine ⟨fun id p hl => ?_, fun p o₁ hp ho₁ => ?_, hput.null, hw.running, hw.iterating,
    hput.objects, hw.views⟩
  · rcases hat id p hl with ⟨rfl, rfl⟩ | hl
    · obtain ⟨hd, hu⟩ := hok.alive_of_mem (List.mem_cons_self : Op.read ∈ _)
      exact ⟨_, hself, hd, hu, .inl (List.cons_ne_nil _ _), push_connectionId _⟩
    · exact hput.entries id p hl
  · obtain ⟨id, hl⟩ := mem_members.mp hp
    rcases hat id p hl with ⟨-, rfl⟩ | hl
    · rw [← Option.some.inj (hself.symm.trans ho₁)]
      exact fun h => absurd ((push_joined _).symm.trans h) (by simp)
    · exact hput.registered p o₁ (mem_members.mpr ⟨id, hl⟩) ho₁

/-- A read of the session at `s` has succeeded. -/
theorem Inv.read (hw : w.Inv) (ho : w.session s = some o) (hm : .read ∈ o.ops) (env : Env)
    (text : Bool) (bytes : Bytes) : (w.effect env (.read s none text bytes)).Inv := by
  have hok := hw.objects s o ho
  have hj : o.joined ≠ none := hok.joined_of_mem hm (.inl rfl)
  obtain ⟨hrec, hr⟩ := hok.received hm text bytes
  let w₁ : Server := (w.enter s (o.received text bytes)).relay bytes
  -- The object when `broadcast` has returned.
  have hy : (w₁.object s).Ok 1 ∧ .read ∉ (w₁.object s).ops ∧ (w₁.object s).joined = o.joined ∧
      (w₁.object s).connectionId = o.connectionId := by
    have hu : 0 < (o.received text bytes).useCount := by
      have := hrec.counted
      omega
    rw [(relay_object w s (o.received text bytes) bytes).2]
    split
    · exact ⟨hrec.push hj hu _, fun h => hr (read_mem_push h), push_joined _, push_connectionId _⟩
    · exact ⟨hrec, hr, rfl, rfl⟩
  obtain ⟨hyok, hyr, hyj, hyid⟩ := hy
  have hX := hyok.rearm hyr (hyj ▸ hj)
  have heff : w.effect env (.read s none text bytes) =
      { w₁.put s (w₁.object s).rearm.release with running := none } := by
    rw [effect, object_eq ho]; rfl
  rw [heff]
  have hself := put_self w₁ s (w₁.object s).rearm.release
  have hat : ∀ p ≠ s, (w₁.put s (w₁.object s).rearm.release).session p =
      Server.delivered ⟨bytes, some w.history.length⟩ w.members w.session p := by
    intro p hp
    exact (Function.update_of_ne hp ..).trans (delivered_ne _ _ _ _ hp)
  have hview := hw.entries.delivered ⟨bytes, some w.history.length⟩ w.members
  refine ⟨fun id p hl => ?_, fun p o₁ hp ho₁ => ?_, ?_, rfl, hw.iterating, fun p o₁ ho₁ => ?_,
    hw.views⟩
  · by_cases hps : p = s
    · subst hps
      obtain ⟨hd, hu⟩ := hX.alive_of_mem (List.mem_cons_self : Op.read ∈ _)
      obtain ⟨o₂, ho₂, -, -, -, hid⟩ := hw.entries id p hl
      have he : o = o₂ := Option.some.inj (ho.symm.trans ho₂)
      exact ⟨_, hself, hd, hu, .inl (List.cons_ne_nil _ _), hyid.trans (he ▸ hid)⟩
    · obtain ⟨o₂, ho₂, hd, hu, hown, hid⟩ := hview id p hl
      exact ⟨o₂, (hat p hps).trans ho₂, hd, hu, .inl (hown.resolve_right fun h =>
        absurd (hw.running.symm.trans h) (by simp)), hid⟩
  · by_cases hps : p = s
    · subst hps
      rw [← Option.some.inj (hself.symm.trans ho₁)]
      exact hyj ▸ hj
    · obtain ⟨-, o₂, ho₂, hj₂⟩ := hw.delivered (fun _ h => h) ((hat p hps).symm.trans ho₁)
      rw [hj₂]
      exact hw.registered p o₂ hp ho₂
  · refine (hat nullptr (Ne.symm (hw.ne_null ho))).trans ?_
    unfold Server.delivered
    rw [hw.null]
    simp
  · by_cases hps : p = s
    · subst hps
      rw [← Option.some.inj (hself.symm.trans ho₁)]
      exact hX
    · exact (hw.delivered (fun _ h => h) ((hat p hps).symm.trans ho₁)).1

/-- Every event keeps the invariant. -/
theorem Inv.effect (hw : w.Inv) {e : Event} (he : w.enabled e = true) (env : Env) :
    (w.effect env e).Inv := by
  have hquiet {op : Op} (hop : e.op? = some op) (hq : e.quiet = true)
      (heff : w.effect env e = w.settle e.session ((w.object e.session).handled e)) :
      (w.effect env e).Inv := by
    obtain ⟨o, ho, hm⟩ := exists_of_enabled he hop
    have hk := handled_kept o e
    rw [heff, object_eq ho]
    exact hw.settle ho ((hw.objects _ o ho).handled hop hm hq) hk.connectionId hk.joined
  cases e with
  | upgrade s req now =>
    have hs : s ≠ nullptr ∧ w.session s = none := by simpa [enabled] using he
    refine hw.put hs.1 (fun hm => ?_) (Ok.opened env req now)
    obtain ⟨o, ho, -⟩ := hw.member hm
    rw [hs.2] at ho
    cases ho
  | accept s ec time =>
    cases ec with
    | none =>
      obtain ⟨o, ho, hm⟩ : ∃ o, w.session s = some o ∧ _ := exists_of_enabled he rfl
      exact hw.accepted ho hm env time
    | some ec => exact hquiet rfl rfl rfl
  | read s ec text bytes =>
    cases ec with
    | none =>
      obtain ⟨o, ho, hm⟩ : ∃ o, w.session s = some o ∧ _ := exists_of_enabled he rfl
      exact hw.read ho hm env text bytes
    | some ec => exact hquiet rfl rfl rfl
  | write s frame ec => exact hquiet rfl rfl rfl
  | close s ec => exact hquiet rfl rfl rfl
  | write401 s res ec => exact hquiet rfl rfl rfl

/-! ## Runs -/

theorem Inv.nil : (server env).init.Inv where
  entries := fun _ _ hl => by cases hl
  registered := fun _ _ _ ho => by cases ho
  null := rfl
  running := rfl
  iterating := rfl
  objects := fun _ _ ho => by cases ho
  views := by simp [server]

theorem Inv.append_views (hw : w.Inv) {views : List View} (hv : ∀ v ∈ views, v.Ok) :
    Inv { w with views := w.views ++ views } :=
  ⟨hw.entries, hw.registered, hw.null, hw.running, hw.iterating, hw.objects, fun v hm =>
    (List.mem_append.mp hm).elim (hw.views v) (hv v)⟩

/-- **A step of the server** is the effect of an enabled event, but for the ghost record of the
lookups. -/
theorem next_cases (hw : w.Inv) {e : Event} {w' : Server} (hn : (server env).next w e = some w') :
    w.enabled e = true ∧ ∃ views, w' = { w.effect env e with views := w.views ++ views } := by
  simp only [server] at hn
  split at hn
  · obtain ⟨views, hs, -⟩ := step_eq env hw ‹_›
    rw [hs] at hn
    exact ⟨‹_›, views, (Option.some.inj hn).symm⟩
  · cases hn

/-- Every enabled event is a step. -/
theorem next_of_enabled (env : Env) (hw : w.Inv) {e : Event} (he : w.enabled e = true) :
    ∃ views, (server env).next w e = some { w.effect env e with views := w.views ++ views } := by
  obtain ⟨views, hs, -⟩ := step_eq env hw he
  refine ⟨views, ?_⟩
  simp only [server]
  rw [if_pos he, hs]; rfl

/-- **An upgrade** starts `async_accept`, or the 401 path, as the verifier says of the token. -/
theorem upgrade_ops (env : Env) (hw : w.Inv) {req : Request} {now : Nat}
    (hs : w.enabled (.upgrade s req now) = true) :
    ∃ w' o, (server env).next w (.upgrade s req now) = some w' ∧ w'.session s = some o ∧
      o.ops = match env.verify (extractToken req.target) now with
        | .ok () => [.accept]
        | .error what => [.write401 (WebsocketSession.response401 req what), .close] := by
  obtain ⟨views, hn⟩ := next_of_enabled env hw hs
  refine ⟨_, _, hn, put_self w s _, ?_⟩
  show (WebsocketSession.opened env req now).ops = _
  rw [WebsocketSession.opened]
  cases env.verify (extractToken req.target) now <;> rfl

theorem effect_views (env : Env) (w : Server) (e : Event) : (w.effect env e).views = w.views := by
  have hs (s : Ptr) (o : WebsocketSession) : (w.settle s o).views = w.views := by
    unfold Server.settle; split <;> rfl
  cases e with
  | upgrade s req now => rfl
  | accept s ec time => cases ec <;> first | rfl | exact hs _ _
  | read s ec text bytes => cases ec <;> first | rfl | exact hs _ _
  | write s frame ec => exact hs _ _
  | close s ec => exact hs _ _
  | write401 s res ec => exact hs _ _

theorem inv_step (hw : w.Inv) {e : Event} {w' : Server} (hn : (server env).next w e = some w') :
    w'.Inv := by
  simp only [server] at hn
  split at hn
  · obtain ⟨views, hs, hv⟩ := step_eq env hw ‹_›
    rw [hs] at hn
    rw [← Option.some.inj hn, ← effect_views env w e]
    exact (hw.effect ‹_› env).append_views hv
  · cases hn

theorem reach_inv (h : (server env).Reach w) : w.Inv :=
  Sys.Inductive.reach ⟨Inv.nil, fun _ _ _ hw hn => inv_step hw hn⟩ h

/-! ## The end of a session -/

/-- An event touches another session only by sending it a message through the registry. -/
theorem Inv.effect_ne (hw : w.Inv) (env : Env) {e : Event} (he : w.enabled e = true)
    (hp : p ≠ e.session) : (w.effect env e).session p = w.session p ∨
      ∃ ss, p ∈ w.members ∧ (w.effect env e).session p = (w.session p).map (·.push ss) := by
  have hquiet {op : Op} (hop : e.op? = some op)
      (heff : w.effect env e = w.settle e.session ((w.object e.session).handled e)) :
      (w.effect env e).session p = w.session p ∨
        ∃ ss, p ∈ w.members ∧ (w.effect env e).session p = (w.session p).map (·.push ss) := by
    obtain ⟨o, ho, -⟩ := exists_of_enabled he hop
    rw [heff, object_eq ho]
    obtain h | ⟨-, h⟩ := settle_ne w (o.handled e) hp
    · exact .inl h
    · rw [h]
      unfold Server.delivered
      split
      · exact .inr ⟨_, (hw.leave_members ho (handled_kept o e).connectionId ‹_›).2, rfl⟩
      · exact .inl rfl
  cases e with
  | upgrade s req now => exact .inl (Function.update_of_ne hp ..)
  | accept s ec time =>
    cases ec with
    | none => exact .inl (Function.update_of_ne hp ..)
    | some ec => exact hquiet rfl rfl
  | read s ec text bytes =>
    cases ec with
    | none =>
      have h : (w.effect env (.read s none text bytes)).session p =
          Server.delivered ⟨bytes, some w.history.length⟩ w.members w.session p :=
        (Function.update_of_ne hp ..).trans (delivered_ne _ _ _ _ hp)
      rw [h]
      unfold Server.delivered
      split
      · exact .inr ⟨_, ‹_›, rfl⟩
      · exact .inl rfl
    | some ec => exact hquiet rfl rfl
  | write s frame ec => exact hquiet rfl rfl
  | close s ec => exact hquiet rfl rfl
  | write401 s res ec => exact hquiet rfl rfl

/-- Between two handlers, a session is destroyed if and only if nothing is outstanding. -/
theorem Inv.destroyed_iff (hw : w.Inv) (ho : w.session s = some o) :
    o.destroyed = true ↔ o.ops = [] := by
  have h := hw.objects s o ho
  have ha := not_congr h.alive
  rw [Bool.not_eq_false, h.counted, Nat.add_zero, List.length_pos_iff, not_not] at ha
  exact ha

/-- A session is destroyed by the handler of its last operation. -/
theorem Inv.last_release (hw : w.Inv) {e : Event} (he : w.enabled e = true)
    (ho : w.session s = some o) (ho' : (w.effect env e).session s = some o')
    (hd : o.destroyed = false) (hd' : o'.destroyed = true) :
    s = e.session ∧ ∃ op, e.op? = some op ∧ o.ops = [op] := by
  by_cases hs : s = e.session
  · refine ⟨hs, ?_⟩
    subst hs
    have hops := ((hw.effect he env).destroyed_iff ho').mp hd'
    have hquiet {op : Op} (hop : e.op? = some op) (hq : e.quiet = true)
        (heff : w.effect env e = w.settle e.session ((w.object e.session).handled e)) :
        ∃ op, e.op? = some op ∧ o.ops = [op] := by
      obtain ⟨o₁, ho₁, hm⟩ := exists_of_enabled he hop
      obtain rfl : o = o₁ := Option.some.inj (ho.symm.trans ho₁)
      refine ⟨op, hop, ?_⟩
      rw [heff, object_eq ho, hw.settle_self ho (handled_kept o e).connectionId] at ho'
      cases ho'
      have hlen := List.length_erase_add_one hm
      obtain h | ⟨f, h⟩ := handled_ops o hq hop
      · have hnil : o.ops.erase op = [] := h.symm.trans hops
        rw [hnil] at hlen
        obtain ⟨a, ha⟩ := List.length_eq_one_iff.mp hlen.symm
        rw [ha, List.mem_singleton] at hm
        rw [ha, hm]
      · exact absurd (h.symm.trans hops) (List.cons_ne_nil _ _)
    -- The other handlers start an operation.
    have hstart {x : WebsocketSession} (hx : (w.effect env e).session e.session = some x)
        (hne : x.ops ≠ []) : ∃ op, e.op? = some op ∧ o.ops = [op] :=
      absurd (Option.some.inj (hx.symm.trans ho') ▸ hops) hne
    cases e with
    | upgrade s req now =>
      have hs : s ≠ nullptr ∧ w.session s = none := by simpa [enabled] using he
      exact absurd (hs.2.symm.trans ho) (by simp)
    | accept s ec time =>
      cases ec with
      | none => exact hstart (put_self ..) (List.cons_ne_nil _ _)
      | some ec => exact hquiet rfl rfl rfl
    | read s ec text bytes =>
      cases ec with
      | none => exact hstart (put_self ..) (List.cons_ne_nil _ _)
      | some ec => exact hquiet rfl rfl rfl
    | write s frame ec => exact hquiet rfl rfl rfl
    | close s ec => exact hquiet rfl rfl rfl
    | write401 s res ec => exact hquiet rfl rfl rfl
  · obtain h | ⟨ss, -, h⟩ := hw.effect_ne env he hs <;> rw [h, ho] at ho'
    · cases ho'
      exact absurd (hd.symm.trans hd') (by simp)
    · cases ho'
      rw [push_destroyed] at hd'
      exact absurd (hd.symm.trans hd') (by simp)

end Server

open Server in
/-- **No dangling session pointer.** In every reachable state, and at every moment of the run that
`send` or `broadcast` looked up the registry, each entry points to a live session that a handler
owns and that has the entry's id. No handler faults: each pointer that is followed is live, each
`shared_from_this` finds an owner, and the registry is not modified while `broadcast` iterates. A
session is destroyed exactly when none of its operations is outstanding, by the handler of the
last one. -/
theorem registrySafe {env : Env} {w : Server} (hw : (server env).Reach w) :
    w.view.Ok ∧ (∀ v ∈ w.views, v.Ok) ∧
    (∀ e, w.enabled e = true → ∃ w', w.step env e = .ok w' ∧
      ∀ s o o', w.session s = some o → w'.session s = some o' → o.destroyed = false →
        o'.destroyed = true → s = e.session ∧ ∃ op, e.op? = some op ∧ o.ops = [op]) ∧
    ∀ s o, w.session s = some o → (o.destroyed = true ↔ o.ops = []) := by
  have h := reach_inv hw
  refine ⟨h.entries, h.views, fun e he => ?_, fun s o ho => h.destroyed_iff ho⟩
  obtain ⟨views, hs, -⟩ := step_eq env h he
  exact ⟨_, hs, fun s o o' ho ho' hd hd' => h.last_release he ho ho' hd hd'⟩

/-- The draw with the value `n`. -/
def draw (n : Nat) : Fin 62 := Fin.ofNat 62 n

/-- The server with a verifier that accepts every token, and a constant generator. -/
def plainEnv : Env := ⟨fun _ _ => .ok (), fun _ _ => draw 0⟩

/-- A generator whose draws are the seed. -/
def secondsEnv : Env := ⟨fun _ _ => .ok (), fun seed _ => draw seed⟩

/-- The second of two sessions takes the id of the first; then the first one's read fails. -/
def collision : List Server.Event :=
  [.upgrade 1 {} 0, .accept 1 none 0, .upgrade 2 {} 0, .accept 2 none 0,
    .read 1 (some ⟨.closed, []⟩) true []]

theorem registrySafe_collision : ∃ w, (server plainEnv).Runs collision w ∧
    w.sessions.lookup (generateRandomString plainEnv 16 0) = some 2 ∧ w.view.Ok := by
  have hr : (server plainEnv).Runs collision _ := rfl
  exact ⟨_, hr, by decide, (registrySafe hr.reach).1⟩

end ChatServer
