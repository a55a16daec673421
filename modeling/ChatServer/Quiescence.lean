import ChatServer.Delivery
import Mathlib.Algebra.Order.BigOperators.Group.Finset

/-!
# The server does nothing by itself

Every handler runs because an operation has completed, and most of them start less than has
completed. The exceptions are a new session, a handshake and a message: these put operations and
messages to the sessions. The notice of a session that is destroyed goes to all others, which its
own end pays for.

* `credit`: what a session may still cost. `potential`: the sum over the sessions.
* `spends`: each event spends one of the potential and of what it pays; so a run is no longer than
  its sessions, handshakes and messages allow (`workBound`).
* `shutdown`: without those three the server comes to rest, and then nothing of it is left.
* `eventualDelivery`: if writes succeed, then whoever is in the registry has been written it all.
-/

namespace ChatServer

open Lib

namespace Server

open WebsocketSession

variable {env : Env} {w w' : Server} {s p : Ptr} {o : WebsocketSession} {e : Event}
  {es : List Event} {P : Finset Ptr}

/-! ## Which events pay -/

/-- The session that the event opens. -/
def Event.opened? : Event → Option Ptr
  | .upgrade s _ _ => some s
  | _ => none

/-- A handshake succeeds. -/
def Event.joins : Event → Bool
  | .accept _ none _ => true
  | _ => false

/-- A message is read. -/
def Event.says : Event → Bool
  | .read _ none _ _ => true
  | _ => false

/-- What an event pays when there are `n` sessions. -/
def pay (n : Nat) (e : Event) : Nat :=
  (if e.opened?.isSome then 2 * n + 3 else 0) + (if e.joins then 3 else 0) +
    if e.says then 2 * n + 1 else 0

/-- The longest that a run with so many sessions, handshakes and messages may be. -/
def allowance (es : List Event) : Nat :=
  let n := es.countP (·.opened?.isSome)
  n * (2 * n + 3) + es.countP Event.joins * 3 + es.countP Event.says * (2 * n + 1)

theorem opened?_quiet (hq : e.quiet = true) : e.opened? = none := by
  cases e with
  | upgrade s req now => cases hq
  | _ => rfl

theorem pay_quiet (hq : e.quiet = true) (n : Nat) : pay n e = 0 := by
  cases e with
  | upgrade s req now => cases hq
  | accept s ec time => cases ec <;> [cases hq; rfl]
  | read s ec text bytes => cases ec <;> [cases hq; rfl]
  | _ => rfl

theorem sum_pay (n : Nat) (es : List Event) : (es.map (pay n)).sum =
    es.countP (·.opened?.isSome) * (2 * n + 3) + es.countP Event.joins * 3 +
      es.countP Event.says * (2 * n + 1) := by
  have hmul (a k : Nat) (c : Bool) :
      (a + if c = true then 1 else 0) * k = a * k + if c = true then k else 0 := by
    cases c with
    | false => rfl
    | true => exact Nat.succ_mul a k
  induction es with
  | nil => simp only [List.map_nil, List.sum_nil, List.countP_nil, Nat.zero_mul, Nat.add_zero]
  | cons e es ih =>
    rw [List.map_cons, List.sum_cons, ih, pay, List.countP_cons, List.countP_cons,
      List.countP_cons, hmul, hmul, hmul]
    omega

/-! ## The potential -/

/-- What a session may still cost among `n` sessions: its operations and its queue, and at its end
two for each session that its notice is sent to. -/
def credit (n : Nat) (o : WebsocketSession) : Nat :=
  if o.destroyed then 0 else o.ops.length + o.queue.length + 2 * n

/-- The credit of the session at `p`. -/
def creditAt (n : Nat) (w : Server) (p : Ptr) : Nat := (w.session p).elim 0 (credit n)

/-- The credit of all sessions, which are in `P`. -/
def potential (P : Finset Ptr) (w : Server) : Nat := ∑ p ∈ P, creditAt P.card w p

theorem creditAt_eq (ho : w.session s = some o) (n : Nat) : creditAt n w s = credit n o := by
  unfold creditAt; rw [ho]; rfl

theorem credit_alive (hd : o.destroyed = false) (n : Nat) :
    credit n o = o.ops.length + o.queue.length + 2 * n := by
  unfold credit; simp [hd]

theorem length_push_ops (o : WebsocketSession) (ss : SharedString) :
    (o.push ss).ops.length ≤ o.ops.length + 1 := by
  rcases push_ops o ss with h | ⟨f, h⟩ <;> simp [h]

/-- A message costs two: to write it, and maybe to start that. -/
theorem credit_push (n : Nat) (o : WebsocketSession) (ss : SharedString) :
    credit n (o.push ss) ≤ credit n o + 2 := by
  have hops := length_push_ops o ss
  unfold credit
  rw [push_destroyed, push_queue, List.length_append, List.length_singleton]
  split <;> omega

/-- The potential if the others' credit grows by at most `k`. -/
theorem potential_le (w w' : Server) (hs : s ∈ P) (k : Nat)
    (h : ∀ p, p ≠ s → creditAt P.card w' p ≤ creditAt P.card w p + k) :
    potential P w' + creditAt P.card w s + k ≤
      potential P w + creditAt P.card w' s + k * P.card := by
  have hsum : ∑ p ∈ P.erase s, creditAt P.card w' p ≤
      ∑ p ∈ P.erase s, creditAt P.card w p + (P.card - 1) * k := by
    refine (Finset.sum_le_sum fun p hp => h p (Finset.ne_of_mem_erase hp)).trans ?_
    rw [Finset.sum_add_distrib, Finset.sum_const_nat fun _ _ => rfl, Finset.card_erase_of_mem hs]
  have hcard : 0 < P.card := Finset.card_pos.mpr ⟨s, hs⟩
  have hk : (P.card - 1) * k + k = k * P.card := by
    rw [← Nat.succ_mul, Nat.succ_eq_add_one, Nat.sub_add_cancel hcard, Nat.mul_comm]
  unfold potential
  rw [← Finset.add_sum_erase P _ hs, ← Finset.add_sum_erase P (creditAt P.card w) hs]
  omega

/-- An event gives another session at most one message. -/
theorem Inv.creditAt_ne (hw : w.Inv) (env : Env) (he : w.enabled e = true) (hp : p ≠ e.session)
    (n : Nat) : creditAt n (w.effect env e) p ≤ creditAt n w p + 2 := by
  unfold creditAt
  obtain h | ⟨ss, -, h⟩ := hw.effect_ne env he hp <;> rw [h]
  · exact Nat.le_add_right _ _
  · cases w.session p with
    | none => exact Nat.zero_le _
    | some o => exact credit_push n o ss

theorem creditAt_put (w : Server) (o : WebsocketSession) (hp : p ≠ s) (n : Nat) :
    creditAt n (w.put s o) p = creditAt n w p :=
  congrArg (fun x : Option WebsocketSession => x.elim 0 (credit n)) (Function.update_of_ne hp ..)

theorem creditAt_put_self (w : Server) (s : Ptr) (o : WebsocketSession) (n : Nat) :
    creditAt n (w.put s o) s = credit n o := creditAt_eq (put_self w s o) n

/-! ## What each event spends -/

/-- A quiet handler leaves less than it found. -/
theorem handled_less (hok : o.Ok 0) {op : Op} (hm : op ∈ o.ops) (hop : e.op? = some op)
    (hq : e.quiet = true) :
    (o.handled e).ops.length + (o.handled e).queue.length + 1 ≤ o.ops.length + o.queue.length := by
  have hlen := List.length_erase_add_one hm
  have hfinished (hops : (o.handled e).ops = o.ops.erase op)
      (hqueue : (o.handled e).queue = o.queue) :
      (o.handled e).ops.length + (o.handled e).queue.length + 1 ≤
        o.ops.length + o.queue.length := by
    rw [hops, hqueue]
    omega
  cases e with
  | upgrade s req now => cases hop
  | accept s ec time => cases ec <;> cases hq; cases hop; exact hfinished rfl rfl
  | read s ec text bytes => cases ec <;> cases hq; cases hop; exact hfinished rfl rfl
  | write s frame ec =>
    cases hop
    cases ec with
    | some ec => exact hfinished rfl rfl
    | none =>
      -- The message that was written leaves the queue, and the next write may start.
      obtain ⟨-, -, rest, hrest⟩ := hok.pump.front (mem_writes.mpr hm)
      have hqueue : (o.finish (.write frame)).pop.queue = o.queue.tail := pop_queue
      have hops : (o.finish (.write frame)).pop.ops.length ≤
          (o.ops.erase (.write frame)).length + 1 := by
        rcases pop_ops (o.finish (.write frame)) with h | ⟨f, h⟩ <;> rw [h]
        · exact Nat.le_succ _
        · exact Nat.le_refl _
      show (o.finish (.write frame)).pop.ops.length +
        (o.finish (.write frame)).pop.queue.length + 1 ≤ _
      rw [hqueue, hrest, List.tail_cons, List.length_cons]
      omega
  | close s ec => cases hop; cases ec <;> exact hfinished rfl rfl
  | write401 s res ec => cases hop; cases ec <;> exact hfinished rfl rfl

/-- The effect of a quiet event. -/
theorem effect_quiet (env : Env) (w : Server) (hq : e.quiet = true) :
    w.effect env e = w.settle e.session ((w.object e.session).handled e) := by
  cases e with
  | upgrade s req now => cases hq
  | accept s ec time => cases ec <;> [cases hq; rfl]
  | read s ec text bytes => cases ec <;> [cases hq; rfl]
  | _ => rfl

theorem exists_op (hq : e.quiet = true) : ∃ op, e.op? = some op := by
  cases e with
  | upgrade s req now => cases hq
  | _ => exact ⟨_, rfl⟩

/-- A quiet event spends one: of the credit of its session, or of what its end sets free. -/
theorem Inv.spends_quiet (hw : w.Inv) (env : Env) (he : w.enabled e = true) (hq : e.quiet = true)
    (hs : e.session ∈ P) : potential P (w.effect env e) + 1 ≤ potential P w := by
  obtain ⟨op, hop⟩ := exists_op hq
  obtain ⟨o, ho, hm⟩ := exists_of_enabled he hop
  have hok := hw.objects _ o ho
  have hless := handled_less hok hm hop hq
  have hk := handled_kept o e
  have hself := hw.settle_self ho hk.connectionId
  have hcredit := creditAt_eq ho P.card
  rw [credit_alive (hok.alive_of_mem hm).1] at hcredit
  have heff : w.effect env e = w.settle e.session (o.handled e) := by
    rw [effect_quiet env w hq, object_eq ho]
  by_cases hu : (o.handled e).useCount = 1
  · -- The session is destroyed. Its notice costs each of the others two.
    have hzero : creditAt P.card (w.effect env e) e.session = 0 := by
      rw [heff, creditAt_eq hself]
      simp [credit, WebsocketSession.release, hu]
    have hle := potential_le w (w.effect env _) hs 2 fun p hp => hw.creditAt_ne env he hp P.card
    omega
  · have hput : w.effect env e = w.put e.session (o.handled e).release := by
      rw [heff, Server.settle, if_neg fun h => hu h.1]
    have hle := potential_le w (w.put e.session (o.handled e).release) hs 0 fun p hp =>
      (creditAt_put w _ hp P.card).le
    rw [creditAt_put_self, credit_alive (beq_eq_false_iff_ne.mpr hu)] at hle
    rw [hput]
    have hops : (o.handled e).release.ops.length + (o.handled e).release.queue.length + 1 ≤
        o.ops.length + o.queue.length := hless
    omega

/-- What `run` starts. -/
theorem credit_opened (env : Env) (req : Request) (now n : Nat) :
    credit n (opened env req now).release ≤ 2 * n + 2 := by
  have hok := Ok.opened env req now
  have h : (opened env req now).release.ops.length ≤ 2 ∧
      (opened env req now).release.queue = [] := by
    unfold opened
    split <;> exact ⟨by simp [WebsocketSession.release], rfl⟩
  unfold credit
  split
  · omega
  · rw [h.2, List.length_nil]
    omega

/-- A handshake that succeeds starts the first read, and the greeting is queued and written. -/
theorem credit_accepted (ho : .accept ∈ o.ops) (hok : o.Ok 0) (id : Bytes) (k n : Nat) :
    credit n (o.accepted id k).release ≤ credit n o + 2 := by
  obtain ⟨-, hops, -, -, hq⟩ := hok.accepting ho
  have hfin : (o.finish .accept).ops = [] := by
    show o.ops.erase .accept = []
    rw [hops]; rfl
  let x : WebsocketSession := { o.finish .accept with connectionId := id, joined := some k }
  have hxops : (x.push ⟨greeting id, none⟩).ops.length ≤ 1 := by
    have h := length_push_ops x ⟨greeting id, none⟩
    rwa [show x.ops = [] from hfin] at h
  have hxq : (x.push ⟨greeting id, none⟩).queue = [⟨greeting id, none⟩] := by
    rw [push_queue]
    show o.queue ++ _ = _
    rw [hq]; rfl
  rw [credit_alive (hok.alive_of_mem ho).1, hops, hq]
  have hle : credit n (o.accepted id k).release ≤
      (x.push ⟨greeting id, none⟩).ops.length + 1 + (x.push ⟨greeting id, none⟩).queue.length +
        2 * n := by
    unfold credit
    split
    · exact Nat.zero_le _
    · exact Nat.le_refl _
  rw [hxq] at hle
  simp only [List.length_cons, List.length_nil] at hle ⊢
  omega

/-- A message that is read comes back to its session, if that is registered, and its next read is
started. -/
theorem credit_read (hw : w.Inv) (ho : w.session s = some o) (hm : .read ∈ o.ops) (text : Bool)
    (bytes : Bytes) (n : Nat) :
    credit n (((w.enter s (o.received text bytes)).relay bytes).object s).rearm.release ≤
      credit n o + 2 := by
  have hlen : (o.received text bytes).ops.length + 1 = o.ops.length :=
    List.length_erase_add_one hm
  have hrearm (y : WebsocketSession) :
      credit n y.rearm.release ≤ y.ops.length + 1 + y.queue.length + 2 * n := by
    unfold credit
    split
    · exact Nat.zero_le _
    · exact Nat.le_refl _
  rw [credit_alive ((hw.objects s o ho).alive_of_mem hm).1,
    (relay_object w s (o.received text bytes) bytes).2]
  split
  · refine (hrearm _).trans ?_
    have hops := length_push_ops (o.received text bytes) ⟨bytes, some w.history.length⟩
    rw [push_queue, List.length_append, List.length_singleton]
    show _ + (o.queue.length + 1) + _ ≤ _
    omega
  · refine (hrearm _).trans ?_
    show _ + o.queue.length + _ ≤ _
    omega

/-- **What an event spends.** -/
theorem Inv.spends (hw : w.Inv) (env : Env) (he : w.enabled e = true) (hs : e.session ∈ P) :
    potential P (w.effect env e) + 1 ≤ potential P w + pay P.card e := by
  have hcard : 0 < P.card := Finset.card_pos.mpr ⟨_, hs⟩
  have hput (o' : WebsocketSession) (heff : w.effect env e = w.put e.session o' ∨
      ∃ sessions, w.effect env e = { w.put e.session o' with sessions }) :
      potential P (w.effect env e) + creditAt P.card w e.session ≤
        potential P w + credit P.card o' := by
    have hle := potential_le w (w.put e.session o') hs 0 fun p hp =>
      (creditAt_put w o' hp P.card).le
    rw [creditAt_put_self] at hle
    have heq : potential P (w.effect env e) = potential P (w.put e.session o') := by
      rcases heff with heff | ⟨sessions, heff⟩
      · rw [heff]
      · rw [heff]; rfl
    omega
  cases hq : e.quiet with
  | true =>
    rw [pay_quiet hq]
    exact hw.spends_quiet env he hq hs
  | false =>
    cases e with
    | upgrade s req now =>
      have hle := hput (opened env req now).release (.inl rfl)
      have hopened := credit_opened env req now P.card
      simp only [pay, Event.opened?, Event.joins, Event.says, Option.isSome_some]
      simp only [↓reduceIte, Bool.false_eq_true]
      omega
    | accept s ec time =>
      cases ec with
      | some ec => cases hq
      | none =>
        obtain ⟨o, ho, hm⟩ : ∃ o, w.session s = some o ∧ _ := exists_of_enabled he rfl
        have hle := hput (o.accepted (generateRandomString env 16 time)
          w.history.length).release (.inr ⟨_, by rw [Server.effect, object_eq ho]; rfl⟩)
        have haccepted := credit_accepted hm (hw.objects s o ho)
          (generateRandomString env 16 time) w.history.length P.card
        have hself := creditAt_eq ho P.card
        simp only [pay, Event.opened?, Event.joins, Event.says, Option.isSome_none]
        simp only [↓reduceIte, Bool.false_eq_true]
        change _ + creditAt P.card w s ≤ _ at hle
        omega
    | read s ec text bytes =>
      cases ec with
      | some ec => cases hq
      | none =>
        obtain ⟨o, ho, hm⟩ : ∃ o, w.session s = some o ∧ _ := exists_of_enabled he rfl
        have hle := potential_le w (w.effect env _) hs 2 fun p hp => hw.creditAt_ne env he hp P.card
        have hself := creditAt_eq ho P.card
        have hself' : creditAt P.card (w.effect env (.read s none text bytes)) s ≤
            credit P.card o + 2 := by
          rw [Server.effect, object_eq ho]
          exact (creditAt_eq (put_self ..) P.card).trans_le (credit_read hw ho hm text bytes _)
        simp only [pay, Event.opened?, Event.joins, Event.says, Option.isSome_none]
        simp only [↓reduceIte, Bool.false_eq_true]
        change _ + creditAt P.card w s + _ ≤ _ + creditAt P.card _ s + _ at hle
        omega
    | _ => cases hq

/-- The event opens no session outside `P`. -/
def OpensIn (P : Finset Ptr) (e : Event) : Prop := ∀ s, e.opened? = some s → s ∈ P

/-- A server whose sessions are in `P`. -/
structure Within (P : Finset Ptr) (w : Server) : Prop where
  inv : w.Inv
  sessions : ∀ p o, w.session p = some o → p ∈ P

theorem Within.step (h : Within P w) (hC : OpensIn P e) (hn : (server env).next w e = some w') :
    Within P w' := by
  refine ⟨inv_step h.inv hn, fun p o' ho' => ?_⟩
  have hold {x : Entry} (hx : w.ledger p = some x) : p ∈ P := by
    obtain ⟨o, ho, -⟩ := ledger_some hx
    exact h.sessions p o ho
  obtain ⟨-, -, req, now, rfl⟩ | ⟨hx, -⟩ | ⟨x, hg⟩ :=
    (h.inv.step_turn hn).before (ledger_eq ho')
  · exact hC p rfl
  · exact hold hx
  · exact hold hg.was

/-- The session of an event that can happen. -/
theorem Within.mem (h : Within P w) (hC : OpensIn P e) (he : w.enabled e = true) :
    e.session ∈ P := by
  cases hop : e.op? with
  | none =>
    cases e with
    | upgrade s req now => exact hC s rfl
    | _ => cases hop
  | some op =>
    obtain ⟨o, ho, -⟩ := exists_of_enabled he hop
    exact h.sessions _ o ho

/-- **The potential of the server.** -/
theorem spends (env : Env) (P : Finset Ptr) :
    (server env).Potential (OpensIn P) (Within P) (potential P) (pay P.card) where
  keeps _ _ _ h hC hn := h.step hC hn
  spends w e w' h hC hn := by
    obtain ⟨he, views, rfl⟩ := next_cases h.inv hn
    exact h.inv.spends env he (h.mem hC he)

/-! ## Runs -/

/-- The sessions that a run opens. -/
def openedIn (es : List Event) : Finset Ptr := (es.filterMap Event.opened?).toFinset

theorem card_openedIn (es : List Event) :
    (openedIn es).card ≤ es.countP (·.opened?.isSome) := by
  refine (List.toFinset_card_le _).trans ?_
  rw [List.length_filterMap_eq_countP]

theorem opensIn_openedIn (he : e ∈ es) : OpensIn (openedIn es) e := fun _ hs =>
  List.mem_toFinset.mpr (List.mem_filterMap.mpr ⟨e, he, hs⟩)

theorem Within.nil (P : Finset Ptr) : Within P (server env).init :=
  ⟨Inv.nil, fun _ _ ho => by cases ho⟩

theorem Within.of_runs (hr : (server env).Runs es w) : Within (openedIn es) w :=
  Sys.exec_induct (C := OpensIn (openedIn es)) (I := Within (openedIn es))
    (fun _ _ _ h hC hn => h.step hC hn) (Within.nil _) (fun _ he => opensIn_openedIn he) hr

/-- A run is no longer than its sessions, handshakes and messages allow. -/
theorem length_le_allowance (hr : (server env).Runs es w) : es.length ≤ allowance es := by
  have hle := (spends env (openedIn es)).exec (Within.nil _) (fun _ he => opensIn_openedIn he) hr
  have hzero : potential (openedIn es) (server env).init = 0 :=
    Finset.sum_eq_zero fun _ _ => rfl
  have hcard := card_openedIn es
  rw [hzero, sum_pay] at hle
  refine (Nat.le_add_right _ _).trans (hle.trans ?_)
  rw [Nat.zero_add]
  exact Nat.add_le_add (Nat.add_le_add_right (Nat.mul_le_mul_left _ (by omega)) _)
    (Nat.mul_le_mul_left _ (by omega))

theorem allowance_quiet {es' : List Event} (hq : ∀ e ∈ es', e.quiet = true) :
    allowance (es ++ es') = allowance es := by
  have hnone (e : Event) (he : e ∈ es') :
      e.opened?.isSome = false ∧ e.joins = false ∧ e.says = false := by
    have hqe := hq e he
    cases e with
    | upgrade s req now => cases hqe
    | accept s ec time => cases ec <;> [cases hqe; exact ⟨rfl, rfl, rfl⟩]
    | read s ec text bytes => cases ec <;> [cases hqe; exact ⟨rfl, rfl, rfl⟩]
    | _ => exact ⟨rfl, rfl, rfl⟩
  have ho : es'.countP (·.opened?.isSome) = 0 := List.countP_eq_zero.mpr fun e he => by
    simp [(hnone e he).1]
  have hj : es'.countP Event.joins = 0 := List.countP_eq_zero.mpr fun e he => by
    simp [(hnone e he).2.1]
  have hs : es'.countP Event.says = 0 := List.countP_eq_zero.mpr fun e he => by
    simp [(hnone e he).2.2]
  unfold allowance
  simp only [List.countP_append, ho, hj, hs, Nat.add_zero]

/-- Quiet events come to rest, and there are no more of them than the events before allow. -/
theorem quiet_rests (hr : (server env).Runs es w) {C : Event → Prop}
    (hC : ∀ e, C e → e.quiet = true) :
    (∃ es' w', (∀ e ∈ es', C e) ∧ (server env).exec w es' = some w' ∧
      (server env).Rest C w') ∧
    ∀ es' w', (∀ e ∈ es', C e) → (server env).exec w es' = some w' →
      es.length + es'.length ≤ allowance es := by
  have hopens (e : Event) (he : C e) : OpensIn (openedIn es) e := by
    intro s hs
    rw [opened?_quiet (hC e he)] at hs
    cases hs
  constructor
  · exact ((spends env (openedIn es)).mono hopens).exists_rest
      (fun e he => pay_quiet (hC e he) _) (Within.of_runs hr)
  · intro es' w' hes' hex
    have hle := length_le_allowance (Sys.runs_append.mpr ⟨w, hr, hex⟩)
    rwa [allowance_quiet fun e he => hC e (hes' e he), List.length_append] at hle

/-- Every operation may fail. -/
theorem exists_quiet (s : Ptr) (op : Op) :
    ∃ e : Event, e.quiet = true ∧ e.session = s ∧ e.op? = some op := by
  cases op with
  | accept => exact ⟨.accept s (some ⟨.other, []⟩) 0, rfl, rfl, rfl⟩
  | read => exact ⟨.read s (some ⟨.other, []⟩) true [], rfl, rfl, rfl⟩
  | write frame => exact ⟨.write s frame (some ⟨.other, []⟩), rfl, rfl, rfl⟩
  | close => exact ⟨.close s (some ⟨.other, []⟩), rfl, rfl, rfl⟩
  | write401 res => exact ⟨.write401 s res (some ⟨.other, []⟩), rfl, rfl, rfl⟩

theorem enabled_of_mem {op : Op} (ho : w.session e.session = some o) (hm : op ∈ o.ops)
    (hop : e.op? = some op) : w.enabled e = true := by
  have hp {s : Ptr} (hs : w.session s = some o) : w.pending s op = true := by
    unfold pending
    rw [hs]
    simpa using hm
  cases e <;> cases hop <;> exact hp ho

/-- At rest, no operation of the class is outstanding. -/
theorem Inv.not_rest (hw : w.Inv) {C : Event → Prop} {op : Op}
    (ho : w.session e.session = some o) (hm : op ∈ o.ops) (hop : e.op? = some op) (he : C e) :
    ¬(server env).Rest C w := by
  intro hr
  obtain ⟨views, hn⟩ := next_of_enabled env hw (enabled_of_mem ho hm hop)
  rw [hr e he] at hn
  cases hn

/-- A write succeeds. -/
def Event.delivers : Event → Bool
  | .write _ _ none => true
  | _ => false

/-- Writes are at rest if no session that was opened has one outstanding. -/
theorem rest_of_writes (hr : (server env).Runs es w)
    (h : ∀ s ∈ openedIn es, ∀ o, w.session s = some o → o.writes = []) :
    (server env).Rest (·.delivers = true) w := by
  intro e he
  have hnot : ¬w.enabled e = true := by
    intro hen
    cases e with
    | write s frame ec =>
      obtain ⟨o, ho, hm⟩ : ∃ o, w.session s = some o ∧ _ := exists_of_enabled hen rfl
      have hmem := WebsocketSession.mem_writes.mpr hm
      rw [h s ((Within.of_runs hr).sessions s o ho) o ho] at hmem
      cases hmem
    | _ => cases he
  exact if_neg hnot

end Server

open Server in
/-- **The server does nothing by itself.** In a run with `n` upgrades, `a` successful handshakes and
`r` messages read, at most `n * (2 * n + 3) + 3 * a + r * (2 * n + 1)` handlers run, those of the
writes and of the failures included. -/
theorem workBound {env : Env} {es : List Server.Event} {w : Server}
    (hr : (server env).Runs es w) :
    let n := es.countP (·.opened?.isSome)
    es.length ≤ n * (2 * n + 3) + es.countP Event.joins * 3 + es.countP Event.says * (2 * n + 1) :=
  length_le_allowance hr

/-- Five handlers run in `collision`; its two sessions and handshakes allow twenty. -/
theorem workBound_collision : ∃ w, (server plainEnv).Runs collision w ∧ collision.length ≤ 20 := by
  have hr : (server plainEnv).Runs collision _ := rfl
  exact ⟨_, hr, workBound hr⟩

open Server in
/-- **The server shuts down.** After any run, let nothing happen but failures, writes and the end of
the 401 path. This ends, however the completions are ordered, and no later than the run before
allows. Then every session is destroyed and has nothing outstanding, the registry is empty, and the
notice of each session that had been accepted has been broadcast. -/
theorem shutdown {env : Env} {es : List Server.Event} {w : Server}
    (hr : (server env).Runs es w) :
    (∃ es' w', (∀ e ∈ es', e.quiet = true) ∧ (server env).exec w es' = some w' ∧
      (server env).Rest (·.quiet = true) w') ∧
    ∀ es' w', (∀ e ∈ es', e.quiet = true) → (server env).exec w es' = some w' →
      es.length + es'.length ≤ allowance es ∧
      ((server env).Rest (·.quiet = true) w' → (∀ id, w'.sessions.lookup id = none) ∧
        ∀ s o, w'.session s = some o → o.destroyed = true ∧ o.ops = [] ∧
          (o.joined ≠ none → ⟨some s, notice o.connectionId⟩ ∈ w'.history)) := by
  obtain ⟨hrest, hbound⟩ := quiet_rests hr (C := (·.quiet = true)) fun _ he => he
  refine ⟨hrest, fun es' w' hes' hex => ⟨hbound es' w' hes' hex, fun hr' => ?_⟩⟩
  have hrun := Sys.runs_append.mpr ⟨w, hr, hex⟩
  have hw' := reach_inv hrun.reach
  have hops : ∀ s o, w'.session s = some o → o.ops = [] := by
    intro s o ho
    by_contra hne
    obtain ⟨op, hm⟩ := List.exists_mem_of_ne_nil _ hne
    obtain ⟨e, hq, rfl, hop⟩ := exists_quiet s op
    exact hw'.not_rest ho hm hop hq hr'
  constructor
  · intro id
    cases hl : w'.sessions.lookup id with
    | none => rfl
    | some p =>
      obtain ⟨o, ho, -, -, hown, -⟩ := hw'.entries id p hl
      rcases hown with hown | hrun
      · exact absurd (hops p o ho) hown
      · cases hw'.running.symm.trans hrun
  · intro s o ho
    have hd := (hw'.destroyed_iff ho).mpr (hops s o ho)
    refine ⟨hd, hops s o ho, fun hj => ?_⟩
    have hacc := account hrun s
    have hfare : w'.farewell s = [notice o.connectionId] := by
      unfold farewell Entry.farewell
      rw [ledger_eq ho]
      simp [WebsocketSession.entry, hd, Option.isSome_iff_ne_none.mpr hj]
    have hm : notice o.connectionId ∈ w'.broadcastsOf s := by
      rw [hacc, hfare]
      exact List.mem_append_right _ (List.mem_singleton.mpr rfl)
    obtain ⟨b, hb, hmsg⟩ := List.mem_map.mp hm
    obtain ⟨hb, hcall⟩ := List.mem_filter.mp hb
    obtain ⟨caller, message⟩ := b
    obtain rfl : caller = some s := of_decide_eq_true hcall
    exact hmsg ▸ hb

theorem shutdown_collision : ∃ w es' w', (server plainEnv).Runs collision w ∧
    (server plainEnv).exec w es' = some w' ∧ ∀ id, w'.sessions.lookup id = none := by
  have hr : (server plainEnv).Runs collision _ := rfl
  obtain ⟨⟨es', w', hq, hex, hrest⟩, hall⟩ := shutdown hr
  exact ⟨_, es', w', hr, hex, ((hall es' w' hq hex).2 hrest).1⟩

open Server in
/-- **Who stays is written everything.** After any run, let nothing happen but successful writes.
This ends, however they are ordered, and no later than the run before allows. Then a session that
is in the registry and has not failed a write has been written its greeting and every broadcast
since it was registered. -/
theorem eventualDelivery {env : Env} {es : List Server.Event} {w : Server}
    (hr : (server env).Runs es w) :
    (∃ es' w', (∀ e ∈ es', e.delivers = true) ∧ (server env).exec w es' = some w' ∧
      (server env).Rest (·.delivers = true) w') ∧
    ∀ es' w', (∀ e ∈ es', e.delivers = true) → (server env).exec w es' = some w' →
      es.length + es'.length ≤ allowance es ∧
      ((server env).Rest (·.delivers = true) w' → ∀ id s o n,
        w'.sessions.lookup id = some s → w'.session s = some o → o.joined = some n →
        o.writeFailed = false → o.written = ⟨greeting id, none⟩ :: w'.broadcasts.drop n) := by
  have hquiet (e : Server.Event) (he : e.delivers = true) : e.quiet = true := by
    cases e <;> first | rfl | cases he
  obtain ⟨hrest, hbound⟩ := quiet_rests hr (C := (·.delivers = true)) hquiet
  refine ⟨hrest, fun es' w' hes' hex => ⟨hbound es' w' hes' hex, ?_⟩⟩
  intro hr' id s o n hl ho hj hf
  have hrun := Sys.runs_append.mpr ⟨w, hr, hex⟩
  have hw' := reach_inv hrun.reach
  have hok := hw'.objects s o ho
  -- No write is outstanding, so nothing is queued.
  have hwrites : o.writes = [] := by
    by_contra hne
    obtain ⟨frame, hm⟩ := List.exists_mem_of_ne_nil _ hne
    exact hw'.not_rest (C := (·.delivers = true)) (e := .write s frame none) ho
      (WebsocketSession.mem_writes.mp hm) rfl rfl hr'
  have hqueue : o.queue = [] := by
    have htake := hok.pump.writing hf
    rw [hwrites] at htake
    cases hq : o.queue with
    | nil => rfl
    | cons m rest => rw [hq] at htake; cases htake
  obtain ⟨rest, hs, -, hall⟩ := (gapless hrun (ledger_eq ho) n hj).2
  have hid : o.connectionId = id := by
    obtain ⟨o₁, ho₁, -, -, -, hid⟩ := hw'.entries id s hl
    obtain rfl := Option.some.inj (ho.symm.trans ho₁)
    exact hid
  have hsent := hw'.written_queue ho
  rw [hqueue, List.append_nil, hs, hall (mem_members.mpr ⟨id, hl⟩)] at hsent
  rw [hsent, ← hid]
  rfl

/-- The writes that `hello` leaves: the greetings, and the word to both. -/
def deliveries : List Server.Event :=
  let greet (time : Nat) : Frame :=
    ⟨true, ⟨greeting (generateRandomString secondsEnv 16 time), none⟩⟩
  [.write 2 (greet 2) none, .write 1 (greet 1) none,
    .write 1 ⟨true, ⟨ascii "hi", some 0⟩⟩ none, .write 2 ⟨true, ⟨ascii "hi", some 0⟩⟩ none]

open Server in
/-- After these writes both clients have been written the greeting and the word. -/
theorem eventualDelivery_hello : ∃ w w' o u, (server secondsEnv).Runs hello w ∧
    (server secondsEnv).exec w deliveries = some w' ∧
    (server secondsEnv).Rest (·.delivers = true) w' ∧
    w'.session 1 = some o ∧
    o.written = [⟨greeting (generateRandomString secondsEnv 16 1), none⟩, ⟨ascii "hi", some 0⟩] ∧
    w'.session 2 = some u ∧
    u.written = [⟨greeting (generateRandomString secondsEnv 16 2), none⟩, ⟨ascii "hi", some 0⟩] := by
  have hr : (server secondsEnv).Runs hello _ := rfl
  have hrun : (server secondsEnv).Runs (hello ++ deliveries) _ := rfl
  obtain ⟨w', hr', hex⟩ := Sys.runs_append.mp hrun
  obtain rfl := hr.unique hr'
  have hrest := rest_of_writes hrun fun s hs o ho => by
    have hopened : s ∈ [1, 2] := List.mem_toFinset.mp hs
    obtain rfl | rfl : s = 1 ∨ s = 2 := by simpa using hopened
    · cases ho
      rfl
    · cases ho
      rfl
  have hdelivered := ((eventualDelivery hr).2 deliveries _ (by decide) hex).2 hrest
  exact ⟨_, _, _, _, hr, hex, hrest, rfl, hdelivered _ 1 _ 0 (by decide) rfl rfl rfl, rfl,
    hdelivered _ 2 _ 0 (by decide) rfl rfl rfl⟩

end ChatServer
