import ChatServer.Ledger
import Mathlib.Data.List.Dedup

/-!
# Who is in the registry

`on_accept` draws the id of a session from a generator that is seeded with the clock, whole seconds.
`connect` overwrites, and the destructor erases whatever is under its id. So a session stays in
the registry as long as it lives if and only if nobody is given its id meanwhile.

* `Complete`: each accepted session that is not destroyed is found under its id. `Distinct`: no two
  of them have one id.
* `registryComplete`: both hold all along a run exactly if each handshake that succeeds draws an id
  that none of these sessions has.
* `registryComplete_sameSecond`: two handshakes in one second.
* `registryCapacity`: no more sessions are in the registry than there were such seconds.
-/

namespace ChatServer

open Lib

namespace Server

variable {env : Env} {w w' : Server} {s p : Ptr} {e : Event}

/-- `on_accept` of the session `o` at `s` succeeded, and it is not destroyed. -/
structure Accepted (w : Server) (s : Ptr) (o : WebsocketSession) : Prop where
  session : w.session s = some o
  joined : o.joined ≠ none
  alive : o.destroyed = false

/-- Each accepted session is in the registry, under its id. -/
def Complete (w : Server) : Prop :=
  ∀ s o, w.Accepted s o → w.sessions.lookup o.connectionId = some s

/-- Two accepted sessions have two ids. -/
def Distinct (w : Server) : Prop :=
  ∀ s t o u, w.Accepted s o → w.Accepted t u → o.connectionId = u.connectionId → s = t

/-- If a handshake succeeds, then no accepted session has the id that the clock gives. -/
def FreshId (env : Env) (w : Server) (e : Event) (_ : Server) : Prop :=
  ∀ s time, e = .accept s none time → ∀ p o, w.Accepted p o →
    o.connectionId ≠ generateRandomString env 16 time

theorem Complete.distinct (h : w.Complete) : w.Distinct := by
  intro s t o u hs ht he
  have hl := h s o hs
  rw [he, h t u ht] at hl
  exact (Option.some.inj hl).symm

/-! ## On the ledger -/

/-- The entry of an accepted session. -/
structure Live (w : Server) (s : Ptr) (x : Entry) : Prop where
  entry : w.ledger s = some x
  joined : x.joined ≠ none
  alive : x.destroyed = false

theorem Accepted.live {o : WebsocketSession} (h : w.Accepted s o) : w.Live s o.entry :=
  ⟨ledger_eq h.session, h.joined, h.alive⟩

theorem Live.accepted {x : Entry} (h : w.Live s x) : ∃ o, w.Accepted s o ∧ o.entry = x := by
  obtain ⟨o, ho, rfl⟩ := ledger_some h.entry
  exact ⟨o, ⟨ho, h.joined, h.alive⟩, rfl⟩

theorem complete_iff :
    w.Complete ↔ ∀ s x, w.Live s x → w.sessions.lookup x.connectionId = some s := by
  constructor
  · intro h s x hx
    obtain ⟨o, ho, rfl⟩ := hx.accepted
    exact h s o ho
  · exact fun h s o ho => h s o.entry ho.live

theorem Live.before {x y : Entry} (hx : Grows w w' p x y) (hy : w'.Live p y) : w.Live p x :=
  ⟨hx.was, hx.joined ▸ hy.joined, hx.alive hy.alive⟩

/-- A step whose handshake draws a fresh id keeps the registry complete. -/
theorem Complete.step (h : w.Complete) (ht : Turn env w e w') (hf : FreshId env w e w') :
    w'.Complete := by
  rw [complete_iff] at h ⊢
  intro p y hy
  obtain ⟨-, rfl, -⟩ | ⟨-, time, -, -, hs, rfl⟩ | ⟨x, hx⟩ := ht.before hy.entry
  · exact absurd rfl hy.joined
  · rw [hs, AList.lookup_insert]
  · have hlive := Live.before hx hy
    have hl := h p x hlive
    rw [hx.connectionId]
    cases ht with
    | opened fresh sessions history ledger => rw [sessions]; exact hl
    | @joined s time _ was sessions history ledger =>
      obtain ⟨o, ho, rfl⟩ := hlive.accepted
      have hne : o.entry.connectionId ≠ generateRandomString env 16 time := hf s time rfl p o ho
      rw [sessions, AList.lookup_insert_ne hne]
      exact hl
    | said was live sessions history ledger => rw [sessions]; exact hl
    | @left _ _ x₀ quiet was live sessions history ledger =>
      have hne : x.connectionId ≠ x₀.connectionId := by
        intro hid
        -- Both are under one id, so this is the session that is destroyed.
        have hl₀ := h e.session x₀ ⟨was, live.1, live.2⟩
        rw [← hid, hl] at hl₀
        obtain rfl := Option.some.inj hl₀
        have hy' := hy.entry
        rw [ledger] at hy'
        obtain ⟨x₁, hx₁, rfl⟩ := posted_some hy'
        rw [Function.update_self] at hx₁
        cases hx₁
        have ha := hy.alive
        split at ha <;> cases ha
      rw [sessions, AList.lookup_erase_ne hne]
      exact hl
    | dropped quiet was sessions history ledger => rw [sessions]; exact hl
    | stays quiet sessions history ledger => rw [sessions]; exact hl

/-- After a handshake that draws the id of an accepted session, two sessions have it. -/
theorem Distinct.fresh (h : w'.Distinct) (ht : Turn env w e w') : FreshId env w e w' := by
  rintro s time rfl p o ho hid
  cases ht with
  | joined was sessions history ledger =>
    have hps : p ≠ s := by
      rintro rfl
      have he : some o.entry = some {} := ho.live.entry.symm.trans was
      exact ho.joined (congrArg Entry.joined (Option.some.inj he))
    have hp : w'.Live p o.entry := by
      refine ⟨?_, ho.joined, ho.alive⟩
      rw [ledger, Function.update_of_ne hps]
      exact ho.live.entry
    have hs : w'.Live s _ := ⟨by rw [ledger, Function.update_self], by simp, rfl⟩
    obtain ⟨u, hu, hue⟩ := hp.accepted
    obtain ⟨v, hv, hve⟩ := hs.accepted
    refine hps (h p s u v hu hv ?_)
    have hid' : o.entry.connectionId = generateRandomString env 16 time := hid
    exact (congrArg Entry.connectionId hue).trans
      (hid'.trans (congrArg Entry.connectionId hve).symm)
  | left quiet was live sessions history ledger => cases quiet
  | dropped quiet was sessions history ledger => cases quiet
  | stays quiet sessions history ledger => cases quiet

theorem Complete.nil : (server env).init.Complete := fun _ _ ho => by cases ho.session

theorem along_complete {es : List Event} (h : (server env).Meets (FreshId env) es) :
    (server env).Along Complete es :=
  Sys.Along.of_meets Complete.nil
    (fun _ _ _ hr hw hn hf => hw.step ((reach_inv hr).step_turn hn) hf) h

theorem meets_fresh {es : List Event} (h : (server env).Along Distinct es) :
    (server env).Meets (FreshId env) es := fun _ _ hp _ _ hr hn =>
  (h _ hp _ (hr.snoc hn)).fresh ((reach_inv hr.reach).step_turn hn)

end Server

open Server in
/-- **Registry completeness.** All along a run each accepted session that is not destroyed is the
pointer that the registry has under its id, and no two of them have one id, exactly if each
handshake that succeeds on the run draws an id that no such session has. -/
theorem registryComplete (env : Env) (es : List Server.Event) :
    (server env).Along (fun w => w.Complete ∧ w.Distinct) es ↔
      (server env).Meets (FreshId env) es := by
  constructor
  · exact fun h => meets_fresh (h.mono fun _ hw => hw.2)
  · intro h
    exact (along_complete h).mono fun w hw => ⟨hw, hw.distinct⟩

/-- The server on a libstdc++ host. The draws are those of one second; the others are left out. -/
def hostEnv : Env where
  verify _ _ := .ok ()
  draw seed i := draw <|
    if seed = 1700000000 then
      [10, 29, 61, 39, 60, 59, 1, 23, 34, 0, 57, 2, 18, 34, 7, 47].getD i 0
    else 0

/-- Two clients whose handshakes complete in one second. -/
def sameSecond : List Server.Event :=
  [.upgrade 1 {} 1700000000, .accept 1 none 1700000000, .upgrade 2 {} 1700000000,
    .accept 2 none 1700000000]

/-- The second of two handshakes in one second displaces the first session. -/
theorem registryComplete_sameSecond : ¬ ∀ (env : Env) (es : List Server.Event),
    (server env).Along (fun w => w.Complete ∧ w.Distinct) es := by
  intro h
  have hr : (server hostEnv).Runs sameSecond _ := rfl
  have hc := ((h hostEnv sameSecond).last hr).1 1 _ ⟨rfl, by simp, rfl⟩
  revert hc
  decide

/-! ## How many are in the registry -/

namespace Server

variable {env : Env} {w w' : Server} {e : Event}

/-- The clock reading that gives a session its id. -/
def Event.second? : Event → Option Nat
  | .accept _ none time => some time
  | _ => none

/-- An event adds no id but that of its clock reading. -/
theorem Turn.mem_sessions (ht : Turn env w e w') {id : Bytes} (hm : id ∈ w'.sessions) :
    id ∈ w.sessions ∨ ∃ time ∈ e.second?, id = generateRandomString env 16 time := by
  cases ht with
  | @joined s time _ _ sessions =>
    rw [sessions, AList.mem_insert] at hm
    exact hm.symm.imp_right fun h => ⟨time, rfl, h⟩
  | left _ _ _ sessions =>
    rw [sessions, AList.mem_erase] at hm
    exact .inl hm.2
  | opened _ sessions | said _ _ sessions | dropped _ _ sessions | stays _ sessions =>
    exact .inl (sessions ▸ hm)

theorem mem_sessions {es : List Event} (hr : (server env).Runs es w) : ∀ id ∈ w.sessions,
    ∃ time ∈ es.filterMap Event.second?, id = generateRandomString env 16 time := by
  refine Sys.Runs.induct (P := fun es w => ∀ id ∈ w.sessions,
    ∃ time ∈ es.filterMap Event.second?, id = generateRandomString env 16 time) ?_ ?_ hr
  · intro id hm
    exact absurd hm (AList.notMem_empty _)
  · intro es w e w' hr ih hn id hm
    rw [List.filterMap_append]
    obtain hm | ⟨time, ht, rfl⟩ := ((reach_inv hr.reach).step_turn hn).mem_sessions hm
    · obtain ⟨time, ht, hid⟩ := ih id hm
      exact ⟨time, List.mem_append_left _ ht, hid⟩
    · refine ⟨time, List.mem_append_right _ ?_, rfl⟩
      rw [List.mem_filterMap]
      exact ⟨e, List.mem_singleton_self e, ht⟩

end Server

open Server in
/-- **The registry's capacity.** Over a run, no broadcast reaches more sessions than there were
seconds in which a handshake succeeded, however many handshakes these were. -/
theorem registryCapacity {env : Env} {es : List Server.Event} {w : Server}
    (hr : (server env).Runs es w) :
    w.members.length ≤ (es.filterMap Event.second?).dedup.length := by
  have hsub : w.sessions.keys ⊆ (es.filterMap Event.second?).dedup.map
      (generateRandomString env 16) := by
    intro id hm
    obtain ⟨time, ht, rfl⟩ := mem_sessions hr id hm
    exact List.mem_map_of_mem (List.mem_dedup.mpr ht)
  have hlen := (List.subperm_of_subset w.sessions.keys_nodup hsub).length_le
  rw [List.length_map] at hlen
  rw [members, List.length_map, ← List.length_map (f := Sigma.fst)]
  exact hlen

theorem registryCapacity_sameSecond : ∃ w, (server hostEnv).Runs sameSecond w ∧
    w.members.length ≤ 1 := by
  have hr : (server hostEnv).Runs sameSecond _ := rfl
  exact ⟨_, hr, registryCapacity hr⟩

end ChatServer
