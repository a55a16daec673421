import ChatServer.Ledger
import Mathlib.Data.List.Nodup

/-!
# All clients agree on the order

A broadcast is a call of `shared_state::broadcast`; its number is its place in the history. What a
session has written and queued is its greeting and then a subsequence of the broadcasts after it
was registered, whatever ids collide and whatever reads and writes fail.

* `filter_comm_of_sublist`: two subsequences of a list without repetitions agree on what is common.
* `Server.broadcasts`: the history, numbered. `Heard`: the invariant of one session.
* `clientsAgree`: every session of every run, and every two of them.
-/

namespace ChatServer

open Lib
open scoped List

/-! ## Subsequences -/

section Sublist

variable {α : Type} [DecidableEq α] {l m u : List α}

theorem sublist_eq_filter (h : l <+ u) (hu : u.Nodup) : u.filter (· ∈ l) = l := by
  induction h with
  | slnil => rfl
  | @cons l u a h ih =>
    obtain ⟨ha, hu⟩ := List.nodup_cons.mp hu
    have hal : a ∉ l := fun hm => ha (h.subset hm)
    rw [List.filter_cons_of_neg (by simpa using hal), ih hu]
  | @cons_cons l u a h ih =>
    obtain ⟨ha, hu⟩ := List.nodup_cons.mp hu
    have hcongr : u.filter (· ∈ a :: l) = u.filter (· ∈ l) := by
      apply List.filter_congr
      intro x hx
      have hxa : x ≠ a := by
        rintro rfl
        exact ha hx
      simp [hxa]
    rw [List.filter_cons_of_pos (by simp), hcongr, ih hu]

/-- Two subsequences of a list without repetitions have their common elements in one order. -/
theorem filter_comm_of_sublist (hl : l <+ u) (hm : m <+ u) (hu : u.Nodup) :
    l.filter (· ∈ m) = m.filter (· ∈ l) := by
  have h₁ : l.filter (· ∈ m) = (u.filter (· ∈ l)).filter (· ∈ m) := by
    rw [sublist_eq_filter hl hu]
  have h₂ : m.filter (· ∈ l) = (u.filter (· ∈ m)).filter (· ∈ l) := by
    rw [sublist_eq_filter hm hu]
  rw [h₁, h₂, List.filter_filter, List.filter_filter]
  exact List.filter_congr fun x _ => Bool.and_comm _ _

end Sublist

namespace Server

variable {env : Env} {w w' : Server} {s p : Ptr} {e : Event} {es : List Event}

/-! ## The history -/

/-- The broadcasts with their numbers. -/
def broadcasts (w : Server) : List SharedString :=
  w.history.mapIdx fun i b => ⟨b.message, some i⟩

theorem broadcasts_number (w : Server) :
    w.broadcasts.map (·.number) = (List.range w.history.length).map some := by
  unfold broadcasts
  refine List.ext_getElem (by simp) fun i h₁ h₂ => ?_
  simp

theorem broadcasts_nodup (w : Server) : w.broadcasts.Nodup := by
  apply List.Nodup.of_map (·.number)
  rw [broadcasts_number]
  exact List.nodup_range.map fun _ _ h => Option.some.inj h

theorem broadcasts_concat {b : Broadcast} (h : w'.history = w.history ++ [b]) :
    w'.broadcasts = w.broadcasts ++ [⟨b.message, some w.history.length⟩] := by
  unfold broadcasts
  rw [h, List.mapIdx_concat]

theorem broadcasts_length (w : Server) : w.broadcasts.length = w.history.length := by
  unfold broadcasts; simp

/-- A step adds at most one broadcast. -/
theorem Turn.history (ht : Turn env w e w') :
    w'.history = w.history ∨ ∃ b, w'.history = w.history ++ [b] := by
  cases ht with
  | opened fresh sessions history ledger => exact .inl history
  | joined was sessions history ledger => exact .inl history
  | said was live sessions history ledger => exact .inr ⟨_, history⟩
  | left quiet was live sessions history ledger => exact .inr ⟨_, history⟩
  | dropped quiet was sessions history ledger => exact .inl history
  | stays quiet sessions history ledger => exact .inl history

theorem Turn.accepted {time : Nat} (ht : Turn env w (.accept s none time) w') :
    w'.ledger s = some ⟨generateRandomString env 16 time, some w.history.length, false,
      [⟨greeting (generateRandomString env 16 time), none⟩]⟩ := by
  cases ht with
  | joined was sessions history ledger => rw [ledger, Function.update_self]
  | left quiet was live sessions history ledger => cases quiet
  | dropped quiet was sessions history ledger => cases quiet
  | stays quiet sessions history ledger => cases quiet

/-- No session is forgotten. -/
theorem Turn.isSome (ht : Turn env w e w') (h : (w.ledger p).isSome) : (w'.ledger p).isSome := by
  have hupd {s : Ptr} {x : Entry} : (Function.update w.ledger s (some x) p).isSome := by
    by_cases hp : p = s
    · subst hp; simp
    · rw [Function.update_of_ne hp]; exact h
  have hpost {ss : SharedString} {l : List Ptr} {f : Ptr → Option Entry} (hf : (f p).isSome) :
      (posted ss l f p).isSome := by
    unfold posted
    split
    · rw [Option.isSome_map]; exact hf
    · exact hf
  cases ht with
  | opened fresh sessions history ledger => rw [ledger]; exact hupd
  | joined was sessions history ledger => rw [ledger]; exact hupd
  | said was live sessions history ledger => rw [ledger]; exact hpost h
  | left quiet was live sessions history ledger => rw [ledger]; exact hpost hupd
  | dropped quiet was sessions history ledger => rw [ledger]; exact hupd
  | stays quiet sessions history ledger => rw [ledger]; exact h

/-! ## What one session hears -/

/-- The session at `p` was never registered, or it was, by the last event of `es₁`: then it has
its greeting, and some of the broadcasts since. -/
def Heard (env : Env) (es : List Event) (w : Server) (p : Ptr) (x : Entry) : Prop :=
  (x.joined = none ∧ x.sent = [] ∧ ∀ time, .accept p none time ∉ es) ∨
  (x.joined ≠ none ∧ ∃ es₁ time es₂ w₁ rest, es = es₁ ++ .accept p none time :: es₂ ∧
    (server env).Runs es₁ w₁ ∧ x.connectionId = generateRandomString env 16 time ∧
    x.sent = ⟨greeting x.connectionId, none⟩ :: rest ∧
    w₁.history.length ≤ w.history.length ∧ rest <+ w.broadcasts.drop w₁.history.length)

/-- A message of the step's broadcast goes to the end of what was heard. -/
theorem Grows.rest {x y : Entry} (hg : Grows w w' p x y) (ht : Turn env w e w')
    {first : SharedString} {rest : List SharedString} {k : Nat} (hk : k ≤ w.history.length)
    (hs : x.sent = first :: rest) (hr : rest <+ w.broadcasts.drop k) :
    ∃ rest', y.sent = first :: rest' ∧ k ≤ w'.history.length ∧
      rest' <+ w'.broadcasts.drop k := by
  have hkb : k ≤ w.broadcasts.length := by rw [broadcasts_length]; exact hk
  rcases hg.sent with he | ⟨b, hb, -, he⟩
  · refine ⟨rest, he.trans hs, ?_⟩
    rcases ht.history with hh | ⟨b, hb⟩
    · rw [hh]
      unfold broadcasts
      rw [hh]
      exact ⟨hk, hr⟩
    · rw [broadcasts_concat hb, List.drop_append_of_le_length hkb, hb, List.length_append]
      exact ⟨by omega, hr.trans (List.sublist_append_left _ _)⟩
  · refine ⟨rest ++ [⟨b.message, some w.history.length⟩], by rw [he, hs]; rfl, ?_⟩
    rw [broadcasts_concat hb, List.drop_append_of_le_length hkb, hb, List.length_append]
    exact ⟨by omega, hr.append (List.Sublist.refl _)⟩

theorem heard (hr : (server env).Runs es w) {x : Entry} (hx : w.ledger p = some x) :
    Heard env es w p x := by
  refine Sys.Runs.induct (P := fun es w =>
    (∀ x, w.ledger p = some x → Heard env es w p x) ∧
    (w.ledger p = none → ∀ time, .accept p none time ∉ es)) ⟨?_, ?_⟩ ?_ hr |>.1 x hx
  · intro x hx
    cases hx
  · simp
  · rintro es w e w' hr ⟨ih, ihn⟩ hn
    have ht := (reach_inv hr.reach).step_turn hn
    have hw' := inv_step (reach_inv hr.reach) hn
    refine ⟨fun y hy => ?_, fun hy time hm => ?_⟩
    · obtain ⟨hnone, rfl, req, now, rfl⟩ | ⟨-, time, rfl, hh, -, rfl⟩ | ⟨x, hg⟩ := ht.before hy
      · refine .inl ⟨rfl, rfl, fun time hm => ?_⟩
        have hl : w.ledger p = none := by unfold ledger; rw [hnone]; rfl
        exact ihn hl time (by simpa using hm)
      · refine .inr ⟨by simp, es, time, [], w, [], rfl, hr, rfl, rfl, ?_, List.nil_sublist _⟩
        rw [hh]
      · rcases ih x hg.was with ⟨hj, hs, hno⟩ |
          ⟨hj, es₁, time, es₂, w₁, rest, rfl, hr₁, hid, hs, hk, hsub⟩
        · refine .inl ⟨hg.joined.trans hj, ?_, fun time hm => ?_⟩
          · rcases hg.sent with he | ⟨-, -, hp, -⟩
            · exact he.trans hs
            · obtain ⟨o, ho, hjo, -⟩ := hw'.member hp
              have he : o.entry = y := Option.some.inj ((ledger_eq ho).symm.trans hy)
              exact absurd ((congrArg Entry.joined he).trans (hg.joined.trans hj)) hjo
          · rcases List.mem_append.mp hm with hm | hm
            · exact hno time hm
            · rw [List.mem_singleton] at hm
              subst hm
              have hy' := Option.some.inj (hy.symm.trans ht.accepted)
              exact absurd (hy'.symm ▸ hg.joined.trans hj) (by simp)
        · obtain ⟨rest', hs', hk', hsub'⟩ := hg.rest ht hk hs hsub
          refine .inr ⟨hg.joined.symm ▸ hj, es₁, time, es₂ ++ [e], w₁, rest', by simp, hr₁,
            hg.connectionId.trans hid, ?_, hk', hsub'⟩
          rw [hs', hg.connectionId]
    · have hl : w.ledger p = none := by
        cases hl : w.ledger p with
        | none => rfl
        | some x =>
          have h := ht.isSome (p := p) (by rw [hl]; rfl)
          rw [hy] at h
          cases h
      rcases List.mem_append.mp hm with hm | hm
      · exact ihn hl time hm
      · rw [List.mem_singleton] at hm
        subst hm
        rw [ht.accepted] at hy
        cases hy

/-- What a session has written and queued are its messages. -/
theorem Inv.written_queue {o : WebsocketSession} (hw : w.Inv) (ho : w.session s = some o) :
    o.written ++ o.queue = o.entry.sent :=
  (hw.objects s o ho).pump.sent.symm

/-- The broadcasts among the messages of a session are a subsequence of the history. -/
theorem Heard.broadcasts {x : Entry} (h : Heard env es w p x) :
    x.sent.filter (·.number.isSome) <+ w.broadcasts := by
  rcases h with ⟨-, hs, -⟩ | ⟨-, es₁, time, es₂, w₁, rest, -, -, -, hs, -, hsub⟩
  · rw [hs]
    exact List.nil_sublist _
  · rw [hs, List.filter_cons_of_neg (by simp)]
    exact List.filter_sublist.trans (hsub.trans (List.drop_sublist _ _))

end Server

open Server in
/-- **All clients agree on the order, at most once.** What a session has written and queued is
empty if it was never registered. Otherwise it is the greeting with its id, and then some of the
broadcasts since it was registered, under strictly increasing numbers. Any two sessions have the
broadcasts that both received in one order. -/
theorem clientsAgree {env : Env} {es : List Server.Event} {w : Server}
    (hr : (server env).Runs es w) :
    (∀ s o, w.session s = some o →
      ((∀ time, .accept s none time ∉ es) ∧ o.written ++ o.queue = []) ∨
      ∃ es₁ time es₂ w₁ rest, ∃ numbers : List Nat, es = es₁ ++ .accept s none time :: es₂ ∧
        (server env).Runs es₁ w₁ ∧ o.connectionId = generateRandomString env 16 time ∧
        o.written ++ o.queue = ⟨greeting o.connectionId, none⟩ :: rest ∧
        rest <+ w.broadcasts.drop w₁.history.length ∧
        rest.map (·.number) = numbers.map some ∧ numbers.Pairwise (· < ·)) ∧
    ∀ s t o u, w.session s = some o → w.session t = some u →
      let l := (o.written ++ o.queue).filter (·.number.isSome)
      let m := (u.written ++ u.queue).filter (·.number.isSome)
      l.filter (· ∈ m) = m.filter (· ∈ l) := by
  have hw := reach_inv hr.reach
  refine ⟨fun s o ho => ?_, fun s t o u ho hu => ?_⟩
  · rw [hw.written_queue ho]
    obtain ⟨-, hs, hno⟩ | ⟨-, es₁, time, es₂, w₁, rest, hes, hr₁, hid, hs, -, hsub⟩ :=
      heard hr (ledger_eq ho)
    · exact .inl ⟨hno, hs⟩
    · have hnum := (hsub.trans (List.drop_sublist _ _)).map (·.number)
      rw [broadcasts_number] at hnum
      obtain ⟨numbers, hlt, hmap⟩ := List.sublist_map_iff.mp hnum
      exact .inr ⟨es₁, time, es₂, w₁, rest, numbers, hes, hr₁, hid, hs, hsub, hmap,
        List.pairwise_lt_range.sublist hlt⟩
  · rw [hw.written_queue ho, hw.written_queue hu]
    exact filter_comm_of_sublist (heard hr (ledger_eq ho)).broadcasts
      (heard hr (ledger_eq hu)).broadcasts w.broadcasts_nodup

/-- Two clients join a second apart, and each says a word. A third one takes the id of the first,
whose handshake was in the same second, and the first one speaks again. -/
def displacement : List Server.Event :=
  [.upgrade 2 {} 1, .accept 2 none 1, .upgrade 1 {} 2, .accept 1 none 2,
    .read 1 none true (ascii "a"), .read 2 none true (ascii "b"), .upgrade 3 {} 2,
    .accept 3 none 2, .read 1 none true (ascii "c")]

/-- Then the third client speaks. The first one is written what it was sent and is destroyed, which
takes the third one from the registry. -/
def aftermath : List Server.Event :=
  [.read 3 none true (ascii "d"),
    .write 1 ⟨true, ⟨greeting (generateRandomString secondsEnv 16 2), none⟩⟩ none,
    .write 1 ⟨true, ⟨ascii "a", some 0⟩⟩ none, .write 1 ⟨true, ⟨ascii "b", some 1⟩⟩ none,
    .read 1 (some ⟨.closed, []⟩) true [], .read 3 none true (ascii "e")]

/-- The second client has two broadcasts in common with the first, and two others with the third. -/
theorem clientsAgree_displacement : ∃ w o t u,
    (server secondsEnv).Runs (displacement ++ aftermath) w ∧ w.session 1 = some o ∧
    w.session 2 = some t ∧ w.session 3 = some u ∧
    (∃ rest, ∃ numbers : List Nat,
      u.written ++ u.queue = ⟨greeting u.connectionId, none⟩ :: rest ∧
      rest.map (·.number) = numbers.map some ∧ numbers.Pairwise (· < ·)) ∧
    let l := (o.written ++ o.queue).filter (·.number.isSome)
    let m := (t.written ++ t.queue).filter (·.number.isSome)
    let n := (u.written ++ u.queue).filter (·.number.isSome)
    m.map (·.number) = [some 0, some 1, some 2, some 3, some 4, some 5] ∧
    l.filter (· ∈ m) = [⟨ascii "a", some 0⟩, ⟨ascii "b", some 1⟩] ∧
    n.filter (· ∈ m) = [⟨ascii "c", some 2⟩, ⟨ascii "d", some 3⟩] ∧
    l.filter (· ∈ m) = m.filter (· ∈ l) ∧ n.filter (· ∈ m) = m.filter (· ∈ n) := by
  have hr : (server secondsEnv).Runs (displacement ++ aftermath) _ := rfl
  obtain ⟨hown, hagree⟩ := clientsAgree hr
  obtain ⟨hno, -⟩ | ⟨-, -, -, -, rest, numbers, -, -, -, hs, -, hnum⟩ := hown 3 _ rfl
  · exact absurd (show .accept 3 none 2 ∈ displacement ++ aftermath by decide) (hno 2)
  · exact ⟨_, _, _, _, hr, rfl, rfl, rfl, ⟨rest, numbers, hs, hnum⟩, by decide, by decide,
      by decide, hagree 1 2 _ _ rfl rfl, hagree 3 2 _ _ rfl rfl⟩

end ChatServer
