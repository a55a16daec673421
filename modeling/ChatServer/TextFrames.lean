import ChatServer.Order

/-!
# The text frames of the server

The server never looks at the kind of a message and never sets the mode of a stream, so it writes
every message as text. The greetings and the notices are ASCII; a message that was read is passed
on byte by byte, a binary one, too.

* `Clean`: well-formed, or the bytes of a binary message that was read and is not.
* `textFrames`: the payload of every frame is clean. `textFrames_binary`: a payload that is not
  well-formed.
-/

namespace ChatServer

open Lib

namespace Server

variable {env : Env} {w w' : Server} {e : Event} {es : List Event}

/-- Beast checks the text messages that it reads. -/
def TextChecked (es : List Event) : Prop :=
  ∀ s bytes, .read s none true bytes ∈ es → ValidUtf8 bytes

/-- The bytes are well-formed UTF-8, or a binary message that was read and is not. -/
def Clean (es : List Event) (bytes : Bytes) : Prop :=
  ValidUtf8 bytes ∨ ∃ s, .read s none false bytes ∈ es ∧ ¬ValidUtf8 bytes

theorem Clean.append {bytes : Bytes} (h : Clean es bytes) (es' : List Event) :
    Clean (es ++ es') bytes :=
  h.imp_right fun ⟨s, hm, hv⟩ => ⟨s, List.mem_append_left _ hm, hv⟩

theorem charset_ascii : ∀ c ∈ charset, c < 128 := by decide +kernel

theorem validUtf8_generate (env : Env) (length time : Nat) :
    ValidUtf8 (generateRandomString env length time) := by
  apply validUtf8_of_ascii
  intro c hc
  obtain ⟨i, -, rfl⟩ := List.mem_map.mp hc
  rw [List.getD_eq_getElem?_getD]
  cases hd : charset[(env.draw time i : Nat)]? with
  | none => decide
  | some d => exact charset_ascii d (List.mem_of_getElem? hd)

theorem validUtf8_greeting {id : Bytes} (h : ValidUtf8 id) : ValidUtf8 (greeting id) :=
  ValidUtf8.append (validUtf8_of_ascii (by decide +kernel)) h

theorem validUtf8_notice {id : Bytes} (h : ValidUtf8 id) : ValidUtf8 (notice id) :=
  ValidUtf8.append (validUtf8_of_ascii (by decide +kernel)) h

/-- The id of a session that has been registered is ASCII. -/
theorem Heard.validUtf8 {p : Ptr} {x : Entry} (h : Heard env es w p x) (hj : x.joined ≠ none) :
    ValidUtf8 x.connectionId := by
  obtain ⟨hn, -⟩ | ⟨-, es₁, time, es₂, w₁, rest, -, -, hid, -⟩ := h
  · exact absurd hn hj
  · rw [hid]
    exact validUtf8_generate env 16 time

/-- Every broadcast is clean. -/
theorem history_clean (hr : (server env).Runs es w) (ht : TextChecked es) :
    ∀ b ∈ w.history, Clean es b.message := by
  refine Sys.Runs.induct (P := fun es w => TextChecked es → ∀ b ∈ w.history, Clean es b.message)
    ?_ ?_ hr ht
  · intro _ b hb
    cases hb
  · intro es w e w' hr ih hn ht b hb
    have hold : ∀ b ∈ w.history, Clean (es ++ [e]) b.message := fun b hb =>
      (ih (fun s bytes hm => ht s bytes (List.mem_append_left _ hm)) b hb).append _
    have hturn := (reach_inv hr.reach).step_turn hn
    have hlast : b ∈ w.history ∨ w'.history = w.history ++ [b] := by
      rcases hturn.history with hh | ⟨b', hh⟩
      · exact .inl (hh ▸ hb)
      · rw [hh, List.mem_append, List.mem_singleton] at hb
        apply hb.imp_right
        intro hb
        rw [hh, hb]
    rcases hlast with hb | hb
    · exact hold b hb
    · cases hturn with
      | opened fresh sessions history ledger => simp [history] at hb
      | joined was sessions history ledger => simp [history] at hb
      | @said s text bytes _ x was live sessions history ledger =>
        obtain rfl : _ = b := by simpa [history] using hb
        cases text with
        | true => exact .inl (ht s bytes (by simp))
        | false =>
          by_cases hv : ValidUtf8 bytes
          · exact .inl hv
          · exact .inr ⟨s, by simp, hv⟩
      | left quiet was live sessions history ledger =>
        obtain rfl : _ = b := by simpa [history] using hb
        exact .inl (validUtf8_notice ((heard hr was).validUtf8 live.1))
      | dropped quiet was sessions history ledger => simp [history] at hb
      | stays quiet sessions history ledger => simp [history] at hb

/-- Every message for a session is clean. -/
theorem sent_clean (hr : (server env).Runs es w) (ht : TextChecked es) {s : Ptr} {x : Entry}
    (hx : w.ledger s = some x) : ∀ ss ∈ x.sent, Clean es ss.str := by
  intro ss hss
  rcases heard hr hx with ⟨-, hs, -⟩ | ⟨hj, es₁, time, es₂, w₁, rest, -, -, -, hs, -, hsub⟩
  · rw [hs] at hss
    cases hss
  · rw [hs, List.mem_cons] at hss
    rcases hss with rfl | hss
    · exact .inl (validUtf8_greeting ((heard hr hx).validUtf8 hj))
    · have hb := (List.drop_sublist _ _).subset (hsub.subset hss)
      obtain ⟨i, hi, rfl⟩ := List.mem_mapIdx.mp hb
      exact history_clean hr ht _ (List.getElem_mem hi)

end Server

open Server in
/-- **Every text frame** that a session hands to `async_write` is well-formed UTF-8, or it is, byte
by byte, an ill-formed binary message that was read. -/
theorem textFrames {env : Env} {es : List Server.Event} {w : Server}
    (hr : (server env).Runs es w) (ht : TextChecked es) :
    ∀ s o frame, w.session s = some o → frame ∈ o.started → frame.text = true →
      ValidUtf8 frame.payload.str ∨
      ∃ p, .read p none false frame.payload.str ∈ es ∧ ¬ValidUtf8 frame.payload.str := by
  intro s o frame ho hf _
  have hp := ((reach_inv hr.reach).objects s o ho).pump
  have hm : frame.payload ∈ o.written ++ o.queue.take 1 := by
    rw [← hp.started]
    exact List.mem_map_of_mem hf
  apply sent_clean hr ht (ledger_eq ho) frame.payload
  show frame.payload ∈ o.sent
  rw [hp.sent]
  exact (List.prefix_append_right_inj _ |>.mpr (List.take_prefix _ _)).subset hm

/-- A client sends the binary message `FF`. -/
def binary : List Server.Event :=
  [.upgrade 1 {} 0, .accept 1 none 0,
    .write 1 ⟨true, ⟨greeting (generateRandomString plainEnv 16 0), none⟩⟩ none,
    .read 1 none false [0xFF]]

theorem textFrames_relayed : ∃ w, (server plainEnv).Runs binary w ∧
    ∀ s o frame, w.session s = some o → frame ∈ o.started → frame.text = true →
      ValidUtf8 frame.payload.str ∨
      ∃ p, .read p none false frame.payload.str ∈ binary ∧ ¬ValidUtf8 frame.payload.str := by
  have hr : (server plainEnv).Runs binary _ := rfl
  exact ⟨_, hr, textFrames hr (by simp [Server.TextChecked, binary])⟩

/-- The message is passed on as an ill-formed text frame. -/
theorem textFrames_binary : ¬ ∀ (env : Env) (es : List Server.Event) (w : Server),
    (server env).Runs es w → Server.TextChecked es → ∀ s o frame, w.session s = some o →
      frame ∈ o.started → frame.text = true → ValidUtf8 frame.payload.str := by
  intro h
  have hr : (server plainEnv).Runs binary _ := rfl
  have hv := h plainEnv binary _ hr (by simp [Server.TextChecked, binary]) 1 _
    ⟨true, ⟨[0xFF], some 0⟩⟩ rfl (by decide) rfl
  exact not_validUtf8_cons (by decide) hv

end ChatServer
