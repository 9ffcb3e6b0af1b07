import BareRTC.Re.Telev

/-!
# The events in the packets

An `EVENT_END` that is read in `IDLE` is sent as an event. There is none if every release is for a
press that waits for its end.
-/

namespace BareRTC.Telev

open List

def reads (waits : Bool) (b : UInt8) : Option Bool :=
  if b ≠ EVENT_END then some true else if waits then some false else none

def Tel.waits (tel : Tel) : Option Bool := tel.queue.foldlM reads (tel.state = .SENDING)

def Paired (tel : Tel) : Event → Prop
  | .send _ true _ => tel.waits = some true
  | _ => True

structure Inv (P : UInt8 → Prop) (tel : Tel) : Prop where
  waits : tel.waits.isSome
  bytes : ∀ b ∈ tel.queue, b = EVENT_END ∨ P b
  event : tel.state ≠ .IDLE → P tel.event

variable {P : UInt8 → Prop} {tel : Tel}

theorem Inv.send (h : Inv P tel) {event : UInt8} {done mem : Bool} (hok : Paired tel (.send event done mem))
    (hcode : event ≠ EVENT_END) (hP : done = false → P event) : Inv P (televSend tel event done mem).2 := by
  unfold televSend
  split
  · exact h
  split
  · obtain ⟨w, hw⟩ := Option.isSome_iff_exists.1 h.waits
    refine ⟨?_, forall_mem_append.2 ⟨h.bytes, forall_mem_singleton.2 ?_⟩, h.event⟩
    · unfold Paired Tel.waits at *
      simp only [foldlM_append, hw]
      cases done <;> simp_all [reads]
    cases done
    · exact .inr (hP rfl)
    · exact .inl rfl
  · exact h

theorem payloadEncode_head {mem done : Bool} {event : UInt8} {dur : UInt16} {p : Bytes}
    (h : (payloadEncode mem event done dur).toOption = some p) : p.head? = some event := by
  unfold payloadEncode at h
  split at h <;> cases h
  rfl

theorem Inv.poll (h : Inv P tel) {mem : Bool} :
    Inv P (televPoll tel mem).1 ∧ ∀ p ∈ (televPoll tel mem).2.2.toOption, ∃ event, P event ∧ p.head? = some event := by
  obtain ⟨hw, hbytes, hevent⟩ := h
  unfold Tel.waits at hw
  unfold televPoll
  split
  · exact ⟨⟨hw, hbytes, hevent⟩, nofun⟩
  · rename_i event queue hs hq
    rw [hs, hq] at hw
    rw [hq] at hbytes
    obtain ⟨hb, hbytes⟩ := forall_mem_cons.1 hbytes
    have hne : event ≠ EVENT_END := by
      rintro rfl
      simp [reads] at hw
    have he := hb.resolve_left hne
    refine ⟨⟨?_, hbytes, fun _ => he⟩, fun p hp => ⟨_, he, payloadEncode_head hp⟩⟩
    simpa [Tel.waits, reads, hne] using hw
  · rename_i hs
    have he := hevent (by simp [hs])
    refine ⟨?_, fun p hp => ⟨_, he, payloadEncode_head hp⟩⟩
    dsimp only
    split
    · exact ⟨hw, hbytes, hevent⟩
    -- what ends the event is read, or left for the next one
    rw [hs] at hw
    split
    · refine ⟨?_, hbytes, fun _ => he⟩
      cases hq : tel.queue <;> simp_all [Tel.waits, reads]
    · refine ⟨?_, fun b hb => hbytes b (mem_of_mem_tail hb), fun _ => he⟩
      cases hq : tel.queue <;> simp_all [Tel.waits, reads]
  · rename_i hs
    have he := hevent (by simp [hs])
    refine ⟨?_, fun p hp => ⟨_, he, payloadEncode_head hp⟩⟩
    rw [hs] at hw
    dsimp only
    split
    · exact ⟨by simpa [Tel.waits, hs] using hw, hbytes, fun _ => he⟩
    · exact ⟨hw, hbytes, nofun⟩

def Pressed (evs : List Event) (tel : Tel) (ev : Event) : Prop :=
  ∀ p ∈ (step tel ev).2, ∃ event, (∃ mem, .send event false mem ∈ evs) ∧ p.head? = some event

/-- **Packets carry events that were pressed** in every run in which a release is passed only for a
press that waits for its end. -/
theorem packets_pressed (pdur : UInt16) (evs : List Event)
    (hcode : ∀ event done mem, .send event done mem ∈ evs → event ≤ 15) (hok : Along step Paired { pdur } evs) :
    Along step (Pressed evs) { pdur } evs := by
  have h0 : Inv (fun event => ∃ mem, .send event false mem ∈ evs) { pdur } := ⟨rfl, nofun, nofun⟩
  have hmem : Along step (fun _ ev => ev ∈ evs) { pdur } evs := along_of_forall evs (fun _ hev _ => hev) _
  refine along_of_inv ?_ ?_ evs _ h0 (along_and evs _ hok hmem)
  · rintro tel (⟨event, done, mem⟩ | mem) h ⟨hok, hev⟩
    · have hle := hcode event done mem hev
      refine h.send hok ?_ fun hd => ⟨mem, hd ▸ hev⟩
      rintro rfl
      exact absurd hle (by decide)
    · exact (h.poll).1
  · rintro tel (_ | mem) h -
    · nofun
    · exact (h.poll).2

def oneKey : List Event := [.send 1 false true, .send 1 true true, .poll true]

theorem packets_pressed_oneKey : Along step (Pressed oneKey) { pdur := 160 } oneKey :=
  packets_pressed 160 oneKey (by simp +contextual [oneKey]) ⟨trivial, rfl, trivial, trivial⟩

def twoKeys : List Event :=
  [.send 1 false true, .send 2 false true, .send 1 true true, .send 2 true true] ++ List.replicate 25 (.poll true)

theorem release_sent : some [0xff, 10, 0, 160] ∈ outs step { pdur := 160 } twoKeys ∧
    ∀ mem, .send 0xff false mem ∉ twoKeys := by
  decide +kernel

end BareRTC.Telev
