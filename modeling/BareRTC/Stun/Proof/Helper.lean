import BareRTC.Stun.Helper

/-!
# Helpers are never removed

A request over a socket of the caller leaves a helper on it for good: the list of helpers is what it
was only in runs without such a request (`helpers_kept_iff`), and grows by one with each of them.
-/

namespace BareRTC.Stun

variable {h : Hash} {w : World} {ev : WorldEvent}

def Registers (w : World) : WorldEvent → Prop
  | .event i (.request r) mem => (w.inst i).isSome ∧ r.registers ∧ mem
  | _ => False

variable {i : Nat}

theorem register_false : register w i false = w := rfl

theorem length_register : (register w i true).helpers.length = w.helpers.length + 1 := by
  show (listSort _ (w.helpers ++ [_])).length = _
  rw [(listSort_perm _).length_eq, List.length_append, List.length_singleton]

theorem helpers_event (ev : Event) (mem : Bool) : (worldStep h w (.event i ev mem)).1.helpers =
    if (w.inst i).isSome then (registerFor w i mem ev).helpers else w.helpers := by
  cases hst : w.inst i with
  | none | some =>
    simp only [worldStep, hst]
    rfl

theorem length_helpers_of_registers (hreg : Registers w ev) :
    (worldStep h w ev).1.helpers.length = w.helpers.length + 1 := by
  cases ev with
  | event i ev mem =>
    cases ev with
    | request r =>
      obtain ⟨hinst, hr, rfl⟩ := hreg
      rw [helpers_event, if_pos hinst, registerFor, if_pos hr]
      exact length_register
    | _ => exact hreg.elim
  | _ => exact hreg.elim

theorem helpers_of_not_registers (hreg : ¬ Registers w ev) : (worldStep h w ev).1.helpers = w.helpers := by
  cases ev with
  | alloc | free => rfl
  | event i ev mem =>
    rw [helpers_event]
    split
    case isFalse => rfl
    case isTrue hinst =>
      cases ev with
      | request r =>
        rw [registerFor]
        split
        case isTrue hr =>
          have hmem : mem = false := by
            by_contra hmem
            exact hreg ⟨hinst, hr, by simpa using hmem⟩
          rw [hmem, register_false]
        case isFalse => rfl
      | _ => rfl

theorem length_helpers_le : w.helpers.length ≤ (worldStep h w ev).1.helpers.length := by
  by_cases hreg : Registers w ev
  · rw [length_helpers_of_registers hreg]
    omega
  · rw [helpers_of_not_registers hreg]

theorem length_helpers_run (h : Hash) : ∀ (evs : List WorldEvent) (w : World),
    w.helpers.length ≤ (exec (worldStep h) w evs).helpers.length
  | [], _ => le_refl _
  | _ :: evs, _ => (length_helpers_le).trans (length_helpers_run h evs _)

theorem helpers_run_iff : ∀ (evs : List WorldEvent) (w : World),
    (exec (worldStep h) w evs).helpers = w.helpers ↔ Along (worldStep h) (fun w ev => ¬ Registers w ev) w evs
  | [], _ => iff_of_true rfl trivial
  | ev :: evs, w => by
    rw [exec_cons, Along]
    by_cases hreg : Registers w ev
    · refine iff_of_false (fun heq => ?_) (fun ha => ha.1 hreg)
      have hle := length_helpers_run h evs (worldStep h w ev).1
      have hlen := length_helpers_of_registers (h := h) hreg
      rw [heq] at hle
      omega
    · rw [← helpers_of_not_registers (h := h) hreg, helpers_run_iff evs]
      simp [hreg]

/-- **Helpers of a socket.** In the state after any run the socket has the helpers it had before,
all for STUN instances that exist, exactly if no request over the socket was made on the way. -/
theorem helpers_kept_iff (h : Hash) (helpers : UdpSock HelperArg) (hother : ∀ uh ∈ helpers, ∃ n, uh.kind = .other n)
    (evs : List WorldEvent) :
    ((exec (worldStep h) { helpers } evs).helpers = helpers ∧
      ∀ uh ∈ (exec (worldStep h) { helpers } evs).helpers, ∀ i, uh.kind = .stun i →
        ((exec (worldStep h) { helpers } evs).inst i).isSome) ↔
      Along (worldStep h) (fun w ev => ¬ Registers w ev) { helpers } evs := by
  rw [← helpers_run_iff]
  refine ⟨fun h => h.1, fun hkept => ⟨hkept, fun uh huh i hi => ?_⟩⟩
  rw [hkept] at huh
  obtain ⟨n, hn⟩ := hother uh huh
  rw [hn] at hi
  cases hi

def binding : Request := ⟨.udp, true, true, [1, 2, 3, 4, 5, 6, 7, 8, 9, 10, 11, 12], 1, none, true, true, true, none, none⟩

def bindingResponse : Mbuf := ⟨[1, 1, 0, 0, 0x21, 0x12, 0xa4, 0x42, 1, 2, 3, 4, 5, 6, 7, 8, 9, 10, 11, 12], 0, 20⟩

def bindingRun : List WorldEvent :=
  [.alloc .default, .event 0 (.request binding) true, .event 0 (.recv bindingResponse) true, .free 0]

theorem helpers_kept_iff_binding :
    ((exec (worldStep noHash) { helpers := [] } bindingRun).helpers = [] ∧
      ∀ uh ∈ (exec (worldStep noHash) { helpers := [] } bindingRun).helpers, ∀ i, uh.kind = .stun i →
        ((exec (worldStep noHash) { helpers := [] } bindingRun).inst i).isSome) ↔
      Along (worldStep noHash) (fun w ev => ¬ Registers w ev) { helpers := [] } bindingRun :=
  helpers_kept_iff noHash [] nofun bindingRun

/-- After the response there is no transaction, but the helper is still there; and it is there after
the instance is gone. -/
theorem helper_left :
    (exec (worldStep noHash) { helpers := [] } (bindingRun.take 3)).Idle ∧
    (exec (worldStep noHash) { helpers := [] } (bindingRun.take 3)).helpers = [⟨5, .stun 0⟩] ∧
    (exec (worldStep noHash) { helpers := [] } bindingRun).helpers = [⟨5, .stun 0⟩] ∧
    (exec (worldStep noHash) { helpers := [] } bindingRun).inst 0 = none := by
  refine ⟨?_, ?_, ?_, ?_⟩
  · decide +kernel
  · decide +kernel
  · decide +kernel
  · decide +kernel

end BareRTC.Stun
