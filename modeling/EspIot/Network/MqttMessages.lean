/-
# `EspIot.Network.MqttMessages` — a message and the chunks it comes in

The client library reports a long payload in several consecutive calls of
`_on_message`, each with its offset and the total.  `_on_message` looks at
neither: it finds the registered topic behind the prefix (`strip_append`) and
hands every chunk on as a message of its own.  So each call counts one
invocation or one `parse` (`onChunks_calls`), and a message is dispatched whole
and once iff it comes in one chunk (`dispatched_iff`).
-/
import EspIot.Network.Mqtt

namespace EspIot

namespace MqttEffect

variable {P C : Type*}

/-- The server hands a payload to a command or to a parameter. -/
def isCall : MqttEffect P C → Bool
  | invoke _ _ => true
  | parse _ _ => true
  | _ => false

end MqttEffect

namespace MqttServer

variable {P C : Type*} [DecidableEq P] (topics : MqttTopics P C) (param : P → AbstractParameter)

/-- The payload that the chunks make up, reported from offset `index` on. -/
def onChunks (topic : CString) (total : ℕ) :
    ℕ → List (List UInt8) → MqttServer P C → MqttServer P C
  | _, [], s => s
  | index, chunk :: chunks, s =>
      onChunks topic total (index + chunk.length) chunks
        (s.onMessage topics param topic chunk index total)

/-- A message with this payload on the registered topic `t` has led from `s` to `s'`, whole and
once: its command was invoked with the payload; or its parameter has parsed it, told the bus and
been published; or the parameter has refused it. -/
inductive Dispatched (t : CString) (payload : List UInt8) (s s' : MqttServer P C) : Prop
  | invoked (command : C) (ht : topics.commands.lookup t = some command)
      (heffects : s'.effects = s.effects ++ [.invoke command payload])
  | published (topicOut : CString) (p : P) (v : List UInt8) (hc : topics.commands.lookup t = none)
      (ht : topics.parameters.lookup t = some (topicOut, p))
      (hparse : (param p).parse payload (s.value p) = some v) (hvalue : s'.value p = v)
      (heffects : s'.effects = s.effects ++ [.parse p payload, .notifyBus p,
        .publish (topics.topicPrefix.append topicOut) ((param p).toString v)])
  | refused (topicOut : CString) (p : P) (hc : topics.commands.lookup t = none)
      (ht : topics.parameters.lookup t = some (topicOut, p))
      (hparse : (param p).parse payload (s.value p) = none)
      (heffects : s'.effects = s.effects ++ [.parse p payload])

/-- A parameter on topic `t` that accepts the payload can be published. -/
def Publishable (t : CString) (payload : List UInt8) (s : MqttServer P C) : Prop :=
  ∀ topicOut p v, topics.commands.lookup t = none →
    topics.parameters.lookup t = some (topicOut, p) →
    (param p).parse payload (s.value p) = some v → s.state = .connected

/-- The topic is one that `register_command` or `register_parameter` was given. -/
def Registered (t : CString) : Prop := t ∈ topics.commands ∨ t ∈ topics.parameters

variable {topics param}

/-! ## How often a payload is handed on -/

omit [DecidableEq P] in
theorem Dispatched.calls {t : CString} {payload : List UInt8} {s s' : MqttServer P C}
    (h : Dispatched topics param t payload s s') :
    s'.effects.countP MqttEffect.isCall = s.effects.countP MqttEffect.isCall + 1 := by
  cases h with
  | invoked command ht heffects => simp [heffects, MqttEffect.isCall]
  | published topicOut p v hc ht hparse hvalue heffects =>
      simp [heffects, List.countP_cons, MqttEffect.isCall]
  | refused topicOut p hc ht hparse heffects => simp [heffects, MqttEffect.isCall]

theorem processMessage_calls {t : CString} (ht : Registered topics t) (payload : List UInt8)
    (s : MqttServer P C) :
    (s.processMessage topics param t payload).effects.countP MqttEffect.isCall =
      s.effects.countP MqttEffect.isCall + 1 := by
  rw [processMessage]
  split
  · simp [MqttEffect.isCall]
  · rename_i hc
    split
    · split
      · simp only [publish, List.append_assoc, List.countP_append]
        split <;> simp [List.countP_cons, MqttEffect.isCall]
      · simp [MqttEffect.isCall]
    · rename_i hp
      rcases ht with ht | ht
      · exact absurd ht (AList.lookup_eq_none.mp hc)
      · exact absurd ht (AList.lookup_eq_none.mp hp)

theorem onChunks_calls {t : CString} (ht : Registered topics t) (total : ℕ)
    (chunks : List (List UInt8)) :
    ∀ (index : ℕ) (s : MqttServer P C),
      (s.onChunks topics param (topics.topicPrefix.append t) total index chunks).effects.countP
        MqttEffect.isCall = s.effects.countP MqttEffect.isCall + chunks.length := by
  induction chunks with
  | nil => exact fun _ _ => rfl
  | cons chunk chunks ih =>
      intro index s
      rw [onChunks, ih, onMessage, CString.strip_append, processMessage_calls ht,
        List.length_cons]
      omega

/-! ## One chunk -/

theorem processMessage_dispatched {t : CString} (ht : Registered topics t) (payload : List UInt8)
    (s : MqttServer P C) :
    Dispatched topics param t payload s (s.processMessage topics param t payload) ↔
      Publishable topics param t payload s := by
  rw [processMessage]
  cases hc : topics.commands.lookup t with
  | some command =>
      refine iff_of_true (.invoked command hc rfl) ?_
      intro _ _ _ hnone
      rw [hc] at hnone
      cases hnone
  | none =>
      cases hp : topics.parameters.lookup t with
      | none =>
          rcases ht with ht | ht
          · exact absurd ht (AList.lookup_eq_none.mp hc)
          · exact absurd ht (AList.lookup_eq_none.mp hp)
      | some target =>
          obtain ⟨topicOut, p⟩ := target
          dsimp only
          cases hparse : (param p).parse payload (s.value p) with
          | none =>
              refine iff_of_true (.refused topicOut p hc hp hparse rfl) ?_
              intro out q v _ hq hv
              rw [hp] at hq
              cases hq
              rw [hparse] at hv
              cases hv
          | some v =>
              dsimp only
              constructor
              · intro h out q w _ _ _
                by_contra hstate
                -- the log ends with what was skipped, and no case of `Dispatched` does
                cases h with
                | invoked command ht' _ => simp [hc] at ht'
                | refused out' q' _ ht' hparse' _ =>
                    rw [hp] at ht'
                    cases ht'
                    rw [hparse] at hparse'
                    cases hparse'
                | published out' q' w' _ _ _ _ heffects =>
                    simp [publish, hstate] at heffects
              · intro h
                have hstate := h topicOut p v hc hp hparse
                refine .published topicOut p v hc hp hparse ?_ ?_
                · simp [publish]
                · simp [publish, hstate]

variable (topics param) in
/-- **A message on a subscribed topic is dispatched whole and once iff the client library reports
it in a single chunk**, and a parameter that accepts it can be published. -/
theorem dispatched_iff {t : CString} (ht : Registered topics t) (chunks : List (List UInt8))
    (hne : chunks ≠ []) (s : MqttServer P C) :
    Dispatched topics param t chunks.flatten s
        (s.onChunks topics param (topics.topicPrefix.append t) chunks.flatten.length 0 chunks) ↔
      chunks.length = 1 ∧ Publishable topics param t chunks.flatten s := by
  constructor
  · intro h
    have hone : chunks.length = 1 := by
      have hcalls := h.calls
      rw [onChunks_calls ht] at hcalls
      omega
    obtain ⟨chunk, rfl⟩ := List.length_eq_one_iff.mp hone
    refine ⟨rfl, ?_⟩
    simp only [onChunks, onMessage, CString.strip_append, List.flatten_singleton] at h ⊢
    exact (processMessage_dispatched ht chunk s).mp h
  · rintro ⟨hone, h⟩
    obtain ⟨chunk, rfl⟩ := List.length_eq_one_iff.mp hone
    simp only [onChunks, onMessage, CString.strip_append, List.flatten_singleton] at h ⊢
    exact (processMessage_dispatched ht chunk s).mpr h

/-- A server with the prefix `"d"` and one command on the topic `"c"`. -/
def oneCommand : MqttTopics Unit Unit :=
  MqttTopics.setup ⟨[0x64], by decide⟩ [.command ⟨[0x63], by decide⟩ ()]

theorem dispatched_iff_whole :
    Dispatched oneCommand (fun _ => ComplexParameter 1) ⟨[0x63], by decide⟩ [1, 2]
        ({ state := .connected, value := fun _ => [] } : MqttServer Unit Unit)
        (onChunks oneCommand (fun _ => ComplexParameter 1) ⟨[0x64, 0x63], by decide⟩ 2 0 [[1, 2]]
          { state := .connected, value := fun _ => [] }) ↔
      [[1, 2]].length = 1 ∧ Publishable oneCommand (fun _ => ComplexParameter 1)
        ⟨[0x63], by decide⟩ [1, 2] ({ state := .connected, value := fun _ => [] } :
          MqttServer Unit Unit) :=
  dispatched_iff oneCommand (fun _ => ComplexParameter 1) (t := ⟨[0x63], by decide⟩)
    (.inl (by decide)) [[1, 2]] (by decide) { state := .connected, value := fun _ => [] }

/-- The same two bytes in two chunks: the command runs twice, on one byte each. -/
theorem chunks_invoke_twice :
    (onChunks oneCommand (fun _ => ComplexParameter 1) ⟨[0x64, 0x63], by decide⟩ 2 0 [[1], [2]]
        ({ state := .connected, value := fun _ => [] } : MqttServer Unit Unit)).effects =
      [.invoke () [1], .invoke () [2]] ∧
    ¬ Dispatched oneCommand (fun _ => ComplexParameter 1) ⟨[0x63], by decide⟩ [1, 2]
        ({ state := .connected, value := fun _ => [] } : MqttServer Unit Unit)
        (onChunks oneCommand (fun _ => ComplexParameter 1) ⟨[0x64, 0x63], by decide⟩ 2 0
          [[1], [2]] { state := .connected, value := fun _ => [] }) := by
  refine ⟨by decide, ?_⟩
  intro h
  have hcalls := h.calls
  revert hcalls
  decide

end MqttServer

end EspIot
