/-
# `EspIot.Network.MqttNumbers` — texts that are no number of the parameter

`Parameter<T>::parse` answers `false` for the empty text only.  For any other text `toInt` has an
answer: the longest numeral at its front, 0 where there is none, and what is too large for a
`long` or for T is cut down.  So a message with such a payload changes the parameter, and
`_process_message` tells the bus and publishes what it has become:

    ""        refused
    "abc"     0
    "12abc"   12
    "300"     44, in a uint8_t
-/
import EspIot.Base.Integers
import EspIot.Network.Mqtt

namespace EspIot

open Lib

/-- The text is no numeral of a value of the type. -/
def IntegralType.Unusable (T : IntegralType) (text : List UInt8) : Prop :=
  ¬ ∃ z, Numeral text z ∧ T.InRange z

theorem IntegralType.parse_eq_none_iff (T : IntegralType) (text storage : List UInt8) :
    T.parameter.parse text storage = none ↔ text = [] := by
  constructor
  · intro hnone
    by_contra hne
    rw [T.parse_parameter hne] at hnone
    cases hnone
  · rintro rfl
    rfl

namespace MqttServer

variable {P C : Type*} [DecidableEq P] {topics : MqttTopics P C} {param : P → AbstractParameter}

/-- A message for the parameter `p` has led from `s` to `s'`, and the text was refused: no value
has changed, and nothing was done but to parse it. -/
def Refuses (p : P) (text : List UInt8) (s s' : MqttServer P C) : Prop :=
  s'.value = s.value ∧ s'.effects = s.effects ++ [.parse p text]

/-- A message on the topic of a parameter is refused exactly if the parameter refuses it. -/
theorem refuses_iff_parse {t topicOut : CString} {p : P} (hc : topics.commands.lookup t = none)
    (hp : topics.parameters.lookup t = some (topicOut, p)) (text : List UInt8)
    (s : MqttServer P C) :
    Refuses p text s (s.processMessage topics param t text) ↔
      (param p).parse text (s.value p) = none := by
  rw [Refuses, processMessage, hc, hp]
  dsimp only
  cases hparse : (param p).parse text (s.value p) with
  | none => simp
  | some v =>
      refine iff_of_false ?_ (fun h => by cases h)
      rintro ⟨-, heffects⟩
      -- the bus has been told, too
      have hlen := congrArg List.length heffects
      simp [publish] at hlen

/-- **A text that is no number of its type is refused by an integer parameter exactly when it is
empty**, and so is a message that carries it. -/
theorem refuses_unusable_iff {t topicOut : CString} {p : P} {T : IntegralType}
    (hc : topics.commands.lookup t = none)
    (hp : topics.parameters.lookup t = some (topicOut, p)) (hT : param p = T.parameter)
    (text : List UInt8) :
    (∀ storage, (T.Unusable text → T.parameter.parse text storage = none) ↔
      (T.Unusable text → text = [])) ∧
    ∀ s : MqttServer P C,
      (T.Unusable text → Refuses p text s (s.onMessage topics param (topics.topicPrefix.append t)
        text 0 text.length)) ↔ (T.Unusable text → text = []) := by
  constructor
  · intro storage
    rw [T.parse_eq_none_iff]
  · intro s
    rw [onMessage, CString.strip_append, refuses_iff_parse hc hp, hT, T.parse_eq_none_iff]

/-- A server with the prefix `"e"` and one parameter, from the topic `"n"` to the topic `"v"`. -/
def numberTopics : MqttTopics Unit Unit :=
  MqttTopics.setup ⟨[0x65], by decide⟩
    [.parameter ⟨[0x6e], by decide⟩ ⟨[0x76], by decide⟩ ()]

/-- That parameter is a `uint32_t`. -/
def numberParameter : Unit → AbstractParameter := fun _ => IntegralType.uint32.parameter

/-- The server takes the text `"abc"` where the parameter is 5. -/
theorem refuses_unusable_iff_letters :
    (IntegralType.uint32.Unusable [0x61, 0x62, 0x63] →
        IntegralType.uint32.parameter.parse [0x61, 0x62, 0x63] [5, 0, 0, 0] = none) ↔
      (IntegralType.uint32.Unusable [0x61, 0x62, 0x63] → [(0x61 : UInt8), 0x62, 0x63] = []) :=
  have hcommand : numberTopics.commands.lookup ⟨[0x6e], by decide⟩ = none := by decide
  have hparameter : numberTopics.parameters.lookup ⟨[0x6e], by decide⟩ =
      some (⟨[0x76], by decide⟩, ()) := by decide
  have hT : numberParameter () = IntegralType.uint32.parameter := rfl
  (refuses_unusable_iff hcommand hparameter hT [0x61, 0x62, 0x63]).1 [5, 0, 0, 0]

/-- `"abc"` makes 0 of a 5, which is told and published. -/
theorem letters_published :
    IntegralType.uint32.Unusable [0x61, 0x62, 0x63] ∧
    let s : MqttServer Unit Unit := { state := .connected, value := fun _ => [5, 0, 0, 0] }
    let s' := s.onMessage numberTopics numberParameter ⟨[0x65, 0x6e], by decide⟩
      [0x61, 0x62, 0x63] 0 3
    s'.value () = [0, 0, 0, 0] ∧
      s'.effects = [.parse () [0x61, 0x62, 0x63], .notifyBus (),
        .publish ⟨[0x65, 0x76], by decide⟩ [0x30]] := by
  constructor
  · rintro ⟨z, hnumeral, -⟩
    generalize htext : [(0x61 : UInt8), 0x62, 0x63] = text at hnumeral
    cases hnumeral with
    | plain hne hdigits =>
        subst htext
        exact absurd (hdigits 0x61 List.mem_cons_self) (by decide)
    | plus hne hdigits => exact absurd (List.cons.inj htext).1 (by decide)
    | minus hne hdigits => exact absurd (List.cons.inj htext).1 (by decide)
  · exact ⟨by decide, by decide⟩

end MqttServer

end EspIot
