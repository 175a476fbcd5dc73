/-
# `EspIot.Network.AsyncNowRuns` — when results keep to their packets

`register_peer` and `send` come to one of three ends, and what each leaves is said once
(`registerPeer_cases`, `send_cases`).  The promises of packets in flight, abandoned and reported are
a `Ledger`, kept whatever the queues hold; a queue that is that of its packets has the right promise
in front.
-/
import EspIot.Network.AsyncNow

namespace EspIot

open Lib

namespace AsyncEspNow

variable {esp : EspNowDriver}

/-! ## Promises -/

section
variable {promises : List (Promise Unit Empty)} {i j : Nat} {success : Bool}

theorem Pending.lt (h : Pending promises i) : i < promises.length := by
  obtain ⟨promise, hi, -⟩ := h
  exact (List.getElem?_eq_some_iff.mp hi).1

theorem SettledAs.lt (h : SettledAs promises i success) : i < promises.length := by
  obtain ⟨promise, hi, -⟩ := h
  exact (List.getElem?_eq_some_iff.mp hi).1

theorem Pending.append (h : Pending promises i) (promise : Promise Unit Empty) :
    Pending (promises ++ [promise]) i := by
  have hlt := h.lt
  obtain ⟨p, hi, hf⟩ := h
  exact ⟨p, by rw [List.getElem?_append_left hlt, hi], hf⟩

theorem SettledAs.append (h : SettledAs promises i success) (promise : Promise Unit Empty) :
    SettledAs (promises ++ [promise]) i success := by
  have hlt := h.lt
  obtain ⟨p, hi, hf⟩ := h
  exact ⟨p, by rw [List.getElem?_append_left hlt, hi], hf⟩

theorem Pending.ne (h : Pending promises i) (h' : SettledAs promises j success) : i ≠ j := by
  rintro rfl
  obtain ⟨p, hp, hf⟩ := h
  obtain ⟨p', hp', hf', -⟩ := h'
  rw [hp] at hp'
  cases hp'
  rw [hf] at hf'
  cases hf'

theorem Pending.modify (h : Pending promises i) (hne : i ≠ j)
    (f : Promise Unit Empty → Promise Unit Empty) : Pending (promises.modify j f) i := by
  obtain ⟨p, hi, hf⟩ := h
  exact ⟨p, by simp [Ne.symm hne, hi], hf⟩

theorem SettledAs.modify (h : SettledAs promises i success) (hne : i ≠ j)
    (f : Promise Unit Empty → Promise Unit Empty) :
    SettledAs (promises.modify j f) i success := by
  obtain ⟨p, hi, hf⟩ := h
  exact ⟨p, by simp [Ne.symm hne, hi], hf⟩

theorem Pending.settle (h : Pending promises i) (o : Outcome Unit) :
    SettledAs (promises.modify i fun promise => (promise.settle o).2) i o.ok := by
  obtain ⟨p, hi, hf⟩ := h
  refine ⟨(p.settle o).2, by simp [hi], ?_⟩
  rw [Promise.settle_unfinished o hf]
  exact ⟨rfl, rfl⟩

theorem pending_new (promises : List (Promise Unit Empty)) :
    Pending (promises ++ [({} : Promise Unit Empty)]) promises.length :=
  ⟨{}, by simp, rfl⟩

end

/-! ## The ledger -/

/-- The promises of the packets in flight, of those abandoned and of those reported, apart from
the queues. -/
structure Ledger (promises : List (Promise Unit Empty)) (flight gone : Mac → List SentPacket)
    (told : List (SentPacket × Bool)) : Prop where
  pending : ∀ mac, ∀ packet ∈ flight mac, Pending promises packet.promise
  abandoned : ∀ mac, ∀ packet ∈ gone mac, Pending promises packet.promise
  reported : ∀ x ∈ told, SettledAs promises x.1.promise x.2
  rejected : ∀ i < promises.length, (∀ mac, i ∉ (flight mac).map SentPacket.promise) →
    (∀ mac, i ∉ (gone mac).map SentPacket.promise) → (∀ x ∈ told, x.1.promise ≠ i) →
    SettledAs promises i false
  nodup : ∀ mac, ((flight mac).map SentPacket.promise).Nodup
  apart : ∀ mac mac', ∀ packet ∈ flight mac, ∀ packet' ∈ flight mac',
    packet.promise = packet'.promise → mac = mac'
  forgotten : ∀ mac mac', ∀ packet ∈ flight mac, ∀ packet' ∈ gone mac',
    packet.promise ≠ packet'.promise

namespace Ledger

variable {promises promises' : List (Promise Unit Empty)}
  {flight gone : Mac → List SentPacket} {told : List (SentPacket × Bool)}

theorem fail (h : Ledger promises flight gone told)
    (hlength : promises'.length = promises.length + 1)
    (hpending : ∀ i, Pending promises i → Pending promises' i)
    (hsettled : ∀ i success, SettledAs promises i success → SettledAs promises' i success)
    (hlast : SettledAs promises' promises.length false) :
    Ledger promises' flight gone told where
  pending mac packet hp := hpending _ (h.pending mac packet hp)
  abandoned mac packet hp := hpending _ (h.abandoned mac packet hp)
  reported x hx := hsettled _ _ (h.reported x hx)
  rejected i hi hflight hgone hreported := by
    rw [hlength] at hi
    rcases Nat.lt_succ_iff_lt_or_eq.mp hi with hi | rfl
    · exact hsettled _ _ (h.rejected i hi hflight hgone hreported)
    · exact hlast
  nodup := h.nodup
  apart := h.apart
  forgotten := h.forgotten

theorem mem_accept {mac mac' : Mac} {packet new : SentPacket} :
    packet ∈ Function.update flight mac (flight mac ++ [new]) mac' ↔
      packet ∈ flight mac' ∨ mac' = mac ∧ packet = new := by
  by_cases h : mac' = mac
  · simp [h]
  · simp [h]

theorem accept (h : Ledger promises flight gone told) (mac : Mac)
    (data : List UInt8) :
    Ledger (promises ++ [({} : Promise Unit Empty)])
      (Function.update flight mac (flight mac ++ [⟨data, promises.length⟩])) gone
      told := by
  have hlt (mac' : Mac) (packet : SentPacket) (hp : packet ∈ flight mac') :
      packet.promise < promises.length := (h.pending mac' packet hp).lt
  refine { pending := ?_, abandoned := ?_, reported := ?_, rejected := ?_, nodup := ?_,
           apart := ?_, forgotten := ?_ }
  · intro mac' packet hp
    rcases mem_accept.mp hp with hp | ⟨rfl, rfl⟩
    · exact (h.pending mac' packet hp).append _
    · exact pending_new _
  · intro mac' packet hp
    exact (h.abandoned mac' packet hp).append _
  · intro x hx
    exact (h.reported x hx).append _
  · intro i hi hflight hgone hreported
    have hne : i ≠ promises.length := by
      rintro rfl
      refine hflight mac (List.mem_map.mpr ⟨⟨data, promises.length⟩, ?_, rfl⟩)
      exact mem_accept.mpr (Or.inr ⟨rfl, rfl⟩)
    have hi' : i < promises.length := by
      rw [List.length_append, List.length_singleton] at hi
      omega
    refine (h.rejected i hi' (fun mac' hmem => hflight mac' ?_) hgone hreported).append _
    obtain ⟨packet, hp, rfl⟩ := List.mem_map.mp hmem
    exact List.mem_map_of_mem (mem_accept.mpr (Or.inl hp))
  · intro mac'
    by_cases heq : mac' = mac
    · have hnew : promises.length ∉ (flight mac).map SentPacket.promise := by
        intro hp
        obtain ⟨packet, hp, heq⟩ := List.mem_map.mp hp
        exact absurd (hlt mac packet hp) (by omega)
      subst heq
      simpa [List.nodup_append, h.nodup] using hnew
    · simpa [heq] using h.nodup mac'
  · intro mac₁ mac₂ packet₁ hp₁ packet₂ hp₂ heq
    rcases mem_accept.mp hp₁ with hold₁ | ⟨rfl, rfl⟩
    · rcases mem_accept.mp hp₂ with hold₂ | ⟨rfl, rfl⟩
      · exact h.apart mac₁ mac₂ packet₁ hold₁ packet₂ hold₂ heq
      · exact absurd (hlt _ _ hold₁) (heq ▸ lt_irrefl _)
    · rcases mem_accept.mp hp₂ with hold₂ | ⟨rfl, rfl⟩
      · exact absurd (hlt _ _ hold₂) (heq ▸ lt_irrefl _)
      · rfl
  · intro mac₁ mac₂ packet₁ hp₁ packet₂ hp₂ heq
    have hgone := (h.abandoned mac₂ packet₂ hp₂).lt
    rcases mem_accept.mp hp₁ with hold | ⟨rfl, rfl⟩
    · exact h.forgotten mac₁ mac₂ packet₁ hold packet₂ hp₂ heq
    · exact absurd hgone (heq ▸ lt_irrefl _)

theorem report (h : Ledger promises flight gone told) {mac : Mac}
    {packet : SentPacket} {rest : List SentPacket} (hflight : flight mac = packet :: rest)
    (o : Outcome Unit) :
    Ledger (promises.modify packet.promise fun promise => (promise.settle o).2)
      (Function.update flight mac rest) gone (told ++ [(packet, o.ok)]) := by
  have hmem : packet ∈ flight mac := by simp [hflight]
  have hpending := h.pending mac packet hmem
  have hnodup := h.nodup mac
  rw [hflight, List.map_cons, List.nodup_cons] at hnodup
  -- what is still in flight was in flight, under another promise
  have hrest (mac' : Mac) (p : SentPacket) (hp : p ∈ Function.update flight mac rest mac') :
      p ∈ flight mac' ∧ p.promise ≠ packet.promise := by
    by_cases heq : mac' = mac
    · subst heq
      rw [Function.update_self] at hp
      refine ⟨by simp [hflight, hp], fun hpp => hnodup.1 ?_⟩
      rw [← hpp]
      exact List.mem_map_of_mem hp
    · rw [Function.update_of_ne heq] at hp
      exact ⟨hp, fun hpp => heq (h.apart mac' mac p hp packet hmem hpp)⟩
  refine { pending := ?_, abandoned := ?_, reported := ?_, rejected := ?_, nodup := ?_,
           apart := ?_, forgotten := ?_ }
  · intro mac' p hp
    obtain ⟨hp, hne⟩ := hrest mac' p hp
    exact (h.pending mac' p hp).modify hne _
  · intro mac' p hp
    exact (h.abandoned mac' p hp).modify (h.forgotten mac mac' packet hmem p hp).symm _
  · intro x hx
    rcases List.mem_append.mp hx with hx | hx
    · exact (h.reported x hx).modify (hpending.ne (h.reported x hx)).symm _
    · rw [List.mem_singleton.mp hx]
      exact hpending.settle o
  · intro i hi hflight' hgone hreported
    have hi' : i < promises.length := by simpa using hi
    have hne : i ≠ packet.promise := fun heq =>
      hreported (packet, o.ok) (by simp) heq.symm
    refine (h.rejected i hi' ?_ hgone fun x hx => hreported x (by simp [hx])).modify hne _
    intro mac' hmem'
    refine hflight' mac' ?_
    obtain ⟨p, hp, rfl⟩ := List.mem_map.mp hmem'
    refine List.mem_map_of_mem ?_
    by_cases heq : mac' = mac
    · subst heq
      rw [hflight, List.mem_cons] at hp
      have hp := hp.resolve_left fun hpp => hne (by rw [hpp])
      simpa using hp
    · simpa [heq] using hp
  · intro mac'
    by_cases heq : mac' = mac
    · simpa [heq] using hnodup.2
    · simpa [heq] using h.nodup mac'
  · intro mac₁ mac₂ p₁ hp₁ p₂ hp₂ heq
    exact h.apart mac₁ mac₂ p₁ (hrest mac₁ p₁ hp₁).1 p₂ (hrest mac₂ p₂ hp₂).1 heq
  · intro mac₁ mac₂ p₁ hp₁ p₂ hp₂
    exact h.forgotten mac₁ mac₂ p₁ (hrest mac₁ p₁ hp₁).1 p₂ hp₂

theorem deinit (h : Ledger promises flight gone told) :
    Ledger promises (fun _ => []) (fun mac => gone mac ++ flight mac) told where
  pending _ _ hp := absurd hp List.not_mem_nil
  abandoned mac packet hp := by
    rcases List.mem_append.mp hp with hp | hp
    · exact h.abandoned mac packet hp
    · exact h.pending mac packet hp
  reported := h.reported
  rejected i hi _ hgone hreported := by
    refine h.rejected i hi (fun mac hmem => ?_) (fun mac hmem => ?_) hreported
    · exact hgone mac (by rw [List.map_append]; exact List.mem_append_right _ hmem)
    · exact hgone mac (by rw [List.map_append]; exact List.mem_append_left _ hmem)
  nodup _ := List.nodup_nil
  apart _ _ _ hp := absurd hp List.not_mem_nil
  forgotten _ _ _ hp := absurd hp List.not_mem_nil

end Ledger

/-! ## Calls -/

variable {s s' : AsyncEspNow esp} {mac : Mac} {ok : Bool}

theorem order_update (s : AsyncEspNow esp) (mac mac' : Mac) (queue : List Nat) :
    order { s with
      sendOrder := Function.update s.sendOrder (macToKey mac) (some queue) } mac' =
      if mac' = mac then queue else s.order mac' := by
  by_cases h : mac' = mac
  · simp [order, h]
  · simp [order, h, macToKey_injective.ne h]

theorem order_push (s : AsyncEspNow esp) (mac mac' : Mac) (promise : Nat) :
    (s.push (macToKey mac) promise).order mac' =
      if mac' = mac then s.order mac ++ [promise] else s.order mac' :=
  order_update ..

theorem order_pop (s : AsyncEspNow esp) (mac mac' : Mac) :
    (s.pop (macToKey mac)).order mac' = if mac' = mac then (s.order mac).tail else s.order mac' :=
  order_update ..

/-- `register_peer` comes to its end: the driver has a new peer. -/
def Registers (mac : Mac) (ok : Bool) (s : AsyncEspNow esp) : Prop :=
  s.initialized = true ∧ esp.isPeer s.driver mac = false ∧ ok = true

instance (mac : Mac) (ok : Bool) (s : AsyncEspNow esp) : Decidable (s.Registers mac ok) :=
  inferInstanceAs (Decidable (_ ∧ _))

/-- `register_peer` has nothing to do. -/
def Knows (mac : Mac) (s : AsyncEspNow esp) : Prop :=
  s.initialized = true ∧ esp.isPeer s.driver mac = true

/-- The state after `register_peer` has added a peer. -/
def registered (mac : Mac) (s : AsyncEspNow esp) : AsyncEspNow esp :=
  { s with
    driver := esp.addPeer mac true s.driver
    sendOrder := Function.update s.sendOrder (macToKey mac) (some []) }

/-- What `register_peer` does: it adds a peer, or the MAC is one, or it fails. -/
theorem registerPeer_cases (mac : Mac) (ok : Bool) (s : AsyncEspNow esp) :
    s.Registers mac ok ∧ s.registerPeer mac ok = (true, s.registered mac) ∨
      s.Knows mac ∧ s.registerPeer mac ok = (true, s) ∨
      ¬ s.Registers mac ok ∧ ¬ s.Knows mac ∧ ∃ d, esp.Unchanged s.driver d ∧
        s.registerPeer mac ok = (false, { s with driver := d }) := by
  rw [registerPeer]
  cases hinit : s.initialized with
  | false =>
      refine .inr (.inr ⟨?_, ?_, s.driver, esp.unchanged_refl _, ?_⟩)
      · exact fun h => absurd h.1 (by rw [hinit]; exact Bool.false_ne_true)
      · exact fun h => absurd h.1 (by rw [hinit]; exact Bool.false_ne_true)
      · rw [if_pos rfl, ← hinit]
  | true =>
      rw [if_neg (by simp)]
      cases hmac : esp.isPeer s.driver mac with
      | true => exact .inr (.inl ⟨⟨hinit, hmac⟩, rfl⟩)
      | false =>
          rw [if_neg (by simp)]
          cases ok with
          | true => exact .inl ⟨⟨hinit, hmac, rfl⟩, by rw [registered, hinit]; rfl⟩
          | false =>
              refine .inr (.inr ⟨?_, ?_, _, esp.unchanged_addPeer _ mac, rfl⟩)
              · exact fun h => absurd h.2.2 Bool.false_ne_true
              · exact fun h => absurd h.2 (by rw [hmac]; exact Bool.false_ne_true)

theorem isPeer_registered (s : AsyncEspNow esp) (mac mac' : Mac) :
    esp.isPeer (s.registered mac).driver mac' =
      (esp.isPeer s.driver mac' || decide (mac' = mac)) :=
  esp.isPeer_addPeer mac true s.driver mac'

theorem inFlight_registered (s : AsyncEspNow esp) (mac : Mac) :
    esp.inFlight (s.registered mac).driver = esp.inFlight s.driver :=
  esp.inFlight_addPeer mac true s.driver

theorem reported_registered (s : AsyncEspNow esp) (mac : Mac) :
    esp.reported (s.registered mac).driver = esp.reported s.driver :=
  esp.reported_addPeer mac true s.driver

theorem order_registered (s : AsyncEspNow esp) (mac mac' : Mac) :
    (s.registered mac).order mac' = if mac' = mac then [] else s.order mac' :=
  order_update _ mac mac' []

/-- `send` to a MAC that `register_peer` answers for, in the state it leaves. -/
def sendOn (mac : Mac) (data : List UInt8) (accept : Bool) (s : AsyncEspNow esp) :
    AsyncEspNow esp :=
  let t : AsyncEspNow esp :=
    { s.push (macToKey mac) s.promises.length with
      promises := s.promises ++ [({} : Promise Unit Empty)]
      driver := esp.send mac ⟨data, s.promises.length⟩ accept s.driver }
  if accept then t else (t.pop (macToKey mac)).settle s.promises.length .error

/-- What `send` does, as `register_peer` answers. -/
theorem send_cases (mac : Mac) (data : List UInt8) (addPeer accept : Bool)
    (s : AsyncEspNow esp) :
    s.Registers mac addPeer ∧
        (s.send mac data addPeer accept).2 = (s.registered mac).sendOn mac data accept ∨
      s.Knows mac ∧ (s.send mac data addPeer accept).2 = s.sendOn mac data accept ∨
      ¬ s.Registers mac addPeer ∧ ¬ s.Knows mac ∧ ∃ d, esp.Unchanged s.driver d ∧
        (s.send mac data addPeer accept).2 = (errored { s with driver := d }).2 := by
  rw [send]
  rcases registerPeer_cases mac addPeer s with ⟨hreg, heq⟩ | ⟨hknows, heq⟩ |
    ⟨hreg, hknows, d, hd, heq⟩
  · refine .inl ⟨hreg, ?_⟩
    rw [if_neg (by simp [hreg.1]), heq]
    cases accept <;> rfl
  · refine .inr (.inl ⟨hknows, ?_⟩)
    rw [if_neg (by simp [hknows.1]), heq]
    cases accept <;> rfl
  · by_cases hinit : s.initialized = false
    · refine .inr (.inr ⟨hreg, hknows, s.driver, esp.unchanged_refl _, ?_⟩)
      rw [if_pos hinit]
    · refine .inr (.inr ⟨hreg, hknows, d, hd, ?_⟩)
      rw [if_neg hinit, heq]

theorem order_sendOn (s : AsyncEspNow esp) (mac mac' : Mac) (data : List UInt8) (accept : Bool) :
    (s.sendOn mac data accept).order mac' =
      if mac' = mac then
        if accept then s.order mac ++ [s.promises.length]
        else (s.order mac ++ [s.promises.length]).tail
      else s.order mac' := by
  have hpush := order_push s mac mac' s.promises.length
  cases accept with
  | true => exact hpush
  | false =>
      refine (order_pop _ mac mac').trans ?_
      by_cases heq : mac' = mac
      · rw [if_pos heq, if_pos heq]
        exact congrArg List.tail ((order_push s mac mac _).trans (if_pos rfl))
      · rw [if_neg heq, if_neg heq]
        exact hpush.trans (if_neg heq)

theorem isPeer_sendOn (s : AsyncEspNow esp) (mac : Mac) (data : List UInt8) (accept : Bool) :
    esp.isPeer (s.sendOn mac data accept).driver = esp.isPeer s.driver := by
  cases accept <;> exact esp.isPeer_send ..

theorem inFlight_sendOn (s : AsyncEspNow esp) (mac : Mac) (data : List UInt8) (accept : Bool) :
    esp.inFlight (s.sendOn mac data accept).driver =
      if accept then
        Function.update (esp.inFlight s.driver) mac
          (esp.inFlight s.driver mac ++ [⟨data, s.promises.length⟩])
      else esp.inFlight s.driver := by
  cases accept <;> exact esp.inFlight_send ..

theorem reported_sendOn (s : AsyncEspNow esp) (mac : Mac) (data : List UInt8) (accept : Bool) :
    esp.reported (s.sendOn mac data accept).driver = esp.reported s.driver := by
  cases accept <;> exact esp.reported_send ..

/-- A send that the driver has not accepted: one more promise, failed, and all else the same. -/
structure Failed (s s' : AsyncEspNow esp) : Prop where
  driver : esp.Unchanged s.driver s'.driver
  order : ∀ mac, s'.order mac = s.order mac
  length : s'.promises.length = s.promises.length + 1
  pending : ∀ i, Pending s.promises i → Pending s'.promises i
  settled : ∀ i success, SettledAs s.promises i success → SettledAs s'.promises i success
  last : SettledAs s'.promises s.promises.length false

theorem failed_errored {d : esp.State} (hd : esp.Unchanged s.driver d) :
    Failed s (errored { s with driver := d }).2 where
  driver := hd
  order _ := rfl
  length := by simp [errored]
  pending _ hi := hi.append _
  settled _ _ hi := hi.append _
  last := ⟨(Promise.settle .error {}).2, by simp [errored], rfl, rfl⟩

/-- A packet is rejected and its queue was empty: the promise pushed is the one popped. -/
theorem failed_reject (hempty : s.order mac = []) (data : List UInt8) :
    Failed s (s.sendOn mac data false) where
  driver := esp.unchanged_send _ mac _
  order mac' := by
    rw [order_sendOn]
    by_cases heq : mac' = mac
    · rw [if_pos heq, heq, hempty]
      rfl
    · rw [if_neg heq]
  length := by simp [sendOn, AsyncEspNow.settle, pop]
  pending i hi := (hi.append _).modify (by have := hi.lt; omega) _
  settled i success hi := (hi.append _).modify (by have := hi.lt; omega) _
  last := (pending_new s.promises).settle .error

/-- A queue that is that of its packets has the promise of the oldest in front, and the sent event
settles that one. -/
theorem onSent_front {packet : SentPacket} {rest : List SentPacket}
    (horder : s.order mac = (packet :: rest).map SentPacket.promise) (success : Bool) :
    s.onSent mac success =
      settle packet.promise (if success then .success none else .error) { s with
        sendOrder :=
          Function.update s.sendOrder (macToKey mac) (some (rest.map SentPacket.promise)) } := by
  have hqueue : s.sendOrder (macToKey mac) =
      some (packet.promise :: rest.map SentPacket.promise) := by
    rw [AsyncEspNow.order] at horder
    cases hs : s.sendOrder (macToKey mac) with
    | none => simp [hs] at horder
    | some queue => simpa [hs] using horder
  simp only [onSent, hqueue]

/-! ## Steps -/

/-- The invariant: the queues, the ledger, and nothing in flight to a MAC that is no peer. -/
structure Kept (s : AsyncEspNow esp) : Prop where
  order : ∀ mac, s.order mac = (esp.inFlight s.driver mac).map SentPacket.promise
  ledger : Ledger s.promises (esp.inFlight s.driver) (fun _ => []) (esp.reported s.driver)
  strangers : ∀ mac, esp.isPeer s.driver mac = false → esp.inFlight s.driver mac = []

theorem Kept.attributed (h : Kept s) : Attributed s where
  order := h.order
  pending := h.ledger.pending
  reported := h.ledger.reported
  rejected i hi hflight hreported :=
    h.ledger.rejected i hi hflight (fun _ => List.not_mem_nil) hreported

theorem Kept.fail (h : Kept s) (hs : Failed s s') : Kept s' where
  order mac := by
    rw [hs.order, hs.driver.inFlight, h.order]
  ledger := by
    rw [hs.driver.inFlight, hs.driver.reported]
    exact h.ledger.fail hs.length hs.pending hs.settled hs.last
  strangers := by
    rw [hs.driver.inFlight, hs.driver.isPeer]
    exact h.strangers

theorem Kept.registered (h : Kept s) (hmac : esp.isPeer s.driver mac = false) :
    Kept (s.registered mac) where
  order mac' := by
    rw [order_registered, inFlight_registered]
    by_cases heq : mac' = mac
    · rw [if_pos heq, heq, h.strangers mac hmac]
      rfl
    · rw [if_neg heq]
      exact h.order mac'
  ledger := by
    rw [inFlight_registered, reported_registered]
    exact h.ledger
  strangers mac' hmac' := by
    rw [isPeer_registered, Bool.or_eq_false_iff] at hmac'
    rw [inFlight_registered]
    exact h.strangers mac' hmac'.1

theorem Kept.accept (h : Kept s) (hmac : esp.isPeer s.driver mac = true) (data : List UInt8) :
    Kept (s.sendOn mac data true) where
  order mac' := by
    rw [order_sendOn, inFlight_sendOn]
    by_cases heq : mac' = mac
    · simp [heq, h.order]
    · simp [heq, h.order]
  ledger := by
    rw [inFlight_sendOn, reported_sendOn]
    exact h.ledger.accept mac data
  strangers mac' hmac' := by
    rw [isPeer_sendOn] at hmac'
    have hne : mac' ≠ mac := by
      rintro rfl
      rw [hmac] at hmac'
      cases hmac'
    rw [inFlight_sendOn, if_pos rfl, Function.update_of_ne hne]
    exact h.strangers mac' hmac'

theorem Kept.sendOn (h : Kept s) (hmac : esp.isPeer s.driver mac = true) {accept : Bool}
    (data : List UInt8) (hreject : accept = false → s.order mac = []) :
    Kept (s.sendOn mac data accept) := by
  cases accept with
  | false => exact h.fail (failed_reject (hreject rfl) data)
  | true => exact h.accept hmac data

theorem Kept.send (h : Kept s) {addPeer accept : Bool} (data : List UInt8)
    (hc : RejectsEmpty s (.send mac data addPeer accept)) :
    Kept (s.send mac data addPeer accept).2 := by
  rcases send_cases mac data addPeer accept s with ⟨hreg, heq⟩ | ⟨hknows, heq⟩ | ⟨-, -, d, hd, heq⟩
  · rw [heq]
    have hpeer : esp.isPeer (s.registered mac).driver mac = true := by
      rw [isPeer_registered, decide_eq_true rfl, Bool.or_true]
    refine (h.registered hreg.2.1).sendOn hpeer data fun _ => ?_
    rw [order_registered, if_pos rfl]
  · rw [heq]
    exact h.sendOn hknows.2 data (hc hknows.1 hknows.2)
  · rw [heq]
    exact h.fail (failed_errored hd)

theorem Kept.sent (h : Kept s) {success : Bool} {driver : esp.State}
    (hd : esp.report mac success s.driver = some driver) :
    Kept (onSent mac success { s with driver }) := by
  obtain ⟨packet, rest, hflight, hinFlight, hreported, hisPeer⟩ := esp.report_some _ _ _ _ hd
  have horder : AsyncEspNow.order { s with driver } mac =
      (packet :: rest).map SentPacket.promise := by
    rw [← hflight]
    exact h.order mac
  have hledger := h.ledger.report hflight (if success then .success none else .error)
  have hok : (if success then Outcome.success none else (.error : Outcome Unit)).ok = success := by
    cases success <;> rfl
  rw [hok] at hledger
  rw [onSent_front horder]
  refine ⟨?_, ?_, ?_⟩
  · intro mac'
    refine (order_update _ mac mac' _).trans ?_
    show _ = (esp.inFlight driver mac').map _
    rw [hinFlight]
    by_cases heq : mac' = mac
    · rw [if_pos heq, heq, Function.update_self]
    · rw [if_neg heq, Function.update_of_ne heq]
      exact h.order mac'
  · show Ledger _ (esp.inFlight driver) _ (esp.reported driver)
    rw [hinFlight, hreported]
    exact hledger
  · intro mac' hmac'
    change esp.isPeer driver mac' = false at hmac'
    show esp.inFlight driver mac' = []
    rw [hisPeer] at hmac'
    have hne : mac' ≠ mac := by
      rintro rfl
      rw [h.strangers _ hmac'] at hflight
      cases hflight
    rw [hinFlight, Function.update_of_ne hne]
    exact h.strangers mac' hmac'

theorem Kept.step (s : AsyncEspNow esp) (e : AsyncNowEvent) (s' : AsyncEspNow esp) (h : Kept s)
    (hc : RejectsEmpty s e) (hs : s.step e = some s') : Kept s' := by
  cases e with
  | send mac data addPeer accept =>
      cases hs
      exact h.send data hc
  | sent mac success =>
      obtain ⟨driver, hd, rfl⟩ := Option.map_eq_some_iff.mp hs
      exact h.sent hd

/-- A packet rejected while others are in flight takes the oldest of their promises out of the
queue and leaves its own at the back, which is that of no packet in flight. -/
theorem reject_shifts {promises : List (Promise Unit Empty)} {gone : Mac → List SentPacket}
    {told : List (SentPacket × Bool)} (h : Ledger promises (esp.inFlight s.driver) gone told)
    (hpromises : s.promises = promises)
    (horder : s.order mac = (esp.inFlight s.driver mac).map SentPacket.promise)
    (hflight : esp.inFlight s.driver mac ≠ []) (data : List UInt8) :
    (s.sendOn mac data false).order mac ≠
      (esp.inFlight (s.sendOn mac data false).driver mac).map SentPacket.promise := by
  intro heq
  rw [order_sendOn, if_pos rfl, if_neg Bool.false_ne_true, inFlight_sendOn,
    if_neg Bool.false_ne_true, horder] at heq
  obtain ⟨packet, rest, hcons⟩ := List.exists_cons_of_ne_nil hflight
  have hlast : s.promises.length ∈ (esp.inFlight s.driver mac).map SentPacket.promise := by
    rw [← heq, hcons, List.map_cons, List.cons_append, List.tail_cons]
    exact List.mem_append_right _ List.mem_cons_self
  obtain ⟨packet, hp, hpp⟩ := List.mem_map.mp hlast
  have hlt := (h.pending mac packet hp).lt
  rw [hpp, hpromises] at hlt
  exact absurd hlt (lt_irrefl _)

theorem not_attributed_of_not_rejectsEmpty (s : AsyncEspNow esp) (e : AsyncNowEvent)
    (s' : AsyncEspNow esp) (h : Kept s) (hc : ¬ RejectsEmpty s e) (hs : s.step e = some s') :
    ¬ Attributed s' := by
  cases e with
  | sent mac success => exact absurd trivial hc
  | send mac data addPeer accept =>
      simp only [RejectsEmpty, Classical.not_imp] at hc
      obtain ⟨hinit, hmac, rfl, hne⟩ := hc
      cases hs
      intro hattr
      have horder := hattr.order mac
      have hflight : esp.inFlight s.driver mac ≠ [] := by
        intro hnil
        refine hne ?_
        rw [h.order mac, hnil]
        rfl
      rcases send_cases mac data addPeer false s with ⟨hreg, -⟩ | ⟨-, heq⟩ | ⟨-, hknows, -⟩
      · rw [hreg.2.1] at hmac
        cases hmac
      · rw [heq] at horder
        exact reject_shifts h.ledger rfl (h.order mac) hflight data horder
      · exact hknows ⟨hinit, hmac⟩

theorem Ledger.start (esp : EspNowDriver) (gone : Mac → List SentPacket)
    (hgone : gone = fun _ => []) :
    Ledger [] (esp.inFlight esp.init) gone (esp.reported esp.init) := by
  have hflight : esp.inFlight esp.init = fun _ => [] := funext esp.inFlight_init
  rw [hflight, esp.reported_init, hgone]
  constructor <;> simp

theorem Kept.start (initialized : Bool) : Kept ({ initialized } : AsyncEspNow esp) where
  order mac := by
    show [] = (esp.inFlight esp.init mac).map _
    rw [esp.inFlight_init]
    rfl
  ledger := Ledger.start esp _ rfl
  strangers mac _ := esp.inFlight_init mac

/-- **Results are attributed to their own packets, exactly as long as rejections meet an empty
queue.**  In every run of sends to any MACs and of sent events, the queue of every MAC is, in
every state, the unsettled promises of the packets accepted for it and not reported, every
reported packet has settled its own promise, and a rejected send only its own, if and only if
every packet that the driver rejects is for a MAC whose queue is empty. -/
theorem attributed_iff_rejectsEmpty (esp : EspNowDriver) (initialized : Bool)
    (es : List AsyncNowEvent) :
    Always step Attributed ({ initialized } : AsyncEspNow esp) es ↔
      Each step RejectsEmpty ({ initialized } : AsyncEspNow esp) es :=
  always_iff_each (fun _ h => h.attributed) Kept.step not_attributed_of_not_rejectsEmpty
    (Kept.start initialized)

/-- Two packets to one MAC, the second rejected while the first is in flight: the queue holds
the failed promise of the second, and that of the first is never settled. -/
theorem second_rejected_misattributed :
    ¬ Always step Attributed ({} : AsyncEspNow .queues)
      [.send (Vector.replicate 6 1) [1] true true,
        .send (Vector.replicate 6 1) [2] true false] := by
  intro h
  have hs := (h.2 _ rfl).2 _ rfl
  have horder := hs.order (Vector.replicate 6 1)
  revert horder
  decide

end AsyncEspNow

end EspIot
