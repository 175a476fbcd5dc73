/-
# `EspIot.Network.NowLifecycleRuns` — results keep to their packets, from `begin` to `end`

    begin, end       the queues left behind are those of no peer with nothing in flight
    register_peer    a new queue: right where nothing is in flight, wrong elsewhere
    send             the queue of a peer, so one that counts
    _on_sent         a MAC with packets in flight, so one that counts

Each line is a lemma `Kept.…` below; the two ways out of the invariant are `register_forgets` and
`reject_shifts`.
-/
import EspIot.Network.NowLifecycle

namespace EspIot

open Lib

namespace EspNowLife

open AsyncEspNow

variable {esp : EspNowDriver} {now : AsyncEspNow esp} {gone : Mac → List SentPacket} {mac : Mac}
  {ok : Bool}

/-! ## What keeps the invariant -/

theorem Kept.fail (h : Kept now gone) {now' : AsyncEspNow esp} (hs : Failed now now')
    (hinit : now'.initialized = now.initialized) : Kept now' gone where
  order mac hlive := by
    rw [hs.order, hs.driver.inFlight]
    rw [Live, hs.driver.isPeer, hs.driver.inFlight] at hlive
    exact h.order mac hlive
  ledger := by
    rw [hs.driver.inFlight, hs.driver.reported]
    exact h.ledger.fail hs.length hs.pending hs.settled hs.last
  off hoff := by
    rw [hs.driver.isPeer, hs.driver.inFlight]
    exact h.off (hinit.symm.trans hoff)

theorem Kept.unchanged (h : Kept now gone) {d : esp.State} (hd : esp.Unchanged now.driver d) :
    Kept { now with driver := d } gone where
  order mac hlive := by
    rw [Live, hd.isPeer, hd.inFlight] at hlive
    rw [hd.inFlight]
    exact h.order mac hlive
  ledger := by
    rw [hd.inFlight, hd.reported]
    exact h.ledger
  off hoff := by
    rw [hd.isPeer, hd.inFlight]
    exact h.off hoff

/-- A new peer with nothing in flight: its queue is emptied, whatever an earlier life has left
in it. -/
theorem Kept.registered (h : Kept now gone) (hinit : now.initialized = true)
    (hflight : esp.inFlight now.driver mac = []) : Kept (now.registered mac) gone where
  order mac' hlive := by
    rw [order_registered, inFlight_registered]
    by_cases heq : mac' = mac
    · rw [if_pos heq, heq, hflight]
      rfl
    · rw [Live, isPeer_registered, inFlight_registered, decide_eq_false heq, Bool.or_false] at hlive
      rw [if_neg heq]
      exact h.order mac' hlive
  ledger := by
    rw [inFlight_registered, reported_registered]
    exact h.ledger
  off hoff := absurd (hinit.symm.trans hoff) (fun h => by cases h)

theorem Kept.accept (h : Kept now gone) (hinit : now.initialized = true)
    (hmac : esp.isPeer now.driver mac = true) (data : List UInt8) :
    Kept (now.sendOn mac data true) gone where
  order mac' hlive := by
    rw [Live, isPeer_sendOn, inFlight_sendOn, if_pos rfl] at hlive
    rw [order_sendOn, inFlight_sendOn, if_pos rfl, if_pos rfl]
    by_cases heq : mac' = mac
    · rw [if_pos heq, heq, h.order mac (.inl hmac), Function.update_self, List.map_append]
      rfl
    · rw [Function.update_of_ne heq] at hlive ⊢
      rw [if_neg heq]
      exact h.order mac' hlive
  ledger := by
    rw [inFlight_sendOn, reported_sendOn]
    exact h.ledger.accept mac data
  off hoff := absurd (hinit.symm.trans hoff) (fun h => by cases h)

/-- `send` after `register_peer` has answered: an accepted packet, or a rejected one that met
nothing in flight. -/
theorem Kept.sendOn (h : Kept now gone) (hinit : now.initialized = true)
    (hmac : esp.isPeer now.driver mac = true) {accept : Bool} (data : List UInt8)
    (hreject : accept = false → esp.inFlight now.driver mac = []) :
    Kept (now.sendOn mac data accept) gone := by
  cases accept with
  | false =>
      have hempty : now.order mac = [] := by
        rw [h.order mac (.inl hmac), hreject rfl]
        rfl
      exact h.fail (failed_reject hempty data) rfl
  | true => exact h.accept hinit hmac data

theorem Kept.sent (h : Kept now gone) {success : Bool} {now' : AsyncEspNow esp}
    (hs : now.step (.sent mac success) = some now') : Kept now' gone := by
  obtain ⟨driver, hd, rfl⟩ := Option.map_eq_some_iff.mp hs
  obtain ⟨packet, rest, hflight, hinFlight, hreported, hisPeer⟩ := esp.report_some _ _ _ _ hd
  have horder : AsyncEspNow.order { now with driver } mac =
      (packet :: rest).map SentPacket.promise := by
    rw [← hflight]
    exact h.order mac (.inr (by simp [hflight]))
  have hledger := h.ledger.report hflight (if success then .success none else .error)
  have hok : (if success then Outcome.success none else (.error : Outcome Unit)).ok = success := by
    cases success <;> rfl
  rw [hok] at hledger
  rw [onSent_front horder]
  refine ⟨?_, ?_, ?_⟩
  · intro mac' hlive
    change esp.isPeer driver mac' = true ∨ esp.inFlight driver mac' ≠ [] at hlive
    refine (order_update _ mac mac' _).trans ?_
    show _ = (esp.inFlight driver mac').map _
    rw [hinFlight] at hlive ⊢
    by_cases heq : mac' = mac
    · rw [if_pos heq, heq, Function.update_self]
    · rw [hisPeer, Function.update_of_ne heq] at hlive
      rw [if_neg heq, Function.update_of_ne heq]
      exact h.order mac' hlive
  · show Ledger _ (esp.inFlight driver) _ (esp.reported driver)
    rw [hinFlight, hreported]
    exact hledger
  · intro hoff
    rw [(h.off hoff mac).2] at hflight
    cases hflight

theorem Kept.unregister (h : Kept now gone) (mac : Mac) (ok : Bool) :
    Kept { now with driver := esp.delPeer mac ok now.driver } gone where
  order mac' hlive := by
    rw [Live, esp.isPeer_delPeer, esp.inFlight_delPeer] at hlive
    rw [esp.inFlight_delPeer]
    refine h.order mac' (hlive.imp_left fun hpeer => ?_)
    exact (Bool.and_eq_true_iff.mp hpeer).1
  ledger := by
    rw [esp.inFlight_delPeer, esp.reported_delPeer]
    exact h.ledger
  off hoff mac' := by
    rw [esp.isPeer_delPeer, esp.inFlight_delPeer, (h.off hoff mac').1, Bool.false_and]
    exact ⟨rfl, (h.off hoff mac').2⟩

theorem Kept.deinit (h : Kept now gone) (initialized : Bool) :
    Kept { now with initialized, driver := esp.deinit now.driver }
      (fun mac => gone mac ++ esp.inFlight now.driver mac) where
  order mac hlive := by
    rw [Live, esp.isPeer_deinit, esp.inFlight_deinit] at hlive
    rcases hlive with hlive | hlive
    · cases hlive
    · exact absurd rfl hlive
  ledger := by
    have hflight : esp.inFlight (esp.deinit now.driver) = fun _ => [] :=
      funext (esp.inFlight_deinit now.driver)
    rw [hflight, esp.reported_deinit]
    exact h.ledger.deinit
  off _ mac := ⟨esp.isPeer_deinit _ mac, esp.inFlight_deinit _ mac⟩

theorem Kept.start : Kept ({} : EspNowLife esp).now ({} : EspNowLife esp).abandoned where
  order mac hlive := by
    rcases hlive with hlive | hlive
    · cases (esp.isPeer_init mac).symm.trans hlive
    · exact absurd (esp.inFlight_init mac) hlive
  ledger := Ledger.start esp _ rfl
  off _ mac := ⟨esp.isPeer_init mac, esp.inFlight_init mac⟩

/-! ## Steps -/

variable {s s' : EspNowLife esp}

theorem Kept.registerPeer (h : Kept now gone) {ok : Bool}
    (hc : now.Registers mac ok → esp.inFlight now.driver mac = []) :
    Kept (now.registerPeer mac ok).2 gone := by
  rcases registerPeer_cases mac ok now with ⟨hreg, heq⟩ | ⟨-, heq⟩ | ⟨-, -, d, hd, heq⟩
  · rw [heq]
    exact h.registered hreg.1 (hc hreg)
  · rw [heq]
    exact h
  · rw [heq]
    exact h.unchanged hd

theorem Kept.send (h : Kept now gone) {addPeer accept : Bool} (data : List UInt8)
    (hadd : now.Registers mac addPeer → esp.inFlight now.driver mac = [])
    (hreject : now.initialized = true → esp.isPeer now.driver mac = true → accept = false →
      esp.inFlight now.driver mac = []) :
    Kept (now.send mac data addPeer accept).2 gone := by
  rcases send_cases mac data addPeer accept now with
    ⟨hreg, heq⟩ | ⟨hknows, heq⟩ | ⟨-, -, d, hd, heq⟩
  · rw [heq]
    have hpeer : esp.isPeer (now.registered mac).driver mac = true := by
      rw [isPeer_registered, decide_eq_true rfl, Bool.or_true]
    refine (h.registered hreg.1 (hadd hreg)).sendOn hreg.1 hpeer data fun _ => ?_
    rw [inFlight_registered]
    exact hadd hreg
  · rw [heq]
    exact h.sendOn hknows.1 hknows.2 data (hreject hknows.1 hknows.2)
  · rw [heq]
    exact h.fail (failed_errored hd) rfl

theorem Kept.begin (h : Kept s.now s.abandoned) (dispatcher init sendCb recvCb : Bool) :
    Kept (s.begin dispatcher init sendCb recvCb).2.now
      (s.begin dispatcher init sendCb recvCb).2.abandoned := by
  rw [EspNowLife.begin]
  split
  · exact h
  · split
    · exact h
    · split
      · exact h
      · split
        · exact h.deinit s.now.initialized
        · exact ⟨h.order, h.ledger, fun hoff => absurd hoff (by nofun)⟩

theorem Kept.endNow (h : Kept s.now s.abandoned) : Kept s.endNow.now s.endNow.abandoned := by
  rw [EspNowLife.endNow]
  split
  · exact h
  · exact h.deinit false

theorem Kept.unregisterPeer (h : Kept s.now s.abandoned) (mac : Mac) (ok : Bool) :
    Kept (s.unregisterPeer mac ok).2.now (s.unregisterPeer mac ok).2.abandoned := by
  rw [EspNowLife.unregisterPeer]
  split
  · exact h
  · split
    · exact h
    · exact h.unregister mac ok

theorem Kept.step (s : EspNowLife esp) (e : EspNowLifeEvent) (s' : EspNowLife esp)
    (h : Kept s.now s.abandoned) (hc : Drained s e) (hs : s.step e = some s') :
    Kept s'.now s'.abandoned := by
  cases e with
  | start dispatcher init sendCb recvCb =>
      cases hs
      exact h.begin dispatcher init sendCb recvCb
  | stop =>
      cases hs
      exact h.endNow
  | register mac ok =>
      cases hs
      exact h.registerPeer hc
  | unregister mac ok =>
      cases hs
      exact h.unregisterPeer mac ok
  | send mac data addPeer accept =>
      cases hs
      exact h.send data hc.1 hc.2
  | sent mac success =>
      obtain ⟨now', hnow, rfl⟩ := Option.map_eq_some_iff.mp hs
      exact h.sent hnow

/-! ## What leaves it -/

theorem register_forgets (hflight : esp.inFlight now.driver mac ≠ []) :
    (now.registered mac).order mac ≠
      (esp.inFlight (now.registered mac).driver mac).map SentPacket.promise := by
  rw [order_registered, if_pos rfl, inFlight_registered]
  exact fun hnil => hflight (List.map_eq_nil_iff.mp hnil.symm)

theorem send_forgets (hflight : esp.inFlight now.driver mac ≠ []) (data : List UInt8)
    (accept : Bool) :
    ((now.registered mac).sendOn mac data accept).order mac ≠
      (esp.inFlight ((now.registered mac).sendOn mac data accept).driver mac).map
        SentPacket.promise := by
  intro heq
  rw [order_sendOn, if_pos rfl, inFlight_sendOn, inFlight_registered, order_registered,
    if_pos rfl] at heq
  have hlength := congrArg List.length heq
  refine hflight (List.length_eq_zero_iff.mp ?_)
  cases accept with
  | true => simpa using hlength.symm
  | false => simpa using hlength.symm

theorem not_attributed_of_not_drained (s : EspNowLife esp) (e : EspNowLifeEvent)
    (s' : EspNowLife esp) (h : Kept s.now s.abandoned) (hc : ¬ Drained s e)
    (hs : s.step e = some s') : ¬ Attributed s' := by
  intro hattr
  cases e with
  | register mac ok =>
      obtain ⟨hreg, hflight⟩ := Classical.not_imp.mp hc
      cases hs
      have horder := hattr.order mac
      have hnow : (s.registerPeer mac ok).2.now = (s.now.registerPeer mac ok).2 := rfl
      rw [hnow] at horder
      rcases registerPeer_cases mac ok s.now with ⟨-, heq⟩ | ⟨hknows, -⟩ | ⟨hnot, -⟩
      · rw [heq] at horder
        refine register_forgets hflight (horder (.inl ?_))
        rw [isPeer_registered, decide_eq_true rfl, Bool.or_true]
      · exact absurd (hreg.2.1.symm.trans hknows.2) Bool.false_ne_true
      · exact hnot hreg
  | send mac data addPeer accept =>
      cases hs
      have horder := hattr.order mac
      have hnow : (s.send mac data addPeer accept).2.now =
          (s.now.send mac data addPeer accept).2 := rfl
      rw [hnow] at horder
      rcases send_cases mac data addPeer accept s.now with ⟨hreg, heq⟩ | ⟨hknows, heq⟩ |
        ⟨hreg, hknows, -⟩
      · have hflight : esp.inFlight s.now.driver mac ≠ [] := fun hnil =>
          hc ⟨fun _ => hnil, fun _ _ _ => hnil⟩
        rw [heq] at horder
        refine send_forgets hflight data accept (horder (.inl ?_))
        rw [isPeer_sendOn, isPeer_registered, decide_eq_true rfl, Bool.or_true]
      · have hnot : ¬ s.now.Registers mac addPeer := fun hreg =>
          absurd (hreg.2.1.symm.trans hknows.2) Bool.false_ne_true
        have hrejected : accept = false ∧ esp.inFlight s.now.driver mac ≠ [] := by
          by_contra hkept
          refine hc ⟨fun hreg => absurd hreg hnot, fun _ _ haccept => ?_⟩
          by_contra hflight
          exact hkept ⟨haccept, hflight⟩
        obtain ⟨rfl, hflight⟩ := hrejected
        have hpeer : esp.isPeer (s.now.sendOn mac data false).driver mac = true := by
          rw [isPeer_sendOn]
          exact hknows.2
        rw [heq] at horder
        exact reject_shifts h.ledger rfl (h.order mac (.inl hknows.2)) hflight data
          (horder (.inl hpeer))
      · exact hc ⟨fun h => absurd h hreg, fun hinit hmac => absurd ⟨hinit, hmac⟩ hknows⟩
  | start dispatcher init sendCb recvCb => exact hc trivial
  | stop => exact hc trivial
  | unregister mac ok => exact hc trivial
  | sent mac success => exact hc trivial

/-- **Results keep to their packets, through every `begin` and `end`, exactly as long as rejections
and new peers meet nothing in flight.**  In every run of calls and sent events, whatever the
dispatcher and the driver answer, the promises in flight, those abandoned by an `end` and those
reported are, in every state, as `Attributed` says, if and only if no packet is rejected and no
peer is added while packets to its MAC are in flight. -/
theorem attributed_iff_drained (esp : EspNowDriver) (es : List EspNowLifeEvent) :
    Always step Attributed ({} : EspNowLife esp) es ↔ Each step Drained ({} : EspNowLife esp) es :=
  always_iff_each (I := fun s => Kept s.now s.abandoned) (fun _ h => h.attributed) Kept.step
    not_attributed_of_not_drained Kept.start

/-! ## The peers -/

/-- Every peer of the driver is in `_peers`. -/
structure Listed (s : EspNowLife esp) : Prop where
  listed : ∀ mac, esp.isPeer s.now.driver mac = true → mac ∈ s.peers
  defined : s.undefined = false

/-- `esp_now_del_peer` of a peer succeeds. -/
def Deletes : EspNowLifeEvent → Prop
  | .unregister _ ok => ok = true
  | _ => True

theorem Listed.registered (h : Listed s) (mac : Mac) (ok : Bool) {now' : AsyncEspNow esp}
    (hpeers : ∀ mac', esp.isPeer now'.driver mac' = true →
      esp.isPeer s.now.driver mac' = true ∨ s.now.Registers mac ok ∧ mac' = mac) :
    Listed { s with now := now', peers := s.peersAfter mac ok } := by
  refine ⟨?_, h.defined⟩
  intro mac' hmac'
  rw [peersAfter]
  rcases hpeers mac' hmac' with hold | ⟨hreg, rfl⟩
  · split
    · exact List.mem_append_left _ (h.listed mac' hold)
    · exact h.listed mac' hold
  · rw [if_pos hreg]
    exact List.mem_append_right _ List.mem_cons_self

theorem peers_registered (hreg : now.Registers mac ok) {mac' : Mac}
    (hpeer : esp.isPeer (now.registered mac).driver mac' = true) :
    esp.isPeer now.driver mac' = true ∨ now.Registers mac ok ∧ mac' = mac := by
  rw [isPeer_registered, Bool.or_eq_true, decide_eq_true_iff] at hpeer
  exact hpeer.imp_right fun heq => ⟨hreg, heq⟩

theorem peers_registerPeer (now : AsyncEspNow esp) (mac : Mac) (ok : Bool) (mac' : Mac)
    (hpeer : esp.isPeer (now.registerPeer mac ok).2.driver mac' = true) :
    esp.isPeer now.driver mac' = true ∨ now.Registers mac ok ∧ mac' = mac := by
  rcases registerPeer_cases mac ok now with ⟨hreg, heq⟩ | ⟨-, heq⟩ | ⟨-, -, d, hd, heq⟩
  · rw [heq] at hpeer
    exact peers_registered hreg hpeer
  · rw [heq] at hpeer
    exact .inl hpeer
  · rw [heq] at hpeer
    exact .inl (hd.isPeer ▸ hpeer)

theorem peers_send (now : AsyncEspNow esp) (mac : Mac) (data : List UInt8) (addPeer accept : Bool)
    (mac' : Mac)
    (hpeer : esp.isPeer (now.send mac data addPeer accept).2.driver mac' = true) :
    esp.isPeer now.driver mac' = true ∨ now.Registers mac addPeer ∧ mac' = mac := by
  rcases send_cases mac data addPeer accept now with ⟨hreg, heq⟩ | ⟨-, heq⟩ | ⟨-, -, d, hd, heq⟩
  · rw [heq, isPeer_sendOn] at hpeer
    exact peers_registered hreg hpeer
  · rw [heq, isPeer_sendOn] at hpeer
    exact .inl hpeer
  · rw [heq] at hpeer
    exact .inl (hd.isPeer ▸ hpeer)

theorem Listed.unregistered {s : EspNowLife esp} (h : Listed s) (mac : Mac) :
    Listed (s.unregisterPeer mac true).2 := by
  rw [EspNowLife.unregisterPeer]
  split
  · exact h
  · split
    · exact h
    · rename_i hmac
      have hpeer : esp.isPeer s.now.driver mac = true := by simpa using hmac
      refine ⟨?_, by simp [h.defined, h.listed mac hpeer]⟩
      intro mac' hmac'
      change esp.isPeer (esp.delPeer mac true s.now.driver) mac' = true at hmac'
      rw [esp.isPeer_delPeer, Bool.true_and, Bool.and_eq_true, Bool.not_eq_true',
        decide_eq_false_iff_not] at hmac'
      exact (List.mem_erase_of_ne hmac'.2).mpr (h.listed mac' hmac'.1)

theorem Listed.step (s : EspNowLife esp) (e : EspNowLifeEvent) (s' : EspNowLife esp)
    (h : Listed s) (he : Deletes e) (hs : s.step e = some s') : Listed s' := by
  have hdeinit (t : EspNowLife esp) (ht : t.undefined = false) : Listed t.deinit :=
    ⟨fun mac hmac => absurd ((esp.isPeer_deinit _ mac).symm.trans hmac) Bool.false_ne_true, ht⟩
  cases e with
  | start dispatcher init sendCb recvCb =>
      cases hs
      rw [EspNowLife.begin]
      split
      · exact h
      · split
        · exact h
        · split
          · exact h
          · split
            · exact hdeinit s h.defined
            · exact ⟨h.listed, h.defined⟩
  | stop =>
      cases hs
      rw [EspNowLife.endNow]
      split
      · exact h
      · exact hdeinit _ h.defined
  | register mac ok =>
      cases hs
      exact h.registered mac ok (peers_registerPeer s.now mac ok)
  | send mac data addPeer accept =>
      cases hs
      exact h.registered mac addPeer (peers_send s.now mac data addPeer accept)
  | unregister mac ok =>
      cases hs
      cases he
      exact h.unregistered mac
  | sent mac success =>
      obtain ⟨now', hnow, rfl⟩ := Option.map_eq_some_iff.mp hs
      obtain ⟨driver, hd, rfl⟩ := Option.map_eq_some_iff.mp hnow
      obtain ⟨packet, rest, -, -, -, hisPeer⟩ := esp.report_some _ _ _ _ hd
      have hpeers : (AsyncEspNow.onSent mac success { s.now with driver }).driver = driver := by
        rw [onSent]
        split <;> rfl
      refine ⟨?_, h.defined⟩
      intro mac' hmac'
      rw [hpeers, hisPeer] at hmac'
      exact h.listed mac' hmac'

/-- **`unregister_peer` always finds its peer.**  Where the driver deletes every peer it is asked
to delete, the driver's peers are all in `_peers`, so that `erase` is never called on `end()`,
in any run of calls, over any number of `begin` and `end`. -/
theorem unregister_finds (esp : EspNowDriver) (es : List EspNowLifeEvent)
    (hes : ∀ e ∈ es, Deletes e) {s : EspNowLife esp} (hs : Lib.run step {} es = some s) :
    (∀ mac, esp.isPeer s.now.driver mac = true → mac ∈ s.peers) ∧ s.undefined = false := by
  have hstart : Listed ({} : EspNowLife esp) :=
    ⟨fun mac hmac => absurd ((esp.isPeer_init mac).symm.trans hmac) Bool.false_ne_true, rfl⟩
  have h : Listed s := run_invariant_of Listed.step hes hstart hs
  exact ⟨h.listed, h.defined⟩

/-- A peer left in `_peers` by an `end`, registered again and unregistered. -/
theorem unregister_finds_twice :
    ∃ s, Lib.run step ({} : EspNowLife .queues)
        [.start true true true true, .register (Vector.replicate 6 1) true, .stop,
          .start true true true true, .register (Vector.replicate 6 1) true,
          .unregister (Vector.replicate 6 1) true] = some s ∧
      (∀ mac, EspNowDriver.queues.isPeer s.now.driver mac = true → mac ∈ s.peers) ∧
        s.undefined = false :=
  ⟨_, rfl, unregister_finds .queues
    [.start true true true true, .register (Vector.replicate 6 1) true, .stop,
      .start true true true true, .register (Vector.replicate 6 1) true,
      .unregister (Vector.replicate 6 1) true] (by simp [Deletes]) rfl⟩

-- a peer that the driver keeps is not found the second time
example : (Lib.run step ({} : EspNowLife .queues)
    [.start true true true true, .register (Vector.replicate 6 1) true,
      .unregister (Vector.replicate 6 1) false,
      .unregister (Vector.replicate 6 1) true]).map undefined = some true := by decide

end EspNowLife

end EspIot
