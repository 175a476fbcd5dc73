/-
# `EspIot.Network.SendReads` — what a task reads when it runs

Every step keeps the invariant of `Network.SendOwners`, and under it the promise of a task of
`all` is alive exactly while a call in progress still holds it among its packets.
-/
import EspIot.Network.SendOwners

namespace EspIot

open Lib

namespace SendOwners

open EspNowInteraction

/-! ## Steps -/

section Steps
variable {s t : SendOwners}

theorem Inv.onSent (h : Inv s) (mac : Mac) (success : Bool) : Inv (s.onSent mac success) := by
  rw [SendOwners.onSent]
  split
  · exact h
  · rename_i promise queue heq
    have hmem : promise ∈ s.sendOrder mac := by
      rw [heq]
      exact List.mem_cons_self
    have htail : queue = (s.sendOrder mac).tail := by rw [heq]; rfl
    have hnodup := h.nodup mac
    rw [heq] at hnodup
    have hgone : ∀ mac', promise ∉ Function.update s.sendOrder mac queue mac' := by
      intro mac' hp
      by_cases hmac : mac' = mac
      · subst hmac
        rw [Function.update_self] at hp
        exact (List.nodup_cons.mp hnodup).1 hp
      · rw [Function.update_of_ne hmac] at hp
        exact hmac (h.disjoint mac' mac promise hp hmem)
    have hpopped := h.pop mac
    rw [← htail] at hpopped
    refine hpopped.setCalls ?_
    intro call hcall
    rcases List.mem_append.mp hcall with hold | hnew
    · exact .inl hold
    · rw [List.mem_singleton.mp hnew]
      exact .inr ⟨⟨h.fresh promise (h.order mac promise hmem), hgone⟩, by nofun,
        fun _ _ _ _ => id⟩

theorem Inv.sendImpl (h : Inv s) (mac : Mac) (size : ℕ) : Inv (s.sendImpl mac size) := by
  rw [SendOwners.sendImpl]
  split
  · refine (h.already .derived .error).setHeld ?_
    intro p hp
    rcases List.mem_append.mp hp with hold | hnew
    · exact .inl hold
    · rw [List.mem_singleton.mp hnew]
      refine .inr ⟨Nat.lt_succ_self _, ?_⟩
      show Function.update s.origin s.created .derived s.created ≠ .part
      rw [Function.update_self]
      nofun
  · refine h.setCalls ?_
    intro call hcall
    rcases List.mem_append.mp hcall with hold | hnew
    · exact .inl hold
    · rw [List.mem_singleton.mp hnew]
      refine .inr ⟨⟨by nofun, ?_, fun hne => absurd rfl hne⟩, by nofun, fun _ _ _ _ => id⟩
      rw [List.length_nil, Nat.zero_mul, Nat.sub_zero]

theorem Inv.goOn_already (h : Inv s) (n : ℕ) (futures : List ℕ) (o : Outcome Unit) :
    Inv ((s.already .derived o).goOn n (.chain futures s.created)) := by
  refine (h.already .derived o).goOn n trivial ?_ (fun _ _ _ _ => id)
  intro p hp
  rw [List.mem_singleton.mp hp]
  refine ⟨Nat.lt_succ_self _, ?_⟩
  show Function.update s.origin s.created .derived s.created ≠ .part
  rw [Function.update_self]
  nofun

theorem Inv.loop (h : Inv s) {n : ℕ} {mac : Mac} {size remaining : ℕ} {futures : List ℕ}
    (hok : s.CallOk (.loop mac size remaining futures)) (hremaining : remaining ≠ 0)
    (addPeer accept : Bool) :
    Inv ((s.send (if size ≤ maxPacketDataLength then .whole else .part) mac addPeer accept).goOn n
      (.loop mac size (remaining - maxPacketDataLength) (futures ++ [s.created]))) := by
  obtain ⟨horigin, hleft, -⟩ := hok
  have hlabel : (if size ≤ maxPacketDataLength then PromiseOrigin.whole else .part) ≠
      .derived := by
    split <;> nofun
  refine (h.send hlabel mac addPeer accept).goOn n ⟨?_, ?_, ?_⟩ (by nofun) (fun _ _ _ _ => id)
  · intro p hp
    rw [(send_same _ mac addPeer accept).2.1]
    rcases List.mem_append.mp hp with hold | hnew
    · have hlt := h.fresh p (by rw [horigin p hold]; exact hlabel)
      rw [Function.update_of_ne hlt.ne]
      exact horigin p hold
    · rw [List.mem_singleton.mp hnew, Function.update_self]
  · rw [List.length_append, List.length_singleton, Nat.add_mul, hleft]
    omega
  · intro _
    rw [List.length_append, List.length_singleton, Nat.add_sub_cancel]
    omega

theorem Inv.all_futures (h : Inv s) {n : ℕ} {mac : Mac} {size : ℕ} {futures : List ℕ}
    (hok : s.CallOk (.loop mac size 0 futures)) : Inv (s.all n futures) := by
  obtain ⟨horigin, hleft, hlast⟩ := hok
  cases futures with
  | nil => exact h.goOn_already n [] .error
  | cons a rest =>
      cases rest with
      | nil =>
          -- the only packet of its message
          have hsize : size ≤ maxPacketDataLength := by
            rw [List.length_singleton, Nat.one_mul] at hleft
            exact Nat.sub_eq_zero_iff_le.mp hleft.symm
          have hwhole : s.origin a = .whole := by
            rw [horigin a List.mem_cons_self, if_pos hsize]
          refine h.goOn n trivial ?_ (fun _ _ _ _ => id)
          intro p hp
          rw [List.mem_singleton.mp hp]
          refine ⟨h.fresh a (by rw [hwhole]; nofun), ?_⟩
          rw [hwhole]
          nofun
      | cons b rest =>
          have hsize : ¬ size ≤ maxPacketDataLength := by
            have hmul : maxPacketDataLength ≤
                ((a :: b :: rest).length - 1) * maxPacketDataLength :=
              Nat.le_mul_of_pos_left _ (Nat.succ_pos _)
            exact not_le.mpr (lt_of_le_of_lt hmul (hlast (by nofun)))
          have hparts : ∀ p ∈ a :: b :: rest, s.origin p = .part := by
            intro p hp
            rw [horigin p hp, if_neg hsize]
          refine h.goOn n ⟨hparts, List.Subset.refl _⟩ (by nofun) ?_
          intro mac' p _ _ hp
          exact hp.2 hp.1

section
variable {n : ℕ} {futures left : List ℕ} {future : ℕ}

theorem Inv.scanned (h : Inv s) {alreadyFinished : Bool}
    (hmem : .scan futures [] alreadyFinished ∈ s.calls) (addPeer accept : Bool) :
    Inv (s.stepCall n addPeer accept (.scan futures [] alreadyFinished)) := by
  obtain ⟨hparts, -⟩ := h.calls _ hmem
  rw [SendOwners.stepCall]
  split
  · exact h.goOn_already n _ _
  · have hresult : (s.create .derived).Derived s.created :=
      ⟨Nat.lt_succ_self _, Function.update_self ..⟩
    refine ((h.create .derived).setCountLeft _).goOn n ⟨?_, List.Subset.refl _, hresult⟩ ?_ ?_
    · intro p hp
      have hlt := h.fresh p (by rw [hparts p hp]; nofun)
      exact (create_origin hlt.ne).trans (hparts p hp)
    · intro p hp
      rw [List.mem_singleton.mp hp]
      exact hresult.public
    · intro mac p hp hfinished hfutures
      have hlt := h.fresh p (h.order mac p hp)
      have hold : (s.promises p).finished = true := by
        rw [← create_promises (o := .derived) hlt.ne]
        exact hfinished
      exact (h.rejected mac p hp hold).2 _ hmem ⟨hfutures, List.not_mem_nil⟩

theorem Inv.scan (h : Inv s) {alreadyFinished : Bool}
    (hmem : .scan futures (future :: left) alreadyFinished ∈ s.calls) (addPeer accept : Bool) :
    Inv (s.stepCall n addPeer accept (.scan futures (future :: left) alreadyFinished)) := by
  obtain ⟨hparts, hleft⟩ := h.calls _ hmem
  have hsub : left ⊆ futures := fun p hp => hleft (List.mem_cons_of_mem _ hp)
  have hnext : ∀ already, (∀ mac, future ∈ s.sendOrder mac →
      (s.promises future).finished = true → (s.promises future).success = true) →
      Inv (s.goOn n (.scan futures left already)) := by
    intro already hfuture
    refine h.goOn n ⟨hparts, hsub⟩ (by nofun) ?_
    rintro mac p hp hfinished ⟨hfutures, hnot⟩
    obtain ⟨hfailed, hpassed⟩ := h.rejected mac p hp hfinished
    by_cases heq : p = future
    · subst heq
      rw [hfuture mac hp hfinished] at hfailed
      cases hfailed
    · refine hpassed _ hmem ⟨hfutures, ?_⟩
      intro hcons
      exact hnot ((List.mem_cons.mp hcons).resolve_left heq)
  rw [SendOwners.stepCall]
  split
  · rename_i hunfinished
    refine hnext false ?_
    intro mac _ hfinished
    rw [hunfinished] at hfinished
    cases hfinished
  split
  · exact h.goOn_already n _ _
  · rename_i hsuccess
    refine hnext alreadyFinished ?_
    intro mac _ _
    rwa [Bool.not_eq_false] at hsuccess

theorem Inv.register (h : Inv s) {resultPromise : ℕ}
    (hmem : .register futures (future :: left) resultPromise ∈ s.calls) (addPeer accept : Bool) :
    Inv (s.stepCall n addPeer accept (.register futures (future :: left) resultPromise)) := by
  obtain ⟨hparts, hleft, hresult⟩ := h.calls _ hmem
  have hfuture := hleft List.mem_cons_self
  have hset : Inv (s.onFinished future (.all resultPromise)) := by
    refine h.onFinished ?_ (by nofun) ?_
    · intro r heq
      cases heq
      refine ⟨hparts future hfuture, hresult, ?_⟩
      intro hfinished mac hp
      exact (h.rejected mac future hp hfinished).2 _ hmem hfuture
    · intro p hp
      rw [List.mem_singleton.mp hp]
      exact hresult.public
  refine hset.goOn n ⟨hparts, fun p hp => hleft (List.mem_cons_of_mem _ hp), hresult⟩ ?_ ?_
  · intro p hp
    rw [List.mem_singleton.mp hp]
    exact hresult.public
  · intro mac p hp hfinished
    exact (hset.rejected mac p hp hfinished).2 (.register futures (future :: left) _) hmem

/-- The callback of `then` captures the future it is set on, which its caller may hand on. -/
theorem Inv.chained (h : Inv s) (hmem : .chain futures future ∈ s.calls) (addPeer accept : Bool) :
    Inv (s.stepCall n addPeer accept (.chain futures future)) := by
  have hfuture := (h.exposed future
    (.inr (.inr ⟨_, hmem, List.mem_cons_self⟩))).create .derived
  have hchained : (s.create .derived).Derived s.created :=
    ⟨Nat.lt_succ_self _, Function.update_self ..⟩
  have hpublic : ∀ p ∈ [future, s.created], (s.create .derived).Public p := by
    intro p hp
    rcases List.mem_cons.mp hp with rfl | hp
    · exact hfuture
    · rw [List.mem_singleton.mp hp]
      exact hchained.public
  have hset : Inv ((s.create .derived).onFinished future (.chain future s.created)) := by
    refine (h.create .derived).onFinished (by nofun) ?_ hpublic
    intro self chained heq
    cases heq
    exact ⟨rfl, hchained⟩
  exact hset.goOn n trivial hpublic (fun _ _ _ _ => id)

end

theorem Inv.stepCall (h : Inv s) {n : ℕ} {call : SendCall} (hn : s.calls[n]? = some call)
    (addPeer accept : Bool) : Inv (s.stepCall n addPeer accept call) := by
  have hmem := List.mem_of_getElem? hn
  have hok := h.calls call hmem
  have hpublic : ∀ p ∈ call.others, s.Public p :=
    fun p hp => h.exposed p (.inr (.inr ⟨call, hmem, hp⟩))
  cases call with
  | loop mac size remaining futures =>
      rw [SendOwners.stepCall]
      split
      · rename_i hzero
        subst hzero
        exact h.all_futures hok
      · rename_i hremaining
        exact h.loop hok hremaining addPeer accept
  | scan futures left alreadyFinished =>
      cases left with
      | nil => exact h.scanned hmem addPeer accept
      | cons future left => exact h.scan hmem addPeer accept
  | register futures left resultPromise =>
      cases left with
      | nil => exact h.goOn n trivial hpublic (fun _ _ _ _ => id)
      | cons future left => exact h.register hmem addPeer accept
  | chain futures future => exact h.chained hmem addPeer accept
  | returning futures future chained =>
      refine (h.removeCall n).setHeld ?_
      intro p hp
      rcases List.mem_append.mp hp with hold | hnew
      · exact .inl hold
      · rw [List.mem_singleton.mp hnew]
        exact .inr (hpublic chained (List.mem_cons_of_mem _ List.mem_cons_self))
  | onSent promise success =>
      have hsettled : Inv (s.settle promise (if success then .success none else .error)) :=
        h.settle fun mac hp => absurd hp (hok.2 mac)
      exact hsettled.goOn n trivial (by nofun) (fun _ _ _ _ => id)
  | onSentSettled promise => exact h.removeCall n

theorem Inv.settle_derived (h : Inv s) {promise : ℕ} (hp : s.Derived promise) (o : Outcome Unit) :
    Inv (s.settle promise o) :=
  h.settle fun mac hmem => absurd hp.2 (h.order mac promise hmem)

theorem Inv.runTask (h : Inv s) {promise : ℕ} {callback : SendCallback}
    {tasks : List (ℕ × SendCallback)} (htasks : s.tasks = (promise, callback) :: tasks) :
    Inv ({ s with tasks }.runTask promise callback) := by
  have hset : s.SetOn promise callback := by
    refine .inr ?_
    rw [htasks]
    exact List.mem_cons_self
  have hrest : Inv { s with tasks } := by
    refine h.setTasks ?_
    rw [htasks]
    exact List.subset_cons_self _ _
  cases callback with
  | all resultPromise =>
      obtain ⟨-, hresult⟩ := h.all promise resultPromise hset
      rw [SendOwners.runTask]
      split
      · exact hrest
      split
      · exact hrest.settle_derived hresult _
      · have hcounted := hrest.setCountLeft
          (Function.update s.countLeft resultPromise (s.countLeft resultPromise - 1))
        show Inv (if _ then _ else _)
        split
        · exact hcounted.settle_derived hresult _
        · exact hcounted
  | chain self chained =>
      obtain ⟨-, hchained⟩ := h.chain promise self chained hset
      exact hrest.settle_derived hchained _

theorem Inv.step {e : SendEvent} (h : Inv s) (ht : s.step e = some t) : Inv t := by
  cases e with
  | send mac addPeer accept =>
      cases ht
      refine (h.send (by nofun) mac addPeer accept).setHeld ?_
      intro p hp
      obtain ⟨hcreated, horigin, -⟩ := send_same (s := s) .whole mac addPeer accept
      rcases List.mem_append.mp hp with hold | hnew
      · exact .inl hold
      · rw [List.mem_singleton.mp hnew]
        refine .inr ⟨?_, ?_⟩
        · rw [hcreated]
          exact Nat.lt_succ_self _
        · rw [horigin, Function.update_self]
          nofun
  | sendImpl mac size =>
      cases ht
      exact h.sendImpl mac size
  | chain n =>
      obtain ⟨future, hn, rfl⟩ := Option.map_eq_some_iff.mp ht
      have hpublic : s.Public future := h.exposed future (.inl (List.mem_of_getElem? hn))
      have hfuture := hpublic.create .derived
      have hchained : (s.create .derived).Derived s.created :=
        ⟨Nat.lt_succ_self _, Function.update_self ..⟩
      have hset : Inv ((s.create .derived).onFinished future (.chain future s.created)) := by
        refine (h.create .derived).onFinished (by nofun) ?_ ?_
        · intro self chained heq
          cases heq
          exact ⟨rfl, hchained⟩
        · intro p hp
          rcases List.mem_cons.mp hp with rfl | hp
          · exact hfuture
          · rw [List.mem_singleton.mp hp]
            exact hchained.public
      refine hset.setHeld ?_
      intro p hp
      rcases List.mem_append.mp hp with hold | hnew
      · exact .inl hold
      · rw [List.mem_singleton.mp hnew]
        exact .inr hchained.public
  | drop n =>
      cases ht
      exact h.setHeld fun p hp => .inl (List.mem_of_mem_eraseIdx hp)
  | unregisterPeer mac =>
      cases ht
      exact h.setOrder fun _ => List.Sublist.refl _
  | sent mac success =>
      cases ht
      exact h.onSent mac success
  | call n addPeer accept =>
      obtain ⟨call, hn, rfl⟩ := Option.map_eq_some_iff.mp ht
      exact h.stepCall hn addPeer accept
  | dispatcher =>
      rw [SendOwners.step] at ht
      split at ht
      · cases ht
      · rename_i promise callback tasks htasks
        cases ht
        exact h.runTask htasks

end Steps

/-! ## The reads -/

theorem Inv.alive_part {s : SendOwners} (h : Inv s) {promise : ℕ}
    (hpart : s.origin promise = .part) (hqueued : ∀ mac, promise ∉ s.sendOrder mac) :
    s.Alive promise ↔ ∃ call ∈ s.calls, promise ∈ call.packets := by
  have hnot : ¬ s.Exposed promise := fun hexposed => (h.exposed promise hexposed).2 hpart
  constructor
  · rintro ⟨owned, howned, hreach⟩
    rcases Relation.ReflTransGen.cases_tail hreach with heq | ⟨q, -, callback, hq, hp⟩
    · subst heq
      rcases howned with ⟨mac, hmac⟩ | hheld | ⟨call, hcall, hp⟩ | ⟨task, htask, hp⟩
      · exact absurd hmac (hqueued mac)
      · exact absurd (.inl hheld) hnot
      · rcases List.mem_append.mp hp with hpackets | hothers
        · exact ⟨call, hcall, hpackets⟩
        · exact absurd (.inr (.inr ⟨call, hcall, hothers⟩)) hnot
      · exact absurd (.inr (.inl ⟨task.1, task.2, .inr htask, hp⟩)) hnot
    · exact absurd (.inr (.inl ⟨q, callback, .inl hq, hp⟩)) hnot
  · rintro ⟨call, hcall, hp⟩
    exact ⟨promise, .inr (.inr (.inl ⟨call, hcall, List.mem_append_left _ hp⟩)), .refl⟩

theorem Inv.safeRead_iff {s : SendOwners} (h : Inv s) (e : SendEvent) :
    s.SafeRead e ↔ s.InTime e := by
  cases e with
  | dispatcher =>
      constructor
      · intro hsafe promise resultPromise tasks htasks
        have hmem : (promise, .all resultPromise) ∈ s.tasks := by
          rw [htasks]
          exact List.mem_cons_self
        obtain ⟨hpart, -⟩ := h.all promise resultPromise (.inr hmem)
        exact (h.alive_part hpart (h.taken promise resultPromise hmem)).mp
          (hsafe promise _ tasks htasks)
      · intro htime promise callback tasks htasks
        have hmem : (promise, callback) ∈ s.tasks := by
          rw [htasks]
          exact List.mem_cons_self
        cases callback with
        | all resultPromise =>
            obtain ⟨hpart, -⟩ := h.all promise resultPromise (.inr hmem)
            exact (h.alive_part hpart (h.taken promise resultPromise hmem)).mpr
              (htime promise resultPromise tasks htasks)
        | chain self chained =>
            -- the callback of `then` has captured the future it was set on
            obtain ⟨rfl, -⟩ := h.chain promise self chained (.inr hmem)
            exact ⟨self, .inr (.inr (.inr ⟨_, hmem, List.mem_cons_self⟩)), .refl⟩
  | send | sendImpl | chain | drop | unregisterPeer | sent | call => exact Iff.rfl

/-- **A task never reads a promise that has been released exactly where each task of `all` is run
before `_send_impl` and `_on_sent` have let go of its promise: every other task keeps its own.** -/
theorem safe_iff_inTime (initialized : Bool) (es : List SendEvent) :
    Each step SafeRead { initialized } es ↔ Each step InTime { initialized } es := by
  constructor
  · refine Each.imp_of (I := Inv) ?_ ?_ (inv_start initialized)
    · intro s e h hsafe
      exact (h.safeRead_iff e).mp hsafe
    · intro s e t h _ ht
      exact h.step ht
  · refine Each.imp_of (I := Inv) ?_ ?_ (inv_start initialized)
    · intro s e h htime
      exact (h.safeRead_iff e).mpr htime
    · intro s e t h _ ht
      exact h.step ht

/-- A message of two packets: both are handed over, `_send_impl` returns, the driver reports the
first, `_on_sent` returns, and then the dispatcher runs. -/
def twoPackets (mac : Mac) : List SendEvent :=
  [.sendImpl mac 300, .call 0 true true, .call 0 true true, .call 0 true true, .call 0 true true,
    .call 0 true true, .call 0 true true, .call 0 true true, .call 0 true true, .call 0 true true,
    .call 0 true true, .call 0 true true, .sent mac true, .call 0 true true, .call 0 true true]

/-- **The task of the first packet reads a promise that nobody owns any more.** -/
theorem two_packets_read_released :
    ¬ Each step SafeRead {} (twoPackets (Vector.replicate 6 0) ++ [.dispatcher]) := by
  intro h
  have hrun : ∃ t, run step {} (twoPackets (Vector.replicate 6 0)) = some t ∧
      t.tasks = [(0, .all 2)] ∧ t.calls = [] := ⟨_, rfl, rfl, rfl⟩
  obtain ⟨t, ht, htasks, hcalls⟩ := hrun
  have hinv : Inv t := run_invariant (fun _ _ _ hI hs => hI.step hs) (inv_start true) ht
  have hstep : ∃ u, step t .dispatcher = some u := by
    rw [step, htasks]
    exact ⟨_, rfl⟩
  obtain ⟨u, hu⟩ := hstep
  have hsafe := Each.at h ht hu
  obtain ⟨call, hcall, -⟩ := (hinv.safeRead_iff .dispatcher).mp hsafe 0 2 [] htasks
  rw [hcalls] at hcall
  cases hcall

end SendOwners

end EspIot
