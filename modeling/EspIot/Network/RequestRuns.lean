/-
# `EspIot.Network.RequestRuns` — no request loses the entry of another

`Tracked` is what a run keeps as long as no `on_error` function finds the entry of another
request: an entry belongs to the newest request under its id, which is neither replied nor
failed, and a request without an entry is one or the other.

The last part is the run in which the id of a request that still waits for its reply is taken
again: the newer request cancels it, and the clean-up of the cancelled one erases the newer
one's entry.
-/
import EspIot.Network.Requests

namespace EspIot

open Lib EspNowInteraction

namespace EspNowRequests

/-- The promise of a reply is settled: the request was answered, or cancelled by a newer one. -/
def replied (s : EspNowRequests) (r : Request) : Bool :=
  (s.system.futures.promises (.source (.reply r.send))).finished

/-- The request has run its own `on_error` function. -/
def Failed (s : EspNowRequests) (r : Request) : Prop := r.onError ∈ s.system.futures.called

/-- The request is registered, or has been answered, cancelled, or has failed itself. -/
def Undisturbed (s : EspNowRequests) : Prop :=
  ∀ r ∈ s.made, s.node.requests r.id = some r.send ∨ s.replied r = true ∨ s.Failed r

/-- All packets of the request were reported as delivered, and its reply is there. -/
def Delivered (s : EspNowRequests) (r : Request) : Prop :=
  0 < r.packets ∧ s.replied r = true ∧
    (s.system.futures.promises (.source (.reply r.send))).success = true ∧
    ∀ i < r.packets, (s.system.futures.promises (.source (.packet r.send i))).finished = true ∧
      (s.system.futures.promises (.source (.packet r.send i))).success = true

/-- A request takes an id only when no older request under the id can still fail. -/
def FreesId (s : EspNowRequests) : RequestEvent → Prop
  | .request _ _ => s.node.initialized = true →
      ∀ r ∈ s.made, r.id = s.node.id → s.Failed r ∨ s.Delivered r
  | _ => True

instance (s : EspNowRequests) (r : Request) : Decidable (s.Failed r) :=
  inferInstanceAs (Decidable (_ ∈ _))

instance (s : EspNowRequests) (r : Request) : Decidable (s.Delivered r) :=
  inferInstanceAs (Decidable (_ ∧ _ ∧ _ ∧ _))

instance (s : EspNowRequests) : DecidablePred s.FreesId
  | .request .. => inferInstanceAs (Decidable (s.node.initialized = true →
      ∀ r ∈ s.made, r.id = s.node.id → s.Failed r ∨ s.Delivered r))
  | .send .. | .respond .. | .sent .. | .received _ | .runTask | .others .. =>
      inferInstanceAs (Decidable True)

/-- An `on_error` function finds no entry of another request under its id. -/
def ErasesOwn (s : EspNowRequests) : RequestEvent → Prop
  | .runTask => ∀ p callback k self, s.system.futures.dispatched.head? = some (p, callback) →
      callback.userFn (s.system.futures.promises p).success = some (k, self) →
        ∀ r ∈ s.made, r.onError = k → ∀ send, s.node.requests r.id = some send → send = r.send
  | _ => True

/-! ## The registered requests -/

/-- Each request has its own `_send_impl` call and its own chain, and nothing but their
`on_error` functions erases. -/
structure Numbered (s : EspNowRequests) : Prop where
  erases : ∀ k id, s.fns k = some (.eraseRequest id) → ∃ r ∈ s.made, r.onError = k ∧ r.id = id
  below : ∀ r ∈ s.made, r.send < s.sends ∧ r.onError < s.system.built.length
  unique : ∀ r ∈ s.made, ∀ r' ∈ s.made, r.send = r'.send ∨ r.onError = r'.onError → r = r'
  chained : ∀ r ∈ s.made, s.Chained r

/-- The invariant: an entry is that of the newest request under its id. -/
structure Tracked (s : EspNowRequests) : Prop extends s.Numbered where
  wired : s.Wired
  fresh : ∀ n, s.sends ≤ n → s.system.futures.ended (.source (.reply n)) = none
  entry : ∀ id n, s.node.requests id = some n → ∃ r ∈ s.made, r.id = id ∧ r.send = n ∧
    s.replied r = false ∧ ¬ s.Failed r ∧ ∀ r' ∈ s.made, r'.id = id → r'.send ≤ n
  undisturbed : s.Undisturbed

theorem Numbered.keep {s t : EspNowRequests} (h : s.Numbered) (hmade : t.made = s.made)
    (hsends : s.sends ≤ t.sends) (hbuilt : s.system.built <+: t.system.built)
    (herases : ∀ k id, t.fns k = some (.eraseRequest id) → s.fns k = some (.eraseRequest id)) :
    t.Numbered where
  erases k id hk := hmade ▸ h.erases k id (herases k id hk)
  below r hr := by
    obtain ⟨hsend, honError⟩ := h.below r (hmade ▸ hr)
    exact ⟨Nat.lt_of_lt_of_le hsend hsends, Nat.lt_of_lt_of_le honError hbuilt.length_le⟩
  unique r hr r' hr' := h.unique r (hmade ▸ hr) r' (hmade ▸ hr')
  chained r hr := (h.chained r (hmade ▸ hr)).mono hbuilt

theorem Numbered.request {s t : EspNowRequests} {r : Request} (h : s.Numbered)
    (hr : s.Requested t r) : t.Numbered := by
  have hmem : ∀ r' ∈ t.made, r' ∈ s.made ∨ r' = r := by
    intro r' hr'
    rw [hr.made] at hr'
    exact (List.mem_append.mp hr').imp_right List.mem_singleton.mp
  refine ⟨?_, ?_, ?_, ?_⟩
  · intro k id hk
    rw [hr.made]
    rcases hr.fns k id hk with ⟨rfl, rfl⟩ | hk
    · exact ⟨r, List.mem_append_right _ (List.mem_singleton_self r), rfl, rfl⟩
    · obtain ⟨r', hr', honError, hid⟩ := h.erases k id hk
      exact ⟨r', List.mem_append_left _ hr', honError, hid⟩
  · intro r' hr'
    rcases hmem r' hr' with hr' | rfl
    · obtain ⟨hsend, honError⟩ := h.below r' hr'
      exact ⟨by rw [hr.sends]; omega, Nat.lt_of_lt_of_le honError hr.built.length_le⟩
    · exact ⟨by rw [hr.send, hr.sends]; omega, hr.onError.2⟩
  · intro r₁ h₁ r₂ h₂ heq
    have hnew : ∀ r' ∈ s.made, ¬ (r'.send = r.send ∨ r'.onError = r.onError) := by
      intro r' hr'
      obtain ⟨hsend, honError⟩ := h.below r' hr'
      rw [hr.send]
      have := hr.onError.1
      omega
    rcases hmem r₁ h₁ with h₁ | rfl
    · rcases hmem r₂ h₂ with h₂ | rfl
      · exact h.unique r₁ h₁ r₂ h₂ heq
      · exact absurd heq (hnew r₁ h₁)
    · rcases hmem r₂ h₂ with h₂ | rfl
      · exact absurd (heq.imp Eq.symm Eq.symm) (hnew r₂ h₂)
      · rfl
  · intro r' hr'
    rcases hmem r' hr' with hr' | rfl
    · exact (h.chained r' hr').mono hr.built
    · exact hr.chained

theorem replied_eq (s : EspNowRequests) (r : Request) :
    s.replied r = (s.system.futures.ended (.source (.reply r.send))).isSome :=
  (Promise.ended_isSome _).symm

theorem replied_congr {s t : EspNowRequests} {r : Request}
    (h : t.system.futures.ended (.source (.reply r.send)) =
      s.system.futures.ended (.source (.reply r.send))) : t.replied r = s.replied r := by
  rw [replied_eq, replied_eq, h]

theorem Tracked.keep {s t : EspNowRequests} (h : s.Tracked) (hmade : t.made = s.made)
    (hrequests : t.node.requests = s.node.requests) (hsends : s.sends ≤ t.sends)
    (hbuilt : s.system.built <+: t.system.built)
    (hcalled : t.system.futures.called = s.system.futures.called)
    (hreply : ∀ n, t.system.futures.ended (.source (.reply n)) =
      s.system.futures.ended (.source (.reply n)))
    (herases : ∀ k id, t.fns k = some (.eraseRequest id) → s.fns k = some (.eraseRequest id))
    (hwired : t.Wired) : t.Tracked where
  toNumbered := h.toNumbered.keep hmade hsends hbuilt herases
  wired := hwired
  fresh n hn := (hreply n).trans (h.fresh n (hsends.trans hn))
  entry id n hn := by
    obtain ⟨r, hr, hid, hsend, hreplied, hfailed, hlast⟩ := h.entry id n (hrequests ▸ hn)
    refine ⟨r, hmade ▸ hr, hid, hsend, (replied_congr (hreply _)).trans hreplied, ?_,
      hmade ▸ hlast⟩
    rwa [Failed, hcalled]
  undisturbed r hr := by
    rcases h.undisturbed r (hmade ▸ hr) with hreg | hreplied | hfailed
    · exact Or.inl (hrequests ▸ hreg)
    · exact Or.inr (Or.inl ((replied_congr (hreply _)).trans hreplied))
    · refine Or.inr (Or.inr ?_)
      rwa [Failed, hcalled]

theorem Tracked.request {s t : EspNowRequests} {r : Request} (h : s.Tracked)
    (hr : s.Requested t r) : t.Tracked := by
  have hmem : ∀ r' ∈ t.made, r' ∈ s.made ∨ r' = r := by
    intro r' hr'
    rw [hr.made] at hr'
    exact (List.mem_append.mp hr').imp_right List.mem_singleton.mp
  have hold : ∀ r' ∈ s.made, r' ∈ t.made := fun r' hr' =>
    hr.made ▸ List.mem_append_left _ hr'
  have hself : r ∈ t.made := hr.made ▸ List.mem_append_right _ (List.mem_singleton_self r)
  have hsame : ∀ r' ∈ s.made, s.node.requests s.node.id ≠ some r'.send →
      t.replied r' = s.replied r' := fun r' _ hne => replied_congr (hr.reply _ hne)
  -- the older request under the id is another one than that of any other id
  have hcancelled : ∀ n r', s.node.requests s.node.id = some n → r' ∈ s.made → r'.send = n →
      r'.id = s.node.id := by
    intro n r' hn hr' hsend
    obtain ⟨r₀, hr₀, hid, hsend₀, -⟩ := h.entry _ n hn
    rw [h.unique r' hr' r₀ hr₀ (Or.inl (hsend.trans hsend₀.symm)), hid]
  have hfresh : ∀ n, s.sends ≤ n → t.system.futures.ended (.source (.reply n)) = none := by
    intro n hn
    rw [hr.reply n fun heq => ?_, h.fresh n hn]
    obtain ⟨r₀, hr₀, -, hsend₀, -⟩ := h.entry _ n heq
    have := (h.below r₀ hr₀).1
    omega
  refine ⟨h.toNumbered.request hr, hr.wired h.wired, fun n hn => hfresh n ?_, fun id n hn => ?_,
    fun r' hr' => ?_⟩
  · rw [hr.sends] at hn
    omega
  · rw [hr.requests] at hn
    rcases eq_or_ne id s.node.id with rfl | hne
    · rw [Function.update_self] at hn
      cases hn
      refine ⟨r, hself, hr.id, hr.send, ?_, ?_, ?_⟩
      · rw [replied_eq, hr.send, hfresh _ (Nat.le_refl _)]
        rfl
      · rw [Failed, hr.called]
        intro hfailed
        have hlt := (h.wired.kept _ (sourceOutcome_agrees s.system)).called _ hfailed
        exact absurd hr.onError.1 (Nat.not_le.mpr hlt)
      · intro r' hr' _
        rcases hmem r' hr' with hr' | rfl
        · exact (h.below r' hr').1.le
        · exact hr.send.le
    · rw [Function.update_of_ne hne] at hn
      obtain ⟨r₀, hr₀, hid, hsend, hreplied, hfailed, hlast⟩ := h.entry id n hn
      refine ⟨r₀, hold r₀ hr₀, hid, hsend, ?_, ?_, ?_⟩
      · rw [hsame r₀ hr₀ fun heq => hne (hid ▸ hcancelled _ r₀ heq hr₀ rfl), hreplied]
      · rwa [Failed, hr.called]
      · intro r' hr' hid'
        rcases hmem r' hr' with hr' | rfl
        · exact hlast r' hr' hid'
        · exact absurd (hid'.symm.trans hr.id) hne
  · rcases hmem r' hr' with hr' | rfl
    · rcases h.undisturbed r' hr' with hreg | hreplied | hfailed
      · rcases eq_or_ne r'.id s.node.id with heq | hne
        · refine Or.inr (Or.inl ?_)
          rw [replied_eq]
          exact hr.cancelled _ (heq ▸ hreg)
        · refine Or.inl ?_
          rw [hr.requests, Function.update_of_ne hne, hreg]
      · refine Or.inr (Or.inl ?_)
        rw [replied_eq] at hreplied ⊢
        obtain ⟨a, ha⟩ := Option.isSome_iff_exists.mp hreplied
        rw [hr.ended _ a ha]
        rfl
      · refine Or.inr (Or.inr ?_)
        rwa [Failed, hr.called]
    · refine Or.inl ?_
      rw [hr.requests, hr.id, Function.update_self, hr.send]

theorem Tracked.answer {s t : EspNowRequests} (h : s.Tracked) {id : UInt8} {n : Nat}
    (hn : s.node.requests id = some n) (hmade : t.made = s.made) (hsends : t.sends = s.sends)
    (hrequests : t.node.requests = Function.update s.node.requests id none)
    (hfns : t.fns = s.fns) (o : Outcome SendResult)
    (hsystem : t.system = s.system.settle (.reply n) o) : t.Tracked := by
  have hbuilt : t.system.built = s.system.built := by rw [hsystem]; rfl
  have hcalled : t.system.futures.called = s.system.futures.called := by rw [hsystem]; rfl
  have hself : (t.system.futures.ended (.source (.reply n))).isSome = true := by
    rw [hsystem]
    exact (congrArg Option.isSome (Futures.ended_settle_self ..)).trans rfl
  have hother : ∀ m, m ≠ n → t.system.futures.ended (.source (.reply m)) =
      s.system.futures.ended (.source (.reply m)) := by
    intro m hne
    rw [hsystem]
    exact Futures.ended_settle_of_ne _ _ (by simpa using hne)
  obtain ⟨r₁, hr₁, hid₁, hsend₁, -⟩ := h.entry id n hn
  have hwired : t.Wired := by
    have hs := settle_wired h.wired (.reply n) o
    refine ⟨fun σ hσ => ?_, ?_⟩
    · rw [hsystem] at hσ ⊢
      exact hs.kept σ hσ
    · intro k p e hk
      rw [hbuilt] at hk ⊢
      exact hfns ▸ h.wired.fns k p e hk
  refine ⟨h.toNumbered.keep hmade hsends.ge (by rw [hbuilt]) fun k id' hk => hfns ▸ hk, hwired,
    ?_, ?_, ?_⟩
  · intro m hm
    rw [hsends] at hm
    have hlt := (h.below r₁ hr₁).1
    rw [hother m (by omega), h.fresh m hm]
  · intro id' m hm
    rw [hrequests] at hm
    rcases eq_or_ne id' id with rfl | hne
    · rw [Function.update_self] at hm
      cases hm
    · rw [Function.update_of_ne hne] at hm
      obtain ⟨r, hr, hid, hsend, hreplied, hfailed, hlast⟩ := h.entry id' m hm
      refine ⟨r, hmade ▸ hr, hid, hsend, ?_, ?_, hmade ▸ hlast⟩
      · refine (replied_congr (hother _ fun heq => hne ?_)).trans hreplied
        rw [← hid, h.unique r hr r₁ hr₁ (Or.inl (heq.trans hsend₁.symm)), hid₁]
      · rwa [Failed, hcalled]
  · intro r hr
    rw [hmade] at hr
    rcases eq_or_ne r.send n with rfl | hne
    · exact Or.inr (Or.inl ((replied_eq t r).trans hself))
    · rcases h.undisturbed r hr with hreg | hreplied | hfailed
      · refine Or.inl ?_
        rw [hrequests, Function.update_of_ne, hreg]
        rintro rfl
        exact hne (Option.some.inj (hreg.symm.trans hn))
      · exact Or.inr (Or.inl ((replied_congr (hother _ hne)).trans hreplied))
      · refine Or.inr (Or.inr ?_)
        rwa [Failed, hcalled]

theorem onPacketReceived_requests {P : Type*} {s s' : AsyncEspNowInteraction P}
    {packet : EspNowPacket} {handed : Option (Handed P)}
    (h : s.onPacketReceived packet = .ok (handed, s')) :
    (∃ key promise message, handed = some { key, recipient := .request promise, message } ∧
      s.requests key.id = some promise ∧
      s'.requests = Function.update s.requests key.id none) ∨
    ((∀ key promise message, handed ≠ some { key, recipient := .request promise, message }) ∧
      s'.requests = s.requests) := by
  rcases AsyncEspNowInteraction.received_cases h with
    ⟨-, rfl, rfl⟩ | ⟨header, message, -, -, ⟨-, rfl, rfl⟩ | ⟨-, rfl, rfl⟩⟩
  · exact Or.inr ⟨by simp, rfl⟩
  · exact Or.inr ⟨by simp, rfl⟩
  · generalize packet.key header = key
    rw [AsyncEspNowInteraction.handOn]
    split
    · split
      · rename_i promise hpromise
        exact Or.inl ⟨key, promise, message, rfl, hpromise, rfl⟩
      · exact Or.inr ⟨by simp, rfl⟩
    · split
      · exact Or.inr ⟨by simp, rfl⟩
      · exact Or.inr ⟨by simp, rfl⟩

theorem Tracked.received {s t : EspNowRequests} (h : s.Tracked) {packet : EspNowPacket}
    (ht : s.received packet = some t) : t.Tracked := by
  rw [EspNowRequests.received] at ht
  cases hp : s.node.onPacketReceived packet with
  | error fault =>
      rw [hp] at ht
      cases ht
  | ok result =>
      obtain ⟨handed, node⟩ := result
      rw [hp] at ht
      obtain rfl := Option.some.inj ht
      rcases onPacketReceived_requests hp with
        ⟨key, promise, message, rfl, hpromise, hrequests⟩ | ⟨hnot, hrequests⟩
      · exact h.answer hpromise rfl rfl hrequests rfl _ rfl
      · have hkeep : ∀ u, u = s → Tracked { u with node } := by
          rintro u rfl
          exact h.keep rfl hrequests (Nat.le_refl _) (List.prefix_refl _) rfl (fun _ => rfl)
            (fun _ _ hk => hk) ⟨h.wired.kept, h.wired.fns⟩
        refine hkeep _ ?_
        split
        · exact absurd rfl (hnot _ _ _)
        · rfl

/-! ## What a task does -/

section RunTask
variable {s t : EspNowRequests}

theorem Ran.replied {call : Option (Nat × RequestFn)} (h : s.Ran t call) (r : Request) :
    t.replied r = s.replied r := replied_congr (h.reply _)

theorem Ran.failed {call : Option (Nat × RequestFn)} (h : s.Ran t call) (r : Request) :
    t.Failed r ↔ s.Failed r ∨ call.map Prod.fst = some r.onError := by
  rw [Failed, h.called, List.mem_append, Option.mem_toList]
  rfl

theorem Numbered.ran {call : Option (Nat × RequestFn)} (h : s.Numbered) (hran : s.Ran t call) :
    t.Numbered :=
  h.keep hran.made hran.sends.ge (by rw [hran.built]) fun k id hk => hran.fns ▸ hk

theorem Tracked.ran {call : Option (Nat × RequestFn)} (h : s.Tracked) (hran : s.Ran t call)
    (hnode : t.node.requests = s.node.requests)
    (hcall : ∀ r ∈ s.made, call.map Prod.fst ≠ some r.onError) : t.Tracked := by
  have hfailed : ∀ r ∈ s.made, (t.Failed r ↔ s.Failed r) := fun r hr => by
    rw [hran.failed, or_iff_left (hcall r hr)]
  refine ⟨h.toNumbered.ran hran, hran.wired, ?_, ?_, ?_⟩
  · intro m hm
    rw [hran.reply, h.fresh m (hran.sends ▸ hm)]
  · intro id' m hm
    obtain ⟨r, hr, hid, hsend, hreplied, hno, hlast⟩ := h.entry id' m (hnode ▸ hm)
    exact ⟨r, hran.made ▸ hr, hid, hsend, (hran.replied r).trans hreplied,
      mt (hfailed r hr).mp hno, hran.made ▸ hlast⟩
  · intro r hr
    rw [hran.made] at hr
    rw [hnode, hran.replied, hfailed r hr]
    exact h.undisturbed r hr

theorem Tracked.eraser (h : s.Tracked) {r : Request} (hr : r ∈ s.made) :
    s.fns r.onError = some (.eraseRequest r.id) := by
  obtain ⟨q, e, hget, -⟩ := h.chained r hr
  obtain ⟨id, hid⟩ := h.wired.fns _ _ _ hget
  obtain ⟨r', hr', honError, rfl⟩ := h.erases _ id hid
  rw [hid, h.unique r' hr' r hr (Or.inr honError)]

/-- The `on_error` function of a request runs, and finds the entry of that request or none. -/
theorem Tracked.erase (h : s.Tracked) {r : Request} (hr : r ∈ s.made)
    (hran : s.Ran t (some (r.onError, .eraseRequest r.id)))
    (hown : ∀ send, s.node.requests r.id = some send → send = r.send) : t.Tracked := by
  have hrequests : t.node.requests = Function.update s.node.requests r.id none := by
    rw [hran.node]
    rfl
  have hfailed : ∀ r', t.Failed r' ↔ s.Failed r' ∨ r.onError = r'.onError := fun r' => by
    rw [hran.failed, Option.map_some, Option.some.injEq]
  refine ⟨h.toNumbered.ran hran, hran.wired, ?_, ?_, ?_⟩
  · intro m hm
    rw [hran.reply, h.fresh m (hran.sends ▸ hm)]
  · intro id' m hm
    rw [hrequests] at hm
    rcases eq_or_ne id' r.id with rfl | hne
    · rw [Function.update_self] at hm
      cases hm
    · rw [Function.update_of_ne hne] at hm
      obtain ⟨r₀, hr₀, hid, hsend, hreplied, hno, hlast⟩ := h.entry id' m hm
      refine ⟨r₀, hran.made ▸ hr₀, hid, hsend, (hran.replied r₀).trans hreplied, ?_,
        hran.made ▸ hlast⟩
      rw [hfailed, not_or]
      refine ⟨hno, fun heq => hne ?_⟩
      rw [← hid, h.unique r hr r₀ hr₀ (Or.inr heq)]
  · intro r' hr'
    rw [hran.made] at hr'
    rw [hran.replied, hfailed, hrequests]
    rcases h.undisturbed r' hr' with hreg | hreplied | hno
    · rcases eq_or_ne r'.id r.id with heq | hne
      · refine Or.inr (Or.inr (Or.inr ?_))
        rw [h.unique r' hr' r hr (Or.inl (hown _ (heq ▸ hreg)))]
      · exact Or.inl ((Function.update_of_ne hne ..).trans hreg)
    · exact Or.inr (Or.inl hreplied)
    · exact Or.inr (Or.inr (Or.inl hno))

theorem Tracked.runTask (h : s.Tracked) (hown : s.ErasesOwn .runTask)
    (hs : s.runTask = some t) : t.Tracked := by
  obtain ⟨p, callback, hhead, ⟨-, hran⟩ | ⟨k, fn, hcalls, hran⟩⟩ := runTask_spec h.wired hs
  · exact h.ran hran (by rw [hran.node]; rfl) fun _ _ heq => by cases heq
  · cases hfn : fn with
    | eraseRequest id =>
        subst hfn
        obtain ⟨r, hr, rfl, rfl⟩ := h.erases k id hcalls.given
        exact h.erase hr hran (hown p callback _ p hhead hcalls.userFn r hr rfl)
    | _ =>
        refine h.ran hran (by rw [hran.node, Option.elim_some, hfn]; rfl) ?_
        intro r hr heq
        obtain rfl := Option.some.inj heq
        have hgiven := hcalls.given
        rw [h.eraser hr, hfn] at hgiven
        cases hgiven

theorem Tracked.disturbed (h : s.Tracked) (hown : ¬ s.ErasesOwn .runTask)
    (hs : s.runTask = some t) : ¬ t.Undisturbed := by
  simp only [ErasesOwn, not_forall, exists_prop] at hown
  obtain ⟨p, callback, k, self, hhead, hu, r, hr, rfl, send, hreg, hne⟩ := hown
  obtain ⟨q, callback', hhead', ⟨hnone, -⟩ | ⟨k', fn, hcalls, hran⟩⟩ := runTask_spec h.wired hs
  · rw [hhead] at hhead'
    cases hhead'
    rw [hnone] at hu
    cases hu
  · rw [hhead] at hhead'
    cases hhead'
    obtain ⟨rfl, rfl⟩ := Prod.mk.inj (Option.some.inj (hu.symm.trans hcalls.userFn))
    obtain rfl := Option.some.inj ((h.eraser hr).symm.trans hcalls.given)
    obtain ⟨r₂, hr₂, hid, rfl, hreplied, hfailed, -⟩ := h.entry _ send hreg
    intro hundisturbed
    rcases hundisturbed r₂ (hran.made ▸ hr₂) with hreg' | hreplied' | hfailed'
    · rw [hran.node, hid] at hreg'
      cases (Function.update_self ..).symm.trans hreg'
    · rw [hran.replied, hreplied] at hreplied'
      cases hreplied'
    · rcases (hran.failed r₂).mp hfailed' with hfailed' | heq
      · exact hfailed hfailed'
      · refine hne ?_
        rw [h.unique r₂ hr₂ r hr (Or.inr (Option.some.inj heq).symm)]

end RunTask

/-! ## What a step does -/

section Step
variable {s t : EspNowRequests}

theorem Tracked.grows (h : s.Tracked) (hgrows : s.Grows t) (hsends : s.sends ≤ t.sends)
    (herases : ∀ k id, t.fns k = some (.eraseRequest id) → s.fns k = some (.eraseRequest id)) :
    t.Tracked :=
  h.keep hgrows.made (congrArg _ hgrows.node) hsends hgrows.built hgrows.called hgrows.reply
    herases (hgrows.wired h.wired)

theorem Tracked.withNode (h : s.Tracked) {node : AsyncEspNowInteraction Nat}
    (hnode : node.requests = s.node.requests) : Tracked { s with node } :=
  h.keep rfl hnode (Nat.le_refl _) (List.prefix_refl _) rfl (fun _ => rfl) (fun _ _ hk => hk)
    ⟨h.wired.kept, h.wired.fns⟩

theorem Tracked.sendImpl (h : s.Tracked) (id : UInt8) (accepted : Nat → Bool)
    (parts : Option (List EspNowFragment)) : (s.sendImpl id accepted parts).Tracked := by
  obtain ⟨hgrows, hsends, herases, -⟩ := s.sendImpl_grows id accepted parts
  exact h.grows hgrows (hsends ▸ Nat.le_succ _) herases

theorem send_requests {P : Type*} (s : AsyncEspNowInteraction P) (data : List UInt8) :
    (s.send data).2.requests = s.requests := by
  rw [AsyncEspNowInteraction.send]
  split <;> rfl

theorem Tracked.step (h : s.Tracked) {e : RequestEvent} (hown : s.ErasesOwn e)
    (hs : s.step e = some t) : t.Tracked := by
  cases e with
  | send data accepted =>
      obtain rfl := Option.some.inj hs
      exact (h.withNode (send_requests s.node data)).sendImpl _ _ _
  | respond id data accepted =>
      obtain rfl := Option.some.inj hs
      exact h.sendImpl _ _ _
  | request data accepted =>
      obtain rfl := Option.some.inj hs
      cases hinit : s.node.initialized with
      | false =>
          rw [EspNowRequests.request, if_pos hinit]
          exact h.grows (call_settled s .error).1 (Nat.le_refl _)
            fun k id hk => erases_of_update (by simp) hk
      | true =>
          obtain ⟨r, hr⟩ := request_spec hinit data accepted
          exact h.request hr
  | sent send index ok =>
      obtain rfl := Option.some.inj hs
      exact h.grows (settle_grows s send index _) (Nat.le_refl _) fun _ _ hk => hk
  | received packet => exact h.received hs
  | runTask => exact h.runTask hown hs
  | others initialized onMessageCb =>
      obtain rfl := Option.some.inj hs
      exact h.withNode rfl

theorem Tracked.start : Tracked {} where
  wired := ⟨fun σ _ => FutureSystem.Kept.start σ, fun k p e hk => by cases hk⟩
  erases k id hk := by cases hk
  below r hr := by cases hr
  unique r hr := by cases hr
  fresh n _ := rfl
  entry id n hn := by cases hn
  chained r hr := by cases hr
  undisturbed r hr := by cases hr

theorem Tracked.step_disturbed (h : s.Tracked) {e : RequestEvent} (hown : ¬ s.ErasesOwn e)
    (hs : s.step e = some t) : ¬ t.Undisturbed := by
  cases e with
  | runTask => exact h.disturbed hown hs
  | _ => exact absurd trivial hown

end Step

/-! ## Ids that are free -/

/-- Of two requests under one id, the older one can no longer fail. -/
def Ordered (s : EspNowRequests) : Prop :=
  ∀ r ∈ s.made, ∀ r' ∈ s.made, r.id = r'.id → r.send < r'.send → s.Failed r ∨ s.Delivered r

section Later
variable {s t : EspNowRequests}

/-- What has been called, and how promises ended, stays. -/
structure Later (s t : EspNowRequests) : Prop where
  called : s.system.futures.called ⊆ t.system.futures.called
  ended : ∀ q a, s.system.futures.ended q = some a → t.system.futures.ended q = some a

theorem Later.succeeded (h : s.Later t) {q : PromiseId SendPromise}
    (hq : (s.system.futures.promises q).finished = true ∧
      (s.system.futures.promises q).success = true) :
    (t.system.futures.promises q).finished = true ∧
      (t.system.futures.promises q).success = true := by
  obtain ⟨hfinished, hsuccess⟩ := hq
  obtain ⟨hfinished', houtcome⟩ :=
    Promise.ended_eq_some.mp (h.ended q _ (Futures.ended_of_finished hfinished))
  exact ⟨hfinished', by rw [← Promise.outcome_ok, houtcome, Promise.outcome_ok, hsuccess]⟩

theorem Later.settled (h : s.Later t) {r : Request} (hr : s.Failed r ∨ s.Delivered r) :
    t.Failed r ∨ t.Delivered r := by
  refine hr.imp (fun hfailed => h.called hfailed) fun ⟨hpos, hreplied, hsuccess, hpackets⟩ => ?_
  obtain ⟨hreplied', hsuccess'⟩ := h.succeeded ⟨hreplied, hsuccess⟩
  exact ⟨hpos, hreplied', hsuccess', fun i hi => h.succeeded (hpackets i hi)⟩

theorem Grows.later (h : s.Grows t) : s.Later t :=
  ⟨h.called ▸ List.Subset.refl _, h.ended⟩

theorem Requested.later {r : Request} (h : s.Requested t r) : s.Later t :=
  ⟨h.called ▸ List.Subset.refl _, h.ended⟩

theorem Ran.later {call : Option (Nat × RequestFn)} (h : s.Ran t call) : s.Later t :=
  ⟨h.called ▸ List.subset_append_left .., h.ended⟩

theorem Ordered.keep (h : s.Ordered) (hlater : s.Later t) (hmade : t.made = s.made) :
    t.Ordered := by
  intro r hr r' hr' hid hlt
  exact hlater.settled (h r (hmade ▸ hr) r' (hmade ▸ hr') hid hlt)

theorem Ordered.request {r : Request} (h : s.Ordered) (htracked : s.Tracked)
    (hr : s.Requested t r) (hfree : ∀ r' ∈ s.made, r'.id = s.node.id →
      s.Failed r' ∨ s.Delivered r') : t.Ordered := by
  intro r₁ h₁ r₂ h₂ hid hlt
  rw [hr.made, List.mem_append, List.mem_singleton] at h₁ h₂
  refine hr.later.settled ?_
  rcases h₁ with h₁ | rfl
  · rcases h₂ with h₂ | rfl
    · exact h r₁ h₁ r₂ h₂ hid hlt
    · exact hfree r₁ h₁ (hid.trans hr.id)
  · rw [hr.send] at hlt
    rcases h₂ with h₂ | rfl
    · have := (htracked.below r₂ h₂).1
      omega
    · rw [hr.send] at hlt
      omega

theorem received_later {packet : EspNowPacket} (ht : s.received packet = some t) :
    s.Later t ∧ t.made = s.made := by
  rw [received] at ht
  split at ht
  · cases ht
  · obtain rfl := Option.some.inj ht
    dsimp only
    split
    · exact ⟨⟨List.Subset.refl _, fun q a h => Futures.ended_mono_settle _ _ h⟩, rfl⟩
    · exact ⟨⟨List.Subset.refl _, fun q a h => h⟩, rfl⟩

theorem Ordered.step (h : s.Ordered) (htracked : s.Tracked) {e : RequestEvent}
    (hfree : s.FreesId e) (hs : s.step e = some t) : t.Ordered := by
  cases e with
  | send data accepted =>
      obtain rfl := Option.some.inj hs
      obtain ⟨hgrows, -⟩ := sendImpl_grows { s with node := (s.node.send data).2 } s.node.id
        accepted (s.node.send data).1
      exact h.keep ⟨hgrows.later.called, hgrows.later.ended⟩ hgrows.made
  | respond id data accepted =>
      obtain rfl := Option.some.inj hs
      obtain ⟨hgrows, -⟩ := s.sendImpl_grows id accepted (s.node.respond id data)
      exact h.keep hgrows.later hgrows.made
  | request data accepted =>
      obtain rfl := Option.some.inj hs
      cases hinit : s.node.initialized with
      | false =>
          rw [EspNowRequests.request, if_pos hinit]
          exact h.keep (call_settled s .error).1.later rfl
      | true =>
          obtain ⟨r, hr⟩ := request_spec hinit data accepted
          exact h.request htracked hr (hfree hinit)
  | sent send index ok =>
      obtain rfl := Option.some.inj hs
      exact h.keep (settle_grows s send index _).later rfl
  | received packet =>
      obtain ⟨hlater, hmade⟩ := received_later hs
      exact h.keep hlater hmade
  | runTask =>
      obtain ⟨p, callback, -, ⟨-, hran⟩ | ⟨k, fn, -, hran⟩⟩ := runTask_spec htracked.wired hs
      · exact h.keep hran.later hran.made
      · exact h.keep hran.later hran.made
  | others initialized onMessageCb =>
      obtain rfl := Option.some.inj hs
      exact h.keep ⟨List.Subset.refl _, fun q a h => h⟩ rfl

theorem Tracked.not_delivered (h : s.Tracked) {r : Request} (hr : r ∈ s.made)
    {p : PromiseId SendPromise} {callback : FutureCallback SendPromise} {fn : RequestFn}
    (hcalls : s.Calls p callback r.onError fn) : ¬ s.Delivered r := by
  rintro ⟨hpos, -, hsuccess, hpackets⟩
  obtain ⟨q, e, hget, hok⟩ := h.chained r hr
  obtain ⟨q', e', hget', hreached⟩ := hcalls.reached
  rw [hget] at hget'
  cases hget'
  have := hok s.system.sourceOutcome hpos
    (fun i hi => (Promise.outcome_ok _).trans (hpackets i hi).2)
    ((Promise.outcome_ok _).trans hsuccess)
  rw [FutureExpr.reached, this] at hreached
  cases hreached

theorem Ordered.erasesOwn (h : s.Ordered) (htracked : s.Tracked) (e : RequestEvent) :
    s.ErasesOwn e := by
  cases e with
  | runTask =>
      intro p callback k self hhead hu r hr hk send hreg
      subst hk
      obtain ⟨rfl, fn, hcalls⟩ := htracked.wired.calls hhead hu
      obtain ⟨r₂, hr₂, hid, rfl, -, -, hlast⟩ := htracked.entry _ send hreg
      by_contra hne
      have hlt : r.send < r₂.send := lt_of_le_of_ne (hlast r hr rfl) (Ne.symm hne)
      rcases h r hr r₂ hr₂ hid.symm hlt with hfailed | hdelivered
      · exact hcalls.fresh hfailed
      · exact htracked.not_delivered hr hcalls hdelivered
  | _ => trivial

end Later

/-- What is kept as long as an id is taken again only when no older request under it can still
fail. -/
theorem freesId_invariant (s : EspNowRequests) (e : RequestEvent) (t : EspNowRequests)
    (h : s.Tracked ∧ s.Ordered) (hfree : s.FreesId e) (ht : s.step e = some t) :
    t.Tracked ∧ t.Ordered :=
  ⟨h.1.step (h.2.erasesOwn h.1 e) ht, h.2.step h.1 hfree ht⟩

theorem Ordered.start : Ordered {} := fun r hr => by cases hr

/-- **Requests do not disturb each other exactly when every `on_error` function finds the entry
of its own request or none.**  So it is in every run in which an id is taken again only when no
older request under it can still fail. -/
theorem undisturbed_iff_erasesOwn (es : List RequestEvent) :
    (Always step Undisturbed {} es ↔ Each step ErasesOwn {} es) ∧
      (Each step FreesId {} es → Always step Undisturbed {} es) := by
  have hiff : Always step Undisturbed {} es ↔ Each step ErasesOwn {} es :=
    always_iff_each (I := Tracked) (fun _ h => h.undisturbed)
      (fun _ _ _ h hown hs => h.step hown hs)
      (fun _ _ _ h hown hs => h.step_disturbed hown hs) Tracked.start
  refine ⟨hiff, fun hfree => hiff.mpr ?_⟩
  exact Each.imp_of (I := fun s => s.Tracked ∧ s.Ordered)
    (fun s e h _ => h.2.erasesOwn h.1 e) freesId_invariant ⟨Tracked.start, Ordered.start⟩ hfree

/-- One of the two parts of a response to request 0. -/
def responsePart (index : UInt8) : EspNowFragment where
  header := { id := 0, isResponse := 1, index, count := 2, size := 245 }
  bytes := List.replicate 245 7

/-- Two requests of two packets each under the same id; between them are 255 messages, which are
refused.  The packets of the first are delivered in the other order, and so are the parts of its
answer, with a part of another peer's message between them; a packet of the second is lost. -/
def idFreedAgain : List RequestEvent :=
  [.request (long 1) fun _ => true, .sent 0 1 true, .sent 0 0 true, .runTask, .runTask, .runTask,
    .runTask, .received ((responsePart 1).arrive (Vector.replicate 6 1)),
    .received ((halfPart 0 0 5).arrive (Vector.replicate 6 2)),
    .received ((responsePart 0).arrive (Vector.replicate 6 1)), .runTask, .runTask] ++
  List.replicate 255 (.send [] fun _ => true) ++
  [.request (long 2) fun _ => true, .sent 256 0 true, .sent 256 1 false] ++
  List.replicate 6 .runTask

/-- The first request is delivered, the second fails, and neither disturbs the other. -/
theorem undisturbed_under_one_id :
    (run step {} idFreedAgain).map (fun s => s.made.map fun r =>
      (r.id, r.send, decide (s.Delivered r), decide (s.Failed r))) =
        some [(0, 0, true, false), (0, 256, false, true)] ∧
      Always step Undisturbed {} idFreedAgain :=
  ⟨by decide +kernel, (undisturbed_iff_erasesOwn _).2 (by decide +kernel)⟩

/-! ## A request that loses its entry -/

section Lost
variable {s t : EspNowRequests}

theorem request_byte (hinit : s.node.initialized = true) (byte : UInt8)
    (accepted : Nat → Bool) :
    s.request [byte] accepted = (s.register.sendImpl s.node.id accepted
      (some [{
        header := { id := s.node.id, isResponse := 0, index := 0, count := 1, size := 1 },
        bytes := [byte] }])).attach s.node.id s.sends 1 := by
  rw [request, if_neg (by simp [hinit]), sendImpl_one]
  rfl

/-- The futures of a request of one packet that is not failed at once. -/
def attached (futures : Futures SendPromise SendResult) (send : Nat) :
    Futures SendPromise SendResult :=
  let k := futures.calls
  let packet := PromiseId.source (.packet send 0)
  let futures := (futures.ofSource (.packet send 0)).2
  let futures := (futures.all [packet]).2
  let futures := (futures.thenValue packet).2
  let futures := (futures.ofSource (.reply send)).2
  let futures := (futures.thenFuture false (.derived (k + 2))).2
  (futures.onError false (.derived (k + 4))).2

theorem request_futures (hinit : s.node.initialized = true) (byte : UInt8) :
    (s.request [byte] fun _ => true).system.futures =
      attached s.register.system.futures s.sends := by
  rw [request_byte hinit]
  have hsends : s.register.sends = s.sends := (register_spec s).1.2.1
  simp only [sendImpl, attach, sendPackets, hsends, List.length_cons, List.length_nil, if_true]
  generalize s.register = u
  simp [call, FutureSystem.call, FutureSystem.step, FutureBuild.apply, Nat.add_assoc]
  rfl

theorem attached_waits {f : Futures SendPromise SendResult} (send : Nat)
    (hpacket : f.ended (.source (.packet send 0)) = none)
    (hderived : ∀ n, f.calls ≤ n → f.ended (.derived n) = none) :
    (attached f send).dispatched = f.dispatched ∧
      ∀ q, q ≠ .source (.packet send 0) → (∀ n, f.calls ≤ n → q ≠ .derived n) →
        (attached f send).promises q = f.promises q := by
  obtain ⟨hd₁, hp₁⟩ := Futures.onFinished_waits
    (s := ((f.ofSource (.packet send 0)).2.all [.source (.packet send 0)]).2.create.2) hpacket
    (.thenValue (.source (.packet send 0)) (f.calls + 2) (.derived (f.calls + 2)))
  obtain ⟨hd₂, hp₂⟩ := Futures.onFinished_waits
    (s := ((((f.ofSource (.packet send 0)).2.all [.source (.packet send 0)]).2.thenValue
      (.source (.packet send 0))).2.ofSource (.reply send)).2.create.2)
    (p := .derived (f.calls + 2))
    ((Futures.ended_onFinished ..).trans (hderived _ (Nat.le_add_right ..)))
    (.thenFuture (.derived (f.calls + 2)) (f.calls + 4) false (.derived (f.calls + 4)))
  obtain ⟨hd₃, hp₃⟩ := Futures.onFinished_waits
    (s := (((((f.ofSource (.packet send 0)).2.all [.source (.packet send 0)]).2.thenValue
      (.source (.packet send 0))).2.ofSource (.reply send)).2.thenFuture false
      (.derived (f.calls + 2))).2.create.2)
    (p := .derived (f.calls + 4))
    ((Futures.ended_onFinished ..).trans ((Futures.ended_onFinished ..).trans
      (hderived _ (Nat.le_add_right ..))))
    (.onError (.derived (f.calls + 4)) (f.calls + 5) false (.derived (f.calls + 5)))
  refine ⟨hd₃.trans (hd₂.trans hd₁), ?_⟩
  intro q hpacket hq
  exact (hp₃ q (hq _ (Nat.le_add_right ..))).trans
    ((hp₂ q (hq _ (Nat.le_add_right ..))).trans (hp₁ q hpacket))

/-- The first request was delivered and waits for its reply, and nothing else is under way. -/
structure Waits (s : EspNowRequests) : Prop where
  tracked : s.Tracked
  initialized : s.node.initialized = true
  entry : s.node.requests 0 = some 0
  made : s.made = [{ id := 0, send := 0, packets := 1, onError := 5 }]
  dispatched : s.system.futures.dispatched = []
  calls : 6 ≤ s.system.futures.calls
  fresh : ∀ n, s.system.futures.calls ≤ n → s.system.futures.promises (.derived n) = {}
  sends : 0 < s.sends
  packet : ∀ n i, 0 < n → s.system.futures.ended (.source (.packet n i)) = none
  reply : s.system.futures.promises (.source (.reply 0)) =
    { onFinishedCallbacks := [.forward (.source (.reply 0)) false (.derived 4)] }
  chained : s.system.futures.promises (.derived 4) =
    { onFinishedCallbacks := [.onError (.derived 4) 5 false (.derived 5)] }

theorem first_waits : ∃ s, run step {} [.request [1] fun _ => true, .sent 0 0 true, .runTask,
    .runTask] = some s ∧ s.Waits ∧ s.node.id = 1 := by
  have hrequest : step {} (.request [1] fun _ => true) = some _ :=
    congrArg some (request_byte rfl 1 _)
  have hrun := run_cons hrequest [.sent 0 0 true, .runTask, .runTask]
  refine ⟨_, hrun, ⟨?_, rfl, rfl, rfl, rfl, Nat.le_refl 6, ?_, Nat.one_pos, ?_, rfl, rfl⟩, rfl⟩
  · refine (run_each_invariant (I := fun s => s.Tracked ∧ s.Ordered) freesId_invariant
      ⟨Tracked.start, Ordered.start⟩ ?_ hrun).1
    exact fun _ _ => ⟨fun _ r hr => (by cases hr), fun _ _ => ⟨trivial, fun _ _ =>
      ⟨trivial, fun _ _ => ⟨trivial, trivial⟩⟩⟩⟩
  · intro n hn
    obtain ⟨m, rfl⟩ := Nat.exists_eq_add_of_le' hn
    rfl
  · intro n i hn
    cases n with
    | zero => exact absurd hn (Nat.lt_irrefl 0)
    | succ n => rfl

theorem Waits.send (h : s.Waits) (accepted : Nat → Bool) :
    (s.send [] accepted).Waits ∧ (s.send [] accepted).node.id = s.node.id + 1 := by
  have hnode : s.node.send [] = (none, { s.node with id := s.node.id + 1 }) := by
    rw [AsyncEspNowInteraction.send, if_neg (by simp [h.initialized])]
    rfl
  have hsend : s.send [] accepted =
      { ({ s with node := { s.node with id := s.node.id + 1 } } : EspNowRequests).call
          (.settled .error) none with sends := s.sends + 1 } := by
    rw [EspNowRequests.send, hnode]
    rfl
  have htracked : (s.send [] accepted).Tracked :=
    h.tracked.step (e := .send [] accepted) trivial rfl
  rw [hsend] at htracked ⊢
  have hcalls := h.calls
  have hnew := h.fresh _ (Nat.le_refl _)
  obtain ⟨hdispatched, -, hother⟩ := Futures.settle_dispatches
    (s := s.system.futures.create.2) (p := .derived s.system.futures.calls)
    (congrArg Promise.finished hnew) .error
  refine ⟨⟨htracked, h.initialized, h.entry, h.made, ?_, Nat.le_succ_of_le h.calls, ?_,
    Nat.succ_pos _, ?_, ?_, ?_⟩, rfl⟩
  · refine hdispatched.trans ?_
    rw [show s.system.futures.create.2.promises = s.system.futures.promises from rfl, hnew]
    exact (List.append_nil _).trans h.dispatched
  · intro n hn
    refine (hother _ ?_).trans (h.fresh n (Nat.le_of_succ_le hn))
    simp only [ne_eq, PromiseId.derived.injEq]
    exact (Nat.lt_of_succ_le hn).ne'
  · intro n i hn
    exact (congrArg Promise.ended (hother (.source (.packet n i)) (by simp))).trans
      (h.packet n i hn)
  · exact (hother (.source (.reply 0)) (by simp)).trans h.reply
  · refine (hother _ ?_).trans h.chained
    simp only [ne_eq, PromiseId.derived.injEq]
    omega

theorem Waits.sends_run (h : s.Waits) (accepted : Nat → Bool) (n : Nat) :
    ∃ t, run step s (List.replicate n (.send [] accepted)) = some t ∧ t.Waits ∧
      t.node.id = s.node.id + UInt8.ofNat n := by
  induction n generalizing s with
  | zero => exact ⟨s, rfl, h, (UInt8.add_zero _).symm⟩
  | succ n ih =>
      obtain ⟨hwaits, hid⟩ := h.send accepted
      obtain ⟨t, hrun, ht, hidt⟩ := ih hwaits
      refine ⟨t, hrun, ht, ?_⟩
      rw [hidt, hid, UInt8.ofNat_add, UInt8.add_assoc, UInt8.add_comm (UInt8.ofNat n)]
      rfl

theorem runTask_forward {p ret chained : PromiseId SendPromise} {isVoid : Bool}
    (hd : s.system.futures.dispatched = [(p, .forward ret isVoid chained)])
    (hs : (s.system.futures.promises p).success = false) :
    ∃ f : Futures SendPromise SendResult, s.runTask = some { s with system :=
        { s.system with futures := f.settle chained .error } } ∧
      f.dispatched = [] ∧ f.promises = s.system.futures.promises := by
  obtain ⟨f, hpop, hf, hp⟩ := Futures.pop_cons hd
  refine ⟨f, ?_, hf, hp⟩
  simp [runTask, nextFn, hd, FutureCallback.userFn, FutureSystem.step,
    Futures.processPendingTasks, hpop, Futures.invoke, hp, hs]

/-- A newer request takes the id while the first one waits: the first one is cancelled, and its
`on_error` function is to run. -/
theorem Waits.cancelled (h : s.Waits) (hid : s.node.id = 0) :
    ∃ t, run step s [.request [1] fun _ => true, .runTask] = some t ∧ t.Tracked ∧
      t.made.head? = some { id := 0, send := 0, packets := 1, onError := 5 } ∧
      t.node.requests 0 = some s.sends ∧
      t.system.futures.dispatched =
        [(.derived 4, .onError (.derived 4) 5 false (.derived 5))] ∧
      (t.system.futures.promises (.derived 4)).success = false := by
  obtain ⟨r, hr⟩ := request_spec h.initialized [1] fun _ => true
  have htracked := h.tracked.request hr
  have hfutures := request_futures h.initialized 1
  have hregister : s.register.system.futures =
      s.system.futures.settle (.source (.reply 0)) .error := by
    simp only [register, hid, h.entry]
    rfl
  -- the reply's promise dispatches what forwards it
  obtain ⟨hd₀, hs₀, hp₀⟩ := Futures.settle_dispatches (s := s.system.futures)
    (p := .source (.reply 0)) (by rw [h.reply]) .error
  obtain ⟨hd₁, hp₁⟩ := attached_waits (f := s.register.system.futures) s.sends
    (by rw [hregister, Futures.ended_settle_of_ne _ _ (by simp)]
        exact h.packet _ _ h.sends)
    (fun n hn => by
      rw [hregister] at hn ⊢
      rw [Futures.ended_settle_of_ne _ _ (by simp), Futures.ended, h.fresh n hn]
      rfl)
  rw [hregister] at hfutures hd₁ hp₁
  rw [hd₀, h.dispatched, h.reply] at hd₁
  have hd : (s.request [1] fun _ => true).system.futures.dispatched =
      [(.source (.reply 0), .forward (.source (.reply 0)) false (.derived 4))] := by
    rw [hfutures]
    exact hd₁
  have hs : ((s.request [1] fun _ => true).system.futures.promises
      (.source (.reply 0))).success = false := by
    rw [hfutures, hp₁ _ (by simp) (by simp), hs₀]
    rfl
  have hchained : (s.request [1] fun _ => true).system.futures.promises (.derived 4) =
      { onFinishedCallbacks := [.onError (.derived 4) 5 false (.derived 5)] } := by
    rw [hfutures, hp₁ _ (by simp) (fun n hn => ?_), hp₀ _ (by simp), h.chained]
    have hcalls := h.calls
    simp only [ne_eq, PromiseId.derived.injEq]
    exact fun heq => absurd (heq ▸ hn : s.system.futures.calls ≤ 4) (by omega)
  obtain ⟨f, hrun, hf, hp⟩ := runTask_forward hd hs
  obtain ⟨hd₂, hs₂, -⟩ := Futures.settle_dispatches (s := f) (p := .derived 4)
    (by rw [hp, hchained]) .error
  refine ⟨_, run_cons rfl _ |>.trans (run_cons hrun []), htracked.runTask ?_ hrun, ?_, ?_, ?_, hs₂⟩
  · intro p callback k self hhead hu
    rw [hd] at hhead
    cases hhead
    cases hu
  · exact (congrArg List.head? hr.made).trans (by rw [h.made]; rfl)
  · exact (congrFun hr.requests 0).trans (by rw [hid, Function.update_self])
  · rw [hf, hp, hchained] at hd₂
    exact hd₂

theorem runTask_enabled {task : PromiseId SendPromise × FutureCallback SendPromise}
    (hd : s.system.futures.dispatched.head? = some task) : ∃ t, s.runTask = some t := by
  obtain ⟨f, hpop⟩ := Futures.pop_of_head hd
  rw [← Option.isSome_iff_exists]
  rw [runTask]
  split <;> simp [FutureSystem.step, Futures.processPendingTasks, hpop]

/-- A request is delivered; 255 ids later a newer request takes its id; the `on_error` function
of the older one runs. -/
def idTakenAgain : List RequestEvent :=
  [.request [1] fun _ => true, .sent 0 0 true, .runTask, .runTask] ++
    (List.replicate 255 (.send [] fun _ => true) ++
      ([.request [1] fun _ => true, .runTask] ++ [.runTask]))

/-- The newer request is neither replied nor failed, and its entry is erased. -/
theorem older_erases_newer : ¬ Always step Undisturbed {} idTakenAgain := by
  obtain ⟨s, hrun, hwaits, hid⟩ := first_waits
  obtain ⟨t, hsends, hwaits', hid'⟩ := hwaits.sends_run (fun _ => true) 255
  rw [hid] at hid'
  obtain ⟨u, hcancel, htracked, hmade, hentry, hd, hsuccess⟩ := hwaits'.cancelled hid'
  have hhead := congrArg List.head? hd
  obtain ⟨v, hv⟩ := runTask_enabled hhead
  have hown : ¬ u.ErasesOwn .runTask := by
    intro hown
    have hsend := hown _ _ 5 (.derived 4) hhead (by rw [hsuccess]; rfl) _
      (List.mem_of_mem_head? hmade) rfl _ hentry
    exact hwaits'.sends.ne' hsend
  have hreached : run step {} idTakenAgain = some v := by
    rw [idTakenAgain, run_append_of hrun, run_append_of hsends, run_append_of hcancel]
    exact run_cons hv []
  exact fun h => htracked.disturbed hown hv (always_iff_reached.mp h _ [] v (List.append_nil _).symm
    hreached)

end Lost

end EspNowRequests

end EspIot
