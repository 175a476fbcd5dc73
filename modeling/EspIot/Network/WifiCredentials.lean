/-
# `EspIot.Network.WifiCredentials` — the network `WiFi.begin` is called with

The manager has one field for the name of the network.  The constructor puts the name it is
given there, `_connect_sta_step` hands it to `WiFi.begin`, and `_connect_ap` writes the name
of its own access point over it:

    connect(AP), the fallback     _ssid = ssid + "_" + chip_id
    connect(STA, STA_AP)          WiFi.begin(_ssid, _password)

The access point's name is longer than the station's, so from its first start on no station
is ever looked for under the right name.  The password is not touched.
-/
import EspIot.Network.Wifi

namespace EspIot

open Lib

/-- The network `WiFi.begin` is asked for. -/
def WifiCommand.network : WifiCommand → Option (String × String)
  | .begin ssid password => some (ssid, password)
  | _ => none

namespace WifiManager

/-- The networks `WiFi.begin` has been asked for. -/
def networks (m : WifiManager) : List (String × String) := m.commands.filterMap WifiCommand.network

/-- Same name and password, and the access point has been started in both or in neither. -/
def SameNames (m t : WifiManager) : Prop :=
  t.ssid = m.ssid ∧ t.password = m.password ∧ t.apSsid = m.apSsid

/-- The access point has been started, or started again. -/
def StartsAp (m t : WifiManager) : Prop :=
  t.password = m.password ∧ t.apSsid = some t.ssid ∧
    t.ssid = m.apSsid.getD (m.ssid ++ "_" ++ m.chipId)

theorem networks_append (m : WifiManager) (commands : List WifiCommand) :
    networks { m with commands := m.commands ++ commands } =
      m.networks ++ commands.filterMap WifiCommand.network :=
  List.filterMap_append

/-! ## What a call does to the names -/

theorem connectAp_names {m : WifiManager} (h : m.state = .disconnected) :
    StartsAp m m.connectAp ∧ m.connectAp.networks = m.networks := by
  rw [connectAp, if_neg (not_not.mpr h)]
  refine ⟨⟨rfl, rfl, rfl⟩, ?_⟩
  exact (networks_append m _).trans (List.append_nil _)

theorem connect_ap_names {m : WifiManager} (h : m.state ≠ .connecting) (interval now : UInt32) :
    StartsAp m (m.connect .ap interval now) ∧
      (m.connect .ap interval now).networks = m.networks := by
  rw [connect, if_neg h]
  obtain ⟨hstarts, hsame⟩ := connectAp_names (m := m.prepare .ap interval) rfl
  refine ⟨hstarts, hsame.trans ?_⟩
  exact (networks_append m _).trans (List.append_nil _)

theorem connect_station_names {m : WifiManager} (h : m.state ≠ .connecting) {mode : WifiMode}
    (hmode : mode ≠ .ap) (interval now : UInt32) :
    SameNames m (m.connect mode interval now) ∧
      (m.connect mode interval now).networks = m.networks ++ [(m.ssid, m.password)] := by
  have hstation : m.connect mode interval now =
      (m.prepare mode interval).connectStaStep false now := by
    rw [connect, if_neg h]
    cases mode with
    | ap => exact absurd rfl hmode
    | sta => rfl
    | staAp => rfl
  rw [hstation]
  refine ⟨⟨rfl, rfl, rfl⟩, ?_⟩
  show networks { m with commands := (m.commands ++ [.disconnect]) ++ [_, _] } = _
  rw [List.append_assoc, networks_append]
  rfl

theorem connectStaStep_names {m : WifiManager} (h : m.state = .connecting) (linked : Bool)
    (now : UInt32) :
    (SameNames m (m.connectStaStep linked now) ∨ StartsAp m (m.connectStaStep linked now)) ∧
      (m.connectStaStep linked now).networks = m.networks := by
  rw [connectStaStep, h]
  cases linked with
  | true => exact ⟨.inl ⟨rfl, rfl, rfl⟩, rfl⟩
  | false =>
      cases hexceeded : m.exceeded now with
      | false => exact ⟨.inl ⟨rfl, rfl, rfl⟩, rfl⟩
      | true =>
          obtain ⟨hstarts, hsame⟩ := connectAp_names
            (m := { m with state := .disconnected }.prepare .ap defaultConnectionInterval) rfl
          refine ⟨.inr hstarts, hsame.trans ?_⟩
          exact (networks_append m _).trans (List.append_nil _)

end WifiManager

namespace WifiRun

open WifiManager

/-- The call looks for a station: it is one that takes effect, in a mode for stations. -/
def StartsStation (s : WifiRun) : WifiEvent → Prop
  | .elapse _ => False
  | .connect mode _ _ => s.manager.state ≠ .connecting ∧ mode ≠ .ap
  | .handleConnection isAp linked _ _ =>
      s.manager.state ≠ .connecting ∧ s.manager.mode ≠ .ap ∧ isAp = false ∧ linked = false ∧
        s.manager.connectionCheckInterval ≤ reading s.now - s.manager.lastConnectionCheck

/-- No station is looked for once the access point has been started. -/
def StationsFirst (s : WifiRun) (e : WifiEvent) : Prop :=
  s.StartsStation e → s.manager.apSsid = none

/-- **`WiFi.begin` has been called with this name and password only.** -/
def Asks (ssid password : String) (s : WifiRun) : Prop :=
  ∀ network ∈ s.manager.networks, network = (ssid, password)

theorem relink_names (s : WifiRun) (checks begins : ℕ) :
    s.manager.mode ≠ .ap ∧ SameNames s.manager (s.relink checks begins).manager ∧
        (s.relink checks begins).manager.networks =
          s.manager.networks ++ [(s.manager.ssid, s.manager.password)] ∨
      s.manager.mode = .ap ∧ StartsAp s.manager (s.relink checks begins).manager ∧
        (s.relink checks begins).manager.networks = s.manager.networks := by
  by_cases hmode : s.manager.mode = .ap
  · have hrelink : (s.relink checks begins).manager =
        WifiManager.connect .ap defaultConnectionInterval (reading ((s.look checks).now + begins))
          { (s.look checks).manager with state := .disconnected } := by
      rw [← hmode]
      rfl
    rw [hrelink]
    right
    refine ⟨hmode, ?_⟩
    exact connect_ap_names (m := { (s.look checks).manager with state := .disconnected })
      (fun h => by cases h) defaultConnectionInterval _
  · left
    refine ⟨hmode, ?_⟩
    exact connect_station_names (m := { (s.look checks).manager with state := .disconnected })
      (fun h => by cases h) hmode _ _

/-- What a step does to the names: a station is looked for, the access point is started, or
nothing. -/
theorem step_names {s t : WifiRun} {e : WifiEvent} (ht : s.step e = some t) :
    s.StartsStation e ∧ SameNames s.manager t.manager ∧
        t.manager.networks = s.manager.networks ++ [(s.manager.ssid, s.manager.password)] ∨
      ¬ s.StartsStation e ∧
        (SameNames s.manager t.manager ∨ StartsAp s.manager t.manager) ∧
        t.manager.networks = s.manager.networks := by
  cases e with
  | elapse millis =>
      cases ht
      exact .inr ⟨id, .inl ⟨rfl, rfl, rfl⟩, rfl⟩
  | connect mode interval begins =>
      cases ht
      rw [WifiRun.connect]
      by_cases hconnecting : s.manager.state = .connecting
      · rw [if_pos hconnecting]
        exact .inr ⟨fun h => h.1 hconnecting, .inl ⟨rfl, rfl, rfl⟩, rfl⟩
      · rw [if_neg hconnecting]
        by_cases hmode : mode = .ap
        · subst hmode
          obtain ⟨hstarts, hsame⟩ := connect_ap_names hconnecting interval
            (reading (s.now + begins))
          exact .inr ⟨fun h => h.2 rfl, .inr hstarts, hsame⟩
        · exact .inl ⟨⟨hconnecting, hmode⟩, connect_station_names hconnecting hmode _ _⟩
  | handleConnection isAp linked checks begins =>
      cases ht
      rw [WifiRun.handleConnection]
      by_cases hconnecting : s.manager.state = .connecting
      · rw [if_pos hconnecting]
        refine .inr ⟨fun h => h.1 hconnecting, ?_⟩
        split
        · exact connectStaStep_names hconnecting linked (reading s.now)
        · exact ⟨.inl ⟨rfl, rfl, rfl⟩, rfl⟩
      · rw [if_neg hconnecting]
        by_cases hearly :
            reading s.now - s.manager.lastConnectionCheck < s.manager.connectionCheckInterval
        · rw [if_pos hearly]
          exact .inr ⟨fun h => absurd hearly (UInt32.not_lt.mpr h.2.2.2.2),
            .inl ⟨rfl, rfl, rfl⟩, rfl⟩
        · rw [if_neg hearly]
          by_cases hlost : isAp = false ∧ linked = false
          · rw [if_pos hlost]
            rcases s.relink_names checks begins with ⟨hmode, hnames⟩ | ⟨hmode, hstarts, hsame⟩
            · exact .inl ⟨⟨hconnecting, hmode, hlost.1, hlost.2, UInt32.not_lt.mp hearly⟩, hnames⟩
            · exact .inr ⟨fun h => h.2.1 hmode, .inr hstarts, hsame⟩
          · rw [if_neg hlost]
            exact .inr ⟨fun h => hlost ⟨h.2.2.1, h.2.2.2.1⟩, .inl ⟨rfl, rfl, rfl⟩, rfl⟩

/-! ## The invariant -/

/-- The password is the configured one; the name is, until the access point is started, and from
then on it is another. -/
structure Named (ssid password : String) (s : WifiRun) : Prop where
  kept : s.manager.password = password
  configured : s.manager.apSsid = none → s.manager.ssid = ssid
  renamed : ∀ x, s.manager.apSsid = some x → s.manager.ssid = x ∧ x ≠ ssid
  asks : s.Asks ssid password

theorem append_chipId_ne (ssid chipId : String) : ssid ++ "_" ++ chipId ≠ ssid := by
  intro h
  have hlen := congrArg String.length h
  rw [String.length_append, String.length_append] at hlen
  have hone : ("_" : String).length = 1 := rfl
  omega

theorem Named.start (ssid password chipId : String) (checkInterval : UInt32) (now : ℕ) :
    Named ssid (create ssid password chipId checkInterval).password
      (start (create ssid password chipId checkInterval) now) where
  kept := rfl
  configured _ := rfl
  renamed _ hap := by cases hap
  asks _ hmem := by cases hmem

theorem Named.same {ssid password : String} {s t : WifiRun} (h : Named ssid password s)
    (hsame : SameNames s.manager t.manager) (hasks : t.Asks ssid password) :
    Named ssid password t := by
  obtain ⟨hssid, hpassword, hap⟩ := hsame
  refine ⟨hpassword.trans h.kept, ?_, ?_, hasks⟩
  · intro hnone
    rw [hssid]
    exact h.configured (hap.symm.trans hnone)
  · intro x hx
    rw [hssid]
    exact h.renamed x (hap.symm.trans hx)

theorem Named.startsAp {ssid password : String} {s t : WifiRun} (h : Named ssid password s)
    (hstarts : StartsAp s.manager t.manager) (hasks : t.Asks ssid password) :
    Named ssid password t := by
  obtain ⟨hpassword, hap, hname⟩ := hstarts
  refine ⟨hpassword.trans h.kept, ?_, ?_, hasks⟩
  · intro hnone
    rw [hap] at hnone
    cases hnone
  · intro x hx
    rw [hap] at hx
    cases hx
    refine ⟨rfl, ?_⟩
    cases hbefore : s.manager.apSsid with
    | none =>
        rw [hbefore, Option.getD_none, h.configured hbefore] at hname
        rw [hname]
        exact append_chipId_ne ssid s.manager.chipId
    | some x =>
        rw [hbefore, Option.getD_some] at hname
        rw [hname]
        exact (h.renamed x hbefore).2

theorem Named.step {ssid password : String} {s t : WifiRun} {e : WifiEvent}
    (h : Named ssid password s) (hallowed : s.StationsFirst e) (ht : s.step e = some t) :
    Named ssid password t := by
  rcases step_names ht with ⟨hstation, hsame, hnetworks⟩ | ⟨-, hnames, hnetworks⟩
  · refine h.same hsame ?_
    intro network hmem
    rw [hnetworks] at hmem
    rcases List.mem_append.mp hmem with hold | hnew
    · exact h.asks network hold
    · rw [List.mem_singleton.mp hnew, h.configured (hallowed hstation), h.kept]
  · have hasks : t.Asks ssid password := by
      intro network hmem
      rw [hnetworks] at hmem
      exact h.asks network hmem
    rcases hnames with hsame | hstarts
    · exact h.same hsame hasks
    · exact h.startsAp hstarts hasks

theorem Named.lost {ssid password : String} {s t : WifiRun} {e : WifiEvent}
    (h : Named ssid password s) (hnot : ¬ s.StationsFirst e) (ht : s.step e = some t) :
    ¬ t.Asks ssid password := by
  obtain ⟨hstation, hap⟩ := Classical.not_imp.mp hnot
  obtain ⟨x, hx⟩ := Option.ne_none_iff_exists'.mp hap
  obtain ⟨hname, hne⟩ := h.renamed x hx
  rcases step_names ht with ⟨-, -, hnetworks⟩ | ⟨hquiet, -⟩
  · intro hasks
    have hmem : (s.manager.ssid, s.manager.password) ∈ t.manager.networks := by
      rw [hnetworks]
      exact List.mem_append_right _ (List.mem_singleton.mpr rfl)
    exact hne (hname.symm.trans (congrArg Prod.fst (hasks _ hmem)))
  · exact absurd hstation hquiet

/-! ## The configured network -/

/-- **Every `WiFi.begin` of a run is called with the configured network exactly where no station
is looked for after the access point has been started.** -/
theorem asks_iff_stationsFirst (ssid password chipId : String) (checkInterval : UInt32)
    (now : ℕ) (es : List WifiEvent) :
    Always step (Asks ssid (create ssid password chipId checkInterval).password)
        (start (create ssid password chipId checkInterval) now) es ↔
      Each step StationsFirst (start (create ssid password chipId checkInterval) now) es := by
  refine always_iff_each (I := Named ssid (create ssid password chipId checkInterval).password)
    (fun s h => h.asks) ?_ ?_ (Named.start ssid password chipId checkInterval now)
  · intro s e t h hallowed ht
    exact h.step hallowed ht
  · intro s e t h hnot ht
    exact h.lost hnot ht

/-- An access point, then the station: `WiFi.begin("home_ABCD", …)`. -/
theorem station_after_ap :
    ¬ Always step (Asks "home" "password") (start (create "home" "password" "ABCD" 5000) 0)
      [.connect .ap 0 0, .connect .sta 0 0] := by
  intro h
  have hasks := always_iff_reached.mp h _ [] _ (List.append_nil _).symm rfl
  exact absurd (hasks ("home_ABCD", "password") (by decide)) (by decide)

end WifiRun

end EspIot
