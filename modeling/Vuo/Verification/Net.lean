import Vuo.Model.Net
import Vuo.Model.Shim.Loop

/-!
# What the probe may say

The lines of the route files are read as routes; what the probe says is compared
with the routes there are.
-/

namespace Vuo.Net

/-! ## The routes of the files -/

/-- A route, as far as a line was understood. -/
structure Route where
  iface : List Char
  isDefault : Bool
  up : Bool

namespace Route

/-- A default route that leads out. -/
def Default (r : Route) : Prop :=
  r.isDefault = true ∧ r.iface ≠ loopback

/-- ... and that is up. -/
def Out (r : Route) : Prop :=
  r.Default ∧ r.up = true

instance (r : Route) : Decidable r.Default :=
  inferInstanceAs (Decidable (_ ∧ _))

instance (r : Route) : Decidable r.Out :=
  inferInstanceAs (Decidable (_ ∧ _))

end Route

/-- A line of `/proc/net/route`: eight columns, of which the fourth is a number. -/
def readV4 (line : List Char) : Option Route :=
  match splitWhitespace line with
  | iface :: destination :: _ :: flags :: _ :: _ :: _ :: mask :: _ =>
      (parseHexU32 flags).map fun flags =>
        { iface := iface
          isDefault := isZeros destination && isZeros mask
          up := flags &&& rtfUp ≠ 0 }
  | _ => none

/-- A line of `/proc/net/ipv6_route`: the destination first, the interface last. The
ninth column holds the flags. -/
def readV6 (line : List Char) : Option Route :=
  match splitWhitespace line with
  | destination :: prefixLength :: rest =>
      some
        { iface := (prefixLength :: rest).getLast (List.cons_ne_nil _ _)
          isDefault := isZeros destination && isZeros prefixLength
          up := (rest[6]?.bind parseHexU32).any fun flags => flags &&& rtfUp ≠ 0 }
  | _ => none

theorem defaultRouteIfaceV4_eq (line : List Char) :
    defaultRouteIfaceV4 line =
      (readV4 line).bind fun r => if r.Out then some r.iface else none := by
  unfold defaultRouteIfaceV4 readV4
  rcases splitWhitespace line with _ | ⟨iface, _ | ⟨destination, _ | ⟨gateway, _ | ⟨flags, _ |
    ⟨refcnt, _ | ⟨uses, _ | ⟨metric, _ | ⟨mask, rest⟩⟩⟩⟩⟩⟩⟩⟩
  · rfl
  · rfl
  · rfl
  · rfl
  · rfl
  · rfl
  · rfl
  · rfl
  · simp only [Option.bind_map]
    refine congrArg (Option.bind _) (funext fun flags => if_congr ?_ rfl rfl)
    simp only [Route.Out, Route.Default, decide_eq_true_eq]
    tauto

theorem defaultRouteIfaceV6_eq (line : List Char) :
    defaultRouteIfaceV6 line =
      (readV6 line).bind fun r => if r.Default then some r.iface else none := by
  unfold defaultRouteIfaceV6 readV6
  rcases splitWhitespace line with _ | ⟨destination, _ | ⟨prefixLength, rest⟩⟩
  · rfl
  · rfl
  · simp only [List.head?_cons, Option.bind_some, List.getElem?_cons_succ,
      List.getElem?_cons_zero, List.getLast?_cons_cons, List.getLast?_eq_some_getLast
        (List.cons_ne_nil prefixLength rest)]
    rfl

section Files

variable (root : Root)

/-- The lines of the readable files, without the header of the first. -/
def linesV4 : List (List Char) :=
  (root.route.map fun text => (lines text).drop 1).getD []

def linesV6 : List (List Char) :=
  (root.ipv6Route.map lines).getD []

def routesV4 : List Route :=
  (linesV4 root).filterMap readV4

def routesV6 : List Route :=
  (linesV6 root).filterMap readV6

/-- Every line that is not blank was understood. -/
def Understood : Prop :=
  (∀ line ∈ linesV4 root, splitWhitespace line ≠ [] → (readV4 line).isSome) ∧
    ∀ line ∈ linesV6 root, splitWhitespace line ≠ [] → (readV6 line).isSome

/-- A default route that is up, over an interface with `P`. -/
def LeadsOut (P : List Char → Prop) : Prop :=
  ∃ r ∈ routesV4 root ++ routesV6 root, r.Out ∧ P r.iface

/-- A default route that is up, or one of IPv6 that need not be. -/
def Followed (P : List Char → Prop) : Prop :=
  (∃ r ∈ routesV4 root, r.Out ∧ P r.iface) ∨ ∃ r ∈ routesV6 root, r.Default ∧ P r.iface

end Files

variable {root : Root}

theorem LeadsOut.followed {P : List Char → Prop} (h : LeadsOut root P) : Followed root P := by
  obtain ⟨r, hr, hout, hP⟩ := h
  rcases List.mem_append.1 hr with h4 | h6
  · exact .inl ⟨r, h4, hout, hP⟩
  · exact .inr ⟨r, h6, hout.1, hP⟩

/-! ## The interfaces the probe looks at -/

def ifaces (root : Root) : List (List Char) :=
  (root.route.map defaultRouteIfacesV4).getD [] ++
    (root.ipv6Route.map defaultRouteIfacesV6).getD []

theorem mem_filterMap_bind {α β γ : Type*} {l : List α} {f : α → Option β} {p : β → Prop}
    [DecidablePred p] {g : β → γ} {c : γ} :
    c ∈ l.filterMap (fun a => (f a).bind fun b => if p b then some (g b) else none) ↔
      ∃ b ∈ l.filterMap f, p b ∧ g b = c := by
  simp only [List.mem_filterMap, Option.bind_eq_some_iff, Option.ite_none_right_eq_some,
    Option.some.injEq]
  tauto

theorem mem_ifaces {iface : List Char} :
    iface ∈ ifaces root ↔ Followed root fun other => other = iface := by
  have h4 : (root.route.map defaultRouteIfacesV4).getD [] =
      (linesV4 root).filterMap defaultRouteIfaceV4 := by
    unfold linesV4
    cases root.route <;> rfl
  have h6 : (root.ipv6Route.map defaultRouteIfacesV6).getD [] =
      (linesV6 root).filterMap defaultRouteIfaceV6 := by
    unfold linesV6
    cases root.ipv6Route <;> rfl
  rw [ifaces, h4, h6, List.mem_append, funext defaultRouteIfaceV4_eq,
    funext defaultRouteIfaceV6_eq, mem_filterMap_bind, mem_filterMap_bind]
  rfl

theorem exists_mem_ifaces {P : List Char → Prop} :
    (∃ iface ∈ ifaces root, P iface) ↔ Followed root P := by
  simp only [mem_ifaces, Followed]
  constructor
  · rintro ⟨_, ⟨r, hr, hout, rfl⟩ | ⟨r, hr, hdefault, rfl⟩, hP⟩
    · exact .inl ⟨r, hr, hout, hP⟩
    · exact .inr ⟨r, hr, hdefault, hP⟩
  · rintro (⟨r, hr, hout, hP⟩ | ⟨r, hr, hdefault, hP⟩)
    · exact ⟨_, .inl ⟨r, hr, hout, rfl⟩, hP⟩
    · exact ⟨_, .inr ⟨r, hr, hdefault, rfl⟩, hP⟩

/-- A file that cannot be read has no lines. -/
theorem readable_of_followed {P : List Char → Prop} (h : Followed root P) :
    ¬(root.route = none ∧ root.ipv6Route = none) := by
  rintro ⟨h4, h6⟩
  obtain ⟨iface, hmem, -⟩ := exists_mem_ifaces.2 h
  simp [ifaces, h4, h6] at hmem

/-! ## What the probe says -/

theorem probeUnder_eq (root : Root) :
    probeUnder root =
      if root.route = none ∧ root.ipv6Route = none then .unknown
      else if ifaces root = [] then .offline
      else if (ifaces root).any (isWireless root) then .wifi
      else .metered :=
  rfl

theorem probeUnder_eq_offline :
    probeUnder root = .offline ↔
      ¬(root.route = none ∧ root.ipv6Route = none) ∧ ¬Followed root fun _ => True := by
  have hnone : ifaces root = [] ↔ ¬Followed root fun _ => True := by
    rw [← exists_mem_ifaces, List.eq_nil_iff_forall_not_mem]
    simp
  rw [probeUnder_eq, ← hnone]
  split_ifs with hfiles hempty hany
  · simp [hfiles]
  · simp [hfiles, hempty]
  · simp [hempty]
  · simp [hempty]

theorem probeUnder_eq_wifi :
    probeUnder root = .wifi ↔ Followed root fun iface => isWireless root iface = true := by
  rw [← exists_mem_ifaces, ← List.any_eq_true, probeUnder_eq]
  split_ifs with hfiles hempty hany
  · simp [ifaces, hfiles.1, hfiles.2]
  · simp [hempty]
  · simp [hany]
  · simp [hany]

theorem followed_of_allows (h : (probeUnder root).allows true = true) :
    probeUnder root = .unknown ∨ Followed root fun iface => isWireless root iface = true := by
  cases hprobe : probeUnder root with
  | unknown => exact .inl rfl
  | wifi => exact .inr (probeUnder_eq_wifi.1 hprobe)
  | metered => simp [hprobe, Network.allows] at h
  | offline => simp [hprobe, Network.allows] at h

/-- Work that falls due while the network does not allow it is not begun. -/
theorem phase_fallDue {r : Shim.Loop.Reading} {s : Shim.Loop.State}
    (h : r.allowed s.vars.wifiOnly = false) : (s.fallDue r).phase = s.phase := by
  rw [Shim.Loop.State.fallDue, if_neg (by simp [h])]

/-- The probe tells of the routes there are. -/
structure Honest (root : Root) : Prop where
  offline : probeUnder root = .offline →
    (root.route.isSome ∨ root.ipv6Route.isSome) ∧ Understood root ∧
      ¬LeadsOut root fun _ => True
  wifi : probeUnder root = .wifi ↔ LeadsOut root fun iface => isWireless root iface = true
  promise : (probeUnder root).allows true = true →
    probeUnder root = .unknown ∨ Followed root fun iface => isWireless root iface = true
  /-- The worker, which asks the probe when work falls due. -/
  gate : ∀ (r : Shim.Loop.Reading) (s : Shim.Loop.State),
    (∀ wifiOnly, r.allowed wifiOnly = (probeUnder root).allows wifiOnly) →
      s.vars.wifiOnly = true → (s.fallDue r).phase ≠ s.phase →
        probeUnder root = .unknown ∨ Followed root fun iface => isWireless root iface = true

/-- What the probe says is so exactly if every line was understood where no default route
was found, and a wireless interface with a default route has one that is up. -/
theorem probe_honest_iff (root : Root) :
    Honest root ↔
      ((¬Followed root fun _ => True) → Understood root) ∧
        ((Followed root fun iface => isWireless root iface = true) →
          LeadsOut root fun iface => isWireless root iface = true) := by
  constructor
  · rintro ⟨hoffline, hwifi, -, -⟩
    refine ⟨fun hnone => ?_, fun h => hwifi.1 (probeUnder_eq_wifi.2 h)⟩
    by_cases hfiles : root.route = none ∧ root.ipv6Route = none
    · constructor <;> simp [linesV4, linesV6, hfiles.1, hfiles.2]
    · exact (hoffline (probeUnder_eq_offline.2 ⟨hfiles, hnone⟩)).2.1
  · rintro ⟨hunderstood, hup⟩
    refine ⟨fun hoffline => ?_, ⟨fun h => hup (probeUnder_eq_wifi.1 h), fun h => ?_⟩,
      followed_of_allows, fun r s hprobe hwifiOnly hbegun => ?_⟩
    · obtain ⟨hfiles, hnone⟩ := probeUnder_eq_offline.1 hoffline
      refine ⟨?_, hunderstood hnone, fun h => hnone h.followed⟩
      simpa [Option.isSome_iff_ne_none, or_iff_not_imp_left] using hfiles
    · exact probeUnder_eq_wifi.2 h.followed
    · refine followed_of_allows ?_
      by_contra hblocked
      refine hbegun (phase_fallDue ?_)
      rw [hwifiOnly, hprobe]
      simpa using hblocked

/-! ## Lines that are lost, and routes that are down -/

/-- A line of another layout, and nothing else. -/
def otherLayout : Root where
  route := some ['I', '\n', 'w', ' ', '0', ' ', '0', ' ', 'u', 'p', '\n']
  ipv6Route := none
  marked _ _ := true

/-- A wireless default route of IPv6 that is down. -/
def downRoute : Root where
  route := none
  ipv6Route := some ['0', ' ', '0', ' ', '0', ' ', '0', ' ', '0', ' ', '0', ' ', '0', ' ', '0',
    ' ', '2', ' ', 'w', '\n']
  marked _ _ := true

/-- What could not be understood passes for no network, and a route that is down for one. -/
theorem misread :
    (probeUnder otherLayout = .offline ∧ ¬Understood otherLayout) ∧
      probeUnder downRoute = .wifi ∧
        ¬LeadsOut downRoute fun iface => isWireless downRoute iface = true := by
  refine ⟨⟨by decide, fun h => ?_⟩, by decide, ?_⟩
  · have hline := h.1 ['w', ' ', '0', ' ', '0', ' ', 'u', 'p'] (by decide) (by decide)
    revert hline
    decide
  · rintro ⟨r, hr, ⟨-, hup⟩, -⟩
    have hall : ∀ r ∈ routesV4 downRoute ++ routesV6 downRoute, r.up = false := by
      decide
    simp [hall r hr] at hup

end Vuo.Net
